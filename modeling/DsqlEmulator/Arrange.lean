import Mathlib.Data.List.Perm.Subperm
import Mathlib.Data.List.Lattice
import Mathlib.Data.Bool.Count

/-! Items shared out over places, of which some are open.  What the open places show, over
all ways to share the items out. -/

namespace DsqlEmulator

section Places

variable {α β : Type} {f : α → Option β}

def shown (f : α → Option β) : List Bool → List α → List β
  | isOpen :: places, a :: items => (if isOpen then (f a).toList else []) ++ shown f places items
  | _, _ => []

def place : List Bool → List α → List α → List α
  | true :: places, a :: front, back => a :: place places front back
  | false :: places, front, a :: back => a :: place places front back
  | _, _, _ => []

theorem place_laws {places : List Bool} {front back : List α}
    (hfront : front.length = places.count true) (hback : back.length = places.count false) :
    (place places front back).length = places.length ∧ (place places front back).Perm
      (front ++ back) ∧ shown f places (place places front back) = front.filterMap f := by
  induction places generalizing front back with
  | nil =>
    obtain rfl := List.length_eq_zero_iff.1 hfront
    obtain rfl := List.length_eq_zero_iff.1 hback
    exact ⟨rfl, .nil, rfl⟩
  | cons isOpen places ih =>
    cases isOpen with
    | true =>
      rw [List.count_cons_self] at hfront
      rw [List.count_cons_of_ne (by decide)] at hback
      obtain ⟨a, front, rfl⟩ := List.exists_cons_of_length_eq_add_one hfront
      obtain ⟨hlen, hperm, hshown⟩ := ih (Nat.succ.inj hfront) hback
      refine ⟨congrArg Nat.succ hlen, hperm.cons a, ?_⟩
      rw [place, shown, hshown, if_pos rfl, List.filterMap_cons]
      cases f a <;> rfl
    | false =>
      rw [List.count_cons_of_ne (by decide)] at hfront
      rw [List.count_cons_self] at hback
      obtain ⟨a, back, rfl⟩ := List.exists_cons_of_length_eq_add_one hback
      obtain ⟨hlen, hperm, hshown⟩ := ih hfront (Nat.succ.inj hback)
      refine ⟨congrArg Nat.succ hlen, (hperm.cons a).trans List.perm_middle.symm, ?_⟩
      rw [place, shown, hshown, if_neg Bool.false_ne_true, List.nil_append]

theorem exists_front {places : List Bool} {items : List α} (hlen : items.length = places.length) :
    ∃ front back, items.Perm (front ++ back) ∧ front.length = places.count true ∧
      shown f places items = front.filterMap f := by
  induction places generalizing items with
  | nil =>
    obtain rfl := List.length_eq_zero_iff.1 hlen
    exact ⟨[], [], .nil, rfl, rfl⟩
  | cons isOpen places ih =>
    obtain ⟨a, items, rfl⟩ := List.exists_cons_of_length_eq_add_one hlen
    obtain ⟨front, back, hperm, hfront, hshown⟩ := ih (Nat.succ.inj hlen)
    cases isOpen with
    | true =>
      refine ⟨a :: front, back,
        hperm.cons a, by rw [List.length_cons, hfront, List.count_cons_self], ?_⟩
      rw [shown, hshown, if_pos rfl, List.filterMap_cons]
      cases f a <;> rfl
    | false =>
      refine ⟨front, a :: back, (hperm.cons a).trans List.perm_middle.symm, ?_, ?_⟩
      · rw [hfront, List.count_cons_of_ne (by decide)]
      · rw [shown, hshown, if_neg Bool.false_ne_true, List.nil_append]

structure Showable (m n : Nat) (all l : List β) : Prop where
  subperm : l.Subperm all
  le : l.length ≤ m
  room : m + all.length ≤ l.length + n

theorem Showable.of_perm {m n : Nat} {all all' l : List β} (hperm : all'.Perm all)
    (h : Showable m n all' l) : Showable m n all l :=
  ⟨hperm.subperm_left.1 h.subperm, h.le, hperm.length_eq ▸ h.room⟩

theorem exists_items {l : List β} {items : List α} (h : l.Subperm (items.filterMap f)) :
    ∃ front back, items.Perm (front ++ back) ∧ front.length = l.length ∧ front.filterMap f = l := by
  induction l generalizing items with
  | nil => exact ⟨[], items, .refl _, rfl, rfl⟩
  | cons b l ih =>
    obtain ⟨a, ha, hb⟩ := List.mem_filterMap.1 (h.subset List.mem_cons_self)
    obtain ⟨before, after, rfl⟩ := List.append_of_mem ha
    have hperm : (before ++ a :: after).Perm (a :: (before ++ after)) := List.perm_middle
    have hrest : (b :: l).Subperm (b :: (before ++ after).filterMap f) := by
      have hshow := hperm.filterMap f
      rw [List.filterMap_cons_some hb] at hshow
      exact hshow.subperm_left.1 h
    obtain ⟨front, back, hitems, hlen, hshown⟩ := ih (List.subperm_cons b |>.1 hrest)
    exact ⟨a :: front, back, hperm.trans (hitems.cons a), congrArg Nat.succ hlen,
      by rw [List.filterMap_cons_some hb, hshown]⟩

theorem length_filterMap_of_perm {items front back : List α} (h : items.Perm (front ++ back)) :
    (items.filterMap f).length = (front.filterMap f).length + (back.filterMap f).length := by
  rw [(h.filterMap f).length_eq, List.filterMap_append, List.length_append]

theorem exists_shown_iff {places : List Bool} {items : List α} {l : List β}
    (hlen : items.length = places.length) :
    (∃ items', items'.Perm items ∧ shown f places items' = l) ↔
      Showable (places.count true) places.length (items.filterMap f) l := by
  constructor
  · rintro ⟨items', hperm, rfl⟩
    obtain ⟨front, back, hitems, hfront, hshown⟩ :=
      exists_front (f := f) (hperm.length_eq.trans hlen)
    have htotal : items.length = front.length + back.length := by
      rw [← hperm.length_eq, hitems.length_eq, List.length_append]
    have hall := length_filterMap_of_perm (f := f) (hperm.symm.trans hitems)
    have hback := List.length_filterMap_le f back
    rw [hshown]
    refine ⟨?_, hfront ▸ List.length_filterMap_le f front, by omega⟩
    have hsub : (front.filterMap f).Sublist ((front ++ back).filterMap f) :=
      (List.sublist_append_left front back).filterMap f
    exact ((hperm.symm.trans hitems).filterMap f).symm.subperm_left.1 hsub.subperm
  · rintro ⟨hsub, hle, hroom⟩
    obtain ⟨front, back, hitems, hfront, hshown⟩ := exists_items hsub
    -- of the other items, those that show nothing fill up the open places
    let dull := back.filter fun a => !(f a).isSome
    let rest := back.filter fun a => (f a).isSome
    have hback : back.Perm (dull ++ rest) :=
      (List.perm_append_comm.trans (List.filter_append_perm _ back)).symm
    have hdull (k : Nat) : (dull.take k).filterMap f = [] := by
      refine List.filterMap_eq_nil_iff.2 fun a ha => ?_
      simpa using (List.mem_filter.1 (List.mem_of_mem_take ha)).2
    have hrest : rest.length = (back.filterMap f).length := by
      rw [List.length_filterMap_eq_countP, List.countP_eq_length_filter]
    have htotal : items.length = l.length + (dull.length + rest.length) := by
      rw [hitems.length_eq, List.length_append, hfront, hback.length_eq, List.length_append]
    have hall := length_filterMap_of_perm (f := f) hitems
    have hcount := places.count_true_add_count_false
    rw [hshown] at hall
    have hfront' : (front ++ dull.take (places.count true - l.length)).length =
        places.count true := by
      rw [List.length_append, hfront, List.length_take]
      omega
    have hback' : (dull.drop (places.count true - l.length) ++ rest).length =
        places.count false := by
      rw [List.length_append, List.length_drop]
      omega
    obtain ⟨-, hperm, hplaced⟩ := place_laws (f := f) hfront' hback'
    refine ⟨_, hperm.trans (.trans ?_ hitems.symm), ?_⟩
    · rw [List.append_assoc, ← List.append_assoc (dull.take _), List.take_append_drop]
      exact hback.symm.append_left front
    · rw [hplaced, List.filterMap_append, hshown, hdull, List.append_nil]

end Places

/-! Two lists of items shared out over the same places. -/

section Agree

variable {β : Type} {m n : Nat} {all all' l l' : List β}

def CanAgree [DecidableEq β] (m n : Nat) (all all' : List β) : Prop :=
  m + max all.length all'.length ≤ (all.bagInter all').length + n

instance [DecidableEq β] : Decidable (CanAgree m n all all') := inferInstanceAs (Decidable (_ ≤ _))

def MustAgree (m n : Nat) (all all' : List β) : Prop :=
  m = 0 ∨ all = [] ∧ all' = [] ∨ ∃ k b, all = .replicate k b ∧ all' = .replicate k b ∧
    (k = n ∨ m = n)

theorem canAgree_iff [DecidableEq β] (hall : all.length ≤ n) (hall' : all'.length ≤ n) :
    CanAgree m n all all' ↔ ∃ l, Showable m n all l ∧ Showable m n all' l := by
  have hleft : (all.bagInter all').Subperm all := List.bagInter_sublist_left.subperm
  have hright : (all.bagInter all').Subperm all' :=
    List.subperm_iff_count.2 fun a => by rw [List.count_bagInter]; exact Nat.min_le_right _ _
  constructor
  · intro h
    unfold CanAgree at h
    have htake : ((all.bagInter all').take m).Subperm (all.bagInter all') :=
      (List.take_sublist m _).subperm
    refine ⟨(all.bagInter all').take m, ⟨htake.trans hleft, List.length_take_le m _, ?_⟩,
      ⟨htake.trans hright, List.length_take_le m _, ?_⟩⟩ <;> rw [List.length_take] <;> omega
  · rintro ⟨l, hl, hl'⟩
    have hsub : l.Subperm (all.bagInter all') := by
      refine List.subperm_iff_count.2 fun a => ?_
      rw [List.count_bagInter]
      exact Nat.le_min.2 ⟨hl.subperm.count_le a, hl'.subperm.count_le a⟩
    have hlen := hsub.length_le
    have hroom := hl.room
    have hroom' := hl'.room
    unfold CanAgree
    omega

theorem exists_showable_cons {b : β} (hb : b ∈ all) (hpos : 0 < m) (hm : m ≤ n)
    (hall : all.length ≤ n) : ∃ l, Showable m n all (b :: l) := by
  obtain ⟨before, after, rfl⟩ := List.append_of_mem hb
  have hperm : (before ++ b :: after).Perm (b :: (before ++ after)) := List.perm_middle
  have hsub : ((before ++ after).take (m - 1)).Sublist (before ++ after) := List.take_sublist _ _
  refine ⟨(before ++ after).take (m - 1), hperm.symm.subperm_left.1 (hsub.cons_cons b).subperm, ?_,
    ?_⟩
  · simp only [List.length_cons, List.length_take]
    omega
  · simp only [List.length_append, List.length_cons, List.length_take] at hall ⊢
    omega

theorem showable_replicate {k j : Nat} {b : β} (hle : j ≤ k) (hm : j ≤ m) (hroom : m + k ≤ j + n) :
    Showable m n (.replicate k b) (.replicate j b) := by
  refine ⟨?_, by simpa using hm, by simpa using hroom⟩
  exact (List.replicate_sublist_replicate b |>.2 hle).subperm

theorem Showable.eq_replicate {k : Nat} {b : β} (h : Showable m n (.replicate k b) l) :
    l = .replicate l.length b :=
  List.eq_replicate_iff.2 ⟨rfl, fun _ ha => List.eq_of_mem_replicate (h.subperm.subset ha)⟩

theorem exists_showable (hm : m ≤ n) (hall : all.length ≤ n) : ∃ l, Showable m n all l := by
  refine ⟨all.take m, (List.take_sublist m all).subperm, List.length_take_le m all, ?_⟩
  rw [List.length_take]
  omega

theorem eq_of_showable_replicate {k k' : Nat} {b : β} (hpos : 0 < m) (hm : m ≤ n) (hk : k ≤ n)
    (hk' : k' ≤ n) (hne : 0 < k)
    (h : ∀ l l', Showable m n (.replicate k b) l → Showable m n (.replicate k' b) l' → l = l') :
    k = k' ∧ (k = n ∨ m = n) := by
  -- the most that is shown of the first is the least that is shown of the second, and so on
  have hlen {j j' : Nat} (hj : Showable m n (.replicate k b) (.replicate j b))
      (hj' : Showable m n (.replicate k' b) (.replicate j' b)) : j = j' := by
    simpa using congrArg List.length (h _ _ hj hj')
  have hmost : Showable m n (.replicate k b) (.replicate (min m k) b) :=
    showable_replicate (Nat.min_le_right _ _) (Nat.min_le_left _ _) (by omega)
  have hleast : Showable m n (.replicate k b) (.replicate (m + k - n) b) :=
    showable_replicate (by omega) (by omega) (by omega)
  have hmost' : Showable m n (.replicate k' b) (.replicate (min m k') b) :=
    showable_replicate (Nat.min_le_right _ _) (Nat.min_le_left _ _) (by omega)
  have hleast' : Showable m n (.replicate k' b) (.replicate (m + k' - n) b) :=
    showable_replicate (by omega) (by omega) (by omega)
  have h₁ := hlen hmost hmost'
  have h₂ := hlen hmost hleast'
  have h₃ := hlen hleast hmost'
  omega

theorem mustAgree_iff (hm : m ≤ n) (hall : all.length ≤ n) (hall' : all'.length ≤ n) :
    MustAgree m n all all' ↔ ∀ l l', Showable m n all l → Showable m n all' l' → l = l' := by
  constructor
  · rintro (rfl | ⟨rfl, rfl⟩ | ⟨k, b, rfl, rfl, hk⟩) l l' hl hl'
    · rw [List.length_eq_zero_iff.1 (Nat.le_zero.1 hl.le),
        List.length_eq_zero_iff.1 (Nat.le_zero.1 hl'.le)]
    · rw [List.subperm_nil.1 hl.subperm, List.subperm_nil.1 hl'.subperm]
    · have hlen : l.length = l'.length := by
        have hroom := hl.room
        have hroom' := hl'.room
        have hsub := hl.subperm.length_le
        have hsub' := hl'.subperm.length_le
        have hle := hl.le
        have hle' := hl'.le
        rw [List.length_replicate] at hroom hroom' hsub hsub'
        omega
      rw [hl.eq_replicate, hl'.eq_replicate, hlen]
  · intro h
    obtain hpos | hpos := Nat.eq_zero_or_pos m
    · exact .inl hpos
    refine .inr ?_
    obtain ⟨first, hfirst⟩ := exists_showable hm hall
    obtain ⟨first', hfirst'⟩ := exists_showable hm hall'
    cases hne : all with
    | nil =>
      cases hne' : all' with
      | nil => exact .inl ⟨rfl, rfl⟩
      | cons b rest =>
        obtain ⟨l, hl⟩ := exists_showable_cons (hne' ▸ List.mem_cons_self : b ∈ all') hpos hm hall'
        have hnil : first = [] := List.subperm_nil.1 (hne ▸ hfirst.subperm)
        cases (h _ _ hfirst hl).symm.trans hnil
    | cons b rest =>
      -- whatever is shown first is what every other list shows first
      obtain ⟨l, hl⟩ := exists_showable_cons (hne ▸ List.mem_cons_self : b ∈ all) hpos hm hall
      have hhead' : ∀ c ∈ all', c = b := by
        intro c hc
        obtain ⟨l', hl'⟩ := exists_showable_cons hc hpos hm hall'
        exact (List.cons.inj (h _ _ hl hl')).1.symm
      have hb' : b ∈ all' := by
        have heq := h _ _ hl hfirst'
        exact hfirst'.subperm.subset (heq ▸ List.mem_cons_self)
      have hhead : ∀ c ∈ all, c = b := by
        intro c hc
        obtain ⟨l₁, hl₁⟩ := exists_showable_cons hc hpos hm hall
        obtain ⟨l₂, hl₂⟩ := exists_showable_cons hb' hpos hm hall'
        exact (List.cons.inj (h _ _ hl₁ hl₂)).1
      have hrep : all = .replicate all.length b := List.eq_replicate_iff.2 ⟨rfl, hhead⟩
      have hrep' : all' = .replicate all'.length b := List.eq_replicate_iff.2 ⟨rfl, hhead'⟩
      rw [hrep, hrep'] at h
      obtain ⟨hk, hfull⟩ := eq_of_showable_replicate hpos hm hall hall'
        (by rw [hne]; exact Nat.succ_pos _) h
      exact .inr ⟨all.length, b, hne ▸ hrep, hk ▸ hrep', hfull⟩

theorem agreement_settled_iff [DecidableEq β] (hm : m ≤ n) (hall : all.length ≤ n)
    (hall' : all'.length ≤ n) : ¬ CanAgree m n all all' ∨ MustAgree m n all all' ↔
      ∀ l₁ l₁' l₂ l₂', Showable m n all l₁ → Showable m n all' l₁' → Showable m n all l₂ →
        Showable m n all' l₂' → (l₁ = l₁' ↔ l₂ = l₂') := by
  rw [canAgree_iff hall hall', mustAgree_iff hm hall hall']
  constructor
  · rintro (hnever | halways) l₁ l₁' l₂ l₂' h₁ h₁' h₂ h₂'
    · refine iff_of_false ?_ ?_
      · rintro rfl
        exact hnever ⟨l₁, h₁, h₁'⟩
      · rintro rfl
        exact hnever ⟨l₂, h₂, h₂'⟩
    · exact iff_of_true (halways _ _ h₁ h₁') (halways _ _ h₂ h₂')
  · intro h
    by_cases hcan : ∃ l, Showable m n all l ∧ Showable m n all' l
    · obtain ⟨l, hl, hl'⟩ := hcan
      exact .inr fun l₂ l₂' h₂ h₂' => (h l l l₂ l₂' hl hl' h₂ h₂').1 rfl
    · exact .inl hcan

end Agree

end DsqlEmulator
