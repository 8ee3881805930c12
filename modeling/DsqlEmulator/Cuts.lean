import Mathlib.Data.List.Basic
import Mathlib.Data.Nat.Count

/-! Cutting ranges out of a list: slices that may be out of range, one pass that leaves
out several cuts, and where what is kept goes. -/

namespace DsqlEmulator.Cuts

variable {α β : Type}

def slice (l : List α) (start stop : Nat) : List α := (l.drop start).take (stop - start)

def slice? (l : List α) (start stop : Nat) : Option (List α) :=
  if start ≤ stop ∧ stop ≤ l.length then some (slice l start stop) else none

def splice? (l : List α) : Nat → List (Nat × Nat) → Option (List α)
  | prev, [] => slice? l prev l.length
  | prev, c :: cs => do return (← slice? l prev c.1) ++ (← splice? l c.2 cs)

def Ordered (n : Nat) : Nat → List (Nat × Nat) → Prop
  | prev, [] => prev ≤ n
  | prev, c :: cs => prev ≤ c.1 ∧ c.1 ≤ c.2 ∧ Ordered n c.2 cs

def keep (p : Nat → Bool) : List α → List α
  | [] => []
  | x :: l => if p 0 then x :: keep (fun i => p (i + 1)) l else keep (fun i => p (i + 1)) l

section Keep

variable {p q : Nat → Bool}

theorem keep_append (l l' : List α) :
    keep p (l ++ l') = keep p l ++ keep (fun i => p (i + l.length)) l' := by
  induction l generalizing p with
  | nil => rfl
  | cons x l ih =>
    rw [List.cons_append, keep, keep, ih, List.length_cons]
    split
    · rfl
    · rfl

theorem keep_congr {l : List α} (h : ∀ i < l.length, p i = q i) : keep p l = keep q l := by
  induction l generalizing p q with
  | nil => rfl
  | cons x l ih =>
    rw [keep, keep, h 0 (Nat.succ_pos _), ih fun i hi => h (i + 1) (Nat.succ_lt_succ hi)]

theorem keep_eq_self {l : List α} (h : ∀ i < l.length, p i = true) : keep p l = l := by
  induction l generalizing p with
  | nil => rfl
  | cons x l ih =>
    rw [keep, if_pos (h 0 (Nat.succ_pos _)), ih fun i hi => h (i + 1) (Nat.succ_lt_succ hi)]

theorem keep_eq_nil {l : List α} (h : ∀ i < l.length, p i = false) : keep p l = [] := by
  induction l generalizing p with
  | nil => rfl
  | cons x l ih =>
    rw [keep, if_neg (by simp [h 0 (Nat.succ_pos _)]), ih fun i hi =>
      h (i + 1) (Nat.succ_lt_succ hi)]

theorem length_keep (l : List α) : (keep p l).length = Nat.count (p · = true) l.length := by
  induction l generalizing p with
  | nil => rfl
  | cons x l ih =>
    rw [keep, List.length_cons, Nat.count_succ']
    split <;> simp [ih]

theorem take_slice_drop {l : List α} {a b : Nat} (hab : a ≤ b) :
    l = l.take a ++ (slice l a b ++ l.drop b) := by
  have hdrop : slice l a b ++ l.drop b = l.drop a := by
    rw [slice, show l.drop b = (l.drop a).drop (b - a) by rw [List.drop_drop,
      Nat.add_sub_cancel' hab], List.take_append_drop]
  rw [hdrop, List.take_append_drop]

theorem length_slice {l : List α} {a b : Nat} (hb : b ≤ l.length) :
    (slice l a b).length = b - a := by
  rw [slice, List.length_take, List.length_drop]
  omega

theorem slice_take (l : List α) {a b c : Nat} (hbc : b ≤ c) :
    slice (l.take c) a b = slice l a b := by
  rw [slice, slice, List.drop_take, List.take_take, Nat.min_eq_left (Nat.sub_le_sub_right hbc a)]

theorem slice_keep {l : List α} {a b : Nat} (hab : a ≤ b) (hb : b ≤ l.length)
    (h : ∀ i, a ≤ i → i < b → p i = true) :
    slice (keep p l) (Nat.count (p · = true) a) (Nat.count (p · = true) b) = slice l a b := by
  have hta : (l.take a).length = a := List.length_take_of_le (hab.trans hb)
  have hmid : keep (fun i => p (i + (l.take a).length)) (slice l a b) = slice l a b := by
    refine keep_eq_self fun i hi => ?_
    rw [length_slice hb] at hi
    exact h _ (by omega) (by omega)
  have htake : l.take b = l.take a ++ slice l a b := by
    have hlen : (l.take a ++ slice l a b).length = b := by
      rw [List.length_append, hta, length_slice hb, Nat.add_sub_cancel' hab]
    conv_lhs => rw [take_slice_drop (l := l) hab, ← List.append_assoc]
    exact List.take_left' hlen
  have ha : (keep p (l.take a)).length = Nat.count (p · = true) a := by rw [length_keep, hta]
  have hcount : Nat.count (p · = true) b = Nat.count (p · = true) a + (b - a) := by
    have hb' : (keep p (l.take b)).length = Nat.count (p · = true) b := by
      rw [length_keep, List.length_take_of_le hb]
    rw [← hb', htake, keep_append, hmid, List.length_append, ha, length_slice hb]
  have hl : keep p l = keep p (l.take a) ++
      (slice l a b ++ keep (fun i => p (i + (l.take b).length)) (l.drop b)) := by
    conv_lhs => rw [← List.take_append_drop b l, keep_append, htake, keep_append, hmid,
      List.append_assoc, ← htake]
  rw [hl]
  conv_lhs => rw [slice]
  rw [← ha, List.drop_left, hcount, ha, Nat.add_sub_cancel_left, List.take_left' (length_slice hb)]

theorem keep_range {l : List α} {a b : Nat} (hab : a ≤ b) (hb : b ≤ l.length) :
    keep (fun i => decide (a ≤ i ∧ i < b)) l = slice l a b := by
  have hta : (l.take a).length = a := List.length_take_of_le (hab.trans hb)
  conv_lhs => rw [take_slice_drop (l := l) hab]
  rw [keep_append, keep_append, keep_eq_nil, keep_eq_self, keep_eq_nil, List.nil_append,
    List.append_nil]
  · intro i _
    rw [hta, length_slice hb, decide_eq_false_iff_not]
    omega
  · intro i hi
    rw [length_slice hb] at hi
    rw [hta, decide_eq_true_eq]
    omega
  · intro i hi
    rw [decide_eq_false_iff_not]
    omega

def uncut (cuts : List (Nat × Nat)) (i : Nat) : Bool :=
  cuts.all fun c => !decide (c.1 ≤ i ∧ i < c.2)

theorem uncut_iff {cuts : List (Nat × Nat)} {i : Nat} :
    uncut cuts i = true ↔ ∀ c ∈ cuts, ¬ (c.1 ≤ i ∧ i < c.2) := by
  simp only [uncut, List.all_eq_true, Bool.not_eq_true', decide_eq_false_iff_not]

theorem Ordered.le {n prev : Nat} {cuts : List (Nat × Nat)} (h : Ordered n prev cuts) :
    prev ≤ n := by
  induction cuts generalizing prev with
  | nil => exact h
  | cons c cs ih => exact h.1.trans (h.2.1.trans (ih h.2.2))

theorem Ordered.uncut_of_lt {n prev i : Nat} {cuts : List (Nat × Nat)} (h : Ordered n prev cuts)
    (hi : i < prev) : uncut cuts i = true := by
  induction cuts generalizing prev with
  | nil => rfl
  | cons c cs ih =>
    have hrest := ih h.2.2 (hi.trans_le (h.1.trans h.2.1))
    rw [uncut, List.all_cons, ← uncut, hrest, Bool.and_true, Bool.not_eq_true',
      decide_eq_false_iff_not]
    exact fun hc => absurd (h.1.trans hc.1) hi.not_ge

theorem splice_eq_keep {l : List α} {prev : Nat} {cuts : List (Nat × Nat)}
    (h : Ordered l.length prev cuts) :
    splice? l prev cuts = some (keep (fun i => decide (prev ≤ i) && uncut cuts i) l) := by
  induction cuts generalizing prev with
  | nil =>
    rw [splice?, slice?, if_pos ⟨h, le_rfl⟩, ← keep_range h le_rfl]
    congr 1
    refine keep_congr fun i hi => ?_
    simp [uncut, hi]
  | cons c cs ih =>
    obtain ⟨hprev, hcut, hrest⟩ := h
    have hend := hrest.le
    rw [splice?, ih hrest, slice?, if_pos ⟨hprev, hcut.trans hend⟩]
    refine congrArg some ?_
    -- up to the end of the first cut only what stands before it is kept, and after it that cut
    -- plays no part
    have hlen : (l.take c.2).length = c.2 := List.length_take_of_le hend
    have hbefore : keep (fun i => decide (prev ≤ i) && uncut (c :: cs) i) (l.take c.2) =
        slice l prev c.1 := by
      rw [← slice_take l hcut, ← keep_range hprev (hcut.trans_eq hlen.symm)]
      refine keep_congr fun i hi => ?_
      rw [hlen] at hi
      have hcs := hrest.uncut_of_lt hi
      rw [uncut, List.all_cons, ← uncut, hcs, Bool.and_true, ← decide_not, ← Bool.decide_and,
        decide_eq_decide]
      omega
    have hnone : keep (fun i => decide (c.2 ≤ i) && uncut cs i) (l.take c.2) = [] := by
      refine keep_eq_nil fun i hi => ?_
      rw [hlen] at hi
      simp [hi]
    rw [← List.take_append_drop c.2 l, keep_append, keep_append, hnone, List.take_append_drop,
      hbefore, List.nil_append]
    congr 1
    refine keep_congr fun i _ => ?_
    rw [hlen, uncut, uncut, List.all_cons]
    simp [hprev.trans hcut |>.trans (Nat.le_add_left c.2 i)]

end Keep

section Split

open List

variable {p q : α → Bool} {l s xs ys a b : List α} {ss us vs : List (List α)}

theorem flatten_splitOnP (p : α → Bool) (l : List α) :
    (l.splitOnP p).flatten = l.filter (!p ·) := by
  induction l with
  | nil => simp
  | cons x l ih =>
    rw [splitOnP_cons_eq_if_modifyHead]
    split
    next h => simp [ih, h]
    next h =>
      obtain ⟨s, ss, hss⟩ := List.exists_cons_of_ne_nil (splitOnP_ne_nil p l)
      rw [hss] at ih ⊢
      simp_all

theorem prefix_of_splitOnP (h : l.splitOnP p = s :: ss) : s <+: l := by
  induction l generalizing s ss with
  | nil =>
    obtain ⟨rfl, -⟩ : [] = s ∧ [] = ss := by simpa using h
    exact List.prefix_refl _
  | cons x l ih =>
    rw [splitOnP_cons_eq_if_modifyHead] at h
    split at h
    next =>
      obtain ⟨rfl, -⟩ := List.cons.inj h
      exact List.nil_prefix
    next =>
      obtain ⟨t, ts, hts⟩ := List.exists_cons_of_ne_nil (splitOnP_ne_nil p l)
      rw [hts] at h
      obtain ⟨rfl, -⟩ := List.cons.inj h
      exact (List.prefix_cons_inj x).2 (ih hts)

theorem infix_of_mem_splitOnP (h : s ∈ l.splitOnP p) : s <:+: l := by
  induction l generalizing s with
  | nil => simp_all
  | cons x l ih =>
    rw [splitOnP_cons_eq_if_modifyHead] at h
    split at h
    next =>
      obtain rfl | h := List.mem_cons.1 h
      · exact List.nil_infix
      · exact List.infix_cons (ih h)
    next hp =>
      obtain ⟨t, ts, hts⟩ := List.exists_cons_of_ne_nil (splitOnP_ne_nil p l)
      rw [hts] at h ih
      obtain rfl | h := List.mem_cons.1 h
      · exact ((List.prefix_cons_inj x).2 (prefix_of_splitOnP hts)).isInfix
      · exact List.infix_cons (ih (List.mem_cons_of_mem t h))

theorem splitOnP_append (hx : xs.splitOnP p = us ++ [a])
    (hy : ys.splitOnP p = b :: vs) : (xs ++ ys).splitOnP p = us ++ (a ++ b) :: vs := by
  induction xs generalizing us a with
  | nil =>
    obtain ⟨rfl, rfl⟩ : us = [] ∧ a = [] := by
      cases us with
      | nil => simpa using hx.symm
      | cons u us => simp at hx
    simpa using hy
  | cons x xs ih =>
    rw [splitOnP_cons_eq_if_modifyHead] at hx
    rw [List.cons_append, splitOnP_cons_eq_if_modifyHead]
    split at hx
    next hp =>
      cases us with
      | nil => simp at hx
      | cons u us =>
        obtain ⟨hu, hus⟩ := List.cons.inj hx
        rw [if_pos hp, ih hus, ← hu, List.cons_append]
    next hp =>
      obtain ⟨t, ts, hts⟩ := List.exists_cons_of_ne_nil (splitOnP_ne_nil p xs)
      rw [hts, List.modifyHead_cons] at hx
      rw [if_neg hp]
      cases us with
      | nil =>
        obtain ⟨rfl, rfl⟩ := List.cons.inj hx
        have hx' : xs.splitOnP p = [] ++ [t] := hts
        rw [ih hx', List.nil_append, List.modifyHead_cons]
        rfl
      | cons u us =>
        obtain ⟨rfl, rfl⟩ := List.cons.inj hx
        have hx' : xs.splitOnP p = (t :: us) ++ [a] := hts
        rw [ih hx', List.cons_append, List.modifyHead_cons]
        rfl

theorem splitOnP_filter (hpq : ∀ x, q x = true → p x = true) (l : List α) :
    (l.filter p).splitOnP q = (l.splitOnP q).map (List.filter p) := by
  induction l with
  | nil => simp
  | cons x l ih =>
    obtain ⟨s, ss, hss⟩ := List.exists_cons_of_ne_nil (splitOnP_ne_nil q l)
    by_cases hq : q x = true
    · rw [List.filter_cons_of_pos (hpq x hq), splitOnP_cons_eq_if_modifyHead,
        splitOnP_cons_eq_if_modifyHead, if_pos hq, if_pos hq, ih]
      rfl
    · rw [splitOnP_cons_eq_if_modifyHead, if_neg hq, hss]
      rw [hss] at ih
      by_cases hp : p x = true
      · rw [List.filter_cons_of_pos hp, splitOnP_cons_eq_if_modifyHead, if_neg hq, ih]
        simp [hp]
      · rw [List.filter_cons_of_neg hp, ih]
        simp [hp]

theorem splitOnP_map (f : β → α) (q : α → Bool) (l : List β) :
    (l.map f).splitOnP q = (l.splitOnP (q ∘ f)).map (List.map f) := by
  induction l with
  | nil => simp
  | cons x l ih =>
    obtain ⟨s, ss, hss⟩ := List.exists_cons_of_ne_nil (splitOnP_ne_nil (q ∘ f) l)
    rw [List.map_cons, splitOnP_cons_eq_if_modifyHead, splitOnP_cons_eq_if_modifyHead, ih, hss]
    by_cases hq : q (f x) = true <;> simp [hq]

end Split

end DsqlEmulator.Cuts
