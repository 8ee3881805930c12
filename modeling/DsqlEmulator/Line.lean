import Mathlib.Data.List.Basic

/-! Messages in flight on an ordered connection.  An item is the tag of the
request a message belongs to and whether it closes that request's answer. -/

universe u

namespace DsqlEmulator.Line

variable {α : Type u}

def Expands (x : α × Bool) (l : List (α × Bool)) : Prop :=
  ∃ n, l = List.replicate n (x.1, false) ++ if x.2 then [(x.1, true)] else []

inductive Leads (p : α → Prop) (k : α) : List (α × Bool) → Prop
  | last {rest} : (∀ x ∈ rest, ¬ p x.1) → Leads p k ((k, true) :: rest)
  | more {l} : Leads p k l → Leads p k ((k, false) :: l)

variable {p : α → Prop} {k : α}

theorem Leads.replicate {l : List (α × Bool)} (h : Leads p k l) (n : Nat) :
    Leads p k (List.replicate n (k, false) ++ l) := by
  induction n with
  | zero => exact h
  | succ n ih => exact .more ih

theorem Expands.all {x y : α × Bool} {l : List (α × Bool)} (h : Expands x l) (hy : y ∈ l) :
    y.1 = x.1 := by
  obtain ⟨n, rfl⟩ := h
  rcases List.mem_append.1 hy with hy | hy
  · rw [List.eq_of_mem_replicate hy]
  · split at hy
    · rw [List.mem_singleton.1 hy]
    · cases hy

theorem Expands.map {β : Type u} (f : α → β) {x : α × Bool} {l : List (α × Bool)}
    (h : Expands x l) : Expands (f x.1, x.2) (l.map (Prod.map f id)) := by
  obtain ⟨n, rfl⟩ := h
  refine ⟨n, ?_⟩
  cases x.2 <;> simp

theorem all_expand (q : α → Prop) {a c e : List (α × Bool)} {x : α × Bool}
    (h : ∀ y ∈ a ++ x :: c, q y.1) (he : Expands x e) : ∀ y ∈ a ++ (e ++ c), q y.1 := by
  intro y hy
  simp only [List.mem_append] at hy
  rcases hy with hy | hy | hy
  · exact h y (by simp [hy])
  · exact he.all hy ▸ h x (by simp)
  · exact h y (by simp [hy])

theorem Leads.append {l l' : List (α × Bool)} (h : Leads p k l) (hl : ∀ x ∈ l', ¬ p x.1) :
    Leads p k (l ++ l') := by
  induction h with
  | last hrest =>
    refine .last fun x hx => ?_
    rcases List.mem_append.1 hx with h | h
    · exact hrest x h
    · exact hl x h
  | more _ ih => exact .more ih

theorem Leads.expand {a c e : List (α × Bool)} {x : α × Bool} (h : Leads p k (a ++ x :: c))
    (he : Expands x e) : Leads p k (a ++ (e ++ c)) := by
  induction a with
  | nil =>
    cases h with
    | last hrest =>
      obtain ⟨n, rfl⟩ := he
      simpa [List.append_assoc] using (Leads.last hrest).replicate n
    | more h =>
      obtain ⟨n, rfl⟩ := he
      simpa [List.append_assoc] using h.replicate n
  | cons y a ih =>
    cases h with
    | last hrest => exact .last (all_expand (¬ p ·) hrest he)
    | more h => exact .more (ih h)

theorem Leads.head {x : α × Bool} {l : List (α × Bool)} (h : Leads p k (x :: l)) :
    x.1 = k ∧ ((x.2 = true ∧ ∀ y ∈ l, ¬ p y.1) ∨ (x.2 = false ∧ Leads p k l)) := by
  cases h with
  | last hrest => exact ⟨rfl, .inl ⟨rfl, hrest⟩⟩
  | more h => exact ⟨rfl, .inr ⟨rfl, h⟩⟩

def closers (p : α → Prop) [DecidablePred p] (l : List (α × Bool)) : List α :=
  (l.filter fun x => x.2 && !decide (p x.1)).map Prod.fst

section Closers

variable [DecidablePred p]

@[simp] theorem closers_nil : closers p [] = [] := rfl

@[simp] theorem closers_append (l l' : List (α × Bool)) :
    closers p (l ++ l') = closers p l ++ closers p l' := by
  simp [closers]

theorem closers_cons (x : α × Bool) (l : List (α × Bool)) :
    closers p (x :: l) = (if x.2 && !decide (p x.1) then [x.1] else []) ++ closers p l := by
  cases h : x.2 && !decide (p x.1) <;> simp [closers, h]

theorem Expands.closers {x : α × Bool} {e : List (α × Bool)} (h : Expands x e) :
    Line.closers p e = Line.closers p [x] := by
  obtain ⟨n, rfl⟩ := h
  obtain ⟨k, b⟩ := x
  have hn : Line.closers p (List.replicate n (k, false)) = [] := by simp [Line.closers]
  cases b <;> simp [hn, closers_cons]

theorem closers_expand {a c e : List (α × Bool)} {x : α × Bool} (he : Expands x e) :
    closers p (a ++ (e ++ c)) = closers p (a ++ x :: c) := by
  rw [← List.singleton_append (x := x)]
  simp only [closers_append, he.closers]

theorem mem_of_mem_closers {l : List (α × Bool)} (h : k ∈ closers p l) : (k, true) ∈ l := by
  simp only [closers, List.mem_map, List.mem_filter, Bool.and_eq_true] at h
  obtain ⟨⟨_, _⟩, ⟨hl, rfl, _⟩, rfl⟩ := h
  exact hl

theorem mem_closers {l : List (α × Bool)} (h : (k, true) ∈ l) (hk : ¬ p k) : k ∈ closers p l := by
  simp only [closers, List.mem_map, List.mem_filter]
  exact ⟨(k, true), ⟨h, by simpa using hk⟩, rfl⟩

end Closers

inductive Through (q r : α → Prop) (k : α) : List (α × Bool) → Prop
  | here {l} : (∀ x ∈ l, r x.1) → Through q r k ((k, true) :: l)
  | skip {x l} : q x.1 → Through q r k l → Through q r k (x :: l)

section Through

variable {q r : α → Prop}

theorem Through.of_all {l : List (α × Bool)} (h : ∀ x ∈ l, q x.1) :
    Through q r k (l ++ [(k, true)]) := by
  induction l with
  | nil => exact .here (by simp)
  | cons x l ih => exact .skip (h x (by simp)) (ih fun y hy => h y (by simp [hy]))

theorem Through.prepend {l l' : List (α × Bool)} (h : Through q r k l) (hl : ∀ x ∈ l', q x.1) :
    Through q r k (l' ++ l) := by
  induction l' with
  | nil => exact h
  | cons x l' ih => exact .skip (hl x (by simp)) (ih fun y hy => hl y (by simp [hy]))

theorem Through.append {l l' : List (α × Bool)} (h : Through q r k l) (hl : ∀ x ∈ l', r x.1) :
    Through q r k (l ++ l') := by
  induction h with
  | here hr => exact .here fun x hx => (List.mem_append.1 hx).elim (hr x) (hl x)
  | skip hq _ ih => exact .skip hq ih

theorem Through.expand {a c e : List (α × Bool)} {x : α × Bool} (h : Through q r k (a ++ x :: c))
    (hk : q k) (he : Expands x e) : Through q r k (a ++ (e ++ c)) := by
  induction a with
  | nil =>
    cases h with
    | here hr =>
      obtain ⟨n, rfl⟩ := he
      rw [List.nil_append, List.append_assoc]
      exact (Through.here hr).prepend fun y hy => by rw [List.eq_of_mem_replicate hy]; exact hk
    | skip hq h => exact h.prepend fun y hy => he.all hy ▸ hq
  | cons y a ih =>
    cases h with
    | here hr => exact .here (all_expand r hr he)
    | skip hq h => exact .skip hq (ih h)

theorem Through.mem {l : List (α × Bool)} (h : Through q r k l) : (k, true) ∈ l := by
  induction h with
  | here => exact List.mem_cons_self
  | skip _ _ ih => exact List.mem_cons_of_mem _ ih

end Through

section Closings

variable {q : α → Bool}

def closings (q : α → Bool) (l : List (α × Bool)) : Nat := l.countP fun x => x.2 && q x.1

@[simp] theorem closings_nil : closings q [] = 0 := rfl

@[simp] theorem closings_append (l l' : List (α × Bool)) :
    closings q (l ++ l') = closings q l + closings q l' :=
  List.countP_append ..

theorem closings_cons (x : α × Bool) (l : List (α × Bool)) :
    closings q (x :: l) = (x.2 && q x.1).toNat + closings q l := by
  cases h : x.2 && q x.1 <;> simp [closings, h, Nat.add_comm]

theorem closings_pos {l : List (α × Bool)} (h : (k, true) ∈ l) (hk : q k = true) :
    0 < closings q l :=
  List.countP_pos_iff.2 ⟨_, h, hk⟩

theorem Expands.closings {x : α × Bool} {e : List (α × Bool)} (h : Expands x e) :
    Line.closings q e = (x.2 && q x.1).toNat := by
  obtain ⟨n, rfl⟩ := h
  obtain ⟨k, b⟩ := x
  have hn : Line.closings q (List.replicate n (k, false)) = 0 := by simp [Line.closings]
  cases b <;> simp [hn, closings_cons]

def Sealed (q : α → Bool) : List (α × Bool) → Prop
  | [] => True
  | x :: l => 0 < closings q (x :: l) ∧ Sealed q l

theorem Sealed.of_append {l l' : List (α × Bool)} (h : Sealed q (l ++ l')) : Sealed q l' := by
  induction l with
  | nil => exact h
  | cons x l ih => exact ih h.2

theorem Sealed.pos {l : List (α × Bool)} (h : Sealed q l) (hl : l ≠ []) : 0 < closings q l := by
  cases l with
  | nil => exact absurd rfl hl
  | cons x l => exact h.1

theorem Sealed.eq_nil {l : List (α × Bool)} (h : Sealed q l) (hc : closings q l = 0) : l = [] := by
  by_contra hl
  have := h.pos hl
  omega

theorem Sealed.snoc (l : List (α × Bool)) (hk : q k = true) : Sealed q (l ++ [(k, true)]) := by
  have hpos (l' : List (α × Bool)) : 0 < closings q (l' ++ [(k, true)]) := closings_pos (by simp) hk
  induction l with
  | nil => exact ⟨hpos [], trivial⟩
  | cons x l ih => exact ⟨hpos (x :: l), ih⟩

theorem Sealed.prepend {l l' : List (α × Bool)} (h : Sealed q l') (hl : l' ≠ []) :
    Sealed q (l ++ l') := by
  induction l with
  | nil => exact h
  | cons x l ih =>
    refine ⟨?_, ih⟩
    have hpos := h.pos hl
    change 0 < closings q ((x :: l) ++ l')
    rw [closings_append]
    omega

theorem Sealed.insert {a b c : List (α × Bool)} (h : Sealed q (a ++ c)) (hc : c ≠ []) :
    Sealed q (a ++ (b ++ c)) := by
  rw [← List.append_assoc]
  exact h.of_append.prepend hc

theorem Sealed.expand {a c e : List (α × Bool)} {x : α × Bool} (h : Sealed q (a ++ x :: c))
    (he : Expands x e) : Sealed q (a ++ (e ++ c)) := by
  cases c with
  | cons y c =>
    rw [← List.append_assoc]
    exact (h.of_append (l := a)).2.prepend (List.cons_ne_nil y c)
  | nil =>
    -- the last request on its way is one that closes its answer
    have hpos : 0 < closings q [x] := (h.of_append (l := a)).1
    obtain ⟨k, b⟩ := x
    rw [closings_cons, closings_nil, Nat.add_zero] at hpos
    obtain ⟨rfl, hk⟩ : b = true ∧ q k = true := by
      cases b <;> cases hq : q k <;> simp [hq] at hpos ⊢
    obtain ⟨n, rfl⟩ := he
    rw [List.append_nil, ← List.append_assoc]
    exact .snoc _ hk

end Closings

section After

variable {Q : List α → α → Prop} {l r : List α} {x : α}

def EachAfter (Q : List α → α → Prop) (l : List α) : Prop :=
  ∀ before x after, l = before ++ x :: after → Q before x

theorem EachAfter.nil : EachAfter Q [] := by
  intro before x after h
  simp at h

theorem EachAfter.snoc (h : EachAfter Q l) (hx : Q l x) : EachAfter Q (l ++ [x]) := by
  intro before y after heq
  rcases List.eq_nil_or_concat after with rfl | ⟨after, z, rfl⟩
  · obtain ⟨rfl, rfl⟩ := List.append_singleton_inj.1 heq
    exact hx
  · rw [List.concat_eq_append, ← List.cons_append, ← List.append_assoc] at heq
    exact h before y after (List.append_singleton_inj.1 heq).1

theorem EachAfter.append (h : EachAfter Q l) (hr : ∀ before, ∀ x ∈ r, Q before x) :
    EachAfter Q (l ++ r) := by
  induction r generalizing l with
  | nil => simpa using h
  | cons x r ih =>
    have happend : EachAfter Q ((l ++ [x]) ++ r) :=
      ih (h.snoc (hr l x List.mem_cons_self)) fun before y hy =>
        hr before y (List.mem_cons_of_mem x hy)
    simpa using happend

theorem EachAfter.mono {Q' : List α → α → Prop} (h : EachAfter Q l)
    (himp : ∀ before, ∀ x ∈ l, Q before x → Q' before x) : EachAfter Q' l :=
  fun before x after heq => himp before x (by simp [heq]) (h before x after heq)

end After

end DsqlEmulator.Line
