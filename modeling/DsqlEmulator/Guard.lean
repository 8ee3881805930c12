import Mathlib.Data.List.Basic

/-! Lists of things to do, some of which need something that others give. -/

universe u

namespace DsqlEmulator.Guard

variable {α : Type u} {needs gives : α → Bool} {ok ok' : Prop} {a : α} {l r : List α}

def Guarded (needs gives : α → Bool) : Prop → List α → Prop
  | _, [] => True
  | ok, a :: l => (needs a = true → ok) ∧ Guarded needs gives (ok ∨ gives a = true) l

theorem Guarded.mono (h : Guarded needs gives ok l) (himp : ok → ok') :
    Guarded needs gives ok' l := by
  induction l generalizing ok ok' with
  | nil => trivial
  | cons a l ih => exact ⟨fun ha => himp (h.1 ha), ih h.2 (Or.imp_left himp)⟩

theorem Guarded.append (hl : Guarded needs gives ok l) (hr : Guarded needs gives ok r) :
    Guarded needs gives ok (l ++ r) := by
  induction l generalizing ok with
  | nil => exact hr
  | cons a l ih => exact ⟨hl.1, ih hl.2 (hr.mono .inl)⟩

theorem Guarded.of_ok (h : ok) : Guarded needs gives ok l := by
  induction l generalizing ok with
  | nil => trivial
  | cons a l ih => exact ⟨fun _ => h, ih (.inl h)⟩

theorem Guarded.cons (ha : needs a = false) (hl : Guarded needs gives ok l) :
    Guarded needs gives ok (a :: l) :=
  ⟨fun hs => absurd (ha.symm.trans hs) Bool.false_ne_true, hl.mono .inl⟩

theorem Guarded.given (hn : needs a = false) (hg : gives a = true) :
    Guarded needs gives ok (a :: l) :=
  ⟨fun hs => absurd (hn.symm.trans hs) Bool.false_ne_true, .of_ok (.inr hg)⟩

theorem Guarded.of_not_needs (h : ∀ a ∈ l, needs a = false) : Guarded needs gives ok l := by
  induction l generalizing ok with
  | nil => trivial
  | cons a l ih =>
    exact .cons (h a List.mem_cons_self) (ih fun b hb => h b (List.mem_cons_of_mem a hb))

end DsqlEmulator.Guard
