import Mathlib.Data.List.Basic

/-! Lists of things to do, some of which cost something and some of which earn it. -/

universe u

namespace DsqlEmulator.Dues

variable {α : Type u} {cost gain : α → Nat} {stops : α → Bool} {l r : List α}

def due (cost gain : α → Nat) (stops : α → Bool) : List α → Nat
  | [] => 0
  | a :: l => if stops a then 0 else cost a + due cost gain stops l - gain a

theorem due_append :
    due cost gain stops (l ++ r) ≤ due cost gain stops l + due cost gain stops r := by
  induction l with
  | nil => exact Nat.le_add_left _ _
  | cons a l ih =>
    simp only [List.cons_append, due]
    split
    · exact Nat.zero_le _
    · omega

theorem due_eq_zero (h : ∀ a ∈ l, cost a = 0) : due cost gain stops l = 0 := by
  induction l with
  | nil => rfl
  | cons a l ih =>
    have ha := h a List.mem_cons_self
    have hl := ih fun b hb => h b (List.mem_cons_of_mem a hb)
    simp only [due, ha, hl]
    split <;> omega

theorem due_append_le (h : due cost gain stops l = 0) :
    due cost gain stops (l ++ r) ≤ due cost gain stops r :=
  Nat.le_trans due_append (by omega)

end DsqlEmulator.Dues
