import Mathlib.Logic.Function.Basic
import Mathlib.Data.List.Basic

/-! Tables and the assignments that change them. -/

universe u v

namespace DsqlEmulator.Table

variable {κ : Type u} {β : Type v} {t t' : κ → Option β}

def Below (t t' : κ → Option β) : Prop := ∀ k v, t k = some v → t' k = some v

theorem Below.trans {t'' : κ → Option β} (h : Below t t') (h' : Below t' t'') : Below t t'' :=
  fun k v hv => h' k v (h k v hv)

variable [DecidableEq κ] {k : κ} {x : κ × Option β} {xs : List (κ × Option β)}

def assign (t : κ → Option β) (xs : List (κ × Option β)) : κ → Option β :=
  xs.foldl (fun t x => Function.update t x.1 x.2) t

@[simp] theorem assign_nil : assign t [] = t := rfl

@[simp] theorem assign_cons : assign t (x :: xs) = assign (Function.update t x.1 x.2) xs := rfl

theorem assign_of_forall_ne (h : ∀ x ∈ xs, x.1 ≠ k) : assign t xs k = t k := by
  induction xs generalizing t with
  | nil => rfl
  | cons x xs ih =>
    rw [assign_cons, ih fun y hy => h y (List.mem_cons_of_mem x hy)]
    exact Function.update_of_ne (h x List.mem_cons_self).symm x.2 t

theorem assign_of_mem (h : ∃ x ∈ xs, x.1 = k) : assign t xs k = assign t' xs k := by
  induction xs generalizing t t' with
  | nil => simp at h
  | cons x xs ih =>
    rw [assign_cons, assign_cons]
    by_cases hxs : ∃ y ∈ xs, y.1 = k
    · exact ih hxs
    · have hne : ∀ y ∈ xs, y.1 ≠ k := fun y hy hk => hxs ⟨y, hy, hk⟩
      obtain ⟨y, hy, rfl⟩ := h
      obtain rfl : y = x := (List.mem_cons.1 hy).resolve_right fun hy => hne y hy rfl
      simp [assign_of_forall_ne hne]

theorem assign_congr (h : t k = t' k) : assign t xs k = assign t' xs k := by
  by_cases hxs : ∃ x ∈ xs, x.1 = k
  · exact assign_of_mem hxs
  · have hne : ∀ x ∈ xs, x.1 ≠ k := fun x hx hk => hxs ⟨x, hx, hk⟩
    rw [assign_of_forall_ne hne, assign_of_forall_ne hne, h]

theorem assign_append {ys : List (κ × Option β)} : assign t (xs ++ ys) = assign (assign t xs) ys :=
  List.foldl_append

theorem Below.assign (h : Below t t') (xs : List (κ × Option β)) :
    Below (assign t xs) (assign t' xs) := by
  intro k v hv
  by_cases hxs : ∃ x ∈ xs, x.1 = k
  · rwa [assign_of_mem hxs] at hv
  · have hne : ∀ x ∈ xs, x.1 ≠ k := fun x hx hk => hxs ⟨x, hx, hk⟩
    rw [assign_of_forall_ne hne] at hv ⊢
    exact h k v hv

end DsqlEmulator.Table
