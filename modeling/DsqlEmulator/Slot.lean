import Mathlib.Data.List.Basic

/-! A slot that is set in one place and read later, by events that arrive in order.
What they find in it is what each would have found when it was sent, if the slot is set
only while no event that looks at it is on its way. -/

universe u v w

namespace DsqlEmulator.Slot

variable {σ : Type u} {ε : Type v} {ο : Type w} {react : σ → ε → σ × ο} {s now : σ} {e : ε}
  {line es : List ε}

def after (react : σ → ε → σ × ο) : σ → List ε → σ
  | s, [] => s
  | s, e :: es => after react (react s e).1 es

def outcomes (react : σ → ε → σ × ο) : σ → List ε → List (ε × ο)
  | _, [] => []
  | s, e :: es => (e, (react s e).2) :: outcomes react (react s e).1 es

theorem after_append (s : σ) (l es : List ε) :
    after react s (l ++ es) = after react (after react s l) es := by
  induction l generalizing s with
  | nil => rfl
  | cons e l ih => exact ih _

theorem outcomes_append (s : σ) (l es : List ε) :
    outcomes react s (l ++ es) = outcomes react s l ++ outcomes react (after react s l) es := by
  induction l generalizing s with
  | nil => rfl
  | cons e l ih => exact congrArg (_ :: ·) (ih _)

variable {Right : ε × ο → Prop} {log : List (ε × ο)}

structure Lagging (react : σ → ε → σ × ο) (Right : ε × ο → Prop) (s : σ) (line : List ε)
    (log : List (ε × ο)) (now : σ) : Prop where
  after : after react s line = now
  line : ∀ p ∈ outcomes react s line, Right p
  log : ∀ p ∈ log, Right p

theorem Lagging.send (h : Lagging react Right s line log now)
    (hes : ∀ p ∈ outcomes react now es, Right p) :
    Lagging react Right s (line ++ es) log (Slot.after react now es) := by
  refine ⟨?_, fun p hp => ?_, h.log⟩
  · rw [after_append, h.after]
  · rw [outcomes_append, h.after] at hp
    exact (List.mem_append.1 hp).elim (h.line p) (hes p)

theorem Lagging.handle (h : Lagging react Right s (e :: line) log now) :
    Lagging react Right (react s e).1 line (log ++ [(e, (react s e).2)]) now := by
  obtain ⟨he, hline⟩ := List.forall_mem_cons.1 h.line
  refine ⟨h.after, hline, fun p hp => ?_⟩
  obtain hp | hp := List.mem_append.1 hp
  · exact h.log p hp
  · exact List.mem_singleton.1 hp ▸ he

theorem Lagging.miss {o : ο} (h : Lagging react Right s (e :: line) log now)
    (hs : (react s e).1 = s) (he : Right (e, o)) :
    Lagging react Right s line (log ++ [(e, o)]) now := by
  have hline := (List.forall_mem_cons.1 h.line).2
  have hafter := h.after
  rw [hs] at hline
  rw [Slot.after, hs] at hafter
  refine ⟨hafter, hline, fun p hp => ?_⟩
  obtain hp | hp := List.mem_append.1 hp
  · exact h.log p hp
  · exact List.mem_singleton.1 hp ▸ he

theorem Lagging.of_blind (hlog : ∀ p ∈ log, Right p)
    (hline : ∀ e ∈ line, ∀ s, (react s e).1 = s ∧ Right (e, (react s e).2)) (s : σ) :
    Lagging react Right s line log s := by
  induction line with
  | nil => exact ⟨rfl, fun p hp => absurd hp List.not_mem_nil, hlog⟩
  | cons e line ih =>
    obtain ⟨he, hline⟩ := List.forall_mem_cons.1 hline
    obtain ⟨hafter, hout, -⟩ := ih hline
    refine ⟨?_, ?_, hlog⟩
    · rw [Slot.after, (he s).1, hafter]
    · rw [outcomes, (he s).1, List.forall_mem_cons]
      exact ⟨(he s).2, hout⟩

end DsqlEmulator.Slot
