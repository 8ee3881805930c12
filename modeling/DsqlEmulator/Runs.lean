import Mathlib.Logic.Relation

/-! Labelled transition systems, the states they reach by steps that all meet a
condition, and the induction rules the rest of the development uses. -/

universe u v

namespace DsqlEmulator.Runs

structure System (σ : Type u) (ι : Type v) where
  init : σ
  step : ι → σ → Option σ

variable {σ : Type u} {ι : Type v}

def System.walk (S : System σ ι) (ok : ι → σ → Prop) [∀ l w, Decidable (ok l w)] :
    List ι → σ → Option σ
  | [], w => some w
  | l :: ls, w => if ok l w then (S.step l w).bind (S.walk ok ls) else none

/-- The states reached from `init` by steps that all meet `ok`. -/
inductive Reach (S : System σ ι) (ok : ι → σ → Prop) : σ → Prop
  | init : Reach S ok S.init
  | step {l w w'} : Reach S ok w → ok l w → S.step l w = some w' → Reach S ok w'

abbrev Reachable (S : System σ ι) : σ → Prop := Reach S fun _ _ => True

variable {S : System σ ι} {ok ok' : ι → σ → Prop}

theorem Reach.mono (h : ∀ l w, ok l w → ok' l w) {w : σ} (hw : Reach S ok w) : Reach S ok' w := by
  induction hw with
  | init => exact .init
  | step _ hok hs ih => exact .step ih (h _ _ hok) hs

theorem Reach.invariant {I : σ → Prop} (hinit : I S.init)
    (hstep : ∀ l w w', I w → ok l w → S.step l w = some w' → I w') {w : σ}
    (hw : Reach S ok w) : I w := by
  induction hw with
  | init => exact hinit
  | step _ hok hs ih => exact hstep _ _ _ ih hok hs

theorem Reach.of_walk [∀ l w, Decidable (ok l w)] {w w' : σ} {ls : List ι} (hw : Reach S ok w)
    (h : S.walk ok ls w = some w') : Reach S ok w' := by
  induction ls generalizing w with
  | nil =>
    simp only [System.walk, Option.some.injEq] at h
    exact h ▸ hw
  | cons l ls ih =>
    simp only [System.walk] at h
    split at h
    · obtain ⟨v, hv, h⟩ := Option.bind_eq_some_iff.1 h
      exact ih (.step hw ‹_› hv) h
    · cases h

def System.dest (S : System σ ι) (ok : ι → σ → Prop) [∀ l w, Decidable (ok l w)] (ls : List ι) :
    σ :=
  (S.walk ok ls S.init).getD S.init

theorem Reach.dest [∀ l w, Decidable (ok l w)] (S : System σ ι) (ls : List ι) :
    Reach S ok (S.dest ok ls) := by
  unfold System.dest
  cases h : S.walk ok ls S.init with
  | none => exact .init
  | some w => exact Reach.init.of_walk h

section Watched

variable {γ : Type v} {g : γ} {note : ι → σ → γ → γ}

/-- A system of whose steps a record is kept. -/
def System.watched (S : System σ ι) (g : γ) (note : ι → σ → γ → γ) : System (σ × γ) ι where
  init := (S.init, g)
  step l w := (S.step l w.1).map fun w' => (w', note l w.1 w.2)

theorem System.watched_step {l : ι} {w w' : σ × γ} :
    (S.watched g note).step l w = some w' ↔ S.step l w.1 = some w'.1 ∧ w'.2 = note l w.1 w.2 := by
  obtain ⟨w', g'⟩ := w'
  simp only [System.watched, Option.map_eq_some_iff, Prod.mk.injEq]
  constructor
  · rintro ⟨v, hv, rfl, rfl⟩
    exact ⟨hv, rfl⟩
  · rintro ⟨hv, rfl⟩
    exact ⟨w', hv, rfl, rfl⟩

theorem Reach.unwatched {ok' : ι → σ × γ → Prop} (h : ∀ l w, ok' l w → ok l w.1) {w : σ × γ}
    (hw : Reach (S.watched g note) ok' w) : Reach S ok w.1 := by
  induction hw with
  | init => exact .init
  | step _ hok hs ih => exact .step ih (h _ _ hok) (System.watched_step.1 hs).1

theorem Reach.exists_watched (g : γ) (note : ι → σ → γ → γ) {w : σ} (hw : Reach S ok w) :
    ∃ g', Reach (S.watched g note) (fun l w => ok l w.1) (w, g') := by
  induction hw with
  | init => exact ⟨g, .init⟩
  | @step l w w' _ hok hs ih =>
    obtain ⟨g', h⟩ := ih
    exact ⟨note l w g', .step h hok (System.watched_step.2 ⟨hs, rfl⟩)⟩

end Watched

end DsqlEmulator.Runs
