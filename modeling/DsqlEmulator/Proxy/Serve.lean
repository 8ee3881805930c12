import DsqlEmulator.Proxy.Relay
import Mathlib.Data.Finset.Basic

/-! The connections of a proxy: how they are accepted, pinned to an upstream connection each,
tracked and let go, and what a shutdown closes. -/

namespace DsqlEmulator.Proxy.Serve

open Runs Relay

inductive Stage : Type
  | dialing
  | trackingClient
  | trackingUpstream
  | serving
  | untrackingUpstream
  | untrackingClient
  | closingUpstream
  | closingClient
  | returned
  deriving DecidableEq, Repr

abbrev Conn : Type := Nat × Side

inductive Hook : Type
  | armed
  | stopped
  | started
  | listenerClosed
  | finished
  deriving DecidableEq, Repr

/-- `result` tells, once `Run` has no more to accept, whether it returns without an error; `opened`
are the connections there have been and `closed` those that the proxy has closed. -/
structure World : Type where
  cancelled : Bool := false
  hook : Hook := .armed
  listening : Bool := true
  result : Option Bool := none
  stages : List Stage := []
  conns : Finset Conn := ∅
  opened : Finset Conn := ∅
  closed : Finset Conn := ∅

inductive Label : Type
  | cancel
  | closeListener
  | closeConns
  | accept
  | acceptFails
  | stop
  | dial (n : Nat) (ok : Bool)
  | hangUp (n : Nat) (s : Side)
  | leave (n : Nat)
  | go (n : Nat)
  deriving DecidableEq, Repr

def World.track (w : World) (c : Conn) : World := { w with conns := insert c w.conns }

def World.untrack (w : World) (c : Conn) : World := { w with conns := w.conns.erase c }

def World.close (w : World) (c : Conn) : World := { w with closed := insert c w.closed }

def World.closeConns (w : World) : World := { w with closed := w.closed ∪ w.conns }

def World.at (w : World) (n : Nat) (st : Stage) : World := { w with stages := w.stages.set n st }

def go (w : World) (n : Nat) : Stage → Option World
  | .trackingClient => (w.track (n, .client)).at n .trackingUpstream
  | .trackingUpstream => (w.track (n, .upstream)).at n .serving
  | .untrackingUpstream => (w.untrack (n, .upstream)).at n .untrackingClient
  | .untrackingClient => (w.untrack (n, .client)).at n .closingUpstream
  | .closingUpstream => (w.close (n, .upstream)).at n .closingClient
  | .closingClient => (w.close (n, .client)).at n .returned
  | _ => none

/-- A cancelled context fails a dial.  The session closes its connections as it likes, and
leaves. -/
def step : Label → World → Option World
  | .cancel, w =>
    if w.cancelled then none
    else some { w with cancelled := true, hook := if w.hook = .armed then .started else w.hook }
  | .closeListener, w =>
    if w.hook = .started then some { w with listening := false, hook := .listenerClosed } else none
  | .closeConns, w =>
    if w.hook = .listenerClosed then some { w.closeConns with hook := .finished } else none
  | .accept, w =>
    if w.result = none ∧ w.listening then
      some { w with stages := w.stages ++ [.dialing]
                    opened := insert (w.stages.length, .client) w.opened }
    else none
  | .acceptFails, w =>
    if w.result = none then some { w with result := some w.cancelled } else none
  -- deferred by `Run`: by then the context may be cancelled, and the hook have started
  | .stop, w =>
    if w.result.isSome ∧ w.hook = .armed then some { w with hook := .stopped } else none
  | .dial n ok, w =>
    if w.stages[n]? = some .dialing then
      if ok then
        if w.cancelled then none else some
          (World.at { w with opened := insert (n, .upstream) w.opened } n .trackingClient)
      else some (w.at n .closingClient)
    else none
  | .hangUp n s, w => if w.stages[n]? = some .serving then some (w.close (n, s)) else none
  | .leave n, w => if w.stages[n]? = some .serving then some (w.at n .untrackingUpstream) else none
  | .go n, w => w.stages[n]?.bind (go w n)

def proxy : System World Label where
  init := {}
  step := step

section Tracking

def Stage.tracks : Side → Stage → Bool
  | .client, .trackingUpstream | .client, .serving | .client, .untrackingUpstream
  | .client, .untrackingClient => true
  | .upstream, .serving | .upstream, .untrackingUpstream => true
  | _, _ => false

def Stage.hasClosed : Side → Stage → Bool
  | .client, .returned => true
  | .upstream, .closingClient | .upstream, .returned => true
  | _, _ => false

structure Kept (w : World) : Prop where
  conns : ∀ n s, (n, s) ∈ w.conns ↔ ∃ st, w.stages[n]? = some st ∧ st.tracks s = true
  opened : ∀ n s, (n, s) ∈ w.opened → ∃ st, w.stages[n]? = some st ∧ (s = .upstream → st ≠ .dialing)
  closed : ∀ n s st, w.stages[n]? = some st → st.hasClosed s = true → (n, s) ∈ w.opened →
    (n, s) ∈ w.closed

variable {w w' : World} {l : Label} {n m : Nat} {s t : Side} {st st' : Stage}

theorem set_getElem? (h : w.stages[n]? = some st) :
    (w.stages.set n st')[m]? = if m = n then some st' else w.stages[m]? := by
  have hlt : n < w.stages.length := (List.getElem?_eq_some_iff.1 h).1
  rw [List.getElem?_set]
  by_cases hm : n = m
  · subst hm
    simp [hlt]
  · simp [hm, Ne.symm hm]

theorem Kept.moved (h : Kept w) (hn : w.stages[n]? = some st)
    (hstages : w'.stages = w.stages.set n st')
    (hconns : ∀ m s, m ≠ n → ((m, s) ∈ w'.conns ↔ (m, s) ∈ w.conns))
    (hown : ∀ s, (n, s) ∈ w'.conns ↔ st'.tracks s = true)
    (hopened : ∀ m s, m ≠ n → ((m, s) ∈ w'.opened ↔ (m, s) ∈ w.opened))
    (hdialed : (n, .upstream) ∈ w'.opened → st' ≠ .dialing) (hclosed : w.closed ⊆ w'.closed)
    (hlast : ∀ s, st'.hasClosed s = true → (n, s) ∈ w'.opened → (n, s) ∈ w'.closed) : Kept w' where
  conns m s := by
    rw [hstages, set_getElem? hn]
    by_cases hm : m = n
    · subst hm
      simp [hown]
    · rw [if_neg hm, hconns m s hm]
      exact h.conns m s
  opened m s hmem := by
    rw [hstages, set_getElem? hn]
    by_cases hm : m = n
    · subst hm
      exact ⟨st', if_pos rfl, fun hs => hdialed (hs ▸ hmem)⟩
    · rw [if_neg hm]
      exact h.opened m s ((hopened m s hm).1 hmem)
  closed m s st₁ hst₁ hhas hmem := by
    rw [hstages, set_getElem? hn] at hst₁
    by_cases hm : m = n
    · subst hm
      obtain rfl := Option.some.inj ((if_pos rfl).symm.trans hst₁)
      exact hlast s hhas hmem
    · rw [if_neg hm] at hst₁
      exact hclosed (h.closed m s st₁ hst₁ hhas ((hopened m s hm).1 hmem))

theorem Kept.own (h : Kept w) (hn : w.stages[n]? = some st) (s : Side) :
    (n, s) ∈ w.conns ↔ st.tracks s = true := by
  rw [h.conns, hn]
  simp

theorem Kept.go (h : Kept w) (hn : w.stages[n]? = some st) (hs : Serve.go w n st = some w') :
    Kept w' := by
  have hown := h.own hn
  have hlast (s : Side) : st.hasClosed s = true → (n, s) ∈ w.opened → (n, s) ∈ w.closed :=
    h.closed n s st hn
  cases st with
  | trackingClient | trackingUpstream =>
    obtain rfl := Option.some.inj hs
    refine h.moved hn rfl (fun m s hm => ?_) (fun s => ?_) (fun m s hm => .rfl) (fun _ => by simp)
      Finset.Subset.rfl ?_
    · simp [World.track, World.at, hm]
    · cases s <;> simp [World.track, World.at, hown, Stage.tracks]
    · intro s hhas
      cases s <;> cases hhas
  | untrackingUpstream | untrackingClient =>
    obtain rfl := Option.some.inj hs
    refine h.moved hn rfl (fun m s hm => ?_) (fun s => ?_) (fun m s hm => .rfl) (fun _ => by simp)
      Finset.Subset.rfl ?_
    · simp [World.untrack, World.at, hm]
    · cases s <;> simp [World.untrack, World.at, hown, Stage.tracks]
    · intro s hhas
      cases s <;> cases hhas
  | closingUpstream | closingClient =>
    obtain rfl := Option.some.inj hs
    refine h.moved hn rfl (fun m s hm => .rfl) (fun s => ?_) (fun m s hm => .rfl) (fun _ => by simp)
      (Finset.subset_insert _ _) fun s hhas hmem => ?_
    · cases s <;> simp [World.close, World.at, hown, Stage.tracks]
    · cases s with
      | client => first | exact Finset.mem_insert_self _ _ | cases hhas
      | upstream =>
        first
          | exact Finset.mem_insert_self _ _
          | exact Finset.mem_insert_of_mem (hlast .upstream rfl hmem)
  | dialing | serving | returned => cases hs

theorem Kept.dial {ok : Bool} (h : Kept w) (hn : w.stages[n]? = some .dialing)
    (hs : step (.dial n ok) w = some w') : Kept w' := by
  have hown := h.own hn
  rw [step, if_pos hn] at hs
  have hnew : (n, .upstream) ∉ w.opened := fun hmem => by
    obtain ⟨st₁, hst₁, hne⟩ := h.opened n .upstream hmem
    rw [hn] at hst₁
    exact hne rfl (Option.some.inj hst₁).symm
  cases ok with
  | false =>
    obtain rfl := Option.some.inj hs
    refine h.moved hn rfl (fun m s hm => .rfl) (fun s => ?_) (fun m s hm => .rfl) (fun _ => by simp)
      Finset.Subset.rfl fun s hhas hmem => ?_
    · cases s <;> simp [World.at, hown, Stage.tracks]
    · cases s with
      | client => cases hhas
      | upstream => exact absurd hmem hnew
  | true =>
    simp only [if_true] at hs
    split at hs
    · cases hs
    · obtain rfl := Option.some.inj hs
      refine h.moved hn rfl (fun m s hm => .rfl) (fun s => ?_) (fun m s hm => ?_) (fun _ => by simp)
        Finset.Subset.rfl fun s hhas => ?_
      · cases s <;> simp [World.at, hown, Stage.tracks]
      · simp [World.at, hm]
      · cases s <;> cases hhas

theorem append_getElem? :
    (w.stages ++ [.dialing])[m]? = if m = w.stages.length then some .dialing else w.stages[m]? := by
  rw [List.getElem?_append]
  split
  · next hlt => rw [if_neg (Nat.ne_of_lt hlt)]
  · next hlt =>
    by_cases hm : m = w.stages.length
    · subst hm
      simp
    · rw [if_neg hm, List.getElem?_eq_none_iff.2 (Nat.not_lt.1 hlt), List.getElem?_eq_none_iff]
      simp only [List.length_singleton]
      omega

theorem Kept.accept (h : Kept w) :
    Kept { w with stages := w.stages ++ [.dialing]
                  opened := insert (w.stages.length, .client) w.opened } := by
  have hfresh : w.stages[w.stages.length]? = none := by simp
  have hkeep {n s} (hmem : (n, s) ∈ w.opened) : n ≠ w.stages.length := by
    rintro rfl
    obtain ⟨st, hst, -⟩ := h.opened _ s hmem
    rw [hfresh] at hst
    cases hst
  refine ⟨fun n s => ?_, fun n s hmem => ?_, fun n s st hst hhas hmem => ?_⟩
  · rw [append_getElem?]
    by_cases hn : n = w.stages.length
    · subst hn
      simp [h.conns, Stage.tracks]
    · rw [if_neg hn]
      exact h.conns n s
  · rw [append_getElem?]
    rcases Finset.mem_insert.1 hmem with heq | hmem
    · obtain ⟨rfl, rfl⟩ := Prod.mk.inj heq
      exact ⟨.dialing, if_pos rfl, fun hs => (by cases hs)⟩
    · rw [if_neg (hkeep hmem)]
      exact h.opened n s hmem
  · rw [append_getElem?] at hst
    split at hst
    · obtain rfl := Option.some.inj hst
      cases s <;> cases hhas
    · next hn =>
      rcases Finset.mem_insert.1 hmem with heq | hmem
      · exact absurd (Prod.mk.inj heq).1 hn
      · exact h.closed n s st hst hhas hmem

theorem Kept.closeMore (h : Kept w) {closed : Finset Conn} (hsub : w.closed ⊆ closed) :
    Kept { w with closed := closed } :=
  { h with closed := fun n s st hst hhas hmem => hsub (h.closed n s st hst hhas hmem) }

theorem Kept.step (h : Kept w) (hs : step l w = some w') : Kept w' := by
  cases l with
  | cancel =>
    simp only [Serve.step] at hs
    split at hs
    · cases hs
    · obtain rfl := Option.some.inj hs
      exact ⟨h.conns, h.opened, h.closed⟩
  | closeListener | acceptFails | stop =>
    simp only [Serve.step] at hs
    split at hs
    · obtain rfl := Option.some.inj hs
      exact ⟨h.conns, h.opened, h.closed⟩
    · cases hs
  | closeConns =>
    simp only [Serve.step] at hs
    split at hs
    · obtain rfl := Option.some.inj hs
      have hsub : w.closed ⊆ w.closed ∪ w.conns := Finset.subset_union_left
      have hclosed := h.closeMore hsub
      exact ⟨hclosed.conns, hclosed.opened, hclosed.closed⟩
    · cases hs
  | accept =>
    simp only [Serve.step] at hs
    split at hs
    · obtain rfl := Option.some.inj hs
      exact h.accept
    · cases hs
  | dial n ok =>
    by_cases hn : w.stages[n]? = some .dialing
    · exact h.dial hn hs
    · rw [Serve.step, if_neg hn] at hs
      cases hs
  | hangUp n s =>
    simp only [Serve.step] at hs
    split at hs
    · obtain rfl := Option.some.inj hs
      exact h.closeMore (Finset.subset_insert _ _)
    · cases hs
  | leave n =>
    simp only [Serve.step] at hs
    split at hs
    · next hn =>
      obtain rfl := Option.some.inj hs
      refine h.moved hn rfl (fun _ _ _ => .rfl) (fun s => ?_) (fun _ _ _ => .rfl)
        (fun _ => by simp) Finset.Subset.rfl fun s hhas => ?_
      · cases s <;> simp [World.at, h.own hn, Stage.tracks]
      · cases s <;> cases hhas
    · cases hs
  | go n =>
    obtain ⟨st, hn, hs⟩ := Option.bind_eq_some_iff.1 hs
    exact h.go hn hs

theorem kept (hw : Reachable proxy w) : Kept w := by
  refine hw.invariant (I := Kept) ⟨fun n s => ?_, fun n s hmem => ?_, fun n s st hst => ?_⟩
    fun l w w' h _ hs => h.step hs
  · simp [proxy]
  · simp [proxy] at hmem
  · simp [proxy] at hst

/-- A connection is tracked just while its client is served: from the stage that tracks it to
the one that gives it up.  When a client is let go, both its connections are closed and
neither is tracked. -/
theorem conns_tracked (hw : Reachable proxy w) (n : Nat) (s : Side) :
    ((n, s) ∈ w.conns ↔ ∃ st, w.stages[n]? = some st ∧ st.tracks s = true) ∧
      (w.stages[n]? = some .returned → (n, s) ∉ w.conns ∧
          ((n, s) ∈ w.opened → (n, s) ∈ w.closed)) := by
  have h := kept hw
  refine ⟨h.conns n s, fun hn => ⟨fun hmem => ?_, h.closed n s .returned hn ?_⟩⟩
  · have htracks := (h.own hn s).1 hmem
    cases s <;> cases htracks
  · cases s <;> rfl

def served : List Label :=
  [.accept, .dial 0 true, .go 0, .go 0, .accept, .dial 1 true, .go 1, .go 1, .leave 0, .go 0, .go 0,
    .go 0, .go 0]

theorem conns_tracked_served :
    let w := proxy.dest (fun _ _ => True) served
    w.stages = [.returned, .serving] ∧
      (0, Side.upstream) ∉ w.conns ∧ (1, Side.upstream) ∈ w.conns := by
  intro w
  have hstages : w.stages = [.returned, .serving] := by decide +kernel
  refine ⟨hstages, ((conns_tracked (Reach.dest proxy served) 0 .upstream).2 ?_).1,
    (conns_tracked (Reach.dest proxy served) 1 .upstream).1.2 ⟨.serving, ?_, rfl⟩⟩
  · exact congrArg (·[0]?) hstages
  · exact congrArg (·[1]?) hstages

end Tracking

section Shutdown

variable {w w' w₀ w₁ : World} {l : Label} {ls : List Label} {n : Nat} {s : Side}

structure Hooked (w : World) : Prop where
  cancelled : w.hook = .started ∨ w.hook = .listenerClosed ∨ w.hook = .finished → w.cancelled = true
  deaf : w.hook = .listenerClosed ∨ w.hook = .finished → w.listening = false

theorem flags_eq (hs : step l w = some w')
    (hl : l ≠ .cancel ∧ l ≠ .closeListener ∧ l ≠ .closeConns ∧ l ≠ .stop) :
    w'.cancelled = w.cancelled ∧ w'.hook = w.hook ∧ w'.listening = w.listening := by
  cases l with
  | cancel | closeListener | closeConns | stop => simp at hl
  | accept | acceptFails | hangUp | leave =>
    simp only [step] at hs
    split at hs
    · obtain rfl := Option.some.inj hs
      exact ⟨rfl, rfl, rfl⟩
    · cases hs
  | dial n ok =>
    simp only [step] at hs
    repeat' split at hs
    all_goals first | (cases hs; done) | (obtain rfl := Option.some.inj hs; exact ⟨rfl, rfl, rfl⟩)
  | go n =>
    obtain ⟨st, -, hs⟩ := Option.bind_eq_some_iff.1 hs
    cases st <;> first
      | (cases hs; done)
      | (obtain rfl := Option.some.inj hs; exact ⟨rfl, rfl, rfl⟩)

theorem Hooked.step (h : Hooked w) (hs : step l w = some w') : Hooked w' := by
  by_cases hl : l ≠ .cancel ∧ l ≠ .closeListener ∧ l ≠ .closeConns ∧ l ≠ .stop
  · obtain ⟨hc, hh, hli⟩ := flags_eq hs hl
    exact ⟨hh ▸ hc ▸ h.cancelled, hh ▸ hli ▸ h.deaf⟩
  · cases l with
    | cancel =>
      simp only [Serve.step] at hs
      split at hs
      · cases hs
      · obtain rfl := Option.some.inj hs
        refine ⟨fun _ => rfl, fun hh => ?_⟩
        split at hh
        · simp at hh
        · exact h.deaf hh
    | closeListener =>
      simp only [Serve.step] at hs
      split at hs
      · next hh =>
        obtain rfl := Option.some.inj hs
        exact ⟨fun _ => h.cancelled (.inl hh), fun _ => rfl⟩
      · cases hs
    | closeConns =>
      simp only [Serve.step] at hs
      split at hs
      · next hh =>
        obtain rfl := Option.some.inj hs
        exact ⟨fun _ => h.cancelled (.inr (.inl hh)), fun _ => h.deaf (.inl hh)⟩
      · cases hs
    | stop =>
      simp only [Serve.step] at hs
      split at hs
      · obtain rfl := Option.some.inj hs
        exact ⟨fun hh => by simp at hh, fun hh => by simp at hh⟩
      · cases hs
    | _ => exact absurd ⟨by simp, by simp, by simp, by simp⟩ hl

theorem hooked (hw : Reachable proxy w) : Hooked w := by
  refine hw.invariant (I := Hooked) ⟨fun h => ?_, fun h => ?_⟩ fun l w w' h _ hs => h.step hs <;>
    simp [proxy] at h

theorem stopped_step (hh : w.hook = .stopped) (hs : step l w = some w') : w'.hook = .stopped := by
  by_cases hl : l ≠ .cancel ∧ l ≠ .closeListener ∧ l ≠ .closeConns ∧ l ≠ .stop
  · exact (flags_eq hs hl).2.1.trans hh
  · cases l with
    | cancel =>
      simp only [step, hh] at hs
      split at hs
      · cases hs
      · obtain rfl := Option.some.inj hs
        rfl
    | closeListener | closeConns | stop => simp [step, hh] at hs
    | _ => exact absurd ⟨by simp, by simp, by simp, by simp⟩ hl

theorem stopped_closes_nothing (hh : w.hook = .stopped)
    (hls : proxy.walk (fun _ _ => True) ls w = some w') :
    step .closeListener w' = none ∧ step .closeConns w' = none := by
  induction ls generalizing w with
  | nil =>
    cases hls
    simp [step, hh]
  | cons l ls ih =>
    rw [System.walk, if_pos trivial] at hls
    obtain ⟨v, hv, hls⟩ := Option.bind_eq_some_iff.1 hls
    exact ih (stopped_step hh hv) hls

def Stage.untracked (st : Stage) : Bool := st = .trackingClient ∨ st = .trackingUpstream

structure Down (late served : Nat → Prop) (w : World) : Prop where
  cancelled : w.cancelled = true
  deaf : w.listening = false
  untracked : ∀ n st, w.stages[n]? = some st → st.untracked = true → late n
  closed : ∀ n s, ¬ late n → (n, s) ∈ w.conns → (n, s) ∈ w.closed
  serving : ∀ n, w.stages[n]? = some .serving → late n ∨ served n

variable {late served : Nat → Prop}

theorem Down.moved {st st' : Stage} (h : Down late served w) (hn : w.stages[n]? = some st)
    (hstages : w'.stages = w.stages.set n st')
    (hflags : w'.cancelled = w.cancelled ∧ w'.listening = w.listening)
    (hst' : st'.untracked = true → late n) (hserving : st' = .serving → late n ∨ served n)
    (hconns : ∀ m s, ¬ late m → (m, s) ∈ w'.conns → (m, s) ∈ w.conns)
    (hclosed : w.closed ⊆ w'.closed) : Down late served w' where
  cancelled := hflags.1.trans h.cancelled
  deaf := hflags.2.trans h.deaf
  untracked m st₁ hst₁ hun := by
    rw [hstages, set_getElem? hn] at hst₁
    split at hst₁
    · next hm =>
      subst hm
      exact hst' (Option.some.inj hst₁ ▸ hun)
    · exact h.untracked m st₁ hst₁ hun
  closed m s hm hmem := hclosed (h.closed m s hm (hconns m s hm hmem))
  serving m hst₁ := by
    rw [hstages, set_getElem? hn] at hst₁
    split at hst₁
    · next hm =>
      subst hm
      exact hserving (Option.some.inj hst₁)
    · exact h.serving m hst₁

theorem Down.step (h : Down late served w) (hs : step l w = some w') : Down late served w' := by
  cases l with
  | cancel =>
    rw [Serve.step, if_pos h.cancelled] at hs
    cases hs
  | closeListener =>
    simp only [Serve.step] at hs
    split at hs
    · obtain rfl := Option.some.inj hs
      exact ⟨h.cancelled, rfl, h.untracked, h.closed, h.serving⟩
    · cases hs
  | acceptFails | stop =>
    simp only [Serve.step] at hs
    split at hs
    · obtain rfl := Option.some.inj hs
      exact ⟨h.cancelled, h.deaf, h.untracked, h.closed, h.serving⟩
    · cases hs
  | closeConns =>
    simp only [Serve.step] at hs
    split at hs
    · obtain rfl := Option.some.inj hs
      exact ⟨h.cancelled, h.deaf, h.untracked, fun n s _ hmem =>
        Finset.mem_union_right _ hmem, h.serving⟩
    · cases hs
  | accept =>
    rw [Serve.step, if_neg (by simp [h.deaf])] at hs
    cases hs
  | dial n ok =>
    by_cases hn : w.stages[n]? = some .dialing
    · rw [Serve.step, if_pos hn] at hs
      cases ok with
      | true =>
        rw [if_pos rfl, if_pos h.cancelled] at hs
        cases hs
      | false =>
        obtain rfl := Option.some.inj hs
        exact h.moved hn rfl ⟨rfl, rfl⟩ (fun hu => (by cases hu)) (fun hst => (by cases hst))
          (fun _ _ _ => id) Finset.Subset.rfl
    · rw [Serve.step, if_neg hn] at hs
      cases hs
  | hangUp n s =>
    simp only [Serve.step] at hs
    split at hs
    · obtain rfl := Option.some.inj hs
      exact ⟨h.cancelled, h.deaf, h.untracked, fun n s hn hmem => Finset.mem_insert_of_mem
        (h.closed n s hn hmem), h.serving⟩
    · cases hs
  | leave n =>
    simp only [Serve.step] at hs
    split at hs
    · next hn =>
      obtain rfl := Option.some.inj hs
      exact h.moved hn rfl ⟨rfl, rfl⟩ (fun hu => (by cases hu)) (fun hst => (by cases hst))
        (fun _ _ _ => id) Finset.Subset.rfl
    · cases hs
  | go n =>
    obtain ⟨st, hn, hs⟩ := Option.bind_eq_some_iff.1 hs
    have hlate := h.untracked n st hn
    cases st with
    | trackingClient | trackingUpstream =>
      -- only a late client is still to be tracked
      obtain rfl := Option.some.inj hs
      refine h.moved hn rfl ⟨rfl, rfl⟩ (fun _ => hlate rfl) (fun _ => .inl (hlate rfl))
        (fun m s hm hmem => ?_) Finset.Subset.rfl
      rcases Finset.mem_insert.1 hmem with heq | hmem
      · exact absurd ((Prod.mk.inj heq).1 ▸ hlate rfl) hm
      · exact hmem
    | untrackingUpstream | untrackingClient =>
      obtain rfl := Option.some.inj hs
      exact h.moved hn rfl ⟨rfl, rfl⟩ (fun hu => (by cases hu)) (fun hst => (by cases hst))
        (fun _ _ _ => Finset.mem_of_mem_erase) Finset.Subset.rfl
    | closingUpstream | closingClient =>
      obtain rfl := Option.some.inj hs
      exact h.moved hn rfl ⟨rfl, rfl⟩ (fun hu => (by cases hu)) (fun hst => (by cases hst))
        (fun _ _ _ => id) (Finset.subset_insert _ _)
    | dialing | serving | returned => cases hs

theorem Down.walk (h : Down late served w) (hls : proxy.walk (fun _ _ => True) ls w = some w') :
    Down late served w' := by
  induction ls generalizing w with
  | nil =>
    cases hls
    exact h
  | cons l ls ih =>
    rw [System.walk, if_pos trivial] at hls
    obtain ⟨v, hv, hls⟩ := Option.bind_eq_some_iff.1 hls
    exact ih (h.step hv) hls

/-- After a shutdown every connection the proxy tracks is closed, now and later, unless it is
that of a client whose connections were open and not all tracked at that moment.  No other
client gets an upstream connection, and none starts to be served. -/
theorem shutdown_closes (hw : Reachable proxy w₀) (hclose : proxy.step .closeConns w₀ = some w₁)
    (hls : proxy.walk (fun _ _ => True) ls w₁ = some w) (n : Nat)
    (hn : ∀ st, w₀.stages[n]? = some st → st.untracked = false) :
    (∀ s, (n, s) ∈ w.conns → (n, s) ∈ w.closed) ∧
      (∀ st, w.stages[n]? = some st → st.untracked = false) ∧
      (w.stages[n]? = some .serving → w₀.stages[n]? = some .serving) := by
  have hdown : Down (fun n => ∃ st, w₀.stages[n]? = some st ∧ st.untracked = true)
      (fun n => w₀.stages[n]? = some .serving) w₁ := by
    simp only [proxy, step] at hclose
    split at hclose
    · next hh =>
      obtain rfl := Option.some.inj hclose
      exact ⟨(hooked hw).cancelled (.inr (.inl hh)), (hooked hw).deaf (.inl hh), fun n st hst hu =>
        ⟨st, hst, hu⟩,
        fun n s _ hmem => Finset.mem_union_right _ hmem, fun n hst => .inr hst⟩
    · cases hclose
  have hlate : ¬ ∃ st, w₀.stages[n]? = some st ∧ st.untracked = true := by
    rintro ⟨st, hst, hu⟩
    cases (hn st hst).symm.trans hu
  have h := hdown.walk hls
  exact ⟨fun s => h.closed n s hlate, fun st hst => Bool.eq_false_iff.2 fun hu =>
    hlate (h.untracked n st hst hu),
    fun hst => (h.serving n hst).resolve_left hlate⟩

def shutDown : List Label :=
  [.accept, .dial 0 true, .go 0, .go 0, .accept, .dial 1 true, .accept, .cancel, .closeListener]

theorem shutdown_closes_served :
    ∃ w₁ w, proxy.step .closeConns (proxy.dest (fun _ _ => True) shutDown) = some w₁ ∧
      proxy.walk (fun _ _ => True) [.go 1, .go 1, .dial 2 false] w₁ = some w ∧
      ((0, Side.client) ∈ w.conns → (0, Side.client) ∈ w.closed) ∧
        w.stages[2]? ≠ some .serving := by
  have hstages : (proxy.dest (fun _ _ => True) shutDown).stages =
      [.serving, .trackingClient, .dialing] := by
    decide +kernel
  have hsome : ((proxy.step .closeConns (proxy.dest (fun _ _ => True) shutDown)).bind
      (proxy.walk (fun _ _ => True) [.go 1, .go 1, .dial 2 false])).isSome = true := by
        decide +kernel
  obtain ⟨w, hw⟩ := Option.isSome_iff_exists.1 hsome
  obtain ⟨w₁, hclose, hwalk⟩ := Option.bind_eq_some_iff.1 hw
  refine ⟨w₁, w, hclose, hwalk, ?_, fun hserving => ?_⟩
  · refine (shutdown_closes (Reach.dest proxy shutDown) hclose hwalk 0 fun st hst => ?_).1 .client
    rw [hstages] at hst
    obtain rfl := Option.some.inj hst
    rfl
  · have h := (shutdown_closes (Reach.dest proxy shutDown) hclose hwalk 2 fun st hst =>
      ?_).2.2 hserving
    · rw [hstages] at h
      cases h
    · rw [hstages] at hst
      obtain rfl := Option.some.inj hst
      rfl

theorem shutdown_misses_untracked :
    ((proxy.walk (fun _ _ => True) (shutDown ++ [.closeConns, .go 1, .go 1]) proxy.init).map
        fun w =>
      (w.hook, w.stages[1]?,
          decide ((1, Side.client) ∈ w.closed ∨ (1, Side.upstream) ∈ w.closed))) =
      some (.finished, some .serving, false) := by
  decide +kernel

end Shutdown

end DsqlEmulator.Proxy.Serve
