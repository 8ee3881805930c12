import DsqlEmulator.Runs
import Mathlib.Data.List.TakeDrop
import Mathlib.Logic.Function.Basic

/-! The raw relay: two pipes that copy bytes between a client and its upstream, whatever
the order in which they and the two peers move. -/

namespace DsqlEmulator.Proxy.Relay

open Runs

/-- The two connections.  A pipe is named by the one it reads. -/
inductive Side : Type
  | client
  | upstream
  deriving DecidableEq, Repr

def Side.other : Side → Side
  | .client => .upstream
  | .upstream => .client

@[simp] theorem Side.other_other (s : Side) : s.other.other = s := by cases s <;> rfl

@[simp] theorem Side.other_ne (s : Side) : s.other ≠ s := by cases s <;> decide

theorem Side.eq_or_eq_other (s t : Side) : t = s ∨ t = s.other := by
  cases s <;> cases t <;> decide

inductive Fault : Type
  | eof
  | failed
  deriving DecidableEq, Repr

inductive Stage : Type
  | reading
  | counting (buf : List UInt8) (rerr : Option Fault)
  | writing (buf : List UInt8) (rerr : Option Fault)
  | checking (rerr : Option Fault)
  | closingWrite
  | closingSrc
  | closingDst
  | returned (clean : Bool)
  deriving DecidableEq, Repr

structure Conn : Type where
  closed : Bool := false
  writeClosed : Bool := false
  deriving DecidableEq, Repr

structure Flow : Type where
  sent : List UInt8 := []
  ended : Bool := false
  taken : Nat := 0
  counter : Nat := 0
  out : List UInt8 := []
  stage : Stage := .reading
  deriving DecidableEq, Repr

structure State : Type where
  flow : Side → Flow
  conn : Side → Conn

def State.setFlow (w : State) (s : Side) (f : Flow) : State :=
  { w with flow := Function.update w.flow s f }

def State.setConn (w : State) (s : Side) (c : Conn) : State :=
  { w with conn := Function.update w.conn s c }

def relayBufferSize : Nat := 32768

/-- A peer sends or ends its stream; a pipe reads, writes or makes its next other move.  What
a read gives and how far a write gets is the network's choice. -/
inductive Label : Type
  | send (s : Side) (bytes : List UInt8)
  | finish (s : Side)
  | read (s : Side) (n : Nat) (rerr : Option Fault)
  | write (s : Side) (failedAfter : Option Nat)
  | go (s : Side)
  deriving DecidableEq, Repr

def Conn.canRead (c : Conn) (f : Flow) (n : Nat) (rerr : Option Fault) : Bool :=
  if c.closed then n = 0 ∧ rerr = some .failed
  else f.taken + n ≤ f.sent.length ∧ n ≤ relayBufferSize ∧
    (rerr = some .eof → f.ended ∧ f.taken + n = f.sent.length)

def Conn.canWrite (c : Conn) (buf : List UInt8) (failedAfter : Option Nat) : Bool :=
  if c.closed || c.writeClosed then failedAfter = some 0 else ∀ n ∈ failedAfter, n ≤ buf.length

def Flow.read (f : Flow) (n : Nat) (rerr : Option Fault) : Flow :=
  { f with
    taken := f.taken + n
    stage := if 0 < n then .counting ((f.sent.drop f.taken).take n) rerr else .checking rerr }

def Flow.write (f : Flow) (buf : List UInt8) (rerr : Option Fault) : Option Nat → Flow
  | none => { f with out := f.out ++ buf, stage := .checking rerr }
  | some n => { f with out := f.out ++ buf.take n, stage := .closingSrc }

def closeWrite (halfCloses : Bool) (c : Conn) : Conn :=
  if halfCloses then { c with writeClosed := true } else { c with closed := true }

def go (halfCloses : Side → Bool) (w : State) (s : Side) : Option State :=
  let f := w.flow s
  match f.stage with
  | .counting buf rerr =>
    w.setFlow s { f with counter := f.counter + buf.length, stage := .writing buf rerr }
  | .checking none => w.setFlow s { f with stage := .reading }
  | .checking (some .eof) => w.setFlow s { f with stage := .closingWrite }
  | .checking (some .failed) => w.setFlow s { f with stage := .closingSrc }
  | .closingWrite =>
    (w.setConn s.other (closeWrite (halfCloses s.other) (w.conn s.other))).setFlow s
      { f with stage := .returned true }
  | .closingSrc =>
    (w.setConn s { w.conn s with closed := true }).setFlow s { f with stage := .closingDst }
  | .closingDst =>
    (w.setConn s.other { w.conn s.other with closed := true }).setFlow s
      { f with stage := .returned false }
  | _ => none

def step (halfCloses : Side → Bool) : Label → State → Option State
  | .send s bytes, w =>
    if (w.flow s).ended then none else w.setFlow s
      { w.flow s with sent := (w.flow s).sent ++ bytes }
  | .finish s, w => if (w.flow s).ended then none else w.setFlow s { w.flow s with ended := true }
  | .read s n rerr, w =>
    if (w.flow s).stage = .reading ∧ (w.conn s).canRead (w.flow s) n rerr then w.setFlow s
      ((w.flow s).read n rerr) else none
  | .write s failedAfter, w =>
    match (w.flow s).stage with
    | .writing buf rerr =>
      if (w.conn s.other).canWrite buf failedAfter then w.setFlow s
        ((w.flow s).write buf rerr failedAfter) else none
    | _ => none
  | .go s, w => go halfCloses w s

/-- The relay of two connections on which bytes may be waiting, with counters that may
have started. -/
def relay (halfCloses : Side → Bool) (waiting : Side → List UInt8) (counted : Side → Nat) :
    System State Label where
  init := { flow := fun s => { sent := waiting s, counter := counted s }, conn := fun _ => {} }
  step := step halfCloses

section Steps

variable {halfCloses : Side → Bool} {w w' : State} {l : Label}

inductive Moves (halfCloses : Side → Bool) (w : State) (s : Side) :
    Label → Flow → (Side → Conn) → Prop
  | send {bytes} : (w.flow s).ended = false →
      Moves halfCloses w s (.send s bytes) { w.flow s with sent := (w.flow s).sent ++ bytes } w.conn
  | finish : (w.flow s).ended = false →
      Moves halfCloses w s (.finish s) { w.flow s with ended := true } w.conn
  | read {n rerr} : (w.flow s).stage = .reading → (w.conn s).canRead (w.flow s) n rerr = true →
      Moves halfCloses w s (.read s n rerr) ((w.flow s).read n rerr) w.conn
  | write {buf rerr failedAfter} : (w.flow s).stage = .writing buf rerr →
      (w.conn s.other).canWrite buf failedAfter = true →
      Moves halfCloses w s (.write s failedAfter) ((w.flow s).write buf rerr failedAfter) w.conn
  | count {buf rerr} : (w.flow s).stage = .counting buf rerr →
      Moves halfCloses w s (.go s)
        { w.flow s with counter := (w.flow s).counter + buf.length, stage := .writing buf rerr }
          w.conn
  | again : (w.flow s).stage = .checking none →
      Moves halfCloses w s (.go s) { w.flow s with stage := .reading } w.conn
  | eof : (w.flow s).stage = .checking (some .eof) →
      Moves halfCloses w s (.go s) { w.flow s with stage := .closingWrite } w.conn
  | fail : (w.flow s).stage = .checking (some .failed) →
      Moves halfCloses w s (.go s) { w.flow s with stage := .closingSrc } w.conn
  | closeWrite : (w.flow s).stage = .closingWrite →
      Moves halfCloses w s (.go s) { w.flow s with stage := .returned true }
        (Function.update w.conn s.other (closeWrite (halfCloses s.other) (w.conn s.other)))
  | closeSrc : (w.flow s).stage = .closingSrc →
      Moves halfCloses w s (.go s) { w.flow s with stage := .closingDst }
        (Function.update w.conn s { w.conn s with closed := true })
  | closeDst : (w.flow s).stage = .closingDst →
      Moves halfCloses w s (.go s) { w.flow s with stage := .returned false }
        (Function.update w.conn s.other { w.conn s.other with closed := true })

def Label.side : Label → Side
  | .send s _ | .finish s | .read s _ _ | .write s _ | .go s => s

theorem moves_of_step (hs : step halfCloses l w = some w') :
    ∃ f c, Moves halfCloses w l.side l f c ∧
      w' = { flow := Function.update w.flow l.side f, conn := c } := by
  cases l with
  | send s bytes =>
    simp only [step] at hs
    split at hs
    · cases hs
    · next h =>
      cases hs
      exact ⟨_, _, .send (Bool.not_eq_true _ ▸ h), rfl⟩
  | finish s =>
    simp only [step] at hs
    split at hs
    · cases hs
    · next h =>
      cases hs
      exact ⟨_, _, .finish (Bool.not_eq_true _ ▸ h), rfl⟩
  | read s n rerr =>
    simp only [step] at hs
    split at hs
    · next h =>
      cases hs
      exact ⟨_, _, .read h.1 h.2, rfl⟩
    · cases hs
  | write s failedAfter =>
    simp only [step] at hs
    split at hs
    · next buf rerr h =>
      split at hs
      · next hw =>
        cases hs
        exact ⟨_, _, .write h hw, rfl⟩
      · cases hs
    · cases hs
  | go s =>
    simp only [step, go] at hs
    split at hs
    · next h => cases hs; exact ⟨_, _, .count h, rfl⟩
    · next h => cases hs; exact ⟨_, _, .again h, rfl⟩
    · next h => cases hs; exact ⟨_, _, .eof h, rfl⟩
    · next h => cases hs; exact ⟨_, _, .fail h, rfl⟩
    · next h => cases hs; exact ⟨_, _, .closeWrite h, rfl⟩
    · next h => cases hs; exact ⟨_, _, .closeSrc h, rfl⟩
    · next h => cases hs; exact ⟨_, _, .closeDst h, rfl⟩
    · cases hs

theorem step_write {s : Side} {buf : List UInt8} {rerr : Option Fault} {failedAfter : Option Nat}
    (hstage : (w.flow s).stage = .writing buf rerr)
    (h : (w.conn s.other).canWrite buf failedAfter = true) :
    step halfCloses (.write s failedAfter) w =
      some (w.setFlow s ((w.flow s).write buf rerr failedAfter)) := by
  simp only [step, hstage, h, if_true]

end Steps

section Bytes

@[simp] def Stage.held : Stage → List UInt8
  | .counting buf _ | .writing buf _ => buf
  | _ => []

@[simp] def Stage.uncounted : Stage → Nat
  | .counting buf _ => buf.length
  | _ => 0

@[simp] def Stage.clean : Stage → Bool
  | .closingSrc | .closingDst | .returned false => false
  | _ => true

@[simp] def Stage.atEnd : Stage → Bool
  | .counting _ rerr | .writing _ rerr | .checking rerr => rerr = some .eof
  | .closingWrite | .returned true => true
  | _ => false

structure Flow.Intact (base : Nat) (f : Flow) : Prop where
  taken_le : f.taken ≤ f.sent.length
  counts : f.counter + f.stage.uncounted = base + f.taken
  part : f.out ++ f.stage.held <+: f.sent.take f.taken
  whole : f.stage.clean = true → f.out ++ f.stage.held = f.sent.take f.taken
  atEnd : f.stage.atEnd = true → f.ended = true ∧ f.taken = f.sent.length

variable {base n : Nat} {f : Flow} {c : Conn} {rerr : Option Fault} {buf : List UInt8}

theorem Conn.canRead_le (h : c.canRead f n rerr = true) (hle : f.taken ≤ f.sent.length) :
    f.taken + n ≤ f.sent.length ∧
      (rerr = some .eof → f.ended = true ∧ f.taken + n = f.sent.length) := by
  unfold Conn.canRead at h
  split at h
  · obtain ⟨rfl, rfl⟩ := of_decide_eq_true h
    exact ⟨hle, fun he => by cases he⟩
  · obtain ⟨hn, -, heof⟩ := of_decide_eq_true h
    exact ⟨hn, heof⟩

theorem Flow.Intact.send {bytes : List UInt8} (h : f.Intact base) (he : f.ended = false) :
    Flow.Intact base { f with sent := f.sent ++ bytes } where
  taken_le := by
    rw [List.length_append]
    exact Nat.le_add_right_of_le h.taken_le
  counts := h.counts
  part := by
    rw [List.take_append_of_le_length h.taken_le]
    exact h.part
  whole hc := by
    rw [List.take_append_of_le_length h.taken_le]
    exact h.whole hc
  atEnd ha := by
    have hended := (h.atEnd ha).1
    rw [he] at hended
    cases hended

theorem Flow.Intact.read (h : f.Intact base) (hstage : f.stage = .reading)
    (hread : c.canRead f n rerr = true) : (f.read n rerr).Intact base := by
  obtain ⟨hle, heof⟩ := Conn.canRead_le hread h.taken_le
  have hout : f.out = f.sent.take f.taken := by
    have hwhole := h.whole (by rw [hstage]; rfl)
    simpa [hstage] using hwhole
  have hcounts : f.counter = base + f.taken := by
    have hcounts := h.counts
    rwa [hstage] at hcounts
  have hall : (f.read n rerr).out ++ (f.read n rerr).stage.held = (f.read n rerr).sent.take
      (f.read n rerr).taken := by
    unfold Flow.read
    by_cases hn : 0 < n
    · simp only [if_pos hn, Stage.held]
      rw [hout, List.take_add]
    · obtain rfl : n = 0 := by omega
      simp [Stage.held, hout]
  refine ⟨hle, ?_, hall ▸ List.prefix_refl _, fun _ => hall, fun ha => heof ?_⟩
  · unfold Flow.read
    split
    · simp only [Stage.uncounted, List.length_take, List.length_drop]
      omega
    · simp only [Stage.uncounted]
      omega
  · unfold Flow.read at ha
    split at ha <;> exact of_decide_eq_true ha

theorem Flow.Intact.write {failedAfter : Option Nat} (h : f.Intact base)
    (hstage : f.stage = .writing buf rerr) : (f.write buf rerr failedAfter).Intact base := by
  have hwhole : f.out ++ buf = f.sent.take f.taken := by
    have hwhole := h.whole (by rw [hstage]; rfl)
    rwa [hstage] at hwhole
  have hcounts : f.counter = base + f.taken := by
    have hcounts := h.counts
    rwa [hstage] at hcounts
  cases failedAfter with
  | none =>
    refine ⟨h.taken_le, hcounts, ?_, fun _ => ?_, fun ha => h.atEnd (by rw [hstage]; exact ha)⟩
    · simp [Flow.write, Stage.held, hwhole]
    · simp [Flow.write, Stage.held, hwhole]
  | some k =>
    refine ⟨h.taken_le, hcounts, ?_, fun hc => (by cases hc), fun ha => (by cases ha)⟩
    simp only [Flow.write, Stage.held, List.append_nil, ← hwhole]
    exact (List.prefix_append_right_inj _).2 (List.take_prefix _ _)

theorem Flow.Intact.next {st : Stage} (h : f.Intact base) (hheld : f.stage.held = [])
    (hheld' : st.held = []) (hun : f.stage.uncounted = 0) (hun' : st.uncounted = 0)
    (hclean : st.clean = true → f.stage.clean = true)
    (hend : st.atEnd = true → f.stage.atEnd = true) : Flow.Intact base { f with stage := st } where
  taken_le := h.taken_le
  counts := by
    rw [hun', ← hun]
    exact h.counts
  part := by
    rw [hheld', ← hheld]
    exact h.part
  whole hc := by
    rw [hheld', ← hheld]
    exact h.whole (hclean hc)
  atEnd ha := h.atEnd (hend ha)

variable {halfCloses : Side → Bool} {w w' : State} {l : Label} {s : Side} {conn : Side → Conn}

theorem Flow.Intact.moves (h : (w.flow s).Intact base) (hm : Moves halfCloses w s l f conn) :
    f.Intact base := by
  cases hm with
  | send he => exact h.send he
  | finish he => exact { h with atEnd := fun ha => ⟨rfl, (h.atEnd ha).2⟩ }
  | read hstage hread => exact h.read hstage hread
  | write hstage _ => exact h.write hstage
  | @count buf rerr hstage =>
    have hcounts := h.counts
    have hpart := h.part
    have hwhole := h.whole
    have hend := h.atEnd
    rw [hstage] at hcounts hpart hwhole hend
    exact ⟨h.taken_le, hcounts, hpart, hwhole, hend⟩
  | again hstage | eof hstage | fail hstage | closeWrite hstage | closeSrc hstage
  | closeDst hstage =>
    refine h.next ?_ rfl ?_ rfl ?_ ?_ <;> rw [hstage] <;> first
      | rfl
      | (intro h; first | exact h | rfl)

variable {waiting : Side → List UInt8} {counted : Side → Nat}

theorem Moves.sent_prefix (hm : Moves halfCloses w s l f conn) : (w.flow s).sent <+: f.sent := by
  cases hm with
  | send => exact List.prefix_append _ _
  | @write _ _ failedAfter => cases failedAfter <;> exact List.prefix_refl _
  | _ => exact List.prefix_refl _

theorem intact (hw : Reachable (relay halfCloses waiting counted) w) (s : Side) :
    (w.flow s).Intact (counted s) := by
  induction hw with
  | init => exact ⟨Nat.zero_le _, rfl, List.prefix_refl _, fun _ => rfl, fun h => by cases h⟩
  | @step l w w' hw _ hs ih =>
    obtain ⟨f, c, hm, rfl⟩ := moves_of_step hs
    by_cases ht : s = l.side
    · subst ht
      simpa using ih.moves hm
    · simpa [Function.update_of_ne ht] using ih

theorem waiting_sent (hw : Reachable (relay halfCloses waiting counted) w) (s : Side) :
    waiting s <+: (w.flow s).sent := by
  induction hw with
  | init => exact List.prefix_refl _
  | @step l w w' hw _ hs ih =>
    obtain ⟨f, c, hm, rfl⟩ := moves_of_step hs
    by_cases ht : s = l.side
    · subst ht
      simpa using ih.trans hm.sent_prefix
    · simpa [Function.update_of_ne ht] using ih

theorem Flow.Intact.out_sent (h : f.Intact base) : f.out <+: f.sent :=
  (List.prefix_append _ _).trans (h.part.trans (List.take_prefix _ _))

theorem Flow.Intact.of_returned (h : f.Intact base) (hstage : f.stage = .returned true) :
    f.ended = true ∧ f.out = f.sent := by
  obtain ⟨hended, htaken⟩ := h.atEnd (by rw [hstage]; rfl)
  have hwhole := h.whole (by rw [hstage]; rfl)
  simp only [hstage, Stage.held, List.append_nil, htaken, List.take_length] at hwhole
  exact ⟨hended, hwhole⟩

/-- What a peer gets is what the other one sent, in order and from the first byte that was
waiting; after a pipe has returned at the end of a stream it is all of it, and all counted. -/
theorem relay_verbatim (hw : Reachable (relay halfCloses waiting counted) w) (s : Side) :
    waiting s <+: (w.flow s).sent ∧ (w.flow s).out <+: (w.flow s).sent ∧
      ((w.flow s).stage = .returned true → (w.flow s).ended = true ∧ (w.flow s).out =
          (w.flow s).sent ∧ (w.flow s).counter = counted s + (w.flow s).sent.length) := by
  have h := intact hw s
  refine ⟨waiting_sent hw s, ?_, fun hstage => ?_⟩
  · exact h.out_sent
  · obtain ⟨hended, hout⟩ := h.of_returned hstage
    have hcounts := h.counts
    obtain ⟨-, htaken⟩ := h.atEnd (by rw [hstage]; rfl)
    simp only [hstage, htaken, Stage.uncounted, Nat.add_zero] at hcounts
    exact ⟨hended, hout, hcounts⟩

def halfClosed : List Label :=
  [.send .client [2, 3], .read .client 2 none, .go .client, .write .client none, .go .client,
    .send .client [4],
    .finish .client, .read .client 2 (some .eof), .go .client, .write .client none, .go .client,
      .go .client]

theorem relay_verbatim_halfClosed :
    let w := (relay (fun _ => true) (fun _ => [1]) (fun _ => 8)).dest (fun _ _ => True) halfClosed
    (w.flow .client).out = [1, 2, 3, 4] ∧ (w.flow .client).counter = 8 + 4 := by
  intro w
  have hsent : (w.flow .client).sent = [1, 2, 3, 4] := by decide +kernel
  have hstage : (w.flow .client).stage = .returned true := by decide +kernel
  obtain ⟨-, hout, hcounter⟩ := (relay_verbatim (Reach.dest _ halfClosed) .client).2.2 hstage
  exact ⟨hout.trans hsent, hcounter.trans (by rw [hsent]; rfl)⟩

end Bytes

section HalfClose

/-- No read and no write fails. -/
def Smooth : Label → State → Prop
  | .read _ _ rerr, _ => rerr ≠ some .failed
  | .write _ failedAfter, _ => failedAfter = none
  | _, _ => True

instance : (l : Label) → (w : State) → Decidable (Smooth l w)
  | .send .., _ => .isTrue trivial
  | .finish _, _ => .isTrue trivial
  | .read .., _ => inferInstanceAs (Decidable (_ ≠ _))
  | .write .., _ => inferInstanceAs (Decidable (_ = _))
  | .go _, _ => .isTrue trivial

@[simp] def Stage.smooth : Stage → Bool
  | .counting _ rerr | .writing _ rerr | .checking rerr => rerr ≠ some .failed
  | .closingSrc | .closingDst | .returned false => false
  | _ => true

structure Open (w : State) : Prop where
  closed : ∀ s, (w.conn s).closed = false
  smooth : ∀ s, (w.flow s).stage.smooth = true
  half : ∀ s, (w.conn s.other).writeClosed = true ↔ (w.flow s).stage = .returned true

def Label.runs (s : Side) : Label → Bool
  | .read t _ _ | .write t _ | .go t => t = s
  | _ => false

variable {halfCloses : Side → Bool} {w w' : State} {l : Label} {waiting : Side → List UInt8}
  {counted : Side → Nat}

theorem Open.setFlow {s : Side} {f : Flow} (h : Open w) (hsmooth : f.stage.smooth = true)
    (hstage : (w.flow s).stage = .returned true ↔ f.stage = .returned true) :
    Open { flow := Function.update w.flow s f, conn := w.conn } where
  closed := h.closed
  smooth t := by
    by_cases ht : t = s
    · subst ht
      simpa using hsmooth
    · simpa [Function.update_of_ne ht] using h.smooth t
  half t := by
    by_cases ht : t = s
    · subst ht
      simpa using (h.half t).trans hstage
    · simpa [Function.update_of_ne ht] using h.half t

theorem Open.step (hh : ∀ s, halfCloses s = true) (h : Open w) (hl : Smooth l w)
    (hs : step halfCloses l w = some w') : Open w' := by
  obtain ⟨f, c, hm, rfl⟩ := moves_of_step hs
  have hsmooth := h.smooth l.side
  generalize l.side = s at hm hsmooth
  cases hm with
  | send => exact h.setFlow hsmooth .rfl
  | finish => exact h.setFlow hsmooth .rfl
  | @read n rerr hstage _ =>
    refine h.setFlow ?_ ?_
    · unfold Flow.read
      split <;> exact decide_eq_true hl
    · rw [hstage]
      unfold Flow.read
      split <;> simp
  | @write buf rerr failedAfter hstage _ =>
    obtain rfl : failedAfter = none := hl
    rw [hstage] at hsmooth
    exact h.setFlow hsmooth (by rw [hstage]; simp [Flow.write])
  | count hstage | again hstage | eof hstage | fail hstage =>
    rw [hstage] at hsmooth
    exact h.setFlow hsmooth (by rw [hstage]; simp)
  | closeWrite hstage =>
    -- the one move that closes anything: the other pipe's connection for writing
    rw [closeWrite, if_pos (hh _)]
    refine ⟨fun t => ?_, fun t => ?_, fun t => ?_⟩
    · by_cases ht : t = s.other
      · subst ht
        simpa using h.closed s.other
      · simpa [Function.update_of_ne ht] using h.closed t
    · by_cases ht : t = s
      · subst ht
        simp
      · simpa [Function.update_of_ne ht] using h.smooth t
    · rcases Side.eq_or_eq_other s t with rfl | rfl
      · simp
      · simpa [Function.update_of_ne (Side.other_ne s),
          Function.update_of_ne (Side.other_ne s).symm] using h.half s.other
  | closeSrc hstage | closeDst hstage =>
    rw [hstage] at hsmooth
    cases hsmooth

theorem Open.progress (h : Open w) (s : Side) (hle : (w.flow s).taken ≤ (w.flow s).sent.length) :
    (w.flow s).stage = .returned true ∨
      ((w.flow s).stage = .reading ∧ (w.flow s).taken = (w.flow s).sent.length ∧
          (w.flow s).ended = false) ∨
      ∃ l w', l.runs s = true ∧ Smooth l w ∧ Relay.step halfCloses l w = some w' := by
  have hsmooth := h.smooth s
  cases hstage : (w.flow s).stage with
  | reading =>
    by_cases hmore : (w.flow s).taken < (w.flow s).sent.length
    · refine .inr (.inr ⟨.read s 1 none, _, by simp [Label.runs], by simp [Smooth],
        if_pos ⟨hstage, ?_⟩⟩)
      simp only [Conn.canRead, h.closed]
      simpa [relayBufferSize] using Nat.succ_le_of_lt hmore
    · have hall : (w.flow s).taken = (w.flow s).sent.length :=
        Nat.le_antisymm hle (Nat.not_lt.1 hmore)
      cases hended : (w.flow s).ended with
      | false => exact .inr (.inl ⟨rfl, hall, rfl⟩)
      | true =>
        refine .inr (.inr ⟨.read s 0 (some .eof), _, by simp [Label.runs], by simp [Smooth],
          if_pos ⟨hstage, ?_⟩⟩)
        simp [Conn.canRead, h.closed, hall, hended]
  | counting buf rerr =>
    exact .inr (.inr ⟨.go s, _, by simp [Label.runs],
      trivial, by simp only [Relay.step, go, hstage]; rfl⟩)
  | writing buf rerr =>
    have hopen : (w.conn s.other).writeClosed = false := by
      rw [← Bool.not_eq_true, h.half, hstage]
      simp
    refine .inr (.inr ⟨.write s none, _, by simp [Label.runs], rfl, step_write hstage ?_⟩)
    simp [Conn.canWrite, h.closed, hopen]
  | checking rerr =>
    rw [hstage] at hsmooth
    cases rerr with
    | none =>
      exact .inr (.inr ⟨.go s, _, by simp [Label.runs],
        trivial, by simp only [Relay.step, go, hstage]; rfl⟩)
    | some e =>
      cases e with
      | eof =>
        exact .inr (.inr ⟨.go s, _, by simp [Label.runs],
          trivial, by simp only [Relay.step, go, hstage]; rfl⟩)
      | failed => cases hsmooth
  | closingWrite =>
    exact .inr (.inr ⟨.go s, _, by simp [Label.runs],
      trivial, by simp only [Relay.step, go, hstage]; rfl⟩)
  | closingSrc | closingDst =>
    rw [hstage] at hsmooth
    cases hsmooth
  | returned clean =>
    rw [hstage] at hsmooth
    cases clean with
    | false => cases hsmooth
    | true => exact .inl rfl

/-- Where nothing fails, the end of one stream closes nothing but the writing side it was
copied to, after its last byte; and a pipe has returned, waits for its peer or can go on,
whatever has become of the other. -/
theorem relay_half_closes (hh : ∀ s, halfCloses s = true)
    (hw : Reach (relay halfCloses waiting counted) Smooth w) (s : Side) :
    (w.conn s).closed = false ∧
      ((w.conn s.other).writeClosed = true → (w.flow s).ended = true ∧ (w.flow s).out =
          (w.flow s).sent) ∧ ((w.conn s.other).writeClosed = true ∨
        ((w.flow s).stage = .reading ∧ (w.flow s).out = (w.flow s).sent ∧
            (w.flow s).ended = false) ∨
        ∃ l w', l.runs s = true ∧ Smooth l w ∧ (relay halfCloses waiting counted).step l w =
          some w') := by
  have hopen : Open w := by
    refine hw.invariant (I := Open) ⟨fun _ => rfl, fun _ => rfl, fun _ => ?_⟩ fun l w w' h hl hs =>
      h.step hh hl hs
    simp [relay]
  have hin : (w.flow s).Intact (counted s) := intact (hw.mono fun _ _ _ => trivial) s
  refine ⟨hopen.closed s, fun hclosed => ?_, ?_⟩
  · exact hin.of_returned ((hopen.half s).1 hclosed)
  · rcases hopen.progress s hin.taken_le with hret | ⟨hstage, htaken, hended⟩ | hgo
    · exact .inl ((hopen.half s).2 hret)
    · have hwhole := hin.whole (by rw [hstage]; rfl)
      simp only [hstage, Stage.held, List.append_nil, htaken, List.take_length] at hwhole
      exact .inr (.inl ⟨hstage, hwhole, hended⟩)
    · exact .inr (.inr hgo)

def answered : List Label :=
  halfClosed ++ [.send .upstream [9], .read .upstream 2 none, .go .upstream, .write .upstream none,
    .go .upstream]

theorem relay_half_closes_answered :
    let w := (relay (fun _ => true) (fun _ => [1]) (fun _ => 8)).dest Smooth answered
    (w.flow .upstream).out = [1, 9] ∧ (w.conn .client).closed = false ∧ (w.flow .client).out =
        (w.flow .client).sent := by
  intro w
  have hclosed : (w.conn .upstream).writeClosed = true := by decide +kernel
  have h := relay_half_closes (fun _ => rfl)
    (Reach.dest (relay (fun _ => true) (fun _ => [1]) (fun _ => 8)) answered) .client
  exact ⟨by decide +kernel, h.1, (h.2.1 hclosed).2⟩

end HalfClose

section Returns

@[simp] def Stage.left : Stage → Nat
  | .checking none => 5
  | .reading | .counting .. => 4
  | .writing .. | .checking (some _) => 3
  | .closingSrc => 2
  | .closingWrite | .closingDst => 1
  | .returned _ => 0

theorem Stage.left_le (st : Stage) : st.left ≤ 5 := by
  cases st with
  | checking rerr => cases rerr <;> simp
  | _ => simp

structure Shut (w : State) (s : Side) : Prop where
  src : (w.flow s).stage = .closingDst → (w.conn s).closed = true
  both : (w.flow s).stage = .returned false → ∀ t, (w.conn t).closed = true

variable {halfCloses : Side → Bool} {w w' : State} {l : Label} {s t : Side} {f : Flow}
  {conn : Side → Conn} {waiting : Side → List UInt8} {counted : Side → Nat} {ls : List Label}

theorem Moves.closed_mono (hm : Moves halfCloses w s l f conn) (h : (w.conn t).closed = true) :
    (conn t).closed = true := by
  cases hm with
  | closeWrite =>
    by_cases ht : t = s.other
    · subst ht
      rw [Function.update_self, Relay.closeWrite]
      split
      · exact h
      · rfl
    · rwa [Function.update_of_ne ht]
  | closeSrc =>
    by_cases ht : t = s
    · subst ht
      simp
    · rwa [Function.update_of_ne ht]
  | closeDst =>
    by_cases ht : t = s.other
    · subst ht
      simp
    · rwa [Function.update_of_ne ht]
  | _ => exact h

theorem Shut.moves (h : Shut w s) (hm : Moves halfCloses w s l f conn) :
    Shut { flow := Function.update w.flow s f, conn := conn } s := by
  cases hm with
  | send => exact ⟨by simpa using h.src, by simpa using h.both⟩
  | finish => exact ⟨by simpa using h.src, by simpa using h.both⟩
  | read =>
    constructor <;> dsimp only <;> rw [Function.update_self, Flow.read] <;> dsimp only <;> split <;>
      exact fun hst => (by cases hst)
  | @write buf rerr failedAfter =>
    cases failedAfter <;> exact ⟨by simp [Flow.write], by simp [Flow.write]⟩
  | closeSrc => exact ⟨by simp, by simp⟩
  | closeDst hstage =>
    refine ⟨by simp, fun _ t => ?_⟩
    rcases Side.eq_or_eq_other s t with rfl | rfl
    · simpa [Function.update_of_ne (Side.other_ne t).symm] using h.src hstage
    · simp
  | _ => exact ⟨by simp, by simp⟩

theorem shut (hw : Reachable (relay halfCloses waiting counted) w) (s : Side) : Shut w s := by
  induction hw with
  | init => exact ⟨fun h => (by cases h), fun h => (by cases h)⟩
  | @step l w w' hw _ hs ih =>
    obtain ⟨f, c, hm, rfl⟩ := moves_of_step hs
    by_cases ht : s = l.side
    · subst ht
      exact ih.moves hm
    · refine ⟨fun hst => hm.closed_mono (ih.src ?_), fun hst t => hm.closed_mono (ih.both ?_ t)⟩
      · simpa [Function.update_of_ne ht] using hst
      · simpa [Function.update_of_ne ht] using hst

theorem Moves.left_lt (hm : Moves halfCloses w s l f conn) (hclosed : ∀ t, (w.conn t).closed = true)
    (hl : l.runs s = true) : f.stage.left < (w.flow s).stage.left := by
  cases hm with
  | send | finish => cases hl
  | @read n rerr hstage hread =>
    simp only [Conn.canRead, hclosed, if_true] at hread
    obtain ⟨rfl, rfl⟩ := of_decide_eq_true hread
    simp [Flow.read, hstage]
  | @write buf rerr failedAfter hstage hwrite =>
    simp only [Conn.canWrite, hclosed, Bool.true_or, if_true] at hwrite
    obtain rfl := of_decide_eq_true hwrite
    simp [Flow.write, hstage]
  | count hstage | again hstage | eof hstage | fail hstage | closeWrite hstage | closeSrc hstage
  | closeDst hstage =>
    simp [hstage]

theorem Moves.left_eq (hm : Moves halfCloses w s l f conn) (hl : l.runs s = false) :
    f.stage.left = (w.flow s).stage.left := by
  cases hm with
  | send | finish => rfl
  | _ => simp [Label.runs] at hl

theorem runs_side {l : Label} (h : l.runs s = true) : l.side = s := by
  cases l with
  | send | finish => cases h
  | _ => exact of_decide_eq_true h

theorem countP_runs_le (hclosed : ∀ t, (w.conn t).closed = true)
    (hls : (relay halfCloses waiting counted).walk (fun _ _ => True) ls w = some w') :
    ls.countP (Label.runs s) + (w'.flow s).stage.left ≤ (w.flow s).stage.left ∧
      ∀ t, (w'.conn t).closed = true := by
  induction ls generalizing w with
  | nil =>
    cases hls
    exact ⟨by simp, hclosed⟩
  | cons l ls ih =>
    rw [System.walk, if_pos trivial] at hls
    obtain ⟨v, hv, hls⟩ := Option.bind_eq_some_iff.1 hls
    obtain ⟨f, c, hm, rfl⟩ := moves_of_step hv
    obtain ⟨hcount, hstill⟩ := ih (fun t => hm.closed_mono (hclosed t)) hls
    refine ⟨?_, hstill⟩
    rw [List.countP_cons]
    cases hl : l.runs s with
    | true =>
      obtain rfl := runs_side hl
      have hlt := hm.left_lt hclosed hl
      simp only [Function.update_self] at hcount
      simp only [if_true]
      omega
    | false =>
      have hsame : ((Function.update w.flow l.side f) s).stage.left = (w.flow s).stage.left := by
        by_cases ht : s = l.side
        · subst ht
          rw [Function.update_self]
          exact hm.left_eq hl
        · rw [Function.update_of_ne ht]
      simp only [hsame] at hcount
      simpa using hcount

theorem exists_step (hclosed : ∀ t, (w.conn t).closed = true) (s : Side) :
    (∃ clean, (w.flow s).stage = .returned clean) ∨ ∃ l w', l.runs s = true ∧ step halfCloses l w =
      some w' := by
  cases hstage : (w.flow s).stage with
  | reading =>
    refine .inr ⟨.read s 0 (some .failed), _, by simp [Label.runs], if_pos ⟨hstage, ?_⟩⟩
    simp [Conn.canRead, hclosed]
  | writing buf rerr =>
    refine .inr ⟨.write s (some 0), _, by simp [Label.runs], step_write hstage ?_⟩
    simp [Conn.canWrite, hclosed]
  | checking rerr =>
    refine .inr ⟨.go s, ?_⟩
    rcases rerr with _ | _ | _ <;>
      exact ⟨_, by simp [Label.runs], by simp only [step, go, hstage]; rfl⟩
  | returned clean => exact .inl ⟨clean, rfl⟩
  | _ => exact .inr ⟨.go s, _, by simp [Label.runs], by simp only [step, go, hstage]; rfl⟩

/-- After one pipe has given up, the other makes at most five more moves, and can make them
until it has returned too: the relay ends. -/
theorem relay_returns (hw : Reachable (relay halfCloses waiting counted) w)
    (hret : (w.flow s).stage = .returned false)
    (hls : (relay halfCloses waiting counted).walk (fun _ _ => True) ls w = some w') :
    ls.countP (Label.runs s.other) ≤ 5 ∧
      ((∃ clean, (w'.flow s.other).stage = .returned clean) ∨
        ∃ l w'', l.runs s.other = true ∧ (relay halfCloses waiting counted).step l w' =
          some w'') := by
  obtain ⟨hcount, hclosed⟩ := countP_runs_le (s := s.other) ((shut hw s).both hret) hls
  have hle := (w.flow s.other).stage.left_le
  exact ⟨by omega, exists_step hclosed s.other⟩

def broken : List Label :=
  [.read .upstream 0 (some .failed), .go .upstream, .go .upstream, .go .upstream]

theorem relay_returns_broken :
    let R := relay (fun _ => true) (fun _ => [1]) (fun _ => 8)
    let rest : List Label := [.read .client 0 (some .failed), .go .client, .go .client, .go .client]
    (R.walk (fun _ _ => True) rest (R.dest (fun _ _ => True) broken)).isSome = true ∧
      rest.countP (Label.runs .client) ≤ 5 := by
  intro R rest
  have hsome : (R.walk (fun _ _ => True) rest (R.dest (fun _ _ => True) broken)).isSome = true := by
    decide +kernel
  obtain ⟨w', hw'⟩ := Option.isSome_iff_exists.1 hsome
  have hret : ((R.dest (fun _ _ => True) broken).flow .upstream).stage = .returned false := by
    decide +kernel
  exact ⟨hsome, (relay_returns (Reach.dest _ broken) hret hw').1⟩

end Returns

end DsqlEmulator.Proxy.Relay
