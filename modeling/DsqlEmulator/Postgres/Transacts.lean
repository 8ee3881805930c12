import DsqlEmulator.Classify.Statements
import DsqlEmulator.Proxy.World

/-! What PostgreSQL does with the transactions of a session.  The upstream is any server that keeps
the laws below: nothing is said of what its statements yield or of which of them fail. -/

namespace DsqlEmulator

def Kind.plays (opened : Bool) : Kind → Bool
  | .begin => true
  | .commit => false
  | .rollback => false
  | _ => opened

def Kind.turns : Kind → Bool
  | .begin => true
  | .commit => true
  | .rollback => true
  | _ => false

theorem Kind.plays_of_not_turns {k : Kind} {opened : Bool} (h : k.turns = false) :
    k.plays opened = opened := by
  cases k <;> first | rfl | cases h

theorem Kind.foldl_plays {kinds : List Kind} {opened : Bool} (h : kinds.any Kind.turns = false) :
    kinds.foldl Kind.plays opened = opened := by
  induction kinds with
  | nil => rfl
  | cons k kinds ih =>
    rw [List.any_cons, Bool.or_eq_false_iff] at h
    rw [List.foldl_cons, Kind.plays_of_not_turns h.1, ih h.2]

namespace Wire.TxStatus

def opened : TxStatus → Bool
  | .idle => false
  | _ => true

def failing : TxStatus → TxStatus
  | .idle => .idle
  | _ => .failed

@[simp] theorem opened_failing (st : TxStatus) : st.failing.opened = st.opened := by
  cases st <;> rfl

theorem failing_ne_active (st : TxStatus) : st.failing ≠ .active := by cases st <;> simp [failing]

theorem failing_eq {st : TxStatus} (h : st ≠ .active) : st.failing = st := by
  cases st with
  | active => exact absurd rfl h
  | _ => rfl

theorem opened_iff {st : TxStatus} : st.opened = true ↔ st = .active ∨ st = .failed := by
  cases st <;> simp [opened]

end Wire.TxStatus

namespace Classify.Statement

open Wire

def turns (s : Statement) : Bool := s.kindOf.turns

def exits : Statement → Bool
  | .commit _ => true
  | .rollback _ => true
  | .rollbackTo _ => true
  | .prepareTransaction => true
  | _ => false

def control : Statement → Bool
  | .begin => true
  | .savepoint _ => true
  | .release _ => true
  | s => s.exits

def moves : Statement → Bool
  | .begin => true
  | s => s.exits

def strays : Statement → Bool
  | .commit chain => chain
  | .rollback chain => chain
  | .prepareTransaction => true
  | _ => false

def allowed (found : TxStatus) : Statement → Bool
  | .raise => false
  | .commit chain => !chain || found.opened
  | .rollback chain => !chain || found.opened
  | .prepareTransaction => true
  | .rollbackTo _ => found.opened
  | .savepoint _ => found = .active
  | .release _ => found = .active
  | _ => found ≠ .failed

def completed (found : TxStatus) : Statement → TxStatus
  | .begin => .active
  | .commit chain => if chain then .active else .idle
  | .rollback chain => if chain then .active else .idle
  | .rollbackTo _ => .active
  | .prepareTransaction => .idle
  | _ => found

def aborted (found : TxStatus) : Statement → TxStatus
  | .commit _ => .idle
  | .rollback _ => .idle
  | .prepareTransaction => .idle
  | _ => found.failing

end Classify.Statement

namespace Postgres

open Wire Classify Proxy

variable {α : Type*}

/-- A statement that was executed, or refused as the block had failed. -/
structure Run where
  statement : Statement
  found : TxStatus
  failed : Bool := false
  deriving DecidableEq, Repr

namespace Run

def left (r : Run) : TxStatus :=
  if r.failed then r.statement.aborted r.found else r.statement.completed r.found

def strays (r : Run) : Bool :=
  r.statement.strays || r.statement = .begin && r.failed && r.found ≠ .failed

def counts (r : Run) : Bool := !r.statement.control && r.found ≠ .failed

def concludes (r : Run) : Bool :=
  r.statement.ends || r.statement = .prepareTransaction || r.failed && r.found = .idle

end Run

def Proceeds : TxStatus → List Run → Prop
  | _, [] => True
  | found, r :: rs => r.found = found ∧ (r.failed = false → r.statement.allowed found = true) ∧
      (r.failed = true → rs = []) ∧ Proceeds r.left rs

def leaving (found : TxStatus) (rs : List Run) : TxStatus := rs.foldl (fun _ r => r.left) found

def executes : Frontend → Bool
  | .query _ => true
  | .execute _ => true
  | .functionCall => true
  | _ => false

def failsIn (ms : List Backend) : Bool := ms.any Backend.isError

/-- PostgreSQL as far as transactions go: the status of a session, whether it skips the rest of a
batch, and the statements that it runs to answer a message. -/
structure Transacts (U : Upstream) (parse : String → Option (List Statement)) where
  status : U.State → TxStatus
  skips : U.State → Bool
  runs : U.State → Frontend → U.Choice → List Run
  status_init : status U.init = .idle
  skips_init : skips U.init = false
  -- only a message of a batch has the rest of it skipped, up to its `Sync`
  wakes : ∀ {st m c}, m.drawsReady = true → skips st = false ∨ m = .sync →
    skips (U.answer st m c).1 = false
  ready : ∀ {st m c s}, .ready s ∈ (U.answer st m c).2 → status (U.answer st m c).1 = s
  proceeds : ∀ st m c, Proceeds (status st) (runs st m c)
  raises : ∀ {st m c r}, r ∈ runs st m c → r.failed = true → failsIn (U.answer st m c).2 = true
  -- an error that no statement raises, such as one of a `Parse`, has an open block fail too
  leaves : ∀ st m c, status (U.answer st m c).1 = if failsIn (U.answer st m c).2 then
    (leaving (status st) (runs st m c)).failing else leaving (status st) (runs st m c)
  query : ∀ {st sql c}, skips st = false →
    (runs st (.query sql) c).map Run.statement <+: (parse sql).getD []
  -- an error of a query is that of its last statement, or leaves a statement out
  completes : ∀ {st sql c}, skips st = false → (failsIn (U.answer st (.query sql) c).2 = false ↔
    parse sql = some ((runs st (.query sql) c).map Run.statement) ∧
      ∀ r ∈ runs st (.query sql) c, r.failed = false)
  -- a portal runs one statement, which it may go on with when it is executed again
  execute : ∀ {st portal c}, (runs st (.execute portal) c).length ≤ 1
  call : ∀ {st c}, (runs st .functionCall c).length ≤ 1 ∧
    ∀ r ∈ runs st .functionCall c, r.statement = .other
  silent : ∀ {st m c}, executes m = false → runs st m c = []

section Runs

variable {found : TxStatus} {r : Run} {rs : List Run}

theorem Run.opened_left (hs : r.strays = false)
    (ha : r.failed = false → r.statement.allowed r.found = true) :
    r.left.opened = r.statement.kindOf.plays r.found.opened := by
  obtain ⟨s, found, failed⟩ := r
  cases failed with
  | true =>
    cases s with
    | begin => cases found <;> first | rfl | cases hs
    | prepareTransaction => cases hs
    | _ => cases found <;> rfl
  | false =>
    have hallowed := ha rfl
    cases s with
    | commit chain => cases chain <;> first | rfl | cases hs
    | rollback chain => cases chain <;> first | rfl | cases hs
    | prepareTransaction => cases hs
    | rollbackTo name => cases found <;> first | rfl | cases hallowed
    | _ => rfl

theorem leaving_cons : leaving found (r :: rs) = leaving r.left rs := rfl

theorem Proceeds.opened (h : Proceeds found rs) (hs : ∀ r ∈ rs, r.strays = false) :
    (leaving found rs).opened = (rs.map (·.statement.kindOf)).foldl Kind.plays found.opened := by
  induction rs generalizing found with
  | nil => rfl
  | cons r rs ih =>
    obtain ⟨rfl, hallowed, -, hrest⟩ := h
    rw [List.forall_mem_cons] at hs
    rw [leaving_cons, ih hrest hs.2, Run.opened_left hs.1 hallowed]
    rfl

theorem Run.left_of_not_moves (hfound : r.found ≠ .active) (hm : r.statement.moves = false)
    (ha : r.failed = false → r.statement.allowed r.found = true) : r.left = r.found := by
  obtain ⟨s, found, failed⟩ := r
  cases failed with
  | true =>
    cases s <;> first | (cases hm; done) | exact TxStatus.failing_eq hfound
  | false =>
    cases s <;> first | (cases hm; done) | rfl

theorem Proceeds.stays (h : Proceeds found rs) (hfound : found ≠ .active)
    (hm : ∀ r ∈ rs, r.statement.moves = false) :
    leaving found rs = found ∧ ∀ r ∈ rs, r.found = found := by
  induction rs with
  | nil => exact ⟨rfl, by simp⟩
  | cons r rs ih =>
    obtain ⟨rfl, hallowed, -, hrest⟩ := h
    rw [List.forall_mem_cons] at hm
    have hleft := Run.left_of_not_moves hfound hm.1 hallowed
    rw [hleft] at hrest
    obtain ⟨hleaving, hall⟩ := ih hrest hm.2
    exact ⟨by rw [leaving_cons, hleft, hleaving], List.forall_mem_cons.2 ⟨rfl, hall⟩⟩

theorem Proceeds.eq_append (h : Proceeds found rs) (hr : r ∈ rs) (hfailed : r.failed = true) :
    ∃ pre, rs = pre ++ [r] ∧ leaving found rs = r.left := by
  induction rs generalizing found with
  | nil => cases hr
  | cons a rs ih =>
    obtain ⟨-, -, hlast, hrest⟩ := h
    rcases List.mem_cons.1 hr with rfl | hr
    · rw [hlast hfailed]
      exact ⟨[], rfl, rfl⟩
    · obtain ⟨pre, rfl, hleaving⟩ := ih hrest hr
      exact ⟨a :: pre, rfl, hleaving⟩

end Runs

def Run.enter (o : α) (ran : List (α × Statement)) (r : Run) : List (α × Statement) :=
  if r.concludes then [] else if r.counts then ran ++ [(o, r.statement)] else ran

section Records

variable {o : α} {x : α × Statement} {ran : List (α × Statement)} {r : Run} {rs : List Run}

theorem mem_foldl_enter (h : x ∈ rs.foldl (Run.enter o) ran) :
    x ∈ ran ∨ x.1 = o ∧ ∃ r ∈ rs, r.counts = true := by
  induction rs generalizing ran with
  | nil => exact .inl h
  | cons r rs ih =>
    rcases ih h with h | ⟨ho, r', hr', hcounts⟩
    · unfold Run.enter at h
      split at h
      · cases h
      · split at h
        next hcounts =>
          rcases List.mem_append.1 h with h | h
          · exact .inl h
          · rw [List.mem_singleton.1 h]
            exact .inr ⟨rfl, r, List.mem_cons_self, hcounts⟩
        next => exact .inl h
    · exact .inr ⟨ho, r', List.mem_cons_of_mem r hr', hcounts⟩

theorem countP_foldl_enter (p : α → Bool) : (rs.foldl (Run.enter o) ran).countP (fun x => p x.1) ≤
    ran.countP (fun x => p x.1) + if p o then rs.countP Run.counts else 0 := by
  induction rs generalizing ran with
  | nil => exact Nat.le_add_right _ _
  | cons r rs ih =>
    have hone : (Run.enter o ran r).countP (fun x => p x.1) ≤
        ran.countP (fun x => p x.1) + if p o then (r.counts).toNat else 0 := by
      unfold Run.enter
      split
      · exact Nat.zero_le _
      · split
        next hcounts => cases hp : p o <;> simp [hp, hcounts]
        next => exact Nat.le_add_right _ _
    refine Nat.le_trans ih (Nat.le_trans (Nat.add_le_add_right hone _) ?_)
    cases p o with
    | false => exact Nat.le_refl _
    | true =>
      rw [List.countP_cons]
      cases r.counts with
      | false => simp
      | true =>
        simp only [Bool.toNat_true, if_true]
        omega

theorem foldl_enter_of_failed (h : ∀ r ∈ rs, r.found = .failed ∧ r.statement.moves = false) :
    rs.foldl (Run.enter o) ran = ran := by
  induction rs with
  | nil => rfl
  | cons r rs ih =>
    rw [List.forall_mem_cons] at h
    obtain ⟨⟨hfound, hmoves⟩, hrest⟩ := h
    have hconcludes : r.concludes = false := by
      obtain ⟨s, found, failed⟩ := r
      cases hfound
      cases s <;> cases failed <;> first | rfl | cases hmoves
    have henter : Run.enter o ran r = ran := by simp [Run.enter, hconcludes, Run.counts, hfound]
    rw [List.foldl_cons, henter, ih hrest]

theorem mem_enter_of_failed (hfailed : r.failed = true) (hcounts : r.counts = true)
    (hleft : r.left.opened = true) : (o, r.statement) ∈ [r].foldl (Run.enter o) ran := by
  have hconcludes : r.concludes = false := by
    obtain ⟨s, found, failed⟩ := r
    cases hfailed
    cases s <;> cases found <;> first | rfl | (cases hcounts; done) | cases hleft
  simp [Run.enter, hconcludes, hcounts]

end Records

def statementsOf (parse : String → Option (List Statement)) : Frontend → List Statement
  | .query sql => (parse sql).getD []
  | _ => []

def kindsOf (parse : String → Option (List Statement)) (m : Frontend) : List Kind :=
  (statementsOf parse m).map Statement.kindOf

def opens (parse : String → Option (List Statement)) (m : Frontend) (opened : Bool) : Bool :=
  (kindsOf parse m).foldl Kind.plays opened

def turns (parse : String → Option (List Statement)) (m : Frontend) : Bool :=
  (statementsOf parse m).any Statement.turns

def weight (parse : String → Option (List Statement)) : Frontend → Nat
  | .query sql => ((parse sql).getD []).countP (!Statement.control ·)
  | .execute _ => 1
  | .functionCall => 1
  | _ => 0

section Messages

variable {parse : String → Option (List Statement)} {m : Frontend} {ss : List Statement}

theorem opens_of_not_turns {opened : Bool} (h : turns parse m = false) :
    opens parse m opened = opened :=
  Kind.foldl_plays (by rw [kindsOf, List.any_map]; exact h)

theorem foldl_plays_of_not_turns {opened : Bool} (h : ss.any Statement.turns = false) :
    (ss.map Statement.kindOf).foldl Kind.plays opened = opened :=
  Kind.foldl_plays (by rw [List.any_map]; exact h)

theorem plays_of_ends {s : Statement} {opened : Bool} (hs : s.ends = true) :
    s.kindOf.plays opened = false := by
  cases s <;> first | rfl | cases hs

end Messages

namespace Transacts

variable {U : Upstream} {parse : String → Option (List Statement)} (T : Transacts U parse)

def opened (st : U.State) : Bool := (T.status st).opened

def failed (st : U.State) : Bool := T.status st = .failed

def Carries (st : U.State) (m : Frontend) (c : U.Choice) : Prop :=
  (∀ r ∈ T.runs st m c, r.strays = false) ∧
    ((statementsOf parse m).drop (T.runs st m c).length).any Statement.turns = false

instance (st : U.State) (m : Frontend) (c : U.Choice) : Decidable (T.Carries st m c) :=
  inferInstanceAs (Decidable (_ ∧ _))

variable {T} {st : U.State} {m : Frontend} {c : U.Choice}

theorem opened_leaves :
    T.opened (U.answer st m c).1 = (leaving (T.status st) (T.runs st m c)).opened := by
  rw [opened, T.leaves]
  split
  · rw [TxStatus.opened_failing]
  · rfl

theorem opened_answer (hs : ∀ r ∈ T.runs st m c, r.strays = false) :
    T.opened (U.answer st m c).1 =
      ((T.runs st m c).map (·.statement.kindOf)).foldl Kind.plays (T.opened st) := by
  rw [opened_leaves, (T.proceeds st m c).opened hs]
  rfl

theorem opened_query {sql : String} (hskip : T.skips st = false) (h : T.Carries st (.query sql) c) :
    T.opened (U.answer st (.query sql) c).1 = opens parse (.query sql) (T.opened st) := by
  obtain ⟨hs, hrest⟩ := h
  rw [opened_answer hs, opens, kindsOf]
  have hquery : (T.runs st (.query sql) c).map Run.statement <+: (parse sql).getD [] :=
    T.query hskip
  obtain ⟨rest, hprefix⟩ := hquery
  have hstatements : statementsOf parse (.query sql) =
      (T.runs st (.query sql) c).map Run.statement ++ rest := hprefix.symm
  rw [hstatements, List.drop_left' (by rw [List.length_map])] at hrest
  rw [hstatements, List.map_append, List.foldl_append, foldl_plays_of_not_turns hrest, List.map_map]
  rfl

theorem status_ne_active (h : failsIn (U.answer st m c).2 = true) :
    T.status (U.answer st m c).1 ≠ .active := by
  rw [T.leaves, if_pos h]
  exact TxStatus.failing_ne_active _

theorem status_stays (h : T.status st ≠ .active)
    (hm : ∀ r ∈ T.runs st m c, r.statement.moves = false) :
    T.status (U.answer st m c).1 = T.status st := by
  rw [T.leaves, ((T.proceeds st m c).stays h hm).1, TxStatus.failing_eq h, ite_self]

theorem countP_runs_le (hskip : m.tag = .query → T.skips st = false) :
    (T.runs st m c).countP (fun r => !r.statement.control) ≤ weight parse m := by
  cases m with
  | query sql =>
    have hquery : (T.runs st (.query sql) c).map Run.statement <+: (parse sql).getD [] :=
      T.query (hskip rfl)
    obtain ⟨rest, hprefix⟩ := hquery
    rw [weight, ← hprefix, List.countP_append, List.countP_map]
    exact Nat.le_add_right _ _
  | execute portal => exact Nat.le_trans List.countP_le_length T.execute
  | functionCall => exact Nat.le_trans List.countP_le_length T.call.1
  | _ => rw [T.silent rfl]; exact Nat.zero_le _

def entered (T : Transacts U parse) (o : α) (st : U.State) (m : Frontend) (c : U.Choice)
    (ran : List (α × Statement)) : List (α × Statement) :=
  if !T.opened (U.answer st m c).1 && (m.drawsReady || failsIn (U.answer st m c).2) then []
  else (T.runs st m c).foldl (Run.enter o) ran

variable {o : α} {x : α × Statement} {ran : List (α × Statement)}

theorem mem_entered (h : x ∈ T.entered o st m c ran) :
    x ∈ ran ∨ x.1 = o ∧ ∃ r ∈ T.runs st m c, r.counts = true := by
  unfold entered at h
  split at h
  · cases h
  · exact mem_foldl_enter h

theorem countP_entered (p : α → Bool) : (T.entered o st m c ran).countP (fun x => p x.1) ≤
    ran.countP (fun x => p x.1) + if p o then (T.runs st m c).countP Run.counts else 0 := by
  unfold entered
  split
  · exact Nat.zero_le _
  · exact countP_foldl_enter p

theorem entered_stays (h : T.status st = .failed)
    (hm : ∀ r ∈ T.runs st m c, r.statement.moves = false) : T.entered o st m c ran = ran := by
  have hne : T.status st ≠ .active := by rw [h]; simp
  have hopened : T.opened (U.answer st m c).1 = true := by rw [opened, status_stays hne hm, h]; rfl
  rw [entered, hopened, Bool.not_true, Bool.false_and, if_neg Bool.false_ne_true]
  refine foldl_enter_of_failed fun r hr => ⟨?_, hm r hr⟩
  rw [((T.proceeds st m c).stays hne hm).2 r hr, h]

theorem mem_entered_of_failed {r : Run} (hr : r ∈ T.runs st m c) (hfailed : r.failed = true)
    (hcounts : r.counts = true) (hopened : T.opened (U.answer st m c).1 = true) :
    (o, r.statement) ∈ T.entered o st m c ran := by
  obtain ⟨pre, hruns, hleaving⟩ := (T.proceeds st m c).eq_append hr hfailed
  have hleft : r.left.opened = true := by rw [← hleaving, ← opened_leaves, hopened]
  rw [entered, hopened, Bool.not_true, Bool.false_and, if_neg Bool.false_ne_true, hruns,
    List.foldl_append]
  exact mem_enter_of_failed hfailed hcounts hleft

end Transacts

end Postgres

end DsqlEmulator
