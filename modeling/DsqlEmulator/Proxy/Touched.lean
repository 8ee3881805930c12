import DsqlEmulator.Classify.Statements
import DsqlEmulator.Proxy.Routes

/-! The tables a commit is said to have touched.  Every batch that is admitted adds
the tables it names, in a transaction or not, and the end of a transaction drops
them all, however the batch goes on. -/

namespace DsqlEmulator.Proxy

open Wire Occ Txn Runs Classify

variable {U : Upstream} {D : Dialect} {parse : String → Option (List Statement)}

structure Script where
  statements : List Statement := []
  async : Bool := false
  deriving DecidableEq, Repr

def Dialect.script (D : Dialect) (parse : String → Option (List Statement)) (sql : String) :
    Script :=
  match D.stripAsync sql with
  | some (rewritten, _) => { statements := (parse rewritten).getD [], async := true }
  | none => { statements := (parse sql).getD [] }

/-- What the session remembers or knows of a message agrees with what it asks for. -/
structure Script.Fits (b : Script) (info : StatementInfo) : Prop where
  ends : Kind.endsTransaction info.kinds = b.statements.any Statement.ends
  commits : Kind.isCommit info.kinds = b.statements.any Statement.isCommit
  tables : info.tables = if b.async then [] else b.statements.flatMap Statement.statementTables

/-- The statements let through so far.  `batch` is what the message being handled asks
for and `before` what had been let through when it came; `log` goes on with the batch
once it is admitted. -/
structure Course where
  prepared : String → Script := fun _ => {}
  batch : Script := {}
  before : List Statement := []
  log : List Statement := []

def Course.asks (D : Dialect) (parse : String → Option (List Statement)) (g : Course) :
    Act → Option Script
  | .aborted _ (.query sql) => some (D.script parse sql)
  | .aborted _ (.bind b) => some (g.prepared b.statement)
  | _ => none

def Act.lets (now : Nat) (s : Session) : Act → Bool
  | .admitKinds _ _ info => (s.tracker.admitKinds info.kinds now).2 = none
  | .admitAsync _ _ _ kinds => (s.tracker.admitKinds kinds now).2 = none
  | .admitRollback => true
  | _ => false

def Course.follow (D : Dialect) (parse : String → Option (List Statement)) (now : Nat)
    (jobID : String) (s : Session) (g : Course) (a : Act) : Course :=
  match g.asks D parse a with
  | some b => { g with batch := b, before := g.log }
  | none =>
    match a with
    | .aborted _ (.parse name sql) =>
      -- the text is prepared when the session forwards it
      if (a.exec D now jobID s).next.any Act.forwards then
        { g with prepared := Function.update g.prepared name (D.script parse sql) }
      else g
    | a => if a.lets now s then { g with log := g.before ++ g.batch.statements } else g

def Course.note (D : Dialect) (parse : String → Option (List Statement)) (l : Label U) (w : World U)
    (g : Course) : Course :=
  match l, w.front with
  | .front now jobID, a :: _ => g.follow D parse now jobID w.sess a
  | _, _ => g

/-- A batch keeps to a transaction: it changes data only where one is open, ends one
only as its last statement, and asks for neither asynchronously. -/
@[mk_iff] structure Script.Confined (opened : Bool) (b : Script) : Prop where
  merge : ∀ s ∈ b.statements, s.isMerge = false
  ends : ∀ s ∈ b.statements.dropLast, s.ends = false
  inside : inside opened b.statements = true
  async : b.async = true → ∀ s ∈ b.statements, s.ends = false ∧ s.statementTables = []

instance (opened : Bool) (b : Script) : Decidable (b.Confined opened) :=
  decidable_of_iff _ (Script.confined_iff opened b).symm

/-- The batch of every message keeps to its transaction. -/
def Confined (D : Dialect) (parse : String → Option (List Statement)) (l : Label U)
    (w : World U × Course) : Prop :=
  ∀ b ∈ (l.act w.1).bind (w.2.asks D parse), b.Confined (since w.2.log).isSome

instance (l : Label U) (w : World U × Course) : Decidable (Confined D parse l w) :=
  inferInstanceAs (Decidable (∀ _ ∈ _, _))

section Scripts

variable {b : Script} {opened : Bool} {txn : Option (List String)}

theorem Script.Confined.last (h : b.Confined opened)
    (hends : b.statements.any Statement.ends = true) :
    ∃ s, b.statements = b.statements.dropLast ++ [s] ∧ s.ends = true := by
  obtain ⟨s, hs, hse⟩ := List.any_eq_true.1 hends
  have hne : b.statements ≠ [] := List.ne_nil_of_mem hs
  have hsplit := List.dropLast_append_getLast hne
  refine ⟨b.statements.getLast hne, hsplit.symm, ?_⟩
  rw [← hsplit, List.mem_append, List.mem_singleton] at hs
  rcases hs with hs | rfl
  · exact absurd hse (Bool.eq_false_iff.1 (h.ends s hs))
  · exact hse

theorem inside_append {ss ss' : List Statement} (h : Classify.inside opened (ss ++ ss') = true) :
    Classify.inside opened ss = true := by
  induction ss generalizing opened with
  | nil => rfl
  | cons s ss ih =>
    rw [List.cons_append, Classify.inside, Bool.and_eq_true] at h
    rw [Classify.inside, Bool.and_eq_true]
    exact ⟨h.1, ih h.2⟩

theorem Script.Confined.plays {t : String} (h : b.Confined txn.isSome)
    (hends : b.statements.any Statement.ends = false) :
    t ∈ (b.statements.foldl Statement.play txn).getD [] ↔
      t ∈ txn.getD [] ∨ t ∈ b.statements.flatMap Statement.statementTables :=
  mem_plays (fun s hs => by simpa using List.any_eq_false.1 hends s hs) h.merge h.inside

theorem Script.Confined.plays_dropLast {t : String} (h : b.Confined txn.isSome)
    (hends : b.statements.any Statement.ends = true) :
    t ∈ (b.statements.dropLast.foldl Statement.play txn).getD [] ↔
      t ∈ txn.getD [] ∨ t ∈ b.statements.flatMap Statement.statementTables := by
  obtain ⟨s, hsplit, hs⟩ := h.last hends
  have hnone : s.statementTables = [] := by
    cases s <;> first | rfl | cases hs
  have htables : b.statements.flatMap Statement.statementTables =
      b.statements.dropLast.flatMap Statement.statementTables := by
    conv_lhs => rw [hsplit]
    simp [hnone]
  rw [htables]
  exact mem_plays h.ends (fun x hx => h.merge x (List.dropLast_subset _ hx))
    (inside_append (hsplit ▸ h.inside))

theorem Script.Confined.plays_ends (h : b.Confined txn.isSome)
    (hends : b.statements.any Statement.ends = true) :
    (b.statements.foldl Statement.play txn).getD [] = [] := by
  obtain ⟨s, hsplit, hs⟩ := h.last hends
  rw [hsplit, List.foldl_append]
  exact Statement.play_ends hs

theorem fits_accepted (hD : Reads D parse) {sql : String} {kinds : List Kind} {tables : List String}
    (intent : Option Intent) (hasync : D.stripAsync sql = none)
    (hc : D.classify false sql = .accepted kinds tables) :
    (D.script parse sql).Fits { kinds, tables, intent } := by
  obtain ⟨ss, hss, rfl, rfl⟩ := hD.accepted false sql kinds tables hc
  simp only [Dialect.script, hasync, hss, Option.getD_some]
  exact ⟨Statement.endsTransaction_map ss, Statement.isCommit_map ss, rfl⟩

theorem fits_async (hD : Reads D parse) {sql rewritten : String} {statement : Nat}
    {kinds : List Kind} {job : Option String}
    (hasync : D.stripAsync sql = some (rewritten, statement))
    (hc : (D.classify true rewritten).asyncKinds = some kinds) :
    (D.script parse sql).Fits { kinds, jobID := job } := by
  simp only [Dialect.script, hasync]
  cases hclass : D.classify true rewritten with
  | unparsed =>
    rw [hclass] at hc
    cases hc
    rw [hD.unparsed true rewritten hclass]
    exact ⟨rfl, rfl, rfl⟩
  | rejected v =>
    rw [hclass] at hc
    cases hc
  | accepted kinds' tables =>
    obtain ⟨ss, hss, rfl, rfl⟩ := hD.accepted true rewritten kinds' tables hclass
    rw [hclass] at hc
    cases hc
    rw [hss]
    split
    next hnil =>
      rw [List.map_eq_nil_iff] at hnil
      subst hnil
      exact ⟨rfl, rfl, rfl⟩
    next => exact ⟨Statement.endsTransaction_map ss, Statement.isCommit_map ss, rfl⟩

theorem fits_remembers (hD : Reads D parse) {s : Session} {sql jobID : String}
    {info : StatementInfo} {text : Option String} (h : Remembers D jobID s sql (some info) text) :
    (D.script parse sql).Fits info := by
  cases h with
  | async hasync _ hc => exact fits_async hD hasync hc
  | ending hasync _ hc _ => exact fits_accepted hD _ hasync hc
  | rewritten hasync _ hc _ => exact fits_accepted hD _ hasync hc
  | parsed hasync _ hc _ => exact fits_accepted hD _ hasync hc

end Scripts

section Acts

@[simp] def Act.still : Act → Bool
  | .droppingUntilSync _ _ => false
  | .aborted _ _ => false
  | .admitKinds _ _ _ => false
  | .admitAsync _ _ _ _ => false
  | .addOccTables _ => false
  | .occAdjudicated _ _ _ => false
  | .occCommitConflict _ _ _ => false
  | .resetOcc => false
  | .admitRollback => false
  | _ => true

variable {s : Session} {n now : Nat} {jobID : String} {m : Frontend} {a : Act}

theorem forward_still (n : Nat) (m : Frontend) : ∀ b ∈ forward n m, b.still = true := by
  unfold forward
  split <;> simp

theorem reject_still {code message : String} {extended : Bool} :
    ∀ b ∈ reject s n code message extended, b.still = true := by
  unfold reject sendError
  split <;> split <;> simp

theorem rejectFailed_still {extended : Bool} : ∀ b ∈ rejectFailed n extended, b.still = true := by
  unfold rejectFailed sendError
  split <;> simp

theorem send_still {info : StatementInfo} : ∀ b ∈ send D n m info, b.still = true := by
  unfold send
  split
  · split
    · split <;> simp
    · exact forward_still n _
  · cases info.jobID with
    | none => simpa using forward_still n _
    | some jobID => simpa using forward_still n _

theorem armAdjudicator_still {intent : Option Intent} {bind : Option Bind} :
    ∀ b ∈ armAdjudicator n intent bind, b.still = true := by
  unfold armAdjudicator
  split <;> simp

theorem finish_still (x : Exchange) : ∀ b ∈ x.finish D, b.still = true := by
  intro b hb
  have hrepair := finish_repair x b hb
  cases b <;> first | rfl | cases hrepair

theorem relay_still (r : Reply) : ∀ b ∈ relay D r, b.still = true := by
  unfold relay
  cases r.msg with
  | error e => dsimp only; split <;> simp
  | parameterStatus name value => dsimp only; split <;> simp
  | _ => simp

theorem exec_still_next (h : a.still = true) :
    ∀ b ∈ (a.exec D now jobID s).next, b.still = true := by
  cases a with
  | handleSync k =>
    dsimp only [Act.exec]
    intro b hb
    rcases List.mem_append.1 hb with hb | hb
    · exact forward_still k .sync b hb
    · obtain ⟨f, -, rfl⟩ := Option.map_eq_some_iff.1 (Option.mem_toList.1 hb)
      rfl
  | clearHidden x => exact finish_still x.exchange
  | failureActive r =>
    dsimp only [Act.exec]
    split
    · split <;> simp
    · split
      · exact relay_still r
      · simp
  | repairPending r =>
    dsimp only [Act.exec]
    split
    · simp
    · exact relay_still r
  | droppingUntilSync _ _ | aborted _ _ | admitKinds _ _ _ | admitAsync _ _ _ _ | addOccTables _
  | occAdjudicated _ _ _ | occCommitConflict _ _ _ | resetOcc | admitRollback => cases h
  | _ =>
    dsimp only [Act.exec]
    (repeat' split) <;> simp

theorem exec_still_sess (h : a.still = true) :
    (a.exec D now jobID s).sess.occTouched = s.occTouched ∧
    (a.exec D now jobID s).sess.statements = s.statements := by
  cases a with
  | droppingUntilSync _ _ | aborted _ _ | admitKinds _ _ _ | admitAsync _ _ _ _ | addOccTables _
  | occAdjudicated _ _ _ | occCommitConflict _ _ _ | resetOcc | admitRollback => cases h
  | _ =>
    dsimp only [Act.exec]
    (repeat' split) <;> exact ⟨rfl, rfl⟩

end Acts

section Course

/-- The touched tables are those of the transaction that is open. -/
def Course.Settled (g : Course) (touched : List String) : Prop :=
  ∀ t, t ∈ touched ↔ t ∈ (since g.log).getD []

/-- They are those the batch at hand will have written when it commits. -/
structure Course.Due (g : Course) (touched : List String) : Prop where
  commits : ∃ chain, g.batch.statements = g.batch.statements.dropLast ++ [.commit chain]
  ends : ∀ s ∈ g.batch.statements.dropLast, s.ends = false
  touched : ∀ t, t ∈ touched ↔ t ∈ (since (g.before ++ g.batch.statements.dropLast)).getD []

structure Course.Waits (g : Course) (touched : List String) : Prop where
  settled : g.Settled touched
  before : g.before = g.log
  confined : g.batch.Confined (since g.log).isSome

def Course.Ahead (g : Course) : List Act → List String → Prop
  | [], touched => g.Settled touched
  | a :: rest, touched =>
    match a with
    | .addOccTables tables => g.Ahead rest (tables ++ touched)
    | .resetOcc => g.Ahead rest []
    | .occAdjudicated _ _ _ => g.Due touched ∧ g.Ahead rest []
    | .occCommitConflict _ _ _ => g.Due touched ∧ g.Ahead rest []
    | .admitKinds _ _ info => g.Waits touched ∧ g.batch.Fits info ∧ ∀ b ∈ rest, b.still = true
    | .admitAsync _ _ _ _ => g.Waits touched ∧ g.batch.async = true ∧ ∀ b ∈ rest, b.still = true
    | .admitRollback =>
      touched = [] ∧ (since (g.before ++ g.batch.statements)).getD [] = [] ∧
        ∀ b ∈ rest, b.still = true
    | .aborted _ _ => g.Settled touched ∧ ∀ b ∈ rest, b.still = true
    | .droppingUntilSync _ _ => g.Settled touched ∧ ∀ b ∈ rest, b.still = true
    | _ => g.Ahead rest touched

variable {g : Course} {a : Act} {l rest : List Act} {touched : List String}

theorem ahead_cons_still (ha : a.still = true) : g.Ahead (a :: rest) touched ↔
    g.Ahead rest touched := by
  cases a with
  | droppingUntilSync _ _ | aborted _ _ | admitKinds _ _ _ | admitAsync _ _ _ _ | addOccTables _
  | occAdjudicated _ _ _ | occCommitConflict _ _ _ | resetOcc | admitRollback => cases ha
  | _ => rfl

theorem ahead_append_still (hl : ∀ b ∈ l, b.still = true) : g.Ahead (l ++ rest) touched ↔
    g.Ahead rest touched := by
  induction l with
  | nil => rfl
  | cons b l ih =>
    rw [List.cons_append, ahead_cons_still (hl b List.mem_cons_self)]
    exact ih fun x hx => hl x (List.mem_cons_of_mem b hx)

theorem ahead_of_still (hl : ∀ b ∈ l, b.still = true) : g.Ahead l touched ↔ g.Settled touched := by
  have h : g.Ahead (l ++ []) touched ↔ g.Ahead [] touched := ahead_append_still hl
  rwa [List.append_nil] at h

theorem ahead_tables {tables : List String} :
    g.Ahead ((if tables = [] then [] else [.addOccTables tables]) ++ l) touched ↔
      g.Ahead l (tables ++ touched) := by
  split
  next h => rw [h, List.nil_append, List.nil_append]
  next => rfl

def Course.through (g : Course) : Course := { g with log := g.before ++ g.batch.statements }

theorem Script.Fits.tables_eq {b : Script} {info : StatementInfo} {opened : Bool} (h : b.Fits info)
    (hb : b.Confined opened) : info.tables = b.statements.flatMap Statement.statementTables := by
  rw [h.tables]
  split
  next hasync => exact (List.flatMap_eq_nil_iff.2 fun s hs => (hb.async hasync s hs).2).symm
  next => rfl

theorem Course.Waits.since_through (h : g.Waits touched) :
    since g.through.log = g.batch.statements.foldl Statement.play (since g.log) := by
  rw [Course.through, h.before, since_append]

theorem Course.Waits.settled_through {tables : List String} (h : g.Waits touched)
    (hends : g.batch.statements.any Statement.ends = false)
    (htables : tables = g.batch.statements.flatMap Statement.statementTables) :
    g.through.Settled (tables ++ touched) := by
  intro t
  rw [h.since_through, h.confined.plays hends, List.mem_append, htables, h.settled t, or_comm]

theorem Course.Waits.settled_ends (h : g.Waits touched)
    (hends : g.batch.statements.any Statement.ends = true) : g.through.Settled [] := by
  intro t
  rw [h.since_through, h.confined.plays_ends hends]

theorem Course.Waits.due {tables : List String} (h : g.Waits touched)
    (hcommit : g.batch.statements.any Statement.isCommit = true)
    (htables : tables = g.batch.statements.flatMap Statement.statementTables) :
    g.through.Due (tables ++ touched) := by
  obtain ⟨c, hc, hcommits⟩ := List.any_eq_true.1 hcommit
  have hends : g.batch.statements.any Statement.ends = true :=
    List.any_eq_true.2 ⟨c, hc, Statement.ends_of_isCommit hcommits⟩
  obtain ⟨e, hsplit, -⟩ := h.confined.last hends
  have hlast : c = e := by
    rw [hsplit, List.mem_append, List.mem_singleton] at hc
    refine hc.resolve_left fun hc => ?_
    exact absurd (Statement.ends_of_isCommit hcommits) (Bool.eq_false_iff.1 (h.confined.ends c hc))
  obtain ⟨chain, rfl⟩ := Statement.isCommit_iff.1 hcommits
  refine ⟨⟨chain, hlast ▸ hsplit⟩, h.confined.ends, fun t => ?_⟩
  change _ ↔ t ∈ (since (g.before ++ g.batch.statements.dropLast)).getD []
  rw [h.before, since_append, h.confined.plays_dropLast hends, List.mem_append, htables,
    h.settled t, or_comm]

theorem ahead_admitted {s : Session} {n : Nat} {m : Frontend} {info : StatementInfo}
    (h : g.Waits touched) (hfits : g.batch.Fits info) (hrest : ∀ b ∈ rest, b.still = true) :
    g.through.Ahead (admitted D s n m info ++ rest) touched := by
  have htables := hfits.tables_eq h.confined
  rw [admitted, List.append_assoc, ahead_tables, List.cons_append, ahead_cons_still rfl]
  rw [hfits.ends, hfits.commits]
  cases hends : g.batch.statements.any Statement.ends with
  | true =>
    rw [if_pos rfl]
    split
    next hcommit => exact ⟨h.due hcommit htables, (ahead_of_still hrest).2 (h.settled_ends hends)⟩
    next =>
      change g.through.Ahead (send D n m info ++ rest) []
      rw [ahead_append_still send_still, ahead_of_still hrest]
      exact h.settled_ends hends
  | false =>
    have hdone : g.through.Ahead rest (info.tables ++ touched) :=
      (ahead_of_still hrest).2 (h.settled_through hends htables)
    rw [if_neg Bool.false_ne_true]
    split
    · rw [List.append_assoc, ahead_append_still armAdjudicator_still, ahead_append_still send_still]
      exact hdone
    · rw [ahead_append_still send_still]
      exact hdone

theorem ahead_endAborted {n : Nat} {m : Frontend} (h : g.Waits touched)
    (hends : g.batch.statements.any Statement.ends = true) (hrest : ∀ b ∈ rest, b.still = true) :
    g.Ahead (endAborted ++ forward n m ++ rest) touched := by
  refine ⟨rfl, ?_, fun b hb => ?_⟩
  · exact (congrArg (Option.getD · []) h.since_through).trans (h.confined.plays_ends hends)
  · rcases List.mem_append.1 hb with hb | hb
    · exact forward_still n m b hb
    · exact hrest b hb

theorem handleParse_still {jobID : String} {s : Session} {n : Nat} {name sql : String} :
    ∀ b ∈ (handleParse D jobID s n name sql).next, b.still = true := by
  unfold handleParse
  split
  · split
    · exact rejectFailed_still
    · unfold forwardAsyncJob
      split
      · simp [runAsyncJob]
      · exact reject_still
      · simp [runAsyncJob]
  · dsimp only
    split
    · split
      · split
        · exact forward_still n (.parse name sql)
        · exact rejectFailed_still
      · exact rejectFailed_still
    · split
      · exact forward_still n (.parse name sql)
      · exact reject_still
      · split
        · dsimp only
          split <;> simp
        · intro b hb
          rcases List.mem_append.1 hb with hb | hb
          · split at hb <;> simp_all
          · exact forward_still n (.parse name sql) b hb

theorem ahead_handleQuery (hD : Reads D parse) {jobID : String} {s : Session} {n : Nat}
    {sql : String} (h : g.Waits touched) (hbatch : g.batch = D.script parse sql)
    (hrest : ∀ b ∈ rest, b.still = true) :
    g.Ahead ((handleQuery D jobID s n sql).next ++ rest) touched := by
  have hquiet {l : List Act} (hl : ∀ b ∈ l, b.still = true) : g.Ahead (l ++ rest) touched :=
    (ahead_append_still hl).2 ((ahead_of_still hrest).2 h.settled)
  unfold handleQuery
  split
  next rewritten statement hasync =>
    have hb : g.batch.async = true := by
      rw [hbatch, Dialect.script, hasync]
    split
    · exact hquiet rejectFailed_still
    · unfold forwardAsyncJob
      split
      · exact ⟨h, hb, hrest⟩
      · exact hquiet reject_still
      · exact ⟨h, hb, hrest⟩
  next hasync =>
    split
    · split
      next hends =>
        refine ahead_endAborted h ?_ hrest
        cases hc : D.classify false sql with
        | accepted kinds tables =>
          rw [hc] at hends
          rw [hbatch, ← (fits_accepted hD none hasync hc).ends]
          exact hends
        | _ =>
          rw [hc] at hends
          cases hends
      · exact hquiet rejectFailed_still
    · split
      · exact hquiet (forward_still n (.query sql))
      · exact hquiet reject_still
      next hc => exact ⟨h, hbatch ▸ fits_accepted hD _ hasync hc, hrest⟩

theorem ahead_handleBind {s : Session} {n : Nat} {b : Bind} {info : StatementInfo}
    (h : g.Waits touched) (hfits : g.batch.Fits info) (hrest : ∀ b ∈ rest, b.still = true) :
    g.Ahead ((handleBind s n b info).next ++ rest) touched := by
  unfold handleBind
  split
  · split
    next hends => exact ahead_endAborted h (hfits.ends ▸ hends) hrest
    next => exact (ahead_append_still rejectFailed_still).2 ((ahead_of_still hrest).2 h.settled)
  · exact ⟨h, hfits, hrest⟩

theorem ahead_occFailure {n : Nat} {extended : Bool} (h : g.Ahead rest []) :
    g.Ahead (occFailure D n extended ++ rest) touched := by
  unfold occFailure
  cases extended
  · exact h
  · exact h

theorem ahead_droppingUntilSync {s : Session} {n now : Nat} {jobID : String} {m : Frontend}
    (h : g.Settled touched) (hrest : ∀ b ∈ rest, b.still = true) :
    g.Ahead (((Act.droppingUntilSync n m).exec D now jobID s).next ++ rest) touched := by
  have hnote : ∀ b ∈ Act.noteBatchState m.tag :: rest, b.still = true :=
    List.forall_mem_cons.2 ⟨rfl, hrest⟩
  have hquiet : g.Ahead (forward n m ++ Act.noteBatchState m.tag :: rest) touched :=
    (ahead_append_still (forward_still n m)).2 ((ahead_of_still hnote).2 h)
  dsimp only [Act.exec]
  split
  · exact (ahead_of_still hrest).2 h
  · dsimp only
    rw [List.append_assoc]
    unfold dispatch
    split
    · exact ⟨h, hnote⟩
    · exact ⟨h, hnote⟩
    · split
      · exact hquiet
      · exact ⟨h, hnote⟩
    · exact hquiet
    · exact hquiet

end Course

section Run

variable {g : Course} {w w' : World U} {a : Act} {rest : List Act} {now : Nat} {jobID : String}
  {s : Session}

theorem follow_still (ha : a.still = true) : g.follow D parse now jobID s a = g := by
  cases a with
  | droppingUntilSync _ _ | aborted _ _ | admitKinds _ _ _ | admitAsync _ _ _ _ | addOccTables _
  | occAdjudicated _ _ _ | occCommitConflict _ _ _ | resetOcc | admitRollback => cases ha
  | _ => rfl

theorem follow_prepared (ha : ∀ k name sql, a ≠ .aborted k (.parse name sql)) :
    (g.follow D parse now jobID s a).prepared = g.prepared := by
  unfold Course.follow
  split
  · rfl
  · split
    · exact absurd rfl (ha _ _ _)
    · split <;> rfl

def Course.Remembered (g : Course) (s : Session) : Prop :=
  ∀ name info, s.statements name = some info → (g.prepared name).Fits info

theorem Course.Remembered.exec (hD : Reads D parse) (h : g.Remembered s) :
    (g.follow D parse now jobID s a).Remembered (a.exec D now jobID s).sess := by
  by_cases hparse : ∃ k name sql, a = .aborted k (.parse name sql)
  · obtain ⟨k, name, sql, rfl⟩ := hparse
    have hfollow : g.follow D parse now jobID s (.aborted k (.parse name sql)) =
        if (handleParse D jobID s k name sql).next.any Act.forwards then
          { g with prepared := Function.update g.prepared name (D.script parse sql) }
        else g := rfl
    change (g.follow D parse now jobID s _).Remembered (handleParse D jobID s k name sql).sess
    rw [hfollow]
    rcases handleParse_remembers (D := D) (s := s) jobID k name sql with ⟨hsame, hnone⟩ |
      ⟨info, text, hr, hset, hfilter⟩
    · have hany : (handleParse D jobID s k name sql).next.any Act.forwards = false := by
        simpa [List.filter_eq_nil_iff] using hnone
      rw [hany]
      intro name' info' hinfo
      rw [hsame] at hinfo
      exact h name' info' hinfo
    · intro name' info' hinfo
      rw [hset] at hinfo
      by_cases hname : name' = name
      · subst hname
        rw [Function.update_self] at hinfo
        subst hinfo
        obtain ⟨sent, rfl⟩ : ∃ sent, text = some sent := by cases hr <;> exact ⟨_, rfl⟩
        have hmem : Act.forwarding k (.parse name' sent) ∈
            (handleParse D jobID s k name' sql).next.filter Act.forwards :=
          hfilter ▸ List.mem_singleton_self _
        rw [if_pos (List.any_eq_true.2 ⟨_, List.mem_filter.1 hmem⟩)]
        change (Function.update g.prepared name' (D.script parse sql) name').Fits info'
        rw [Function.update_self]
        exact fits_remembers hD hr
      · rw [Function.update_of_ne hname] at hinfo
        have hfits := h name' info' hinfo
        split
        · change (Function.update g.prepared name (D.script parse sql) name').Fits info'
          rwa [Function.update_of_ne hname]
        · exact hfits
  · rw [not_exists] at hparse
    intro name info hinfo
    rw [follow_prepared fun k name sql he => hparse k ⟨name, sql, he⟩]
    rcases exec_remembers a now jobID with hsame | ⟨k, name', sql, he⟩ | ⟨k, name', he, hset, -⟩
    · exact h name info (hsame ▸ hinfo)
    · exact absurd ⟨name', sql, he⟩ (hparse k)
    · rw [hset] at hinfo
      by_cases hname : name = name'
      · simp [hname] at hinfo
      · rw [Function.update_of_ne hname] at hinfo
        exact h name info hinfo

theorem ahead_exec (hD : Reads D parse) (hr : g.Remembered s) (h : g.Ahead (a :: rest) s.occTouched)
    (hok : ∀ b ∈ g.asks D parse a, b.Confined (since g.log).isSome) :
    (g.follow D parse now jobID s a).Ahead ((a.exec D now jobID s).next ++ rest)
      (a.exec D now jobID s).sess.occTouched := by
  cases ha : a.still with
  | true =>
    rw [follow_still ha, (exec_still_sess ha).1, ahead_append_still (exec_still_next ha)]
    exact (ahead_cons_still ha).1 h
  | false =>
    cases a with
    | addOccTables tables => exact h
    | resetOcc => exact h
    | admitRollback =>
      obtain ⟨htouched, hnone, hrest⟩ := h
      change g.through.Ahead rest s.occTouched
      rw [htouched, ahead_of_still hrest]
      intro t
      rw [Course.through, hnone]
    | occAdjudicated n m info =>
      obtain ⟨hdue, hrest⟩ := h
      dsimp only [Act.exec]
      split
      · exact ahead_occFailure hrest
      · split
        · exact (ahead_append_still send_still).2 hrest
        · exact ⟨hdue, hrest⟩
    | occCommitConflict n m info =>
      obtain ⟨-, hrest⟩ := h
      dsimp only [Act.exec]
      split
      · exact ahead_occFailure hrest
      · exact (ahead_append_still send_still).2 hrest
    | admitKinds n m info =>
      obtain ⟨hwaits, hfits, hrest⟩ := h
      have hfollow : g.follow D parse now jobID s (.admitKinds n m info) =
          if (s.tracker.admitKinds info.kinds now).2 = none then g.through else g := by
        simp [Course.follow, Course.asks, Act.lets, Course.through]
      rw [hfollow]
      dsimp only [Act.exec]
      cases hv : (s.tracker.admitKinds info.kinds now).2 with
      | none => exact ahead_admitted hwaits hfits hrest
      | some v =>
        exact (ahead_append_still reject_still).2 ((ahead_of_still hrest).2 hwaits.settled)
    | admitAsync n rewritten statement kinds =>
      obtain ⟨hwaits, hasync, hrest⟩ := h
      have hfollow : g.follow D parse now jobID s (.admitAsync n rewritten statement kinds) =
          if (s.tracker.admitKinds kinds now).2 = none then g.through else g := by
        simp [Course.follow, Course.asks, Act.lets, Course.through]
      rw [hfollow]
      dsimp only [Act.exec]
      cases hv : (s.tracker.admitKinds kinds now).2 with
      | none =>
        have hnone := hwaits.confined.async hasync
        have hends : g.batch.statements.any Statement.ends = false :=
          List.any_eq_false.2 fun x hx => by simp [(hnone x hx).1]
        have htables : g.batch.statements.flatMap Statement.statementTables = [] :=
          List.flatMap_eq_nil_iff.2 fun x hx => (hnone x hx).2
        exact (ahead_of_still hrest).2 (hwaits.settled_through hends htables.symm)
      | some v =>
        exact (ahead_append_still reject_still).2 ((ahead_of_still hrest).2 hwaits.settled)
    | droppingUntilSync n m =>
      obtain ⟨hsettled, hrest⟩ := h
      have htouched : ((Act.droppingUntilSync n m).exec D now jobID s).sess.occTouched =
          s.occTouched := by
        obtain ⟨_, _, h⟩ := exec_droppingUntilSync_quiet n m
        rw [h]
      rw [htouched]
      exact ahead_droppingUntilSync hsettled hrest
    | aborted n m =>
      obtain ⟨hsettled, hrest⟩ := h
      have htouched : ((Act.aborted n m).exec D now jobID s).sess.occTouched = s.occTouched := by
        obtain ⟨_, _, h⟩ := exec_aborted_quiet n m
        rw [h]
      rw [htouched]
      have hforward (g' : Course) (hlog : g'.log = g.log) : g'.Ahead (forward n m ++ rest)
          s.occTouched := by
        rw [ahead_append_still (forward_still n m), ahead_of_still hrest, Course.Settled, hlog]
        exact hsettled
      cases m with
      | query sql => exact ahead_handleQuery hD ⟨hsettled, rfl, hok _ rfl⟩ rfl hrest
      | parse name sql =>
        have hlog : (g.follow D parse now jobID s (.aborted n (.parse name sql))).log = g.log := by
          simp only [Course.follow, Course.asks]
          split <;> rfl
        refine (ahead_append_still handleParse_still).2 ((ahead_of_still hrest).2 ?_)
        rwa [Course.Settled, hlog]
      | bind b =>
        dsimp only [Act.exec]
        split
        next info hinfo => exact ahead_handleBind ⟨hsettled, rfl, hok _ rfl⟩ (hr _ _ hinfo) hrest
        next => exact hforward _ rfl
      | _ => exact hforward _ rfl
    | _ => cases ha

structure Course.Keeps (w : World U) (g : Course) : Prop where
  front : g.Ahead w.front w.sess.occTouched
  back : ∀ a ∈ w.back, a.still = true
  remembered : g.Remembered w.sess

theorem Course.Keeps.start : Course.Keeps (World.start D U) {} where
  front t := Iff.rfl
  back a ha := absurd ha List.not_mem_nil
  remembered name info h := by cases h

theorem pumpFrontend_ahead {n : Nat} {m : Frontend} {touched : List String}
    (h : g.Settled touched) : g.Ahead (pumpFrontend n m) touched := by
  have hnone : ∀ b ∈ ([] : List Act), b.still = true := fun b hb => absurd hb List.not_mem_nil
  unfold pumpFrontend
  split
  · exact h
  · exact h
  · exact ⟨h, hnone⟩

theorem Course.Keeps.moves {l : Label U} (hD : Reads D parse) (h : g.Keeps w)
    (hok : Confined D parse l (w, g)) (hm : Moves D l w w') :
    (Course.note D parse l w g).Keeps w' := by
  cases hm with
  | send => exact ⟨h.front, h.back, h.remembered⟩
  | readClient hf _ _ =>
    refine ⟨pumpFrontend_ahead ?_, h.back, h.remembered⟩
    have hfront := h.front
    rwa [hf] at hfront
  | @front _ now jobID a rest hf =>
    have hnote : Course.note D parse (.front now jobID) w g = g.follow D parse now jobID
        w.sess a := by
      simp only [Course.note, hf]
    rw [hnote]
    refine ⟨ahead_exec hD h.remembered (hf ▸ h.front) fun b hb => hok b ?_, h.back,
      h.remembered.exec hD⟩
    simpa [Label.act, hf] using hb
  | readUpstream _ _ _ =>
    refine ⟨h.front, fun a ha => ?_, h.remembered⟩
    rcases mem_pumpBackend ha with rfl | rfl
    · rfl
    · rfl
  | @back _ a rest hb =>
    have ha : a.still = true := h.back a (hb ▸ List.mem_cons_self)
    have htouched : (a.exec D 0 "" w.sess).sess.occTouched = w.sess.occTouched :=
      (exec_still_sess ha).1
    have hstatements : (a.exec D 0 "" w.sess).sess.statements = w.sess.statements :=
      (exec_still_sess ha).2
    refine ⟨?_, fun b hmem => ?_, fun name info hinfo =>
      h.remembered name info (hstatements ▸ hinfo)⟩
    · change g.Ahead w.front (a.exec D 0 "" w.sess).sess.occTouched
      rw [htouched]
      exact h.front
    · rcases List.mem_append.1 hmem with hmem | hmem
      · exact exec_still_next ha b hmem
      · exact h.back b (hb ▸ List.mem_cons_of_mem a hmem)
  | answer _ => exact ⟨h.front, h.back, h.remembered⟩

end Run

section Samples

def Dialect.over (D : Dialect) (parse : String → Option (List Statement)) : Dialect :=
  { D with classify := fun _ sql =>
      match parse sql with
      | none => .unparsed
      | some ss => .accepted (ss.map Statement.kindOf) (ss.flatMap Statement.statementTables) }

theorem reads_over : Reads (D.over parse) parse where
  unparsed async sql h := by
    cases hp : parse sql <;> simp_all [Dialect.over]
  accepted async sql kinds tables h := by
    cases hp : parse sql <;> simp_all [Dialect.over]

def fewStatements (sql : String) : Option (List Statement) :=
  [("BEGIN", [.begin]), ("COMMIT", [.commit false]),
    ("INSERT INTO t VALUES (1)", [.insert (some "t")])].lookup sql

def queried (qs : List (String × Nat)) : List (Label .any) :=
  qs.flatMap fun q => [.send (.query q.1), .readClient] ++ fronts q.2

def Dialect.few : Dialect := (Dialect.sample [⟨["t"], 1⟩]).over fewStatements

def fewCourses : System (World .any × Course) (Label .any) :=
  (system .few .any).watched {} (Course.note .few fewStatements)

end Samples

end DsqlEmulator.Proxy
