import DsqlEmulator.Proxy.Session
import DsqlEmulator.Strings

/-! The two pumps of a session as threads of atomic acts.  An act is one `stateMu`
section, one access to the tracker or one socket write; what a function does
next is the list of acts it leaves behind. -/

namespace DsqlEmulator.Proxy

open Wire Occ Txn

inductive Act : Type
  | writeUpstream (o : Origin) (ms : List Frontend)
  | writeClient (d : Delivery)
  | beginExchange
  | beginFailure (n : Nat) (f : TxnFailure)
  | setHidden (x : Exchange) (ms : List Frontend)
  | droppingUntilSync (n : Nat) (m : Frontend)
  | handleSync (n : Nat)
  | aborted (n : Nat) (m : Frontend)
  | admitKinds (n : Nat) (m : Frontend) (info : StatementInfo)
  | admitAsync (n : Nat) (rewritten : String) (statement : Nat) (kinds : List Kind)
  | addOccTables (tables : List String)
  | countTxnStatement (kinds : List Kind)
  | occAdjudicated (n : Nat) (m : Frontend) (info : StatementInfo)
  | occCommitConflict (n : Nat) (m : Frontend) (info : StatementInfo)
  | resetOcc
  | savepointReady (bind : Option Bind)
  | establishSavepoint
  | setInFlight (n : Nat) (intent : Option Intent) (bind : Option Bind)
  | setPendingCommandTag
  | setJob (job : JobResult)
  | restoreJob (jobID : String)
  | deferFailure (f : TxnFailure)
  | setSkipSync
  | getStateTxStatus (n : Nat)
  | clearAborted
  | admitRollback
  | noteBatchState (t : Tag)
  | quit
  | endExchange
  | consumeHidden (r : Reply)
  | clearHidden (h : Hidden)
  | clearSavepoint
  | clearDoomed
  | failureActive (r : Reply)
  | consumeFailureMessage
  | repairPending (r : Reply)
  | markJobDescribed (o : Origin)
  | takeJob
  | readInTxn (o : Origin) (e : ErrorFields)
  | occIntercept (o : Origin) (e : ErrorFields) (inTxn : Bool)
  | startRepair (o : Origin) (st : TxStatus)
  | chooseRestore (repair : InFlight)
  | setStateTxStatus (st : TxStatus)
  | noteTxStatus (st : TxStatus)
  | rewriteCommandTag (o : Origin) (tag : String)
  | claimJob (o : Origin) (tag : String)
  deriving DecidableEq, Repr

/-- Who a message of the upstream went to. -/
inductive Taker : Type
  | hidden (p : Purpose) (k : Nat)
  | failure (k : Nat)
  | repair
  | client
  deriving DecidableEq, Repr

structure Fate where
  reply : Reply
  taker : Taker
  deriving DecidableEq, Repr

/-- What one act does: the session after it, the acts it leaves to be done before
the rest of its thread, what it writes, which backend message it placed and which
failure it armed. -/
structure Effect where
  sess : Session
  next : List Act := []
  up : List Request := []
  client : List Delivery := []
  fates : List Fate := []
  armed : List Armed := []

section Frontend

def forward (n : Nat) (m : Frontend) : List Act :=
  if m.counted then [.beginExchange, .writeUpstream (.client n) [m]]
    else [.writeUpstream (.client n) [m]]

def sendError (n : Nat) (e : ErrorFields) : Act := .writeClient ⟨.refusal n, .error e⟩

def abortFailure (swallow : Nat) : TxnFailure := ⟨abortTransactionQuery, .failed, swallow⟩

def conflictFailure (swallow : Nat) : TxnFailure := ⟨rollbackQuery, .idle, swallow⟩

def reject (s : Session) (n : Nat) (code message : String) (extended : Bool) : List Act :=
  sendError n { code, message } ::
    if s.tracker.inTxn then
      if extended then [.deferFailure (abortFailure 2)] else [.beginFailure n (abortFailure 1)]
    else if extended then [.setSkipSync]
    else [.getStateTxStatus n]

def inFailedTransaction : ErrorFields where
  code := "25P02"
  message := "current transaction is aborted, commands ignored until end of transaction block"

def rejectFailed (n : Nat) (extended : Bool) : List Act :=
  sendError n inFailedTransaction ::
    if extended then [.setSkipSync] else [.writeClient ⟨.refusal n, .ready .failed⟩]

def occFailure (D : Dialect) (n : Nat) (extended : Bool) : List Act :=
  [sendError n (conflictError D.occ), .resetOcc,
    if extended then .deferFailure (conflictFailure 2) else .beginFailure n (conflictFailure 1)]

def endAborted : List Act := [.clearAborted, .resetOcc, .admitRollback]

/-- The shared end of `handleQuery` and `handleBind`. -/
def send (D : Dialect) (n : Nat) (m : Frontend) (info : StatementInfo) : List Act :=
  match m with
  | .query sql =>
    match D.rewriteSQL sql with
    | some r => (if r.showTag then [.setPendingCommandTag] else []) ++
        [.beginExchange, .writeUpstream (.client n) [.query r.sql]]
    | none => forward n m
  | m => (info.jobID.map Act.restoreJob).toList ++ forward n m

def armAdjudicator (n : Nat) (intent : Option Intent) (bind : Option Bind) : List Act :=
  match intent with
  | none => [.setInFlight n none bind]
  | some i => [.savepointReady bind, .setInFlight n (some i) bind]

def Frontend.bind? : Frontend → Option Bind
  | .bind b => some b
  | _ => none

def isBind (m : Frontend) : Bool := m.tag = .bind

/-- What `handleQuery` and `handleBind` do with a batch the tracker admitted. -/
def admitted (D : Dialect) (s : Session) (n : Nat) (m : Frontend) (info : StatementInfo) :
    List Act :=
  (if info.tables = [] then [] else [.addOccTables info.tables]) ++
  .countTxnStatement info.kinds ::
    if Kind.endsTransaction info.kinds then
      if Kind.isCommit info.kinds then [.occAdjudicated n m info]
      else .resetOcc :: send D n m info
    else if s.tracker.inTxn then armAdjudicator n info.intent (Frontend.bind? m) ++ send D n m info
    else send D n m info

/-- `occCommitConflict` over the injection rules from the `i`-th on: the counters
it leaves, and whether a rule fails the commit. -/
def occCommitConflict (touched : List String) : List OCCInjection → Nat → (Nat → Nat) →
    (Nat → Nat) × Bool
  | [], _, commits => (commits, false)
  | inj :: rest, i, commits =>
    if inj.tables ≠ [] ∧ ¬ inj.tables.any (· ∈ touched) then occCommitConflict touched rest
      (i + 1) commits
    else
      let commits := Function.update commits i (commits i + 1)
      let every := if inj.every ≤ 0 then 1 else inj.every.toNat
      if commits i % every = 0 then (commits, true) else occCommitConflict touched rest
        (i + 1) commits

def jobMarker (jobID : String) : String := "/* dsql_job=" ++ jobID ++ " */ "

def runAsyncJob (jobID : String) (s : Session) (n : Nat) (m : Frontend) (rewritten : String)
    (statement : Nat) (kinds : List Kind) : Effect :=
  match m with
  | .parse name _ =>
    { sess := { s with statements := Function.update s.statements name (some
      { kinds, jobID := some jobID }) }
      next := [.setJob { jobID, precedingTags := statement },
        .writeUpstream (.client n) [.parse name (jobMarker jobID ++ rewritten)]] }
  | _ => { sess := s, next := [.admitAsync n rewritten statement kinds] }

def forwardAsyncJob (D : Dialect) (jobID : String) (s : Session) (n : Nat) (m : Frontend)
    (rewritten : String) (statement : Nat) : Effect :=
  match D.classify true rewritten with
  | .unparsed => runAsyncJob jobID s n m rewritten statement [.ddl]
  | .rejected v => { sess := s, next := reject s n v.code v.message (m.tag = .parse) }
  | .accepted kinds _ =>
    runAsyncJob jobID s n m rewritten statement (if kinds = [] then [.ddl] else kinds)

def handleQuery (D : Dialect) (jobID : String) (s : Session) (n : Nat) (sql : String) : Effect :=
  match D.stripAsync sql with
  | some (rewritten, statement) =>
    if s.txnAborted then { sess := s, next := rejectFailed n false }
    else forwardAsyncJob D jobID s n (.query sql) rewritten statement
  | none =>
    if s.txnAborted then
      if Kind.endsTransaction (D.classify false sql).kinds then
        { sess := s, next := endAborted ++ forward n (.query sql) }
      else { sess := s, next := rejectFailed n false }
    else match D.classify false sql with
      | .unparsed => { sess := s, next := forward n (.query sql) }
      | .rejected v => { sess := s, next := reject s n v.code v.message false }
      | .accepted kinds tables =>
        { sess := s, next := [.admitKinds n
          (.query sql) { kinds, tables, intent := D.analyze sql }] }

def handleParse (D : Dialect) (jobID : String) (s : Session) (n : Nat) (name sql : String) :
    Effect :=
  match D.stripAsync sql with
  | some (rewritten, _) =>
    if s.txnAborted then { sess := s, next := rejectFailed n true }
    else forwardAsyncJob D jobID s n (.parse name sql) rewritten 0
  | none =>
    let remember (info : Option StatementInfo) : Session :=
      { s with statements := Function.update s.statements name info }
    if s.txnAborted then
      match D.classify false sql with
      | .accepted kinds tables =>
        if Kind.endsTransaction kinds then
          { sess := remember (some { kinds, tables }), next := forward n (.parse name sql) }
        else { sess := s, next := rejectFailed n true }
      | _ => { sess := s, next := rejectFailed n true }
    else match D.classify false sql with
      | .unparsed => { sess := remember none, next := forward n (.parse name sql) }
      | .rejected v => { sess := remember none, next := reject s n v.code v.message true }
      | .accepted kinds tables =>
        match D.rewriteSQL sql with
        | some r =>
          { sess := remember (some { kinds, tables })
            next := (if r.showTag then [.setPendingCommandTag] else []) ++
              [.writeUpstream (.client n) [.parse name r.sql]] }
        | none =>
          let intent := D.analyze sql
          { sess := remember (some { kinds, tables, intent })
            next := (if intent.isSome && s.tracker.inTxn then [.establishSavepoint] else []) ++
              forward n (.parse name sql) }

def handleBind (s : Session) (n : Nat) (b : Bind) (info : StatementInfo) : Effect :=
  if s.txnAborted then
    if Kind.endsTransaction info.kinds then { sess := s, next := endAborted ++ forward n (.bind b) }
    else { sess := s, next := rejectFailed n true }
  else { sess := s, next := [.admitKinds n (.bind b) info] }

def dispatch (s : Session) (n : Nat) (m : Frontend) : Effect :=
  match m with
  | .query _ => { sess := s, next := [.aborted n m] }
  | .parse _ _ => { sess := s, next := [.aborted n m] }
  | .bind b =>
    match s.statements b.statement with
    | none => { sess := s, next := forward n m }
    | some _ => { sess := s, next := [.aborted n m] }
  | .close true name =>
    { sess := { s with statements := Function.update s.statements name none }, next := forward n m }
  | m => { sess := s, next := forward n m }

/-- What `pumpFrontend` does with a message it has read. -/
def pumpFrontend (n : Nat) : Frontend → List Act
  | .terminate => [.writeUpstream (.client n) [.terminate], .quit]
  | .sync => [.handleSync n, .noteBatchState .sync]
  | m => [.droppingUntilSync n m]

end Frontend

section Backend

def failRepair (D : Dialect) (n : Nat) : List Act :=
  [.clearDoomed, .writeClient ⟨.repair n, .error (conflictError D.occ)⟩,
    .beginFailure n (abortFailure 1)]

def completeRepair (repair : InFlight) (rows : Int) : List Act :=
  [.writeClient ⟨.repair repair.request, .commandComplete (repair.intent.commandTag rows)⟩,
    .writeClient ⟨.repair repair.request, .ready .active⟩]

def extendedQuery (sql : String) (values : List (Option String))
    (paramFormats resultFormats : List Int) : List Frontend :=
  [.parse "" sql, .bind
    { portal := "", statement := "", params := values, paramFormats, resultFormats },
    .execute "", .sync]

def runCountShadow (D : Dialect) (repair : InFlight) : List Act :=
  match repair.shadowParams with
  | none => failRepair D repair.request
  | some (values, formats) =>
    [.setHidden (.count repair 0 false)
      (if values = [] then [.query repair.intent.shadow]
        else extendedQuery repair.intent.shadow values formats [])]

def runRowsetShadow (D : Dialect) (repair : InFlight) : List Act :=
  match repair.shadowParams with
  | none => failRepair D repair.request
  | some (values, formats) =>
    [.setHidden (.rowset repair false)
      (if repair.extended then extendedQuery repair.intent.shadow values formats repair.formats
        else [.query repair.intent.shadow])]

def runShadow (D : Dialect) (repair : InFlight) : List Act :=
  if repair.intent.shadow = "" then completeRepair repair repair.intent.rows
  else if repair.intent.rowset then runRowsetShadow D repair
  else runCountShadow D repair

def firstColumnInt : List (Option String) → Option Int
  | [] => none
  | v :: _ => Strings.atoi (v.getD "").toList

/-- The exchange's `consume`, on a message that does not end it. -/
def Exchange.note : Exchange → Backend → Exchange
  | .savepoint failed, m => .savepoint (failed || m.isError)
  | .restore repair failed, m => .restore repair (failed || m.isError)
  | .count repair rows failed, .dataRow vs => .count repair ((firstColumnInt vs).getD rows) failed
  | .count repair rows failed, m => .count repair rows (failed || m.isError)
  | .rowset repair failed, m => .rowset repair (failed || m.isError)

def Exchange.passes : Exchange → Backend → Bool
  | .rowset _ _, .dataRow _ => true
  | .rowset _ _, .commandComplete _ => true
  | .rowset repair _, .rowDescription _ => !repair.extended
  | _, _ => false

def Exchange.finish (D : Dialect) : Exchange → List Act
  | .savepoint failed => if failed then [.clearSavepoint] else []
  | .restore repair failed => if failed then failRepair D repair.request else runShadow D repair
  | .count repair rows failed =>
    if failed then failRepair D repair.request else completeRepair repair rows
  | .rowset repair failed =>
    if failed then failRepair D repair.request
    else [.writeClient ⟨.repair repair.request, .ready .active⟩]

def jobIDRowDescription : Backend := .rowDescription ["job_id"]

def jobIDDataRow (id : String) : Backend := .dataRow [some id]

def rewriteConflictError (D : Dialect) (e : ErrorFields) : ErrorFields :=
  let c := conflictError D.occ
  { e with code := c.code, message := c.message, detail := "", hint := "" }

/-- The switch of `pumpBackend` on a message that is for the client. -/
def relay (D : Dialect) (r : Reply) : List Act :=
  let pass (m : Backend) : Act := .writeClient ⟨.relayed r.origin, m⟩
  match r.msg with
  | .noData => [.markJobDescribed r.origin]
  | .error e => .takeJob :: if isConflict e.code then [.readInTxn r.origin e] else [pass r.msg]
  | .parameterStatus name value =>
    [pass (if D.serverVersion ≠ "" ∧ name = "server_version" then .parameterStatus name
      D.serverVersion else .parameterStatus name value)]
  | .ready st => [.takeJob, .startRepair r.origin st]
  | .commandComplete tag => [.rewriteCommandTag r.origin tag]
  | m => [pass m]

def pumpBackend (r : Reply) : List Act :=
  if r.msg.isReady then [.endExchange, .consumeHidden r] else [.consumeHidden r]

end Backend

/-- One act, at time `now`; `jobID` is what `newJobID` would return. -/
@[simp] def Act.exec (D : Dialect) (now : Nat) (jobID : String) (s : Session) : Act → Effect
  | .writeUpstream o ms => { sess := s, up := ms.map (Request.mk o) }
  | .writeClient d => { sess := s, client := [d] }
  | .beginExchange => { sess := { s with pendingExchanges := s.pendingExchanges + 1 } }
  | .beginFailure n f =>
    { sess := { s with failure := some ⟨s.serial, n, f⟩, failureRFQs := 0,
                       txnAborted := f.status = .failed, serial := s.serial + 1 }
      next := [.beginExchange, .writeUpstream (.failure s.serial) [f.statement]]
      armed := [⟨s.serial, n, f⟩] }
  | .setHidden x ms =>
    { sess := { s with hidden := some ⟨s.serial, x⟩, serial := s.serial + 1 }
      next := [.beginExchange, .writeUpstream (.hidden x.purpose s.serial) ms] }
  | .droppingUntilSync n m =>
    if s.skipSync then { sess := s }
    else
      let e := dispatch s n m
      { e with next := e.next ++ [.noteBatchState m.tag] }
  | .handleSync n =>
    { sess := { s with pendingFailure := none, skipSync := false }
      next := forward n .sync ++ (s.pendingFailure.map (Act.beginFailure n)).toList }
  | .aborted n m =>
    match m with
    | .query sql => handleQuery D jobID s n sql
    | .parse name sql => handleParse D jobID s n name sql
    | .bind b =>
      match s.statements b.statement with
      | some info => handleBind s n b info
      | none => { sess := s, next := forward n m }
    | m => { sess := s, next := forward n m }
  | .admitKinds n m info =>
    let (tracker, violation) := s.tracker.admitKinds info.kinds now
    let s := { s with tracker }
    match violation with
    | some v => { sess := s, next := reject s n v.code v.message (isBind m) }
    | none => { sess := s, next := admitted D s n m info }
  | .admitAsync n rewritten statement kinds =>
    let (tracker, violation) := s.tracker.admitKinds kinds now
    let s := { s with tracker }
    match violation with
    | some v => { sess := s, next := reject s n v.code v.message false }
    | none =>
      { sess := s
        next := [.setJob { jobID, precedingTags := statement }, .beginExchange,
          .writeUpstream (.client n) [.query (jobMarker jobID ++ rewritten)]] }
  | .addOccTables tables => { sess := { s with occTouched := tables ++ s.occTouched } }
  | .countTxnStatement kinds =>
    if kinds.any fun k => k = .begin ∨ k = .commit ∨
      k = .rollback then { sess := { s with occTxnStatements := 0 } }
    else { sess := { s with occTxnStatements := s.occTxnStatements + 1 } }
  | .occAdjudicated n m info =>
    if s.occDoomed then { sess := s, next := occFailure D n (isBind m) }
    else if D.occ.inject = [] then { sess := s, next := .resetOcc :: send D n m info }
    else { sess := s, next := [.occCommitConflict n m info] }
  | .occCommitConflict n m info =>
    let (commits, conflict) := Proxy.occCommitConflict s.occTouched D.occ.inject 0 s.occCommits
    { sess := { s with occCommits := commits }
      next := if conflict then occFailure D n (isBind m) else .resetOcc :: send D n m info }
  | .resetOcc =>
    { sess := { s with occTouched := [], occDoomed := false, occInFlight := none,
                       occRepair := none } }
  | .savepointReady bind =>
    if s.occSavepoint || bind.any (·.statement = "") then { sess := s }
    else { sess := s, next := [.establishSavepoint] }
  | .establishSavepoint =>
    if s.occSavepoint || 0 < s.pendingExchanges || s.extendedBatchOpen then { sess := s }
    else { sess := { s with occSavepoint := true }, next := [.setHidden (.savepoint false)
      [savepointQuery]] }
  | .setInFlight n intent bind =>
    { sess := { s with
        occInFlight := intent.bind fun intent =>
          match bind with
          | none => if intent.params = [] then some { request := n, intent } else none
          | some b => some { request := n, intent, extended := true, formats := b.resultFormats,
                             params := b.params, paramFormats := b.paramFormats } } }
  | .setPendingCommandTag => { sess := { s with pendingCommandTag := "SHOW" } }
  | .setJob job => { sess := { s with job := some job } }
  | .restoreJob jobID => { sess := { s with job := s.job.or (some { jobID }) } }
  | .deferFailure f => { sess := { s with pendingFailure := some f, skipSync := true } }
  | .setSkipSync => { sess := { s with skipSync := true } }
  | .getStateTxStatus n => { sess := s, next := [.writeClient ⟨.refusal n, .ready s.txStatus⟩] }
  | .clearAborted => { sess := { s with txnAborted := false, skipSync := false } }
  | .admitRollback => { sess := { s with tracker := (s.tracker.admitKinds [.rollback] now).1 } }
  | .noteBatchState t =>
    if t.extended then { sess := { s with extendedBatchOpen := true } }
    else if t = .sync ∨ t = .query then { sess := { s with extendedBatchOpen := false } }
    else { sess := s }
  | .quit => { sess := { s with closed := true } }
  | .endExchange => { sess := { s with pendingExchanges := s.pendingExchanges - 1 } }
  | .consumeHidden r =>
    match s.hidden with
    | none => { sess := s, next := [.failureActive r] }
    | some h =>
      if r.msg.isReady then { sess := s, next := [.clearHidden h], fates := [⟨r,
        .hidden h.exchange.purpose h.id⟩] }
      else
        { sess := { s with hidden := some { h with exchange := h.exchange.note r.msg } }
          next := if h.exchange.passes r.msg then [.writeClient ⟨.relayed r.origin, r.msg⟩] else []
          fates := [⟨r, .hidden h.exchange.purpose h.id⟩] }
  | .clearHidden h => { sess := { s with hidden := none }, next := h.exchange.finish D }
  | .clearSavepoint => { sess := { s with occSavepoint := false } }
  | .clearDoomed => { sess := { s with occDoomed := false } }
  | .failureActive r =>
    match s.failure with
    | some f =>
      { sess := s, next := if r.msg.isReady then [.consumeFailureMessage] else [], fates := [⟨r,
        .failure f.id⟩] }
    | none =>
      if r.msg.isReady then { sess := s, next := relay D r, fates := [⟨r, .client⟩] }
      else { sess := s, next := [.repairPending r] }
  | .consumeFailureMessage =>
    match s.failure with
    | some f =>
      if f.failure.swallow ≤ s.failureRFQs + 1 then
        { sess := { s with failure := none, failureRFQs := 0 }
          next := [.writeClient ⟨.failure f.id, .ready f.failure.status⟩] }
      else { sess := { s with failureRFQs := s.failureRFQs + 1 } }
    | none => { sess := { s with failureRFQs := s.failureRFQs + 1 } }
  | .repairPending r =>
    if s.occRepair.isSome then { sess := s, fates := [⟨r, .repair⟩] }
    else { sess := s, next := relay D r, fates := [⟨r, .client⟩] }
  | .markJobDescribed o =>
    match s.job with
    | some job =>
      if job.described then { sess := s, next := [.writeClient ⟨.relayed o, .noData⟩] }
      else { sess := { s with job := some { job with described := true } }
             next := [.writeClient ⟨.relayed o, jobIDRowDescription⟩] }
    | none => { sess := s, next := [.writeClient ⟨.relayed o, .noData⟩] }
  | .takeJob => { sess := { s with job := none } }
  | .readInTxn o e => { sess := s, next := [.occIntercept o e s.tracker.inTxn] }
  | .occIntercept o e inTxn =>
    if (s.occSavepoint || s.occTxnStatements ≤ 1) && inTxn && s.occInFlight.isSome &&
      s.pendingExchanges ≤ 1 then
      { sess := { s with occRepair := s.occInFlight, occInFlight := none } }
    else { sess := s, next := [.writeClient ⟨.relayed o, .error (rewriteConflictError D e)⟩] }
  | .startRepair o st =>
    match s.occRepair with
    | some repair =>
      { sess := { s with occRepair := none, occDoomed := true, txStatus := .active }
        next := [.chooseRestore repair] }
    | none =>
      { sess := s
        next := [.setStateTxStatus st, .noteTxStatus st, .writeClient ⟨.relayed o, .ready st⟩] }
  | .chooseRestore repair =>
    { sess := s
      next := [.setHidden (.restore repair false)
        [if s.occSavepoint then rollbackToQuery else restartQuery]] }
  | .setStateTxStatus st => { sess := { s with txStatus := st } }
  | .noteTxStatus st =>
    if st = .idle then
      { sess := { s with occSavepoint := false, occDoomed := false, occInFlight := none,
                         occTxnStatements := 0 } }
    else { sess := s }
  | .rewriteCommandTag o tag =>
    if s.pendingCommandTag = "" then { sess := s, next := [.claimJob o tag] }
    else { sess := { s with pendingCommandTag := "" }
           next := [.writeClient ⟨.relayed o, .commandComplete s.pendingCommandTag⟩] }
  | .claimJob o tag =>
    let complete : Act := .writeClient ⟨.relayed o, .commandComplete tag⟩
    match s.job with
    | none => { sess := s, next := [complete] }
    | some job =>
      if 0 < job.precedingTags then
        { sess := { s with job := some { job with precedingTags := job.precedingTags - 1 } },
          next := [complete] }
      else
        { sess := { s with job := none }
          next := (if job.described then []
            else [.writeClient ⟨.relayed o, jobIDRowDescription⟩]) ++
            [.writeClient ⟨.relayed o, jobIDDataRow job.jobID⟩, complete] }

end DsqlEmulator.Proxy
