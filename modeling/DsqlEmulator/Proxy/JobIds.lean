import DsqlEmulator.Proxy.Async
import DsqlEmulator.Proxy.Executions

/-! Job ids of asynchronous statements.  The session has one slot for the job of the
statement it last read, and the backend pump puts the id into the answer that comes next. -/

namespace DsqlEmulator.Proxy

open Wire Occ Txn Runs DsqlEmulator.Rewrite

variable {U : Upstream} {D : Dialect}

section Truth

def markedJob (rewritten text : String) : Option String :=
  let id := String.ofList ((text.toList.drop 12).take (text.length - 16 - rewritten.length))
  if text = jobMarker id ++ rewritten then some id else none

example : markedJob "CREATE INDEX ON t (a)" (jobMarker "xyz" ++ "CREATE INDEX ON t (a)") =
    some "xyz" := by
  decide +kernel

/-- The row a statement is due: none, or one with the id its marker carried, if it has a marker. -/
abbrev Due := Option (Option String)

variable (scan : String → Option (List ScanToken)) (pg : ∀ tokens, Reading tokens)

def stmtsOf (sql : String) : List (List ScanToken) :=
  (scan sql).elim [] fun tokens => (pg tokens).stmts

def markedText (D : Dialect) (sent : List Frontend) (q : Request) :
    Option (String × Option String) :=
  match q.origin with
  | .client n => do
    let sql ← (← sent[n]?).sql
    return (sql, do
      let (rewritten, _) ← D.stripAsync sql
      markedJob rewritten (← q.msg.sql))
  | _ => none

def dues (text : Option (String × Option String)) : List Due :=
  text.elim [] fun (sql, id) => (asked sql (stmtsOf scan pg sql)).map fun carried =>
    if carried then some id else none

def expectedJobs (described : Due) : List Due → List Signal → List (Signal × Due)
  | _, [] => []
  | run, .complete :: ks => (.complete, run.head?.join) :: expectedJobs described run.tail ks
  | run, .noData :: ks => (.noData, described) :: expectedJobs described run ks
  | _, .clear :: ks => (.clear, none) :: expectedJobs described [] ks

theorem expectedJobs_signals {described : Due} (run : List Due) (ks : List Signal) :
    (expectedJobs described run ks).map Prod.fst = ks := by
  induction ks generalizing run with
  | nil => rfl
  | cons k ks ih => cases k <;> exact congrArg (_ :: ·) (ih _)

end Truth

/-- What the proxy puts into an answer. -/
inductive Insertion : Type
  | nothing
  | description
  | row (id : String)
  deriving DecidableEq, Repr

section Reader

def Delivery.insertion (d : Delivery) : Option Insertion :=
  match d.msg with
  | .rowDescription ["job_id"] => some .description
  | .dataRow [some id] => some (.row id)
  | _ => none

def Act.looksAtJob : Act → Bool
  | .markJobDescribed _ | .takeJob | .claimJob _ _ => true
  | _ => false

def insertion (D : Dialect) (s : Session) (a : Act) : Insertion :=
  if a.looksAtJob then
    ((a.exec D 0 "" s).next.filterMap fun b =>
      match b with
      | .writeClient d => d.insertion
      | _ => none).getLast?.getD .nothing
  else .nothing

def jobReact (job : Option JobResult) (e : Signal × Due) : Option JobResult × Insertion :=
  match e.1, job with
  | .complete, some job =>
    if 0 < job.precedingTags then (some { job with precedingTags := job.precedingTags - 1 },
      .nothing)
    else (none, .row job.jobID)
  | .noData, some job =>
    if job.described then (some job, .nothing) else (some { job with described := true },
      .description)
  | _, _ => (none, .nothing)

/-- A command tag brings the row its statement is due and no other, and a `NoData` a row
description only if it describes an asynchronous statement. -/
def Fits (p : (Signal × Due) × Insertion) : Prop :=
  match p.1.1 with
  | .complete => p.1.2.elim (p.2 = .nothing) fun id => id.map .row = some p.2
  | .noData => p.2 = .nothing ∨ p.2 = .description ∧ p.1.2.isSome = true
  | .clear => p.2 = .nothing

theorem exec_job {s : Session} {now : Nat} {jobID : String} {a : Act} (ha : a.looksAtJob = false)
    (hset : ∀ job, a ≠ .setJob job) (hrestore : ∀ id, a ≠ .restoreJob id) :
    (a.exec D now jobID s).sess.job = s.job := by
  cases a with
  | setJob job => exact absurd rfl (hset job)
  | restoreJob id => exact absurd rfl (hrestore id)
  | aborted n m => obtain ⟨_, _, h⟩ := exec_aborted_quiet n m; rw [h]
  | droppingUntilSync n m => obtain ⟨_, _, h⟩ := exec_droppingUntilSync_quiet n m; rw [h]
  | markJobDescribed o => cases ha
  | takeJob => cases ha
  | claimJob o tag => cases ha
  | _ => dsimp only [Act.exec] <;> (repeat' split) <;> rfl

theorem spent_looksAtJob {s : Session} {a : Act} (ha : a.looksAtJob = true) :
    a.spent D true s = true := by
  rw [Act.spent_iff]
  cases a with
  | markJobDescribed o => exact ⟨rfl, by dsimp only [Act.exec]; (repeat' split) <;> rfl⟩
  | takeJob => exact ⟨rfl, rfl⟩
  | claimJob o tag => exact ⟨rfl, by dsimp only [Act.exec]; (repeat' split) <;> rfl⟩
  | _ => cases ha

def Act.setsJob (s : Session) : Act → Bool
  | .setJob _ => true
  | .restoreJob _ => s.job.isNone
  | _ => false

def jobReader (D : Dialect) (scan : String → Option (List ScanToken))
    (pg : ∀ tokens, Reading tokens) : Reader D Due (Option JobResult) Insertion where
  late := true
  slot := Session.job
  react := jobReact
  arms := Act.setsJob
  handles := Act.looksAtJob
  outcome := insertion D
  truth sent held q :=
    expectedJobs ((dues scan pg ((held.describes q).bind (markedText D sent))).find?
      Option.isSome).join (dues scan pg ((held.runs q).bind (markedText D sent)))
  Right := Fits
  arms_signal s a h := by cases a <;> first | rfl | cases h
  truth_signals sent held q := expectedJobs_signals _
  handles_eq s a k t ha hs hk := by
    cases a with
    | markJobDescribed o =>
      cases hk
      cases hj : s.job with
      | none => simp [jobReact, insertion, Act.looksAtJob, hj, Delivery.insertion]
      | some job => cases hd : job.described <;>
          simp [jobReact, insertion, Act.looksAtJob, hj, hd, Delivery.insertion,
            jobIDRowDescription]
    | takeJob =>
      cases hk
      cases hj : s.job <;> rfl
    | claimJob o tag =>
      cases hk
      cases hj : s.job with
      | none => simp [jobReact, insertion, Act.looksAtJob, hj, Delivery.insertion]
      | some job =>
        by_cases hp : 0 < job.precedingTags
        · simp [jobReact, insertion, Act.looksAtJob, hj, hp, Delivery.insertion]
        · cases hd : job.described <;>
            simp [jobReact, insertion, Act.looksAtJob, hj, hp, hd, Delivery.insertion,
              jobIDRowDescription, jobIDDataRow]
    | _ => cases ha
  slot_eq s a now jobID ha hh := by
    cases hl : a.looksAtJob with
    | true => rw [hl, spent_looksAtJob hl] at hh; cases hh
    | false =>
      cases a with
      | setJob job => cases ha
      | restoreJob id =>
        cases hj : s.job with
        | none => rw [Act.setsJob, hj] at ha; cases ha
        | some job => simp [hj]
      | _ => exact exec_job hl (fun _ h => by cases h) (fun _ h => by cases h)

end Reader

section OneJob

variable (D : Dialect) (scan : String → Option (List ScanToken)) (pg : ∀ tokens, Reading tokens)

def runsText (w : World U) (held : Holdings) : Option (String × Option String) :=
  w.toUp.head?.bind fun q => (held.runs q).bind (markedText D w.sent)

def describesText (w : World U) (held : Holdings) : Option (String × Option String) :=
  w.toUp.head?.bind fun q => (held.describes q).bind (markedText D w.sent)

def OwnsJob (job : Option JobResult) (text : Option (String × Option String)) : Prop :=
  match job, text with
  | none, some (sql, _) => (stmtsOf scan pg sql).countP (carries sql) = 0
  | none, none => True
  | some job, some (sql, id) =>
    id = some job.jobID ∧ Located sql (stmtsOf scan pg sql) job.precedingTags
  | some _, none => False

instance (sql : String) (stmts : List (List ScanToken)) (k : Nat) :
    Decidable (Located sql stmts k) :=
  inferInstanceAs (Decidable (_ ∨ _))

instance (job : Option JobResult) (text : Option (String × Option String)) :
    Decidable (OwnsJob scan pg job text) :=
  match job, text with
  | none, some _ => inferInstanceAs (Decidable (_ = _))
  | none, none => inferInstanceAs (Decidable True)
  | some _, some _ => inferInstanceAs (Decidable (_ ∧ _))
  | some _, none => inferInstanceAs (Decidable False)

/-- A job is set only while nothing that looks at it is on its way.  When the upstream
answers with command tags, the job that waits is that of the text it ran, and its place there
is that of the one asynchronous statement, with no more tags than statements; none waits if
no statement is asynchronous.  While a job waits the upstream answers with `NoData` only to
describe an asynchronous statement.  No exchange of the emulator's own, failure, repair or
pending command tag takes a command tag of an asynchronous statement, or anything that looks at
the job while one waits. -/
@[mk_iff] structure OneJob (l : Label U) (w : World U × Record Due (Option JobResult) Insertion) :
    Prop where
  alone : (jobReader D scan pg).arming l w.1 = true → w.1.signals true = []
  own : .complete ∈ w.1.news l → OwnsJob scan pg w.2.now (runsText D w.1 w.2.held)
  tags : w.2.now.isSome = true → (w.1.news l).count .complete ≤
    (dues scan pg (runsText D w.1 w.2.held)).length
  described : .noData ∈ w.1.news l → w.2.now.isSome = true →
    ∃ due ∈ dues scan pg (describesText D w.1 w.2.held), due.isSome = true
  taken : ∀ a ∈ w.1.spending D true l, a.looksAtJob = false →
    w.1.sess.job = none ∧ (a.signal true = some .complete → w.2.line.head?.all (·.2.isNone) = true)

instance (l : Label U) (w : World U × Record Due (Option JobResult) Insertion) :
    Decidable (OneJob D scan pg l w) :=
  decidable_of_iff _ (oneJob_iff D scan pg l w).symm

end OneJob

section Countdown

variable {scan : String → Option (List ScanToken)} {pg : ∀ tokens, Reading tokens}

def rowsDue (id : Option String) (preceding : Option Nat) (n : Nat) : List Due :=
  (countdown preceding n).map fun carried => if carried then some id else none

theorem rowsDue_succ (id : Option String) (preceding : Option Nat) (n : Nat) :
    rowsDue id preceding (n + 1) = (if preceding = some 0 then some id else none) :: rowsDue id
      (passed preceding) n := by
  simp [rowsDue, countdown]

theorem OwnsJob.dues_eq {job : Option JobResult} {text : Option (String × Option String)}
    (h : OwnsJob scan pg job text) : ∃ n, dues scan pg text = rowsDue (job.map JobResult.jobID)
      (job.map JobResult.precedingTags) n := by
  match job, text with
  | none, none => exact ⟨0, rfl⟩
  | none, some (sql, id) =>
    refine ⟨(stmtsOf scan pg sql).countP solid, ?_⟩
    simp [dues, rowsDue, (asked_eq_countdown_none sql _).2 h, countdown_none]
  | some job, some (sql, id) =>
    obtain ⟨rfl, hlocated⟩ := h
    refine ⟨(stmtsOf scan pg sql).countP solid, ?_⟩
    simp [dues, rowsDue, asked_eq_countdown_iff.2 hlocated]

end Countdown

theorem outcomes_fit {ks : List Signal} {job : Option JobResult} {run : List Due} {described : Due}
    (hown : .complete ∈ ks → ∃ n, run = rowsDue (job.map JobResult.jobID)
      (job.map JobResult.precedingTags) n)
    (htags : job.isSome = true → ks.count .complete ≤ run.length)
    (hdesc : .noData ∈ ks → job.isSome = true → described.isSome = true) :
    ∀ p ∈ Slot.outcomes jobReact job (expectedJobs described run ks), Fits p := by
  induction ks generalizing job run with
  | nil => exact fun p hp => absurd hp List.not_mem_nil
  | cons k ks ih =>
    have hown' (h : .complete ∈ ks) := hown (List.mem_cons_of_mem k h)
    have hdesc' (h : .noData ∈ ks) := hdesc (List.mem_cons_of_mem k h)
    cases k with
    | complete =>
      obtain ⟨n, rfl⟩ := hown List.mem_cons_self
      rw [List.count_cons_self] at htags
      -- without a job there may be more tags than statements: none of them is due anything
      match job, n with
      | none, 0 =>
        exact List.forall_mem_cons.2 ⟨rfl, ih (fun _ => ⟨0, rfl⟩) (fun h => by cases h) hdesc'⟩
      | none, n + 1 =>
        rw [rowsDue_succ]
        exact List.forall_mem_cons.2 ⟨rfl, ih (fun _ => ⟨n, rfl⟩) (fun h => by cases h) hdesc'⟩
      | some _, 0 => exact absurd (htags rfl) (Nat.not_succ_le_zero _)
      | some ⟨id, shown, 0⟩, n + 1 =>
        rw [rowsDue_succ]
        refine List.forall_mem_cons.2 ⟨rfl, ?_⟩
        refine @ih none _ (fun _ => ⟨n, ?_⟩) (fun h => by cases h) fun _ h => by cases h
        simp [passed, rowsDue, countdown_none]
      | some ⟨id, shown, preceding + 1⟩, n + 1 =>
        rw [rowsDue_succ] at htags ⊢
        exact List.forall_mem_cons.2
          ⟨rfl, ih (fun _ => ⟨n, rfl⟩) (fun _ => Nat.le_of_succ_le_succ (htags rfl)) fun h _ =>
          hdesc' h rfl⟩
    | noData =>
      have htags' : job.isSome = true → ks.count .complete ≤ run.length := by simpa using htags
      rw [expectedJobs, Slot.outcomes, List.forall_mem_cons]
      cases job with
      | none => exact ⟨.inl rfl, ih hown' (fun h => by cases h) fun _ h => by cases h⟩
      | some job =>
        obtain ⟨id, _ | _, preceding⟩ := job
        · exact ⟨.inr ⟨rfl, hdesc List.mem_cons_self rfl⟩, ih hown' (fun _ => htags' rfl) fun h _ =>
            hdesc' h rfl⟩
        · exact ⟨.inl rfl, ih hown' (fun _ => htags' rfl) fun h _ => hdesc' h rfl⟩
    | clear =>
      have hreact : jobReact job (.clear, none) = (none, .nothing) := by cases job <;> rfl
      rw [expectedJobs, Slot.outcomes, List.forall_mem_cons, hreact]
      exact ⟨rfl, ih (fun _ => ⟨0, rfl⟩) (fun h => by cases h) fun _ h => by cases h⟩

variable {scan : String → Option (List ScanToken)} {pg : ∀ tokens, Reading tokens}
variable {l : Label U} {w : World U × Record Due (Option JobResult) Insertion}

theorem OneJob.ok (hf : (jobReader D scan pg).Follows w) (h : OneJob D scan pg l w) :
    (jobReader D scan pg).Ok l w := by
  refine ⟨fun harm e he s => ?_, ?_, fun a ha hh e he => ?_⟩
  · have hline : w.2.line.map Prod.fst = w.1.signals true := hf.line
    rw [h.alone harm, List.map_eq_nil_iff] at hline
    rw [hline] at he
    cases he
  · cases hq : w.1.toUp.head? with
    | none =>
      rw [Reader.sends, hq]
      exact fun p hp => absurd hp List.not_mem_nil
    | some q =>
      have hsends : (jobReader D scan pg).sends l w.1 w.2.held =
          expectedJobs ((dues scan pg (describesText D w.1 w.2.held)).find? Option.isSome).join
            (dues scan pg (runsText D w.1 w.2.held)) (w.1.news l) := by
        rw [Reader.sends, runsText, describesText, hq]
        rfl
      rw [hsends]
      refine outcomes_fit (fun hc => (h.own hc).dues_eq) h.tags fun hd hnow => ?_
      obtain ⟨due, hmem, hdue⟩ := h.described hd hnow
      obtain ⟨found, hfound⟩ := Option.isSome_iff_exists.1 (List.find?_isSome.2 ⟨due, hmem, hdue⟩)
      rw [hfound]
      exact List.find?_some hfound
  · obtain ⟨hjob, htruth⟩ := h.taken a ha hh
    have hsig := hf.head_signal ha he
    have hout : insertion D w.1.sess a = .nothing := if_neg (Bool.eq_false_iff.1 hh)
    change (jobReact w.1.sess.job e).1 = w.1.sess.job ∧ Fits (e, insertion D w.1.sess a)
    rw [hjob, hout]
    obtain ⟨k, t⟩ := e
    cases k with
    | complete =>
      have ht := htruth hsig
      rw [he] at ht
      obtain rfl : t = none := by simpa using ht
      exact ⟨rfl, rfl⟩
    | noData => exact ⟨rfl, .inl rfl⟩
    | clear => exact ⟨rfl, rfl⟩

def Reading.whole (tokens : List ScanToken) : Reading tokens := ⟨[tokens], .last tokens⟩

def Dialect.indexing : Dialect := .asyncSample "CREATE INDEX ASYNC ON t (a)" (asyncTokens 0)

def scanIndexing : String → Option (List ScanToken) :=
  scanSample "CREATE INDEX ASYNC ON t (a)" (asyncTokens 0)

end DsqlEmulator.Proxy
