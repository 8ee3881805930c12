import DsqlEmulator.Proxy.Rewrite
import DsqlEmulator.Proxy.Takeover

/-! The `ASYNC` keyword of simple queries: how `stripAsync` finds the statement a job
belongs to, how PostgreSQL reads the same text, and where the job's row ends up. -/

namespace DsqlEmulator.Proxy

open Wire Occ Txn Runs DsqlEmulator.Rewrite

section StripAsync

/-- The ordinal of the first statement with the keyword, counted in semicolons. -/
def asyncOrdinal (sql : String) (tokens : List ScanToken) : Option Nat :=
  (statements tokens).findIdx? fun s => (keywordAt (utf8 sql) s).isSome

/-- `stripAsync` on the texts of messages.  No slice is out of range for the tokens of a scan, and
what it leaves is text. -/
def stripAsync (scan : String → Option (List ScanToken)) (sql : String) : Option (String × Nat) :=
  do
  let tokens ← scan sql
  let (rewritten, found) ← (DsqlEmulator.Rewrite.stripAsync (utf8 sql) tokens).join
  return (← String.fromUTF8? ⟨rewritten.toArray⟩, found)

theorem asyncOrdinal_of_stripAsync {scan : String → Option (List ScanToken)}
    {sql rewritten : String} {k : Nat} (h : stripAsync scan sql = some (rewritten, k)) :
    ∃ tokens, scan sql = some tokens ∧ asyncOrdinal sql tokens = some k := by
  obtain ⟨tokens, hscan, h⟩ := Option.bind_eq_some_iff.1 h
  obtain ⟨⟨out, found⟩, hstrip, h⟩ := Option.bind_eq_some_iff.1 h
  obtain ⟨text, -, h⟩ := Option.bind_eq_some_iff.1 h
  cases h
  exact ⟨tokens, hscan, ordinal_of_stripAsync (Option.join_eq_some_iff.1 hstrip)⟩

end StripAsync

section Reading

inductive Splits : List ScanToken → List (List ScanToken) → Prop
  | last (s) : Splits s [s]
  | cons {t ts stmts} (s) : t.token = .semicolon → Splits ts stmts →
      Splits (s ++ t :: ts) (s :: stmts)

/-- A reading of a query by PostgreSQL. -/
structure Reading (tokens : List ScanToken) where
  stmts : List (List ScanToken)
  splits : Splits tokens stmts

def solid (s : List ScanToken) : Bool := s.any (·.token ≠ .comment)

def carries (sql : String) (s : List ScanToken) : Bool :=
  (keywordAt (utf8 sql) (s.filter (·.token ≠ .comment))).isSome

theorem solid_of_carries {sql : String} {s : List ScanToken} (h : carries sql s = true) :
    solid s = true := by
  cases hs : solid s with
  | true => rfl
  | false =>
    have hnil : s.filter (·.token ≠ .comment) = [] := by
      rw [List.filter_eq_nil_iff]
      exact List.any_eq_false.1 hs
    rw [carries, hnil] at h
    exact absurd h Bool.false_ne_true

def asked (sql : String) (stmts : List (List ScanToken)) : List Bool :=
  (stmts.filter solid).map (carries sql)

def passed : Option Nat → Option Nat
  | some (preceding + 1) => some preceding
  | _ => none

def countdown : Option Nat → Nat → List Bool
  | _, 0 => []
  | preceding, k + 1 => (preceding = some 0) :: countdown (passed preceding) k

theorem countdown_none (k : Nat) : countdown none k = List.replicate k false := by
  induction k with
  | zero => rfl
  | succ k ih => exact congrArg (List.cons false) ih

theorem length_countdown (preceding : Option Nat) (k : Nat) :
    (countdown preceding k).length = k := by
  induction k generalizing preceding with
  | zero => rfl
  | succ k ih => rw [countdown, List.length_cons, ih]

theorem asked_eq_countdown_none (sql : String) (stmts : List (List ScanToken)) :
    asked sql stmts = countdown none (stmts.countP solid) ↔ stmts.countP (carries sql) = 0 := by
  rw [countdown_none, asked, List.countP_eq_length_filter, ← List.length_map (carries sql),
    List.eq_replicate_length, List.forall_mem_map, List.countP_eq_zero]
  constructor
  · intro h s hs hc
    exact Bool.false_ne_true ((h s (List.mem_filter.2 ⟨hs, solid_of_carries hc⟩)).symm.trans hc)
  · intro h s hs
    exact Bool.eq_false_iff.2 (h s (List.mem_filter.1 hs).1)

/-- The one statement that carries the keyword comes after `k` others that are not
empty; or none does and there are no more than `k`. -/
def Located (sql : String) (stmts : List (List ScanToken)) (k : Nat) : Prop :=
  (stmts.countP (carries sql) = 1 ∧ (stmts.takeWhile (!carries sql ·)).countP solid = k) ∨
    (stmts.countP (carries sql) = 0 ∧ stmts.countP solid ≤ k)

theorem asked_eq_countdown_iff {sql : String} {stmts : List (List ScanToken)} {k : Nat} :
    asked sql stmts = countdown (some k) (stmts.countP solid) ↔ Located sql stmts k := by
  induction stmts generalizing k with
  | nil => simp [asked, countdown, Located]
  | cons s stmts ih =>
    cases hs : solid s with
    | false =>
      have hc : carries sql s = false := by
        cases hc : carries sql s with
        | true => exact absurd (solid_of_carries hc) (by rw [hs]; exact Bool.false_ne_true)
        | false => rfl
      simpa [asked, Located, hs, hc] using ih
    | true =>
      cases hc : carries sql s with
      | true =>
        cases k with
        | zero =>
          have h := asked_eq_countdown_none sql stmts
          simpa [asked, Located, hs, hc, countdown, passed] using h
        | succ k => simp [asked, Located, hs, hc, countdown]
      | false =>
        cases k with
        | zero => simp [asked, Located, hs, hc, countdown]
        | succ k => simpa [asked, Located, hs, hc, countdown, passed] using ih

end Reading

inductive Performs (D : Dialect) : Session → List Act → Session → List Request → Prop
  | nil {s} : Performs D s [] s []
  | act {s a rest s' qs} (now : Nat) (jobID : String) :
      Performs D (a.exec D now jobID s).sess ((a.exec D now jobID s).next ++ rest) s' qs →
      Performs D s (a :: rest) s' ((a.exec D now jobID s).up ++ qs)

section Performs

variable {D : Dialect} {s s' : Session} {qs : List Request} {rest : List Act} {n : Nat}

theorem Performs.cons {a : Act} (h : Performs D s (a :: rest) s' qs) :
    ∃ now jobID qs', Performs D (a.exec D now jobID s).sess
      ((a.exec D now jobID s).next ++ rest) s' qs' ∧ qs = (a.exec D now jobID s).up ++ qs' := by
  cases h with
  | act now jobID h => exact ⟨now, jobID, _, h, rfl⟩

def Act.refuses : Act → Bool
  | .writeClient _ | .beginFailure _ _ | .getStateTxStatus _ | .noteBatchState _ | .beginExchange =>
      true
  | .writeUpstream (.failure _) _ => true
  | _ => false

theorem Performs.refuses {acts : List Act} (h : Performs D s acts s' qs)
    (ha : ∀ a ∈ acts, a.refuses = true) : ∀ q ∈ qs, q.origin ≠ .client n := by
  induction h with
  | nil => exact fun _ hq => absurd hq List.not_mem_nil
  | @act s a rest s' qs now jobID _ ih =>
    obtain ⟨ha, hrest⟩ := List.forall_mem_cons.1 ha
    have hexec : (∀ b ∈ (a.exec D now jobID s).next, b.refuses = true) ∧
        ∀ q ∈ (a.exec D now jobID s).up, q.origin ≠ .client n := by
      cases a with
      | writeUpstream o ms =>
        cases o with
        | failure k => simp
        | _ => cases ha
      | noteBatchState t => dsimp only [Act.exec]; repeat' split
                            all_goals simp
      | beginFailure m f => simp [Act.refuses]
      | getStateTxStatus m => simp [Act.refuses]
      | writeClient d => simp
      | beginExchange => simp
      | _ => cases ha
    intro q hq
    obtain hq | hq := List.mem_append.1 hq
    · exact hexec.2 q hq
    · refine ih (fun b hb => ?_) q hq
      obtain hb | hb := List.mem_append.1 hb
      · exact hexec.1 b hb
      · exact hrest b hb

theorem refuses_reject {code message : String} :
    ∀ a ∈ reject s n code message false, a.refuses = true := by
  rw [reject]
  cases s.tracker.inTxn <;> simp [sendError, Act.refuses]

structure Kept (s s' : Session) : Prop where
  hidden : s'.hidden = s.hidden
  failure : s'.failure = s.failure
  occRepair : s'.occRepair = s.occRepair
  pendingCommandTag : s'.pendingCommandTag = s.pendingCommandTag

theorem performs_setJob {job : JobResult} {m : Frontend}
    (h : Performs D s [.setJob job, .beginExchange, .writeUpstream (.client n) [m],
      .noteBatchState .query] s' qs) : qs = [⟨.client n, m⟩] ∧ s'.job = some job ∧ Kept s s' := by
  obtain ⟨_, _, _, h₁, rfl⟩ := h.cons
  obtain ⟨_, _, _, h₂, rfl⟩ := h₁.cons
  obtain ⟨_, _, _, h₃, rfl⟩ := h₂.cons
  obtain ⟨_, _, _, h₄, rfl⟩ := h₃.cons
  cases h₄
  exact ⟨rfl, rfl, rfl, rfl, rfl, rfl⟩

theorem performs_admitAsync {rewritten : String} {k : Nat} {kinds : List Kind}
    (h : Performs D s [.admitAsync n rewritten k kinds, .noteBatchState .query] s' qs)
    (hq : ∃ q ∈ qs, q.origin = .client n) :
    ∃ jobID, qs = [⟨.client n, .query (jobMarker jobID ++ rewritten)⟩] ∧
      s'.job = some { jobID, precedingTags := k } ∧ Kept s s' := by
  obtain ⟨now, jobID, qs', hp, rfl⟩ := h.cons
  dsimp only [Act.exec] at hp hq ⊢
  cases hv : (s.tracker.admitKinds kinds now).2 with
  | some v =>
    simp only [hv, List.nil_append] at hp hq
    obtain ⟨q, hq, ho⟩ := hq
    refine absurd ho (hp.refuses (fun a ha => ?_) q hq)
    obtain ha | ha := List.mem_append.1 ha
    · exact refuses_reject a ha
    · rw [List.mem_singleton.1 ha]
      rfl
  | none =>
    simp only [hv, List.nil_append] at hp ⊢
    obtain ⟨hqs, hjob, hkept⟩ := performs_setJob hp
    exact ⟨jobID, hqs, hjob, hkept.hidden, hkept.failure, hkept.occRepair, hkept.pendingCommandTag⟩

theorem performs_async {sql rewritten : String} {k : Nat}
    (hstrip : D.stripAsync sql = some (rewritten, k))
    (h : Performs D s (pumpFrontend n (.query sql)) s' qs) (hq : ∃ q ∈ qs, q.origin = .client n) :
    ∃ jobID, qs = [⟨.client n, .query (jobMarker jobID ++ rewritten)⟩] ∧
      s'.job = some { jobID, precedingTags := k } ∧ Kept s s' := by
  have refused {s : Session} {acts : List Act} {qs' : List Request}
      (hp : Performs D s (acts ++ [.noteBatchState .query]) s' qs')
        (ha : ∀ a ∈ acts, a.refuses = true)
      (hq : ∃ q ∈ qs', q.origin = .client n) : False := by
    obtain ⟨q, hmem, ho⟩ := hq
    refine hp.refuses (fun a hmem => ?_) q hmem ho
    obtain hmem | hmem := List.mem_append.1 hmem
    · exact ha a hmem
    · rw [List.mem_singleton.1 hmem]
      rfl
  obtain ⟨_, _, qs₁, h₁, rfl⟩ := h.cons
  dsimp only [Act.exec] at h₁ hq ⊢
  cases hskip : s.skipSync with
  | true =>
    simp only [hskip, if_true] at h₁ hq
    cases h₁
    exact absurd hq (by simp)
  | false =>
    simp only [hskip, Bool.false_eq_true, if_false, dispatch, Frontend.tag, List.nil_append,
      List.append_nil] at h₁ hq ⊢
    obtain ⟨_, jobID, qs₂, h₂, rfl⟩ := h₁.cons
    dsimp only [Act.exec, handleQuery] at h₂ hq ⊢
    simp only [hstrip] at h₂ hq ⊢
    cases hab : s.txnAborted with
    | true =>
      simp only [hab, if_true, List.nil_append] at h₂ hq
      exact (refused h₂ (by simp [rejectFailed, sendError, Act.refuses]) hq).elim
    | false =>
      simp only [hab, Bool.false_eq_true, if_false, forwardAsyncJob] at h₂ hq ⊢
      cases hc : D.classify true rewritten with
      | unparsed =>
        simp only [hc, runAsyncJob, List.nil_append] at h₂ hq ⊢
        exact performs_admitAsync h₂ hq
      | rejected v =>
        simp only [hc, List.nil_append] at h₂ hq
        exact (refused h₂ refuses_reject hq).elim
      | accepted kinds tables =>
        simp only [hc, runAsyncJob, List.nil_append] at h₂ hq ⊢
        exact performs_admitAsync h₂ hq

end Performs

/-- The answer to a statement of a simple query that succeeds: what comes before its
command tag, which the backend pump passes on, and the tag. -/
structure Answer where
  rows : List Backend
  tag : String

def Backend.isPlain : Backend → Bool
  | .noData | .error _ | .ready _ | .commandComplete _ => false
  | _ => true

def Answer.Plain (a : Answer) : Prop := ∀ m ∈ a.rows, Backend.isPlain m = true

def Answer.msgs (a : Answer) : List Backend := a.rows ++ [.commandComplete a.tag]

def shown (D : Dialect) : Backend → Backend
  | .parameterStatus name value =>
    if D.serverVersion ≠ "" ∧ name = "server_version" then .parameterStatus name D.serverVersion
    else .parameterStatus name value
  | m => m

def jobRow (jobID : String) : List Backend := [jobIDRowDescription, jobIDDataRow jobID]

def answered (D : Dialect) (jobID : String) : List Bool → List Answer → List Backend
  | b :: bs, a :: as =>
    a.rows.map (shown D) ++ ((if b then jobRow jobID else []) ++ .commandComplete a.tag ::
      answered D jobID bs as)
  | _, _ => []

theorem answered_inj {D : Dialect} {jobID : String} {bs bs' : List Bool} {as : List Answer}
    {l l' : List Backend} (hbs : bs.length = as.length) (hbs' : bs'.length = as.length)
    (h : answered D jobID bs as ++ l = answered D jobID bs' as ++ l') : bs = bs' := by
  induction as generalizing bs bs' with
  | nil => rw [List.length_eq_zero_iff.1 hbs, List.length_eq_zero_iff.1 hbs']
  | cons a as ih =>
    match bs, bs' with
    | b :: bs, b' :: bs' =>
      simp only [answered, List.append_assoc, List.append_cancel_left_eq] at h
      obtain rfl : b = b' := by
        cases b <;> cases b' <;> first
          | rfl
          | exact absurd h (by simp [jobRow, jobIDRowDescription])
      simp only [List.append_cancel_left_eq, List.cons_append, List.cons.injEq, true_and] at h
      rw [ih (Nat.succ.inj hbs) (Nat.succ.inj hbs') h]

section Answers

variable {D : Dialect} {s : Session} {o : Origin}

/-- Nothing but the job is waiting for a message of the upstream. -/
structure Session.Awaiting (s : Session) (job : Option JobResult) : Prop where
  hidden : s.hidden = none
  failure : s.failure = none
  occRepair : s.occRepair = none
  pendingCommandTag : s.pendingCommandTag = ""
  job : s.job = job

variable {job : Option JobResult} {jobID : String}

theorem Session.Awaiting.drains_plain (h : s.Awaiting job) {m : Backend}
    (hm : Backend.isPlain m = true) :
    Drains D s (pumpBackend ⟨o, m⟩) s [⟨.relayed o, shown D m⟩] := by
  refine drains_relay h.hidden h.failure h.occRepair ?_ ?_
  · cases m <;> first | rfl | cases hm
  · have hrelay : relay D ⟨o, m⟩ = [.writeClient ⟨.relayed o, shown D m⟩] := by cases m <;> first
      | rfl
      | cases hm
    rw [hrelay]
    exact .act .nil

theorem drains_writes (ds : List Delivery) : Drains D s (ds.map .writeClient) s ds := by
  induction ds with
  | nil => exact .nil
  | cons d ds ih => exact .act ih

theorem Session.Awaiting.drains_complete {preceding : Option Nat}
    (h : s.Awaiting (preceding.map fun k => { jobID, precedingTags := k })) (tag : String) :
    ∃ s' ds, Drains D s (pumpBackend ⟨o, .commandComplete tag⟩) s' ds ∧
      s'.Awaiting ((passed preceding).map fun k => { jobID, precedingTags := k }) ∧
      ds.map Delivery.msg = (if preceding = some 0 then jobRow jobID else []) ++
        [.commandComplete tag] := by
  have claim {s' : Session} (ds : List Delivery)
      (he : (Act.claimJob o tag).exec D 0 "" s = { sess := s', next := ds.map .writeClient }) :
      Drains D s (pumpBackend ⟨o, .commandComplete tag⟩) s' ds := by
    refine drains_relay h.hidden h.failure h.occRepair rfl ?_
    refine .of_exec (e := { sess := s, next := [.claimJob o tag] })
      (by simp [h.pendingCommandTag]) ?_
    refine .of_exec (e := { sess := s', next := ds.map .writeClient }) he ?_
    simpa using drains_writes ds
  let complete : Delivery := ⟨.relayed o, .commandComplete tag⟩
  match preceding with
  | none => exact ⟨s, _, claim [complete] (by simp [h.job, complete]), h, rfl⟩
  | some 0 =>
    let row : List Delivery :=
      [⟨.relayed o, jobIDRowDescription⟩, ⟨.relayed o, jobIDDataRow jobID⟩, complete]
    refine ⟨{ s with job := none }, _, claim row (by simp [h.job, row, complete]), ?_, rfl⟩
    exact ⟨h.hidden, h.failure, h.occRepair, h.pendingCommandTag, rfl⟩
  | some (k + 1) =>
    refine ⟨{ s with job := some { jobID, precedingTags := k } }, _, claim [complete] ?_, ?_, rfl⟩
    · simp [h.job, complete]
    · exact ⟨h.hidden, h.failure, h.occRepair, h.pendingCommandTag, rfl⟩

theorem Session.Awaiting.drains_ready (h : s.Awaiting job) (st : TxStatus) :
    ∃ s', Drains D s (pumpBackend ⟨o, .ready st⟩) s' [⟨.relayed o, .ready st⟩] := by
  let s₁ : Session := { s with pendingExchanges := s.pendingExchanges - 1 }
  let s₂ : Session := { s₁ with job := none }
  let write : Act := .writeClient ⟨.relayed o, .ready st⟩
  let s₃ : Session := ((Act.noteTxStatus st).exec D 0 "" { s₂ with txStatus := st }).sess
  have hnote : (Act.noteTxStatus st).exec D 0 "" { s₂ with txStatus := st } = { sess := s₃ } := by
    dsimp only [s₃, Act.exec]
    split <;> rfl
  refine ⟨s₃, ?_⟩
  refine .of_exec (e := { sess := s₁ }) rfl ?_
  refine .of_exec (e := { sess := s₁, next := [.failureActive ⟨o, .ready st⟩] })
    (by simp [s₁, h.hidden]) ?_
  refine .of_exec (e :=
    { sess := s₁, next := [.takeJob, .startRepair o st], fates := [⟨⟨o, .ready st⟩, .client⟩] })
    (by simp [s₁, h.failure, relay]) ?_
  refine .of_exec (e := { sess := s₂ }) rfl ?_
  refine .of_exec (e := { sess := s₂, next := [.setStateTxStatus st, .noteTxStatus st, write] })
    (by simp [s₂, s₁, h.occRepair, write]) ?_
  refine .of_exec (e := { sess := { s₂ with txStatus := st } }) rfl ?_
  refine .of_exec (e := { sess := s₃ }) hnote ?_
  exact .act .nil

def Answer.replies (o : Origin) (st : TxStatus) (as : List Answer) : List Reply :=
  (as.flatMap Answer.msgs ++ [Backend.ready st]).map (Reply.mk o)

theorem Session.Awaiting.pumps_plain (h : s.Awaiting job) {ms : List Backend}
    (hms : ∀ m ∈ ms, Backend.isPlain m = true) :
    Pumps D s (ms.map (Reply.mk o)) s (ms.map fun m => ⟨.relayed o, shown D m⟩) := by
  induction ms with
  | nil => exact .nil
  | cons m ms ih =>
    obtain ⟨hm, hms⟩ := List.forall_mem_cons.1 hms
    exact .read (h.drains_plain hm) (ih hms)

theorem Session.Awaiting.pumps_replies {preceding : Option Nat} {as : List Answer}
    (h : s.Awaiting (preceding.map fun k => { jobID, precedingTags := k }))
    (has : ∀ a ∈ as, a.Plain) (st : TxStatus) : ∃ s' ds, Pumps D s (Answer.replies o st as) s' ds ∧
      ds.map Delivery.msg = answered D jobID (countdown preceding as.length) as ++ [.ready st] := by
  induction as generalizing s preceding with
  | nil =>
    obtain ⟨s', hd⟩ := h.drains_ready (D := D) (o := o) st
    exact ⟨s', _, .read hd .nil, rfl⟩
  | cons a as ih =>
    obtain ⟨ha, has⟩ := List.forall_mem_cons.1 has
    obtain ⟨s₁, ds₁, hcomplete, h₁, hds₁⟩ := h.drains_complete (D := D) (o := o) a.tag
    obtain ⟨s₂, ds₂, hrest, hds₂⟩ := ih h₁ has
    have hrows := h.pumps_plain (D := D) (o := o) ha
    have hreplies : Answer.replies o st (a :: as) =
        a.rows.map (Reply.mk o) ++ ⟨o, .commandComplete a.tag⟩ :: Answer.replies o st as := by
      simp [Answer.replies, Answer.msgs]
    have hpumps := hrows.append (.read hcomplete hrest)
    rw [← hreplies] at hpumps
    refine ⟨s₂, _, hpumps, ?_⟩
    rw [List.length_cons, countdown, answered, List.map_append, List.map_append, hds₁, hds₂]
    simp [Function.comp_def]

end Answers

section Placed

variable {U : Upstream} {D : Dialect}

/-- The steps of the frontend pump at a message it has read. -/
def Sending (l : Label U) (_ : World U) : Prop := l.jobID.isSome = true

instance (l : Label U) (w : World U) : Decidable (Sending l w) :=
  inferInstanceAs (Decidable (_ = _))

theorem performs_of_sending {v w : World U} (hw : Reach (following D v) Sending w)
    (hfront : w.front = []) :
    ∃ qs, Performs D v.sess v.front w.sess qs ∧ w.toUp = v.toUp ++ qs ∧ w.back = v.back ∧
      w.fromUp = v.fromUp := by
  suffices h : ∃ qs, (∀ s' qs', Performs D w.sess w.front s' qs' →
    Performs D v.sess v.front s' (qs ++ qs')) ∧
      w.toUp = v.toUp ++ qs ∧ w.back = v.back ∧ w.fromUp = v.fromUp by
    obtain ⟨qs, h, hrest⟩ := h
    have hp := h w.sess [] (hfront ▸ .nil)
    rw [List.append_nil] at hp
    exact ⟨qs, hp, hrest⟩
  refine hw.invariant (I := fun w => ∃ qs,
    (∀ s' qs', Performs D w.sess w.front s' qs' → Performs D v.sess v.front s' (qs ++ qs')) ∧
      w.toUp = v.toUp ++ qs ∧ w.back = v.back ∧ w.fromUp = v.fromUp) ?_ ?_
  · exact ⟨[], fun _ _ h => h, (List.append_nil _).symm, rfl, rfl⟩
  · rintro l x x' ⟨qs, h, hup, hback, hfrom⟩ hok hs
    cases moves_of_step hs with
    | @front _ now jobID a rest hx =>
      refine ⟨qs ++ (a.exec D now jobID x.sess).up, fun s' qs' hp => ?_, ?_, hback, hfrom⟩
      · rw [List.append_assoc]
        exact h s' _ (hx ▸ .act now jobID hp)
      · rw [World.applyFront, hup, List.append_assoc]
    | _ => cases hok

variable {scan : String → Option (List ScanToken)} {sql rewritten : String}
  {tokens : List ScanToken}

/-- A simple query with the keyword, read while nothing else is on its way, forwarded, and
answered as PostgreSQL answers it: the client gets the job's row before the tag of each
statement that carries the keyword, and no other, just when one statement does and the
semicolons `stripAsync` counted before it are the statements before it that are not empty. -/
theorem jobs_placed_iff {n : Nat} {v w₀ w : World U} {as : List Answer} {st : TxStatus}
    (hD : D.stripAsync = stripAsync scan) (hscan : scan sql = some tokens)
    (haccept : (stripAsync scan sql).isSome) (pg : Reading tokens)
    (hread : v.front = pumpFrontend n (.query sql)) (hidle : v.sess.Awaiting v.sess.job)
    (hback : v.back = []) (htoUp : v.toUp = []) (hfromUp : v.fromUp = [])
    (hsend : Reach (following D v) Sending w₀) (hsent : w₀.front = [])
    (hfwd : ∃ q ∈ w₀.toUp, q.origin = .client n) (hw : Reach (following D w₀) Waiting w)
    (hback' : w.back = []) (hfromUp' : w.fromUp = []) (hlen : as.length = pg.stmts.countP solid)
    (has : ∀ a ∈ as, a.Plain) (hsaid : w.said = w₀.said ++ Answer.replies (.client n) st as) :
    ∃ k jobID rewritten, asyncOrdinal sql tokens = some k ∧
      w₀.toUp = [⟨.client n, .query (jobMarker jobID ++ rewritten)⟩] ∧
      (w.got.map Delivery.msg = w₀.got.map Delivery.msg ++
          (answered D jobID (asked sql pg.stmts) as ++ [.ready st]) ↔ Located sql pg.stmts k) := by
  obtain ⟨⟨rewritten, k⟩, hstrip⟩ := Option.isSome_iff_exists.1 haccept
  obtain ⟨tokens', hscan', hk⟩ := asyncOrdinal_of_stripAsync hstrip
  obtain rfl : tokens = tokens' := Option.some.inj (hscan.symm.trans hscan')
  obtain ⟨qs, hperf, hup₀, hback₀, hfrom₀⟩ := performs_of_sending hsend hsent
  rw [htoUp, List.nil_append] at hup₀
  rw [hread] at hperf
  obtain ⟨jobID, hup, hjob, hkept⟩ := performs_async (by rw [hD, hstrip]) hperf (hup₀ ▸ hfwd)
  refine ⟨k, jobID, rewritten, hk, hup₀.trans hup, ?_⟩
  have hawait : w₀.sess.Awaiting ((some k).map fun k => { jobID, precedingTags := k }) :=
    ⟨hkept.hidden.trans hidle.hidden, hkept.failure.trans hidle.failure,
      hkept.occRepair.trans hidle.occRepair,
      hkept.pendingCommandTag.trans hidle.pendingCommandTag, hjob⟩
  obtain ⟨rs, ds, hpumps, hgot, new, hnew, hrs⟩ := pumps_of_waiting hw (hback₀.trans hback) hback'
  obtain rfl : Answer.replies (.client n) st as = new :=
    List.append_cancel_left (hsaid.symm.trans hnew)
  rw [hfrom₀, hfromUp, hfromUp', List.nil_append, List.append_nil] at hrs
  obtain ⟨s', ds', hrun, hds⟩ := hawait.pumps_replies (D := D) (o := .client n) has st
  rw [← hrs] at hpumps
  obtain ⟨-, rfl⟩ := hpumps.deterministic hrun
  rw [hgot, List.map_append, hds, List.append_cancel_left_eq, ← asked_eq_countdown_iff, ← hlen]
  have hasked : (asked sql pg.stmts).length = as.length := by
    rw [asked, List.length_map, ← List.countP_eq_length_filter, hlen]
  constructor
  · intro h
    exact (answered_inj (length_countdown _ _) hasked h).symm
  · intro h
    rw [h]

def scanSample (sql : String) (tokens : List ScanToken) (text : String) : Option (List ScanToken) :=
  if text = sql then some tokens else none

def Dialect.asyncSample (sql : String) (tokens : List ScanToken) : Dialect :=
  { Dialect.sample [] with stripAsync := Proxy.stripAsync (scanSample sql tokens) }

theorem jobs_placed_iff_single :
    let sql := "CREATE INDEX ASYNC ON t (a)"
    let D := Dialect.asyncSample sql (asyncTokens 0)
    let v := (system D .any).dest (fun _ _ => True) [.send (.query sql), .readClient]
    let w₀ := (following D v).dest Sending (fronts 7)
    let w := (following D w₀).dest Waiting
      (.answer ([.commandComplete "CREATE INDEX"], .idle) :: .readUpstream :: backs 8 ++
        .readUpstream :: backs 8)
    ∃ k jobID rewritten, asyncOrdinal sql (asyncTokens 0) = some k ∧
      w₀.toUp = [⟨.client 0, .query (jobMarker jobID ++ rewritten)⟩] ∧
      (w.got.map Delivery.msg = w₀.got.map Delivery.msg ++
          (answered D jobID (asked sql [asyncTokens 0]) [⟨[], "CREATE INDEX"⟩] ++ [.ready .idle]) ↔
        Located sql [asyncTokens 0] k) := by
  intro sql D v w₀ w
  have hidle : v.sess.Awaiting v.sess.job := by constructor <;> decide +kernel
  have hsend : Reach (following D v) Sending w₀ := Reach.dest _ _
  have hw : Reach (following D w₀) Waiting w := Reach.dest _ _
  refine jobs_placed_iff (D := D) rfl (if_pos rfl) (by decide +kernel) ⟨[asyncTokens 0], .last _⟩
    (by decide +kernel)
    hidle (by decide +kernel) (by decide +kernel) (by decide +kernel) hsend (by decide +kernel)
      (by decide +kernel) hw
    (by decide +kernel) (by decide +kernel) (by decide) (fun a ha => ?_) (by decide +kernel)
  rw [List.mem_singleton.1 ha]
  exact fun m hm => absurd hm List.not_mem_nil

/-- A query that opens with an empty statement: the statement with the keyword is answered
without a job id. -/
theorem jobs_placed_empty :
    let sql := "; CREATE INDEX ASYNC ON t (a)"
    let D := Dialect.asyncSample sql (⟨.semicolon, 0, 1⟩ :: asyncTokens 2)
    let w := (system D .any).dest (fun _ _ => True)
      (.send (.query sql) :: .readClient :: fronts 7 ++ .answer
        ([.commandComplete "CREATE INDEX"], .idle) ::
        .readUpstream :: backs 6 ++ .readUpstream :: backs 8)
    (∃ pg : Reading (⟨.semicolon, 0, 1⟩ :: asyncTokens 2), asked sql pg.stmts = [true]) ∧
      w.written.map Request.msg = [.query (jobMarker "" ++ "; CREATE INDEX ON t (a)")] ∧
      w.said.map Reply.msg = [.commandComplete "CREATE INDEX", .ready .idle] ∧
      w.got.map Delivery.msg = [.commandComplete "CREATE INDEX", .ready .idle] := by
  intro sql D w
  refine ⟨⟨⟨[[], asyncTokens 2], .cons [] rfl (.last _)⟩, by decide +kernel⟩, ?_⟩
  decide +kernel

end Placed

end DsqlEmulator.Proxy
