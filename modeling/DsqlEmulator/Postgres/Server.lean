import DsqlEmulator.Postgres.Commits

/-! A server that keeps the laws of `Transacts` and of `Commits`, to run the emulator on given
inputs.  What its statements yield, and which of them fail, is chosen with each answer. -/

namespace DsqlEmulator.Postgres

open Wire Classify Proxy

/-- How a statement goes: what it sends, and the error it fails with. -/
structure Outcome where
  sends : List Backend := []
  tag : String := ""
  error : Option ErrorFields := none
  deriving DecidableEq, Repr

def Outcome.shown (o : Outcome) : List Backend := o.sends.filter fun m => !m.isReady && !m.isOutcome

/-- The numbers of the transactions only grow; `committed` holds those of the blocks that were
committed. -/
structure Server where
  status : TxStatus := .idle
  skipping : Bool := false
  txn : Nat := 0
  committed : List Nat := []
  prepared : List Nat := []
  statements : List (String × Option Statement) := []
  portals : List (String × Option Statement) := []
  deriving DecidableEq, Repr

def serverError (code message : String) : ErrorFields := { code, message }

def refusal : ErrorFields := serverError "25P02" "current transaction is aborted"
def syntaxError : ErrorFields := serverError "42601" "syntax error"
def noStatement : ErrorFields := serverError "26000" "prepared statement does not exist"
def noPortal : ErrorFields := serverError "34000" "portal does not exist"
def protocolViolation : ErrorFields := serverError "08P01" "invalid message format"

def attempt (found : TxStatus) (s : Statement) (o : Outcome) : Run :=
  { statement := s, found, failed := o.error.isSome || !s.allowed found }

def attempts : TxStatus → List Statement → List Outcome → List Run
  | _, [], _ => []
  | found, s :: ss, os =>
    let r := attempt found s (os.headD {})
    r :: if r.failed then [] else attempts r.left ss os.tail

def verdict (r : Run) (o : Outcome) : Backend :=
  if r.failed then .error (o.error.getD refusal) else .commandComplete o.tag

def report : List Run → List Outcome → List Backend
  | [], _ => []
  | r :: rs, os => (os.headD {}).shown ++ verdict r (os.headD {}) :: report rs os.tail

def Server.book (srv : Server) (r : Run) : Server :=
  { srv with txn := if r.concludes then srv.txn + 1 else srv.txn
             committed := if r.commits then srv.committed ++ [srv.txn] else srv.committed
             prepared := if r.prepares then srv.prepared ++ [srv.txn] else srv.prepared }

namespace Server

variable (srv : Server) (parse : String → Option (List Statement))

def runs (m : Frontend) (os : List Outcome) : List Run :=
  if srv.skipping then []
  else match m with
    | .query sql => attempts srv.status ((parse sql).getD []) os
    | .execute portal => attempts srv.status ((srv.portals.lookup portal).join.toList) os
    | .functionCall => attempts srv.status [.other] os
    | _ => []

/-- What a message draws, short of the `ReadyForQuery`.  While a batch is skipped that is
nothing. -/
def replies (m : Frontend) (os : List Outcome) : List Backend :=
  if srv.skipping then []
  else match m with
    | .query sql =>
      if (parse sql).isNone then [.error syntaxError] else report (srv.runs parse m os) os
    | .functionCall => report (srv.runs parse m os) os
    | .execute portal =>
      match srv.portals.lookup portal with
      | none => [.error noPortal]
      | some none => [.emptyQuery]
      | some (some _) => report (srv.runs parse m os) os
    | .parse _ sql =>
      match (os.headD {}).error with
      | some e => [.error e]
      | none => if (parse sql).any (·.length ≤ 1) then [.parseComplete] else [.error syntaxError]
    | .bind b =>
      match (os.headD {}).error with
      | some e => [.error e]
      | none =>
        if (srv.statements.lookup b.statement).isNone then [.error noStatement] else [.bindComplete]
    | .describe _ _ =>
      match (os.headD {}).error with
      | some e => [.error e]
      | none => (os.headD {}).shown
    | .close _ _ => [.closeComplete]
    | .malformed _ => [.error protocolViolation]
    | _ => []

def renamed (m : Frontend) (failed : Bool) : Server :=
  if srv.skipping then srv
  else match m, failed with
    | .query _, _ => { srv with statements := srv.statements.filter (·.1 ≠ "")
                                portals := srv.portals.filter (·.1 ≠ "") }
    | .parse name _, true =>
      if name = "" then { srv with statements := srv.statements.filter (·.1 ≠ "") } else srv
    | .parse name sql, false =>
      { srv with statements := (name, ((parse sql).getD []).head?) :: srv.statements }
    | .bind b, false =>
      { srv with portals := (b.portal, (srv.statements.lookup b.statement).join) :: srv.portals }
    | .execute portal, false => { srv with portals := (portal, none) :: srv.portals }
    | .close true name, _ => { srv with statements := srv.statements.filter (·.1 ≠ name) }
    | .close false name, _ => { srv with portals := srv.portals.filter (·.1 ≠ name) }
    | _, _ => srv

def next (m : Frontend) (os : List Outcome) : TxStatus :=
  let status := leaving srv.status (srv.runs parse m os)
  if failsIn (srv.replies parse m os) then status.failing else status

def answer (m : Frontend) (os : List Outcome) : Server × List Backend :=
  let status := srv.next parse m os
  let failed := failsIn (srv.replies parse m os)
  let booked := (srv.runs parse m os).foldl Server.book srv
  ({ srv.renamed parse m failed with
      status
      skipping := if m.drawsReady then srv.skipping && m ≠ .sync else srv.skipping || failed
      txn := if status = .idle then booked.txn + 1 else booked.txn
      committed := booked.committed
      prepared := booked.prepared
      portals := if m.drawsReady && status =
        .idle then [] else (srv.renamed parse m failed).portals },
    srv.replies parse m os ++ if m.drawsReady then [.ready status] else [])

end Server

section Reports

variable {found : TxStatus} {ss : List Statement} {os : List Outcome} {r : Run} {rs : List Run}

theorem shown_outcome (o : Outcome) : ∀ m ∈ o.shown, m.isReady = false ∧ m.isOutcome = false := by
  simp +contextual [Outcome.shown]

theorem verdict_ready (o : Outcome) : (verdict r o).isReady = false := by
  unfold verdict
  split <;> rfl

theorem verdict_error (o : Outcome) : (verdict r o).isError = r.failed := by
  unfold verdict
  split
  next h => rw [h]; rfl
  next h => rw [Bool.eq_false_iff.2 h]; rfl

theorem verdict_outcome (o : Outcome) : (verdict r o).isOutcome = true := by
  unfold verdict
  split <;> rfl

theorem failsIn_shown (o : Outcome) : failsIn o.shown = false := by
  refine List.any_eq_false.2 fun m hm => ?_
  have houtcome := (shown_outcome o m hm).2
  rw [Backend.isOutcome, Bool.or_eq_false_iff] at houtcome
  simp [houtcome.1]

theorem report_ready : ∀ m ∈ report rs os, m.isReady = false := by
  induction rs generalizing os with
  | nil => simp [report]
  | cons r rs ih =>
    intro m hm
    rcases List.mem_append.1 hm with hm | hm
    · exact (shown_outcome _ m hm).1
    · rcases List.mem_cons.1 hm with rfl | hm
      · exact verdict_ready _
      · exact ih m hm

theorem failsIn_report : failsIn (report rs os) = rs.any Run.failed := by
  induction rs generalizing os with
  | nil => rfl
  | cons r rs ih =>
    have happend : failsIn (report (r :: rs) os) =
        (failsIn (os.headD {}).shown ||
            ((verdict r (os.headD {})).isError || failsIn (report rs os.tail))) := by
      simp [failsIn, report]
    rw [happend, failsIn_shown, verdict_error, ih]
    rfl

theorem countP_report : (report [r] os).countP Backend.isOutcome = 1 := by
  have hshown : (os.headD {}).shown.countP Backend.isOutcome = 0 :=
    List.countP_eq_zero.2 fun m hm => by simp [(shown_outcome _ m hm).2]
  rw [report, List.countP_append, hshown, List.countP_cons_of_pos (verdict_outcome _)]
  rfl

theorem proceeds_attempts : Proceeds found (attempts found ss os) := by
  induction ss generalizing found os with
  | nil => trivial
  | cons s ss ih =>
    refine ⟨rfl, fun hf => ?_, fun hf => if_pos hf, ?_⟩
    · simp only [attempt, Bool.or_eq_false_iff, Bool.not_eq_false'] at hf
      exact hf.2
    · split
      · trivial
      · exact ih

theorem attempts_prefix : (attempts found ss os).map Run.statement <+: ss := by
  induction ss generalizing found os with
  | nil => exact List.nil_prefix
  | cons s ss ih =>
    rw [attempts, List.map_cons, List.cons_prefix_cons]
    refine ⟨rfl, ?_⟩
    split
    · exact List.nil_prefix
    · exact ih

theorem length_attempts : (attempts found ss os).length ≤ ss.length := by
  have hprefix : (attempts found ss os).map Run.statement <+: ss := attempts_prefix
  simpa using hprefix.length_le

theorem attempts_all (h : ∀ r ∈ attempts found ss os, r.failed = false) :
    (attempts found ss os).map Run.statement = ss := by
  induction ss generalizing found os with
  | nil => rfl
  | cons s ss ih =>
    have hs : (attempt found s (os.headD {})).failed = false := h _ List.mem_cons_self
    simp only [attempts, hs, Bool.false_eq_true, if_false, List.forall_mem_cons] at h ⊢
    rw [List.map_cons, ih h.2]
    rfl

end Reports

section Laws

variable {srv : Server} {parse : String → Option (List Statement)} {m : Frontend}
  {os : List Outcome} {r : Run}

theorem replies_ready : ∀ x ∈ srv.replies parse m os, x.isReady = false := by
  unfold Server.replies
  split
  · simp
  · cases m with
    | query sql => dsimp only; split <;> first | exact report_ready | simp [Backend.isReady]
    | functionCall => exact report_ready
    | execute portal => dsimp only; split <;> first | exact report_ready | simp [Backend.isReady]
    | describe statement name =>
      dsimp only
      split
      · simp [Backend.isReady]
      · exact fun x hx => (shown_outcome _ x hx).1
    | _ => dsimp only; (repeat' split) <;> simp [Backend.isReady]

def upstream (parse : String → Option (List Statement)) : Upstream where
  State := Server
  Choice := List Outcome
  init := {}
  answer srv m os := srv.answer parse m os
  answers srv m os := by
    refine ⟨srv.replies parse m os, replies_ready, ?_⟩
    unfold Server.answer
    cases h : m.drawsReady <;> simp

theorem failsIn_answer : failsIn (srv.answer parse m os).2 = failsIn (srv.replies parse m os) := by
  simp only [Server.answer, failsIn, List.any_append]
  split <;> simp [Backend.isError]

theorem proceeds_runs : Proceeds srv.status (srv.runs parse m os) := by
  unfold Server.runs
  split
  · trivial
  · split <;> first | exact proceeds_attempts | trivial

theorem replies_fail (hr : r ∈ srv.runs parse m os) (hf : r.failed = true) :
    failsIn (srv.replies parse m os) = true := by
  have hreport : failsIn (report (srv.runs parse m os) os) = true := by
    rw [failsIn_report]
    exact List.any_eq_true.2 ⟨r, hr, hf⟩
  unfold Server.runs at hr
  unfold Server.replies
  split
  next hskip => rw [if_pos hskip] at hr; cases hr
  next hskip =>
    rw [if_neg hskip] at hr
    cases m with
    | query sql =>
      dsimp only
      split
      next hnone => rfl
      next => exact hreport
    | functionCall => exact hreport
    | execute portal =>
      dsimp only at hr ⊢
      split
      · rfl
      next hnone => simp [hnone, attempts] at hr
      · exact hreport
    | _ => cases hr

theorem status_answer : (srv.answer parse m os).1.status = if failsIn (srv.answer parse m os).2 then
    (leaving srv.status (srv.runs parse m os)).failing else leaving srv.status
      (srv.runs parse m os) := by
  rw [failsIn_answer]
  rfl

theorem answer_completes {sql : String} (hskip : srv.skipping = false) :
    failsIn (srv.answer parse (.query sql) os).2 = false ↔
      parse sql = some ((srv.runs parse (.query sql) os).map Run.statement) ∧
        ∀ r ∈ srv.runs parse (.query sql) os, r.failed = false := by
  rw [failsIn_answer]
  simp only [Server.replies, Server.runs, hskip, Bool.false_eq_true, if_false]
  cases hparse : parse sql with
  | none => simp [failsIn, Backend.isError]
  | some ss =>
    simp only [Option.isNone_some, Bool.false_eq_true, if_false, Option.getD_some, failsIn_report,
      List.any_eq_false, Option.some.injEq, Bool.not_eq_true]
    exact ⟨fun h => ⟨(attempts_all h).symm, h⟩, fun h => h.2⟩

theorem answer_tells {sql : String} (hskip : srv.skipping = false)
    (hone : (parse sql).all (·.length = 1) = true) :
    (srv.answer parse (.query sql) os).2.countP Backend.isOutcome = 1 := by
  have hready (st : TxStatus) : [Backend.ready st].countP Backend.isOutcome = 0 := rfl
  simp only [Server.answer, Frontend.drawsReady, Frontend.tag_query, decide_true,
    Bool.true_or, if_true,
    List.countP_append, hready, Server.replies, hskip, Bool.false_eq_true, if_false]
  cases hparse : parse sql with
  | none => rfl
  | some ss =>
    rw [hparse, Option.all_some, decide_eq_true_eq] at hone
    obtain ⟨s, rfl⟩ := List.length_eq_one_iff.1 hone
    simp only [Option.isNone_some, Bool.false_eq_true, if_false, Server.runs, hskip, hparse,
      Option.getD_some, attempts, ite_self, countP_report]

def transacts (parse : String → Option (List Statement)) : Transacts (upstream parse) parse where
  status := Server.status
  skips := Server.skipping
  runs srv m os := srv.runs parse m os
  status_init := rfl
  skips_init := rfl
  wakes {srv m os} hdraws h := by
    show (srv.answer parse m os).1.skipping = false
    obtain h | rfl := h
    · simp [Server.answer, hdraws, show srv.skipping = false from h]
    · simp [Server.answer, Frontend.drawsReady]
  ready {srv m os s} h := by
    change .ready s ∈ srv.replies parse m os ++ _ at h
    rcases List.mem_append.1 h with h | h
    · cases replies_ready _ h
    · split at h
      · cases List.mem_singleton.1 h
        rfl
      · cases h
  proceeds srv m os := proceeds_runs
  raises {srv m os r} hr hf := failsIn_answer.trans (replies_fail hr hf)
  leaves srv m os := status_answer
  query {srv sql os} hskip := by
    have hawake : srv.skipping = false := hskip
    simp only [Server.runs, hawake, Bool.false_eq_true, if_false]
    exact attempts_prefix
  completes hskip := answer_completes hskip
  execute {srv portal os} := by
    unfold Server.runs
    split
    · exact Nat.zero_le _
    · refine Nat.le_trans length_attempts ?_
      cases (srv.portals.lookup portal).join <;> simp
  call {srv os} := by
    unfold Server.runs
    split
    · simp
    · exact ⟨length_attempts,
        fun r hr => by simpa using attempts_prefix.subset (List.mem_map_of_mem hr)⟩
  silent {srv m os} hm := by
    unfold Server.runs
    split
    · rfl
    · cases m <;> first | rfl | cases hm

end Laws

section Books

variable {srv : Server} {parse : String → Option (List Statement)} {r : Run}
  {rs : List Run} {t : Nat}

theorem concludes_of_commits (h : r.commits = true) : r.concludes = true := by
  obtain ⟨s, found, failed⟩ := r
  cases s <;> first | rfl | cases h

theorem concludes_of_prepares (h : r.prepares = true) : r.concludes = true := by
  obtain ⟨s, found, failed⟩ := r
  cases s <;> first | rfl | simp [Run.prepares] at h

theorem txn_le_book (srv : Server) (r : Run) : srv.txn ≤ (srv.book r).txn := by
  unfold Server.book
  dsimp only
  split <;> omega

theorem txn_le_books : srv.txn ≤ (rs.foldl Server.book srv).txn := by
  induction rs generalizing srv with
  | nil => exact Nat.le_refl _
  | cons r rs ih => exact Nat.le_trans (txn_le_book srv r) ih

theorem txn_lt_books (hr : r ∈ rs) (hconcludes : r.concludes = true) :
    srv.txn < (rs.foldl Server.book srv).txn := by
  induction rs generalizing srv with
  | nil => cases hr
  | cons a rs ih =>
    rcases List.mem_cons.1 hr with rfl | hr
    · have hbook : (srv.book r).txn = srv.txn + 1 := by simp [Server.book, hconcludes]
      have hle : (srv.book r).txn ≤ (rs.foldl Server.book (srv.book r)).txn := txn_le_books
      rw [List.foldl_cons]
      omega
    · exact Nat.lt_of_le_of_lt (txn_le_book srv a) (ih hr)

theorem committed_books (h : t ∈ srv.committed) : t ∈ (rs.foldl Server.book srv).committed := by
  induction rs generalizing srv with
  | nil => exact h
  | cons r rs ih =>
    refine ih ?_
    unfold Server.book
    dsimp only
    split
    · exact List.mem_append_left _ h
    · exact h

theorem mem_books : (t ∈ (rs.foldl Server.book srv).committed → t ∈ srv.committed ∨
      srv.txn ≤ t ∧ t < (rs.foldl Server.book srv).txn ∧ ∃ r ∈ rs, r.commits = true) ∧
    (t ∈ (rs.foldl Server.book srv).prepared → t ∈ srv.prepared ∨
      srv.txn ≤ t ∧ t < (rs.foldl Server.book srv).txn ∧ ∃ r ∈ rs, r.prepares = true) := by
  induction rs generalizing srv with
  | nil => exact ⟨.inl, .inl⟩
  | cons r rs ih =>
    have hle := txn_le_book srv r
    obtain ⟨hcommitted, hprepared⟩ := @ih (srv.book r)
    constructor
    · intro h
      rcases hcommitted h with h | ⟨hle', hlt, r', hr', hcommits⟩
      · cases hcommits : r.commits with
        | false => exact .inl (by simpa [Server.book, hcommits] using h)
        | true =>
          simp only [Server.book, hcommits, if_true, List.mem_append, List.mem_singleton] at h
          refine h.imp_right fun h => ⟨Nat.le_of_eq h.symm, ?_, r, List.mem_cons_self, hcommits⟩
          rw [h]
          exact txn_lt_books List.mem_cons_self (concludes_of_commits hcommits)
      · exact .inr ⟨Nat.le_trans hle hle', hlt, r', List.mem_cons_of_mem r hr', hcommits⟩
    · intro h
      rcases hprepared h with h | ⟨hle', hlt, r', hr', hprepares⟩
      · cases hprepares : r.prepares with
        | false => exact .inl (by simpa [Server.book, hprepares] using h)
        | true =>
          simp only [Server.book, hprepares, if_true, List.mem_append, List.mem_singleton] at h
          refine h.imp_right fun h => ⟨Nat.le_of_eq h.symm, ?_, r, List.mem_cons_self, hprepares⟩
          rw [h]
          exact txn_lt_books List.mem_cons_self (concludes_of_prepares hprepares)
      · exact .inr ⟨Nat.le_trans hle hle', hlt, r', List.mem_cons_of_mem r hr', hprepares⟩

theorem txn_books_le (srv : Server) (m : Frontend) (os : List Outcome) :
    ((srv.runs parse m os).foldl Server.book srv).txn ≤ (srv.answer parse m os).1.txn := by
  simp only [Server.answer]
  split <;> omega

theorem committed_answer {m : Frontend} {os : List Outcome} (hruns : srv.runs parse m os = r :: rs)
    (hcommits : r.commits = true) : srv.txn ∈ (srv.answer parse m os).1.committed := by
  have hmem : srv.txn ∈ (srv.book r).committed := by simp [Server.book, hcommits]
  simp only [Server.answer, hruns, List.foldl_cons]
  exact committed_books hmem

theorem txn_lt_answer {m : Frontend} {os : List Outcome}
    (h : (srv.answer parse m os).1.status = .idle) : srv.txn < (srv.answer parse m os).1.txn := by
  have hidle : srv.next parse m os = .idle := h
  have hbooks : srv.txn ≤ ((srv.runs parse m os).foldl Server.book srv).txn := txn_le_books
  simp only [Server.answer, hidle, if_true]
  omega

def commits (parse : String → Option (List Statement)) : Commits (transacts parse) where
  txn := Server.txn
  committed := Server.committed
  prepared := Server.prepared
  committed_init := rfl
  prepared_init := rfl
  later srv m os := Nat.le_trans txn_le_books (txn_books_le srv m os)
  ends {srv m os r} hr hends :=
    Nat.lt_of_lt_of_le (txn_lt_books hr (by simp [Run.concludes, hends])) (txn_books_le srv m os)
  leaves _ hclosed := txn_lt_answer (status_of_closed hclosed)
  keeps := committed_books
  commits hruns hcommits := committed_answer hruns hcommits
  committed_of {srv m os t} h := by
    rcases mem_books.1 h with h | ⟨hle, hlt, hruns⟩
    · exact .inl h
    · exact .inr (.inr ⟨hle, Nat.lt_of_lt_of_le hlt (txn_books_le srv m os), fun _ _ => hruns⟩)
  prepared_of {srv m os t} h := by
    rcases mem_books.2 h with h | ⟨hle, hlt, hruns⟩
    · exact .inl h
    · exact .inr ⟨hle, Nat.lt_of_lt_of_le hlt (txn_books_le srv m os), fun _ _ => hruns⟩
  tells hskip hone := answer_tells hskip hone

end Books

end DsqlEmulator.Postgres
