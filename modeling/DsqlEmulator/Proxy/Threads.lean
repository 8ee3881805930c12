import DsqlEmulator.Proxy.World

/-! What each pump can be about to do.  The acts of the frontend pump all belong
to the client message it read last; those of the backend pump all follow from the
message it read last. -/

namespace DsqlEmulator.Proxy

open Wire Occ Txn Runs

section Moves

variable {U : Upstream} {D : Dialect}

inductive Moves (D : Dialect) : Label U → World U → World U → Prop
  | send {w m} : Moves D (.send m) w { w with inbox := w.inbox ++ [m], sent := w.sent ++ [m] }
  | readClient {w m rest} : w.front = [] → w.inbox = m :: rest → w.sess.closed = false →
      Moves D .readClient w
        { w with front := pumpFrontend w.read m, inbox := rest, read := w.read + 1 }
  | front {w now jobID a rest} : w.front = a :: rest →
      Moves D (.front now jobID) w (w.applyFront rest (a.exec D now jobID w.sess))
  | readUpstream {w r rest} : w.back = [] → w.fromUp = r :: rest → w.sess.closed = false →
      Moves D .readUpstream w { w with back := pumpBackend r, fromUp := rest }
  | back {w a rest} : w.back = a :: rest →
      Moves D .back w (w.applyBack rest (a.exec D 0 "" w.sess))
  | answer {w c q rest} : w.toUp = q :: rest →
      Moves D (.answer c) w (w.applyAnswer q rest (U.answer w.up q.msg c))

theorem moves_of_step {l : Label U} {w w' : World U} (h : step D l w = some w') :
    Moves D l w w' := by
  cases l with
  | send m => cases h; exact .send
  | readClient =>
    simp only [step] at h
    split at h
    next hf hi =>
      split at h
      · cases h
      next hc => cases h; exact .readClient hf hi (by simpa using hc)
    next => cases h
  | front now jobID =>
    simp only [step] at h
    split at h
    next hf => cases h; exact .front hf
    next => cases h
  | readUpstream =>
    simp only [step] at h
    split at h
    next hb hu =>
      split at h
      · cases h
      next hc => cases h; exact .readUpstream hb hu (by simpa using hc)
    next => cases h
  | back =>
    simp only [step] at h
    split at h
    next hb => cases h; exact .back hb
    next => cases h
  | answer c =>
    simp only [step] at h
    split at h
    next hq => cases h; exact .answer hq
    next => cases h

theorem Moves.sent_keep {l : Label U} {w w' : World U} {n : Nat} {m : Frontend} (h : Moves D l w w')
    (hm : w.sent[n]? = some m) : w'.sent[n]? = some m := by
  cases h with
  | send => exact (List.getElem?_append_left (List.getElem?_eq_some_iff.1 hm).1).trans hm
  | _ => exact hm

end Moves

def Closing (ms : List Frontend) : Prop :=
  ∃ pre last, ms = pre ++ [last] ∧ (∀ m ∈ pre, m.drawsReady = false) ∧ last.drawsReady = true

theorem closing_query (sql : String) : Closing [.query sql] := ⟨[], _, rfl, by simp, rfl⟩

theorem closing_extendedQuery (sql : String) (vs : List (Option String)) (fs gs : List Int) :
    Closing (extendedQuery sql vs fs gs) := by
  refine ⟨[.parse "" sql, .bind _, .execute ""], .sync, rfl, ?_, rfl⟩
  simp [Frontend.drawsReady]

/-- The failures the session injects. -/
def Injected (swallow : Nat) (f : TxnFailure) : Prop :=
  f = abortFailure swallow ∨ f = conflictFailure swallow

@[simp] def FrontCode (n : Nat) (m : Frontend) : Act → Prop
  | .writeUpstream (.client k) ms => k = n ∧ ∃ m', ms = [m'] ∧ m'.tag = m.tag
  | .writeClient d => d.source = .refusal n ∧
      ((∃ e, d.msg = .error e) ∨ m.tag = .query ∧ ∃ st, d.msg = .ready st)
  | .beginExchange => True
  | .beginFailure k f => k = n ∧ (m.tag = .query ∧ Injected 1 f ∨ m = .sync ∧ Injected 2 f)
  | .setHidden x ms => x = .savepoint false ∧ ms = [savepointQuery]
  | .droppingUntilSync k m' => k = n ∧ m' = m ∧ m ≠ .sync ∧ m ≠ .terminate
  | .handleSync k => k = n ∧ m = .sync
  | .aborted k m' => k = n ∧ m' = m ∧ (m.tag = .query ∨ m.tag = .parse ∨ m.tag = .bind)
  | .admitKinds k m' _ => k = n ∧ m' = m ∧ (m.tag = .query ∨ m.tag = .bind)
  | .admitAsync k _ _ _ => k = n ∧ m.tag = .query
  | .addOccTables _ => True
  | .countTxnStatement _ => True
  | .occAdjudicated k m' _ => k = n ∧ m' = m ∧ (m.tag = .query ∨ m.tag = .bind)
  | .occCommitConflict k m' _ => k = n ∧ m' = m ∧ (m.tag = .query ∨ m.tag = .bind)
  | .resetOcc => True
  | .savepointReady _ => m.tag = .query ∨ m.tag = .bind
  | .establishSavepoint => m.tag = .query ∨ m.tag = .parse ∨ m.tag = .bind
  | .setInFlight k _ _ => k = n ∧ (m.tag = .query ∨ m.tag = .bind)
  | .setPendingCommandTag => True
  | .setJob _ => True
  | .restoreJob _ => True
  | .deferFailure f => (m.tag = .parse ∨ m.tag = .bind) ∧ Injected 2 f
  | .setSkipSync => m.tag = .parse ∨ m.tag = .bind
  | .getStateTxStatus k => k = n ∧ m.tag = .query
  | .clearAborted => m.tag = .query ∨ m.tag = .bind
  | .admitRollback => m.tag = .query ∨ m.tag = .bind
  | .noteBatchState t => t = m.tag
  | .quit => m = .terminate
  | _ => False

inductive FrontAct (n : Nat) (m : Frontend) : Act → Prop
  | code {a} : FrontCode n m a → FrontAct n m a
  | savepoint {k} : FrontAct n m (.writeUpstream (.hidden .savepoint k) [savepointQuery])
  | abort {k} : FrontAct n m (.writeUpstream (.failure k) [abortTransactionQuery])
  | rollback {k} : FrontAct n m (.writeUpstream (.failure k) [rollbackQuery])

@[simp] def RelayCode (o : Origin) : Act → Prop
  | .writeClient d => d.source = .relayed o
  | .markJobDescribed o' => o' = o
  | .takeJob => True
  | .readInTxn o' e => o' = o ∧ isConflict e.code = true
  | .occIntercept o' e _ => o' = o ∧ isConflict e.code = true
  | .setStateTxStatus _ => True
  | .noteTxStatus _ => True
  | .rewriteCommandTag o' _ => o' = o
  | .claimJob o' _ => o' = o
  | _ => False

@[simp] def RepairCode : Act → Prop
  | .writeClient d => ∃ n, d.source = .repair n
  | .beginExchange => True
  | .beginFailure _ f => f = abortFailure 1
  | .setHidden x ms => x.purpose ≠ .savepoint ∧ Closing ms
  | .clearSavepoint => True
  | .clearDoomed => True
  | _ => False

inductive RepairAct : Act → Prop
  | code {a} : RepairCode a → RepairAct a
  | exchange {p k ms} : p ≠ .savepoint → Closing ms → RepairAct (.writeUpstream (.hidden p k) ms)
  | abort {k} : RepairAct (.writeUpstream (.failure k) [abortTransactionQuery])

inductive BackMode : List Act → Prop
  | reading {r} : r.msg.isReady = true → BackMode [.endExchange, .consumeHidden r]
  | offering {r} : BackMode [.consumeHidden r]
  | checking {r} : BackMode [.failureActive r]
  | pending {r} : r.msg.isReady = false → BackMode [.repairPending r]
  | failing : BackMode [.consumeFailureMessage]
  | failed {k st} : BackMode [.writeClient ⟨.failure k, .ready st⟩]
  | ending {h} : BackMode [.clearHidden h]
  | readying {o st} : BackMode [.takeJob, .startRepair o st]
  | starting {o st} : BackMode [.startRepair o st]
  | restoring {repair} : BackMode [.chooseRestore repair]
  | relaying {o l} : (∀ a ∈ l, RelayCode o a) → BackMode l
  | repairing {l} : (∀ a ∈ l, RepairAct a) → BackMode l

section Frontend

variable {D : Dialect} {s : Session} {n : Nat} {m : Frontend}

theorem forward_front (n : Nat) (m : Frontend) : ∀ a ∈ forward n m, FrontCode n m a := by
  unfold forward
  split <;> simp

theorem reject_front {code message : String} {extended : Bool}
    (hx : if extended then m.tag = .parse ∨ m.tag = .bind else m.tag = .query) :
    ∀ a ∈ reject s n code message extended, FrontCode n m a := by
  cases extended <;> simp only [reject, Bool.false_eq_true, if_true, if_false] at hx ⊢ <;>
    split <;> simp [sendError, Injected, hx]

theorem rejectFailed_front {extended : Bool}
    (hx : if extended then m.tag = .parse ∨ m.tag = .bind else m.tag = .query) :
    ∀ a ∈ rejectFailed n extended, FrontCode n m a := by
  cases extended <;> simp_all [rejectFailed, sendError]

theorem occFailure_front {extended : Bool}
    (hx : if extended then m.tag = .parse ∨ m.tag = .bind else m.tag = .query) :
    ∀ a ∈ occFailure D n extended, FrontCode n m a := by
  cases extended <;> simp_all [occFailure, sendError, Injected]

theorem endAborted_front (hm : m.tag = .query ∨ m.tag = .bind) :
    ∀ a ∈ endAborted, FrontCode n m a := by
  simp [endAborted, hm]

theorem send_front {info : StatementInfo} : ∀ a ∈ send D n m info, FrontCode n m a := by
  unfold send
  split
  · split
    · split <;> simp
    · exact fun a ha => forward_front _ _ a ha
  · cases info.jobID <;> simpa using forward_front n m

theorem armAdjudicator_front {intent : Option Intent} {bind : Option Bind}
    (hm : m.tag = .query ∨ m.tag = .bind) :
    ∀ a ∈ armAdjudicator n intent bind, FrontCode n m a := by
  cases intent <;> simp [armAdjudicator, hm]

theorem admitted_front {info : StatementInfo} (hm : m.tag = .query ∨ m.tag = .bind) :
    ∀ a ∈ admitted D s n m info, FrontCode n m a := by
  intro a ha
  simp only [admitted, List.mem_append, List.mem_cons] at ha
  rcases ha with ha | rfl | ha
  · split at ha <;> simp_all
  · trivial
  · split at ha
    · split at ha
      · simp_all
      · rcases List.mem_cons.1 ha with rfl | ha
        · trivial
        · exact send_front a ha
    · split at ha
      · rcases List.mem_append.1 ha with ha | ha
        · exact armAdjudicator_front hm a ha
        · exact send_front a ha
      · exact send_front a ha

variable {now : Nat} {jobID : String}

theorem forwardAsyncJob_front {rewritten : String} {statement : Nat}
    (hm : (∃ sql, m = .query sql) ∨ ∃ name sql, m = .parse name sql) :
    ∀ a ∈ (forwardAsyncJob D jobID s n m rewritten statement).next, FrontCode n m a := by
  rcases hm with ⟨sql, rfl⟩ | ⟨name, sql, rfl⟩ <;> unfold forwardAsyncJob <;> split <;>
    first
      | exact reject_front (by simp)
      | simp [runAsyncJob]

theorem handleQuery_front {sql : String} :
    ∀ a ∈ (handleQuery D jobID s n sql).next, FrontCode n (.query sql) a := by
  unfold handleQuery
  split
  · split
    · exact rejectFailed_front (by simp)
    · exact forwardAsyncJob_front (.inl ⟨sql, rfl⟩)
  · split
    · split
      · intro a ha
        rcases List.mem_append.1 ha with ha | ha
        · exact endAborted_front (.inl rfl) a ha
        · exact forward_front _ _ a ha
      · exact rejectFailed_front (by simp)
    · split
      · exact fun a ha => forward_front _ _ a ha
      · exact reject_front (by simp)
      · simp

theorem handleParse_front {name sql : String} :
    ∀ a ∈ (handleParse D jobID s n name sql).next, FrontCode n (.parse name sql) a := by
  have hx : if true then (Frontend.parse name sql).tag = .parse ∨
    (Frontend.parse name sql).tag = .bind
      else (Frontend.parse name sql).tag = .query := by simp
  unfold handleParse
  split
  · split
    · exact rejectFailed_front hx
    · exact forwardAsyncJob_front (.inr ⟨name, sql, rfl⟩)
  · dsimp only
    split
    · split
      · split
        · exact fun a ha => forward_front _ _ a ha
        · exact rejectFailed_front hx
      · exact rejectFailed_front hx
    · split
      · exact fun a ha => forward_front _ _ a ha
      · exact reject_front hx
      · split
        · split <;> simp
        · intro a ha
          rcases List.mem_append.1 ha with ha | ha
          · split at ha
            · simp_all
            · simp at ha
          · exact forward_front _ _ a ha

theorem handleBind_front {b : Bind} {info : StatementInfo} :
    ∀ a ∈ (handleBind s n b info).next, FrontCode n (.bind b) a := by
  unfold handleBind
  split
  · split
    · intro a ha
      rcases List.mem_append.1 ha with ha | ha
      · exact endAborted_front (.inr rfl) a ha
      · exact forward_front _ _ a ha
    · exact rejectFailed_front (by simp)
  · simp

theorem dispatch_front : ∀ a ∈ (dispatch s n m).next, FrontCode n m a := by
  unfold dispatch
  split
  · simp
  · simp
  · split
    · exact fun a ha => forward_front _ _ a ha
    · simp
  · exact fun a ha => forward_front _ _ a ha
  · exact fun a ha => forward_front _ _ a ha

theorem pumpFrontend_front : ∀ a ∈ pumpFrontend n m, FrontCode n m a := by
  unfold pumpFrontend
  split
  · simp
  · simp
  · rename_i h h'
    simpa using ⟨h', h⟩

def Session.PendingInjected (s : Session) : Prop := ∀ f, s.pendingFailure = some f → Injected 2 f

theorem exec_frontCode {a : Act} (hs : s.PendingInjected) (h : FrontCode n m a)
    (hx : ∀ x ms, a ≠ .setHidden x ms) (hf : ∀ k f, a ≠ .beginFailure k f) :
    ∀ b ∈ (a.exec D now jobID s).next, FrontCode n m b := by
  cases a with
  | beginFailure k f => exact absurd rfl (hf k f)
  | setHidden x ms => exact absurd rfl (hx x ms)
  | droppingUntilSync k m' =>
    obtain ⟨rfl, rfl, -⟩ := h
    dsimp only [Act.exec]
    split
    · simp
    · intro b hb
      rcases List.mem_append.1 hb with hb | hb
      · exact dispatch_front b hb
      · simp_all
  | handleSync k =>
    obtain ⟨rfl, rfl⟩ := h
    intro b hb
    rcases List.mem_append.1 hb with hb | hb
    · exact forward_front _ _ b hb
    · simp only [Option.mem_toList, Option.map_eq_some_iff] at hb
      obtain ⟨f, hf, rfl⟩ := hb
      exact ⟨rfl, .inr ⟨rfl, hs f hf⟩⟩
  | aborted k m' =>
    obtain ⟨rfl, rfl, -⟩ := h
    dsimp only [Act.exec]
    split
    · exact handleQuery_front
    · exact handleParse_front
    · split
      · exact handleBind_front
      · exact fun a ha => forward_front _ _ a ha
    · exact fun a ha => forward_front _ _ a ha
  | admitKinds k m' info =>
    obtain ⟨rfl, rfl, hm⟩ := h
    dsimp only [Act.exec]
    split
    · apply reject_front
      rcases hm with hm | hm <;> simp [isBind, hm]
    · exact admitted_front hm
  | admitAsync k rewritten statement kinds =>
    obtain ⟨rfl, hm⟩ := h
    dsimp only [Act.exec]
    split
    · exact reject_front hm
    · simp [hm]
  | occAdjudicated k m' info =>
    obtain ⟨rfl, rfl, hm⟩ := h
    dsimp only [Act.exec]
    split
    · apply occFailure_front
      rcases hm with hm | hm <;> simp [isBind, hm]
    · split
      · simpa using send_front
      · simp [hm]
  | occCommitConflict k m' info =>
    obtain ⟨rfl, rfl, hm⟩ := h
    dsimp only [Act.exec]
    split
    · apply occFailure_front
      rcases hm with hm | hm <;> simp [isBind, hm]
    · simpa using send_front
  | savepointReady bind =>
    dsimp only [Act.exec]
    split
    · simp
    · rcases h with h | h <;> simp [h]
  | establishSavepoint =>
    dsimp only [Act.exec]
    split <;> simp
  | getStateTxStatus k =>
    obtain ⟨rfl, hm⟩ := h
    simp [Act.exec, hm]
  | countTxnStatement kinds => dsimp only [Act.exec]; split <;> simp
  | noteBatchState t => dsimp only [Act.exec]; split <;> (try split) <;> simp
  | _ => first | exact h.elim | simp [Act.exec]

theorem exec_front {a : Act} (hs : s.PendingInjected) (h : FrontAct n m a) :
    ∀ b ∈ (a.exec D now jobID s).next, FrontAct n m b := by
  cases h with
  | code h =>
    cases a with
    | beginFailure k f =>
      have hf : Injected 1 f ∨ Injected 2 f := h.2.imp And.right And.right
      simp only [Act.exec, List.mem_cons, List.not_mem_nil, or_false, forall_eq_or_imp, forall_eq]
      rcases hf with (rfl | rfl) | (rfl | rfl)
      · exact ⟨.code trivial, .abort⟩
      · exact ⟨.code trivial, .rollback⟩
      · exact ⟨.code trivial, .abort⟩
      · exact ⟨.code trivial, .rollback⟩
    | setHidden x ms =>
      obtain ⟨rfl, rfl⟩ := h
      simp only [Act.exec, List.mem_cons, List.not_mem_nil, or_false, forall_eq_or_imp, forall_eq]
      exact ⟨.code trivial, .savepoint⟩
    | _ => exact fun b hb => .code (exec_frontCode hs h (by simp) (by simp) b hb)
  | _ => simp

end Frontend

section Backend

variable {D : Dialect} {s : Session} {now : Nat} {jobID : String}

theorem failRepair_repair (n : Nat) : ∀ a ∈ failRepair D n, RepairCode a := by
  simp [failRepair]

theorem completeRepair_repair (repair : InFlight) (rows : Int) :
    ∀ a ∈ completeRepair repair rows, RepairCode a := by
  simp [completeRepair]

theorem runCountShadow_repair (repair : InFlight) :
    ∀ a ∈ runCountShadow D repair, RepairCode a := by
  unfold runCountShadow
  split
  · exact failRepair_repair _
  · simp only [List.mem_singleton, forall_eq]
    refine ⟨by simp [Exchange.purpose], ?_⟩
    split
    · exact closing_query _
    · exact closing_extendedQuery ..

theorem runRowsetShadow_repair (repair : InFlight) :
    ∀ a ∈ runRowsetShadow D repair, RepairCode a := by
  unfold runRowsetShadow
  split
  · exact failRepair_repair _
  · simp only [List.mem_singleton, forall_eq]
    refine ⟨by simp [Exchange.purpose], ?_⟩
    split
    · exact closing_extendedQuery ..
    · exact closing_query _

theorem runShadow_repair (repair : InFlight) : ∀ a ∈ runShadow D repair, RepairCode a := by
  unfold runShadow
  split
  · exact completeRepair_repair _ _
  · split
    · exact runRowsetShadow_repair _
    · exact runCountShadow_repair _

theorem finish_repair (x : Exchange) : ∀ a ∈ x.finish D, RepairCode a := by
  cases x with
  | savepoint failed => cases failed <;> simp [Exchange.finish]
  | restore repair failed =>
    cases failed
    · exact runShadow_repair repair
    · exact failRepair_repair _
  | count repair rows failed =>
    cases failed
    · exact completeRepair_repair _ _
    · exact failRepair_repair _
  | rowset repair failed =>
    cases failed
    · simp [Exchange.finish]
    · exact failRepair_repair _

theorem relay_mode (r : Reply) : BackMode (relay D r) := by
  obtain ⟨o, m⟩ := r
  cases m with
  | error e =>
    refine .relaying (o := o) ?_
    by_cases he : isConflict e.code = true <;> simp [relay, he]
  | ready st => exact .readying
  | _ => exact .relaying (o := o) (by simp [relay])

theorem pumpBackend_mode (r : Reply) : BackMode (pumpBackend r) := by
  unfold pumpBackend
  split
  · exact .reading ‹_›
  · exact .offering

theorem mem_pumpBackend {r : Reply} {a : Act} (h : a ∈ pumpBackend r) :
    a = .endExchange ∨ a = .consumeHidden r := by
  unfold pumpBackend at h
  split at h <;> simp_all

theorem exec_relay {o : Origin} {a : Act} (h : RelayCode o a) :
    ∀ b ∈ (a.exec D now jobID s).next, RelayCode o b := by
  cases a with
  | markJobDescribed o' =>
    obtain rfl : o' = o := h
    dsimp only [Act.exec]
    (repeat' split) <;> simp
  | readInTxn o' e =>
    obtain ⟨rfl, h⟩ := h
    simpa using h
  | occIntercept o' e inTxn =>
    obtain ⟨rfl, h⟩ := h
    dsimp only [Act.exec]
    split <;> simp
  | noteTxStatus st =>
    dsimp only [Act.exec]
    split <;> simp
  | rewriteCommandTag o' tag =>
    obtain rfl : o' = o := h
    dsimp only [Act.exec]
    split <;> simp
  | claimJob o' tag =>
    obtain rfl : o' = o := h
    dsimp only [Act.exec]
    split
    · simp
    · split
      · simp
      · dsimp only
        split <;> simp
  | _ => first | exact h.elim | simp

theorem exec_repair {a : Act} (h : RepairAct a) :
    ∀ b ∈ (a.exec D now jobID s).next, RepairAct b := by
  cases h with
  | code h =>
    cases a with
    | beginFailure n f =>
      cases h
      simp only [Act.exec, List.mem_cons, List.not_mem_nil, or_false, forall_eq_or_imp, forall_eq]
      exact ⟨.code trivial, .abort⟩
    | setHidden x ms =>
      simp only [Act.exec, List.mem_cons, List.not_mem_nil, or_false, forall_eq_or_imp, forall_eq]
      exact ⟨.code trivial, .exchange h.1 h.2⟩
    | _ => first | exact h.elim | simp
  | _ => simp

theorem exec_mode {a : Act} {rest : List Act} (h : BackMode (a :: rest)) :
    BackMode ((a.exec D now jobID s).next ++ rest) := by
  cases h with
  | reading => exact .offering
  | @offering r =>
    dsimp only [Act.exec]
    split
    · exact .checking
    · split
      · exact .ending
      · dsimp only
        split
        · exact .relaying (o := r.origin) (by simp)
        · exact .relaying (o := r.origin) (by simp)
  | @checking r =>
    dsimp only [Act.exec]
    split
    · dsimp only
      split
      · exact .failing
      · exact .relaying (o := r.origin) (by simp)
    · split
      · simpa using relay_mode r
      · rename_i h
        exact .pending (by simpa using h)
  | @pending r =>
    dsimp only [Act.exec]
    split
    · exact .relaying (o := r.origin) (by simp)
    · simpa using relay_mode r
  | failing =>
    dsimp only [Act.exec]
    split
    · split
      · exact .failed
      · exact .repairing (by simp)
    · exact .repairing (by simp)
  | failed => exact .repairing (by simp)
  | ending => simpa using .repairing fun b hb => .code (finish_repair _ b hb)
  | readying => exact .starting
  | @starting o st =>
    dsimp only [Act.exec]
    split
    · exact .restoring
    · exact .relaying (o := o) (by simp)
  | restoring =>
    refine .repairing fun b hb => .code ?_
    dsimp only [Act.exec] at hb
    simp only [List.append_nil, List.mem_singleton] at hb
    subst hb
    refine ⟨by simp [Exchange.purpose], ?_⟩
    split <;> exact closing_query _
  | @relaying o _ h =>
    refine .relaying (o := o) fun b hb => ?_
    rcases List.mem_append.1 hb with hb | hb
    · exact exec_relay (h a (by simp)) b hb
    · exact h b (by simp [hb])
  | repairing h =>
    refine .repairing fun b hb => ?_
    rcases List.mem_append.1 hb with hb | hb
    · exact exec_repair (h a (by simp)) b hb
    · exact h b (by simp [hb])

end Backend

section Frames

variable {D : Dialect} {s : Session} {now : Nat} {jobID : String}

def Quiet (s : Session) (e : Effect) : Prop :=
  ∃ statements next, e = { sess := { s with statements }, next }

theorem forwardAsyncJob_quiet (n : Nat) (m : Frontend) (rewritten : String) (statement : Nat) :
    Quiet s (forwardAsyncJob D jobID s n m rewritten statement) := by
  unfold forwardAsyncJob runAsyncJob
  split <;> (try split) <;> exact ⟨_, _, rfl⟩

theorem handleQuery_quiet (n : Nat) (sql : String) : Quiet s (handleQuery D jobID s n sql) := by
  unfold handleQuery
  split
  · split
    · exact ⟨_, _, rfl⟩
    · exact forwardAsyncJob_quiet ..
  · split <;> split <;> exact ⟨_, _, rfl⟩

theorem handleParse_quiet (n : Nat) (name sql : String) :
    Quiet s (handleParse D jobID s n name sql) := by
  unfold handleParse
  split
  · split
    · exact ⟨_, _, rfl⟩
    · exact forwardAsyncJob_quiet ..
  · dsimp only
    split
    · split
      · split <;> exact ⟨_, _, rfl⟩
      · exact ⟨_, _, rfl⟩
    · split
      · exact ⟨_, _, rfl⟩
      · exact ⟨_, _, rfl⟩
      · split <;> exact ⟨_, _, rfl⟩

theorem exec_aborted_quiet (n : Nat) (m : Frontend) :
    Quiet s ((Act.aborted n m).exec D now jobID s) := by
  dsimp only [Act.exec]
  split
  · exact handleQuery_quiet ..
  · exact handleParse_quiet ..
  · split
    · unfold handleBind
      split
      · split <;> exact ⟨_, _, rfl⟩
      · exact ⟨_, _, rfl⟩
    · exact ⟨_, _, rfl⟩
  · exact ⟨_, _, rfl⟩

theorem exec_droppingUntilSync_quiet (n : Nat) (m : Frontend) :
    Quiet s ((Act.droppingUntilSync n m).exec D now jobID s) := by
  dsimp only [Act.exec]
  split
  · exact ⟨_, _, rfl⟩
  · unfold dispatch
    split <;> (try split) <;> exact ⟨_, _, rfl⟩

theorem exec_pendingInjected {a : Act} (hs : s.PendingInjected)
    (ha : ∀ f, a = .deferFailure f → Injected 2 f) :
    (a.exec D now jobID s).sess.PendingInjected := by
  cases a with
  | aborted n m => obtain ⟨_, _, h⟩ := exec_aborted_quiet n m; rw [h]; exact hs
  | droppingUntilSync n m => obtain ⟨_, _, h⟩ := exec_droppingUntilSync_quiet n m; rw [h]; exact hs
  | deferFailure f => simpa [Session.PendingInjected] using ha f rfl
  | handleSync n => simp [Session.PendingInjected]
  | _ =>
    dsimp only [Act.exec]
    (repeat' split) <;> exact hs

theorem exec_up {a : Act} (ha : ∀ o ms, a ≠ .writeUpstream o ms) :
    (a.exec D now jobID s).up = [] := by
  cases a with
  | writeUpstream o ms => exact absurd rfl (ha o ms)
  | aborted n m => obtain ⟨_, _, h⟩ := exec_aborted_quiet n m; rw [h]
  | droppingUntilSync n m => obtain ⟨_, _, h⟩ := exec_droppingUntilSync_quiet n m; rw [h]
  | _ => dsimp only [Act.exec] <;> (repeat' split) <;> rfl

end Frames

section Invariant

variable {U : Upstream} {D : Dialect}

structure Threads (w : World U) : Prop where
  read_le : w.read ≤ w.sent.length
  inbox : w.sent.drop w.read = w.inbox
  front : w.front ≠ [] → ∃ m, 0 < w.read ∧ w.sent[w.read - 1]? = some m ∧ ∀ a ∈ w.front, FrontAct
    (w.read - 1) m a
  back : BackMode w.back
  pending : w.sess.PendingInjected

theorem Threads.start : Threads (World.start D U) where
  read_le := Nat.le_refl _
  inbox := rfl
  front h := absurd rfl h
  back := .repairing (by simp [World.start])
  pending := by simp [Session.PendingInjected, World.start, Session.new]

theorem Threads.moves {l : Label U} {w w' : World U} (h : Threads w) (hm : Moves D l w w') :
    Threads w' := by
  have hle := h.read_le
  cases hm with
  | send =>
    refine ⟨by simpa using Nat.le_succ_of_le hle, ?_, fun hf => ?_, h.back, h.pending⟩
    · rw [List.drop_append_of_le_length hle, h.inbox]
    · obtain ⟨m, hpos, hm, hall⟩ := h.front hf
      have hlt : w.read - 1 < w.sent.length := by omega
      exact ⟨m, hpos, (List.getElem?_append_left hlt).trans hm, hall⟩
  | @readClient _ m rest hf hi hc =>
    have hlt : w.read < w.sent.length := by
      by_contra hge
      have := h.inbox
      rw [List.drop_of_length_le (by omega), hi] at this
      cases this
    have hdrop : w.sent[w.read] :: w.sent.drop (w.read + 1) = m :: rest := by
      rw [← List.drop_eq_getElem_cons hlt, h.inbox, hi]
    obtain ⟨hhead, htail⟩ := List.cons.inj hdrop
    refine ⟨hlt, htail, fun _ =>
      ⟨m, Nat.succ_pos _, ?_, fun a ha => .code (pumpFrontend_front a ha)⟩, h.back, h.pending⟩
    simp [List.getElem?_eq_getElem hlt, hhead]
  | @front _ now jobID a rest hf =>
    obtain ⟨m, hpos, hm, hall⟩ := h.front (by simp [hf])
    have ha : FrontAct (w.read - 1) m a := hall a (by simp [hf])
    refine ⟨hle, h.inbox, fun _ => ⟨m, hpos, hm, fun b hb => ?_⟩, h.back,
      exec_pendingInjected h.pending fun f hf => ?_⟩
    · rcases List.mem_append.1 hb with hb | hb
      · exact exec_front h.pending ha b hb
      · exact hall b (by simp [hf, hb])
    · subst hf
      cases ha with
      | code ha => exact ha.2
  | readUpstream hb hu hc => exact ⟨hle, h.inbox, h.front, pumpBackend_mode _, h.pending⟩
  | @back _ a rest hb =>
    have ha : BackMode (a :: rest) := hb ▸ h.back
    refine ⟨hle, h.inbox, h.front, exec_mode ha, exec_pendingInjected h.pending fun f hf => ?_⟩
    subst hf
    cases ha with
    | relaying ha => exact (ha _ List.mem_cons_self).elim
    | repairing ha => cases ha _ List.mem_cons_self with | code ha => exact ha.elim
  | answer hq => exact ⟨hle, h.inbox, h.front, h.back, h.pending⟩

theorem Threads.head {w : World U} {a : Act} {rest : List Act} (h : Threads w)
    (hf : w.front = a :: rest) : ∃ m, w.sent[w.read - 1]? = some m ∧ FrontAct (w.read - 1) m a := by
  obtain ⟨m, -, hm, hall⟩ := h.front (by simp [hf])
  exact ⟨m, hm, hall a (by simp [hf])⟩

theorem threads {ok : Label U → World U → Prop} {w : World U} (hw : Reach (system D U) ok w) :
    Threads w :=
  hw.invariant Threads.start fun _ _ _ h _ hs => h.moves (moves_of_step hs)

end Invariant

end DsqlEmulator.Proxy
