import DsqlEmulator.Proxy.Exchanges
import Mathlib.Algebra.Order.BigOperators.Group.List

/-! How much the emulator may send upstream for itself.  Whatever the upstream answers, each
message of the client's leads to four exchanges at most: a savepoint, and the restoring, the
shadow and the abort of a repair.  What the session keeps for later is paid for when it is
kept. -/

namespace DsqlEmulator.Proxy

open Wire Occ Txn Runs Line

variable {U : Upstream} {D : Dialect}

def Exchange.quota : Exchange → Nat
  | .savepoint _ => 0
  | .restore _ _ => 2
  | .count _ _ _ => 1
  | .rowset _ _ => 1

@[simp] def Act.quota : Act → Nat
  | .writeUpstream (.client _) _ => 0
  | .writeUpstream _ ms => ms.countP (·.drawsReady)
  | .beginFailure _ _ => 1
  | .setHidden x _ => 1 + x.quota
  | .droppingUntilSync _ _ => 4
  | .aborted _ _ => 4
  | .admitKinds _ _ _ => 4
  | .admitAsync _ _ _ _ => 1
  | .occAdjudicated _ _ _ => 1
  | .occCommitConflict _ _ _ => 1
  | .savepointReady _ => 1
  | .establishSavepoint => 1
  | .setInFlight _ (some _) _ => 3
  | .deferFailure _ => 1
  | .clearHidden h => h.exchange.quota
  | .chooseRestore _ => 3
  | _ => 0

def quota (l : List Act) : Nat := (l.map Act.quota).sum

@[simp] theorem quota_nil : quota [] = 0 := rfl

@[simp] theorem quota_cons (a : Act) (l : List Act) : quota (a :: l) = a.quota + quota l := by
  simp [quota]

@[simp] theorem quota_append (l l' : List Act) : quota (l ++ l') = quota l + quota l' := by
  simp [quota]

def kept {α : Type} (k : Nat) (o : Option α) : Nat := if o.isSome then k else 0

@[simp] theorem kept_none {α : Type} (k : Nat) : kept k (none : Option α) = 0 := rfl

@[simp] theorem kept_some {α : Type} (k : Nat) (x : α) : kept k (some x) = k := rfl

theorem kept_le {α : Type} (k : Nat) (o : Option α) : kept k o ≤ k := by
  cases o <;> simp

def Session.quota (s : Session) : Nat :=
  kept 3 s.occInFlight + kept 3 s.occRepair + kept 1 s.pendingFailure

section Frontend

variable {s : Session} {n : Nat} {m : Frontend} {now : Nat} {jobID : String} {a : Act}

theorem forward_quota (n : Nat) (m : Frontend) : quota (forward n m) = 0 := by
  unfold forward
  split <;> rfl

theorem reject_quota {code message : String} {extended : Bool} :
    quota (reject s n code message extended) ≤ 1 := by
  cases extended <;> simp only [reject] <;> split <;> simp [sendError]

theorem rejectFailed_quota {extended : Bool} : quota (rejectFailed n extended) = 0 := by
  cases extended <;> rfl

theorem occFailure_quota {extended : Bool} : quota (occFailure D n extended) = 1 := by
  cases extended <;> rfl

theorem send_quota {info : StatementInfo} : quota (send D n m info) = 0 := by
  unfold send
  split
  · split
    · split <;> rfl
    · exact forward_quota n (.query _)
  · cases info.jobID <;> simp [forward_quota]

theorem admitted_quota {info : StatementInfo} : quota (admitted D s n m info) ≤ 4 := by
  have htables : quota (if info.tables = [] then [] else [.addOccTables info.tables]) = 0 := by
    split <;> rfl
  have harm {bind : Option Bind} : quota (armAdjudicator n info.intent bind) ≤ 4 := by
    cases info.intent <;> simp [armAdjudicator]
  rw [admitted, quota_append, htables, Nat.zero_add, quota_cons]
  (repeat' split) <;> simp [send_quota, harm]

theorem forwardAsyncJob_quota {rewritten : String} {statement : Nat} :
    quota (forwardAsyncJob D jobID s n m rewritten statement).next ≤ 1 := by
  have hrun (kinds : List Kind) : quota (runAsyncJob jobID s n m rewritten statement kinds).next ≤
      1 := by
    unfold runAsyncJob
    split <;> simp
  unfold forwardAsyncJob
  split
  · exact hrun _
  · exact reject_quota
  · exact hrun _

theorem handleQuery_quota {sql : String} : quota (handleQuery D jobID s n sql).next ≤ 4 := by
  unfold handleQuery
  split
  · split
    · simp [rejectFailed_quota]
    · exact forwardAsyncJob_quota.trans (by omega)
  · split
    · split
      · simp [endAborted, forward_quota]
      · simp [rejectFailed_quota]
    · split
      · simp [forward_quota]
      · exact reject_quota.trans (by omega)
      · simp

theorem handleParse_quota {name sql : String} :
    quota (handleParse D jobID s n name sql).next ≤ 4 := by
  unfold handleParse
  split
  · split
    · simp [rejectFailed_quota]
    · exact forwardAsyncJob_quota.trans (by omega)
  · dsimp only
    split
    · split
      · split
        · simp [forward_quota]
        · simp [rejectFailed_quota]
      · simp [rejectFailed_quota]
    · split
      · simp [forward_quota]
      · exact reject_quota.trans (by omega)
      · split
        · dsimp only
          split <;> simp
        · dsimp only
          rw [quota_append, forward_quota]
          split <;> simp

theorem handleBind_quota {b : Bind} {info : StatementInfo} :
    quota (handleBind s n b info).next ≤ 4 := by
  unfold handleBind
  split
  · split
    · simp [endAborted, forward_quota]
    · simp [rejectFailed_quota]
  · simp

theorem dispatch_quota : quota (dispatch s n m).next ≤ 4 := by
  unfold dispatch
  split
  · simp
  · simp
  · split
    · simp [forward_quota]
    · simp
  · simp [forward_quota]
  · simp [forward_quota]

theorem pumpFrontend_quota : quota (pumpFrontend n m) ≤ 4 := by
  unfold pumpFrontend
  split <;> simp

def ownExchanges (qs : List Request) : Nat :=
  qs.countP fun q => !q.origin.isClient && q.msg.drawsReady

@[simp] theorem ownExchanges_nil : ownExchanges [] = 0 := rfl

@[simp] theorem ownExchanges_append (qs qs' : List Request) :
    ownExchanges (qs ++ qs') = ownExchanges qs + ownExchanges qs' :=
  List.countP_append ..

theorem write_quota (o : Origin) (ms : List Frontend) :
    ownExchanges (ms.map (Request.mk o)) = (Act.writeUpstream o ms).quota := by
  cases o <;> simp [ownExchanges, List.countP_map, Function.comp_def, Origin.isClient]

@[simp] def Act.keeps : Act → Bool
  | .setInFlight _ _ _ | .resetOcc | .deferFailure _ | .handleSync _ | .noteTxStatus _
  | .occIntercept _ _ _ | .startRepair _ _ => true
  | _ => false

theorem exec_sess_quota (h : a.keeps = false) : (a.exec D now jobID s).sess.quota = s.quota := by
  cases a with
  | aborted n m => obtain ⟨_, _, h⟩ := exec_aborted_quiet n m; rw [h]; rfl
  | droppingUntilSync n m => obtain ⟨_, _, h⟩ := exec_droppingUntilSync_quiet n m; rw [h]; rfl
  | _ => first | (cases h; done) | (dsimp only [Act.exec] <;> (repeat' split) <;> rfl)

theorem frontCode_quota (h : FrontCode n m a) (hw : ∀ o ms, a ≠ .writeUpstream o ms) :
    (a.exec D now jobID s).sess.quota + quota (a.exec D now jobID s).next ≤ s.quota + a.quota := by
  cases hkeeps : a.keeps with
  | true =>
    cases a with
    | setInFlight k intent bind =>
      cases intent with
      | none =>
        change kept 3 none + kept 3 s.occRepair + kept 1 s.pendingFailure + 0 ≤ s.quota + 0
        rw [Session.quota, kept_none]
        omega
      | some i =>
        have hle := kept_le 3
          ((Act.setInFlight k (some i) bind).exec D now jobID s).sess.occInFlight
        change kept 3 ((Act.setInFlight k (some i) bind).exec D now jobID s).sess.occInFlight +
          kept 3 s.occRepair + kept 1 s.pendingFailure + 0 ≤ s.quota + 3
        rw [Session.quota]
        omega
    | resetOcc =>
      change kept 3 none + kept 3 none + kept 1 s.pendingFailure + 0 ≤ s.quota + 0
      rw [Session.quota, kept_none]
      omega
    | deferFailure f =>
      change kept 3 s.occInFlight + kept 3 s.occRepair + 1 + 0 ≤ s.quota + 1
      rw [Session.quota]
      omega
    | handleSync k =>
      dsimp only [Act.exec]
      rw [quota_append, forward_quota]
      cases hp : s.pendingFailure <;> simp [Session.quota, hp]
    | _ => first | exact h.elim | cases hkeeps
  | false =>
    rw [exec_sess_quota hkeeps]
    refine Nat.add_le_add_left ?_ _
    cases a with
    | writeUpstream o ms => exact absurd rfl (hw o ms)
    | droppingUntilSync k m' =>
      dsimp only [Act.exec]
      split
      · simp
      · rw [quota_append]
        exact dispatch_quota
    | aborted k m' =>
      dsimp only [Act.exec]
      split
      · exact handleQuery_quota
      · exact handleParse_quota
      · split
        · exact handleBind_quota
        · simp [forward_quota]
      · simp [forward_quota]
    | admitKinds k m' info =>
      dsimp only [Act.exec]
      split
      · exact reject_quota.trans (by simp)
      · exact admitted_quota
    | admitAsync k rewritten statement kinds =>
      dsimp only [Act.exec]
      split
      · exact reject_quota
      · simp
    | occAdjudicated k m' info =>
      dsimp only [Act.exec]
      (repeat' split) <;> simp [occFailure_quota, send_quota]
    | occCommitConflict k m' info =>
      dsimp only [Act.exec]
      split <;> simp [occFailure_quota, send_quota]
    | beginFailure k f =>
      obtain ⟨-, ⟨-, hf⟩ | ⟨-, hf⟩⟩ := h <;> rcases hf with rfl | rfl <;> exact Nat.le_refl 1
    | setHidden x ms => obtain ⟨rfl, rfl⟩ := h; exact Nat.le_refl 1
    | savepointReady bind => dsimp only [Act.exec]; split <;> simp
    | establishSavepoint => dsimp only [Act.exec]; split <;> simp [Exchange.quota]
    | countTxnStatement kinds => dsimp only [Act.exec]; split <;> simp
    | noteBatchState t => dsimp only [Act.exec]; (repeat' split) <;> simp
    | _ => first | exact h.elim | exact Nat.zero_le _ | cases hkeeps

theorem exec_front_quota (h : FrontAct n m a) :
    (a.exec D now jobID s).sess.quota + quota (a.exec D now jobID s).next +
    ownExchanges (a.exec D now jobID s).up ≤ s.quota + a.quota := by
  by_cases hw : ∃ o ms, a = .writeUpstream o ms
  · obtain ⟨o, ms, rfl⟩ := hw
    exact Nat.le_of_eq (congrArg (s.quota + ·) (write_quota o ms))
  · rw [exec_up fun o ms ha => hw ⟨o, ms, ha⟩, ownExchanges_nil, Nat.add_zero]
    cases h with
    | code h => exact frontCode_quota h fun o ms ha => hw ⟨o, ms, ha⟩
    | _ => exact absurd ⟨_, _, rfl⟩ hw

end Frontend

section Backend

variable {s : Session} {now : Nat} {jobID : String} {a : Act} {rest : List Act}

@[simp] def Act.clears : Act → Bool
  | .clearHidden _ => true
  | _ => false

def hiddenQuota (s : Session) (back : List Act) : Nat :=
  if back.any Act.clears then 0 else (s.hidden.map fun h => h.exchange.quota).getD 0

theorem Exchange.quota_note (x : Exchange) (m : Backend) : (x.note m).quota = x.quota := by
  cases x with
  | count repair rows failed => cases m <;> rfl
  | _ => rfl

theorem finish_quota (x : Exchange) : quota (x.finish D) ≤ x.quota := by
  have hshadow (repair : InFlight) : quota (runShadow D repair) ≤ 2 := by
    unfold runShadow runRowsetShadow runCountShadow
    split
    · simp [completeRepair]
    · split <;> split <;> simp [failRepair, Exchange.quota]
  cases x with
  | savepoint failed => cases failed <;> simp [Exchange.finish]
  | restore repair failed =>
    cases failed
    · exact hshadow repair
    · exact Nat.le_succ 1
  | count repair rows failed =>
    cases failed <;> simp [Exchange.finish, failRepair, completeRepair, Exchange.quota]
  | rowset repair failed => cases failed <;> simp [Exchange.finish, failRepair, Exchange.quota]

theorem finish_clears (x : Exchange) : (x.finish D).any Act.clears = false := by
  refine List.any_eq_false.2 fun b hb => ?_
  have hcode := finish_repair x b hb
  cases b <;> first | exact hcode.elim | simp

theorem relay_quota (r : Reply) : quota (relay D r) = 0 ∧ (relay D r).any Act.clears = false := by
  obtain ⟨o, m⟩ := r
  cases m with
  | error e => by_cases he : isConflict e.code = true <;> simp [relay, he]
  | _ => simp [relay]

theorem relayCode_quota {o : Origin} {l : List Act} (h : ∀ b ∈ l, RelayCode o b) :
    quota l = 0 ∧ l.any Act.clears = false := by
  constructor
  · refine List.sum_eq_zero fun k hk => ?_
    obtain ⟨b, hb, rfl⟩ := List.mem_map.1 hk
    have hcode := h b hb
    cases b <;> first | exact hcode.elim | rfl
  · refine List.any_eq_false.2 fun b hb => ?_
    have hcode := h b hb
    cases b <;> first | exact hcode.elim | simp

theorem hiddenQuota_of_clears {back : List Act} (h : back.any Act.clears = false) :
    hiddenQuota s back = (s.hidden.map fun h => h.exchange.quota).getD 0 := by
  rw [hiddenQuota, h]
  rfl

theorem hiddenQuota_le (s : Session) (back : List Act) :
    hiddenQuota s back ≤ (s.hidden.map fun h => h.exchange.quota).getD 0 := by
  rw [hiddenQuota]
  split
  · exact Nat.zero_le _
  · exact Nat.le_refl _

theorem exec_idle_quota {l : List Act} (hup : (a.exec D now jobID s).up = [])
    (hkeeps : a.keeps = false) (hhidden : (a.exec D now jobID s).sess.hidden = s.hidden)
    (ha : a.clears = false) (hl : l.any Act.clears = false) (hnext : quota l ≤ a.quota) :
    (a.exec D now jobID s).sess.quota + hiddenQuota (a.exec D now jobID s).sess (l ++ rest) + quota
      (l ++ rest) +
      ownExchanges (a.exec D now jobID s).up ≤ s.quota + hiddenQuota s (a :: rest) + quota
        (a :: rest) := by
  have hsame : hiddenQuota (a.exec D now jobID s).sess (l ++ rest) = hiddenQuota s (a :: rest) := by
    rw [hiddenQuota, hiddenQuota, hhidden, List.any_append, hl, List.any_cons, ha]
  rw [exec_sess_quota hkeeps, hsame, hup, quota_append, quota_cons, ownExchanges_nil]
  omega

theorem exec_back_quota (h : BackMode (a :: rest)) :
    (a.exec D now jobID s).sess.quota + hiddenQuota (a.exec D now jobID s).sess
      ((a.exec D now jobID s).next ++ rest) +
      quota ((a.exec D now jobID s).next ++ rest) + ownExchanges (a.exec D now jobID s).up ≤
      s.quota + hiddenQuota s (a :: rest) + quota (a :: rest) := by
  cases h with
  | reading => exact exec_idle_quota rfl rfl rfl rfl rfl (Nat.le_refl 0)
  | @offering r =>
    dsimp only [Act.exec]
    split
    next hnone => simp [hiddenQuota, hnone]
    next x hsome =>
      split
      · simp [hiddenQuota, hsome]
      · dsimp only
        rw [hiddenQuota_of_clears (by split <;> rfl), hiddenQuota_of_clears rfl, hsome]
        split <;> simp [Exchange.quota_note, Session.quota]
  | @checking r =>
    dsimp only [Act.exec]
    split
    · dsimp only
      split <;> simp [hiddenQuota]
    · split
      · simp [hiddenQuota, relay_quota]
      · simp [hiddenQuota]
  | @pending r =>
    dsimp only [Act.exec]
    split <;> simp [hiddenQuota, relay_quota]
  | failing =>
    dsimp only [Act.exec]
    (repeat' split) <;> simp [hiddenQuota, Session.quota]
  | failed => exact exec_idle_quota rfl rfl rfl rfl rfl (Nat.le_refl 0)
  | @ending x =>
    have hfinish : quota (x.exchange.finish D) ≤ x.exchange.quota := finish_quota _
    change s.quota + hiddenQuota { s with hidden := none } (x.exchange.finish D ++ []) +
      quota (x.exchange.finish D ++ []) + 0 ≤ s.quota + hiddenQuota s [.clearHidden x] +
        (x.exchange.quota + 0)
    rw [hiddenQuota_of_clears (by rw [List.append_nil, finish_clears]), quota_append, quota_nil,
      Option.map_none, Option.getD_none]
    omega
  | readying => exact exec_idle_quota rfl rfl rfl rfl rfl (Nat.le_refl 0)
  | @starting o st =>
    dsimp only [Act.exec]
    split
    next repair hsome => simp [hiddenQuota, Session.quota, hsome]; omega
    next => simp [hiddenQuota]
  | restoring =>
    exact exec_idle_quota rfl rfl rfl rfl rfl (Nat.le_refl 3)
  | @relaying o l hl =>
    have ha := hl a List.mem_cons_self
    obtain ⟨hnext, hclears⟩ :=
      relayCode_quota (exec_relay ha : ∀ b ∈ (a.exec D now jobID s).next, RelayCode o b)
    cases a with
    | occIntercept o' e inTxn =>
      dsimp only [Act.exec]
      split
      · simp [hiddenQuota, Session.quota]
      · simp [hiddenQuota]
    | noteTxStatus st =>
      dsimp only [Act.exec]
      split
      · simp [hiddenQuota, Session.quota]
      · simp [hiddenQuota]
    | _ =>
      first
      | exact ha.elim
      | exact exec_idle_quota (exec_up (by simp)) rfl (exec_hidden rfl) rfl hclears
          (hnext.trans_le (Nat.zero_le _))
  | repairing hl =>
    cases hl a List.mem_cons_self with
    | code ha =>
      cases a with
      | setHidden x ms =>
        have hle : hiddenQuota ((Act.setHidden x ms).exec D now jobID s).sess
            (((Act.setHidden x ms).exec D now jobID s).next ++ rest) ≤ x.quota := hiddenQuota_le _ _
        have hasks := closing_asks ha.2
        change s.quota + _ + (0 + (ms.countP (·.drawsReady) + quota rest)) + 0 ≤ s.quota + _ +
          (1 + x.quota + quota rest)
        omega
      | beginFailure k f =>
        obtain rfl : f = abortFailure 1 := ha
        exact exec_idle_quota rfl rfl rfl rfl rfl (Nat.le_refl 1)
      | _ => first | exact ha.elim | exact exec_idle_quota rfl rfl rfl rfl rfl (Nat.zero_le _)
    | @exchange p k ms hp hms =>
      have hwrite := write_quota (.hidden p k) ms
      change s.quota + hiddenQuota s rest + quota rest + ownExchanges
        (ms.map (Request.mk (.hidden p k))) ≤
        s.quota + hiddenQuota s rest + ((Act.writeUpstream (.hidden p k) ms).quota + quota rest)
      omega
    | @abort k =>
      have hwrite := write_quota (.failure k) [abortTransactionQuery]
      change s.quota + hiddenQuota s rest + quota rest + ownExchanges
        ([abortTransactionQuery].map (Request.mk (.failure k))) ≤ s.quota + hiddenQuota s rest +
          ((Act.writeUpstream (.failure k) [abortTransactionQuery]).quota + quota rest)
      omega

end Backend

section Worlds

variable {w w' : World U}

def World.traffic (w : World U) : Nat :=
  ownExchanges w.written + quota w.front + quota w.back + w.sess.quota + hiddenQuota w.sess w.back

theorem exec_front_hidden {now : Nat} {jobID : String} {s : Session} {n : Nat} {m : Frontend}
    {a : Act} (h : FrontAct n m a) (back : List Act) :
    hiddenQuota (a.exec D now jobID s).sess back ≤ hiddenQuota s back := by
  by_cases hset : a.setsHidden = true
  · cases h with
    | code h =>
      cases a with
      | setHidden x ms =>
        obtain ⟨rfl, -⟩ := h
        refine (hiddenQuota_le _ _).trans ?_
        exact Nat.zero_le _
      | consumeHidden r => exact h.elim
      | clearHidden x => exact h.elim
      | _ => cases hset
    | _ => cases hset
  · rw [hiddenQuota, exec_hidden (Bool.eq_false_iff.2 hset), hiddenQuota]

theorem traffic_moves {l : Label U} (h : w.traffic ≤ 4 * w.read) (ht : Threads w)
    (hm : Moves D l w w') : w'.traffic ≤ 4 * w'.read := by
  unfold World.traffic at h ⊢
  cases hm with
  | @readClient _ m _ hf _ _ =>
    have hpump : quota (pumpFrontend w.read m) ≤ 4 := pumpFrontend_quota
    rw [hf] at h
    change ownExchanges w.written + quota (pumpFrontend w.read m) + quota w.back + w.sess.quota +
      hiddenQuota w.sess w.back ≤ 4 * (w.read + 1)
    rw [quota_nil] at h
    omega
  | @front _ now jobID a rest hf =>
    obtain ⟨m, -, ha⟩ := ht.head hf
    have hquota : (a.exec D now jobID w.sess).sess.quota + quota (a.exec D now jobID w.sess).next +
        ownExchanges (a.exec D now jobID w.sess).up ≤ w.sess.quota + a.quota := exec_front_quota ha
    have hhidden : hiddenQuota (a.exec D now jobID w.sess).sess w.back ≤
        hiddenQuota w.sess w.back :=
      exec_front_hidden ha w.back
    rw [hf, quota_cons] at h
    change ownExchanges (w.written ++ (a.exec D now jobID w.sess).up) + quota
      ((a.exec D now jobID w.sess).next ++ rest) +
      quota w.back + (a.exec D now jobID w.sess).sess.quota + hiddenQuota
        (a.exec D now jobID w.sess).sess w.back ≤ 4 * w.read
    rw [ownExchanges_append, quota_append]
    omega
  | @readUpstream _ r rs hb _ _ =>
    have hpump : quota (pumpBackend r) = 0 ∧ (pumpBackend r).any Act.clears = false := by
      unfold pumpBackend
      split <;> exact ⟨rfl, rfl⟩
    rw [hb] at h
    change ownExchanges w.written + quota w.front + quota (pumpBackend r) + w.sess.quota +
      hiddenQuota w.sess (pumpBackend r) ≤ 4 * w.read
    rw [hpump.1, hiddenQuota_of_clears hpump.2]
    rwa [hiddenQuota_of_clears rfl] at h
  | @back _ a rest hb =>
    have hmode : BackMode (a :: rest) := hb ▸ ht.back
    have hquota : (a.exec D 0 "" w.sess).sess.quota +
        hiddenQuota (a.exec D 0 "" w.sess).sess ((a.exec D 0 "" w.sess).next ++ rest) +
        quota ((a.exec D 0 "" w.sess).next ++ rest) + ownExchanges (a.exec D 0 "" w.sess).up ≤
        w.sess.quota + hiddenQuota w.sess (a :: rest) + quota (a :: rest) := exec_back_quota hmode
    rw [hb] at h
    change ownExchanges (w.written ++ (a.exec D 0 "" w.sess).up) + quota w.front +
      quota ((a.exec D 0 "" w.sess).next ++ rest) + (a.exec D 0 "" w.sess).sess.quota +
      hiddenQuota (a.exec D 0 "" w.sess).sess ((a.exec D 0 "" w.sess).next ++ rest) ≤ 4 * w.read
    rw [ownExchanges_append]
    omega
  | _ => exact h

/-- The upstream is sent at most four exchanges of the emulator's for each message of the
client's that is read, whatever it answers. -/
theorem own_exchanges_bounded (hw : Reachable (system D U) w) :
    ownExchanges w.written ≤ 4 * w.read := by
  have htraffic : w.traffic ≤ 4 * w.read := by
    induction hw with
    | init => exact Nat.le_refl 0
    | step hw _ hs ih => exact traffic_moves ih (threads hw) (moves_of_step hs)
  unfold World.traffic at htraffic
  omega

theorem own_exchanges_bounded_insert :
    let w := (system (.sample []) .any).dest (fun _ _ => True) lockStepInsert
    ownExchanges w.written = 1 ∧ ownExchanges w.written ≤ 4 * w.read :=
  ⟨by decide +kernel, own_exchanges_bounded (Reach.dest _ _)⟩

end Worlds

end DsqlEmulator.Proxy
