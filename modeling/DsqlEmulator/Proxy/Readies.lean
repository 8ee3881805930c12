import DsqlEmulator.Proxy.Deferred
import Mathlib.Algebra.Ring.Nat

/-! Where each `ReadyForQuery` the client is owed is: with a message not handled
yet, in the hands of a pump, with the exchange or the failure the session runs, or
on its way back from the upstream.  No step of a timely run makes one or loses one,
but for a `Query` that is dropped behind a refused batch. -/

namespace DsqlEmulator.Proxy

open Wire Occ Txn Runs Line

variable {U : Upstream} {D : Dialect}

@[simp] theorem Origin.isClient_client (n : Nat) : (Origin.client n).isClient = true := rfl

theorem Origin.IsHidden.isClient {o : Origin} (h : o.IsHidden) : o.isClient = false := by
  obtain ⟨p, k, rfl⟩ := h
  rfl

theorem Origin.IsFailure.isClient {o : Origin} (h : o.IsFailure) : o.isClient = false := by
  obtain ⟨k, rfl⟩ := h
  rfl

theorem Origin.isClient_of_not {o : Origin} (hh : ¬ o.IsHidden) (hf : ¬ o.IsFailure) :
    o.isClient = true := by
  cases o with
  | client n => rfl
  | hidden p k => exact absurd ⟨p, k, rfl⟩ hh
  | failure k => exact absurd ⟨k, rfl⟩ hf

@[simp] def Act.owes : Act → Nat
  | .writeUpstream (.client _) ms => ms.countP (·.drawsReady)
  | .writeClient d => d.msg.isReady.toNat
  | .beginFailure _ f => if f.swallow ≤ 1 then 1 else 0
  | .setHidden x _ => if x.purpose = .savepoint then 0 else 1
  | .droppingUntilSync _ m => m.drawsReady.toNat
  | .handleSync _ => 1
  | .aborted _ m => m.drawsReady.toNat
  | .admitKinds _ m _ => m.drawsReady.toNat
  | .admitAsync _ _ _ _ => 1
  | .occAdjudicated _ m _ => m.drawsReady.toNat
  | .occCommitConflict _ m _ => m.drawsReady.toNat
  | .getStateTxStatus _ => 1
  | .startRepair _ _ => 1
  | .chooseRestore _ => 1
  | _ => 0

def owes (l : List Act) : Nat := (l.map Act.owes).sum

@[simp] theorem owes_nil : owes [] = 0 := rfl

@[simp] theorem owes_cons (a : Act) (l : List Act) : owes (a :: l) = a.owes + owes l := by
  simp [owes]

@[simp] theorem owes_append (l l' : List Act) : owes (l ++ l') = owes l + owes l' := by simp [owes]

theorem owes_eq_zero {l : List Act} (h : ∀ a ∈ l, a.owes = 0) : owes l = 0 := by
  induction l with
  | nil => rfl
  | cons a l ih =>
    rw [owes_cons, h a List.mem_cons_self, ih fun b hb => h b (List.mem_cons_of_mem a hb)]

def Effect.owes (e : Effect) : Nat :=
  Proxy.owes e.next + closings Origin.isClient (e.up.map Request.item) + e.client.countP
    (·.msg.isReady)

section Frontend

variable {s : Session} {n : Nat} {m : Frontend} {now : Nat} {jobID : String} {a : Act}

theorem forward_owes (n : Nat) (m : Frontend) : owes (forward n m) = m.drawsReady.toNat := by
  unfold forward
  cases h : m.drawsReady <;> split <;> simp [h]

theorem reject_owes {code message : String} {extended : Bool} :
    owes (reject s n code message extended) = (!extended).toNat := by
  cases extended <;> simp only [reject] <;> split <;>
    simp [sendError, abortFailure, Backend.isReady]

theorem rejectFailed_owes {extended : Bool} :
    owes (rejectFailed n extended) = (!extended).toNat := by
  cases extended <;> simp [rejectFailed, sendError, Backend.isReady]

theorem occFailure_owes {extended : Bool} : owes (occFailure D n extended) = (!extended).toNat := by
  cases extended <;> simp [occFailure, sendError, conflictFailure, Backend.isReady]

theorem send_owes {info : StatementInfo} : owes (send D n m info) = m.drawsReady.toNat := by
  unfold send
  split
  · split
    · split <;> simp [Frontend.drawsReady]
    · exact forward_owes _ _
  · cases info.jobID <;> simp [forward_owes]

theorem admitted_owes {info : StatementInfo} :
    owes (admitted D s n m info) = m.drawsReady.toNat := by
  have htables : owes (if info.tables = [] then [] else [.addOccTables info.tables]) = 0 := by
    split <;> rfl
  have harm {intent : Option Intent} {bind : Option Bind} : owes
      (armAdjudicator n intent bind) = 0 := by
    cases intent <;> rfl
  rw [admitted, owes_append, htables, Nat.zero_add, owes_cons]
  split
  · split
    · simp
    · simp [send_owes]
  · split
    · simp [harm, send_owes]
    · simp [send_owes]

theorem forwardAsyncJob_owes {rewritten : String} {statement : Nat}
    (hm : (∃ sql, m = .query sql) ∨ ∃ name sql, m = .parse name sql) :
    owes (forwardAsyncJob D jobID s n m rewritten statement).next = m.drawsReady.toNat := by
  rcases hm with ⟨sql, rfl⟩ | ⟨name, sql, rfl⟩ <;> unfold forwardAsyncJob <;> split <;>
    first
      | exact reject_owes
      | simp [runAsyncJob, Frontend.drawsReady]

theorem handleQuery_owes {sql : String} : owes (handleQuery D jobID s n sql).next = 1 := by
  unfold handleQuery
  split
  · split
    · exact rejectFailed_owes
    · exact forwardAsyncJob_owes (.inl ⟨sql, rfl⟩)
  · split
    · split
      · simp [endAborted, forward_owes, Frontend.drawsReady]
      · exact rejectFailed_owes
    · split
      · exact forward_owes n (.query sql)
      · exact reject_owes
      · simp [Frontend.drawsReady]

theorem handleParse_owes {name sql : String} :
    owes (handleParse D jobID s n name sql).next = 0 := by
  unfold handleParse
  split
  · split
    · exact rejectFailed_owes
    · exact forwardAsyncJob_owes (.inr ⟨name, sql, rfl⟩)
  · dsimp only
    split
    · split
      · split
        · exact forward_owes n (.parse name sql)
        · exact rejectFailed_owes
      · exact rejectFailed_owes
    · split
      · exact forward_owes n (.parse name sql)
      · exact reject_owes
      · split
        · split <;> simp [Frontend.drawsReady]
        · dsimp only
          rw [owes_append, forward_owes]
          split <;> rfl

theorem handleBind_owes {b : Bind} {info : StatementInfo} :
    owes (handleBind s n b info).next = 0 := by
  unfold handleBind
  split
  · split
    · simp [endAborted, forward_owes, Frontend.drawsReady]
    · exact rejectFailed_owes
  · rfl

theorem dispatch_owes : owes (dispatch s n m).next = m.drawsReady.toNat := by
  unfold dispatch
  split
  · rfl
  · rfl
  · split
    · exact forward_owes n (.bind _)
    · rfl
  · exact forward_owes n (.close true _)
  · exact forward_owes n m

theorem pumpFrontend_owes : owes (pumpFrontend n m) = m.drawsReady.toNat := by
  unfold pumpFrontend
  split <;> simp [Frontend.drawsReady]

theorem drawsReady_of_tag (hm : m.tag = .query ∨ m.tag = .bind) : m.drawsReady = !isBind m := by
  rcases hm with hm | hm <;> simp [Frontend.drawsReady, isBind, hm]

theorem exec_aborted_owes (hm : m.tag = .query ∨ m.tag = .parse ∨ m.tag = .bind) :
    owes ((Act.aborted n m).exec D now jobID s).next = m.drawsReady.toNat := by
  dsimp only [Act.exec]
  split
  · exact handleQuery_owes
  · exact handleParse_owes
  · split
    · exact handleBind_owes
    · exact forward_owes n (.bind _)
  · exact forward_owes n m

theorem exec_frontCode_owes (hs : s.PendingInjected) (h : FrontCode n m a)
    (hx : ∀ x ms, a ≠ .setHidden x ms) (hf : ∀ k f, a ≠ .beginFailure k f)
    (hd : ∀ k m', a = .droppingUntilSync k m' → s.skipSync = true → m'.drawsReady = false) :
    (a.exec D now jobID s).owes = a.owes := by
  cases a with
  | beginFailure k f => exact absurd rfl (hf k f)
  | setHidden x ms => exact absurd rfl (hx x ms)
  | writeUpstream o ms =>
    cases o with
    | client k =>
      have hreq : (Request.item ∘ Request.mk (.client k)) = fun m' =>
        (Origin.client k, m'.drawsReady) := rfl
      simp [Effect.owes, closings, List.countP_map, hreq, Function.comp_def]
    | hidden p k => exact h.elim
    | failure k => exact h.elim
  | droppingUntilSync k m' =>
    have hnext : owes ((Act.droppingUntilSync k m').exec D now jobID s).next =
        m'.drawsReady.toNat := by
      dsimp only [Act.exec]
      split
      · rw [hd k m' rfl ‹_›]
        rfl
      · simp [dispatch_owes]
    obtain ⟨_, _, heq⟩ : Quiet s ((Act.droppingUntilSync k m').exec D now jobID s) :=
      exec_droppingUntilSync_quiet k m'
    rw [heq] at hnext ⊢
    exact hnext
  | aborted k m' =>
    obtain ⟨rfl, rfl, hm⟩ := h
    have hnext : owes ((Act.aborted k m').exec D now jobID s).next = m'.drawsReady.toNat :=
      exec_aborted_owes hm
    obtain ⟨_, _, heq⟩ : Quiet s ((Act.aborted k m').exec D now jobID s) := exec_aborted_quiet k m'
    rw [heq] at hnext ⊢
    exact hnext
  | handleSync k =>
    have hpending : owes (s.pendingFailure.map (Act.beginFailure k)).toList = 0 := by
      cases hp : s.pendingFailure with
      | none => rfl
      | some f => rcases hs f hp with rfl | rfl <;> rfl
    simp [Effect.owes, forward_owes, hpending, Frontend.drawsReady]
  | admitKinds k m' info =>
    obtain ⟨rfl, rfl, hm⟩ := h
    dsimp only [Act.exec]
    split
    · simp [Effect.owes, reject_owes, drawsReady_of_tag hm]
    · simp [Effect.owes, admitted_owes]
  | admitAsync k rewritten statement kinds =>
    dsimp only [Act.exec]
    split
    · simp [Effect.owes, reject_owes]
    · simp [Effect.owes, Frontend.drawsReady]
  | occAdjudicated k m' info =>
    obtain ⟨rfl, rfl, hm⟩ := h
    dsimp only [Act.exec]
    split
    · simp [Effect.owes, occFailure_owes, drawsReady_of_tag hm]
    · split
      · simp [Effect.owes, send_owes]
      · simp [Effect.owes]
  | occCommitConflict k m' info =>
    obtain ⟨rfl, rfl, hm⟩ := h
    dsimp only [Act.exec]
    split
    · simp [Effect.owes, occFailure_owes, drawsReady_of_tag hm]
    · simp [Effect.owes, send_owes]
  | writeClient d => cases hd : d.msg.isReady <;> simp [Effect.owes, hd]
  | savepointReady bind => dsimp only [Act.exec]; split <;> rfl
  | establishSavepoint => dsimp only [Act.exec]; split <;> rfl
  | countTxnStatement kinds => dsimp only [Act.exec]; split <;> rfl
  | noteBatchState t => dsimp only [Act.exec]; (repeat' split) <;> rfl
  | _ => first | exact h.elim | rfl

end Frontend

section Backend

variable {s : Session} {now : Nat} {jobID : String} {a : Act}

theorem failRepair_owes (n : Nat) : owes (failRepair D n) = 1 := rfl

theorem completeRepair_owes (repair : InFlight) (rows : Int) :
    owes (completeRepair repair rows) = 1 := rfl

theorem runShadow_owes (repair : InFlight) : owes (runShadow D repair) = 1 := by
  unfold runShadow runRowsetShadow runCountShadow
  split
  · exact completeRepair_owes _ _
  · split <;> split <;> first | exact failRepair_owes _ | rfl

theorem finish_owes (x : Exchange) :
    owes (x.finish D) = if x.purpose = .savepoint then 0 else 1 := by
  cases x with
  | savepoint failed => cases failed <;> rfl
  | restore repair failed =>
    cases failed
    · exact runShadow_owes repair
    · rfl
  | count repair rows failed => cases failed <;> rfl
  | rowset repair failed => cases failed <;> rfl

theorem relay_owes (r : Reply) : owes (relay D r) = r.msg.isReady.toNat := by
  obtain ⟨o, m⟩ := r
  cases m with
  | error e => by_cases he : isConflict e.code = true <;> simp [relay, he, Backend.isReady]
  | parameterStatus name value =>
    simp only [relay]
    split <;> rfl
  | _ => simp [relay, Backend.isReady]

theorem closings_own {o : Origin} (ho : o.isClient = false) (ms : List Frontend) :
    closings Origin.isClient ((ms.map (Request.mk o)).map Request.item) = 0 := by
  simp [closings, Request.item, ho]

theorem exec_relay_owes {o : Origin} (h : RelayCode o a) :
    (a.exec D now jobID s).owes = a.owes := by
  cases a with
  | writeClient d => cases hd : d.msg.isReady <;> simp [Effect.owes, hd]
  | markJobDescribed o' => dsimp only [Act.exec]; (repeat' split) <;> rfl
  | occIntercept o' e inTxn => dsimp only [Act.exec]; split <;> rfl
  | noteTxStatus st => dsimp only [Act.exec]; split <;> rfl
  | rewriteCommandTag o' tag => dsimp only [Act.exec]; split <;> rfl
  | claimJob o' tag =>
    dsimp only [Act.exec]
    split
    · rfl
    · split
      · rfl
      · simp only [Effect.owes]
        split <;> rfl
  | _ => first | exact h.elim | rfl

theorem exec_mode_owes {rest : List Act} (h : BackMode (a :: rest)) (hc : ¬ a.Claims)
    (hs : a.setsHidden = false) : (a.exec D now jobID s).owes = a.owes := by
  cases h with
  | offering => cases hs
  | ending => cases hs
  | checking => exact absurd (.inr (.inl ⟨_, rfl⟩)) hc
  | failing => exact absurd (.inr (.inr (.inl rfl))) hc
  | reading => rfl
  | @pending r hr =>
    dsimp only [Act.exec]
    split
    · rfl
    · simp [Effect.owes, relay_owes, hr]
  | failed => rfl
  | readying => rfl
  | starting =>
    dsimp only [Act.exec]
    split <;> rfl
  | restoring => rfl
  | relaying h => exact exec_relay_owes (h a (by simp))
  | repairing h =>
    cases h a (by simp) with
    | code h =>
      cases a with
      | setHidden x ms => cases hs
      | beginFailure n f => exact absurd (.inr (.inr (.inr ⟨n, f, rfl⟩))) hc
      | writeClient d => cases hd : d.msg.isReady <;> simp [Effect.owes, hd]
      | _ => first | exact h.elim | rfl
    | @exchange p k ms => simpa [Effect.owes] using closings_own (o := .hidden p k) rfl ms
    | abort => rfl

end Backend

section Balance

variable {w : World U} {rest : List Act} {e : Effect} {a : Act}

def Session.hiddenOwes (s : Session) : Nat :=
  match s.hidden with
  | some h => if h.exchange.purpose = .savepoint then 0 else 1
  | none => 0

def World.failureOwes (w : World U) : Nat :=
  match w.sess.failure with
  | some a => if a.failure.swallow ≤ w.sess.failureRFQs + w.taking + 1 then 1 else 0
  | none => 0

def World.outside (w : World U) : Nat :=
  owes w.back + w.sess.hiddenOwes + w.failureOwes + closings Origin.isClient w.unclaimed

def World.owed (w : World U) : Nat := w.inbox.countP (·.drawsReady) + owes w.front + w.outside

def Balanced (w : World U) : Prop :=
  w.sent.countP (·.drawsReady) = w.got.countP (·.msg.isReady) + w.owed

theorem Balanced.start : Balanced (World.start D U) := rfl

theorem World.failureOwes_of_none (h : w.sess.failure = none) : w.failureOwes = 0 := by
  simp [World.failureOwes, h]

theorem Session.hiddenOwes_of_none {s : Session} (h : s.hidden = none) : s.hiddenOwes = 0 := by
  simp [Session.hiddenOwes, h]

theorem World.failureOwes_congr {w' : World U} (hf : w'.sess.failure = w.sess.failure)
    (hn : w'.sess.failureRFQs = w.sess.failureRFQs) (ht : w'.taking = w.taking) :
    w'.failureOwes = w.failureOwes := by
  simp only [World.failureOwes, hf, hn, ht]

theorem Session.hiddenOwes_congr {s s' : Session} (h : s'.hidden = s.hidden) :
    s'.hiddenOwes = s.hiddenOwes := by
  simp only [Session.hiddenOwes, h]

theorem Balanced.applyFront (h : Balanced w) (hf : w.front = a :: rest)
    (heq : e.owes + e.sess.hiddenOwes + (w.applyFront rest e).failureOwes =
      a.owes + w.sess.hiddenOwes + w.failureOwes) : Balanced (w.applyFront rest e) := by
  unfold Balanced World.owed World.outside at h ⊢
  rw [World.unclaimed_applyFront, closings_append]
  simp only [hf, owes_cons] at h
  simp only [World.applyFront, List.countP_append, owes_append, Effect.owes] at heq ⊢
  omega

theorem Failing.taking_of_none (h : Failing w) (hn : w.sess.failure = none) : w.taking = 0 := by
  cases h with
  | quiet _ _ _ h => exact h
  | injecting h => simp [h.failure] at hn

theorem Failing.beginFailure_owes (w' : World U) {f : TxnFailure} {k n : Nat} (h : Failing w)
    (hnone : w.sess.failure = none) (hf : w'.sess.failure = some ⟨k, n, f⟩)
    (hn : w'.sess.failureRFQs = 0) (ht : w'.taking = w.taking) :
    w'.failureOwes = if f.swallow ≤ 1 then 1 else 0 := by
  simp only [World.failureOwes, hf, hn, ht, h.taking_of_none hnone, Nat.zero_add]

theorem Balanced.front {now : Nat} {jobID : String} (h : Balanced w) (ht : Threads w)
    (hfail : Failing w) (hf : w.front = a :: rest) (hok : Timely (.front now jobID) w)
    (hd : ∀ k m, a = .droppingUntilSync k m → w.sess.skipSync = true → m.drawsReady = false) :
    Balanced (w.applyFront rest (a.exec D now jobID w.sess)) := by
  obtain ⟨m, -, ha⟩ := ht.head hf
  have hact : Label.act w (.front now jobID) = some a := by simp [Label.act, hf]
  apply h.applyFront hf
  cases ha with
  | code ha =>
    by_cases hb : ∃ n f, a = .beginFailure n f
    · obtain ⟨n, f, rfl⟩ := hb
      obtain ⟨hnone, -⟩ := hok.2.beginFailure hact
      have heff : ((Act.beginFailure n f).exec D now jobID w.sess).owes = 0 := rfl
      rw [hfail.beginFailure_owes (w.applyFront rest _) hnone rfl rfl rfl,
        World.failureOwes_of_none hnone, heff, Session.hiddenOwes_congr (exec_hidden rfl)]
      simp only [Act.owes]
      omega
    · by_cases hx : ∃ x ms, a = .setHidden x ms
      · obtain ⟨x, ms, rfl⟩ := hx
        obtain ⟨rfl, rfl⟩ := ha
        rw [Session.hiddenOwes_of_none (hok.1.setHidden hact).1]
        rfl
      · replace hb : ∀ n f, a ≠ .beginFailure n f := fun n f h => hb ⟨n, f, h⟩
        replace hx : ∀ x ms, a ≠ .setHidden x ms := fun x ms h => hx ⟨x, ms, h⟩
        have hc : a ≠ .consumeFailureMessage := by
          rintro rfl
          exact ha
        have hs : a.setsHidden = false := by
          cases a with
          | setHidden x ms => exact absurd rfl (hx x ms)
          | _ => first | rfl | exact ha.elim
        have hfailure : (w.applyFront rest (a.exec D now jobID w.sess)).failureOwes =
            w.failureOwes :=
          World.failureOwes_congr (exec_failure hb hc).1 (exec_failure hb hc).2 rfl
        rw [exec_frontCode_owes ht.pending ha hx hb hd,
          Session.hiddenOwes_congr (exec_hidden hs), hfailure]
  | savepoint => rfl
  | abort => rfl
  | rollback => rfl

theorem Balanced.applyBack (h : Balanced w) (hb : w.back = a :: rest)
    (heq : owes e.next + e.client.countP (·.msg.isReady) + e.sess.hiddenOwes +
      (w.applyBack rest e).failureOwes + closings Origin.isClient (w.applyBack rest e).unclaimed =
      a.owes + w.sess.hiddenOwes + w.failureOwes + closings Origin.isClient w.unclaimed) :
    Balanced (w.applyBack rest e) := by
  unfold Balanced World.owed World.outside at h ⊢
  simp only [hb, owes_cons] at h
  simp only [World.applyBack, List.countP_append, owes_append] at heq ⊢
  omega

theorem World.unclaimed_applyBack_inert (hb : w.back = a :: rest) (ha : a.unclaimed = none)
    (hnext : e.next.filterMap Act.unclaimed = []) :
    (w.applyBack rest e).unclaimed = w.unclaimed ++ e.up.map Request.item := by
  rw [World.unclaimed_applyBack, List.filterMap_append, hnext, World.unclaimed, hb,
    List.filterMap_cons, ha]
  simp

theorem World.taking_applyBack_inert (hb : w.back = a :: rest) (ha : a ≠ .consumeFailureMessage)
    (hnext : ∀ b ∈ e.next, b.Inert) : (w.applyBack rest e).taking = w.taking := by
  rw [World.taking_applyBack, count_inert hnext, World.taking, hb, List.count_cons_of_ne ha,
    Nat.zero_add]

theorem Balanced.back_inert (h : Balanced w) (ht : Threads w) (hb : w.back = a :: rest)
    (hc : ¬ a.Claims) (hs : a.setsHidden = false) :
    Balanced (w.applyBack rest (a.exec D 0 "" w.sess)) := by
  have hmode : BackMode (a :: rest) := hb ▸ ht.back
  have hnext : ∀ b ∈ (a.exec D 0 "" w.sess).next, b.Inert := exec_mode_inert hmode hc
  have hbegin : ∀ n f, a ≠ .beginFailure n f := fun n f h => hc (.inr (.inr (.inr ⟨n, f, h⟩)))
  have hcount : a ≠ .consumeFailureMessage := fun h => hc (.inr (.inr (.inl h)))
  have hun : a.unclaimed = none := by
    cases a with
    | consumeHidden r => cases hs
    | failureActive r => exact absurd (.inr (.inl ⟨r, rfl⟩)) hc
    | _ => rfl
  have howes : (a.exec D 0 "" w.sess).owes = a.owes := exec_mode_owes hmode hc hs
  have hfailure : (w.applyBack rest (a.exec D 0 "" w.sess)).failureOwes = w.failureOwes :=
    World.failureOwes_congr (exec_failure hbegin hcount).1 (exec_failure hbegin hcount).2
      (World.taking_applyBack_inert hb hcount hnext)
  apply h.applyBack hb
  rw [World.unclaimed_applyBack_inert hb hun (filterMap_next fun b hb => (hnext b hb).1),
    closings_append, hfailure, Session.hiddenOwes_congr (exec_hidden hs)]
  unfold Effect.owes at howes
  omega

theorem Balanced.consumeHidden {r : Reply} (h : Balanced w) (hat : Attributed w)
    (hb : w.back = [.consumeHidden r]) :
    Balanced (w.applyBack [] ((Act.consumeHidden r).exec D 0 "" w.sess)) := by
  have hline : w.line = r.item :: (w.fromUp.map Reply.item ++ w.toUp.map Request.item) :=
    World.line_offered hb
  have hun : w.unclaimed = r.item :: (w.fromUp.map Reply.item ++ w.toUp.map Request.item) := by
    simp [World.unclaimed, hb, Act.unclaimed]
  have h0 : w.taking = 0 := by simp [World.taking, hb]
  cases hat with
  | idle h₁ =>
    have heff : (Act.consumeHidden r).exec D 0 "" w.sess =
        { sess := w.sess, next := [.failureActive r] } := by
      simp [h₁]
    have hun' : (w.applyBack [] { sess := w.sess, next := [.failureActive r] }).unclaimed =
        w.unclaimed := by
      rw [World.unclaimed_applyBack, hun]
      simp [Act.unclaimed]
    have hfailure : (w.applyBack [] { sess := w.sess, next := [.failureActive r] }).failureOwes =
        w.failureOwes :=
      World.failureOwes_congr rfl rfl (by rw [World.taking_applyBack, h0]; rfl)
    rw [heff]
    apply h.applyBack hb
    rw [hun', hfailure]
    simp
  | armed _ h₂ => simp [h₂] at hline
  | @running x h₁ h₂ =>
    have ho : r.origin.IsHidden := ⟨_, _, (hline ▸ h₂).head.1⟩
    have hnext : ∀ b ∈ ((Act.consumeHidden r).exec D 0 "" w.sess).next, b.Inert ∧ b.owes = 0 := by
      simp only [Act.exec, h₁]
      split
      · simp [Act.Inert, Act.unclaimed, Act.failureWrite]
      · dsimp only
        split <;> simp_all [Act.Inert, Act.unclaimed, Act.failureWrite]
    have hhidden : ((Act.consumeHidden r).exec D 0 "" w.sess).sess.hiddenOwes =
        w.sess.hiddenOwes := by
      simp only [Act.exec, h₁]
      split
      · rfl
      · simp [Session.hiddenOwes, h₁]
    have hclient : ((Act.consumeHidden r).exec D 0 "" w.sess).client = [] := by
      simp only [Act.exec, h₁]
      split <;> rfl
    have hfail : ((Act.consumeHidden r).exec D 0 "" w.sess).sess.failure = w.sess.failure ∧
        ((Act.consumeHidden r).exec D 0 "" w.sess).sess.failureRFQs = w.sess.failureRFQs :=
      exec_failure (by simp) (by simp)
    apply h.applyBack hb
    rw [owes_eq_zero fun b hb => (hnext b hb).2, hhidden, hclient, World.unclaimed_applyBack,
      exec_up (by simp), hun,
      List.append_nil, filterMap_next fun b hb => (hnext b hb).1.1, closings_cons, Reply.item,
        ho.isClient, World.failureOwes_congr (w := w) hfail.1 hfail.2
        (World.taking_applyBack_inert hb (by simp) fun b hb => (hnext b hb).1)]
    simp
  | ending _ _ _ h₄ => simp [World.hand, hb, Act.unplaced] at h₄

theorem Failing.isClient {r : Reply} (h : Failing w) (hr : ¬ r.origin.IsHidden)
    (hnone : w.sess.failure = none) (hb : w.back = [.failureActive r]) :
    r.origin.isClient = true := by
  cases h with
  | injecting h => simp [h.failure] at hnone
  | quiet _ h₂ =>
    exact Origin.isClient_of_not hr (h₂ r.item (by simp [World.unclaimed, hb, Act.unclaimed]))

theorem Injecting.failureOwes {b : Armed} {script later : List Origin}
    (h : Injecting w b script later) : w.failureOwes = if script.length ≤ 1 then 1 else 0 := by
  have hcount := h.count
  have hiff : b.failure.swallow ≤ w.sess.failureRFQs + w.taking + 1 ↔ script.length ≤ 1 := by omega
  simp only [World.failureOwes, h.failure, hiff]

theorem Balanced.failureActive {r : Reply} (h : Balanced w) (hfail : Failing w)
    (hr : ¬ r.origin.IsHidden) (hb : w.back = [.failureActive r]) :
    Balanced (w.applyBack [] ((Act.failureActive r).exec D 0 "" w.sess)) := by
  have h0 : w.taking = 0 := by simp [World.taking, hb]
  apply h.applyBack hb
  cases hfail with
  | quiet h₁ h₂ h₃ h₄ =>
    have hclient : r.origin.isClient = true := Failing.isClient (.quiet h₁ h₂ h₃ h₄) hr h₁ hb
    have hnext : ∀ b ∈ ((Act.failureActive r).exec D 0 "" w.sess).next, b.Inert := by
      simp only [Act.exec, h₁]
      split
      · exact relay_inert r
      · simp [Act.Inert, Act.unclaimed, Act.failureWrite]
    have howes : owes ((Act.failureActive r).exec D 0 "" w.sess).next = r.msg.isReady.toNat := by
      simp only [Act.exec, h₁]
      split
      · exact relay_owes r
      · simp_all
    have hfail : ((Act.failureActive r).exec D 0 "" w.sess).sess.failure = w.sess.failure ∧
        ((Act.failureActive r).exec D 0 "" w.sess).sess.failureRFQs = w.sess.failureRFQs :=
      exec_failure (by simp) (by simp)
    have hcli : ((Act.failureActive r).exec D 0 "" w.sess).client = [] := by
      simp only [Act.exec, h₁]
      split <;> rfl
    rw [World.unclaimed_failureActive hb (filterMap_next fun b hb => (hnext b hb).1)
      (exec_up (by simp)), closings_cons, howes, hcli, Session.hiddenOwes_congr (exec_hidden rfl),
      World.failureOwes_of_none h₁, World.failureOwes_of_none (hfail.1.trans h₁),
        Reply.item, hclient]
    simp
    omega
  | @injecting b script later hin =>
    -- a `ReadyForQuery` of the client's is the one the failure was put off to
    have heff : (Act.failureActive r).exec D 0 "" w.sess =
        { sess := w.sess, next := if r.msg.isReady then [.consumeFailureMessage] else []
          fates := [⟨r, .failure b.id⟩] } := by
      simp only [Act.exec, hin.failure]
    obtain ⟨script', hscript, hin'⟩ := hin.failureActive (D := D) hr hb
    rw [heff] at hin' ⊢
    have hun : w.unclaimed = r.item :: (w.applyBack [] { sess := w.sess, next :=
        if r.msg.isReady then [.consumeFailureMessage] else [], fates :=
            [⟨r, .failure b.id⟩] }).unclaimed :=
      World.unclaimed_failureActive hb (by split <;> rfl) rfl
    rw [hun, hin'.failureOwes, hin.failureOwes, closings_cons, Reply.item, hscript]
    cases hready : r.msg.isReady with
    | false => simp
    | true =>
      simp only [hready, if_true] at hscript
      rcases hin.shape with ⟨h, -⟩ | h | ⟨h, -⟩
      · obtain ⟨ho, rfl⟩ := List.cons.inj (hscript.symm.trans h)
        simp [ho]
        omega
      · obtain ⟨ho, rfl⟩ := List.cons.inj (hscript.symm.trans h)
        simp [ho, Origin.isClient]
      · cases hscript.symm.trans h

theorem Balanced.consumeFailureMessage (h : Balanced w) (hfail : Failing w)
    (hb : w.back = [.consumeFailureMessage]) :
    Balanced (w.applyBack [] (Act.consumeFailureMessage.exec D 0 "" w.sess)) := by
  have ht : w.taking = 1 := by simp [World.taking, hb]
  have hun : w.unclaimed = w.fromUp.map Reply.item ++ w.toUp.map Request.item := by
    simp [World.unclaimed, hb, Act.unclaimed]
  cases hfail with
  | quiet _ _ _ h₄ => omega
  | @injecting b script later hin =>
    have howes : w.failureOwes = if b.failure.swallow ≤ w.sess.failureRFQs + 1 +
        1 then 1 else 0 := by
      simp only [World.failureOwes, hin.failure, ht]
    apply h.applyBack hb
    rw [World.unclaimed_applyBack, hun, howes]
    by_cases hle : b.failure.swallow ≤ w.sess.failureRFQs + 1
    · have heff : Act.consumeFailureMessage.exec D 0 "" w.sess =
          { sess := { w.sess with failure := none, failureRFQs := 0 }
            next := [.writeClient ⟨.failure b.id, .ready b.failure.status⟩] } := by
        simp only [Act.exec, hin.failure]
        exact if_pos hle
      rw [heff, World.failureOwes_of_none rfl, if_pos (by omega)]
      simp [Act.unclaimed, Session.hiddenOwes, List.filterMap_cons]
      omega
    · have heff : Act.consumeFailureMessage.exec D 0 "" w.sess =
          { sess := { w.sess with failureRFQs := w.sess.failureRFQs + 1 } } := by
        simp only [Act.exec, hin.failure]
        exact if_neg hle
      have howes' : (w.applyBack
        [] { sess := { w.sess with failureRFQs := w.sess.failureRFQs + 1 } }).failureOwes =
          if b.failure.swallow ≤ w.sess.failureRFQs + 1 + 1 then 1 else 0 := by
        simp only [World.failureOwes, World.applyBack, hin.failure]
        rfl
      rw [heff, howes']
      simp [Session.hiddenOwes]

theorem Balanced.clearHidden {x : Hidden} (h : Balanced w) (hat : Attributed w)
    (hb : w.back = [.clearHidden x]) :
    Balanced (w.applyBack [] ((Act.clearHidden x).exec D 0 "" w.sess)) := by
  have hx : w.sess.hidden = some x := by
    cases hat with
    | ending h₁ _ _ _ h₅ =>
      simp only [hb, List.filterMap_cons, Act.clearing, List.filterMap_nil, List.cons.injEq] at h₅
      rw [h₁, ← h₅.1]
    | armed _ _ _ _ h₅ => simp [hb, Act.clearing] at h₅
    | _ _ _ _ h₄ => simp [hb, Act.clearing] at h₄
  have hnext : ∀ b ∈ ((Act.clearHidden x).exec D 0 "" w.sess).next, b.Inert :=
    fun b hb => repairCode_inert (finish_repair _ b hb)
  have hfailure : (w.applyBack [] ((Act.clearHidden x).exec D 0 "" w.sess)).failureOwes =
      w.failureOwes :=
    World.failureOwes_congr rfl rfl (World.taking_applyBack_inert hb (by simp) hnext)
  apply h.applyBack hb
  rw [World.unclaimed_applyBack_inert hb rfl (filterMap_next fun b hb => (hnext b hb).1),
    closings_append, hfailure]
  simp only [Act.exec, finish_owes, Session.hiddenOwes, hx, Act.owes]
  simp

theorem Balanced.setHidden {x : Exchange} {ms : List Frontend} (h : Balanced w)
    (hb : w.back = .setHidden x ms :: rest) (hnone : w.sess.hidden = none) :
    Balanced (w.applyBack rest ((Act.setHidden x ms).exec D 0 "" w.sess)) := by
  have hnext : ∀ b ∈ ((Act.setHidden x ms).exec D 0 "" w.sess).next, b.Inert := by
    simp [Act.Inert, Act.unclaimed, Act.failureWrite]
  have hfailure : (w.applyBack rest ((Act.setHidden x ms).exec D 0 "" w.sess)).failureOwes =
      w.failureOwes :=
    World.failureOwes_congr rfl rfl (World.taking_applyBack_inert hb (by simp) hnext)
  apply h.applyBack hb
  rw [World.unclaimed_applyBack_inert hb rfl (filterMap_next fun b hb => (hnext b hb).1),
    closings_append, hfailure, Session.hiddenOwes_of_none hnone]
  simp [Session.hiddenOwes]

theorem Balanced.beginFailure {n : Nat} {f : TxnFailure} (h : Balanced w) (hfail : Failing w)
    (hb : w.back = .beginFailure n f :: rest) (hnone : w.sess.failure = none) :
    Balanced (w.applyBack rest ((Act.beginFailure n f).exec D 0 "" w.sess)) := by
  have htaking : (w.applyBack rest ((Act.beginFailure n f).exec D 0 "" w.sess)).taking =
      w.taking := by
    rw [World.taking_applyBack, World.taking, hb]
    simp
  apply h.applyBack hb
  rw [World.unclaimed_applyBack_inert hb rfl rfl, closings_append, World.failureOwes_of_none hnone,
    hfail.beginFailure_owes (w.applyBack rest _) hnone rfl rfl htaking,
      Session.hiddenOwes_congr (exec_hidden rfl)]
  simp [Nat.add_comm]

theorem Balanced.back (h : Balanced w) (ht : Threads w) (hat : Attributed w) (hc : Consumed w)
    (hfail : Failing w) (hb : w.back = a :: rest) (hok : Timely .back w) :
    Balanced (w.applyBack rest (a.exec D 0 "" w.sess)) := by
  have hmode : BackMode (a :: rest) := hb ▸ ht.back
  have hact : Label.act w .back = some a := by simp [Label.act, hb]
  by_cases hclaims : a.Claims
  · rcases hclaims with ⟨r, rfl⟩ | ⟨r, rfl⟩ | rfl | ⟨n, f, rfl⟩
    · cases hmode with
      | offering => exact h.consumeHidden hat hb
      | relaying hm => exact (hm _ List.mem_cons_self).elim
      | repairing hm => cases hm _ List.mem_cons_self with | code hm => exact hm.elim
    · cases hmode with
      | checking => exact h.failureActive hfail (hc.back (.failureActive r) (by simp [hb])) hb
      | relaying hm => exact (hm _ List.mem_cons_self).elim
      | repairing hm => cases hm _ List.mem_cons_self with | code hm => exact hm.elim
    · cases hmode with
      | failing => exact h.consumeFailureMessage hfail hb
      | relaying hm => exact (hm _ List.mem_cons_self).elim
      | repairing hm => cases hm _ List.mem_cons_self with | code hm => exact hm.elim
    · exact h.beginFailure hfail hb (hok.2.beginFailure hact).1
  · by_cases hs : a.setsHidden = false
    · exact h.back_inert ht hb hclaims hs
    · cases a with
      | setHidden x ms => exact h.setHidden hb (hok.1.setHidden hact).1
      | consumeHidden r => exact absurd (.inl ⟨r, rfl⟩) hclaims
      | clearHidden x =>
        cases hmode with
        | ending => exact h.clearHidden hat hb
        | relaying hm => exact (hm _ List.mem_cons_self).elim
        | repairing hm => cases hm _ List.mem_cons_self with | code hm => exact hm.elim
      | _ => exact absurd rfl hs

theorem Balanced.answer {q : Request} {qs : List Request} {c : U.Choice} (h : Balanced w)
    (hq : w.toUp = q :: qs) : Balanced (w.applyAnswer q qs (U.answer w.up q.msg c)) := by
  have he := (expands_of_answers q.origin (U.answers w.up q.msg c)).closings (q := Origin.isClient)
  have hun : closings Origin.isClient (w.applyAnswer q qs (U.answer w.up q.msg c)).unclaimed =
      closings Origin.isClient w.unclaimed := by
    simp only [World.unclaimed, World.applyAnswer, hq, List.map_append, List.map_cons,
      closings_append, closings_cons, he, Request.item]
    omega
  unfold Balanced World.owed World.outside at h ⊢
  rw [hun]
  exact h

theorem Balanced.readUpstream {r : Reply} {rs : List Reply} (h : Balanced w) (hb : w.back = [])
    (hu : w.fromUp = r :: rs) : Balanced { w with back := pumpBackend r, fromUp := rs } := by
  have hun : World.unclaimed { w with back := pumpBackend r, fromUp := rs } = w.unclaimed := by
    cases hr : r.msg.isReady <;>
      simp [World.unclaimed, hb, hu, pumpBackend, hr, List.filterMap_cons, Act.unclaimed]
  have howes : owes (pumpBackend r) = 0 := by cases hr : r.msg.isReady <;> simp [pumpBackend, hr]
  have htaking : World.taking { w with back := pumpBackend r, fromUp := rs } = w.taking := by
    cases hr : r.msg.isReady <;> simp [World.taking, hb, pumpBackend, hr]
  have hfailure : World.failureOwes { w with back := pumpBackend r, fromUp := rs } =
      w.failureOwes :=
    World.failureOwes_congr rfl rfl htaking
  unfold Balanced World.owed World.outside at h ⊢
  rw [hun, hfailure, howes]
  simpa [hb] using h

theorem Balanced.moves {l : Label U} {w' : World U} (h : Balanced w) (ht : Threads w)
    (hat : Attributed w) (hc : Consumed w) (hfail : Failing w) (hok : Timely l w)
    (hd : ∀ k m, l.act w = some (.droppingUntilSync k m) → w.sess.skipSync = true →
      m.drawsReady = false) (hm : Moves D l w w') : Balanced w' := by
  cases hm with
  | @send _ m =>
    unfold Balanced World.owed at h ⊢
    change _ = _ + (_ + _ + w.outside)
    simp only [List.countP_append] at h ⊢
    omega
  | @readClient _ m rest hf hi _ =>
    unfold Balanced World.owed at h ⊢
    change _ = _ + (_ + _ + w.outside)
    rw [hf, hi, List.countP_cons] at h
    rw [pumpFrontend_owes]
    cases hm : m.drawsReady <;> simp [hm] at h ⊢ <;> omega
  | front hf => exact h.front ht hfail hf hok fun k m ha => hd k m (by simp [Label.act, hf, ha])
  | readUpstream hb hu _ => exact h.readUpstream hb hu
  | back hb => exact h.back ht hat hc hfail hb hok
  | answer hq => exact h.answer hq

end Balance

end DsqlEmulator.Proxy
