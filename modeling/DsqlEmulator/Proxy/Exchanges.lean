import DsqlEmulator.Proxy.LockStep

/-! What `pendingExchanges` counts.  Each pump counts a request right before it writes it,
and the backend pump counts a `ReadyForQuery` off when it reads it.  So the counter is what
the upstream owes, with the requests that are counted and about to be written, as long as
the client sends no `FunctionCall`, whose answer is counted off and never on. -/

namespace DsqlEmulator.Proxy

open Wire Occ Txn Runs Line

variable {U : Upstream} {D : Dialect}

@[simp] def Act.booking : Act → Nat
  | .writeUpstream _ ms => ms.countP (·.drawsReady)
  | .endExchange => 1
  | _ => 0

def booking : List Act → Nat
  | a :: _ => a.booking
  | [] => 0

inductive Booked : List Act → Prop
  | nil : Booked []
  | skip {a l} : a.booking = 0 → a ≠ .beginExchange → Booked l → Booked (a :: l)
  | book {o ms l} : ms.countP (·.drawsReady) = 1 → Booked l →
      Booked (.beginExchange :: .writeUpstream o ms :: l)

inductive Booking : List Act → Prop
  | booked {l} : Booked l → Booking l
  | midway {a l} : a.booking = 1 → Booked l → Booking (a :: l)

theorem Booked.append {l l' : List Act} (h : Booked l) (h' : Booked l') : Booked (l ++ l') := by
  induction h with
  | nil => exact h'
  | skip ha hb _ ih => exact .skip ha hb ih
  | book hms _ ih => exact .book hms ih

theorem Booked.of_plain {l : List Act} (h : ∀ a ∈ l, a.booking = 0 ∧ a ≠ .beginExchange) :
    Booked l := by
  induction l with
  | nil => exact .nil
  | cons a l ih =>
    obtain ⟨⟨hzero, hbegin⟩, hl⟩ := List.forall_mem_cons.1 h
    exact .skip hzero hbegin (ih hl)

theorem Booked.booking {l : List Act} (h : Booked l) : Proxy.booking l = 0 := by
  cases h with
  | nil => rfl
  | skip ha _ _ => exact ha
  | book _ _ => rfl

section Frontend

variable {s : Session} {n : Nat} {m : Frontend} {now : Nat} {jobID : String} {a : Act}

theorem forward_booked (n : Nat) (hm : m.tag ≠ .functionCall) : Booked (forward n m) := by
  unfold forward
  split
  next hcounted =>
    refine .book ?_ .nil
    have hdraws : m.drawsReady = true := by
      rw [Frontend.counted] at hcounted
      rw [Frontend.drawsReady, hcounted, Bool.true_or]
    simp [hdraws]
  next hcounted =>
    refine .skip ?_ (by simp) .nil
    have hdraws : m.drawsReady = false := by
      rw [Frontend.counted] at hcounted
      rw [Bool.not_eq_true] at hcounted
      rw [Frontend.drawsReady, hcounted, Bool.false_or, decide_eq_false hm]
    simp [hdraws]

theorem query_booked (n : Nat) (sql : String) :
    Booked [.beginExchange, .writeUpstream (.client n) [.query sql]] :=
  .book rfl .nil

theorem reject_booked {code message : String} {extended : Bool} :
    Booked (reject s n code message extended) := by
  apply Booked.of_plain
  cases extended <;> simp only [reject] <;> split <;> simp [sendError]

theorem rejectFailed_booked {extended : Bool} : Booked (rejectFailed n extended) := by
  apply Booked.of_plain
  cases extended <;> simp [rejectFailed, sendError]

theorem occFailure_booked {extended : Bool} : Booked (occFailure D n extended) := by
  apply Booked.of_plain
  cases extended <;> simp [occFailure, sendError]

theorem endAborted_booked : Booked endAborted := .of_plain (by simp [endAborted])

theorem send_booked {info : StatementInfo} (hm : m.tag ≠ .functionCall) :
    Booked (send D n m info) := by
  unfold send
  split
  · split
    · exact .append (.of_plain (by split <;> simp)) (query_booked n _)
    · exact forward_booked n hm
  · exact .append (.of_plain (by cases info.jobID <;> simp)) (forward_booked n hm)

theorem admitted_booked {info : StatementInfo} (hm : m.tag ≠ .functionCall) :
    Booked (admitted D s n m info) := by
  have hsend : Booked (send D n m info) := send_booked hm
  unfold admitted
  refine .append (.of_plain (by split <;> simp)) (.skip rfl (by simp) ?_)
  (repeat' split)
  · exact .of_plain (by simp)
  · exact .skip rfl (by simp) hsend
  · exact .append (.of_plain (by cases info.intent <;> simp [armAdjudicator])) hsend
  · exact hsend

theorem forwardAsyncJob_booked {rewritten : String} {statement : Nat} :
    Booked (forwardAsyncJob D jobID s n m rewritten statement).next := by
  have hrun (kinds : List Kind) : Booked
      (runAsyncJob jobID s n m rewritten statement kinds).next := by
    apply Booked.of_plain
    unfold runAsyncJob
    split <;> simp [Frontend.drawsReady]
  unfold forwardAsyncJob
  split
  · exact hrun _
  · exact reject_booked
  · exact hrun _

theorem handleQuery_booked {sql : String} : Booked (handleQuery D jobID s n sql).next := by
  have hforward : Booked (forward n (.query sql)) := forward_booked n (by simp)
  unfold handleQuery
  split
  · split
    · exact rejectFailed_booked
    · exact forwardAsyncJob_booked
  · split
    · split
      · exact endAborted_booked.append hforward
      · exact rejectFailed_booked
    · split
      · exact hforward
      · exact reject_booked
      · exact .of_plain (by simp)

theorem handleParse_booked {name sql : String} :
    Booked (handleParse D jobID s n name sql).next := by
  have hforward : Booked (forward n (.parse name sql)) := forward_booked n (by simp)
  unfold handleParse
  split
  · split
    · exact rejectFailed_booked
    · exact forwardAsyncJob_booked
  · dsimp only
    split
    · split
      · split
        · exact hforward
        · exact rejectFailed_booked
      · exact rejectFailed_booked
    · split
      · exact hforward
      · exact reject_booked
      · split
        · exact .of_plain (by split <;> simp [Frontend.drawsReady])
        · exact .append (.of_plain (by split <;> simp)) hforward

theorem handleBind_booked {b : Bind} {info : StatementInfo} :
    Booked (handleBind s n b info).next := by
  unfold handleBind
  split
  · split
    · exact endAborted_booked.append (forward_booked n (by simp))
    · exact rejectFailed_booked
  · exact .of_plain (by simp)

theorem dispatch_booked (hm : m.tag ≠ .functionCall) : Booked (dispatch s n m).next := by
  unfold dispatch
  split
  · exact .of_plain (by simp)
  · exact .of_plain (by simp)
  · split
    · exact forward_booked n hm
    · exact .of_plain (by simp)
  · exact forward_booked n hm
  · exact forward_booked n hm

theorem pumpFrontend_booked : Booked (pumpFrontend n m) := by
  apply Booked.of_plain
  unfold pumpFrontend
  split <;> simp [Frontend.drawsReady]

theorem exec_front_booked (h : FrontAct n m a) (hm : m.tag ≠ .functionCall) :
    Booked (a.exec D now jobID s).next := by
  cases h with
  | code h =>
    cases a with
    | setHidden x ms => obtain ⟨rfl, rfl⟩ := h; exact .book rfl .nil
    | beginFailure k f =>
      obtain ⟨-, ⟨-, hf⟩ | ⟨-, hf⟩⟩ := h <;> rcases hf with rfl | rfl <;> exact .book rfl .nil
    | droppingUntilSync k m' =>
      obtain ⟨-, rfl, -⟩ := h
      dsimp only [Act.exec]
      split
      · exact .nil
      · exact (dispatch_booked hm).append (.of_plain (by simp))
    | handleSync k =>
      dsimp only [Act.exec]
      refine (forward_booked k (by simp)).append (.of_plain ?_)
      cases s.pendingFailure <;> simp
    | aborted k m' =>
      obtain ⟨-, rfl, -⟩ := h
      dsimp only [Act.exec]
      split
      · exact handleQuery_booked
      · exact handleParse_booked
      · split
        · exact handleBind_booked
        · exact forward_booked k hm
      · exact forward_booked k hm
    | admitKinds k m' info =>
      obtain ⟨-, rfl, -⟩ := h
      dsimp only [Act.exec]
      split
      · exact reject_booked
      · exact admitted_booked hm
    | admitAsync k rewritten statement kinds =>
      dsimp only [Act.exec]
      split
      · exact reject_booked
      · exact .skip rfl (by simp) (query_booked k _)
    | occAdjudicated k m' info =>
      obtain ⟨-, rfl, -⟩ := h
      dsimp only [Act.exec]
      split
      · exact occFailure_booked
      · split
        · exact .skip rfl (by simp) (send_booked hm)
        · exact .of_plain (by simp)
    | occCommitConflict k m' info =>
      obtain ⟨-, rfl, -⟩ := h
      dsimp only [Act.exec]
      split
      · exact occFailure_booked
      · exact .skip rfl (by simp) (send_booked hm)
    | savepointReady bind => dsimp only [Act.exec]; split <;> exact .of_plain (by simp)
    | establishSavepoint => dsimp only [Act.exec]; split <;> exact .of_plain (by simp)
    | getStateTxStatus k => exact .of_plain (by simp)
    | countTxnStatement kinds => dsimp only [Act.exec]; split <;> exact .nil
    | noteBatchState t => dsimp only [Act.exec]; (repeat' split) <;> exact .nil
    | _ => first | exact h.elim | exact .nil
  | _ => exact .nil

end Frontend

section Backend

variable {s : Session} {now : Nat} {jobID : String} {a : Act} {rest : List Act}

theorem closing_asks {ms : List Frontend} (h : Closing ms) : ms.countP (·.drawsReady) = 1 := by
  obtain ⟨pre, last, rfl, hpre, hlast⟩ := h
  have hzero : pre.countP (·.drawsReady) = 0 := List.countP_eq_zero.2 fun m hm => by
    simp [hpre m hm]
  simp [hzero, hlast]

theorem relayCode_booked {o : Origin} (h : RelayCode o a) : a.booking = 0 ∧ a ≠ .beginExchange := by
  cases a <;> first | exact h.elim | exact ⟨rfl, by simp⟩

theorem finish_booked (x : Exchange) : Booked (x.finish D) := by
  have hfail (n : Nat) : Booked (failRepair D n) := .of_plain (by simp [failRepair])
  have hdone (repair : InFlight) (rows : Int) : Booked (completeRepair repair rows) :=
    .of_plain (by simp [completeRepair])
  have hshadow (repair : InFlight) : Booked (runShadow D repair) := by
    unfold runShadow runRowsetShadow runCountShadow
    split
    · exact hdone _ _
    · split <;> split <;> first | exact hfail _ | exact .of_plain (by simp)
  cases x with
  | savepoint failed => cases failed <;> exact .of_plain (by simp [Exchange.finish])
  | restore repair failed =>
    cases failed
    · exact hshadow repair
    · exact hfail _
  | count repair rows failed =>
    cases failed
    · exact hdone _ _
    · exact hfail _
  | rowset repair failed =>
    cases failed
    · exact .of_plain (by simp [Exchange.finish])
    · exact hfail _

theorem relay_booked (r : Reply) : Booked (relay D r) := by
  apply Booked.of_plain
  obtain ⟨o, m⟩ := r
  cases m with
  | error e => by_cases he : isConflict e.code = true <;> simp [relay, he]
  | _ => simp [relay]

theorem exec_back_booked (h : BackMode (a :: rest)) : Booked (a.exec D now jobID s).next := by
  cases h with
  | @offering r =>
    dsimp only [Act.exec]
    (repeat' split) <;> exact .of_plain (by simp)
  | @checking r =>
    dsimp only [Act.exec]
    split
    · split <;> exact .of_plain (by simp)
    · split
      · exact relay_booked r
      · exact .of_plain (by simp)
  | @pending r _ =>
    dsimp only [Act.exec]
    split
    · exact .nil
    · exact relay_booked r
  | failing => dsimp only [Act.exec]; (repeat' split) <;> exact .of_plain (by simp)
  | @relaying o l hl =>
    refine .of_plain fun b hb => ?_
    exact relayCode_booked (exec_relay (hl a List.mem_cons_self) b hb)
  | repairing hl =>
    cases hl a List.mem_cons_self with
    | code h =>
      cases a with
      | beginFailure n f => obtain rfl : f = abortFailure 1 := h; exact .book rfl .nil
      | setHidden x ms => exact .book (closing_asks h.2) .nil
      | _ => first | exact h.elim | exact .nil
    | _ => exact .nil
  | ending => exact finish_booked _
  | starting => dsimp only [Act.exec]; split <;> exact .of_plain (by simp)
  | restoring => exact .of_plain (by simp)
  | _ => exact .nil

end Backend

section Worlds

variable {w w' : World U} {a : Act} {rest : List Act}

theorem exec_pendingExchanges {now : Nat} {jobID : String} {s : Session}
    (hbegin : a ≠ .beginExchange) (hend : a ≠ .endExchange) :
    (a.exec D now jobID s).sess.pendingExchanges = s.pendingExchanges := by
  cases a with
  | beginExchange => exact absurd rfl hbegin
  | endExchange => exact absurd rfl hend
  | aborted n m => obtain ⟨_, _, h⟩ := exec_aborted_quiet n m; rw [h]
  | droppingUntilSync n m => obtain ⟨_, _, h⟩ := exec_droppingUntilSync_quiet n m; rw [h]
  | _ => dsimp only [Act.exec] <;> (repeat' split) <;> rfl

theorem exec_asks {now : Nat} {jobID : String} {s : Session} (hend : a ≠ .endExchange) :
    (a.exec D now jobID s).up.countP (·.msg.drawsReady) = a.booking := by
  cases a with
  | writeUpstream o ms => simp [List.countP_map, Function.comp_def]
  | endExchange => exact absurd rfl hend
  | _ => rw [exec_up (by simp)]; rfl

theorem Booking.exec {now : Nat} {jobID : String} {s : Session} (h : Booking (a :: rest))
    (hnext : Booked (a.exec D now jobID s).next)
    (hpos : a = .endExchange → 0 < s.pendingExchanges) :
    Booking ((a.exec D now jobID s).next ++ rest) ∧
      (a.exec D now jobID s).sess.pendingExchanges + booking (a :: rest) =
        s.pendingExchanges + booking ((a.exec D now jobID s).next ++ rest) +
          (a.exec D now jobID s).up.countP (·.msg.drawsReady) := by
  generalize hl : a :: rest = l at h
  cases h with
  | booked h =>
    cases h with
    | nil => cases hl
    | skip hzero hbegin hrest =>
      obtain ⟨rfl, rfl⟩ := List.cons.inj hl
      have hend : a ≠ .endExchange := by rintro rfl; cases hzero
      have hall := hnext.append hrest
      refine ⟨.booked hall, ?_⟩
      rw [exec_pendingExchanges hbegin hend, exec_asks hend, hall.booking]
      rfl
    | @book o ms l hms hrest =>
      obtain ⟨rfl, rfl⟩ := List.cons.inj hl
      refine ⟨.midway hms hrest, ?_⟩
      change s.pendingExchanges + 1 + 0 = s.pendingExchanges + ms.countP _ + 0
      rw [hms]
  | midway hone hrest =>
    obtain ⟨rfl, rfl⟩ := List.cons.inj hl
    have hall := hnext.append hrest
    refine ⟨.booked hall, ?_⟩
    rw [hall.booking]
    by_cases hend : a = .endExchange
    · subst hend
      exact Nat.sub_add_cancel (hpos rfl)
    · have hbegin : a ≠ .beginExchange := by rintro rfl; cases hone
      rw [exec_pendingExchanges hbegin hend, exec_asks hend]
      rfl

/-- The `ReadyForQuery` the upstream is to send or has sent, and the session has not read. -/
def World.outstanding (w : World U) : Nat :=
  w.toUp.countP (·.msg.drawsReady) + w.fromUp.countP (·.msg.isReady)

/-- The client sends no `FunctionCall`. -/
def Uncalled (l : Label U) (_ : World U) : Prop := ∀ m ∈ l.sending, m.tag ≠ .functionCall

instance (l : Label U) (w : World U) : Decidable (Uncalled l w) :=
  inferInstanceAs (Decidable (∀ m ∈ l.sending, _))

structure Books (w : World U) : Prop where
  sent : ∀ m ∈ w.sent, m.tag ≠ .functionCall
  front : Booking w.front
  back : Booking w.back
  counts : w.sess.pendingExchanges = w.outstanding + booking w.front + booking w.back

theorem Books.start : Books (World.start D U) where
  sent := by simp [World.start]
  front := .booked .nil
  back := .booked .nil
  counts := rfl

theorem answers_ready {m : Frontend} {ms : List Backend} (h : Answers m ms) (o : Origin) :
    (ms.map (Reply.mk o)).countP (·.msg.isReady) = m.drawsReady.toNat := by
  obtain ⟨pre, hpre, h⟩ := h
  have hzero : pre.countP Backend.isReady = 0 := List.countP_eq_zero.2 fun x hx => by
    simp [hpre x hx]
  rcases h with ⟨hm, st, rfl⟩ | ⟨hm, rfl⟩ <;> simp [List.countP_map, Function.comp_def, hm, hzero]

theorem pumpBackend_booking (r : Reply) :
    Booking (pumpBackend r) ∧ booking (pumpBackend r) = r.msg.isReady.toNat := by
  unfold pumpBackend
  cases r.msg.isReady with
  | true => exact ⟨.midway rfl (.skip rfl (by simp) .nil), rfl⟩
  | false => exact ⟨.booked (.skip rfl (by simp) .nil), rfl⟩

theorem Books.moves {l : Label U} (h : Books w) (ht : Threads w) (hl : Uncalled l w)
    (hm : Moves D l w w') : Books w' := by
  have hcounts := h.counts
  cases hm with
  | @send _ m =>
    refine { h with sent := fun m' hm' => ?_ }
    rcases List.mem_append.1 hm' with hm' | hm'
    · exact h.sent m' hm'
    · rw [List.mem_singleton.1 hm']
      exact hl m rfl
  | @readClient _ m ms hf _ _ =>
    have hpump : Booked (pumpFrontend w.read m) := pumpFrontend_booked
    refine { h with front := .booked hpump, counts := ?_ }
    rw [hf] at hcounts
    change w.sess.pendingExchanges = w.outstanding + booking (pumpFrontend w.read m) +
      booking w.back
    rw [hpump.booking]
    exact hcounts
  | @front _ now jobID a rest hf =>
    obtain ⟨m, hm, ha⟩ := ht.head hf
    have hnext : Booked (a.exec D now jobID w.sess).next :=
      exec_front_booked ha (h.sent m (List.mem_of_getElem? hm))
    obtain ⟨hfront, hbooks⟩ :=
      (hf ▸ h.front).exec hnext (by rintro rfl; cases ha with | code ha => exact ha.elim)
    refine { h with front := hfront, counts := ?_ }
    rw [hf] at hcounts
    change (a.exec D now jobID w.sess).sess.pendingExchanges =
      (w.toUp ++ (a.exec D now jobID w.sess).up).countP _ + w.fromUp.countP _ +
        booking ((a.exec D now jobID w.sess).next ++ rest) + booking w.back
    rw [List.countP_append]
    unfold World.outstanding at hcounts
    omega
  | @readUpstream _ r rs hb hfrom _ =>
    obtain ⟨hback, hready⟩ := pumpBackend_booking r
    refine { h with back := hback, counts := ?_ }
    rw [hb] at hcounts
    change w.sess.pendingExchanges = w.toUp.countP _ + rs.countP _ + booking w.front + booking
      (pumpBackend r)
    rw [hready, hcounts, World.outstanding, hfrom, List.countP_cons]
    cases r.msg.isReady <;> simp [booking]
    omega
  | @back _ a rest hb =>
    have hnext : Booked (a.exec D 0 "" w.sess).next := exec_back_booked (hb ▸ ht.back)
    rw [hb] at hcounts
    obtain ⟨hback, hbooks⟩ := (hb ▸ h.back).exec hnext fun ha => by
      subst ha
      rw [hcounts]
      exact Nat.succ_pos _
    refine { h with back := hback, counts := ?_ }
    change (a.exec D 0 "" w.sess).sess.pendingExchanges =
      (w.toUp ++ (a.exec D 0 "" w.sess).up).countP _ + w.fromUp.countP _ + booking w.front +
        booking ((a.exec D 0 "" w.sess).next ++ rest)
    rw [List.countP_append]
    unfold World.outstanding at hcounts
    omega
  | @answer _ c q qs hq =>
    refine { h with counts := ?_ }
    change w.sess.pendingExchanges = qs.countP _ +
      (w.fromUp ++ (U.answer w.up q.msg c).2.map (Reply.mk q.origin)).countP _ + booking w.front +
        booking w.back
    rw [List.countP_append, answers_ready (U.answers w.up q.msg c), hcounts, World.outstanding, hq,
      List.countP_cons]
    cases q.msg.drawsReady <;> simp
    omega

theorem books (hw : Reach (system D U) Uncalled w) : Books w := by
  have hboth : Threads w ∧ Books w := by
    refine hw.invariant (I := fun w => Threads w ∧ Books w) ⟨.start, .start⟩ ?_
    rintro l w w' ⟨ht, h⟩ hl hs
    exact ⟨ht.moves (moves_of_step hs), h.moves ht hl (moves_of_step hs)⟩
  exact hboth.2

/-- The counter is what the upstream owes, and what a pump is in the middle of counting. -/
theorem pendingExchanges_counts (hw : Reach (system D U) Uncalled w) :
    w.sess.pendingExchanges = w.outstanding + booking w.front + booking w.back :=
  (books hw).counts

theorem pendingExchanges_counts_insert :
    let w := (system (.sample []) .any).dest Uncalled lockStepInsert
    w.sess.pendingExchanges = 1 ∧ w.outstanding + booking w.front + booking w.back = 1 :=
  ⟨by decide +kernel, (pendingExchanges_counts (Reach.dest _ _)).symm.trans (by decide +kernel)⟩

/-- Whatever the client sends ahead, a savepoint is set only when the upstream owes nothing,
and a refused lock is taken over only when it owes nothing but that statement's answer. -/
theorem own_statements_settled (hw : Reach (system D U) Uncalled w) :
    (∀ now jobID, w.front.head? = some .establishSavepoint →
      (Act.establishSavepoint.exec D now jobID w.sess).next ≠ [] → w.outstanding = 0) ∧
    ∀ o e inTxn, w.back.head? = some (.occIntercept o e inTxn) →
      ((Act.occIntercept o e inTxn).exec D 0 "" w.sess).next = [] → w.outstanding ≤ 1 := by
  have hcounts := (books hw).counts
  refine ⟨fun now jobID _ hnext => ?_, fun o e inTxn _ hnext => ?_⟩
  · have hzero : w.sess.pendingExchanges = 0 := by
      by_contra hpos
      simp [Nat.pos_of_ne_zero hpos] at hnext
    omega
  · have hone : w.sess.pendingExchanges ≤ 1 := by
      by_contra hmore
      simp [hmore] at hnext
    omega

def decidingInsert : List (Label .any) :=
  List.flatten
    [[.send (.query "BEGIN"), .readClient], fronts 8,
      [.answer ([.commandComplete "BEGIN"], .active), .readUpstream],
      backs 6, [.readUpstream], backs 8, [.send (.query "INSERT INTO t VALUES (1)"), .readClient],
        fronts 6]

def interceptedInsert : List (Label .any) :=
  List.flatten
    [decidingInsert, fronts 8, [.answer ([.commandComplete "SAVEPOINT"], .active), .readUpstream],
      backs 1,
      [.readUpstream], backs 3, [.answer ([.error { code := "40001", message := "" }], .failed),
        .readUpstream], backs 5]

theorem own_statements_settled_insert :
    let w := (system (.sample []) .any).dest Uncalled decidingInsert
    let w' := (system (.sample []) .any).dest Uncalled interceptedInsert
    let a := Act.occIntercept (.client 1) { code := "40001", message := "" } true
    (w.outstanding = 0 ∧ (Act.establishSavepoint.exec (.sample []) 0 "" w.sess).next.length = 1) ∧
      w'.outstanding ≤ 1 ∧ w'.back.head? = some a ∧
          (a.exec (.sample []) 0 "" w'.sess).next = [] := by
  intro w w' a
  have hnext : (Act.establishSavepoint.exec (.sample []) 0 "" w.sess).next.length = 1 := by
    decide +kernel
  have hhead : w'.back.head? = some a := by decide +kernel
  have htaken : (a.exec (.sample []) 0 "" w'.sess).next = [] := by decide +kernel
  refine ⟨⟨(own_statements_settled (Reach.dest _ _)).1 0 "" (by decide +kernel) ?_, hnext⟩, ?_,
    hhead, htaken⟩
  · exact List.ne_nil_of_length_pos (hnext ▸ Nat.one_pos)
  · exact (own_statements_settled (Reach.dest _ _)).2 _ _ _ hhead htaken

def calledAhead : List (Label .any) :=
  List.flatten
    [[.send .functionCall, .readClient], fronts 3,
      [.send (.query "SELECT 1"), .readClient], fronts 7,
      [.answer ([], .idle), .readUpstream], backs 1]

theorem functionCall_miscounted :
    ∃ w : World .any, Reachable (system (.sample []) .any) w ∧ w.sess.pendingExchanges = 0 ∧
      w.outstanding = 1 :=
  ⟨(system (.sample []) .any).dest (fun _ _ => True) calledAhead,
    Reach.dest _ _, by decide +kernel, by decide +kernel⟩

end Worlds

end DsqlEmulator.Proxy
