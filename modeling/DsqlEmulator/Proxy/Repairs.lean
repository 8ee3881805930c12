import DsqlEmulator.Proxy.Threads

/-! Which statement a repair is for.  A repair starts where `occIntercept` takes a
conflict over, and is handed on from there. -/

namespace DsqlEmulator.Proxy

open Wire Occ Txn Runs

variable {U : Upstream} {D : Dialect}

def Act.intercepting : Act → Option Bool
  | .occIntercept _ _ inTxn => some inTxn
  | _ => none

/-- Which statement `occIntercept` would take over. -/
def Session.takesOver (s : Session) (inTxn : Bool) : Option Nat :=
  if (s.occSavepoint || s.occTxnStatements ≤ 1) && inTxn && s.pendingExchanges ≤
    1 then s.occInFlight.map InFlight.request
  else none

def Exchange.request : Exchange → Option Nat
  | .savepoint _ => none
  | .restore repair _ => some repair.request
  | .count repair _ _ => some repair.request
  | .rowset repair _ => some repair.request

def Act.repairing : Act → Option Nat
  | .chooseRestore repair => some repair.request
  | .setHidden x _ => x.request
  | .clearHidden h => h.exchange.request
  | .writeClient ⟨.repair n, _⟩ => some n
  | _ => none

def Session.repairs (s : Session) : List Nat :=
  (s.occRepair.map InFlight.request).toList ++ (s.hidden.bind (·.exchange.request)).toList

def Delivery.repair : Delivery → Option Nat
  | ⟨.repair n, _⟩ => some n
  | _ => none

def World.repairs (w : World U) : List Nat :=
  w.sess.repairs ++ (w.back.filterMap Act.repairing ++ w.got.filterMap Delivery.repair)

section Repairs

variable {s : Session} {now n : Nat} {jobID : String} {a b : Act} {rest : List Act} {w w' : World U}

theorem Exchange.request_note (x : Exchange) (m : Backend) : (x.note m).request = x.request := by
  cases x <;> first | rfl | (cases m <;> rfl)

theorem exec_repairs (h : n ∈ (a.exec D now jobID s).sess.repairs) :
    n ∈ s.repairs ∨ a.repairing = some n ∨ ∃ inTxn, a.intercepting = some inTxn ∧
      s.takesOver inTxn = some n := by
  cases a with
  | aborted k m => obtain ⟨_, _, h'⟩ := exec_aborted_quiet k m; rw [h'] at h; exact .inl h
  | droppingUntilSync k m =>
    obtain ⟨_, _, h'⟩ := exec_droppingUntilSync_quiet k m; rw [h'] at h; exact .inl h
  | setHidden x ms =>
    rcases List.mem_append.1 h with h | h
    · exact .inl (List.mem_append_left _ h)
    · exact .inr (.inl (Option.mem_toList.1 h))
  | occIntercept o e inTxn =>
    dsimp only [Act.exec] at h
    split at h
    · rename_i htakes
      rcases List.mem_append.1 h with h | h
      · refine .inr (.inr ⟨inTxn, rfl, ?_⟩)
        simp only [Bool.and_eq_true] at htakes
        obtain ⟨⟨⟨hready, hin⟩, -⟩, hsettled⟩ := htakes
        rw [Session.takesOver,
          if_pos (by simp only [Bool.and_eq_true]; exact ⟨⟨hready, hin⟩, hsettled⟩)]
        exact Option.mem_toList.1 h
      · exact .inl (List.mem_append_right _ h)
    · exact .inl h
  | resetOcc =>
    exact .inl (List.mem_append_right _ ((List.mem_append.1 h).resolve_left List.not_mem_nil))
  | consumeHidden r =>
    dsimp only [Act.exec] at h
    split at h
    · exact .inl h
    · split at h
      · exact .inl h
      · rename_i x hx _
        refine .inl ?_
        rcases List.mem_append.1 h with h | h
        · exact List.mem_append_left _ h
        · refine List.mem_append_right _ ?_
          have hnote : n ∈ (x.exchange.note r.msg).request.toList := h
          rw [Exchange.request_note] at hnote
          rwa [hx]
  | clearHidden x =>
    exact .inl (List.mem_append_left _ ((List.mem_append.1 h).resolve_right List.not_mem_nil))
  | startRepair o st =>
    dsimp only [Act.exec] at h
    split at h
    · exact .inl (List.mem_append_right _ ((List.mem_append.1 h).resolve_left List.not_mem_nil))
    · exact .inl h
  | _ => dsimp only [Act.exec] at h; (repeat' split at h) <;> exact .inl h

theorem frontAct_repairing {m : Frontend} {k : Nat} (h : FrontAct k m a) : a.repairing = none := by
  cases h with
  | code h =>
    cases a with
    | writeClient d =>
      obtain ⟨source, msg⟩ := d
      cases h.1
      rfl
    | setHidden x ms => cases h.1; rfl
    | _ => first | exact h.elim | rfl
  | _ => rfl

theorem relayCode_repairing {o : Origin} (h : RelayCode o a) : a.repairing = none := by
  cases a with
  | writeClient d =>
    obtain ⟨source, msg⟩ := d
    cases h
    rfl
  | _ => first | exact h.elim | rfl

theorem relay_repairing {r : Reply} (h : a ∈ relay D r) : a.repairing = none := by
  obtain ⟨o, m⟩ := r
  cases m with
  | error e =>
    rcases List.mem_cons.1 h with rfl | h
    · rfl
    · split at h <;> obtain rfl := List.mem_singleton.1 h <;> rfl
  | ready st =>
    rcases List.mem_cons.1 h with rfl | h
    · rfl
    · obtain rfl := List.mem_singleton.1 h
      rfl
  | _ => obtain rfl := List.mem_singleton.1 h; rfl

theorem failRepair_repairing {k : Nat} (h : b ∈ failRepair D k) (hn : b.repairing = some n) :
    k = n := by
  simp only [failRepair, List.mem_cons, List.not_mem_nil, or_false] at h
  rcases h with rfl | rfl | rfl
  · cases hn
  · exact Option.some.inj hn
  · cases hn

theorem runShadow_repairing {repair : InFlight} (h : b ∈ runShadow D repair)
    (hn : b.repairing = some n) : repair.request = n := by
  unfold runShadow at h
  split at h
  · simp only [completeRepair, List.mem_cons, List.not_mem_nil, or_false] at h
    rcases h with rfl | rfl <;> exact Option.some.inj hn
  · split at h
    · unfold runRowsetShadow at h
      split at h
      · exact failRepair_repairing h hn
      · obtain rfl := List.mem_singleton.1 h
        exact Option.some.inj hn
    · unfold runCountShadow at h
      split at h
      · exact failRepair_repairing h hn
      · obtain rfl := List.mem_singleton.1 h
        exact Option.some.inj hn

theorem finish_repairing {x : Exchange} (h : b ∈ x.finish D) (hn : b.repairing = some n) :
    x.request = some n := by
  cases x with
  | savepoint failed =>
    cases failed
    · cases h
    · obtain rfl := List.mem_singleton.1 h
      cases hn
  | restore repair failed =>
    cases failed
    · exact congrArg some (runShadow_repairing h hn)
    · exact congrArg some (failRepair_repairing h hn)
  | count repair rows failed =>
    cases failed
    · simp only [Exchange.finish, completeRepair, Bool.false_eq_true, if_false, List.mem_cons,
        List.not_mem_nil, or_false] at h
      rcases h with rfl | rfl <;> exact hn
    · exact congrArg some (failRepair_repairing h hn)
  | rowset repair failed =>
    cases failed
    · obtain rfl := List.mem_singleton.1 h
      exact hn
    · exact congrArg some (failRepair_repairing h hn)

theorem exec_next_repairing (h : BackMode (a :: rest)) (hb : b ∈ (a.exec D now jobID s).next)
    (hn : b.repairing = some n) : n ∈ s.repairs ∨ a.repairing = some n := by
  have hnone (hb : b.repairing = none) : n ∈ s.repairs ∨ a.repairing = some n := by
    cases hb.symm.trans hn
  cases h with
  | reading => cases hb
  | offering =>
    dsimp only [Act.exec] at hb
    split at hb
    · obtain rfl := List.mem_singleton.1 hb
      exact hnone rfl
    · rename_i x hx
      split at hb
      · obtain rfl := List.mem_singleton.1 hb
        refine .inl (List.mem_append_right _ ?_)
        rw [hx]
        exact Option.mem_toList.2 hn
      · dsimp only at hb
        split at hb
        · obtain rfl := List.mem_singleton.1 hb
          exact hnone rfl
        · cases hb
  | checking =>
    dsimp only [Act.exec] at hb
    split at hb
    · dsimp only at hb
      split at hb
      · obtain rfl := List.mem_singleton.1 hb
        exact hnone rfl
      · cases hb
    · split at hb
      · exact hnone (relay_repairing hb)
      · obtain rfl := List.mem_singleton.1 hb
        exact hnone rfl
  | pending =>
    dsimp only [Act.exec] at hb
    split at hb
    · cases hb
    · exact hnone (relay_repairing hb)
  | failing =>
    dsimp only [Act.exec] at hb
    split at hb
    · split at hb
      · obtain rfl := List.mem_singleton.1 hb
        exact hnone rfl
      · cases hb
    · cases hb
  | failed => cases hb
  | ending => exact .inr (finish_repairing hb hn)
  | readying => cases hb
  | starting =>
    dsimp only [Act.exec] at hb
    split at hb
    · rename_i repair hr
      obtain rfl := List.mem_singleton.1 hb
      refine .inl (List.mem_append_left _ ?_)
      rw [hr]
      exact Option.mem_toList.2 hn
    · simp only [List.mem_cons, List.not_mem_nil, or_false] at hb
      rcases hb with rfl | rfl | rfl <;> exact hnone rfl
  | restoring =>
    obtain rfl := List.mem_singleton.1 hb
    exact .inr hn
  | relaying h => exact hnone (relayCode_repairing (exec_relay (h a List.mem_cons_self) b hb))
  | repairing h =>
    cases h a List.mem_cons_self with
    | code h =>
      cases a with
      | beginFailure k f =>
        simp only [Act.exec, List.mem_cons, List.not_mem_nil, or_false] at hb
        rcases hb with rfl | rfl <;> exact hnone rfl
      | setHidden x ms =>
        simp only [Act.exec, List.mem_cons, List.not_mem_nil, or_false] at hb
        rcases hb with rfl | rfl <;> exact hnone rfl
      | _ => first | exact h.elim | cases hb
    | _ => cases hb

end Repairs

end DsqlEmulator.Proxy
