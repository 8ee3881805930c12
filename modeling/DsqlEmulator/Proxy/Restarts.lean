import DsqlEmulator.Postgres.Server
import DsqlEmulator.Proxy.Budget
import DsqlEmulator.Proxy.Touched

/-! What a transaction holds when it is started again to repair it. -/

namespace DsqlEmulator.Proxy

open Wire Occ Txn Runs Classify Postgres Dues

variable {U : Upstream} {D : Dialect} {parse : String → Option (List Statement)}
  {T : Transacts U parse}

def Origin.repairs : Origin → Bool
  | .hidden p _ => p ≠ .savepoint
  | _ => false

section Frames

variable {s : Session} {n now : Nat} {m : Frontend} {jobID : String} {a b : Act} {rest : List Act}
  {g : Tally}

@[simp] theorem follow_ran : (g.follow now s a).ran = g.ran := by
  unfold Tally.follow
  split <;> (try split) <;> rfl

theorem exec_occRepair (h : (a.exec D now jobID s).sess.occRepair.isSome = true) :
    s.occRepair.isSome = true ∨
    ∃ o e inTxn, a = .occIntercept o e inTxn ∧ (s.takesOver inTxn).isSome = true := by
  cases a with
  | aborted k m => obtain ⟨_, _, h'⟩ := exec_aborted_quiet k m; rw [h'] at h; exact .inl h
  | droppingUntilSync k m =>
    obtain ⟨_, _, h'⟩ := exec_droppingUntilSync_quiet k m; rw [h'] at h; exact .inl h
  | occIntercept o e inTxn =>
    dsimp only [Act.exec] at h
    split at h
    next htakes =>
      refine .inr ⟨o, e, inTxn, rfl, ?_⟩
      simp only [Bool.and_eq_true] at htakes
      rw [Session.takesOver, if_pos (by simp only [Bool.and_eq_true]; exact ⟨htakes.1.1, htakes.2⟩),
        Option.isSome_map]
      exact htakes.1.2
    next => exact .inl h
  | resetOcc => cases h
  | startRepair o st =>
    dsimp only [Act.exec] at h
    split at h
    · cases h
    · exact .inl h
  | _ => dsimp only [Act.exec] at h; (repeat' split at h) <;> exact .inl h

theorem exec_occSavepoint (h : (a.exec D now jobID s).sess.occSavepoint = false) :
    s.occSavepoint = false ∨ a = .clearSavepoint ∨ a = .noteTxStatus .idle := by
  cases a with
  | aborted k m => obtain ⟨_, _, h'⟩ := exec_aborted_quiet k m; rw [h'] at h; exact .inl h
  | droppingUntilSync k m =>
    obtain ⟨_, _, h'⟩ := exec_droppingUntilSync_quiet k m; rw [h'] at h; exact .inl h
  | establishSavepoint =>
    dsimp only [Act.exec] at h
    split at h
    · exact .inl h
    · cases h
  | clearSavepoint => exact .inr (.inl rfl)
  | noteTxStatus st =>
    cases st with
    | idle => exact .inr (.inr rfl)
    | _ => exact .inl h
  | _ => dsimp only [Act.exec] at h; (repeat' split at h) <;> exact .inl h

theorem frontAct_quiet (h : FrontAct n m a) : (∀ o e inTxn, a ≠ .occIntercept o e inTxn) ∧
    (∀ st, a ≠ .noteTxStatus st) ∧ a ≠ .clearSavepoint := by
  cases h with
  | code h => cases a <;> first | exact h.elim | simp
  | _ => simp

theorem exec_occRepair_front (hf : FrontAct n m a)
    (h : (a.exec D now jobID s).sess.occRepair.isSome = true) : s.occRepair.isSome = true := by
  rcases exec_occRepair h with h | ⟨o, e, inTxn, rfl, -⟩
  · exact h
  · exact absurd rfl ((frontAct_quiet hf).1 o e inTxn)

theorem exec_chooseRestore (h : BackMode (a :: rest)) (hb : b ∈ (a.exec D 0 "" s).next)
    (hr : b.isChooseRestore = true) : s.occRepair.isSome = true := by
  obtain ⟨repair, rfl⟩ : ∃ repair, b = .chooseRestore repair := by
    cases b with
    | chooseRestore repair => exact ⟨repair, rfl⟩
    | _ => cases hr
  cases h with
  | starting =>
    dsimp only [Act.exec] at hb
    split at hb
    next hsome => rw [hsome]; rfl
    next => simp at hb
  | checking =>
    dsimp only [Act.exec] at hb
    (repeat' split at hb) <;> first | cases relay_repairing hb | simp at hb
  | pending =>
    dsimp only [Act.exec] at hb
    split at hb
    · cases hb
    · cases relay_repairing hb
  | ending => exact (finish_repair _ _ hb).elim
  | relaying h => exact (exec_relay (h a List.mem_cons_self) _ hb).elim
  | repairing h =>
    cases exec_repair (h a List.mem_cons_self) _ hb with
    | code h => exact h.elim
  | _ =>
    dsimp only [Act.exec] at hb
    (repeat' split at hb) <;> simp at hb

theorem relay_not_noteTxStatus {r : Reply} {st : TxStatus} : .noteTxStatus st ∉ relay D r := by
  obtain ⟨o, m⟩ := r
  cases m with
  | error e => simp only [relay]; split <;> simp
  | _ => simp [relay]

theorem exec_noteTxStatus {st : TxStatus} (h : BackMode (a :: rest))
    (hb : .noteTxStatus st ∈ (a.exec D 0 "" s).next) :
    s.occRepair = none ∧ rest = [] ∧ ∃ o st', a = .startRepair o st' := by
  cases h with
  | @starting o st' =>
    dsimp only [Act.exec] at hb
    split at hb
    · simp at hb
    next hnone => exact ⟨hnone, rfl, o, st', rfl⟩
  | checking =>
    dsimp only [Act.exec] at hb
    (repeat' split at hb) <;> first | exact absurd hb relay_not_noteTxStatus | simp at hb
  | pending =>
    dsimp only [Act.exec] at hb
    split at hb
    · cases hb
    · exact absurd hb relay_not_noteTxStatus
  | ending => exact (finish_repair _ _ hb).elim
  | relaying h =>
    have ha := h a List.mem_cons_self
    cases a with
    | _ =>
      first | exact ha.elim | (dsimp only [Act.exec] at hb; (repeat' split at hb) <;> simp at hb)
  | repairing h =>
    cases exec_repair (h a List.mem_cons_self) _ hb with
    | code h => exact h.elim
  | _ =>
    dsimp only [Act.exec] at hb
    (repeat' split at hb) <;> simp at hb

end Frames

def Noted (s : Session) (back : List Act) : Prop :=
  ∀ st, .noteTxStatus st ∈ back → s.occRepair = none ∧ ∀ b ∈ back, b.conflict = none

theorem Noted.exec {s : Session} {a : Act} {rest : List Act} (h : Noted s (a :: rest))
    (hmode : BackMode (a :: rest)) :
    Noted (a.exec D 0 "" s).sess ((a.exec D 0 "" s).next ++ rest) := by
  intro st hst
  rcases List.mem_append.1 hst with hst | hst
  · obtain ⟨hnone, rfl, o, st', rfl⟩ := exec_noteTxStatus hmode hst
    simp [hnone]
  · obtain ⟨hnone, hquiet⟩ := h st (List.mem_cons_of_mem a hst)
    refine ⟨?_, fun b hb => ?_⟩
    · cases hrepair : (a.exec D 0 "" s).sess.occRepair with
      | none => rfl
      | some repair =>
        rcases exec_occRepair (D := D) (a := a) (s := s) (by rw [hrepair]; rfl) with hsome |
          ⟨o, e, inTxn, rfl, -⟩
        · rw [hnone] at hsome
          cases hsome
        · cases hquiet _ List.mem_cons_self
    · rcases List.mem_append.1 hb with hb | hb
      · cases hc : b.conflict with
        | none => rfl
        | some o =>
          exact absurd (exec_conflict hmode hb hc) (by rw [hquiet a List.mem_cons_self]; simp)
      · exact hquiet b (List.mem_cons_of_mem a hb)

section Front

variable {w : World U} {g : Tally} {a : Act} {rest : List Act} {now : Nat} {jobID : String}

theorem foldl_record_closed {kinds : List Kind} {t : Tracker} (h : .begin ∉ kinds)
    (ht : t.inTxn = false) : (kinds.foldl (Tracker.record now) t).inTxn = false := by
  induction kinds generalizing t with
  | nil => exact ht
  | cons k kinds ih =>
    rw [List.mem_cons, not_or] at h
    refine ih h.2 ?_
    cases k <;> first | exact ht | rfl | exact absurd rfl h.1

theorem admitKinds_closed {kinds : List Kind} {t t' : Tracker} {v : Option Violation}
    (h : t.admitKinds kinds now = (t', v)) (hbegin : .begin ∉ kinds) (ht : t.inTxn = false) :
    t'.inTxn = false := by
  have hfresh : t.fresh.inTxn = false := by
    unfold Tracker.fresh
    split
    · exact ht
    · exact ht
  rcases t.admitKinds_cases kinds now with ⟨v', hv⟩ | ⟨-, hv⟩ <;> (rw [hv] at h; cases h)
  · exact hfresh
  · exact foldl_record_closed hbegin hfresh

theorem inTxn_front (hok : Reckoned T (.front now jobID) (w, g)) (hf : w.front = a :: rest) :
    (a.exec D now jobID w.sess).sess.tracker.inTxn = w.sess.tracker.inTxn ∨ w.Silent ∧
      ((a.exec D now jobID w.sess).sess.tracker.inTxn = true →
          ∃ n m info, a = .admitKinds n m info ∧
        (w.sess.tracker.admitKinds info.kinds now).2 = none ∧ .begin ∈ info.kinds) := by
  obtain ⟨hcontrolled, hbilled, -, -⟩ := hok
  have hact : (Label.front now jobID : Label U).act w = some a := Label.act_front hf
  cases ha : a.admits with
  | false => exact .inl (congrArg Tracker.inTxn (exec_tracker ha))
  | true =>
    cases a with
    | admitKinds n m info =>
      cases hruling : w.sess.tracker.admitKinds info.kinds now with
      | mk t v =>
        have hsess : ((Act.admitKinds n m info).exec D now jobID w.sess).sess.tracker = t := by
          simp only [Act.exec, hruling]
          cases v <;> rfl
        rw [hsess]
        cases v with
        | some v => exact .inl (admitKinds_inTxn hruling (.inl (by simp)))
        | none =>
          cases hkinds : Kind.controls info.kinds with
          | false => exact .inl (admitKinds_inTxn hruling (.inr hkinds))
          | true =>
            obtain ⟨-, hone, hsilent⟩ := hcontrolled.control (m, info.kinds) (by simp [hact]) hkinds
            refine .inr ⟨hsilent, fun hopen => ⟨n, m, info, rfl, by rw [hruling], ?_⟩⟩
            rw [admitKinds_controls hruling hkinds hone hopen]
            exact List.mem_singleton_self _
    | admitAsync n rewritten statement kinds =>
      cases hruling : w.sess.tracker.admitKinds kinds now with
      | mk t v =>
        have hsess :
            ((Act.admitAsync n rewritten statement kinds).exec D now jobID w.sess).sess.tracker =
            t := by
          simp only [Act.exec, hruling]
          cases v <;> rfl
        rw [hsess]
        cases v with
        | some v => exact .inl (admitKinds_inTxn hruling (.inl (by simp)))
        | none =>
          obtain ⟨hclosed, hbegin⟩ :=
            hbilled.async kinds (by simp [hact]) (by simp only [Label.now, hruling])
          exact .inl ((admitKinds_closed hruling hbegin hclosed).trans hclosed.symm)
    | admitRollback =>
      refine .inr ⟨hcontrolled.aborted hact, fun hopen => ?_⟩
      simp [Tracker.record, Tracker.reset] at hopen
    | _ => cases ha

theorem budget_front (hD : Speaks D parse) (ht : Threads w) (hfronted : Fronted parse w.front)
    (hlength : g.counted.length = w.sess.occTxnStatements)
    (hbudget : w.sess.tracker.inTxn = true → Budget parse w.sess w.front w.toUp g)
    (hok : Reckoned T (.front now jobID) (w, g)) (hf : w.front = a :: rest)
    (hopen : (a.exec D now jobID w.sess).sess.tracker.inTxn = true) :
    Budget parse (a.exec D now jobID w.sess).sess ((a.exec D now jobID w.sess).next ++ rest)
      (w.toUp ++ (a.exec D now jobID w.sess).up) (g.follow now w.sess a) := by
  have hact : (Label.front now jobID : Label U).act w = some a := Label.act_front hf
  obtain ⟨hcontrolled, hbilled, -, -⟩ := hok
  rw [hf] at hbudget hfronted
  cases ha : a.admits with
  | false =>
    have hin : w.sess.tracker.inTxn = true :=
      (congrArg Tracker.inTxn (exec_tracker ha)).symm.trans hopen
    obtain ⟨m, -, hfront⟩ := ht.head hf
    refine (hbudget hin).front hD hfront ha (fun b hb => ?_) (fun x hx => ?_)
      fun kinds hkinds hcontrols => ?_
    · exact hbilled.known b (by rw [hact]; exact hb) hin
    · exact hbilled.executes x (by rw [hact]; exact hx) hin
    · rw [← List.length_eq_zero_iff, hlength]
      exact hcontrolled.counts kinds (by rw [hact]; exact hkinds) hcontrols hin
  | true =>
    cases a with
    | admitKinds n m info =>
      refine .admission hD hfronted hbudget (fun hcontrols => ?_) (fun hbegin => ?_) hopen
      · obtain ⟨hquery, hone, hsilent⟩ :=
          hcontrolled.control (m, info.kinds) (by simp [hact]) hcontrols
        exact ⟨hquery, hone, hsilent.2.1⟩
      · obtain ⟨hran, hnone, -⟩ := hcontrolled.begins (m, info.kinds) (by simp [hact]) hbegin
        exact ⟨hran, hnone⟩
    | admitAsync n rewritten statement kinds =>
      cases hruling : w.sess.tracker.admitKinds kinds now with
      | mk t v =>
        simp only [Act.exec, hruling] at hopen ⊢
        cases v with
        | some v =>
          have hin : w.sess.tracker.inTxn = true :=
            (admitKinds_inTxn hruling (.inl (by simp))).symm.trans hopen
          rw [List.append_nil]
          exact (hbudget hin).relead ⟨rfl, rfl⟩ ⟨rfl, rfl⟩ rfl (bills_free reject_free) rfl
        | none =>
          obtain ⟨hclosed, hbegin⟩ :=
            hbilled.async kinds (by simp [hact]) (by simp only [Label.now, hruling])
          cases (admitKinds_closed hruling hbegin hclosed).symm.trans hopen
    | admitRollback => simp [Tracker.record, Tracker.reset] at hopen
    | _ => cases ha

end Front

section Back

variable {w : World U} {g : Tally} {a : Act} {rest : List Act} {s : Session} {front : List Act}
  {toUp : List Request}

theorem Budget.weaken {s' : Session} (h : Budget parse s front toUp g)
    (hs : s'.occInFlight = s.occInFlight ∨ s'.occInFlight = none) :
    Budget parse s' front toUp g := by
  refine ⟨h.used, ?_⟩
  have hheld := h.held
  rcases hs with hs | hs
  · rwa [hs]
  · rw [hs, Option.isSome_none, Bool.toNat_false]
    omega

theorem takesOver_isSome {inTxn : Bool} : (s.takesOver inTxn).isSome =
    ((s.occSavepoint || s.occTxnStatements ≤ 1) && inTxn && s.occInFlight.isSome &&
        s.pendingExchanges ≤ 1) := by
  rw [Bool.and_right_comm, Session.takesOver]
  split
  next h => rw [h, Bool.true_and, Option.isSome_map]
  next h => rw [Bool.eq_false_iff.2 h, Bool.false_and, Option.isSome_none]

theorem Budget.intercept {o : Origin} {e : ErrorFields} {inTxn : Bool}
    (h : Budget parse s front toUp g) :
    Budget parse ((Act.occIntercept o e inTxn).exec D 0 "" s).sess front toUp
      (g.follow 0 s (.occIntercept o e inTxn)) := by
  have hheld := h.held
  dsimp only [Act.exec, Tally.follow]
  rw [takesOver_isSome]
  split
  next htakes =>
    have hsome : s.occInFlight.isSome = true := by
      simp only [Bool.and_eq_true] at htakes
      exact htakes.1.2
    refine ⟨h.used, ?_⟩
    rw [hsome, Bool.toNat_true] at hheld
    simp only [Option.isSome_none, Bool.toNat_false]
    omega
  next => exact h

theorem backMode_write {o : Origin} {ms : List Frontend}
    (h : BackMode (.writeUpstream o ms :: rest)) :
    o.isClient = false ∧ ∀ k, o ≠ .hidden .savepoint k := by
  cases h with
  | relaying h => exact (h _ List.mem_cons_self).elim
  | repairing h =>
    cases h _ List.mem_cons_self with
    | code h => exact h.elim
    | exchange hp =>
      refine ⟨rfl, fun k hk => ?_⟩
      cases hk
      exact hp rfl
    | abort => exact ⟨rfl, by simp⟩

theorem budget_back (ht : Threads w) (hok : Reckoned T .back (w, g)) (hb : w.back = a :: rest)
    (hbudget : w.sess.tracker.inTxn = true → Budget parse w.sess w.front w.toUp g)
    (hopen : (a.exec D 0 "" w.sess).sess.tracker.inTxn = true) :
    Budget parse (a.exec D 0 "" w.sess).sess w.front (w.toUp ++ (a.exec D 0 "" w.sess).up)
      (g.follow 0 w.sess a) := by
  have hmode : BackMode (a :: rest) := hb ▸ ht.back
  obtain ⟨hadmits, -, harms⟩ := backMode_quiet hmode
  have hin : w.sess.tracker.inTxn = true :=
    (congrArg Tracker.inTxn (exec_tracker hadmits)).symm.trans hopen
  have h := hbudget hin
  have hkeep : Budget parse (a.exec D 0 "" w.sess).sess w.front w.toUp g :=
    h.weaken (exec_occInFlight harms)
  cases a with
  | writeUpstream o ms =>
    have hfollow : g.follow 0 w.sess (.writeUpstream o ms) = g := by
      cases o <;> first | rfl | cases (backMode_write hmode).1
    rw [hfollow]
    exact ⟨(Nat.add_le_add_right (Nat.le_of_eq (used_foreign (backMode_write hmode).1)) _).trans
      h.used, h.held⟩
  | occIntercept o e inTxn =>
    have hup : ((Act.occIntercept o e inTxn).exec D 0 "" w.sess).up = [] := exec_up (by simp)
    rw [hup, List.append_nil]
    exact h.intercept
  | noteTxStatus st =>
    cases st with
    | idle =>
      obtain ⟨hfront, htoUp, hran, hcredit, -⟩ := hok.2.2.1.idle (by simp [Label.act, hb]) hin
      dsimp only at hfront htoUp hran hcredit
      rw [hfront, htoUp]
      exact ⟨by simp [Tally.follow, Tally.used, hran, hcredit, due], by simp [Tally.follow, due]⟩
    | active => simpa [Tally.follow] using h
    | failed => simpa [Tally.follow] using h
  | countTxnStatement kinds =>
    cases hmode with
    | relaying h => exact (h _ List.mem_cons_self).elim
    | repairing h => cases h _ List.mem_cons_self with | code h => exact h.elim
  | admitKinds n m info => cases hadmits
  | _ =>
    rw [exec_up (by simp), List.append_nil]
    exact hkeep

end Back

section Answers

variable {g : Tally} {st : U.State} {q : Request} {qs : List Request} {s : Session}
  {front : List Act}

theorem countP_counts_le {c : U.Choice} (hskip : q.msg.tag = .query → T.skips st = false) :
    (T.runs st q.msg c).countP Run.counts ≤ weight parse q.msg := by
  refine Nat.le_trans (List.countP_mono_left fun r _ hcounts => ?_) (Transacts.countP_runs_le hskip)
  rw [Run.counts, Bool.and_eq_true] at hcounts
  exact hcounts.1

theorem Budget.answer (c : U.Choice) (h : Budget parse s front (q :: qs) g)
    (hskip : q.msg.tag = .query → T.skips st = false) :
    Budget parse s front qs { g with ran := T.entered q.origin st q.msg c g.ran } := by
  refine ⟨?_, h.held⟩
  have hran : (T.entered q.origin st q.msg c g.ran).countP (·.1.isClient) ≤ _ :=
    Transacts.countP_entered Origin.isClient
  have hcost : (if q.origin.isClient then (T.runs st q.msg c).countP Run.counts else 0) ≤
      q.cost parse := by
    rw [Request.cost]
    split
    · exact countP_counts_le hskip
    · exact Nat.le_refl _
  have hused := h.used
  simp only [Tally.used, List.map_cons, List.sum_cons] at hused ⊢
  omega

theorem awake_query {l : Label U} {w : World U} (hok : Reckoned T l (w, g)) {c : U.Choice}
    (hl : l = .answer c) (hq : w.toUp = q :: qs) (htag : q.msg.tag = .query) :
    T.skips w.up = false := by
  subst hl
  refine hok.2.2.2.awake (q, c) (by simp [Label.serves, hq]) ?_ fun hsync => ?_
  · simp [Frontend.drawsReady, htag]
  · rw [hsync] at htag
    cases htag

end Answers

section Notes

variable {w : World U} {g : Tally} {a : Act} {rest : List Act}

theorem note_front {now : Nat} {jobID : String} (hf : w.front = a :: rest) :
    Tally.note T (.front now jobID) w g = g.follow now w.sess a := by
  simp [Tally.note, Label.act, hf, Label.now]

theorem note_back (hb : w.back = a :: rest) : Tally.note T .back w g = g.follow 0 w.sess a := by
  simp [Tally.note, Label.act, hb, Label.now]

theorem note_answer {c : U.Choice} {q : Request} {qs : List Request} (hq : w.toUp = q :: qs) :
    Tally.note T (.answer c) w g = { g with ran := T.entered q.origin w.up q.msg c g.ran } := by
  simp [Tally.note, Label.act, Label.serves, hq]

theorem follow_counted {s : Session} {now : Nat} {jobID : String}
    (h : g.counted.length = s.occTxnStatements) :
    (g.follow now s a).counted.length = (a.exec D now jobID s).sess.occTxnStatements := by
  cases a with
  | aborted k m => obtain ⟨_, _, h'⟩ := exec_aborted_quiet k m; rw [h']; exact h
  | droppingUntilSync k m => obtain ⟨_, _, h'⟩ := exec_droppingUntilSync_quiet k m; rw [h']; exact h
  | countTxnStatement kinds =>
    have hexec : ((Act.countTxnStatement kinds).exec D now jobID s).sess.occTxnStatements =
        if Kind.controls kinds then 0 else s.occTxnStatements + 1 := by
      change (if Kind.controls kinds then _ else _ : Effect).sess.occTxnStatements = _
      split <;> rfl
    rw [hexec, Tally.follow]
    split
    · rfl
    · rw [List.length_append, h]
      rfl
  | noteTxStatus st =>
    dsimp only [Tally.follow, Act.exec]
    split
    · rfl
    · exact h
  | writeUpstream o ms => cases o <;> exact h
  | admitKinds k m info =>
    dsimp only [Tally.follow, Act.exec]
    (repeat' split) <;> exact h
  | occIntercept o e inTxn =>
    dsimp only [Tally.follow, Act.exec]
    (repeat' split) <;> exact h
  | _ =>
    change g.counted.length = _
    dsimp only [Act.exec]
    (repeat' split) <;> exact h

end Notes

structure Tallied (parse : String → Option (List Statement)) (w : World U) (g : Tally) : Prop where
  threads : Threads w
  lone : w.sess.Lone
  fronted : Fronted parse w.front
  length : g.counted.length = w.sess.occTxnStatements
  budget : w.sess.tracker.inTxn = true → Budget parse w.sess w.front w.toUp g

section Tallied

variable {w w' : World U} {g : Tally} {l : Label U}

theorem Tallied.start : Tallied parse (World.start D U) {} where
  threads := Threads.start
  lone name info h := by cases h
  fronted := trivial
  length := rfl
  budget h := by cases h

theorem pumpFrontend_fronted {n : Nat} {m : Frontend} : Fronted parse (pumpFrontend n m) ∧
    bills parse (pumpFrontend n m) = 0 ∧ arms (pumpFrontend n m) = 0 := by
  unfold pumpFrontend
  split
  · exact ⟨fronted_of_tame (by simp), by simp [due, charge], by simp [due]⟩
  · exact ⟨fronted_of_tame (by simp), by simp [due], by simp [due]⟩
  · exact ⟨fronted_cons (by simp) (by simp), by simp [due], by simp [due]⟩

theorem Tallied.moves (hD : Speaks D parse) (h : Tallied parse w g) (hok : Reckoned T l (w, g))
    (hm : Moves D l w w') : Tallied parse w' (Tally.note T l w g) := by
  have hthreads : Threads w' := h.threads.moves hm
  cases hm with
  | send => exact ⟨hthreads, h.lone, h.fronted, h.length, h.budget⟩
  | @readClient _ m rest hf _ _ =>
    obtain ⟨hfronted, hbills, harms⟩ : Fronted parse (pumpFrontend w.read m) ∧ _ :=
      pumpFrontend_fronted
    refine ⟨hthreads, h.lone, hfronted, h.length, fun hin => ?_⟩
    have hused := (h.budget hin).used
    have hheld := (h.budget hin).held
    rw [hf] at hused hheld
    exact ⟨hbills ▸ hused, harms ▸ hheld⟩
  | @front _ now jobID a rest hf =>
    rw [note_front hf]
    exact ⟨hthreads, exec_lone hD h.lone, exec_fronted hD h.lone (hf ▸ h.fronted),
      follow_counted h.length, budget_front hD h.threads h.fronted h.length h.budget hok hf⟩
  | readUpstream _ _ _ => exact ⟨hthreads, h.lone, h.fronted, h.length, h.budget⟩
  | @back _ a rest hb =>
    rw [note_back hb]
    exact ⟨hthreads, exec_lone hD h.lone, h.fronted, follow_counted h.length,
      budget_back h.threads hok hb h.budget⟩
  | @answer _ c q qs hq =>
    rw [note_answer hq]
    refine ⟨hthreads, h.lone, h.fronted, h.length, fun hin => ?_⟩
    have hbudget := h.budget hin
    rw [hq] at hbudget
    exact hbudget.answer c (awake_query hok rfl hq)

end Tallied

/-- Setting a savepoint executes nothing. -/
structure Saved (w : World U) (g : Tally) : Prop where
  toUp : ∀ q ∈ w.toUp, ∀ k, q.origin = .hidden .savepoint k → q.msg = savepointQuery
  ran : ∀ x ∈ g.ran, ∀ k, x.1 ≠ .hidden .savepoint k

structure Dealt (w : World U) : Prop where
  intercepts : ∀ o e, .occIntercept o e true ∈ w.back → w.sess.tracker.inTxn = true
  noted : Noted w.sess w.back

section Pumps

variable {w w' : World U} {g : Tally} {l : Label U}

theorem frontAct_savepoint {n k : Nat} {m : Frontend} {a : Act} {o : Origin} {ms : List Frontend}
    (h : FrontAct n m a) (ha : a = .writeUpstream o ms) (ho : o = .hidden .savepoint k) :
    ms = [savepointQuery] := by
  subst ha ho
  cases h with
  | code h => exact h.elim
  | savepoint => rfl

theorem mem_up {a : Act} {s : Session} {now : Nat} {jobID : String} {q : Request}
    (h : q ∈ (a.exec D now jobID s).up) : ∃ ms, a = .writeUpstream q.origin ms ∧ q.msg ∈ ms := by
  by_cases hwrite : ∃ o ms, a = .writeUpstream o ms
  · obtain ⟨o, ms, rfl⟩ := hwrite
    obtain ⟨m, hm, rfl⟩ := List.mem_map.1 h
    exact ⟨ms, rfl, hm⟩
  · rw [exec_up fun o ms ha => hwrite ⟨o, ms, ha⟩] at h
    cases h

theorem Saved.moves (hD : Speaks D parse) (h : Saved w g) (ht : Threads w)
    (hok : Reckoned T l (w, g)) (hm : Moves D l w w') : Saved w' (Tally.note T l w g) := by
  cases hm with
  | send => exact ⟨h.toUp, h.ran⟩
  | readClient _ _ _ => exact ⟨h.toUp, h.ran⟩
  | readUpstream _ _ _ => exact ⟨h.toUp, h.ran⟩
  | @front _ now jobID a rest hf =>
    rw [note_front hf]
    refine ⟨fun q hq k hk => ?_, by rw [follow_ran]; exact h.ran⟩
    rcases List.mem_append.1 hq with hq | hq
    · exact h.toUp q hq k hk
    · obtain ⟨ms, ha, hms⟩ := mem_up hq
      obtain ⟨m, -, hfront⟩ := ht.head hf
      rw [frontAct_savepoint hfront ha hk] at hms
      exact List.mem_singleton.1 hms
  | @back _ a rest hb =>
    rw [note_back hb]
    refine ⟨fun q hq k hk => ?_, by rw [follow_ran]; exact h.ran⟩
    rcases List.mem_append.1 hq with hq | hq
    · exact h.toUp q hq k hk
    · obtain ⟨ms, rfl, -⟩ := mem_up hq
      exact absurd hk ((backMode_write (hb ▸ ht.back)).2 k)
  | @answer _ c q qs hq =>
    rw [note_answer hq]
    refine ⟨fun x hx => h.toUp x (hq ▸ List.mem_cons_of_mem q hx), fun x hx k hk => ?_⟩
    rcases Transacts.mem_entered hx with hx | ⟨ho, r, hr, hcounts⟩
    · exact h.ran x hx k hk
    · have hmsg := h.toUp q (hq ▸ List.mem_cons_self) k (ho.symm.trans hk)
      have hle : (T.runs w.up q.msg c).countP Run.counts ≤ weight parse q.msg :=
        countP_counts_le (awake_query hok rfl hq)
      rw [hmsg, hD.savepoint, ← hmsg] at hle
      exact Nat.not_lt_zero _ (Nat.lt_of_lt_of_le (List.countP_pos_iff.2 ⟨r, hr, hcounts⟩) hle)

theorem relay_not_occIntercept {r : Reply} {o : Origin} {e : ErrorFields} {inTxn : Bool} :
    .occIntercept o e inTxn ∉ relay D r := by
  obtain ⟨o', m⟩ := r
  cases m with
  | error e => simp only [relay]; split <;> simp
  | _ => simp [relay]

theorem exec_intercepts {a : Act} {s : Session} {rest : List Act} {o : Origin} {e : ErrorFields}
    {inTxn : Bool} (h : BackMode (a :: rest))
    (hb : .occIntercept o e inTxn ∈ (a.exec D 0 "" s).next) : inTxn = s.tracker.inTxn := by
  have hconflict : a.conflict = some o := exec_conflict h hb rfl
  cases a with
  | readInTxn o' e' =>
    cases List.mem_singleton.1 hb
    rfl
  | consumeHidden r | occIntercept o' e' b =>
    dsimp only [Act.exec] at hb
    (repeat' split at hb) <;> simp at hb
  | failureActive r | repairPending r =>
    dsimp only [Act.exec] at hb
    (repeat' split at hb) <;> first | exact absurd hb relay_not_occIntercept | simp at hb
  | _ => cases hconflict

theorem Dealt.moves (h : Dealt w) (ht : Threads w) (hok : Reckoned T l (w, g))
    (hm : Moves D l w w') : Dealt w' := by
  cases hm with
  | send => exact ⟨h.intercepts, h.noted⟩
  | readClient _ _ _ => exact ⟨h.intercepts, h.noted⟩
  | readUpstream _ _ _ =>
    refine ⟨fun o e ho => ?_, fun st hst => ?_⟩
    · rcases mem_pumpBackend ho with ho | ho <;> cases ho
    · rcases mem_pumpBackend hst with hst | hst <;> cases hst
  | @front _ now jobID a rest hf =>
    obtain ⟨m, -, hfront⟩ := ht.head hf
    refine ⟨fun o e ho => ?_, fun st hst => ⟨?_, (h.noted st hst).2⟩⟩
    · rcases inTxn_front (D := D) hok hf with hsame | ⟨hsilent, -⟩
      · exact hsame.trans (h.intercepts o e ho)
      · have hback : w.back = [] := hsilent.1
        cases hback ▸ ho
    · cases hrepair : (a.exec D now jobID w.sess).sess.occRepair with
      | none => exact hrepair
      | some repair =>
        have hsome : w.sess.occRepair.isSome = true :=
          exec_occRepair_front (D := D) hfront (by rw [hrepair]; rfl)
        rw [(h.noted st hst).1] at hsome
        cases hsome
  | @back _ a rest hb =>
    have hmode : BackMode (a :: rest) := hb ▸ ht.back
    refine ⟨fun o e ho => ?_, (hb ▸ h.noted).exec hmode⟩
    have htracker : (a.exec D 0 "" w.sess).sess.tracker = w.sess.tracker :=
      exec_tracker (backMode_quiet hmode).1
    change (a.exec D 0 "" w.sess).sess.tracker.inTxn = true
    rw [htracker]
    rcases List.mem_append.1 ho with ho | ho
    · exact (exec_intercepts hmode ho).symm
    · exact h.intercepts o e (hb ▸ List.mem_cons_of_mem a ho)
  | answer _ => exact ⟨h.intercepts, h.noted⟩

end Pumps

structure Unrepaired (w : World U) (g : Tally) : Prop where
  ran : ∀ x ∈ g.ran, x.1.repairs = false
  toUp : ∀ q ∈ w.toUp, q.origin.repairs = false
  sess : w.sess.repairs = []
  back : ∀ a ∈ w.back, a.repairing = none ∧ ∀ o ms, a = .writeUpstream o ms → o.repairs = false

section Unrepaired

variable {w w' : World U} {g : Tally} {l : Label U} {a b : Act} {rest : List Act}
  {s : Session} {now n : Nat} {m : Frontend} {jobID : String}

theorem frontAct_repairs {o : Origin} {ms : List Frontend}
    (h : FrontAct n m (.writeUpstream o ms)) : o.repairs = false := by
  cases h with
  | code h => cases o <;> first | rfl | exact h.elim
  | _ => rfl

theorem exec_repairs_write {o : Origin} {ms : List Frontend} (h : BackMode (a :: rest))
    (ha : a.repairing = none) (hb : .writeUpstream o ms ∈ (a.exec D 0 "" s).next) :
    o.repairs = false := by
  cases hs : a.setsHidden with
  | false =>
    have hmild := (exec_mode_mild h hs _ hb).2.1
    cases o <;> first | rfl | cases hmild
  | true =>
    cases a with
    | setHidden x ms =>
      simp only [Act.exec, List.mem_cons, List.not_mem_nil, or_false] at hb
      rcases hb with hb | hb <;> cases hb
      cases x <;> first | rfl | cases ha
    | consumeHidden r =>
      dsimp only [Act.exec] at hb
      (repeat' split at hb) <;> simp at hb
    | clearHidden x => exact (finish_repair _ _ hb).elim
    | _ => cases hs

theorem follow_taken (h : (g.follow now s a).taken = 0) :
    (g.taken = 0 ∧ ∀ inTxn, a.intercepting = some inTxn →
      s.takesOver inTxn = none) ∨ a = .noteTxStatus .idle ∨
      ∃ k m info, a = .admitKinds k m info ∧ (s.tracker.admitKinds info.kinds now).2 = none ∧
        .begin ∈ info.kinds := by
  cases a with
  | writeUpstream o ms => cases o <;> exact .inl ⟨h, by simp [Act.intercepting]⟩
  | admitKinds k m info =>
    dsimp only [Tally.follow] at h
    split at h
    next hbegin => exact .inr (.inr ⟨k, m, info, rfl, hbegin⟩)
    next => exact .inl ⟨h, by simp [Act.intercepting]⟩
  | occIntercept o e inTxn =>
    dsimp only [Tally.follow] at h
    split at h
    next => cases h
    next hnone => exact .inl ⟨h, by rintro _ ⟨⟩; simpa using hnone⟩
  | noteTxStatus st =>
    cases st with
    | idle => exact .inr (.inl rfl)
    | _ => exact .inl ⟨h, by simp [Act.intercepting]⟩
  | _ => exact .inl ⟨h, by simp [Act.intercepting]⟩

theorem controls_of_begin {kinds : List Kind} (h : .begin ∈ kinds) : Kind.controls kinds = true :=
  List.any_eq_true.2 ⟨.begin, h, rfl⟩

theorem repairs_of_none (hr : s.occRepair = none) (hh : s.hidden = none) : s.repairs = [] := by
  simp [Session.repairs, hr, hh]

theorem unrepaired_begin {k : Nat} {info : StatementInfo}
    (hok : Reckoned T (.front now jobID) (w, g)) (hf : w.front = .admitKinds k m info :: rest)
    (hbegin : .begin ∈ info.kinds) :
    Unrepaired (w.applyFront rest ((Act.admitKinds k m info).exec D now jobID w.sess))
      (g.follow now w.sess (.admitKinds k m info)) := by
  have hact : (Label.front now jobID : Label U).act w = some (.admitKinds k m info) := by
    simp [Label.act, hf]
  obtain ⟨hcontrolled, -⟩ := hok
  obtain ⟨-, -, hback, htoUp, -⟩ := hcontrolled.control (m, info.kinds) (by simp [hact])
    (controls_of_begin hbegin)
  obtain ⟨hran, -, hrepair, hhidden⟩ := hcontrolled.begins (m, info.kinds) (by simp [hact]) hbegin
  dsimp only at hback htoUp hran hrepair hhidden
  have hup : ((Act.admitKinds k m info).exec D now jobID w.sess).up = [] := exec_up (by simp)
  refine ⟨?_, ?_, ?_, ?_⟩
  · rw [follow_ran, hran]
    simp
  · intro q hq
    change q ∈ w.toUp ++ ((Act.admitKinds k m info).exec D now jobID w.sess).up at hq
    rw [htoUp, hup] at hq
    cases hq
  · change ((Act.admitKinds k m info).exec D now jobID w.sess).sess.repairs = []
    rw [List.eq_nil_iff_forall_not_mem]
    intro i hi
    rcases exec_repairs hi with hi | hi | ⟨inTxn, hi, -⟩
    · rw [repairs_of_none hrepair hhidden] at hi
      cases hi
    · cases hi
    · cases hi
  · intro b hb
    change b ∈ w.back at hb
    rw [hback] at hb
    cases hb

theorem Unrepaired.front (h : Unrepaired w g) (ht : Threads w) (hf : w.front = a :: rest) :
    Unrepaired (w.applyFront rest (a.exec D now jobID w.sess)) (g.follow now w.sess a) := by
  obtain ⟨m, -, hfront⟩ := ht.head hf
  refine ⟨by rw [follow_ran]; exact h.ran, fun q hq => ?_, ?_, h.back⟩
  · rcases List.mem_append.1 hq with hq | hq
    · exact h.toUp q hq
    · obtain ⟨ms, rfl, -⟩ := mem_up hq
      exact frontAct_repairs hfront
  · change (a.exec D now jobID w.sess).sess.repairs = []
    rw [List.eq_nil_iff_forall_not_mem]
    intro i hi
    rcases exec_repairs hi with hi | hi | ⟨inTxn, hi, -⟩
    · rw [h.sess] at hi
      cases hi
    · rw [frontAct_repairing hfront] at hi
      cases hi
    · cases a with
      | occIntercept o e b => exact (frontAct_quiet hfront).1 o e b rfl
      | _ => cases hi

theorem Unrepaired.back_step (h : Unrepaired w g) (ht : Threads w) (hb : w.back = a :: rest)
    (htakes : ∀ inTxn, a.intercepting = some inTxn → w.sess.takesOver inTxn = none) :
    Unrepaired (w.applyBack rest (a.exec D 0 "" w.sess)) (g.follow 0 w.sess a) := by
  have hmode : BackMode (a :: rest) := hb ▸ ht.back
  obtain ⟨harepairs, hawrites⟩ := h.back a (hb ▸ List.mem_cons_self)
  refine ⟨by rw [follow_ran]; exact h.ran, fun q hq => ?_, ?_, fun b hmem => ?_⟩
  · rcases List.mem_append.1 hq with hq | hq
    · exact h.toUp q hq
    · obtain ⟨ms, ha, -⟩ := mem_up hq
      exact hawrites _ ms ha
  · change (a.exec D 0 "" w.sess).sess.repairs = []
    rw [List.eq_nil_iff_forall_not_mem]
    intro i hi
    rcases exec_repairs hi with hi | hi | ⟨inTxn, hin, hi⟩
    · rw [h.sess] at hi
      cases hi
    · rw [harepairs] at hi
      cases hi
    · rw [htakes inTxn hin] at hi
      cases hi
  · rcases List.mem_append.1 hmem with hmem | hmem
    · refine ⟨?_, fun o ms hwrite => exec_repairs_write hmode harepairs (hwrite ▸ hmem)⟩
      cases hi : b.repairing with
      | none => rfl
      | some i =>
        rcases exec_next_repairing hmode hmem hi with hi | hi
        · rw [h.sess] at hi
          cases hi
        · rw [harepairs] at hi
          cases hi
    · exact h.back b (hb ▸ List.mem_cons_of_mem a hmem)

theorem unrepaired_idle (ht : Threads w) (hdealt : Dealt w) (hok : Reckoned T .back (w, g))
    (hb : w.back = .noteTxStatus .idle :: rest) (hin : w.sess.tracker.inTxn = true) :
    Unrepaired (w.applyBack rest ((Act.noteTxStatus .idle).exec D 0 "" w.sess))
      (g.follow 0 w.sess (.noteTxStatus .idle)) := by
  obtain ⟨-, htoUp, hran, -, hhidden⟩ := hok.2.2.1.idle (by simp [Label.act, hb]) hin
  have hrepair := (hdealt.noted .idle (hb ▸ List.mem_cons_self)).1
  dsimp only at htoUp hran hhidden
  have hmode : BackMode (.noteTxStatus .idle :: rest) := hb ▸ ht.back
  refine ⟨by rw [follow_ran, hran]; simp, by simp [World.applyBack, htoUp], ?_, fun b hmem => ?_⟩
  · exact repairs_of_none hrepair hhidden
  · cases hmode with
    | relaying h =>
      have hcode := h b (List.mem_cons_of_mem _ (by simpa [World.applyBack] using hmem))
      refine ⟨relayCode_repairing hcode, ?_⟩
      rintro o ms rfl
      exact hcode.elim
    | repairing h => cases h _ List.mem_cons_self with | code h => exact h.elim

theorem unrepaired_moves (ht : Threads w) (hdealt : Dealt w) (hok : Reckoned T l (w, g))
    (hm : Moves D l w w') (h : w.sess.tracker.inTxn = true → g.taken = 0 → Unrepaired w g)
    (hopen : w'.sess.tracker.inTxn = true) (htaken : (Tally.note T l w g).taken = 0) :
    Unrepaired w' (Tally.note T l w g) := by
  cases hm with
  | send =>
    obtain ⟨hran, htoUp, hsess, hback⟩ := h hopen htaken
    exact ⟨hran, htoUp, hsess, hback⟩
  | readClient _ _ _ =>
    obtain ⟨hran, htoUp, hsess, hback⟩ := h hopen htaken
    exact ⟨hran, htoUp, hsess, hback⟩
  | readUpstream _ _ _ =>
    obtain ⟨hran, htoUp, hsess, -⟩ := h hopen htaken
    refine ⟨hran, htoUp, hsess, fun a ha => ?_⟩
    rcases mem_pumpBackend ha with rfl | rfl <;> exact ⟨rfl, by simp⟩
  | @front _ now jobID a rest hf =>
    rw [note_front hf] at htaken ⊢
    obtain ⟨m, -, hfront⟩ := ht.head hf
    rcases follow_taken htaken with ⟨htaken, -⟩ | rfl | ⟨k, m, info, rfl, -, hbegin⟩
    · rcases inTxn_front (D := D) hok hf with hsame | ⟨-, hbegins⟩
      · exact (h (hsame.symm.trans hopen) htaken).front ht hf
      · obtain ⟨k, m, info, rfl, -, hbegin⟩ := hbegins hopen
        exact unrepaired_begin hok hf hbegin
    · exact absurd rfl ((frontAct_quiet hfront).2.1 .idle)
    · exact unrepaired_begin hok hf hbegin
  | @back _ a rest hb =>
    rw [note_back hb] at htaken ⊢
    have hadmits := (backMode_quiet (hb ▸ ht.back)).1
    have hin : w.sess.tracker.inTxn = true :=
      (congrArg Tracker.inTxn (exec_tracker hadmits)).symm.trans hopen
    rcases follow_taken htaken with ⟨htaken, htakes⟩ | rfl | ⟨k, m, info, rfl, -⟩
    · exact (h hin htaken).back_step ht hb htakes
    · exact unrepaired_idle ht hdealt hok hb hin
    · cases hadmits
  | @answer _ c q qs hq =>
    rw [note_answer hq] at htaken ⊢
    obtain ⟨hran, htoUp, hsess, hback⟩ := h hopen htaken
    refine ⟨fun x hx => ?_, fun x hx => htoUp x (hq ▸ List.mem_cons_of_mem q hx), hsess, hback⟩
    rcases Transacts.mem_entered hx with hx | ⟨ho, -⟩
    · exact hran x hx
    · rw [ho]
      exact htoUp q (hq ▸ List.mem_cons_self)

end Unrepaired

structure Halting (T : Transacts U parse) (w : World U) (g : Tally) : Prop where
  halted : w.refusing = true → T.status w.up ≠ .active
  errors : ∀ o ∈ w.errors, o.isClient = true ∧
    (T.opened w.up = true → (∃ s, (o, s) ∈ g.ran) ∧ ∀ x ∈ g.ran, x.1.isFailure = false)

section Halting

variable {w w' : World U} {g : Tally} {l : Label U} {a : Act} {rest : List Act}

theorem refusing_iff : w.refusing = true ↔ (∃ o, o ∈ w.errors) ∨ w.pending = true := by
  rw [World.refusing, Bool.or_eq_true, decide_eq_true_eq]
  refine or_congr_left ⟨fun h => List.exists_mem_of_ne_nil _ h, ?_⟩
  rintro ⟨o, ho⟩ hnil
  rw [hnil] at ho
  cases ho

theorem errors_back {o : Origin} (ht : Threads w) (hb : w.back = a :: rest)
    (h : o ∈ (w.applyBack rest (a.exec D 0 "" w.sess)).errors) : o ∈ w.errors := by
  rcases List.mem_append.1 h with h | h
  · refine List.mem_append_left _ ?_
    obtain ⟨b, hmem, hbo⟩ := List.mem_filterMap.1 h
    rw [hb]
    rcases List.mem_append.1 hmem with hmem | hmem
    · exact List.mem_filterMap.2 ⟨a, List.mem_cons_self, exec_conflict (hb ▸ ht.back) hmem hbo⟩
    · exact List.mem_filterMap.2 ⟨b, List.mem_cons_of_mem a hmem, hbo⟩
  · exact List.mem_append_right _ h

theorem errors_readUpstream {r : Reply} {rest : List Reply} (hb : w.back = [])
    (hu : w.fromUp = r :: rest) :
    ({ w with back := pumpBackend r, fromUp := rest } : World U).errors = w.errors := by
  simp only [World.errors, hb, hu, pumpBackend_conflict, List.filterMap_nil, List.nil_append,
    List.filterMap_cons]
  cases r.conflict <;> rfl

theorem pending_iff :
    w.pending = true ↔ w.sess.occRepair.isSome = true ∨ ∃ b ∈ w.back, b.isChooseRestore = true := by
  rw [World.pending, Bool.or_eq_true, List.any_eq_true]

theorem pending_front {now : Nat} {jobID : String} (ht : Threads w) (hf : w.front = a :: rest)
    (h : (w.applyFront rest (a.exec D now jobID w.sess)).pending = true) : w.pending = true := by
  obtain ⟨m, -, hfront⟩ := ht.head hf
  rcases pending_iff.1 h with h | h
  · exact pending_iff.2 (.inl (exec_occRepair_front hfront h))
  · exact pending_iff.2 (.inr h)

theorem pending_back (ht : Threads w) (hb : w.back = a :: rest)
    (h : (w.applyBack rest (a.exec D 0 "" w.sess)).pending = true) : w.pending = true ∨
      ∃ o e inTxn, a = .occIntercept o e inTxn ∧ (w.sess.takesOver inTxn).isSome = true := by
  rcases pending_iff.1 h with h | ⟨b, hmem, hr⟩
  · exact (exec_occRepair h).imp_left fun h => pending_iff.2 (.inl h)
  · rcases List.mem_append.1 hmem with hmem | hmem
    · exact .inl (pending_iff.2 (.inl (exec_chooseRestore (hb ▸ ht.back) hmem hr)))
    · exact .inl (pending_iff.2 (.inr ⟨b, hb ▸ List.mem_cons_of_mem a hmem, hr⟩))

theorem pending_readUpstream {r : Reply} {rest : List Reply}
    (h : ({ w with back := pumpBackend r, fromUp := rest } : World U).pending = true) :
    w.pending = true := by
  rcases pending_iff.1 h with h | ⟨b, hmem, hr⟩
  · exact pending_iff.2 (.inl h)
  · rcases mem_pumpBackend hmem with rfl | rfl <;> cases hr

theorem stays_of_refusing {c : U.Choice} {q : Request} {qs : List Request} (h : Halting T w g)
    (hok : Reckoned T (.answer c) (w, g)) (hq : w.toUp = q :: qs) (hrefusing : w.refusing = true) :
    T.status w.up ≠ .active ∧ ∀ r ∈ T.runs w.up q.msg c, r.statement.moves = false :=
  ⟨h.halted hrefusing, hok.2.2.2.stays (q, c) (by simp [Label.serves, hq]) hrefusing⟩

theorem entered_of_refusing {c : U.Choice} {m : Frontend} {o : Origin}
    (h : T.status w.up ≠ .active ∧ ∀ r ∈ T.runs w.up m c, r.statement.moves = false)
    (hopened : T.opened (U.answer w.up m c).1 = true) :
    T.opened w.up = true ∧ T.entered o w.up m c g.ran = g.ran := by
  have hsame := Transacts.status_stays h.1 h.2
  rw [Transacts.opened, hsame] at hopened
  refine ⟨hopened, Transacts.entered_stays ?_ h.2⟩
  exact (TxStatus.opened_iff.1 hopened).resolve_left h.1

theorem errors_answer {c : U.Choice} {q : Request} {qs : List Request} {o : Origin}
    (h : o ∈ (w.applyAnswer q qs (U.answer w.up q.msg c)).errors) :
    o ∈ w.errors ∨ o = q.origin ∧ ∃ b ∈ (U.answer w.up q.msg c).2, b.isConflict = true := by
  change o ∈ w.back.filterMap Act.conflict ++ (w.fromUp ++ _).filterMap Reply.conflict at h
  rw [List.filterMap_append, ← List.append_assoc] at h
  rcases List.mem_append.1 h with h | h
  · exact .inl h
  · obtain ⟨r, hr, hro⟩ := List.mem_filterMap.1 h
    obtain ⟨b, hb, rfl⟩ := List.mem_map.1 hr
    simp only [Reply.conflict, Option.ite_none_right_eq_some, Option.some.injEq] at hro
    exact .inr ⟨hro.2.symm, b, hb, hro.1⟩

theorem isError_of_isConflict {b : Backend} (h : b.isConflict = true) : b.isError = true := by
  cases b <;> first | rfl | cases h

theorem Halting.moves (h : Halting T w g) (ht : Threads w) (hok : Reckoned T l (w, g))
    (hm : Moves D l w w') : Halting T w' (Tally.note T l w g) := by
  cases hm with
  | send => exact ⟨h.halted, h.errors⟩
  | readClient _ _ _ => exact ⟨h.halted, h.errors⟩
  | @readUpstream _ r rest hb hu _ =>
    have herrors := errors_readUpstream hb hu
    refine ⟨fun hrefusing => h.halted (refusing_iff.2 ?_), fun o ho => h.errors o (herrors ▸ ho)⟩
    rw [refusing_iff, herrors] at hrefusing
    exact hrefusing.imp_right pending_readUpstream
  | @front _ now jobID a rest hf =>
    rw [note_front hf]
    refine ⟨fun hrefusing => h.halted (refusing_iff.2 ?_), fun o ho => ?_⟩
    · exact (refusing_iff.1 hrefusing).imp_right (pending_front ht hf)
    · rw [follow_ran]
      exact h.errors o ho
  | @back _ a rest hb =>
    rw [note_back hb]
    refine ⟨fun hrefusing => h.halted (refusing_iff.2 ?_), fun o ho => ?_⟩
    · rcases refusing_iff.1 hrefusing with ⟨o, ho⟩ | hpending
      · exact .inl ⟨o, errors_back ht hb ho⟩
      · rcases pending_back ht hb hpending with hpending | ⟨o, e, inTxn, rfl, -⟩
        · exact .inr hpending
        · refine .inl ⟨o, List.mem_append_left _ ?_⟩
          rw [hb]
          exact List.mem_cons_self
    · rw [follow_ran]
      exact h.errors o (errors_back ht hb ho)
  | @answer _ c q qs hq =>
    rw [note_answer hq]
    have hanswers (hc : ∃ b ∈ (U.answer w.up q.msg c).2, b.isConflict = true) :
        ((Label.answer c : Label U).answers w).any (·.2.isConflict) = true := by
      obtain ⟨b, hb, hc⟩ := hc
      refine List.any_eq_true.2 ⟨(q, b), ?_, hc⟩
      rw [Label.answers, hq]
      exact List.mem_flatMap.2 ⟨q, List.mem_singleton_self q, List.mem_map.2 ⟨b, hb, rfl⟩⟩
    have hserves : (q, c) ∈ (Label.answer c : Label U).serves w := by simp [Label.serves, hq]
    refine ⟨fun hrefusing => ?_, fun o ho => ?_⟩
    · have hold (hrefusing : w.refusing = true) : T.status (U.answer w.up q.msg c).1 ≠ .active := by
        obtain ⟨hne, hmoves⟩ := stays_of_refusing h hok hq hrefusing
        rw [Transacts.status_stays hne hmoves]
        exact hne
      rcases refusing_iff.1 hrefusing with ⟨o, ho⟩ | hpending
      · rcases errors_answer ho with ho | ⟨-, b, hb, hc⟩
        · exact hold (refusing_iff.2 (.inl ⟨o, ho⟩))
        · exact Transacts.status_ne_active (List.any_eq_true.2 ⟨b, hb, isError_of_isConflict hc⟩)
      · exact hold (refusing_iff.2 (.inr hpending))
    · rcases errors_answer ho with ho | ⟨rfl, hc⟩
      · have hstays := stays_of_refusing h hok hq (refusing_iff.2 (.inl ⟨o, ho⟩))
        obtain ⟨hclient, hran⟩ := h.errors o ho
        refine ⟨hclient, fun hopened => ?_⟩
        obtain ⟨hfailed, hsame⟩ := entered_of_refusing (o := q.origin) (g := g) hstays hopened
        dsimp only
        rw [hsame]
        exact hran hfailed
      · obtain ⟨hclient, hran⟩ := hok.2.2.2.raises _ hserves (hanswers hc)
        refine ⟨hclient, fun hopened => ?_⟩
        obtain ⟨⟨r, hr, hfailed, hcounts⟩, hfailure⟩ := hran hopened
        refine ⟨⟨_, Transacts.mem_entered_of_failed hr hfailed hcounts hopened⟩, fun x hx => ?_⟩
        rcases Transacts.mem_entered hx with hx | ⟨ho, -⟩
        · exact hfailure x hx
        · rw [ho]
          cases horigin : q.origin with
          | failure k => rw [horigin] at hclient; cases hclient
          | _ => rfl

end Halting

theorem eq_singleton_of_client {ran : List (Origin × Statement)} {x : Origin × Statement}
    (hmem : x ∈ ran) (hcount : ran.countP (·.1.isClient) ≤ 1)
    (hall : ∀ x ∈ ran, x.1.isClient = true) : ran = [x] := by
  rw [List.countP_eq_length.2 hall] at hcount
  obtain ⟨y, rfl⟩ := List.length_eq_one_iff.1 (Nat.le_antisymm hcount (List.length_pos_of_mem hmem))
  rw [List.mem_singleton.1 hmem]

def Refused (T : Transacts U parse) (w : World U) (g : Tally) : Prop :=
  w.pending = true → T.opened w.up = true → w.sess.occSavepoint = false →
    ∃ n s, g.refused = some (.client n) ∧ g.ran = [(.client n, s)]

section Refused

variable {w w' : World U} {g : Tally} {l : Label U} {a : Act} {rest : List Act}

theorem ran_of_takesOver {o : Origin} {e : ErrorFields} {inTxn : Bool}
    (htallied : Tallied parse w g) (hsaved : Saved w g) (hdealt : Dealt w)
    (hunrepaired : w.sess.tracker.inTxn = true → g.taken = 0 → Unrepaired w g)
    (hhalting : Halting T w g) (hb : w.back = .occIntercept o e inTxn :: rest)
    (htakes : (w.sess.takesOver inTxn).isSome = true) (hsavepoint : w.sess.occSavepoint = false)
    (hblock : T.opened w.up = true) : ∃ n s, o = .client n ∧ g.ran = [(.client n, s)] := by
  rw [takesOver_isSome, hsavepoint, Bool.false_or] at htakes
  simp only [Bool.and_eq_true, decide_eq_true_eq] at htakes
  obtain ⟨⟨⟨hcount, rfl⟩, hflight⟩, -⟩ := htakes
  have hin : w.sess.tracker.inTxn = true := hdealt.intercepts o e (hb ▸ List.mem_cons_self)
  obtain ⟨hused, hheld⟩ := htallied.budget hin
  -- one batch was counted, of one statement, which is the one in flight
  have hones : g.counted.count 1 ≤ g.counted.length := List.count_le_length
  have hlength := htallied.length
  rw [hflight, Bool.toNat_true] at hheld
  have htaken : g.taken = 0 := by omega
  have hsum : g.counted.sum = 1 := by
    obtain ⟨k, hk⟩ := List.length_eq_one_iff.1 (show g.counted.length = 1 by omega)
    rw [hk] at hheld ⊢
    by_cases hk1 : k = 1
    · simp [hk1]
    · simp [hk1] at hheld
  have herror : o ∈ w.errors := by
    rw [World.errors, hb]
    exact List.mem_cons_self
  obtain ⟨hclient, hheld'⟩ := hhalting.errors o herror
  obtain ⟨⟨st, hmem⟩, hfailure⟩ := hheld' hblock
  have hran : g.ran = [(o, st)] := by
    refine eq_singleton_of_client hmem ?_ fun x hx => ?_
    · rw [Tally.used] at hused
      omega
    · obtain ⟨origin, s⟩ := x
      cases origin with
      | client n => rfl
      | failure k => cases hfailure _ hx
      | hidden p k =>
        cases p with
        | savepoint => exact absurd rfl (hsaved.ran _ hx k)
        | _ => cases (hunrepaired hin htaken).ran _ hx
  cases o with
  | client n => exact ⟨n, st, rfl, hran⟩
  | _ => cases hclient

theorem follow_refused {s : Session} {now : Nat}
    (h : ∀ o e inTxn, a = .occIntercept o e inTxn → (s.takesOver inTxn).isSome = false) :
    (g.follow now s a).refused = g.refused := by
  cases a with
  | writeUpstream o ms => cases o <;> rfl
  | admitKinds k m info =>
    dsimp only [Tally.follow]
    split <;> rfl
  | occIntercept o e inTxn =>
    dsimp only [Tally.follow]
    rw [h o e inTxn rfl]
    rfl
  | noteTxStatus st => cases st <;> rfl
  | _ => rfl

theorem pending_occSavepoint (ht : Threads w) (hdealt : Dealt w) (hok : Reckoned T .back (w, g))
    (hb : w.back = a :: rest) (hpending : (w.applyBack rest (a.exec D 0 "" w.sess)).pending = true)
    (hsavepoint : (a.exec D 0 "" w.sess).sess.occSavepoint = false) :
    w.sess.occSavepoint = false := by
  have hmode : BackMode (a :: rest) := hb ▸ ht.back
  rcases exec_occSavepoint hsavepoint with h | rfl | rfl
  · exact h
  · have hnone : w.sess.occRepair = none := hok.2.2.1.savepoint (by simp [Label.act, hb])
    rcases pending_iff.1 hpending with h | ⟨b, hmem, hr⟩
    · rw [show (w.applyBack rest (Act.clearSavepoint.exec D 0 "" w.sess)).sess.occRepair =
        none from hnone] at h
      cases h
    · cases hmode with
      | relaying h => exact (h _ List.mem_cons_self).elim
      | repairing h =>
        cases h b (List.mem_cons_of_mem _ hmem) with
        | code h => cases b <;> first | exact h.elim | cases hr
        | _ => cases hr
  · have hnone := (hdealt.noted .idle (hb ▸ List.mem_cons_self)).1
    rcases pending_iff.1 hpending with h | ⟨b, hmem, hr⟩
    · rw [show (w.applyBack rest ((Act.noteTxStatus .idle).exec D 0 "" w.sess)).sess.occRepair =
        none from hnone] at h
      cases h
    · cases hmode with
      | relaying h =>
        have hcode := h b (List.mem_cons_of_mem _ hmem)
        cases b <;> first | exact hcode.elim | cases hr
      | repairing h => cases h _ List.mem_cons_self with | code h => exact h.elim

theorem Refused.moves (h : Refused T w g) (htallied : Tallied parse w g) (hsaved : Saved w g)
    (hdealt : Dealt w) (hunrepaired : w.sess.tracker.inTxn = true → g.taken = 0 → Unrepaired w g)
    (hhalting : Halting T w g) (hok : Reckoned T l (w, g)) (hm : Moves D l w w') :
    Refused T w' (Tally.note T l w g) := by
  intro hpending hblock hsavepoint
  cases hm with
  | send => exact h hpending hblock hsavepoint
  | readClient _ _ _ => exact h hpending hblock hsavepoint
  | readUpstream _ _ _ => exact h (pending_readUpstream hpending) hblock hsavepoint
  | @front _ now jobID a rest hf =>
    obtain ⟨m, -, hfront⟩ := htallied.threads.head hf
    obtain ⟨hintercept, hnote, hclear⟩ := frontAct_quiet hfront
    rw [note_front hf, follow_ran, follow_refused fun o e inTxn ha =>
      absurd ha (hintercept o e inTxn)]
    refine h (pending_front htallied.threads hf hpending) hblock ?_
    rcases exec_occSavepoint hsavepoint with h | h | h
    · exact h
    · exact absurd h hclear
    · exact absurd h (hnote .idle)
  | @back _ a rest hb =>
    have hbefore := pending_occSavepoint htallied.threads hdealt hok hb hpending hsavepoint
    rw [note_back hb, follow_ran]
    by_cases htakes : ∃ o e inTxn, a = .occIntercept o e inTxn ∧
      (w.sess.takesOver inTxn).isSome = true
    · obtain ⟨o, e, inTxn, rfl, htakes⟩ := htakes
      obtain ⟨n, st, rfl, hran⟩ := ran_of_takesOver htallied hsaved hdealt hunrepaired hhalting hb
        htakes hbefore hblock
      refine ⟨n, st, ?_, hran⟩
      dsimp only [Tally.follow]
      rw [if_pos htakes]
    · have hnot (o : Origin) (e : ErrorFields) (inTxn : Bool) (ha : a = .occIntercept o e inTxn) :
          (w.sess.takesOver inTxn).isSome = false := Bool.eq_false_iff.2 fun ht =>
            htakes ⟨o, e, inTxn, ha, ht⟩
      rw [follow_refused hnot]
      exact h ((pending_back htallied.threads hb hpending).resolve_right htakes) hblock hbefore
  | @answer _ c q qs hq =>
    have hstays := stays_of_refusing hhalting hok hq (refusing_iff.2 (.inr hpending))
    obtain ⟨hopened, hsame⟩ := entered_of_refusing (o := q.origin) (g := g) hstays hblock
    rw [note_answer hq]
    dsimp only
    rw [hsame]
    exact h hpending hopened hsavepoint

structure Reckoning (T : Transacts U parse) (w : World U) (g : Tally) : Prop where
  tallied : Tallied parse w g
  saved : Saved w g
  dealt : Dealt w
  unrepaired : w.sess.tracker.inTxn = true → g.taken = 0 → Unrepaired w g
  halting : Halting T w g
  refused : Refused T w g

theorem Reckoning.start : Reckoning T (World.start D U) {} where
  tallied := .start
  saved := ⟨by simp [World.start], by simp⟩
  dealt := ⟨by simp [World.start], by simp [Noted, World.start]⟩
  unrepaired h := by cases h
  halting := ⟨by simp [World.refusing, World.errors, World.pending, World.start,
    Session.new], by simp [World.errors, World.start]⟩
  refused h := by cases h

theorem Reckoning.moves (hD : Speaks D parse) (h : Reckoning T w g) (hok : Reckoned T l (w, g))
    (hm : Moves D l w w') : Reckoning T w' (Tally.note T l w g) where
  tallied := h.tallied.moves hD hok hm
  saved := h.saved.moves hD h.tallied.threads hok hm
  dealt := h.dealt.moves h.tallied.threads hok hm
  unrepaired := unrepaired_moves h.tallied.threads h.dealt hok hm h.unrepaired
  halting := h.halting.moves h.tallied.threads hok hm
  refused := h.refused.moves h.tallied h.saved h.dealt h.unrepaired h.halting hok hm

/-- In a run whose steps find the count of statements right, a transaction that is
started again holds the refused statement and no other. -/
theorem restart_holds_refused (T : Transacts U parse) (hD : Speaks D parse) {w : World U × Tally}
    (hw : Reach ((system D U).watched {} (Tally.note T)) (Reckoned T) w) {repair : InFlight}
    {rest : List Act} (hb : w.1.back = .chooseRestore repair :: rest)
    (hsavepoint : w.1.sess.occSavepoint = false) (hblock : T.opened w.1.up = true) :
    ∃ n s, w.2.refused = some (.client n) ∧ w.2.ran = [(.client n, s)] := by
  have hreckoning : Reckoning T w.1 w.2 := by
    refine hw.invariant (I := fun w => Reckoning T w.1 w.2) .start ?_
    rintro l ⟨w, g⟩ ⟨w', g'⟩ h hok hs
    obtain ⟨hs, rfl⟩ := System.watched_step.1 hs
    exact h.moves hD hok (moves_of_step hs)
  exact hreckoning.refused (pending_iff.2 (.inr ⟨_, hb ▸ List.mem_cons_self, rfl⟩))
    hblock hsavepoint

end Refused

section Samples

def lockStatements (sql : String) : Option (List Statement) :=
  [("BEGIN", [.begin]), ("INSERT INTO t VALUES (1)", [.insert (some "t")]),
    ("SELECT * FROM t FOR UPDATE", [.select]), ("SAVEPOINT dsql_occ", [.savepoint "dsql_occ"]),
      ("ROLLBACK; BEGIN", [.rollback false, .begin])].lookup sql

def Dialect.locks : Dialect := (Dialect.sample []).over lockStatements

theorem speaks_locks : Speaks .locks lockStatements where
  reads := reads_over
  analyzed sql kinds tables hc ha := by
    -- the sample analyzes two statements
    have hsql : sql = "INSERT INTO t VALUES (1)" ∨ sql = "SELECT * FROM t FOR UPDATE" := by
      by_contra hne
      rw [not_or] at hne
      simp [Dialect.locks, Dialect.over, Dialect.sample, List.lookup_cons, beq_false_of_ne hne.1,
        beq_false_of_ne hne.2] at ha
    rcases hsql with rfl | rfl
    · cases hc
      exact ⟨rfl, rfl⟩
    · cases hc
      exact ⟨rfl, rfl⟩
  rewrites sql r h := by cases h
  savepoint := rfl

def lockTallies : System (World (upstream lockStatements) × Tally)
    (Label (upstream lockStatements)) :=
  (system .locks (upstream lockStatements)).watched {} (Tally.note (transacts lockStatements))

def pipelined (qs : List (String × Nat)) : List (Label (upstream lockStatements)) :=
  List.flatten [qs.map fun q => .send (.query q.1), qs.flatMap fun q => .readClient :: fronts q.2,
    qs.dropLast.map fun _ => .answer [], [.answer [{ error := some lockTimeout }]],
    qs.dropLast.flatMap fun _ => .readUpstream :: backs 6 ++ .readUpstream :: backs 8,
      .readUpstream :: backs 6, .readUpstream :: backs 5]

theorem restart_holds_refused_insert :
    let w := lockTallies.dest (Reckoned (transacts lockStatements))
      (pipelined [("BEGIN", 8), ("INSERT INTO t VALUES (1)", 11)])
    w.2.ran = [(.client 1, .insert (some "t"))] ∧
      ∃ n s, w.2.refused = some (.client n) ∧ w.2.ran = [(.client n, s)] := by
  intro w
  have hback : w.1.back =
      [.chooseRestore { request := 1, intent := { tag := "INSERT", rows := 1 } }] := by
    decide +kernel
  have hsavepoint : w.1.sess.occSavepoint = false := by decide +kernel
  have hblock : (transacts lockStatements).opened w.1.up = true := by decide +kernel
  have hreach : Reach lockTallies (Reckoned (transacts lockStatements)) w := Reach.dest _ _
  exact ⟨by decide +kernel, restart_holds_refused _ speaks_locks hreach hback hsavepoint hblock⟩

/-- A second `BEGIN` starts the count over, and what the transaction had inserted is
lost when it is started again. -/
theorem restart_loses_insert :
    Speaks .locks lockStatements ∧ ∃ w, Reachable lockTallies w ∧
      (∃ repair rest, w.1.back = .chooseRestore repair :: rest) ∧ w.1.sess.occSavepoint = false ∧
      (transacts lockStatements).opened w.1.up = true ∧ w.2.refused = some (.client 3) ∧
      w.2.ran = [(.client 1, .insert (some "t")), (.client 3, .select)] := by
  refine ⟨speaks_locks, lockTallies.dest (fun _ _ => True)
    (pipelined [("BEGIN", 8), ("INSERT INTO t VALUES (1)", 11),
    ("BEGIN", 8), ("SELECT * FROM t FOR UPDATE", 10)]), Reach.dest _ _, ?_, ?_⟩
  · exact ⟨{ request := 3, intent := { tag := "SELECT", rows := -1, shadow := "SELECT * FROM t",
                                       rowset := true } }, [], by decide +kernel⟩
  · decide +kernel

end Samples

end DsqlEmulator.Proxy
