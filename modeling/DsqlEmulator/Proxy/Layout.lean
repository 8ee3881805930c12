import DsqlEmulator.Proxy.FailureLaws

/-! How a pump lays out its acts.  The frontend pump ends the handling of a message
with a note of it, arms at most one failure it has put off, and writes the message
after any savepoint it sets for it.  Either pump writes a statement of the emulator's
own as soon as it is armed. -/

namespace DsqlEmulator.Proxy

open Wire Occ Txn Runs

variable {U : Upstream} {D : Dialect}

@[simp] def Act.notes : Act → Bool
  | .droppingUntilSync _ _ => true
  | .noteBatchState _ => true
  | _ => false

@[simp] def Act.defers : Act → Bool
  | .handleSync _ => true
  | .beginFailure _ f => decide (f.swallow = 2)
  | _ => false

@[simp] def Act.saves : Act → Bool
  | .savepointReady _ => true
  | .establishSavepoint => true
  | .setHidden _ _ => true
  | .writeUpstream (.hidden _ _) _ => true
  | _ => false

def Led : List Act → Prop
  | [] => True
  | a :: l => (a.saves = true → 0 < l.countP Act.forwards) ∧ Led l

theorem Led.append {l l' : List Act} (h : Led l) (h' : Led l') : Led (l ++ l') := by
  induction l with
  | nil => exact h'
  | cons a l ih =>
    refine ⟨fun ha => ?_, ih h.2⟩
    have hpos := h.1 ha
    change 0 < (l ++ l').countP Act.forwards
    rw [List.countP_append]
    omega

theorem Led.of_none {l : List Act} (h : ∀ a ∈ l, a.saves = false) : Led l := by
  induction l with
  | nil => trivial
  | cons a l ih =>
    refine ⟨fun ha => ?_, ih fun b hb => h b (List.mem_cons_of_mem a hb)⟩
    rw [h a List.mem_cons_self] at ha
    cases ha

theorem Led.forwards {l : List Act} {a : Act} (h : Led l) (ha : a ∈ l) (hs : a.saves = true) :
    0 < l.countP Act.forwards := by
  induction l with
  | nil => cases ha
  | cons b l ih =>
    rw [List.countP_cons]
    rcases List.mem_cons.1 ha with rfl | ha
    · exact Nat.add_pos_left (h.1 hs) _
    · exact Nat.add_pos_left (ih h.2 ha) _

structure Laid (l : List Act) : Prop where
  inner : ∀ a ∈ l, a.notes = false ∧ a.defers = false
  led : Led l

theorem Laid.of_plain {l : List Act}
    (h : ∀ a ∈ l, a.notes = false ∧ a.defers = false ∧ a.saves = false) : Laid l :=
  ⟨fun a ha => ⟨(h a ha).1, (h a ha).2.1⟩, .of_none fun a ha => (h a ha).2.2⟩

theorem Laid.nil : Laid [] := .of_plain (by simp)

theorem Laid.append {l l' : List Act} (h : Laid l) (h' : Laid l') : Laid (l ++ l') :=
  ⟨fun a ha => (List.mem_append.1 ha).elim (h.inner a) (h'.inner a), h.led.append h'.led⟩

theorem Laid.cons {a : Act} {l : List Act}
    (ha : a.notes = false ∧ a.defers = false ∧ a.saves = false) (h : Laid l) :
    Laid (a :: l) :=
  .append (l := [a]) (.of_plain (by simpa using ha)) h

section Frontend

variable {s : Session} {n : Nat} {m : Frontend} {now : Nat} {jobID : String} {a : Act}

theorem forward_laid (n : Nat) (m : Frontend) : Laid (forward n m) := by
  apply Laid.of_plain
  unfold forward
  split <;> simp

theorem reject_laid {code message : String} {extended : Bool} :
    Laid (reject s n code message extended) := by
  apply Laid.of_plain
  cases extended <;> simp only [reject] <;> split <;> simp [sendError, abortFailure]

theorem rejectFailed_laid {extended : Bool} : Laid (rejectFailed n extended) := by
  apply Laid.of_plain
  cases extended <;> simp [rejectFailed, sendError]

theorem occFailure_laid {extended : Bool} : Laid (occFailure D n extended) := by
  apply Laid.of_plain
  cases extended <;> simp [occFailure, sendError, conflictFailure]

theorem endAborted_laid : Laid endAborted := .of_plain (by simp [endAborted])

theorem send_laid {info : StatementInfo} : Laid (send D n m info) := by
  unfold send
  split
  · split
    · apply Laid.of_plain
      split <;> simp
    · exact forward_laid n (.query _)
  · refine .append (.of_plain ?_) (forward_laid n m)
    cases info.jobID <;> simp

theorem armAdjudicator_laid {intent : Option Intent} {bind : Option Bind} {l : List Act}
    (h : Laid l) (hl : 0 < l.countP Act.forwards) : Laid (armAdjudicator n intent bind ++ l) := by
  cases intent with
  | none => exact .cons ⟨rfl, rfl, rfl⟩ h
  | some i =>
    have hset : Laid (.setInFlight n (some i) bind :: l) := .cons ⟨rfl, rfl, rfl⟩ h
    refine ⟨fun a ha => ?_, fun _ => hl, hset.led⟩
    rcases List.mem_cons.1 ha with rfl | ha
    · exact ⟨rfl, rfl⟩
    · exact hset.inner a ha

theorem admitted_laid {info : StatementInfo} : Laid (admitted D s n m info) := by
  unfold admitted
  refine .append (.of_plain ?_) (.cons ⟨rfl, rfl, rfl⟩ ?_)
  · split <;> simp
  · split
    · split
      · exact .of_plain (by simp)
      · exact .cons ⟨rfl, rfl, rfl⟩ send_laid
    · split
      · exact armAdjudicator_laid send_laid (by rw [send_forwards]; exact Nat.one_pos)
      · exact send_laid

theorem forwardAsyncJob_laid {rewritten : String} {statement : Nat} :
    Laid (forwardAsyncJob D jobID s n m rewritten statement).next := by
  have hrun (kinds : List Kind) : Laid
      (runAsyncJob jobID s n m rewritten statement kinds).next := by
    apply Laid.of_plain
    unfold runAsyncJob
    split <;> simp
  unfold forwardAsyncJob
  split
  · exact hrun _
  · exact reject_laid
  · exact hrun _

theorem handleQuery_laid {sql : String} : Laid (handleQuery D jobID s n sql).next := by
  unfold handleQuery
  split
  · split
    · exact rejectFailed_laid
    · exact forwardAsyncJob_laid
  · split
    · split
      · exact endAborted_laid.append (forward_laid _ _)
      · exact rejectFailed_laid
    · split
      · exact forward_laid n (.query sql)
      · exact reject_laid
      · exact .of_plain (by simp)

theorem handleParse_laid {name sql : String} : Laid (handleParse D jobID s n name sql).next := by
  unfold handleParse
  split
  · split
    · exact rejectFailed_laid
    · exact forwardAsyncJob_laid
  · dsimp only
    split
    · split
      · split
        · exact forward_laid n (.parse name sql)
        · exact rejectFailed_laid
      · exact rejectFailed_laid
    · split
      · exact forward_laid n (.parse name sql)
      · exact reject_laid
      · split
        · apply Laid.of_plain
          split <;> simp
        · have hforward : Laid (forward n (.parse name sql)) := forward_laid n _
          dsimp only
          split
          · refine ⟨fun a ha => ?_, fun _ => ?_, hforward.led⟩
            · rcases List.mem_cons.1 ha with rfl | ha
              · exact ⟨rfl, rfl⟩
              · exact hforward.inner a ha
            · change 0 < (forward n (.parse name sql)).countP Act.forwards
              rw [forward_forwards]
              exact Nat.one_pos
          · exact hforward

theorem handleBind_laid {b : Bind} {info : StatementInfo} : Laid (handleBind s n b info).next := by
  unfold handleBind
  split
  · split
    · exact endAborted_laid.append (forward_laid _ _)
    · exact rejectFailed_laid
  · exact .of_plain (by simp)

theorem dispatch_laid : Laid (dispatch s n m).next := by
  unfold dispatch
  split
  · exact .of_plain (by simp)
  · exact .of_plain (by simp)
  · split
    · exact forward_laid n (.bind _)
    · exact .of_plain (by simp)
  · exact forward_laid n (.close true _)
  · exact forward_laid n m

theorem exec_laid (h : FrontCode n m a) (hn : a.notes = false) (hd : a.defers = false)
    (hs : a.saves = false) : Laid (a.exec D now jobID s).next := by
  cases a with
  | aborted k m' =>
    dsimp only [Act.exec]
    split
    · exact handleQuery_laid
    · exact handleParse_laid
    · split
      · exact handleBind_laid
      · exact forward_laid k (.bind _)
    · exact forward_laid k m'
  | admitKinds k m' info =>
    dsimp only [Act.exec]
    split
    · exact reject_laid
    · exact admitted_laid
  | admitAsync k rewritten statement kinds =>
    dsimp only [Act.exec]
    split
    · exact reject_laid
    · exact .of_plain (by simp)
  | occAdjudicated k m' info =>
    dsimp only [Act.exec]
    split
    · exact occFailure_laid
    · split
      · exact .cons ⟨rfl, rfl, rfl⟩ send_laid
      · exact .of_plain (by simp)
  | occCommitConflict k m' info =>
    dsimp only [Act.exec]
    split
    · exact occFailure_laid
    · exact .cons ⟨rfl, rfl, rfl⟩ send_laid
  | beginFailure k f => exact .of_plain (by simp)
  | getStateTxStatus k => exact .of_plain (by simp)
  | droppingUntilSync k m' => cases hn
  | noteBatchState t => cases hn
  | handleSync k => cases hd
  | savepointReady bind => cases hs
  | establishSavepoint => cases hs
  | setHidden x ms => cases hs
  | countTxnStatement kinds => dsimp only [Act.exec]; split <;> exact .nil
  | _ => first | exact .nil | exact h.elim

structure Body (l : List Act) : Prop where
  notes : ∀ a ∈ l, a.notes = false
  defers : l.countP Act.defers ≤ 1
  led : Led l

inductive Layout (m : Frontend) : List Act → Prop
  | unread {k} : m ≠ .sync → m ≠ .terminate → Layout m [.droppingUntilSync k m]
  | handling {body} : Body body → Layout m (body ++ [.noteBatchState m.tag])
  | leaving {l} : m = .terminate →
      (∀ b ∈ l, b = .quit ∨ ∃ k, b = .writeUpstream (.client k) [.terminate]) → Layout m l

theorem pumpFrontend_layout (n : Nat) (m : Frontend) : Layout m (pumpFrontend n m) := by
  unfold pumpFrontend
  split
  · exact .leaving rfl (by simp)
  · exact .handling (.mk (l := [.handleSync n]) (by simp) (by simp) (.of_none (by simp)))
  · rename_i ht hs
    exact .unread hs ht

theorem countP_defers {l : List Act} (h : ∀ a ∈ l, a.notes = false ∧ a.defers = false) :
    l.countP Act.defers = 0 :=
  List.countP_eq_zero.2 fun a ha => by rw [(h a ha).2]; exact Bool.false_ne_true

theorem Body.exec {body : List Act} (h : Body (a :: body)) (ha : FrontAct n m a) :
    Body ((a.exec D now jobID s).next ++ body) := by
  obtain ⟨hn, hd, hl⟩ := h
  have hbody : ∀ b ∈ body, b.notes = false := fun b hb => hn b (List.mem_cons_of_mem a hb)
  have hcount : body.countP Act.defers ≤ 1 := by
    rw [List.countP_cons] at hd
    omega
  -- a list of the middle of a message, or one that sets a savepoint, changes nothing
  have hmiddle (l : List Act) (hi : ∀ b ∈ l, b.notes = false ∧ b.defers = false)
    (hled : Led (l ++ body)) :
      Body (l ++ body) := by
    refine ⟨fun b hb => (List.mem_append.1 hb).elim (fun hb => (hi b hb).1) (hbody b), ?_, hled⟩
    rw [List.countP_append, countP_defers hi, Nat.zero_add]
    exact hcount
  cases ha with
  | code ha =>
    by_cases hsaves : a.saves = true
    · have hpos := hl.1 hsaves
      cases a with
      | savepointReady bind =>
        dsimp only [Act.exec]
        split
        · exact hmiddle [] (by simp) hl.2
        · exact hmiddle [.establishSavepoint] (by simp) ⟨fun _ => hpos, hl.2⟩
      | establishSavepoint =>
        dsimp only [Act.exec]
        split
        · exact hmiddle [] (by simp) hl.2
        · exact hmiddle [.setHidden (.savepoint false) [savepointQuery]] (by simp)
            ⟨fun _ => hpos, hl.2⟩
      | setHidden x ms =>
        exact hmiddle [.beginExchange, .writeUpstream _ ms] (by simp) ⟨by simp, fun _ => hpos, hl.2⟩
      | writeUpstream o ms =>
        cases o with
        | hidden p k => exact ha.elim
        | _ => cases hsaves
      | _ => cases hsaves
    · by_cases hdefers : a.defers = true
      · have hzero : body.countP Act.defers = 0 := by
          rw [List.countP_cons_of_pos hdefers] at hd
          omega
        cases a with
        | beginFailure k f =>
          exact hmiddle [.beginExchange, .writeUpstream _ [f.statement]] (by simp)
            ⟨by simp, by simp, hl.2⟩
        | handleSync k =>
          have hforward := forward_laid k .sync
          have hpending : (∀ b ∈ (s.pendingFailure.map (Act.beginFailure k)).toList, b.notes =
            false ∧ b.saves = false) ∧
              (s.pendingFailure.map (Act.beginFailure k)).toList.countP Act.defers ≤ 1 := by
            cases s.pendingFailure with
            | none => simp
            | some f => exact ⟨by simp, List.countP_le_length⟩
          dsimp only [Act.exec]
          rw [List.append_assoc]
          refine ⟨fun b hb => ?_, ?_,
            hforward.led.append (.append (.of_none fun b hb => (hpending.1 b hb).2) hl.2)⟩
          · simp only [List.mem_append] at hb
            rcases hb with hb | hb | hb
            · exact (hforward.inner b hb).1
            · exact (hpending.1 b hb).1
            · exact hbody b hb
          · rw [List.countP_append, List.countP_append, countP_defers hforward.inner, hzero]
            have := hpending.2
            omega
        | _ => cases hdefers
      · have hlaid : Laid (a.exec D now jobID s).next :=
          exec_laid ha (hn a List.mem_cons_self) (by simpa using hdefers) (by simpa using hsaves)
        exact hmiddle _ hlaid.inner (hlaid.led.append hl.2)
  | _ => exact hmiddle [] (by simp) hl.2

theorem Layout.exec {rest : List Act} (h : Layout m (a :: rest)) (ha : FrontAct n m a) :
    (a.exec D now jobID s).next ++ rest = [] ∨ Layout m ((a.exec D now jobID s).next ++ rest) := by
  generalize hl : a :: rest = l at h
  cases h with
  | @unread k =>
    obtain ⟨rfl, rfl⟩ := List.cons.inj hl
    dsimp only [Act.exec]
    split
    · exact .inl rfl
    · have hlaid : Laid (dispatch s k m).next := dispatch_laid
      rw [List.append_nil]
      exact .inr (.handling
        ⟨fun b hb => (hlaid.inner b hb).1, by rw [countP_defers hlaid.inner]; exact Nat.zero_le 1,
        hlaid.led⟩)
  | @handling body hbody =>
    cases body with
    | nil =>
      obtain ⟨rfl, rfl⟩ := List.cons.inj hl
      left
      dsimp only [Act.exec]
      (repeat' split) <;> rfl
    | cons b body =>
      obtain ⟨rfl, rfl⟩ := List.cons.inj hl
      right
      change Layout m ((a.exec D now jobID s).next ++ (body ++ [.noteBatchState m.tag]))
      rw [← List.append_assoc]
      exact .handling (hbody.exec ha)
  | leaving ht hall =>
    subst hl
    have hnext : (a.exec D now jobID s).next = [] := by
      rcases hall a List.mem_cons_self with rfl | ⟨k, rfl⟩ <;> rfl
    rw [hnext]
    exact .inr (.leaving ht fun b hb => hall b (List.mem_cons_of_mem a hb))

end Frontend

end DsqlEmulator.Proxy
