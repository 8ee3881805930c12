import DsqlEmulator.Proxy.OrderLaws

/-! What the frontend pump does with a message of an extended batch once it has
refused one: it forwards nothing more until the batch's `Sync`. -/

namespace DsqlEmulator.Proxy

open Wire Occ Txn Runs

variable {U : Upstream} {D : Dialect}

@[simp] def Act.skips : Act → Bool
  | .deferFailure _ => true
  | .setSkipSync => true
  | _ => false

@[simp] def Act.sanctions : Act → Bool
  | .beginFailure _ _ => true
  | .deferFailure _ => true
  | .setSkipSync => true
  | _ => false

@[simp] def Act.speaks : Act → Bool
  | .writeClient _ => true
  | _ => false

def Act.Spared (a : Act) : Prop :=
  (∃ n m, a = .droppingUntilSync n m) ∨ (∃ n, a = .handleSync n) ∨ ∃ n, a =
    .writeUpstream (.client n) [.terminate]

def Followed (p q : Act → Prop) : List Act → Prop
  | [] => True
  | a :: l => (p a → ∃ b ∈ l, q b) ∧ Followed p q l

def Refuses : List Act → Prop := Followed (·.speaks = true) (·.skips = true)

def Clears : List Act → Prop := Followed (· = .clearAborted) fun b => b.forwards = true ∧ ¬ b.Spared

/-- A list of acts that refuses nothing and ends no aborted transaction. -/
def Plain (l : List Act) : Prop :=
  ∀ a ∈ l, a.sanctions = false ∧ a.speaks = false ∧ a ≠ .clearAborted

def Heralded (l : List Act) : Prop := l.any Act.sanctions = true → l.head?.any Act.speaks = true

structure Tidy (m : Frontend) (l : List Act) : Prop where
  skips : l.any Act.skips = true → l.countP Act.forwards = 0
  refuses : m.tag.extended = true → Refuses l
  clears : Clears l
  heralded : m ≠ .sync → Heralded l

section Lists

variable {s : Session} {n : Nat} {m : Frontend} {l r : List Act}

theorem Followed.append {p q : Act → Prop} (hl : Followed p q l) (hr : Followed p q r) :
    Followed p q (l ++ r) := by
  induction l with
  | nil => exact hr
  | cons a l ih =>
    refine ⟨fun ha => ?_, ih hl.2⟩
    obtain ⟨b, hb, hq⟩ := hl.1 ha
    exact ⟨b, List.mem_append_left _ hb, hq⟩

theorem followed_of_forall_not {p q : Act → Prop} (h : ∀ a ∈ l, ¬ p a) : Followed p q l := by
  induction l with
  | nil => trivial
  | cons a l ih => exact ⟨fun ha => absurd ha (h a (by simp)), ih fun b hb => h b (by simp [hb])⟩

theorem skips_sanctions {a : Act} (h : a.skips = true) : a.sanctions = true := by
  cases a <;> first | rfl | cases h

theorem Plain.cons {a : Act} (hs : a.sanctions = false) (hp : a.speaks = false)
    (hc : a ≠ .clearAborted) (h : Plain l) : Plain (a :: l) := by
  intro b hb
  rcases List.mem_cons.1 hb with rfl | hb
  · exact ⟨hs, hp, hc⟩
  · exact h b hb

theorem Plain.append (hl : Plain l) (hr : Plain r) : Plain (l ++ r) := by
  intro a ha
  exact (List.mem_append.1 ha).elim (hl a) (hr a)

theorem Plain.refuses (h : Plain l) : Refuses l :=
  followed_of_forall_not fun a ha hs => Bool.false_ne_true ((h a ha).2.1.symm.trans hs)

theorem Plain.clears (h : Plain l) : Clears l :=
  followed_of_forall_not fun a ha => (h a ha).2.2

theorem Plain.heralded (h : Plain l) : Heralded l := by
  intro hs
  obtain ⟨a, ha, hsanctions⟩ := List.any_eq_true.1 hs
  cases (h a ha).1.symm.trans hsanctions

theorem Plain.tidy (h : Plain l) : Tidy m l := by
  refine ⟨fun hs => ?_, fun _ => h.refuses, h.clears, fun _ => h.heralded⟩
  obtain ⟨a, ha, hskips⟩ := List.any_eq_true.1 hs
  cases (h a ha).1.symm.trans (skips_sanctions hskips)

theorem forward_plain : Plain (forward n m) := by
  unfold forward
  split <;> simp [Plain]

theorem reject_tidy {code message : String} {extended : Bool}
    (hx : m.tag.extended = true → extended = true) : Tidy m (reject s n code message extended) := by
  refine ⟨fun _ => reject_forwards, fun hm => ?_, followed_of_forall_not ?_, fun _ _ => rfl⟩
  · cases hx hm
    unfold reject
    split <;> simp [Refuses, Followed, sendError]
  · unfold reject
    (repeat' split) <;> simp [sendError]

theorem rejectFailed_tidy {extended : Bool} (hx : m.tag.extended = true → extended = true) :
    Tidy m (rejectFailed n extended) := by
  refine ⟨fun _ => rejectFailed_forwards, fun hm => ?_, followed_of_forall_not ?_, fun _ _ => rfl⟩
  · cases hx hm
    simp [Refuses, Followed, rejectFailed, sendError]
  · unfold rejectFailed
    split <;> simp [sendError]

theorem occFailure_tidy {extended : Bool} (hx : m.tag.extended = true → extended = true) :
    Tidy m (occFailure D n extended) := by
  refine ⟨fun _ => occFailure_forwards, fun hm => ?_, followed_of_forall_not ?_, fun _ _ => rfl⟩
  · cases hx hm
    simp [Refuses, Followed, occFailure, sendError]
  · unfold occFailure
    split <;> simp [sendError]

theorem send_plain {info : StatementInfo} : Plain (send D n m info) := by
  unfold send
  split
  · split
    · split <;> simp [Plain]
    · exact forward_plain
  · cases info.jobID
    · exact forward_plain
    · exact .cons rfl rfl (by simp) forward_plain

theorem armAdjudicator_plain {intent : Option Intent} {bind : Option Bind} :
    Plain (armAdjudicator n intent bind) := by
  cases intent <;> simp [Plain, armAdjudicator]

theorem admitted_plain {info : StatementInfo} : Plain (admitted D s n m info) := by
  unfold admitted
  refine Plain.append ?_ ?_
  · split <;> simp [Plain]
  · refine .cons rfl rfl (by simp) ?_
    split
    · split
      · simp [Plain]
      · exact .cons rfl rfl (by simp) send_plain
    · split
      · exact armAdjudicator_plain.append send_plain
      · exact send_plain

variable {now : Nat} {jobID : String}

theorem forwardAsyncJob_tidy {rewritten : String} {statement : Nat}
    (hm : (∃ sql, m = .query sql) ∨ ∃ name sql, m = .parse name sql) :
    Tidy m (forwardAsyncJob D jobID s n m rewritten statement).next := by
  rcases hm with ⟨sql, rfl⟩ | ⟨name, sql, rfl⟩ <;> unfold forwardAsyncJob <;> split <;>
    first
      | exact reject_tidy (by simp [Tag.extended])
      | exact Plain.tidy (by simp [Plain, runAsyncJob])

theorem endAborted_tidy (hm : m ≠ .terminate) : Tidy m (endAborted ++ forward n m) := by
  refine ⟨?_, fun _ => ?_, ⟨fun _ => ⟨.writeUpstream (.client n) [m], ?_, rfl, ?_⟩, ?_⟩,
    fun _ => ?_⟩
  · unfold forward
    split <;> simp [endAborted]
  · refine Followed.append (by simp [Followed, endAborted]) forward_plain.refuses
  · unfold forward
    split <;> simp
  · simp [Act.Spared, hm]
  · exact Plain.clears (l := .resetOcc :: .admitRollback :: forward n m)
      (.cons rfl rfl (by simp) (.cons rfl rfl (by simp) forward_plain))
  · unfold forward
    split <;> simp [Heralded, endAborted]

theorem handleQuery_tidy {sql : String} : Tidy (.query sql) (handleQuery D jobID s n sql).next := by
  unfold handleQuery
  split
  · split
    · exact rejectFailed_tidy (by simp [Tag.extended])
    · exact forwardAsyncJob_tidy (.inl ⟨sql, rfl⟩)
  · split
    · split
      · exact endAborted_tidy (by simp)
      · exact rejectFailed_tidy (by simp [Tag.extended])
    · split
      · dsimp only
        exact forward_plain.tidy
      · exact reject_tidy (by simp [Tag.extended])
      · exact Plain.tidy (by simp [Plain])

theorem handleParse_tidy {name sql : String} :
    Tidy (.parse name sql) (handleParse D jobID s n name sql).next := by
  unfold handleParse
  split
  · split
    · exact rejectFailed_tidy fun _ => rfl
    · exact forwardAsyncJob_tidy (.inr ⟨name, sql, rfl⟩)
  · dsimp only
    split
    · split
      · split
        · dsimp only
          exact forward_plain.tidy
        · exact rejectFailed_tidy fun _ => rfl
      · exact rejectFailed_tidy fun _ => rfl
    · split
      · dsimp only
        exact forward_plain.tidy
      · exact reject_tidy fun _ => rfl
      · split
        · refine Plain.tidy (Plain.append ?_ ?_)
          · split <;> simp [Plain]
          · simp [Plain]
        · refine Plain.tidy (Plain.append ?_ forward_plain)
          split <;> simp [Plain]

theorem handleBind_tidy {b : Bind} {info : StatementInfo} :
    Tidy (.bind b) (handleBind s n b info).next := by
  unfold handleBind
  split
  · split
    · exact endAborted_tidy (by simp)
    · exact rejectFailed_tidy fun _ => rfl
  · exact Plain.tidy (by simp [Plain])

theorem dispatch_plain : Plain (dispatch s n m).next := by
  unfold dispatch
  split
  · simp [Plain]
  · simp [Plain]
  · split
    · dsimp only
      exact forward_plain
    · simp [Plain]
  · dsimp only
    exact forward_plain
  · dsimp only
    exact forward_plain

theorem isBind_of_extended (h : m.tag = .query ∨ m.tag = .bind) (hm : m.tag.extended = true) :
    isBind m = true := by
  rcases h with h | h
  · simp [h, Tag.extended] at hm
  · simp [isBind, h]

theorem exec_tidy {a : Act} (h : FrontAct n m a) : Tidy m (a.exec D now jobID s).next := by
  cases h with
  | code h =>
    cases a with
    | droppingUntilSync k m' =>
      dsimp only [Act.exec]
      split
      · exact Plain.tidy (by simp [Plain])
      · exact (dispatch_plain.append (by simp [Plain])).tidy
    | handleSync k =>
      obtain ⟨-, rfl⟩ := h
      refine ⟨?_, by simp [Tag.extended], followed_of_forall_not ?_, fun hs => absurd rfl hs⟩ <;>
        cases s.pendingFailure <;> simp [forward, Frontend.counted]
    | aborted k m' =>
      obtain ⟨rfl, rfl, -⟩ := h
      dsimp only [Act.exec]
      split
      · exact handleQuery_tidy
      · exact handleParse_tidy
      · split
        · exact handleBind_tidy
        · dsimp only
          exact forward_plain.tidy
      · dsimp only
        exact forward_plain.tidy
    | admitKinds k m' info =>
      obtain ⟨rfl, rfl, hm⟩ := h
      dsimp only [Act.exec]
      split
      · exact reject_tidy (isBind_of_extended hm)
      · exact admitted_plain.tidy
    | admitAsync k rewritten statement kinds =>
      obtain ⟨rfl, hm⟩ := h
      dsimp only [Act.exec]
      split
      · exact reject_tidy (by simp [hm, Tag.extended])
      · exact Plain.tidy (by simp [Plain])
    | occAdjudicated k m' info =>
      obtain ⟨rfl, rfl, hm⟩ := h
      dsimp only [Act.exec]
      split
      · exact occFailure_tidy (isBind_of_extended hm)
      · split
        · exact Plain.tidy (.cons rfl rfl (by simp) send_plain)
        · exact Plain.tidy (by simp [Plain])
    | occCommitConflict k m' info =>
      obtain ⟨rfl, rfl, hm⟩ := h
      dsimp only [Act.exec]
      split
      · exact occFailure_tidy (isBind_of_extended hm)
      · exact Plain.tidy (.cons rfl rfl (by simp) send_plain)
    | getStateTxStatus k =>
      obtain ⟨rfl, hm⟩ := h
      exact ⟨by simp, by simp [hm, Tag.extended], by simp [Clears, Followed],
        fun _ => by simp [Heralded]⟩
    | _ =>
      first
        | exact h.elim
        | (dsimp only [Act.exec]; (repeat' split) <;> exact Plain.tidy (by simp [Plain]))
  | _ => exact Plain.tidy (by simp [Plain])

theorem exec_not_skips {a : Act} (h : FrontAct n m a) (hf : a.forwards = false) :
    (a.exec D now jobID s).next.any Act.skips = false := by
  cases h with
  | code h =>
    cases a with
    | writeUpstream o ms => rfl
    | _ =>
      first | exact h.elim | (cases hf; done) | (dsimp only [Act.exec]; (repeat' split) <;> rfl)
  | _ => rfl

end Lists

section Frames

variable {s : Session} {now : Nat} {jobID : String} {a : Act} {rest : List Act}

theorem exec_skipSync (hs : a.skips = false) (hh : ∀ n, a ≠ .handleSync n)
    (hc : a ≠ .clearAborted) : (a.exec D now jobID s).sess.skipSync = s.skipSync := by
  cases a with
  | handleSync n => exact absurd rfl (hh n)
  | clearAborted => exact absurd rfl hc
  | deferFailure f => cases hs
  | setSkipSync => cases hs
  | aborted n m => obtain ⟨_, _, h⟩ := exec_aborted_quiet n m; rw [h]
  | droppingUntilSync n m => obtain ⟨_, _, h⟩ := exec_droppingUntilSync_quiet n m; rw [h]
  | _ => dsimp only [Act.exec] <;> (repeat' split) <;> rfl

theorem exec_mode_skipSync (h : BackMode (a :: rest)) :
    (a.exec D now jobID s).sess.skipSync = s.skipSync := by
  have hcode : a.skips = false ∧ (∀ n, a ≠ .handleSync n) ∧ a ≠ .clearAborted := by
    cases h with
    | relaying h =>
      have h := h a List.mem_cons_self
      cases a <;> first | exact h.elim | exact ⟨rfl, by simp, by simp⟩
    | repairing h =>
      cases h a List.mem_cons_self with
      | code h => cases a <;> first | exact h.elim | exact ⟨rfl, by simp, by simp⟩
      | _ => exact ⟨rfl, by simp, by simp⟩
    | _ => exact ⟨rfl, by simp, by simp⟩
  exact exec_skipSync hcode.1 hcode.2.1 hcode.2.2

theorem exec_pendingFailure (hd : ∀ f, a ≠ .deferFailure f) (hs : ∀ k, a ≠ .handleSync k) :
    (a.exec D now jobID s).sess.pendingFailure = s.pendingFailure := by
  cases a with
  | deferFailure f => exact absurd rfl (hd f)
  | handleSync k => exact absurd rfl (hs k)
  | aborted n m => obtain ⟨_, _, h⟩ := exec_aborted_quiet n m; rw [h]
  | droppingUntilSync n m => obtain ⟨_, _, h⟩ := exec_droppingUntilSync_quiet n m; rw [h]
  | _ => dsimp only [Act.exec] <;> (repeat' split) <;> rfl

theorem backMode_pendingFailure (h : BackMode (a :: rest)) :
    (a.exec D now jobID s).sess.pendingFailure = s.pendingFailure := by
  have hcode : (∀ f, a ≠ .deferFailure f) ∧ ∀ k, a ≠ .handleSync k := by
    cases h with
    | relaying h =>
      have h := h a List.mem_cons_self
      cases a <;> first | exact h.elim | simp
    | repairing h =>
      cases h a List.mem_cons_self with
      | code h => cases a <;> first | exact h.elim | simp
      | _ => simp
    | _ => simp
  exact exec_pendingFailure hcode.1 hcode.2

theorem exec_closed (ha : a ≠ .quit) :
    (a.exec D now jobID s).sess.closed = s.closed := by
  cases a with
  | quit => exact absurd rfl ha
  | aborted n m => obtain ⟨_, _, h⟩ := exec_aborted_quiet n m; rw [h]
  | droppingUntilSync n m => obtain ⟨_, _, h⟩ := exec_droppingUntilSync_quiet n m; rw [h]
  | _ => dsimp only [Act.exec] <;> (repeat' split) <;> rfl

theorem backMode_closed (h : BackMode (a :: rest)) :
    (a.exec D now jobID s).sess.closed = s.closed := by
  refine exec_closed ?_
  rintro rfl
  cases h with
  | relaying h => exact h _ List.mem_cons_self
  | repairing h => cases h _ List.mem_cons_self with | code h => exact h

end Frames

structure Refusing (w : World U) : Prop where
  skips : w.front.any Act.skips = true → w.front.countP Act.forwards = 0
  refuses : ∀ m, w.sent[w.read - 1]? = some m → m.tag.extended = true → Refuses w.front
  dropping : w.sess.skipSync = true → ∀ a ∈ w.front, a.forwards = true → a.Spared
  clears : Clears w.front

section Refusing

variable {w w' : World U} {a : Act} {rest : List Act}

theorem Refusing.start : Refusing (World.start D U) := by
  constructor <;> simp [World.start, Refuses, Clears, Followed]

theorem any_skips_cons : (a :: rest).any Act.skips = (a.skips || rest.any Act.skips) := rfl

theorem Refusing.front_skips {now : Nat} {jobID : String} (h : Refusing w) (ht : Threads w)
    (ho : Ordered w) (hf : w.front = a :: rest)
    (hany : ((a.exec D now jobID w.sess).next ++ rest).any Act.skips = true) :
    ((a.exec D now jobID w.sess).next ++ rest).countP Act.forwards = 0 := by
  obtain ⟨m, -, ha⟩ := ht.head hf
  have hcount : ((a.exec D now jobID w.sess).next ++ rest).countP Act.forwards ≤
      w.front.countP Act.forwards :=
    countP_exec_front hf ha
  have honce := ho.once
  rw [List.any_append, Bool.or_eq_true] at hany
  rcases hany with hany | hany
  · -- the act refuses the message it might have forwarded
    have hnext : (a.exec D now jobID w.sess).next.countP Act.forwards = 0 :=
      (exec_tidy ha).skips hany
    rw [List.countP_append, hnext, Nat.zero_add]
    by_cases hfw : a.forwards = true
    · rw [hf, List.countP_cons_of_pos hfw] at honce
      omega
    · cases (exec_not_skips ha (by simpa using hfw)).symm.trans hany
  · have hskip : w.front.any Act.skips = true := by rw [hf, any_skips_cons, hany, Bool.or_true]
    have := h.skips hskip
    omega

theorem Refusing.front_dropping {now : Nat} {jobID : String} (h : Refusing w) (ht : Threads w)
    (hf : w.front = a :: rest) (hskip : (a.exec D now jobID w.sess).sess.skipSync = true) :
    ∀ b ∈ (a.exec D now jobID w.sess).next ++ rest, b.forwards = true → b.Spared := by
  obtain ⟨m, -, ha⟩ := ht.head hf
  have hrest (hskips : a.skips = true) : ∀ b ∈ (a.exec D now jobID w.sess).next ++ rest,
      b.forwards = true → b.Spared := by
    intro b hb hfw
    have hzero := h.skips (by rw [hf, any_skips_cons, hskips, Bool.true_or])
    have hle : ((a.exec D now jobID w.sess).next ++ rest).countP Act.forwards ≤
        w.front.countP Act.forwards :=
      countP_exec_front hf ha
    exact absurd (List.countP_pos_iff.2 ⟨b, hb, hfw⟩) (by omega)
  by_cases hskips : a.skips = true
  · exact hrest hskips
  by_cases hsync : ∃ n, a = .handleSync n
  · obtain ⟨n, rfl⟩ := hsync
    cases hskip
  by_cases hclear : a = .clearAborted
  · subst hclear
    cases hskip
  have hsame : (a.exec D now jobID w.sess).sess.skipSync = w.sess.skipSync :=
    exec_skipSync (by simpa using hskips) (fun n h => hsync ⟨n, h⟩) hclear
  have hdrop := h.dropping (hsame.symm.trans hskip)
  intro b hb hfw
  rcases List.mem_append.1 hb with hb | hb
  · -- only an act that may forward leaves one that may, and what is spared leaves none
    have hexec : (a.exec D now jobID w.sess).next.countP Act.forwards ≤ a.forwards.toNat :=
      exec_forwards ha
    have hpos : 0 < (a.exec D now jobID w.sess).next.countP Act.forwards :=
      List.countP_pos_iff.2 ⟨b, hb, hfw⟩
    have hforwards : a.forwards = true := by
      cases hfa : a.forwards with
      | true => rfl
      | false =>
        rw [hfa, Bool.toNat_false] at hexec
        omega
    rcases hdrop a (by simp [hf]) hforwards with ⟨n, m', rfl⟩ | ⟨n, rfl⟩ | ⟨n, rfl⟩
    · rw [Act.exec, if_pos (hsame.symm.trans hskip)] at hb
      cases hb
    · exact absurd ⟨n, rfl⟩ hsync
    · cases hb
  · exact hdrop b (by simp [hf, hb]) hfw

theorem pumpFrontend_plain {n : Nat} {m : Frontend} : Plain (pumpFrontend n m) := by
  unfold pumpFrontend
  split <;> simp [Plain]

theorem pumpFrontend_spared {n : Nat} {m : Frontend} : ∀ a ∈ pumpFrontend n m, a.forwards = true →
    a.Spared := by
  unfold pumpFrontend
  split
  · simp [Act.Spared]
  · simp [Act.Spared]
  · simp [Act.Spared]

theorem Refusing.moves {l : Label U} (h : Refusing w) (ht : Threads w) (ho : Ordered w)
    (hm : Moves D l w w') : Refusing w' := by
  cases hm with
  | @send _ m' =>
    refine ⟨h.skips, fun m hm hx => ?_, h.dropping, h.clears⟩
    by_cases hf : w.front = []
    · rw [hf]
      trivial
    · obtain ⟨m₀, hpos, hm₀, -⟩ := ht.front hf
      rw [List.getElem?_append_left (List.getElem?_eq_some_iff.1 hm₀).1] at hm
      exact h.refuses m hm hx
  | readClient hf hi hc =>
    exact ⟨(Plain.tidy (m := .sync) pumpFrontend_plain).skips, fun m _ _ =>
      pumpFrontend_plain.refuses,
      fun _ => pumpFrontend_spared, pumpFrontend_plain.clears⟩
  | @front _ now jobID a rest hf =>
    obtain ⟨m, hm, ha⟩ := ht.head hf
    have hclears := h.clears
    rw [hf] at hclears
    refine ⟨h.front_skips ht ho hf, fun m' hm' hx => ?_, h.front_dropping ht hf,
      (exec_tidy ha).clears.append hclears.2⟩
    obtain rfl : m = m' := Option.some.inj (hm.symm.trans hm')
    have hold := h.refuses m hm hx
    rw [hf] at hold
    exact ((exec_tidy ha).refuses hx).append hold.2
  | readUpstream hb hu _ => exact ⟨h.skips, h.refuses, h.dropping, h.clears⟩
  | @back _ a rest hb =>
    refine ⟨h.skips, h.refuses, fun hskip => h.dropping ?_, h.clears⟩
    have hsame : (a.exec D 0 "" w.sess).sess.skipSync = w.sess.skipSync :=
      exec_mode_skipSync (hb ▸ ht.back)
    exact hsame.symm.trans hskip
  | answer hq => exact ⟨h.skips, h.refuses, h.dropping, h.clears⟩

end Refusing

/-- The client's `n`-th message is part of an extended batch. -/
def Extended (sent : List Frontend) (n : Nat) : Prop :=
  ∃ m, sent[n]? = some m ∧ m.tag.extended = true

def Dropped (w : World U) (n : Nat) : Prop :=
  (∃ k m, n < k ∧ k < w.read ∧ w.sent[k]? = some m ∧ m.tag = .sync) ∨ w.sess.skipSync = true ∨
    w.front.any Act.skips = true

section Dropped

variable {w w' : World U} {n : Nat} {a : Act} {rest : List Act}

theorem Dropped.forwarded {m : Frontend} (h : Dropped w n) (hr : Refusing w)
    (hf : .writeUpstream (.client (w.read - 1)) [m] ∈ w.front) :
    (∃ k x, n < k ∧ k < w.read ∧ w.sent[k]? = some x ∧ x.tag = .sync) ∨ m = .terminate := by
  rcases h with h | hskip | hany
  · exact .inl h
  · rcases hr.dropping hskip _ hf rfl with ⟨_, _, h⟩ | ⟨_, h⟩ | ⟨k, h⟩
    · cases h
    · cases h
    · cases h
      exact .inr rfl
  · have hzero := hr.skips hany
    have hpos : 0 < w.front.countP Act.forwards := List.countP_pos_iff.2 ⟨_, hf, rfl⟩
    omega

theorem Dropped.send {m : Frontend} (h : Dropped w n) :
    Dropped { w with inbox := w.inbox ++ [m], sent := w.sent ++ [m] } n := by
  refine h.imp_left ?_
  rintro ⟨k, x, hnk, hk, hx, hsync⟩
  exact ⟨k, x, hnk, hk, (List.getElem?_append_left (List.getElem?_eq_some_iff.1 hx).1).trans hx,
    hsync⟩

theorem Dropped.front {now : Nat} {jobID : String} (h : Dropped w n) (ht : Threads w)
    (hr : Refusing w) (hf : w.front = a :: rest) (hn : n < w.read) (hext : Extended w.sent n) :
    Dropped (w.applyFront rest (a.exec D now jobID w.sess)) n := by
  obtain ⟨m, hm, ha⟩ := ht.head hf
  rcases h with h | hskip | hany
  · exact .inl h
  · by_cases hsync : ∃ k, a = .handleSync k
    · -- the batch is over: the message just read is its `Sync`
      obtain ⟨k, rfl⟩ := hsync
      cases ha with
      | code ha =>
        obtain ⟨-, rfl⟩ := ha
        refine .inl ⟨w.read - 1, .sync, ?_, Nat.sub_lt (Nat.zero_lt_of_lt hn) Nat.one_pos, hm, rfl⟩
        refine lt_of_le_of_ne (Nat.le_sub_one_of_lt hn) ?_
        rintro rfl
        obtain ⟨m', hm', hext⟩ := hext
        cases hm.symm.trans hm'
        cases hext
    by_cases hclear : a = .clearAborted
    · subst hclear
      have hclears := hr.clears
      rw [hf] at hclears
      obtain ⟨b, hb, hfw, hspared⟩ := hclears.1 rfl
      exact absurd (hr.dropping hskip b (by simp [hf, hb]) hfw) hspared
    refine .inr (.inl ?_)
    cases hs : a.skips with
    | true => cases a <;> first | rfl | cases hs
    | false => exact (exec_skipSync hs (fun k h => hsync ⟨k, h⟩) hclear).trans hskip
  · rw [hf, any_skips_cons, Bool.or_eq_true] at hany
    rcases hany with hs | hs
    · refine .inr (.inl ?_)
      cases a <;> first | rfl | cases hs
    · refine .inr (.inr ?_)
      change ((a.exec D now jobID w.sess).next ++ rest).any Act.skips = true
      rw [List.any_append, hs, Bool.or_true]

theorem Dropped.moves {l : Label U} (h : Dropped w n) (ht : Threads w) (hr : Refusing w)
    (hn : n < w.read) (hext : Extended w.sent n) (hm : Moves D l w w') : Dropped w' n := by
  cases hm with
  | send => exact h.send
  | readClient hf hi hc =>
    rcases h with ⟨k, m, hnk, hk, hx, hsync⟩ | hskip | hany
    · exact .inl ⟨k, m, hnk, Nat.lt_succ_of_lt hk, hx, hsync⟩
    · exact .inr (.inl hskip)
    · rw [hf] at hany
      cases hany
  | front hf => exact h.front ht hr hf hn hext
  | readUpstream hb hu hc => exact h
  | back hb => exact h.imp_right (Or.imp_left (exec_mode_skipSync (hb ▸ ht.back)).trans)
  | answer hq => exact h

theorem Refusing.dropped {d : Delivery} {m : Frontend} (hr : Refusing w)
    (hf : w.front = .writeClient d :: rest) (hm : w.sent[w.read - 1]? = some m)
    (hext : m.tag.extended = true) : rest.any Act.skips = true := by
  have hrefuses := hr.refuses m hm hext
  rw [hf] at hrefuses
  obtain ⟨b, hb, hs⟩ := hrefuses.1 rfl
  exact List.any_eq_true.2 ⟨b, hb, hs⟩

end Dropped

end DsqlEmulator.Proxy
