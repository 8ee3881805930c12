import DsqlEmulator.Proxy.OrderLaws

/-! The ways of a message through the frontend pump.  Of the acts that may still
forward it there is one at a time, and each says what it has found out when it
hands the message on. -/

namespace DsqlEmulator.Proxy

open Wire Occ Txn Runs

variable {U : Upstream} {D : Dialect}

abbrev Act.forwarding (n : Nat) (m : Frontend) : Act := .writeUpstream (.client n) [m]

def Dialect.rewritten (D : Dialect) : Frontend → Frontend
  | .query sql => .query (((D.rewriteSQL sql).map Rewrite.sql).getD sql)
  | m => m

def Classification.asyncKinds : Classification → Option (List Kind)
  | .unparsed => some [.ddl]
  | .rejected _ => none
  | .accepted kinds _ => some (if kinds = [] then [.ddl] else kinds)

inductive Hands (D : Dialect) (now : Nat) (jobID : String) (s : Session) (n : Nat) :
    Act → Act → Prop
  | dispatched {m} : (∀ b, m = .bind b → s.statements b.statement ≠ none) →
      Hands D now jobID s n (.droppingUntilSync n m) (.aborted n m)
  | forwarded {m} : m.sql = none → (∀ b, m = .bind b → s.statements b.statement = none) →
      Hands D now jobID s n (.droppingUntilSync n m) (.forwarding n m)
  | synced : Hands D now jobID s n (.handleSync n) (.forwarding n .sync)
  | async {sql rewritten statement kinds} : D.stripAsync sql = some (rewritten, statement) →
      s.txnAborted = false → (D.classify true rewritten).asyncKinds = some kinds →
      Hands D now jobID s n (.aborted n (.query sql)) (.admitAsync n rewritten statement kinds)
  | ended {sql} : D.stripAsync sql = none → s.txnAborted = true →
      Kind.endsTransaction (D.classify false sql).kinds = true →
      Hands D now jobID s n (.aborted n (.query sql)) (.forwarding n (.query sql))
  | unparsed {sql} : D.stripAsync sql = none → s.txnAborted = false → D.classify false sql =
      .unparsed → Hands D now jobID s n (.aborted n (.query sql)) (.forwarding n (.query sql))
  | classified {sql kinds tables} : D.stripAsync sql = none → s.txnAborted = false →
      D.classify false sql = .accepted kinds tables →
        Hands D now jobID s n (.aborted n (.query sql))
        (.admitKinds n (.query sql) { kinds, tables, intent := D.analyze sql })
  | asyncParse {name sql rewritten statement kinds} : D.stripAsync sql =
      some (rewritten, statement) →
      s.txnAborted = false → (D.classify true rewritten).asyncKinds = some kinds →
      Hands D now jobID s n (.aborted n (.parse name sql))
        (.forwarding n (.parse name (jobMarker jobID ++ rewritten)))
  | parse {name sql} : D.stripAsync sql = none → (∀ v, D.classify false sql ≠ .rejected v) →
      Hands D now jobID s n (.aborted n (.parse name sql)) (.forwarding n (.parse name sql))
  | parseRewritten {name sql r} : D.stripAsync sql = none → D.rewriteSQL sql = some r →
      Hands D now jobID s n (.aborted n (.parse name sql)) (.forwarding n (.parse name r.sql))
  | bindEnded {b info} : s.statements b.statement = some info → s.txnAborted = true →
      Kind.endsTransaction info.kinds = true → Hands D now jobID s n (.aborted n (.bind b))
        (.forwarding n (.bind b))
  | bind {b info} : s.statements b.statement = some info → s.txnAborted = false →
      Hands D now jobID s n (.aborted n (.bind b)) (.admitKinds n (.bind b) info)
  | passed {m} : m.sql = none → (∀ b, m = .bind b → s.statements b.statement = none) →
      Hands D now jobID s n (.aborted n m) (.forwarding n m)
  | commits {m info t} : s.tracker.admitKinds info.kinds now = (t, none) →
      Kind.isCommit info.kinds = true →
      Hands D now jobID s n (.admitKinds n m info) (.occAdjudicated n m info)
  | admitted {m info t} : s.tracker.admitKinds info.kinds now = (t, none) →
      Hands D now jobID s n (.admitKinds n m info) (.forwarding n (D.rewritten m))
  | asyncAdmitted {rewritten statement kinds t} : s.tracker.admitKinds kinds now = (t, none) →
      Hands D now jobID s n (.admitAsync n rewritten statement kinds)
        (.forwarding n (.query (jobMarker jobID ++ rewritten)))
  | undoomed {m info} : s.occDoomed = false →
      Hands D now jobID s n (.occAdjudicated n m info) (.forwarding n (D.rewritten m))
  | injecting {m info} : s.occDoomed = false →
      Hands D now jobID s n (.occAdjudicated n m info) (.occCommitConflict n m info)
  | committed {m info} : Hands D now jobID s n (.occCommitConflict n m info)
      (.forwarding n (D.rewritten m))

inductive Remembers (D : Dialect) (jobID : String) (s : Session) (sql : String) :
    Option StatementInfo → Option String → Prop
  | async {rewritten statement kinds} : D.stripAsync sql = some (rewritten, statement) →
      s.txnAborted = false → (D.classify true rewritten).asyncKinds = some kinds →
      Remembers D jobID s sql (some { kinds, jobID := some jobID })
        (some (jobMarker jobID ++ rewritten))
  | ending {kinds tables} : D.stripAsync sql = none → s.txnAborted = true →
      D.classify false sql = .accepted kinds tables → Kind.endsTransaction kinds = true →
      Remembers D jobID s sql (some { kinds, tables }) (some sql)
  | unparsed : D.stripAsync sql = none → s.txnAborted = false → D.classify false sql = .unparsed →
      Remembers D jobID s sql none (some sql)
  | rejected {v} : D.stripAsync sql = none → s.txnAborted = false → D.classify false sql =
      .rejected v → Remembers D jobID s sql none none
  | rewritten {kinds tables r} : D.stripAsync sql = none → s.txnAborted = false →
      D.classify false sql = .accepted kinds tables → D.rewriteSQL sql = some r →
      Remembers D jobID s sql (some { kinds, tables }) (some r.sql)
  | parsed {kinds tables} : D.stripAsync sql = none → s.txnAborted = false →
      D.classify false sql = .accepted kinds tables → D.rewriteSQL sql = none →
      Remembers D jobID s sql (some { kinds, tables, intent := D.analyze sql }) (some sql)

section Lists

variable {s : Session} {n : Nat} {m : Frontend} {now : Nat} {jobID : String} {l : List Act}
  {a b : Act}

theorem not_forwards_of_countP (h : l.countP Act.forwards = 0) (hb : b ∈ l) : b.forwards ≠ true :=
  List.countP_eq_zero.1 h b hb

theorem mem_forward (hb : b ∈ forward n m) (hf : b.forwards = true) : b = .forwarding n m := by
  unfold forward at hb
  split at hb <;> simp only [List.mem_cons, List.not_mem_nil, or_false] at hb
  · rcases hb with rfl | rfl
    · cases hf
    · rfl
  · exact hb

theorem mem_endAborted (hb : b ∈ endAborted ++ forward n m) (hf : b.forwards = true) :
    b = .forwarding n m := by
  rcases List.mem_append.1 hb with hb | hb
  · exact absurd hf (not_forwards_of_countP rfl hb)
  · exact mem_forward hb hf

theorem mem_send {info : StatementInfo} (hb : b ∈ send D n m info) (hf : b.forwards = true) :
    b = .forwarding n (D.rewritten m) := by
  unfold send at hb
  split at hb
  next sql =>
    split at hb
    next r hr =>
      rcases List.mem_append.1 hb with hb | hb
      · refine absurd hf (not_forwards_of_countP ?_ hb)
        split <;> rfl
      · simp only [List.mem_cons, List.not_mem_nil, or_false] at hb
        rcases hb with rfl | rfl
        · cases hf
        · simp [Dialect.rewritten, hr]
    next hr => simpa [Dialect.rewritten, hr] using mem_forward hb hf
  next hm =>
    rcases List.mem_append.1 hb with hb | hb
    · refine absurd hf (not_forwards_of_countP ?_ hb)
      cases info.jobID <;> rfl
    · rw [mem_forward hb hf]
      cases m with
      | query sql => exact absurd rfl (hm sql)
      | _ => rfl

theorem mem_admitted {info : StatementInfo} (hb : b ∈ admitted D s n m info)
    (hf : b.forwards = true) :
    Kind.isCommit info.kinds = true ∧ b = .occAdjudicated n m info ∨ b =
      .forwarding n (D.rewritten m) := by
  simp only [admitted, List.mem_append, List.mem_cons] at hb
  rcases hb with hb | rfl | hb
  · refine absurd hf (not_forwards_of_countP ?_ hb)
    split <;> rfl
  · cases hf
  · split at hb
    · split at hb
      next hcommit => exact .inl ⟨hcommit, List.mem_singleton.1 hb⟩
      next =>
        rcases List.mem_cons.1 hb with rfl | hb
        · cases hf
        · exact .inr (mem_send hb hf)
    · split at hb
      · rcases List.mem_append.1 hb with hb | hb
        · exact absurd hf (not_forwards_of_countP armAdjudicator_forwards hb)
        · exact .inr (mem_send hb hf)
      · exact .inr (mem_send hb hf)

theorem mem_forwardAsyncJob {rewritten : String} {statement : Nat}
    (hb : b ∈ (forwardAsyncJob D jobID s n m rewritten statement).next) (hf : b.forwards = true) :
    ∃ kinds, (D.classify true rewritten).asyncKinds = some kinds ∧
      b ∈ (runAsyncJob jobID s n m rewritten statement kinds).next := by
  unfold forwardAsyncJob at hb
  split at hb
  next hc => exact ⟨_, by simp [hc, Classification.asyncKinds], hb⟩
  next => exact absurd hf (not_forwards_of_countP reject_forwards hb)
  next hc => exact ⟨_, by simp [hc, Classification.asyncKinds], hb⟩

theorem handleQuery_hands {sql : String} (hb : b ∈ (handleQuery D jobID s n sql).next)
    (hf : b.forwards = true) : Hands D now jobID s n (.aborted n (.query sql)) b := by
  unfold handleQuery at hb
  split at hb
  next rewritten statement hasync =>
    split at hb
    · exact absurd hf (not_forwards_of_countP rejectFailed_forwards hb)
    next hab =>
      obtain ⟨kinds, hkinds, hb⟩ := mem_forwardAsyncJob hb hf
      rw [List.mem_singleton.1 hb]
      exact .async hasync (by simpa using hab) hkinds
  next hasync =>
    split at hb
    next hab =>
      split at hb
      next hends =>
        rw [mem_endAborted hb hf]
        exact .ended hasync hab hends
      next => exact absurd hf (not_forwards_of_countP rejectFailed_forwards hb)
    next hab =>
      rw [Bool.not_eq_true] at hab
      split at hb
      next hc =>
        dsimp only at hb
        rw [mem_forward hb hf]
        exact .unparsed hasync hab hc
      next => exact absurd hf (not_forwards_of_countP reject_forwards hb)
      next hc =>
        rw [List.mem_singleton.1 hb]
        exact .classified hasync hab hc

theorem handleParse_hands {name sql : String} (hb : b ∈ (handleParse D jobID s n name sql).next)
    (hf : b.forwards = true) : Hands D now jobID s n (.aborted n (.parse name sql)) b := by
  unfold handleParse at hb
  split at hb
  next rewritten statement hasync =>
    split at hb
    · exact absurd hf (not_forwards_of_countP rejectFailed_forwards hb)
    next hab =>
      obtain ⟨kinds, hkinds, hb⟩ := mem_forwardAsyncJob hb hf
      simp only [runAsyncJob, List.mem_cons, List.not_mem_nil, or_false] at hb
      rcases hb with rfl | rfl
      · cases hf
      · exact .asyncParse hasync (by simpa using hab) hkinds
  next hasync =>
    dsimp only at hb
    split at hb
    · split at hb
      next hc =>
        split at hb
        · dsimp only at hb
          rw [mem_forward hb hf]
          exact .parse hasync (by simp [hc])
        · exact absurd hf (not_forwards_of_countP rejectFailed_forwards hb)
      next => exact absurd hf (not_forwards_of_countP rejectFailed_forwards hb)
    · split at hb
      next hc =>
        dsimp only at hb
        rw [mem_forward hb hf]
        exact .parse hasync (by simp [hc])
      next => exact absurd hf (not_forwards_of_countP reject_forwards hb)
      next hc =>
        split at hb
        next r hr =>
          rcases List.mem_append.1 hb with hb | hb
          · refine absurd hf (not_forwards_of_countP ?_ hb)
            split <;> rfl
          · rw [List.mem_singleton.1 hb]
            exact .parseRewritten hasync hr
        next =>
          rcases List.mem_append.1 hb with hb | hb
          · refine absurd hf (not_forwards_of_countP ?_ hb)
            split <;> rfl
          · rw [mem_forward hb hf]
            exact .parse hasync (by simp [hc])

theorem handleBind_hands {bind : Bind} {info : StatementInfo}
    (hs : s.statements bind.statement = some info) (hb : b ∈ (handleBind s n bind info).next)
    (hf : b.forwards = true) : Hands D now jobID s n (.aborted n (.bind bind)) b := by
  unfold handleBind at hb
  split at hb
  next hab =>
    split at hb
    next hends =>
      rw [mem_endAborted hb hf]
      exact .bindEnded hs hab hends
    next => exact absurd hf (not_forwards_of_countP rejectFailed_forwards hb)
  next hab =>
    rw [List.mem_singleton.1 hb]
    exact .bind hs (by simpa using hab)

theorem dispatch_hands (hb : b ∈ (dispatch s n m).next) (hf : b.forwards = true) :
    Hands D now jobID s n (.droppingUntilSync n m) b := by
  unfold dispatch at hb
  split at hb
  · rw [List.mem_singleton.1 hb]
    exact .dispatched (by simp)
  · rw [List.mem_singleton.1 hb]
    exact .dispatched (by simp)
  · split at hb
    next hs =>
      dsimp only at hb
      rw [mem_forward hb hf]
      exact .forwarded rfl (by simpa using hs)
    next hs =>
      rw [List.mem_singleton.1 hb]
      exact .dispatched (by simp [hs])
  · dsimp only at hb
    rw [mem_forward hb hf]
    exact .forwarded rfl (by simp)
  next hquery hparse hbind _ =>
    dsimp only at hb
    rw [mem_forward hb hf]
    refine .forwarded ?_ fun b h => absurd h (hbind b)
    cases m with
    | query sql => exact absurd rfl (hquery sql)
    | parse name sql => exact absurd rfl (hparse name sql)
    | _ => rfl

theorem Hands.frontCode (hands : Hands D now jobID s n a b) (ha : FrontAct n m a) :
    FrontCode n m a := by
  cases hands <;> cases ha <;> assumption

theorem hands_of_exec (ha : FrontAct n m a) (hb : b ∈ (a.exec D now jobID s).next)
    (hf : b.forwards = true) : Hands D now jobID s n a b := by
  by_cases hfa : a.forwards = true
  · cases ha with
    | code ha =>
      cases a with
      | droppingUntilSync k m' =>
        obtain ⟨rfl, -⟩ := ha
        dsimp only [Act.exec] at hb
        split at hb
        · cases hb
        · rcases List.mem_append.1 hb with hb | hb
          · exact dispatch_hands hb hf
          · rw [List.mem_singleton.1 hb] at hf
            cases hf
      | handleSync k =>
        obtain ⟨rfl, -⟩ := ha
        rcases List.mem_append.1 hb with hb | hb
        · rw [mem_forward hb hf]
          exact .synced
        · refine absurd hf (not_forwards_of_countP ?_ hb)
          cases s.pendingFailure <;> rfl
      | aborted k m' =>
        obtain ⟨rfl, -⟩ := ha
        dsimp only [Act.exec] at hb
        split at hb
        · exact handleQuery_hands hb hf
        · exact handleParse_hands hb hf
        · split at hb
          next hs => exact handleBind_hands hs hb hf
          next hs =>
            dsimp only at hb
            rw [mem_forward hb hf]
            exact .passed rfl (by simpa using hs)
        next hquery hparse hbind =>
          dsimp only at hb
          rw [mem_forward hb hf]
          refine .passed ?_ fun b h => absurd h (hbind b)
          cases m' with
          | query sql => exact absurd rfl (hquery sql)
          | parse name sql => exact absurd rfl (hparse name sql)
          | _ => rfl
      | admitKinds k m' info =>
        obtain ⟨rfl, -⟩ := ha
        dsimp only [Act.exec] at hb
        split at hb
        · exact absurd hf (not_forwards_of_countP reject_forwards hb)
        next hadmit =>
          have hpair : s.tracker.admitKinds info.kinds now = (_, none) :=
            Prod.ext_iff.2 ⟨rfl, hadmit⟩
          rcases mem_admitted hb hf with ⟨hcommit, rfl⟩ | rfl
          · exact .commits hpair hcommit
          · exact .admitted hpair
      | admitAsync k rewritten statement kinds =>
        obtain ⟨rfl, -⟩ := ha
        dsimp only [Act.exec] at hb
        split at hb
        · exact absurd hf (not_forwards_of_countP reject_forwards hb)
        next hadmit =>
          simp only [List.mem_cons, List.not_mem_nil, or_false] at hb
          rcases hb with rfl | rfl | rfl
          · cases hf
          · cases hf
          · exact .asyncAdmitted (Prod.ext_iff.2 ⟨rfl, hadmit⟩)
      | occAdjudicated k m' info =>
        obtain ⟨rfl, -⟩ := ha
        dsimp only [Act.exec] at hb
        split at hb
        · exact absurd hf (not_forwards_of_countP occFailure_forwards hb)
        next hdoom =>
          rw [Bool.not_eq_true] at hdoom
          split at hb
          · rcases List.mem_cons.1 hb with rfl | hb
            · cases hf
            · rw [mem_send hb hf]
              exact .undoomed hdoom
          · rw [List.mem_singleton.1 hb]
            exact .injecting hdoom
      | occCommitConflict k m' info =>
        obtain ⟨rfl, -⟩ := ha
        dsimp only [Act.exec] at hb
        split at hb
        · exact absurd hf (not_forwards_of_countP occFailure_forwards hb)
        · rcases List.mem_cons.1 hb with rfl | hb
          · cases hf
          · rw [mem_send hb hf]
            exact .committed
      | writeUpstream o ms => cases hb
      | _ => cases hfa
    | _ => cases hfa
  · rw [Bool.not_eq_true] at hfa
    have hcount : (a.exec D now jobID s).next.countP Act.forwards ≤ a.forwards.toNat :=
      exec_forwards ha
    rw [hfa] at hcount
    exact absurd hf (not_forwards_of_countP (Nat.le_zero.1 hcount) hb)

theorem filter_forward : (forward n m).filter Act.forwards = [.forwarding n m] := by
  unfold forward
  split <;> rfl

theorem filter_forwards_eq_nil (h : l.countP Act.forwards = 0) : l.filter Act.forwards = [] :=
  List.filter_eq_nil_iff.2 fun _ => not_forwards_of_countP h

theorem handleParse_remembers (jobID : String) (n : Nat) (name sql : String) :
    ((handleParse D jobID s n name sql).sess.statements = s.statements ∧
      (handleParse D jobID s n name sql).next.filter Act.forwards = []) ∨
    ∃ info text, Remembers D jobID s sql info text ∧
      (handleParse D jobID s n name sql).sess.statements = Function.update s.statements name info ∧
      (handleParse D jobID s n name sql).next.filter Act.forwards =
        (text.map fun text => Act.forwarding n (.parse name text)).toList := by
  unfold handleParse
  split
  next rewritten statement hasync =>
    split
    · exact .inl ⟨rfl, filter_forwards_eq_nil rejectFailed_forwards⟩
    next hab =>
      rw [Bool.not_eq_true] at hab
      unfold forwardAsyncJob
      split
      next hc =>
        exact .inr ⟨_, _, .async hasync hab (by simp [hc, Classification.asyncKinds]), rfl, rfl⟩
      next => exact .inl ⟨rfl, filter_forwards_eq_nil reject_forwards⟩
      next hc =>
        exact .inr ⟨_, _, .async hasync hab (by simp [hc, Classification.asyncKinds]), rfl, rfl⟩
  next hasync =>
    dsimp only
    split
    next hab =>
      split
      next hc =>
        split
        next hends =>
          exact .inr ⟨_, _, .ending hasync hab hc hends, rfl,
            filter_forward (n := n) (m := .parse name sql)⟩
        next => exact .inl ⟨rfl, filter_forwards_eq_nil rejectFailed_forwards⟩
      next => exact .inl ⟨rfl, filter_forwards_eq_nil rejectFailed_forwards⟩
    next hab =>
      rw [Bool.not_eq_true] at hab
      split
      next hc =>
        exact .inr ⟨_, _, .unparsed hasync hab hc, rfl,
          filter_forward (n := n) (m := .parse name sql)⟩
      next hc =>
        exact .inr ⟨_, _, .rejected hasync hab hc, rfl, filter_forwards_eq_nil reject_forwards⟩
      next hc =>
        split
        next hr =>
          refine .inr ⟨_, _, .rewritten hasync hab hc hr, rfl, ?_⟩
          dsimp only
          split <;> rfl
        next hr =>
          refine .inr ⟨_, _, .parsed hasync hab hc hr, rfl, ?_⟩
          dsimp only
          rw [List.filter_append, filter_forward]
          split <;> rfl

theorem exec_remembers (a : Act) (now : Nat) (jobID : String) :
    (a.exec D now jobID s).sess.statements = s.statements ∨
    (∃ k name sql, a = .aborted k (.parse name sql)) ∨
    ∃ k name, a = .droppingUntilSync k (.close true name) ∧
      (a.exec D now jobID s).sess.statements = Function.update s.statements name none ∧
      (a.exec D now jobID s).next.filter Act.forwards = [.forwarding k (.close true name)] := by
  cases a with
  | aborted k m' =>
    cases m' with
    | parse name sql => exact .inr (.inl ⟨k, name, sql, rfl⟩)
    | query sql =>
      dsimp only [Act.exec, handleQuery]
      split
      · split
        · exact .inl rfl
        · unfold forwardAsyncJob
          split <;> exact .inl rfl
      · split
        · split <;> exact .inl rfl
        · split <;> exact .inl rfl
    | bind b =>
      dsimp only [Act.exec, handleBind]
      split
      · split
        · split <;> exact .inl rfl
        · exact .inl rfl
      · exact .inl rfl
    | _ => exact .inl rfl
  | droppingUntilSync k m' =>
    dsimp only [Act.exec]
    split
    · exact .inl rfl
    · unfold dispatch
      split
      · exact .inl rfl
      · exact .inl rfl
      · split <;> exact .inl rfl
      next name =>
        refine .inr (.inr ⟨k, name, rfl, rfl, ?_⟩)
        rw [List.filter_append, filter_forward]
        rfl
      · exact .inl rfl
  | _ => dsimp only [Act.exec]; (repeat' split) <;> exact .inl rfl

end Lists

end DsqlEmulator.Proxy
