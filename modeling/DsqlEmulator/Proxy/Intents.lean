import DsqlEmulator.Guard
import DsqlEmulator.Proxy.HiddenLaws
import DsqlEmulator.Proxy.Refusals
import DsqlEmulator.Proxy.Repairs
import DsqlEmulator.Proxy.Routes

/-! Whose intent a conflict is answered from.  The session keeps one intent, the one
it recorded last; a statement it forwards without recording any leaves it in place. -/

namespace DsqlEmulator.Wire

def Frontend.starts (m : Frontend) : Bool := m.tag = .query || m.tag = .bind

def Frontend.raises (m : Frontend) : Bool := m.starts || m.tag = .execute

def Frontend.executes : Frontend → Option String
  | .execute portal => some portal
  | _ => none

def Frontend.binds : Frontend → Option String
  | .bind b => some b.portal
  | _ => none

def Backend.isConflict : Backend → Bool
  | .error e => Occ.isConflict e.code
  | _ => false

end DsqlEmulator.Wire

namespace DsqlEmulator.Proxy

open Wire Occ Txn Runs Guard

variable {U : Upstream} {D : Dialect}

def Session.passesOver (D : Dialect) (s : Session) : Frontend → Bool
  | .query sql => (D.stripAsync sql).isSome || D.classify false sql = .unparsed || !s.tracker.inTxn
  | .bind b => (s.statements b.statement).isNone || !s.tracker.inTxn
  | _ => true

def Session.Own (D : Dialect) (s : Session) (n : Nat) (m : Frontend) : Prop :=
  s.passesOver D m = true ∨ ∀ f, s.occInFlight = some f → f.request = n

@[simp] def Act.sends : Act → Bool
  | .writeUpstream (.client _) ms => ms.any Frontend.starts
  | _ => false

@[simp] def Act.arms (n : Nat) : Act → Bool
  | .setInFlight k _ _ => k = n
  | .resetOcc => true
  | _ => false

@[simp] def Act.Async (D : Dialect) (m : Frontend) : Act → Prop
  | .admitAsync _ _ _ _ => ∃ sql, m = .query sql ∧ (D.stripAsync sql).isSome = true
  | _ => True

abbrev SendsOwn (n : Nat) : Prop → List Act → Prop := Guarded Act.sends (Act.arms n)

section Lists

variable {s : Session} {n : Nat} {m : Frontend} {now : Nat} {jobID : String} {l : List Act}
  {ok : Prop} {a : Act}

theorem forwards_of_sends (h : a.sends = true) : a.forwards = true := by
  cases a with
  | writeUpstream o ms => cases o <;> first | rfl | cases h
  | _ => cases h

theorem guarded_of_not_forwards (h : l.countP Act.forwards = 0) : SendsOwn n ok l :=
  .of_not_needs fun a ha => by
    cases hs : a.sends with
    | false => rfl
    | true => exact absurd (forwards_of_sends hs) (List.countP_eq_zero.1 h a ha)

theorem guarded_forward (h : m.starts = true → ok) : SendsOwn n ok (forward n m) := by
  unfold forward
  split <;> simpa [Guarded] using h

theorem admitted_guarded {info : StatementInfo} :
    SendsOwn n (s.Own D n m) (admitted D s n m info) := by
  have htables : SendsOwn n (s.Own D n m)
      (if info.tables = [] then [] else [.addOccTables info.tables]) := by
    split <;> simp [Guarded]
  refine htables.append (Guarded.cons rfl ?_)
  split
  · split
    · simp [Guarded]
    · exact Guarded.given rfl rfl
  · split
    · cases info.intent with
      | none => exact Guarded.given rfl (by simp)
      | some intent => exact Guarded.cons rfl (Guarded.given rfl (by simp))
    next hin =>
      -- outside a transaction nothing is recorded
      refine Guarded.of_ok (.inl ?_)
      cases m <;> simp_all [Session.passesOver]

theorem endAborted_guarded : SendsOwn n ok (endAborted ++ l) :=
  Guarded.cons rfl (Guarded.given rfl rfl)

theorem handleQuery_guarded {sql : String} :
    SendsOwn n ((handleQuery D jobID s n sql).sess.Own D n (.query sql))
      (handleQuery D jobID s n sql).next := by
  unfold handleQuery
  split
  next rewritten statement hasync =>
    split
    · exact guarded_of_not_forwards rejectFailed_forwards
    · refine Guarded.of_ok (.inl ?_)
      simp [Session.passesOver, hasync]
  next =>
    split
    · split
      · exact endAborted_guarded
      · exact guarded_of_not_forwards rejectFailed_forwards
    · split
      next hc =>
        refine Guarded.of_ok (.inl ?_)
        simp [Session.passesOver, hc]
      next => exact guarded_of_not_forwards reject_forwards
      next => simp [Guarded]

theorem handleBind_guarded {b : Bind} {info : StatementInfo} :
    SendsOwn n ok (handleBind s n b info).next := by
  unfold handleBind
  split
  · split
    · exact endAborted_guarded
    · exact guarded_of_not_forwards rejectFailed_forwards
  · simp [Guarded]

theorem guarded_of_starts (hm : m.starts = false) (h : ∀ a ∈ l, FrontAct n m a) :
    SendsOwn n ok l := by
  induction l generalizing ok with
  | nil => trivial
  | cons a l ih =>
    refine Guarded.cons ?_ (ih fun b hb => h b (List.mem_cons_of_mem a hb))
    cases h a List.mem_cons_self with
    | code ha =>
      cases a with
      | writeUpstream o ms =>
        cases o with
        | client k =>
          obtain ⟨-, m', rfl, htag⟩ := ha
          simpa [Frontend.starts, htag] using hm
        | _ => rfl
      | _ => rfl
    | _ => rfl

theorem dispatch_guarded : SendsOwn n ((dispatch s n m).sess.Own D n m) (dispatch s n m).next := by
  unfold dispatch
  split
  · simp [Guarded]
  · simp [Guarded]
  · split
    next hs =>
      dsimp only
      exact guarded_forward fun _ => .inl (by simp [Session.passesOver, hs])
    next => simp [Guarded]
  · dsimp only
    exact guarded_forward fun _ => .inl rfl
  next hquery _ hbind _ =>
    dsimp only
    refine guarded_forward fun _ => .inl ?_
    cases m with
    | query sql => exact absurd rfl (hquery sql)
    | bind b => exact absurd rfl (hbind b)
    | _ => rfl

theorem exec_guarded {a : Act} (hs : s.PendingInjected) (ha : FrontAct n m a)
    (hasync : a.Async D m) :
    SendsOwn n ((a.exec D now jobID s).sess.Own D n m) (a.exec D now jobID s).next := by
  cases hm : m.starts with
  | false => exact guarded_of_starts hm (exec_front hs ha)
  | true =>
  by_cases hf : a.forwards = true
  · cases ha with
    | code ha =>
      cases a with
      | droppingUntilSync k m' =>
        obtain ⟨rfl, rfl, -⟩ := ha
        dsimp only [Act.exec]
        split
        · trivial
        · exact dispatch_guarded.append (Guarded.cons rfl trivial)
      | handleSync k =>
        obtain ⟨rfl, rfl⟩ := ha
        refine (guarded_forward (by simp [Frontend.starts])).append ?_
        cases s.pendingFailure <;> simp [Guarded]
      | aborted k m' =>
        obtain ⟨rfl, rfl, -⟩ := ha
        dsimp only [Act.exec]
        split
        · exact handleQuery_guarded
        · cases hm
        · split
          · exact handleBind_guarded
          next hs =>
            dsimp only
            exact guarded_forward fun _ => .inl (by simp [Session.passesOver, hs])
        next hquery _ hbind =>
          dsimp only
          refine guarded_forward fun _ => .inl ?_
          cases m' with
          | query sql => exact absurd rfl (hquery sql)
          | bind b => exact absurd rfl (hbind b)
          | _ => rfl
      | admitKinds k m' info =>
        obtain ⟨rfl, rfl, -⟩ := ha
        dsimp only [Act.exec]
        split
        · exact guarded_of_not_forwards reject_forwards
        · exact admitted_guarded
      | admitAsync k rewritten statement kinds =>
        obtain ⟨sql, rfl, hsome⟩ := hasync
        refine Guarded.of_ok (.inl ?_)
        simp [Session.passesOver, hsome]
      | occAdjudicated k m' info =>
        dsimp only [Act.exec]
        split
        · exact guarded_of_not_forwards occFailure_forwards
        · split
          · exact Guarded.given rfl rfl
          · simp [Guarded]
      | occCommitConflict k m' info =>
        dsimp only [Act.exec]
        split
        · exact guarded_of_not_forwards occFailure_forwards
        · exact Guarded.given rfl rfl
      | writeUpstream o ms => trivial
      | _ => cases hf
    | _ => cases hf
  · apply guarded_of_not_forwards
    have hcount : (a.exec D now jobID s).next.countP Act.forwards ≤ a.forwards.toNat :=
      exec_forwards ha
    rw [Bool.not_eq_true] at hf
    rw [hf] at hcount
    exact Nat.le_zero.1 hcount

theorem exec_async {b : Act} (ha : FrontAct n m a) (hb : b ∈ (a.exec D now jobID s).next) :
    b.Async D m := by
  cases b with
  | admitAsync k rewritten statement kinds =>
    cases hands_of_exec ha hb rfl with
    | async hasync =>
      cases ha with
      | code ha =>
        obtain ⟨-, rfl, -⟩ := ha
        exact ⟨_, rfl, by simp [hasync]⟩
  | _ => trivial

end Lists

@[simp] def Act.recording : Act → Option Nat
  | .setInFlight n (some _) _ => some n
  | _ => none

def Act.forwarded : Act → Option (Nat × Frontend)
  | .writeUpstream (.client n) [m] => some (n, m)
  | _ => none

def Records : List Act → Prop := Followed (·.recording.isSome = true) (·.forwarded.isSome = true)

section Records

variable {s : Session} {n : Nat} {m : Frontend} {now : Nat} {jobID : String}
  {l : List Act} {a : Act}

theorem records_of_not_recording (h : ∀ a ∈ l, a.recording = none) : Records l :=
  followed_of_forall_not fun a ha => by rw [h a ha]; simp

theorem forward_recording : ∀ a ∈ forward n m, a.recording = none := by
  unfold forward
  split <;> simp

theorem reject_recording {code message : String} {extended : Bool} :
    ∀ a ∈ reject s n code message extended, a.recording = none := by
  unfold reject
  split <;> split <;> simp [sendError]

theorem rejectFailed_recording {extended : Bool} :
    ∀ a ∈ rejectFailed n extended, a.recording = none := by
  unfold rejectFailed
  split <;> simp [sendError]

theorem occFailure_recording {extended : Bool} :
    ∀ a ∈ occFailure D n extended, a.recording = none := by
  unfold occFailure
  split <;> simp [sendError]

theorem endAborted_recording : ∀ a ∈ endAborted ++ forward n m, a.recording = none := by
  simpa [endAborted] using forward_recording

theorem send_recording {info : StatementInfo} : ∀ a ∈ send D n m info, a.recording = none := by
  unfold send
  split
  · split
    · split <;> simp
    · exact forward_recording
  · cases info.jobID with
    | none => exact forward_recording
    | some jobID => simpa using forward_recording

theorem admitted_records {info : StatementInfo} : Records (admitted D s n m info) := by
  have hsend : ∀ a ∈ send D n m info, a.recording = none := send_recording
  have hrecords : Records (send D n m info) := records_of_not_recording hsend
  have htables : Records (if info.tables = [] then [] else [.addOccTables info.tables]) := by
    refine records_of_not_recording ?_
    split <;> simp
  refine htables.append ⟨by simp, ?_⟩
  split
  · refine records_of_not_recording ?_
    split
    · simp
    · simpa using hsend
  · split
    · obtain ⟨b, hb, hf⟩ : ∃ b ∈ send D n m info, b.forwards = true :=
        List.countP_pos_iff.1 (by rw [send_forwards]; exact Nat.one_pos)
      have hforwarded : b.forwarded.isSome = true := by
        rw [mem_send hb hf]
        rfl
      cases info.intent with
      | none => exact ⟨by simp, hrecords⟩
      | some intent => exact ⟨by simp, fun _ => ⟨b, hb, hforwarded⟩, hrecords⟩
    · exact hrecords

theorem forwardAsyncJob_recording {rewritten : String} {statement : Nat} :
    ∀ a ∈ (forwardAsyncJob D jobID s n m rewritten statement).next, a.recording = none := by
  have hrun (kinds : List Kind) : ∀ a ∈ (runAsyncJob jobID s n m rewritten statement kinds).next,
      a.recording = none := by
    unfold runAsyncJob
    split <;> simp
  unfold forwardAsyncJob
  split
  · exact hrun _
  · exact reject_recording
  · exact hrun _

theorem handleQuery_recording {sql : String} :
    ∀ a ∈ (handleQuery D jobID s n sql).next, a.recording = none := by
  unfold handleQuery
  split
  · split
    · exact rejectFailed_recording
    · exact forwardAsyncJob_recording
  · split
    · split
      · exact endAborted_recording
      · exact rejectFailed_recording
    · split
      · dsimp only
        exact forward_recording
      · exact reject_recording
      · simp

theorem handleParse_recording {name sql : String} :
    ∀ a ∈ (handleParse D jobID s n name sql).next, a.recording = none := by
  unfold handleParse
  split
  · split
    · exact rejectFailed_recording
    · exact forwardAsyncJob_recording
  · dsimp only
    split
    · split
      · split
        · dsimp only
          exact forward_recording
        · exact rejectFailed_recording
      · exact rejectFailed_recording
    · split
      · dsimp only
        exact forward_recording
      · exact reject_recording
      · split
        · split <;> simp
        · split <;> simpa using forward_recording

theorem handleBind_recording {b : Bind} {info : StatementInfo} :
    ∀ a ∈ (handleBind s n b info).next, a.recording = none := by
  unfold handleBind
  split
  · split
    · exact endAborted_recording
    · exact rejectFailed_recording
  · simp

theorem dispatch_recording : ∀ a ∈ (dispatch s n m).next, a.recording = none := by
  unfold dispatch
  split
  · simp
  · simp
  · split
    · dsimp only
      exact forward_recording
    · simp
  · dsimp only
    exact forward_recording
  · dsimp only
    exact forward_recording

theorem exec_recording (ha : FrontAct n m a) (h : ∀ k m info, a ≠ .admitKinds k m info) :
    ∀ b ∈ (a.exec D now jobID s).next, b.recording = none := by
  cases ha with
  | code ha =>
    cases a with
    | droppingUntilSync k m' =>
      dsimp only [Act.exec]
      split
      · simp
      · simpa [or_imp, forall_and] using dispatch_recording
    | handleSync k =>
      intro b hb
      rcases List.mem_append.1 hb with hb | hb
      · exact forward_recording b hb
      · cases hp : s.pendingFailure <;> simp_all
    | aborted k m' =>
      dsimp only [Act.exec]
      split
      · exact handleQuery_recording
      · exact handleParse_recording
      · split
        · exact handleBind_recording
        · dsimp only
          exact forward_recording
      · dsimp only
        exact forward_recording
    | admitKinds k m' info => exact absurd rfl (h k m' info)
    | admitAsync k rewritten statement kinds =>
      dsimp only [Act.exec]
      split
      · exact reject_recording
      · simp
    | occAdjudicated k m' info =>
      dsimp only [Act.exec]
      split
      · exact occFailure_recording
      · split
        · simpa using send_recording
        · simp
    | occCommitConflict k m' info =>
      dsimp only [Act.exec]
      split
      · exact occFailure_recording
      · simpa using send_recording
    | _ => first | exact ha.elim | (dsimp only [Act.exec]; (repeat' split) <;> simp)
  | _ => simp

theorem exec_records (ha : FrontAct n m a) : Records (a.exec D now jobID s).next := by
  by_cases h : ∃ k m' info, a = .admitKinds k m' info
  · obtain ⟨k, m', info, rfl⟩ := h
    dsimp only [Act.exec]
    split
    · exact records_of_not_recording reject_recording
    · exact admitted_records
  · exact records_of_not_recording (exec_recording ha fun k m' info ha => h ⟨k, m', info, ha⟩)

end Records

@[simp] def Act.admits : Act → Bool
  | .admitKinds _ _ _ => true
  | .admitAsync _ _ _ _ => true
  | .admitRollback => true
  | _ => false

@[simp] def Act.remembers : Act → Bool
  | .aborted _ _ => true
  | .droppingUntilSync _ _ => true
  | _ => false

section Frames

variable {s : Session} {n : Nat} {m : Frontend} {now : Nat} {jobID : String} {a : Act}
  {rest : List Act}

theorem exec_tracker (ha : a.admits = false) : (a.exec D now jobID s).sess.tracker = s.tracker := by
  cases a with
  | aborted n m => obtain ⟨_, _, h⟩ := exec_aborted_quiet n m; rw [h]
  | droppingUntilSync n m => obtain ⟨_, _, h⟩ := exec_droppingUntilSync_quiet n m; rw [h]
  | admitKinds => cases ha
  | admitAsync => cases ha
  | admitRollback => cases ha
  | _ => dsimp only [Act.exec] <;> (repeat' split) <;> rfl

theorem exec_statements (ha : a.remembers = false) :
    (a.exec D now jobID s).sess.statements = s.statements := by
  cases a with
  | aborted => cases ha
  | droppingUntilSync => cases ha
  | _ => dsimp only [Act.exec] <;> (repeat' split) <;> rfl

theorem exec_occInFlight (ha : ∀ k i b, a ≠ .setInFlight k i b) :
    (a.exec D now jobID s).sess.occInFlight = s.occInFlight ∨
      (a.exec D now jobID s).sess.occInFlight = none := by
  cases a with
  | aborted n m => obtain ⟨_, _, h⟩ := exec_aborted_quiet n m; rw [h]; exact .inl rfl
  | droppingUntilSync n m =>
    obtain ⟨_, _, h⟩ := exec_droppingUntilSync_quiet n m; rw [h]; exact .inl rfl
  | setInFlight k i b => exact absurd rfl (ha k i b)
  | _ => dsimp only [Act.exec]; (repeat' split) <;> first | exact .inl rfl | exact .inr rfl

theorem exec_setInFlight {k : Nat} {i : Option Intent} {b : Option Bind} {f : InFlight}
    (h : ((Act.setInFlight k i b).exec D now jobID s).sess.occInFlight = some f) :
    (Act.setInFlight k i b).recording = some k ∧ f.request = k := by
  obtain ⟨intent, rfl, hf⟩ := Option.bind_eq_some_iff.1 h
  refine ⟨rfl, ?_⟩
  split at hf
  · split at hf <;> cases hf
    rfl
  · cases hf
    rfl

theorem backMode_quiet (h : BackMode (a :: rest)) :
    a.admits = false ∧ a.remembers = false ∧ ∀ k i b, a ≠ .setInFlight k i b := by
  cases h with
  | relaying h =>
    have ha := h _ List.mem_cons_self
    cases a <;> first | exact ha.elim | simp
  | repairing h =>
    cases h _ List.mem_cons_self with
    | code ha => cases a <;> first | exact ha.elim | simp
    | _ => simp
  | _ => simp

theorem passesOver_congr {s' : Session} (ht : s'.tracker = s.tracker)
    (hs : s'.statements = s.statements) : s'.passesOver D m = s.passesOver D m := by
  cases m <;> (simp only [Session.passesOver, ht, hs])

theorem Session.Own.congr {s' : Session} (h : s.Own D n m) (ht : s'.tracker = s.tracker)
    (hs : s'.statements = s.statements)
    (hf : s'.occInFlight = s.occInFlight ∨ s'.occInFlight = none) : s'.Own D n m := by
  refine h.imp (passesOver_congr ht hs).trans fun hown f hf' => ?_
  rcases hf with hf | hf
  · exact hown f (hf ▸ hf')
  · cases hf.symm.trans hf'

theorem own_exec_back (h : s.Own D n m) (hb : BackMode (a :: rest)) :
    (a.exec D 0 "" s).sess.Own D n m := by
  obtain ⟨hadmits, hremembers, hset⟩ := backMode_quiet hb
  exact h.congr (exec_tracker hadmits) (exec_statements hremembers) (exec_occInFlight hset)

theorem own_exec_front (ha : FrontAct n m a) (hf : a.forwards = false)
    (h : s.Own D n m ∨ a.arms n = true) : (a.exec D now jobID s).sess.Own D n m := by
  by_cases hset : ∃ k i b, a = .setInFlight k i b
  · obtain ⟨k, i, b, rfl⟩ := hset
    cases ha with
    | code ha =>
      obtain ⟨rfl, -⟩ := ha
      exact .inr fun f hf => (exec_setInFlight hf).2
  by_cases hreset : a = .resetOcc
  · subst hreset
    exact .inr (by simp)
  by_cases hroll : a = .admitRollback
  · subst hroll
    refine .inl ?_
    cases m <;> simp [Session.passesOver, Tracker.record, Tracker.reset]
  have hown : s.Own D n m := h.resolve_right fun harms => by
    cases a <;> first | exact hreset rfl | exact hset ⟨_, _, _, rfl⟩ | cases harms
  refine hown.congr (exec_tracker ?_) (exec_statements ?_) (exec_occInFlight fun k i b h =>
    hset ⟨k, i, b, h⟩)
  · cases a <;> first | rfl | exact absurd rfl hroll | cases hf
  · cases a <;> first | rfl | cases hf

end Frames

structure Arming (D : Dialect) (w : World U) : Prop where
  records : Records w.front
  async : ∀ m, w.sent[w.read - 1]? = some m → ∀ a ∈ w.front, a.Async D m
  guarded : ∀ m, w.sent[w.read - 1]? = some m →
    SendsOwn (w.read - 1) (w.sess.Own D (w.read - 1) m) w.front

section Arming

variable {w w' : World U} {a : Act} {rest : List Act}

theorem Arming.start : Arming D (World.start D U) := by
  constructor <;> simp [World.start, Records, Followed]

theorem Threads.current {x : Frontend} (ht : Threads w) (hf : w.front ≠ []) {l : List Frontend}
    (hx : (w.sent ++ l)[w.read - 1]? = some x) : w.sent[w.read - 1]? = some x := by
  obtain ⟨m, -, hm, -⟩ := ht.front hf
  exact (List.getElem?_append_left (List.getElem?_eq_some_iff.1 hm).1).symm.trans hx

theorem Arming.front {now : Nat} {jobID : String} (h : Arming D w) (ht : Threads w) (ho : Ordered w)
    (hf : w.front = a :: rest) : Arming D (w.applyFront rest (a.exec D now jobID w.sess)) := by
  obtain ⟨m', hm', ha⟩ := ht.head hf
  have hrecords := h.records
  rw [hf] at hrecords
  refine ⟨(exec_records ha).append hrecords.2, ?_, ?_⟩
  · intro m hm b hb
    obtain rfl : m' = m := Option.some.inj (hm'.symm.trans hm)
    rcases List.mem_append.1 hb with hb | hb
    · exact exec_async ha hb
    · exact h.async m' hm b (by simp [hf, hb])
  · intro m hm
    obtain rfl : m' = m := Option.some.inj (hm'.symm.trans hm)
    have hguard := h.guarded m' hm
    have hasync : a.Async D m' := h.async m' hm a (by simp [hf])
    rw [hf] at hguard
    refine (exec_guarded ht.pending ha hasync).append ?_
    cases hfa : a.forwards with
    | true =>
      apply guarded_of_not_forwards
      have honce := ho.once
      rw [hf, List.countP_cons_of_pos hfa] at honce
      omega
    | false => exact hguard.2.mono (own_exec_front ha hfa)

theorem pumpFrontend_guarded {n : Nat} {m : Frontend} {ok : Prop} :
    SendsOwn n ok (pumpFrontend n m) := by
  unfold pumpFrontend
  split <;> simp [Guarded, Frontend.starts]

theorem pumpFrontend_recording {n : Nat} {m : Frontend} :
    ∀ a ∈ pumpFrontend n m, a.recording = none := by
  unfold pumpFrontend
  split <;> simp

theorem pumpFrontend_async {n : Nat} {m m' : Frontend} : ∀ a ∈ pumpFrontend n m, a.Async D m' := by
  unfold pumpFrontend
  split <;> simp

theorem Arming.moves {l : Label U} (h : Arming D w) (ht : Threads w) (ho : Ordered w)
    (hm : Moves D l w w') : Arming D w' := by
  cases hm with
  | send =>
    refine ⟨h.records, fun m hm a ha => h.async m (ht.current (List.ne_nil_of_mem ha) hm) a ha,
      fun m hm => ?_⟩
    by_cases hf : w.front = []
    · change SendsOwn _ _ w.front
      rw [hf]
      trivial
    · exact h.guarded m (ht.current hf hm)
  | readClient =>
    exact ⟨records_of_not_recording pumpFrontend_recording, fun m hm => pumpFrontend_async,
      fun m hm => pumpFrontend_guarded⟩
  | front hf => exact h.front ht ho hf
  | readUpstream hb hu hc => exact ⟨h.records, h.async, h.guarded⟩
  | back hb =>
    exact ⟨h.records, h.async, fun m hm => (h.guarded m hm).mono fun hown =>
      own_exec_back hown (hb ▸ ht.back)⟩
  | answer hq => exact ⟨h.records, h.async, h.guarded⟩

end Arming

def Origin.isFailure : Origin → Bool
  | .failure _ => true
  | _ => false

def Reply.conflict (r : Reply) : Option Origin := if r.msg.isConflict then some r.origin else none

def Request.raising (q : Request) : Option Origin := if q.msg.raises then some q.origin else none

@[simp] def Act.conflict : Act → Option Origin
  | .consumeHidden r => r.conflict
  | .failureActive r => r.conflict
  | .repairPending r => r.conflict
  | .readInTxn o _ => some o
  | .occIntercept o _ _ => some o
  | _ => none

def World.errors (w : World U) : List Origin :=
  w.back.filterMap Act.conflict ++ w.fromUp.filterMap Reply.conflict

def World.conflicts (w : World U) : List Origin := w.errors ++ w.toUp.filterMap Request.raising

def World.started (w : World U) : List Request :=
  w.written.filter fun q => q.origin.isClient && q.msg.starts

def Bound (w : World U) (portal : String) (n k : Nat) : Prop :=
  (∃ b, ⟨.client k, .bind b⟩ ∈ w.written ∧ b.portal = portal) ∧ k < n ∧
    ∀ j b, ⟨.client j, .bind b⟩ ∈ w.written → b.portal = portal → j < n → j ≤ k

/-- The statement the client's `n`-th message plans or runs was put in flight by its `k`-th. -/
def Executes (w : World U) (n k : Nat) : Prop :=
  ∃ q ∈ w.written, q.origin = .client n ∧
    (q.msg.starts = true ∧ k = n ∨ ∃ portal, q.msg = .execute portal ∧ Bound w portal n k)

def Label.answers (w : World U) : Label U → List (Request × Backend)
  | .answer c => w.toUp.head?.toList.flatMap fun q => (U.answer w.up q.msg c).2.map (Prod.mk q)
  | _ => []

def Label.Raises (l : Label U) (w : World U) : Prop :=
  ∀ x ∈ l.answers w, x.2.isConflict = true → x.1.msg.raises = true ∧ x.1.origin.isFailure = false

def Answerable (D : Dialect) (w : World U) (n : Nat) (m : Frontend) : Prop :=
  w.sess.occInFlight = none ∨
    (m.starts = true → ∀ x ∈ w.sent[n]?, w.sess.passesOver D x = false) ∧
      ∀ portal ∈ m.executes, ∃ q ∈ w.started.getLast?, q.msg.binds = some portal

def Tended (D : Dialect) (l : Label U) (w : World U) : Prop :=
  Gap l w ∧ (∀ _n ∈ (l.act w).bind Act.recording, ∀ o ∈ w.conflicts, o.isClient = false) ∧
    (∀ x ∈ (l.act w).bind Act.forwarded, Answerable D w x.1 x.2) ∧ l.Raises w

instance (l : Label U) (w : World U) : Decidable (l.Raises w) :=
  inferInstanceAs (Decidable (∀ x ∈ l.answers w, _ → _))

instance (w : World U) (n : Nat) (m : Frontend) : Decidable (Answerable D w n m) :=
  inferInstanceAs (Decidable (_ ∨ _))

instance (l : Label U) (w : World U) : Decidable (Tended D l w) :=
  inferInstanceAs (Decidable (_ ∧ _))

section Conflicts

variable {s : Session} {a b : Act} {rest : List Act} {o : Origin} {w w' : World U} {n k : Nat}

theorem relay_conflict {r : Reply} (hb : b ∈ relay D r) (ho : b.conflict = some o) :
    r.conflict = some o := by
  obtain ⟨o', m⟩ := r
  cases m with
  | error e =>
    simp only [relay, List.mem_cons] at hb
    rcases hb with rfl | hb
    · cases ho
    · split at hb
      next hc =>
        obtain rfl := List.mem_singleton.1 hb
        cases ho
        exact if_pos hc
      next =>
        obtain rfl := List.mem_singleton.1 hb
        cases ho
  | _ =>
    simp only [relay, List.mem_cons, List.not_mem_nil, or_false] at hb
    rcases hb with rfl | rfl <;> cases ho

theorem relayCode_conflict (h : RelayCode o a) (ha : ∀ o e, a ≠ .readInTxn o e) :
    ∀ b ∈ (a.exec D 0 "" s).next, b.conflict = none := by
  cases a with
  | readInTxn o e => exact absurd rfl (ha o e)
  | _ => first | exact h.elim | (dsimp only [Act.exec]; (repeat' split) <;> simp)

theorem repairAct_conflict (h : RepairAct a) : a.conflict = none := by
  cases h with
  | code h => cases a <;> first | rfl | exact h.elim
  | _ => rfl

theorem exec_conflict (h : BackMode (a :: rest)) (hb : b ∈ (a.exec D 0 "" s).next)
    (ho : b.conflict = some o) : a.conflict = some o := by
  cases h with
  | reading hr => cases hb
  | offering =>
    dsimp only [Act.exec] at hb
    split at hb
    · obtain rfl := List.mem_singleton.1 hb
      exact ho
    · split at hb
      · obtain rfl := List.mem_singleton.1 hb
        cases ho
      · dsimp only at hb
        split at hb
        · obtain rfl := List.mem_singleton.1 hb
          cases ho
        · cases hb
  | checking =>
    dsimp only [Act.exec] at hb
    split at hb
    · dsimp only at hb
      split at hb
      · obtain rfl := List.mem_singleton.1 hb
        cases ho
      · cases hb
    · split at hb
      · exact relay_conflict hb ho
      · obtain rfl := List.mem_singleton.1 hb
        exact ho
  | pending hr =>
    dsimp only [Act.exec] at hb
    split at hb
    · cases hb
    · exact relay_conflict hb ho
  | relaying h =>
    have ha := h a List.mem_cons_self
    cases a with
    | readInTxn o' e =>
      obtain rfl := List.mem_singleton.1 hb
      exact ho
    | _ => cases (relayCode_conflict ha (by simp) b hb).symm.trans ho
  | repairing h =>
    cases (repairAct_conflict (exec_repair (h a List.mem_cons_self) b hb)).symm.trans ho
  | ending => cases (repairAct_conflict (.code (finish_repair _ b hb))).symm.trans ho
  | failing =>
    dsimp only [Act.exec] at hb
    (repeat' split at hb) <;> simp only [List.mem_cons, List.not_mem_nil, or_false] at hb
    subst hb
    cases ho
  | failed => cases hb
  | readying => cases hb
  | starting =>
    dsimp only [Act.exec] at hb
    split at hb <;> simp only [List.mem_cons, List.not_mem_nil, or_false] at hb
    · subst hb
      cases ho
    · rcases hb with rfl | rfl | rfl <;> cases ho
  | restoring =>
    obtain rfl := List.mem_singleton.1 hb
    cases ho

theorem pumpBackend_conflict (r : Reply) :
    (pumpBackend r).filterMap Act.conflict = r.conflict.toList := by
  unfold pumpBackend
  split <;> simp only [List.filterMap_cons, List.filterMap_nil, Act.conflict] <;>
    cases r.conflict <;> rfl

theorem mem_answers {l : Label U} {x : Request × Backend} (hx : x ∈ l.answers w) :
    w.toUp.head? = some x.1 := by
  cases l with
  | answer c =>
    obtain ⟨q, hq, hx⟩ := List.mem_flatMap.1 hx
    obtain ⟨b, -, rfl⟩ := List.mem_map.1 hx
    exact Option.mem_toList.1 hq
  | _ => cases hx

theorem Moves.errors {l : Label U} (hm : Moves D l w w') (ht : Threads w) :
    ∀ o ∈ w'.errors, o ∈ w.errors ∨ ∃ x ∈ l.answers w, x.2.isConflict = true ∧ x.1.origin = o := by
  intro o ho
  cases hm with
  | @readUpstream _ r rest hb hu hc =>
    refine .inl ?_
    change o ∈ (pumpBackend r).filterMap Act.conflict ++ rest.filterMap Reply.conflict at ho
    rw [pumpBackend_conflict] at ho
    simp only [World.errors, hb, hu, List.filterMap_nil, List.nil_append, List.filterMap_cons]
    cases hr : r.conflict <;> simpa [hr] using ho
  | @back _ a rest hb =>
    refine .inl ?_
    rcases List.mem_append.1 ho with ho | ho
    · refine List.mem_append_left _ ?_
      obtain ⟨b, hmem, hbo⟩ := List.mem_filterMap.1 ho
      rw [hb]
      rcases List.mem_append.1 hmem with hmem | hmem
      · exact List.mem_filterMap.2 ⟨a, List.mem_cons_self, exec_conflict (hb ▸ ht.back) hmem hbo⟩
      · exact List.mem_filterMap.2 ⟨b, List.mem_cons_of_mem a hmem, hbo⟩
    · exact List.mem_append_right _ ho
  | @answer _ c q rest hq =>
    change o ∈ w.back.filterMap Act.conflict ++ (w.fromUp ++ _).filterMap Reply.conflict at ho
    rw [List.filterMap_append, ← List.append_assoc] at ho
    rcases List.mem_append.1 ho with ho | ho
    · exact .inl ho
    · obtain ⟨r, hr, hro⟩ := List.mem_filterMap.1 ho
      obtain ⟨b, hb, rfl⟩ := List.mem_map.1 hr
      simp only [Reply.conflict, Option.ite_none_right_eq_some, Option.some.injEq] at hro
      exact .inr ⟨(q, b), by simpa [Label.answers, hq] using hb, hro⟩
  | _ => exact .inl ho

theorem Label.Raises.errors {l : Label U} (hl : l.Raises w) (hm : Moves D l w w') (ht : Threads w) :
    ∀ o ∈ w'.errors, o ∈ w.errors ∨ o.isFailure = false ∧ o ∈ w.toUp.filterMap Request.raising := by
  intro o ho
  refine (hm.errors ht o ho).imp_right ?_
  rintro ⟨x, hx, hconflict, rfl⟩
  obtain ⟨hraises, hfail⟩ := hl x hx hconflict
  exact ⟨hfail, List.mem_filterMap.2 ⟨x.1, List.mem_of_head? (mem_answers hx), if_pos hraises⟩⟩

theorem Moves.conflicts {l : Label U} (hm : Moves D l w w') (ht : Threads w) (hl : l.Raises w)
    (hn : .client n ∈ w'.conflicts) :
    .client n ∈ w.conflicts ∨ ∃ m rest, w.front = .forwarding n m :: rest ∧
      l.act w = w.front.head? ∧
      w'.written = w.written ++ [⟨.client n, m⟩] ∧ w'.sess = w.sess ∧ m.raises = true := by
  rcases List.mem_append.1 hn with hn | hn
  · exact .inl ((hl.errors hm ht _ hn).elim (List.mem_append_left _) fun h =>
      List.mem_append_right _ h.2)
  · obtain ⟨q, hq, hqn⟩ := List.mem_filterMap.1 hn
    simp only [Request.raising, Option.ite_none_right_eq_some, Option.some.injEq] at hqn
    obtain ⟨hraises, horigin⟩ := hqn
    obtain ⟨qs, hqs, htoUp, hnew⟩ := hm.writes ht
    rcases htoUp q hq with hold | hwrite
    · exact .inl (List.mem_append_right _
        (List.mem_filterMap.2 ⟨q, hold, by simp [Request.raising, hraises, horigin]⟩))
    · rcases hnew with hnew | ⟨m, rest, hf, hact, rfl, hsess⟩
      · exact absurd horigin (hnew q hwrite n)
      · obtain rfl := List.mem_singleton.1 hwrite
        cases horigin
        exact .inr ⟨m, rest, hf, hact, hqs, hsess, hraises⟩

theorem Ordered.started_le {q : Request} (ho : Ordered w) (hq : w.started.getLast? = some q)
    (hk : q.origin = .client k) :
    ∀ x ∈ w.written, x.origin = .client n → x.msg.starts = true → n ≤ k := by
  intro x hx hn hstarts
  obtain ⟨init, hinit⟩ := List.getLast?_eq_some_iff.1 hq
  have hmem : x ∈ w.started := List.mem_filter.2 ⟨hx, by simp [hn, Origin.isClient, hstarts]⟩
  have hpair : w.started.Pairwise fun a b => a.origin.Before b.origin := ho.written.filter _
  rw [hinit] at hmem hpair
  rcases List.mem_append.1 hmem with hmem | hmem
  · have hbefore := (List.pairwise_append.1 hpair).2.2 x hmem q List.mem_cons_self
    rw [hn, hk] at hbefore
    exact Nat.le_of_lt hbefore
  · obtain rfl := List.mem_singleton.1 hmem
    cases hn.symm.trans hk
    exact Nat.le_refl _

theorem Executes.mono {qs : List Request} (h : Executes w n k) (hw : w'.written = w.written ++ qs)
    (hqs : ∀ q ∈ qs, ∀ j, q.origin = .client j → n ≤ j) : Executes w' n k := by
  obtain ⟨q, hq, hn, h⟩ := h
  refine ⟨q, hw ▸ List.mem_append_left _ hq, hn, h.imp_right ?_⟩
  rintro ⟨portal, hp, ⟨b, hb, hportal⟩, hlt, hmax⟩
  refine ⟨portal, hp, ⟨b, hw ▸ List.mem_append_left _ hb, hportal⟩, hlt,
    fun j b' hb' hportal' hj => ?_⟩
  rw [hw] at hb'
  rcases List.mem_append.1 hb' with hb' | hb'
  · exact hmax j b' hb' hportal' hj
  · exact absurd (hqs _ hb' j rfl) (Nat.not_le.2 hj)

end Conflicts

structure Tracked (w : World U) : Prop where
  slot : ∀ f, w.sess.occInFlight = some f → w.started.getLast?.map Request.origin =
    some (.client f.request) ∨
    f.request = w.read - 1 ∧ (∃ x ∈ w.sent[w.read - 1]?, x.starts = true) ∧
      ∃ b ∈ w.front, b.forwarded.isSome = true
  own : ∀ n, .client n ∈ w.conflicts → (∃ q ∈ w.written, q.origin = .client n) ∧
    ∀ f, w.sess.occInFlight = some f → Executes w n f.request
  errors : ∀ o ∈ w.errors, o.isFailure = false

section Tracked

variable {w w' : World U} {a : Act} {rest : List Act} {n : Nat} {m : Frontend}

theorem Tracked.start : Tracked (World.start D U) := by
  constructor <;> simp [World.start, Session.new, World.conflicts, World.errors]

theorem Arming.own (ha : Arming D w) (ht : Threads w) (hf : w.front = .forwarding n m :: rest)
    (hok : Answerable D w n m) (hstarts : m.starts = true) {f : InFlight}
    (hslot : w.sess.occInFlight = some f) : f.request = n := by
  obtain ⟨x, hx, hact⟩ := ht.head hf
  cases hact with
  | code hact =>
    obtain ⟨rfl, -⟩ := hact
    rcases hok with hnone | ⟨hover, -⟩
    · cases hnone.symm.trans hslot
    · have hguard := ha.guarded x hx
      rw [hf] at hguard
      rcases hguard.1 (by simpa using hstarts) with hpass | hown
      · cases (hover hstarts x hx).symm.trans hpass
      · exact hown f hslot

theorem Tracked.forward (h : Tracked w) (ht : Threads w) (ho : Ordered w) (ha : Arming D w)
    (hf : w.front = .forwarding n m :: rest) (hok : Answerable D w n m) (hraises : m.raises = true)
    {f : InFlight} (hslot : w.sess.occInFlight = some f)
    (hw : w'.written = w.written ++ [⟨.client n, m⟩]) : Executes w' n f.request := by
  have hmem : ⟨.client n, m⟩ ∈ w'.written := hw ▸ List.mem_append_right _ List.mem_cons_self
  by_cases hstarts : m.starts = true
  · exact ⟨_, hmem, rfl, .inl ⟨hstarts, ha.own ht hf hok hstarts hslot⟩⟩
  -- otherwise it executes the portal that was bound last
  obtain ⟨portal, rfl⟩ : ∃ portal, m = .execute portal := by
    cases m with
    | execute portal => exact ⟨portal, rfl⟩
    | malformed t => cases t <;> simp_all [Frontend.raises, Frontend.tag, Decoded.tag]
    | _ => simp_all [Frontend.raises, Frontend.tag]
  obtain ⟨x, hx, hact⟩ := ht.head hf
  cases hact with
  | code hact =>
    obtain ⟨rfl, m', hm', htag⟩ := hact
    obtain rfl := List.singleton_inj.1 hm'
    have hbefore : ∀ q ∈ w.written, ∀ k, q.origin = .client k → k + 1 < w.read :=
      ho.fresh (by rw [hf]; simp)
    have hlast : w.started.getLast?.map Request.origin = some (.client f.request) := by
      refine (h.slot f hslot).resolve_right ?_
      rintro ⟨-, ⟨y, hy, hys⟩, -⟩
      cases hx.symm.trans hy
      rw [Frontend.starts, ← htag] at hys
      cases hys
    obtain ⟨q, hq, horigin⟩ := Option.map_eq_some_iff.1 hlast
    obtain ⟨q', hq', hbinds⟩ := (hok.resolve_left (by simp [hslot])).2 portal rfl
    cases hq.symm.trans hq'
    have hqw : q ∈ w.written := (List.mem_filter.1 (List.mem_of_getLast? hq)).1
    obtain ⟨b, hb, hportal⟩ : ∃ b, q.msg = .bind b ∧ b.portal = portal := by
      cases hmsg : q.msg <;> rw [hmsg] at hbinds <;> simp_all [Frontend.binds]
    refine ⟨_, hmem, rfl, .inr ⟨portal, rfl, ⟨b, ?_, hportal⟩, ?_, fun j b' hb' _ hj => ?_⟩⟩
    · rw [hw, ← horigin, ← hb]
      exact List.mem_append_left _ hqw
    · have := hbefore q hqw f.request horigin
      omega
    · rw [hw] at hb'
      rcases List.mem_append.1 hb' with hb' | hb'
      · exact ho.started_le hq horigin _ hb' rfl rfl
      · cases List.mem_singleton.1 hb'

theorem Moves.slot {l : Label U} {f : InFlight} (hm : Moves D l w w') (ht : Threads w)
    (hf : w'.sess.occInFlight = some f) :
    w.sess.occInFlight = some f ∨ ∃ a rest, w.front = a :: rest ∧ a.recording = some (w.read - 1) ∧
      l.act w = some a ∧ w'.front = rest ∧ w'.read = w.read ∧ w'.sent = w.sent ∧ w'.conflicts =
        w.conflicts ∧ f.request = w.read - 1 := by
  have hkeep {a : Act} {now : Nat} {jobID : String} (hset : ∀ k i b, a ≠ .setInFlight k i b)
      (hf : (a.exec D now jobID w.sess).sess.occInFlight = some f) : w.sess.occInFlight =
          some f := by
    rcases exec_occInFlight hset with h | h
    · exact h.symm.trans hf
    · cases h.symm.trans hf
  cases hm with
  | @front _ now jobID a rest hfront =>
    by_cases hset : ∃ k i b, a = .setInFlight k i b
    · obtain ⟨k, i, b, rfl⟩ := hset
      obtain ⟨m, -, ha⟩ := ht.head hfront
      cases ha with
      | code ha =>
        obtain ⟨rfl, -⟩ := ha
        have hexec : ((Act.setInFlight (w.read - 1) i b).exec D now jobID w.sess).sess.occInFlight =
          some f := hf
        obtain ⟨hrec, hreq⟩ := exec_setInFlight hexec
        refine .inr ⟨_, rest, hfront, hrec, by simp [Label.act, hfront], rfl, rfl, rfl, ?_, hreq⟩
        simp [World.conflicts, World.errors, World.applyFront]
    · exact .inl (hkeep (fun k i b h => hset ⟨k, i, b, h⟩) hf)
  | back hb => exact .inl (hkeep (backMode_quiet (hb ▸ ht.back)).2.2 hf)
  | _ => exact .inl hf

theorem started_append {qs : List Request} (hw : w'.written = w.written ++ qs)
    (hqs : ∀ q ∈ qs, ∀ n, q.origin ≠ .client n) : w'.started = w.started := by
  have hnone : qs.filter (fun q => q.origin.isClient && q.msg.starts) = [] := by
    refine List.filter_eq_nil_iff.2 fun q hq => ?_
    cases ho : q.origin with
    | client n => exact absurd ho (hqs q hq n)
    | _ => simp [Origin.isClient]
  rw [World.started, hw, List.filter_append, hnone, List.append_nil]
  rfl

theorem forwarded_isSome (h : a.forwarded.isSome = true) : ∃ k x, a = .forwarding k x := by
  unfold Act.forwarded at h
  split at h
  · exact ⟨_, _, rfl⟩
  · cases h

theorem Tended.answerable {l : Label U} (h : Tended D l w) (hf : w.front = .forwarding n m :: rest)
    (hact : l.act w = w.front.head?) : Answerable D w n m :=
  h.2.2.1 (n, m) (by rw [hact, hf]; rfl)

theorem Tracked.slot_moves {l : Label U} (h : Tracked w) (ht : Threads w) (ha : Arming D w)
    (hok : Tended D l w) (hm : Moves D l w w') : ∀ f, w'.sess.occInFlight = some f →
      w'.started.getLast?.map Request.origin = some (.client f.request) ∨
      f.request = w'.read - 1 ∧ (∃ x ∈ w'.sent[w'.read - 1]?, x.starts = true) ∧
        ∃ b ∈ w'.front, b.forwarded.isSome = true := by
  intro f hf
  rcases hm.slot ht hf with hold | ⟨a, rest, hfront, hrec, -, hrest, hread, hsent, -, hreq⟩
  · obtain ⟨qs, hqs, -, hnew⟩ := hm.writes ht
    rcases hnew with hnew | ⟨m, rest, hfront, hact, rfl, -⟩
    · rw [started_append hqs hnew]
      refine (h.slot f hold).imp_right ?_
      rintro ⟨hreq, ⟨x, hx, hstarts⟩, b, hb, hforward⟩
      cases hm with
      | send => exact ⟨hreq, ⟨x, Moves.sent_keep (D := D) .send hx, hstarts⟩, b, hb, hforward⟩
      | readClient hnil =>
        rw [hnil] at hb
        cases hb
      | @front _ now jobID a rest hfront =>
        refine ⟨hreq, ⟨x, hx, hstarts⟩, b, List.mem_append_right _ ?_, hforward⟩
        rw [hfront] at hb
        refine (List.mem_cons.1 hb).resolve_left ?_
        rintro rfl
        -- this step writes nothing for the client, so the act is not the write of its message
        obtain ⟨k, y, rfl⟩ := forwarded_isSome hforward
        have hup : [⟨.client k, y⟩] = qs := List.append_cancel_left hqs
        exact hnew _ (hup ▸ List.mem_cons_self) k rfl
      | _ => exact ⟨hreq, ⟨x, hx, hstarts⟩, b, hb, hforward⟩
    · refine .inl ?_
      have hstarted : w'.started = w.started ++ [⟨.client (w.read - 1), m⟩].filter fun q =>
          q.origin.isClient && q.msg.starts := by
        rw [World.started, hqs, List.filter_append]
        rfl
      obtain ⟨x, hx, hact'⟩ := ht.head hfront
      cases hstarts : m.starts with
      | true =>
        rw [hstarted, ha.own ht hfront (hok.answerable hfront hact) hstarts hold]
        simp [Origin.isClient, hstarts]
      | false =>
        have hsame : w'.started = w.started := by simpa [Origin.isClient, hstarts] using hstarted
        rw [hsame]
        refine (h.slot f hold).resolve_right ?_
        rintro ⟨-, ⟨y, hy, hys⟩, -⟩
        cases hx.symm.trans hy
        cases hact' with
        | code hact' =>
          obtain ⟨-, m', hm', htag⟩ := hact'
          obtain rfl := List.singleton_inj.1 hm'
          rw [Frontend.starts, ← htag] at hys
          cases hstarts.symm.trans hys
  · refine .inr ⟨hread ▸ hreq, ?_, ?_⟩
    · obtain ⟨x, hx, hact⟩ := ht.head hfront
      rw [hread, hsent]
      refine ⟨x, hx, ?_⟩
      cases a with
      | setInFlight k i b =>
        cases hact with
        | code hact => rcases hact.2 with h | h <;> simp [Frontend.starts, h]
      | _ => cases hrec
    · have hrecords := ha.records
      rw [hfront] at hrecords
      rw [hrest]
      exact hrecords.1 (by simp only [hrec, Option.isSome_some])

theorem Tracked.moves {l : Label U} (h : Tracked w) (ht : Threads w) (ho : Ordered w)
    (ha : Arming D w) (hok : Tended D l w) (hm : Moves D l w w') : Tracked w' := by
  refine ⟨h.slot_moves ht ha hok hm, fun n hn => ?_, fun o hmem => ?_⟩
  · obtain ⟨qs, hqs, -, hnew⟩ := hm.writes ht
    rcases hm.conflicts ht hok.2.2.2 hn with hold | ⟨m, rest, hf, hact, hw, hsess, hraises⟩
    · obtain ⟨⟨q, hq, horigin⟩, hexec⟩ := h.own n hold
      refine ⟨⟨q, hqs ▸ List.mem_append_left _ hq, horigin⟩, fun f hf => ?_⟩
      rcases hm.slot ht hf with hslot | ⟨a, rest, hfront, hrec, hact, -, -, -, -, -⟩
      · refine (hexec f hslot).mono hqs fun x hx j hj => ?_
        rcases hnew with hnew | ⟨m, rest, hfront, -, rfl, -⟩
        · exact absurd hj (hnew x hx j)
        · obtain rfl := List.mem_singleton.1 hx
          cases hj
          have := ho.fresh (by rw [hfront]; simp) q hq n horigin
          omega
      · -- nothing of the client's is on its way when an intent is recorded
        have hfree := hok.2.1 (w.read - 1) (by rw [hact]; exact hrec) _ hold
        cases hfree
    · refine ⟨⟨_, hw ▸ List.mem_append_right _ List.mem_cons_self, rfl⟩, fun f hslot => ?_⟩
      rw [hsess] at hslot
      exact h.forward ht ho ha hf (hok.answerable hf hact) hraises hslot hw
  · exact (hok.2.2.2.errors hm ht o hmem).elim (h.errors o) And.left

theorem tracked (hw : Reach (system D U) (Tended D) w) : Arming D w ∧ Tracked w := by
  have htracked : Threads w ∧ Ordered w ∧ Arming D w ∧ Tracked w := by
    refine hw.invariant (I := fun w => Threads w ∧ Ordered w ∧ Arming D w ∧ Tracked w) ?_ ?_
    · exact ⟨.start, .start, .start, .start⟩
    · rintro l w w' ⟨ht, ho, ha, h⟩ hok hs
      have hm := moves_of_step hs
      exact ⟨ht.moves hm, ho.moves ht hm, ha.moves ht ho hm, h.moves ht ho ha hok hm⟩
  exact htracked.2.2

theorem takeover_executes {o : Origin} {e : ErrorFields} {inTxn : Bool} {k : Nat}
    (hw : Reach (system D U) (Tended D) w) (hb : w.back = .occIntercept o e inTxn :: rest)
    (hk : w.sess.takesOver inTxn = some k) :
    o ∈ w.errors ∧ ∃ n f, o = .client n ∧ w.sess.occInFlight = some f ∧ f.request = k ∧
      Executes w n k := by
  have h := (tracked hw).2
  have hmem : o ∈ w.errors := by simp [World.errors, hb]
  have hclean : (Act.occIntercept o e inTxn).Clean :=
    (consumed (hw.mono fun _ _ h => h.1)).back _ (by rw [hb]; exact List.mem_cons_self)
  refine ⟨hmem, ?_⟩
  cases o with
  | client n =>
    unfold Session.takesOver at hk
    split at hk
    · obtain ⟨f, hf, rfl⟩ := Option.map_eq_some_iff.1 hk
      exact ⟨n, f, rfl, hf, rfl, (h.own n (List.mem_append_left _ hmem)).2 f hf⟩
    · cases hk
  | hidden p k => exact absurd ⟨p, k, rfl⟩ hclean
  | failure k => cases h.errors _ hmem

end Tracked

def lockTimeout : ErrorFields where
  code := codeLockTimeout
  message := "canceling statement due to lock timeout"

def preparedSelect (name : String) : List (Label .any) :=
  List.flatten
    [[.send (.query "BEGIN"), .readClient], fronts 8,
      [.answer ([.commandComplete "BEGIN"], .active), .readUpstream],
      backs 6, [.readUpstream], backs 8,
        [.send (.parse name "SELECT * FROM t FOR UPDATE"), .readClient], fronts 8,
      [.answer ([.commandComplete "SAVEPOINT"], .active), .readUpstream], backs 1,
        [.readUpstream], backs 3]

def completes (m : Backend) : List (Label .any) :=
  List.flatten [[.answer ([m], .active), .readUpstream], backs 4]

def refusesLock : List (Label .any) :=
  List.flatten [[.answer ([.error lockTimeout], .active), .readUpstream], backs 5]

def boundSelect : List (Label .any) :=
  List.flatten
    [preparedSelect "", [.send (.bind { portal := "", statement := "" }), .readClient], fronts 8,
      [.send (.execute ""), .readClient], fronts 3, completes .parseComplete,
        completes .bindComplete, refusesLock]

end DsqlEmulator.Proxy
