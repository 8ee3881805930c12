import DsqlEmulator.Proxy.Cache
import DsqlEmulator.Proxy.Cadence
import DsqlEmulator.Proxy.Intents
import DsqlEmulator.Proxy.LockStep

/-! A session that refuses nothing and is refused nothing is a relay.  A client that waits
for its answers gets those of the upstream to its own messages, and the upstream gets the
client's messages, with a savepoint put in where nothing is outstanding. -/

namespace DsqlEmulator.Proxy

open Wire Occ Txn Runs Line

variable {U : Upstream} {D : Dialect}

section Conditions

def Label.trying (w : World U) : Label U → Option (Nat × StatementInfo)
  | .front now _ =>
    match w.front.head? with
    | some (.admitKinds _ _ info) => some (now, info)
    | _ => none
  | _ => none

def Ordinary (D : Dialect) (m : Frontend) : Prop :=
  ∀ sql ∈ m.sql, D.stripAsync sql = none ∧ D.rewriteSQL sql = none ∧
    (D.classify false sql).isRejected = false

instance (m : Frontend) : Decidable (Ordinary D m) := inferInstanceAs (Decidable (∀ sql ∈ m.sql, _))

@[mk_iff] structure Patient (m : Frontend) (w : World U) : Prop where
  owed : w.sent.countP (·.drawsReady) = w.got.countP (·.msg.isReady)
  last : .terminate ∉ w.sent
  copies : m = .other → midBatch w.sent = true

instance (m : Frontend) (w : World U) : Decidable (Patient m w) :=
  decidable_of_iff _ (patient_iff m w).symm

@[mk_iff] structure Unrefused (D : Dialect) (l : Label U) (w : World U) : Prop where
  client : ∀ m ∈ l.sending, Patient m w ∧ Ordinary D m
  tracker : ∀ x ∈ l.trying w, (w.sess.tracker.admitKinds x.2.kinds x.1).2 = none
  upstream : ∀ x ∈ l.answers w, x.2.isConflict = false

instance (l : Label U) (w : World U) : Decidable (Unrefused D l w) :=
  decidable_of_iff _ (unrefused_iff D l w).symm

def Uninjected (D : Dialect) (l : Label U) (w : World U) : Prop :=
  ∀ a ∈ l.act w, a.isTrial = true →
    (occCommitConflict w.sess.occTouched D.occ.inject 0 w.sess.occCommits).2 = false

instance (l : Label U) (w : World U) : Decidable (Uninjected D l w) :=
  inferInstanceAs (Decidable (∀ a ∈ l.act w, _))

end Conditions

section Calm

def Reply.Calm (r : Reply) : Prop :=
  (r.origin.isClient = true ∨ r.origin.IsHidden) ∧ r.msg.isConflict = false

structure Session.Calm (s : Session) : Prop where
  txnAborted : s.txnAborted = false
  skipSync : s.skipSync = false
  failure : s.failure = none
  pendingFailure : s.pendingFailure = none
  occRepair : s.occRepair = none
  occDoomed : s.occDoomed = false
  job : s.job = none
  tag : s.pendingCommandTag = ""
  hidden : ∀ h ∈ s.hidden, h.exchange.purpose = .savepoint
  statements : ∀ name, ∀ info ∈ s.statements name, info.jobID = none

@[simp] def Act.Calm (D : Dialect) : Act → Prop
  | .writeUpstream o _ => o.isClient = true ∨ ∃ k, o = .hidden .savepoint k
  | .writeClient d => ∃ n, d.source = .relayed (.client n)
  | .droppingUntilSync _ m => Ordinary D m
  | .aborted _ m => Ordinary D m
  | .admitKinds _ m info => Ordinary D m ∧ info.jobID = none
  | .occAdjudicated _ m info => Ordinary D m ∧ info.jobID = none
  | .occCommitConflict _ m info => Ordinary D m ∧ info.jobID = none
  | .consumeHidden r => r.Calm
  | .failureActive r => r.origin.isClient = true ∧ r.msg.isConflict = false
  | .repairPending r => r.origin.isClient = true ∧ r.msg.isConflict = false
  | .clearHidden h => h.exchange.purpose = .savepoint
  | .startRepair o _ => o.isClient = true
  | .markJobDescribed o => o.isClient = true
  | .rewriteCommandTag o _ => o.isClient = true
  | .claimJob o _ => o.isClient = true
  | .setHidden x _ => x.purpose = .savepoint
  | .beginFailure _ _ | .admitAsync _ _ _ _ | .setPendingCommandTag | .setJob _ | .restoreJob _
  | .deferFailure _
  | .setSkipSync | .getStateTxStatus _ | .clearAborted | .admitRollback | .clearDoomed
  | .consumeFailureMessage | .readInTxn _ _ | .occIntercept _ _ _ | .chooseRestore _ => False
  | _ => True

variable {s : Session} {n : Nat} {m : Frontend} {now : Nat} {jobID : String} {a : Act}

theorem forward_calm (n : Nat) (m : Frontend) : ∀ b ∈ forward n m, b.Calm D := by
  unfold forward
  split <;> simp [Origin.isClient]

theorem send_calm {info : StatementInfo} (hm : Ordinary D m) (hinfo : info.jobID = none) :
    ∀ b ∈ send D n m info, b.Calm D := by
  unfold send
  split
  next sql =>
    rw [(hm sql rfl).2.1]
    exact forward_calm n (.query sql)
  next =>
    rw [hinfo]
    exact forward_calm n m

theorem armAdjudicator_calm (intent : Option Intent) (bind : Option Bind) :
    ∀ b ∈ armAdjudicator n intent bind, b.Calm D := by
  cases intent <;> simp [armAdjudicator]

theorem admitted_calm {info : StatementInfo} (hm : Ordinary D m) (hinfo : info.jobID = none) :
    ∀ b ∈ admitted D s n m info, b.Calm D := by
  have hsend : ∀ b ∈ send D n m info, b.Calm D := send_calm hm hinfo
  have harm : ∀ b ∈ armAdjudicator n info.intent (Frontend.bind? m), b.Calm D :=
    armAdjudicator_calm _ _
  unfold admitted
  simp only [List.mem_append, List.mem_cons]
  rintro b (hb | rfl | hb)
  · split at hb <;> simp at hb
    subst hb
    trivial
  · trivial
  · (repeat' split at hb)
    · rw [List.mem_singleton.1 hb]
      exact ⟨hm, hinfo⟩
    · rcases List.mem_cons.1 hb with rfl | hb
      · trivial
      · exact hsend b hb
    · exact (List.mem_append.1 hb).elim (harm b) (hsend b)
    · exact hsend b hb

theorem handleQuery_calm {sql : String} (hs : s.Calm) (hm : Ordinary D (.query sql)) :
    (handleQuery D jobID s n sql).sess = s ∧
      ∀ b ∈ (handleQuery D jobID s n sql).next, b.Calm D := by
  obtain ⟨hasync, -, hrejected⟩ := hm sql rfl
  unfold handleQuery
  rw [hasync]
  dsimp only
  rw [if_neg (by rw [hs.txnAborted]; exact Bool.false_ne_true)]
  cases hc : D.classify false sql with
  | unparsed => exact ⟨rfl, forward_calm n (.query sql)⟩
  | rejected v => rw [hc] at hrejected; cases hrejected
  | accepted kinds tables => exact ⟨rfl, by simpa using hm⟩

theorem Session.Calm.remember (hs : s.Calm) (name : String) (info : Option StatementInfo)
    (h : ∀ i ∈ info, i.jobID = none) :
    Session.Calm { s with statements := Function.update s.statements name info } := by
  refine { hs with statements := fun name' i hi => ?_ }
  change i ∈ Function.update s.statements name info name' at hi
  by_cases hn : name' = name
  · subst hn
    rw [Function.update_self] at hi
    exact h i hi
  · rw [Function.update_of_ne hn] at hi
    exact hs.statements name' i hi

theorem handleParse_calm {name sql : String} (hs : s.Calm) (hm : Ordinary D (.parse name sql)) :
    (handleParse D jobID s n name sql).sess.Calm ∧
      ∀ b ∈ (handleParse D jobID s n name sql).next, b.Calm D := by
  obtain ⟨hasync, hversion, hrejected⟩ := hm sql rfl
  unfold handleParse
  rw [hasync, hversion]
  dsimp only
  rw [if_neg (by rw [hs.txnAborted]; exact Bool.false_ne_true)]
  cases hc : D.classify false sql with
  | unparsed => exact ⟨hs.remember name none (by simp), forward_calm n (.parse name sql)⟩
  | rejected v => rw [hc] at hrejected; cases hrejected
  | accepted kinds tables =>
    refine ⟨hs.remember name _ (by simp), fun b hb => ?_⟩
    rcases List.mem_append.1 hb with hb | hb
    · split at hb
      · rw [List.mem_singleton.1 hb]
        trivial
      · cases hb
    · exact forward_calm n (.parse name sql) b hb

theorem aborted_calm (hs : s.Calm) (hm : Ordinary D m) :
    ((Act.aborted n m).exec D now jobID s).sess.Calm ∧
      ∀ b ∈ ((Act.aborted n m).exec D now jobID s).next, b.Calm D := by
  dsimp only [Act.exec]
  split
  next sql =>
    obtain ⟨hsess, hnext⟩ : (handleQuery D jobID s n sql).sess = s ∧ _ := handleQuery_calm hs hm
    exact ⟨(congrArg Session.Calm hsess).mpr hs, hnext⟩
  next name sql => exact handleParse_calm hs hm
  next b =>
    split
    next info hinfo =>
      unfold handleBind
      rw [if_neg (by rw [hs.txnAborted]; exact Bool.false_ne_true)]
      exact ⟨hs, by simpa using ⟨hm, hs.statements b.statement info hinfo⟩⟩
    next => exact ⟨hs, forward_calm n (.bind b)⟩
  next => exact ⟨hs, forward_calm n m⟩

theorem dispatch_calm (hs : s.Calm) (hm : Ordinary D m) :
    (dispatch s n m).sess.Calm ∧ ∀ b ∈ (dispatch s n m).next, b.Calm D := by
  unfold dispatch
  split
  · exact ⟨hs, by simpa using hm⟩
  · exact ⟨hs, by simpa using hm⟩
  · split
    · exact ⟨hs, forward_calm n (.bind _)⟩
    · exact ⟨hs, by simpa using hm⟩
  · exact ⟨hs.remember _ none (by simp), forward_calm n (.close true _)⟩
  · exact ⟨hs, forward_calm n m⟩

theorem relay_calm {r : Reply} (ho : r.origin.isClient = true) (hr : r.msg.isConflict = false) :
    ∀ b ∈ relay D r, b.Calm D := by
  obtain ⟨o, m⟩ := r
  obtain ⟨k, rfl⟩ : ∃ k, o = .client k := by
    cases o with
    | client k => exact ⟨k, rfl⟩
    | _ => cases ho
  cases m with
  | error e =>
    have he : isConflict e.code = false := hr
    simp [relay, he]
  | _ => simp [relay, Origin.isClient]

structure Act.Granted (D : Dialect) (now : Nat) (s : Session) (a : Act) : Prop where
  tracker : ∀ k m info, a = .admitKinds k m info → (s.tracker.admitKinds info.kinds now).2 = none
  inject : a.isTrial = true → (Proxy.occCommitConflict s.occTouched D.occ.inject 0 s.occCommits).2 =
    false

theorem exec_calm (hs : s.Calm) (ha : a.Calm D) (hgrant : a.Granted D now s)
    (hown : ∀ r, a = .consumeHidden r → s.hidden = none → r.origin.isClient = true) :
    (a.exec D now jobID s).sess.Calm ∧ ∀ b ∈ (a.exec D now jobID s).next, b.Calm D := by
  have hnil {s' : Session} (hs' : s'.Calm) : s'.Calm ∧ ∀ b ∈ ([] : List Act), b.Calm D :=
    ⟨hs', by simp⟩
  have hreset : Session.Calm
      { s with occTouched := [], occDoomed := false, occInFlight := none, occRepair := none } :=
    { hs with occRepair := rfl, occDoomed := rfl }
  cases a with
  | droppingUntilSync k m =>
    dsimp only [Act.exec]
    rw [if_neg (by rw [hs.skipSync]; exact Bool.false_ne_true)]
    obtain ⟨hsess, hnext⟩ : (dispatch s k m).sess.Calm ∧ _ := dispatch_calm hs ha
    exact ⟨hsess, fun b hb => (List.mem_append.1 hb).elim
      (hnext b) fun hb => by rw [List.mem_singleton.1 hb]; trivial⟩
  | handleSync k =>
    dsimp only [Act.exec]
    rw [hs.pendingFailure]
    exact ⟨{ hs with skipSync := rfl, pendingFailure := rfl }, by simpa using forward_calm k .sync⟩
  | aborted k m => exact aborted_calm hs ha
  | admitKinds k m info =>
    have hnone := hgrant.tracker k m info rfl
    dsimp only [Act.exec]
    rw [hnone]
    exact ⟨{ hs with }, admitted_calm ha.1 ha.2⟩
  | occAdjudicated k m info =>
    dsimp only [Act.exec]
    rw [if_neg (by rw [hs.occDoomed]; exact Bool.false_ne_true)]
    split
    · refine ⟨hs, fun b hb => ?_⟩
      rcases List.mem_cons.1 hb with rfl | hb
      · trivial
      · exact send_calm ha.1 ha.2 b hb
    · exact ⟨hs, by simpa using ha⟩
  | occCommitConflict k m info =>
    dsimp only [Act.exec]
    rw [hgrant.inject rfl]
    refine ⟨{ hs with }, fun b hb => ?_⟩
    rcases List.mem_cons.1 hb with rfl | hb
    · trivial
    · exact send_calm ha.1 ha.2 b hb
  | resetOcc => exact hnil hreset
  | savepointReady bind =>
    dsimp only [Act.exec]
    split
    · exact hnil hs
    · exact ⟨hs, by simp⟩
  | establishSavepoint =>
    dsimp only [Act.exec]
    split
    · exact hnil hs
    · exact ⟨{ hs with }, by simp [Exchange.purpose]⟩
  | setHidden x ms =>
    have hp : x.purpose = .savepoint := ha
    exact ⟨{ hs with hidden := by simpa using ha }, by simp [hp]⟩
  | consumeHidden r =>
    dsimp only [Act.exec]
    split
    next hnone => exact ⟨hs, by simpa using ⟨hown r rfl hnone, ha.2⟩⟩
    next h hsome =>
      have hpurpose := hs.hidden h hsome
      split
      · exact ⟨hs, by simpa using hpurpose⟩
      · refine ⟨{ hs with hidden := by simpa using hpurpose }, fun b hb => ?_⟩
        split at hb
        next hp => rw [(passes_rowset hp).1] at hpurpose; cases hpurpose
        next => cases hb
  | clearHidden h =>
    refine ⟨{ hs with hidden := by simp }, fun b hb => ?_⟩
    obtain ⟨k, x⟩ := h
    cases x with
    | savepoint failed => cases failed <;> simp [Exchange.finish] at hb; rw [hb]; trivial
    | _ => cases ha
  | failureActive r =>
    dsimp only [Act.exec]
    rw [hs.failure]
    dsimp only
    split
    · exact ⟨hs, relay_calm ha.1 ha.2⟩
    · exact ⟨hs, by simpa using ha⟩
  | repairPending r =>
    dsimp only [Act.exec]
    rw [hs.occRepair]
    exact ⟨hs, relay_calm ha.1 ha.2⟩
  | markJobDescribed o =>
    dsimp only [Act.exec]
    rw [hs.job]
    cases o with
    | client k => exact ⟨hs, by simp⟩
    | _ => cases ha
  | startRepair o st =>
    dsimp only [Act.exec]
    rw [hs.occRepair]
    cases o with
    | client k => exact ⟨hs, by simp⟩
    | _ => cases ha
  | rewriteCommandTag o tag =>
    dsimp only [Act.exec]
    rw [if_pos hs.tag]
    exact ⟨hs, by simpa using ha⟩
  | claimJob o tag =>
    dsimp only [Act.exec]
    rw [hs.job]
    cases o with
    | client k => exact ⟨hs, by simp⟩
    | _ => cases ha
  | takeJob => exact hnil { hs with job := rfl }
  | noteTxStatus st =>
    dsimp only [Act.exec]
    split
    · exact hnil { hs with occDoomed := rfl }
    · exact hnil hs
  | countTxnStatement kinds =>
    dsimp only [Act.exec]
    split <;> exact hnil { hs with }
  | noteBatchState t =>
    dsimp only [Act.exec]
    split
    · exact hnil { hs with }
    · split <;> exact hnil { hs with }
  | _ => first | exact ha.elim | exact hnil { hs with }

end Calm

section Passing

/-- What the session makes of a reply to the client: the reply, with the version the
session reports. -/
def deliver (D : Dialect) (r : Reply) : Delivery where
  source := .relayed r.origin
  msg := match r.msg with
    | .parameterStatus name value =>
      if D.serverVersion ≠ "" ∧ name = "server_version" then .parameterStatus name D.serverVersion
      else .parameterStatus name value
    | m => m

@[simp] theorem deliver_isReady (r : Reply) : (deliver D r).msg.isReady = r.msg.isReady := by
  obtain ⟨o, m⟩ := r
  cases m with
  | parameterStatus name value => dsimp only [deliver]; split <;> rfl
  | _ => rfl

@[simp] def Act.delivers (D : Dialect) : Act → List Delivery
  | .writeClient d => [d]
  | .consumeHidden r => if r.origin.isClient then [deliver D r] else []
  | .failureActive r => [deliver D r]
  | .repairPending r => [deliver D r]
  | .startRepair o st => [⟨.relayed o, .ready st⟩]
  | .markJobDescribed o => [⟨.relayed o, .noData⟩]
  | .rewriteCommandTag o tag => [⟨.relayed o, .commandComplete tag⟩]
  | .claimJob o tag => [⟨.relayed o, .commandComplete tag⟩]
  | _ => []

@[simp] def Act.passesOn : Act → List Request
  | .writeUpstream (.client n) ms => ms.map (Request.mk (.client n))
  | .droppingUntilSync n m => [⟨.client n, m⟩]
  | .aborted n m => [⟨.client n, m⟩]
  | .admitKinds n m _ => [⟨.client n, m⟩]
  | .occAdjudicated n m _ => [⟨.client n, m⟩]
  | .occCommitConflict n m _ => [⟨.client n, m⟩]
  | .handleSync n => [⟨.client n, .sync⟩]
  | _ => []

@[simp] def Act.hides : Act → List Bool
  | .writeUpstream (.hidden _ _) ms => ms.map (·.drawsReady)
  | .setHidden _ _ => [true]
  | .consumeHidden r => if r.origin.isClient then [] else [r.msg.isReady]
  | .clearHidden _ => [true]
  | .clearSavepoint => [true]
  | _ => []

def Reply.stamp (r : Reply) : Bool × Bool := (r.origin.isClient, r.msg.isReady)
def Request.stamp (q : Request) : Bool × Bool := (q.origin.isClient, q.msg.drawsReady)
def Delivery.stamp (d : Delivery) : Bool × Bool := (true, d.msg.isReady)

def Act.stamps (D : Dialect) (a : Act) : List (Bool × Bool) :=
  a.passesOn.map Request.stamp ++ (a.hides.map (Prod.mk false) ++ (a.delivers D).map Delivery.stamp)

def Act.Void (D : Dialect) (a : Act) : Prop := a.stamps D = [] ∧ a.saves = false

@[simp] def Act.looks : Act → Bool
  | .droppingUntilSync _ _ => true
  | .handleSync _ => true
  | .aborted _ _ => true
  | .admitKinds _ _ _ => true
  | .occAdjudicated _ _ _ => true
  | .occCommitConflict _ _ _ => true
  | _ => false

@[simp] def Act.sets : Act → Bool
  | .setHidden _ _ => true
  | .writeUpstream (.hidden _ _) _ => true
  | _ => false

inductive Writes (D : Dialect) (n : Nat) (m : Frontend) : List Act → Prop
  | here {l} : (∀ b ∈ l, b.Void D) → Writes D n m (.writeUpstream (.client n) [m] :: l)
  | later {a l} : a.Void D → Writes D n m l → Writes D n m (a :: l)

inductive Underway (D : Dialect) (gap : Prop) (n : Nat) (m : Frontend) : List Act → Prop
  | writes {l} : Writes D n m l → Underway D gap n m l
  | looks {a l} : a.looks = true → a.passesOn = [⟨.client n, m⟩] → (∀ b ∈ l, b.Void D) →
      Underway D gap n m (a :: l)
  | saves {a l} : a.saves = true → (a.sets = true → gap) → Writes D n m l →
      Underway D gap n m (a :: l)
  | later {a l} : a.Void D → Underway D gap n m l → Underway D gap n m (a :: l)

variable {s : Session} {gap : Prop} {n : Nat} {m : Frontend} {now : Nat} {jobID : String} {a : Act}
  {l l' : List Act}

theorem Act.Void.passesOn (h : a.Void D) : a.passesOn = [] := by
  have hstamps := h.1
  rw [Act.stamps, List.append_eq_nil_iff, List.map_eq_nil_iff] at hstamps
  exact hstamps.1

theorem flatMap_passesOn_void (h : ∀ b ∈ l, b.Void D) : l.flatMap Act.passesOn = [] :=
  List.flatMap_eq_nil_iff.2 fun b hb => (h b hb).passesOn

theorem flatMap_stamps_void (h : ∀ b ∈ l, b.Void D) : l.flatMap (Act.stamps D) = [] :=
  List.flatMap_eq_nil_iff.2 fun b hb => (h b hb).1

theorem looks_stamps (hlooks : a.looks = true) (hp : a.passesOn = [⟨.client n, m⟩]) :
    a.stamps D = [(true, m.drawsReady)] := by
  have hstamps : a.stamps D = a.passesOn.map Request.stamp := by
    cases a with
    | droppingUntilSync k m => rfl
    | handleSync k => rfl
    | aborted k m => rfl
    | admitKinds k m info => rfl
    | occAdjudicated k m info => rfl
    | occCommitConflict k m info => rfl
    | _ => cases hlooks
  rw [hstamps, hp]
  rfl

theorem saves_passesOn (h : a.saves = true) : a.passesOn = [] := by
  cases a with
  | writeUpstream o ms =>
    cases o with
    | hidden p k => rfl
    | _ => cases h
  | setHidden x ms => rfl
  | savepointReady bind => rfl
  | establishSavepoint => rfl
  | _ => cases h

theorem saves_stamps (h : a.saves = true) : ∀ x ∈ a.stamps D, x.1 = false := by
  cases a with
  | writeUpstream o ms =>
    cases o with
    | hidden p k => simp [Act.stamps]
    | _ => cases h
  | setHidden x ms => simp [Act.stamps]
  | savepointReady bind => simp [Act.stamps]
  | establishSavepoint => simp [Act.stamps]
  | _ => cases h

theorem Writes.append (hl : ∀ b ∈ l, b.Void D) (h : Writes D n m l') : Writes D n m (l ++ l') := by
  induction l with
  | nil => exact h
  | cons b l ih =>
    exact .later (hl b List.mem_cons_self) (ih fun c hc => hl c (List.mem_cons_of_mem b hc))

theorem Writes.snoc (h : Writes D n m l) (hl : ∀ b ∈ l', b.Void D) : Writes D n m (l ++ l') := by
  induction h with
  | here hrest => exact .here fun b hb => (List.mem_append.1 hb).elim (hrest b) (hl b)
  | later ha _ ih => exact .later ha ih

theorem Writes.stamps (h : Writes D n m l) : l.flatMap (Act.stamps D) = [(true, m.drawsReady)] := by
  induction h with
  | here hl => rw [List.flatMap_cons, flatMap_stamps_void hl]; rfl
  | later ha _ ih => rw [List.flatMap_cons, ha.1, ih]; rfl

theorem Writes.passesOn (h : Writes D n m l) : l.flatMap Act.passesOn = [⟨.client n, m⟩] := by
  induction h with
  | here hl => rw [List.flatMap_cons, flatMap_passesOn_void hl]; rfl
  | later ha _ ih => rw [List.flatMap_cons, ha.passesOn, ih]; rfl

theorem Underway.append (hl : ∀ b ∈ l, b.Void D) (h : Underway D gap n m l') :
    Underway D gap n m (l ++ l') := by
  induction l with
  | nil => exact h
  | cons b l ih =>
    exact .later (hl b List.mem_cons_self) (ih fun c hc => hl c (List.mem_cons_of_mem b hc))

theorem Underway.snoc (h : Underway D gap n m l) (hl : ∀ b ∈ l', b.Void D) :
    Underway D gap n m (l ++ l') := by
  induction h with
  | writes h => exact .writes (h.snoc hl)
  | looks ha hp hrest => exact .looks ha hp fun b hb => (List.mem_append.1 hb).elim (hrest b) (hl b)
  | saves ha hgap h => exact .saves ha hgap (h.snoc hl)
  | later ha _ ih => exact .later ha ih

theorem Underway.stamps (h : Underway D gap n m l) :
    ∃ pre, l.flatMap (Act.stamps D) = pre ++ [(true, m.drawsReady)] ∧ ∀ x ∈ pre, x.1 = false := by
  induction h with
  | writes h => exact ⟨[], h.stamps, by simp⟩
  | looks ha hp hl =>
    exact ⟨[], by rw [List.flatMap_cons, flatMap_stamps_void hl, looks_stamps ha hp]; rfl, by simp⟩
  | @saves a l ha _ h => exact ⟨a.stamps D, by rw [List.flatMap_cons, h.stamps], saves_stamps ha⟩
  | later ha _ ih =>
    obtain ⟨pre, hstamps, hpre⟩ := ih
    exact ⟨pre, by rw [List.flatMap_cons, ha.1, hstamps]; rfl, hpre⟩

theorem Underway.passesOn (h : Underway D gap n m l) :
    l.flatMap Act.passesOn = [⟨.client n, m⟩] := by
  induction h with
  | writes h => exact h.passesOn
  | looks _ hp hl => rw [List.flatMap_cons, hp, flatMap_passesOn_void hl]; rfl
  | saves ha _ h => rw [List.flatMap_cons, saves_passesOn ha, h.passesOn]; rfl
  | later ha _ ih => rw [List.flatMap_cons, ha.passesOn, ih]; rfl

theorem forward_writes (n : Nat) (m : Frontend) : Writes D n m (forward n m) := by
  have hwrite : Writes D n m [.writeUpstream (.client n) [m]] := .here (by simp)
  unfold forward
  split
  · exact .later ⟨rfl, rfl⟩ hwrite
  · exact hwrite

theorem send_writes {info : StatementInfo} (hm : Ordinary D m) (hinfo : info.jobID = none) :
    Writes D n m (send D n m info) := by
  unfold send
  split
  next sql =>
    rw [(hm sql rfl).2.1]
    exact forward_writes n (.query sql)
  next =>
    rw [hinfo]
    exact forward_writes n m

theorem Underway.look (hlooks : a.looks = true) (hp : a.passesOn = [⟨.client n, m⟩]) :
    Underway D gap n m [a] :=
  .looks hlooks hp (by simp)

theorem admitted_underway {info : StatementInfo} (hm : Ordinary D m) (hinfo : info.jobID = none) :
    Underway D gap n m (admitted D s n m info) := by
  have hsend : Writes D n m (send D n m info) := send_writes hm hinfo
  unfold admitted
  refine .append (by split <;> simp [Act.Void, Act.stamps]) (.later ⟨rfl, rfl⟩ ?_)
  (repeat' split)
  · exact .look rfl rfl
  · exact .later ⟨rfl, rfl⟩ (.writes hsend)
  · cases info.intent with
    | none => exact .later ⟨rfl, rfl⟩ (.writes hsend)
    | some i => exact .saves rfl (by simp) (.later ⟨rfl, rfl⟩ hsend)
  · exact .writes hsend

theorem aborted_underway (hs : s.Calm) (hm : Ordinary D m) :
    Underway D gap n m ((Act.aborted n m).exec D now jobID s).next := by
  dsimp only [Act.exec]
  split
  next sql =>
    obtain ⟨hasync, -, hrejected⟩ := hm sql rfl
    unfold handleQuery
    rw [hasync]
    dsimp only
    rw [if_neg (by rw [hs.txnAborted]; exact Bool.false_ne_true)]
    cases hc : D.classify false sql with
    | unparsed => exact .writes (forward_writes n (.query sql))
    | rejected v => rw [hc] at hrejected; cases hrejected
    | accepted kinds tables => exact .look rfl rfl
  next name sql =>
    obtain ⟨hasync, hversion, hrejected⟩ := hm sql rfl
    unfold handleParse
    rw [hasync, hversion]
    dsimp only
    rw [if_neg (by rw [hs.txnAborted]; exact Bool.false_ne_true)]
    cases hc : D.classify false sql with
    | unparsed => exact .writes (forward_writes n (.parse name sql))
    | rejected v => rw [hc] at hrejected; cases hrejected
    | accepted kinds tables =>
      dsimp only
      split
      · exact .saves rfl (by simp) (forward_writes n (.parse name sql))
      · exact .writes (forward_writes n (.parse name sql))
  next b =>
    split
    next info hinfo =>
      unfold handleBind
      rw [if_neg (by rw [hs.txnAborted]; exact Bool.false_ne_true)]
      exact .look rfl rfl
    next => exact .writes (forward_writes n (.bind b))
  next => exact .writes (forward_writes n m)

theorem dispatch_underway (s : Session) (n : Nat) (m : Frontend) :
    Underway D gap n m (dispatch s n m).next := by
  unfold dispatch
  split
  · exact .look rfl rfl
  · exact .look rfl rfl
  · split
    · exact .writes (forward_writes n (.bind _))
    · exact .look rfl rfl
  · exact .writes (forward_writes n (.close true _))
  · exact .writes (forward_writes n m)

theorem pumpFrontend_underway (n : Nat) (m : Frontend) : Underway D gap n m (pumpFrontend n m) := by
  unfold pumpFrontend
  split
  · exact .writes (.here (by simp [Act.Void, Act.stamps]))
  · exact .looks rfl rfl (by simp [Act.Void, Act.stamps])
  · exact .look rfl rfl

theorem exec_looks_underway (hs : s.Calm) (ha : a.Calm D) (hgrant : a.Granted D now s)
    (hlooks : a.looks = true) (hp : a.passesOn = [⟨.client n, m⟩]) :
    Underway D gap n m (a.exec D now jobID s).next := by
  cases a with
  | droppingUntilSync k m' =>
    obtain ⟨rfl, rfl⟩ : k = n ∧ m' = m := by simpa using hp
    dsimp only [Act.exec]
    rw [if_neg (by rw [hs.skipSync]; exact Bool.false_ne_true)]
    exact (dispatch_underway s k m').snoc (by simp [Act.Void, Act.stamps])
  | handleSync k =>
    obtain ⟨rfl, rfl⟩ : k = n ∧ .sync = m := by simpa using hp
    dsimp only [Act.exec]
    rw [hs.pendingFailure]
    exact .writes ((forward_writes k .sync).snoc (by simp))
  | aborted k m' =>
    obtain ⟨rfl, rfl⟩ : k = n ∧ m' = m := by simpa using hp
    exact aborted_underway hs ha
  | admitKinds k m' info =>
    obtain ⟨rfl, rfl⟩ : k = n ∧ m' = m := by simpa using hp
    have hnone := hgrant.tracker k m' info rfl
    dsimp only [Act.exec]
    rw [hnone]
    exact admitted_underway ha.1 ha.2
  | occAdjudicated k m' info =>
    obtain ⟨rfl, rfl⟩ : k = n ∧ m' = m := by simpa using hp
    dsimp only [Act.exec]
    rw [if_neg (by rw [hs.occDoomed]; exact Bool.false_ne_true)]
    split
    · exact .later ⟨rfl, rfl⟩ (.writes (send_writes ha.1 ha.2))
    · exact .look rfl rfl
  | occCommitConflict k m' info =>
    obtain ⟨rfl, rfl⟩ : k = n ∧ m' = m := by simpa using hp
    dsimp only [Act.exec]
    rw [hgrant.inject rfl]
    exact .later ⟨rfl, rfl⟩ (.writes (send_writes ha.1 ha.2))
  | _ => cases hlooks

theorem exec_void (ha : a.Calm D) (hvoid : a.Void D) (hfront : FrontAct n m a) :
    (a.exec D now jobID s).next = [] ∧ (a.exec D now jobID s).up = [] ∧
      (a.exec D now jobID s).client = [] := by
  obtain ⟨hstamps, hsaves⟩ := hvoid
  cases a with
  | writeUpstream o ms =>
    cases hfront with
    | code hcode =>
      cases o with
      | client k => obtain ⟨-, m', rfl, -⟩ := hcode; cases hstamps
      | _ => exact hcode.elim
    | savepoint => cases hsaves
    | abort => simp [Origin.isClient] at ha
    | rollback => simp [Origin.isClient] at ha
  | writeClient d =>
    cases hfront with
    | code hcode =>
      obtain ⟨k, hk⟩ := ha
      cases hcode.1.symm.trans hk
  | countTxnStatement kinds => dsimp only [Act.exec]; split <;> exact ⟨rfl, rfl, rfl⟩
  | noteBatchState t => dsimp only [Act.exec]; (repeat' split) <;> exact ⟨rfl, rfl, rfl⟩
  | _ =>
    cases hfront with
    | code hcode =>
      first
        | exact ha.elim
        | exact hcode.elim
        | exact ⟨rfl, rfl, rfl⟩
        | (cases hsaves; done)
        | cases hstamps

structure Carries (D : Dialect) (a : Act) (e : Effect) : Prop where
  stamps : ∃ pre, e.up.map Request.stamp ++ e.next.flatMap (Act.stamps D) = pre ++ a.stamps D ∧
    ∀ x ∈ pre, x.1 = false
  passesOn : e.up.filter (·.origin.isClient) ++ e.next.flatMap Act.passesOn = a.passesOn
  client : e.client = []

theorem exec_carries (hs : s.Calm) (ha : a.Calm D) (hgrant : a.Granted D now s)
    (hfront : FrontAct n m a) : Carries D a (a.exec D now jobID s) := by
  by_cases hvoid : a.Void D
  · obtain ⟨hnext, hup, hclient⟩ : (a.exec D now jobID s).next = [] ∧ _ := exec_void ha hvoid hfront
    exact ⟨⟨[], by rw [hnext, hup, hvoid.1]; rfl, by simp⟩, by rw [hnext, hup, hvoid.passesOn]; rfl,
      hclient⟩
  have hlook {k : Nat} {m : Frontend} (hlooks : a.looks = true) (hp : a.passesOn = [⟨.client k, m⟩])
      (hup : (a.exec D now jobID s).up = []) (hclient : (a.exec D now jobID s).client = []) :
      Carries D a (a.exec D now jobID s) := by
    have hcourse : Underway D False k m (a.exec D now jobID s).next :=
      exec_looks_underway hs ha hgrant hlooks hp
    obtain ⟨pre, hstamps, hpre⟩ := hcourse.stamps
    exact ⟨⟨pre, by rw [hup, hstamps, looks_stamps hlooks hp]; rfl, hpre⟩,
      by rw [hup, hcourse.passesOn, hp]; rfl, hclient⟩
  cases a with
  | writeUpstream o ms =>
    cases o with
    | client k =>
      exact ⟨⟨[], by simp [Act.stamps], by simp⟩, by simp [Origin.isClient, List.filter_map,
        Function.comp_def], rfl⟩
    | hidden p k =>
      exact ⟨⟨[], by simp [Act.stamps, Request.stamp, Origin.isClient], by simp⟩,
        by simp [Origin.isClient, List.filter_map, Function.comp_def], rfl⟩
    | failure k => simp [Origin.isClient] at ha
  | setHidden x ms =>
    cases hfront with
    | code hcode =>
      obtain ⟨rfl, rfl⟩ := hcode
      exact ⟨⟨[], rfl, by simp⟩, rfl, rfl⟩
  | savepointReady bind =>
    dsimp only [Act.exec]
    split <;> exact ⟨⟨[], rfl, by simp⟩, rfl, rfl⟩
  | establishSavepoint =>
    dsimp only [Act.exec]
    split
    · exact ⟨⟨[], rfl, by simp⟩, rfl, rfl⟩
    · exact ⟨⟨[(false, true)], rfl, by simp⟩, rfl, rfl⟩
  | droppingUntilSync k m => exact hlook rfl rfl (exec_up (by simp)) exec_client
  | handleSync k => exact hlook rfl rfl rfl rfl
  | aborted k m => exact hlook rfl rfl (exec_up (by simp)) exec_client
  | admitKinds k m info => exact hlook rfl rfl (exec_up (by simp)) exec_client
  | occAdjudicated k m info => exact hlook rfl rfl (exec_up (by simp)) exec_client
  | occCommitConflict k m info => exact hlook rfl rfl (exec_up (by simp)) exec_client
  | writeClient d =>
    cases hfront with
    | code hcode =>
      obtain ⟨k, hk⟩ := ha
      cases hcode.1.symm.trans hk
  | _ =>
    cases hfront with
    | code hcode => first | exact ha.elim | exact hcode.elim | exact absurd ⟨rfl, rfl⟩ hvoid

theorem Underway.exec {k : Nat} {m' : Frontend} {rest : List Act} (hs : s.Calm) (ha : a.Calm D)
    (hgrant : a.Granted D now s) (hfront : FrontAct k m' a)
    (h : Underway D (s.extendedBatchOpen = false) n m (a :: rest)) :
    (∀ b ∈ (a.exec D now jobID s).next ++ rest, b.Void D) ∨
      Underway D (s.extendedBatchOpen = false) n m ((a.exec D now jobID s).next ++ rest) := by
  generalize hl : a :: rest = l at h
  have hskip {l' : List Act} (hvoid : a.Void D)
    (hrest : Underway D (s.extendedBatchOpen = false) n m l') :
      Underway D (s.extendedBatchOpen = false) n m ((a.exec D now jobID s).next ++ l') := by
    rw [(exec_void ha hvoid hfront).1]
    exact hrest
  cases h with
  | writes h =>
    cases h with
    | here hvoid =>
      obtain ⟨rfl, rfl⟩ := List.cons.inj hl
      exact .inl hvoid
    | later hvoid h =>
      obtain ⟨rfl, rfl⟩ := List.cons.inj hl
      exact .inr (hskip hvoid (.writes h))
  | looks hlooks hp hvoid =>
    obtain ⟨rfl, rfl⟩ := List.cons.inj hl
    exact .inr ((exec_looks_underway hs ha hgrant hlooks hp).snoc hvoid)
  | later hvoid h =>
    obtain ⟨rfl, rfl⟩ := List.cons.inj hl
    exact .inr (hskip hvoid h)
  | saves hsaves hgap h =>
    obtain ⟨rfl, rfl⟩ := List.cons.inj hl
    right
    cases a with
    | writeUpstream o ms => exact .writes h
    | setHidden x ms => exact .later ⟨rfl, rfl⟩ (.saves rfl (fun _ => hgap rfl) h)
    | savepointReady bind =>
      dsimp only [Act.exec]
      split
      · exact .writes h
      · exact .saves rfl (by simp) h
    | establishSavepoint =>
      dsimp only [Act.exec]
      split
      · exact .writes h
      next hopen => exact .saves rfl (fun _ => by simp at hopen; exact hopen.2) h
    | _ => cases hsaves

theorem relay_delivers {r : Reply} (hr : r.msg.isConflict = false) :
    (relay D r).flatMap (Act.delivers D) = [deliver D r] := by
  obtain ⟨o, m⟩ := r
  cases m with
  | error e =>
    have he : isConflict e.code = false := hr
    simp [relay, he, deliver]
  | _ => simp [relay, deliver]

theorem relay_stamps {r : Reply} (hr : r.msg.isConflict = false) :
    (relay D r).flatMap (Act.stamps D) = [(true, r.msg.isReady)] := by
  obtain ⟨o, m⟩ := r
  cases m with
  | error e =>
    have he : isConflict e.code = false := hr
    simp [relay, he, Act.stamps, Delivery.stamp, Backend.isReady]
  | parameterStatus name value =>
    simp only [relay]
    split <;> simp [Act.stamps, Delivery.stamp, Backend.isReady]
  | _ => simp [relay, Act.stamps, Delivery.stamp, Backend.isReady]

theorem exec_delivers (hs : s.Calm) (ha : a.Calm D) (hback : BackMode (a :: l))
    (hown : ∀ r, a = .consumeHidden r → (s.hidden = none ↔ r.origin.isClient = true)) :
    (a.exec D now jobID s).client ++ (a.exec D now jobID s).next.flatMap
      (Act.delivers D) = a.delivers D := by
  cases a with
  | consumeHidden r =>
    have hiff := hown r rfl
    dsimp only [Act.exec]
    split
    next hnone => simp [hiff.1 hnone]
    next h hsome =>
      have hclient : r.origin.isClient = false := by
        rw [hsome] at hiff
        simpa using hiff
      have hpurpose := hs.hidden h hsome
      split
      · simp [hclient]
      · have hpasses : h.exchange.passes r.msg = false := by
          by_contra hp
          rw [(passes_rowset (Bool.not_eq_false _ ▸ hp)).1] at hpurpose
          cases hpurpose
        simp [hpasses, hclient]
  | clearHidden h =>
    obtain ⟨k, x⟩ := h
    cases x with
    | savepoint failed => cases failed <;> rfl
    | _ => cases ha
  | failureActive r =>
    dsimp only [Act.exec]
    rw [hs.failure]
    dsimp only
    split
    · exact relay_delivers ha.2
    · rfl
  | repairPending r =>
    dsimp only [Act.exec]
    rw [hs.occRepair]
    exact relay_delivers ha.2
  | markJobDescribed o => dsimp only [Act.exec]; rw [hs.job]; rfl
  | startRepair o st => dsimp only [Act.exec]; rw [hs.occRepair]; rfl
  | rewriteCommandTag o tag => dsimp only [Act.exec]; rw [if_pos hs.tag]; rfl
  | claimJob o tag => dsimp only [Act.exec]; rw [hs.job]; rfl
  | noteTxStatus st => dsimp only [Act.exec]; split <;> rfl
  | _ =>
    cases hback with
    | relaying h => have ha' := h _ List.mem_cons_self; first | exact ha.elim | exact ha'.elim | rfl
    | repairing h =>
      cases h _ List.mem_cons_self with
      | code h => first | exact ha.elim | exact h.elim | rfl
      | _ => rfl
    | _ => first | exact ha.elim | rfl

theorem exec_back_stamps (hs : s.Calm) (ha : a.Calm D) (hback : BackMode (a :: l))
    (hown : ∀ r, a = .consumeHidden r → (s.hidden = none ↔ r.origin.isClient = true)) :
    (a.exec D now jobID s).next.flatMap (Act.stamps D) = a.stamps D ∨
      (a.exec D now jobID s).next.flatMap (Act.stamps D) = [] := by
  cases a with
  | consumeHidden r =>
    have hiff := hown r rfl
    dsimp only [Act.exec]
    split
    next hnone => exact .inl (by simp [Act.stamps, hiff.1 hnone])
    next h hsome =>
      have hclient : r.origin.isClient = false := by
        rw [hsome] at hiff
        simpa using hiff
      have hpurpose := hs.hidden h hsome
      split
      next hready => exact .inl (by simp [Act.stamps, hclient, hready])
      next =>
        have hpasses : h.exchange.passes r.msg = false := by
          by_contra hp
          rw [(passes_rowset (Bool.not_eq_false _ ▸ hp)).1] at hpurpose
          cases hpurpose
        exact .inr (by simp [hpasses])
  | clearHidden h =>
    obtain ⟨k, x⟩ := h
    cases x with
    | savepoint failed =>
      cases failed
      · exact .inr rfl
      · exact .inl rfl
    | _ => cases ha
  | failureActive r =>
    left
    dsimp only [Act.exec]
    rw [hs.failure]
    dsimp only
    split
    · rw [relay_stamps ha.2]
      simp [Act.stamps, Delivery.stamp]
    · simp [Act.stamps]
  | repairPending r =>
    left
    dsimp only [Act.exec]
    rw [hs.occRepair]
    dsimp only [Option.isSome]
    rw [if_neg Bool.false_ne_true, relay_stamps ha.2]
    simp [Act.stamps, Delivery.stamp]
  | markJobDescribed o => left; dsimp only [Act.exec]; rw [hs.job]; rfl
  | startRepair o st => left; dsimp only [Act.exec]; rw [hs.occRepair]; rfl
  | rewriteCommandTag o tag => left; dsimp only [Act.exec]; rw [if_pos hs.tag]; rfl
  | claimJob o tag => left; dsimp only [Act.exec]; rw [hs.job]; rfl
  | noteTxStatus st => right; dsimp only [Act.exec]; split <;> rfl
  | setHidden x ms =>
    -- the backend pump arms no savepoint
    cases hback with
    | relaying h => exact (h _ List.mem_cons_self).elim
    | repairing h => cases h _ List.mem_cons_self with | code h => exact absurd ha h.1
  | _ =>
    right
    cases hback with
    | relaying h => have ha' := h _ List.mem_cons_self; first | exact ha.elim | exact ha'.elim | rfl
    | repairing h =>
      cases h _ List.mem_cons_self with
      | code h => first | exact ha.elim | exact h.elim | rfl
      | _ => rfl
    | _ => first | exact ha.elim | rfl

end Passing

section Worlds

def World.flight (D : Dialect) (w : World U) : List (Bool × Bool) :=
  w.back.flatMap (Act.stamps D) ++ (w.fromUp.map Reply.stamp ++ w.toUp.map Request.stamp)

def World.road (D : Dialect) (w : World U) : List (Bool × Bool) :=
  w.flight D ++ (w.front.flatMap (Act.stamps D) ++ w.inbox.map fun m => (true, m.drawsReady))

structure Relaying (D : Dialect) (w : World U) : Prop where
  sess : w.sess.Calm
  front : ∀ a ∈ w.front, a.Calm D
  back : ∀ a ∈ w.back, a.Calm D
  fromUp : ∀ r ∈ w.fromUp, r.Calm
  toUp : ∀ q ∈ w.toUp, q.origin.isClient = true ∨ q.origin.IsHidden
  inbox : ∀ m ∈ w.inbox, Ordinary D m
  course : (∀ a ∈ w.front, a.Void D) ∨
    ∃ m, w.sent[w.read - 1]? = some m ∧ Underway D (w.sess.extendedBatchOpen = false)
      (w.read - 1) m w.front
  layout : w.front ≠ [] → ∃ m, w.sent[w.read - 1]? = some m ∧ Layout m w.front

/-- What the client does not send before it has its answers. -/
structure Awaiting (D : Dialect) (w : World U) : Prop where
  sends : EachAfter (fun before m => .terminate ∉ before ∧ (m = .other → midBatch before = true))
    w.sent
  balanced : w.sent.countP (·.drawsReady) = w.got.countP (·.msg.isReady) + closings id (w.road D)
  closed : midBatch w.sent = false → .terminate ∉ w.sent → Sealed id (w.road D)
  alone : w.inbox ≠ [] → closings id (w.flight D ++ w.front.flatMap (Act.stamps D)) = 0
  single : ∀ m ∈ w.inbox.dropLast, m.drawsReady = false
  early : (∃ a ∈ w.front, a.looks = true ∨ a.saves = true) → midBatch (w.sent.take (w.read - 1)) =
    false → w.flight D = []
  later : w.inbox ≠ [] → midBatch (w.sent.take w.read) = false → w.flight D ++ w.front.flatMap
    (Act.stamps D) = []
  noted : w.sess.extendedBatchOpen =
    midBatch (w.sent.take (if w.front = [] then w.read else w.read - 1))

variable {w w' : World U} {a : Act} {rest : List Act} {r : Reply}

theorem Relaying.start : Relaying D (World.start D U) where
  sess := ⟨rfl, rfl, rfl, rfl, rfl, rfl, rfl,
    rfl, by simp [World.start, Session.new], by simp [World.start, Session.new]⟩
  front := by simp [World.start]
  back := by simp [World.start]
  fromUp := by simp [World.start]
  toUp := by simp [World.start]
  inbox := by simp [World.start]
  course := .inl (by simp [World.start])
  layout h := absurd rfl h

theorem Awaiting.start : Awaiting D (World.start D U) where
  sends := .nil
  balanced := rfl
  closed _ _ := trivial
  alone h := absurd rfl h
  single := by simp [World.start]
  early h := by simp [World.start] at h
  later h := absurd rfl h
  noted := rfl

theorem Relaying.back_quiet (h : Relaying D w) (ht : Threads w) :
    ∀ a ∈ w.back, (∀ o ms, a ≠ .writeUpstream o ms) ∧ ∀ x ms, a ≠ .setHidden x ms := by
  have hcalm := h.back
  have hmode := ht.back
  generalize w.back = back at hcalm hmode
  intro a ha
  constructor
  · rintro o ms rfl
    have hwrite := hcalm _ ha
    cases hmode with
    | relaying hl => exact hl _ ha
    | repairing hl =>
      cases hl _ ha with
      | code hcode => exact hcode
      | exchange hp _ =>
        obtain hclient | ⟨k, hk⟩ := hwrite
        · cases hclient
        · cases hk; exact hp rfl
      | abort => simp [Origin.isClient] at hwrite
    | _ => simp at ha
  · rintro x ms rfl
    have hset := hcalm _ ha
    cases hmode with
    | relaying hl => exact hl _ ha
    | repairing hl => cases hl _ ha with | code hcode => exact hcode.1 hset
    | _ => simp at ha

theorem World.line_of_flight (h : w.flight D = []) :
    w.line = [] ∧ w.back.filterMap Act.clearing = [] := by
  rw [World.flight, List.append_eq_nil_iff, List.append_eq_nil_iff, List.map_eq_nil_iff,
    List.map_eq_nil_iff] at h
  obtain ⟨hback, hfrom, hto⟩ := h
  have hstamps := List.flatMap_eq_nil_iff.1 hback
  have hhand : w.hand = [] := by
    refine List.filterMap_eq_nil_iff.2 fun a ha => ?_
    have hnone := hstamps a ha
    cases a with
    | consumeHidden r => cases hc : r.origin.isClient <;> simp [Act.stamps, hc] at hnone
    | _ => rfl
  refine ⟨by simp [World.line, hhand, hfrom, hto], List.filterMap_eq_nil_iff.2 fun a ha => ?_⟩
  have hnone := hstamps a ha
  cases a with
  | clearHidden h => cases hnone
  | _ => rfl

theorem Act.Void.hiddenWrite (h : a.Void D) : a.hiddenWrite = none := by
  cases a with
  | writeUpstream o ms =>
    cases o with
    | hidden p k => cases h.2
    | _ => rfl
  | _ => rfl

theorem Writes.hiddenWrite {n : Nat} {m : Frontend} {l : List Act} (h : Writes D n m l) :
    l.filterMap Act.hiddenWrite = [] := by
  induction h with
  | here hl =>
    exact List.filterMap_eq_nil_iff.2
      (List.forall_mem_cons.2 ⟨rfl, fun b hb => (hl b hb).hiddenWrite⟩)
  | later ha _ ih => rw [List.filterMap_cons, ha.hiddenWrite, ih]

theorem Unrefused.granted {l : Label U} {now : Nat} (h : Unrefused D l w) (hi : Uninjected D l w)
    (ha : l.act w = some a)
    (hnow : ∀ k m info, a = .admitKinds k m info → ∃ jobID, l = .front now jobID) :
    a.Granted D now w.sess where
  tracker k m info heq := by
    obtain ⟨jobID, rfl⟩ := hnow k m info heq
    subst heq
    have hhead : w.front.head? = some (.admitKinds k m info) := ha
    exact h.tracker (now, info) (by simp [Label.trying, hhead])
  inject := hi a ha

theorem Relaying.hiddenWrites_back (h : Relaying D w) (ht : Threads w) :
    w.back.filterMap Act.hiddenWrite = [] := by
  refine filterMap_next fun b hb => ?_
  have hquiet := (h.back_quiet ht b hb).1
  cases b with
  | writeUpstream o ms => exact absurd rfl (hquiet o ms)
  | _ => rfl

theorem stamp_write {n k : Nat} {m : Frontend} {ms : List Frontend}
    (h : FrontAct n m (.writeUpstream (.client k) ms)) :
    (Act.writeUpstream (.client k) ms).stamps D ≠ [] := by
  cases h with
  | code h =>
    obtain ⟨-, m', rfl, -⟩ := h
    simp [Act.stamps]

theorem Relaying.rest_of_write {k : Nat} {ms : List Frontend} (h : Relaying D w) (ht : Threads w)
    (hf : w.front = .writeUpstream (.client k) ms :: rest) : ∀ b ∈ rest, b.Void D := by
  obtain ⟨m, -, ha⟩ := ht.head hf
  have hstamp := stamp_write (D := D) ha
  rcases h.course with hvoid | ⟨m', -, hcourse⟩
  · exact fun b hb => hvoid b (hf ▸ List.mem_cons_of_mem _ hb)
  · rw [hf] at hcourse
    generalize hl : Act.writeUpstream (.client k) ms :: rest = l at hcourse
    cases hcourse with
    | writes hw =>
      cases hw with
      | here hvoid => obtain ⟨-, rfl⟩ := List.cons.inj hl; exact hvoid
      | later hvoid _ => obtain ⟨rfl, rfl⟩ := List.cons.inj hl; exact absurd hvoid.1 hstamp
    | looks hlooks _ _ => obtain ⟨rfl, rfl⟩ := List.cons.inj hl; cases hlooks
    | saves hsaves _ _ => obtain ⟨rfl, rfl⟩ := List.cons.inj hl; cases hsaves
    | later hvoid _ => obtain ⟨rfl, rfl⟩ := List.cons.inj hl; exact absurd hvoid.1 hstamp

theorem Relaying.writes_of_saves (h : Relaying D w) (hf : w.front = a :: rest)
    (hsaves : a.saves = true) : ∃ m, w.sent[w.read - 1]? = some m ∧ Writes D (w.read - 1) m rest ∧
      (a.sets = true → w.sess.extendedBatchOpen = false) := by
  rcases h.course with hvoid | ⟨m, hm, hcourse⟩
  · have hno := (hvoid a (hf ▸ List.mem_cons_self)).2
    rw [hsaves] at hno
    cases hno
  · refine ⟨m, hm, ?_⟩
    rw [hf] at hcourse
    generalize hl : a :: rest = l at hcourse
    cases hcourse with
    | writes hw =>
      cases hw with
      | here _ => obtain ⟨rfl, -⟩ := List.cons.inj hl; cases hsaves
      | later hvoid _ => obtain ⟨rfl, -⟩ := List.cons.inj hl; rw [hvoid.2] at hsaves; cases hsaves
    | looks hlooks _ _ =>
      obtain ⟨rfl, -⟩ := List.cons.inj hl
      cases a with
      | writeUpstream o ms => cases hlooks
      | setHidden x ms => cases hlooks
      | savepointReady bind => cases hlooks
      | establishSavepoint => cases hlooks
      | _ => cases hsaves
    | saves _ hgap hw => obtain ⟨rfl, rfl⟩ := List.cons.inj hl; exact ⟨hw, hgap⟩
    | later hvoid _ => obtain ⟨rfl, -⟩ := List.cons.inj hl; rw [hvoid.2] at hsaves; cases hsaves

theorem Awaiting.flight_of_sets (h : Awaiting D w) (hr : Relaying D w) (hf : w.front = a :: rest)
    (hsets : a.sets = true) : w.flight D = [] ∧ midBatch (w.sent.take (w.read - 1)) = false := by
  have hsaves : a.saves = true := by
    cases a with
    | writeUpstream o ms => cases o <;> first | rfl | cases hsets
    | setHidden x ms => rfl
    | _ => cases hsets
  obtain ⟨m, -, -, hgap⟩ := hr.writes_of_saves hf hsaves
  have hnoted := h.noted
  rw [if_neg (by simp [hf]), hgap hsets] at hnoted
  exact ⟨h.early ⟨a, hf ▸ List.mem_cons_self, .inr hsaves⟩ hnoted.symm, hnoted.symm⟩

theorem Awaiting.gapped (h : Awaiting D w) (hr : Relaying D w) (ht : Threads w) (hat : Attributed w)
    (l : Label U) : Gap l w := by
  have hback := hr.hiddenWrites_back ht
  constructor
  · intro x hx
    obtain ⟨a, hact, hset⟩ := Option.bind_eq_some_iff.1 hx
    obtain ⟨ms, rfl⟩ : ∃ ms, a = .setHidden x ms := by
      cases a with
      | setHidden y ms => obtain rfl := Option.some.inj hset; exact ⟨ms, rfl⟩
      | _ => cases hset
    cases l with
    | front now jobID =>
      obtain ⟨rest, hf⟩ := List.head?_eq_some_iff.1 hact
      obtain ⟨hflight, -⟩ := h.flight_of_sets hr hf rfl
      obtain ⟨hline, hclear⟩ := World.line_of_flight hflight
      obtain ⟨m, -, hw, -⟩ := hr.writes_of_saves hf rfl
      have hwrites : w.hiddenWrites = [] := by
        rw [World.hiddenWrites, hback, hf, List.append_nil]
        exact hw.hiddenWrite
      refine ⟨?_, hline⟩
      cases hat with
      | idle hnone => exact hnone
      | armed _ _ hsome => rw [hwrites] at hsome; cases hsome
      | running _ hleads => rw [hline] at hleads; cases hleads
      | ending _ _ _ _ hsome => rw [hclear] at hsome; cases hsome
    | back =>
      obtain ⟨rest, hb⟩ := List.head?_eq_some_iff.1 hact
      exact absurd rfl ((hr.back_quiet ht _ (hb ▸ List.mem_cons_self)).2 x ms)
    | _ => cases hact
  · intro o ho
    obtain ⟨a, hact, hwrite⟩ := Option.bind_eq_some_iff.1 ho
    obtain ⟨ms, rfl⟩ : ∃ ms, a = .writeUpstream o ms := by
      cases a with
      | writeUpstream o' ms => obtain rfl := Option.some.inj hwrite; exact ⟨ms, rfl⟩
      | _ => cases hwrite
    cases l with
    | front now jobID =>
      obtain ⟨rest, hf⟩ := List.head?_eq_some_iff.1 hact
      cases o with
      | client k =>
        right
        rw [World.hiddenWrites, hback, hf, List.append_nil]
        exact List.filterMap_eq_nil_iff.2
          (List.forall_mem_cons.2 ⟨rfl, fun b hb => (hr.rest_of_write ht hf b hb).hiddenWrite⟩)
      | hidden p k => exact .inl ⟨p, k, rfl⟩
      | failure k =>
        obtain hcalm | ⟨_, hcalm⟩ := hr.front _ (hf ▸ List.mem_cons_self) <;> cases hcalm
    | back =>
      obtain ⟨rest, hb⟩ := List.head?_eq_some_iff.1 hact
      exact absurd rfl ((hr.back_quiet ht _ (hb ▸ List.mem_cons_self)).1 o ms)
    | _ => cases hact

theorem Relaying.own (h : Relaying D w) (hat : Attributed w) (hb : w.back = a :: rest) :
    ∀ r, a = .consumeHidden r → (w.sess.hidden = none ↔ r.origin.isClient = true) := by
  rintro r rfl
  have hcalm : (Act.consumeHidden r).Calm D := h.back _ (hb ▸ List.mem_cons_self)
  have hand : r ∈ w.hand := List.mem_filterMap.2 ⟨_, hb ▸ List.mem_cons_self, rfl⟩
  have hline : ∃ more, w.line = r.item :: more := by
    simp [World.line, World.hand, hb, Act.unplaced]
  obtain ⟨more, hline⟩ := hline
  cases hat with
  | idle hnone hno =>
    have hclient := hcalm.1.resolve_right (hno r.item (hline ▸ List.mem_cons_self))
    exact iff_of_true hnone hclient
  | armed _ hnil => simp [hline] at hnil
  | @running x hsome hleads =>
    obtain ⟨horigin, -⟩ := (hline ▸ hleads).head
    have hhidden : r.origin = x.origin := horigin
    refine iff_of_false (by simp [hsome]) ?_
    rw [hhidden]
    exact Bool.false_ne_true
  | ending _ _ _ hnil => rw [hnil] at hand; cases hand

theorem exec_up_calm {now : Nat} {jobID : String} {s : Session} (ha : a.Calm D) :
    ∀ q ∈ (a.exec D now jobID s).up, q.origin.isClient = true ∨ q.origin.IsHidden := by
  intro q hq
  cases a with
  | writeUpstream o ms =>
    obtain ⟨m, -, rfl⟩ := List.mem_map.1 hq
    exact ha.imp id fun ⟨k, hk⟩ => ⟨.savepoint, k, hk⟩
  | _ =>
    rw [exec_up (by simp)] at hq
    cases hq

theorem pumpFrontend_calm {n : Nat} {m : Frontend} (hm : Ordinary D m) :
    ∀ b ∈ pumpFrontend n m, b.Calm D := by
  unfold pumpFrontend
  split
  · simp [Origin.isClient]
  · simp
  · simpa using hm

theorem backMode_tracker (h : BackMode (a :: rest)) : ∀ k m info, a ≠ .admitKinds k m info := by
  rintro k m info rfl
  cases h with
  | relaying h => exact h _ List.mem_cons_self
  | repairing h => cases h _ List.mem_cons_self with | code h => exact h

theorem frontAct_own {n : Nat} {m : Frontend} (h : FrontAct n m a) : ∀ r, a ≠ .consumeHidden r := by
  rintro r rfl
  cases h with
  | code h => exact h

theorem Underway.mono {gap gap' : Prop} {n : Nat} {m : Frontend} {l : List Act} (hgap : gap → gap')
    (h : Underway D gap n m l) : Underway D gap' n m l := by
  induction h with
  | writes h => exact .writes h
  | looks ha hp hl => exact .looks ha hp hl
  | saves ha hset h => exact .saves ha (hgap ∘ hset) h
  | later ha _ ih => exact .later ha ih

theorem Layout.note_last {m : Frontend} {t : Tag} (h : Layout m (.noteBatchState t :: rest)) :
    rest = [] := by
  generalize hl : Act.noteBatchState t :: rest = l at h
  cases h with
  | unread => cases hl
  | @handling body hbody =>
    cases body with
    | nil => exact (List.cons.inj hl).2
    | cons b body =>
      obtain ⟨rfl, -⟩ := List.cons.inj hl
      cases hbody.notes _ List.mem_cons_self
  | leaving _ hall =>
    subst hl
    simpa using hall _ List.mem_cons_self

theorem Relaying.moves {l : Label U} (h : Relaying D w) (ht : Threads w) (hat : Attributed w)
    (hl : Unrefused D l w) (hi : Uninjected D l w) (hm : Moves D l w w') : Relaying D w' := by
  have hkeep {n : Nat} {m : Frontend} (hm' : w.sent[n]? = some m) : w'.sent[n]? = some m :=
    hm.sent_keep hm'
  cases hm with
  | @send _ m =>
    refine { h with inbox := fun m' hm' => ?_, course := ?_, layout := fun hf => ?_ }
    · rcases List.mem_append.1 hm' with hm' | hm'
      · exact h.inbox m' hm'
      · rw [List.mem_singleton.1 hm']
        exact (hl.client m rfl).2
    · exact h.course.imp id fun ⟨m', hm', hcourse⟩ => ⟨m', hkeep hm', hcourse⟩
    · obtain ⟨m', hm', hlayout⟩ := h.layout hf
      exact ⟨m', hkeep hm', hlayout⟩
  | @readClient _ m rest hf hinbox hc =>
    have hm : w.sent[w.read]? = some m := by
      rw [← List.head?_drop, ht.inbox, hinbox, List.head?_cons]
    have hordinary : Ordinary D m := h.inbox m (hinbox ▸ List.mem_cons_self)
    exact { h with
      front := pumpFrontend_calm hordinary
      inbox := fun m' hm' => h.inbox m' (hinbox ▸ List.mem_cons_of_mem m hm')
      course := .inr ⟨m, hm, pumpFrontend_underway w.read m⟩
      layout := fun _ => ⟨m, hm, pumpFrontend_layout w.read m⟩ }
  | @front _ now jobID a rest hf =>
    obtain ⟨m, hm, ha⟩ := ht.head hf
    have hcalm : a.Calm D := h.front a (hf ▸ List.mem_cons_self)
    have hgrant : a.Granted D now w.sess := hl.granted hi (by simp [Label.act, hf]) fun _ _ _ _ =>
      ⟨jobID, rfl⟩
    obtain ⟨hsess, hnext⟩ : (a.exec D now jobID w.sess).sess.Calm ∧ _ :=
      exec_calm h.sess hcalm hgrant fun r hr => absurd hr (frontAct_own ha r)
    refine { h with sess := hsess, front := fun b hb => ?_, toUp := fun q hq => ?_, course := ?_,
                    layout := fun hne => ?_ }
    · exact (List.mem_append.1 hb).elim (hnext b) fun hb =>
        h.front b (hf ▸ List.mem_cons_of_mem a hb)
    · exact (List.mem_append.1 hq).elim (h.toUp q) (exec_up_calm hcalm q)
    · rcases h.course with hvoid | ⟨m', hm', hcourse⟩
      · left
        intro b hb
        change b ∈ (a.exec D now jobID w.sess).next ++ rest at hb
        rw [(exec_void hcalm (hvoid a (hf ▸ List.mem_cons_self)) ha).1] at hb
        exact hvoid b (hf ▸ List.mem_cons_of_mem a hb)
      · refine (Underway.exec h.sess hcalm hgrant ha (hf ▸ hcourse)).imp id fun hcourse' =>
          ⟨m', hm', hcourse'.mono ?_⟩
        intro hopen
        change (a.exec D now jobID w.sess).sess.extendedBatchOpen = false
        rw [exec_extendedBatchOpen, hopen]
        -- behind the note of its message nothing is left to be written
        rintro t rfl
        obtain ⟨m'', -, hlayout⟩ := h.layout (by simp [hf])
        rw [hf] at hlayout hcourse
        obtain ⟨pre, hstamps, -⟩ := hcourse.stamps
        simp [hlayout.note_last, Act.stamps] at hstamps
    · obtain ⟨m', hm', hlayout⟩ := h.layout (by simp [hf])
      obtain rfl : m' = m := Option.some.inj (hm'.symm.trans hm)
      exact ⟨m', hm, ((hf ▸ hlayout).exec ha).resolve_left hne⟩
  | @readUpstream _ r rest hb hfrom _ =>
    refine { h with back := fun b hb => ?_, fromUp := fun r' hr' => h.fromUp r' (hfrom ▸
      List.mem_cons_of_mem r hr') }
    rcases mem_pumpBackend hb with rfl | rfl
    · trivial
    · exact h.fromUp r (hfrom ▸ List.mem_cons_self)
  | @back _ a rest hb =>
    have hmode : BackMode (a :: rest) := hb ▸ ht.back
    have hcalm : a.Calm D := h.back a (hb ▸ List.mem_cons_self)
    have hgrant : a.Granted D 0 w.sess :=
      hl.granted hi (by simp [Label.act, hb]) fun k m info heq =>
        absurd heq (backMode_tracker hmode k m info)
    obtain ⟨hsess, hnext⟩ : (a.exec D 0 "" w.sess).sess.Calm ∧ _ :=
      exec_calm h.sess hcalm hgrant fun r hr => (h.own hat hb r hr).1
    have hopen : (a.exec D 0 "" w.sess).sess.extendedBatchOpen = w.sess.extendedBatchOpen :=
      exec_extendedBatchOpen (backMode_not_notes hmode)
    refine { h with sess := hsess, back := fun b hb' => ?_, toUp := fun q hq => ?_, course := ?_ }
    · exact (List.mem_append.1 hb').elim (hnext b) fun hb' =>
        h.back b (hb ▸ List.mem_cons_of_mem a hb')
    · exact (List.mem_append.1 hq).elim (h.toUp q) (exec_up_calm hcalm q)
    · exact h.course.imp id fun ⟨m, hm, hcourse⟩ => ⟨m, hm, hcourse.mono hopen.trans⟩
  | @answer _ c q rest hq =>
    refine { h with fromUp := fun r hr => ?_, toUp := fun q' hq' => h.toUp q' (hq ▸
      List.mem_cons_of_mem q hq') }
    rcases List.mem_append.1 hr with hr | hr
    · exact h.fromUp r hr
    · obtain ⟨b, hb, rfl⟩ := List.mem_map.1 hr
      exact ⟨h.toUp q (hq ▸ List.mem_cons_self),
        hl.upstream (q, b) (by simpa [Label.answers, hq] using hb)⟩

theorem closings_hidden {l : List (Bool × Bool)} (h : ∀ x ∈ l, x.1 = false) : closings id l = 0 :=
  List.countP_eq_zero.2 fun x hx => by simp [h x hx]

theorem drawsReady_of_road {l : List Frontend}
    (h : closings id (l.map fun m => (true, m.drawsReady)) = 0) :
    ∀ m ∈ l, m.drawsReady = false := by
  intro m hm
  by_contra hdraws
  have hpos : 0 < closings id (l.map fun m => (true, m.drawsReady)) :=
    closings_pos (List.mem_map.2 ⟨m, hm, by simpa using hdraws⟩) rfl
  omega

theorem quiet_message {m : Frontend} (h : m.drawsReady = false) :
    m.tag.extended = true ∨ m = .terminate ∨ m = .other := by
  cases m with
  | malformed t => cases t <;> first | exact .inl rfl | cases h
  | terminate => exact .inr (.inl rfl)
  | other => exact .inr (.inr rfl)
  | _ => first | exact .inl rfl | cases h

theorem midBatch_of_quiet {before : List Frontend} {m : Frontend} (hm : m.drawsReady = false)
    (hlast : m ≠ .terminate) (hcopies : m = .other → midBatch before = true) :
    midBatch (before ++ [m]) = true := by
  rw [midBatch_snoc]
  rcases quiet_message hm with hext | hterm | hother
  · rw [if_pos hext]
  · exact absurd hterm hlast
  · have hopen := hcopies hother
    subst hother
    exact hopen

theorem pumpFrontend_stamps (n : Nat) (m : Frontend) :
    (pumpFrontend n m).flatMap (Act.stamps D) = [(true, m.drawsReady)] := by
  unfold pumpFrontend
  split <;> rfl

theorem pumpBackend_stamps (r : Reply) : (pumpBackend r).flatMap (Act.stamps D) = [r.stamp] := by
  unfold pumpBackend Reply.stamp
  split <;> cases hc : r.origin.isClient <;> simp [Act.stamps, Delivery.stamp, hc]

theorem World.flight_applyFront (e : Effect) :
    (w.applyFront rest e).flight D = w.flight D ++ e.up.map Request.stamp := by
  simp [World.flight, World.applyFront]

theorem Awaiting.send {m : Frontend} (h : Awaiting D w) (ht : Threads w) (hm : Patient m w) :
    Awaiting D { w with inbox := w.inbox ++ [m], sent := w.sent ++ [m] } := by
  have hread := ht.read_le
  have hroad : closings id (w.road D) = 0 := by
    have hbalanced := h.balanced
    have howed := hm.owed
    omega
  have hnil (hmid : midBatch w.sent = false) : w.road D = [] := (h.closed hmid hm.last).eq_nil hroad
  have hadd : World.road D { w with inbox := w.inbox ++ [m], sent := w.sent ++ [m] } = w.road D ++
      [(true, m.drawsReady)] := by
    simp [World.road, World.flight]
  have htake {k : Nat} (hk : k ≤ w.read) : (w.sent ++ [m]).take k = w.sent.take k :=
    List.take_append_of_le_length (hk.trans hread)
  have hparts : closings id (w.flight D ++ w.front.flatMap (Act.stamps D)) = 0 ∧
      closings id (w.inbox.map fun m => (true, m.drawsReady)) = 0 := by
    rw [World.road, ← List.append_assoc, closings_append] at hroad
    omega
  exact {
    sends := h.sends.snoc ⟨hm.last, hm.copies⟩
    balanced := by
      rw [hadd, closings_append, closings_cons, closings_nil]
      change (w.sent ++ [m]).countP _ = _
      rw [List.countP_append, h.balanced, List.countP_singleton]
      cases m.drawsReady <;> simp [Nat.add_assoc]
    closed := fun hmid hlast => by
      rw [hadd]
      cases hdraws : m.drawsReady with
      | true => exact .snoc _ rfl
      | false =>
        have hopen := midBatch_of_quiet hdraws (fun hterm => hlast (by simp [hterm])) hm.copies
        exact absurd hmid (by rw [hopen]; simp)
    alone := fun _ => hparts.1
    single := fun m' hm' => drawsReady_of_road hparts.2 m' (by simpa using hm')
    early := fun hlooks hmid =>
      h.early hlooks ((congrArg midBatch (htake (Nat.sub_le _ _))).symm.trans hmid)
    later := fun _ hmid => by
      rw [htake (Nat.le_refl _)] at hmid
      by_cases hinbox : w.inbox = []
      · have hall : w.sent.take w.read = w.sent := by
          rw [List.take_of_length_le]
          rw [← ht.inbox, List.drop_eq_nil_iff] at hinbox
          exact hinbox
        have hnil := hnil (hall ▸ hmid)
        rw [World.road, ← List.append_assoc, List.append_eq_nil_iff] at hnil
        exact hnil.1
      · exact h.later hinbox hmid
    noted := by
      have hle : (if w.front = [] then w.read else w.read - 1) ≤ w.read := by split <;> omega
      exact h.noted.trans (congrArg midBatch (htake hle).symm) }

theorem Awaiting.readClient {m : Frontend} {ms : List Frontend} (h : Awaiting D w) (ht : Threads w)
    (hf : w.front = []) (hi : w.inbox = m :: ms) :
    Awaiting D { w with front := pumpFrontend w.read m, inbox := ms, read := w.read + 1 } := by
  have hm : w.sent[w.read]? = some m := by rw [← List.head?_drop, ht.inbox, hi, List.head?_cons]
  have hne : w.inbox ≠ [] := by simp [hi]
  have hroad : World.road D
      { w with front := pumpFrontend w.read m, inbox := ms, read := w.read + 1 } = w.road D := by
    simp [World.road, World.flight, hf, hi, pumpFrontend_stamps]
  have hsplit : w.sent = w.sent.take w.read ++ m :: ms := by
    rw [← hi, ← ht.inbox, List.take_append_drop]
  have hquiet (hms : ms ≠ []) : m.drawsReady = false := by
    refine h.single m ?_
    rw [hi, List.dropLast_cons_of_ne_nil hms]
    exact List.mem_cons_self
  have halone := h.alone hne
  rw [hf, List.flatMap_nil, List.append_nil] at halone
  exact {
    sends := h.sends
    balanced := by rw [hroad]; exact h.balanced
    closed := fun hmid hlast => by rw [hroad]; exact h.closed hmid hlast
    alone := fun hms => by
      change closings id (w.flight D ++ (pumpFrontend w.read m).flatMap (Act.stamps D)) = 0
      rw [pumpFrontend_stamps, closings_append, halone, hquiet hms]
      rfl
    single := fun m' hm' => by
      refine h.single m' ?_
      have hms : ms ≠ [] := by rintro rfl; cases hm'
      rw [hi, List.dropLast_cons_of_ne_nil hms]
      exact List.mem_cons_of_mem m hm'
    early := fun _ hmid => by
      have hlater := h.later hne hmid
      rw [hf, List.flatMap_nil, List.append_nil] at hlater
      exact hlater
    later := fun hms hmid => by
      -- a message is left to be read, so this one is neither the last nor the end of a batch
      exfalso
      obtain ⟨m', ms', rfl⟩ := List.exists_cons_of_ne_nil hms
      have hlast : m ≠ .terminate := by
        rintro rfl
        refine (h.sends (w.sent.take w.read ++ [.terminate]) m' ms' (by simpa using hsplit)).1
          (by simp)
      have hopen := midBatch_of_quiet (hquiet hms) hlast (h.sends _ m (m' :: ms') hsplit).2
      change midBatch (w.sent.take (w.read + 1)) = false at hmid
      rw [List.take_add_one, hm, Option.toList_some, hopen] at hmid
      cases hmid
    noted := by
      have hnoted := h.noted
      rw [if_pos hf] at hnoted
      rw [if_neg (pumpFrontend_ne_nil w.read m)]
      exact hnoted }

theorem Act.Void.looks (h : a.Void D) : a.looks = false := by
  have hpasses := h.passesOn
  cases a with
  | droppingUntilSync k m => cases hpasses
  | handleSync k => cases hpasses
  | aborted k m => cases hpasses
  | admitKinds k m info => cases hpasses
  | occAdjudicated k m info => cases hpasses
  | occCommitConflict k m info => cases hpasses
  | _ => rfl

theorem looks_up {now : Nat} {jobID : String} {s : Session} (h : a.looks = true) :
    (a.exec D now jobID s).up = [] := by
  refine exec_up ?_
  rintro o ms rfl
  cases h

theorem Writes.done {n : Nat} {m : Frontend} {l : List Act} (h : Writes D n m l) :
    ∀ b ∈ l, b.looks = false ∧ b.saves = false := by
  induction h with
  | here hl => exact List.forall_mem_cons.2 ⟨⟨rfl, rfl⟩, fun b hb => ⟨(hl b hb).looks, (hl b hb).2⟩⟩
  | later ha _ ih => exact List.forall_mem_cons.2 ⟨⟨ha.looks, ha.2⟩, ih⟩

theorem Underway.unwritten {now : Nat} {jobID : String} {s : Session} {gap : Prop} {n k : Nat}
    {m m' : Frontend} {b : Act} (h : Underway D gap n m (a :: rest)) (ha : a.Calm D)
    (hfront : FrontAct k m' a) (hb : b ∈ (a.exec D now jobID s).next ++ rest)
    (hopen : b.looks = true ∨ b.saves = true) :
    (∃ c ∈ a :: rest, c.looks = true ∨ c.saves = true) ∧ (a.exec D now jobID s).up = [] := by
  have hdone {l : List Act} (hl : ∀ c ∈ l, c.looks = false ∧ c.saves = false)
      (hb : b ∈ l) : False := by
    obtain ⟨hlooks, hsaves⟩ := hl b hb
    rw [hlooks, hsaves] at hopen
    simp at hopen
  have hskip (hvoid : a.Void D) : b ∈ rest ∧ (a.exec D now jobID s).up = [] := by
    obtain ⟨hnext, hup, -⟩ : (a.exec D now jobID s).next = [] ∧ _ := exec_void ha hvoid hfront
    rw [hnext, List.nil_append] at hb
    exact ⟨hb, hup⟩
  generalize hl : a :: rest = l at h
  cases h with
  | writes h =>
    cases h with
    | here hvoid =>
      obtain ⟨rfl, rfl⟩ := List.cons.inj hl
      exact (hdone (fun c hc => ⟨(hvoid c hc).looks, (hvoid c hc).2⟩) hb).elim
    | later hvoid h =>
      obtain ⟨rfl, rfl⟩ := List.cons.inj hl
      exact (hdone h.done (hskip hvoid).1).elim
  | looks hlooks _ _ =>
    obtain ⟨rfl, rfl⟩ := List.cons.inj hl
    exact ⟨⟨a, List.mem_cons_self, .inl hlooks⟩, looks_up hlooks⟩
  | later hvoid _ =>
    obtain ⟨rfl, rfl⟩ := List.cons.inj hl
    exact ⟨⟨b, List.mem_cons_of_mem a (hskip hvoid).1, hopen⟩, (hskip hvoid).2⟩
  | saves hsaves _ h =>
    obtain ⟨rfl, rfl⟩ := List.cons.inj hl
    refine ⟨⟨a, List.mem_cons_self, .inr hsaves⟩, ?_⟩
    cases a with
    | writeUpstream o ms => exact (hdone h.done hb).elim
    | _ => exact exec_up (by simp)

theorem noted_front {now : Nat} {jobID : String} {m : Frontend} (hr : Relaying D w) (ht : Threads w)
    (hf : w.front = a :: rest)
    (hnoted : w.sess.extendedBatchOpen = midBatch (w.sent.take (w.read - 1)))
    (hm : w.sent[w.read - 1]? = some m) (hlayout : Layout m (a :: rest)) :
    (a.exec D now jobID w.sess).sess.extendedBatchOpen =
      midBatch (w.sent.take (if (a.exec D now jobID w.sess).next ++ rest =
          [] then w.read else w.read - 1)) := by
  obtain ⟨-, hpos, -, -⟩ := ht.front (by simp [hf])
  have htake := take_current hpos hm
  generalize hl : a :: rest = l at hlayout
  cases hlayout with
  | unread =>
    obtain ⟨rfl, rfl⟩ := List.cons.inj hl
    rw [exec_extendedBatchOpen (by simp), if_neg (by simp [hr.sess.skipSync]), hnoted]
  | @handling body hbody =>
    cases body with
    | nil =>
      obtain ⟨rfl, rfl⟩ := List.cons.inj hl
      have hnil : ((Act.noteBatchState m.tag).exec D now jobID w.sess).next ++ [] = [] := by
        dsimp only [Act.exec]
        (repeat' split) <;> rfl
      rw [if_pos hnil, htake, midBatch_snoc, ← hnoted]
      dsimp only [Act.exec]
      (repeat' split) <;> rfl
    | cons b body =>
      obtain ⟨rfl, rfl⟩ := List.cons.inj hl
      have hne : ∀ t, a ≠ .noteBatchState t := by
        rintro t rfl
        cases hbody.notes _ List.mem_cons_self
      rw [exec_extendedBatchOpen hne, hnoted, if_neg (by simp)]
  | leaving hterm hall =>
    subst hterm hl
    have hne : ∀ t, a ≠ .noteBatchState t := by
      rintro t rfl
      simpa using hall _ List.mem_cons_self
    rw [exec_extendedBatchOpen hne, hnoted]
    split
    · rw [htake, midBatch_snoc]
      rfl
    · rfl

theorem Awaiting.front {now : Nat} {jobID : String} (h : Awaiting D w) (hr : Relaying D w)
    (ht : Threads w) (hf : w.front = a :: rest) (hgrant : a.Granted D now w.sess) :
    Awaiting D (w.applyFront rest (a.exec D now jobID w.sess)) := by
  obtain ⟨m, hm, ha⟩ := ht.head hf
  have hcalm : a.Calm D := hr.front a (hf ▸ List.mem_cons_self)
  obtain ⟨⟨pre, hstamps, hpre⟩, -, hclient⟩ : Carries D a (a.exec D now jobID w.sess) :=
    exec_carries hr.sess hcalm hgrant ha
  have hflight : (w.applyFront rest (a.exec D now jobID w.sess)).flight D =
      w.flight D ++ (a.exec D now jobID w.sess).up.map Request.stamp := World.flight_applyFront _
  have hboth : (w.applyFront rest (a.exec D now jobID w.sess)).flight D ++
      (w.applyFront rest (a.exec D now jobID w.sess)).front.flatMap (Act.stamps D) =
      w.flight D ++ (pre ++ (a :: rest).flatMap (Act.stamps D)) := by
    change _ ++ ((a.exec D now jobID w.sess).next ++ rest).flatMap (Act.stamps D) = _
    rw [hflight, List.flatMap_append, List.flatMap_cons, ← List.append_assoc pre, ← hstamps]
    simp only [List.append_assoc]
  have hroad : (w.applyFront rest (a.exec D now jobID w.sess)).road D =
      w.flight D ++ (pre ++ ((a :: rest).flatMap (Act.stamps D) ++ w.inbox.map fun m =>
          (true, m.drawsReady))) := by
    rw [World.road, ← List.append_assoc, hboth]
    simp [World.applyFront]
  have hold : w.road D = w.flight D ++ ((a :: rest).flatMap (Act.stamps D) ++ w.inbox.map fun m =>
      (true, m.drawsReady)) := by
    rw [World.road, hf]
  have hcount := closings_hidden hpre
  -- only in front of a message that is on its way is something put in
  have hinsert : pre = [] ∨ (a :: rest).flatMap (Act.stamps D) ≠ [] := by
    rcases hr.course with hvoid | ⟨m', -, hcourse⟩
    · left
      obtain ⟨hnext, hup, -⟩ : (a.exec D now jobID w.sess).next = [] ∧ _ :=
        exec_void hcalm (hvoid a (hf ▸ List.mem_cons_self)) ha
      rw [hnext, hup] at hstamps
      exact (List.append_eq_nil_iff.1 hstamps.symm).1
    · right
      obtain ⟨_, hcourse, -⟩ := (hf ▸ hcourse : Underway D _ _ m' (a :: rest)).stamps
      simp [hcourse]
  exact {
    sends := h.sends
    balanced := by
      have hbalanced := h.balanced
      rw [hold] at hbalanced
      rw [hroad]
      change w.sent.countP _ = (w.got ++ (a.exec D now jobID w.sess).client).countP _ + _
      rw [hclient, List.append_nil, hbalanced]
      simp only [closings_append, hcount, Nat.zero_add]
    closed := fun hmid hlast => by
      have hsealed := h.closed hmid hlast
      rw [hold] at hsealed
      rw [hroad]
      rcases hinsert with rfl | hne
      · exact hsealed
      · exact hsealed.insert (List.append_ne_nil_of_left_ne_nil hne _)
    alone := fun hne => by
      have halone := h.alone hne
      rw [hf] at halone
      rw [hboth]
      simp only [closings_append, hcount] at halone ⊢
      omega
    single := h.single
    early := by
      rintro ⟨b, hb, hopen⟩ hmid
      rcases hr.course with hvoid | ⟨m', -, hcourse⟩
      · obtain ⟨hnext, -, -⟩ : (a.exec D now jobID w.sess).next = [] ∧ _ :=
          exec_void hcalm (hvoid a (hf ▸ List.mem_cons_self)) ha
        change b ∈ (a.exec D now jobID w.sess).next ++ rest at hb
        rw [hnext] at hb
        have hb := hvoid b (hf ▸ List.mem_cons_of_mem a hb)
        rw [hb.looks, hb.2] at hopen
        simp at hopen
      · obtain ⟨hlooks, hup⟩ : _ ∧ (a.exec D now jobID w.sess).up = [] :=
          Underway.unwritten (hf ▸ hcourse : Underway D _ _ m' (a :: rest)) hcalm ha hb hopen
        rw [hflight, hup, h.early (hf ▸ hlooks) hmid]
        rfl
    later := fun hne hmid => by
      have hlater := h.later hne hmid
      rw [hf, List.append_eq_nil_iff] at hlater
      rw [hboth, hlater.1, hlater.2, hinsert.resolve_right (not_not.2 hlater.2)]
      rfl
    noted := by
      obtain ⟨m', hm', hlayout⟩ := hr.layout (by simp [hf])
      have hnoted := h.noted
      rw [if_neg (by simp [hf])] at hnoted
      exact noted_front hr ht hf hnoted hm' (hf ▸ hlayout) }

theorem Awaiting.readUpstream {rs : List Reply} (h : Awaiting D w) (hb : w.back = [])
    (hr : w.fromUp = r :: rs) : Awaiting D { w with back := pumpBackend r, fromUp := rs } := by
  have hflight : World.flight D { w with back := pumpBackend r, fromUp := rs } = w.flight D := by
    simp [World.flight, hb, hr, pumpBackend_stamps]
  have hroad : World.road D { w with back := pumpBackend r, fromUp := rs } = w.road D := by
    rw [World.road, hflight, World.road]
  exact { h with
    balanced := by rw [hroad]; exact h.balanced
    closed := by rw [hroad]; exact h.closed
    alone := by rw [hflight]; exact h.alone
    early := by rw [hflight]; exact h.early
    later := by rw [hflight]; exact h.later }

theorem Awaiting.answer {q : Request} {qs : List Request} {c : U.Choice} (h : Awaiting D w)
    (hq : w.toUp = q :: qs) : Awaiting D (w.applyAnswer q qs (U.answer w.up q.msg c)) := by
  have hexpands : Expands q.stamp
      (((U.answer w.up q.msg c).2.map (Reply.mk q.origin)).map Reply.stamp) := by
    have hmap := (expands_of_answers q.origin (U.answers w.up q.msg c)).map Origin.isClient
    rw [List.map_map] at hmap
    exact hmap
  generalize hpre : w.back.flatMap (Act.stamps D) ++ w.fromUp.map Reply.stamp = pre
  have hflight : w.flight D = pre ++ q.stamp :: qs.map Request.stamp := by
    rw [World.flight, hq, ← List.append_assoc, hpre, List.map_cons]
  have hflight' : (w.applyAnswer q qs (U.answer w.up q.msg c)).flight D =
      pre ++ (((U.answer w.up q.msg c).2.map (Reply.mk q.origin)).map Reply.stamp ++
          qs.map Request.stamp) := by
    rw [← hpre]
    simp [World.flight, World.applyAnswer]
  have hcount : closings id ((w.applyAnswer q qs (U.answer w.up q.msg c)).flight D) =
      closings id (w.flight D) := by
    rw [hflight, hflight', closings_append, closings_append, closings_append, hexpands.closings,
      closings_cons]
  have hne : w.flight D ≠ [] := by simp [hflight]
  exact { h with
    balanced := by
      have hbalanced := h.balanced
      rw [World.road, closings_append] at hbalanced ⊢
      rw [hcount]
      exact hbalanced
    closed := fun hmid hlast => by
      have hsealed := h.closed hmid hlast
      rw [World.road, hflight, List.append_assoc] at hsealed
      rw [World.road, hflight', List.append_assoc, List.append_assoc]
      exact hsealed.expand hexpands
    alone := fun hin => by
      have halone := h.alone hin
      rw [closings_append] at halone ⊢
      rw [hcount]
      exact halone
    early := fun hlooks hmid => absurd (h.early hlooks hmid) hne
    later := fun hin hmid => absurd (List.append_eq_nil_iff.1 (h.later hin hmid)).1 hne }

theorem backMode_passesOn {l : List Act} (h : BackMode l)
    (hl : ∀ a ∈ l, ∀ o ms, a ≠ .writeUpstream o ms) : ∀ a ∈ l, a.passesOn = [] := by
  intro a ha
  have hwrite := hl a ha
  cases h with
  | relaying hcode =>
    have hcode := hcode a ha
    cases a <;> first | rfl | exact hcode.elim
  | repairing hcode =>
    cases hcode a ha with
    | code hcode => cases a <;> first | rfl | exact hcode.elim
    | exchange => rfl
    | abort => rfl
  | _ =>
    simp only [List.mem_cons, List.not_mem_nil, or_false] at ha
    first | (subst ha; rfl) | (rcases ha with rfl | rfl <;> rfl)

theorem closings_delivers {l : List Act} (h : ∀ a ∈ l, a.passesOn = []) :
    closings id (l.flatMap (Act.stamps D)) = (l.flatMap (Act.delivers D)).countP
      (·.msg.isReady) := by
  induction l with
  | nil => rfl
  | cons a l ih =>
    have hhides : closings id (a.hides.map (Prod.mk false)) = 0 := closings_hidden (by simp)
    have hdelivers : closings id ((a.delivers D).map Delivery.stamp) = (a.delivers D).countP
        (·.msg.isReady) := by
      simp [closings, List.countP_map, Function.comp_def, Delivery.stamp]
    rw [List.flatMap_cons, List.flatMap_cons, closings_append, List.countP_append,
      ih fun b hb => h b (List.mem_cons_of_mem a hb), Act.stamps, h a List.mem_cons_self,
        List.map_nil, List.nil_append, closings_append, hhides, hdelivers, Nat.zero_add]

theorem Awaiting.back (h : Awaiting D w) (hr : Relaying D w) (ht : Threads w) (hat : Attributed w)
    (hb : w.back = a :: rest) (hr' : Relaying D (w.applyBack rest (a.exec D 0 "" w.sess)))
    (ht' : Threads (w.applyBack rest (a.exec D 0 "" w.sess))) :
    Awaiting D (w.applyBack rest (a.exec D 0 "" w.sess)) := by
  have hmode : BackMode (a :: rest) := hb ▸ ht.back
  have hcalm : a.Calm D := hr.back a (hb ▸ List.mem_cons_self)
  have hquiet := hr.back_quiet ht
  have hup : (a.exec D 0 "" w.sess).up = [] := exec_up (hquiet a (hb ▸ List.mem_cons_self)).1
  have hopen : (a.exec D 0 "" w.sess).sess.extendedBatchOpen = w.sess.extendedBatchOpen :=
    exec_extendedBatchOpen (backMode_not_notes hmode)
  have hdelivers : (a.exec D 0 "" w.sess).client ++ (a.exec D 0 "" w.sess).next.flatMap
      (Act.delivers D) = a.delivers D :=
    exec_delivers hr.sess hcalm hmode (hr.own hat hb)
  generalize hmore : w.fromUp.map Reply.stamp ++ w.toUp.map Request.stamp = more
  have hflight : w.flight D = a.stamps D ++ (rest.flatMap (Act.stamps D) ++ more) := by
    rw [World.flight, hmore, hb, List.flatMap_cons, List.append_assoc]
  have hflight' : (w.applyBack rest (a.exec D 0 "" w.sess)).flight D =
      (a.exec D 0 "" w.sess).next.flatMap (Act.stamps D) ++
          (rest.flatMap (Act.stamps D) ++ more) := by
    change ((a.exec D 0 "" w.sess).next ++ rest).flatMap (Act.stamps D) ++
      (w.fromUp.map Reply.stamp ++ (w.toUp ++ (a.exec D 0 "" w.sess).up).map Request.stamp) = _
    rw [hup, List.append_nil, hmore, List.flatMap_append, List.append_assoc]
  -- what is left of the act is the rest of the same item, or nothing
  have hless : ∃ pre, w.flight D = pre ++ (w.applyBack rest (a.exec D 0 "" w.sess)).flight D := by
    obtain hsame | hgone : (a.exec D 0 "" w.sess).next.flatMap (Act.stamps D) = a.stamps D ∨ _ :=
      exec_back_stamps hr.sess hcalm hmode (hr.own hat hb)
    · exact ⟨[], by rw [hflight, hflight', hsame]; rfl⟩
    · exact ⟨a.stamps D, by rw [hflight, hflight', hgone]; rfl⟩
  obtain ⟨pre, hless⟩ := hless
  have hcount : closings id (w.flight D) = (a.exec D 0 "" w.sess).client.countP (·.msg.isReady) +
      closings id ((w.applyBack rest (a.exec D 0 "" w.sess)).flight D) := by
    have hbefore : closings id (w.back.flatMap (Act.stamps D)) =
        (w.back.flatMap (Act.delivers D)).countP (·.msg.isReady) :=
      closings_delivers (backMode_passesOn ht.back fun b hb => (hquiet b hb).1)
    have hafter : closings id (((a.exec D 0 "" w.sess).next ++ rest).flatMap (Act.stamps D)) =
        (((a.exec D 0 "" w.sess).next ++ rest).flatMap (Act.delivers D)).countP (·.msg.isReady) :=
      closings_delivers (backMode_passesOn ht'.back fun b hb => (hr'.back_quiet ht' b hb).1)
    rw [hb] at hbefore
    simp only [List.flatMap_cons, List.flatMap_append, closings_append, List.countP_append,
      ← hdelivers] at hbefore hafter
    rw [hflight, hflight']
    simp only [closings_append]
    omega
  exact {
    sends := h.sends
    balanced := by
      have hbalanced := h.balanced
      rw [World.road, closings_append, hcount] at hbalanced
      rw [World.road, closings_append]
      change w.sent.countP _ = (w.got ++ (a.exec D 0 "" w.sess).client).countP _ +
        (_ + closings id (w.front.flatMap (Act.stamps D) ++ w.inbox.map fun m =>
          (true, m.drawsReady)))
      rw [List.countP_append]
      omega
    closed := fun hmid hlast => by
      have hsealed := h.closed hmid hlast
      rw [World.road, hless, List.append_assoc] at hsealed
      exact hsealed.of_append
    alone := fun hne => by
      have halone := h.alone hne
      rw [closings_append, hcount] at halone
      rw [closings_append]
      change _ + closings id (w.front.flatMap (Act.stamps D)) = 0
      omega
    single := h.single
    early := fun hlooks hmid => by
      have hearly := h.early hlooks hmid
      rw [hless] at hearly
      exact (List.append_eq_nil_iff.1 hearly).2
    later := fun hne hmid => by
      have hlater := h.later hne hmid
      rw [hless, List.append_assoc] at hlater
      exact (List.append_eq_nil_iff.1 hlater).2
    noted := hopen.trans h.noted }

theorem Awaiting.moves {l : Label U} (h : Awaiting D w) (hr : Relaying D w) (ht : Threads w)
    (hat : Attributed w) (hl : Unrefused D l w) (hi : Uninjected D l w) (hm : Moves D l w w') :
    Awaiting D w' := by
  have hr' := hr.moves ht hat hl hi hm
  have ht' := ht.moves hm
  cases hm with
  | @send _ m => exact h.send ht (hl.client m rfl).1
  | readClient hf hi _ => exact h.readClient ht hf hi
  | @front _ now jobID a rest hf =>
    exact h.front hr ht hf (hl.granted hi (by simp [Label.act, hf]) fun _ _ _ _ => ⟨jobID, rfl⟩)
  | readUpstream hb hr _ => exact h.readUpstream hb hr
  | back hb => exact h.back hr ht hat hb hr' ht'
  | answer hq => exact h.answer hq

def requests (ms : List Frontend) : List Request := ms.mapIdx fun n m => ⟨.client n, m⟩

structure Streams (D : Dialect) (w : World U) : Prop where
  delivered : w.got ++ (w.back.flatMap (Act.delivers D) ++ (w.fromUp.filter (·.origin.isClient)).map
    (deliver D)) = (w.said.filter (·.origin.isClient)).map (deliver D)
  passed : w.written.filter (·.origin.isClient) ++ w.front.flatMap Act.passesOn =
    requests (w.sent.take w.read)
  own : ∀ q ∈ w.written, q.origin.isClient = true ∨ q.msg = savepointQuery

theorem Streams.start : Streams D (World.start D U) where
  delivered := rfl
  passed := rfl
  own := by simp [World.start]

theorem pumpBackend_delivers (r : Reply) :
    (pumpBackend r).flatMap (Act.delivers D) = if r.origin.isClient then [deliver D r] else [] := by
  unfold pumpBackend
  split <;> simp

theorem exec_up_own {now : Nat} {jobID : String} {s : Session} {n : Nat} {m : Frontend}
    (h : FrontAct n m a) (ha : a.Calm D) :
    ∀ q ∈ (a.exec D now jobID s).up, q.origin.isClient = true ∨ q.msg = savepointQuery := by
  intro q hq
  cases a with
  | writeUpstream o ms =>
    obtain ⟨m', hm', rfl⟩ := List.mem_map.1 hq
    refine ha.imp id ?_
    rintro ⟨k, rfl⟩
    cases h with
    | code h => exact h.elim
    | savepoint => exact List.mem_singleton.1 hm'
  | _ =>
    rw [exec_up (by simp)] at hq
    cases hq

theorem Streams.moves {l : Label U} (h : Streams D w) (hr : Relaying D w) (ht : Threads w)
    (hat : Attributed w) (hl : Unrefused D l w) (hi : Uninjected D l w) (hm : Moves D l w w') :
    Streams D w' := by
  cases hm with
  | @send _ m =>
    have htake : (w.sent ++ [m]).take w.read = w.sent.take w.read :=
      List.take_append_of_le_length ht.read_le
    exact { h with passed := h.passed.trans (congrArg requests htake.symm) }
  | @readClient _ m ms hf hinbox _ =>
    have hm : w.sent[w.read]? = some m := by
      rw [← List.head?_drop, ht.inbox, hinbox, List.head?_cons]
    refine { h with passed := ?_ }
    have hpassed := h.passed
    rw [hf, List.flatMap_nil, List.append_nil] at hpassed
    have hcourse : Underway D False w.read m (pumpFrontend w.read m) :=
      pumpFrontend_underway w.read m
    change w.written.filter _ ++ (pumpFrontend w.read m).flatMap Act.passesOn =
      requests (w.sent.take (w.read + 1))
    rw [hcourse.passesOn, hpassed, List.take_add_one, hm, Option.toList_some, requests, requests,
      List.mapIdx_concat, List.length_take_of_le ht.read_le]
  | @front _ now jobID a rest hf =>
    obtain ⟨m, hm, ha⟩ := ht.head hf
    have hcalm : a.Calm D := hr.front a (hf ▸ List.mem_cons_self)
    have hgrant : a.Granted D now w.sess := hl.granted hi (by simp [Label.act, hf]) fun _ _ _ _ =>
      ⟨jobID, rfl⟩
    obtain ⟨-, hpasses, hclient⟩ : Carries D a (a.exec D now jobID w.sess) :=
      exec_carries hr.sess hcalm hgrant ha
    have hpassed := h.passed
    rw [hf, List.flatMap_cons, ← hpasses] at hpassed
    refine ⟨?_, ?_, fun q hq => (List.mem_append.1 hq).elim (h.own q) (exec_up_own ha hcalm q)⟩
    · change (w.got ++ (a.exec D now jobID w.sess).client) ++ _ = _
      rw [hclient, List.append_nil]
      exact h.delivered
    · change (w.written ++ (a.exec D now jobID w.sess).up).filter _ ++
        ((a.exec D now jobID w.sess).next ++ rest).flatMap Act.passesOn = _
      rw [List.filter_append, List.flatMap_append, List.append_assoc,
        ← List.append_assoc (List.filter _ (Effect.up _))]
      exact hpassed
  | @readUpstream _ r rs hb hfrom _ =>
    refine { h with delivered := ?_ }
    have hdelivered := h.delivered
    rw [hb, hfrom, List.flatMap_nil, List.nil_append] at hdelivered
    change w.got ++ ((pumpBackend r).flatMap (Act.delivers D) ++ _) = _
    rw [pumpBackend_delivers, ← hdelivered]
    cases hc : r.origin.isClient <;> simp [hc]
  | @back _ a rest hb =>
    have hmode : BackMode (a :: rest) := hb ▸ ht.back
    have hcalm : a.Calm D := hr.back a (hb ▸ List.mem_cons_self)
    have hup : (a.exec D 0 "" w.sess).up = [] :=
      exec_up (hr.back_quiet ht a (hb ▸ List.mem_cons_self)).1
    have hdelivers : (a.exec D 0 "" w.sess).client ++ (a.exec D 0 "" w.sess).next.flatMap
        (Act.delivers D) = a.delivers D :=
      exec_delivers hr.sess hcalm hmode (hr.own hat hb)
    have hdelivered := h.delivered
    rw [hb, List.flatMap_cons, ← hdelivers] at hdelivered
    refine ⟨?_, ?_, fun q hq => ?_⟩
    · change (w.got ++ (a.exec D 0 "" w.sess).client) ++
        (((a.exec D 0 "" w.sess).next ++ rest).flatMap (Act.delivers D) ++ _) = _
      rw [List.flatMap_append]
      simp only [List.append_assoc] at hdelivered ⊢
      exact hdelivered
    · change (w.written ++ (a.exec D 0 "" w.sess).up).filter _ ++ _ = _
      rw [hup, List.append_nil]
      exact h.passed
    · change q ∈ w.written ++ (a.exec D 0 "" w.sess).up at hq
      rw [hup, List.append_nil] at hq
      exact h.own q hq
  | @answer _ c q qs hq =>
    refine { h with delivered := ?_ }
    change w.got ++ (_ ++ ((w.fromUp ++ _).filter _).map _) = ((w.said ++ _).filter _).map _
    rw [List.filter_append, List.map_append, List.filter_append, List.map_append, ← h.delivered]
    simp only [List.append_assoc]
    rfl

end Worlds

section Transparency

variable {w : World U}

/-- A client that waits, and nothing that is refused. -/
def Unhindered (D : Dialect) (l : Label U) (w : World U) : Prop :=
  Unrefused D l w ∧ Uninjected D l w

instance (l : Label U) (w : World U) : Decidable (Unhindered D l w) :=
  inferInstanceAs (Decidable (_ ∧ _))

structure Transparent (D : Dialect) (w : World U) : Prop where
  threads : Threads w
  attributed : Attributed w
  relaying : Relaying D w
  awaiting : Awaiting D w
  streams : Streams D w

theorem Transparent.start : Transparent D (World.start D U) where
  threads := .start
  attributed := .idle rfl (by simp [World.line, World.hand, World.start]) rfl rfl
  relaying := .start
  awaiting := .start
  streams := .start

theorem Transparent.moves {l : Label U} {w' : World U} (h : Transparent D w) (hl : Unhindered D l w)
    (hm : Moves D l w w') : Transparent D w' where
  threads := h.threads.moves hm
  attributed := h.attributed.moves h.threads
    (h.awaiting.gapped h.relaying h.threads h.attributed l) hm
  relaying := h.relaying.moves h.threads h.attributed hl.1 hl.2 hm
  awaiting := h.awaiting.moves h.relaying h.threads h.attributed hl.1 hl.2 hm
  streams := h.streams.moves h.relaying h.threads h.attributed hl.1 hl.2 hm

theorem transparent (hw : Reach (system D U) (Unhindered D) w) : Transparent D w :=
  hw.invariant .start fun _ _ _ h hl hs => h.moves hl (moves_of_step hs)

def savedInsert : List (Label .any) :=
  lockStepInsert ++ List.flatten
    [[.answer ([.commandComplete "INSERT 0 1"], .active), .readUpstream], backs 6,
      [.readUpstream], backs 8]

/-- The client gets the upstream's answers to its own messages, in order, each as the session
makes it, and nothing else. -/
theorem got_answers (hw : Reach (system D U) (Unhindered D) w) :
    w.got <+: (w.said.filter (·.origin.isClient)).map (deliver D) ∧
      (w.back = [] → w.fromUp = [] →
          w.got = (w.said.filter (·.origin.isClient)).map (deliver D)) := by
  have hdelivered := (transparent hw).streams.delivered
  refine ⟨⟨_, hdelivered⟩, fun hb hfrom => ?_⟩
  rw [← hdelivered, hb, hfrom]
  simp

theorem got_answers_insert :
    let w := (system (.sample []) .any).dest (Unhindered (.sample [])) savedInsert
    w.said.length = 6 ∧ w.got.length = 4 ∧ w.got = (w.said.filter (·.origin.isClient)).map
        (deliver (.sample [])) :=
  ⟨by decide +kernel, by decide +kernel, (got_answers (Reach.dest _ _)).2 (by decide +kernel)
    (by decide +kernel)⟩

/-- The upstream gets the client's messages, in order and as they are.  All else it gets is
the savepoint's statement. -/
theorem written_messages (hw : Reach (system D U) (Unhindered D) w) :
    w.written.filter (·.origin.isClient) <+: requests w.sent ∧
      (w.front = [] → w.inbox = [] → w.written.filter (·.origin.isClient) = requests w.sent) ∧
      ∀ q ∈ w.written, q.origin.isClient = true ∨ q.msg = savepointQuery := by
  have h := transparent hw
  have hpassed := h.streams.passed
  refine ⟨?_, fun hf hi => ?_, h.streams.own⟩
  · have hread : requests (w.sent.take w.read) <+: requests w.sent := by
      refine ⟨(w.sent.drop w.read).mapIdx fun n m => ⟨.client (n + w.read), m⟩, ?_⟩
      rw [requests, requests]
      nth_rewrite 3 [← List.take_append_drop w.read w.sent]
      rw [List.mapIdx_append, List.length_take_of_le h.threads.read_le]
    exact List.IsPrefix.trans ⟨_, hpassed⟩ hread
  · have hall : w.sent.take w.read = w.sent := by
      rw [List.take_of_length_le]
      rw [← h.threads.inbox, List.drop_eq_nil_iff] at hi
      exact hi
    rw [hf, List.flatMap_nil, List.append_nil, hall] at hpassed
    exact hpassed

theorem written_messages_insert :
    let w := (system (.sample []) .any).dest (Unhindered (.sample [])) savedInsert
    w.written.length = 3 ∧
      w.written.filter (·.origin.isClient) = requests
          [.query "BEGIN", .query "INSERT INTO t VALUES (1)"] :=
  ⟨by decide +kernel, (written_messages (Reach.dest _ _)).2.1 (by decide +kernel)
    (by decide +kernel)⟩

/-- The savepoint is written while the upstream owes nothing, the session holds nothing for
the client, and no extended batch is open. -/
theorem savepoint_alone {l : Label U} {p : Purpose} {k : Nat} {ms : List Frontend}
    (hw : Reach (system D U) (Unhindered D) w)
    (hl : l.act w = some (.writeUpstream (.hidden p k) ms)) :
    ms = [savepointQuery] ∧ w.toUp = [] ∧ w.fromUp = [] ∧ w.back.flatMap (Act.delivers D) = [] ∧
      midBatch (w.sent.take (w.read - 1)) = false := by
  have h := transparent hw
  cases l with
  | front now jobID =>
    obtain ⟨rest, hf⟩ := List.head?_eq_some_iff.1 hl
    obtain ⟨hflight, hmid⟩ := h.awaiting.flight_of_sets h.relaying hf rfl
    rw [World.flight, List.append_eq_nil_iff, List.append_eq_nil_iff, List.map_eq_nil_iff,
      List.map_eq_nil_iff] at hflight
    obtain ⟨hback, hfrom, hto⟩ := hflight
    obtain ⟨m, -, ha⟩ := h.threads.head hf
    refine ⟨?_, hto, hfrom, List.flatMap_eq_nil_iff.2 fun a ha => ?_, hmid⟩
    · cases ha with
      | code ha => exact ha.elim
      | savepoint => rfl
    · have hstamps := List.flatMap_eq_nil_iff.1 hback a ha
      rw [Act.stamps, List.append_eq_nil_iff, List.append_eq_nil_iff,
        List.map_eq_nil_iff (f := Delivery.stamp)] at hstamps
      exact hstamps.2.2
  | back =>
    obtain ⟨rest, hb⟩ := List.head?_eq_some_iff.1 hl
    exact absurd rfl ((h.relaying.back_quiet h.threads _ (hb ▸ List.mem_cons_self)).1 _ ms)
  | _ => cases hl

def savingInsert : List (Label .any) :=
  List.flatten
    [[.send (.query "BEGIN"), .readClient], fronts 8,
      [.answer ([.commandComplete "BEGIN"], .active), .readUpstream],
      backs 6, [.readUpstream], backs 8, [.send (.query "INSERT INTO t VALUES (1)"), .readClient],
        fronts 9]

theorem savepoint_alone_insert :
    let w := (system (.sample []) .any).dest (Unhindered (.sample [])) savingInsert
    w.toUp = [] ∧ w.fromUp = [] ∧ w.back.flatMap (Act.delivers (.sample [])) = [] ∧
      midBatch (w.sent.take (w.read - 1)) = false :=
  have hl : (Label.front 0 "").act
    ((system (.sample []) .any).dest (Unhindered (.sample [])) savingInsert) =
      some (.writeUpstream (.hidden .savepoint 0) [savepointQuery]) := by decide +kernel
  (savepoint_alone (Reach.dest _ _) hl).2

end Transparency

end DsqlEmulator.Proxy
