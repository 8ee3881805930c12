import DsqlEmulator.Dues
import DsqlEmulator.Postgres.Transacts
import DsqlEmulator.Proxy.Intents
import Mathlib.Algebra.Ring.Nat

/-! What a transaction may have executed, by the session's count.  The session counts the
batches it admits to a transaction, and a record is kept of what the upstream executes. -/

namespace DsqlEmulator

def Kind.controls (kinds : List Kind) : Bool :=
  kinds.any fun k => k = .begin ∨ k = .commit ∨ k = .rollback

namespace Proxy

open Wire Occ Txn Runs Classify Postgres Dues

variable {U : Upstream} {D : Dialect} {parse : String → Option (List Statement)}

/-- `counted` holds the number of statements of each batch counted since the count last
started over, `credit` says how many of the client's `Bind` messages no `Execute` has
followed, `taken` how many conflicts were taken over in that time, and `refused` whose
the last one was.  `ran` says who had the upstream execute the statements of its
current transaction. -/
structure Tally where
  counted : List Nat := []
  credit : Nat := 0
  taken : Nat := 0
  ran : List (Origin × Statement) := []
  refused : Option Origin := none
  deriving DecidableEq, Repr

def Tally.credited (g : Tally) : List Frontend → Nat
  | [.bind _] => g.credit + 1
  | [.execute _] => g.credit - 1
  | _ => g.credit

def Tally.follow (g : Tally) (now : Nat) (s : Session) : Act → Tally
  | .writeUpstream (.client _) ms => { g with credit := g.credited ms }
  | .admitKinds _ _ info =>
    if (s.tracker.admitKinds info.kinds now).2 = none ∧
      .begin ∈ info.kinds then { g with credit := 0, taken := 0 } else g
  | .countTxnStatement kinds =>
    { g with counted := if Kind.controls kinds then [] else g.counted ++ [max 1 kinds.length] }
  | .occIntercept o _ inTxn =>
    if (s.takesOver inTxn).isSome then { g with taken := g.taken + 1, refused := some o } else g
  | .noteTxStatus st => if st = .idle then { g with counted := [], taken := 0 } else g
  | _ => g

def Label.now : Label U → Nat
  | .front now _ => now
  | _ => 0

def Label.serves (w : World U) : Label U → Option (Request × U.Choice)
  | .answer c => w.toUp.head?.map (·, c)
  | _ => none

def Tally.note (T : Transacts U parse) (l : Label U) (w : World U) (g : Tally) : Tally :=
  match l.act w, l.serves w with
  | some a, _ => g.follow l.now w.sess a
  | _, some (q, c) => { g with ran := T.entered q.origin w.up q.msg c g.ran }
  | _, _ => g

def World.Silent (w : World U) : Prop := w.back = [] ∧ w.toUp = [] ∧ w.fromUp = []

instance (w : World U) : Decidable w.Silent := inferInstanceAs (Decidable (_ ∧ _ ∧ _))

@[simp] def Act.admitting : Act → Option (Frontend × List Kind)
  | .admitKinds _ m info => some (m, info.kinds)
  | _ => none

@[simp] def Act.admittingAsync : Act → Option (List Kind)
  | .admitAsync _ _ _ kinds => some kinds
  | _ => none

@[simp] def Act.counting : Act → Option (List Kind)
  | .countTxnStatement kinds => some kinds
  | _ => none

@[simp] def Act.binding : Act → Option Bind
  | .droppingUntilSync _ (.bind b) => some b
  | .aborted _ (.bind b) => some b
  | _ => none

@[simp] def Act.isChooseRestore : Act → Bool
  | .chooseRestore _ => true
  | _ => false

def World.pending (w : World U) : Bool := w.sess.occRepair.isSome || w.back.any Act.isChooseRestore

def World.refusing (w : World U) : Bool := w.errors ≠ [] || w.pending

section Conditions

variable (T : Transacts U parse) (l : Label U) (w : World U × Tally)

@[mk_iff] structure Controlled : Prop where
  control : ∀ x ∈ (l.act w.1).bind Act.admitting, Kind.controls x.2 = true →
    x.1.tag = .query ∧ x.2.length = 1 ∧ w.1.Silent
  begins : ∀ x ∈ (l.act w.1).bind Act.admitting, .begin ∈ x.2 →
    w.2.ran = [] ∧ w.1.sess.occInFlight = none ∧ w.1.sess.occRepair = none ∧ w.1.sess.hidden = none
  counts : ∀ kinds ∈ (l.act w.1).bind Act.counting, Kind.controls kinds = true →
    w.1.sess.tracker.inTxn = true → w.1.sess.occTxnStatements = 0
  aborted : l.act w.1 = some .admitRollback → w.1.Silent

@[mk_iff] structure Billed : Prop where
  async : ∀ kinds ∈ (l.act w.1).bind Act.admittingAsync,
    (w.1.sess.tracker.admitKinds kinds l.now).2 = none →
    w.1.sess.tracker.inTxn = false ∧ .begin ∉ kinds
  known : ∀ b ∈ (l.act w.1).bind Act.binding, w.1.sess.tracker.inTxn = true →
    (w.1.sess.statements b.statement).isSome = true
  executes : ∀ x ∈ (l.act w.1).bind Act.forwarded, w.1.sess.tracker.inTxn = true →
    x.2 ≠ .functionCall ∧ (x.2.tag = .execute → 0 < w.2.credit)

@[mk_iff] structure Believed : Prop where
  idle : l.act w.1 = some (.noteTxStatus .idle) → w.1.sess.tracker.inTxn = true →
    w.1.front = [] ∧ w.1.toUp = [] ∧ w.2.ran = [] ∧ w.2.credit = 0 ∧ w.1.sess.hidden = none
  savepoint : l.act w.1 = some .clearSavepoint → w.1.sess.occRepair = none

@[mk_iff] structure Served : Prop where
  awake : ∀ x ∈ l.serves w.1, x.1.msg.drawsReady = true → x.1.msg ≠ .sync → T.skips w.1.up = false
  stays : ∀ x ∈ l.serves w.1, w.1.refusing = true →
    ∀ r ∈ T.runs w.1.up x.1.msg x.2, r.statement.moves = false
  raises : ∀ x ∈ l.serves w.1, (l.answers w.1).any (·.2.isConflict) = true →
    x.1.origin.isClient = true ∧ (T.opened (U.answer w.1.up x.1.msg x.2).1 = true →
      (∃ r ∈ T.runs w.1.up x.1.msg x.2, r.failed = true ∧ r.counts = true) ∧
        ∀ y ∈ w.2.ran, y.1.isFailure = false)

/-- What a step must find for the count of statements to be right. -/
def Reckoned : Prop := Controlled l w ∧ Billed l w ∧ Believed l w ∧ Served T l w

instance : Decidable (Controlled l w) := decidable_of_iff _ (controlled_iff l w).symm
instance : Decidable (Billed l w) := decidable_of_iff _ (billed_iff l w).symm
instance : Decidable (Believed l w) := decidable_of_iff _ (believed_iff l w).symm
instance : Decidable (Served T l w) := decidable_of_iff _ (served_iff T l w).symm
instance : Decidable (Reckoned T l w) := inferInstanceAs (Decidable (_ ∧ _ ∧ _ ∧ _))

end Conditions

/-- What a dialect and a parser must agree on: what is analyzed is one statement, a
rewritten text runs no more than the one it replaces, and `SAVEPOINT` is transaction control. -/
structure Speaks (D : Dialect) (parse : String → Option (List Statement)) : Prop where
  reads : Reads D parse
  analyzed : ∀ sql kinds tables, D.classify false sql = .accepted kinds tables →
    (D.analyze sql).isSome = true → kinds.length = 1 ∧ Kind.controls kinds = false
  rewrites : ∀ sql r, D.rewriteSQL sql = some r → weight parse (.query r.sql) ≤ weight parse
    (.query sql)
  savepoint : weight parse savepointQuery = 0

structure Bill (parse : String → Option (List Statement)) (m : Frontend) (info : StatementInfo) :
    Prop where
  lone : info.intent.isSome = true → info.kinds.length = 1 ∧ Kind.controls info.kinds = false
  reads : ∀ sql, m = .query sql → ∃ ss, parse sql = some ss ∧ info.kinds = ss.map Statement.kindOf

def charge (parse : String → Option (List Statement)) : Frontend → Nat
  | .query sql => weight parse (.query sql)
  | .bind _ => 1
  | _ => 0

@[simp] def Act.price (parse : String → Option (List Statement)) : Act → Nat
  | .writeUpstream (.client _) ms => (ms.map (charge parse)).sum
  | .occAdjudicated _ m _ => charge parse m
  | .occCommitConflict _ m _ => charge parse m
  | _ => 0

@[simp] def Act.earns : Act → Nat
  | .countTxnStatement kinds => if Kind.controls kinds then 0 else max 1 kinds.length
  | _ => 0

@[simp] def Act.stake : Act → Nat
  | .setInFlight _ (some _) _ => 1
  | _ => 0

@[simp] def Act.token : Act → Nat
  | .countTxnStatement kinds => if Kind.controls kinds || 1 < kinds.length then 0 else 1
  | _ => 0

@[simp] def Act.closes : Act → Bool
  | .admitRollback => true
  | _ => false

@[simp] def Act.leads : Act → Bool
  | .droppingUntilSync _ _ => true
  | .aborted _ _ => true
  | .admitKinds _ _ _ => true
  | _ => false

abbrev bills (parse : String → Option (List Statement)) : List Act → Nat :=
  due (Act.price parse) Act.earns Act.closes

abbrev arms : List Act → Nat := due Act.stake Act.token Act.closes

@[mk_iff] structure Act.Free (parse : String → Option (List Statement)) (a : Act) : Prop where
  price : a.price parse = 0
  stake : a.stake = 0
  leads : a.leads = false

def Fronted (parse : String → Option (List Statement)) : List Act → Prop
  | [] => True
  | a :: rest =>
    (∀ n m info, a = .admitKinds n m info → Bill parse m info) ∧ (∀ b ∈ rest, b.leads = false) ∧
      (a.leads = true → ∀ b ∈ rest, b.Free parse)

section Lists

variable {s : Session} {n now : Nat} {m : Frontend} {jobID : String} {info : StatementInfo}
  {a : Act} {l rest : List Act}

theorem bills_free (h : ∀ b ∈ l, b.Free parse) : bills parse l = 0 ∧ arms l = 0 :=
  ⟨due_eq_zero fun b hb => (h b hb).price, due_eq_zero fun b hb => (h b hb).stake⟩

theorem bills_le {k : Nat} (h : bills parse l = 0 ∧ arms l = 0) : bills parse l ≤ k ∧ arms l = 0 :=
  ⟨h.1 ▸ Nat.zero_le k, h.2⟩

theorem forward_free (n : Nat) (m : Frontend) (h : charge parse m = 0) :
    ∀ b ∈ forward n m, b.Free parse := by
  unfold forward
  split <;> simp [h, Act.free_iff]

theorem reject_free {code message : String} {extended : Bool} :
    ∀ b ∈ reject s n code message extended, b.Free parse := by
  unfold reject sendError
  split <;> split <;> simp [Act.free_iff]

theorem rejectFailed_free {extended : Bool} : ∀ b ∈ rejectFailed n extended, b.Free parse := by
  unfold rejectFailed sendError
  split <;> simp [Act.free_iff]

theorem occFailure_free {extended : Bool} : ∀ b ∈ occFailure D n extended, b.Free parse := by
  unfold occFailure sendError
  cases extended <;> simp [Act.free_iff]

theorem fronted_of_tame (h : ∀ b ∈ l, b.leads = false) : Fronted parse l := by
  cases l with
  | nil => trivial
  | cons b l =>
    have hb := h b List.mem_cons_self
    refine ⟨fun n m info hruling => ?_, fun c hc => h c (List.mem_cons_of_mem b hc), fun hlead =>
      absurd (hb.symm.trans hlead) (by simp)⟩
    subst hruling
    cases hb

theorem bills_append : bills parse (l ++ rest) ≤ bills parse l + bills parse rest := due_append
theorem arms_append : arms (l ++ rest) ≤ arms l + arms rest := due_append

theorem bills_forward : bills parse (forward n m) ≤ charge parse m := by
  unfold forward
  split <;> simp [due]

theorem bills_send (hD : Speaks D parse) : bills parse (send D n m info) ≤ charge parse m := by
  unfold send
  split
  next sql =>
    split
    next r hr =>
      refine Nat.le_trans (due_append_le (due_eq_zero ?_)) ?_
      · split <;> simp
      · simpa [due, charge] using hD.rewrites sql r hr
    next => exact bills_forward
  next =>
    refine Nat.le_trans (due_append_le (due_eq_zero ?_)) bills_forward
    cases info.jobID <;> simp

theorem forward_unarmed : ∀ b ∈ forward n m, b.stake = 0 ∧ b.leads = false := by
  unfold forward
  split <;> simp

theorem send_unarmed : ∀ b ∈ send D n m info, b.stake = 0 ∧ b.leads = false := by
  unfold send
  split
  · split
    · split <;> simp
    · exact forward_unarmed
  · intro b hb
    rcases List.mem_append.1 hb with hb | hb
    · cases hj : info.jobID <;> simp_all
    · exact forward_unarmed b hb

theorem armAdjudicator_price {intent : Option Intent} {bind : Option Bind} :
    ∀ b ∈ armAdjudicator n intent bind, b.price parse = 0 := by
  cases intent <;> simp [armAdjudicator]

theorem armAdjudicator_tame {intent : Option Intent} {bind : Option Bind} :
    ∀ b ∈ armAdjudicator n intent bind, b.leads = false := by
  cases intent <;> simp [armAdjudicator]

theorem arms_armAdjudicator {intent : Option Intent} {bind : Option Bind} :
    arms (armAdjudicator n intent bind) ≤ intent.isSome.toNat := by
  cases intent <;> simp [armAdjudicator, due]

theorem endsTransaction_of_controls {kinds : List Kind} (h : Kind.controls kinds = false) :
    Kind.endsTransaction kinds = false := by
  simp only [Kind.controls, List.any_eq_false, Kind.endsTransaction] at h ⊢
  intro k hk
  have := h k hk
  simp_all

theorem Bill.charge_le (h : Bill parse m info) : charge parse m ≤ max 1 info.kinds.length := by
  cases m with
  | query sql =>
    obtain ⟨ss, hss, hkinds⟩ := h.reads sql rfl
    have : ss.countP (!Statement.control ·) ≤ ss.length := List.countP_le_length
    simp only [charge, weight, hss, Option.getD_some, hkinds, List.length_map]
    omega
  | bind b => exact Nat.le_max_left _ _
  | _ => exact Nat.zero_le _

theorem bills_admitted_le (hD : Speaks D parse) (hends : Kind.endsTransaction info.kinds = false) :
    bills parse (admitted D s n m info) ≤ charge parse m -
      (Act.countTxnStatement info.kinds).earns := by
  have hlist : bills parse (if s.tracker.inTxn then armAdjudicator n info.intent
    (Frontend.bind? m) ++ send D n m info
      else send D n m info) ≤ charge parse m := by
    split
    · exact Nat.le_trans (due_append_le (due_eq_zero armAdjudicator_price)) (bills_send hD)
    · exact bills_send hD
  refine Nat.le_trans (due_append_le (due_eq_zero ?_)) ?_
  · split <;> simp
  · rw [hends, if_neg Bool.false_ne_true]
    simp only [due, Act.closes, Act.price, Bool.false_eq_true, if_false, Nat.zero_add]
    exact Nat.sub_le_sub_right hlist _

theorem arms_admitted_le (hends : Kind.endsTransaction info.kinds = false) :
    arms (admitted D s n m info) ≤ info.intent.isSome.toNat -
      (Act.countTxnStatement info.kinds).token := by
  have hsend : arms (send D n m info) = 0 := due_eq_zero fun b hb => (send_unarmed b hb).1
  have hlist : arms (if s.tracker.inTxn then armAdjudicator n info.intent (Frontend.bind? m) ++
    send D n m info
      else send D n m info) ≤ info.intent.isSome.toNat := by
    split
    · exact Nat.le_trans arms_append (by rw [hsend]; exact arms_armAdjudicator)
    · rw [hsend]; exact Nat.zero_le _
  refine Nat.le_trans (due_append_le (due_eq_zero ?_)) ?_
  · split <;> simp
  · rw [hends, if_neg Bool.false_ne_true]
    simp only [due, Act.closes, Act.stake, Bool.false_eq_true, if_false, Nat.zero_add]
    exact Nat.sub_le_sub_right hlist _

theorem bills_admitted (hD : Speaks D parse) (h : Bill parse m info)
    (hkinds : Kind.controls info.kinds = false) : bills parse (admitted D s n m info) = 0 := by
  have hle := bills_admitted_le (s := s) (n := n) (m := m) hD (endsTransaction_of_controls hkinds)
  have hcharge := h.charge_le
  simp only [Act.earns, hkinds, Bool.false_eq_true, if_false] at hle
  omega

theorem arms_admitted (h : Bill parse m info) (hkinds : Kind.controls info.kinds = false) :
    arms (admitted D s n m info) = 0 := by
  have hle := arms_admitted_le (D := D) (s := s) (n := n) (m := m)
    (endsTransaction_of_controls hkinds)
  -- an intent is that of a single statement, which is counted as one
  cases hi : info.intent with
  | none =>
    rw [hi, Option.isSome_none, Bool.toNat_false] at hle
    omega
  | some intent =>
    have hone : ¬ 1 < info.kinds.length := Nat.not_lt.2 (Nat.le_of_eq (h.lone (by rw [hi]; rfl)).1)
    simpa [hi, hkinds, hone] using hle

theorem Bill.charge_begin (h : Bill parse m info) (hkinds : info.kinds = [.begin])
    (hm : m.tag = .query) : charge parse m = 0 := by
  cases m with
  | query sql =>
    obtain ⟨ss, hss, hmap⟩ := h.reads sql rfl
    obtain ⟨s, rfl, hs⟩ := List.map_eq_singleton_iff.1 (hmap.symm.trans hkinds)
    have hbegin : s = .begin := by
      cases s <;> first | rfl | cases hs
    simp [charge, weight, hss, hbegin, Statement.control]
  | malformed t => rfl
  | _ => cases hm

theorem bills_begin (hD : Speaks D parse) (h : Bill parse m info) (hkinds : info.kinds = [.begin])
    (hm : m.tag = .query) : bills parse (admitted D s n m info) = 0 := by
  have hle := bills_admitted_le (s := s) (n := n) (m := m) hD (by rw [hkinds]; rfl)
  rw [h.charge_begin hkinds hm] at hle
  omega

theorem arms_begin (h : Bill parse m info) (hkinds : info.kinds = [.begin]) :
    arms (admitted D s n m info) = 0 := by
  have hle := arms_admitted_le (D := D) (s := s) (n := n) (m := m) (by rw [hkinds]; rfl)
  have hnone : info.intent.isSome = false := by
    rw [Bool.eq_false_iff]
    intro hsome
    have := (h.lone hsome).2
    rw [hkinds] at this
    cases this
  rw [hnone, Bool.toNat_false] at hle
  omega

theorem handleParse_free {name sql : String} :
    ∀ b ∈ (handleParse D jobID s n name sql).next, b.Free parse := by
  unfold handleParse
  split
  · split
    · exact rejectFailed_free
    · unfold forwardAsyncJob
      split
      · simp [runAsyncJob, charge, Act.free_iff]
      · exact reject_free
      · simp [runAsyncJob, charge, Act.free_iff]
  · dsimp only
    split
    · split
      · split
        · exact forward_free n (.parse name sql) rfl
        · exact rejectFailed_free
      · exact rejectFailed_free
    · split
      · exact forward_free n (.parse name sql) rfl
      · exact reject_free
      · split
        · dsimp only
          split <;> simp [charge, Act.free_iff]
        · intro b hb
          rcases List.mem_append.1 hb with hb | hb
          · split at hb <;> simp_all [Act.free_iff]
          · exact forward_free n (.parse name sql) rfl b hb

theorem endAborted_bills : bills parse (endAborted ++ l) = 0 ∧ arms (endAborted ++ l) = 0 := by
  simp [endAborted, due]

theorem handleQuery_bills (hD : Speaks D parse) {sql : String} :
    bills parse (handleQuery D jobID s n sql).next = 0 ∧
    arms (handleQuery D jobID s n sql).next = 0 := by
  unfold handleQuery
  split
  · split
    · exact bills_free rejectFailed_free
    · unfold forwardAsyncJob
      split
      · simp [runAsyncJob, due]
      · exact bills_free reject_free
      · simp [runAsyncJob, due]
  · split
    · split
      · exact endAborted_bills
      · exact bills_free rejectFailed_free
    · split
      next hc =>
        exact bills_free
          (forward_free n (.query sql) (by simp [charge, weight, hD.reads.unparsed false sql hc]))
      · exact bills_free reject_free
      · simp [due]

theorem handleBind_bills {b : Bind} : bills parse (handleBind s n b info).next = 0 ∧
    arms (handleBind s n b info).next = 0 := by
  unfold handleBind
  split
  · split
    · exact endAborted_bills
    · exact bills_free rejectFailed_free
  · simp [due]

theorem relay_free (r : Reply) : ∀ b ∈ relay D r, b.Free parse := by
  unfold relay
  cases r.msg with
  | error e => dsimp only; split <;> simp [Act.free_iff]
  | parameterStatus name value => dsimp only; split <;> simp [Act.free_iff]
  | _ => simp [Act.free_iff]

theorem finish_free (x : Exchange) : ∀ b ∈ x.finish D, b.Free parse := by
  intro b hb
  have hrepair := finish_repair x b hb
  cases b <;> first | exact ⟨rfl, rfl, rfl⟩ | cases hrepair

@[simp] def Act.weighs : Act → Bool
  | .droppingUntilSync _ _ => true
  | .aborted _ _ => true
  | .admitKinds _ _ _ => true
  | .admitAsync _ _ _ _ => true
  | .occAdjudicated _ _ _ => true
  | .occCommitConflict _ _ _ => true
  | _ => false

theorem exec_free (ha : a.weighs = false) : ∀ b ∈ (a.exec D now jobID s).next, b.Free parse := by
  cases a with
  | handleSync k =>
    dsimp only [Act.exec]
    intro b hb
    rcases List.mem_append.1 hb with hb | hb
    · exact forward_free k .sync rfl b hb
    · obtain ⟨f, -, rfl⟩ := Option.map_eq_some_iff.1 (Option.mem_toList.1 hb)
      exact ⟨rfl, rfl, rfl⟩
  | clearHidden x => exact finish_free x.exchange
  | failureActive r =>
    dsimp only [Act.exec]
    split
    · split <;> simp [Act.free_iff]
    · split
      · exact relay_free r
      · simp [Act.free_iff]
  | repairPending r =>
    dsimp only [Act.exec]
    split
    · simp
    · exact relay_free r
  | droppingUntilSync _ _ | aborted _ _ | admitKinds _ _ _ | admitAsync _ _ _ _
  | occAdjudicated _ _ _ | occCommitConflict _ _ _ => cases ha
  | _ =>
    dsimp only [Act.exec]
    (repeat' split) <;> simp [Act.free_iff]

theorem charge_eq_zero (hquery : ∀ sql, m = .query sql → False) (hbind : ∀ b, m = .bind b → False) :
    charge parse m = 0 := by
  cases m with
  | query sql => exact (hquery sql rfl).elim
  | bind b => exact (hbind b rfl).elim
  | _ => rfl

theorem droppingUntilSync_bills
    (hknown : ∀ b, m = .bind b → (s.statements b.statement).isSome = true) :
    bills parse ((Act.droppingUntilSync n m).exec D now jobID s).next = 0 ∧
      arms ((Act.droppingUntilSync n m).exec D now jobID s).next = 0 := by
  dsimp only [Act.exec]
  split
  · exact ⟨rfl, rfl⟩
  · unfold dispatch
    split
    · simp [due]
    · simp [due]
    next b =>
      split
      next hnone => cases hnone ▸ hknown b rfl
      next => simp [due]
    next name => simp [forward, Frontend.counted, Frontend.tag, charge, due]
    next hquery _ hbind _ =>
      refine bills_free fun b hb => ?_
      rcases List.mem_append.1 hb with hb | hb
      · exact forward_free n m (charge_eq_zero hquery hbind) b hb
      · obtain rfl := List.mem_singleton.1 hb
        exact ⟨rfl, rfl, rfl⟩

theorem aborted_bills (hD : Speaks D parse)
    (hknown : ∀ b, m = .bind b → (s.statements b.statement).isSome = true) :
    bills parse ((Act.aborted n m).exec D now jobID s).next = 0 ∧
      arms ((Act.aborted n m).exec D now jobID s).next = 0 := by
  dsimp only [Act.exec]
  split
  · exact handleQuery_bills hD
  · exact bills_free handleParse_free
  next b =>
    split
    · exact handleBind_bills
    next hnone => cases hnone ▸ hknown b rfl
  next hquery _ hbind => exact bills_free (forward_free n m (charge_eq_zero hquery hbind))

theorem commit_bills (hD : Speaks D parse) :
    bills parse (.resetOcc :: send D n m info) ≤ charge parse m ∧
    arms (.resetOcc :: send D n m info) = 0 := by
  refine ⟨?_, due_eq_zero ?_⟩
  · simpa [due] using bills_send hD
  · simpa using fun b hb => (send_unarmed b hb).1

theorem exec_bills (now : Nat) (jobID : String) (hD : Speaks D parse) (ha : a.admits = false)
    (hknown : ∀ b, a.binding = some b → (s.statements b.statement).isSome = true) :
    bills parse (a.exec D now jobID s).next ≤ a.price parse ∧
      arms (a.exec D now jobID s).next = 0 := by
  cases hw : a.weighs with
  | false => exact bills_le (bills_free (exec_free hw))
  | true =>
    cases a with
    | droppingUntilSync n m =>
      exact bills_le (droppingUntilSync_bills (by rintro b rfl; exact hknown b rfl))
    | aborted n m => exact bills_le (aborted_bills hD (by rintro b rfl; exact hknown b rfl))
    | occAdjudicated n m info =>
      dsimp only [Act.exec]
      split
      · exact bills_le (bills_free occFailure_free)
      · split
        · exact commit_bills hD
        · simp [due]
    | occCommitConflict n m info =>
      dsimp only [Act.exec]
      split
      · exact bills_le (bills_free occFailure_free)
      · exact commit_bills hD
    | admitKinds _ _ _ | admitAsync _ _ _ _ => cases ha
    | _ => cases hw

def Session.Lone (s : Session) : Prop := ∀ name info, s.statements name = some info →
  info.intent.isSome = true → info.kinds.length = 1 ∧ Kind.controls info.kinds = false

theorem Session.Lone.update (hs : s.Lone) {name : String} {known : Option StatementInfo}
    (hknown : ∀ info, known = some info → info.intent.isSome = true → info.kinds.length = 1 ∧
      Kind.controls info.kinds = false) :
    ∀ name' info, Function.update s.statements name known name' = some info →
      info.intent.isSome = true → info.kinds.length = 1 ∧ Kind.controls info.kinds = false := by
  intro name' info h
  by_cases hname : name' = name
  · subst hname
    rw [Function.update_self] at h
    exact hknown info h
  · rw [Function.update_of_ne hname] at h
    exact hs name' info h

theorem exec_lone (hD : Speaks D parse) (hs : s.Lone) : (a.exec D now jobID s).sess.Lone := by
  rcases exec_remembers (D := D) (s := s) a now jobID with h | ⟨k, name, sql, rfl⟩ |
    ⟨k, name, rfl, h, -⟩
  · intro name info hinfo
    exact hs name info (h ▸ hinfo)
  · intro name' info hinfo
    change (handleParse D jobID s k name sql).sess.statements name' = some info at hinfo
    rcases handleParse_remembers (D := D) (s := s) jobID k name sql with ⟨hsame, -⟩ |
      ⟨known, text, hr, hset, -⟩
    · exact hs name' info (hsame ▸ hinfo)
    · rw [hset] at hinfo
      refine hs.update (fun info hknown => ?_) name' info hinfo
      subst hknown
      cases hr with
      | parsed _ _ hc _ => exact hD.analyzed sql _ _ hc
      | _ => intro hintent; cases hintent
  · intro name' info hinfo
    rw [h] at hinfo
    exact hs.update (fun info hknown => by cases hknown) name' info hinfo

theorem fronted_cons (ha : ∀ n m info, a = .admitKinds n m info → Bill parse m info)
    (hrest : ∀ b ∈ rest, b.Free parse) :
    Fronted parse (a :: rest) := ⟨ha, fun b hb => (hrest b hb).leads, fun _ => hrest⟩

theorem fronted_append (hl : ∀ b ∈ l, b.leads = false) (hrest : ∀ b ∈ rest, b.leads = false) :
    Fronted parse (l ++ rest) := by
  refine fronted_of_tame fun b hb => ?_
  rcases List.mem_append.1 hb with hb | hb
  · exact hl b hb
  · exact hrest b hb

theorem fronted_free (hl : ∀ b ∈ l, b.Free parse) (hrest : ∀ b ∈ rest, b.leads = false) :
    Fronted parse (l ++ rest) :=
  fronted_append (fun b hb => (hl b hb).leads) hrest

theorem fronted_forward (n : Nat) (m : Frontend) (hrest : ∀ b ∈ rest, b.leads = false) :
    Fronted parse (forward n m ++ rest) :=
  fronted_append (fun b hb => (forward_unarmed b hb).2) hrest

theorem admitted_tame : ∀ b ∈ admitted D s n m info, b.leads = false := by
  intro b hb
  simp only [admitted, List.mem_append, List.mem_cons] at hb
  rcases hb with hb | rfl | hb
  · split at hb <;> simp_all
  · rfl
  · split at hb
    · split at hb
      · obtain rfl := List.mem_singleton.1 hb
        rfl
      · rcases List.mem_cons.1 hb with rfl | hb
        · rfl
        · exact (send_unarmed b hb).2
    · split at hb
      · rcases List.mem_append.1 hb with hb | hb
        · exact armAdjudicator_tame b hb
        · exact (send_unarmed b hb).2
      · exact (send_unarmed b hb).2

theorem endAborted_tame : ∀ b ∈ endAborted ++ forward n m, b.leads = false := by
  intro b hb
  rcases List.mem_append.1 hb with hb | hb
  · simp only [endAborted, List.mem_cons, List.not_mem_nil, or_false] at hb
    rcases hb with rfl | rfl | rfl <;> rfl
  · exact (forward_unarmed b hb).2

theorem bill_query (hD : Speaks D parse) {sql : String} {kinds : List Kind} {tables : List String}
    (hc : D.classify false sql = .accepted kinds tables) :
    Bill parse (.query sql) { kinds, tables, intent := D.analyze sql } where
  lone h := hD.analyzed sql kinds tables hc h
  reads sql' h := by
    cases h
    obtain ⟨ss, hss, hkinds, -⟩ := hD.reads.accepted false sql kinds tables hc
    exact ⟨ss, hss, hkinds⟩

theorem aborted_fronted (hD : Speaks D parse) (hs : s.Lone) (hrest : ∀ b ∈ rest, b.Free parse) :
    Fronted parse (((Act.aborted n m).exec D now jobID s).next ++ rest) := by
  have htame : ∀ b ∈ rest, b.leads = false := fun b hb => (hrest b hb).leads
  dsimp only [Act.exec]
  split
  next sql =>
    unfold handleQuery
    split
    · split
      · exact fronted_free rejectFailed_free htame
      · unfold forwardAsyncJob
        split
        · exact fronted_append (by simp [runAsyncJob]) htame
        · exact fronted_free reject_free htame
        · exact fronted_append (by simp [runAsyncJob]) htame
    · split
      · split
        · exact fronted_append endAborted_tame htame
        · exact fronted_free rejectFailed_free htame
      · split
        · exact fronted_forward n (.query sql) htame
        · exact fronted_free reject_free htame
        next hc => exact fronted_cons (by rintro _ _ _ ⟨⟩; exact bill_query hD hc) hrest
  · exact fronted_free handleParse_free htame
  next b =>
    split
    next info hinfo =>
      unfold handleBind
      split
      · split
        · exact fronted_append endAborted_tame htame
        · exact fronted_free rejectFailed_free htame
      · exact fronted_cons (by rintro _ _ _ ⟨⟩; exact ⟨hs _ info hinfo, by rintro _ ⟨⟩⟩) hrest
    next => exact fronted_forward n (.bind b) htame
  · exact fronted_forward n _ htame

theorem droppingUntilSync_fronted (hrest : ∀ b ∈ rest, b.Free parse) :
    Fronted parse (((Act.droppingUntilSync n m).exec D now jobID s).next ++ rest) := by
  have htame : ∀ b ∈ Act.noteBatchState m.tag :: rest, b.leads = false :=
    List.forall_mem_cons.2 ⟨rfl, fun b hb => (hrest b hb).leads⟩
  have hfree : ∀ b ∈ Act.noteBatchState m.tag :: rest, b.Free parse :=
    List.forall_mem_cons.2 ⟨⟨rfl, rfl, rfl⟩, hrest⟩
  dsimp only [Act.exec]
  split
  · exact fronted_of_tame fun b hb => (hrest b hb).leads
  · dsimp only
    rw [List.append_assoc]
    unfold dispatch
    split
    · exact fronted_cons (by rintro _ _ _ ⟨⟩) hfree
    · exact fronted_cons (by rintro _ _ _ ⟨⟩) hfree
    next b =>
      split
      · exact fronted_forward n (.bind b) htame
      · exact fronted_cons (by rintro _ _ _ ⟨⟩) hfree
    next name => exact fronted_forward n (.close true name) htame
    · exact fronted_forward n m htame

theorem exec_fronted (hD : Speaks D parse) (hs : s.Lone) (h : Fronted parse (a :: rest)) :
    Fronted parse ((a.exec D now jobID s).next ++ rest) := by
  obtain ⟨-, htame, hfree⟩ := h
  cases hw : a.weighs with
  | false => exact fronted_free (exec_free hw) htame
  | true =>
    cases a with
    | droppingUntilSync n m => exact droppingUntilSync_fronted (hfree rfl)
    | aborted n m => exact aborted_fronted hD hs (hfree rfl)
    | admitKinds n m info =>
      dsimp only [Act.exec]
      split
      · exact fronted_free reject_free htame
      · exact fronted_append admitted_tame htame
    | admitAsync n rewritten statement kinds =>
      dsimp only [Act.exec]
      split
      · exact fronted_free reject_free htame
      · exact fronted_append (by simp) htame
    | occAdjudicated n m info =>
      have hsend : ∀ b ∈ Act.resetOcc :: send D n m info, b.leads = false :=
        List.forall_mem_cons.2 ⟨rfl, fun b hb => (send_unarmed b hb).2⟩
      dsimp only [Act.exec]
      split
      · exact fronted_free occFailure_free htame
      · split
        · exact fronted_append hsend htame
        · exact fronted_append (by simp) htame
    | occCommitConflict n m info =>
      have hsend : ∀ b ∈ Act.resetOcc :: send D n m info, b.leads = false :=
        List.forall_mem_cons.2 ⟨rfl, fun b hb => (send_unarmed b hb).2⟩
      dsimp only [Act.exec]
      split
      · exact fronted_free occFailure_free htame
      · exact fronted_append hsend htame
    | _ => cases hw

end Lists

def Request.cost (parse : String → Option (List Statement)) (q : Request) : Nat :=
  if q.origin.isClient then weight parse q.msg else 0

def Tally.used (parse : String → Option (List Statement)) (g : Tally) (toUp : List Request) : Nat :=
  g.ran.countP (·.1.isClient) + (toUp.map (Request.cost parse)).sum + g.credit

structure Budget (parse : String → Option (List Statement)) (s : Session) (front : List Act)
    (toUp : List Request) (g : Tally) : Prop where
  used : g.used parse toUp + bills parse front ≤ g.counted.sum
  held : s.occInFlight.isSome.toNat + g.taken + arms front ≤ g.counted.count 1

section Trackers

variable {t t' : Tracker} {kinds : List Kind} {now : Nat}

theorem begin_of_controls (h : Kind.controls kinds = false) : .begin ∉ kinds := by
  intro hk
  have := List.any_eq_false.1 h _ hk
  simp at this

theorem foldl_record_inTxn (h : Kind.controls kinds = false) :
    (kinds.foldl (Tracker.record now) t).inTxn = t.inTxn := by
  induction kinds generalizing t with
  | nil => rfl
  | cons k kinds ih =>
    simp only [Kind.controls, List.any_cons, Bool.or_eq_false_iff] at h
    rw [List.foldl_cons, ih h.2]
    cases k <;> first | rfl | simp at h

theorem admitKinds_inTxn {v : Option Violation} (h : t.admitKinds kinds now = (t', v))
    (hkeep : v ≠ none ∨ Kind.controls kinds = false) : t'.inTxn = t.inTxn := by
  have hfresh : t.fresh.inTxn = t.inTxn := by
    unfold Tracker.fresh
    split <;> rfl
  rcases t.admitKinds_cases kinds now with ⟨v', hv⟩ | ⟨-, hv⟩
  · rw [hv] at h
    cases h
    exact hfresh
  · rw [hv] at h
    cases h
    rw [foldl_record_inTxn (hkeep.resolve_left (by simp)), hfresh]

theorem admitKinds_controls (h : t.admitKinds kinds now = (t', none))
    (hkinds : Kind.controls kinds = true) (hone : kinds.length = 1) (hopen : t'.inTxn = true) :
    kinds = [.begin] := by
  obtain ⟨k, rfl⟩ := List.length_eq_one_iff.1 hone
  rcases t.admitKinds_cases [k] now with ⟨v', hv⟩ | ⟨-, hv⟩
  · rw [hv] at h
    cases h
  · rw [hv] at h
    cases h
    cases k <;> simp_all [Kind.controls, Tracker.record, Tracker.reset]

end Trackers

section Budgets

variable {s : Session} {n now : Nat} {m : Frontend} {jobID : String} {a : Act} {rest : List Act}
  {toUp : List Request} {g : Tally}

theorem used_append (qs : List Request) :
    g.used parse (toUp ++ qs) = g.used parse toUp + (qs.map (Request.cost parse)).sum := by
  simp only [Tally.used, List.map_append, List.sum_append]
  omega

theorem used_forward (hexec : m.tag = .execute → 0 < g.credit) (hcall : m ≠ .functionCall) :
    (g.follow now s (.writeUpstream (.client n) [m])).used parse (toUp ++ [⟨.client n, m⟩]) ≤
      g.used parse toUp + charge parse m := by
  rw [used_append]
  cases m with
  | execute portal =>
    have := hexec rfl
    simp [Tally.follow, Tally.credited, Tally.used, Request.cost, Origin.isClient, weight]
    omega
  | functionCall => exact absurd rfl hcall
  | _ =>
    simp [Tally.follow, Tally.credited, Tally.used, Request.cost, Origin.isClient, weight,
      charge] <;> omega

theorem used_foreign {o : Origin} {ms : List Frontend} (ho : o.isClient = false) :
    g.used parse (toUp ++ ms.map (Request.mk o)) = g.used parse toUp := by
  rw [used_append]
  have hcost : Request.cost parse ∘ Request.mk o = fun _ => 0 := funext fun m => by
    simp [Request.cost, ho]
  simp [hcost]

theorem used_front (now : Nat) (jobID : String) (hD : Speaks D parse) (hfront : FrontAct n m a)
    (ha : a.admits = false)
    (hknown : ∀ b, a.binding = some b → (s.statements b.statement).isSome = true)
    (hexec : ∀ x, a.forwarded = some x → x.2 ≠ .functionCall ∧
      (x.2.tag = .execute → 0 < g.credit)) :
    (g.follow now s a).used parse (toUp ++ (a.exec D now jobID s).up) + bills parse
      (a.exec D now jobID s).next ≤ g.used parse toUp + a.price parse := by
  by_cases hwrite : ∃ o ms, a = .writeUpstream o ms
  · obtain ⟨o, ms, rfl⟩ := hwrite
    cases hfront with
    | code hcode =>
      cases o with
      | client k =>
        obtain ⟨rfl, m', rfl, -⟩ := hcode
        obtain ⟨hcall, hcredit⟩ := hexec (k, m') rfl
        simpa [due] using used_forward (s := s) hcredit hcall
      | _ => exact hcode.elim
    | _ => exact Nat.le_of_eq (used_foreign rfl)
  · have hup : (a.exec D now jobID s).up = [] := exec_up fun o ms h => hwrite ⟨o, ms, h⟩
    have hused : (g.follow now s a).used parse toUp = g.used parse toUp := by
      cases a with
      | writeUpstream o ms => exact absurd ⟨o, ms, rfl⟩ hwrite
      | admitKinds _ _ _ => cases ha
      | occIntercept o e inTxn => cases hfront with | code h => exact h.elim
      | noteTxStatus st => cases hfront with | code h => exact h.elim
      | _ => rfl
    rw [hup, List.append_nil, hused]
    exact Nat.add_le_add_left (exec_bills now jobID hD ha hknown).1 _

theorem held_front (now : Nat) (jobID : String) (hfront : FrontAct n m a) (ha : a.admits = false) :
    (a.exec D now jobID s).sess.occInFlight.isSome.toNat + (g.follow now s a).taken ≤
      s.occInFlight.isSome.toNat + g.taken + a.stake := by
  by_cases harm : ∃ k i b, a = .setInFlight k i b
  · obtain ⟨k, i, b, rfl⟩ := harm
    cases i with
    | none => simp [Tally.follow]
    | some i =>
      have := Bool.toNat_le
        ((Act.setInFlight k (some i) b).exec D now jobID s).sess.occInFlight.isSome
      simp only [Tally.follow, Act.stake]
      omega
  · have htaken : (g.follow now s a).taken = g.taken := by
      cases a with
      | writeUpstream o ms => cases o <;> rfl
      | admitKinds _ _ _ => cases ha
      | occIntercept o e inTxn => cases hfront with | code h => exact h.elim
      | noteTxStatus st => cases hfront with | code h => exact h.elim
      | _ => rfl
    rw [htaken]
    rcases exec_occInFlight (D := D) (s := s) (a := a) fun k i b h => harm ⟨k, i, b, h⟩ with h | h
    · rw [h]; omega
    · rw [h, Option.isSome_none, Bool.toNat_false]; omega

theorem counted_front (now : Nat) (hfront : FrontAct n m a) (ha : a.admits = false)
    (hcount : ∀ kinds, a.counting = some kinds → Kind.controls kinds = true → g.counted = []) :
    g.counted.sum + a.earns ≤ (g.follow now s a).counted.sum ∧
      g.counted.count 1 + a.token ≤ (g.follow now s a).counted.count 1 := by
  cases a with
  | countTxnStatement kinds =>
    cases hkinds : Kind.controls kinds with
    | true => simp [Tally.follow, hkinds, hcount kinds rfl hkinds]
    | false =>
      simp only [Tally.follow, hkinds, Act.earns, Act.token, Bool.false_eq_true, if_false,
        Bool.false_or, decide_eq_true_eq, List.sum_append, List.sum_singleton, List.count_append]
      refine ⟨Nat.le_refl _, Nat.add_le_add_left ?_ _⟩
      split
      · exact Nat.zero_le _
      · rw [show max 1 kinds.length = 1 by omega]
        exact Nat.le_refl _
  | writeUpstream o ms => cases o <;> simp [Tally.follow]
  | admitKinds _ _ _ => cases ha
  | occIntercept o e inTxn => cases hfront with | code h => exact h.elim
  | noteTxStatus st => cases hfront with | code h => exact h.elim
  | _ => simp [Tally.follow]

theorem Budget.front (hD : Speaks D parse) (h : Budget parse s (a :: rest) toUp g)
    (hfront : FrontAct n m a) (ha : a.admits = false)
    (hknown : ∀ b, a.binding = some b → (s.statements b.statement).isSome = true)
    (hexec : ∀ x, a.forwarded = some x → x.2 ≠ .functionCall ∧ (x.2.tag = .execute → 0 < g.credit))
    (hcount : ∀ kinds, a.counting = some kinds → Kind.controls kinds = true → g.counted = []) :
    Budget parse (a.exec D now jobID s).sess ((a.exec D now jobID s).next ++ rest)
      (toUp ++ (a.exec D now jobID s).up) (g.follow now s a) := by
  have hcloses : a.closes = false := by
    cases a with
    | admitRollback => cases ha
    | _ => rfl
  have hused : _ ≤ g.used parse toUp + _ := used_front now jobID hD hfront ha hknown hexec
  have hheld := held_front (D := D) (s := s) (g := g) now jobID hfront ha
  obtain ⟨hsum, hones⟩ := counted_front (s := s) now hfront ha hcount
  have harms := (exec_bills (s := s) now jobID hD ha hknown).2
  have h₁ := h.used
  have h₂ := h.held
  have hrest₁ : bills parse ((a.exec D now jobID s).next ++ rest) ≤ _ := bills_append
  have hrest₂ : arms ((a.exec D now jobID s).next ++ rest) ≤ _ := arms_append
  simp only [bills, arms, due, hcloses, Bool.false_eq_true, if_false]
    at h₁ h₂ hrest₁ hrest₂ hused harms
  constructor
  · simp only [bills]
    omega
  · simp only [arms]
    omega

theorem Budget.relead {s' : Session} {next : List Act} (h : Budget parse s (a :: rest) toUp g)
    (hprice : a.price parse = 0 ∧ a.stake = 0) (hgain : a.earns = 0 ∧ a.token = 0)
    (hcloses : a.closes = false) (hnext : bills parse next = 0 ∧ arms next = 0)
    (hs : s'.occInFlight = s.occInFlight) : Budget parse s' (next ++ rest) toUp g := by
  have h₁ := h.used
  have h₂ := h.held
  have hrest₁ : bills parse (next ++ rest) ≤ _ := bills_append
  have hrest₂ : arms (next ++ rest) ≤ _ := arms_append
  simp only [bills, arms, due, hcloses, hprice, hgain, Bool.false_eq_true, if_false]
    at h₁ h₂ hrest₁ hrest₂ hnext
  constructor
  · simp only [bills]
    omega
  · simp only [arms, hs]
    omega

theorem Budget.admission {info : StatementInfo} (hD : Speaks D parse)
    (hfronted : Fronted parse (.admitKinds n m info :: rest))
    (h : s.tracker.inTxn = true → Budget parse s (.admitKinds n m info :: rest) toUp g)
    (hcontrol : Kind.controls info.kinds = true → m.tag = .query ∧ info.kinds.length = 1 ∧
      toUp = []) (hbegin : .begin ∈ info.kinds → g.ran = [] ∧ s.occInFlight = none)
    (hopen : ((Act.admitKinds n m info).exec D now jobID s).sess.tracker.inTxn = true) :
    Budget parse ((Act.admitKinds n m info).exec D now jobID s).sess
      (((Act.admitKinds n m info).exec D now jobID s).next ++ rest)
      (toUp ++ ((Act.admitKinds n m info).exec D now jobID s).up)
        (g.follow now s (.admitKinds n m info)) := by
  obtain ⟨hbill, -, hfree⟩ := hfronted
  cases hruling : s.tracker.admitKinds info.kinds now with
  | mk t v =>
    cases v with
    | some v =>
      simp only [Act.exec, Tally.follow, hruling, List.append_nil] at hopen ⊢
      have hin : s.tracker.inTxn = true :=
        (admitKinds_inTxn hruling (.inl (by simp))).symm.trans hopen
      rw [if_neg (by simp)]
      exact (h hin).relead ⟨rfl, rfl⟩ ⟨rfl, rfl⟩ rfl (bills_free reject_free) rfl
    | none =>
      simp only [Act.exec, Tally.follow, hruling, List.append_nil, true_and] at hopen ⊢
      have hb := hbill n m info rfl
      cases hkinds : Kind.controls info.kinds with
      | false =>
        have hin : s.tracker.inTxn = true :=
          (admitKinds_inTxn hruling (.inr hkinds)).symm.trans hopen
        rw [if_neg (begin_of_controls hkinds)]
        exact (h hin).relead ⟨rfl, rfl⟩ ⟨rfl, rfl⟩ rfl ⟨bills_admitted hD hb hkinds,
          arms_admitted hb hkinds⟩ rfl
      | true =>
        obtain ⟨hm, hone, rfl⟩ := hcontrol hkinds
        have hbegins := admitKinds_controls hruling hkinds hone hopen
        obtain ⟨hran, hnone⟩ := hbegin (by rw [hbegins]; exact List.mem_singleton_self _)
        rw [if_pos (by rw [hbegins]; exact List.mem_singleton_self _)]
        have hrest := bills_free (hfree rfl)
        have hnext₁ : bills parse (admitted D { s with tracker := t } n m info ++ rest) ≤ _ :=
          bills_append
        have hnext₂ : arms (admitted D { s with tracker := t } n m info ++ rest) ≤ _ := arms_append
        rw [bills_begin hD hb hbegins hm, hrest.1] at hnext₁
        rw [arms_begin hb hbegins, hrest.2] at hnext₂
        constructor
        · simpa [Tally.used, hran] using Nat.le_trans hnext₁ (Nat.zero_le _)
        · simpa [hnone] using Nat.le_trans hnext₂ (Nat.zero_le _)

end Budgets

end Proxy

end DsqlEmulator
