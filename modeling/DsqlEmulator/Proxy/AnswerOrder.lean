import DsqlEmulator.Proxy.Deferred
import DsqlEmulator.Proxy.Refusals
import DsqlEmulator.Proxy.Repairs
import Mathlib.Data.List.Pairwise

/-! The order in which the client gets the answers to its messages.  Refusals are
written by the frontend pump at once, and nothing holds them back until the
upstream has answered what the client sent before. -/

namespace DsqlEmulator.Proxy

open Wire Occ Txn Runs

variable {U : Upstream} {D : Dialect}

inductive Part : Type
  | error | progress | other
  deriving DecidableEq, Repr

def Backend.part (m : Backend) : Part :=
  if m.isError then .error else if m.isProgress then .progress else .other

structure Mark where
  n : Nat
  part : Part
  deriving DecidableEq, Repr

def Origin.mark (p : Part) : Origin → Option Mark
  | .client n => some ⟨n, p⟩
  | _ => none

def Reply.mark (r : Reply) : Option Mark := r.origin.mark (Backend.part r.msg)

def Delivery.mark (d : Delivery) : Option Mark :=
  match d.source with
  | .relayed o => o.mark (Backend.part d.msg)
  | .refusal n => some ⟨n, Backend.part d.msg⟩
  | _ => none

def Act.mark : Act → Option Mark
  | .consumeHidden r => r.mark
  | .failureActive r => r.mark
  | .repairPending r => r.mark
  | .writeClient d => d.mark
  | .markJobDescribed o => o.mark .other
  | .readInTxn o _ => o.mark .error
  | .occIntercept o _ _ => o.mark .error
  | .startRepair o _ => o.mark .other
  | .rewriteCommandTag o _ => o.mark .progress
  | .claimJob o _ => o.mark .progress
  | _ => none

def Mark.From (x y : Mark) : Prop := x.n = y.n ∧ (x.part = y.part ∨ x.part = .other)

def World.incoming (w : World U) : List Mark :=
  w.back.filterMap Act.mark ++ w.fromUp.filterMap Reply.mark

def World.marks (w : World U) : List Mark := w.got.filterMap Delivery.mark ++ w.incoming

section Marks

variable {s : Session} {now : Nat} {jobID : String} {a b : Act} {rest : List Act} {o : Origin}
  {p : Part} {x y z : Mark}

theorem Mark.From.refl (x : Mark) : x.From x := ⟨rfl, .inl rfl⟩

def Leaves (y : Option Mark) (l : List Act) : Prop :=
  ∀ a ∈ l, ∀ x, a.mark = some x → ∃ z, y = some z ∧ x.From z

theorem relay_leaves (r : Reply) : Leaves r.mark (relay D r) := by
  obtain ⟨o, m⟩ := r
  intro a ha x hx
  cases m with
  | error e =>
    rcases List.mem_cons.1 ha with rfl | ha
    · cases hx
    · split at ha <;> obtain rfl := List.mem_singleton.1 ha <;> exact ⟨x, hx, .refl x⟩
  | parameterStatus name value =>
    obtain rfl := List.mem_singleton.1 ha
    dsimp only at hx
    split at hx <;> exact ⟨x, hx, .refl x⟩
  | ready st =>
    rcases List.mem_cons.1 ha with rfl | ha
    · cases hx
    · obtain rfl := List.mem_singleton.1 ha
      exact ⟨x, hx, .refl x⟩
  | _ =>
    obtain rfl := List.mem_singleton.1 ha
    exact ⟨x, hx, .refl x⟩

theorem leaves_nil {m : Option Mark} : Leaves m [] := by
  intro a ha
  cases ha

theorem leaves_singleton (b : Act) : Leaves b.mark [b] := by
  intro a ha x hx
  obtain rfl := List.mem_singleton.1 ha
  exact ⟨x, hx, .refl x⟩

theorem leaves_of_unmarked {m : Option Mark} {l : List Act} (h : ∀ a ∈ l, a.mark = none) :
    Leaves m l := by
  intro a ha x hx
  cases (h a ha).symm.trans hx

theorem RepairCode.unmarked (h : RepairCode a) : a.mark = none := by
  cases a with
  | writeClient d =>
    obtain ⟨n, hd⟩ := h
    simp [Act.mark, Delivery.mark, hd]
  | _ => first | exact h.elim | rfl

theorem RepairAct.unmarked (h : RepairAct a) : a.mark = none := by
  cases h with
  | code h => exact RepairCode.unmarked h
  | _ => rfl

theorem RelayCode.leaves (h : RelayCode o a) : Leaves a.mark (a.exec D now jobID s).next := by
  cases a with
  | markJobDescribed o' =>
    dsimp only [Act.exec]
    (repeat' split)
    · exact leaves_singleton (.writeClient ⟨.relayed o', .noData⟩)
    · exact leaves_singleton (.writeClient ⟨.relayed o', jobIDRowDescription⟩)
    · exact leaves_singleton (.writeClient ⟨.relayed o', .noData⟩)
  | readInTxn o' e =>
    exact leaves_singleton (.occIntercept o' e s.tracker.inTxn)
  | occIntercept o' e inTxn =>
    dsimp only [Act.exec]
    split
    · exact leaves_nil
    · exact leaves_singleton (.writeClient ⟨.relayed o', .error (rewriteConflictError D e)⟩)
  | rewriteCommandTag o' tag =>
    dsimp only [Act.exec]
    split
    · exact leaves_singleton (.claimJob o' tag)
    · exact leaves_singleton (.writeClient ⟨.relayed o', .commandComplete s.pendingCommandTag⟩)
  | claimJob o' tag =>
    -- the row description and the row of a job stand in for its command tag
    have hall : ∀ b ∈ ((Act.claimJob o' tag).exec D now jobID s).next, ∃ m : Backend,
        b = .writeClient ⟨.relayed o', m⟩ ∧
            (Backend.part m = .progress ∨ Backend.part m = .other) := by
      dsimp only [Act.exec]
      (repeat' split) <;>
        simp [Backend.part, Backend.isError, Backend.isProgress, jobIDRowDescription, jobIDDataRow]
    intro b hb x hx
    obtain ⟨m, rfl, hm⟩ := hall b hb
    cases o' with
    | client n => cases hx; exact ⟨_, rfl, rfl, hm⟩
    | _ => cases hx
  | _ => first | exact h.elim | (dsimp only [Act.exec]; (repeat' split) <;> exact leaves_nil)

theorem exec_leaves (h : BackMode (a :: rest)) : Leaves a.mark (a.exec D now jobID s).next := by
  cases h with
  | reading => exact leaves_nil
  | @offering r =>
    dsimp only [Act.exec]
    split
    · exact leaves_singleton (.failureActive r)
    · split
      · exact leaves_of_unmarked (by simp [Act.mark])
      · dsimp only
        split
        · exact leaves_singleton (.writeClient ⟨.relayed r.origin, r.msg⟩)
        · exact leaves_nil
  | @checking r =>
    dsimp only [Act.exec]
    split
    · refine leaves_of_unmarked ?_
      dsimp only
      split <;> simp [Act.mark]
    · split
      · exact relay_leaves r
      · exact leaves_singleton (.repairPending r)
  | @pending r =>
    dsimp only [Act.exec]
    split
    · exact leaves_nil
    · exact relay_leaves r
  | failing =>
    refine leaves_of_unmarked ?_
    dsimp only [Act.exec]
    (repeat' split) <;> simp [Act.mark, Delivery.mark]
  | failed => exact leaves_nil
  | ending => exact leaves_of_unmarked fun b hb => (finish_repair _ b hb).unmarked
  | readying => exact leaves_nil
  | @starting o st =>
    dsimp only [Act.exec]
    split
    · exact leaves_of_unmarked (by simp [Act.mark])
    · intro b hb x hx
      simp only [List.mem_cons, List.not_mem_nil, or_false] at hb
      rcases hb with rfl | rfl | rfl
      · cases hx
      · cases hx
      · exact ⟨x, hx, .refl x⟩
  | restoring => exact leaves_of_unmarked (by simp [Act.mark])
  | relaying h => exact (h a List.mem_cons_self).leaves
  | repairing h =>
    exact leaves_of_unmarked fun b hb => (exec_repair (h a List.mem_cons_self) b hb).unmarked

end Marks

section Batches

variable {sent : List Frontend} {k n m : Nat} {x x' y z : Mark}

def Batched (sent : List Frontend) (n m : Nat) : Prop :=
  n ≤ m ∧ ∀ k, n ≤ k → k ≤ m → ∃ x, sent[k]? = some x ∧ x.tag.extended = true

def SameBatch (sent : List Frontend) (n m : Nat) : Prop := Batched sent n m ∨ Batched sent m n

theorem Batched.of_append {m' : Frontend} (h : Batched (sent ++ [m']) n m) (hm : m < sent.length) :
    Batched sent n m := by
  refine ⟨h.1, fun k hn hk => ?_⟩
  rw [← List.getElem?_append_left (Nat.lt_of_le_of_lt hk hm)]
  exact h.2 k hn hk

theorem Batched.left (h : Batched sent n m) : Batched sent n n :=
  ⟨Nat.le_refl n, fun k hn hk => h.2 k hn (hk.trans h.1)⟩

theorem Batched.extended (h : Batched sent n m) : Extended sent n := h.2 n (Nat.le_refl n) h.1

theorem not_batched {x : Frontend} (hx : sent[k]? = some x) (ht : x.tag.extended = false)
    (hn : n ≤ k) (hm : k ≤ m) : ¬ Batched sent n m := by
  intro h
  obtain ⟨x', hx', hext⟩ := h.2 k hn hm
  obtain rfl : x = x' := Option.some.inj (hx.symm.trans hx')
  cases ht.symm.trans hext

def Mark.Ok (sent : List Frontend) (x y : Mark) : Prop :=
  x.n ≤ y.n ∧ (x.part = .error → y.part = .progress → ¬ Batched sent x.n y.n)

theorem Mark.Ok.from_left (h : y.Ok sent z) (hx : x.From y) : x.Ok sent z := by
  refine ⟨hx.1 ▸ h.1, fun he hp => ?_⟩
  rw [hx.1]
  exact h.2 ((hx.2.resolve_right (by simp [he])).symm.trans he) hp

theorem Mark.Ok.from_right (h : z.Ok sent y) (hx : x.From y) : z.Ok sent x := by
  refine ⟨hx.1 ▸ h.1, fun he hp => ?_⟩
  rw [hx.1]
  exact h.2 he ((hx.2.resolve_right (by simp [hp])).symm.trans hp)

theorem Mark.From.ok (hx : x.From y) (hx' : x'.From y) : x.Ok sent x' := by
  refine ⟨(hx.1.trans hx'.1.symm).le, fun he hp => ?_⟩
  have hy : y.part = .error := (hx.2.resolve_right (by simp [he])).symm.trans he
  cases hy.symm.trans ((hx'.2.resolve_right (by simp [hp])).symm.trans hp)

theorem pairwise_from {xs ys zs : List Mark} {y : Option Mark}
    (h : (xs ++ (y.toList ++ zs)).Pairwise (Mark.Ok sent))
    (hys : ∀ x ∈ ys, ∃ z, y = some z ∧ x.From z) : (xs ++ (ys ++ zs)).Pairwise (Mark.Ok sent) := by
  rw [List.pairwise_append, List.pairwise_append] at h ⊢
  obtain ⟨hxs, ⟨-, hzs, hyz⟩, hx⟩ := h
  refine ⟨hxs, ⟨List.pairwise_of_forall_mem_list fun a ha b hb => ?_, hzs, fun a ha z hz => ?_⟩,
    fun a ha b hb => ?_⟩
  · obtain ⟨z, rfl, haz⟩ := hys a ha
    obtain ⟨z', hz', hbz⟩ := hys b hb
    cases hz'
    exact haz.ok hbz
  · obtain ⟨y, rfl, hay⟩ := hys a ha
    exact (hyz y (by simp) z hz).from_left hay
  · rcases List.mem_append.1 hb with hb | hb
    · obtain ⟨y, rfl, hby⟩ := hys b hb
      exact (hx a ha y (by simp)).from_right hby
    · exact hx a ha b (List.mem_append_right _ hb)

theorem Mark.Ok.append {m' : Frontend} (h : x.Ok sent y) (hy : y.n < sent.length) :
    x.Ok (sent ++ [m']) y :=
  ⟨h.1, fun he hp hb => h.2 he hp (hb.of_append hy)⟩

end Batches

def Request.opens (b : Bool) (q : Request) : Bool :=
  match q.origin with
  | .client _ => if q.msg.tag.extended then true else if q.msg.tag = .sync then false else b
  | _ => b

def batchOpen (qs : List Request) : Bool := qs.foldl Request.opens false

def Origin.number : Origin → Option Nat
  | .client n => some n
  | _ => none

def OwnClosed : Bool → List Request → Prop
  | _, [] => True
  | b, q :: qs => (q.origin.number = none → b = false) ∧ OwnClosed (q.opens b) qs

section Requests

variable {b : Bool} {l r : List Request} {q : Request}

theorem ownClosed_append :
    OwnClosed b (l ++ r) ↔ OwnClosed b l ∧ OwnClosed (l.foldl Request.opens b) r := by
  induction l generalizing b with
  | nil => simp [OwnClosed]
  | cons q l ih => simp only [List.cons_append, OwnClosed, ih, List.foldl_cons, and_assoc]

theorem opens_own (h : q.origin.number = none) : q.opens b = b := by
  unfold Request.opens
  split
  · rename_i n hn
    simp [hn, Origin.number] at h
  · rfl

theorem ownClosed_own (h : ∀ q ∈ l, q.origin.number = none) : OwnClosed false l := by
  induction l with
  | nil => trivial
  | cons q l ih =>
    refine ⟨fun _ => rfl, ?_⟩
    rw [opens_own (h q (by simp))]
    exact ih fun q hq => h q (by simp [hq])

theorem ownClosed_client (h : ∀ q ∈ l, q.origin.number ≠ none) : OwnClosed b l := by
  induction l generalizing b with
  | nil => trivial
  | cons q l ih => exact ⟨fun hq => absurd hq (h q (by simp)), ih fun q hq => h q (by simp [hq])⟩

theorem batchOpen_append : batchOpen (l ++ [q]) = q.opens (batchOpen l) := by
  simp [batchOpen]

end Requests

/-- A backend that stops at an error in an extended batch and discards what follows
up to `Sync`. -/
structure Upstream.Skips (U : Upstream) where
  skipping : U.State → Bool
  fails : ∀ st m c, m.tag.extended = true → (U.answer st m c).2.any Backend.isError = true →
    skipping (U.answer st m c).1 = true
  stops : ∀ st m c, m.tag.extended = true →
    (U.answer st m c).2.Pairwise fun a b => a.isError = true → b.isProgress = false
  drops : ∀ st m c, skipping st = true → m.tag ≠ .sync →
    skipping (U.answer st m c).1 = true ∧ ∀ b ∈ (U.answer st m c).2, b.isReady = true

def Act.refusing : Act → Option Nat
  | .writeClient ⟨.refusal n, _⟩ => some n
  | _ => none

def World.isQuery (w : World U) (n : Nat) : Bool := w.sent[n]?.any (·.tag = .query)

/-- A refusal is written when everything of the client's is answered and delivered,
the emulator's own statements are written outside the client's batches, and only
simple queries are taken over. -/
def Orderly (l : Label U) (w : World U) : Prop :=
  (∀ _n ∈ (l.act w).bind Act.refusing, w.incoming = [] ∧ w.toUp.filterMap (·.origin.number) = []) ∧
  (∀ o ∈ (l.act w).bind Act.writing, o.number = none → batchOpen w.written = false) ∧
  ∀ inTxn ∈ (l.act w).bind Act.intercepting, ∀ n ∈ w.sess.takesOver inTxn, w.isQuery n = true

instance (l : Label U) (w : World U) : Decidable (Orderly l w) :=
  inferInstanceAs (Decidable (_ ∧ _ ∧ _))

def World.answered (w : World U) : List Request := w.written.take (w.written.length - w.toUp.length)

def Shut (S : U.Skips) (w : World U) (n : Nat) : Prop :=
  (Dropped w n ∧ ∀ q ∈ w.toUp, ∀ m, q.origin = .client m → ¬ Batched w.sent n m) ∨
    (S.skipping w.up = true ∧ batchOpen w.answered = true)

structure InOrder (S : U.Skips) (w : World U) : Prop where
  tags : ∀ q ∈ w.written, ∀ n, q.origin = .client n → ∃ m, w.sent[n]? = some m ∧ m.tag = q.msg.tag
  own : OwnClosed false w.written
  marks : w.marks.Pairwise (Mark.Ok w.sent)
  read : ∀ x ∈ w.marks, x.n < w.read
  before : ∀ x ∈ w.marks, ∀ q ∈ w.toUp, ∀ n, q.origin = .client n → x.n ≤ n
  shut : ∀ x ∈ w.marks, x.part = .error → Batched w.sent x.n x.n → Shut S w x.n

section Steps

variable {S : U.Skips} {w w' : World U} {n : Nat} {a : Act} {rest : List Act}

theorem InOrder.start : InOrder S (World.start D U) := by
  constructor <;> simp [World.start, World.marks, World.incoming, OwnClosed]

theorem answered_append (ho : Ordered w) : w.answered ++ w.toUp = w.written :=
  List.suffix_iff_eq_append.1 ho.toUp

theorem answered_write {qs : List Request} (ho : Ordered w) (hw : w'.written = w.written ++ qs)
    (hup : w'.toUp = w.toUp ++ qs) (ho' : Ordered w') : w'.answered = w.answered := by
  have h := answered_append ho'
  rw [hw, hup, ← answered_append ho, List.append_assoc] at h
  exact List.append_cancel_right h

theorem answered_answer {q : Request} {qs : List Request} (ho : Ordered w)
    (hw : w'.written = w.written) (hq : w.toUp = q :: qs) (hup : w'.toUp = qs) (ho' : Ordered w') :
    w'.answered = w.answered ++ [q] := by
  have h := answered_append ho'
  rw [hw, hup, ← answered_append ho, hq, List.append_cons] at h
  exact List.append_cancel_right h

theorem Dropped.not_forwarded {m : Frontend} (h : Dropped w n) (hr : Refusing w) (hn : n < w.read)
    (hf : .writeUpstream (.client (w.read - 1)) [m] ∈ w.front)
    (hm : ∃ m', w.sent[w.read - 1]? = some m' ∧ m'.tag = m.tag) :
    ¬ Batched w.sent n (w.read - 1) := by
  obtain ⟨m', hm', htag⟩ := hm
  rcases h.forwarded hr hf with ⟨k, x, hnk, hk, hx, hsync⟩ | rfl
  · exact not_batched hx (by rw [hsync]; rfl) hnk.le (Nat.le_sub_one_of_lt hk)
  · exact not_batched hm' (by rw [htag]; rfl) (Nat.le_sub_one_of_lt hn) (Nat.le_refl _)

theorem Shut.front {now : Nat} {jobID : String} (h : Shut S w n) (ht : Threads w) (ho : Ordered w)
    (hr : Refusing w) (ho' : Ordered (w.applyFront rest (a.exec D now jobID w.sess)))
    (hf : w.front = a :: rest) (hn : n < w.read) (hext : Batched w.sent n n) :
    Shut S (w.applyFront rest (a.exec D now jobID w.sess)) n := by
  rcases h with ⟨hdrop, hup⟩ | ⟨hskip, hopen⟩
  · refine .inl ⟨hdrop.moves ht hr hn hext.extended (.front hf), fun q hq m hm => ?_⟩
    rcases List.mem_append.1 hq with hq | hq
    · exact hup q hq m hm
    · obtain ⟨ms, rfl⟩ := exec_up_client hq hm
      obtain ⟨x, hx, ha⟩ := ht.head hf
      cases ha with
      | code ha =>
        obtain ⟨rfl, m', rfl, htag⟩ := ha
        exact hdrop.not_forwarded hr hn (by simp [hf]) ⟨x, hx, htag.symm⟩
  · refine .inr ⟨hskip, ?_⟩
    rw [answered_write ho rfl rfl ho']
    exact hopen

theorem InOrder.tags_front {now : Nat} {jobID : String} (h : InOrder S w) (ht : Threads w)
    (hf : w.front = a :: rest) :
    ∀ q ∈ w.written ++ (a.exec D now jobID w.sess).up, ∀ n, q.origin = .client n →
      ∃ m, w.sent[n]? = some m ∧ m.tag = q.msg.tag := by
  intro q hq n hn
  rcases List.mem_append.1 hq with hq | hq
  · exact h.tags q hq n hn
  · obtain ⟨ms, rfl⟩ := exec_up_client hq hn
    obtain ⟨x, hx, ha⟩ := ht.head hf
    cases ha with
    | code ha =>
      obtain ⟨rfl, m', rfl, htag⟩ := ha
      obtain rfl := List.mem_singleton.1 hq
      exact ⟨x, hx, htag.symm⟩

theorem InOrder.own_exec {l : Label U} {now : Nat} {jobID : String} (h : InOrder S w)
    (hok : Orderly l w) (ha : l.act w = some a) :
    OwnClosed false (w.written ++ (a.exec D now jobID w.sess).up) := by
  rw [ownClosed_append]
  refine ⟨h.own, ?_⟩
  by_cases hw : ∃ o ms, a = .writeUpstream o ms
  · obtain ⟨o, ms, rfl⟩ := hw
    cases ho : o.number with
    | none =>
      have hclosed : batchOpen w.written = false := hok.2.1 o (by rw [ha]; rfl) ho
      change OwnClosed (batchOpen w.written) _
      rw [hclosed]
      refine ownClosed_own fun q hq => ?_
      obtain ⟨m, -, rfl⟩ := List.mem_map.1 hq
      exact ho
    | some n =>
      refine ownClosed_client fun q hq => ?_
      obtain ⟨m, -, rfl⟩ := List.mem_map.1 hq
      simp [ho]
  · rw [exec_up fun o ms h => hw ⟨o, ms, h⟩]
    trivial

theorem InOrder.refuse {d : Delivery} {m : Frontend} (h : InOrder S w) (ht : Threads w)
    (hr : Refusing w) (hf : w.front = .writeClient d :: rest) (hsent : w.sent[w.read - 1]? = some m)
    (hsource : d.source = .refusal (w.read - 1)) (hmsg : Backend.part d.msg ≠ .progress)
    (hin : w.incoming = []) (hup : w.toUp.filterMap (·.origin.number) = [])
    (hshut : ∀ n, n < w.read → Batched w.sent n n → Shut S w n →
      Shut S (w.applyFront rest ⟨w.sess, [], [], [d], [], []⟩) n) :
    InOrder S (w.applyFront rest ⟨w.sess, [], [], [d], [], []⟩) := by
  have hpos : 0 < w.read := by
    obtain ⟨_, hpos, -⟩ := ht.front (by simp [hf])
    exact hpos
  have hmark : d.mark = some ⟨w.read - 1, Backend.part d.msg⟩ := by simp [Delivery.mark, hsource]
  have hmarks : (w.applyFront rest ⟨w.sess, [], [], [d], [], []⟩).marks = w.marks ++
      [⟨w.read - 1, Backend.part d.msg⟩] := by
    change (w.got ++ [d]).filterMap Delivery.mark ++ w.incoming = (_ ++ w.incoming) ++ _
    rw [hin, List.filterMap_append, List.append_nil, List.append_nil, List.filterMap_cons, hmark]
    rfl
  have hclient : ∀ q ∈ w.toUp, ∀ n, q.origin ≠ .client n := by
    intro q hq n hn
    have := List.filterMap_eq_nil_iff.1 hup q hq
    simp [hn, Origin.number] at this
  have htoUp : (w.applyFront rest ⟨w.sess, [], [], [d], [], []⟩).toUp = w.toUp := List.append_nil _
  refine ⟨?_, ?_, ?_, fun x hx => ?_, fun x hx q hq n hn => ?_, fun x hx he hext => ?_⟩
  · exact fun q hq => h.tags q ((List.mem_append.1 hq).resolve_right (by simp))
  · change OwnClosed false (w.written ++ [])
    rw [List.append_nil]
    exact h.own
  · rw [hmarks, List.pairwise_append]
    refine ⟨h.marks, List.pairwise_singleton _ _, fun x hx y hy => ?_⟩
    obtain rfl := List.mem_singleton.1 hy
    exact ⟨Nat.le_sub_one_of_lt (h.read x hx), fun _ hp => absurd hp hmsg⟩
  · rw [hmarks] at hx
    rcases List.mem_append.1 hx with hx | hx
    · exact h.read x hx
    · obtain rfl := List.mem_singleton.1 hx
      exact Nat.sub_lt hpos Nat.one_pos
  · exact absurd hn (hclient q (htoUp ▸ hq) n)
  · rw [hmarks] at hx
    rcases List.mem_append.1 hx with hx | hx
    · exact hshut x.n (h.read x hx) hext (h.shut x hx he hext)
    · obtain rfl := List.mem_singleton.1 hx
      obtain ⟨m', hm', hext⟩ := hext.2 _ (Nat.le_refl _) (Nat.le_refl _)
      obtain rfl : m = m' := Option.some.inj (hsent.symm.trans hm')
      -- the rest of the acts make the session drop the rest of the batch
      have hrefuses := hr.refuses m hsent hext
      rw [hf] at hrefuses
      refine .inl ⟨.inr (.inr ?_), fun q hq n hn => absurd hn (hclient q (htoUp ▸ hq) n)⟩
      obtain ⟨b, hb, hs⟩ := hrefuses.1 rfl
      exact List.any_eq_true.2 ⟨b, hb, hs⟩

theorem frontAct_delivery {m : Frontend} {d : Delivery} (h : FrontAct n m a)
    (hd : a.delivery = some d) :
    a = .writeClient d ∧ d.source = .refusal n ∧ Backend.part d.msg ≠ .progress := by
  cases h with
  | code h =>
    cases a <;> cases hd
    obtain ⟨hs, ⟨e, he⟩ | ⟨-, st, hst⟩⟩ := h
    · exact ⟨rfl, hs, by simp [Backend.part, he, Backend.isError]⟩
    · exact ⟨rfl, hs, by simp [Backend.part, hst, Backend.isError, Backend.isProgress]⟩
  | _ => cases hd

theorem InOrder.front {now : Nat} {jobID : String} (h : InOrder S w) (ht : Threads w)
    (ho : Ordered w) (hr : Refusing w)
    (ho' : Ordered (w.applyFront rest (a.exec D now jobID w.sess))) (hf : w.front = a :: rest)
    (hok : Orderly (.front now jobID) w) :
    InOrder S (w.applyFront rest (a.exec D now jobID w.sess)) := by
  have hact : (Label.front now jobID : Label U).act w = some a := Label.act_front hf
  obtain ⟨m, hm, ha⟩ := ht.head hf
  have hshut : ∀ n, n < w.read → Batched w.sent n n → Shut S w n →
      Shut S (w.applyFront rest (a.exec D now jobID w.sess)) n :=
    fun n hn hext hs => hs.front ht ho hr ho' hf hn hext
  cases hd : a.delivery with
  | some d =>
    obtain ⟨rfl, hsource, hmsg⟩ := frontAct_delivery ha hd
    have hrefusing : (Act.writeClient d).refusing = some (w.read - 1) := by
      obtain ⟨_, msg⟩ := d
      cases hsource
      rfl
    obtain ⟨hin, hup⟩ := hok.1 (w.read - 1) (by rw [hact]; exact hrefusing)
    exact h.refuse ht hr hf hm hsource hmsg hin hup hshut
  | none =>
    have hclient : (a.exec D now jobID w.sess).client = [] := by rw [exec_client, hd]; rfl
    have hmarks : (w.applyFront rest (a.exec D now jobID w.sess)).marks = w.marks := by
      change (w.got ++ _).filterMap Delivery.mark ++ w.incoming = _
      rw [hclient, List.append_nil]
      rfl
    refine ⟨h.tags_front ht hf, h.own_exec hok hact, hmarks ▸ h.marks, hmarks ▸ h.read,
      fun x hx q hq n hn => ?_, fun x hx he hext => ?_⟩
    · rw [hmarks] at hx
      rcases List.mem_append.1 hq with hq | hq
      · exact h.before x hx q hq n hn
      · obtain ⟨ms, rfl⟩ := exec_up_client hq hn
        cases ha with
        | code ha =>
          obtain ⟨rfl, -⟩ := ha
          exact Nat.le_sub_one_of_lt (h.read x hx)
    · rw [hmarks] at hx
      exact hshut x.n (h.read x hx) hext (h.shut x hx he hext)

theorem InOrder.back (h : InOrder S w) (ht : Threads w) (ho : Ordered w) (hr : Refusing w)
    (ho' : Ordered (w.applyBack rest (a.exec D 0 "" w.sess))) (hb : w.back = a :: rest)
    (hok : Orderly (.back) w) : InOrder S (w.applyBack rest (a.exec D 0 "" w.sess)) := by
  have hact : (Label.back : Label U).act w = some a := Label.act_back hb
  have hmode : BackMode (a :: rest) := hb ▸ ht.back
  let ys := (a.exec D 0 "" w.sess).client.filterMap Delivery.mark ++
    (a.exec D 0 "" w.sess).next.filterMap Act.mark
  let zs := rest.filterMap Act.mark ++ w.fromUp.filterMap Reply.mark
  have hold : w.marks = w.got.filterMap Delivery.mark ++ (a.mark.toList ++ zs) := by
    unfold World.marks World.incoming
    rw [hb, List.filterMap_cons]
    cases a.mark <;> simp [zs]
  have hnew : (w.applyBack rest (a.exec D 0 "" w.sess)).marks = w.got.filterMap Delivery.mark ++
      (ys ++ zs) := by
    simp [World.marks, World.incoming, World.applyBack, ys, zs]
  have hfrom : ∀ x ∈ ys, ∃ y, a.mark = some y ∧ x.From y := by
    intro x hx
    rcases List.mem_append.1 hx with hx | hx
    · obtain ⟨d, hd, hdx⟩ := List.mem_filterMap.1 hx
      rw [exec_client, Option.mem_toList] at hd
      cases a <;> cases hd
      exact ⟨x, hdx, .refl x⟩
    · obtain ⟨b, hb, hbx⟩ := List.mem_filterMap.1 hx
      exact exec_leaves hmode b hb x hbx
  -- every mark comes from one that was there
  have hmem : ∀ x ∈ (w.applyBack rest (a.exec D 0 "" w.sess)).marks, ∃ y ∈ w.marks, x.From y := by
    intro x hx
    rw [hnew] at hx
    rw [hold]
    rcases List.mem_append.1 hx with hx | hx
    · exact ⟨x, List.mem_append_left _ hx, .refl x⟩
    · rcases List.mem_append.1 hx with hx | hx
      · obtain ⟨y, hy, hxy⟩ := hfrom x hx
        exact ⟨y, by simp [hy], hxy⟩
      · exact ⟨x, by simp [hx], .refl x⟩
  have hup : ∀ q ∈ (a.exec D 0 "" w.sess).up, ∀ n, q.origin ≠ .client n :=
    fun q hq => exec_mode_up hmode hq
  refine ⟨fun q hq n hn => ?_, h.own_exec hok hact, ?_, fun x hx => ?_, fun x hx q hq n hn => ?_,
    fun x hx he hext => ?_⟩
  · exact h.tags q ((List.mem_append.1 hq).resolve_right fun hq => hup q hq n hn) n hn
  · rw [hnew]
    exact pairwise_from (hold ▸ h.marks) hfrom
  · obtain ⟨y, hy, hxy⟩ := hmem x hx
    exact hxy.1 ▸ h.read y hy
  · obtain ⟨y, hy, hxy⟩ := hmem x hx
    exact hxy.1 ▸ h.before y hy q ((List.mem_append.1 hq).resolve_right fun hq =>
      hup q hq n hn) n hn
  · obtain ⟨y, hy, hxy⟩ := hmem x hx
    have hye : y.part = .error := (hxy.2.resolve_right (by simp [he])).symm.trans he
    rw [hxy.1] at hext ⊢
    rcases h.shut y hy hye hext with ⟨hdrop, hups⟩ | ⟨hskip, hopen⟩
    · refine .inl ⟨hdrop.moves ht hr (h.read y hy) hext.extended (.back hb), fun q hq m hm => ?_⟩
      exact hups q ((List.mem_append.1 hq).resolve_right fun hq => hup q hq m hm) m hm
    · refine .inr ⟨hskip, ?_⟩
      rw [answered_write ho rfl rfl ho']
      exact hopen

theorem part_error {b : Backend} : Backend.part b = .error ↔ b.isError = true := by
  unfold Backend.part
  split <;> simp_all
  split <;> simp

theorem part_progress {b : Backend} (h : Backend.part b = .progress) : b.isProgress = true := by
  unfold Backend.part at h
  split at h
  · cases h
  · split at h
    · assumption
    · cases h

theorem isReady_not_progress {b : Backend} (h : b.isReady = true) : b.isProgress = false := by
  cases b <;> first | rfl | cases h

theorem incoming_applyAnswer {q : Request} {qs : List Request} {e : U.State × List Backend} :
    (w.applyAnswer q qs e).incoming = w.incoming ++ e.2.filterMap fun b => q.origin.mark
      (Backend.part b) := by
  unfold World.incoming World.applyAnswer
  simp only [List.filterMap_append, List.append_assoc, List.filterMap_map]
  rfl

theorem marks_applyAnswer {q : Request} {qs : List Request} {e : U.State × List Backend} :
    (w.applyAnswer q qs e).marks = w.marks ++ e.2.filterMap fun b => q.origin.mark
      (Backend.part b) := by
  rw [World.marks, World.marks, incoming_applyAnswer, List.append_assoc]
  rfl

theorem Ordered.toUp_lt {q q' : Request} {qs : List Request} {m n : Nat} (ho : Ordered w)
    (hq : w.toUp = q :: qs) (hm : q.origin = .client m) (hq' : q' ∈ qs)
    (hn : q'.origin = .client n) : m < n := by
  have hpair := ho.written.sublist ho.toUp.sublist
  rw [hq, List.pairwise_cons] at hpair
  have hlt := hpair.1 q' hq'
  rwa [hm, hn] at hlt

theorem Shut.answer {q : Request} {qs : List Request} {c : U.Choice} (h : Shut S w n)
    (hi : InOrder S w) (ho : Ordered w) (ho' : Ordered (w.applyAnswer q qs (U.answer w.up q.msg c)))
    (hq : w.toUp = q :: qs) (hext : Batched w.sent n n) (hn : ∀ m, q.origin = .client m → n ≤ m) :
    Shut S (w.applyAnswer q qs (U.answer w.up q.msg c)) n := by
  have hmem : q ∈ w.written := ho.toUp.subset (by simp [hq])
  rcases h with ⟨hdrop, hups⟩ | ⟨hskip, hopen⟩
  · exact .inl ⟨hdrop, fun q' hq' => hups q' (by simp [hq, show q' ∈ qs from hq'])⟩
  · cases hnum : q.origin.number with
    | none =>
      -- one of the emulator's own would stand inside the batch
      have hown := hi.own
      rw [← answered_append ho, hq, ownClosed_append] at hown
      cases hopen.symm.trans (hown.2.1 hnum)
    | some m =>
      obtain hm : q.origin = .client m := by
        cases ho : q.origin with
        | client k => simpa [ho, Origin.number] using hnum
        | _ => simp [ho, Origin.number] at hnum
      obtain ⟨x, hx, htag⟩ := hi.tags q hmem m hm
      by_cases hsync : q.msg.tag = .sync
      · have hlt : n < m := by
          refine lt_of_le_of_ne (hn m hm) ?_
          rintro rfl
          exact not_batched hx (by rw [htag, hsync]; rfl) (Nat.le_refl _) (Nat.le_refl _) hext
        refine .inl ⟨.inl ⟨m, x, hlt, ho.read q hmem m hm, hx, htag.trans hsync⟩,
          fun q' hq' m' hm' => ?_⟩
        exact not_batched hx (by rw [htag, hsync]; rfl) hlt.le (ho.toUp_lt hq hm hq' hm').le
      · refine .inr ⟨(S.drops w.up q.msg c hskip hsync).1, ?_⟩
        have hanswered : (w.applyAnswer q qs (U.answer w.up q.msg c)).answered =
            w.answered ++ [q] :=
          answered_answer ho rfl hq rfl ho'
        rw [hanswered, batchOpen_append, hopen]
        simp [Request.opens, hm, hsync]

theorem InOrder.marks_answer {q : Request} {qs : List Request} {c : U.Choice} {m : Nat}
    (h : InOrder S w) (ho : Ordered w) (hq : w.toUp = q :: qs) (hm : q.origin = .client m) :
    (w.marks ++ (U.answer w.up q.msg c).2.map fun b => (⟨m, Backend.part b⟩ : Mark)).Pairwise
      (Mark.Ok w.sent) := by
  obtain ⟨m', hm', htag⟩ := h.tags q (ho.toUp.subset (by simp [hq])) m hm
  rw [List.pairwise_append, List.pairwise_map]
  refine ⟨h.marks, ?_, fun x hx y hy => ?_⟩
  · by_cases hx : q.msg.tag.extended = true
    · refine (S.stops w.up q.msg c hx).imp fun hab => ⟨Nat.le_refl m, fun he hp => ?_⟩
      cases (hab (part_error.1 he)).symm.trans (part_progress hp)
    · refine List.pairwise_of_forall_mem_list fun _ _ _ _ => ⟨Nat.le_refl m, fun _ _ => ?_⟩
      exact not_batched hm' (by simpa [htag] using hx) (Nat.le_refl _) (Nat.le_refl _)
  · obtain ⟨b, hb, rfl⟩ := List.mem_map.1 hy
    refine ⟨h.before x hx q (by simp [hq]) m hm, fun he hp hbatch => ?_⟩
    rcases h.shut x hx he hbatch.left with ⟨-, hups⟩ | ⟨hskip, -⟩
    · exact hups q (by simp [hq]) m hm hbatch
    · have hsync : q.msg.tag ≠ .sync := by
        intro hsync
        exact not_batched hm' (by rw [htag, hsync]; rfl) hbatch.1 (Nat.le_refl m) hbatch
      have hquiet := isReady_not_progress ((S.drops w.up q.msg c hskip hsync).2 b hb)
      cases hquiet.symm.trans (part_progress hp)

theorem InOrder.answer {q : Request} {qs : List Request} {c : U.Choice} (h : InOrder S w)
    (ho : Ordered w) (ho' : Ordered (w.applyAnswer q qs (U.answer w.up q.msg c)))
    (hq : w.toUp = q :: qs) : InOrder S (w.applyAnswer q qs (U.answer w.up q.msg c)) := by
  have hmem : q ∈ w.written := ho.toUp.subset (by simp [hq])
  have hsub : ∀ q' ∈ qs, q' ∈ w.toUp := fun q' hq' => by simp [hq, hq']
  have hold : ∀ x ∈ w.marks, x.part = .error → Batched w.sent x.n x.n →
      Shut S (w.applyAnswer q qs (U.answer w.up q.msg c)) x.n :=
    fun x hx he hext => (h.shut x hx he hext).answer h ho ho' hq hext
      (h.before x hx q (by simp [hq]))
  cases hm : q.origin with
  | client m =>
    have hmarks : (w.applyAnswer q qs (U.answer w.up q.msg c)).marks =
        w.marks ++ (U.answer w.up q.msg c).2.map fun b => ⟨m, Backend.part b⟩ := by
      rw [marks_applyAnswer, hm, ← List.filterMap_eq_map]
      rfl
    have hcases : ∀ x ∈ (w.applyAnswer q qs (U.answer w.up q.msg c)).marks, x ∈ w.marks ∨
        ∃ b ∈ (U.answer w.up q.msg c).2, ⟨m, Backend.part b⟩ = x := by
      intro x hx
      rw [hmarks] at hx
      exact (List.mem_append.1 hx).imp_right List.mem_map.1
    refine ⟨h.tags, h.own, hmarks ▸ h.marks_answer ho hq hm, fun x hx => ?_,
      fun x hx q' hq' n hn => ?_, fun x hx he hext => ?_⟩
    · rcases hcases x hx with hx | ⟨b, -, rfl⟩
      · exact h.read x hx
      · exact ho.read q hmem m hm
    · rcases hcases x hx with hx | ⟨b, -, rfl⟩
      · exact h.before x hx q' (hsub q' hq') n hn
      · exact Nat.le_of_lt (ho.toUp_lt hq hm hq' hn)
    · rcases hcases x hx with hx | ⟨b, hb, rfl⟩
      · exact hold x hx he hext
      · -- the upstream skips the rest of the batch
        obtain ⟨m', hm', htag⟩ := h.tags q hmem m hm
        obtain ⟨m'', hm'', hx⟩ := hext.2 m (Nat.le_refl m) (Nat.le_refl m)
        obtain rfl : m' = m'' := Option.some.inj (hm'.symm.trans hm'')
        rw [htag] at hx
        refine .inr ⟨S.fails w.up q.msg c hx (List.any_eq_true.2 ⟨b, hb, part_error.1 he⟩), ?_⟩
        have hanswered : (w.applyAnswer q qs (U.answer w.up q.msg c)).answered =
            w.answered ++ [q] :=
          answered_answer ho rfl hq rfl ho'
        rw [hanswered, batchOpen_append]
        simp [Request.opens, hm, hx]
  | _ =>
    have hmarks : (w.applyAnswer q qs (U.answer w.up q.msg c)).marks = w.marks := by
      rw [marks_applyAnswer, hm]
      simp [Origin.mark]
    exact ⟨h.tags, h.own, hmarks ▸ h.marks, hmarks ▸ h.read,
      fun x hx q' hq' => h.before x (hmarks ▸ hx) q' (hsub q' hq'), fun x hx =>
        hold x (hmarks ▸ hx)⟩

theorem InOrder.send {m : Frontend} (h : InOrder S w) (ht : Threads w) (ho : Ordered w) :
    InOrder S { w with inbox := w.inbox ++ [m], sent := w.sent ++ [m] } := by
  have hle := ht.read_le
  have hkeep : ∀ k x, w.sent[k]? = some x → (w.sent ++ [m])[k]? = some x := fun k x hx =>
    (List.getElem?_append_left (List.getElem?_eq_some_iff.1 hx).1).trans hx
  refine ⟨fun q hq n hn => ?_, h.own, ?_, h.read, h.before, fun x hx he hext => ?_⟩
  · obtain ⟨x, hx, htag⟩ := h.tags q hq n hn
    exact ⟨x, hkeep n x hx, htag⟩
  · exact h.marks.imp_of_mem fun _ hy hok => hok.append ((h.read _ hy).trans_le hle)
  · have hold : Batched w.sent x.n x.n := hext.of_append ((h.read x hx).trans_le hle)
    refine (h.shut x hx he hold).imp (And.imp Dropped.send ?_) id
    intro hups q hq n hn hb
    exact hups q hq n hn (hb.of_append ((ho.read q (ho.toUp.subset hq) n hn).trans_le hle))

theorem pumpBackend_mark (r : Reply) : (pumpBackend r).filterMap Act.mark = r.mark.toList := by
  unfold pumpBackend
  split <;> simp only [List.filterMap_cons, Act.mark] <;> cases r.mark <;> rfl

theorem incoming_readUpstream {r : Reply} {rest : List Reply} (hb : w.back = [])
    (hu : w.fromUp = r :: rest) :
    World.incoming { w with back := pumpBackend r, fromUp := rest } = w.incoming := by
  unfold World.incoming
  rw [hb, hu, pumpBackend_mark, List.filterMap_cons]
  cases r.mark <;> rfl

theorem InOrder.moves {l : Label U} (h : InOrder S w) (ht : Threads w) (ho : Ordered w)
    (hr : Refusing w) (hok : Orderly l w) (hm : Moves D l w w') : InOrder S w' := by
  have ho' : Ordered w' := ho.moves ht hm
  cases hm with
  | send => exact h.send ht ho
  | readClient hf hi hc =>
    refine ⟨h.tags, h.own, h.marks, fun x hx => Nat.lt_succ_of_lt (h.read x hx), h.before,
      fun x hx he hext => ?_⟩
    exact (h.shut x hx he hext).imp_left
      (And.imp_left fun hdrop => hdrop.moves (D := D) ht hr (h.read x hx) hext.extended
        (.readClient hf hi hc))
  | front hf => exact h.front ht ho hr ho' hf hok
  | @readUpstream _ r rest hb hu hc =>
    have hmarks : World.marks { w with back := pumpBackend r, fromUp := rest } = w.marks :=
      congrArg (w.got.filterMap Delivery.mark ++ ·) (incoming_readUpstream hb hu)
    exact ⟨h.tags, h.own, hmarks ▸ h.marks, hmarks ▸ h.read, hmarks ▸ h.before, hmarks ▸ h.shut⟩
  | back hb => exact h.back ht ho hr ho' hb hok
  | answer hq => exact h.answer ho ho' hq

end Steps

section Simple

variable {w w' : World U} {a : Act} {rest : List Act}

def Simple (w : World U) : Prop := ∀ n ∈ w.repairs, w.isQuery n = true

theorem Simple.start : Simple (World.start D U) := by
  simp [Simple, World.repairs, Session.repairs, World.start, Session.new]

theorem World.isQuery_iff {n : Nat} : w.isQuery n = true ↔ ∃ m, w.sent[n]? = some m ∧
    m.tag = .query := by
  simp [World.isQuery, Option.any_eq_true]

theorem delivery_repair {d : Delivery} (h : a.delivery = some d) : a.repairing = d.repair := by
  cases a <;> cases h
  obtain ⟨source, msg⟩ := d
  cases source <;> rfl

theorem Simple.repairs {l : Label U} {now : Nat} {jobID : String} {n : Nat} (h : Simple w)
    (hok : Orderly l w) (hact : l.act w = some a)
    (hrep : ∀ n, a.repairing = some n → w.isQuery n = true)
    (hn : n ∈ (a.exec D now jobID w.sess).sess.repairs) : w.isQuery n = true := by
  rcases exec_repairs hn with hn | hn | ⟨inTxn, hi, hn⟩
  · exact h n (List.mem_append_left _ hn)
  · exact hrep n hn
  · exact hok.2.2 inTxn (by rw [hact]; exact hi) n hn

theorem Simple.client {s : Session} {now : Nat} {jobID : String} {n : Nat}
    (hrep : ∀ n, a.repairing = some n → w.isQuery n = true)
    (hn : n ∈ (a.exec D now jobID s).client.filterMap Delivery.repair) : w.isQuery n = true := by
  obtain ⟨d, hd, hdn⟩ := List.mem_filterMap.1 hn
  rw [exec_client, Option.mem_toList] at hd
  exact hrep n ((delivery_repair hd).trans hdn)

theorem Simple.moves {l : Label U} (h : Simple w) (ht : Threads w) (hok : Orderly l w)
    (hm : Moves D l w w') : Simple w' := by
  cases hm with
  | @send _ m =>
    intro n hn
    obtain ⟨x, hx, htag⟩ := World.isQuery_iff.1 (h n hn)
    exact World.isQuery_iff.2
      ⟨x, (List.getElem?_append_left (List.getElem?_eq_some_iff.1 hx).1).trans hx, htag⟩
  | readClient hf hi hc => exact h
  | @front _ now jobID a rest hf =>
    obtain ⟨m, -, ha⟩ := ht.head hf
    have hact : (Label.front now jobID : Label U).act w = some a := Label.act_front hf
    have hrep : ∀ n, a.repairing = some n → w.isQuery n = true := fun n hn => by
      cases (frontAct_repairing ha).symm.trans hn
    intro n hn
    simp only [World.repairs, World.applyFront, List.filterMap_append, List.mem_append] at hn
    rcases hn with hn | hn | hn | hn
    · exact h.repairs hok hact hrep hn
    · exact h n (by simp [World.repairs, hn])
    · exact h n (by simp [World.repairs, hn])
    · exact Simple.client hrep hn
  | @readUpstream _ r rest hb hu hc =>
    intro n hn
    simp only [World.repairs, List.mem_append, List.mem_filterMap] at hn
    rcases hn with hn | ⟨a, ha, hn⟩ | hn
    · exact h n (by simp [World.repairs, hn])
    · rcases mem_pumpBackend ha with rfl | rfl <;> cases hn
    · exact h n (by simp [World.repairs, hn])
  | @back _ a rest hb =>
    have hrep : ∀ n, a.repairing = some n → w.isQuery n = true := fun n hn =>
      h n (List.mem_append_right _
        (List.mem_append_left _ (List.mem_filterMap.2 ⟨a, by simp [hb], hn⟩)))
    have hact : (Label.back : Label U).act w = some a := Label.act_back hb
    intro n hn
    simp only [World.repairs, World.applyBack, List.filterMap_append, List.mem_append] at hn
    rcases hn with hn | (hn | hn) | hn | hn
    · exact h.repairs hok hact hrep hn
    · obtain ⟨b, hbn, hn⟩ := List.mem_filterMap.1 hn
      rcases exec_next_repairing (hb ▸ ht.back) hbn hn with hn | hn
      · exact h n (List.mem_append_left _ hn)
      · exact hrep n hn
    · obtain ⟨b, hbr, hn⟩ := List.mem_filterMap.1 hn
      refine h n (List.mem_append_right _
        (List.mem_append_left _ (List.mem_filterMap.2 ⟨b, ?_, hn⟩)))
      simp [hb, hbr]
    · exact h n (by simp [World.repairs, hn])
    · exact Simple.client hrep hn
  | answer hq => exact h

end Simple

end DsqlEmulator.Proxy
