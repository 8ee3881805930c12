import DsqlEmulator.Proxy.Cache

/-! What was admitted before it ran.  Beside the session a record is kept of the
batches the tracker admitted and of the texts the client has prepared. -/

namespace DsqlEmulator.Proxy

open Wire Occ Txn Runs Guard Table Line

variable {U : Upstream} {D : Dialect}

def Dialect.kindsOf (D : Dialect) (sql : String) : Option (List Kind) :=
  match D.stripAsync sql with
  | some (rewritten, _) =>
    match D.classify true rewritten with
    | .accepted kinds _ => some (if kinds = [] then [.ddl] else kinds)
    | _ => none
  | none =>
    match D.classify false sql with
    | .accepted kinds _ => some kinds
    | _ => none

structure Approval where
  number : Nat
  kinds : List Kind
  tracker : Tracker
  now : Nat
  deriving DecidableEq, Repr

/-- The batches admitted so far, and those that were admitted when each of the client's
messages was forwarded. -/
structure Docket where
  approvals : List Approval := []
  passed : List (Nat × List Approval) := []
  deriving DecidableEq, Repr

def Act.admission (n : Nat) : Act → Option (Nat × List Kind)
  | .admitKinds k _ info => some (k, info.kinds)
  | .admitAsync k _ _ kinds => some (k, kinds)
  | .admitRollback => some (n, [.rollback])
  | _ => none

def Docket.grant (d : Docket) (t : Tracker) (now : Nat) : Option (Nat × List Kind) → Docket
  | some (n, kinds) =>
    if (t.admitKinds kinds now).2 =
      none then { d with approvals := d.approvals ++ [⟨n, kinds, t, now⟩] } else d
  | none => d

def Docket.pass (d : Docket) : Option (Nat × Frontend) → Docket
  | some (n, _) => { d with passed := d.passed ++ [(n, d.approvals)] }
  | none => d

def Docket.note (l : Label U) (w : World U × Ledger) (d : Docket) : Docket :=
  match l, w.1.front with
  | .front now _, a :: _ =>
    (d.grant w.1.sess.tracker now (a.admission (w.1.read - 1))).pass a.forwarded
  | _, _ => d

def Approved (l : List Approval) (n : Nat) (kinds : List Kind) : Prop :=
  ∃ a ∈ l, a.number = n ∧ a.kinds = kinds ∧ (a.tracker.admitKinds kinds a.now).2 = none

def Session.due (D : Dialect) (s : Session) : Frontend → Option (List Kind)
  | .query sql => D.kindsOf sql
  | .bind b => (s.statements b.statement).map StatementInfo.kinds
  | _ => none

@[simp] def Act.Fair (D : Dialect) (s : Session) (l : List Approval) (n : Nat) (m : Frontend) :
    Act → Prop
  | .admitKinds _ _ info => ∀ kinds, s.due D m = some kinds → info.kinds = kinds
  | .admitAsync _ _ _ ks => ∀ kinds, s.due D m = some kinds → ks = kinds
  | .occAdjudicated _ _ _ => ∀ kinds, s.due D m = some kinds → Approved l n kinds
  | .occCommitConflict _ _ _ => ∀ kinds, s.due D m = some kinds → Approved l n kinds
  | .writeUpstream (.client _) ms => ∀ b, .bind b ∈ ms → m = .bind b
  | _ => True

def Act.isForwarding (a : Act) : Bool := a.forwarded.isSome

def Act.rollsBack : Act → Bool
  | .admitRollback => true
  | _ => false

abbrev AdmitsFirst (D : Dialect) (s : Session) (l : List Approval) (n : Nat) (m : Frontend) :
    List Act → Prop :=
  Guarded Act.isForwarding Act.rollsBack (∀ kinds, s.due D m = some kinds → Approved l n kinds)

def Regular (D : Dialect) (l : Label U) (w : World U) : Prop :=
  ∀ a ∈ l.act w, w.sess.forgets D a = false ∧
    (a = .admitRollback → ∀ m ∈ w.sent[w.read - 1]?, ∀ kinds ∈ w.sess.due D m, kinds = [.rollback])

instance (l : Label U) (w : World U) : Decidable (Regular D l w) :=
  inferInstanceAs (Decidable
    (∀ a ∈ l.act w, _ ∧ (_ → ∀ m ∈ w.sent[w.read - 1]?, ∀ kinds ∈ w.sess.due D m, _)))

section Acts

variable {s : Session} {d : Docket} {l l' : List Approval} {n : Nat} {m : Frontend} {now : Nat}
  {jobID : String} {a b : Act} {kinds : List Kind}

theorem Approved.mono (h : Approved l n kinds) (hl : ∀ x ∈ l, x ∈ l') : Approved l' n kinds := by
  obtain ⟨x, hx, h⟩ := h
  exact ⟨x, hl x hx, h⟩

theorem Docket.approvals_grant (t : Tracker) (x : Option (Nat × List Kind)) :
    ∀ y ∈ d.approvals, y ∈ (d.grant t now x).approvals := by
  intro y hy
  unfold Docket.grant
  split
  · split
    · exact List.mem_append_left _ hy
    · exact hy
  · exact hy

theorem Docket.grant_approved {t : Tracker} (h : (t.admitKinds kinds now).2 = none) :
    Approved (d.grant t now (some (n, kinds))).approvals n kinds := by
  refine ⟨⟨n, kinds, t, now⟩, ?_, rfl, rfl, h⟩
  simp [Docket.grant, h]

theorem Docket.approvals_pass (x : Option (Nat × Frontend)) :
    (d.pass x).approvals = d.approvals := by
  cases x <;> rfl

theorem kindsOf_async {sql rewritten : String} {statement : Nat} {ks : List Kind}
    (hasync : D.stripAsync sql = some (rewritten, statement))
    (hks : (D.classify true rewritten).asyncKinds = some ks) (h : D.kindsOf sql = some kinds) :
    ks = kinds := by
  simp only [Dialect.kindsOf, hasync] at h
  split at h
  next hc =>
    rw [hc] at hks
    exact Option.some.inj (hks.symm.trans h)
  next => cases h

theorem kindsOf_plain {sql : String} (hasync : D.stripAsync sql = none)
    (h : D.kindsOf sql = some kinds) : ∃ tables, D.classify false sql = .accepted kinds tables := by
  simp only [Dialect.kindsOf, hasync] at h
  split at h
  next hc => exact ⟨_, Option.some.inj h ▸ hc⟩
  next => cases h

theorem due_congr {s' : Session} (h : s'.statements = s.statements) : s'.due D m = s.due D m := by
  cases m <;> simp only [Session.due, h]

theorem due_exec (ha : FrontAct n m a) (now : Nat) (jobID : String) :
    (a.exec D now jobID s).sess.due D m = s.due D m := by
  cases m with
  | bind b =>
    rcases exec_remembers (D := D) (s := s) a now jobID with h | ⟨k, name, sql, rfl⟩ |
      ⟨k, name, rfl, -⟩
    · simp only [Session.due, h]
    · cases ha with
      | code ha => cases ha.2.1
    · cases ha with
      | code ha => cases ha.2.1
  | _ => rfl

theorem due_eq_none (hsql : m.sql = none)
    (hbind : ∀ b, m = .bind b → s.statements b.statement = none) :
    s.due D m = none := by
  cases m with
  | query sql => cases hsql
  | bind b => simp [Session.due, hbind b rfl]
  | _ => rfl

theorem Hands.approved (ha : FrontAct n m a) (hands : Hands D now jobID s n a b)
    (hb : b.isForwarding = true) (h : a.Fair D s l n m) (hl : ∀ x ∈ l, x ∈ l')
    (hgrant : ∀ ks, a.admission n = some (n, ks) → (s.tracker.admitKinds ks now).2 = none →
      Approved l' n ks) (hend : s.txnAborted = true → a ≠ .aborted n m) :
    ∀ kinds, s.due D m = some kinds → Approved l' n kinds := by
  intro kinds hdue
  have hcode : FrontCode n m a := hands.frontCode ha
  cases hands with
  | dispatched => cases hb
  | async => cases hb
  | classified => cases hb
  | bind => cases hb
  | commits => cases hb
  | injecting => cases hb
  | forwarded hsql hbind =>
    obtain ⟨-, rfl, -⟩ := hcode
    cases (due_eq_none hsql hbind).symm.trans hdue
  | passed hsql hbind =>
    obtain ⟨-, rfl, -⟩ := hcode
    cases (due_eq_none hsql hbind).symm.trans hdue
  | synced =>
    obtain ⟨-, rfl⟩ := hcode
    cases hdue
  | ended _ hab =>
    obtain ⟨-, rfl, -⟩ := hcode
    exact absurd rfl (hend hab)
  | bindEnded _ hab =>
    obtain ⟨-, rfl, -⟩ := hcode
    exact absurd rfl (hend hab)
  | unparsed hasync _ hc =>
    obtain ⟨-, rfl, -⟩ := hcode
    obtain ⟨tables, hc'⟩ := kindsOf_plain hasync hdue
    cases hc.symm.trans hc'
  | asyncParse =>
    obtain ⟨-, rfl, -⟩ := hcode
    cases hdue
  | parse =>
    obtain ⟨-, rfl, -⟩ := hcode
    cases hdue
  | parseRewritten =>
    obtain ⟨-, rfl, -⟩ := hcode
    cases hdue
  | admitted hpair => exact h kinds hdue ▸ hgrant _ rfl (congrArg Prod.snd hpair)
  | asyncAdmitted hpair => exact h kinds hdue ▸ hgrant _ rfl (congrArg Prod.snd hpair)
  | undoomed => exact (h kinds hdue).mono hl
  | committed => exact (h kinds hdue).mono hl

theorem fair_forwarding {x : Frontend} (h : ∀ b, x = .bind b → m = .bind b) :
    (Act.forwarding n x).Fair D s l n m :=
  fun b hb => h b (List.mem_singleton.1 hb).symm

theorem rewritten_bind {b : Bind} (h : D.rewritten m = .bind b) : m = .bind b := by
  cases m with
  | query => cases h
  | _ => exact h

theorem Hands.fair (ha : FrontAct n m a) (hands : Hands D now jobID s n a b) (h : a.Fair D s l n m)
    (hl : ∀ x ∈ l, x ∈ l')
    (hgrant : ∀ ks, a.admission n = some (n, ks) → (s.tracker.admitKinds ks now).2 = none →
      Approved l' n ks) : b.Fair D (a.exec D now jobID s).sess l' n m := by
  have hdue {kinds} : (a.exec D now jobID s).sess.due D m = some kinds → s.due D m = some kinds :=
    (due_exec ha now jobID).symm.trans
  have hcode : FrontCode n m a := hands.frontCode ha
  cases hands with
  | async hasync _ hks =>
    obtain ⟨-, rfl, -⟩ := hcode
    exact fun kinds hk => kindsOf_async hasync hks (hdue hk)
  | classified hasync _ hc =>
    obtain ⟨-, rfl, -⟩ := hcode
    intro kinds hk
    obtain ⟨tables, hc'⟩ := kindsOf_plain hasync (hdue hk)
    exact (Classification.accepted.inj (hc.symm.trans hc')).1
  | bind hs =>
    obtain ⟨-, rfl, -⟩ := hcode
    intro kinds hk
    simpa [Session.due, hs] using hdue hk
  | forwarded =>
    obtain ⟨-, rfl, -⟩ := hcode
    exact fair_forwarding fun b h => h
  | passed =>
    obtain ⟨-, rfl, -⟩ := hcode
    exact fair_forwarding fun b h => h
  | bindEnded =>
    obtain ⟨-, rfl, -⟩ := hcode
    exact fair_forwarding fun b h => h
  | admitted =>
    obtain ⟨-, rfl, -⟩ := hcode
    exact fair_forwarding fun b => rewritten_bind
  | undoomed =>
    obtain ⟨-, rfl, -⟩ := hcode
    exact fair_forwarding fun b => rewritten_bind
  | committed =>
    obtain ⟨-, rfl, -⟩ := hcode
    exact fair_forwarding fun b => rewritten_bind
  | commits hpair =>
    exact fun kinds hk => h kinds (hdue hk) ▸ hgrant _ rfl (congrArg Prod.snd hpair)
  | injecting => exact fun kinds hk => (h kinds (hdue hk)).mono hl
  | dispatched => trivial
  | _ => exact fair_forwarding (by simp)

theorem fair_of_not_forwards (hb : b.forwards = false) : b.Fair D s l n m := by
  cases b with
  | admitKinds => cases hb
  | admitAsync => cases hb
  | occAdjudicated => cases hb
  | occCommitConflict => cases hb
  | writeUpstream o ms =>
    cases o with
    | client => cases hb
    | _ => trivial
  | _ => trivial

theorem exec_fair (ha : FrontAct n m a) (h : a.Fair D s l n m) (hl : ∀ x ∈ l, x ∈ l')
    (hgrant : ∀ ks, a.admission n = some (n, ks) → (s.tracker.admitKinds ks now).2 = none →
      Approved l' n ks) :
    ∀ b ∈ (a.exec D now jobID s).next, b.Fair D (a.exec D now jobID s).sess l' n m := by
  intro b hb
  cases hf : b.forwards with
  | true => exact (hands_of_exec ha hb hf).fair ha h hl hgrant
  | false => exact fair_of_not_forwards hf

theorem forwards_of_isForwarding (h : a.isForwarding = true) : a.forwards = true := by
  cases a with
  | writeUpstream o ms =>
    obtain ⟨k, x, h⟩ := forwarded_isSome h
    rw [h]
    rfl
  | _ => cases h

theorem aborted_admitsFirst {ok : Prop} (hab : s.txnAborted = true) (hdue : s.due D m ≠ none) :
    Guarded Act.isForwarding Act.rollsBack ok ((Act.aborted n m).exec D now jobID s).next := by
  have hend : Guarded Act.isForwarding Act.rollsBack ok (endAborted ++ forward n m) :=
    .cons rfl (.cons rfl (.given rfl rfl))
  have hrefused (x : Bool) : Guarded Act.isForwarding Act.rollsBack ok (rejectFailed n x) := by
    refine .cons rfl ?_
    split <;> exact .cons rfl trivial
  cases m with
  | query sql =>
    dsimp only [Act.exec, handleQuery]
    rw [if_pos hab]
    split
    · rw [if_pos hab]
      exact hrefused false
    · split
      · exact hend
      · exact hrefused false
  | bind b =>
    dsimp only [Act.exec, handleBind]
    split
    · rw [if_pos hab]
      split
      · exact hend
      · exact hrefused true
    next hs => simp [Session.due, hs] at hdue
  | _ => exact absurd rfl hdue

theorem exec_admitsFirst (ha : FrontAct n m a) (h : a.Fair D s l n m) (hl : ∀ x ∈ l, x ∈ l')
    (hgrant : ∀ ks, a.admission n = some (n, ks) → (s.tracker.admitKinds ks now).2 = none →
      Approved l' n ks) : AdmitsFirst D s l' n m (a.exec D now jobID s).next := by
  by_cases hok : ∀ kinds, s.due D m = some kinds → Approved l' n kinds
  · exact .of_ok hok
  · have hdue : s.due D m ≠ none := fun h => hok (by simp [h])
    by_cases hab : s.txnAborted = true ∧ a = .aborted n m
    · obtain ⟨hab, rfl⟩ := hab
      exact aborted_admitsFirst hab hdue
    · refine .of_not_needs fun b hb => Bool.eq_false_iff.2 fun hf => hok ?_
      have hends : s.txnAborted = true → a ≠ .aborted n m := fun h h' => hab ⟨h, h'⟩
      exact (hands_of_exec ha hb (forwards_of_isForwarding hf)).approved ha hf h hl hgrant hends

end Acts

def Gauged (D : Dialect) (w : World U) (p : Prepared) (o : Option StatementInfo) : Prop :=
  ∃ j name sql, p.origin = .client j ∧ w.sent[j]? = some (.parse name sql) ∧
    ∀ kinds, D.kindsOf sql = some kinds → o.map StatementInfo.kinds = some kinds

/-- The `n`-th message had been admitted with these kinds when it was forwarded. -/
def Docket.Passed (d : Docket) (n : Nat) (kinds : List Kind) : Prop :=
  ∃ l, (n, l) ∈ d.passed ∧ Approved l n kinds

def BindPassed (D : Dialect) (w : World U) (d : Docket) (before : List Request) (q : Request) :
    Prop :=
  ∀ k b, q = ⟨.client k, .bind b⟩ → ∀ p, texts D before b.statement = some p →
    ∃ j name sql, p.origin = .client j ∧ w.sent[j]? = some (.parse name sql) ∧
      ∀ kinds, D.kindsOf sql = some kinds → d.Passed k kinds

structure Vouched (D : Dialect) (w : World U) (d : Docket) : Prop where
  fair : ∀ m, w.sent[w.read - 1]? = some m → ∀ a ∈ w.front, a.Fair D w.sess d.approvals
    (w.read - 1) m
  first : ∀ m, w.sent[w.read - 1]? = some m →
    AdmitsFirst D w.sess d.approvals (w.read - 1) m w.front
  queries : ∀ q ∈ w.written, ∀ n, q.origin = .client n → ∀ sql, w.sent[n]? = some (.query sql) →
    ∀ kinds, D.kindsOf sql = some kinds → d.Passed n kinds
  binds : EachAfter (BindPassed D w d) w.written

section Vouched

variable {w w' : World U} {g : Ledger} {d d' : Docket} {a : Act} {rest : List Act} {l : Label U}

theorem fitting_gauged {jobID : String} (ht : Threads w) : Fitting D (Gauged D) jobID w := by
  intro k name sql info text hf hr hc
  obtain ⟨rest, hf⟩ : ∃ rest, w.front = .aborted k (.parse name sql) :: rest := by
    cases hfront : w.front with
    | nil => simp [hfront] at hf
    | cons a rest =>
      rw [hfront] at hf
      cases hf
      exact ⟨rest, rfl⟩
  obtain ⟨m, hm, ha⟩ := ht.head hf
  cases ha with
  | code ha =>
    obtain ⟨rfl, rfl, -⟩ := ha
    refine ⟨w.read - 1, name, sql, rfl, hm, fun kinds hkinds => ?_⟩
    have hplain {ks tables} (hasync : D.stripAsync sql = none)
      (hks : D.classify false sql = .accepted ks tables) :
        ks = kinds := by
      obtain ⟨tables', h⟩ := kindsOf_plain hasync hkinds
      exact (Classification.accepted.inj (hks.symm.trans h)).1
    cases hr with
    | async hasync _ hks => simp [kindsOf_async hasync hks hkinds]
    | ending hasync _ hks => simp [hplain hasync hks]
    | unparsed _ _ hc' => exact absurd hc' hc
    | rewritten hasync _ hks => simp [hplain hasync hks]
    | parsed hasync _ hks => simp [hplain hasync hks]

theorem Gauged.moves {p : Prepared} {o : Option StatementInfo} (h : Gauged D w p o)
    (hm : Moves D l w w') : Gauged D w' p o := by
  obtain ⟨j, name, sql, hp, hsent, h⟩ := h
  exact ⟨j, name, sql, hp, hm.sent_keep hsent, h⟩

theorem BindPassed.mono {before : List Request} {q : Request} (h : BindPassed D w d before q)
    (hsent : ∀ {n : Nat} {m}, w.sent[n]? = some m → w'.sent[n]? = some m)
    (hd : ∀ x ∈ d.passed, x ∈ d'.passed) : BindPassed D w' d' before q := by
  intro k b hq p hp
  obtain ⟨j, name, sql, horigin, hj, hpassed⟩ := h k b hq p hp
  refine ⟨j, name, sql, horigin, hsent hj, fun kinds hkinds => ?_⟩
  obtain ⟨l, hl, happroved⟩ := hpassed kinds hkinds
  exact ⟨l, hd _ hl, happroved⟩

theorem Docket.passed_grant {t : Tracker} {now : Nat} (x : Option (Nat × List Kind)) :
    (d.grant t now x).passed = d.passed := by
  unfold Docket.grant
  split
  · split <;> rfl
  · rfl

theorem Docket.passed_note : ∀ x ∈ d.passed, x ∈ (d.note l (w, g)).passed := by
  intro x hx
  unfold Docket.note
  split
  next a _ _ =>
    cases a.forwarded with
    | none => simpa [Docket.pass, Docket.passed_grant] using hx
    | some y => simp [Docket.pass, Docket.passed_grant, hx]
  next => exact hx

theorem Docket.note_forwarding {now n : Nat} {jobID : String} {x : Frontend}
    (hf : w.front = .forwarding n x :: rest) :
    d.note (.front now jobID) (w, g) = { d with passed := d.passed ++ [(n, d.approvals)] } := by
  simp [Docket.note, hf, Act.admission, Docket.grant, Docket.pass, Act.forwarded]

theorem Vouched.passes {now : Nat} {jobID : String} {x m : Frontend} {kinds : List Kind}
    (h : Vouched D w d) (hf : w.front = .forwarding (w.read - 1) x :: rest)
    (hm : w.sent[w.read - 1]? = some m) (hdue : w.sess.due D m = some kinds) :
    (d.note (.front now jobID) (w, g)).Passed (w.read - 1) kinds := by
  have hfirst := h.first m hm
  rw [hf] at hfirst
  refine ⟨d.approvals, ?_, hfirst.1 rfl kinds hdue⟩
  simp [Docket.note_forwarding hf]

theorem Vouched.forward {now : Nat} {jobID : String} {x : Frontend} (h : Vouched D w d)
    (ht : Threads w) (ho : Ordered w) (hcached : Cached D (Gauged D) w)
    (hf : w.front = .forwarding (w.read - 1) x :: rest) :
    (∀ q ∈ w.written ++ [⟨.client (w.read - 1), x⟩], ∀ n, q.origin = .client n → ∀ sql, w.sent[n]? =
        some (.query sql) →
      ∀ kinds, D.kindsOf sql = some kinds → (d.note (.front now jobID) (w, g)).Passed n kinds) ∧
    EachAfter (BindPassed D w (d.note (.front now jobID) (w, g)))
      (w.written ++ [⟨.client (w.read - 1), x⟩]) := by
  constructor
  · intro q hq n hn sql hsql kinds hkinds
    rcases List.mem_append.1 hq with hq | hq
    · obtain ⟨l, hl, happroved⟩ := h.queries q hq n hn sql hsql kinds hkinds
      exact ⟨l, Docket.passed_note _ hl, happroved⟩
    · rw [List.mem_singleton.1 hq] at hn
      cases hn
      exact h.passes hf hsql hkinds
  · refine (h.binds.mono fun _ _ _ hq => hq.mono id Docket.passed_note).snoc ?_
    intro k b heq p hp
    cases heq
    obtain ⟨m, hm, -⟩ := ht.head hf
    obtain rfl : m = .bind b := h.fair m hm (.forwarding (w.read - 1) (.bind b))
      (hf ▸ List.mem_cons_self) b List.mem_cons_self
    obtain ⟨j, name, sql, horigin, hj, hgauged⟩ := hcached.bind ho hf hp
    exact ⟨j, name, sql, horigin, hj, fun kinds hkinds => h.passes hf hm (hgauged kinds hkinds)⟩

theorem Vouched.own {qs : List Request} (h : Vouched D w d)
    (hqs : ∀ q ∈ qs, ∀ n, q.origin ≠ .client n) (hd : ∀ x ∈ d.passed, x ∈ d'.passed) :
    (∀ q ∈ w.written ++ qs, ∀ n, q.origin = .client n → ∀ sql, w.sent[n]? = some (.query sql) →
      ∀ kinds, D.kindsOf sql = some kinds → d'.Passed n kinds) ∧ EachAfter (BindPassed D w d')
        (w.written ++ qs) := by
  constructor
  · intro q hq n hn sql hsql kinds hkinds
    have hq := (List.mem_append.1 hq).resolve_right fun hq => hqs q hq n hn
    obtain ⟨l, hl, happroved⟩ := h.queries q hq n hn sql hsql kinds hkinds
    exact ⟨l, hd _ hl, happroved⟩
  · refine (h.binds.mono fun _ _ _ hq => hq.mono id hd).append fun before q hq k b heq => ?_
    exact absurd (heq ▸ rfl) (hqs q hq k)

theorem fair_mono {s s' : Session} {l l' : List Approval} {n : Nat} {m : Frontend}
    (h : a.Fair D s l n m) (hdue : s'.due D m = s.due D m) (hl : ∀ x ∈ l, x ∈ l') :
    a.Fair D s' l' n m := by
  cases a with
  | admitKinds k m' info => exact fun kinds hk => h kinds (hdue ▸ hk)
  | admitAsync k rewritten statement kinds => exact fun kinds hk => h kinds (hdue ▸ hk)
  | occAdjudicated k m' info => exact fun kinds hk => (h kinds (hdue ▸ hk)).mono hl
  | occCommitConflict k m' info => exact fun kinds hk => (h kinds (hdue ▸ hk)).mono hl
  | writeUpstream o ms =>
    cases o with
    | client => exact h
    | _ => trivial
  | _ => trivial

theorem Vouched.acts {now : Nat} {jobID : String} {m : Frontend} (h : Vouched D w d)
    (ha : FrontAct (w.read - 1) m a) (hm : w.sent[w.read - 1]? = some m) (hf : w.front = a :: rest)
    (hl : Regular D (.front now jobID) w) (hd : d' = d.note (.front now jobID) (w, g)) :
    (∀ b ∈ (a.exec D now jobID w.sess).next ++ rest,
        b.Fair D (a.exec D now jobID w.sess).sess d'.approvals (w.read - 1) m) ∧
      AdmitsFirst D (a.exec D now jobID w.sess).sess d'.approvals (w.read - 1) m
        ((a.exec D now jobID w.sess).next ++ rest) := by
  have happrovals : d'.approvals =
      (d.grant w.sess.tracker now (a.admission (w.read - 1))).approvals := by
    rw [hd]
    simp only [Docket.note, hf, Docket.approvals_pass]
  have hmono : ∀ x ∈ d.approvals, x ∈ d'.approvals := happrovals ▸ Docket.approvals_grant _ _
  have hgrant : ∀ ks, a.admission (w.read - 1) = some (w.read - 1, ks) →
    (w.sess.tracker.admitKinds ks now).2 = none →
      Approved d'.approvals (w.read - 1) ks := by
    intro ks hks haccepted
    rw [happrovals, hks]
    exact Docket.grant_approved haccepted
  have hdue : (a.exec D now jobID w.sess).sess.due D m = w.sess.due D m := due_exec ha now jobID
  have hfair := h.fair m hm
  have hfirst := h.first m hm
  rw [hf] at hfair hfirst
  have hok : (∀ kinds, w.sess.due D m = some kinds → Approved d.approvals (w.read - 1) kinds) ∨
    a.rollsBack = true →
      ∀ kinds, w.sess.due D m = some kinds → Approved d'.approvals (w.read - 1) kinds := by
    rintro (hok | hroll) kinds hkinds
    · exact (hok kinds hkinds).mono hmono
    · obtain rfl : a = .admitRollback := by
        cases a <;> first | rfl | cases hroll
      have hlone := (hl _ (by simp [Label.act, hf])).2 rfl m hm kinds hkinds
      rw [hlone]
      exact hgrant [.rollback] rfl (by simp)
  constructor
  · intro b hb
    rcases List.mem_append.1 hb with hb | hb
    · exact exec_fair ha (hfair a List.mem_cons_self) hmono hgrant b hb
    · exact fair_mono (hfair b (List.mem_cons_of_mem a hb)) hdue hmono
  · unfold AdmitsFirst
    rw [hdue]
    exact (exec_admitsFirst ha (hfair a List.mem_cons_self) hmono hgrant).append (hfirst.2.mono hok)

theorem Vouched.front {now : Nat} {jobID : String} (h : Vouched D w d) (ht : Threads w)
    (ho : Ordered w) (hcached : Cached D (Gauged D) w) (hf : w.front = a :: rest)
    (hl : Regular D (.front now jobID) w) :
    Vouched D (w.applyFront rest (a.exec D now jobID w.sess))
      (d.note (.front now jobID) (w, g)) := by
  obtain ⟨m, hm, ha⟩ := ht.head hf
  have hacts := h.acts ha hm hf hl (rfl : _ = d.note (.front now jobID) (w, g))
  have hcurrent {m'} (hm' : w.sent[w.read - 1]? = some m') : m' = m :=
    Option.some.inj (hm'.symm.trans hm)
  have hwritten : (∀ q ∈ w.written ++ (a.exec D now jobID w.sess).up, ∀ n, q.origin =
    .client n → ∀ sql, w.sent[n]? = some (.query sql) → ∀ kinds, D.kindsOf sql = some kinds →
        (d.note (.front now jobID) (w, g)).Passed n kinds) ∧
      EachAfter (BindPassed D w (d.note (.front now jobID) (w, g)))
          (w.written ++ (a.exec D now jobID w.sess).up) := by
    by_cases hforward : ∃ n x, a = .forwarding n x
    · obtain ⟨n, x, rfl⟩ := hforward
      cases ha with
      | code ha =>
        obtain ⟨rfl, -⟩ := ha
        exact h.forward ht ho hcached hf
    · refine h.own (fun q hq n hn => hforward ?_) Docket.passed_note
      obtain ⟨ms, rfl⟩ := exec_up_client hq hn
      cases ha with
      | code ha =>
        obtain ⟨-, m', rfl, -⟩ := ha
        exact ⟨n, m', rfl⟩
  refine ⟨?_, ?_, hwritten.1, hwritten.2⟩
  · intro m' hm'
    obtain rfl := hcurrent hm'
    exact hacts.1
  · intro m' hm'
    obtain rfl := hcurrent hm'
    exact hacts.2

theorem pumpFrontend_fair {s : Session} {l : List Approval} {n k : Nat} {m m' : Frontend} :
    ∀ a ∈ pumpFrontend n m, a.Fair D s l k m' := by
  unfold pumpFrontend
  split <;> simp

theorem pumpFrontend_admitsFirst {s : Session} {l : List Approval} {n k : Nat} {m : Frontend} :
    AdmitsFirst D s l k m (pumpFrontend n m) := by
  unfold pumpFrontend
  split
  · exact .of_ok (by simp [Session.due])
  · exact .cons rfl (.cons rfl trivial)
  · exact .cons rfl trivial

theorem Vouched.start : Vouched D (World.start D U) {} where
  fair := by simp [World.start]
  first := by simp [World.start]
  queries := by simp [World.start]
  binds := .nil

theorem Vouched.moves (h : Vouched D w d) (ht : Threads w) (ho : Ordered w)
    (hcached : Cached D (Gauged D) w) (hm : Moves D l w w') (hl : Regular D l w) :
    Vouched D w' (d.note l (w, g)) := by
  cases hm with
  | send =>
    refine ⟨fun m hm a ha => h.fair m (ht.current (List.ne_nil_of_mem ha) hm) a ha, fun m hm =>
      ?_, ?_, ?_⟩
    · by_cases hf : w.front = []
      · change AdmitsFirst D _ _ _ _ w.front
        rw [hf]
        trivial
      · exact h.first m (ht.current hf hm)
    · intro q hq n hn sql hsql
      have hlt : n < w.sent.length := Nat.lt_of_lt_of_le (ho.read q hq n hn) ht.read_le
      exact h.queries q hq n hn sql ((List.getElem?_append_left hlt).symm.trans hsql)
    · exact h.binds.mono fun _ _ _ hq => hq.mono (Moves.send (D := D)).sent_keep fun _ h => h
  | @readClient _ m rest hf hi hc =>
    have hm : w.sent[w.read]? = some m := by rw [← List.head?_drop, ht.inbox, hi]; rfl
    refine ⟨fun m' hm' => pumpFrontend_fair, fun m' hm' => ?_, h.queries, h.binds⟩
    obtain rfl : m = m' := Option.some.inj (hm.symm.trans hm')
    exact pumpFrontend_admitsFirst
  | front hf => exact h.front ht ho hcached hf hl
  | readUpstream => exact ⟨h.fair, h.first, h.queries, h.binds⟩
  | back hb =>
    have hback := ht.back
    rw [hb] at hback
    have hdue (m : Frontend) : (Act.exec D 0 "" w.sess _).sess.due D m = w.sess.due D m :=
      due_congr (exec_statements (backMode_quiet hback).2.1)
    obtain ⟨hqueries, hbinds⟩ := h.own (fun q hq => exec_mode_up hback hq) fun x hx => hx
    refine ⟨fun m hm a ha => fair_mono (h.fair m hm a ha) (hdue m) fun x hx => hx, fun m hm => ?_,
      hqueries, hbinds⟩
    exact (h.first m hm).mono fun hok kinds hk => hok kinds (hdue m ▸ hk)
  | answer => exact ⟨h.fair, h.first, h.queries, h.binds⟩

end Vouched

/-- The session's part and the upstream's in having every batch admitted. -/
def Admissible (D : Dialect) (P : Prepares U) (l : Label U) (w : (World U × Ledger) × Docket) :
    Prop :=
  Undisturbed l w.1 ∧ Carried D P l w.1 ∧ Regular D l w.1.1

instance (P : Prepares U) (l : Label U) (w : (World U × Ledger) × Docket) :
    Decidable (Admissible D P l w) :=
  inferInstanceAs (Decidable (_ ∧ _ ∧ _))

def boundThenQuery : List (Label .any) :=
  List.flatten [boundInsert, [.send (.query "SELECT 1"), .readClient], fronts 7]

def rollbackTables : String := "ROLLBACK; CREATE TABLE a (x int); CREATE TABLE b (x int)"

def Dialect.tables : Dialect :=
  { Dialect.sample [] with
    classify := fun async sql =>
      if sql = rollbackTables then .accepted [.rollback, .ddl, .ddl]
        [] else (Dialect.sample []).classify async sql }

def endedWithTables : List (Label .any) :=
  List.flatten
    [[.send (.query "BEGIN"), .readClient], fronts 8,
      [.answer ([.commandComplete "BEGIN"], .active), .readUpstream],
      backs 6, [.readUpstream], backs 8, [.send (.query "TRUNCATE t"), .readClient], fronts 7,
      [.send (.query rollbackTables), .readClient], fronts 8]

end DsqlEmulator.Proxy
