import DsqlEmulator.Postgres.Transacts
import DsqlEmulator.Proxy.Prepared
import DsqlEmulator.Proxy.Refusals
import DsqlEmulator.Proxy.Restarts
import Mathlib.Data.Bool.Basic

/-! Whether a transaction is open, for the tracker and for the upstream.  The tracker moves
when a batch is admitted, the upstream when it executes it; in between stand the acts and the
requests that are on their way.  The invariant replays them over the upstream's block. -/

namespace DsqlEmulator

def Kind.closes (kinds : List Kind) : Bool := !kinds.foldl Kind.plays true

theorem Kind.foldl_plays_true (kinds : List Kind) {opened : Bool}
    (h : kinds.foldl Kind.plays opened = true) : kinds.foldl Kind.plays true = true := by
  induction kinds generalizing opened with
  | nil => rfl
  | cons k kinds ih =>
    rw [List.foldl_cons] at h ⊢
    cases hk : k.plays true with
    | true => exact ih h
    | false =>
      have hclosed : k.plays opened = false := by cases k <;> first | exact hk | cases hk
      rw [hclosed] at h
      exact h

theorem Kind.foldl_closes {kinds : List Kind} (h : Kind.closes kinds = true) (opened : Bool) :
    kinds.foldl Kind.plays opened = false := by
  rw [Kind.closes, Bool.not_eq_true'] at h
  by_contra hopen
  rw [Kind.foldl_plays_true kinds (Bool.not_eq_false _ ▸ hopen)] at h
  cases h

/-- Two batches leave the same, whatever they find. -/
def Kind.Alike (kinds kinds' : List Kind) : Prop :=
  ∀ opened, kinds.foldl Kind.plays opened = kinds'.foldl Kind.plays opened

theorem Kind.Alike.refl (kinds : List Kind) : Kind.Alike kinds kinds := fun _ => rfl

theorem Kind.Alike.append {k₁ k₂ l₁ l₂ : List Kind} (hk : Kind.Alike k₁ k₂)
    (hl : Kind.Alike l₁ l₂) : Kind.Alike (k₁ ++ l₁) (k₂ ++ l₂) := by
  intro opened
  rw [List.foldl_append, List.foldl_append, hk, hl]

theorem Kind.alike_nil {kinds : List Kind} (h : kinds.any Kind.turns = false) :
    Kind.Alike kinds [] :=
  fun _ => Kind.foldl_plays h

theorem Kind.alike_rollback {kinds : List Kind} (h : Kind.closes kinds = true) :
    Kind.Alike [.rollback] kinds :=
  fun opened => (Kind.foldl_closes h opened).symm

theorem Txn.foldl_record_plays {kinds : List Kind} {t : Tracker} {now : Nat} :
    (kinds.foldl (Tracker.record now) t).inTxn = kinds.foldl Kind.plays t.inTxn := by
  induction kinds generalizing t with
  | nil => rfl
  | cons k kinds ih =>
    rw [List.foldl_cons, List.foldl_cons, ih]
    cases k <;> rfl

namespace Proxy

open Wire Occ Txn Runs Classify Postgres

variable {U : Upstream} {D : Dialect} {parse : String → Option (List Statement)}

/-- What the parser makes of the emulator's own statements, and of those it puts in the
place of others. -/
structure Knows (D : Dialect) (parse : String → Option (List Statement)) : Prop where
  reads : Reads D parse
  abort : parse "SELECT 1/0" = some [.raise]
  rollback : parse "ROLLBACK" = some [.rollback false]
  saves : parse "SAVEPOINT dsql_occ" = some [.savepoint "dsql_occ"]
  rollbackTo : parse "ROLLBACK TO SAVEPOINT dsql_occ" = some [.rollbackTo "dsql_occ"]
  restart : parse "ROLLBACK; BEGIN" = some [.rollback false, .begin]
  marked : ∀ sql rewritten statement jobID, D.stripAsync sql = some (rewritten, statement) →
    '*' ∉ jobID.toList → parse (jobMarker jobID ++ rewritten) = parse rewritten
  rewrites : ∀ sql r, D.rewriteSQL sql = some r → turns parse (.query sql) = false ∧
    turns parse (.query r.sql) = false
  shadows : ∀ i, D.Shadows i → turns parse (.query i.shadow) = false

/-- `kinds` holds what each of the client's `Bind` messages was found to bind, and `waiting`
the `Execute` that is to run a bound statement that opens or ends a transaction. -/
structure Turn where
  kinds : Nat → List Kind := fun _ => []
  waiting : Option (Frontend × List Kind) := none

def Session.known (s : Session) (b : Bind) : List Kind :=
  ((s.statements b.statement).map StatementInfo.kinds).getD []

def Turn.classed (g : Turn) (s : Session) : Act → Turn
  | .droppingUntilSync n (.bind b) => { g with kinds := Function.update g.kinds n (s.known b) }
  | .aborted n (.bind b) => { g with kinds := Function.update g.kinds n (s.known b) }
  | _ => g

def Turn.answered (g : Turn) (q : Request) : Turn :=
  match q with
  | ⟨.client n, .bind b⟩ =>
    if (g.kinds n).any Kind.turns then { g with waiting := some (.execute b.portal, g.kinds n) }
      else g
  | ⟨_, .execute portal⟩ =>
    if g.waiting.map Prod.fst = some (.execute portal) then { g with waiting := none } else g
  | _ => g

def Turn.note (l : Label U) (w : World U) (g : Turn) : Turn :=
  match l.act w, l.serves w with
  | some a, _ => g.classed w.sess a
  | _, some (q, _) => g.answered q
  | _, _ => g

def Turn.brings (parse : String → Option (List Statement)) (g : Turn) : Request → List Kind
  | ⟨.client n, .bind _⟩ => g.kinds n
  | ⟨_, m⟩ => kindsOf parse m

@[simp] def Act.brings (parse : String → Option (List Statement)) (g : Turn) : Act → List Kind
  | .writeUpstream o ms => ms.flatMap fun m => g.brings parse ⟨o, m⟩
  | .beginFailure _ f => kindsOf parse f.statement
  | .deferFailure f => kindsOf parse f.statement
  | .occAdjudicated _ _ info => info.kinds
  | .occCommitConflict _ _ info => info.kinds
  | _ => []

def Session.deferred (parse : String → Option (List Statement)) (s : Session) : List Kind :=
  (s.pendingFailure.map fun f => kindsOf parse f.statement).getD []

def Turn.ahead (parse : String → Option (List Statement)) (g : Turn) (s : Session)
    (front : List Act) : List Kind :=
  front.flatMap (Act.brings parse g) ++ s.deferred parse

/-- Whether a block will be open once the `Execute` that is awaited has run. -/
def Turn.held (g : Turn) (opened : Bool) : Bool :=
  g.waiting.elim opened fun x => x.2.foldl Kind.plays opened

@[simp] def Act.restores : Act → Bool
  | .chooseRestore _ => true
  | .setHidden (.restore _ _) _ => true
  | .writeUpstream (.hidden .restore _) _ => true
  | _ => false

def World.restoring (w : World U) : Bool := w.sess.occRepair.isSome || w.back.any Act.restores

def Turn.Stays (parse : String → Option (List Statement)) (g : Turn) (w : World U) : Prop :=
  w.sess.tracker.inTxn = true ∧ w.front.any Act.closes = false ∧
    (g.ahead parse w.sess w.front).foldl Kind.plays true = true

instance (g : Turn) (w : World U) : Decidable (g.Stays parse w) :=
  inferInstanceAs (Decidable (_ ∧ _ ∧ _))

section Conditions

@[simp] def Act.batch : Act → List Kind
  | .admitKinds _ _ info => info.kinds
  | .admitAsync _ _ _ kinds => kinds
  | _ => []

def Act.ending (D : Dialect) (s : Session) : Act → Option (List Kind)
  | .aborted _ (.query sql) =>
    if s.txnAborted && (D.stripAsync sql).isNone then some (D.classify false sql).kinds else none
  | .aborted _ (.bind b) => if s.txnAborted then some (s.known b) else none
  | _ => none

def Act.failing (D : Dialect) (s : Session) : Act → Option (List Kind)
  | .occAdjudicated _ _ info => if s.occDoomed then some info.kinds else none
  | .occCommitConflict _ _ info =>
    if (Proxy.occCommitConflict s.occTouched D.occ.inject 0 s.occCommits).2 then some
      info.kinds else none
  | _ => none

def Act.takes (s : Session) : Act → Bool
  | .occIntercept _ _ inTxn => (s.takesOver inTxn).isSome
  | _ => false

def Turn.binds (g : Turn) : Request → Bool
  | ⟨.client n, .bind _⟩ => (g.kinds n).any Kind.turns
  | _ => false

@[mk_iff] structure Obeys (T : Transacts U parse) (waiting : Option (Frontend × List Kind))
    (st : U.State) (m : Frontend) (c : U.Choice) : Prop where
  awake : m.drawsReady = true → m ≠ .sync → T.skips st = false
  straight : ∀ r ∈ T.runs st m c, r.strays = false
  carried : turns parse m = true → waiting = none ∧
    ((statementsOf parse m).drop (T.runs st m c).length).any Statement.turns = false
  awaited : ∀ x ∈ waiting, x.1 = m → (T.runs st m c).map (·.statement.kindOf) = x.2
  executed : (∀ x ∈ waiting, x.1 ≠ m) → m.tag = .execute →
    ∀ r ∈ T.runs st m c, r.statement.turns = false

instance {T : Transacts U parse} {waiting : Option (Frontend × List Kind)} {st : U.State}
    {m : Frontend} {c : U.Choice} :
    Decidable (Obeys T waiting st m c) := decidable_of_iff _ (obeys_iff T waiting st m c).symm

variable (D) (T : Transacts U parse) (l : Label U) (w : World U × Turn)

@[mk_iff] structure Turning (parse : String → Option (List Statement)) : Prop where
  control : ∀ a ∈ l.act w.1, a.batch.any Kind.turns = true → w.1.restoring = false
  ending : ∀ a ∈ l.act w.1, ∀ kinds ∈ a.ending D w.1.sess, Kind.endsTransaction kinds = true →
    w.1.restoring = false ∧ Kind.closes kinds = true
  failing : ∀ a ∈ l.act w.1, ∀ kinds ∈ a.failing D w.1.sess, Kind.closes kinds = true
  taking : ∀ a ∈ l.act w.1, a.takes w.1.sess = true → w.2.Stays parse w.1
  marker : ∀ jobID ∈ l.jobID, '*' ∉ jobID.toList

@[mk_iff] structure Obeyed : Prop where
  obeys : ∀ x ∈ l.serves w.1, Obeys T w.2.waiting w.1.up x.1.msg x.2
  alone : ∀ x ∈ l.serves w.1, w.2.binds x.1 = true → w.2.waiting = none

/-- What a step must find for the tracker to agree with the upstream. -/
def InTurn : Prop := Turning D l w parse ∧ Obeyed T l w

instance : Decidable (Turning D l w parse) := decidable_of_iff _ (turning_iff D l w parse).symm
instance : Decidable (Obeyed T l w) := decidable_of_iff _ (obeyed_iff T l w).symm
instance : Decidable (InTurn D T l w) := inferInstanceAs (Decidable (_ ∧ _))

end Conditions

section Answers

variable {T : Transacts U parse} {waiting : Option (Frontend × List Kind)} {st : U.State}
  {m : Frontend} {c : U.Choice}

theorem Obeys.opened (h : Obeys T waiting st m c) (hm : ∀ x ∈ waiting, x.1 ≠ m) :
    T.opened (U.answer st m c).1 = opens parse m (T.opened st) := by
  have hplain (hruns : ∀ r ∈ T.runs st m c, r.statement.turns = false) : T.opened
      (U.answer st m c).1 = T.opened st := by
    rw [Transacts.opened_answer h.straight]
    refine Kind.foldl_plays (List.any_eq_false.2 fun k hk => ?_)
    obtain ⟨r, hr, rfl⟩ := List.mem_map.1 hk
    simpa [Statement.turns] using hruns r hr
  cases m with
  | query sql =>
    refine Transacts.opened_query (h.awake rfl (by simp)) ⟨h.straight, ?_⟩
    cases hturns : turns parse (.query sql) with
    | true => exact (h.carried hturns).2
    | false =>
      rw [turns, List.any_eq_false] at hturns
      exact List.any_eq_false.2 fun s hs => hturns s (List.mem_of_mem_drop hs)
  | execute portal => exact hplain (h.executed hm rfl)
  | functionCall => exact hplain fun r hr => by rw [T.call.2 r hr]; rfl
  | _ =>
    refine hplain fun r hr => ?_
    rw [T.silent rfl] at hr
    cases hr

theorem Obeys.opened_awaited {portal : String} {kinds : List Kind}
    (hwaiting : waiting = some (.execute portal, kinds))
    (h : Obeys T waiting st (.execute portal) c) :
    T.opened (U.answer st (.execute portal) c).1 = kinds.foldl Kind.plays (T.opened st) := by
  rw [Transacts.opened_answer h.straight, h.awaited (.execute portal, kinds) hwaiting rfl]

end Answers

section Texts

variable {m : Frontend}

theorem kindsOf_query {sql : String} {ss : List Statement} (h : parse sql = some ss) :
    kindsOf parse (.query sql) = ss.map Statement.kindOf := by
  simp [kindsOf, statementsOf, h]

namespace Knows

theorem kindsOf_rollback (hD : Knows D parse) : kindsOf parse rollbackQuery = [.rollback] :=
  kindsOf_query hD.rollback

theorem kindsOf_restart (hD : Knows D parse) : kindsOf parse restartQuery = [.rollback, .begin] :=
  kindsOf_query hD.restart

theorem alike_abort (hD : Knows D parse) : Kind.Alike (kindsOf parse abortTransactionQuery) [] := by
  rw [abortTransactionQuery, kindsOf_query hD.abort]
  exact Kind.alike_nil rfl

theorem alike_savepoint (hD : Knows D parse) : Kind.Alike (kindsOf parse savepointQuery) [] := by
  rw [savepointQuery, kindsOf_query hD.saves]
  exact Kind.alike_nil rfl

theorem alike_rollbackTo (hD : Knows D parse) : Kind.Alike (kindsOf parse rollbackToQuery) [] := by
  rw [rollbackToQuery, kindsOf_query hD.rollbackTo]
  exact Kind.alike_nil rfl

theorem alike_rewritten (hD : Knows D parse) (sql : String) :
    Kind.Alike (kindsOf parse (D.rewritten (.query sql))) (kindsOf parse (.query sql)) := by
  unfold Dialect.rewritten
  dsimp only
  cases hr : D.rewriteSQL sql with
  | none => exact .refl _
  | some r =>
    obtain ⟨hold, hnew⟩ := hD.rewrites sql r hr
    exact fun x => (opens_of_not_turns hnew).trans (opens_of_not_turns hold).symm

end Knows

end Texts

def Turn.Tells (parse : String → Option (List Statement)) (g : Turn) (n : Nat) (m : Frontend)
    (info : StatementInfo) : Prop :=
  (∃ sql ss, m = .query sql ∧ parse sql = some ss ∧ info.kinds = ss.map Statement.kindOf) ∨
    ∃ b, m = .bind b ∧ g.kinds n = info.kinds

@[simp] def Act.Known (D : Dialect) (parse : String → Option (List Statement))
    (g : Turn) : Act → Prop
  | .admitKinds n m info => g.Tells parse n m info
  | .occAdjudicated n m info => g.Tells parse n m info
  | .occCommitConflict n m info => g.Tells parse n m info
  | .admitAsync _ rewritten _ kinds =>
    (∃ sql statement, D.stripAsync sql = some (rewritten, statement)) ∧
      (D.classify true rewritten).asyncKinds = some kinds
  | _ => True

structure Turn.Plays (parse : String → Option (List Statement)) (g : Turn) (l : List Act)
    (kinds : List Kind) : Prop where
  alike : Kind.Alike (l.flatMap (Act.brings parse g)) kinds
  stays : l.any Act.closes = false

section Lists

variable {s : Session} {n now : Nat} {m : Frontend} {jobID : String} {a b : Act}
  {l l' : List Act} {g : Turn} {info : StatementInfo} {kinds kinds' : List Kind}

theorem known_of_not_forwards (h : a.forwards = false) : a.Known D parse g := by
  cases a <;> trivial

theorem Hands.known (hD : Knows D parse) (h : a.Known D parse g)
    (hands : Hands D now jobID s n a b) : b.Known D parse (g.classed s a) := by
  cases hands with
  | async hasync _ hkinds => exact ⟨⟨_, _, hasync⟩, hkinds⟩
  | @classified sql kinds tables _ _ hc =>
    obtain ⟨ss, hss, hkinds, -⟩ := hD.reads.accepted false sql kinds tables hc
    exact .inl ⟨sql, ss, rfl, hss, hkinds⟩
  | @bind b info hinfo => exact .inr ⟨b, rfl, by simp [Turn.classed, Session.known, hinfo]⟩
  | commits => exact h
  | injecting => exact h
  | _ => trivial

theorem exec_known (hD : Knows D parse) (ha : FrontAct n m a) (h : a.Known D parse g) :
    ∀ b ∈ (a.exec D now jobID s).next, b.Known D parse (g.classed s a) := by
  intro b hb
  cases hf : b.forwards with
  | true => exact (hands_of_exec ha hb hf).known hD h
  | false => exact known_of_not_forwards hf

theorem Turn.Plays.nil : g.Plays parse [] [] := ⟨.refl _, rfl⟩

theorem Turn.Plays.append {k k' : List Kind} (h : g.Plays parse l k) (h' : g.Plays parse l' k') :
    g.Plays parse (l ++ l') (k ++ k') := by
  refine ⟨?_, by rw [List.any_append, h.stays, h'.stays, Bool.or_false]⟩
  rw [List.flatMap_append]
  exact h.alike.append h'.alike

theorem Turn.Plays.cons (ha : a.brings parse g = [] ∧ a.closes = false)
    (h : g.Plays parse l kinds) : g.Plays parse (a :: l) kinds := by
  refine ⟨?_, by rw [List.any_cons, ha.2, h.stays, Bool.or_false]⟩
  rw [List.flatMap_cons, ha.1, List.nil_append]
  exact h.alike

theorem Turn.Plays.one (h : Kind.Alike (a.brings parse g) kinds) (ha : a.closes = false) :
    g.Plays parse [a] kinds := by
  refine ⟨?_, by rw [List.any_cons, ha]; rfl⟩
  rw [List.flatMap_singleton]
  exact h

theorem Turn.Plays.trans (h : g.Plays parse l kinds) (hk : Kind.Alike kinds kinds') :
    g.Plays parse l kinds' :=
  ⟨fun x => (h.alike x).trans (hk x), h.stays⟩

theorem plays_silent (h : ∀ b ∈ l, b.brings parse g = [] ∧ b.closes = false) :
    g.Plays parse l [] := by
  induction l with
  | nil => exact .nil
  | cons b l ih =>
    rw [List.forall_mem_cons] at h
    exact .cons h.1 (ih h.2)

theorem write_plays (o : Origin) (m : Frontend) :
    g.Plays parse [.writeUpstream o [m]] (g.brings parse ⟨o, m⟩) :=
  .one (by simpa using Kind.Alike.refl _) rfl

theorem forward_plays (n : Nat) (m : Frontend) :
    g.Plays parse (forward n m) (g.brings parse ⟨.client n, m⟩) := by
  unfold forward
  split
  · exact .cons ⟨rfl, rfl⟩ (write_plays _ m)
  · exact write_plays _ m

theorem forward_silent (hquery : ∀ sql, m ≠ .query sql) (hbind : ∀ b, m ≠ .bind b) :
    g.Plays parse (forward n m) [] := by
  have hbrings : g.brings parse ⟨.client n, m⟩ = [] := by
    cases m with
    | query sql => exact absurd rfl (hquery sql)
    | bind b => exact absurd rfl (hbind b)
    | _ => rfl
  rw [← hbrings]
  exact forward_plays n m

theorem send_plays :
    g.Plays parse (send D n m info) (g.brings parse ⟨.client n, D.rewritten m⟩) := by
  unfold send
  split
  next sql =>
    split
    next r hr =>
      simp only [Dialect.rewritten, hr, Option.map_some, Option.getD_some]
      refine .append (k := []) (plays_silent ?_) (.cons ⟨rfl, rfl⟩ (write_plays _ _))
      split <;> simp
    next hr =>
      simp only [Dialect.rewritten, hr, Option.map_none, Option.getD_none]
      exact forward_plays n _
  next hm =>
    have hrewritten : D.rewritten m = m := by
      cases m with
      | query sql => exact absurd rfl (hm sql)
      | _ => rfl
    rw [hrewritten]
    refine .append (k := []) (plays_silent ?_) (forward_plays n m)
    cases info.jobID <;> simp

theorem reject_plays (hD : Knows D parse) {code message : String} {extended : Bool} :
    g.Plays parse (reject s n code message extended) [] := by
  refine .cons ⟨rfl, rfl⟩ ?_
  split
  · split
    · exact .one hD.alike_abort rfl
    · exact .one hD.alike_abort rfl
  · split
    · exact plays_silent (by simp)
    · exact plays_silent (by simp)

theorem rejectFailed_plays {extended : Bool} : g.Plays parse (rejectFailed n extended) [] := by
  cases extended <;> exact plays_silent (by simp [rejectFailed, sendError])

theorem occFailure_plays (hD : Knows D parse) {extended : Bool} :
    g.Plays parse (occFailure D n extended) [.rollback] := by
  have hrollback : Kind.Alike (kindsOf parse rollbackQuery) [.rollback] := by
    rw [hD.kindsOf_rollback]
    exact .refl _
  refine .cons ⟨rfl, rfl⟩ (.cons ⟨rfl, rfl⟩ ?_)
  split
  · exact .one hrollback rfl
  · exact .one hrollback rfl

theorem armAdjudicator_plays {intent : Option Intent} {bind : Option Bind} :
    g.Plays parse (armAdjudicator n intent bind) [] := by
  cases intent <;> exact plays_silent (by simp [armAdjudicator])

theorem Turn.Tells.send_plays (hD : Knows D parse) (h : g.Tells parse n m info) :
    g.Plays parse (send D n m info) info.kinds := by
  refine Proxy.send_plays.trans ?_
  obtain ⟨sql, ss, rfl, hss, hkinds⟩ | ⟨b, rfl, hkinds⟩ := h
  · rw [hkinds, ← kindsOf_query hss]
    exact hD.alike_rewritten sql
  · rw [← hkinds]
    exact .refl _

theorem Turn.Tells.admitted_plays (hD : Knows D parse) (h : g.Tells parse n m info) :
    g.Plays parse (admitted D s n m info) info.kinds := by
  refine .append (k := []) (plays_silent ?_) (.cons ⟨rfl, rfl⟩ ?_)
  · split <;> simp
  · split
    · split
      · exact .one (.refl _) rfl
      · exact .cons ⟨rfl, rfl⟩ (h.send_plays hD)
    · split
      · exact .append (k := []) armAdjudicator_plays (h.send_plays hD)
      · exact h.send_plays hD

theorem handleParse_plays (hD : Knows D parse) {name sql : String} :
    g.Plays parse (handleParse D jobID s n name sql).next [] := by
  have hforward (sql : String) : g.Plays parse (forward n (.parse name sql)) [] :=
    forward_silent (by simp) (by simp)
  have hwrite (sql : String) : g.Plays parse [.writeUpstream (.client n) [.parse name sql]] [] :=
    write_plays _ _
  unfold handleParse
  split
  · split
    · exact rejectFailed_plays
    · unfold forwardAsyncJob
      split
      · exact .cons ⟨rfl, rfl⟩ (hwrite _)
      · exact reject_plays hD
      · exact .cons ⟨rfl, rfl⟩ (hwrite _)
  · dsimp only
    split
    · split
      · split
        · exact hforward sql
        · exact rejectFailed_plays
      · exact rejectFailed_plays
    · split
      · exact hforward sql
      · exact reject_plays hD
      · split
        · refine .append (k := []) (plays_silent ?_) (hwrite _)
          split <;> simp
        · refine .append (k := []) (plays_silent ?_) (hforward sql)
          split <;> simp

end Lists

inductive Turned (parse : String → Option (List Statement)) (g g' : Turn) (s : Session)
    (calm : Prop) (a : Act) (e : Effect) : Prop
  | keeps : e.sess.tracker.inTxn = s.tracker.inTxn → e.sess.pendingFailure = s.pendingFailure →
      a.closes = false → e.next.any Act.closes = false →
      Kind.Alike (e.up.flatMap (g'.brings parse) ++ e.next.flatMap (Act.brings parse g'))
        (a.brings parse g) →
      Turned parse g g' s calm a e
  | admits : (a.batch.any Kind.turns = true → calm) →
      e.sess.tracker.inTxn = a.batch.foldl Kind.plays s.tracker.inTxn → e.sess.pendingFailure =
        s.pendingFailure →
      a.admits = true → a.closes = false → a.brings parse g = [] → e.up = [] →
        g'.Plays parse e.next a.batch →
      Turned parse g g' s calm a e
  | ends : (∃ n m, a = .aborted n m) → calm → e.sess.pendingFailure = s.pendingFailure → e.up = [] →
      e.next.any Act.closes = true → Kind.Alike (e.next.flatMap (Act.brings parse g')) [.rollback] →
        Turned parse g g' s calm a e
  | rolls : a = .admitRollback → Turned parse g g' s calm a e
  | defers {f} : a = .deferFailure f → Turned parse g g' s calm a e
  | syncs {n} : a = .handleSync n → Turned parse g g' s calm a e

section Front

variable {s : Session} {n now : Nat} {m : Frontend} {jobID : String} {a b : Act} {rest : List Act}
  {g g' : Turn} {calm : Prop} {info : StatementInfo}

theorem Turned.of_plays {e : Effect} (htracker : e.sess.tracker.inTxn = s.tracker.inTxn)
    (hpending : e.sess.pendingFailure = s.pendingFailure) (hup : e.up = []) (ha : a.closes = false)
    (h : g'.Plays parse e.next (a.brings parse g)) : Turned parse g g' s calm a e := by
  refine .keeps htracker hpending ha h.stays ?_
  rw [hup]
  exact h.alike

theorem dispatch_turned : Turned parse g (g.classed s (.droppingUntilSync n m)) s calm
    (.droppingUntilSync n m) ((Act.droppingUntilSync n m).exec D now jobID s) := by
  refine .of_plays ?_ ?_ (exec_up (by simp)) rfl ?_
  · exact congrArg Tracker.inTxn (exec_tracker rfl)
  · have hquiet : Quiet s ((Act.droppingUntilSync n m).exec D now jobID s) :=
      exec_droppingUntilSync_quiet n m
    obtain ⟨_, _, h⟩ := hquiet
    rw [h]
  · dsimp only [Act.exec]
    split
    · exact .nil
    · refine .append (k := []) ?_ (plays_silent (by simp))
      unfold dispatch
      split
      · exact plays_silent (by simp)
      · exact plays_silent (by simp)
      next b =>
        split
        next hnone =>
          have hkinds : (g.classed s (.droppingUntilSync n (.bind b))).brings parse
              ⟨.client n, .bind b⟩ = [] := by
            simp [Turn.brings, Turn.classed, Session.known, hnone]
          exact hkinds ▸ forward_plays n (.bind b)
        next => exact plays_silent (by simp)
      next name =>
        have hclose : ∀ b, Frontend.close true name ≠ .bind b := by simp
        exact forward_silent (by simp) hclose
      next hquery _ hbind _ => exact forward_silent hquery hbind

theorem endAborted_turned {k : List Kind} {e : Effect} (hcalm : calm) (hk : Kind.closes k = true)
    (halike : Kind.Alike (g'.brings parse ⟨.client n, m⟩) k)
    (he : e = { sess := s, next := endAborted ++ forward n m }) :
    Turned parse g g' s calm (.aborted n m) e := by
  subst he
  refine .ends ⟨n, m, rfl⟩ hcalm rfl rfl rfl fun x => ?_
  dsimp only
  rw [List.flatMap_append, List.foldl_append]
  exact ((forward_plays n m).alike _).trans
    ((halike _).trans ((Kind.foldl_closes hk _).trans (Kind.foldl_closes rfl x).symm))

theorem handleQuery_turned (hD : Knows D parse) {sql : String}
    (hending : ∀ kinds ∈ (Act.aborted n (.query sql)).ending D s, Kind.endsTransaction kinds =
      true → calm ∧ Kind.closes kinds = true) :
    Turned parse g g s calm (.aborted n (.query sql)) (handleQuery D jobID s n sql) := by
  have hkeeps {e : Effect} (hsess : e.sess = s) (hup : e.up = []) (h : g.Plays parse e.next []) :
      Turned parse g g s calm (.aborted n (.query sql)) e :=
        .of_plays (by rw [hsess]) (by rw [hsess]) hup rfl h
  unfold handleQuery
  split
  · split
    · exact hkeeps rfl rfl rejectFailed_plays
    · unfold forwardAsyncJob
      split
      · exact hkeeps rfl rfl (plays_silent (by simp [runAsyncJob]))
      · exact hkeeps rfl rfl (reject_plays hD)
      · exact hkeeps rfl rfl (plays_silent (by simp [runAsyncJob]))
  next hasync =>
    split
    next haborted =>
      split
      next hends =>
        have hkinds : some (D.classify false sql).kinds =
            (Act.aborted n (.query sql)).ending D s := by
          simp [Act.ending, haborted, hasync]
        obtain ⟨hcalm, hcloses⟩ := hending _ hkinds.symm hends
        refine endAborted_turned hcalm hcloses ?_ rfl
        cases hc : D.classify false sql with
        | accepted kinds tables =>
          obtain ⟨ss, hss, hkinds, -⟩ := hD.reads.accepted false sql kinds tables hc
          rw [Classification.kinds, hkinds, ← kindsOf_query hss]
          exact .refl _
        | _ => rw [hc] at hends; cases hends
      next => exact hkeeps rfl rfl rejectFailed_plays
    next =>
      split
      next hc =>
        refine hkeeps rfl rfl ?_
        have hnone : g.brings parse ⟨.client n, .query sql⟩ = [] := by
          simp [Turn.brings, kindsOf, statementsOf, hD.reads.unparsed false sql hc]
        exact hnone ▸ forward_plays n (.query sql)
      · exact hkeeps rfl rfl (reject_plays hD)
      · exact hkeeps rfl rfl (plays_silent (by simp))

theorem handleBind_turned {b : Bind} (hinfo : s.statements b.statement = some info)
    (hending : ∀ kinds ∈ (Act.aborted n (.bind b)).ending D s, Kind.endsTransaction kinds = true →
      calm ∧ Kind.closes kinds = true) :
    Turned parse g (g.classed s (.aborted n (.bind b))) s calm (.aborted n (.bind b))
      (handleBind s n b info) := by
  have hknown : s.known b = info.kinds := by simp [Session.known, hinfo]
  unfold handleBind
  split
  next haborted =>
    split
    next hends =>
      obtain ⟨hcalm, hcloses⟩ := hending info.kinds (by simp [Act.ending, haborted, hknown]) hends
      refine endAborted_turned hcalm hcloses ?_ rfl
      have hbrings : (g.classed s (.aborted n (.bind b))).brings parse ⟨.client n, .bind b⟩ =
          info.kinds := by
        simp [Turn.brings, Turn.classed, hknown]
      rw [hbrings]
      exact .refl _
    next => exact .of_plays rfl rfl rfl rfl rejectFailed_plays
  next => exact .of_plays rfl rfl rfl rfl (plays_silent (by simp))

theorem aborted_turned (hD : Knows D parse)
    (hending : ∀ kinds ∈ (Act.aborted n m).ending D s, Kind.endsTransaction kinds = true →
      calm ∧ Kind.closes kinds = true) :
    Turned parse g (g.classed s (.aborted n m)) s calm (.aborted n m)
      ((Act.aborted n m).exec D now jobID s) := by
  dsimp only [Act.exec]
  split
  next sql => exact handleQuery_turned hD hending
  next name sql =>
    have hparse : Quiet s (handleParse D jobID s n name sql) := handleParse_quiet n name sql
    obtain ⟨_, _, hquiet⟩ := hparse
    refine .of_plays ?_ ?_ ?_ rfl (handleParse_plays hD)
    · rw [hquiet]
    · rw [hquiet]
    · rw [hquiet]
  next b =>
    split
    next info hinfo => exact handleBind_turned hinfo hending
    next hnone =>
      have hkinds : (g.classed s (.aborted n (.bind b))).brings parse
          ⟨.client n, .bind b⟩ = [] := by
        simp [Turn.brings, Turn.classed, Session.known, hnone]
      have hplays : (g.classed s (.aborted n (.bind b))).Plays parse (forward n (.bind b)) _ :=
        forward_plays n (.bind b)
      rw [hkinds] at hplays
      exact .of_plays rfl rfl rfl rfl hplays
  next hquery _ hbind => exact .of_plays rfl rfl rfl rfl (forward_silent hquery hbind)

theorem admitKinds_plays {t t' : Tracker} {kinds : List Kind}
    (h : t.admitKinds kinds now = (t', none)) : t'.inTxn = kinds.foldl Kind.plays t.inTxn := by
  have hfresh : t.fresh.inTxn = t.inTxn := by
    unfold Tracker.fresh
    split <;> rfl
  rcases t.admitKinds_cases kinds now with ⟨v, hv⟩ | ⟨-, hv⟩
  · cases (Prod.mk.inj (hv.symm.trans h)).2
  · rw [← (Prod.mk.inj (hv.symm.trans h)).1, foldl_record_plays, hfresh]

theorem admitKinds_turned (hD : Knows D parse) (h : g.Tells parse n m info)
    (hcontrol : info.kinds.any Kind.turns = true → calm) :
    Turned parse g g s calm (.admitKinds n m info)
      ((Act.admitKinds n m info).exec D now jobID s) := by
  cases hruling : s.tracker.admitKinds info.kinds now with
  | mk t v =>
    simp only [Act.exec, hruling]
    cases v with
    | some v =>
      refine .of_plays ?_ rfl rfl rfl (reject_plays hD)
      exact admitKinds_inTxn hruling (.inl (by simp))
    | none =>
      exact .admits hcontrol (admitKinds_plays hruling) rfl rfl rfl rfl rfl (h.admitted_plays hD)

theorem asyncKinds_alike (hD : Knows D parse) {rewritten : String} {kinds : List Kind}
    (hkinds : (D.classify true rewritten).asyncKinds = some kinds) :
    Kind.Alike (kindsOf parse (.query rewritten)) kinds := by
  cases hc : D.classify true rewritten with
  | unparsed =>
    rw [hc] at hkinds
    cases hkinds
    have hnone : kindsOf parse (.query rewritten) = [] := by
      simp [kindsOf, statementsOf, hD.reads.unparsed true rewritten hc]
    rw [hnone]
    exact .refl _
  | rejected v => rw [hc] at hkinds; cases hkinds
  | accepted kinds' tables =>
    rw [hc] at hkinds
    obtain ⟨ss, hss, hmap, -⟩ := hD.reads.accepted true rewritten kinds' tables hc
    rw [kindsOf_query hss, ← hmap]
    simp only [Classification.asyncKinds, Option.some.injEq] at hkinds
    split at hkinds
    next hnil =>
      subst hkinds
      rw [hnil]
      exact .refl _
    next => rw [hkinds]; exact .refl _

theorem admitAsync_turned (hD : Knows D parse) {rewritten : String} {statement : Nat}
    {kinds : List Kind} (h : (Act.admitAsync n rewritten statement kinds).Known D parse g)
    (hcontrol : kinds.any Kind.turns = true → calm) (hjob : '*' ∉ jobID.toList) :
    Turned parse g g s calm (.admitAsync n rewritten statement kinds)
      ((Act.admitAsync n rewritten statement kinds).exec D now jobID s) := by
  cases hruling : s.tracker.admitKinds kinds now with
  | mk t v =>
    simp only [Act.exec, hruling]
    cases v with
    | some v =>
      refine .of_plays ?_ rfl rfl rfl (reject_plays hD)
      exact admitKinds_inTxn hruling (.inl (by simp))
    | none =>
      refine .admits hcontrol (admitKinds_plays hruling) rfl rfl rfl rfl rfl ?_
      obtain ⟨⟨sql, k, hstrip⟩, hkinds⟩ := h
      have hmarked : kindsOf parse (.query (jobMarker jobID ++ rewritten)) =
          kindsOf parse (.query rewritten) := by
        simp [kindsOf, statementsOf, hD.marked sql rewritten k jobID hstrip hjob]
      refine .cons ⟨rfl, rfl⟩ (.cons ⟨rfl, rfl⟩ ((write_plays _ _).trans ?_))
      change Kind.Alike (kindsOf parse (.query (jobMarker jobID ++ rewritten))) kinds
      rw [hmarked]
      exact asyncKinds_alike hD hkinds

theorem write_turned (o : Origin) (ms : List Frontend) :
    Turned parse g g s calm (.writeUpstream o ms)
      ((Act.writeUpstream o ms).exec D now jobID s) := by
  refine .keeps rfl rfl rfl rfl ?_
  simpa [List.flatMap_map] using Kind.Alike.refl _

theorem turned_of_exec (hD : Knows D parse) (ha : FrontAct n m a) (h : a.Known D parse g)
    (hcontrol : a.batch.any Kind.turns = true → calm)
    (hending : ∀ kinds ∈ a.ending D s, Kind.endsTransaction kinds = true →
      calm ∧ Kind.closes kinds = true)
    (hfailing : ∀ kinds ∈ a.failing D s, Kind.closes kinds = true) (hjob : '*' ∉ jobID.toList) :
    Turned parse g (g.classed s a) s calm a (a.exec D now jobID s) := by
  cases ha with
  | code ha =>
    cases a with
    | writeUpstream o ms => exact write_turned o ms
    | beginFailure k f => exact .of_plays rfl rfl rfl rfl (.cons ⟨rfl, rfl⟩ (write_plays _ _))
    | setHidden y ms =>
      obtain ⟨rfl, rfl⟩ := ha
      exact .of_plays rfl rfl rfl rfl
        (.cons ⟨rfl, rfl⟩ ((write_plays _ _).trans hD.alike_savepoint))
    | droppingUntilSync k m' => exact dispatch_turned
    | handleSync k => exact .syncs rfl
    | aborted k m' => exact aborted_turned hD hending
    | admitKinds k m' info => exact admitKinds_turned hD h hcontrol
    | admitAsync k rewritten statement kinds => exact admitAsync_turned hD h hcontrol hjob
    | admitRollback => exact .rolls rfl
    | deferFailure f => exact .defers rfl
    | occAdjudicated k m' info =>
      have hdoomed : s.occDoomed = true → Kind.closes info.kinds = true :=
        fun hd => hfailing info.kinds (by simp [Act.failing, hd])
      dsimp only [Act.exec]
      split
      next hd =>
        exact .of_plays rfl rfl rfl rfl
          ((occFailure_plays hD).trans (Kind.alike_rollback (hdoomed hd)))
      next =>
        split
        · exact .of_plays rfl rfl rfl rfl (.cons ⟨rfl, rfl⟩ (Turn.Tells.send_plays hD h))
        · exact .of_plays rfl rfl rfl rfl (.one (.refl _) rfl)
    | occCommitConflict k m' info =>
      refine .of_plays rfl rfl rfl rfl ?_
      dsimp only [Act.exec]
      split
      next hconflict =>
        exact (occFailure_plays hD).trans
          (Kind.alike_rollback (hfailing info.kinds (by simp [Act.failing, hconflict])))
      next => exact .cons ⟨rfl, rfl⟩ (Turn.Tells.send_plays hD h)
    | _ =>
      first
        | exact ha.elim
        | (dsimp only [Act.exec]; (repeat' split) <;>
            exact .of_plays rfl rfl rfl rfl (plays_silent (by simp)))
  | savepoint => exact write_turned _ _
  | abort => exact write_turned _ _
  | rollback => exact write_turned _ _

end Front

@[simp] def Act.last : Act → Bool
  | .droppingUntilSync _ _ => true
  | .handleSync _ => true
  | .aborted _ _ => true
  | .admitKinds _ _ _ => true
  | .admitAsync _ _ _ _ => true
  | .occAdjudicated _ _ _ => true
  | .occCommitConflict _ _ _ => true
  | .deferFailure _ => true
  | _ => false

@[simp] def Act.isNote : Act → Bool
  | .noteBatchState _ => true
  | _ => false

def Lasts (l : List Act) : Prop := l.Pairwise fun a b => a.last = true → b.isNote = true

section Lasts

variable {s : Session} {n now : Nat} {m : Frontend} {jobID : String} {a b : Act} {l rest : List Act}
  {info : StatementInfo}

theorem lasts_of_tame (h : ∀ b ∈ l, b.last = false) : Lasts l := by
  refine List.pairwise_of_forall_mem_list fun a ha b _ hlast => ?_
  rw [h a ha] at hlast
  cases hlast

theorem Lasts.cons (ha : a.last = false) (h : Lasts l) : Lasts (a :: l) := by
  refine List.pairwise_cons.2 ⟨fun b _ hlast => ?_, h⟩
  rw [ha] at hlast
  cases hlast

theorem Lasts.append (hl : ∀ b ∈ l, b.last = false) (h : Lasts rest) : Lasts (l ++ rest) := by
  induction l with
  | nil => exact h
  | cons a l ih =>
    rw [List.forall_mem_cons] at hl
    exact .cons hl.1 (ih hl.2)

theorem lasts_singleton (a : Act) : Lasts [a] := List.pairwise_singleton _ a

theorem forward_tame : ∀ b ∈ forward n m, b.last = false := by
  unfold forward
  split <;> simp

theorem forward_lasts (n : Nat) (m : Frontend) : Lasts (forward n m) := lasts_of_tame forward_tame

theorem send_tame : ∀ b ∈ send D n m info, b.last = false := by
  unfold send
  split
  · split
    · split <;> simp
    · exact forward_tame
  · intro b hb
    rcases List.mem_append.1 hb with hb | hb
    · cases hj : info.jobID <;> simp_all
    · exact forward_tame b hb

theorem reject_lasts {code message : String} {extended : Bool} :
    Lasts (reject s n code message extended) := by
  refine .cons rfl ?_
  split <;> split <;> exact lasts_singleton _

theorem rejectFailed_lasts {extended : Bool} : Lasts (rejectFailed n extended) := by
  cases extended <;> exact .cons rfl (lasts_singleton _)

theorem occFailure_lasts {extended : Bool} : Lasts (occFailure D n extended) :=
  .cons rfl (.cons rfl (lasts_singleton _))

theorem admitted_lasts : Lasts (admitted D s n m info) := by
  refine .append ?_ (.cons rfl ?_)
  · split <;> simp
  · split
    · split
      · exact lasts_singleton _
      · exact .cons rfl (lasts_of_tame send_tame)
    · split
      · refine .append ?_ (lasts_of_tame send_tame)
        cases info.intent <;> simp [armAdjudicator]
      · exact lasts_of_tame send_tame

theorem endAborted_lasts : Lasts (endAborted ++ forward n m) :=
  .append (by simp [endAborted]) (lasts_of_tame forward_tame)

theorem forwardAsyncJob_lasts {rewritten : String} {statement : Nat} :
    Lasts (forwardAsyncJob D jobID s n m rewritten statement).next := by
  have hrun (kinds : List Kind) : Lasts
      (runAsyncJob jobID s n m rewritten statement kinds).next := by
    unfold runAsyncJob
    split
    · exact lasts_of_tame (by simp)
    · exact lasts_singleton _
  unfold forwardAsyncJob
  split
  · exact hrun _
  · exact reject_lasts
  · exact hrun _

theorem handleQuery_lasts {sql : String} : Lasts (handleQuery D jobID s n sql).next := by
  unfold handleQuery
  split
  · split
    · exact rejectFailed_lasts
    · exact forwardAsyncJob_lasts
  · split
    · split
      · exact endAborted_lasts
      · exact rejectFailed_lasts
    · split
      · exact forward_lasts n (.query sql)
      · exact reject_lasts
      · exact lasts_singleton _

theorem handleParse_lasts {name sql : String} : Lasts (handleParse D jobID s n name sql).next := by
  unfold handleParse
  split
  · split
    · exact rejectFailed_lasts
    · exact forwardAsyncJob_lasts
  · dsimp only
    split
    · split
      · split
        · exact forward_lasts n (.parse name sql)
        · exact rejectFailed_lasts
      · exact rejectFailed_lasts
    · split
      · exact forward_lasts n (.parse name sql)
      · exact reject_lasts
      · split
        · refine .append ?_ (lasts_of_tame (by simp))
          split <;> simp
        · refine .append ?_ (forward_lasts n (.parse name sql))
          split <;> simp

theorem dispatch_lasts {t : Tag} : Lasts ((dispatch s n m).next ++ [.noteBatchState t]) := by
  have haborted : Lasts ([.aborted n m] ++ [.noteBatchState t]) := by simp [Lasts]
  have hforward (m : Frontend) : Lasts (forward n m ++ [.noteBatchState t]) :=
    .append forward_tame (lasts_singleton _)
  unfold dispatch
  split
  · exact haborted
  · exact haborted
  next b =>
    split
    · exact hforward (.bind b)
    · exact haborted
  next name => exact hforward (.close true name)
  · exact hforward m

theorem exec_lasts (ha : FrontAct n m a) :
    Lasts (a.exec D now jobID s).next ∧
      (a.last = false → ∀ b ∈ (a.exec D now jobID s).next, b.last = false) := by
  cases ha with
  | code ha =>
    cases a with
    | droppingUntilSync k m' =>
      refine ⟨?_, fun h => by cases h⟩
      dsimp only [Act.exec]
      split
      · exact .nil
      · exact dispatch_lasts
    | handleSync k =>
      refine ⟨.append forward_tame (lasts_of_tame ?_), fun h => by cases h⟩
      cases s.pendingFailure <;> simp
    | aborted k m' =>
      refine ⟨?_, fun h => by cases h⟩
      dsimp only [Act.exec]
      split
      · exact handleQuery_lasts
      · exact handleParse_lasts
      next b =>
        split
        · unfold handleBind
          split
          · split
            · exact endAborted_lasts
            · exact rejectFailed_lasts
          · exact lasts_singleton _
        · exact forward_lasts k (.bind b)
      · exact forward_lasts k m'
    | admitKinds k m' info =>
      refine ⟨?_, fun h => by cases h⟩
      dsimp only [Act.exec]
      split
      · exact reject_lasts
      · exact admitted_lasts
    | admitAsync k rewritten statement kinds =>
      refine ⟨?_, fun h => by cases h⟩
      dsimp only [Act.exec]
      split
      · exact reject_lasts
      · exact lasts_of_tame (by simp)
    | occAdjudicated k m' info =>
      refine ⟨?_, fun h => by cases h⟩
      dsimp only [Act.exec]
      split
      · exact occFailure_lasts
      · split
        · exact .cons rfl (lasts_of_tame send_tame)
        · exact lasts_singleton _
    | occCommitConflict k m' info =>
      refine ⟨?_, fun h => by cases h⟩
      dsimp only [Act.exec]
      split
      · exact occFailure_lasts
      · exact .cons rfl (lasts_of_tame send_tame)
    | _ =>
      first
      | exact ha.elim
      | (dsimp only [Act.exec]; (repeat' split) <;>
          exact ⟨lasts_of_tame (by simp), fun _ => by simp⟩)
  | _ => exact ⟨.nil, by simp⟩

theorem Lasts.exec (h : Lasts (a :: rest)) (ha : FrontAct n m a) :
    Lasts ((a.exec D now jobID s).next ++ rest) := by
  have hexec : Lasts (a.exec D now jobID s).next ∧
      (a.last = false → ∀ b ∈ (a.exec D now jobID s).next, b.last = false) :=
    exec_lasts ha
  obtain ⟨hnext, htame⟩ := hexec
  obtain ⟨hhead, hrest⟩ := List.pairwise_cons.1 h
  refine List.pairwise_append.2 ⟨hnext, hrest, fun b hb c hc hlast => ?_⟩
  cases hal : a.last with
  | true => exact hhead c hc hal
  | false =>
    rw [htame hal b hb] at hlast
    cases hlast

theorem Lasts.notes (h : Lasts (a :: rest)) (ha : a.last = true) : ∀ b ∈ rest, b.isNote = true :=
  fun b hb => (List.pairwise_cons.1 h).1 b hb ha

end Lasts

@[simp] def Act.spare : Act → Bool
  | .noteBatchState _ => true
  | .droppingUntilSync _ _ => true
  | .handleSync _ => true
  | .writeUpstream _ _ => true
  | .quit => true
  | _ => false

@[simp] def Act.Mends (parse : String → Option (List Statement)) : Act → Prop
  | .setHidden (.restore _ _) ms => ms = [rollbackToQuery] ∨ ms = [restartQuery]
  | .writeUpstream (.hidden .restore _) ms => ms = [rollbackToQuery] ∨ ms = [restartQuery]
  | .setHidden _ ms => ∀ m ∈ ms, turns parse m = false
  | .writeUpstream _ ms => ∀ m ∈ ms, turns parse m = false
  | _ => True

section Back

variable {s : Session} {n now : Nat} {m : Frontend} {jobID : String} {a b : Act}
  {rest : List Act} {g : Turn}

theorem extendedQuery_turns {sql : String} {vs : List (Option String)} {fs gs : List Int} :
    ∀ m ∈ extendedQuery sql vs fs gs, turns parse m = false := by
  simp [extendedQuery, turns, statementsOf]

theorem runShadow_mends (hD : Knows D parse) {repair : InFlight} (h : D.Shadows repair.intent) :
    ∀ b ∈ runShadow D repair, b.Mends parse ∧ b.restores = false := by
  have hshadow : turns parse (.query repair.intent.shadow) = false := hD.shadows _ h
  have hfail : ∀ b ∈ failRepair D repair.request, b.Mends parse ∧ b.restores = false := by
    simp [failRepair]
  unfold runShadow
  split
  · simp [completeRepair]
  · split
    · unfold runRowsetShadow
      split
      · exact hfail
      · refine List.forall_mem_singleton.2 ⟨?_, rfl⟩
        dsimp only [Act.Mends]
        split
        · exact extendedQuery_turns
        · exact List.forall_mem_singleton.2 hshadow
    · unfold runCountShadow
      split
      · exact hfail
      · refine List.forall_mem_singleton.2 ⟨?_, rfl⟩
        dsimp only [Act.Mends]
        split
        · exact List.forall_mem_singleton.2 hshadow
        · exact extendedQuery_turns

theorem finish_mends (hD : Knows D parse) {y : Exchange} (h : ∀ f ∈ y.repair, D.Shadows f.intent) :
    ∀ b ∈ y.finish D, b.Mends parse ∧ b.restores = false := by
  have hfail (k : Nat) : ∀ b ∈ failRepair D k, b.Mends parse ∧ b.restores = false := by
    simp [failRepair]
  cases y with
  | savepoint failed => cases failed <;> simp [Exchange.finish]
  | restore repair failed =>
    cases failed
    · exact runShadow_mends hD (h repair rfl)
    · exact hfail _
  | count repair rows failed =>
    cases failed
    · simp [Exchange.finish, completeRepair]
    · exact hfail _
  | rowset repair failed =>
    cases failed
    · simp [Exchange.finish]
    · exact hfail _

theorem relayCode_mends {o : Origin} (h : RelayCode o b) : b.Mends parse ∧ b.restores = false := by
  cases b <;> first | exact h.elim | exact ⟨trivial, rfl⟩

theorem relay_mends (r : Reply) : ∀ b ∈ relay D r, b.Mends parse ∧ b.restores = false := by
  obtain ⟨o, m⟩ := r
  cases m with
  | error e => simp only [relay]; split <;> simp
  | parameterStatus name value => simp only [relay]; split <;> simp
  | _ => simp [relay]

theorem exec_mends (hD : Knows D parse) (hb : BackMode (a :: rest)) (hs : a.Shadowed D)
    (h : a.Mends parse) : ∀ b ∈ (a.exec D now jobID s).next, b.Mends parse ∧
      (b.restores = true → s.occRepair.isSome = true ∨ a.restores = true) := by
  have hplain {l : List Act} (hl : ∀ b ∈ l, b.Mends parse ∧ b.restores = false) :
      ∀ b ∈ l, b.Mends parse ∧
          (b.restores = true → s.occRepair.isSome = true ∨ a.restores = true) :=
    fun b hb => ⟨(hl b hb).1, fun hr => absurd ((hl b hb).2.symm.trans hr) (by simp)⟩
  cases hb with
  | offering =>
    dsimp only [Act.exec]
    (repeat' split) <;> simp
  | @checking r =>
    dsimp only [Act.exec]
    split
    · split <;> simp
    · split
      · exact hplain (relay_mends r)
      · simp
  | @pending r =>
    dsimp only [Act.exec]
    split
    · simp
    · exact hplain (relay_mends r)
  | failing =>
    dsimp only [Act.exec]
    (repeat' split) <;> simp
  | ending => exact hplain (finish_mends hD hs)
  | starting =>
    dsimp only [Act.exec]
    split
    next hsome => simp [hsome]
    next => simp
  | restoring =>
    refine List.forall_mem_singleton.2 ⟨?_, fun _ => .inr rfl⟩
    dsimp only [Act.Mends]
    split
    · exact .inl rfl
    · exact .inr rfl
  | relaying hl =>
    exact hplain fun b hb => relayCode_mends (exec_relay (hl a List.mem_cons_self) b hb)
  | repairing hl =>
    cases hl a List.mem_cons_self with
    | code hcode =>
      cases a with
      | beginFailure k f =>
        cases hcode
        have habort : turns parse abortTransactionQuery = false := by
          simp only [turns, statementsOf, abortTransactionQuery, hD.abort, Option.getD_some]
          rfl
        simpa [abortFailure] using habort
      | setHidden y ms =>
        cases y with
        | restore repair failed => simpa [Exchange.purpose] using h
        | _ => simpa [Exchange.purpose] using h
      | _ => first | exact hcode.elim | simp
    | _ => simp
  | _ => simp

end Back

end Proxy

end DsqlEmulator
