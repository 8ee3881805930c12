import DsqlEmulator.Line
import DsqlEmulator.Proxy.Prepared

/-! What the session remembers of the client's prepared statements.  It is written
when a `Parse` is handled, not when the upstream has accepted it, and read when a
`Bind` is handled; in between stand the requests that were forwarded. -/

namespace DsqlEmulator.Proxy

open Wire Occ Txn Runs Table Line

variable {U : Upstream} {D : Dialect}

def Request.expects (D : Dialect) : Request → List (String × Option Prepared)
  | ⟨.client n, .parse name sql⟩ =>
    [(name, if D.classify false sql = .unparsed then none else some ⟨.client n, sql⟩)]
  | ⟨.client _, .close true name⟩ => [(name, none)]
  | _ => []

def texts (D : Dialect) (qs : List Request) : String → Option Prepared :=
  assign (fun _ => none) (qs.flatMap (Request.expects D))

def Classification.isRejected : Classification → Bool
  | .rejected _ => true
  | _ => false

def Session.forgets (D : Dialect) (s : Session) : Act → Bool
  | .aborted _ (.parse name sql) =>
    !s.txnAborted && (D.stripAsync sql).isNone && (D.classify false sql).isRejected &&
      (s.statements name).isSome
  | _ => false

structure Cached (D : Dialect) (Fits : World U → Prepared → Option StatementInfo → Prop)
    (w : World U) : Prop where
  known : ∀ name p, texts D w.written name = some p → Fits w p (w.sess.statements name) ∨
    ∃ n x, .forwarding n x ∈ w.front ∧ x.assigned = some name
  ready : ∀ n name text, .forwarding n (.parse name text) ∈ w.front →
    D.classify false text ≠ .unparsed → Fits w ⟨.client n, text⟩ (w.sess.statements name)

section Cached

variable {Fits : World U → Prepared → Option StatementInfo → Prop} {w w' : World U} {a : Act}
  {rest : List Act} {qs : List Request} {n : Nat} {m x : Frontend} {name : String}

theorem texts_append :
    texts D (qs ++ [⟨.client n, x⟩]) = assign (texts D qs) (Request.expects D ⟨.client n, x⟩) := by
  simp [texts, assign_append]

theorem expects_own {q : Request} (h : ∀ n, q.origin ≠ .client n) : q.expects D = [] := by
  obtain ⟨o, m⟩ := q
  cases o with
  | client n => exact absurd rfl (h n)
  | _ => rfl

theorem texts_append_own {own : List Request} (h : ∀ q ∈ own, ∀ n, q.origin ≠ .client n) :
    texts D (qs ++ own) = texts D qs := by
  have hnil : own.flatMap (Request.expects D) = [] := List.flatMap_eq_nil_iff.2 fun q hq =>
    expects_own (h q hq)
  simp [texts, List.flatMap_append, hnil]

theorem texts_append_of_ne (h : x.assigned ≠ some name) :
    texts D (qs ++ [⟨.client n, x⟩]) name = texts D qs name := by
  rw [texts_append]
  cases x with
  | parse name' sql =>
    have hne : name ≠ name' := fun heq => h (heq ▸ rfl)
    simp [Request.expects, hne]
  | close statement name' =>
    cases statement with
    | false => rfl
    | true =>
      have hne : name ≠ name' := fun heq => h (heq ▸ rfl)
      simp [Request.expects, hne]
  | _ => rfl

theorem forwarding_not_mem_rest (ho : Ordered w) (hf : w.front = a :: rest)
    (ha : a.forwards = true) : ∀ n x, Act.forwarding n x ∉ rest := by
  intro n x hx
  have honce := ho.once
  rw [hf, List.countP_cons_of_pos ha] at honce
  have hpos : 0 < rest.countP Act.forwards := List.countP_pos_iff.2 ⟨_, hx, rfl⟩
  omega

theorem Cached.forward {now : Nat} {jobID : String} (h : Cached D Fits w) (ho : Ordered w)
    (hf : w.front = .forwarding n x :: rest)
    (hkeep : ∀ {p o}, Fits w p o →
      Fits (w.applyFront rest ((Act.forwarding n x).exec D now jobID w.sess)) p o) :
    Cached D Fits (w.applyFront rest ((Act.forwarding n x).exec D now jobID w.sess)) where
  known name p hp := by
    have hp : texts D (w.written ++ [⟨.client n, x⟩]) name = some p := hp
    refine .inl (hkeep ?_)
    by_cases hname : x.assigned = some name
    · rw [texts_append] at hp
      cases x with
      | parse name' sql =>
        cases hname
        simp only [Request.expects, assign_cons, assign_nil, Function.update_self] at hp
        split at hp
        · cases hp
        next hc =>
          cases hp
          exact h.ready n name sql (hf ▸ List.mem_cons_self) hc
      | close statement name' =>
        cases statement with
        | false => cases hname
        | true =>
          cases hname
          simp [Request.expects] at hp
      | _ => cases hname
    · rw [texts_append_of_ne hname] at hp
      refine (h.known name p hp).resolve_right ?_
      rintro ⟨n', x', hx', hname'⟩
      rw [hf] at hx'
      rcases List.mem_cons.1 hx' with heq | hx'
      · cases heq
        exact hname hname'
      · exact forwarding_not_mem_rest ho hf rfl n' x' hx'
  ready n' name text hmem _ := absurd hmem (forwarding_not_mem_rest ho hf rfl n' _)

theorem hands_parse {s : Session} {now k : Nat} {jobID text : String} (ha : FrontAct n m a)
    (hands : Hands D now jobID s n a (.forwarding k (.parse name text))) :
    ∃ sql, a = .aborted n (.parse name sql) := by
  generalize hb : Act.forwarding k (.parse name text) = b at hands
  have hcode : FrontCode n m a := hands.frontCode ha
  have hrewritten {x : Frontend} (hx : x.tag = .query ∨ x.tag = .bind)
      (heq : D.rewritten x = .parse name text) : False := by
    cases x with
    | parse => simp at hx
    | query => cases heq
    | _ => cases heq
  cases hands with
  | forwarded hsql => cases hb; cases hsql
  | passed hsql => cases hb; cases hsql
  | asyncParse => cases hb; exact ⟨_, rfl⟩
  | parse => cases hb; exact ⟨_, rfl⟩
  | parseRewritten => cases hb; exact ⟨_, rfl⟩
  | admitted =>
    obtain ⟨-, rfl, hm⟩ := hcode
    exact (hrewritten hm (by simpa using (Act.writeUpstream.inj hb).2.symm)).elim
  | undoomed =>
    obtain ⟨-, rfl, hm⟩ := hcode
    exact (hrewritten hm (by simpa using (Act.writeUpstream.inj hb).2.symm)).elim
  | committed =>
    obtain ⟨-, rfl, hm⟩ := hcode
    exact (hrewritten hm (by simpa using (Act.writeUpstream.inj hb).2.symm)).elim
  | _ => cases hb

theorem Cached.plain {now : Nat} {jobID : String} (h : Cached D Fits w) (hf : w.front = a :: rest)
    (hne : ∀ n x, a ≠ .forwarding n x)
    (hup : ∀ q ∈ (a.exec D now jobID w.sess).up, ∀ n, q.origin ≠ .client n)
    (hkeep : ∀ {p o}, Fits w p o → Fits (w.applyFront rest (a.exec D now jobID w.sess)) p o)
    (hstatements : (a.exec D now jobID w.sess).sess.statements = w.sess.statements)
    (hnext : ∀ n name text, .forwarding n (.parse name text) ∉ (a.exec D now jobID w.sess).next) :
    Cached D Fits (w.applyFront rest (a.exec D now jobID w.sess)) where
  known name p hp := by
    have hp : texts D (w.written ++ (a.exec D now jobID w.sess).up) name = some p := hp
    rw [texts_append_own hup] at hp
    refine (h.known name p hp).imp (fun hfits => hkeep ?_) ?_
    · exact hstatements ▸ hfits
    · rintro ⟨n, x, hx, hname⟩
      rw [hf] at hx
      exact ⟨n, x, List.mem_append_right _ ((List.mem_cons.1 hx).resolve_left (hne n x).symm),
        hname⟩
  ready n name text hmem hc := by
    have hold : .forwarding n (.parse name text) ∈ w.front := by
      rw [hf]
      exact List.mem_cons_of_mem _ ((List.mem_append.1 hmem).resolve_left (hnext n name text))
    exact hkeep (hstatements ▸ h.ready n name text hold hc)

theorem Cached.assigns {now : Nat} {jobID : String} {info : Option StatementInfo}
    (h : Cached D Fits w) (ho : Ordered w) (hf : w.front = a :: rest) (hfa : a.forwards = true)
    (hne : ∀ n x, a ≠ .forwarding n x)
    (hup : ∀ q ∈ (a.exec D now jobID w.sess).up, ∀ n, q.origin ≠ .client n)
    (hkeep : ∀ {p o}, Fits w p o → Fits (w.applyFront rest (a.exec D now jobID w.sess)) p o)
    (hstatements : (a.exec D now jobID w.sess).sess.statements = Function.update w.sess.statements
      name info) (hnext : (a.exec D now jobID w.sess).next.filter Act.forwards = [.forwarding n x])
    (hx : x.assigned = some name)
    (hfits : ∀ text, x = .parse name text → D.classify false text ≠ .unparsed →
      Fits w ⟨.client n, text⟩ info) :
    Cached D Fits (w.applyFront rest (a.exec D now jobID w.sess)) where
  known name' p hp := by
    by_cases hname : name' = name
    · have hmem : .forwarding n x ∈ (a.exec D now jobID w.sess).next.filter Act.forwards := by
        rw [hnext]
        exact List.mem_singleton_self _
      exact .inr ⟨n, x, List.mem_append_left _ (List.mem_filter.1 hmem).1, hname ▸ hx⟩
    · have hp : texts D (w.written ++ (a.exec D now jobID w.sess).up) name' = some p := hp
      rw [texts_append_own hup] at hp
      refine .inl (hkeep ?_)
      change Fits w p ((a.exec D now jobID w.sess).sess.statements name')
      rw [hstatements, Function.update_of_ne hname]
      refine (h.known name' p hp).resolve_right ?_
      rintro ⟨n', x', hx', -⟩
      rw [hf] at hx'
      exact forwarding_not_mem_rest ho hf hfa n' x'
        ((List.mem_cons.1 hx').resolve_left (hne n' x').symm)
  ready n' name' text hmem hc := by
    have hmem := (List.mem_append.1 hmem).resolve_right (forwarding_not_mem_rest ho hf hfa n' _)
    have hfilter : .forwarding n' (.parse name' text) ∈ (a.exec D now jobID w.sess).next.filter
        Act.forwards :=
      List.mem_filter.2 ⟨hmem, rfl⟩
    rw [hnext, List.mem_singleton] at hfilter
    cases hfilter
    cases hx
    refine hkeep ?_
    change Fits w _ ((a.exec D now jobID w.sess).sess.statements name)
    rw [hstatements, Function.update_self]
    exact hfits text rfl hc

def Fitting (D : Dialect) (Fits : World U → Prepared → Option StatementInfo → Prop) (jobID : String)
    (w : World U) : Prop :=
  ∀ k name sql info text, w.front.head? = some (.aborted k (.parse name sql)) →
    Remembers D jobID w.sess sql info (some text) → D.classify false text ≠ .unparsed →
      Fits w ⟨.client k, text⟩ info

theorem forgets_update {k : Nat} {name sql : String} (hab : w.sess.txnAborted = false)
    (hasync : D.stripAsync sql = none) {v : Verdict} (hc : D.classify false sql = .rejected v)
    (h : w.sess.forgets D (.aborted k (.parse name sql)) = false) :
    Function.update w.sess.statements name none = w.sess.statements := by
  have hnone : w.sess.statements name = none := by
    simpa [Session.forgets, hab, hasync, hc, Classification.isRejected] using h
  rw [← hnone]
  exact Function.update_eq_self name w.sess.statements

theorem Cached.front {now : Nat} {jobID : String} (h : Cached D Fits w) (ht : Threads w)
    (ho : Ordered w) (hf : w.front = a :: rest) (hforgets : w.sess.forgets D a = false)
    (hfits : Fitting D Fits jobID w)
    (hkeep : ∀ {p o}, Fits w p o → Fits (w.applyFront rest (a.exec D now jobID w.sess)) p o) :
    Cached D Fits (w.applyFront rest (a.exec D now jobID w.sess)) := by
  obtain ⟨m, -, ha⟩ := ht.head hf
  by_cases hforward : ∃ n x, a = .forwarding n x
  · obtain ⟨n, x, rfl⟩ := hforward
    exact h.forward ho hf hkeep
  have hne : ∀ n x, a ≠ .forwarding n x := fun n x ha => hforward ⟨n, x, ha⟩
  have hup : ∀ q ∈ (a.exec D now jobID w.sess).up, ∀ n, q.origin ≠ .client n := by
    intro q hq n hn
    obtain ⟨ms, rfl⟩ := exec_up_client hq hn
    cases ha with
    | code ha =>
      obtain ⟨-, m', rfl, -⟩ := ha
      exact hne n m' rfl
  by_cases hparse : ∃ k name sql, a = .aborted k (.parse name sql)
  · obtain ⟨k, name, sql, rfl⟩ := hparse
    rcases handleParse_remembers (D := D) (s := w.sess) jobID k name sql with ⟨hs, hnil⟩ |
      ⟨info, text, hr, hs, hnext⟩
    · exact h.plain hf hne hup hkeep hs fun n name text hmem =>
        List.filter_eq_nil_iff.1 hnil _ hmem rfl
    · cases text with
      | none =>
        cases hr with
        | rejected hasync hab hc =>
          rw [forgets_update hab hasync hc hforgets] at hs
          exact h.plain hf hne hup hkeep hs fun n name text hmem =>
            List.filter_eq_nil_iff.1 hnext _ hmem rfl
      | some text =>
        refine h.assigns ho hf rfl hne hup hkeep hs hnext rfl fun text' htext hc => ?_
        cases htext
        exact hfits k name sql info text (hf ▸ rfl) hr hc
  rcases exec_remembers (D := D) (s := w.sess) a now jobID with hs | hparse' |
    ⟨k, name, rfl, hs, hnext⟩
  · refine h.plain hf hne hup hkeep hs fun n name text hmem => hparse ?_
    obtain ⟨sql, ha⟩ := hands_parse ha (hands_of_exec ha hmem rfl)
    exact ⟨_, _, _, ha⟩
  · exact absurd hparse' hparse
  · exact h.assigns ho hf rfl hne hup hkeep hs hnext rfl fun text htext => by cases htext

theorem Cached.start : Cached D Fits (World.start D U) := by
  constructor <;> simp [World.start, texts]

theorem Cached.congr (h : Cached D Fits w) (htexts : texts D w'.written = texts D w.written)
    (hs : w'.sess.statements = w.sess.statements) (hf : w'.front = w.front)
    (hkeep : ∀ {p o}, Fits w p o → Fits w' p o) : Cached D Fits w' where
  known name p hp := by
    rw [htexts] at hp
    rw [hs, hf]
    exact (h.known name p hp).imp_left hkeep
  ready n name text hx hc := by
    rw [hs]
    exact hkeep (h.ready n name text (hf ▸ hx) hc)

theorem Cached.moves {l : Label U} (h : Cached D Fits w) (ht : Threads w) (ho : Ordered w)
    (hm : Moves D l w w') (hforgets : ∀ a ∈ l.act w, w.sess.forgets D a = false)
    (hfits : ∀ jobID ∈ l.jobID, Fitting D Fits jobID w)
    (hkeep : ∀ {p o}, Fits w p o → Fits w' p o) : Cached D Fits w' := by
  cases hm with
  | send => exact h.congr rfl rfl rfl hkeep
  | @readClient _ m rest hf hi hc =>
    constructor
    · intro name p hp
      refine .inl (hkeep ((h.known name p hp).resolve_right ?_))
      simp [hf]
    · intro n name text hx
      change _ ∈ pumpFrontend w.read m at hx
      unfold pumpFrontend at hx
      split at hx <;> simp at hx
  | front hf => exact h.front ht ho hf (hforgets _ (by simp [Label.act, hf])) (hfits _ rfl) hkeep
  | readUpstream => exact h.congr rfl rfl rfl hkeep
  | back hb =>
    have hback := ht.back
    rw [hb] at hback
    exact h.congr (texts_append_own fun q hq => exec_mode_up hback hq)
      (exec_statements (backMode_quiet hback).2.1) rfl hkeep
  | answer => exact h.congr rfl rfl rfl hkeep

theorem Cached.bind {b : Bind} {p : Prepared} (h : Cached D Fits w) (ho : Ordered w)
    (hf : w.front = .forwarding n (.bind b) :: rest) (hp : texts D w.written b.statement = some p) :
    Fits w p (w.sess.statements b.statement) := by
  refine (h.known b.statement p hp).resolve_right ?_
  rintro ⟨n', x', hx', hname⟩
  rw [hf] at hx'
  rcases List.mem_cons.1 hx' with heq | hx'
  · cases heq
    cases hname
  · exact forwarding_not_mem_rest ho hf rfl n' x' hx'

end Cached

def Label.choice : Label U → Option U.Choice
  | .answer c => some c
  | _ => none

def Carried (D : Dialect) (P : Prepares U) (l : Label U) (w : World U × Ledger) : Prop :=
  ∀ c ∈ l.choice, ∀ q ∈ w.1.toUp.head?, q.origin.isClient = true →
    ∀ name ∈ (P.changes w.1.up q.msg c).map Prod.fst ++ (q.expects D).map Prod.fst,
      (w.2.take q (P.changes w.1.up q.msg c)).mine name = none ∨
        (w.2.take q (P.changes w.1.up q.msg c)).mine name = assign w.2.mine (q.expects D) name

instance (P : Prepares U) (l : Label U) (w : World U × Ledger) : Decidable (Carried D P l w) :=
  inferInstanceAs (Decidable (∀ c ∈ l.choice, ∀ q ∈ w.1.toUp.head?, _ → ∀ name ∈ _, _))

structure Traced (D : Dialect) (w : World U) (g : Ledger) : Prop where
  line : ∃ done, w.written = done ++ w.toUp ∧ Below g.mine (texts D done)
  bindings : ∀ b ∈ g.bindings, ∃ before bind after, w.written = before ++
    ⟨.client b.number, .bind bind⟩ :: after ∧
    bind.statement = b.name ∧ ∀ p, b.mine = some p → texts D before b.name = some p

section Traced

variable {P : Prepares U} {w w' : World U} {g : Ledger} {q : Request} {rest qs : List Request}

theorem Traced.start : Traced D (World.start D U) {} where
  line := ⟨[], rfl, by simp [Below]⟩
  bindings := by simp

theorem Traced.append (h : Traced D w g) (hw : w'.written = w.written ++ qs)
    (hup : w'.toUp = w.toUp ++ qs) : Traced D w' g where
  line := by
    obtain ⟨done, hdone, hbelow⟩ := h.line
    exact ⟨done, by rw [hw, hup, hdone, List.append_assoc], hbelow⟩
  bindings b hb := by
    obtain ⟨before, bind, after, heq, hbind⟩ := h.bindings b hb
    exact ⟨before, bind, after ++ qs, by simp [hw, heq], hbind⟩

theorem Carried.below {c : U.Choice} (h : Carried D P (.answer c) (w, g))
    (hq : w.toUp = q :: rest) :
    Below (g.take q (P.changes w.up q.msg c)).mine (assign g.mine (q.expects D)) := by
  intro name v hv
  cases hc : q.origin.isClient with
  | false =>
    have hown : ∀ n, q.origin ≠ .client n := fun n hn => by simp [hn, Origin.isClient] at hc
    rw [expects_own hown]
    simpa [Ledger.take, hc] using hv
  | true =>
    by_cases hname : name ∈ (P.changes w.up q.msg c).map Prod.fst ++ (q.expects D).map Prod.fst
    · rcases h c rfl q (by simp [hq]) hc name hname with hnone | heq
      · cases hnone.symm.trans hv
      · exact heq ▸ hv
    · have hchanges : ∀ x ∈ P.changes w.up q.msg c, x.1 ≠ name := fun x hx hx' =>
        hname (List.mem_append_left _ (List.mem_map.2 ⟨x, hx, hx'⟩))
      have hexpects : ∀ x ∈ q.expects D, x.1 ≠ name := fun x hx hx' =>
        hname (List.mem_append_right _ (List.mem_map.2 ⟨x, hx, hx'⟩))
      rw [assign_of_forall_ne hexpects]
      dsimp only [Ledger.take] at hv
      rwa [if_pos hc, assign_of_forall_ne (assigns_ne hchanges)] at hv

theorem Traced.answer {c : U.Choice} (h : Traced D w g) (hc : Carried D P (.answer c) (w, g))
    (hq : w.toUp = q :: rest) : Traced D (w.applyAnswer q rest (U.answer w.up q.msg c))
      (g.take q (P.changes w.up q.msg c)) := by
  obtain ⟨done, hdone, hbelow⟩ := h.line
  rw [hq] at hdone
  constructor
  · have hwritten : w.written = (done ++ [q]) ++ rest := by simpa using hdone
    refine ⟨done ++ [q], hwritten, ?_⟩
    have htexts : texts D (done ++ [q]) = assign (texts D done) (q.expects D) := by
      simp [texts, assign_append]
    rw [htexts]
    exact (hc.below hq).trans (hbelow.assign _)
  · intro b hb
    rcases List.mem_append.1 hb with hold | hnew
    · exact h.bindings b hold
    · replace hnew : g.binding q = some b := Option.mem_toList.1 hnew
      unfold Ledger.binding at hnew
      split at hnew
      · cases hnew
        exact ⟨done, _, rest, hdone, rfl, hbelow _⟩
      · cases hnew

theorem Traced.moves {l : Label U} (h : Traced D w g) (hm : Moves D l w w')
    (hl : Carried D P l (w, g)) : Traced D w' (g.note P l w) := by
  cases hm with
  | send => exact ⟨h.line, h.bindings⟩
  | readClient => exact ⟨h.line, h.bindings⟩
  | front => exact h.append rfl rfl
  | readUpstream => exact ⟨h.line, h.bindings⟩
  | back => exact h.append rfl rfl
  | answer hq =>
    simp only [Ledger.note, hq]
    exact h.answer hl hq

end Traced

def bindNote (l : Label U) (w : World U × Ledger) (r : List (Nat × Option StatementInfo)) :
    List (Nat × Option StatementInfo) :=
  match (l.act w.1).bind Act.forwarded with
  | some (n, .bind b) => r ++ [(n, w.1.sess.statements b.statement)]
  | _ => r

/-- The kinds, tables and intent are those of the text. -/
def Dialect.Describes (D : Dialect) (sql : String) (info : StatementInfo) : Prop :=
  D.classify false sql = .accepted info.kinds info.tables ∧ info.intent = D.analyze sql

/-- `Analyze` finds nothing in a text that ends a transaction. -/
def Dialect.Endings (D : Dialect) : Prop :=
  ∀ sql kinds tables, D.classify false sql = .accepted kinds tables → Kind.endsTransaction kinds =
    true → D.analyze sql = none

def Act.parsing : Act → Option String
  | .aborted _ (.parse _ sql) => some sql
  | _ => none

def Plainly (D : Dialect) (l : Label U) (w : World U) : Prop :=
  ∀ a ∈ l.act w, w.sess.forgets D a = false ∧ ∀ sql ∈ a.parsing, D.stripAsync sql = none ∧
    D.rewriteSQL sql = none

instance (l : Label U) (w : World U) : Decidable (Plainly D l w) :=
  inferInstanceAs (Decidable (∀ a ∈ l.act w, _ ∧ ∀ sql ∈ a.parsing, _))

/-- The session's part and the upstream's in keeping the cache true. -/
def Faithful (D : Dialect) (P : Prepares U) (l : Label U)
    (w : (World U × Ledger) × List (Nat × Option StatementInfo)) : Prop :=
  Undisturbed l w.1 ∧ Carried D P l w.1 ∧ Plainly D l w.1.1

instance (P : Prepares U) (l : Label U)
    (w : (World U × Ledger) × List (Nat × Option StatementInfo)) :
    Decidable (Faithful D P l w) :=
  inferInstanceAs (Decidable (_ ∧ _ ∧ _))

def Known (D : Dialect) (_ : World U) (p : Prepared) (o : Option StatementInfo) : Prop :=
  ∃ info, o = some info ∧ D.Describes p.text info

section Known

variable {P : Prepares U} {w w' : World U} {g : Ledger} {l : Label U}
  {r r' : List (Nat × Option StatementInfo)}

theorem fitting_known {jobID : String} (hD : D.Endings) (hl : Plainly D l w)
    (hjob : jobID ∈ l.jobID) : Fitting D (Known D) jobID w := by
  intro k name sql info text hf hr hc
  have hact : l.act w = some (.aborted k (.parse name sql)) := by
    cases l <;> first | exact hf | cases hjob
  obtain ⟨hasync, hrewrite⟩ := (hl _ hact).2 sql rfl
  cases hr with
  | async hasync' => cases hasync.symm.trans hasync'
  | ending _ _ haccepted hends => exact ⟨_, rfl, haccepted, (hD _ _ _ haccepted hends).symm⟩
  | unparsed _ _ hc' => exact absurd hc' hc
  | rewritten _ _ _ hr => cases hrewrite.symm.trans hr
  | parsed _ _ haccepted => exact ⟨_, rfl, haccepted, rfl⟩

def Described (D : Dialect) (r : List (Nat × Option StatementInfo)) (before : List Request)
    (q : Request) : Prop :=
  ∀ k b, q = ⟨.client k, .bind b⟩ → ∀ p, texts D before b.statement = some p →
    ∃ info, (k, some info) ∈ r ∧ D.Describes p.text info

theorem Described.mono {before : List Request} {q : Request} (h : Described D r before q)
    (hr : ∀ x ∈ r, x ∈ r') : Described D r' before q := by
  intro k b hq p hp
  obtain ⟨info, hinfo, hdescribes⟩ := h k b hq p hp
  exact ⟨info, hr _ hinfo, hdescribes⟩

theorem mem_bindNote : ∀ x ∈ r, x ∈ bindNote l (w, g) r := by
  intro x hx
  unfold bindNote
  split
  · exact List.mem_append_left _ hx
  · exact hx

theorem described_moves (h : EachAfter (Described D r) w.written) (hcached : Cached D (Known D) w)
    (ht : Threads w) (ho : Ordered w) (hm : Moves D l w w') :
    EachAfter (Described D (bindNote l (w, g) r)) w'.written := by
  have hold : EachAfter (Described D (bindNote l (w, g) r)) w.written := h.mono fun _ _ _ hd =>
    hd.mono mem_bindNote
  obtain ⟨qs, hqs, -, hown | ⟨m, rest, hf, hact, rfl, -⟩⟩ := hm.writes ht
  · rw [hqs]
    refine hold.append fun before q hq k b heq => absurd (heq ▸ rfl) (hown q hq k)
  · rw [hqs]
    refine hold.snoc fun k b heq p hp => ?_
    cases heq
    obtain ⟨info, hinfo, hdescribes⟩ := hcached.bind ho hf hp
    refine ⟨info, ?_, hdescribes⟩
    rw [← hinfo]
    simp [bindNote, hact, hf, Act.forwarded]

end Known

/-- Where every request of the client's is carried out or leaves nothing in place, the
session knows of each `Bind` it forwards the kinds, tables and intent of the text the
upstream then binds. -/
theorem cache_describes_held {P : Prepares U} (hP : P.Spares D) (hD : D.Endings)
    {w : (World U × Ledger) × List (Nat × Option StatementInfo)}
    (hw : Reach (((system D U).watched {} (Ledger.note P)).watched [] bindNote) (Faithful D P) w) :
    ∀ b ∈ w.1.2.bindings, ∀ p, b.held = some p → ∃ info, (b.number, some info) ∈ w.2 ∧
      D.Describes p.text info := by
  have hagrees : ∀ b ∈ w.1.2.bindings, b.held = b.mine :=
    (ledger_agrees hP (hw.unwatched fun _ _ h => h.1)).bindings
  have hinv : Cached D (Known D) w.1.1 ∧ Traced D w.1.1 w.1.2 ∧
      EachAfter (Described D w.2) w.1.1.written := by
    clear hagrees
    induction hw with
    | init => exact ⟨.start, .start, .nil⟩
    | step hw hok hs ih =>
      obtain ⟨hs, hr⟩ := System.watched_step.1 hs
      obtain ⟨hs, hg⟩ := System.watched_step.1 hs
      have hreach : Reachable ((system D U).watched {} (Ledger.note P)) _ :=
        hw.unwatched fun _ _ _ => trivial
      have hreachable : Reachable (system D U) _ := hreach.unwatched fun _ _ _ => trivial
      obtain ⟨hcached, htraced, hdescribed⟩ := ih
      have hm := moves_of_step hs
      refine ⟨?_, ?_, ?_⟩
      · exact hcached.moves (threads hreachable) (ordered hreachable) hm
          (fun a ha => (hok.2.2 a ha).1) (fun jobID hj => fitting_known hD hok.2.2 hj) fun h => h
      · rw [hg]
        exact htraced.moves hm hok.2.1
      · rw [hr]
        exact described_moves hdescribed hcached (threads hreachable) (ordered hreachable) hm
  intro b hb p hp
  obtain ⟨-, htraced, hdescribed⟩ := hinv
  obtain ⟨before, bind, after, heq, hname, hmine⟩ := htraced.bindings b hb
  have hp : texts D before bind.statement = some p := hname ▸ hmine p (hagrees b hb ▸ hp)
  exact hdescribed before _ after heq b.number bind rfl p hp

theorem endings_sample {inject : List OCCInjection} : (Dialect.sample inject).Endings := by
  intro sql kinds tables hc hends
  by_cases hinsert : sql = "INSERT INTO t VALUES (1)"
  · subst hinsert
    cases hc
    cases hends
  · by_cases hselect : sql = "SELECT * FROM t FOR UPDATE"
    · subst hselect
      cases hc
      cases hends
    · simp only [Dialect.sample, List.lookup_cons, List.lookup_nil, beq_false_of_ne hinsert,
        beq_false_of_ne hselect]

def boundInsert : List (Label .any) :=
  List.flatten
    [[.send (.parse "a" "INSERT INTO t VALUES (1)"), .readClient], fronts 4,
      [.send (.bind { portal := "", statement := "a" }), .readClient], fronts 7,
      [.answer ([.parseComplete], .active), .answer ([.bindComplete], .active)]]

theorem cache_describes_held_insert :
    let w := (((system (.sample []) .any).watched {} (Ledger.note .any)).watched [] bindNote).dest
      (Faithful (.sample []) .any) boundInsert
    let p : Prepared := ⟨.client 0, "INSERT INTO t VALUES (1)"⟩
    ⟨1, "a", some p, some p⟩ ∈ w.1.2.bindings ∧
      ∃ info, (1, some info) ∈ w.2 ∧ (Dialect.sample []).Describes p.text info := by
  intro w p
  have hbinding : ⟨1, "a", some p, some p⟩ ∈ w.1.2.bindings := by decide +kernel
  have hreach : Reach (((system (.sample []) .any).watched {} (Ledger.note .any)).watched
    [] bindNote) (Faithful (.sample []) .any) w := Reach.dest _ _
  exact ⟨hbinding, cache_describes_held spares_any endings_sample hreach ⟨1, "a", some p, some p⟩
    hbinding p rfl⟩

def boundAfterRefusal : List (Label .any) :=
  List.flatten
    [[.send (.parse "a" "SELECT 1"), .readClient], fronts 4,
      [.send (.parse "a" "TRUNCATE t"), .readClient], fronts 5,
      [.send .sync, .readClient], fronts 4,
        [.send (.bind { portal := "", statement := "a" }), .readClient], fronts 3,
      [.answer ([.parseComplete], .active), .answer ([], .active),
        .answer ([.bindComplete], .active)]]

/-- The refusal makes the session forget a statement the upstream still holds. -/
theorem cache_forgets_held :
    ∃ w, Reachable
        (((system (.sample []) .any).watched {} (Ledger.note .any)).watched [] bindNote) w ∧
      (∃ b ∈ w.1.2.bindings, b.number = 3 ∧ b.held = some ⟨.client 0, "SELECT 1"⟩) ∧
      ∀ x ∈ w.2, x = (3, none) := by
  refine ⟨System.dest _ (fun _ _ => True) boundAfterRefusal, Reach.dest _ _, ?_⟩
  decide +kernel

end DsqlEmulator.Proxy
