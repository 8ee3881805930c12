import DsqlEmulator.Proxy.Cache

/-! The text a conflict was raised over, and the intent it is answered from.  The intent in
the slot is what `Analyze` finds in the text the upstream ran: the query itself, or the
statement it held prepared when the portal was bound. -/

namespace DsqlEmulator.Proxy

open Wire Occ Txn Runs Table Line

variable {U : Upstream} {D : Dialect}

/-- What `Analyze` finds nothing in: a text that ends a transaction, one that reports the
version, and one that is run asynchronously. -/
structure Dialect.Analyzes (D : Dialect) : Prop where
  endings : D.Endings
  version : ∀ sql r, D.rewriteSQL sql = some r → D.analyze sql = none
  async : ∀ sql r, D.stripAsync sql = some r → D.analyze sql = none

section Running

structure BoundPortal where
  origin : Origin
  statement : Prepared
  deriving DecidableEq, Repr

/-- The portals of the upstream, and the texts it has raised conflicts over. -/
structure Running where
  portals : String → Option BoundPortal := fun _ => none
  refused : List (Origin × Option String) := []

def Running.text (g : Ledger) (x : Running) : Frontend → Option String
  | .query sql => some sql
  | .bind b => (g.held b.statement).map Prepared.text
  | .execute portal => (x.portals portal).map fun p => p.statement.text
  | _ => none

def Running.take (g : Ledger) (x : Running) (q : Request) (ms : List Backend) : Running where
  portals :=
    match q.msg with
    | .bind b =>
      Function.update x.portals b.portal
        (if .bindComplete ∈ ms then (g.held b.statement).map (BoundPortal.mk q.origin) else none)
    | _ => x.portals
  refused := x.refused ++ if ms.any Backend.isConflict then [(q.origin, x.text g q.msg)] else []

def Running.note (l : Label U) (w : World U × Ledger) (x : Running) : Running :=
  match l, w.1.toUp with
  | .answer c, q :: _ => x.take w.2 q (U.answer w.1.up q.msg c).2
  | _, _ => x

def RaisedOver (l : Label U) (w : (World U × Ledger) × Running) : Prop :=
  ∀ x ∈ l.answers w.1.1, x.2.isConflict = true → x.1.origin.isClient = true →
    (w.2.text w.1.2 x.1.msg).isSome = true ∧
      ∀ portal ∈ x.1.msg.executes, ∀ p ∈ w.2.portals portal, p.origin.isClient = true

/-- The slot is tended, and what is remembered of prepared statements is true. -/
structure Attends (D : Dialect) (P : Prepares U) (l : Label U) (w : (World U × Ledger) × Running) :
    Prop where
  tended : Tended D l w.1.1
  undisturbed : Undisturbed l w.1
  carried : Carried D P l w.1
  plainly : Plainly D l w.1.1
  raised : RaisedOver l w

instance (l : Label U) (w : (World U × Ledger) × Running) : Decidable (RaisedOver l w) :=
  inferInstanceAs (Decidable (∀ x ∈ l.answers w.1.1, _ → _ → _))

instance (P : Prepares U) (l : Label U) (w : (World U × Ledger) × Running) :
    Decidable (Attends D P l w) :=
  decidable_of_iff (Tended D l w.1.1 ∧ Undisturbed l w.1 ∧ Carried D P l w.1 ∧ Plainly D l w.1.1 ∧
    RaisedOver l w) ⟨fun ⟨h₁, h₂, h₃, h₄, h₅⟩ => ⟨h₁, h₂, h₃, h₄, h₅⟩, fun ⟨h₁, h₂, h₃, h₄, h₅⟩ =>
      ⟨h₁, h₂, h₃, h₄, h₅⟩⟩

end Running

section Intends

def Session.intentOf (D : Dialect) (s : Session) : Frontend → Option Intent
  | .query sql => D.analyze sql
  | .bind b => (s.statements b.statement).bind StatementInfo.intent
  | _ => none

@[simp] def Act.Intends (D : Dialect) (s : Session) (m : Frontend) : Act → Prop
  | .admitKinds _ _ info => info.intent = s.intentOf D m
  | .occAdjudicated _ _ info => info.intent = s.intentOf D m
  | .occCommitConflict _ _ info => info.intent = s.intentOf D m
  | .admitAsync _ _ _ _ => s.intentOf D m = none
  | .setInFlight _ intent _ => ∀ i ∈ intent, s.intentOf D m = some i
  | .writeUpstream (.client _) ms => s.intentOf D m ≠ none → ms = [m]
  | _ => True

variable {s : Session} {n : Nat} {m : Frontend} {now : Nat} {jobID : String} {a b : Act}
  {rest : List Act}

theorem intends_congr {s' : Session} (h : s'.intentOf D m = s.intentOf D m) :
    a.Intends D s' m ↔ a.Intends D s m := by
  cases a with
  | writeUpstream o ms => cases o <;> simp [h]
  | _ => simp [h]

theorem exec_intentOf (ha : FrontAct n m a) :
    (a.exec D now jobID s).sess.intentOf D m = s.intentOf D m := by
  cases m with
  | bind b =>
    have hstatements : (a.exec D now jobID s).sess.statements = s.statements := by
      rcases exec_remembers (D := D) (s := s) a now jobID with h | ⟨k, name, sql, rfl⟩ |
        ⟨k, name, rfl, -⟩
      · exact h
      · cases ha with
        | code ha => cases ha.2.1
      · cases ha with
        | code ha => cases ha.2.1
    simp only [Session.intentOf, hstatements]
  | _ => rfl

theorem Dialect.Analyzes.rewritten (hD : D.Analyzes) (h : s.intentOf D m ≠ none) :
    D.rewritten m = m := by
  cases m with
  | query sql =>
    cases hr : D.rewriteSQL sql with
    | none => simp [Dialect.rewritten, hr]
    | some r => exact absurd (hD.version sql r hr) h
  | _ => rfl

theorem Hands.intends (hD : D.Analyzes) (ha : FrontAct n m a) (hands : Hands D now jobID s n a b)
    (h : a.Intends D s m) : b.Intends D s m := by
  have hcode : FrontCode n m a := hands.frontCode ha
  have hsame (k : Nat) (m' : Frontend) : (Act.forwarding k m').Intends D s m' := by simp
  cases hands with
  | dispatched => trivial
  | forwarded => obtain ⟨-, rfl, -⟩ := hcode; exact hsame _ _
  | synced => obtain ⟨-, rfl⟩ := hcode; exact hsame _ _
  | async hasync => obtain ⟨-, rfl, -⟩ := hcode; exact hD.async _ _ hasync
  | ended => obtain ⟨-, rfl, -⟩ := hcode; exact hsame _ _
  | unparsed => obtain ⟨-, rfl, -⟩ := hcode; exact hsame _ _
  | classified => obtain ⟨-, rfl, -⟩ := hcode; rfl
  | asyncParse => obtain ⟨-, rfl, -⟩ := hcode; exact fun hne => absurd rfl hne
  | parse => obtain ⟨-, rfl, -⟩ := hcode; exact hsame _ _
  | parseRewritten => obtain ⟨-, rfl, -⟩ := hcode; exact fun hne => absurd rfl hne
  | bindEnded => obtain ⟨-, rfl, -⟩ := hcode; exact hsame _ _
  | bind hinfo =>
    obtain ⟨-, rfl, -⟩ := hcode
    simp [Session.intentOf, hinfo]
  | passed => obtain ⟨-, rfl, -⟩ := hcode; exact hsame _ _
  | commits => exact h
  | admitted =>
    obtain ⟨-, rfl, -⟩ := hcode; exact fun hne => congrArg (fun x => [x]) (hD.rewritten hne)
  | asyncAdmitted => exact fun hne => absurd h hne
  | undoomed =>
    obtain ⟨-, rfl, -⟩ := hcode; exact fun hne => congrArg (fun x => [x]) (hD.rewritten hne)
  | injecting => exact h
  | committed =>
    obtain ⟨-, rfl, -⟩ := hcode; exact fun hne => congrArg (fun x => [x]) (hD.rewritten hne)

theorem intends_of_not_recording (hf : a.forwards = false) (hr : a.recording = none) :
    a.Intends D s m := by
  cases a with
  | setInFlight k i bind =>
    cases i with
    | none => simp
    | some i => cases hr
  | writeUpstream o ms =>
    cases o with
    | client k => cases hf
    | _ => trivial
  | admitKinds => cases hf
  | occAdjudicated => cases hf
  | occCommitConflict => cases hf
  | admitAsync => cases hf
  | _ => trivial

theorem exec_intends (hD : D.Analyzes) (ha : FrontAct n m a) (h : a.Intends D s m) :
    ∀ b ∈ (a.exec D now jobID s).next, b.Intends D s m := by
  intro b hb
  cases hf : b.forwards with
  | true => exact (hands_of_exec ha hb hf).intends hD ha h
  | false =>
    by_cases hr : b.recording = none
    · exact intends_of_not_recording hf hr
    · obtain ⟨k, m', info, rfl⟩ : ∃ k m' info, a = .admitKinds k m' info := by
        by_contra hne
        exact hr (exec_recording ha (fun k m' info ha => hne ⟨k, m', info, ha⟩) b hb)
      dsimp only [Act.exec] at hb
      split at hb
      · exact absurd (reject_recording b hb) hr
      · rw [admitted_recording hb hr]
        exact fun i hi => h.symm.trans hi

theorem pumpFrontend_intends : ∀ a ∈ pumpFrontend n m, a.Intends D s m := by
  unfold pumpFrontend
  split <;> simp

theorem exec_setInFlight_intent {k : Nat} {i : Option Intent} {b : Option Bind} {f : InFlight}
    (h : ((Act.setInFlight k i b).exec D now jobID s).sess.occInFlight = some f) :
    i = some f.intent := by
  obtain ⟨intent, rfl, hf⟩ := Option.bind_eq_some_iff.1 h
  split at hf
  · split at hf <;> cases hf
    rfl
  · cases hf
    rfl

end Intends

def Recorded (D : Dialect) (f : InFlight) (before : List Request) (q : Request) : Prop :=
  (∀ sql, q = ⟨.client f.request, .query sql⟩ → D.analyze sql = some f.intent) ∧
    ∀ b p, q = ⟨.client f.request, .bind b⟩ → texts D before b.statement = some p →
      D.analyze p.text = some f.intent

theorem Recorded.of_ne {f : InFlight} {before : List Request} {q : Request}
    (h : q.origin ≠ .client f.request) : Recorded D f before q :=
  ⟨fun _ hq => absurd (hq ▸ rfl) h, fun _ _ hq => absurd (hq ▸ rfl) h⟩

structure Intending (D : Dialect) (w : World U) : Prop where
  front : ∀ m, w.sent[w.read - 1]? = some m → ∀ a ∈ w.front, a.Intends D w.sess m
  current : ∀ f, w.sess.occInFlight = some f → f.request = w.read - 1 →
    ∀ m, w.sent[w.read - 1]? = some m → w.sess.intentOf D m = some f.intent
  slot : ∀ f, w.sess.occInFlight = some f → EachAfter (Recorded D f) w.written

section Intending

variable {w w' : World U} {l : Label U} {n : Nat} {m : Frontend} {rest : List Act}

theorem Intending.start : Intending D (World.start D U) := by
  constructor <;> simp [World.start, Session.new]

theorem Intending.front_moves (h : Intending D w) (hD : D.Analyzes) (ht : Threads w)
    (hm : Moves D l w w') :
    ∀ m, w'.sent[w'.read - 1]? = some m → ∀ a ∈ w'.front, a.Intends D w'.sess m := by
  cases hm with
  | send => exact fun m hm a ha => h.front m (ht.current (List.ne_nil_of_mem ha) hm) a ha
  | @readClient _ x rest hf hi hc =>
    intro m hm
    have hx : w.sent[w.read]? = some x := by rw [← List.head?_drop, ht.inbox, hi]; rfl
    obtain rfl : x = m := Option.some.inj (hx.symm.trans hm)
    exact pumpFrontend_intends
  | @front _ now jobID a rest hf =>
    intro m hm b hb
    obtain ⟨m', hm', ha⟩ := ht.head hf
    obtain rfl : m' = m := Option.some.inj (hm'.symm.trans hm)
    rw [World.applyFront, intends_congr (exec_intentOf ha)]
    rcases List.mem_append.1 hb with hb | hb
    · exact exec_intends hD ha (h.front m' hm' a (hf ▸ List.mem_cons_self)) b hb
    · exact h.front m' hm' b (hf ▸ List.mem_cons_of_mem a hb)
  | @back _ a rest hb =>
    intro m hm x hx
    have hstatements : (a.exec D 0 "" w.sess).sess.statements = w.sess.statements :=
      exec_statements (backMode_quiet (hb ▸ ht.back)).2.1
    refine (intends_congr ?_).2 (h.front m hm x hx)
    cases m with
    | bind b => simp only [World.applyBack, Session.intentOf, hstatements]
    | _ => rfl
  | _ => exact h.front

theorem Tracked.slot_lt {f : InFlight} (h : Tracked w) (ht : Threads w) (ho : Ordered w)
    (hf : w.sess.occInFlight = some f) : f.request < w.read := by
  rcases h.slot f hf with hlast | ⟨hreq, -, b, hb, -⟩
  · obtain ⟨q, hq, horigin⟩ := Option.map_eq_some_iff.1 hlast
    exact ho.read q (List.mem_filter.1 (List.mem_of_getLast? hq)).1 _ horigin
  · obtain ⟨-, hread, -⟩ := ht.front (List.ne_nil_of_mem hb)
    omega

theorem Arming.unwritten (ha : Arming D w) (ho : Ordered w) {a : Act} (hf : w.front = a :: rest)
    (hrec : a.recording.isSome = true) : ∀ q ∈ w.written, q.origin ≠ .client (w.read - 1) := by
  intro q hq horigin
  have hrecords := ha.records
  rw [hf] at hrecords
  obtain ⟨b, hb, hforwarded⟩ := hrecords.1 hrec
  obtain ⟨k, x, rfl⟩ := forwarded_isSome hforwarded
  have hpos : 0 < w.front.countP Act.forwards :=
    List.countP_pos_iff.2 ⟨_, hf ▸ List.mem_cons_of_mem a hb, rfl⟩
  have := ho.fresh hpos q hq _ horigin
  omega

theorem Intending.current_moves (h : Intending D w) (htracked : Tracked w) (ht : Threads w)
    (ho : Ordered w) (hm : Moves D l w w') : ∀ f, w'.sess.occInFlight = some f →
    f.request = w'.read - 1 →
      ∀ m, w'.sent[w'.read - 1]? = some m → w'.sess.intentOf D m = some f.intent := by
  intro f hf hreq m hsent
  cases hm with
  | send =>
    have hlt := htracked.slot_lt ht ho hf
    have hle := ht.read_le
    have hread : w.read - 1 < w.sent.length := by omega
    exact h.current f hf hreq m ((List.getElem?_append_left hread).symm.trans hsent)
  | readClient hfront hi hc =>
    have hlt : f.request < w.read := htracked.slot_lt ht ho hf
    have hnew : f.request = w.read := hreq
    omega
  | @front _ now jobID a rest hfront =>
    obtain ⟨m', hm', ha⟩ := ht.head hfront
    obtain rfl : m' = m := Option.some.inj (hm'.symm.trans hsent)
    refine (exec_intentOf ha).trans ?_
    by_cases hset : ∃ k i b, a = .setInFlight k i b
    · obtain ⟨k, i, b, rfl⟩ := hset
      have hintends : (Act.setInFlight k i b).Intends D w.sess m' :=
        h.front m' hm' _ (hfront ▸ List.mem_cons_self)
      have hf' : ((Act.setInFlight k i b).exec D now jobID w.sess).sess.occInFlight = some f := hf
      exact hintends f.intent (exec_setInFlight_intent hf')
    · have hslot : (a.exec D now jobID w.sess).sess.occInFlight = w.sess.occInFlight ∨ _ :=
        exec_occInFlight fun k i b h => hset ⟨k, i, b, h⟩
      rcases hslot with heq | heq
      · exact h.current f (heq.symm.trans hf) hreq m' hm'
      · cases heq.symm.trans hf
  | @back _ a rest hb =>
    have hquiet := backMode_quiet (hb ▸ ht.back)
    have hstatements : (a.exec D 0 "" w.sess).sess.statements = w.sess.statements :=
      exec_statements hquiet.2.1
    have hsame : (w.applyBack rest (a.exec D 0 "" w.sess)).sess.intentOf D m =
        w.sess.intentOf D m := by
      cases m with
      | bind b => simp only [World.applyBack, Session.intentOf, hstatements]
      | _ => rfl
    rw [hsame]
    have hslot : (a.exec D 0 "" w.sess).sess.occInFlight = w.sess.occInFlight ∨ _ :=
      exec_occInFlight hquiet.2.2
    rcases hslot with heq | heq
    · exact h.current f (heq.symm.trans hf) hreq m hsent
    · cases heq.symm.trans hf
  | _ => exact h.current f hf hreq m hsent

theorem Intending.forwarded {f : InFlight} (h : Intending D w) (hcached : Cached D (Known D) w)
    (ht : Threads w) (ho : Ordered w) (hf : w.front = .forwarding (w.read - 1) m :: rest)
    (hslot : w.sess.occInFlight = some f) : Recorded D f w.written ⟨.client (w.read - 1), m⟩ := by
  by_cases hreq : f.request = w.read - 1
  · obtain ⟨x, hx, -⟩ := ht.head hf
    have hintent := h.current f hslot hreq x hx
    have hintends : (Act.forwarding (w.read - 1) m).Intends D w.sess x :=
      h.front x hx _ (hf ▸ List.mem_cons_self)
    obtain rfl := List.singleton_inj.1 (hintends (by simp [hintent]))
    refine ⟨fun sql hq => ?_, fun b p hq hp => ?_⟩
    · obtain rfl := (Request.mk.inj hq).2
      exact hintent
    · obtain rfl := (Request.mk.inj hq).2
      obtain ⟨info, hinfo, -, hanalyze⟩ := hcached.bind ho hf hp
      rw [Session.intentOf, hinfo] at hintent
      exact hanalyze.symm.trans hintent
  · exact .of_ne fun heq => hreq (Origin.client.inj heq).symm

theorem Intending.slot_moves (h : Intending D w) (hcached : Cached D (Known D) w) (ha : Arming D w)
    (ht : Threads w) (ho : Ordered w) (hm : Moves D l w w') : ∀ f, w'.sess.occInFlight = some f →
    EachAfter (Recorded D f) w'.written := by
  intro f hf
  obtain ⟨qs, hqs, -, hnew⟩ := hm.writes ht
  rw [hqs]
  rcases hm.slot ht hf with hold | ⟨a, rest, hfront, hrec, -, -, -, -, -, hreq⟩
  · rcases hnew with hnew | ⟨m, rest, hfront, -, rfl, -⟩
    · exact (h.slot f hold).append fun _ q hq => .of_ne (hnew q hq _)
    · exact (h.slot f hold).snoc (h.forwarded hcached ht ho hfront hold)
  · -- nothing has gone upstream yet for the message whose intent is recorded
    have hunwritten := ha.unwritten ho hfront (by rw [hrec]; rfl)
    have hwritten : EachAfter (Recorded D f) w.written :=
      fun before q after heq => .of_ne (hreq ▸ hunwritten q (by simp [heq]))
    rcases hnew with hnew | ⟨m, rest', hfront', -⟩
    · exact hwritten.append fun _ q hq => .of_ne (hnew q hq _)
    · cases hfront.symm.trans hfront'
      cases hrec

theorem Intending.moves (h : Intending D w) (hD : D.Analyzes) (hcached : Cached D (Known D) w)
    (ha : Arming D w) (htracked : Tracked w) (ht : Threads w) (ho : Ordered w)
    (hm : Moves D l w w') : Intending D w' :=
  ⟨h.front_moves hD ht hm, h.current_moves htracked ht ho hm, h.slot_moves hcached ha ht ho hm⟩

end Intending

def BoundBy (D : Dialect) (done : List Request) (portal : String) (p : BoundPortal) : Prop :=
  ∃ before b after, done = before ++ ⟨p.origin, .bind b⟩ :: after ∧ b.portal = portal ∧
    (∀ q ∈ after, q.msg.binds ≠ some portal) ∧
      (p.origin.isClient = true → texts D before b.statement = some p.statement)

structure Grounded (D : Dialect) (w : World U) (x : Running) : Prop where
  line : ∃ done, w.written = done ++ w.toUp ∧ (∀ e ∈ x.refused, ∃ q ∈ done, q.origin = e.1) ∧
    ∀ portal p, x.portals portal = some p → BoundBy D done portal p
  errors : ∀ o ∈ w.errors, ∃ t, (o, t) ∈ x.refused
  own : ∀ f, w.sess.occInFlight = some f → ∀ n, .client n ∈ w.errors →
    ∀ t, (.client n, t) ∈ x.refused → ∃ sql, t = some sql ∧ D.analyze sql = some f.intent

section Grounded

variable {P : Prepares U} {w w' : World U} {g : Ledger} {x : Running} {l : Label U} {n : Nat}
  {f : InFlight} {q : Request} {rest done : List Request} {c : U.Choice}

theorem Grounded.start : Grounded D (World.start D U) {} := by
  constructor <;> simp [World.start, World.errors, Session.new]

theorem Ordered.lt_of_done (ho : Ordered w) (hw : w.written = done ++ q :: rest)
    (hn : q.origin = .client n) {y : Request} {k : Nat} (hy : y ∈ done)
    (hk : y.origin = .client k) : k < n := by
  have hbefore := (List.pairwise_append.1 (hw ▸ ho.written)).2.2 y hy q List.mem_cons_self
  rwa [hk, hn] at hbefore

theorem Ordered.mem_done (ho : Ordered w) (hw : w.written = done ++ q :: rest)
    (hn : q.origin = .client n) {y : Request} {k : Nat} (hy : y ∈ w.written)
    (hk : y.origin = .client k) (hle : k ≤ n) : y ∈ done ∨ y = q := by
  rw [hw] at hy
  rcases List.mem_append.1 hy with hy | hy
  · exact .inl hy
  · refine .inr ((List.mem_cons.1 hy).resolve_right fun hy => ?_)
    have hafter := (List.pairwise_cons.1 (List.pairwise_append.1 (hw ▸ ho.written)).2.1).1 y hy
    rw [hk, hn] at hafter
    exact absurd hafter (Nat.not_lt.2 hle)

theorem Bound.last {portal : String} {k j : Nat} {before after : List Request} {b : Bind}
    (h : Bound w portal n k) (ho : Ordered w)
    (hw : w.written = (before ++ ⟨.client j, .bind b⟩ :: after) ++ q :: rest)
    (hn : q.origin = .client n) (hportal : b.portal = portal)
    (hafter : ∀ y ∈ after, y.msg.binds ≠ some portal) : j = k := by
  obtain ⟨⟨b', hb', hportal'⟩, hlt, hmax⟩ := h
  have hmem : ⟨.client j, .bind b⟩ ∈ w.written := by simp [hw]
  have hj : j < n := ho.lt_of_done hw hn (y := ⟨.client j, .bind b⟩) (by simp) rfl
  have hle : j ≤ k := hmax j b hmem hportal hj
  rcases ho.mem_done hw hn hb' rfl hlt.le with hdone | rfl
  · have hw' : w.written = before ++ ⟨.client j, .bind b⟩ :: (after ++ q :: rest) := by simp [hw]
    rcases List.mem_append.1 hdone with hbefore | hmem
    · exact absurd (ho.lt_of_done hw' rfl hbefore rfl) (Nat.not_lt.2 hle)
    · rcases List.mem_cons.1 hmem with heq | hmem
      · cases heq
        rfl
      · exact absurd (congrArg some hportal') (hafter _ hmem)
  · cases hn
    exact absurd hlt (Nat.lt_irrefl _)

theorem Executes.analyzed (hexec : Executes w n f.request)
    (hslot : EachAfter (Recorded D f) w.written) (ho : Ordered w)
    (hw : w.written = done ++ q :: rest) (hn : q.origin = .client n)
    (hheld : ∀ b p, q.msg = .bind b → g.held b.statement = some p → texts D done b.statement =
      some p) (hportals : ∀ portal p, x.portals portal = some p → BoundBy D done portal p)
    (hclient : ∀ portal ∈ q.msg.executes, ∀ p ∈ x.portals portal, p.origin.isClient = true)
    {sql : String} (hsql : x.text g q.msg = some sql) : D.analyze sql = some f.intent := by
  obtain ⟨q', hq', hn', hcase⟩ := hexec
  obtain rfl : q' = q := by
    rcases ho.mem_done hw hn hq' hn' (Nat.le_refl n) with hdone | heq
    · exact absurd (ho.lt_of_done hw hn hdone hn') (Nat.lt_irrefl n)
    · exact heq
  obtain ⟨o, m⟩ := q'
  obtain rfl : o = .client n := hn
  cases m with
  | query text =>
    cases hsql
    rcases hcase with ⟨-, rfl⟩ | ⟨_, hmsg, -⟩
    · exact (hslot _ _ _ hw).1 _ rfl
    · cases hmsg
  | bind b =>
    obtain ⟨p, hp, rfl⟩ := Option.map_eq_some_iff.1 hsql
    rcases hcase with ⟨-, rfl⟩ | ⟨_, hmsg, -⟩
    · exact (hslot _ _ _ hw).2 b p rfl (hheld b p rfl hp)
    · cases hmsg
  | execute portal =>
    obtain ⟨p, hp, rfl⟩ := Option.map_eq_some_iff.1 hsql
    rcases hcase with ⟨hstarts, -⟩ | ⟨_, hmsg, hbound⟩
    · cases hstarts
    · cases hmsg
      have hisClient := hclient portal rfl p hp
      obtain ⟨before, b, after, rfl, hportal, hafter, htexts⟩ := hportals portal p hp
      obtain ⟨o, statement⟩ := p
      cases o with
      | client j =>
        obtain rfl := hbound.last ho hw rfl hportal hafter
        have hw' : w.written = before ++ ⟨.client f.request, .bind b⟩ ::
            (after ++ ⟨.client n, .execute portal⟩ :: rest) := by
          simp [hw]
        exact (hslot _ _ _ hw').2 b statement rfl (htexts rfl)
      | _ => cases hisClient
  | _ => cases hsql

theorem Tended.slot_kept (hok : Tended D l w) (hm : Moves D l w w') (ht : Threads w)
    (hf : w'.sess.occInFlight = some f) (hn : .client n ∈ w.errors) :
    w.sess.occInFlight = some f := by
  rcases hm.slot ht hf with h | ⟨a, rest, -, hrec, hact, -⟩
  · exact h
  · cases hok.2.1 (w.read - 1) (by rw [hact]; exact hrec) _ (List.mem_append_left _ hn)

theorem BoundBy.snoc {portal : String} {p : BoundPortal} (h : BoundBy D done portal p)
    (hq : q.msg.binds ≠ some portal) : BoundBy D (done ++ [q]) portal p := by
  obtain ⟨before, b, after, rfl, hportal, hafter, htexts⟩ := h
  refine ⟨before, b, after ++ [q], by simp, hportal, fun y hy => ?_, htexts⟩
  rcases List.mem_append.1 hy with hy | hy
  · exact hafter y hy
  · exact List.mem_singleton.1 hy ▸ hq

theorem boundBy_take {ms : List Backend}
    (h : ∀ portal p, x.portals portal = some p → BoundBy D done portal p)
    (hheld : q.origin.isClient = true → ∀ b p, q.msg = .bind b → g.held b.statement = some p →
      texts D done b.statement = some p) :
    ∀ portal p, (x.take g q ms).portals portal = some p → BoundBy D (done ++ [q]) portal p := by
  intro portal p hp
  obtain ⟨o, m⟩ := q
  cases m with
  | bind b =>
    by_cases hportal : portal = b.portal
    · subst hportal
      simp only [Running.take, Function.update_self, Option.ite_none_right_eq_some] at hp
      obtain ⟨statement, hst, rfl⟩ := Option.map_eq_some_iff.1 hp.2
      exact ⟨done, b, [], rfl, rfl, by simp, fun ho => hheld ho b statement rfl hst⟩
    · simp only [Running.take, Function.update_of_ne hportal] at hp
      exact (h portal p hp).snoc fun heq => hportal (Option.some.inj heq).symm
  | _ => exact (h portal p hp).snoc (by simp [Frontend.binds])

theorem Traced.held_eq (h : Traced D w g) (hagrees : g.Agrees)
    (hundisturbed : Undisturbed (.answer c) (w, g)) (hq : w.toUp = q :: rest)
    (hw : w.written = done ++ q :: rest) (ho : q.origin.isClient = true) (b : Bind) (p : Prepared)
    (hmsg : q.msg = .bind b) (hp : g.held b.statement = some p) :
    texts D done b.statement = some p := by
  obtain ⟨done', hdone, hbelow⟩ := h.line
  rw [hq, hw] at hdone
  obtain rfl := List.append_cancel_right hdone
  have hbinding := hagrees.binding (hundisturbed q (by rw [Label.taken, hq]; rfl))
  obtain ⟨o, m⟩ := q
  obtain rfl : m = .bind b := hmsg
  cases o with
  | client n => exact hbelow _ _ ((hbinding _ rfl).symm.trans hp)
  | _ => cases ho

theorem mem_refused_take {ms : List Backend} {e : Origin × Option String} :
    e ∈ (x.take g q ms).refused ↔
    e ∈ x.refused ∨ ms.any Backend.isConflict = true ∧ e = (q.origin, x.text g q.msg) := by
  simp [Running.take]

theorem Grounded.answer (h : Grounded D w x) (hok : Attends D P (.answer c) ((w, g), x))
    (htracked : Tracked w) (hintending : Intending D w) (hagrees : g.Agrees)
    (htraced : Traced D w g) (ht : Threads w) (ho : Ordered w) (hq : w.toUp = q :: rest) :
    Grounded D (w.applyAnswer q rest (U.answer w.up q.msg c))
      (x.take g q (U.answer w.up q.msg c).2) := by
  obtain ⟨done, hdone, hrefused, hportals⟩ := h.line
  rw [hq] at hdone
  have hm : Moves D (.answer c) w (w.applyAnswer q rest (U.answer w.up q.msg c)) := .answer hq
  have hheld := htraced.held_eq hagrees hok.undisturbed hq hdone
  have hraised {y : Request × Backend} (hy : y ∈ (Label.answer c).answers w) : y.1 = q ∧
      y.2 ∈ (U.answer w.up q.msg c).2 := by
    simp only [Label.answers, hq, List.head?_cons, Option.toList_some, List.flatMap_singleton,
      List.mem_map] at hy
    obtain ⟨b, hb, rfl⟩ := hy
    exact ⟨rfl, hb⟩
  refine ⟨⟨done ++ [q], by simp [World.applyAnswer, hdone], fun e he => ?_,
    boundBy_take hportals hheld⟩, fun o herr => ?_, fun f hf n herr t ht' => ?_⟩
  · rcases mem_refused_take.1 he with he | ⟨-, rfl⟩
    · obtain ⟨q', hq', horigin⟩ := hrefused e he
      exact ⟨q', List.mem_append_left _ hq', horigin⟩
    · exact ⟨q, by simp, rfl⟩
  · rcases hm.errors ht o herr with hold | ⟨y, hy, hconflict, rfl⟩
    · obtain ⟨t, ht'⟩ := h.errors o hold
      exact ⟨t, mem_refused_take.2 (.inl ht')⟩
    · obtain ⟨rfl, hmem⟩ := hraised hy
      exact ⟨_, mem_refused_take.2 (.inr ⟨List.any_eq_true.2 ⟨_, hmem, hconflict⟩, rfl⟩)⟩
  · -- the entry is an old one of a conflict on its way, or the request's own
    rcases mem_refused_take.1 ht' with hold | ⟨hany, heq⟩
    · obtain ⟨q', hq', horigin⟩ := hrefused _ hold
      refine h.own f hf n ((hm.errors ht _ herr).resolve_right ?_) t hold
      rintro ⟨y, hy, -, hy'⟩
      obtain ⟨rfl, -⟩ := hraised hy
      exact absurd (ho.lt_of_done hdone hy' hq' horigin) (Nat.lt_irrefl n)
    · obtain ⟨hn, rfl⟩ := Prod.mk.inj heq
      obtain ⟨b, hb, hconflict⟩ := List.any_eq_true.1 hany
      have hmem : (q, b) ∈ (Label.answer c).answers w := by simpa [Label.answers, hq] using hb
      have hclient : q.origin.isClient = true := by rw [← hn]; rfl
      obtain ⟨htext, hbound⟩ := hok.raised (q, b) hmem hconflict hclient
      obtain ⟨sql, hsql⟩ := Option.isSome_iff_exists.1 htext
      have hwaits : .client n ∈ w.conflicts := by
        refine List.mem_append_right _ (List.mem_filterMap.2 ⟨q, by simp [hq], ?_⟩)
        rw [hn]
        exact if_pos (hok.tended.2.2.2 (q, b) hmem hconflict).1
      have hexec := (htracked.own n hwaits).2 f hf
      exact ⟨sql, hsql, hexec.analyzed (hintending.slot f hf) ho hdone hn.symm (hheld hclient)
        hportals hbound hsql⟩

theorem Grounded.moves (h : Grounded D w x) (hok : Attends D P l ((w, g), x)) (htracked : Tracked w)
    (hintending : Intending D w) (hagrees : g.Agrees) (htraced : Traced D w g) (ht : Threads w)
    (ho : Ordered w) (hm : Moves D l w w') : Grounded D w' (x.note l (w, g)) := by
  have hother (hl : l.answers w = []) (hline : ∃ qs, w'.written = w.written ++ qs ∧
    w'.toUp = w.toUp ++ qs) :
      Grounded D w' x := by
    obtain ⟨qs, hwritten, htoUp⟩ := hline
    obtain ⟨done, hdone, hrest⟩ := h.line
    have herrors (o : Origin) (herr : o ∈ w'.errors) : o ∈ w.errors := by
      refine (hm.errors ht o herr).resolve_right ?_
      rw [hl]
      rintro ⟨y, hy, -⟩
      cases hy
    refine ⟨⟨done, by rw [hwritten, htoUp, hdone, List.append_assoc], hrest⟩, fun o herr =>
      h.errors o (herrors o herr), ?_⟩
    exact fun f hf n herr => h.own f (hok.tended.slot_kept hm ht hf (herrors _ herr)) n
      (herrors _ herr)
  cases hm with
  | send => exact hother rfl ⟨[], by simp⟩
  | readClient => exact hother rfl ⟨[], by simp⟩
  | front => exact hother rfl ⟨_, rfl, rfl⟩
  | readUpstream => exact hother rfl ⟨[], by simp⟩
  | back => exact hother rfl ⟨_, rfl, rfl⟩
  | answer hq =>
    simp only [Running.note, hq]
    exact h.answer hok htracked hintending hagrees htraced ht ho hq

end Grounded

section Takeover

variable {P : Prepares U} {w : (World U × Ledger) × Running}

theorem Attends.tended_run
    (hw : Reach (((system D U).watched {} (Ledger.note P)).watched {} Running.note)
      (Attends D P) w) : Reach (system D U) (Tended D) w.1.1 := by
  have hledger : Reach ((system D U).watched {} (Ledger.note P)) (fun l v => Tended D l v.1) w.1 :=
    hw.unwatched fun _ _ h => h.tended
  exact hledger.unwatched fun _ _ h => h

theorem grounded (hP : P.Spares D) (hD : D.Analyzes)
    (hw : Reach (((system D U).watched {} (Ledger.note P)).watched {} Running.note)
      (Attends D P) w) : Grounded D w.1.1 w.2 := by
  suffices h : Cached D (Known D) w.1.1 ∧ Traced D w.1.1 w.1.2 ∧ Intending D w.1.1 ∧
    Grounded D w.1.1 w.2 from h.2.2.2
  induction hw with
  | init => exact ⟨.start, .start, .start, .start⟩
  | step hw hok hs ih =>
    obtain ⟨hs, hx⟩ := System.watched_step.1 hs
    obtain ⟨hs, hg⟩ := System.watched_step.1 hs
    obtain ⟨hcached, htraced, hintending, h⟩ := ih
    have hagrees := ledger_agrees hP (hw.unwatched fun _ _ h => h.undisturbed)
    have hrun := Attends.tended_run hw
    obtain ⟨harming, htracked⟩ := tracked hrun
    have hm := moves_of_step hs
    rw [hx, hg]
    refine ⟨?_, htraced.moves hm hok.carried, ?_, ?_⟩
    · exact hcached.moves (threads hrun) (ordered hrun) hm (fun a ha => (hok.plainly a ha).1)
        (fun jobID hj => fitting_known hD.endings hok.plainly hj) fun h => h
    · exact hintending.moves hD hcached harming htracked (threads hrun) (ordered hrun) hm
    · exact h.moves hok htracked hintending hagrees htraced (threads hrun) (ordered hrun) hm

/-- The intent handed to a repair was recorded for the statement whose execution raised the
conflict, and is what `Analyze` finds in the text the upstream ran. -/
theorem takeover_own_intent (hP : P.Spares D) (hD : D.Analyzes)
    (hw : Reach (((system D U).watched {} (Ledger.note P)).watched {} Running.note) (Attends D P) w)
    {o : Origin} {e : ErrorFields} {inTxn : Bool} {k : Nat} {rest : List Act}
    (hb : w.1.1.back = .occIntercept o e inTxn :: rest) (hk : w.1.1.sess.takesOver inTxn = some k) :
    ∃ n f, o = .client n ∧ w.1.1.sess.occInFlight = some f ∧ f.request = k ∧ Executes w.1.1 n k ∧
      (∃ t, (o, t) ∈ w.2.refused) ∧
        ∀ t, (o, t) ∈ w.2.refused → ∃ sql, t = some sql ∧ D.analyze sql = some f.intent := by
  have h := grounded hP hD hw
  obtain ⟨herr, n, f, rfl, hf, hreq, hexec⟩ := takeover_executes (Attends.tended_run hw) hb hk
  exact ⟨n, f, rfl, hf, hreq, hexec, h.errors _ herr, h.own f hf n herr⟩

end Takeover

theorem analyzes_sample {inject : List OCCInjection} : (Dialect.sample inject).Analyzes where
  endings := endings_sample
  version sql r h := by cases h
  async sql r h := by
    have hsql : sql = "COMMIT; CREATE INDEX ASYNC ON t (a)" := by
      by_contra hne
      simp [Dialect.sample, List.lookup_cons, beq_false_of_ne hne] at h
    subst hsql
    rfl

theorem takeover_own_intent_select :
    let w := (((system (.sample []) .any).watched {} (Ledger.note .any)).watched {}
        Running.note).dest
      (Attends (.sample []) .any) boundSelect
    (.client 3, some "SELECT * FROM t FOR UPDATE") ∈ w.2.refused ∧
      ∃ n f, Origin.client 3 = .client n ∧ w.1.1.sess.occInFlight = some f ∧ f.request = 2 ∧
        Executes w.1.1 n 2 ∧ (∃ t, (.client 3, t) ∈ w.2.refused) ∧
          ∀ t, (.client 3, t) ∈ w.2.refused → ∃ sql, t = some sql ∧
              (Dialect.sample []).analyze sql = some f.intent := by
  intro w
  have hback : w.1.1.back = [.occIntercept (.client 3) lockTimeout true] := by decide +kernel
  have htakes : w.1.1.sess.takesOver true = some 2 := by decide +kernel
  have hreach : Reach (((system (.sample []) .any).watched {} (Ledger.note .any)).watched {}
    Running.note) (Attends (.sample []) .any) w := Reach.dest _ _
  exact ⟨by decide +kernel, takeover_own_intent spares_any analyzes_sample hreach hback htakes⟩

def boundTwice : List (Label .any) :=
  List.flatten
    [preparedSelect "a", [.send (.parse "b" "INSERT INTO t VALUES (1)"), .readClient], fronts 5,
      [.send (.bind { portal := "x", statement := "a" }), .readClient], fronts 8,
      [.send (.bind { portal := "y", statement := "b" }), .readClient], fronts 9,
      [.send (.execute "x"), .readClient], fronts 3, completes .parseComplete,
        completes .parseComplete, completes .bindComplete, completes .bindComplete, refusesLock]

/-- The upstream refuses the `SELECT` a lock, and the intent handed to the repair is the
`INSERT`'s. -/
theorem takeover_other_intent :
    ∃ w, Reachable (((system (.sample []) .any).watched {} (Ledger.note .any)).watched {}
        Running.note) w ∧ w.1.1.back = [.occIntercept (.client 5) lockTimeout true] ∧
        w.1.1.sess.takesOver true = some 4 ∧
      w.2.refused = [(.client 5, some "SELECT * FROM t FOR UPDATE")] ∧
      w.1.1.sess.occInFlight.map InFlight.intent =
        (Dialect.sample []).analyze "INSERT INTO t VALUES (1)" ∧
      w.1.1.sess.occInFlight.map InFlight.intent ≠
        (Dialect.sample []).analyze "SELECT * FROM t FOR UPDATE" := by
  refine ⟨System.dest _ (fun _ _ => True) boundTwice, Reach.dest _ _, ?_⟩
  decide +kernel

end DsqlEmulator.Proxy
