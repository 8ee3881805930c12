import DsqlEmulator.Postgres.Commits
import DsqlEmulator.Proxy.Dialogue
import DsqlEmulator.Proxy.Turns

/-! A client of PostgreSQL that sends queries of one statement and waits for each to be
answered.  What it is told is compared with what the upstream has done. -/

namespace DsqlEmulator.Proxy

open Wire Occ Txn Runs Classify Postgres

variable {U : Upstream} {D : Dialect} {parse : String → Option (List Statement)}
  {T : Transacts U parse} {A : Commits T}

/-- What the emulator runs in the place of a statement is one statement too. -/
structure KnowsLone (D : Dialect) (parse : String → Option (List Statement)) :
    Prop extends Knows D parse where
  shadow_single : ∀ i, D.Shadows i → i.shadow ≠ "" → single (parse i.shadow) = true
  rewrite_single : ∀ sql r, D.rewriteSQL sql = some r → single (parse r.sql) = true

def Dialect.text (D : Dialect) (sql : String) : String := ((D.stripAsync sql).map Prod.fst).getD sql

def Lone (D : Dialect) (parse : String → Option (List Statement)) : Frontend → Prop
  | .query sql => single (parse (D.text sql)) = true ∧
      ((D.stripAsync sql).isSome = true → turns parse (.query (D.text sql)) = false)
  | _ => False

instance : DecidablePred (Lone D parse) := fun m =>
  match m with
  | .query _ => inferInstanceAs (Decidable (_ ∧ (_ → _)))
  | .parse _ _ | .bind _ | .describe _ _ | .execute _ | .close _ _ | .flush | .sync | .terminate
  | .functionCall | .malformed _ | .other => isFalse id

def Askable (parse : String → Option (List Statement)) : Frontend → Prop
  | .query sql => single (parse sql) = true ∨ parse sql = some [.rollback false, .begin]
  | _ => False

/-- An upstream that is awake can answer what it is asked so that it is carried out. -/
def Obliging (T : Transacts U parse) : Prop :=
  ∀ st m, T.skips st = false → Askable parse m → ∃ c, T.Carries st m c

def condemn (A : Commits T) (q : Request) (u : U.State) (g : List Nat) : List Nat :=
  match q.origin with
  | .hidden .restore _ => if T.opened u then A.txn u :: g else g
  | .failure _ => if T.opened u then A.txn u :: g else g
  | _ => g

def simple (D : Dialect) (A : Commits T) : Terms U (List Nat) where
  sends := Lone D parse
  names jobID := '*' ∉ jobID.toList
  asks u g q := T.skips u = false ∧ (∀ t ∈ g, A.Barred u t) ∧ Askable parse q.msg
  answers u q c := T.Carries u q.msg c
  mark := condemn A

structure Dialect.Repairs (D : Dialect) (f : InFlight) : Prop where
  simple : f.extended = false
  params : f.intent.params = []
  shadows : D.Shadows f.intent

structure Composed (D : Dialect) (A : Commits T) (s : Session) (u : U.State) (g : List Nat) :
    Prop where
  repair : s.occRepair = none
  awake : s.skipSync = false
  inFlight : ∀ f ∈ s.occInFlight, D.Repairs f
  running : T.skips u = false
  kept : ∀ t ∈ g, A.Barred u t
  numbered : A.Numbered u

structure Rest (D : Dialect) (A : Commits T) (s : Session) (u : U.State) (g : List Nat) :
    Prop extends Composed D A s u g where
  hidden : s.hidden = none
  failure : s.failure = none
  pending : s.pendingExchanges = 0
  agrees : s.tracker.inTxn = T.opened u
  aborted : s.txnAborted = true → T.failed u = true
  doomed : s.occDoomed = true → T.opened u = true
  condemned : A.txn u ∈ g → s.occDoomed = true ∨ s.txnAborted = true

def Dialect.commits (D : Dialect) (parse : String → Option (List Statement)) : Frontend → Bool
  | .query sql => (statementsOf parse (.query (D.text sql))).any Statement.isCommit
  | _ => false

def erring (ds : List Delivery) : Bool := ds.any (·.msg.isError)

structure Candid (D : Dialect) (A : Commits T) (m : Frontend) (u : U.State) (ds : List Delivery)
    (u' : U.State) : Prop where
  once : ds.countP (·.msg.isOutcome) = 1
  ready : ∃ pre d, ds = pre ++ [d] ∧ (∀ x ∈ pre, x.msg.isReady = false) ∧
    (d.msg = .ready (T.status u') ∨ T.opened u' = false ∧ ∃ n st, d = ⟨.refusal n, .ready st⟩)
  failed : T.opened u' = true → T.failed u' = erring ds
  commits : T.opened u = true →
    (A.txn u ∈ A.committed u' ↔ D.commits parse m = true ∧ T.failed u = false ∧ erring ds = false)

theorem Candid.readies {m : Frontend} {u u' : U.State} {ds : List Delivery}
    (h : Candid D A m u ds u') : ds.countP (·.msg.isReady) = 1 := by
  obtain ⟨pre, d, rfl, hpre, hd⟩ := h.ready
  have hready : d.msg.isReady = true := by
    obtain hd | ⟨-, n, st, rfl⟩ := hd
    · rw [hd]; rfl
    · rfl
  rw [List.countP_append, List.countP_eq_zero.2 fun x hx => by simp [hpre x hx]]
  simp [hready]

def Shows (ds : List Delivery) : Prop := ∀ d ∈ ds, d.msg.isReady = false ∧ d.msg.isOutcome = false

theorem Shows.nil : Shows [] := by simp [Shows]

theorem Shows.append {ds es : List Delivery} (hd : Shows ds) (he : Shows es) :
    Shows (ds ++ es) := by
  intro d hmem
  rcases List.mem_append.1 hmem with hmem | hmem
  · exact hd d hmem
  · exact he d hmem

theorem Shows.countP {ds : List Delivery} (h : Shows ds) : ds.countP (·.msg.isOutcome) = 0 :=
  List.countP_eq_zero.2 fun d hd => by simp [(h d hd).2]

theorem Shows.not_erring {ds : List Delivery} (h : Shows ds) : erring ds = false := by
  refine List.any_eq_false.2 fun d hd => ?_
  have houtcome := (h d hd).2
  rw [Backend.isOutcome, Bool.or_eq_false_iff] at houtcome
  simp [houtcome.1]

structure Says (errs : Bool) (ds : List Delivery) : Prop where
  once : ds.countP (·.msg.isOutcome) = 1
  tells : erring ds = errs
  unready : ∀ d ∈ ds, d.msg.isReady = false

theorem Says.append {errs : Bool} {ds es : List Delivery} (h : Says errs ds) (he : Shows es) :
    Says errs (ds ++ es) where
  once := by rw [List.countP_append, h.once, he.countP]
  tells := by
    have herring : erring (ds ++ es) = (erring ds || erring es) := List.any_append
    rw [herring, h.tells, he.not_erring, Bool.or_false]
  unready d hd := (List.mem_append.1 hd).elim (h.unready d) fun hd => (he d hd).1

theorem Shows.tells {ds : List Delivery} {d : Delivery} (h : Shows ds) (hd : d.msg.isOutcome = true)
    (hr : d.msg.isReady = false) : Says d.msg.isError (ds ++ [d]) where
  once := by
    rw [List.countP_append, h.countP]
    simp [hd]
  tells := by
    have herring : erring (ds ++ [d]) = (erring ds || erring [d]) := List.any_append
    rw [herring, h.not_erring, Bool.false_or]
    exact Bool.or_false _
  unready x hx := by
    rcases List.mem_append.1 hx with hx | hx
    · exact (h x hx).1
    · rw [List.mem_singleton.1 hx]; exact hr

theorem exists_outcome {ms : List Backend} (hready : ∀ m ∈ ms, m.isReady = false)
    (hone : ms.countP Backend.isOutcome = 1) :
    ∃ shown fin rest, ms = shown ++ fin :: rest ∧ ms.any Backend.isError = fin.isError ∧
      (∀ m ∈ shown, m.isReady = false ∧ m.isOutcome = false) ∧
        (∀ m ∈ rest, m.isReady = false ∧ m.isOutcome = false) ∧
      ((∃ e, fin = .error e) ∨ ∃ tag, fin = .commandComplete tag) := by
  obtain ⟨fin, hmem, hfin⟩ := List.countP_pos_iff.1 (hone ▸ Nat.one_pos)
  obtain ⟨shown, rest, rfl⟩ := List.append_of_mem hmem
  rw [List.countP_append, List.countP_cons_of_pos hfin] at hone
  have hnone {l : List Backend} (hl : l.countP Backend.isOutcome = 0)
    (hsub : ∀ m ∈ l, m ∈ shown ++ fin :: rest) :
      ∀ m ∈ l, m.isReady = false ∧ m.isOutcome = false :=
    fun m hm => ⟨hready m (hsub m hm), Bool.eq_false_iff.2 (List.countP_eq_zero.1 hl m hm)⟩
  have hshown := hnone (show shown.countP _ = 0 by omega) fun m hm => List.mem_append_left _ hm
  have hrest := hnone (show rest.countP _ = 0 by omega) fun m hm => List.mem_append_right _
    (List.mem_cons_of_mem _ hm)
  have hquiet {l : List Backend} (hl : ∀ m ∈ l, m.isReady = false ∧ m.isOutcome = false) : l.any
      Backend.isError = false := by
    refine List.any_eq_false.2 fun m hm => ?_
    have houtcome := (hl m hm).2
    rw [Backend.isOutcome, Bool.or_eq_false_iff] at houtcome
    simp [houtcome.1]
  refine ⟨shown, fin, rest, rfl, ?_, hshown, hrest, ?_⟩
  · rw [List.any_append, List.any_cons, hquiet hshown, hquiet hrest, Bool.false_or, Bool.or_false]
  · cases fin with
    | error e => exact .inl ⟨e, rfl⟩
    | commandComplete tag => exact .inr ⟨tag, rfl⟩
    | _ => cases hfin

section Exchanges

variable {m : Frontend} {u₀ u u' : U.State} {s : Session} {g : List Nat} {ds : List Delivery}
  {rs : List Reply} {qs : List Request} {k n : Nat} {errs : Bool}

theorem Says.candid {d : Delivery} (h : Says errs ds) (hd : d.msg = .ready (T.status u'))
    (hf : T.opened u' = true → T.failed u' = errs) (hc : T.opened u₀ = true →
      (A.txn u₀ ∈ A.committed u' ↔ D.commits parse m = true ∧ T.failed u₀ = false ∧ errs = false)) :
    Candid D A m u₀ (ds ++ [d]) u' := by
  have herr : d.msg.isError = false := by rw [hd]; rfl
  have herring : erring (ds ++ [d]) = errs := by
    rw [erring, List.any_append, ← erring, h.tells]
    simp [herr]
  refine ⟨?_, ⟨ds, d, rfl, h.unready, .inl hd⟩, fun hb => ?_, fun hb => ?_⟩
  · rw [List.countP_append, h.once]
    simp [Backend.isOutcome, hd, Backend.isError, Backend.isComplete]
  · rw [herring]; exact hf hb
  · rw [herring]; exact hc hb

theorem uncommitted_iff (hbar : T.opened u₀ = true → A.Barred u' (A.txn u₀))
    (hc : errs = false → D.commits parse m = false) (hb : T.opened u₀ = true) :
    A.txn u₀ ∈ A.committed u' ↔ D.commits parse m = true ∧ T.failed u₀ = false ∧ errs = false := by
  refine ⟨fun hmem => absurd hmem (hbar hb).uncommitted, fun hcommit => ?_⟩
  rw [hc hcommit.2.2] at hcommit
  exact absurd hcommit.1 Bool.false_ne_true

abbrev Answered (D : Dialect) (A : Commits T) (m : Frontend) (u₀ : U.State) :=
  Settles D (simple D A) (Concludes (Rest D A) (Candid D A) m u₀)

theorem answered_of {q : Request} (hs : Composed D A s u g) (hq : Askable parse q.msg)
    (h : ∀ c, T.Carries u q.msg c → ∃ u' ms, U.answer u q.msg c = (u', ms) ∧
      Answered D A m u₀ s u' (condemn A q u' g) [] (ms.map (Reply.mk q.origin)) qs ds) :
    Answered D A m u₀ s u g [] [] (q :: qs) ds := by
  refine .answer ⟨hs.running, hs.kept, hq⟩ fun c hc => ?_
  obtain ⟨u', ms, hanswer, h⟩ := h c hc
  rw [hanswer]
  exact h

theorem single_of {sql : String} {st : Statement} (h : parse sql = some [st])
    (hstrays : st.strays = false) : single (parse sql) = true := by
  simp [single, h, hstrays]

theorem not_mem_of_closed (hk : ∀ t ∈ g, A.Barred u t) (hb : T.opened u = false) : A.txn u ∉ g := by
  intro hmem
  obtain hlt | ⟨-, hsome⟩ := (hk _ hmem).past
  · exact Nat.lt_irrefl _ hlt
  · rw [hb] at hsome
    cases hsome

theorem Composed.restored (h : Composed D A s u g) (hr : Restores A errs u u') :
    Composed D A s u' (A.txn u' :: g) where
  repair := h.repair
  awake := h.awake
  inFlight := h.inFlight
  running := hr.running
  kept t ht := by
    rcases List.mem_cons.1 ht with rfl | ht
    · exact (hr.numbered h.numbered).barred hr.opened
    · exact hr.barred (h.kept t ht)
  numbered := hr.numbered h.numbered

theorem answered_abort (hD : Knows D parse) (h : Composed D A s u g) (hh : s.hidden = none)
    (hf : s.failure = some ⟨k, n, abortFailure 1⟩) (hp : s.pendingExchanges = 1)
    (ht : s.tracker.inTxn = true) (ha : s.txnAborted = true) (hb : T.opened u = true)
    (hbar : T.opened u₀ = true → A.Barred u (A.txn u₀)) (hds : Says true ds) :
    Answered D A m u₀ s u g [] [] [⟨.failure k, abortTransactionQuery⟩] ds := by
  refine answered_of h (.inl (single_of hD.abort rfl)) fun c hc => ?_
  obtain ⟨pre, u', hanswer, hready, hex⟩ := answer_raise A h.running hD.abort hc
  refine ⟨u', _, hanswer, ?_⟩
  have hr : Restores A true u u' := hex.restores rfl hb
  have hmark : condemn A ⟨.failure k, abortTransactionQuery⟩ u' g = A.txn u' :: g :=
    if_pos hr.opened
  rw [hmark, List.map_append]
  refine settles_failure hh hf (Nat.le_add_left _ _) hready
    ⟨⟨⟨h.repair, h.awake, h.inFlight, ?_, ?_, ?_⟩, hh, rfl, ?_, ?_, ?_, ?_, ?_⟩, ?_⟩
  · exact (h.restored hr).running
  · exact (h.restored hr).kept
  · exact (h.restored hr).numbered
  · show s.pendingExchanges - 1 = 0
    rw [hp]
  · exact ht.trans hr.opened.symm
  · exact fun _ => hr.failed
  · exact fun _ => hr.opened
  · exact fun _ => .inr ha
  · exact hds.candid (congrArg Backend.ready (status_of_failed hr.failed).symm) (fun _ => hr.failed)
      (uncommitted_iff (fun hb => hr.barred (hbar hb)) (by simp))

theorem answered_rollback (hD : Knows D parse) (h : Composed D A s u g) (hh : s.hidden = none)
    (hf : s.failure = some ⟨k, n, conflictFailure 1⟩) (hp : s.pendingExchanges = 1)
    (ht : s.tracker.inTxn = false) (ha : s.txnAborted = false) (hdoom : s.occDoomed = false)
    (hbar : T.opened u₀ = true → A.Barred u (A.txn u₀)) (hds : Says true ds) :
    Answered D A m u₀ s u g [] [] [⟨.failure k, rollbackQuery⟩] ds := by
  refine answered_of h (.inl (single_of hD.rollback rfl)) fun c hc => ?_
  obtain ⟨pre, u', hanswer, hready, -, hex⟩ :=
    answer_single A h.running (single_of hD.rollback rfl) hc
  rw [statementsOf, hD.rollback] at hex
  have hclosed : T.opened u' = false := hex.opened
  have hbarred {t : Nat} (ht : A.Barred u t) : A.Barred u' t :=
    hex.barred (fun hc => by cases hc) ht
  have hkept : ∀ t ∈ g, A.Barred u' t := fun t ht => hbarred (h.kept t ht)
  refine ⟨u', _, hanswer, ?_⟩
  have hmark : condemn A ⟨.failure k, rollbackQuery⟩ u' g = g := if_neg (by simp [hclosed])
  rw [hmark, List.map_append]
  refine settles_failure hh hf (Nat.le_add_left _ _) hready
    ⟨⟨⟨h.repair, h.awake, h.inFlight, ?_, hkept, ?_⟩, hh, rfl, ?_, ?_, ?_, ?_, ?_⟩, ?_⟩
  · exact hex.running
  · exact hex.numbered h.numbered
  · show s.pendingExchanges - 1 = 0
    rw [hp]
  · exact ht.trans hclosed.symm
  · exact fun haborted => by simp [ha] at haborted
  · exact fun hdoomed => by simp [hdoom] at hdoomed
  · exact fun hmem => absurd hmem (not_mem_of_closed hkept hclosed)
  · exact hds.candid (congrArg Backend.ready (status_of_closed hclosed).symm)
      (fun hb => by simp [hclosed] at hb) (uncommitted_iff (fun hb => hbarred (hbar hb)) (by simp))

structure Mending (D : Dialect) (A : Commits T) (s : Session) (u : U.State) (g : List Nat) :
    Prop extends Composed D A s u g where
  failure : s.failure = none
  aborted : s.txnAborted = false
  inTxn : s.tracker.inTxn = true
  doomed : s.occDoomed = true
  opened : T.opened u = true

theorem Mending.rest (h : Mending D A s u g) (hh : s.hidden = none) (hp : s.pendingExchanges = 0) :
    Rest D A s u g where
  toComposed := h.toComposed
  hidden := hh
  failure := h.failure
  pending := hp
  agrees := h.inTxn.trans h.opened.symm
  aborted ha := by simp [h.aborted] at ha
  doomed _ := h.opened
  condemned _ := .inl h.doomed

theorem Mending.freed (h : Mending D A s u g) :
    Mending D A { s with hidden := none, pendingExchanges := s.pendingExchanges - 1 } u g :=
  ⟨⟨h.repair, h.awake, h.inFlight, h.running, h.kept, h.numbered⟩, h.failure, h.aborted, h.inTxn,
    h.doomed, h.opened⟩

theorem Mending.restored (h : Mending D A s u g) (hr : Restores A errs u u') :
    Mending D A s u' (A.txn u' :: g) :=
  ⟨h.toComposed.restored hr, h.failure, h.aborted, h.inTxn, h.doomed, hr.opened⟩

theorem Mending.shadowed (h : Mending D A s u g) (hr : Restores A errs u u') : Mending D A s u' g :=
  have hrestored := h.restored hr
  ⟨⟨h.repair, h.awake, h.inFlight, hrestored.running, fun t ht =>
    hrestored.kept t (List.mem_cons_of_mem _ ht),
    hrestored.numbered⟩, h.failure, h.aborted, h.inTxn, h.doomed, hr.opened⟩

theorem answered_failRepair (hD : Knows D parse) (h : Mending D A s u g) (hh : s.hidden = none)
    (hp : s.pendingExchanges = 0) (hbar : T.opened u₀ = true → A.Barred u (A.txn u₀))
    (hds : Shows ds) : Answered D A m u₀ s u g (failRepair D n) [] [] ds := by
  refine .act (by simp)
    (.act (by simp [Backend.isReady]) (.act (by simp) (.act (by simp) (.act (by simp) ?_))))
  simp only [Act.exec, List.append_nil, List.nil_append]
  refine answered_abort (n := n) hD ⟨h.repair, h.awake, h.inFlight, h.running, h.kept, h.numbered⟩
    hh rfl ?_ h.inTxn rfl h.opened hbar
    (hds.tells (d := ⟨.repair n, .error (conflictError D.occ)⟩) rfl rfl)
  simp [hp]

theorem answered_completeRepair {repair : InFlight} {rows : Int} (h : Mending D A s u g)
    (hh : s.hidden = none) (hp : s.pendingExchanges = 0) (hf : T.failed u = false)
    (hbar : T.opened u₀ = true → A.Barred u (A.txn u₀)) (hds : Shows ds)
    (hc : D.commits parse m = false) :
    Answered D A m u₀ s u g (completeRepair repair rows) [] [] ds := by
  refine .act (by simp [Backend.isReady]) ?_
  simp only [Act.exec, List.append_nil, List.nil_append]
  have htells := hds.tells
    (d := ⟨.repair repair.request, .commandComplete (repair.intent.commandTag rows)⟩) rfl rfl
  exact .last rfl ⟨h.rest hh hp,
    htells.candid (congrArg Backend.ready (status_of_open h.opened hf).symm) (fun _ => hf)
    (uncommitted_iff hbar fun _ => hc)⟩

def Exchange.ended (x : Exchange) (rows : Int) (errs : Bool) : Exchange :=
  match x with
  | .savepoint failed => .savepoint (failed || errs)
  | .restore repair failed => .restore repair (failed || errs)
  | .count repair _ failed => .count repair rows (failed || errs)
  | .rowset repair failed => .rowset repair (failed || errs)

theorem exists_ended (x : Exchange) (ms : List Backend) :
    ∃ rows, ms.foldl Exchange.note x = x.ended rows (ms.any Backend.isError) := by
  induction ms generalizing x with
  | nil => cases x <;> simp [Exchange.ended]
  | cons m ms ih =>
    obtain ⟨rows, hrows⟩ := ih (x.note m)
    rw [List.foldl_cons, hrows]
    cases x with
    | count repair rows' failed =>
      cases m <;> exact ⟨rows, by simp [Exchange.note, Exchange.ended, Backend.isError]⟩
    | _ => exact ⟨rows, by simp [Exchange.note, Exchange.ended, Bool.or_assoc]⟩

theorem answered_shadow {repair : InFlight} {x : Exchange} (hD : KnowsLone D parse)
    (h : Mending D A s u g) (hh : s.hidden = some ⟨k, x⟩)
    (hx : x.purpose = .count ∨ x.purpose = .rowset) (hrepair : D.Repairs repair)
    (hshadow : repair.intent.shadow ≠ "") (hbar : T.opened u₀ = true → A.Barred u (A.txn u₀))
    (hnext : ∀ u' (pre : List Backend) rows, Mending D A
      { s with hidden := none, pendingExchanges := s.pendingExchanges - 1 } u' g →
      T.failed u' = pre.any Backend.isError → (T.opened u₀ = true → A.Barred u' (A.txn u₀)) →
      (∀ m ∈ pre, m.isReady = false) → pre.countP Backend.isOutcome = 1 →
      Answered D A m u₀ { s with hidden := none, pendingExchanges := s.pendingExchanges - 1 } u' g
      ((x.ended rows (pre.any Backend.isError)).finish D) [] []
      (ds ++ (pre.filter x.passes).map (Delivery.mk (.relayed (.hidden x.purpose k))))) :
    Answered D A m u₀ s u g [] [] [⟨.hidden x.purpose k, .query repair.intent.shadow⟩] ds := by
  have hsingle := hD.shadow_single _ hrepair.shadows hshadow
  refine answered_of h.toComposed (.inl hsingle) fun c hc => ?_
  obtain ⟨pre, u', hanswer, hready, hone, hex⟩ := answer_single A h.running hsingle hc
  have hr : Restores A (pre.any Backend.isError) u u' :=
    hex.restores (hD.shadows _ hrepair.shadows) h.opened
  have hmark : condemn A ⟨.hidden x.purpose k, .query repair.intent.shadow⟩ u' g = g := by
    obtain hx | hx := hx <;> simp [condemn, hx]
  obtain ⟨rows, hrows⟩ := exists_ended x pre
  refine ⟨u', _, hanswer, ?_⟩
  rw [hmark, List.map_append]
  refine settles_hidden hh hready ?_
  rw [hrows]
  exact hnext u' pre rows (h.shadowed hr).freed hr.failed (fun hb => hr.barred (hbar hb))
    hready hone

theorem Dialect.Repairs.shadowParams {repair : InFlight} (h : D.Repairs repair) :
    repair.shadowParams = some ([], []) := by
  rw [InFlight.shadowParams, h.params, InFlight.shadowParams.go]

theorem answered_rowset {repair : InFlight} {o : Origin} {pre : List Backend} {rows : Int}
    (hD : Knows D parse) (h : Mending D A s u g) (hh : s.hidden = none)
    (hp : s.pendingExchanges = 0) (hf : T.failed u = pre.any Backend.isError)
    (hbar : T.opened u₀ = true → A.Barred u (A.txn u₀)) (hds : Shows ds)
    (hc : D.commits parse m = false) (hready : ∀ m ∈ pre, m.isReady = false)
    (hone : pre.countP Backend.isOutcome = 1) : Answered D A m u₀ s u g
      (((Exchange.rowset repair false).ended rows (pre.any Backend.isError)).finish D) [] []
      (ds ++ (pre.filter (Exchange.rowset repair false).passes).map
          (Delivery.mk (.relayed o))) := by
  obtain ⟨shown, fin, rest, rfl, herrs, hshown, hrest, hfin⟩ := exists_outcome hready hone
  have hrows {l : List Backend} (hl : ∀ m ∈ l, m.isReady = false ∧ m.isOutcome = false) :
      Shows ((l.filter (Exchange.rowset repair false).passes).map (Delivery.mk (.relayed o))) := by
    intro d hd
    obtain ⟨x, hx, rfl⟩ := List.mem_map.1 hd
    exact hl x (List.mem_filter.1 hx).1
  rw [herrs] at hf ⊢
  obtain ⟨e, rfl⟩ | ⟨tag, rfl⟩ := hfin
  · rw [List.filter_append, List.filter_cons_of_neg (by simp [Exchange.passes]), List.map_append]
    exact answered_failRepair hD h hh hp hbar (hds.append ((hrows hshown).append (hrows hrest)))
  · rw [List.filter_append, List.filter_cons_of_pos rfl, List.map_append, List.map_cons,
      ← List.append_assoc, List.append_cons]
    have htells := (hds.append (hrows hshown)).tells
      (d := ⟨.relayed o, .commandComplete tag⟩) rfl rfl
    exact .last rfl ⟨h.rest hh hp, (htells.append (hrows hrest)).candid
      (congrArg Backend.ready (status_of_open h.opened hf).symm)
      (fun _ => hf) (uncommitted_iff hbar fun _ => hc)⟩

theorem answered_runShadow {repair : InFlight} (hD : KnowsLone D parse) (h : Mending D A s u g)
    (hh : s.hidden = none) (hp : s.pendingExchanges = 0) (hf : T.failed u = false)
    (hrepair : D.Repairs repair) (hbar : T.opened u₀ = true → A.Barred u (A.txn u₀))
    (hds : Shows ds) (hc : D.commits parse m = false) :
    Answered D A m u₀ s u g (runShadow D repair) [] [] ds := by
  unfold runShadow
  split
  next => exact answered_completeRepair h hh hp hf hbar hds hc
  next hshadow =>
    -- the hidden exchange is set up and its statement written
    have hsend (x : Exchange) (hx : x.purpose = .count ∨ x.purpose = .rowset)
        (hnext : ∀ u' (pre : List Backend) rows, Mending D A
          { s with serial := s.serial + 1 } u' g →
          T.failed u' = pre.any Backend.isError → (T.opened u₀ = true → A.Barred u' (A.txn u₀)) →
          (∀ m ∈ pre, m.isReady = false) → pre.countP Backend.isOutcome = 1 →
          Answered D A m u₀ { s with serial := s.serial + 1 } u' g
            ((x.ended rows (pre.any Backend.isError)).finish D) [] []
            (ds ++ (pre.filter x.passes).map
              (Delivery.mk (.relayed (.hidden x.purpose s.serial))))) :
        Answered D A m u₀ s u g [.setHidden x [.query repair.intent.shadow]] [] [] ds := by
      refine .act (by simp) (.act (by simp) (.act (by simp) ?_))
      simp only [Act.exec, List.append_nil, List.nil_append, List.map_cons, List.map_nil]
      refine answered_shadow hD ⟨⟨h.repair, h.awake, h.inFlight, h.running, h.kept, h.numbered⟩,
        h.failure, h.aborted, h.inTxn,
        h.doomed, h.opened⟩ rfl hx hrepair hshadow hbar fun u' pre rows hm => ?_
      have hsess : ({ s with hidden := none, pendingExchanges := s.pendingExchanges + 1 - 1,
                             serial := s.serial + 1 } : Session) =
          { s with serial := s.serial + 1 } := by
        rw [← hh, Nat.add_sub_cancel]
      simp only [hsess] at hm ⊢
      exact hnext u' pre rows hm
    split
    next hrowset =>
      simp only [runRowsetShadow, hrepair.shadowParams, hrepair.simple,
        Bool.false_eq_true, if_false]
      exact hsend _ (.inr rfl) fun u' pre rows hm hfailed hbar' hready hone =>
        answered_rowset hD.toKnows hm hh hp hfailed hbar' hds hc hready hone
    next hrowset =>
      simp only [runCountShadow, hrepair.shadowParams, if_true]
      refine hsend _ (.inl rfl) fun u' pre rows hm hfailed hbar' _ _ => ?_
      have hnone : pre.filter (Exchange.count repair 0 false).passes = [] := by
        rw [List.filter_eq_nil_iff]
        intro x _
        cases x <;> simp [Exchange.passes]
      rw [hnone, List.map_nil, List.append_nil]
      cases herrs : pre.any Backend.isError with
      | true => exact answered_failRepair hD.toKnows hm hh hp hbar' hds
      | false => exact answered_completeRepair hm hh hp (hfailed.trans herrs) hbar' hds hc

theorem answered_restore {repair : InFlight} (hD : KnowsLone D parse) (h : Mending D A s u g)
    (hh : s.hidden = some ⟨k, .restore repair false⟩) (hp : s.pendingExchanges = 1)
    (hrepair : D.Repairs repair) (hbar : T.opened u₀ = true → A.Barred u (A.txn u₀))
    (hds : Shows ds) (hc : D.commits parse m = false) {q : Frontend}
    (hq : q = rollbackToQuery ∨ q = restartQuery) :
    Answered D A m u₀ s u g [] [] [⟨.hidden .restore k, q⟩] ds := by
  have hasks : Askable parse q := by
    obtain rfl | rfl := hq
    · exact .inl (single_of hD.rollbackTo rfl)
    · exact .inr hD.restart
  refine answered_of h.toComposed hasks fun c hc' => ?_
  have hanswer : ∃ pre u', U.answer u q c = (u', pre ++ [.ready (T.status u')]) ∧
    (∀ m ∈ pre, m.isReady = false) ∧
      Restores A (pre.any Backend.isError) u u' := by
    obtain rfl | rfl := hq
    · obtain ⟨pre, u', hanswer, hready, -, hex⟩ :=
        answer_single A h.running (single_of hD.rollbackTo rfl) hc'
      rw [statementsOf, hD.rollbackTo] at hex
      exact ⟨pre, u', hanswer, hready, hex.restores rfl h.opened⟩
    · exact answer_restart A h.running hD.restart hc'
  obtain ⟨pre, u', hanswer, hready, hr⟩ := hanswer
  have hmark : condemn A ⟨.hidden .restore k, q⟩ u' g = A.txn u' :: g := if_pos hr.opened
  obtain ⟨rows, hrows⟩ := exists_ended (.restore repair false) pre
  have hnone : pre.filter (Exchange.restore repair false).passes = [] := by
    rw [List.filter_eq_nil_iff]
    intro x _
    cases x <;> simp [Exchange.passes]
  refine ⟨u', _, hanswer, ?_⟩
  rw [hmark, List.map_append]
  refine settles_hidden hh hready ?_
  rw [hrows, hnone, List.map_nil, List.append_nil]
  have hm := (h.restored hr).freed
  have hpending : s.pendingExchanges - 1 = 0 := by rw [hp]
  have hbarred (hb : T.opened u₀ = true) : A.Barred u' (A.txn u₀) := hr.barred (hbar hb)
  cases herrs : pre.any Backend.isError with
  | true => exact answered_failRepair hD.toKnows hm rfl hpending hbarred hds
  | false =>
    exact answered_runShadow hD hm rfl hpending (hr.failed.trans herrs) hrepair hbarred hds hc

structure Asking (D : Dialect) (A : Commits T) (s : Session) (u : U.State) (g : List Nat)
    (ss : List Statement) : Prop
    extends Composed D A s u g where
  failure : s.failure = none
  aborted : s.txnAborted = false
  agrees : s.tracker.inTxn = (ss.map Statement.kindOf).foldl Kind.plays (T.opened u)
  doomed : s.occDoomed = true → T.opened u = true
  spared : ss.any Statement.isCommit = true → A.txn u ∈ g → T.failed u = true
  condemned : ss.any Statement.ends = false → A.txn u ∈ g → s.occDoomed = true

structure Since (D : Dialect) (A : Commits T) (m : Frontend) (u₀ u : U.State)
    (ss : List Statement) : Prop where
  barred : T.opened u₀ = true → A.Barred u (A.txn u₀)
  commits : ss.any Statement.isCommit = D.commits parse m
  same : ss.any Statement.isCommit = true → u = u₀

section Asking

variable {ss : List Statement}

theorem Asking.kept' (h : Asking D A s u g ss) (hex : Enacts A ss errs u u') :
    ∀ t ∈ g, A.Barred u' t :=
  fun t ht => hex.barred (fun hc _ heq => h.spared hc (heq ▸ ht)) (h.kept t ht)

theorem Asking.rest (h : Asking D A s u g ss) (hh : s.hidden = none) (hp : s.pendingExchanges = 1)
    (hex : Enacts A ss errs u u') : Rest D A (s.readied (T.status u')) u' g := by
  have hkept := h.kept' hex
  have hnumbered := hex.numbered h.numbered
  cases hb : T.opened u' with
  | false =>
    rw [status_of_closed hb]
    exact ⟨⟨h.repair, h.awake, by simp [Session.readied], hex.running, hkept, hnumbered⟩,
      hh, h.failure, by simp [Session.readied, hp], h.agrees.trans hex.opened.symm, fun ha => by
        simp [Session.readied, h.aborted] at ha,
      fun hd => by simp [Session.readied] at hd, fun hmem =>
        absurd hmem (not_mem_of_closed hkept hb)⟩
  | true =>
    have hactive : T.status u' ≠ .idle := by
      intro hidle
      rw [Transacts.opened, hidle] at hb
      cases hb
    have hreadied : s.readied (T.status u') =
        { s with pendingExchanges := s.pendingExchanges - 1, job := none,
                 txStatus := T.status u' } := if_neg hactive
    rw [hreadied]
    refine ⟨⟨h.repair, h.awake, h.inFlight, hex.running, hkept, hnumbered⟩, hh, h.failure, ?_,
      h.agrees.trans hex.opened.symm, fun ha => ?_, fun _ => hb, fun hmem => .inl ?_⟩
    · show s.pendingExchanges - 1 = 0
      rw [hp]
    · rw [h.aborted] at ha
      cases ha
    · have hle : A.txn u' ≤ A.txn u := (h.kept _ hmem).le
      have heq : A.txn u' = A.txn u := Nat.le_antisymm hle hex.later
      have hends : ss.any Statement.ends = false := by
        by_contra hends
        exact Nat.lt_irrefl _ (heq ▸ hex.ended (by simpa using hends))
      exact h.condemned hends (heq ▸ hmem)

theorem Since.candid {d : Delivery} (h : Since D A m u₀ u ss) (hex : Enacts A ss errs u u')
    (htells : Says errs ds) (hd : d.msg = .ready (T.status u')) :
    Candid D A m u₀ (ds ++ [d]) u' := by
  refine htells.candid hd (fun hb => by rw [hex.failed, hb, Bool.and_true]) fun hb =>
    ⟨fun hmem => ?_, fun hcommit => ?_⟩
  · by_contra hnot
    refine (hex.barred (fun hc he _ => ?_) (h.barred hb)).uncommitted hmem
    have hcommits : D.commits parse m = true := h.commits ▸ hc
    obtain rfl := h.same hc
    by_contra hf
    exact hnot ⟨hcommits, by simpa using hf, he⟩
  · obtain ⟨hcommits, hf, he⟩ := hcommit
    have hc : ss.any Statement.isCommit = true := h.commits ▸ hcommits
    obtain rfl := h.same hc
    exact hex.commits hc he hb hf

theorem Asking.relayed (h : Asking D A s u g ss) (job : Option JobResult)
    (pendingCommandTag : String) : Asking D A { s with job, pendingCommandTag } u g ss :=
  ⟨⟨h.repair, h.awake, h.inFlight, h.running, h.kept, h.numbered⟩, h.failure, h.aborted, h.agrees,
    h.doomed, h.spared, h.condemned⟩

theorem single_not_ends {sql : String} (h : single (parse sql) = true) {opened : Bool}
    (ho : ((statementsOf parse (.query sql)).map Statement.kindOf).foldl Kind.plays opened = true) :
    (statementsOf parse (.query sql)).any Statement.ends = false := by
  cases hparse : parse sql with
  | none => simp [statementsOf, hparse]
  | some ss =>
    simp only [single, hparse, Option.all_some, Bool.and_eq_true, decide_eq_true_eq] at h
    obtain ⟨s, rfl⟩ := List.length_eq_one_iff.1 h.1
    simp only [statementsOf, hparse, Option.getD_some] at ho ⊢
    by_contra hends
    have hs : s.ends = true := by simpa using hends
    have hfalse : s.kindOf.plays opened = false := plays_of_ends hs
    rw [List.map_singleton, List.foldl_cons, List.foldl_nil, hfalse] at ho
    cases ho

theorem answered_takeover {sql : String} {repair : InFlight} {o : Origin} (hD : KnowsLone D parse)
    (h : Asking D A s u g (statementsOf parse (.query sql))) (hh : s.hidden = none)
    (hp : s.pendingExchanges = 1) (hsince : Since D A m u₀ u (statementsOf parse (.query sql)))
    (hsingle : single (parse sql) = true)
    (hex : Enacts A (statementsOf parse (.query sql)) errs u u')
    (hrepair : s.occInFlight = some repair) (ht : s.tracker.inTxn = true) (hds : Shows ds) :
    Answered D A m u₀ { s with job := none, occRepair := some repair, occInFlight := none } u' g []
      [⟨o, .ready (T.status u')⟩] [] ds := by
  have hsome : T.opened u' = true := hex.opened.trans (h.agrees.symm.trans ht)
  have hends := single_not_ends hsingle (h.agrees.symm.trans ht)
  have hcommit := not_isCommit_of_not_ends hends
  refine settles_takeover hh h.failure rfl ?_
  refine answered_restore hD ?_ rfl ?_ (h.inFlight repair hrepair)
    (fun hb => hex.barred (by simp [hcommit]) (hsince.barred hb)) hds
    (hsince.commits.symm.trans hcommit) ?_
  · exact ⟨⟨rfl, h.awake, by simp, hex.running, h.kept' hex, hex.numbered h.numbered⟩, h.failure,
      h.aborted, ht, rfl, hsome⟩
  · show s.pendingExchanges - 1 + 1 = 1
    rw [hp]
  · cases s.occSavepoint
    · exact .inr rfl
    · exact .inl rfl

theorem answered_asked {sql : String} (hD : KnowsLone D parse)
    (h : Asking D A s u g (statementsOf parse (.query sql))) (hh : s.hidden = none)
    (hp : s.pendingExchanges = 1) (hsince : Since D A m u₀ u (statementsOf parse (.query sql)))
    (hsingle : single (parse sql) = true) :
    Answered D A m u₀ s u g [] [] [⟨.client n, .query sql⟩] [] := by
  refine answered_of h.toComposed (.inl hsingle) fun c hc => ?_
  obtain ⟨pre, u', hanswer, hready, hone, hex⟩ := answer_single A h.running hsingle hc
  obtain ⟨shown, fin, rest, rfl, herrs, hshown, hrest, hfin⟩ := exists_outcome hready hone
  rw [herrs] at hex
  refine ⟨u', _, hanswer, ?_⟩
  have hmark : condemn A ⟨.client n, .query sql⟩ u' g = g := rfl
  rw [hmark, List.append_assoc, List.map_append, List.cons_append, List.map_cons, List.map_append]
  refine settles_shown hh h.failure h.repair hshown fun job es hes => ?_
  rw [List.nil_append]
  have hjob := h.relayed job s.pendingCommandTag
  obtain ⟨e, rfl⟩ | ⟨tag, rfl⟩ := hfin
  · refine settles_error hh h.failure h.repair (fun e => ?_) fun repair hrepair ht => ?_
    · have htells := Shows.tells (d := ⟨.relayed (.client n), .error e⟩) hes rfl rfl
      refine settles_shown hh h.failure h.repair hrest fun job' es' hes' => ?_
      exact settles_ready hh h.failure h.repair
        ⟨(h.relayed job' s.pendingCommandTag).rest hh hp hex,
          hsince.candid hex (htells.append hes') rfl⟩
    · exact settles_swallow hh h.failure rfl (fun x hx => (hrest x hx).1)
        (answered_takeover hD hjob hh hp hsince hsingle hex hrepair ht hes)
  · refine settles_complete hh h.failure h.repair fun job' pendingCommandTag es' tag' hes' => ?_
    have htells := (Shows.append hes hes').tells
      (d := ⟨.relayed (.client n), .commandComplete tag'⟩) rfl rfl
    rw [← List.append_assoc]
    refine settles_shown hh h.failure h.repair hrest fun job'' es'' hes'' => ?_
    exact settles_ready hh h.failure h.repair
      ⟨(h.relayed job'' pendingCommandTag).rest hh hp hex,
        hsince.candid hex (htells.append hes'') rfl⟩

theorem answered_saving {sql : String} (hD : KnowsLone D parse)
    (h : Asking D A s u g (statementsOf parse (.query sql)))
    (hh : s.hidden = some ⟨k, .savepoint false⟩) (hp : s.pendingExchanges = 2)
    (hends : (statementsOf parse (.query sql)).any Statement.ends = false)
    (hsince : Since D A m u₀ u (statementsOf parse (.query sql)))
    (hsingle : single (parse sql) = true) :
    Answered D A m u₀ s u g [] [] [⟨.hidden .savepoint k, savepointQuery⟩, ⟨.client n, .query sql⟩]
      [] := by
  refine answered_of h.toComposed (.inl (single_of hD.saves rfl)) fun c hc => ?_
  obtain ⟨pre, u', hanswer, hready, -, hex⟩ := answer_single A h.running (single_of hD.saves rfl) hc
  rw [statementsOf, hD.saves] at hex
  have hcommit := not_isCommit_of_not_ends hends
  have hbarred {t : Nat} (ht : A.Barred u t) : A.Barred u' t :=
    hex.barred (fun hc => by cases hc) ht
  have hsome : T.opened u' = T.opened u := hex.opened
  have hsince' : Since D A m u₀ u' (statementsOf parse (.query sql)) :=
    ⟨fun hb => hbarred (hsince.barred hb), hsince.commits, by simp [hcommit]⟩
  have hcondemned : A.txn u' ∈ g → s.occDoomed = true := fun hmem => by
    have hle : A.txn u' ≤ A.txn u := (h.kept _ hmem).le
    exact h.condemned hends (Nat.le_antisymm hle hex.later ▸ hmem)
  have hnone : pre.filter (Exchange.savepoint false).passes = [] := by
    rw [List.filter_eq_nil_iff]
    intro x _
    cases x <;> simp [Exchange.passes]
  obtain ⟨rows, hrows⟩ := exists_ended (.savepoint false) pre
  have hmark : condemn A ⟨.hidden .savepoint k, savepointQuery⟩ u' g = g := rfl
  refine ⟨u', _, hanswer, ?_⟩
  rw [hmark, List.map_append]
  refine settles_hidden hh hready ?_
  rw [hrows, hnone, List.map_nil, List.append_nil]
  have hpending : s.pendingExchanges - 1 = 1 := by rw [hp]
  -- whether the savepoint was made or not, what follows is the statement
  have hasked (occSavepoint : Bool) : Asking D A
      { s with hidden := none, pendingExchanges := s.pendingExchanges - 1, occSavepoint } u' g
          (statementsOf parse (.query sql)) := by
    refine ⟨⟨h.repair, h.awake, h.inFlight, hex.running, fun t ht => hbarred (h.kept t ht),
      hex.numbered h.numbered⟩, h.failure, h.aborted, ?_, ?_, by simp [hcommit], fun _ =>
        hcondemned⟩
    · rw [hsome]; exact h.agrees
    · rw [hsome]; exact h.doomed
  cases herrs : pre.any Backend.isError with
  | true =>
    refine .act (by simp) ?_
    exact answered_asked hD (hasked false) rfl hpending hsince' hsingle
  | false => exact answered_asked hD (hasked s.occSavepoint) rfl hpending hsince' hsingle

end Asking

end Exchanges

section Handling

variable {m : Frontend} {u : U.State} {s : Session} {g : List Nat} {ds : List Delivery} {n : Nat}
  {ss : List Statement} {acts : List Act}

abbrev Handled (D : Dialect) (A : Commits T) (m : Frontend) (u : U.State) :=
  Handles D (simple D A) (Concludes (Rest D A) (Candid D A) m u)

/-- The acts between the admission of a query and its write. -/
@[simp] def Act.Prepares (D : Dialect) : Act → Prop
  | .setInFlight _ intent bind => bind = none ∧ ∀ i ∈ intent, D.Shadows i
  | .setPendingCommandTag => True
  | .beginExchange => True
  | _ => False

theorem Act.Prepares.prepares {a : Act} (h : a.Prepares D) : a.prepares = true := by
  cases a <;> first | rfl | cases h

theorem Asking.armed (h : Asking D A s u g ss) (hacts : ∀ a ∈ acts, a.Prepares D) :
    Asking D A (s.prepared D acts) u g ss := by
  induction acts generalizing s with
  | nil => exact h
  | cons a acts ih =>
    have ha := hacts a List.mem_cons_self
    refine ih ?_ fun b hb => hacts b (List.mem_cons_of_mem _ hb)
    cases a with
    | setPendingCommandTag =>
      exact ⟨⟨h.repair, h.awake, h.inFlight, h.running, h.kept, h.numbered⟩, h.failure,
        h.aborted, h.agrees, h.doomed, h.spared, h.condemned⟩
    | beginExchange =>
      exact ⟨⟨h.repair, h.awake, h.inFlight, h.running, h.kept, h.numbered⟩, h.failure,
        h.aborted, h.agrees, h.doomed, h.spared, h.condemned⟩
    | setInFlight k intent bind =>
      obtain ⟨rfl, hshadows⟩ := ha
      refine ⟨⟨h.repair, h.awake, fun f hf => ?_, h.running, h.kept, h.numbered⟩, h.failure,
        h.aborted, h.agrees, h.doomed, h.spared, h.condemned⟩
      obtain ⟨i, hi, hf⟩ := Option.bind_eq_some_iff.1 hf
      dsimp only at hf
      split at hf
      next hparams =>
        cases hf
        exact ⟨rfl, hparams, hshadows i hi⟩
      next => cases hf
    | _ => cases ha

theorem Composed.since (h : Composed D A s u g)
    (hc : ss.any Statement.isCommit = D.commits parse m) : Since D A m u u ss :=
  ⟨h.numbered.barred, hc, fun _ => rfl⟩

theorem handled_ask {sql : String} (acts : List Act) (hD : KnowsLone D parse)
    (h : Asking D A s u g (statementsOf parse (.query sql))) (hh : s.hidden = none)
    (hp : s.pendingExchanges = 0) (hacts : ∀ a ∈ acts, a.Prepares D)
    (hcount : acts.countP (· = .beginExchange) = 1)
    (hc : (statementsOf parse (.query sql)).any Statement.isCommit = D.commits parse m)
    (hsingle : single (parse sql) = true) : Handled D A m u s u g
      (acts ++ [.writeUpstream (.client n) [.query sql], .noteBatchState .query]) [] := by
  have hprepares : ∀ a ∈ acts, a.prepares = true := fun a ha => (hacts a ha).prepares
  refine handles_prepared hprepares (answered_asked hD (h.armed hacts) ?_ ?_ (h.since hc) hsingle)
  · rw [prepared_hidden hprepares, hh]
  · rw [prepared_pending hprepares, hp, hcount]

theorem handled_save {sql : String} (hD : KnowsLone D parse)
    (h : Asking D A s u g (statementsOf parse (.query sql))) (hh : s.hidden = none)
    (hp : s.pendingExchanges = 0) (hacts : ∀ a ∈ acts, a.Prepares D)
    (hcount : acts.countP (· = .beginExchange) = 1)
    (hends : (statementsOf parse (.query sql)).any Statement.ends = false)
    (hc : (statementsOf parse (.query sql)).any Statement.isCommit = D.commits parse m)
    (hsingle : single (parse sql) = true) : Handled D A m u s u g
      (.savepointReady none ::
          (acts ++ [.writeUpstream (.client n) [.query sql], .noteBatchState .query])) [] := by
  have hprepares : ∀ a ∈ acts, a.prepares = true := fun a ha => (hacts a ha).prepares
  have hask := handled_ask (n := n) acts hD h hh hp hacts hcount hc hsingle
  cases hsaved : s.occSavepoint with
  | true =>
    refine .act (fun now jobID _ => by simp [hsaved]) (fun now jobID _ => by simp [hsaved])
      fun now jobID _ => ?_
    simp only [Act.exec, hsaved, Bool.true_or, if_true, List.nil_append]
    exact hask
  | false =>
    refine .act (fun now jobID _ => by simp [hsaved]) (fun now jobID _ => by simp [hsaved])
      fun now jobID _ => ?_
    simp only [Act.exec, hsaved, Option.any_none, Bool.or_false, Bool.false_eq_true, if_false,
      List.append_nil]
    cases hopen : s.extendedBatchOpen with
    | true =>
      refine .act (fun now jobID _ => by simp [hopen]) (fun now jobID _ => by simp [hopen])
        fun now jobID _ => ?_
      simp only [Act.exec, hopen, Bool.or_true, if_true, List.nil_append, List.append_nil]
      exact hask
    | false =>
      refine .act (fun now jobID _ => by simp [hopen, hsaved, hp])
        (fun now jobID _ => by simp [hopen, hsaved, hp]) fun now jobID _ => ?_
      simp only [Act.exec, hopen, hsaved, hp, Nat.lt_irrefl, decide_false, Bool.or_false,
        Bool.false_eq_true, if_false, List.append_nil]
      refine .act (by simp) (by simp) fun now jobID _ =>
        .act (by simp) (by simp) fun now jobID _ => ?_
      simp only [Act.exec, List.append_nil, List.nil_append]
      refine .saving rfl (Nat.succ_pos _) (by simp) hprepares
        (answered_saving hD (Asking.armed ?_ hacts) ?_ ?_ hends (h.since hc) hsingle)
      · exact ⟨⟨h.repair, h.awake, h.inFlight, h.running, h.kept, h.numbered⟩, h.failure, h.aborted,
          h.agrees, h.doomed, h.spared, h.condemned⟩
      · rw [prepared_hidden hprepares]
      · rw [prepared_pending hprepares, hcount]

theorem tells_error {src : Source} {e : ErrorFields} : Says true [⟨src, .error e⟩] :=
  Shows.nil.tells (d := ⟨src, .error e⟩) rfl rfl

theorem Composed.uncommitted (h : Composed D A s u g) (hb : T.opened u = true) :
    A.txn u ∈ A.committed u ↔ D.commits parse m = true ∧ T.failed u = false ∧ true = false :=
  uncommitted_iff h.numbered.barred (by simp) hb

theorem handled_rejectFailed (h : Rest D A s u g) (ha : s.txnAborted = true) :
    Handled D A m u s u g (rejectFailed n false ++ [.noteBatchState .query]) [] := by
  have hfailed := h.aborted ha
  refine .act (by simp [sendError]) (by simp [sendError, Backend.isReady]) fun now jobID _ => ?_
  exact .refused rfl ⟨h, tells_error.candid (congrArg Backend.ready (status_of_failed hfailed).symm)
    (fun _ => hfailed) h.uncommitted⟩

theorem handled_reject {code message : String} (hD : Knows D parse) (h : Rest D A s u g) :
    Handled D A m u s u g (reject s n code message false ++ [.noteBatchState .query]) [] := by
  unfold reject
  refine .act (by simp [sendError]) (by simp [sendError, Backend.isReady]) fun now jobID _ => ?_
  cases ht : s.tracker.inTxn with
  | true =>
    simp only [if_true, Bool.false_eq_true, if_false]
    refine .act (by simp) (by simp) fun now jobID _ =>
      .act (by simp) (by simp) fun now jobID _ => ?_
    simp only [sendError, Act.exec, List.append_nil, List.nil_append]
    refine .asked (answered_abort (n := n) hD ⟨h.repair, h.awake, h.inFlight, h.running, h.kept,
      h.numbered⟩ h.hidden rfl ?_ ht rfl (h.agrees.symm.trans ht) h.numbered.barred tells_error)
    simp [h.pending]
  | false =>
    have hclosed : T.opened u = false := h.agrees.symm.trans ht
    simp only [Bool.false_eq_true, if_false]
    refine .act (by simp) (by simp) fun now jobID _ => .refused rfl ⟨h, ?_, ?_, ?_, ?_⟩
    · rfl
    · exact ⟨[⟨.refusal n, .error _⟩], _, rfl, by simp [Backend.isReady],
        .inr ⟨hclosed, n, s.txStatus, rfl⟩⟩
    · simp [hclosed]
    · simp [hclosed]

structure Admitted (D : Dialect) (A : Commits T) (s : Session) (u : U.State) (g : List Nat)
    (ss : List Statement) : Prop
    extends Composed D A s u g where
  hidden : s.hidden = none
  failure : s.failure = none
  pending : s.pendingExchanges = 0
  aborted : s.txnAborted = false
  agrees : s.tracker.inTxn = (ss.map Statement.kindOf).foldl Kind.plays (T.opened u)
  doomed : s.occDoomed = true → T.opened u = true
  condemned : A.txn u ∈ g → s.occDoomed = true

theorem Admitted.asking (h : Admitted D A s u g ss) (hends : ss.any Statement.ends = false) :
    Asking D A s u g ss :=
  ⟨h.toComposed, h.failure, h.aborted, h.agrees, h.doomed, by simp [not_isCommit_of_not_ends hends],
    fun _ => h.condemned⟩

theorem Admitted.reset (h : Admitted D A s u g ss) (hends : ss.any Statement.ends = true)
    (hdoom : ss.any Statement.isCommit = true → s.occDoomed = false) :
    Asking D A { s with occTouched := [], occDoomed := false, occInFlight := none,
                        occRepair := none } u g ss := by
  refine ⟨⟨rfl, h.awake, by simp, h.running, h.kept, h.numbered⟩, h.failure, h.aborted,
    h.agrees, by simp, fun hc hmem => ?_, by simp [hends]⟩
  exact absurd (h.condemned hmem) (by simp [hdoom hc])

theorem handled_occFailure (hD : Knows D parse) (h : Admitted D A s u g ss)
    (hclosed : (ss.map Statement.kindOf).foldl Kind.plays (T.opened u) = false) :
    Handled D A m u s u g (occFailure D n false ++ [.noteBatchState .query]) [] := by
  refine .act (by simp [sendError]) (by simp [sendError, Backend.isReady]) fun now jobID _ =>
    .act (by simp) (by simp) fun now jobID _ => .act (by simp) (by simp) fun now jobID _ =>
      .act (by simp) (by simp) fun now jobID _ => ?_
  simp only [sendError, Act.exec, List.append_nil, List.nil_append]
  refine .asked (answered_rollback (n := n) hD ⟨rfl, h.awake, by simp, h.running, h.kept,
    h.numbered⟩ h.hidden rfl ?_ (h.agrees.trans hclosed) rfl rfl h.numbered.barred tells_error)
  simp [h.pending]

variable {sql : String} {info : StatementInfo}

theorem single_closes (h : single (parse sql) = true)
    (hends : (statementsOf parse (.query sql)).any Statement.ends = true) (opened : Bool) :
    ((statementsOf parse (.query sql)).map Statement.kindOf).foldl Kind.plays opened = false := by
  by_contra hopen
  rw [single_not_ends h (by simpa using hopen)] at hends
  cases hends

theorem Asking.alike {ss' : List Statement} (h : Asking D A s u g ss)
    (hss : ss.any Statement.turns = false) (hss' : ss'.any Statement.turns = false) :
    Asking D A s u g ss' := by
  have hends := not_ends_of_not_turns hss'
  refine ⟨h.toComposed, h.failure, h.aborted, ?_,
    h.doomed, by simp [not_isCommit_of_not_ends hends], fun _ => ?_⟩
  · rw [h.agrees, Kind.foldl_plays (by rw [List.any_map]; exact hss),
      Kind.foldl_plays (by rw [List.any_map]; exact hss')]
  · exact h.condemned (not_ends_of_not_turns hss)

theorem exists_send (n : Nat) (info : StatementInfo) (hD : KnowsLone D parse)
    (h : Asking D A s u g (statementsOf parse (.query sql))) (hsingle : single (parse sql) = true) :
    ∃ acts sql', send D n (.query sql) info = acts ++ [.writeUpstream (.client n) [.query sql']] ∧
      (∀ a ∈ acts, a.Prepares D) ∧
      acts.countP (· = .beginExchange) = 1 ∧ Asking D A s u g (statementsOf parse (.query sql')) ∧
        single (parse sql') = true ∧ (statementsOf parse (.query sql')).any Statement.ends =
        (statementsOf parse (.query sql)).any Statement.ends ∧
      (statementsOf parse (.query sql')).any Statement.isCommit =
        (statementsOf parse (.query sql)).any Statement.isCommit := by
  unfold send
  dsimp only
  cases hr : D.rewriteSQL sql with
  | none => exact ⟨[.beginExchange], sql, rfl, by simp, rfl, h, hsingle, rfl, rfl⟩
  | some r =>
    have hsingle' := hD.rewrite_single sql r hr
    obtain ⟨hturns, hturns'⟩ := hD.rewrites sql r hr
    have hends := not_ends_of_not_turns hturns
    have hends' := not_ends_of_not_turns hturns'
    have hcommit := (not_isCommit_of_not_ends hends').trans (not_isCommit_of_not_ends hends).symm
    cases hshow : r.showTag with
    | false =>
      exact ⟨[.beginExchange], r.sql, by simp [hshow], by simp, rfl, h.alike hturns hturns',
        hsingle', hends'.trans hends.symm, hcommit⟩
    | true =>
      exact ⟨[.setPendingCommandTag, .beginExchange], r.sql, by simp [hshow], by simp, rfl,
        h.alike hturns hturns', hsingle', hends'.trans hends.symm, hcommit⟩

section Send

variable (pre : List Act) (info) (hD : KnowsLone D parse)
  (h : Asking D A s u g (statementsOf parse (.query sql)))
  (hh : s.hidden = none) (hp : s.pendingExchanges = 0) (hpre : ∀ a ∈ pre, a.Prepares D)
  (hcount : pre.countP (· = .beginExchange) = 0)
  (hc : (statementsOf parse (.query sql)).any Statement.isCommit = D.commits parse m)
    (hsingle : single (parse sql) = true) include hD h hh hp hpre hcount hc hsingle

theorem handled_send :
    Handled D A m u s u g (pre ++ send D n (.query sql) info ++ [.noteBatchState .query]) [] := by
  obtain ⟨acts, sql', hsend, hacts, hone, h', hsingle', -, hc'⟩ := exists_send n info hD h hsingle
  have hall : ∀ a ∈ pre ++ acts, a.Prepares D := fun a ha => (List.mem_append.1 ha).elim
    (hpre a) (hacts a)
  rw [hsend, ← List.append_assoc, List.append_assoc (pre ++ acts)]
  exact handled_ask _ hD h' hh hp hall (by rw [List.countP_append, hcount, hone])
    (hc'.trans hc) hsingle'

theorem handled_saved (hends : (statementsOf parse (.query sql)).any Statement.ends = false) :
    Handled D A m u s u g
      (.savepointReady none :: (pre ++ send D n (.query sql) info ++ [.noteBatchState .query]))
      [] := by
  obtain ⟨acts, sql', hsend, hacts, hone, h', hsingle', hends', hc'⟩ :=
    exists_send n info hD h hsingle
  have hall : ∀ a ∈ pre ++ acts, a.Prepares D := fun a ha => (List.mem_append.1 ha).elim
    (hpre a) (hacts a)
  rw [hsend, ← List.append_assoc, List.append_assoc (pre ++ acts)]
  exact handled_save hD h' hh hp hall (by rw [List.countP_append, hcount, hone])
    (hends'.trans hends) (hc'.trans hc) hsingle'

end Send

theorem handled_reset (hD : KnowsLone D parse)
    (h : Admitted D A s u g (statementsOf parse (.query sql)))
    (hends : (statementsOf parse (.query sql)).any Statement.ends = true)
    (hdoom : (statementsOf parse (.query sql)).any Statement.isCommit = true → s.occDoomed = false)
    (hc : (statementsOf parse (.query sql)).any Statement.isCommit = D.commits parse m)
    (hsingle : single (parse sql) = true) :
    Handled D A m u s u g (.resetOcc :: (send D n (.query sql) info ++ [.noteBatchState .query]))
      [] := by
  refine .act (by simp) (by simp) fun now jobID _ => ?_
  exact handled_send info [] hD (h.reset hends hdoom) h.hidden h.pending (by simp) rfl hc hsingle

theorem handled_commit (hD : KnowsLone D parse)
    (h : Admitted D A s u g (statementsOf parse (.query sql)))
    (hends : (statementsOf parse (.query sql)).any Statement.ends = true)
    (hc : (statementsOf parse (.query sql)).any Statement.isCommit = D.commits parse m)
    (hsingle : single (parse sql) = true) :
    Handled D A m u s u g [.occAdjudicated n (.query sql) info, .noteBatchState .query] [] := by
  have hclosed := single_closes hsingle hends (T.opened u)
  cases hdoom : s.occDoomed with
  | true =>
    refine .act (by simp [hdoom]) (by simp [hdoom]) fun now jobID _ => ?_
    simp only [Act.exec, hdoom, if_true]
    exact handled_occFailure hD.toKnows h hclosed
  | false =>
    by_cases hinject : D.occ.inject = []
    · refine .act (by simp [hdoom, hinject]) (by simp [hdoom, hinject]) fun now jobID _ => ?_
      simp only [Act.exec, hdoom, hinject, Bool.false_eq_true, if_false, if_true, List.append_nil]
      exact handled_reset hD h hends (fun _ => hdoom) hc hsingle
    · refine .act (by simp [hdoom, hinject]) (by simp [hdoom, hinject]) fun now jobID _ => ?_
      simp only [Act.exec, hdoom, hinject, Bool.false_eq_true, if_false, List.append_nil]
      refine .act (by simp) (by simp) fun now jobID _ => ?_
      simp only [Act.exec, List.append_nil]
      have h' : Admitted D A
        { s with occCommits := (occCommitConflict s.occTouched D.occ.inject 0 s.occCommits).1 } u g
          (statementsOf parse (.query sql)) :=
        ⟨⟨h.repair, h.awake, h.inFlight, h.running, h.kept, h.numbered⟩, h.hidden, h.failure,
          h.pending, h.aborted, h.agrees, h.doomed, h.condemned⟩
      cases hconflict : (occCommitConflict s.occTouched D.occ.inject 0 s.occCommits).2 with
      | true => exact handled_occFailure hD.toKnows h' hclosed
      | false => exact handled_reset hD h' hends (fun _ => hdoom) hc hsingle

theorem handled_counted {kinds : List Kind} {tables : List String} {rest : List Act}
    (h : ∀ occTouched occTxnStatements, Handled D A m u { s with occTouched, occTxnStatements } u
      g rest []) : Handled D A m u s u g
      ((if tables = [] then [] else [.addOccTables tables]) ++ .countTxnStatement kinds :: rest)
        [] := by
  have hcount (occTouched : List String) : Handled D A m u { s with occTouched } u g
      (.countTxnStatement kinds :: rest) [] := by
    refine .act ?_ ?_ fun now jobID _ => ?_
    · intro now jobID _
      dsimp only [Act.exec]
      split <;> rfl
    · intro now jobID _
      dsimp only [Act.exec]
      split <;> simp
    · dsimp only [Act.exec]
      split
      · exact h occTouched 0
      · exact h occTouched (s.occTxnStatements + 1)
  split
  · exact hcount s.occTouched
  · refine .act (by simp) (by simp) fun now jobID _ => ?_
    exact hcount (tables ++ s.occTouched)

theorem handled_admitted (hD : KnowsLone D parse)
    (h : Admitted D A s u g (statementsOf parse (.query sql)))
    (hkinds : info.kinds = (statementsOf parse (.query sql)).map Statement.kindOf)
    (hintent : ∀ i ∈ info.intent, D.Shadows i)
    (hc : (statementsOf parse (.query sql)).any Statement.isCommit = D.commits parse m)
    (hsingle : single (parse sql) = true) :
    Handled D A m u s u g (admitted D s n (.query sql) info ++ [.noteBatchState .query]) [] := by
  unfold admitted
  rw [List.append_assoc, List.cons_append]
  refine handled_counted fun occTouched occTxnStatements => ?_
  have h' : Admitted D A { s with occTouched, occTxnStatements } u g
      (statementsOf parse (.query sql)) :=
    ⟨⟨h.repair, h.awake, h.inFlight, h.running, h.kept, h.numbered⟩, h.hidden, h.failure, h.pending,
      h.aborted, h.agrees, h.doomed, h.condemned⟩
  rw [hkinds, Statement.endsTransaction_map, Statement.isCommit_map]
  cases hends : (statementsOf parse (.query sql)).any Statement.ends with
  | true =>
    rw [if_pos rfl]
    cases hcommit : (statementsOf parse (.query sql)).any Statement.isCommit with
    | true => exact handled_commit hD h' hends hc hsingle
    | false => exact handled_reset hD h' hends (by simp [hcommit]) hc hsingle
  | false =>
    have hasking := h'.asking hends
    rw [if_neg Bool.false_ne_true]
    cases ht : s.tracker.inTxn with
    | false => exact handled_send info [] hD hasking h.hidden h.pending (by simp) rfl hc hsingle
    | true =>
      rw [if_pos rfl]
      cases hi : info.intent with
      | none =>
        exact handled_send info [.setInFlight n none none] hD hasking h.hidden h.pending
          (by simp) rfl hc hsingle
      | some i =>
        refine handled_saved info [.setInFlight n (some i) none] hD hasking h.hidden h.pending ?_
          rfl hc hsingle hends
        simpa using hintent i hi

section Query

variable {kinds : List Kind} {t : Tracker} {now statement : Nat} {rewritten : String}

theorem Rest.tracked (h : Rest D A s u g) (ht : t.inTxn = s.tracker.inTxn) :
    Rest D A { s with tracker := t } u g :=
  ⟨⟨h.repair, h.awake, h.inFlight, h.running, h.kept, h.numbered⟩, h.hidden, h.failure, h.pending,
    ht.trans h.agrees, h.aborted, h.doomed, h.condemned⟩

theorem Rest.admitted (h : Rest D A s u g) (ha : s.txnAborted = false)
    (hruling : s.tracker.admitKinds kinds now = (t, none))
    (hkinds : Kind.Alike (ss.map Statement.kindOf) kinds) :
    Admitted D A { s with tracker := t } u g ss := by
  refine ⟨⟨h.repair, h.awake, h.inFlight, h.running, h.kept, h.numbered⟩, h.hidden, h.failure,
    h.pending, ha, ?_, h.doomed, fun hmem => ?_⟩
  · rw [hkinds, ← h.agrees]
    exact admitKinds_plays hruling
  · simpa [ha] using h.condemned hmem

theorem handled_admitKinds (hD : KnowsLone D parse) (h : Rest D A s u g) (ha : s.txnAborted = false)
    (hkinds : info.kinds = (statementsOf parse (.query sql)).map Statement.kindOf)
    (hintent : ∀ i ∈ info.intent, D.Shadows i)
    (hc : (statementsOf parse (.query sql)).any Statement.isCommit = D.commits parse m)
    (hsingle : single (parse sql) = true) :
    Handled D A m u s u g [.admitKinds n (.query sql) info, .noteBatchState .query] [] := by
  refine .act ?_ ?_ fun now jobID _ => ?_
  · intro now jobID _
    dsimp only [Act.exec]
    split <;> rfl
  · intro now jobID _
    dsimp only [Act.exec]
    split <;> simp
  · cases hruling : s.tracker.admitKinds info.kinds now with
    | mk t v =>
      simp only [Act.exec, hruling]
      cases v with
      | some v =>
        exact handled_reject hD.toKnows (h.tracked (admitKinds_inTxn hruling (.inl (by simp))))
      | none =>
        exact handled_admitted hD (h.admitted ha hruling (hkinds ▸ .refl _)) hkinds
          hintent hc hsingle

theorem handled_admitAsync (hD : KnowsLone D parse) (h : Rest D A s u g) (ha : s.txnAborted = false)
    (hasync : D.stripAsync sql = some (rewritten, statement))
    (hkinds : Kind.Alike (kindsOf parse (.query rewritten)) kinds)
    (hturns : turns parse (.query rewritten) = false) (hc : D.commits parse m = false)
    (hsingle : single (parse rewritten) = true) :
    Handled D A m u s u g [.admitAsync n rewritten statement kinds, .noteBatchState .query] [] := by
  refine .act ?_ ?_ fun now jobID hname => ?_
  · intro now jobID _
    dsimp only [Act.exec]
    split <;> rfl
  · intro now jobID _
    dsimp only [Act.exec]
    split <;> simp
  · cases hruling : s.tracker.admitKinds kinds now with
    | mk t v =>
      simp only [Act.exec, hruling]
      cases v with
      | some v =>
        exact handled_reject hD.toKnows (h.tracked (admitKinds_inTxn hruling (.inl (by simp))))
      | none =>
        refine .act (by simp) (by simp) fun now' jobID' _ => ?_
        have hmarked : parse (jobMarker jobID ++ rewritten) = parse rewritten :=
          hD.marked sql rewritten statement jobID hasync hname
        have hss : statementsOf parse (.query (jobMarker jobID ++ rewritten)) =
            statementsOf parse (.query rewritten) := by
          simp only [statementsOf, hmarked]
        have hends := not_ends_of_not_turns hturns
        have hasking := ((h.admitted ha hruling hkinds).asking hends).relayed
          (some { jobID, precedingTags := statement }) s.pendingCommandTag
        refine handled_ask [.beginExchange] hD (hss ▸ hasking) h.hidden h.pending (by simp) rfl ?_
          (hmarked ▸ hsingle)
        rw [hss, not_isCommit_of_not_ends hends, hc]

theorem handled_endAborted (hD : KnowsLone D parse) (h : Rest D A s u g) (ha : s.txnAborted = true)
    (hends : (statementsOf parse (.query sql)).any Statement.ends = true)
    (hc : (statementsOf parse (.query sql)).any Statement.isCommit = D.commits parse m)
    (hsingle : single (parse sql) = true) :
    Handled D A m u s u g (endAborted ++ forward n (.query sql) ++ [.noteBatchState .query])
      [] := by
  refine .act (by simp) (by simp) fun now jobID _ => .act (by simp) (by simp) fun now jobID _ =>
    .act (by simp) (by simp) fun now jobID _ => ?_
  simp only [Act.exec, List.append_nil, List.nil_append]
  refine handled_ask [.beginExchange] hD ?_ h.hidden h.pending (by simp) rfl hc hsingle
  refine ⟨⟨rfl, rfl, by simp, h.running, h.kept, h.numbered⟩, h.failure, rfl, ?_, by simp,
    fun _ _ => h.aborted ha, by simp [hends]⟩
  rw [single_closes hsingle hends]
  exact admitKinds_plays (s.tracker.admitKinds_rollback now)

theorem handled_plain (hD : KnowsLone D parse) (h : Rest D A s u g)
    (hasync : D.stripAsync sql = none) (jobID : String) (hsingle : single (parse sql) = true) :
    Handled D A (.query sql) u (handleQuery D jobID s n sql).sess u g
      ((handleQuery D jobID s n sql).next ++ [.noteBatchState .query]) [] := by
  have htext : D.text sql = sql := by rw [Dialect.text, hasync]; rfl
  have hc : (statementsOf parse (.query sql)).any Statement.isCommit =
    D.commits parse (.query sql) := by rw [Dialect.commits, htext]
  simp only [handleQuery, hasync]
  cases ha : s.txnAborted with
  | true =>
    cases hclass : D.classify false sql with
    | accepted kinds tables =>
      obtain ⟨ss, hss, rfl, -⟩ := hD.reads.accepted false sql kinds tables hclass
      have hstatements : statementsOf parse (.query sql) = ss := by simp [statementsOf, hss]
      simp only [if_true, Classification.kinds, Statement.endsTransaction_map]
      cases hends : ss.any Statement.ends with
      | true => exact handled_endAborted hD h ha (hstatements ▸ hends) hc hsingle
      | false => exact handled_rejectFailed h ha
    | _ => exact handled_rejectFailed h ha
  | false =>
    simp only [Bool.false_eq_true, if_false]
    cases hclass : D.classify false sql with
    | unparsed =>
      have hnone := hD.reads.unparsed false sql hclass
      have hstatements : statementsOf parse (.query sql) = [] := by simp [statementsOf, hnone]
      refine handled_ask [.beginExchange] hD ?_ h.hidden h.pending (by simp) rfl hc hsingle
      rw [hstatements]
      exact ⟨h.toComposed, h.failure, ha, h.agrees, h.doomed, by simp,
        fun _ hmem => by simpa [ha] using h.condemned hmem⟩
    | rejected v => exact handled_reject hD.toKnows h
    | accepted kinds tables =>
      obtain ⟨ss, hss, rfl, -⟩ := hD.reads.accepted false sql kinds tables hclass
      refine handled_admitKinds hD h ha ?_ (fun i hi => ⟨sql, hi⟩) hc hsingle
      simp [statementsOf, hss]

theorem handled_async (hD : KnowsLone D parse) (h : Rest D A s u g)
    (hasync : D.stripAsync sql = some (rewritten, statement)) (jobID : String)
    (hturns : turns parse (.query rewritten) = false) (hsingle : single (parse rewritten) = true) :
    Handled D A (.query sql) u (handleQuery D jobID s n sql).sess u g
      ((handleQuery D jobID s n sql).next ++ [.noteBatchState .query]) [] := by
  have htext : D.text sql = rewritten := by rw [Dialect.text, hasync]; rfl
  have hc : D.commits parse (.query sql) = false := by
    rw [Dialect.commits, htext]
    exact not_isCommit_of_not_ends (not_ends_of_not_turns hturns)
  simp only [handleQuery, hasync]
  cases ha : s.txnAborted with
  | true => exact handled_rejectFailed h ha
  | false =>
    have hadmit (kinds : List Kind) (hkinds : (D.classify true rewritten).asyncKinds =
        some kinds) :=
      handled_admitAsync (n := n) hD h ha hasync (asyncKinds_alike hD.toKnows hkinds)
        hturns hc hsingle
    simp only [Bool.false_eq_true, if_false, forwardAsyncJob]
    cases hclass : D.classify true rewritten with
    | unparsed => exact hadmit _ (by rw [hclass]; rfl)
    | rejected v => exact handled_reject hD.toKnows h
    | accepted kinds tables => exact hadmit _ (by rw [hclass]; rfl)

theorem handled_query (n : Nat) (hD : KnowsLone D parse) (h : Rest D A s u g)
    (hm : Lone D parse m) : Handled D A m u s u g (pumpFrontend n m) [] := by
  cases m with
  | query sql =>
    refine .act (by simp [h.awake, dispatch]) (by simp [h.awake, dispatch]) fun now jobID _ => ?_
    simp only [Act.exec, h.awake, dispatch, Bool.false_eq_true, if_false, List.append_nil,
      List.singleton_append]
    have hquiet (jobID : String) : (handleQuery D jobID s n sql).up = [] ∧
        (handleQuery D jobID s n sql).client = [] := by
      have hquiet : Quiet s (handleQuery D jobID s n sql) := handleQuery_quiet n sql
      obtain ⟨_, _, heq⟩ := hquiet
      simp [heq]
    refine .act (fun _ jobID _ => (hquiet jobID).1) (fun _ jobID _ => ?_) fun now jobID _ => ?_
    · simp only [Act.exec, (hquiet jobID).2, List.not_mem_nil, false_imp_iff, implies_true]
    · simp only [Act.exec, (hquiet jobID).2, List.append_nil]
      obtain ⟨hsingle, hturns⟩ := hm
      cases hasync : D.stripAsync sql with
      | none =>
        exact handled_plain hD h hasync jobID (by simpa [Dialect.text, hasync] using hsingle)
      | some r =>
        have htext : D.text sql = r.1 := by rw [Dialect.text, hasync]; rfl
        rw [htext] at hsingle hturns
        exact handled_async hD h hasync jobID (hturns (by rw [hasync]; rfl)) hsingle
  | _ => cases hm

end Query

end Handling

end DsqlEmulator.Proxy
