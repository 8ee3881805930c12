import DsqlEmulator.Proxy.Intents
import DsqlEmulator.Table

/-! The statements the upstream holds prepared, and the ones it would hold had it
been sent the client's messages only.  What the emulator writes of its own reaches
the unnamed statement and no other. -/

namespace DsqlEmulator.Proxy

open Wire Occ Txn Runs Table

variable {U : Upstream} {D : Dialect}

/-- The statements a backend prepares and drops as it answers.  `Parse` and `Close`
do what they report; a `Parse` that fails may have dropped the unnamed statement
first, and a simple query always drops it. -/
structure Prepares (U : Upstream) where
  changes : U.State → Frontend → U.Choice → List (String × Option String)
  parse : ∀ st name sql c, .parseComplete ∈ (U.answer st (.parse name sql) c).2 →
    changes st (.parse name sql) c = [(name, some sql)]
  unparsed : ∀ st name sql c, .parseComplete ∉ (U.answer st (.parse name sql) c).2 →
    ∀ x ∈ changes st (.parse name sql) c, name = "" ∧ x = ("", none)
  close : ∀ st name c, .closeComplete ∈ (U.answer st (.close true name) c).2 →
    changes st (.close true name) c = [(name, none)]
  unclosed : ∀ st name c, .closeComplete ∉ (U.answer st (.close true name) c).2 →
    changes st (.close true name) c = []
  query : ∀ st sql c, assign (fun _ => some sql) (changes st (.query sql) c) "" = none

def Prepares.Only (P : Prepares U) : U.State → List Frontend → Prop
  | _, [] => True
  | st, m :: ms => ∀ c, (∀ x ∈ P.changes st m c, x.1 = "") ∧ P.Only (U.answer st m c).1 ms

def controls : List Frontend :=
  [savepointQuery, rollbackToQuery, restartQuery, abortTransactionQuery, rollbackQuery]

def Dialect.Shadows (D : Dialect) (i : Intent) : Prop := ∃ sql, D.analyze sql = some i

inductive OwnWrite (D : Dialect) : List Frontend → Prop
  | control {m} : m ∈ controls → OwnWrite D [m]
  | simple {i} : D.Shadows i → OwnWrite D [.query i.shadow]
  | extended {i vs fs rs} : D.Shadows i → OwnWrite D (extendedQuery i.shadow vs fs rs)

/-- Neither transaction control nor a `SELECT` prepares or drops a statement. -/
def Prepares.Spares (P : Prepares U) (D : Dialect) : Prop :=
  ∀ ms, OwnWrite D ms → ∀ st, P.Only st ms

structure Prepared where
  origin : Origin
  text : String
  deriving DecidableEq, Repr

structure Binding where
  number : Nat
  name : String
  held : Option Prepared
  mine : Option Prepared
  deriving DecidableEq, Repr

/-- `held` are the statements the upstream holds; `mine` those it would hold had it
been sent the client's messages only, with the same success; `touched` says that the
emulator has reached the unnamed statement since the client last did. -/
structure Ledger where
  held : String → Option Prepared := fun _ => none
  mine : String → Option Prepared := fun _ => none
  touched : Bool := false
  bindings : List Binding := []

def Ledger.binding (g : Ledger) : Request → Option Binding
  | ⟨.client n, .bind b⟩ => some ⟨n, b.statement, g.held b.statement, g.mine b.statement⟩
  | _ => none

def Request.assigns (q : Request) (cs : List (String × Option String)) :
    List (String × Option Prepared) :=
  cs.map fun x => (x.1, x.2.map (Prepared.mk q.origin))

def Ledger.take (g : Ledger) (q : Request) (cs : List (String × Option String)) : Ledger where
  held := assign g.held (q.assigns cs)
  mine := if q.origin.isClient then assign g.mine (q.assigns cs) else g.mine
  touched := if cs.any (·.1 = "") then !q.origin.isClient else g.touched
  bindings := g.bindings ++ (g.binding q).toList

def Ledger.note (P : Prepares U) (l : Label U) (w : World U) (g : Ledger) : Ledger :=
  match l, w.toUp with
  | .answer c, q :: _ => g.take q (P.changes w.up q.msg c)
  | _, _ => g

def Label.taken (w : World U) : Label U → Option Request
  | .answer _ => w.toUp.head?
  | _ => none

/-- The client binds the unnamed statement only if the emulator has not reached it
since the client last did. -/
def Undisturbed (l : Label U) (w : World U × Ledger) : Prop :=
  ∀ q ∈ l.taken w.1, ∀ b ∈ w.2.binding q, b.name = "" → w.2.touched = false

instance (l : Label U) (w : World U × Ledger) : Decidable (Undisturbed l w) :=
  inferInstanceAs (Decidable (∀ q ∈ l.taken w.1, ∀ b ∈ w.2.binding q, _ → _))

def Exchange.repair : Exchange → Option InFlight
  | .savepoint _ => none
  | .restore repair _ => some repair
  | .count repair _ _ => some repair
  | .rowset repair _ => some repair

structure Session.Shadowed (D : Dialect) (s : Session) : Prop where
  statements : ∀ name, ∀ info ∈ s.statements name, ∀ i ∈ info.intent, D.Shadows i
  inFlight : ∀ f ∈ s.occInFlight, D.Shadows f.intent
  repair : ∀ f ∈ s.occRepair, D.Shadows f.intent
  hidden : ∀ h ∈ s.hidden, ∀ f ∈ h.exchange.repair, D.Shadows f.intent

@[simp] def Act.Shadowed (D : Dialect) : Act → Prop
  | .writeUpstream (.client _) _ => True
  | .writeUpstream (.hidden _ _) ms => OwnWrite D ms
  | .writeUpstream (.failure _) ms => OwnWrite D ms
  | .setHidden x ms => (∀ f ∈ x.repair, D.Shadows f.intent) ∧ OwnWrite D ms
  | .clearHidden h => ∀ f ∈ h.exchange.repair, D.Shadows f.intent
  | .chooseRestore repair => D.Shadows repair.intent
  | .admitKinds _ _ info => ∀ i ∈ info.intent, D.Shadows i
  | .occAdjudicated _ _ info => ∀ i ∈ info.intent, D.Shadows i
  | .occCommitConflict _ _ info => ∀ i ∈ info.intent, D.Shadows i
  | .setInFlight _ intent _ => ∀ i ∈ intent, D.Shadows i
  | _ => True

section Shadowed

variable {s : Session} {n : Nat} {m : Frontend} {now : Nat} {jobID : String} {a b : Act}
  {rest : List Act}

theorem remembers_shadowed {sql : String} {info : Option StatementInfo} {text : Option String}
    (h : Remembers D jobID s sql info text) : ∀ x ∈ info, ∀ i ∈ x.intent, D.Shadows i := by
  cases h with
  | parsed => simpa using fun i hi => ⟨sql, hi⟩
  | _ => simp

theorem note_repair (x : Exchange) (m : Backend) : (x.note m).repair = x.repair := by
  cases x <;> cases m <;> rfl

theorem update_shadowed {name : String} {info : Option StatementInfo} (hs : s.Shadowed D)
    (h : ∀ x ∈ info, ∀ i ∈ x.intent, D.Shadows i) :
    ∀ name', ∀ x ∈ Function.update s.statements name info name', ∀ i ∈ x.intent, D.Shadows i := by
  intro name'
  by_cases hname : name' = name
  · subst hname
    rwa [Function.update_self]
  · rw [Function.update_of_ne hname]
    exact hs.statements name'

theorem exec_statements_shadowed (hs : s.Shadowed D) :
    ∀ name, ∀ info ∈ (a.exec D now jobID s).sess.statements name, ∀ i ∈ info.intent,
      D.Shadows i := by
  rcases exec_remembers (D := D) (s := s) a now jobID with heq | ⟨k, name, sql, rfl⟩ |
    ⟨k, name, rfl, heq, -⟩
  · rw [heq]
    exact hs.statements
  · rcases handleParse_remembers (D := D) (s := s) jobID k name sql with ⟨heq, -⟩ |
      ⟨info, text, hr, heq, -⟩
    · exact heq ▸ hs.statements
    · exact heq ▸ update_shadowed hs (remembers_shadowed hr)
  · rw [heq]
    exact update_shadowed hs (by simp)

theorem exec_inFlight_shadowed (hs : s.Shadowed D) (h : a.Shadowed D) :
    ∀ f ∈ (a.exec D now jobID s).sess.occInFlight, D.Shadows f.intent := by
  intro f hf
  by_cases hset : ∃ k i b, a = .setInFlight k i b
  · obtain ⟨k, i, b, rfl⟩ := hset
    obtain ⟨intent, rfl, hintent⟩ := Option.bind_eq_some_iff.1 hf
    have hshadows : D.Shadows intent := h intent rfl
    split at hintent
    · split at hintent <;> cases hintent
      exact hshadows
    · cases hintent
      exact hshadows
  · rcases exec_occInFlight fun k i b ha => hset ⟨k, i, b, ha⟩ with heq | heq
    · exact hs.inFlight f (heq ▸ hf)
    · cases heq.symm.trans hf

theorem exec_sess_shadowed (hs : s.Shadowed D) (h : a.Shadowed D) :
    (a.exec D now jobID s).sess.Shadowed D := by
  refine ⟨exec_statements_shadowed hs, exec_inFlight_shadowed hs h, ?_, ?_⟩
  · cases a with
    | aborted n m => obtain ⟨_, _, h⟩ := exec_aborted_quiet n m; rw [h]; exact hs.repair
    | droppingUntilSync n m =>
      obtain ⟨_, _, h⟩ := exec_droppingUntilSync_quiet n m; rw [h]; exact hs.repair
    | resetOcc => simp
    | occIntercept o e inTxn =>
      dsimp only [Act.exec]
      split
      · exact hs.inFlight
      · exact hs.repair
    | startRepair o st =>
      dsimp only [Act.exec]
      split
      · simp
      · exact hs.repair
    | _ => dsimp only [Act.exec]; (repeat' split) <;> exact hs.repair
  · cases a with
    | setHidden x ms => simpa using h.1
    | consumeHidden r =>
      dsimp only [Act.exec]
      split
      · exact hs.hidden
      next x hx =>
        split
        · exact hs.hidden
        · simpa [note_repair] using hs.hidden x hx
    | clearHidden x => simp
    | _ =>
      rw [exec_hidden rfl]
      exact hs.hidden

theorem admitted_recording {info : StatementInfo} (hb : b ∈ admitted D s n m info)
    (hr : b.recording ≠ none) : b = .setInFlight n info.intent (Frontend.bind? m) := by
  have hsend (h : b ∈ send D n m info) : b = .setInFlight n info.intent (Frontend.bind? m) :=
    absurd (send_recording b h) hr
  simp only [admitted, List.mem_append, List.mem_cons] at hb
  rcases hb with hb | rfl | hb
  · split at hb
    · cases hb
    · cases List.mem_singleton.1 hb
      exact absurd rfl hr
  · exact absurd rfl hr
  · split at hb
    · split at hb
      · cases List.mem_singleton.1 hb
        exact absurd rfl hr
      · rcases List.mem_cons.1 hb with rfl | hb
        · exact absurd rfl hr
        · exact hsend hb
    · split at hb
      · rcases List.mem_append.1 hb with hb | hb
        · unfold armAdjudicator at hb
          split at hb
          · cases List.mem_singleton.1 hb
            exact absurd rfl hr
          next i hi =>
            simp only [List.mem_cons, List.not_mem_nil, or_false] at hb
            rcases hb with rfl | rfl
            · exact absurd rfl hr
            · rw [hi]
        · exact hsend hb
      · exact hsend hb

theorem Hands.shadowed (hs : s.Shadowed D) (h : a.Shadowed D) (hands : Hands D now jobID s n a b) :
    b.Shadowed D := by
  cases hands with
  | @classified sql => exact fun i hi => ⟨sql, hi⟩
  | @bind b info hinfo => exact hs.statements b.statement info hinfo
  | commits => exact h
  | injecting => exact h
  | _ => trivial

theorem frontAct_shadowed (hb : FrontAct n m b) (hf : b.forwards = false)
    (hr : b.recording = none) : b.Shadowed D := by
  have hcontrol {x : Frontend} (hx : x ∈ controls) : OwnWrite D [x] := .control hx
  cases hb with
  | code hb =>
    cases b with
    | setHidden x ms =>
      obtain ⟨rfl, rfl⟩ := hb
      exact ⟨by simp [Exchange.repair], hcontrol (by simp [controls])⟩
    | setInFlight k i bind =>
      cases i with
      | none => simp
      | some i => cases hr
    | writeUpstream o ms =>
      cases o with
      | client k => trivial
      | _ => exact hb.elim
    | _ => trivial
  | savepoint => exact hcontrol (by simp [controls])
  | abort => exact hcontrol (by simp [controls])
  | rollback => exact hcontrol (by simp [controls])

theorem exec_front_shadowed (hp : s.PendingInjected) (hs : s.Shadowed D) (ha : FrontAct n m a)
    (h : a.Shadowed D) : ∀ b ∈ (a.exec D now jobID s).next, b.Shadowed D := by
  intro b hb
  cases hf : b.forwards with
  | true => exact (hands_of_exec ha hb hf).shadowed hs h
  | false =>
    by_cases hr : b.recording = none
    · exact frontAct_shadowed (exec_front hp ha b hb) hf hr
    · obtain ⟨k, m', info, rfl⟩ : ∃ k m' info, a = .admitKinds k m' info := by
        by_contra hne
        exact hr (exec_recording ha (fun k m' info ha => hne ⟨k, m', info, ha⟩) b hb)
      dsimp only [Act.exec] at hb
      split at hb
      · exact absurd (reject_recording b hb) hr
      · rw [admitted_recording hb hr]
        exact h

theorem relayCode_shadowed {o : Origin} (h : RelayCode o b) : b.Shadowed D := by
  cases b with
  | writeUpstream o ms => exact h.elim
  | _ => trivial

theorem failRepair_shadowed : ∀ b ∈ failRepair D n, b.Shadowed D := by
  simp [failRepair]

theorem runShadow_shadowed {repair : InFlight} (h : D.Shadows repair.intent) :
    ∀ b ∈ runShadow D repair, b.Shadowed D := by
  have hself : ∀ f ∈ some repair, D.Shadows f.intent := by simpa using h
  unfold runShadow
  split
  · simp [completeRepair]
  · split
    · unfold runRowsetShadow
      split
      · exact failRepair_shadowed
      · refine List.forall_mem_singleton.2 ⟨hself, ?_⟩
        split
        · exact .extended h
        · exact .simple h
    · unfold runCountShadow
      split
      · exact failRepair_shadowed
      · refine List.forall_mem_singleton.2 ⟨hself, ?_⟩
        split
        · exact .simple h
        · exact .extended h

theorem finish_shadowed {x : Exchange} (h : ∀ f ∈ x.repair, D.Shadows f.intent) :
    ∀ b ∈ x.finish D, b.Shadowed D := by
  cases x with
  | savepoint failed => cases failed <;> simp [Exchange.finish]
  | restore repair failed =>
    cases failed
    · exact runShadow_shadowed (h repair rfl)
    · exact failRepair_shadowed
  | count repair rows failed =>
    cases failed
    · simp [Exchange.finish, completeRepair]
    · exact failRepair_shadowed
  | rowset repair failed =>
    cases failed
    · simp [Exchange.finish]
    · exact failRepair_shadowed

theorem relay_shadowed (r : Reply) : ∀ b ∈ relay D r, b.Shadowed D := by
  unfold relay
  dsimp only
  (repeat' split) <;> simp

theorem exec_mode_shadowed (hs : s.Shadowed D) (hb : BackMode (a :: rest)) (h : a.Shadowed D) :
    ∀ b ∈ (a.exec D now jobID s).next, b.Shadowed D := by
  cases hb with
  | offering =>
    dsimp only [Act.exec]
    split
    · simp
    next x hx =>
      split
      · simpa using hs.hidden x hx
      · dsimp only
        split <;> simp
  | @checking r =>
    dsimp only [Act.exec]
    split
    · dsimp only
      split <;> simp
    · split
      · exact relay_shadowed r
      · simp
  | @pending r =>
    dsimp only [Act.exec]
    split
    · simp
    · exact relay_shadowed r
  | failing =>
    dsimp only [Act.exec]
    split
    · split <;> simp
    · simp
  | ending => exact finish_shadowed h
  | starting =>
    dsimp only [Act.exec]
    split
    next repair hrepair => simpa using hs.repair repair hrepair
    next => simp
  | restoring =>
    refine List.forall_mem_singleton.2 ⟨by simpa [Exchange.repair] using h, .control ?_⟩
    split <;> simp [controls]
  | relaying hl => exact fun b hb => relayCode_shadowed (exec_relay (hl a List.mem_cons_self) b hb)
  | repairing hl =>
    cases hl a List.mem_cons_self with
    | code hcode =>
      cases a with
      | beginFailure k f =>
        cases hcode
        have habort : OwnWrite D [abortTransactionQuery] := .control (by simp [controls])
        intro b hb
        simp only [Act.exec, List.mem_cons, List.not_mem_nil, or_false] at hb
        rcases hb with rfl | rfl
        · trivial
        · exact habort
      | setHidden x ms => simpa using h.2
      | _ => first | exact hcode.elim | simp
    | _ => simp
  | _ => simp

end Shadowed

/-- A line of requests: the client's one by one, the emulator's as it wrote them. -/
inductive Whole (D : Dialect) : List Request → Prop
  | nil : Whole D []
  | client {n m qs} : Whole D qs → Whole D (⟨.client n, m⟩ :: qs)
  | own {o ms qs} : o.isClient = false → OwnWrite D ms → Whole D qs →
      Whole D (ms.map (Request.mk o) ++ qs)

theorem Whole.append {l r : List Request} (hl : Whole D l) (hr : Whole D r) : Whole D (l ++ r) := by
  induction hl with
  | nil => exact hr
  | client _ ih => exact .client ih
  | own ho hms _ ih =>
    rw [List.append_assoc]
    exact .own ho hms ih

theorem whole_client (n : Nat) (ms : List Frontend) :
    Whole D (ms.map (Request.mk (.client n))) := by
  induction ms with
  | nil => exact .nil
  | cons m ms ih => exact .client ih

theorem exec_up_whole {s : Session} {now : Nat} {jobID : String} {a : Act} (h : a.Shadowed D) :
    Whole D (a.exec D now jobID s).up := by
  by_cases ha : ∃ o ms, a = .writeUpstream o ms
  · obtain ⟨o, ms, rfl⟩ := ha
    have hown (ho : o.isClient = false) (hms : OwnWrite D ms) : Whole D
        (ms.map (Request.mk o)) := by
      simpa using Whole.own ho hms .nil
    cases o with
    | client n => exact whole_client n ms
    | hidden p k => exact hown rfl h
    | failure k => exact hown rfl h
  · rw [exec_up fun o ms h => ha ⟨o, ms, h⟩]
    exact .nil

def Waits (P : Prepares U) (D : Dialect) (st : U.State) (l : List Request) : Prop :=
  ∃ o ms qs, l = ms.map (Request.mk o) ++ qs ∧ o.isClient = false ∧ P.Only st ms ∧ Whole D qs

structure Sourced (D : Dialect) (w : World U) : Prop where
  sess : w.sess.Shadowed D
  front : ∀ a ∈ w.front, a.Shadowed D
  back : ∀ a ∈ w.back, a.Shadowed D

section Sourced

variable {w w' : World U}

theorem pumpFrontend_shadowed {n : Nat} {m : Frontend} : ∀ a ∈ pumpFrontend n m, a.Shadowed D := by
  unfold pumpFrontend
  split <;> simp

theorem pumpBackend_shadowed {r : Reply} : ∀ a ∈ pumpBackend r, a.Shadowed D := by
  intro a ha
  rcases mem_pumpBackend ha with rfl | rfl <;> trivial

theorem Sourced.start : Sourced D (World.start D U) where
  sess := by constructor <;> simp [World.start, Session.new]
  front := by simp [World.start]
  back := by simp [World.start]

theorem Sourced.moves {l : Label U} (h : Sourced D w) (ht : Threads w) (hm : Moves D l w w') :
    Sourced D w' := by
  have happend {next l : List Act} (hnext : ∀ a ∈ next, a.Shadowed D) (hl : ∀ a ∈ l, a.Shadowed D) :
      ∀ a ∈ next ++ l, a.Shadowed D :=
    fun a ha => (List.mem_append.1 ha).elim (hnext a) (hl a)
  cases hm with
  | send => exact ⟨h.sess, h.front, h.back⟩
  | readClient => exact ⟨h.sess, pumpFrontend_shadowed, h.back⟩
  | readUpstream => exact ⟨h.sess, h.front, pumpBackend_shadowed⟩
  | front hf =>
    obtain ⟨m, -, ha⟩ := ht.head hf
    have hfront := h.front
    rw [hf, List.forall_mem_cons] at hfront
    exact ⟨exec_sess_shadowed h.sess hfront.1,
      happend (exec_front_shadowed ht.pending h.sess ha hfront.1) hfront.2, h.back⟩
  | back hb =>
    have hback := h.back
    rw [hb, List.forall_mem_cons] at hback
    exact ⟨exec_sess_shadowed h.sess hback.1, h.front,
      happend (exec_mode_shadowed h.sess (hb ▸ ht.back) hback.1) hback.2⟩
  | answer hq => exact ⟨h.sess, h.front, h.back⟩

theorem sourced {ok : Label U → World U → Prop} (hw : Reach (system D U) ok w) : Sourced D w := by
  induction hw with
  | init => exact .start
  | step hw _ hs ih => exact ih.moves (threads hw) (moves_of_step hs)

end Sourced

structure Shadowing (P : Prepares U) (D : Dialect) (w : World U) : Prop where
  sess : w.sess.Shadowed D
  front : ∀ a ∈ w.front, a.Shadowed D
  back : ∀ a ∈ w.back, a.Shadowed D
  line : Waits P D w.up w.toUp

section Shadowing

variable {P : Prepares U} {w w' : World U} {st : U.State} {q : Request} {l rest : List Request}

theorem OwnWrite.ne_nil {ms : List Frontend} (h : OwnWrite D ms) : ms ≠ [] := by
  cases h <;> simp [extendedQuery]

theorem Waits.append (h : Waits P D st l) (hr : Whole D rest) : Waits P D st (l ++ rest) := by
  obtain ⟨o, ms, qs, rfl, ho, honly, hqs⟩ := h
  exact ⟨o, ms, qs ++ rest, List.append_assoc .., ho, honly, hqs.append hr⟩

theorem Waits.answer (hP : P.Spares D) (h : Waits P D st (q :: rest)) (c : U.Choice) :
    (q.origin.isClient = false → ∀ x ∈ P.changes st q.msg c, x.1 = "") ∧
      Waits P D (U.answer st q.msg c).1 rest := by
  have hblock {o ms qs} (hline : q :: rest = ms.map (Request.mk o) ++ qs) (hne : ms ≠ [])
    (ho : o.isClient = false)
      (honly : P.Only st ms) (hqs : Whole D qs) : (∀ x ∈ P.changes st q.msg c, x.1 = "") ∧
        Waits P D (U.answer st q.msg c).1 rest := by
    cases ms with
    | nil => exact absurd rfl hne
    | cons m ms =>
      obtain ⟨rfl, rfl⟩ := List.cons.inj hline
      exact ⟨(honly c).1, o, ms, qs, rfl, ho, (honly c).2, hqs⟩
  obtain ⟨o, ms, qs, hline, ho, honly, hqs⟩ := h
  by_cases hms : ms = []
  · -- the head starts a statement of the emulator's, or is the client's
    rw [hms, List.map_nil, List.nil_append] at hline
    cases hqs with
    | nil => cases hline
    | client hqs =>
      obtain ⟨rfl, rfl⟩ := List.cons.inj hline
      exact ⟨(by simp [Origin.isClient]), o, [], rest, rfl, ho, trivial, hqs⟩
    | own ho' hown hqs =>
      obtain ⟨h, hrest⟩ := hblock hline hown.ne_nil ho' (hP _ hown st) hqs
      exact ⟨fun _ => h, hrest⟩
  · obtain ⟨h, hrest⟩ := hblock hline hms ho honly hqs
    exact ⟨fun _ => h, hrest⟩

theorem Shadowing.start : Shadowing P D (World.start D U) where
  sess := Sourced.start.sess
  front := Sourced.start.front
  back := Sourced.start.back
  line := ⟨.failure 0, [], [], rfl, rfl, trivial, .nil⟩

theorem Shadowing.moves {l : Label U} (h : Shadowing P D w) (hP : P.Spares D) (ht : Threads w)
    (hm : Moves D l w w') : Shadowing P D w' := by
  have hsource : Sourced D w' := Sourced.moves ⟨h.sess, h.front, h.back⟩ ht hm
  refine ⟨hsource.sess, hsource.front, hsource.back, ?_⟩
  cases hm with
  | front hf =>
    have hfront := h.front
    rw [hf, List.forall_mem_cons] at hfront
    exact h.line.append (exec_up_whole hfront.1)
  | back hb =>
    have hback := h.back
    rw [hb, List.forall_mem_cons] at hback
    exact h.line.append (exec_up_whole hback.1)
  | answer hq =>
    have hline := h.line
    rw [hq] at hline
    exact (hline.answer hP _).2
  | _ => exact h.line

theorem shadowing {ok : Label U → World U → Prop} (hP : P.Spares D) (hw : Reach (system D U) ok w) :
    Shadowing P D w := by
  induction hw with
  | init => exact .start
  | step hw _ hs ih => exact ih.moves hP (threads hw) (moves_of_step hs)

end Shadowing

structure Ledger.Agrees (g : Ledger) : Prop where
  named : ∀ name, name ≠ "" → g.held name = g.mine name
  unnamed : g.touched = false → g.held "" = g.mine ""
  bindings : ∀ b ∈ g.bindings, b.held = b.mine

section Ledger

variable {g : Ledger} {q : Request} {cs : List (String × Option String)}

theorem assigns_ne {name : String} (h : ∀ x ∈ cs, x.1 ≠ name) : ∀ x ∈ q.assigns cs, x.1 ≠ name := by
  intro x hx
  obtain ⟨y, hy, rfl⟩ := List.mem_map.1 hx
  exact h y hy

theorem Ledger.Agrees.binding (h : g.Agrees)
    (hu : ∀ b ∈ g.binding q, b.name = "" → g.touched = false) :
    ∀ b ∈ g.binding q, b.held = b.mine := by
  intro b hb
  have htouched := hu b hb
  unfold Ledger.binding at hb
  split at hb
  next n bind =>
    cases hb
    by_cases hname : bind.statement = ""
    · simpa only [hname] using h.unnamed (htouched hname)
    · exact h.named bind.statement hname
  next => cases hb

theorem Ledger.Agrees.take (h : g.Agrees) (hown : q.origin.isClient = false → ∀ x ∈ cs, x.1 = "")
    (hu : ∀ b ∈ g.binding q, b.name = "" → g.touched = false) : (g.take q cs).Agrees where
  named name hname := by
    dsimp only [Ledger.take]
    cases hq : q.origin.isClient with
    | true => exact assign_congr (h.named name hname)
    | false =>
      have hne : ∀ x ∈ cs, x.1 ≠ name := fun x hx hx' => hname (hx' ▸ hown hq x hx)
      exact (assign_of_forall_ne (assigns_ne hne)).trans (h.named name hname)
  unnamed htouched := by
    dsimp only [Ledger.take] at htouched ⊢
    by_cases hcs : ∃ x ∈ cs, x.1 = ""
    · rw [if_pos (by simpa using hcs)] at htouched
      have hq : q.origin.isClient = true := by simpa using htouched
      obtain ⟨x, hx, hname⟩ := hcs
      rw [if_pos hq]
      exact assign_of_mem ⟨_, List.mem_map_of_mem hx, hname⟩
    · rw [if_neg (by simpa using hcs)] at htouched
      have hne : ∀ x ∈ q.assigns cs, x.1 ≠ "" := assigns_ne fun x hx hx' => hcs ⟨x, hx, hx'⟩
      rw [assign_of_forall_ne hne, h.unnamed htouched]
      split
      · exact (assign_of_forall_ne hne).symm
      · rfl
  bindings b hb := by
    rcases List.mem_append.1 hb with hb | hb
    · exact h.bindings b hb
    · exact h.binding hu b (Option.mem_toList.1 hb)

theorem Ledger.Agrees.note {P : Prepares U} {l : Label U} {w : World U} (h : g.Agrees)
    (hP : P.Spares D) (hline : Waits P D w.up w.toUp) (hl : Undisturbed l (w, g)) :
    (g.note P l w).Agrees := by
  unfold Ledger.note
  split
  next c q rest hq =>
    rw [hq] at hline
    exact h.take (hline.answer hP c).1 (hl q (by simp [Label.taken, hq]))
  next => exact h

end Ledger

theorem ledger_agrees {P : Prepares U} (hP : P.Spares D) {w : World U × Ledger}
    (hw : Reach ((system D U).watched {} (Ledger.note P)) Undisturbed w) : w.2.Agrees := by
  induction hw with
  | init => exact ⟨fun _ _ => rfl, fun _ => rfl, by simp [System.watched]⟩
  | step hw hok hs ih =>
    obtain ⟨-, hnote⟩ := System.watched_step.1 hs
    have hreachable : Reachable (system D U) _ := hw.unwatched fun _ _ _ => trivial
    rw [hnote]
    exact ih.note hP (shadowing hP hreachable).line hok

/-- Where the unnamed statement is not bound after the emulator has reached it, every
`Bind` of the client's finds the statement it would find if the emulator wrote nothing. -/
theorem bound_statements_own {P : Prepares U} (hP : P.Spares D) {w : World U × Ledger}
    (hw : Reach ((system D U).watched {} (Ledger.note P)) Undisturbed w) :
    ∀ b ∈ w.2.bindings, b.held = b.mine :=
  (ledger_agrees hP hw).bindings

theorem mem_any {m : Frontend} {st : Unit} {c : List Backend × TxStatus} {x : Backend}
    (hx : x.isReady = false) : x ∈ (Upstream.any.answer st m c).2 ↔ x ∈ c.1 := by
  have hne (st : TxStatus) : x ≠ .ready st := by
    rintro rfl
    cases hx
  simp only [Upstream.any, List.mem_append, List.mem_filter]
  split <;> simp [hx, hne]

def Prepares.any : Prepares .any where
  changes _ m c :=
    match m with
    | .query _ => [("", none)]
    | .parse name sql =>
      if .parseComplete ∈ c.1 then [(name, some sql)] else if name = "" then [("", none)] else []
    | .close true name => if .closeComplete ∈ c.1 then [(name, none)] else []
    | _ => []
  parse st name sql c h := if_pos ((mem_any rfl).1 h)
  unparsed st name sql c h := by
    have hnot : Backend.parseComplete ∉ c.1 := mt (mem_any rfl).2 h
    dsimp only
    rw [if_neg hnot]
    split <;> simp_all
  close st name c h := if_pos ((mem_any rfl).1 h)
  unclosed st name c h := if_neg (mt (mem_any rfl).2 h)
  query st sql c := rfl

theorem spares_any : Prepares.any.Spares D := by
  have hquery (sql : String) (st : Unit) : Prepares.any.Only st [.query sql] := by
    simp [Prepares.Only, Prepares.any]
  intro ms hms st
  cases hms with
  | control hm =>
    simp only [controls, List.mem_cons, List.not_mem_nil, or_false] at hm
    rcases hm with rfl | rfl | rfl | rfl | rfl <;> exact hquery _ st
  | simple => exact hquery _ st
  | extended =>
    refine fun c => ⟨?_, by simp [Prepares.Only, Prepares.any]⟩
    dsimp only [Prepares.any]
    split <;> simp

theorem bound_statements_own_select :
    let w := ((system (.sample []) .any).watched {} (Ledger.note .any)).dest Undisturbed boundSelect
    (∃ b ∈ w.2.bindings, b.number = 2 ∧ b.held = some ⟨.client 1, "SELECT * FROM t FOR UPDATE"⟩) ∧
      ∀ b ∈ w.2.bindings, b.held = b.mine := by
  exact ⟨by decide +kernel, bound_statements_own spares_any (Reach.dest _ _)⟩

def boundLater : List (Label .any) :=
  List.flatten
    [[.send (.query "BEGIN"), .readClient], fronts 8,
      [.answer ([.commandComplete "BEGIN"], .active), .readUpstream],
      backs 6, [.readUpstream], backs 8, [.send (.parse "" "SELECT 1"), .readClient], fronts 4,
      [.send .sync, .readClient], fronts 4, completes .parseComplete,
        [.answer ([], .active), .readUpstream], backs 8,
      [.send (.parse "a" "SELECT * FROM t FOR UPDATE"), .readClient], fronts 8,
      [.send (.bind { portal := "", statement := "" }), .readClient], fronts 7,
      [.answer ([.commandComplete "SAVEPOINT"], .active), .answer ([.parseComplete], .active),
        .answer ([], .active)]]

/-- The savepoint drops the client's unnamed statement. -/
theorem bound_statement_dropped :
    ∃ w : World .any × Ledger,
      Reachable ((system (.sample []) .any).watched {} (Ledger.note .any)) w ∧
      ⟨4, "", none, some ⟨.client 1, "SELECT 1"⟩⟩ ∈ w.2.bindings := by
  refine ⟨System.dest _ (fun _ _ => True) boundLater, Reach.dest _ _, ?_⟩
  decide +kernel

end DsqlEmulator.Proxy
