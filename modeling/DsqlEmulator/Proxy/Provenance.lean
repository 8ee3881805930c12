import DsqlEmulator.Proxy.Gate
import DsqlEmulator.Proxy.Prepared
import DsqlEmulator.Proxy.ShowTags

/-! Where everything on either connection comes from.  The upstream is sent the client's
messages, some with their text replaced, five fixed statements, and what `Analyze` made of a
text the client sent.  The client is sent the upstream's answers, some of them retold, and
the answers the session gives itself. -/

namespace DsqlEmulator.Proxy

open Wire Occ Txn Runs

variable {U : Upstream} {D : Dialect}

section Upstream

/-- What may be written upstream for a message of the client's. -/
inductive Renders (D : Dialect) : Frontend → Frontend → Prop
  | same {m} : Renders D m m
  | version {sql r} : D.rewriteSQL sql = some r → Renders D (.query sql) (.query r.sql)
  | versionParse {name sql r} : D.rewriteSQL sql = some r → Renders D (.parse name sql)
      (.parse name r.sql)
  | job {sql rewritten statement jobID} : D.stripAsync sql = some (rewritten, statement) →
      isJobID jobID = true → Renders D (.query sql) (.query (jobMarker jobID ++ rewritten))
  | jobParse {name sql rewritten statement jobID} : D.stripAsync sql = some (rewritten, statement) →
      isJobID jobID = true → Renders D (.parse name sql)
        (.parse name (jobMarker jobID ++ rewritten))

/-- What the emulator may write upstream for itself, once the client has sent `sent`. -/
inductive OwnMessage (D : Dialect) (sent : List Frontend) : Frontend → Prop
  | control {m} : m ∈ controls → OwnMessage D sent m
  | shadow {m sql i} : m ∈ sent → m.sql = some sql → D.analyze sql = some i →
      OwnMessage D sent (.query i.shadow)
  | extended {m sql i vs fs rs x} : m ∈ sent → m.sql = some sql → D.analyze sql = some i →
      x ∈ extendedQuery i.shadow vs fs rs → OwnMessage D sent x

@[simp] def Act.Rendered (D : Dialect) (m : Frontend) : Act → Prop
  | .writeUpstream (.client _) ms => ∀ x ∈ ms, Renders D m x
  | .admitKinds _ m' _ => m' = m
  | .admitAsync _ rewritten _ _ =>
    ∃ sql statement, m = .query sql ∧ D.stripAsync sql = some (rewritten, statement)
  | .occAdjudicated _ m' _ => m' = m
  | .occCommitConflict _ m' _ => m' = m
  | _ => True

variable {s : Session} {n : Nat} {m : Frontend} {now : Nat} {jobID : String} {a b : Act}

theorem renders_rewritten (D : Dialect) (m : Frontend) : Renders D m (D.rewritten m) := by
  cases m with
  | query sql =>
    dsimp only [Dialect.rewritten]
    cases hr : D.rewriteSQL sql with
    | none => exact .same
    | some r => exact .version hr
  | _ => exact .same

theorem rendered_of_not_forwards (h : a.forwards = false) : a.Rendered D m := by
  cases a with
  | writeUpstream o ms => cases o <;> trivial
  | _ => trivial

theorem Hands.rendered (hj : isJobID jobID = true) (ha : FrontAct n m a)
    (hands : Hands D now jobID s n a b) (h : a.Rendered D m) : b.Rendered D m := by
  have self {x : Frontend} (hx : Renders D m x) : (Act.forwarding n x).Rendered D m := by
    simpa using hx
  have hcode : FrontCode n m a := hands.frontCode ha
  cases hands with
  | dispatched => trivial
  | forwarded => obtain ⟨-, rfl, -⟩ := hcode; exact self .same
  | synced => obtain ⟨-, rfl⟩ := hcode; exact self .same
  | async hasync => obtain ⟨-, rfl, -⟩ := hcode; exact ⟨_, _, rfl, hasync⟩
  | ended => obtain ⟨-, rfl, -⟩ := hcode; exact self .same
  | unparsed => obtain ⟨-, rfl, -⟩ := hcode; exact self .same
  | classified => obtain ⟨-, rfl, -⟩ := hcode; rfl
  | asyncParse hasync => obtain ⟨-, rfl, -⟩ := hcode; exact self (.jobParse hasync hj)
  | parse => obtain ⟨-, rfl, -⟩ := hcode; exact self .same
  | parseRewritten _ hr => obtain ⟨-, rfl, -⟩ := hcode; exact self (.versionParse hr)
  | bindEnded => obtain ⟨-, rfl, -⟩ := hcode; exact self .same
  | bind => obtain ⟨-, rfl, -⟩ := hcode; rfl
  | passed => obtain ⟨-, rfl, -⟩ := hcode; exact self .same
  | commits => exact h
  | admitted => obtain rfl := h; exact self (renders_rewritten D _)
  | asyncAdmitted =>
    obtain ⟨sql, statement, rfl, hasync⟩ := h
    exact self (.job hasync hj)
  | undoomed => obtain rfl := h; exact self (renders_rewritten D _)
  | injecting => exact h
  | committed => obtain rfl := h; exact self (renders_rewritten D _)

theorem exec_rendered (hj : isJobID jobID = true) (ha : FrontAct n m a) (h : a.Rendered D m) :
    ∀ b ∈ (a.exec D now jobID s).next, b.Rendered D m := by
  intro b hb
  cases hf : b.forwards with
  | true => exact (hands_of_exec ha hb hf).rendered hj ha h
  | false => exact rendered_of_not_forwards hf

theorem pumpFrontend_rendered : ∀ a ∈ pumpFrontend n m, a.Rendered D m := by
  unfold pumpFrontend
  split
  · simpa using Renders.same
  · simp
  · simp

structure Rendering (D : Dialect) (w : World U) : Prop where
  front : ∀ m, w.sent[w.read - 1]? = some m → ∀ a ∈ w.front, a.Rendered D m
  written : ∀ q ∈ w.written, ∀ n, q.origin = .client n → ∃ m, w.sent[n]? = some m ∧
    Renders D m q.msg

variable {w w' : World U}

theorem Rendering.moves {l : Label U} (h : Rendering D w) (ht : Threads w) (hl : Minted l w)
    (hm : Moves D l w w') : Rendering D w' := by
  have hkeep {n : Nat} {x : Frontend} (hx : w.sent[n]? = some x) : w'.sent[n]? = some x :=
    hm.sent_keep hx
  refine ⟨?_, fun q hq n hn => ?_⟩
  · cases hm with
    | @send _ x =>
      intro m hm a ha
      obtain ⟨m', -, hm', -⟩ := ht.front (List.ne_nil_of_mem ha)
      obtain rfl : m' = m := Option.some.inj ((hkeep hm').symm.trans hm)
      exact h.front m' hm' a ha
    | @readClient _ x rest hf hi hc =>
      intro m hm a ha
      have hx : w.sent[w.read]? = some x := by rw [← List.head?_drop, ht.inbox, hi]; rfl
      obtain rfl : x = m := Option.some.inj (hx.symm.trans hm)
      exact pumpFrontend_rendered a ha
    | @front _ now jobID a rest hf =>
      intro m hm b hb
      obtain ⟨m', hm', ha⟩ := ht.head hf
      obtain rfl : m' = m := Option.some.inj (hm'.symm.trans hm)
      rcases List.mem_append.1 hb with hb | hb
      · exact exec_rendered (hl jobID rfl) ha (h.front m' hm' a (hf ▸ List.mem_cons_self)) b hb
      · exact h.front m' hm' b (hf ▸ List.mem_cons_of_mem a hb)
    | _ => exact h.front
  · obtain ⟨qs, hqs, -, hnew⟩ := hm.writes ht
    rw [hqs] at hq
    rcases List.mem_append.1 hq with hq | hq
    · obtain ⟨m, hm', hr⟩ := h.written q hq n hn
      exact ⟨m, hkeep hm', hr⟩
    · rcases hnew with hnew | ⟨x, rest, hf, -, rfl, -⟩
      · exact absurd hn (hnew q hq n)
      · obtain rfl := List.mem_singleton.1 hq
        obtain rfl : w.read - 1 = n := Origin.client.inj hn
        obtain ⟨m, hm', -⟩ := ht.head hf
        have hrendered : (Act.forwarding (w.read - 1) x).Rendered D m :=
          h.front m hm' _ (hf ▸ List.mem_cons_self)
        exact ⟨m, hkeep hm', hrendered x List.mem_cons_self⟩

theorem rendering (hw : Reach (system D U) Minted w) : Rendering D w := by
  induction hw with
  | init => constructor <;> simp [system, World.start]
  | step hw hl hs ih => exact ih.moves (threads hw) hl (moves_of_step hs)

theorem whole_written {ok : Label U → World U → Prop} (hw : Reach (system D U) ok w) :
    Whole D w.written := by
  induction hw with
  | init => exact .nil
  | step hw _ hs ih =>
    have hsourced := sourced hw
    cases moves_of_step hs with
    | front hf => exact ih.append (exec_up_whole (hsourced.front _ (hf ▸ List.mem_cons_self)))
    | back hb => exact ih.append (exec_up_whole (hsourced.back _ (hb ▸ List.mem_cons_self)))
    | _ => exact ih

def Dialect.among (D : Dialect) (texts : List String) : Dialect :=
  { D with analyze := fun sql => if sql ∈ texts then D.analyze sql else none }

theorem exec_among {texts : List String}
    (h : ∀ k m, a = .aborted k m → ∀ sql ∈ m.sql, sql ∈ texts) :
    a.exec (D.among texts) now jobID s = a.exec D now jobID s := by
  cases a with
  | aborted k m =>
    have hanalyze : ∀ sql ∈ m.sql, (D.among texts).analyze sql = D.analyze sql :=
      fun sql hsql => if_pos (h k m rfl sql hsql)
    cases m with
    | query sql =>
      dsimp only [Act.exec]
      unfold handleQuery
      rw [hanalyze sql rfl]
      rfl
    | parse name sql =>
      dsimp only [Act.exec]
      unfold handleParse
      rw [hanalyze sql rfl]
      rfl
    | _ => rfl
  | _ => rfl

theorem step_among {texts : List String} {l : Label U} (ht : Threads w)
    (h : ∀ m ∈ w.sent, ∀ sql ∈ m.sql, sql ∈ texts) : step (D.among texts) l w = step D l w := by
  cases l with
  | front now jobID =>
    dsimp only [step]
    split
    next a rest hf =>
      obtain ⟨m, hm, ha⟩ := ht.head hf
      rw [exec_among]
      rintro k m' rfl
      cases ha with
      | code ha =>
        obtain ⟨-, rfl, -⟩ := ha
        exact h m' (List.mem_of_getElem? hm)
    next => rfl
  | back =>
    dsimp only [step]
    split
    next a rest hb =>
      rw [exec_among]
      rintro k m' rfl
      have hmode := hb ▸ ht.back
      cases hmode with
      | relaying h => exact (h _ List.mem_cons_self).elim
      | repairing h => cases h _ List.mem_cons_self with | code h => exact h.elim
    next => rfl
  | _ => rfl

theorem Moves.sent_subset {l : Label U} (hm : Moves D l w w') : ∀ m ∈ w.sent, m ∈ w'.sent := by
  cases hm with
  | send => exact fun m hm => List.mem_append_left _ hm
  | _ => exact fun m hm => hm

theorem reach_among {ok : Label U → World U → Prop} {texts : List String}
    (hw : Reach (system D U) ok w) (h : ∀ m ∈ w.sent, ∀ sql ∈ m.sql, sql ∈ texts) :
    Reach (system (D.among texts) U) ok w := by
  induction hw with
  | init => exact .init
  | @step l w w' hw hok hs ih =>
    have hsent : ∀ m ∈ w.sent, ∀ sql ∈ m.sql, sql ∈ texts :=
      fun m hm => h m ((moves_of_step hs).sent_subset m hm)
    exact .step (ih hsent) hok ((step_among (threads hw) hsent).trans hs)

theorem reach_among_sent {ok : Label U → World U → Prop} (hw : Reach (system D U) ok w) :
    Reach (system (D.among (w.sent.filterMap Frontend.sql)) U) ok w :=
  reach_among hw fun m hm _ hsql => List.mem_filterMap.2 ⟨m, hm, hsql⟩

theorem Whole.ownWrite {qs : List Request} {q : Request} (h : Whole D qs) (hq : q ∈ qs)
    (ho : q.origin.isClient = false) : ∃ ms, OwnWrite D ms ∧ q.msg ∈ ms := by
  induction h with
  | nil => cases hq
  | client _ ih =>
    rcases List.mem_cons.1 hq with rfl | hq
    · cases ho
    · exact ih hq
  | own _ hms _ ih =>
    rcases List.mem_append.1 hq with hq | hq
    · obtain ⟨m, hm, rfl⟩ := List.mem_map.1 hq
      exact ⟨_, hms, hm⟩
    · exact ih hq

def Analyzed (D : Dialect) (sent : List Frontend) (i : Intent) : Prop :=
  ∃ m ∈ sent, ∃ sql, m.sql = some sql ∧ D.analyze sql = some i

theorem analyzed_of_shadows {sent : List Frontend} {i : Intent}
    (h : (D.among (sent.filterMap Frontend.sql)).Shadows i) : Analyzed D sent i := by
  obtain ⟨sql, hsql⟩ := h
  change (if sql ∈ sent.filterMap Frontend.sql then D.analyze sql else none) = some i at hsql
  split at hsql
  next hmem =>
    obtain ⟨m, hm, hmsql⟩ := List.mem_filterMap.1 hmem
    exact ⟨m, hm, sql, hmsql, hsql⟩
  next => cases hsql

theorem ownMessage_of_write {sent ms : List Frontend} {x : Frontend}
    (h : OwnWrite (D.among (sent.filterMap Frontend.sql)) ms) (hx : x ∈ ms) :
    OwnMessage D sent x := by
  cases h with
  | control hm => exact List.mem_singleton.1 hx ▸ .control hm
  | simple hi =>
    obtain ⟨m, hm, sql, hsql, hanalyze⟩ := analyzed_of_shadows hi
    exact List.mem_singleton.1 hx ▸ .shadow hm hsql hanalyze
  | extended hi =>
    obtain ⟨m, hm, sql, hsql, hanalyze⟩ := analyzed_of_shadows hi
    exact .extended hm hsql hanalyze hx

/-- Everything written upstream renders one of the client's messages, or is a statement of
the emulator's own. -/
theorem written_provenance (hw : Reach (system D U) Minted w) : ∀ q ∈ w.written,
    (∃ n m, q.origin = .client n ∧ w.sent[n]? = some m ∧ Renders D m q.msg) ∨
      q.origin.isClient = false ∧ OwnMessage D w.sent q.msg := by
  intro q hq
  cases ho : q.origin.isClient with
  | true =>
    left
    obtain ⟨n, hn⟩ : ∃ n, q.origin = .client n := by
      cases horigin : q.origin with
      | client n => exact ⟨n, rfl⟩
      | _ => rw [horigin] at ho; cases ho
    obtain ⟨m, hm, hr⟩ := (rendering hw).written q hq n hn
    exact ⟨n, m, hn, hm, hr⟩
  | false =>
    right
    obtain ⟨ms, hms, hmem⟩ := (whole_written (reach_among_sent hw)).ownWrite hq ho
    exact ⟨rfl, ownMessage_of_write hms hmem⟩

def asyncIndex : List (Label .any) :=
  [.send (.query "COMMIT; CREATE INDEX ASYNC ON t (a)"), .readClient] ++
    List.replicate 7 (.front 0 "aaaaaaaaaaaaaaaaaaaaaaaaaa")

theorem written_provenance_async :
    let w := (system (.sample []) .any).dest Minted asyncIndex
    w.written.length = 1 ∧ ∀ q ∈ w.written,
      (∃ n m, q.origin = .client n ∧ w.sent[n]? = some m ∧ Renders (.sample []) m q.msg) ∨
        q.origin.isClient = false ∧ OwnMessage (.sample []) w.sent q.msg :=
  ⟨by decide +kernel, written_provenance (Reach.dest _ _)⟩

end Upstream

section Client

inductive Retells (D : Dialect) : Backend → Backend → Prop
  | same {m} : Retells D m m
  | version {value} : Retells D (.parameterStatus "server_version" value)
      (.parameterStatus "server_version" D.serverVersion)
  | conflict {e} : isConflict e.code = true →
      Retells D (.error e) (.error (rewriteConflictError D e))
  | shown {tag} : Retells D (.commandComplete tag) (.commandComplete "SHOW")
  | described : Retells D .noData jobIDRowDescription
  | jobHeader {tag} : Retells D (.commandComplete tag) jobIDRowDescription
  | job {tag jobID} : Retells D (.commandComplete tag) (jobIDDataRow jobID)

structure Conflicted (D : Dialect) (sent : List Frontend) (said : List Reply) (f : InFlight) :
    Prop where
  asked : ∃ m, sent[f.request]? = some m ∧ (m.tag = .query ∨ m.tag = .bind)
  analyzed : Analyzed D sent f.intent
  refused : ∃ o e, ⟨o, .error e⟩ ∈ said ∧ isConflict e.code = true

structure Answering (sent : List Frontend) (armings : List Armed) (f : Armed) : Prop where
  armed : f ∈ armings
  sent : ∃ m, sent[f.request]? = some m

/-- Where a message for the client comes from. -/
inductive Told (D : Dialect) (sent : List Frontend) (said : List Reply) (armings : List Armed) :
    Delivery → Prop
  | relayed {r m} : r ∈ said → Retells D r.msg m → Told D sent said armings ⟨.relayed r.origin, m⟩
  | refusal {n m e} : sent[n]? = some m → Told D sent said armings ⟨.refusal n, .error e⟩
  | refused {n m st} : sent[n]? = some m → m.tag = .query →
      Told D sent said armings ⟨.refusal n, .ready st⟩
  | failure {f o st} : Answering sent armings f → ⟨o, .ready st⟩ ∈ said →
      Told D sent said armings ⟨.failure f.id, .ready f.failure.status⟩
  | repairError {f} : Conflicted D sent said f →
      Told D sent said armings ⟨.repair f.request, .error (conflictError D.occ)⟩
  | repairComplete {f rows} : Conflicted D sent said f →
      Told D sent said armings ⟨.repair f.request, .commandComplete (f.intent.commandTag rows)⟩
  | repairReady {f} : Conflicted D sent said f →
      Told D sent said armings ⟨.repair f.request, .ready .active⟩

@[simp] def Act.Tells (D : Dialect) (sent : List Frontend) (said : List Reply)
    (armings : List Armed) : Act → Prop
  | .writeClient d => Told D sent said armings d
  | .beginFailure n _ => ∃ m, sent[n]? = some m
  | .setHidden x _ => ∀ f ∈ x.repair, Conflicted D sent said f
  | .clearHidden h => ∀ f ∈ h.exchange.repair, Conflicted D sent said f
  | .chooseRestore repair => Conflicted D sent said repair
  | .consumeHidden r => r ∈ said
  | .failureActive r => r ∈ said
  | .consumeFailureMessage => ∃ o st, ⟨o, .ready st⟩ ∈ said
  | .repairPending r => r ∈ said
  | .markJobDescribed o => ⟨o, .noData⟩ ∈ said
  | .readInTxn o e => ⟨o, .error e⟩ ∈ said ∧ isConflict e.code = true
  | .occIntercept o e _ => ⟨o, .error e⟩ ∈ said ∧ isConflict e.code = true
  | .startRepair o st => ⟨o, .ready st⟩ ∈ said
  | .rewriteCommandTag o tag => ⟨o, .commandComplete tag⟩ ∈ said
  | .claimJob o tag => ⟨o, .commandComplete tag⟩ ∈ said
  | _ => True

variable {s : Session} {sent sent' : List Frontend} {said said' : List Reply}
  {armings armings' : List Armed} {now : Nat} {jobID : String} {a : Act} {rest : List Act}

structure Later (sent sent' : List Frontend) (said said' : List Reply)
    (armings armings' : List Armed) : Prop where
  sent : ∀ (n : Nat) m, sent[n]? = some m → sent'[n]? = some m
  said : said ⊆ said'
  armings : armings ⊆ armings'

theorem Conflicted.mono {f : InFlight} (hl : Later sent sent' said said' armings armings')
    (h : Conflicted D sent said f) : Conflicted D sent' said' f := by
  obtain ⟨⟨m, hm, ht⟩, ⟨x, hx, sql, hsql⟩, o, e, he, hc⟩ := h
  obtain ⟨n, hn⟩ := List.getElem?_of_mem hx
  have hx' : x ∈ sent' := List.mem_of_getElem? (hl.sent n x hn)
  exact ⟨⟨m, hl.sent _ m hm, ht⟩, ⟨x, hx', sql, hsql⟩, o, e, hl.said he, hc⟩

theorem Answering.mono {f : Armed} (hl : Later sent sent' said said' armings armings')
    (h : Answering sent armings f) : Answering sent' armings' f := by
  obtain ⟨harmed, m, hm⟩ := h
  exact ⟨hl.armings harmed, m, hl.sent _ m hm⟩

theorem Told.mono {d : Delivery} (hl : Later sent sent' said said' armings armings')
    (h : Told D sent said armings d) : Told D sent' said' armings' d := by
  cases h with
  | relayed hr hm => exact .relayed (hl.said hr) hm
  | refusal hm => exact .refusal (hl.sent _ _ hm)
  | refused hm ht => exact .refused (hl.sent _ _ hm) ht
  | failure hf hr => exact .failure (hf.mono hl) (hl.said hr)
  | repairError hf => exact .repairError (hf.mono hl)
  | repairComplete hf => exact .repairComplete (hf.mono hl)
  | repairReady hf => exact .repairReady (hf.mono hl)

theorem tells_mono (hl : Later sent sent' said said' armings armings')
    (h : a.Tells D sent said armings) : a.Tells D sent' said' armings' := by
  cases a with
  | writeClient d => exact Told.mono hl h
  | beginFailure n f => exact h.imp fun m hm => hl.sent n m hm
  | setHidden x ms => exact fun f hf => (h f hf).mono hl
  | clearHidden x => exact fun f hf => (h f hf).mono hl
  | chooseRestore repair => exact Conflicted.mono hl h
  | consumeFailureMessage => exact h.imp fun o => Exists.imp fun st hr => hl.said hr
  | readInTxn o e => exact ⟨hl.said h.1, h.2⟩
  | occIntercept o e inTxn => exact ⟨hl.said h.1, h.2⟩
  | _ => first | exact hl.said h | trivial

theorem frontAct_tells {n : Nat} {m : Frontend} (h : FrontAct n m a) (hm : sent[n]? = some m) :
    a.Tells D sent said armings := by
  cases h with
  | code h =>
    cases a with
    | writeClient d =>
      obtain ⟨source, msg⟩ := d
      obtain ⟨rfl, ⟨e, rfl⟩ | ⟨ht, st, rfl⟩⟩ := h
      · exact .refusal hm
      · exact .refused hm ht
    | beginFailure k f =>
      obtain ⟨rfl, -⟩ := h
      exact ⟨m, hm⟩
    | setHidden x ms =>
      obtain ⟨rfl, -⟩ := h
      simp [Exchange.repair]
    | _ => first | exact h.elim | trivial
  | _ => trivial

theorem relay_tells {r : Reply} (hr : r ∈ said) : ∀ b ∈ relay D r, b.Tells D sent said armings := by
  have hsame : Told D sent said armings ⟨.relayed r.origin, r.msg⟩ := .relayed hr .same
  obtain ⟨o, m⟩ := r
  cases m with
  | error e => by_cases he : isConflict e.code = true <;> simp [relay, he, hr, hsame]
  | parameterStatus name value =>
    simp only [relay, List.mem_singleton, forall_eq, Act.Tells]
    split
    next h => obtain ⟨-, rfl⟩ := h; exact .relayed hr .version
    next => exact hsame
  | noData => simpa [relay] using hr
  | ready st => simpa [relay] using hr
  | commandComplete tag => simpa [relay] using hr
  | _ => simpa [relay] using hsame

theorem failRepair_tells {f : InFlight} (h : Conflicted D sent said f) :
    ∀ b ∈ failRepair D f.request, b.Tells D sent said armings := by
  obtain ⟨m, hm, -⟩ := h.asked
  simpa [failRepair, hm] using Told.repairError h

theorem completeRepair_tells {f : InFlight} (rows : Int) (h : Conflicted D sent said f) :
    ∀ b ∈ completeRepair f rows, b.Tells D sent said armings := by
  simpa [completeRepair] using ⟨Told.repairComplete h, Told.repairReady h⟩

theorem runShadow_tells {f : InFlight} (h : Conflicted D sent said f) :
    ∀ b ∈ runShadow D f, b.Tells D sent said armings := by
  unfold runShadow runRowsetShadow runCountShadow
  split
  · exact completeRepair_tells _ h
  · split <;> split <;> first | exact failRepair_tells h | simpa [Exchange.repair] using h

theorem finish_tells {x : Exchange} (h : ∀ f ∈ x.repair, Conflicted D sent said f) :
    ∀ b ∈ x.finish D, b.Tells D sent said armings := by
  cases x with
  | savepoint failed => cases failed <;> simp [Exchange.finish]
  | restore repair failed =>
    cases failed
    · exact runShadow_tells (h repair rfl)
    · exact failRepair_tells (h repair rfl)
  | count repair rows failed =>
    cases failed
    · exact completeRepair_tells _ (h repair rfl)
    · exact failRepair_tells (h repair rfl)
  | rowset repair failed =>
    cases failed
    · simpa [Exchange.finish] using Told.repairReady (h repair rfl)
    · exact failRepair_tells (h repair rfl)

def Session.Tagged (s : Session) : Prop := s.pendingCommandTag = "" ∨ s.pendingCommandTag = "SHOW"

theorem exec_tagged (h : s.Tagged) : (a.exec D now jobID s).sess.Tagged := by
  by_cases hset : a = .setPendingCommandTag
  · subst hset
    exact .inr rfl
  by_cases hrewrites : a.rewritesTag = true
  · cases a with
    | rewriteCommandTag o tag =>
      dsimp only [Act.exec]
      split
      · exact h
      · exact .inl rfl
    | _ => cases hrewrites
  · rw [Session.Tagged, exec_pendingCommandTag hset (Bool.eq_false_iff.2 hrewrites)]
    exact h

structure Session.Tells (D : Dialect) (sent : List Frontend) (said : List Reply)
    (armings : List Armed) (s : Session) : Prop where
  tagged : s.Tagged
  inFlight : ∀ f ∈ s.occInFlight, ∃ m, sent[f.request]? = some m ∧ (m.tag = .query ∨ m.tag = .bind)
  repair : ∀ f ∈ s.occRepair, Conflicted D sent said f
  hidden : ∀ h ∈ s.hidden, ∀ f ∈ h.exchange.repair, Conflicted D sent said f
  failure : ∀ f ∈ s.failure, Answering sent armings f

theorem Session.Tells.mono (hl : Later sent sent' said said' armings armings')
    (h : s.Tells D sent said armings) : s.Tells D sent' said' armings' where
  tagged := h.tagged
  inFlight f hf := (h.inFlight f hf).imp fun m hm => ⟨hl.sent _ m hm.1, hm.2⟩
  repair f hf := (h.repair f hf).mono hl
  hidden x hx f hf := (h.hidden x hx f hf).mono hl
  failure f hf := (h.failure f hf).mono hl

theorem exec_inFlight_tells (hs : s.Tells D sent said armings)
    (hset : ∀ k i b, a = .setInFlight k i b → ∃ m, sent[k]? = some m ∧
      (m.tag = .query ∨ m.tag = .bind)) :
    ∀ f ∈ (a.exec D now jobID s).sess.occInFlight, ∃ m, sent[f.request]? = some m ∧
      (m.tag = .query ∨ m.tag = .bind) := by
  intro f hf
  by_cases ha : ∃ k i b, a = .setInFlight k i b
  · obtain ⟨k, i, b, rfl⟩ := ha
    obtain ⟨intent, -, hintent⟩ := Option.bind_eq_some_iff.1 hf
    have hk := hset k i b rfl
    split at hintent
    · split at hintent <;> cases hintent
      exact hk
    · cases hintent
      exact hk
  · rcases exec_occInFlight fun k i b h => ha ⟨k, i, b, h⟩ with heq | heq
    · exact hs.inFlight f (heq ▸ hf)
    · cases heq.symm.trans hf

theorem exec_repair_tells (hs : s.Tells D sent said armings)
    (hshadowed : s.Shadowed (D.among (sent.filterMap Frontend.sql)))
    (h : a.Tells D sent said armings) :
    ∀ f ∈ (a.exec D now jobID s).sess.occRepair, Conflicted D sent said f := by
  cases a with
  | aborted n m => obtain ⟨_, _, h⟩ := exec_aborted_quiet n m; rw [h]; exact hs.repair
  | droppingUntilSync n m =>
    obtain ⟨_, _, h⟩ := exec_droppingUntilSync_quiet n m; rw [h]; exact hs.repair
  | resetOcc => simp
  | occIntercept o e inTxn =>
    dsimp only [Act.exec]
    split
    · exact fun f hf => ⟨hs.inFlight f hf, analyzed_of_shadows (hshadowed.inFlight f hf), o, e, h⟩
    · exact hs.repair
  | startRepair o st =>
    dsimp only [Act.exec]
    split
    · simp
    · exact hs.repair
  | _ => dsimp only [Act.exec]; (repeat' split) <;> exact hs.repair

theorem exec_hidden_tells (hs : s.Tells D sent said armings) (h : a.Tells D sent said armings) :
    ∀ x ∈ (a.exec D now jobID s).sess.hidden, ∀ f ∈ x.exchange.repair,
      Conflicted D sent said f := by
  cases a with
  | setHidden x ms => simpa using h
  | consumeHidden r =>
    dsimp only [Act.exec]
    split
    · exact hs.hidden
    next x hx =>
      split
      · exact hs.hidden
      · simpa [note_repair] using hs.hidden x hx
  | clearHidden x => simp
  | _ =>
    rw [exec_hidden rfl]
    exact hs.hidden

theorem exec_failure_tells (hs : s.Tells D sent said armings) (h : a.Tells D sent said armings) :
    ∀ f ∈ (a.exec D now jobID s).sess.failure, Answering sent
      (armings ++ (a.exec D now jobID s).armed) f := by
  intro f hf
  by_cases hbegin : ∃ n x, a = .beginFailure n x
  · obtain ⟨n, x, rfl⟩ := hbegin
    cases hf
    exact ⟨List.mem_append_right _ (List.mem_singleton_self _), h⟩
  · have hsame : f ∈ s.failure := by
      by_cases hc : a = .consumeFailureMessage
      · subst hc
        revert hf
        dsimp only [Act.exec]
        (repeat' split) <;> simp_all
      · rwa [(exec_failure (fun n x ha => hbegin ⟨n, x, ha⟩) hc).1] at hf
    obtain ⟨harmed, hsent⟩ := hs.failure f hsame
    exact ⟨List.mem_append_left _ harmed, hsent⟩

theorem exec_sess_tells (hs : s.Tells D sent said armings)
    (hshadowed : s.Shadowed (D.among (sent.filterMap Frontend.sql)))
    (h : a.Tells D sent said armings)
    (hset : ∀ k i b, a = .setInFlight k i b → ∃ m, sent[k]? = some m ∧
      (m.tag = .query ∨ m.tag = .bind)) :
    (a.exec D now jobID s).sess.Tells D sent said (armings ++ (a.exec D now jobID s).armed) where
  tagged := exec_tagged hs.tagged
  inFlight := exec_inFlight_tells hs hset
  repair := exec_repair_tells hs hshadowed h
  hidden := exec_hidden_tells hs h
  failure := exec_failure_tells hs h

theorem exec_relay_tells {o : Origin} (hs : s.Tagged) (hcode : RelayCode o a)
    (h : a.Tells D sent said armings) :
    ∀ b ∈ (a.exec D now jobID s).next, b.Tells D sent said armings := by
  cases a with
  | markJobDescribed o' =>
    have hsame : Told D sent said armings ⟨.relayed o', .noData⟩ := .relayed h .same
    have hdescribed : Told D sent said armings ⟨.relayed o', jobIDRowDescription⟩ :=
      .relayed h .described
    dsimp only [Act.exec]
    (repeat' split) <;> simp_all
  | readInTxn o' e => simpa using h
  | occIntercept o' e inTxn =>
    have hconflict : Told D sent said armings ⟨.relayed o', .error (rewriteConflictError D e)⟩ :=
      .relayed h.1 (.conflict h.2)
    dsimp only [Act.exec]
    split
    · simp
    · simpa using hconflict
  | rewriteCommandTag o' tag =>
    have hshow : Told D sent said armings ⟨.relayed o', .commandComplete "SHOW"⟩ :=
      .relayed h .shown
    dsimp only [Act.exec]
    split
    · simpa using h
    next hne => simpa [hs.resolve_left hne] using hshow
  | claimJob o' tag =>
    have hsame : Told D sent said armings ⟨.relayed o', .commandComplete tag⟩ := .relayed h .same
    have hheader : Told D sent said armings ⟨.relayed o', jobIDRowDescription⟩ :=
      .relayed h .jobHeader
    have hjob (id : String) : Told D sent said armings ⟨.relayed o', jobIDDataRow id⟩ :=
      .relayed h .job
    dsimp only [Act.exec]
    (repeat' split) <;> simp_all
  | noteTxStatus st => dsimp only [Act.exec]; split <;> simp
  | _ => first | exact hcode.elim | simp

theorem exec_back_tells (hs : s.Tells D sent said armings) (hmode : BackMode (a :: rest))
    (h : a.Tells D sent said armings) :
    ∀ b ∈ (a.exec D now jobID s).next, b.Tells D sent said armings := by
  cases hmode with
  | @offering r =>
    have hsame : Told D sent said armings ⟨.relayed r.origin, r.msg⟩ := .relayed h .same
    dsimp only [Act.exec]
    split
    · simpa using h
    next x hx =>
      split
      · simpa using hs.hidden x hx
      · dsimp only
        split <;> simp [hsame]
  | @checking r =>
    dsimp only [Act.exec]
    split
    · dsimp only
      split
      next hready =>
        obtain ⟨o, m⟩ := r
        cases m with
        | ready st => simpa using ⟨o, st, h⟩
        | _ => cases hready
      next => simp
    · split
      · exact relay_tells h
      · simpa using h
  | @pending r =>
    dsimp only [Act.exec]
    split
    · simp
    · exact relay_tells h
  | failing =>
    obtain ⟨o, st, hr⟩ := h
    dsimp only [Act.exec]
    split
    next f hf =>
      split
      · simpa using Told.failure (hs.failure f hf) hr
      · simp
    next => simp
  | ending => exact finish_tells h
  | @starting o st =>
    have hsame : Told D sent said armings ⟨.relayed o, .ready st⟩ := .relayed h .same
    dsimp only [Act.exec]
    split
    next repair hrepair => simpa using hs.repair repair hrepair
    next => simp [hsame]
  | restoring => exact List.forall_mem_singleton.2 (by simpa [Exchange.repair] using h)
  | relaying hl => exact exec_relay_tells hs.tagged (hl a List.mem_cons_self) h
  | repairing hl =>
    cases hl a List.mem_cons_self with
    | code hcode => cases a <;> first | exact hcode.elim | simp
    | _ => simp
  | _ => simp

structure Telling (D : Dialect) (w : World U) : Prop where
  sess : w.sess.Tells D w.sent w.said w.armings
  back : ∀ a ∈ w.back, a.Tells D w.sent w.said w.armings
  fromUp : w.fromUp ⊆ w.said
  got : ∀ d ∈ w.got, Told D w.sent w.said w.armings d

theorem Told.of_exec {d : Delivery} (h : a.Tells D sent said armings)
    (hd : d ∈ (a.exec D now jobID s).client) : Told D sent said armings d := by
  rw [exec_client, Option.mem_toList] at hd
  cases a with
  | writeClient d' => obtain rfl := Option.some.inj hd; exact h
  | _ => cases hd

variable {w w' : World U}

theorem Later.armed (sent : List Frontend) (said : List Reply) (armings more : List Armed) :
    Later sent sent said said armings (armings ++ more) :=
  ⟨fun _ _ => id, List.Subset.refl _, List.subset_append_left _ _⟩

theorem Telling.moves {l : Label U} (h : Telling D w) (ht : Threads w)
    (hs : Sourced (D.among (w.sent.filterMap Frontend.sql)) w) (hm : Moves D l w w') :
    Telling D w' := by
  have hkeep (n : Nat) (x : Frontend) (hx : w.sent[n]? = some x) : w'.sent[n]? = some x :=
    hm.sent_keep hx
  cases hm with
  | send =>
    have hl : Later w.sent _ w.said w.said w.armings w.armings :=
      ⟨hkeep, List.Subset.refl _, List.Subset.refl _⟩
    exact ⟨h.sess.mono hl, fun a ha => tells_mono hl (h.back a ha), h.fromUp, fun d hd =>
      (h.got d hd).mono hl⟩
  | readClient => exact { h with }
  | @front _ now jobID a rest hf =>
    obtain ⟨m, hm, ha⟩ := ht.head hf
    have htells : a.Tells D w.sent w.said w.armings := frontAct_tells ha hm
    have hl := Later.armed w.sent w.said w.armings (a.exec D now jobID w.sess).armed
    refine ⟨exec_sess_tells h.sess hs.sess htells ?_, fun b hb => tells_mono hl (h.back b hb),
      h.fromUp, fun d hd => ?_⟩
    · rintro k i b rfl
      cases ha with
      | code hcode =>
        obtain ⟨rfl, htag⟩ := hcode
        exact ⟨m, hm, htag⟩
    · exact ((List.mem_append.1 hd).elim (h.got d) (Told.of_exec htells)).mono hl
  | @readUpstream _ r rs hb hfrom _ =>
    refine { h with back := fun a ha => ?_, fromUp := fun x hx => h.fromUp (hfrom ▸
      List.mem_cons_of_mem r hx) }
    rcases mem_pumpBackend ha with rfl | rfl
    · trivial
    · exact h.fromUp (hfrom ▸ List.mem_cons_self)
  | @back _ a rest hb =>
    have ha : a.Tells D w.sent w.said w.armings := h.back a (hb ▸ List.mem_cons_self)
    have hl := Later.armed w.sent w.said w.armings (a.exec D 0 "" w.sess).armed
    refine ⟨exec_sess_tells h.sess hs.sess ha ?_, fun b hb' => tells_mono hl ?_, h.fromUp,
      fun d hd => ?_⟩
    · exact fun k i b heq => absurd heq ((backMode_quiet (hb ▸ ht.back)).2.2 k i b)
    · rcases List.mem_append.1 hb' with hb' | hb'
      · exact exec_back_tells h.sess (hb ▸ ht.back) ha b hb'
      · exact h.back b (hb ▸ List.mem_cons_of_mem a hb')
    · exact ((List.mem_append.1 hd).elim (h.got d) (Told.of_exec ha)).mono hl
  | @answer _ c q qs hq =>
    have hsaid : w.said ⊆ w.said ++ (U.answer w.up q.msg c).2.map (Reply.mk q.origin) :=
      List.subset_append_left _ _
    have hl : Later w.sent w.sent w.said _ w.armings w.armings :=
      ⟨fun _ _ => id, hsaid, List.Subset.refl _⟩
    exact ⟨h.sess.mono hl, fun a ha => tells_mono hl (h.back a ha),
      List.append_subset.2 ⟨List.Subset.trans h.fromUp hsaid, List.subset_append_right _ _⟩,
        fun d hd => (h.got d hd).mono hl⟩

theorem Telling.start : Telling D (World.start D U) := by
  refine ⟨⟨.inl rfl, ?_, ?_, ?_, ?_⟩, ?_, ?_, ?_⟩ <;> simp [World.start, Session.new]

/-- Everything the client gets is a message of the upstream's, perhaps retold, the refusal of a
message it sent, the end of a failure that answers one, or the answer to a statement of its
own that was refused a lock. -/
theorem got_provenance (hw : Reachable (system D U) w) :
    ∀ d ∈ w.got, Told D w.sent w.said w.armings d := by
  have htelling : Telling D w := by
    induction hw with
    | init => exact .start
    | step hw _ hs ih =>
      exact ih.moves (threads hw) (sourced (reach_among_sent hw)) (moves_of_step hs)
  exact htelling.got

theorem got_provenance_insert :
    let w := (system (.sample []) .any).dest (fun _ _ => True) lockStepInsert
    w.got.length = 2 ∧ ∀ d ∈ w.got, Told (.sample []) w.sent w.said w.armings d :=
  ⟨by decide +kernel, got_provenance (Reach.dest _ _)⟩

end Client

end DsqlEmulator.Proxy
