import DsqlEmulator.Classify.Embedded
import DsqlEmulator.Proxy.Deferred
import DsqlEmulator.Proxy.Refusals
import DsqlEmulator.Proxy.Routes
import DsqlEmulator.Proxy.Version

/-! What reaches the upstream on the client's behalf was classified.  Every path that
forwards a text, the one the client sent or another in its place, has looked at the
verdict on that text first. -/

namespace DsqlEmulator.Proxy

open Wire Occ Txn Runs Classify

variable {U : Upstream} {D : Dialect}

def isJobID (s : String) : Bool :=
  s.toList.length = 26 && s.toList.all fun c => 'a' ≤ c && c ≤ 'z' || '2' ≤ c && c ≤ '7'

def stripped (D : Dialect) (m : Frontend) : Bool := (m.sql.bind D.stripAsync).isSome

/-- What is written upstream for `m` carries no text that is rejected. -/
def Passes (D : Dialect) (m x : Frontend) : Prop :=
  ∀ sql, x.sql = some sql → ∀ v, D.classify (stripped D m) sql ≠ .rejected v

structure Dialect.Rewrites (D : Dialect) : Prop where
  version : ∀ sql r, D.rewriteSQL sql = some r → ∀ v, D.classify false r.sql ≠ .rejected v
  marker : ∀ jobID sql, isJobID jobID = true → D.classify true (jobMarker jobID ++ sql) =
    D.classify true sql

@[simp] def Act.Vetted (D : Dialect) (m : Frontend) : Act → Prop
  | .writeUpstream (.client _) ms => ∀ x ∈ ms, Passes D m x
  | .admitKinds _ m' _ => stripped D m = false ∧ Passes D m m'
  | .admitAsync _ rewritten _ _ =>
    stripped D m = true ∧ ∀ v, D.classify true rewritten ≠ .rejected v
  | .occAdjudicated _ m' _ => stripped D m = false ∧ Passes D m m'
  | .occCommitConflict _ m' _ => stripped D m = false ∧ Passes D m m'
  | _ => True

section Lists

variable {s : Session} {n : Nat} {m m' : Frontend} {now : Nat} {jobID : String} {a b : Act}

theorem passes_of_sql_none (h : m'.sql = none) : Passes D m m' := by
  intro sql hsql
  cases h.symm.trans hsql

theorem passes_self {sql : String} (hm : m.sql = some sql) (hasync : D.stripAsync sql = none)
    (h : ∀ v, D.classify false sql ≠ .rejected v) : Passes D m m := by
  intro sql' hsql'
  obtain rfl : sql = sql' := Option.some.inj (hm.symm.trans hsql')
  simpa [stripped, hm, hasync] using h

theorem passes_marked {rewritten : String} (hD : D.Rewrites) (hj : isJobID jobID = true)
    (hs : stripped D m = true) (h : ∀ v, D.classify true rewritten ≠ .rejected v)
    (hsql : m'.sql = some (jobMarker jobID ++ rewritten)) : Passes D m m' := by
  intro text htext v
  obtain rfl : jobMarker jobID ++ rewritten = text := Option.some.inj (hsql.symm.trans htext)
  rw [hs, hD.marker jobID rewritten hj]
  exact h v

theorem passes_rewritten (hD : D.Rewrites) (hs : stripped D m = false) (h : Passes D m m') :
    Passes D m (D.rewritten m') := by
  cases m' with
  | query sql =>
    intro text htext v
    obtain rfl : ((D.rewriteSQL sql).map Rewrite.sql).getD sql = text := Option.some.inj htext
    cases hr : D.rewriteSQL sql with
    | none => exact h sql rfl v
    | some r =>
      rw [hs]
      exact hD.version sql r hr v
  | _ => exact h

theorem not_rejected_of_asyncKinds {c : Classification} {kinds : List Kind}
    (h : c.asyncKinds = some kinds) (v : Verdict) : c ≠ .rejected v := by
  rintro rfl
  cases h

theorem vetted_of_not_forwards (h : a.forwards = false) : a.Vetted D m := by
  cases a with
  | writeUpstream o ms => cases o <;> trivial
  | _ => trivial

theorem Hands.vetted (hD : D.Rewrites) (hj : isJobID jobID = true) (ha : FrontAct n m a)
    (hands : Hands D now jobID s n a b) (h : a.Vetted D m) : b.Vetted D m := by
  have self {m' : Frontend} (hp : Passes D m m') : (Act.forwarding n m').Vetted D m := by
    simpa using hp
  have hcode : FrontCode n m a := hands.frontCode ha
  cases hands with
  | dispatched => trivial
  | forwarded hsql => exact self (passes_of_sql_none hsql)
  | synced => exact self (passes_of_sql_none rfl)
  | async hasync hab hkinds =>
    obtain ⟨-, rfl, -⟩ := hcode
    exact ⟨by simp [stripped, Frontend.sql, hasync], not_rejected_of_asyncKinds hkinds⟩
  | ended hasync hab hends =>
    obtain ⟨-, rfl, -⟩ := hcode
    -- only an accepted text has kinds, so one that ends the transaction is accepted
    refine self (passes_self rfl hasync fun v hv => ?_)
    rw [hv] at hends
    cases hends
  | unparsed hasync hab hc =>
    obtain ⟨-, rfl, -⟩ := hcode
    exact self (passes_self rfl hasync (by simp [hc]))
  | classified hasync hab hc =>
    obtain ⟨-, rfl, -⟩ := hcode
    exact ⟨by simp [stripped, Frontend.sql, hasync], passes_self rfl hasync (by simp [hc])⟩
  | asyncParse hasync hab hkinds =>
    obtain ⟨-, rfl, -⟩ := hcode
    exact self (passes_marked hD hj (by simp [stripped, Frontend.sql, hasync])
      (not_rejected_of_asyncKinds hkinds) rfl)
  | parse hasync hc =>
    obtain ⟨-, rfl, -⟩ := hcode
    exact self (passes_self rfl hasync hc)
  | @parseRewritten name sql r hasync hr =>
    obtain ⟨-, rfl, -⟩ := hcode
    refine self fun text htext v => ?_
    obtain rfl : r.sql = text := Option.some.inj htext
    have hs : stripped D (.parse name sql) = false := by simp [stripped, Frontend.sql, hasync]
    rw [hs]
    exact hD.version sql r hr v
  | bindEnded => exact self (passes_of_sql_none rfl)
  | bind =>
    obtain ⟨-, rfl, -⟩ := hcode
    exact ⟨rfl, passes_of_sql_none rfl⟩
  | passed hsql => exact self (passes_of_sql_none hsql)
  | commits => exact h
  | admitted => exact self (passes_rewritten hD h.1 h.2)
  | asyncAdmitted => exact self (passes_marked hD hj h.1 h.2 rfl)
  | undoomed => exact self (passes_rewritten hD h.1 h.2)
  | injecting => exact h
  | committed => exact self (passes_rewritten hD h.1 h.2)

theorem exec_vetted (hD : D.Rewrites) (hj : isJobID jobID = true) (ha : FrontAct n m a)
    (h : a.Vetted D m) : ∀ b ∈ (a.exec D now jobID s).next, b.Vetted D m := by
  intro b hb
  cases hf : b.forwards with
  | true => exact (hands_of_exec ha hb hf).vetted hD hj ha h
  | false => exact vetted_of_not_forwards hf

end Lists

/-- The identifiers of jobs are what `newJobID` returns. -/
def Minted (l : Label U) (_ : World U) : Prop := ∀ jobID ∈ l.jobID, isJobID jobID = true

instance (l : Label U) (w : World U) : Decidable (Minted l w) :=
  inferInstanceAs (Decidable (∀ jobID ∈ l.jobID, isJobID jobID = true))

structure Vetting (D : Dialect) (w : World U) : Prop where
  front : ∀ m, w.sent[w.read - 1]? = some m → ∀ a ∈ w.front, a.Vetted D m
  written : ∀ q ∈ w.written, ∀ n, q.origin = .client n → ∃ m, w.sent[n]? = some m ∧ Passes D m q.msg

section Vetting

variable {w w' : World U} {a : Act} {rest : List Act}

theorem Vetting.start : Vetting D (World.start D U) := by
  constructor <;> simp [World.start]

theorem pumpFrontend_vetted {n : Nat} {m : Frontend} : ∀ a ∈ pumpFrontend n m, a.Vetted D m := by
  unfold pumpFrontend
  split
  · have hself : Passes D .terminate .terminate := passes_of_sql_none rfl
    simpa using hself
  · simp
  · simp

theorem Vetting.front_moves {l : Label U} (h : Vetting D w) (hD : D.Rewrites) (ht : Threads w)
    (hl : Minted l w) (hm : Moves D l w w') : ∀ m, w'.sent[w'.read - 1]? = some m →
    ∀ a ∈ w'.front, a.Vetted D m := by
  cases hm with
  | @send _ x =>
    intro m hm a ha
    obtain ⟨m', -, hm', -⟩ := ht.front (List.ne_nil_of_mem ha)
    have hlt : w.read - 1 < w.sent.length := (List.getElem?_eq_some_iff.1 hm').1
    exact h.front m ((List.getElem?_append_left hlt).symm.trans hm) a ha
  | @readClient _ x rest hf hi hc =>
    intro m hm a ha
    have hx : w.sent[w.read]? = some x := by rw [← List.head?_drop, ht.inbox, hi]; rfl
    cases hx.symm.trans hm
    exact pumpFrontend_vetted a ha
  | @front _ now jobID a rest hf =>
    intro m hm b hb
    obtain ⟨m', hm', ha⟩ := ht.head hf
    obtain rfl : m' = m := Option.some.inj (hm'.symm.trans hm)
    rcases List.mem_append.1 hb with hb | hb
    · exact exec_vetted hD (hl jobID rfl) ha (h.front m' hm a (by simp [hf])) b hb
    · exact h.front m' hm b (by simp [hf, hb])
  | _ => exact h.front

theorem Vetting.moves {l : Label U} (h : Vetting D w) (hD : D.Rewrites) (ht : Threads w)
    (hl : Minted l w) (hm : Moves D l w w') : Vetting D w' := by
  refine ⟨h.front_moves hD ht hl hm, fun q hq n hn => ?_⟩
  have hkeep : ∀ {x}, w.sent[n]? = some x → w'.sent[n]? = some x := hm.sent_keep
  obtain ⟨qs, hqs, -, hnew⟩ := hm.writes ht
  rw [hqs] at hq
  rcases List.mem_append.1 hq with hq | hq
  · obtain ⟨m, hm', hp⟩ := h.written q hq n hn
    exact ⟨m, hkeep hm', hp⟩
  · rcases hnew with hnew | ⟨x, rest, hf, -, rfl, -⟩
    · exact absurd hn (hnew q hq n)
    · obtain rfl := List.mem_singleton.1 hq
      cases hn
      obtain ⟨m, hm', -⟩ := ht.head hf
      have hvet : (Act.writeUpstream (.client (w.read - 1)) [x]).Vetted D m :=
        h.front m hm' _ (by rw [hf]; exact List.mem_cons_self)
      exact ⟨m, hkeep hm', hvet x List.mem_cons_self⟩

end Vetting

def Withheld (w : World U) : Prop :=
  ∀ d ∈ w.got, ∀ n, d.source = .refusal n → n < w.read ∧ (Extended w.sent n → Dropped w n)

section Withheld

variable {w w' : World U} {a : Act} {rest : List Act} {d : Delivery} {n : Nat}

theorem frontAct_refusal {m : Frontend} (h : FrontAct n m a) (hd : a.delivery = some d) :
    a = .writeClient d ∧ d.source = .refusal n := by
  cases h with
  | code h =>
    cases a <;> cases hd
    exact ⟨rfl, h.1⟩
  | _ => cases hd

theorem backMode_refusal (h : BackMode (a :: rest)) (hd : a.delivery = some d) :
    d.source ≠ .refusal n := by
  intro hs
  cases h with
  | relaying h =>
    have ha := h _ List.mem_cons_self
    cases a <;> cases hd
    cases hs.symm.trans ha
  | repairing h =>
    cases h _ List.mem_cons_self with
    | code ha =>
      cases a <;> cases hd
      obtain ⟨k, hk⟩ := ha
      cases hs.symm.trans hk
    | _ => cases hd
  | failed =>
    cases hd
    cases hs
  | _ => cases hd

theorem Withheld.keep {l : Label U} (h : Withheld w) (ht : Threads w) (hr : Refusing w)
    (hm : Moves D l w w') (hd : d ∈ w.got) (hs : d.source = .refusal n) :
    n < w'.read ∧ (Extended w'.sent n → Dropped w' n) := by
  obtain ⟨hn, hdrop⟩ := h d hd n hs
  have hback : Extended w'.sent n → Extended w.sent n := by
    rintro ⟨m, hx, hext⟩
    obtain ⟨m', hm'⟩ : ∃ m', w.sent[n]? = some m' :=
      ⟨_, List.getElem?_eq_getElem (hn.trans_le ht.read_le)⟩
    obtain rfl : m' = m := Option.some.inj ((hm.sent_keep hm').symm.trans hx)
    exact ⟨m', hm', hext⟩
  refine ⟨?_, fun hext => (hdrop (hback hext)).moves ht hr hn (hback hext) hm⟩
  cases hm with
  | readClient => exact Nat.lt_succ_of_lt hn
  | _ => exact hn

theorem Withheld.moves {l : Label U} (h : Withheld w) (ht : Threads w) (hr : Refusing w)
    (hm : Moves D l w w') : Withheld w' := by
  intro d hd n hs
  cases hm with
  | @front _ now jobID a rest hf =>
    rcases List.mem_append.1 hd with hold | hnew
    · exact h.keep ht hr (.front hf) hold hs
    obtain ⟨m, hpos, hm, hall⟩ := ht.front (by simp [hf])
    rw [exec_client, Option.mem_toList] at hnew
    obtain ⟨rfl, hsource⟩ := frontAct_refusal (hall a (by simp [hf])) hnew
    cases hsource.symm.trans hs
    refine ⟨Nat.sub_lt hpos Nat.one_pos, ?_⟩
    rintro ⟨m', hm', hext⟩
    exact .inr (.inr (hr.dropped hf hm' hext))
  | @back _ a rest hb =>
    rcases List.mem_append.1 hd with hold | hnew
    · exact h.keep ht hr (.back hb) hold hs
    · rw [exec_client, Option.mem_toList] at hnew
      exact absurd hs (backMode_refusal (hb ▸ ht.back) hnew)
  | send => exact h.keep (D := D) ht hr .send hd hs
  | readClient hf hi hc => exact h.keep (D := D) ht hr (.readClient hf hi hc) hd hs
  | readUpstream hb hu hc => exact h.keep (D := D) ht hr (.readUpstream hb hu hc) hd hs
  | answer hq => exact h.keep (D := D) ht hr (.answer hq) hd hs

end Withheld

/-- The session reads SQL with `C`.  The ruleset refuses none of the constants that
stand for the server version, and to the parser the marker of a job is a comment. -/
structure Dialect.Reads (D : Dialect) (C : Classifier) : Prop where
  classify : D.classify = C.classify
  rewrite : D.rewriteSQL = Proxy.rewriteSQL D.serverVersion
  constants : ∀ p ∈ versionStatements D.serverVersion, ∀ nodes, C.parse p.2.sql = some nodes →
    ∀ node ∈ nodes, C.verdict false node = none
  comment : ∀ jobID sql, isJobID jobID = true → C.parse (jobMarker jobID ++ sql) = C.parse sql

section Gate

variable {C : Classifier} {w w' : World U}

theorem Dialect.Reads.rewrites (h : D.Reads C) : D.Rewrites where
  version sql r hr := by
    rw [h.rewrite] at hr
    obtain ⟨before, after, hmem, -⟩ := List.lookup_eq_some_iff.1 hr
    rw [h.classify]
    exact C.not_rejected (h.constants _ (hmem ▸ List.mem_append_right before List.mem_cons_self))
  marker jobID sql hj := by
    simp only [h.classify, Classifier.classify, h.comment jobID sql hj]

theorem Dialect.reads_embedded {parse : String → Option (List Message)}
    (hclassify : D.classify = (ofRuleset Rules.embedded parse).classify)
    (hrewrite : D.rewriteSQL = Proxy.rewriteSQL D.serverVersion)
    (hparse : ∀ p ∈ versionStatements D.serverVersion, ∃ value column,
      parse p.2.sql = some [.node "select_stmt" (selectAs value column)])
    (hcomment : ∀ jobID sql, isJobID jobID = true → parse (jobMarker jobID ++ sql) = parse sql) :
    D.Reads (ofRuleset Rules.embedded parse) := by
  refine ⟨hclassify, hrewrite, fun p hp nodes hnodes node hnode => ?_, hcomment⟩
  obtain ⟨value, column, hp⟩ := hparse p hp
  obtain rfl := Option.some.inj (hp.symm.trans hnodes)
  obtain rfl := List.mem_singleton.1 hnode
  exact verdict_selectAs value column

structure Gated (D : Dialect) (w : World U) : Prop where
  threads : Threads w
  ordered : Ordered w
  refusing : Refusing w
  vetting : Vetting D w
  withheld : Withheld w

theorem gated (hD : D.Rewrites) (hw : Reach (system D U) Minted w) : Gated D w := by
  refine hw.invariant (I := Gated D) ?_ fun l w w' h hl hs => ?_
  · exact ⟨.start, .start, .start, .start, by simp [Withheld, system, World.start]⟩
  · have hm := moves_of_step hs
    exact ⟨h.threads.moves hm, h.ordered.moves h.threads hm,
      h.refusing.moves h.threads h.ordered hm,
      h.vetting.moves hD h.threads hl hm, h.withheld.moves h.threads h.refusing hm⟩

/-- No text that holds a refused statement is written upstream for the client, and past
a refusal in an extended batch nothing but a `Terminate` is, up to the client's next `Sync`. -/
theorem written_texts_accepted (hC : D.Reads C) (hw : Reach (system D U) Minted w) :
    (∀ q ∈ w.written, ∀ n, q.origin = .client n → ∃ m, w.sent[n]? = some m ∧
      ∀ sql nodes, q.msg.sql = some sql → C.parse sql = some nodes →
        ∀ node ∈ nodes, C.verdict (stripped D m) node = none) ∧
    ∀ d ∈ w.got, ∀ n, d.source = .refusal n → Extended w.sent n →
      ∀ l w', step D l w = some w' → ∀ q ∈ w'.written.drop w.written.length, ∀ k, q.origin =
        .client k → q.msg = .terminate ∨ ∃ j, n < j ∧ j ≤ k ∧ w.sent[j]? = some .sync := by
  have hg := gated hC.rewrites hw
  constructor
  · intro q hq n hn
    obtain ⟨m, hm, hpass⟩ := hg.vetting.written q hq n hn
    refine ⟨m, hm, fun sql nodes hsql hparse => ?_⟩
    apply C.verdict_of_not_rejected _ hparse
    rw [← hC.classify]
    exact hpass sql hsql
  · intro d hd n hs hext l w' hstep q hq k hk
    obtain ⟨qs, hqs, -, hnew⟩ := (moves_of_step hstep).writes hg.threads
    rw [hqs, List.drop_left] at hq
    rcases hnew with hnew | ⟨m, rest, hf, -, rfl, -⟩
    · exact absurd hk (hnew q hq k)
    obtain rfl := List.mem_singleton.1 hq
    cases hk
    have hdrop : Dropped w n := (hg.withheld d hd n hs).2 hext
    rcases hdrop.forwarded hg.refusing (by rw [hf]; exact List.mem_cons_self) with ⟨j, x, hnj, hj,
      hx, hsync⟩ | hterm
    · refine .inr ⟨j, hnj, Nat.le_sub_one_of_lt hj, ?_⟩
      rw [hx, Frontend.eq_sync hsync]
    · exact .inl hterm

def parseLetters (sql : String) : Option (List Message) :=
  some [if sql.toList.contains 'U' then .node "truncate_stmt" (.of "TruncateStmt" [] [])
    else .node "select_stmt" (selectAs "" "")]

def Dialect.letters : Dialect :=
  { Dialect.sample [] with
    classify := (ofRuleset Rules.embedded parseLetters).classify
    rewriteSQL := Proxy.rewriteSQL "16.15"
    serverVersion := "16.15" }

theorem jobMarker_letters {jobID : String} (h : isJobID jobID = true) :
    'U' ∉ (jobMarker jobID).toList := by
  intro hU
  simp only [isJobID, Bool.and_eq_true, List.all_eq_true] at h
  simp only [jobMarker, String.toList_append, List.mem_append] at hU
  rcases hU with (hU | hU) | hU
  · exact absurd hU (by decide)
  · exact absurd (h.2 'U' hU) (by decide)
  · exact absurd hU (by decide)

theorem letters_constants : ∀ p ∈ versionStatements "16.15", p.2.sql.toList.contains 'U' =
    false := by
  decide +kernel

theorem parseLetters_marked (jobID sql : String) (hj : isJobID jobID = true) :
    parseLetters (jobMarker jobID ++ sql) = parseLetters sql := by
  have hU := jobMarker_letters hj
  simp [parseLetters, List.contains_eq_mem, String.toList_append, hU]

theorem letters_reads : Dialect.letters.Reads (ofRuleset Rules.embedded parseLetters) := by
  refine Dialect.reads_embedded rfl (by simp only [Dialect.letters]) (fun p hp => ⟨"", "", ?_⟩)
    parseLetters_marked
  rw [parseLetters, letters_constants p hp, if_neg Bool.false_ne_true]

def refusedTruncate : List (Label .any) :=
  List.flatten
    [[.send (.parse "a" "SELECT 1"), .send (.parse "b" "TRUNCATE t"), .send (.execute "a"),
      .send .sync, .readClient],
      List.replicate 4 (.front 0 "aaaaaaaaaaaaaaaaaaaaaaaaaa"), [.readClient],
      List.replicate 5 (.front 0 "aaaaaaaaaaaaaaaaaaaaaaaaaa"), [.readClient],
      List.replicate 1 (.front 0 "aaaaaaaaaaaaaaaaaaaaaaaaaa")]

theorem written_texts_accepted_truncate :
    let w := (system .letters .any).dest Minted refusedTruncate
    (∃ m, w.sent[0]? = some m ∧ ∀ node ∈ (parseLetters "SELECT 1").getD [],
        (ofRuleset Rules.embedded parseLetters).verdict (stripped .letters m) node = none) ∧
      ∀ l w', step .letters l w = some w' → ∀ q ∈ w'.written.drop w.written.length, ∀ k, q.origin =
        .client k → q.msg = .terminate ∨ ∃ j, 1 < j ∧ j ≤ k ∧ w.sent[j]? = some .sync := by
  let w := (system .letters .any).dest Minted refusedTruncate
  have hw : Reach (system .letters .any) Minted w := Reach.dest _ _
  have hwritten : ⟨.client 0, .parse "a" "SELECT 1"⟩ ∈ w.written := by decide +kernel
  have hgot : ⟨.refusal 1,
      .error { code := "0A000", message := "unsupported statement: Truncate" }⟩ ∈ w.got := by
    decide +kernel
  have hsent : w.sent[1]? = some (.parse "b" "TRUNCATE t") := by decide +kernel
  obtain ⟨htexts, hdropped⟩ := written_texts_accepted letters_reads hw
  obtain ⟨m, hm, hverdict⟩ := htexts _ hwritten 0 rfl
  exact ⟨⟨m, hm, hverdict _ _ rfl rfl⟩, hdropped _ hgot 1 rfl ⟨_, hsent, rfl⟩⟩

end Gate

end DsqlEmulator.Proxy
