import DsqlEmulator.Postgres.Transacts

/-! Which transactions PostgreSQL commits, by the statements it was sent. -/

namespace DsqlEmulator.Postgres

open Wire Classify Proxy

def Run.commits (r : Run) : Bool := r.statement.isCommit && !r.failed && r.found = .active

def Run.prepares (r : Run) : Bool :=
  r.statement = .prepareTransaction && !r.failed && r.found = .active

variable {U : Upstream} {parse : String → Option (List Statement)} {T : Transacts U parse}

/-- PostgreSQL as far as commits go.  Its transactions, blocks or not, are numbered, and it is known
which have been committed, and which were left to `COMMIT PREPARED`. -/
structure Commits (T : Transacts U parse) where
  txn : U.State → Nat
  committed : U.State → List Nat
  prepared : U.State → List Nat
  committed_init : committed U.init = []
  prepared_init : prepared U.init = []
  later : ∀ st m c, txn st ≤ txn (U.answer st m c).1
  ends : ∀ {st m c r}, r ∈ T.runs st m c → r.statement.ends = true →
    txn st < txn (U.answer st m c).1
  leaves : ∀ {st m c}, T.opened st = true → T.opened (U.answer st m c).1 = false →
    txn st < txn (U.answer st m c).1
  keeps : ∀ {st m c t}, t ∈ committed st → t ∈ committed (U.answer st m c).1
  commits : ∀ {st m c r rs}, T.runs st m c = r :: rs → r.commits = true →
    txn st ∈ committed (U.answer st m c).1
  -- a block is committed by a `COMMIT` that is executed in it, and by nothing else
  committed_of : ∀ {st m c t}, t ∈ committed (U.answer st m c).1 → t ∈ committed st ∨
    t ∈ prepared st ∨ txn st ≤ t ∧ t < txn (U.answer st m c).1 ∧
      (t = txn st → T.opened st = true → ∃ r ∈ T.runs st m c, r.commits = true)
  prepared_of : ∀ {st m c t}, t ∈ prepared (U.answer st m c).1 → t ∈ prepared st ∨
    txn st ≤ t ∧ t < txn (U.answer st m c).1 ∧
      (t = txn st → T.opened st = true → ∃ r ∈ T.runs st m c, r.prepares = true)
  -- how a query has gone is told once, if it is one statement or cannot be parsed
  tells : ∀ {st sql c}, T.skips st = false → (parse sql).all (·.length = 1) = true →
    (U.answer st (.query sql) c).2.countP Backend.isOutcome = 1

namespace Commits

variable (A : Commits T)

def Numbered (st : U.State) : Prop := ∀ t, t ∈ A.committed st ∨ t ∈ A.prepared st → t < A.txn st

/-- A transaction that has not been committed and that nothing can commit but the `COMMIT` of its
own block. -/
structure Barred (st : U.State) (t : Nat) : Prop where
  uncommitted : t ∉ A.committed st
  unprepared : t ∉ A.prepared st
  past : t < A.txn st ∨ t = A.txn st ∧ T.opened st = true

variable {A} {st : U.State} {m : Frontend} {c : U.Choice} {t : Nat}

theorem Numbered.init : A.Numbered U.init := by
  intro t ht
  rw [A.committed_init, A.prepared_init] at ht
  simp at ht

theorem Numbered.barred (h : A.Numbered st) (ho : T.opened st = true) : A.Barred st (A.txn st) :=
  ⟨fun ht => Nat.lt_irrefl _ (h _ (.inl ht)), fun ht => Nat.lt_irrefl _ (h _ (.inr ht)),
    .inr ⟨rfl, ho⟩⟩

theorem Barred.le (h : A.Barred st t) : t ≤ A.txn st := by
  obtain hlt | ⟨rfl, -⟩ := h.past
  · exact Nat.le_of_lt hlt
  · exact Nat.le_refl _

theorem Numbered.answer (h : A.Numbered st) : A.Numbered (U.answer st m c).1 := by
  have hlater : A.txn st ≤ A.txn (U.answer st m c).1 := A.later st m c
  rintro t (ht | ht)
  · rcases A.committed_of ht with ht | ht | ⟨-, ht, -⟩
    · exact Nat.lt_of_lt_of_le (h t (.inl ht)) hlater
    · exact Nat.lt_of_lt_of_le (h t (.inr ht)) hlater
    · exact ht
  · rcases A.prepared_of ht with ht | ⟨-, ht, -⟩
    · exact Nat.lt_of_lt_of_le (h t (.inr ht)) hlater
    · exact ht

theorem Barred.answer (h : A.Barred st t)
    (hc : t = A.txn st → ∀ r ∈ T.runs st m c, r.commits = false ∧ r.prepares = false) :
    A.Barred (U.answer st m c).1 t := by
  have hown (hle : A.txn st ≤ t) : t = A.txn st ∧ T.opened st = true := by
    obtain hlt | hsame := h.past
    · omega
    · exact hsame
  refine ⟨fun ht => ?_, fun ht => ?_, ?_⟩
  · rcases A.committed_of ht with ht | ht | ⟨hle, -, hruns⟩
    · exact h.uncommitted ht
    · exact h.unprepared ht
    · obtain ⟨rfl, hopened⟩ := hown hle
      obtain ⟨r, hr, hcommits⟩ := hruns rfl hopened
      exact Bool.false_ne_true ((hc rfl r hr).1.symm.trans hcommits)
  · rcases A.prepared_of ht with ht | ⟨hle, -, hruns⟩
    · exact h.unprepared ht
    · obtain ⟨rfl, hopened⟩ := hown hle
      obtain ⟨r, hr, hprepares⟩ := hruns rfl hopened
      exact Bool.false_ne_true ((hc rfl r hr).2.symm.trans hprepares)
  · have hlater : A.txn st ≤ A.txn (U.answer st m c).1 := A.later st m c
    obtain hlt | ⟨rfl, hopened⟩ := h.past
    · exact .inl (Nat.lt_of_lt_of_le hlt hlater)
    · cases hafter : T.opened (U.answer st m c).1 with
      | false => exact .inl (A.leaves hopened hafter)
      | true => exact (Nat.lt_or_eq_of_le hlater).imp_right fun heq => ⟨heq, rfl⟩

end Commits

def single (parsed : Option (List Statement)) : Bool :=
  parsed.all fun ss => ss.length = 1 && ss.all (!Statement.strays ·)

/-- What statements have done of which the last may have failed: the block they leave and the
transactions they commit. -/
structure Enacts (A : Commits T) (ss : List Statement) (errs : Bool) (st st' : U.State) : Prop where
  running : T.skips st' = false
  opened : T.opened st' = (ss.map Statement.kindOf).foldl Kind.plays (T.opened st)
  failed : T.failed st' = (errs && T.opened st')
  later : A.txn st ≤ A.txn st'
  ended : ss.any Statement.ends = true → A.txn st < A.txn st'
  numbered : A.Numbered st → A.Numbered st'
  barred : ∀ {t}, (ss.any Statement.isCommit = true → errs = false → t = A.txn st →
    T.failed st = true) → A.Barred st t → A.Barred st' t
  commits : ss.any Statement.isCommit = true → errs = false → T.opened st = true →
    T.failed st = false → A.txn st ∈ A.committed st'

/-- A block is brought back to where it was, or begun again. -/
structure Restores (A : Commits T) (errs : Bool) (st st' : U.State) : Prop where
  running : T.skips st' = false
  opened : T.opened st' = true
  failed : T.failed st' = errs
  numbered : A.Numbered st → A.Numbered st'
  barred : ∀ {t}, A.Barred st t → A.Barred st' t

section Statuses

variable {st : U.State}

theorem status_of_failed (h : T.failed st = true) : T.status st = .failed := of_decide_eq_true h

theorem status_of_closed (h : T.opened st = false) : T.status st = .idle := by
  rw [Transacts.opened] at h
  cases hs : T.status st with
  | idle => rfl
  | _ => rw [hs] at h; cases h

theorem status_of_open (ho : T.opened st = true) (h : T.failed st = false) :
    T.status st = .active := by
  refine (TxStatus.opened_iff.1 ho).resolve_right fun hfailed => ?_
  rw [Transacts.failed, hfailed] at h
  cases h

end Statuses

section Answer

variable {A : Commits T} {st : U.State} {sql : String} {c : U.Choice} {s : Statement}

theorem answer_query (T : Transacts U parse) (st : U.State) (sql : String) (c : U.Choice) :
    ∃ pre, (U.answer st (.query sql) c).2 = pre ++
      [.ready (T.status (U.answer st (.query sql) c).1)] ∧
      (∀ m ∈ pre, m.isReady = false) ∧ pre.any Backend.isError =
        failsIn (U.answer st (.query sql) c).2 := by
  obtain ⟨pre, hpre, ⟨-, s, hs⟩ | ⟨hdraws, -⟩⟩ := U.answers st (.query sql) c
  · have hready : T.status (U.answer st (.query sql) c).1 = s := T.ready (by simp [hs])
    refine ⟨pre, by rw [hs, hready], hpre, ?_⟩
    rw [failsIn, hs, List.any_append]
    simp [Backend.isError]
  · cases hdraws

theorem left_ne_failed {r : Run} (hf : r.failed = false) (ha : r.statement.allowed r.found = true) :
    r.left ≠ .failed := by
  obtain ⟨s, found, failed⟩ := r
  cases hf
  cases s with
  | commit chain => cases chain <;> simp [Run.left, Statement.completed]
  | rollback chain => cases chain <;> simp [Run.left, Statement.completed]
  | _ => cases found <;> first | (cases ha; done) | simp [Run.left, Statement.completed]

theorem failed_eq_opened (h : T.status st ≠ .active) : T.failed st = T.opened st := by
  unfold Transacts.failed Transacts.opened
  cases hs : T.status st with
  | active => exact absurd hs h
  | _ => rfl

theorem single_cases (hskip : T.skips st = false) (hsingle : single (parse sql) = true) :
    (T.runs st (.query sql) c = [] ∧ failsIn (U.answer st (.query sql) c).2 = true) ∨
      ∃ r, T.runs st (.query sql) c = [r] ∧ parse sql = some [r.statement] ∧
        r.failed = failsIn (U.answer st (.query sql) c).2 := by
  have hquery : (T.runs st (.query sql) c).map Run.statement <+: (parse sql).getD [] :=
    T.query hskip
  have hcompletes : failsIn (U.answer st (.query sql) c).2 = false ↔ _ := T.completes hskip
  cases hruns : T.runs st (.query sql) c with
  | nil =>
    refine .inl ⟨rfl, ?_⟩
    rw [hruns] at hcompletes
    by_contra herr
    obtain ⟨hparse, -⟩ := hcompletes.1 (Bool.eq_false_iff.2 herr)
    rw [hparse] at hsingle
    cases hsingle
  | cons r rs =>
    rw [hruns] at hquery hcompletes
    cases hparse : parse sql with
    | none => rw [hparse] at hquery; cases List.prefix_nil.1 hquery
    | some ss =>
      simp only [single, hparse, Option.all_some, Bool.and_eq_true, decide_eq_true_eq] at hsingle
      obtain ⟨s, rfl⟩ := List.length_eq_one_iff.1 hsingle.1
      rw [hparse, Option.getD_some, List.map_cons, List.cons_prefix_cons] at hquery
      obtain ⟨rfl, hrest⟩ := hquery
      obtain rfl := List.map_eq_nil_iff.1 (List.prefix_nil.1 hrest)
      refine .inr ⟨r, rfl, rfl, ?_⟩
      cases hf : r.failed with
      | true => exact (T.raises (hruns ▸ List.mem_cons_self) hf).symm
      | false => exact (hcompletes.2 ⟨hparse, by simpa using hf⟩).symm

theorem not_isCommit_of_not_ends {ss : List Statement} (h : ss.any Statement.ends = false) :
    ss.any Statement.isCommit = false := by
  rw [List.any_eq_false] at h ⊢
  exact fun s hs hc => h s hs (Statement.ends_of_isCommit hc)

theorem not_ends_of_not_turns {ss : List Statement} (h : ss.any Statement.turns = false) :
    ss.any Statement.ends = false := by
  rw [List.any_eq_false] at h ⊢
  intro s hs hends
  refine h s hs ?_
  cases s <;> first | rfl | cases hends

theorem failed_of_error (h : failsIn (U.answer st (.query sql) c).2 = true) :
    T.failed (U.answer st (.query sql) c).1 = (true && T.opened (U.answer st (.query sql) c).1) :=
  failed_eq_opened (Transacts.status_ne_active h)

theorem enacts (A : Commits T) (hskip : T.skips st = false) (hsingle : single (parse sql) = true)
    (hc : T.Carries st (.query sql) c) : Enacts A (statementsOf parse (.query sql))
      (failsIn (U.answer st (.query sql) c).2) st (U.answer st (.query sql) c).1 := by
  have hopened := Transacts.opened_query hskip hc
  have hwakes : T.skips (U.answer st (.query sql) c).1 = false := T.wakes rfl (.inl hskip)
  have hlater := A.later st (.query sql) c
  obtain ⟨hruns, herr⟩ | ⟨r, hruns, hparse, hfailed⟩ := single_cases (c := c) hskip hsingle
  · -- nothing was run, so nothing is left out that opens or ends a transaction
    have hturns : (statementsOf parse (.query sql)).any Statement.turns = false := by
      have hrest := hc.2
      rwa [hruns, List.length_nil, List.drop_zero] at hrest
    have hends := not_ends_of_not_turns hturns
    refine ⟨hwakes, hopened, ?_, hlater, by simp [hends], Commits.Numbered.answer,
      fun _ h => ?_, ?_⟩
    · rw [herr]
      exact failed_of_error herr
    · exact h.answer fun _ r hr => by rw [hruns] at hr; cases hr
    · simp [not_isCommit_of_not_ends hends]
  · have hss : statementsOf parse (.query sql) = [r.statement] := by simp [statementsOf, hparse]
    have hproceeds := T.proceeds st (.query sql) c
    rw [hruns] at hproceeds
    obtain ⟨hfound, hallowed, -⟩ := hproceeds
    have hstrays : r.statement.strays = false := by simpa [single, hparse] using hsingle
    refine ⟨hwakes, hopened, ?_, hlater, fun hends => ?_, Commits.Numbered.answer,
      fun hcommit h => ?_, fun hcommit herr ho hf => ?_⟩
    · cases herr : failsIn (U.answer st (.query sql) c).2 with
      | true => exact failed_of_error herr
      | false =>
        have hleft : T.status (U.answer st (.query sql) c).1 = r.left := by
          rw [T.leaves, herr, hruns]
          rfl
        have hunfailed := hfailed.trans herr
        rw [Transacts.failed, hleft, decide_eq_false, Bool.false_and]
        exact left_ne_failed hunfailed (hfound ▸ hallowed hunfailed)
    · exact A.ends (hruns ▸ List.mem_cons_self) (by simpa [hss] using hends)
    · refine h.answer fun ht r' hr' => ?_
      rw [hruns] at hr'
      obtain rfl := List.mem_singleton.1 hr'
      refine ⟨Bool.eq_false_iff.2 fun hcommits => ?_, ?_⟩
      · simp only [Run.commits, Bool.and_eq_true, Bool.not_eq_true', decide_eq_true_eq] at hcommits
        obtain ⟨⟨hcommits, hunfailed⟩, hactive⟩ := hcommits
        have hstatus :=
          status_of_failed (hcommit (by simpa [hss] using hcommits) (hfailed ▸ hunfailed) ht)
        rw [← hfound, hactive] at hstatus
        cases hstatus
      · cases hs : r'.statement with
        | prepareTransaction => rw [hs] at hstrays; cases hstrays
        | _ => simp [Run.prepares, hs]
    · refine A.commits hruns ?_
      have hisCommit : r.statement.isCommit = true := by simpa [hss] using hcommit
      simp [Run.commits, hisCommit, hfailed, herr, hfound, status_of_open ho hf]

theorem answer_single (A : Commits T) (hskip : T.skips st = false)
    (hsingle : single (parse sql) = true) (hc : T.Carries st (.query sql) c) : ∃ pre st',
      U.answer st (.query sql) c = (st', pre ++ [.ready (T.status st')]) ∧
      (∀ m ∈ pre, m.isReady = false) ∧ pre.countP Backend.isOutcome = 1 ∧
      Enacts A (statementsOf parse (.query sql)) (pre.any Backend.isError) st st' := by
  obtain ⟨pre, hpre, hready, herr⟩ := answer_query T st sql c
  have htells : (U.answer st (.query sql) c).2.countP Backend.isOutcome = 1 := by
    refine A.tells hskip ?_
    cases hparse : parse sql with
    | none => rfl
    | some ss =>
      simp only [single, hparse, Option.all_some, Bool.and_eq_true] at hsingle ⊢
      exact hsingle.1
  refine ⟨pre, (U.answer st (.query sql) c).1, Prod.ext rfl hpre, hready, ?_,
    herr ▸ enacts A hskip hsingle hc⟩
  rw [hpre, List.countP_append] at htells
  simpa [Backend.isOutcome, Backend.isError, Backend.isComplete] using htells

theorem answer_raise (A : Commits T) (hskip : T.skips st = false)
    (hparse : parse sql = some [.raise]) (hc : T.Carries st (.query sql) c) : ∃ pre st',
      U.answer st (.query sql) c = (st', pre ++ [.ready (T.status st')]) ∧
      (∀ m ∈ pre, m.isReady = false) ∧ Enacts A [.raise] true st st' := by
  have hsingle : single (parse sql) = true := by rw [hparse]; rfl
  have herr : failsIn (U.answer st (.query sql) c).2 = true := by
    obtain ⟨-, herr⟩ | ⟨r, hruns, hparse', hfailed⟩ := single_cases (c := c) hskip hsingle
    · exact herr
    · have hproceeds := T.proceeds st (.query sql) c
      rw [hruns] at hproceeds
      have hraise : .raise = r.statement := by simpa [hparse] using hparse'
      have hallowed := hproceeds.2.1
      rw [← hraise] at hallowed
      rw [← hfailed]
      by_contra hunfailed
      cases hallowed (Bool.eq_false_iff.2 hunfailed)
  obtain ⟨pre, hpre, hready, -⟩ := answer_query T st sql c
  have henacts := enacts A hskip hsingle hc
  rw [herr, statementsOf, hparse] at henacts
  exact ⟨pre, _, Prod.ext rfl hpre, hready, henacts⟩

theorem Enacts.restores {ss : List Statement} {errs : Bool} {st' : U.State}
    (h : Enacts A ss errs st st') (hss : ss.any Statement.turns = false) (ho : T.opened st = true) :
    Restores A errs st st' := by
  have hcommit := not_isCommit_of_not_ends (not_ends_of_not_turns hss)
  have hopened : T.opened st' = true := by rw [h.opened, foldl_plays_of_not_turns hss, ho]
  exact ⟨h.running, hopened, by rw [h.failed, hopened, Bool.and_true], h.numbered,
    h.barred (by simp [hcommit])⟩

theorem answer_restart (A : Commits T) (hskip : T.skips st = false)
    (hparse : parse sql = some [.rollback false, .begin]) (hc : T.Carries st (.query sql) c) :
    ∃ pre st', U.answer st (.query sql) c = (st', pre ++ [.ready (T.status st')]) ∧
      (∀ m ∈ pre, m.isReady = false) ∧ Restores A (pre.any Backend.isError) st st' := by
  have hquery : (T.runs st (.query sql) c).map Run.statement <+: (parse sql).getD [] :=
    T.query hskip
  have hcompletes : failsIn (U.answer st (.query sql) c).2 = false ↔ _ := T.completes hskip
  have hproceeds := T.proceeds st (.query sql) c
  obtain ⟨hstrays, hrest⟩ := hc
  simp only [statementsOf, hparse, Option.getD_some] at hquery hrest hcompletes
  -- both statements are run, as neither may be left out
  obtain ⟨r₁, r₂, hruns, hr₁, hr₂⟩ : ∃ r₁ r₂, T.runs st (.query sql) c = [r₁, r₂] ∧
      r₁.statement = .rollback false ∧ r₂.statement = .begin := by
    match hruns : T.runs st (.query sql) c with
    | [] => rw [hruns] at hrest; cases hrest
    | [r] => rw [hruns] at hrest; cases hrest
    | [r₁, r₂] =>
      rw [hruns] at hquery
      have heq := hquery.eq_of_length rfl
      simp only [List.map_cons, List.map_nil, List.cons.injEq, and_true] at heq
      exact ⟨r₁, r₂, rfl, heq⟩
    | r₁ :: r₂ :: r₃ :: rs =>
      rw [hruns] at hquery
      have hlength := hquery.length_le
      simp at hlength
  rw [hruns] at hproceeds hstrays hcompletes
  obtain ⟨-, -, hlast, hfound, -⟩ := hproceeds
  have hr₁' : r₁.failed = false := Bool.eq_false_iff.2 fun h => by cases hlast h
  have hidle : r₁.left = .idle := by simp [Run.left, hr₁', hr₁, Statement.completed]
  have hr₂' : r₂.failed = false := by
    have hs := hstrays r₂ (by simp)
    simpa [Run.strays, hr₂, hfound, hidle, Statement.strays] using hs
  have herr := hcompletes.2 ⟨by simp [hr₁, hr₂], by simp [hr₁', hr₂']⟩
  have hstatus : T.status (U.answer st (.query sql) c).1 = .active := by
    rw [T.leaves, herr, hruns]
    simp [leaving, Run.left, hr₂', hr₂, Statement.completed]
  obtain ⟨pre, hpre, hready, hany⟩ := answer_query T st sql c
  refine ⟨pre, _, Prod.ext rfl hpre, hready, T.wakes rfl (.inl hskip), ?_, ?_,
    Commits.Numbered.answer, fun h => ?_⟩
  · rw [Transacts.opened, hstatus]
    rfl
  · rw [hany, herr, Transacts.failed, hstatus]
    rfl
  · refine h.answer fun _ r hr => ?_
    rw [hruns] at hr
    simp only [List.mem_cons, List.not_mem_nil, or_false] at hr
    obtain rfl | rfl := hr
    · simp [Run.commits, Run.prepares, hr₁, Statement.isCommit]
    · simp [Run.commits, Run.prepares, hr₂, Statement.isCommit]

end Answer

end DsqlEmulator.Postgres
