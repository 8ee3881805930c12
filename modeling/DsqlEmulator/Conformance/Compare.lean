import DsqlEmulator.Conformance.Record

/-! The comparison of a recorded case with a replay of it, and when a replay passes. -/

namespace DsqlEmulator.Conformance

structure Difference : Type where
  caseName : String
  session : Nat := 0
  steps : List String := []
  step : Nat := 0
  field : String
  golden : Json
  emulator : Json
  advisory : Bool := false
  knownGap : String := ""

abbrev Add : Type := String → Json → Json → Bool → Difference

def brief (o : Observation) : String :=
  if o.outcome = "error" then "error " ++ o.sqlState ++ " " ++ o.message else "ok " ++ o.commandTag

section Compare

def compareResult (add : Add) (field : String → String) (ignoreRows : Bool) (w g : Result) :
    List Difference :=
  (if w.commandTag ≠ g.commandTag ∧ ¬ (ignoreRows && isRowCountTag w.commandTag) then
      [add (field "command_tag") (.str w.commandTag) (.str g.commandTag) false]
    else []) ++
  (if w.columns ≠ g.columns then
      [add (field "columns") (.arr (w.columns.map .str)) (.arr (g.columns.map .str)) false]
    else []) ++
  if ¬ ignoreRows ∧ w.rows ≠ g.rows then [add (field "rows") w.rows.json g.rows.json false] else []

def compareResults (add : Add) (ignoreRows : Bool) :
    Nat → List Result → List Result → List Difference
  | n, w :: ws, g :: gs =>
    compareResult add (fun name => "result " ++ toString n ++ " " ++ name) ignoreRows w g ++
      compareResults add ignoreRows (n + 1) ws gs
  | _, _, _ => []

def compareStep (add : Add) (ignoreRows : Bool) (w g : Observation) : List Difference :=
  if w.outcome ≠ g.outcome then
    [add "outcome" (.str w.outcome) (.str g.outcome) false,
      add "detail" (.str (brief w)) (.str (brief g)) true]
  else if w.outcome = "error" then
    (if w.sqlState ≠ "" ∧
      w.sqlState ≠ g.sqlState then [add "sqlstate" (.str w.sqlState) (.str g.sqlState) false]
      else []) ++
    if w.message ≠ g.message then [add "message" (.str w.message) (.str g.message) true] else []
  else
    compareResult add id ignoreRows w.toResult g.toResult ++
      if w.results.length ≠ g.results.length then
        [add "result_count" (.str (toString w.results.length))
          (.str (toString g.results.length)) false]
      else compareResults add ignoreRows 0 w.results g.results

def compareSteps (add : Nat → Add) (ignoreRows : Bool) : Nat → List Observation → List Observation →
    List Difference
  | i, w :: ws, g :: gs =>
    compareStep (add i) ignoreRows w g ++ compareSteps add ignoreRows (i + 1) ws gs
  | _, _, _ => []

variable (golden emulated : RecordedCase)

def compareObservations (session : Nat) (steps : List String) (want got : List Observation) :
    List Difference :=
  let add (i : Nat) (field : String) (w g : Json) (advisory : Bool) : Difference :=
    ⟨golden.name, session, steps, i, field, w, g, advisory, emulated.knownGap⟩
  if want.length ≠ got.length then
    [add 0 "step_count" (.str (toString want.length)) (.str (toString got.length)) false]
  else compareSteps add emulated.ignoreRows 0 want got

def sessionSteps (i : Nat) : List String := emulated.sessions[i]?.getD []

def lost (s : List Observation) : List Observation := s.getLast?.toList.filter (·.outcome = "error")

def compareRaces : Nat → List (List Observation) → List (List Observation) →
    List Difference × List Observation × List Observation
  | i, want :: ws, got :: gs =>
    let rest := compareRaces (i + 1) ws gs
    if want.length ≠ got.length ∨ want = [] then
      (compareObservations golden emulated i (sessionSteps emulated i) want got ++ rest.1, rest.2)
    else
      (compareObservations golden emulated i (sessionSteps emulated i) want.dropLast
        got.dropLast ++ rest.1, lost want ++ rest.2.1, lost got ++ rest.2.2)
  | _, _, _ => ([], [], [])

def compareLost (add : Add) : List Observation → List Observation → List Difference
  | w :: ws, g :: gs =>
    (if w.sqlState ≠ g.sqlState then [add "sqlstate" (.str w.sqlState) (.str g.sqlState) false]
      else []) ++ compareLost add ws gs
  | _, _ => []

def addRace (field : String) (w g : Json) (advisory : Bool) : Difference :=
  { caseName := golden.name, field := field, golden := w, emulator := g, advisory := advisory,
    knownGap := emulated.knownGap }

def compareConflictRace : List Difference :=
  let (diffs, goldenLost, emulatedLost) :=
    compareRaces golden emulated 0 golden.sessionResults emulated.sessionResults
  if goldenLost.length ≠ emulatedLost.length then
    diffs ++ [addRace golden emulated "conflict_losers" (.str (toString goldenLost.length))
      (.str (toString emulatedLost.length)) false]
  else diffs ++ compareLost (addRace golden emulated) goldenLost emulatedLost

def comparePlain : Nat → List (List Observation) → List (List Observation) → List Difference
  | i, want :: ws, got :: gs =>
    compareObservations golden emulated i (sessionSteps emulated i) want got ++ comparePlain
      (i + 1) ws gs
  | _, _, _ => []

def compareSessions : List Difference :=
  if golden.sessionResults.length ≠ emulated.sessionResults.length then
    [{ caseName := golden.name, field := "session_count", golden := .str (toString
      golden.sessionResults.length), emulator := .str (toString emulated.sessionResults.length) }]
  else if emulated.conflictRace || golden.conflictRace then compareConflictRace golden emulated
  else comparePlain golden emulated 0 golden.sessionResults emulated.sessionResults

def compare : List Difference :=
  if 0 < golden.sessionResults.length ∨ 0 < emulated.sessionResults.length then compareSessions
    golden emulated
  else compareObservations golden emulated 0 emulated.steps golden.observations
    emulated.observations

end Compare

def failures (diffs : List Difference) : List Difference :=
  diffs.filter fun d => !d.advisory && d.knownGap = ""

def Passes (golden emulated : RecordedCase) : Prop := failures (compare golden emulated) = []

instance {golden emulated : RecordedCase} : Decidable (Passes golden emulated) :=
  decidable_of_iff ((failures (compare golden emulated)).isEmpty = true) List.isEmpty_iff

section Passing

structure ResultOk (ignoreRows : Bool) (w g : Result) : Prop where
  tag : w.commandTag = g.commandTag ∨ (ignoreRows && isRowCountTag w.commandTag) = true
  columns : w.columns = g.columns
  rows : ignoreRows = true ∨ w.rows = g.rows

structure StepOk (ignoreRows : Bool) (w g : Observation) : Prop where
  outcome : w.outcome = g.outcome
  error : w.outcome = "error" → w.sqlState = "" ∨ w.sqlState = g.sqlState
  answer : w.outcome ≠ "error" → ResultOk ignoreRows w.toResult g.toResult
  results : w.outcome ≠ "error" → List.Forall₂ (ResultOk ignoreRows) w.results g.results

def RaceOk (ignoreRows : Bool) (want got : List Observation) : Prop :=
  want.length = got.length ∧ List.Forall₂ (StepOk ignoreRows) want.dropLast got.dropLast

def losers (sessions : List (List Observation)) : List String :=
  (sessions.flatMap lost).map Observation.sqlState

@[simp] theorem failures_nil : failures [] = [] := rfl

@[simp] theorem failures_append {ds ds' : List Difference} :
    failures (ds ++ ds') = failures ds ++ failures ds' :=
  List.filter_append ds ds'

def Counted (add : Add) : Prop := ∀ field w g advisory, (add field w g advisory).knownGap = "" ∧
  (add field w g advisory).advisory = advisory

variable {add : Add} {ignoreRows : Bool} {name field : String} {w g : Json}
  {fields : String → String}

theorem failures_add (h : Counted add) : failures [add field w g false] ≠ [] := by
  simp [failures, h field w g false]

theorem failures_advisory (h : Counted add) : failures [add field w g true] = [] := by
  simp [failures, h field w g true]

theorem failures_ite (h : Counted add) {p : Prop} [Decidable p] :
    failures (if p then [add field w g false] else []) = [] ↔ ¬ p := by
  by_cases hp : p
  · rw [if_pos hp]
    exact ⟨fun hs => absurd hs (failures_add h), fun hn => absurd hp hn⟩
  · simp [hp]

theorem compareResult_iff (h : Counted add) {w g : Result} :
    failures (compareResult add fields ignoreRows w g) = [] ↔ ResultOk ignoreRows w g := by
  simp only [compareResult, failures_append, List.append_eq_nil_iff, failures_ite h]
  constructor
  · rintro ⟨⟨htag, hcol⟩, hrows⟩
    exact ⟨by grind, by grind, by grind⟩
  · rintro ⟨htag, hcol, hrows⟩
    grind

theorem compareResults_iff (h : Counted add) {n : Nat} {ws gs : List Result}
    (hlen : ws.length = gs.length) :
    failures (compareResults add ignoreRows n ws gs) = [] ↔
      List.Forall₂ (ResultOk ignoreRows) ws gs := by
  induction ws generalizing n gs with
  | nil =>
    obtain rfl := List.length_eq_zero_iff.1 hlen.symm
    simp [compareResults]
  | cons w ws ih =>
    obtain ⟨g, gs, rfl⟩ := List.exists_cons_of_length_eq_add_one hlen.symm
    rw [compareResults, failures_append, List.append_eq_nil_iff, compareResult_iff h,
      List.forall₂_cons, ih (Nat.succ.inj hlen)]

theorem compareStep_iff (h : Counted add) {w g : Observation} :
    failures (compareStep add ignoreRows w g) = [] ↔ StepOk ignoreRows w g := by
  unfold compareStep
  by_cases hout : w.outcome = g.outcome
  · rw [if_neg (not_not.2 hout)]
    by_cases herr : w.outcome = "error"
    · have hmessage : failures (if w.message ≠ g.message then
          [add "message" (.str w.message) (.str g.message) true] else []) = [] := by
        split
        · exact failures_advisory h
        · rfl
      rw [if_pos herr, failures_append, hmessage, List.append_nil, failures_ite h]
      refine ⟨fun hs => ⟨hout, fun _ => ?_, absurd herr, absurd herr⟩, fun hok hs => ?_⟩
      · by_cases hempty : w.sqlState = ""
        · exact .inl hempty
        · exact .inr (not_not.1 fun hne => hs ⟨hempty, hne⟩)
      · exact (hok.error herr).elim hs.1 hs.2
    · rw [if_neg herr, failures_append, List.append_eq_nil_iff, compareResult_iff h]
      by_cases hlen : w.results.length = g.results.length
      · rw [if_neg (not_not.2 hlen), compareResults_iff h hlen]
        exact ⟨fun hs => ⟨hout, fun he => absurd he herr, fun _ => hs.1, fun _ => hs.2⟩,
          fun hok => ⟨hok.answer herr, hok.results herr⟩⟩
      · rw [if_pos hlen]
        exact ⟨fun hs => absurd hs.2 (failures_add h), fun hok =>
          absurd (hok.results herr).length_eq hlen⟩
  · rw [if_pos hout]
    refine ⟨fun hs => ?_, fun hok => absurd hok.outcome hout⟩
    have happend : failures ([add "outcome" (.str w.outcome) (.str g.outcome) false] ++
        [add "detail" (.str (brief w)) (.str (brief g)) true]) = [] := hs
    rw [failures_append, List.append_eq_nil_iff] at happend
    exact absurd happend.1 (failures_add h)

theorem compareSteps_iff {add : Nat → Add} (h : ∀ i, Counted (add i)) {i : Nat}
    {ws gs : List Observation} (hlen : ws.length = gs.length) :
    failures (compareSteps add ignoreRows i ws gs) = [] ↔
      List.Forall₂ (StepOk ignoreRows) ws gs := by
  induction ws generalizing i gs with
  | nil =>
    obtain rfl := List.length_eq_zero_iff.1 hlen.symm
    simp [compareSteps]
  | cons w ws ih =>
    obtain ⟨g, gs, rfl⟩ := List.exists_cons_of_length_eq_add_one hlen.symm
    rw [compareSteps, failures_append, List.append_eq_nil_iff, compareStep_iff (h i),
      List.forall₂_cons, ih (Nat.succ.inj hlen)]

variable {golden emulated : RecordedCase} {session i : Nat} {steps : List String}
  {want got : List Observation} {ws gs : List (List Observation)}

theorem compareObservations_iff (hgap : emulated.knownGap = "") :
    failures (compareObservations golden emulated session steps want got) = [] ↔
      List.Forall₂ (StepOk emulated.ignoreRows) want got := by
  have hadd (i : Nat) : Counted fun field w g advisory =>
      (⟨golden.name, session, steps, i, field, w, g, advisory, emulated.knownGap⟩ : Difference) :=
    fun _ _ _ _ => ⟨hgap, rfl⟩
  unfold compareObservations
  by_cases hlen : want.length = got.length
  · rw [if_neg (not_not.2 hlen)]
    exact compareSteps_iff hadd hlen
  · rw [if_pos hlen]
    exact ⟨fun hs => absurd hs (failures_add (hadd 0)), fun hok => absurd hok.length_eq hlen⟩

theorem compareRaces_iff (hgap : emulated.knownGap = "") (hlen : ws.length = gs.length) :
    failures (compareRaces golden emulated i ws gs).1 = [] ↔
      List.Forall₂ (RaceOk emulated.ignoreRows) ws gs := by
  induction ws generalizing i gs with
  | nil =>
    obtain rfl := List.length_eq_zero_iff.1 hlen.symm
    simp [compareRaces]
  | cons want ws ih =>
    obtain ⟨got, gs, rfl⟩ := List.exists_cons_of_length_eq_add_one hlen.symm
    rw [compareRaces, List.forall₂_cons, ← ih (Nat.succ.inj hlen)]
    by_cases hcount : want.length ≠ got.length ∨ want = []
    · rw [if_pos hcount, failures_append, List.append_eq_nil_iff, compareObservations_iff hgap]
      refine and_congr_left' ⟨fun hok => ⟨hok.length_eq, ?_⟩, fun hok => ?_⟩
      · obtain rfl := hcount.resolve_left (not_not.2 hok.length_eq)
        obtain rfl := List.forall₂_nil_left_iff.1 hok
        exact .nil
      · obtain rfl := hcount.resolve_left (not_not.2 hok.1)
        obtain rfl := List.length_eq_zero_iff.1 hok.1.symm
        exact .nil
    · rw [if_neg hcount, failures_append, List.append_eq_nil_iff, compareObservations_iff hgap]
      exact and_congr_left' ⟨fun hok => ⟨not_not.1 fun hne => hcount (.inl hne), hok⟩, And.right⟩

theorem compareRaces_lost (h : List.Forall₂ (RaceOk ignoreRows) ws gs) :
    (compareRaces golden emulated i ws gs).2 = (ws.flatMap lost, gs.flatMap lost) := by
  induction h generalizing i with
  | nil => rfl
  | @cons want got ws gs hok _ ih =>
    rw [compareRaces]
    by_cases hempty : want = []
    · subst hempty
      obtain rfl := List.length_eq_zero_iff.1 hok.1.symm
      exact ih
    · rw [if_neg fun hcount => hcount.elim (fun hne => hne hok.1) hempty, ih]
      rfl

theorem compareLost_iff (h : Counted add) {ws gs : List Observation}
    (hlen : ws.length = gs.length) : failures (compareLost add ws gs) = [] ↔
      ws.map Observation.sqlState = gs.map Observation.sqlState := by
  induction ws generalizing gs with
  | nil =>
    obtain rfl := List.length_eq_zero_iff.1 hlen.symm
    simp [compareLost]
  | cons w ws ih =>
    obtain ⟨g, gs, rfl⟩ := List.exists_cons_of_length_eq_add_one hlen.symm
    rw [compareLost, failures_append, List.append_eq_nil_iff, failures_ite h, not_not,
      ih (Nat.succ.inj hlen), List.map_cons, List.map_cons, List.cons.injEq]

theorem compareConflictRace_iff (hgap : emulated.knownGap = "")
    (hlen : golden.sessionResults.length = emulated.sessionResults.length) :
    failures (compareConflictRace golden emulated) = [] ↔
      List.Forall₂ (RaceOk emulated.ignoreRows) golden.sessionResults emulated.sessionResults ∧
        losers golden.sessionResults = losers emulated.sessionResults := by
  have hadd : Counted (addRace golden emulated) := fun _ _ _ _ => ⟨hgap, rfl⟩
  have hsplit : failures (compareConflictRace golden emulated) = [] ↔
      failures (compareRaces golden emulated 0 golden.sessionResults emulated.sessionResults).1 =
        [] ∧ (compareRaces golden emulated 0 golden.sessionResults emulated.sessionResults).2.1.map
          Observation.sqlState =
          (compareRaces golden emulated 0 golden.sessionResults emulated.sessionResults).2.2.map
              Observation.sqlState := by
    unfold compareConflictRace
    generalize compareRaces golden emulated 0 golden.sessionResults emulated.sessionResults = r
    obtain ⟨diffs, goldenLost, emulatedLost⟩ := r
    by_cases hlost : goldenLost.length = emulatedLost.length
    · simp only [hlost, ne_eq, not_true_eq_false, if_false, failures_append, List.append_eq_nil_iff,
        compareLost_iff hadd hlost]
    · have hne : goldenLost.map Observation.sqlState ≠ emulatedLost.map Observation.sqlState :=
        fun heq => hlost (by simpa using congrArg List.length heq)
      simp only [hlost, ne_eq, not_false_eq_true, if_true, failures_append, List.append_eq_nil_iff,
        hne, and_false, failures_add hadd]
  rw [hsplit, compareRaces_iff hgap hlen]
  refine and_congr_right fun hok => ?_
  rw [compareRaces_lost hok]
  rfl

theorem comparePlain_iff (hgap : emulated.knownGap = "") (hlen : ws.length = gs.length) :
    failures (comparePlain golden emulated i ws gs) = [] ↔
      List.Forall₂ (List.Forall₂ (StepOk emulated.ignoreRows)) ws gs := by
  induction ws generalizing i gs with
  | nil =>
    obtain rfl := List.length_eq_zero_iff.1 hlen.symm
    simp [comparePlain]
  | cons want ws ih =>
    obtain ⟨got, gs, rfl⟩ := List.exists_cons_of_length_eq_add_one hlen.symm
    rw [comparePlain, failures_append, List.append_eq_nil_iff, compareObservations_iff hgap,
      List.forall₂_cons, ih (Nat.succ.inj hlen)]

end Passing

section KnownGap

def Waived (add : Add) : Prop := ∀ field w g advisory, (add field w g advisory).knownGap ≠ ""

variable {add : Add} {ignoreRows : Bool} {fields : String → String}

theorem failures_waived (h : Waived add) {field : String} {w g : Json} {advisory : Bool} :
    failures [add field w g advisory] = [] := by
  simp [failures, h field w g advisory]

theorem failures_ite_waived (h : Waived add) {p : Prop} [Decidable p] {field : String} {w g : Json}
    {advisory : Bool} : failures (if p then [add field w g advisory] else []) = [] := by
  split
  · exact failures_waived h
  · rfl

theorem compareResult_waived (h : Waived add) {w g : Result} :
    failures (compareResult add fields ignoreRows w g) = [] := by
  simp only [compareResult, failures_append, failures_ite_waived h, List.append_nil]

theorem compareResults_waived (h : Waived add) {n : Nat} {ws gs : List Result} :
    failures (compareResults add ignoreRows n ws gs) = [] := by
  induction ws generalizing n gs with
  | nil => rfl
  | cons w ws ih =>
    cases gs with
    | nil => rfl
    | cons g gs => rw [compareResults, failures_append, compareResult_waived h, ih, List.append_nil]

theorem compareStep_waived (h : Waived add) {w g : Observation} :
    failures (compareStep add ignoreRows w g) = [] := by
  unfold compareStep
  split
  · show failures ([_] ++ [_]) = []
    rw [failures_append, failures_waived h, failures_waived h]
    rfl
  · split
    · rw [failures_append, failures_ite_waived h, failures_ite_waived h, List.append_nil]
    · rw [failures_append, compareResult_waived h, List.nil_append]
      split
      · exact failures_waived h
      · exact compareResults_waived h

theorem compareSteps_waived {add : Nat → Add} (h : ∀ i, Waived (add i)) {i : Nat}
    {ws gs : List Observation} : failures (compareSteps add ignoreRows i ws gs) = [] := by
  induction ws generalizing i gs with
  | nil => rfl
  | cons w ws ih =>
    cases gs with
    | nil => rfl
    | cons g gs => rw [compareSteps, failures_append, compareStep_waived (h i), ih, List.append_nil]

variable {golden emulated : RecordedCase} {session i : Nat} {steps : List String}
  {want got : List Observation} {ws gs : List (List Observation)}

theorem compareObservations_waived (hgap : emulated.knownGap ≠ "") :
    failures (compareObservations golden emulated session steps want got) = [] := by
  have hadd (i : Nat) : Waived fun field w g advisory =>
      (⟨golden.name, session, steps, i, field, w, g, advisory, emulated.knownGap⟩ : Difference) :=
    fun _ _ _ _ => hgap
  unfold compareObservations
  split
  · exact failures_waived (hadd 0)
  · exact compareSteps_waived hadd

theorem compareRaces_waived (hgap : emulated.knownGap ≠ "") :
    failures (compareRaces golden emulated i ws gs).1 = [] := by
  induction ws generalizing i gs with
  | nil => rfl
  | cons want ws ih =>
    cases gs with
    | nil => rfl
    | cons got gs =>
      rw [compareRaces]
      split
      · rw [failures_append, compareObservations_waived hgap, ih, List.append_nil]
      · rw [failures_append, compareObservations_waived hgap, ih, List.append_nil]

theorem compareLost_waived (h : Waived add) {ws gs : List Observation} :
    failures (compareLost add ws gs) = [] := by
  induction ws generalizing gs with
  | nil => rfl
  | cons w ws ih =>
    cases gs with
    | nil => rfl
    | cons g gs => rw [compareLost, failures_append, failures_ite_waived h, ih, List.append_nil]

theorem compareConflictRace_waived (hgap : emulated.knownGap ≠ "") :
    failures (compareConflictRace golden emulated) = [] := by
  have hadd : Waived (addRace golden emulated) := fun _ _ _ _ => hgap
  unfold compareConflictRace
  simp only
  split
  · rw [failures_append, compareRaces_waived hgap, failures_waived hadd, List.append_nil]
  · rw [failures_append, compareRaces_waived hgap, compareLost_waived hadd, List.append_nil]

theorem comparePlain_waived (hgap : emulated.knownGap ≠ "") :
    failures (comparePlain golden emulated i ws gs) = [] := by
  induction ws generalizing i gs with
  | nil => rfl
  | cons want ws ih =>
    cases gs with
    | nil => rfl
    | cons got gs =>
      rw [comparePlain, failures_append, compareObservations_waived hgap, ih, List.append_nil]

end KnownGap

section Verdict

variable {golden emulated : RecordedCase}

def StepsOk (ignoreRows conflictRace : Bool) (golden emulated : RecordedCase) : Prop :=
  if golden.sessionResults = [] then List.Forall₂ (StepOk ignoreRows) golden.observations
    emulated.observations
  else if conflictRace then
    List.Forall₂ (RaceOk ignoreRows) golden.sessionResults emulated.sessionResults ∧
      losers golden.sessionResults = losers emulated.sessionResults
  else List.Forall₂ (List.Forall₂ (StepOk ignoreRows)) golden.sessionResults emulated.sessionResults

theorem passes_iff : Passes golden emulated ↔ golden.sessionResults.length =
    emulated.sessionResults.length ∧ (emulated.knownGap = "" → StepsOk emulated.ignoreRows
        (emulated.conflictRace || golden.conflictRace) golden emulated) := by
  unfold Passes compare StepsOk
  by_cases hlen : golden.sessionResults.length = emulated.sessionResults.length
  · by_cases hnil : golden.sessionResults = []
    · have hnone : ¬ (0 < golden.sessionResults.length ∨ 0 < emulated.sessionResults.length) := by
        rw [← hlen, hnil]
        simp
      rw [if_neg hnone, if_pos hnil, and_iff_right hlen]
      by_cases hgap : emulated.knownGap = ""
      · rw [compareObservations_iff hgap, forall_prop_of_true hgap]
      · exact ⟨fun _ hg => absurd hg hgap, fun _ => compareObservations_waived hgap⟩
    · have hsome : 0 < golden.sessionResults.length ∨ 0 < emulated.sessionResults.length :=
        .inl (List.length_pos_of_ne_nil hnil)
      unfold compareSessions
      rw [if_pos hsome, if_neg hnil, if_neg (not_not.2 hlen), and_iff_right hlen]
      by_cases hgap : emulated.knownGap = ""
      · rw [forall_prop_of_true hgap]
        split
        · exact compareConflictRace_iff hgap hlen
        · exact comparePlain_iff hgap hlen
      · refine ⟨fun _ hg => absurd hg hgap, fun _ => ?_⟩
        split
        · exact compareConflictRace_waived hgap
        · exact comparePlain_waived hgap
  · have hsome : 0 < golden.sessionResults.length ∨ 0 < emulated.sessionResults.length := by omega
    unfold compareSessions
    rw [if_pos hsome, if_pos hlen]
    exact ⟨fun hs => absurd hs (by simp [failures]), fun hok => absurd hok.1 hlen⟩

end Verdict

end DsqlEmulator.Conformance
