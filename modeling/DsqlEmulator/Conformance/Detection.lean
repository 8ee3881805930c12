import DsqlEmulator.Conformance.Compare

/-! Change detection against the comparison it guards: two records that are taken for the
same, and the replays that each of them lets pass. -/

namespace DsqlEmulator.Conformance

section Pointwise

variable {α β γ : Type} {R Q : α → β → Prop} {l : List α} {m : List β}

theorem forall₂_and (h : List.Forall₂ R l m) (h' : List.Forall₂ Q l m) :
    List.Forall₂ (fun a b => R a b ∧ Q a b) l m := by
  induction h with
  | nil => exact .nil
  | cons hr _ ih =>
    cases h' with
    | cons hq hqs => exact .cons ⟨hr, hq⟩ (ih hqs)

theorem forall₂_transport {P : α → γ → Prop} {P' : β → γ → Prop} {n : List γ}
    (h : ∀ a b c, R a b → P a c → P' b c) (hr : List.Forall₂ R l m) (hp : List.Forall₂ P l n) :
    List.Forall₂ P' m n := by
  induction hr generalizing n with
  | nil =>
    cases hp
    exact .nil
  | cons hab _ ih =>
    cases hp with
    | cons hac hrest => exact .cons (h _ _ _ hab hac) (ih hrest)

theorem forall₂_of_map_eq {f : α → γ} {g : β → γ} (h : l.map f = m.map g) :
    List.Forall₂ (fun a b => f a = g b) l m := by
  rw [← List.forall₂_eq_eq_eq, List.forall₂_map_left_iff, List.forall₂_map_right_iff] at h
  exact h

end Pointwise

section Content

variable {ignoreRows : Bool} {a b : Result} {o n : Observation} {σ : Sorting}

theorem Result.fields_inj : a.fields = b.fields ↔
    a.commandTag = b.commandTag ∧ a.columns = b.columns ∧ a.rows.getD [] = b.rows.getD [] := by
  have hstr : Function.Injective Json.str := fun _ _ hs => Json.str.inj hs
  simp only [Result.fields, List.cons.injEq, Prod.mk.injEq, true_and, and_true, Json.ofString_inj,
    Json.ofList_inj, hstr.list_map.eq_iff, Row.json_injective.list_map.eq_iff]

theorem Result.json_inj : a.json = b.json ↔
    a.commandTag = b.commandTag ∧ a.columns = b.columns ∧ a.rows.getD [] = b.rows.getD [] := by
  have hmembers : Json.members a.fields = Json.members b.fields ↔ a.fields = b.fields :=
    Json.members_inj rfl (by simp [Result.fields])
  rw [Result.json, Result.json, Json.obj.injEq, hmembers, Result.fields_inj]

theorem Observation.json_inj : o.json = n.json ↔ o.outcome = n.outcome ∧ o.sqlState = n.sqlState ∧
    o.message = n.message ∧ o.toResult.json = n.toResult.json ∧ o.results.map Result.json =
      n.results.map Result.json := by
  have hmembers : Json.members o.fields = Json.members n.fields ↔ o.fields = n.fields :=
    Json.members_inj rfl (by simp [Observation.fields, Result.fields])
  rw [Observation.json, Observation.json, Json.obj.injEq, hmembers, Result.json_inj,
    ← Result.fields_inj]
  simp only [Observation.fields, List.cons_append, List.nil_append, List.cons.injEq,
    Prod.mk.injEq, true_and, Option.some.injEq, Json.str.injEq, Json.ofString_inj]
  refine and_congr_right fun _ => and_congr_right fun _ => and_congr_right fun _ =>
    ⟨fun h => ?_, fun h => ?_⟩
  · obtain ⟨hfields, hresults⟩ := List.append_inj h rfl
    exact ⟨hfields, Json.ofList_inj.1 (Prod.mk.inj (List.cons.inj hresults).1).2⟩
  · rw [h.1, h.2]

def Observation.enforced (ignoreRows : Bool) (o : Observation) : Observation :=
  if ignoreRows then o.withoutRows else o

structure SameResult (ignoreRows : Bool) (a b : Result) : Prop where
  tag : (if ignoreRows && isRowCountTag a.commandTag then "" else a.commandTag) =
    if ignoreRows && isRowCountTag b.commandTag then "" else b.commandTag
  columns : a.columns = b.columns
  rows : ignoreRows = false → a.rows.getD [] = b.rows.getD []

structure SameStep (ignoreRows : Bool) (o n : Observation) : Prop where
  outcome : o.outcome = n.outcome
  sqlState : o.sqlState = n.sqlState
  answer : SameResult ignoreRows o.toResult n.toResult
  results : List.Forall₂ (SameResult ignoreRows) o.results n.results

theorem sameResult_of_json (h : a.withoutRows.json = b.withoutRows.json) : SameResult true a b := by
  obtain ⟨htag, hcolumns, -⟩ := Result.json_inj.1 h
  exact ⟨by simpa [Result.withoutRows] using htag, hcolumns, fun hf => by cases hf⟩

theorem sameResult_of_json_rows (h : a.json = b.json) : SameResult false a b := by
  obtain ⟨htag, hcolumns, hrows⟩ := Result.json_inj.1 h
  exact ⟨by simpa using htag, hcolumns, fun _ => hrows⟩

theorem sameStep_of_json (h : (o.enforced ignoreRows).json = (n.enforced ignoreRows).json) :
    SameStep ignoreRows o n := by
  obtain ⟨houtcome, hstate, -, hanswer, hresults⟩ := Observation.json_inj.1 h
  cases ignoreRows with
  | false => exact ⟨houtcome, hstate, sameResult_of_json_rows hanswer,
      (forall₂_of_map_eq hresults).imp fun _ _ => sameResult_of_json_rows⟩
  | true =>
    refine ⟨houtcome, hstate, sameResult_of_json hanswer, ?_⟩
    have hmap : (o.results.map Result.withoutRows).map Result.json =
        (n.results.map Result.withoutRows).map Result.json :=
      hresults
    rw [List.map_map, List.map_map] at hmap
    exact (forall₂_of_map_eq hmap).imp fun _ _ => sameResult_of_json

theorem sameSteps_of_json {os ns : List Observation}
    (h : (os.map (Observation.enforced ignoreRows)).map Observation.json =
      (ns.map (Observation.enforced ignoreRows)).map Observation.json) :
    List.Forall₂ (SameStep ignoreRows) os ns := by
  rw [List.map_map, List.map_map] at h
  exact (forall₂_of_map_eq h).imp fun _ _ => sameStep_of_json

variable {c old new : RecordedCase}

theorem enforcedCase_observations :
    (enforcedCase σ c).observations = c.observations.map (Observation.enforced c.ignoreRows) := by
  unfold enforcedCase Observation.enforced
  cases c.ignoreRows <;> cases hrace : c.conflictRace <;> simp [hrace]

theorem enforcedCase_sessionResults : (enforcedCase σ c).sessionResults =
    if c.conflictRace then
      withConflictFinalsPooled σ
        (c.sessionResults.map (List.map (Observation.enforced c.ignoreRows)))
    else c.sessionResults.map (List.map (Observation.enforced c.ignoreRows)) := by
  unfold enforcedCase Observation.enforced
  cases c.ignoreRows <;> cases hrace : c.conflictRace <;> simp [hrace]

theorem RecordedCase.json_inj (h : old.json = new.json) :
    old.observations.map Observation.json = new.observations.map Observation.json ∧
      old.sessionResults.map (List.map Observation.json) =
        new.sessionResults.map (List.map Observation.json) := by
  have hmembers : Json.members old.fields = Json.members new.fields ↔ old.fields = new.fields :=
    Json.members_inj rfl (by simp [RecordedCase.fields])
  have hfields := hmembers.1 (Json.obj.inj h)
  simp only [RecordedCase.fields, List.cons.injEq, Prod.mk.injEq, true_and, and_true,
    Json.ofList_inj] at hfields
  obtain ⟨-, -, -, -, -, -, -, -, -, hobs, hsessions⟩ := hfields
  have harr : Function.Injective Json.arr := fun _ _ ha => Json.arr.inj ha
  refine ⟨hobs, harr.list_map ?_⟩
  rw [List.map_map, List.map_map]
  exact hsessions

structure SameCase (ignoreRows conflictRace : Bool) (old new : RecordedCase) : Prop where
  observations : List.Forall₂ (SameStep ignoreRows) old.observations new.observations
  race : conflictRace = true →
    List.Forall₂ (fun s t => List.Forall₂ (SameStep ignoreRows) s.dropLast t.dropLast)
    old.sessionResults new.sessionResults
  sessions : conflictRace = false →
    List.Forall₂ (List.Forall₂ (SameStep ignoreRows)) old.sessionResults new.sessionResults

theorem sameCase_of_json (hcase : old.toCase = new.toCase)
    (h : (enforcedCase σ old).json = (enforcedCase σ new).json) :
    SameCase old.ignoreRows old.conflictRace old new := by
  have hignore : new.ignoreRows = old.ignoreRows := congrArg Case.ignoreRows hcase.symm
  have hrace : new.conflictRace = old.conflictRace := congrArg Case.conflictRace hcase.symm
  obtain ⟨hobs, hsessions⟩ := RecordedCase.json_inj h
  rw [enforcedCase_observations, enforcedCase_observations, hignore] at hobs
  rw [enforcedCase_sessionResults, enforcedCase_sessionResults, hignore, hrace] at hsessions
  refine ⟨sameSteps_of_json hobs, fun hr => ?_, fun hr => ?_⟩
  · rw [if_pos hr, if_pos hr, withConflictFinalsPooled, withConflictFinalsPooled, List.map_append,
      List.map_append] at hsessions
    have hinit := (List.append_inj' hsessions rfl).1
    simp only [List.map_map] at hinit
    refine (forall₂_of_map_eq hinit).imp fun s t hst => sameSteps_of_json ?_
    simpa [List.map_dropLast] using hst
  · rw [if_neg (by simp [hr]), if_neg (by simp [hr])] at hsessions
    simp only [List.map_map] at hsessions
    exact (forall₂_of_map_eq hsessions).imp fun s t hst => sameSteps_of_json hst

theorem SameCase.length_eq {ignoreRows conflictRace : Bool}
    (h : SameCase ignoreRows conflictRace old new) :
    old.sessionResults.length = new.sessionResults.length := by
  cases conflictRace with
  | true => exact (h.race rfl).length_eq
  | false => exact (h.sessions rfl).length_eq

theorem cases_of_contentBytes {g g' : Golden} (h : contentBytes σ g = contentBytes σ g') :
    g.cases.map (fun c => (enforcedCase σ c).json) = g'.cases.map fun c =>
      (enforcedCase σ c).json := by
  have hmembers : Json.members (g.content σ).fields = Json.members (g'.content σ).fields ↔
      (g.content σ).fields = (g'.content σ).fields := Json.members_inj rfl (by simp [Golden.fields])
  have hfields := hmembers.1 (Json.obj.inj h)
  simp only [Golden.fields, List.cons.injEq, Prod.mk.injEq, true_and, and_true, Option.some.injEq,
    Json.arr.injEq] at hfields
  obtain ⟨-, -, -, -, hcases⟩ := hfields
  rw [Golden.content, Golden.content, List.map_map, List.map_map] at hcases
  exact hcases

end Content

section Alike

variable {ignoreRows : Bool} {a b r : Result} {o n g : Observation} {old new replay : RecordedCase}

def EmptyAlike (ignoreRows : Bool) (a b : Result) : Prop :=
  if ignoreRows then a.commandTag = "" ↔ b.commandTag = "" else a.rows = none ↔ b.rows = none

structure StepAlike (ignoreRows : Bool) (o n : Observation) : Prop where
  answer : o.outcome ≠ "error" → EmptyAlike ignoreRows o.toResult n.toResult
  results : o.outcome ≠ "error" → List.Forall₂ (EmptyAlike ignoreRows) o.results n.results

/-- The same for every step that is compared; in a race, the same sessions have steps and
the transactions that lost were refused with the same states in the same order. -/
def CaseAlike (ignoreRows conflictRace : Bool) (old new : RecordedCase) : Prop :=
  if old.sessionResults = [] then List.Forall₂ (StepAlike ignoreRows) old.observations
    new.observations
  else if conflictRace then
    List.Forall₂ (fun s t => (s = [] ↔ t = []) ∧ List.Forall₂ (StepAlike ignoreRows) s.dropLast
      t.dropLast)
      old.sessionResults new.sessionResults ∧ losers old.sessionResults = losers new.sessionResults
  else List.Forall₂ (List.Forall₂ (StepAlike ignoreRows)) old.sessionResults new.sessionResults

theorem isRowCountTag_empty : isRowCountTag "" = false := rfl

theorem resultOk_of_same (h : SameResult ignoreRows a b) (he : EmptyAlike ignoreRows a b)
    (hok : ResultOk ignoreRows a r) : ResultOk ignoreRows b r := by
  obtain ⟨htag, hcolumns, hrows⟩ := h
  refine ⟨?_, hcolumns.symm.trans hok.columns, ?_⟩
  · cases ignoreRows with
    | false =>
      exact .inl ((by simpa using htag : a.commandTag = b.commandTag).symm.trans
        (by simpa using hok.tag))
    | true =>
      simp only [EmptyAlike, if_true] at he
      simp only [Bool.true_and] at htag ⊢
      by_cases hb : isRowCountTag b.commandTag = true
      · exact .inr hb
      · rw [if_neg hb] at htag
        by_cases ha : isRowCountTag a.commandTag = true
        · -- the tag of `b` is empty, and that of `a` is not
          rw [if_pos ha] at htag
          rw [he.2 htag.symm, isRowCountTag_empty] at ha
          cases ha
        · rw [if_neg ha] at htag
          exact .inl (htag.symm.trans (hok.tag.resolve_right (by simpa using ha)))
  · cases ignoreRows with
    | true => exact .inl rfl
    | false =>
      have hsame := hrows rfl
      simp only [EmptyAlike, Bool.false_eq_true, if_false] at he
      have heq : a.rows = b.rows := by
        cases ha : a.rows with
        | none => rw [he.1 ha]
        | some rows =>
          cases hb : b.rows with
          | none => rw [he.2 hb] at ha; cases ha
          | some rows' => simpa [ha, hb] using hsame
      exact .inr (heq.symm.trans (hok.rows.resolve_left Bool.false_ne_true))

theorem stepOk_of_same (h : SameStep ignoreRows o n) (he : StepAlike ignoreRows o n)
    (hok : StepOk ignoreRows o g) : StepOk ignoreRows n g := by
  obtain ⟨houtcome, hstate, hanswer, hresults⟩ := h
  refine ⟨houtcome.symm.trans hok.outcome, fun herr => ?_, fun herr => ?_, fun herr => ?_⟩
  · rw [← hstate]
    exact hok.error (houtcome.trans herr)
  · have hne : o.outcome ≠ "error" := houtcome ▸ herr
    exact resultOk_of_same hanswer (he.answer hne) (hok.answer hne)
  · have hne : o.outcome ≠ "error" := houtcome ▸ herr
    exact forall₂_transport (fun _ _ _ hs hr => resultOk_of_same hs.1 hs.2 hr)
      (forall₂_and hresults (he.results hne)) (hok.results hne)

theorem stepsOk_of_same {os ns gs : List Observation} (h : List.Forall₂ (SameStep ignoreRows) os ns)
    (he : List.Forall₂ (StepAlike ignoreRows) os ns)
    (hok : List.Forall₂ (StepOk ignoreRows) os gs) : List.Forall₂ (StepOk ignoreRows) ns gs :=
  forall₂_transport (fun _ _ _ hs hr => stepOk_of_same hs.1 hs.2 hr) (forall₂_and h he) hok

theorem raceOk_of_same {s t u : List Observation}
    (h : List.Forall₂ (SameStep ignoreRows) s.dropLast t.dropLast) (hempty : s = [] ↔ t = [])
    (he : List.Forall₂ (StepAlike ignoreRows) s.dropLast t.dropLast) (hok : RaceOk ignoreRows s u) :
    RaceOk ignoreRows t u := by
  refine ⟨?_, stepsOk_of_same h he hok.2⟩
  have hinit : s.length - 1 = t.length - 1 := by simpa using h.length_eq
  have hpos : s.length = 0 ↔ t.length = 0 := by
    rw [List.length_eq_zero_iff, List.length_eq_zero_iff, hempty]
  have hlen := hok.1
  omega

variable {conflictRace : Bool}

theorem stepsOk_of_sameCase (h : SameCase ignoreRows conflictRace old new)
    (he : CaseAlike ignoreRows conflictRace old new)
    (hok : StepsOk ignoreRows conflictRace old replay) :
    StepsOk ignoreRows conflictRace new replay := by
  have hnil : new.sessionResults = [] ↔ old.sessionResults = [] := by
    rw [← List.length_eq_zero_iff, ← List.length_eq_zero_iff, h.length_eq]
  unfold StepsOk CaseAlike at *
  simp only [hnil]
  split_ifs at * with hsessions hrace
  · exact stepsOk_of_same h.observations he hok
  · exact ⟨forall₂_transport (fun _ _ _ hs hr => raceOk_of_same hs.1 hs.2.1 hs.2.2 hr)
      (forall₂_and (h.race hrace) he.1) hok.1, he.2.symm.trans hok.2⟩
  · exact forall₂_transport (fun _ _ _ hs hr => stepsOk_of_same hs.1 hs.2 hr)
      (forall₂_and (h.sessions (Bool.eq_false_iff.2 hrace)) he) hok

theorem EmptyAlike.symm (h : EmptyAlike ignoreRows a b) : EmptyAlike ignoreRows b a := by
  unfold EmptyAlike at *
  split_ifs at * with hi
  · exact Iff.symm h
  · exact Iff.symm h

theorem StepAlike.symm (h : StepAlike ignoreRows o n) (hsame : SameStep ignoreRows o n) :
    StepAlike ignoreRows n o where
  answer herr := (h.answer (hsame.outcome ▸ herr)).symm
  results herr := ((h.results (hsame.outcome ▸ herr)).imp fun _ _ he => he.symm).flip

theorem forall₂_stepAlike_symm {os ns : List Observation}
    (h : List.Forall₂ (StepAlike ignoreRows) os ns)
    (hsame : List.Forall₂ (SameStep ignoreRows) os ns) :
    List.Forall₂ (StepAlike ignoreRows) ns os :=
  ((forall₂_and h hsame).imp fun _ _ he => he.1.symm he.2).flip

theorem CaseAlike.symm (h : CaseAlike ignoreRows conflictRace old new)
    (hsame : SameCase ignoreRows conflictRace old new) :
    CaseAlike ignoreRows conflictRace new old := by
  have hnil : new.sessionResults = [] ↔ old.sessionResults = [] := by
    rw [← List.length_eq_zero_iff, ← List.length_eq_zero_iff, hsame.length_eq]
  unfold CaseAlike at *
  simp only [hnil]
  split_ifs at * with hsessions hrace
  · exact forall₂_stepAlike_symm h hsame.observations
  · refine ⟨((forall₂_and h.1 (hsame.race hrace)).imp fun _ _ he => ?_).flip, h.2.symm⟩
    exact ⟨he.1.1.symm, forall₂_stepAlike_symm he.1.2 he.2⟩
  · refine ((forall₂_and h (hsame.sessions (Bool.eq_false_iff.2 hrace))).imp fun _ _ he => ?_).flip
    exact forall₂_stepAlike_symm he.1 he.2

theorem ResultOk.refl : ResultOk ignoreRows a a := ⟨.inl rfl, rfl, .inr rfl⟩

theorem StepOk.refl : StepOk ignoreRows o o where
  outcome := rfl
  error _ := .inr rfl
  answer _ := .refl
  results _ := List.forall₂_same.2 fun _ _ => .refl

theorem StepsOk.refl : StepsOk ignoreRows conflictRace old old := by
  have hsteps (os : List Observation) : List.Forall₂ (StepOk ignoreRows) os os :=
    List.forall₂_same.2 fun _ _ => .refl
  unfold StepsOk
  split_ifs
  · exact hsteps _
  · exact ⟨List.forall₂_same.2 fun s _ => ⟨rfl, hsteps _⟩, rfl⟩
  · exact List.forall₂_same.2 fun s _ => hsteps s

theorem emptyAlike_of_ok (h : ResultOk ignoreRows a b) (h' : ResultOk ignoreRows b a) :
    EmptyAlike ignoreRows a b := by
  unfold EmptyAlike
  cases ignoreRows with
  | true =>
    simp only [if_true]
    have htag {x y : Result} (hok : ResultOk true x y) (hx : x.commandTag = "") :
        y.commandTag = "" := by
      have hcount : ¬ (true && isRowCountTag x.commandTag) = true := by
        rw [hx]; exact Bool.false_ne_true
      exact (hok.tag.resolve_right hcount).symm.trans hx
    exact ⟨htag h, htag h'⟩
  | false =>
    simp only [Bool.false_eq_true, if_false]
    rw [h.rows.resolve_left Bool.false_ne_true]

theorem stepAlike_of_ok (h : StepOk ignoreRows o n) (h' : StepOk ignoreRows n o) :
    StepAlike ignoreRows o n where
  answer herr := emptyAlike_of_ok (h.answer herr) (h'.answer (h.outcome ▸ herr))
  results herr := (forall₂_and (h.results herr) (h'.results (h.outcome ▸ herr)).flip).imp
      fun _ _ he =>
    emptyAlike_of_ok he.1 he.2

theorem forall₂_stepAlike_of_ok {os ns : List Observation}
    (h : List.Forall₂ (StepOk ignoreRows) os ns) (h' : List.Forall₂ (StepOk ignoreRows) ns os) :
    List.Forall₂ (StepAlike ignoreRows) os ns :=
  (forall₂_and h h'.flip).imp fun _ _ he => stepAlike_of_ok he.1 he.2

theorem caseAlike_of_ok (hlen : old.sessionResults.length = new.sessionResults.length)
    (h : StepsOk ignoreRows conflictRace old new) (h' : StepsOk ignoreRows conflictRace new old) :
    CaseAlike ignoreRows conflictRace old new := by
  have hnil : new.sessionResults = [] ↔ old.sessionResults = [] := by
    rw [← List.length_eq_zero_iff, ← List.length_eq_zero_iff, hlen]
  unfold StepsOk at h h'
  unfold CaseAlike
  simp only [hnil] at h'
  split_ifs at * with hsessions hrace
  · exact forall₂_stepAlike_of_ok h h'
  · refine ⟨(forall₂_and h.1 h'.1.flip).imp fun s t he =>
      ⟨?_, forall₂_stepAlike_of_ok he.1.2 he.2.2⟩, h.2⟩
    rw [← List.length_eq_zero_iff, ← List.length_eq_zero_iff, he.1.1]
  · exact (forall₂_and h h'.flip).imp fun _ _ he => forall₂_stepAlike_of_ok he.1 he.2

end Alike

section Verdicts

variable {σ : Sorting} {old new replay : RecordedCase} {g g' : Golden} {i : Nat}

theorem passes_iff_of_case (h : replay.toCase = old.toCase) : Passes old replay ↔
    old.sessionResults.length = replay.sessionResults.length ∧
      (old.knownGap = "" → StepsOk old.ignoreRows old.conflictRace old replay) := by
  have hgap : replay.knownGap = old.knownGap := congrArg Case.knownGap h
  have hignore : replay.ignoreRows = old.ignoreRows := congrArg Case.ignoreRows h
  have hrace : replay.conflictRace = old.conflictRace := congrArg Case.conflictRace h
  rw [passes_iff, hgap, hignore, hrace, Bool.or_self]

theorem passes_of_same (hcase : old.toCase = new.toCase) (hreplay : replay.toCase = old.toCase)
    (hsame : SameCase old.ignoreRows old.conflictRace old new)
    (he : old.knownGap = "" → CaseAlike old.ignoreRows old.conflictRace old new)
    (h : Passes old replay) : Passes new replay := by
  obtain ⟨hlen, hsteps⟩ := (passes_iff_of_case hreplay).1 h
  refine (passes_iff_of_case (hreplay.trans hcase)).2 ⟨hsame.length_eq.symm.trans hlen,
    fun hgap => ?_⟩
  rw [← congrArg Case.knownGap hcase] at hgap
  rw [← congrArg Case.ignoreRows hcase, ← congrArg Case.conflictRace hcase]
  exact stepsOk_of_sameCase hsame (he hgap) (hsteps hgap)

/-- Two records of one case that change detection takes for the same let the same replays
pass just when a divergence is accepted or what the two leave empty is the same. -/
theorem change_detected_iff (hcontent : contentBytes σ g = contentBytes σ g')
    (hold : g.cases[i]? = some old) (hnew : g'.cases[i]? = some new)
    (hcase : old.toCase = new.toCase) : (∀ replay : RecordedCase, replay.toCase = old.toCase →
        (Passes old replay ↔ Passes new replay)) ↔
      (old.knownGap = "" → CaseAlike old.ignoreRows old.conflictRace old new) := by
  have hjson : (enforcedCase σ old).json = (enforcedCase σ new).json := by
    have hget := congrArg (·[i]?) (cases_of_contentBytes hcontent)
    simpa [hold, hnew] using hget
  have hsame := sameCase_of_json hcase hjson
  have hback : SameCase old.ignoreRows old.conflictRace new old := by
    have := sameCase_of_json hcase.symm hjson.symm
    rwa [← congrArg Case.ignoreRows hcase, ← congrArg Case.conflictRace hcase] at this
  constructor
  · intro h hgap
    -- each record is a replay of itself, and so it passes against the other
    have hpass (c : RecordedCase) : Passes c c := (passes_iff_of_case rfl).2 ⟨rfl, fun _ => .refl⟩
    have hforth := ((passes_iff_of_case hcase.symm).1 ((h new hcase.symm).2 (hpass new))).2 hgap
    have hback := ((passes_iff_of_case hcase).1 ((h old rfl).1 (hpass old))).2
      (congrArg Case.knownGap hcase ▸ hgap)
    rw [← congrArg Case.ignoreRows hcase, ← congrArg Case.conflictRace hcase] at hback
    exact caseAlike_of_ok hsame.length_eq hforth hback
  · intro he replay hreplay
    refine ⟨passes_of_same hcase hreplay hsame he,
      passes_of_same hcase.symm (hreplay.trans hcase) ?_ ?_⟩
    · rwa [← congrArg Case.ignoreRows hcase, ← congrArg Case.conflictRace hcase]
    · intro hgap
      rw [← congrArg Case.knownGap hcase] at hgap
      rw [← congrArg Case.ignoreRows hcase, ← congrArg Case.conflictRace hcase]
      exact (he hgap).symm hsame

def raceRecord (first second : Observation) : RecordedCase :=
  { name := "conflict_race", conflictRace := true, sessionResults := [[first], [second]] }

def committed : Observation := { outcome := "ok", commandTag := "COMMIT" }

def refused (sqlState : String) : Observation :=
  { outcome := "error", sqlState := sqlState,
    message := "change conflicts with another transaction" }

def recordOf (c : RecordedCase) : Golden := ⟨"2026-01-01T00:00:00Z", "dsql", "16", "baseline", [c]⟩

theorem contentBytes_recordOf (h : enforcedCase σ old = enforcedCase σ new) :
    contentBytes σ (recordOf old) = contentBytes σ (recordOf new) := by
  simp [contentBytes, Golden.content, recordOf, h]

theorem change_detected_iff_race :
    (∀ replay : RecordedCase, replay.toCase = (raceRecord committed (refused "40001")).toCase →
      (Passes (raceRecord committed (refused "40001")) replay ↔
          Passes (raceRecord (refused "40001") committed) replay)) ↔
      ("" = "" → CaseAlike false true (raceRecord committed (refused "40001"))
          (raceRecord (refused "40001") committed)) :=
  have hsame : enforcedCase Sorting.insertion (raceRecord committed (refused "40001")) =
      enforcedCase Sorting.insertion (raceRecord (refused "40001") committed) := by decide +kernel
  change_detected_iff (i := 0) (contentBytes_recordOf hsame) rfl rfl rfl

/-- Two transactions that lost, with different states, in one order and in the other; and
a tag that is empty in one record and counts rows in the other, where rows are ignored. -/
theorem change_undetected :
    (contentBytes Sorting.insertion (recordOf (raceRecord (refused "40001") (refused "40P01"))) =
        contentBytes Sorting.insertion (recordOf (raceRecord (refused "40P01") (refused "40001"))) ∧
      Passes (raceRecord (refused "40001") (refused "40P01"))
        (raceRecord (refused "40001") (refused "40P01")) ∧
      ¬ Passes (raceRecord (refused "40P01") (refused "40001"))
        (raceRecord (refused "40001") (refused "40P01"))) ∧
    let answered (tag : String) : RecordedCase :=
      { name := "job_id", ignoreRows := true,
        observations := [{ outcome := "ok", commandTag := tag }] }
    contentBytes Sorting.insertion (recordOf (answered "")) =
      contentBytes Sorting.insertion (recordOf (answered "SELECT 1")) ∧
      Passes (answered "SELECT 1") (answered "INSERT 0 1") ∧ ¬ Passes (answered "")
          (answered "INSERT 0 1") := by
  refine ⟨⟨contentBytes_recordOf (by decide +kernel), by decide +kernel, by decide +kernel⟩, ?_⟩
  intro answered
  exact ⟨contentBytes_recordOf (by decide +kernel), by decide +kernel, by decide +kernel⟩

end Verdicts

end DsqlEmulator.Conformance
