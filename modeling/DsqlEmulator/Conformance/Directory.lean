import DsqlEmulator.Conformance.Fixture
import Mathlib.Data.List.Perm.Basic

/-! Record directories: one fixture for each group of cases, saved and loaded together. -/

namespace DsqlEmulator.Conformance

/-- A sort that looks at nothing but the keys, as one by comparisons does. -/
structure KeySort : Type extends Sorting where
  map : ∀ (f : Observation → Observation) (l : List Observation), (∀ o, finalKey (f o) =
    finalKey o) → sort (l.map f) = (sort l).map f

section Content

/-! What is written of a record is all that change detection looks at. -/

variable (σ : KeySort)

theorem Rows.getD_stored (rows : Rows) : rows.stored.getD [] = rows.getD [] := by
  unfold Rows.stored
  split
  next h => rw [h]; rfl
  next => rfl

theorem Result.json_stored (r : Result) : (r.mapRows Rows.stored).json = r.json := by
  simp only [Result.json, Result.fields, Result.mapRows, Rows.getD_stored]

theorem Observation.json_stored (o : Observation) : (o.mapRows Rows.stored).json = o.json := by
  have hresults : (o.results.map (Result.mapRows Rows.stored)).map Result.json =
      o.results.map Result.json := by
    rw [List.map_map]
    exact List.map_congr_left fun r _ => r.json_stored
  simp only [Observation.json, Observation.fields, Observation.mapRows, Result.fields,
    Result.mapRows, Rows.getD_stored, hresults]

theorem RecordedCase.json_stored (c : RecordedCase) : c.stored.json = c.json := by
  have hobs (l : List Observation) : (l.map (Observation.mapRows Rows.stored)).map
      Observation.json = l.map Observation.json := by
    rw [List.map_map]
    exact List.map_congr_left fun o _ => o.json_stored
  have hsessions : (c.sessionResults.map (List.map (Observation.mapRows Rows.stored))).map
      (fun s => Json.arr (s.map Observation.json)) = c.sessionResults.map fun s =>
          .arr (s.map Observation.json) := by
    rw [List.map_map]
    exact List.map_congr_left fun s _ => congrArg Json.arr (hobs s)
  simp only [RecordedCase.json, RecordedCase.fields, RecordedCase.stored,
    RecordedCase.withoutSessions, RecordedCase.mapRows, hobs, hsessions]

theorem withoutRows_stored (o : Observation) :
    (o.mapRows Rows.stored).withoutRows = o.withoutRows := by
  have hresults : (o.results.map (Result.mapRows Rows.stored)).map Result.withoutRows =
      o.results.map Result.withoutRows := by
    rw [List.map_map]
    rfl
  simp only [Observation.withoutRows, Observation.mapRows, hresults]
  rfl

theorem stored_withoutRows (o : Observation) :
    o.withoutRows.mapRows Rows.stored = o.withoutRows := by
  have hresults : (o.results.map Result.withoutRows).map (Result.mapRows Rows.stored) =
      o.results.map Result.withoutRows := by
    rw [List.map_map]
    rfl
  simp only [Observation.withoutRows, Observation.mapRows, hresults]
  rfl

theorem finalKey_mapRows (f : Rows → Rows) (o : Observation) :
    finalKey (o.mapRows f) = finalKey o := rfl

theorem withConflictFinalsPooled_mapRows (f : Rows → Rows) (ss : List (List Observation)) :
    withConflictFinalsPooled σ.toSorting (ss.map (List.map (Observation.mapRows f))) =
      (withConflictFinalsPooled σ.toSorting ss).map (List.map (Observation.mapRows f)) := by
  have hlast : (ss.map (List.map (Observation.mapRows f))).filterMap List.getLast? =
      (ss.filterMap List.getLast?).map (Observation.mapRows f) := by
    rw [List.filterMap_map, List.map_filterMap]
    congr 1
    funext s
    simp
  simp only [withConflictFinalsPooled, hlast, σ.map _ _ (finalKey_mapRows f), List.map_append,
    List.map_map, List.map_cons, List.map_nil, Function.comp_def, List.map_dropLast]

def RecordedCase.withoutRows (c : RecordedCase) : RecordedCase :=
  { c with
    observations := c.observations.map Observation.withoutRows
    sessionResults := c.sessionResults.map (List.map Observation.withoutRows) }

def RecordedCase.pooled (c : RecordedCase) : RecordedCase :=
  { c with sessionResults := withConflictFinalsPooled σ.toSorting c.sessionResults }

theorem RecordedCase.withoutRows_stored (c : RecordedCase) :
    c.stored.withoutRows = c.withoutRows.stored := by
  have hobs : Observation.withoutRows ∘ Observation.mapRows Rows.stored =
      Observation.mapRows Rows.stored ∘ Observation.withoutRows :=
    funext fun o => (Conformance.withoutRows_stored o).trans (stored_withoutRows o).symm
  simp only [RecordedCase.withoutRows, RecordedCase.stored, RecordedCase.withoutSessions,
    RecordedCase.mapRows, List.map_map, List.map_comp_map, hobs]

theorem RecordedCase.pooled_stored (c : RecordedCase) :
    c.stored.pooled σ = (c.pooled σ).stored := by
  simp only [RecordedCase.pooled, RecordedCase.stored, RecordedCase.withoutSessions,
    RecordedCase.mapRows, withConflictFinalsPooled_mapRows]

theorem enforcedCase_stored (c : RecordedCase) :
    enforcedCase σ.toSorting c.stored = (enforcedCase σ.toSorting c).stored := by
  have hrows : (if c.stored.ignoreRows then c.stored.withoutRows else c.stored) =
      (if c.ignoreRows then c.withoutRows else c).stored := by
    rw [apply_ite RecordedCase.stored, ← RecordedCase.withoutRows_stored]
    rfl
  have hpool (c : RecordedCase) : (if c.stored.conflictRace then c.stored.pooled σ else c.stored) =
      (if c.conflictRace then c.pooled σ else c).stored := by
    rw [apply_ite RecordedCase.stored, ← RecordedCase.pooled_stored]
    rfl
  show (if (if c.stored.ignoreRows then c.stored.withoutRows else c.stored).conflictRace then
      (if c.stored.ignoreRows then c.stored.withoutRows else c.stored).pooled σ
    else if c.stored.ignoreRows then c.stored.withoutRows else c.stored) = _
  rw [hrows, hpool]
  rfl

theorem Golden.json_stored (g : Golden) : g.stored.json = g.json := by
  have hcases : (g.cases.map RecordedCase.stored).map RecordedCase.json =
      g.cases.map RecordedCase.json := by
    rw [List.map_map]
    exact List.map_congr_left fun c _ => c.json_stored
  simp only [Golden.json, Golden.fields, Golden.stored, hcases]

theorem contentBytes_stored (g : Golden) :
    contentBytes σ.toSorting g.stored = contentBytes σ.toSorting g := by
  have hcontent : g.stored.content σ.toSorting = (g.content σ.toSorting).stored := by
    simp only [Golden.content, Golden.stored, List.map_map, Function.comp_def, enforcedCase_stored]
  rw [contentBytes, contentBytes, hcontent, Golden.json_stored]

def Encoded (c c' : RecordedCase) : Prop :=
  (enforcedCase σ.toSorting c).stored = (enforcedCase σ.toSorting c').stored

/-- Two cases are equal up to what the comparison does not enforce. -/
def Alike (c c' : RecordedCase) : Prop :=
  (enforcedCase σ.toSorting c).mapRows Rows.plain = (enforcedCase σ.toSorting c').mapRows Rows.plain

instance {c c' : RecordedCase} : Decidable (Alike σ c c') := inferInstanceAs (Decidable (_ = _))

variable {σ} {g g' : Golden}

theorem stored_of_contentBytes (h : contentBytes σ.toSorting g = contentBytes σ.toSorting g') :
    (g.content σ.toSorting).stored = (g'.content σ.toSorting).stored := by
  have hread := congrArg Golden.read h
  rw [contentBytes, contentBytes, Golden.read_json, Golden.read_json] at hread
  exact Option.some.inj hread

theorem suite_of_contentBytes (h : contentBytes σ.toSorting g = contentBytes σ.toSorting g') :
    g.suite = g'.suite := by
  have hsuite := congrArg Golden.suite (stored_of_contentBytes h)
  exact hsuite

theorem encoded_of_contentBytes (h : contentBytes σ.toSorting g = contentBytes σ.toSorting g') :
    List.Forall₂ (Encoded σ) g.cases g'.cases := by
  have hcases : (g.cases.map (enforcedCase σ.toSorting)).map RecordedCase.stored =
      (g'.cases.map (enforcedCase σ.toSorting)).map RecordedCase.stored :=
    congrArg Golden.cases (stored_of_contentBytes h)
  rw [← List.forall₂_eq_eq_eq, List.map_map, List.map_map, List.forall₂_map_left_iff,
    List.forall₂_map_right_iff] at hcases
  exact hcases

end Content

section SaveDir

variable {B : Type} [DecidableEq B] (codec : Codec B) (σ : Sorting) (g : Golden)

def groupOrder (cases : List RecordedCase) : List String :=
  cases.foldl (fun order c => if c.group ∈ order then order else order ++ [c.group]) []

def groupPart (group : String) : Golden := { g with cases := g.cases.filter (·.group = group) }

inductive SaveError : Type
  | noCases
  | noGroup (name : String)
  | failed
  deriving DecidableEq, Repr

def saveGroups : List String → Disk B → Option (List String) × Disk B
  | [], d => (some [], d)
  | group :: groups, d =>
    match save codec σ d group (groupPart g group) with
    | (none, d) => (none, d)
    | (some wrote, d) =>
      match saveGroups groups d with
      | (none, d) => (none, d)
      | (some changed, d) => (some (if wrote then group :: changed else changed), d)

def prune (written : List String) : List String → Disk B → Option (List String) × Disk B
  | [], d => (some [], d)
  | name :: names, d =>
    if name ∈ written then prune written names d
    else
      match d.attempt (·.erase name) with
      | (false, d) => (none, d)
      | (true, d) =>
        match prune written names d with
        | (none, d) => (none, d)
        | (some removed, d) => (some (name :: removed), d)

def glob (files : Dict String B) : List String :=
  files.keys.insertionSort fun a b => a ++ ".json" ≤ b ++ ".json"

/-- The groups that changed or were removed, or why the record was not saved. -/
def saveDir (d : Disk B) : Except SaveError (List String) × Disk B :=
  if g.cases = [] then (.error .noCases, d)
  else
    match g.cases.find? (·.group = "") with
    | some c => (.error (.noGroup c.name), d)
    | none =>
      match d.attempt id with
      | (false, d) => (.error .failed, d)
      | (true, d) =>
        match saveGroups codec σ g (groupOrder g.cases) d with
        | (none, d) => (.error .failed, d)
        | (some changed, d) =>
          match d.attempt id with
          | (false, d) => (.error .failed, d)
          | (true, d) =>
            match prune (groupOrder g.cases) (glob d.files) d with
            | (none, d) => (.error .failed, d)
            | (some removed, d) => (.ok ((changed ++ removed).insertionSort (· ≤ ·)), d)

end SaveDir

section LoadDir

variable {B : Type} (codec : Codec B)

inductive LoadError : Type
  | noFixtures
  | unreadable (name : String)
  | suite (name suite expected : String)
  | duplicate (case first second : String)
  deriving DecidableEq, Repr

def mergeCases (name : String) : List RecordedCase → List (String × String) → List RecordedCase →
    Except LoadError (List (String × String) × List RecordedCase)
  | [], origin, merged => .ok (origin, merged)
  | c :: cases, origin, merged =>
    match lastValue origin c.name with
    | some first => .error (.duplicate c.name first name)
    | none => mergeCases name cases (origin ++ [(c.name, name)]) (merged ++ [c])

def mergeParts (files : Dict String B) : List String → List (String × String) → Golden →
    Except LoadError Golden
  | [], _, merged => .ok merged
  | name :: names, origin, merged =>
    match load codec files name with
    | none => .error (.unreadable name)
    | some part =>
      if merged.suite ≠ "" ∧ part.suite ≠ merged.suite then .error
        (.suite name part.suite merged.suite)
      else
        match mergeCases name part.cases origin merged.cases with
        | .error e => .error e
        | .ok (origin, cases) =>
          mergeParts files names origin
            (if merged.suite = "" then { part with cases } else { merged with cases })

def zeroGolden : Golden := ⟨zeroTime, "", "", "", []⟩

def loadDir (files : Dict String B) : Except LoadError Golden :=
  if glob files = [] then .error .noFixtures
  else
    match mergeParts codec files (glob files) [] zeroGolden with
    | .error e => .error e
    | .ok merged =>
      .ok { merged with cases := merged.cases.insertionSort fun c c' => c.name ≤ c'.name }

end LoadDir

section Saving

variable {B : Type} [DecidableEq B] {codec : Codec B} {σ : KeySort} {g part : Golden}
  {d d' : Disk B}
  {files files' : Dict String B} {name : String} {groups names written : List String}
    {res : Option (List String)}

theorem sameContent_iff : sameContent codec σ.toSorting files name part = true ↔
    ∃ old, load codec files name = some old ∧ contentBytes σ.toSorting old =
      contentBytes σ.toSorting part := by
  have hinj : Function.Injective codec.marshal := fun j j' h => by
    have hread := congrArg codec.unmarshal h
    rw [codec.unmarshal_marshal, codec.unmarshal_marshal] at hread
    exact Option.some.inj hread
  unfold sameContent
  cases load codec files name <;> simp [hinj.eq_iff]

theorem isSome_of_sameContent (h : sameContent codec σ.toSorting files name part = true) :
    (files.get name).isSome = true := by
  obtain ⟨old, hload, -⟩ := sameContent_iff.1 h
  cases hget : files.get name with
  | none => rw [load, hget] at hload; cases hload
  | some _ => rfl

omit [DecidableEq B] in
theorem load_congr (h : files'.get name = files.get name) :
    load codec files' name = load codec files name := by
  rw [load, h, load]

theorem sameContent_congr (h : files'.get name = files.get name) :
    sameContent codec σ.toSorting files' name part =
      sameContent codec σ.toSorting files name part := by
  rw [sameContent, load_congr h, sameContent]

theorem sameContent_set :
    sameContent codec σ.toSorting (files.set name (codec.marshalIndent part.json)) name part =
      true :=
  sameContent_iff.2 ⟨part.stored, load_set codec files name part, contentBytes_stored σ part⟩

theorem save_spec {wrote : Option Bool} (h : save codec σ.toSorting d name part = (wrote, d')) :
    (∀ other ≠ name, d'.files.get other = d.files.get other) ∧
      (∀ other, (d.files.get other).isSome = true → (d'.files.get other).isSome = true) ∧
      (∀ w, wrote = some w → w = !sameContent codec σ.toSorting d.files name part ∧
        sameContent codec σ.toSorting d'.files name part = true) := by
  obtain ⟨rfl, hfiles⟩ | ⟨rfl, hfiles, hsame⟩ | ⟨rfl, hfiles, hsame⟩ := save_cases h
  · rw [hfiles]
    exact ⟨fun _ _ => rfl, fun _ hsome => hsome, fun _ hw => by cases hw⟩
  · rw [hfiles]
    refine ⟨fun _ _ => rfl, fun _ hsome => hsome, fun w hw => ?_⟩
    cases hw
    exact ⟨by rw [hsame]; rfl, hsame⟩
  · rw [hfiles]
    refine ⟨fun other hne => ?_, fun other hsome => ?_, fun w hw => ?_⟩
    · rw [Dict.get_set, if_neg hne]
    · rw [Dict.get_set]
      split
      · rfl
      · exact hsome
    · cases hw
      exact ⟨by rw [hsame]; rfl, sameContent_set⟩

theorem saveGroups_spec (hnodup : groups.Nodup)
    (h : saveGroups codec σ.toSorting g groups d = (res, d')) :
    (∀ name ∉ groups, d'.files.get name = d.files.get name) ∧
      (∀ name, (d.files.get name).isSome = true → (d'.files.get name).isSome = true) ∧
      (∀ changed, res = some changed →
        (∀ group ∈ groups, sameContent codec σ.toSorting d'.files group (groupPart g group) =
            true) ∧
        changed = groups.filter fun group => !sameContent codec σ.toSorting d.files group
          (groupPart g group)) := by
  induction groups generalizing d res with
  | nil =>
    cases h
    exact ⟨fun _ _ => rfl, fun _ hsome => hsome,
      fun changed hres => by cases hres; exact ⟨by simp, rfl⟩⟩
  | cons group groups ih =>
    obtain ⟨hgroup, hnodup⟩ := List.nodup_cons.1 hnodup
    unfold saveGroups at h
    split at h
    next d₁ hsave =>
      cases h
      obtain ⟨hframe, hkept, -⟩ := save_spec hsave
      exact ⟨fun name hname => hframe name fun heq => hname (heq ▸ List.mem_cons_self), hkept,
        fun _ hres => by cases hres⟩
    next wrote d₁ hsave =>
      obtain ⟨hframe, hkept, hwrote⟩ := save_spec hsave
      obtain ⟨hw, hsame⟩ := hwrote wrote rfl
      have hrest {res' : Option (List String)} (hrec : saveGroups codec σ.toSorting g groups d₁ =
        (res', d')) :
          (∀ name ∉ group :: groups, d'.files.get name = d.files.get name) ∧
            ∀ name, (d.files.get name).isSome = true → (d'.files.get name).isSome = true := by
        obtain ⟨hframe', hkept', -⟩ := ih hnodup hrec
        refine ⟨fun name hname => ?_, fun name hsome => hkept' name (hkept name hsome)⟩
        obtain ⟨hne, hmem⟩ := not_or.1 (List.mem_cons.not.1 hname)
        rw [hframe' name hmem, hframe name hne]
      split at h
      next d₂ hrec =>
        cases h
        exact ⟨(hrest hrec).1, (hrest hrec).2, fun _ hres => by cases hres⟩
      next changed d₂ hrec =>
        cases h
        refine ⟨(hrest hrec).1, (hrest hrec).2, fun changed' hres => ?_⟩
        cases hres
        obtain ⟨hframe', -, hdone⟩ := ih hnodup hrec
        obtain ⟨hcurrent, hchanged⟩ := hdone changed rfl
        have hbefore : changed = groups.filter fun group =>
            !sameContent codec σ.toSorting d.files group (groupPart g group) := by
          rw [hchanged]
          refine List.filter_congr fun other hother => ?_
          have hne : other ≠ group := fun heq => hgroup (heq ▸ hother)
          rw [sameContent_congr (hframe other hne)]
        refine ⟨List.forall_mem_cons.2 ⟨?_, hcurrent⟩, ?_⟩
        · rw [sameContent_congr (hframe' group hgroup)]
          exact hsame
        · rw [List.filter_cons, ← hbefore, ← hw]

theorem saveGroups_current
    (hsame : ∀ group ∈ groups, sameContent codec σ.toSorting d.files group (groupPart g group) =
      true) (h : saveGroups codec σ.toSorting g groups d = (res, d')) : d'.files = d.files := by
  induction groups generalizing d res with
  | nil => cases h; rfl
  | cons group groups ih =>
    obtain ⟨hgroup, hgroups⟩ := List.forall_mem_cons.1 hsame
    have hfiles {wrote : Option Bool} {d₁ : Disk B}
      (hsave : save codec σ.toSorting d group (groupPart g group) = (wrote, d₁)) :
        d₁.files = d.files := by
      obtain ⟨-, hfiles⟩ | ⟨-, hfiles, -⟩ | ⟨-, -, hnot⟩ := save_cases hsave
      · exact hfiles
      · exact hfiles
      · cases hgroup.symm.trans hnot
    unfold saveGroups at h
    split at h
    next d₁ hsave =>
      cases h
      exact hfiles hsave
    next wrote d₁ hsave =>
      have hrec {res' : Option (List String)} (hrec : saveGroups codec σ.toSorting g groups d₁ =
        (res', d')) :
          d'.files = d.files := by
        rw [← hfiles hsave]
        exact ih (by rwa [hfiles hsave]) hrec
      split at h
      next hnext => cases h; exact hrec hnext
      next hnext => cases h; exact hrec hnext

omit [DecidableEq B] in
theorem prune_spec (h : prune written names d = (res, d')) :
    (∀ name, name ∈ written ∨ name ∉ names → d'.files.get name = d.files.get name) ∧
      (∀ name, d.files.get name = none → d'.files.get name = none) ∧
      (∀ removed, res = some removed → removed = names.filter (· ∉ written) ∧
        ∀ name ∈ names, name ∉ written → d'.files.get name = none) := by
  induction names generalizing d res with
  | nil =>
    cases h
    exact ⟨fun _ _ => rfl, fun _ hnone => hnone,
      fun removed hres => by cases hres; exact ⟨rfl, by simp⟩⟩
  | cons first names ih =>
    unfold prune at h
    split at h
    next hwritten =>
      obtain ⟨hframe, hgone, hdone⟩ := ih h
      refine ⟨fun name hname =>
        hframe name (hname.imp_right fun hno hmem => hno (List.mem_cons_of_mem first hmem)), hgone,
        fun removed hres => ?_⟩
      obtain ⟨hremoved, hnone⟩ := hdone removed hres
      refine ⟨by simp [hremoved, hwritten], fun name hmem hnot => ?_⟩
      obtain rfl | hmem := List.mem_cons.1 hmem
      · exact absurd hwritten hnot
      · exact hnone name hmem hnot
    next hwritten =>
      split at h
      next d₁ hfail =>
        cases h
        rw [Disk.files_of_failed hfail]
        exact ⟨fun _ _ => rfl, fun _ hnone => hnone, fun _ hres => by cases hres⟩
      next d₁ herase =>
        have hfiles : d₁.files = d.files.erase first := Disk.files_of_done herase
        have hrest {res' : Option (List String)} (hrec : prune written names d₁ = (res', d')) :
            (∀ name, name ∈ written ∨ name ∉ first :: names → d'.files.get name =
              d.files.get name) ∧ (∀ name, d.files.get name = none → d'.files.get name = none) := by
          obtain ⟨hframe, hgone, -⟩ := ih hrec
          refine ⟨fun name hname => ?_, fun name hnone => hgone name ?_⟩
          · have hne : name ≠ first := by
              rintro rfl
              exact hname.elim hwritten fun hno => hno List.mem_cons_self
            rw [hframe name (hname.imp_right fun hno hmem => hno (List.mem_cons_of_mem first hmem)),
              hfiles, Dict.get_erase, if_neg hne]
          · rw [hfiles, Dict.get_erase, hnone, ite_self]
        split at h
        next hrec =>
          cases h
          exact ⟨(hrest hrec).1, (hrest hrec).2, fun _ hres => by cases hres⟩
        next removed d₂ hrec =>
          cases h
          refine ⟨(hrest hrec).1, (hrest hrec).2, fun removed' hres => ?_⟩
          cases hres
          obtain ⟨-, hgone, hdone⟩ := ih hrec
          obtain ⟨hremoved, hnone⟩ := hdone removed rfl
          refine ⟨by simp [hremoved, hwritten], fun name hmem hnot => ?_⟩
          obtain rfl | hmem := List.mem_cons.1 hmem
          · refine hgone name ?_
            rw [hfiles, Dict.get_erase, if_pos rfl]
          · exact hnone name hmem hnot

end Saving

section Groups

variable {cases : List RecordedCase} {order : List String} {group : String}

theorem nodup_foldl_group (hnodup : order.Nodup) :
    (cases.foldl (fun order c => if c.group ∈ order then order else order ++
        [c.group]) order).Nodup := by
  induction cases generalizing order with
  | nil => exact hnodup
  | cons c cases ih =>
    rw [List.foldl_cons]
    refine ih ?_
    split
    next => exact hnodup
    next hmem => exact List.Nodup.append hnodup (List.nodup_singleton _) (by simpa using hmem)

theorem mem_foldl_group :
    group ∈ cases.foldl
      (fun order c => if c.group ∈ order then order else order ++ [c.group]) order ↔
      group ∈ order ∨ ∃ c ∈ cases, c.group = group := by
  induction cases generalizing order with
  | nil => simp
  | cons c cases ih =>
    rw [List.foldl_cons, ih, List.exists_mem_cons_iff]
    by_cases hmem : c.group ∈ order
    · rw [if_pos hmem]
      exact or_congr_right' fun hno => ⟨.inr, fun h => h.resolve_left fun heq => hno (heq ▸ hmem)⟩
    · rw [if_neg hmem, List.mem_append, List.mem_singleton, or_assoc, eq_comm (a := group)]

theorem groupOrder_nodup (cases : List RecordedCase) : (groupOrder cases).Nodup :=
  nodup_foldl_group List.nodup_nil

theorem mem_groupOrder : group ∈ groupOrder cases ↔ ∃ c ∈ cases, c.group = group := by
  rw [groupOrder, mem_foldl_group]
  simp

end Groups

section Outcome

variable {B : Type} [DecidableEq B] {codec : Codec B} {σ : KeySort} {g : Golden} {d d' : Disk B}
  {res : Except SaveError (List String)}

theorem saveDir_cases (hne : g.cases ≠ []) (hgroups : ∀ c ∈ g.cases, c.group ≠ "")
    (h : saveDir codec σ.toSorting g d = (res, d')) :
    (res = .error .failed ∧ ∃ d₁ : Disk B, d₁.files = d.files ∧
      (d' = d₁ ∨ saveGroups codec σ.toSorting g (groupOrder g.cases) d₁ = (none, d'))) ∨
    ∃ (d₁ d₂ d₃ : Disk B) (changed : List String), d₁.files = d.files ∧
      saveGroups codec σ.toSorting g (groupOrder g.cases) d₁ = (some changed, d₂) ∧
        d₃.files = d₂.files ∧ (res = .error .failed ∧ d' = d₃ ∨
        res = .error .failed ∧ prune (groupOrder g.cases) (glob d₃.files) d₃ = (none, d') ∨
        ∃ removed, res = .ok ((changed ++ removed).insertionSort (· ≤ ·)) ∧
          prune (groupOrder g.cases) (glob d₃.files) d₃ = (some removed, d')) := by
  have hfind : g.cases.find? (·.group = "") = none := List.find?_eq_none.2 fun c hc => by
    simpa using hgroups c hc
  unfold saveDir at h
  rw [if_neg hne, hfind] at h
  simp only at h
  split at h
  next d₁ hmade =>
    cases h
    exact .inl ⟨rfl, d', Disk.files_of_looked hmade, .inl rfl⟩
  next d₁ hmade =>
    split at h
    next d₂ hsave =>
      cases h
      exact .inl ⟨rfl, d₁, Disk.files_of_looked hmade, .inr hsave⟩
    next changed d₂ hsave =>
      refine .inr ?_
      split at h
      next d₃ hglob =>
        cases h
        exact ⟨d₁, d₂, d', changed, Disk.files_of_looked hmade, hsave, Disk.files_of_looked hglob,
          .inl ⟨rfl, rfl⟩⟩
      next d₃ hglob =>
        refine ⟨d₁, d₂, d₃, changed, Disk.files_of_looked hmade, hsave,
          Disk.files_of_looked hglob, .inr ?_⟩
        split at h
        next hprune => cases h; exact .inl ⟨rfl, hprune⟩
        next removed d₄ hprune => cases h; exact .inr ⟨removed, rfl, hprune⟩

end Outcome

section Loading

variable {B : Type} {codec : Codec B} {files : Dict String B} {cs : List RecordedCase}
  {names : List String}

theorem mergeCases_ok (name : String) (origin : List (String × String)) (merged : List RecordedCase)
    (hnodup : (origin.map Prod.fst ++ cs.map (·.name)).Nodup) :
    ∃ origin', mergeCases name cs origin merged = .ok (origin', merged ++ cs) ∧
      origin'.map Prod.fst = origin.map Prod.fst ++ cs.map (·.name) := by
  induction cs generalizing origin merged with
  | nil =>
    exact ⟨origin, by rw [mergeCases, List.append_nil], by rw [List.map_nil, List.append_nil]⟩
  | cons c cs ih =>
    have hnone : lastValue origin c.name = none := by
      refine lastValue_eq_none_iff.2 fun p hp heq => ?_
      exact (List.nodup_append'.1 hnodup).2.2 (List.mem_map_of_mem hp) (heq ▸ List.mem_cons_self)
    have happend : (origin ++ [(c.name, name)]).map Prod.fst ++ cs.map (·.name) =
        origin.map Prod.fst ++ (c :: cs).map (·.name) := by simp
    obtain ⟨origin', hok, hkeys⟩ := ih (origin ++ [(c.name, name)]) (merged ++ [c])
      (happend ▸ hnodup)
    refine ⟨origin', ?_, hkeys.trans happend⟩
    rw [mergeCases, hnone]
    simpa using hok

theorem mergeParts_ok (origin : List (String × String)) (out : Golden) {parts : String → Golden}
    {suite : String} (hload : ∀ name ∈ names, load codec files name = some (parts name))
    (hsuite : ∀ name ∈ names, (parts name).suite = suite)
    (hout : out.suite = "" ∨ out.suite = suite)
    (hnodup : (origin.map Prod.fst ++ (names.flatMap fun name => (parts name).cases).map
      (·.name)).Nodup) : ∃ out', mergeParts codec files names origin out = .ok out' ∧
      out'.cases = out.cases ++ names.flatMap fun name => (parts name).cases := by
  induction names generalizing origin out with
  | nil => exact ⟨out, rfl, by rw [List.flatMap_nil, List.append_nil]⟩
  | cons name names ih =>
    obtain ⟨hname, hnames⟩ := List.forall_mem_cons.1 hload
    obtain ⟨hfirst, hrest⟩ := List.forall_mem_cons.1 hsuite
    rw [List.flatMap_cons, List.map_append, ← List.append_assoc] at hnodup
    obtain ⟨origin', hok, hkeys⟩ :=
      mergeCases_ok name origin out.cases (List.nodup_append'.1 hnodup).1
    have hcond : ¬ (out.suite ≠ "" ∧ (parts name).suite ≠ out.suite) := by
      rintro ⟨hne, hdiff⟩
      exact hdiff (hfirst.trans (hout.resolve_left hne).symm)
    rw [mergeParts, hname]
    simp only [if_neg hcond, hok]
    obtain ⟨out', hmerge, hcases⟩ := ih origin'
      (if out.suite = "" then { parts name with cases := out.cases ++ (parts name).cases }
        else { out with cases := out.cases ++ (parts name).cases })
      hnames hrest (by split <;> simp_all) (by rwa [hkeys])
    refine ⟨out', hmerge, hcases.trans ?_⟩
    rw [apply_ite Golden.cases, ite_self, List.flatMap_cons, List.append_assoc]

theorem glob_perm (files : Dict String B) : (glob files).Perm files.keys :=
  List.perm_insertionSort _ _

theorem mem_glob {name : String} : name ∈ glob files ↔ (files.get name).isSome = true :=
  (glob_perm files).mem_iff.trans Dict.mem_keys

theorem loadDir_ok {parts : String → Golden} {suite : String} (hne : glob files ≠ [])
    (hload : ∀ name ∈ glob files, load codec files name = some (parts name))
    (hsuite : ∀ name ∈ glob files, (parts name).suite = suite)
    (hnodup : (((glob files).flatMap fun name => (parts name).cases).map (·.name)).Nodup) :
    ∃ loaded, loadDir codec files = .ok loaded ∧
      loaded.cases.Perm ((glob files).flatMap fun name => (parts name).cases) := by
  obtain ⟨out, hok, hcases⟩ := mergeParts_ok [] zeroGolden hload hsuite (.inl rfl) hnodup
  rw [loadDir, if_neg hne, hok]
  refine ⟨_, rfl, (List.perm_insertionSort _ _).trans ?_⟩
  rw [hcases]
  exact .refl _

theorem perm_flatMap_filter {α β : Type} [DecidableEq β] (f : α → β) {bs : List β}
    (hnodup : bs.Nodup) {l : List α} (h : ∀ a ∈ l, f a ∈ bs) :
    (bs.flatMap fun b => l.filter (f · = b)).Perm l := by
  induction bs generalizing l with
  | nil =>
    have hnil : l = [] := List.eq_nil_iff_forall_not_mem.2 fun a ha => List.not_mem_nil (h a ha)
    rw [hnil]
    exact .nil
  | cons b bs ih =>
    obtain ⟨hb, hnodup⟩ := List.nodup_cons.1 hnodup
    have hrest : (bs.flatMap fun c => l.filter (f · = c)) = bs.flatMap fun c =>
        (l.filter (f · ≠ b)).filter (f · = c) := by
      refine List.flatMap_congr fun c hc => ?_
      rw [List.filter_filter]
      refine List.filter_congr fun a _ => ?_
      by_cases hac : f a = c
      · have hne : f a ≠ b := fun heq => hb (heq ▸ hac ▸ hc)
        simp [hac, hac ▸ hne]
      · simp [hac]
    rw [List.flatMap_cons, hrest]
    have hperm := ih hnodup (l := l.filter (f · ≠ b)) fun a ha => by
      obtain ⟨hmem, hne⟩ := List.mem_filter.1 ha
      exact (List.mem_cons.1 (h a hmem)).resolve_left (of_decide_eq_true hne)
    refine (hperm.append_left _).trans ?_
    simpa using List.filter_append_perm (fun a => decide (f a = b)) l

end Loading

section Faultless

variable {B : Type} [DecidableEq B] (codec : Codec B) (σ : KeySort) (g : Golden)
  (files : Dict String B)

omit [DecidableEq B] in
theorem attempt_faultless (change : Dict String B → Dict String B) :
    (⟨files, []⟩ : Disk B).attempt change = (true, ⟨change files, []⟩) := rfl

theorem exists_save (name : String) (part : Golden) :
    ∃ wrote files', save codec σ.toSorting ⟨files, []⟩ name part = (some wrote, ⟨files', []⟩) := by
  unfold save
  rw [attempt_faultless]
  simp only [id]
  split
  · exact ⟨_, _, rfl⟩
  · rw [attempt_faultless]
    exact ⟨_, _, rfl⟩

theorem exists_saveGroups (groups : List String) :
    ∃ changed files', saveGroups codec σ.toSorting g groups ⟨files, []⟩ =
      (some changed, ⟨files', []⟩) := by
  induction groups generalizing files with
  | nil => exact ⟨_, _, rfl⟩
  | cons group groups ih =>
    obtain ⟨wrote, files₁, hone⟩ := exists_save codec σ files group (groupPart g group)
    obtain ⟨changed, files₂, hrest⟩ := ih files₁
    refine ⟨if wrote then group :: changed else changed, files₂, ?_⟩
    rw [saveGroups, hone]
    simp only [hrest]

omit [DecidableEq B] in
theorem exists_prune (written names : List String) :
    ∃ removed files', prune written names ⟨files, []⟩ = (some removed, ⟨files', []⟩) := by
  induction names generalizing files with
  | nil => exact ⟨_, _, rfl⟩
  | cons name names ih =>
    unfold prune
    split
    · exact ih files
    · obtain ⟨removed, files', hrest⟩ := ih (files.erase name)
      refine ⟨name :: removed, files', ?_⟩
      rw [attempt_faultless]
      simp only [hrest]

theorem exists_saveDir (hne : g.cases ≠ []) (hgroups : ∀ c ∈ g.cases, c.group ≠ "") :
    ∃ changed d', saveDir codec σ.toSorting g ⟨files, []⟩ = (.ok changed, d') := by
  have hfind : g.cases.find? (·.group = "") = none := List.find?_eq_none.2 fun c hc => by
    simpa using hgroups c hc
  obtain ⟨changed, files₁, hsave⟩ := exists_saveGroups codec σ g files (groupOrder g.cases)
  obtain ⟨removed, files₂, hprune⟩ := exists_prune files₁ (groupOrder g.cases) (glob files₁)
  refine ⟨(changed ++ removed).insertionSort (· ≤ ·), ⟨files₂, []⟩, ?_⟩
  unfold saveDir
  rw [if_neg hne, hfind]
  simp only [attempt_faultless, id, hsave, hprune]

end Faultless

section Complete

variable {B : Type} [DecidableEq B] {codec : Codec B} {σ : KeySort} {g : Golden}
  {files : Dict String B}

structure Holds (codec : Codec B) (σ : KeySort) (g : Golden) (files : Dict String B) : Prop where
  mem_keys : ∀ name, name ∈ files.keys ↔ ∃ c ∈ g.cases, c.group = name
  current : ∀ name ∈ files.keys, sameContent codec σ.toSorting files name (groupPart g name) = true

theorem toCase_enforcedCase (c : RecordedCase) :
    (enforcedCase σ.toSorting c).toCase = c.toCase := by
  unfold enforcedCase
  simp only
  split <;> split <;> rfl

theorem Encoded.name_eq {c c' : RecordedCase} (h : Encoded σ c c') : c.name = c'.name := by
  have hname : (enforcedCase σ.toSorting c).name = (enforcedCase σ.toSorting c').name :=
    congrArg (fun c => c.name) h
  rwa [toCase_enforcedCase, toCase_enforcedCase] at hname

theorem Alike.sessions_eq {c c' : RecordedCase} (h : Alike σ c c') : c.sessions = c'.sessions := by
  have hsessions : (enforcedCase σ.toSorting c).sessions = (enforcedCase σ.toSorting c').sessions :=
    congrArg (fun c => c.sessions) h
  rwa [toCase_enforcedCase, toCase_enforcedCase] at hsessions

theorem forall₂_flatMap {α β γ : Type} {R : β → γ → Prop} {f : α → List β} {h : α → List γ}
    {l : List α} (hl : ∀ a ∈ l, List.Forall₂ R (f a) (h a)) :
    List.Forall₂ R (l.flatMap f) (l.flatMap h) := by
  induction l with
  | nil => exact .nil
  | cons a l ih =>
    obtain ⟨ha, hl⟩ := List.forall_mem_cons.1 hl
    exact List.rel_append ha (ih hl)

theorem map_name_of_encoded {cs cs' : List RecordedCase} (h : List.Forall₂ (Encoded σ) cs cs') :
    cs.map (·.name) = cs'.map (·.name) := by
  induction h with
  | nil => rfl
  | cons hc _ ih => rw [List.map_cons, List.map_cons, hc.name_eq, ih]

theorem Holds.loads (h : Holds codec σ g files) (hne : g.cases ≠ [])
    (hnames : (g.cases.map (·.name)).Nodup) :
    ∃ loaded, loadDir codec files = .ok loaded ∧ (∀ c ∈ loaded.cases, c.sessions = []) ∧
      ∃ cs, cs.Perm g.cases ∧ List.Forall₂ (Encoded σ) loaded.cases cs := by
  let parts (name : String) : Golden := (load codec files name).getD zeroGolden
  have hpart : ∀ name ∈ glob files, load codec files name = some (parts name) ∧
      contentBytes σ.toSorting (parts name) = contentBytes σ.toSorting (groupPart g name) := by
    intro name hname
    obtain ⟨old, hload, hcontent⟩ :=
      sameContent_iff.1 (h.current name ((glob_perm files).mem_iff.1 hname))
    have hold : parts name = old := by
      rw [show parts name = (load codec files name).getD zeroGolden from rfl, hload]; rfl
    exact ⟨hold ▸ hload, hold ▸ hcontent⟩
  have hencoded : List.Forall₂ (Encoded σ) ((glob files).flatMap fun name => (parts name).cases)
      ((glob files).flatMap fun name => g.cases.filter (·.group = name)) :=
    forall₂_flatMap fun name hname => encoded_of_contentBytes (hpart name hname).2
  have hgroup : ∀ c ∈ g.cases, c.group ∈ glob files := fun c hc =>
    (glob_perm files).mem_iff.2 ((h.mem_keys c.group).2 ⟨c, hc, rfl⟩)
  have hperm := perm_flatMap_filter (fun c : RecordedCase => c.group)
    ((glob_perm files).nodup_iff.2 files.nodup) hgroup
  have hnodup : (((glob files).flatMap fun name => (parts name).cases).map (·.name)).Nodup := by
    rw [map_name_of_encoded hencoded]
    exact (hperm.map _).nodup_iff.2 hnames
  have hsuite : ∀ name ∈ glob files, (parts name).suite = g.suite := by
    intro name hname
    have hcontent := suite_of_contentBytes (hpart name hname).2
    exact hcontent
  obtain ⟨c, hc⟩ := List.exists_mem_of_ne_nil _ hne
  obtain ⟨loaded, hok, hcases⟩ := loadDir_ok (List.ne_nil_of_mem (hgroup c hc))
    (fun name hname => (hpart name hname).1) hsuite hnodup
  obtain ⟨cs, hforall, hcs⟩ := List.perm_comp_forall₂ hcases hencoded
  refine ⟨loaded, hok, fun c hc => ?_, cs, hcs.trans hperm, hforall⟩
  obtain ⟨name, hname, hc⟩ := List.mem_flatMap.1 (hcases.mem_iff.1 hc)
  obtain ⟨_, -, hread⟩ := Option.bind_eq_some_iff.1 (hpart name hname).1
  exact Golden.sessions_of_read hread c hc

variable {d d' : Disk B} {res : Except SaveError (List String)} {changed : List String}

theorem saveDir_ok (hne : g.cases ≠ []) (hgroups : ∀ c ∈ g.cases, c.group ≠ "")
    (h : saveDir codec σ.toSorting g d = (.ok changed, d')) :
    Holds codec σ g d'.files ∧ changed.Nodup ∧ ∀ name, name ∈ changed ↔
      (∃ c ∈ g.cases, c.group = name) ∧ sameContent codec σ.toSorting d.files name
        (groupPart g name) = false ∨ name ∈ d.files.keys ∧ ¬ ∃ c ∈ g.cases, c.group = name := by
  obtain ⟨herr, -⟩ | ⟨d₁, d₂, d₃, written, hd₁, hsave, hd₃,
      ⟨herr, -⟩ | ⟨herr, -⟩ | ⟨removed, hok, hprune⟩⟩ :=
    saveDir_cases hne hgroups h
  · cases herr
  · cases herr
  · cases herr
  obtain ⟨hframe, -, hdone⟩ := saveGroups_spec (groupOrder_nodup g.cases) hsave
  obtain ⟨hcurrent, hwritten⟩ := hdone written rfl
  obtain ⟨hkept, -, hpruned⟩ := prune_spec hprune
  obtain ⟨hremoved, hnone⟩ := hpruned removed rfl
  have hmem {name : String} : name ∈ groupOrder g.cases ↔ ∃ c ∈ g.cases, c.group = name :=
    mem_groupOrder
  have hgroup : ∀ name ∈ groupOrder g.cases, sameContent codec σ.toSorting d'.files name
      (groupPart g name) = true := by
    intro name hname
    rw [sameContent_congr (hkept name (.inl hname)), hd₃]
    exact hcurrent name hname
  have hkeys (name : String) : name ∈ d'.files.keys ↔ name ∈ groupOrder g.cases := by
    rw [Dict.mem_keys]
    constructor
    · intro hsome
      by_contra hno
      by_cases hglob : name ∈ glob d₃.files
      · rw [hnone name hglob hno] at hsome
        cases hsome
      · rw [hkept name (.inr hglob)] at hsome
        exact hglob (mem_glob.2 hsome)
    · exact fun hname => isSome_of_sameContent (hgroup name hname)
  have hothers {name : String} (hno : name ∉ groupOrder g.cases) : name ∈ glob d₃.files ↔
      name ∈ d.files.keys := by
    rw [mem_glob, hd₃, hframe name hno, hd₁, Dict.mem_keys]
  have hsorted := List.perm_insertionSort (· ≤ ·) (written ++ removed)
  rw [← Except.ok.inj hok] at hsorted
  refine ⟨⟨fun name => (hkeys name).trans hmem, fun name hname =>
    hgroup name ((hkeys name).1 hname)⟩, ?_, fun name => ?_⟩
  · rw [hsorted.nodup_iff, hwritten, hremoved]
    refine List.Nodup.append ((groupOrder_nodup g.cases).filter _)
      (((glob_perm d₃.files).nodup_iff.2 d₃.files.nodup).filter _) ?_
    intro name hname hname'
    exact of_decide_eq_true (List.mem_filter.1 hname').2 (List.mem_filter.1 hname).1
  · rw [hsorted.mem_iff, List.mem_append, hwritten, hremoved, List.mem_filter, List.mem_filter,
      ← hmem, hd₁]
    refine or_congr (and_congr_right' (by simp)) ?_
    rw [decide_eq_true_iff]
    exact and_congr_left fun hno => hothers hno

omit [DecidableEq B] in
theorem prune_written {written names : List String} (h : ∀ name ∈ names, name ∈ written) :
    prune written names d = (some [], d) := by
  induction names with
  | nil => rfl
  | cons name names ih =>
    obtain ⟨hname, hnames⟩ := List.forall_mem_cons.1 h
    rw [prune, if_pos hname, ih hnames]

theorem saveDir_again (hne : g.cases ≠ []) (hgroups : ∀ c ∈ g.cases, c.group ≠ "")
    (hholds : Holds codec σ g d.files) (h : saveDir codec σ.toSorting g d = (res, d')) :
    d'.files = d.files ∧ ∀ changed, res = .ok changed → changed = [] := by
  have hsame : ∀ name ∈ groupOrder g.cases, sameContent codec σ.toSorting d.files name
      (groupPart g name) = true :=
    fun name hname => hholds.current name ((hholds.mem_keys name).2 (mem_groupOrder.1 hname))
  have hsaved {d₁ d₂ : Disk B} {written : Option (List String)} (hd₁ : d₁.files = d.files)
      (hsave : saveGroups codec σ.toSorting g (groupOrder g.cases) d₁ = (written, d₂)) :
          d₂.files = d.files :=
    (saveGroups_current (hd₁ ▸ hsame) hsave).trans hd₁
  obtain ⟨rfl, d₁, hd₁, rfl | hsave⟩ | ⟨d₁, d₂, d₃, written, hd₁, hsave, hd₃, hrest⟩ :=
    saveDir_cases hne hgroups h
  · exact ⟨hd₁, fun _ hres => by cases hres⟩
  · exact ⟨hsaved hd₁ hsave, fun _ hres => by cases hres⟩
  · have hfiles : d₃.files = d.files := hd₃.trans (hsaved hd₁ hsave)
    have hall : ∀ name ∈ glob d₃.files, name ∈ groupOrder g.cases := by
      intro name hname
      rw [hfiles] at hname
      exact mem_groupOrder.2 ((hholds.mem_keys name).1 ((glob_perm d.files).mem_iff.1 hname))
    rw [prune_written hall] at hrest
    obtain ⟨rfl, rfl⟩ | ⟨-, hnone⟩ | ⟨removed, rfl, hpruned⟩ := hrest
    · exact ⟨hfiles, fun _ hres => by cases hres⟩
    · cases hnone
    · cases hpruned
      refine ⟨hfiles, fun changed hres => ?_⟩
      obtain ⟨-, -, hdone⟩ := saveGroups_spec (groupOrder_nodup g.cases) hsave
      have hwritten : written = [] := by
        rw [(hdone written rfl).2, hd₁]
        exact List.filter_eq_nil_iff.2 fun name hname => by simp [hsame name hname]
      rw [← Except.ok.inj hres, hwritten]
      rfl

theorem saveDir_error (hne : g.cases ≠ []) (hgroups : ∀ c ∈ g.cases, c.group ≠ "") {e : SaveError}
    (h : saveDir codec σ.toSorting g d = (.error e, d')) :
    (∀ name ∈ d.files.keys, name ∈ d'.files.keys) ∨
      ∀ c ∈ g.cases, sameContent codec σ.toSorting d'.files c.group
        (groupPart g c.group) = true := by
  have hsaved {d₁ d₂ : Disk B} {written : Option (List String)} (hd₁ : d₁.files = d.files)
      (hsave : saveGroups codec σ.toSorting g (groupOrder g.cases) d₁ = (written, d₂)) :
      ∀ name ∈ d.files.keys, name ∈ d₂.files.keys := by
    intro name hname
    rw [Dict.mem_keys, ← hd₁] at hname
    exact Dict.mem_keys.2 ((saveGroups_spec (groupOrder_nodup g.cases) hsave).2.1 name hname)
  obtain ⟨-, d₁, hd₁, rfl | hsave⟩ | ⟨d₁, d₂, d₃, written, hd₁, hsave, hd₃,
      ⟨-, rfl⟩ | ⟨-, hprune⟩ | ⟨_, hok, -⟩⟩ :=
    saveDir_cases hne hgroups h
  · exact .inl fun name hname => hd₁ ▸ hname
  · exact .inl (hsaved hd₁ hsave)
  · exact .inl fun name hname => hd₃ ▸ hsaved hd₁ hsave name hname
  · refine .inr fun c hc => ?_
    have hgroup : c.group ∈ groupOrder g.cases := mem_groupOrder.2 ⟨c, hc, rfl⟩
    rw [sameContent_congr ((prune_spec hprune).1 c.group (.inl hgroup)), hd₃]
    exact ((saveGroups_spec (groupOrder_nodup g.cases) hsave).2.2 written rfl).1 c.group hgroup
  · cases hok

theorem alike_iff_of_encoded {c c' : RecordedCase} (h : Encoded σ c c') (hc : c.sessions = []) :
    Alike σ c c' ↔ c'.sessions = [] := by
  have hsessions (c : RecordedCase) : ((enforcedCase σ.toSorting c).mapRows Rows.plain).sessions =
      c.sessions :=
    congrArg Case.sessions (toCase_enforcedCase c)
  have hplain := congrArg (RecordedCase.mapRows Rows.plain) h
  rw [RecordedCase.plain_stored, RecordedCase.plain_stored,
    (RecordedCase.withoutSessions_eq_iff _).2 ((hsessions c).trans hc)] at hplain
  rw [Alike, hplain, RecordedCase.withoutSessions_eq_iff, hsessions]

theorem forall₂_alike_iff {cs cs' : List RecordedCase} (h : List.Forall₂ (Encoded σ) cs cs')
    (hcs : ∀ c ∈ cs, c.sessions = []) : List.Forall₂ (Alike σ) cs cs' ↔
    ∀ c ∈ cs', c.sessions = [] := by
  induction h with
  | nil => simp
  | cons hc _ ih =>
    obtain ⟨hfirst, hrest⟩ := List.forall_mem_cons.1 hcs
    rw [List.forall₂_cons, List.forall_mem_cons, alike_iff_of_encoded hc hfirst, ih hrest]

theorem sessions_of_alike {cs cs' : List RecordedCase} (h : List.Forall₂ (Alike σ) cs cs')
    (hcs : ∀ c ∈ cs, c.sessions = []) : ∀ c ∈ cs', c.sessions = [] := by
  induction h with
  | nil => simp
  | cons hc _ ih =>
    obtain ⟨hfirst, hrest⟩ := List.forall_mem_cons.1 hcs
    exact List.forall_mem_cons.2 ⟨hc.sessions_eq ▸ hfirst, ih hrest⟩

/-- A name without a separator, for a file of its own in a directory. -/
structure PlainName (s : String) : Prop where
  ne : s ≠ ""
  plain : '/' ∉ s.toList ∧ '\x00' ∉ s.toList

/-- The directory after a record was saved: one fixture for each group; loading gives every
case once, as it was written; the groups that changed or were removed are given; and saving
the record again changes nothing. -/
structure Saved (codec : Codec B) (σ : KeySort) (g : Golden) (before after : Dict String B)
    (changed : List String) : Prop where
  fixtures : after.keys.Nodup ∧ ∀ name, name ∈ after.keys ↔ ∃ c ∈ g.cases, c.group = name
  loads : ∃ loaded, loadDir codec after = .ok loaded ∧
    ∃ cs, cs.Perm g.cases ∧ List.Forall₂ (Encoded σ) loaded.cases cs
  changed : changed.Nodup ∧ ∀ name, name ∈ changed ↔
    (∃ c ∈ g.cases, c.group = name) ∧ sameContent codec σ.toSorting before name
      (groupPart g name) = false ∨ name ∈ before.keys ∧ ¬ ∃ c ∈ g.cases, c.group = name
  again : ∀ recordedAt faults res d, saveDir codec σ.toSorting { g with recordedAt }
    ⟨after, faults⟩ = (res, d) → d.files = after ∧ ∀ changed, res = .ok changed → changed = []

/-- Saving is complete, minimal and safe; the cases are loaded as they were, up to what is not
enforced, just when none has statements of sessions. -/
theorem directory_saved_iff (codec : Codec B) (σ : KeySort) (d : Disk B) (g : Golden)
    (hne : g.cases ≠ []) (hnames : (g.cases.map (·.name)).Nodup)
    (hplain : ∀ c ∈ g.cases, PlainName c.group) :
    (∀ changed d', saveDir codec σ.toSorting g d = (.ok changed, d') →
        Saved codec σ g d.files d'.files changed ∧ ((∃ loaded, loadDir codec d'.files = .ok loaded ∧
        ∃ cs, cs.Perm g.cases ∧ List.Forall₂ (Alike σ) loaded.cases cs) ↔
          ∀ c ∈ g.cases, c.sessions = [])) ∧
    (∀ e d', saveDir codec σ.toSorting g d = (.error e, d') →
      ((∀ name ∈ d.files.keys, name ∈ d'.files.keys) ∨
        ∀ c ∈ g.cases, sameContent codec σ.toSorting d'.files c.group
          (groupPart g c.group) = true) ∧ (d.files.keys ≠ [] → d'.files.keys ≠ [])) ∧
    (d.faults = [] → ∃ changed d', saveDir codec σ.toSorting g d = (.ok changed, d')) := by
  have hgroups : ∀ c ∈ g.cases, c.group ≠ "" := fun c hc => (hplain c hc).ne
  refine ⟨fun changed d' h => ?_, fun e d' h => ?_, fun hfaults => ?_⟩
  · obtain ⟨hholds, hnodup, hchanged⟩ := saveDir_ok hne hgroups h
    obtain ⟨loaded, hload, hsessions, cs, hperm, hencoded⟩ := hholds.loads hne hnames
    refine ⟨⟨⟨d'.files.nodup, hholds.mem_keys⟩, ⟨loaded, hload, cs, hperm, hencoded⟩,
      ⟨hnodup, hchanged⟩, fun recordedAt faults res d'' hagain => ?_⟩, ?_⟩
    · have hholds' : Holds codec σ { g with recordedAt } d'.files :=
        ⟨hholds.mem_keys, hholds.current⟩
      exact saveDir_again (g := { g with recordedAt }) (d := ⟨d'.files, faults⟩) hne hgroups
        hholds' hagain
    · refine ⟨fun ⟨loaded', hload', cs', hperm', halike⟩ c hc => ?_, fun hnone => ?_⟩
      · cases Except.ok.inj (hload.symm.trans hload')
        exact sessions_of_alike halike hsessions c (hperm'.mem_iff.2 hc)
      · exact ⟨loaded, hload, cs, hperm, (forall₂_alike_iff hencoded hsessions).2 fun c hc =>
          hnone c (hperm.mem_iff.1 hc)⟩
  · have hsafe := saveDir_error hne hgroups h
    refine ⟨hsafe, fun hkeys => ?_⟩
    obtain hkept | hcurrent := hsafe
    · obtain ⟨name, hname⟩ := List.exists_mem_of_ne_nil _ hkeys
      exact List.ne_nil_of_mem (hkept name hname)
    · obtain ⟨c, hc⟩ := List.exists_mem_of_ne_nil _ hne
      exact List.ne_nil_of_mem (Dict.mem_keys.2 (isSome_of_sameContent (hcurrent c hc)))
  · obtain ⟨files, faults⟩ := d
    cases hfaults
    exact exists_saveDir codec σ g files hne hgroups

end Complete

section Runs

def KeySort.insertion : KeySort where
  toSorting := .insertion
  map f l hf := (List.map_insertionSort (fun a b : Observation => finalKey a ≤ finalKey b) _ f l
      fun a _ b _ => by
    rw [hf, hf]).symm

def stepCase (name group : String) : RecordedCase :=
  { name := name, group := group, steps := ["SELECT 1"],
    observations := [{ outcome := "ok", commandTag := "SELECT 1" }] }

theorem directory_saved_iff_two :
    let d : Disk Json := { files := Dict.empty.set "old" .null }
    let g : Golden :=
      ⟨zeroTime, "aurora-dsql", "", "default", [stepCase "a" "one", stepCase "b" "two"]⟩
    ∃ changed d', saveDir Codec.values KeySort.insertion.toSorting g d = (.ok changed, d') ∧
      changed = ["old", "one", "two"] ∧ ∃ loaded, loadDir Codec.values d'.files = .ok loaded ∧
        ∃ cs, cs.Perm g.cases ∧ List.Forall₂ (Alike .insertion) loaded.cases cs := by
  intro d g
  have hplain : ∀ c ∈ g.cases, PlainName c.group := by
    intro c hc
    simp only [g, List.mem_cons, List.not_mem_nil, or_false] at hc
    obtain rfl | rfl := hc
    · exact ⟨by decide, by decide, by decide⟩
    · exact ⟨by decide, by decide, by decide⟩
  have hsaved : saveDir Codec.values KeySort.insertion.toSorting g d =
      (.ok ["old", "one", "two"], (saveDir Codec.values KeySort.insertion.toSorting g d).2) := by
    refine Prod.ext ?_ rfl
    decide +kernel
  refine ⟨_, _, hsaved, rfl, ?_⟩
  refine (((directory_saved_iff Codec.values .insertion d g (by decide) (by decide) hplain).1 _ _
    hsaved).2).2 ?_
  decide

/-- A case of two sessions comes back without what they sent. -/
theorem directory_drops_statements :
    let c : RecordedCase :=
  { name := "race", group := "occ", sessions := [["BEGIN", "COMMIT"], ["BEGIN", "COMMIT"]],
                              sessionResults := [[{ outcome := "ok" }], [{ outcome := "ok" }]] }
    let saved := saveDir Codec.values KeySort.insertion.toSorting (goldenOf c) { files := .empty }
    saved.1 = .ok ["occ"] ∧ loadDir Codec.values saved.2.files = .ok (goldenOf c.withoutSessions) ∧
      ¬ Alike .insertion c.withoutSessions c := by
  decide +kernel

end Runs

end DsqlEmulator.Conformance
