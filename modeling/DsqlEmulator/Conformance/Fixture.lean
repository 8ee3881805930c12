import DsqlEmulator.Conformance.Record

/-! Fixtures: what a record is read back as from the file it was written to. -/

namespace DsqlEmulator.Conformance

section Unmarshal

def Row.read : Json → Option Row
  | .null => some none
  | j => (Json.asList (fun cell => Json.asString (some cell)) (some j)).map some

def Rows.read : Option Json → Option Rows
  | none | some .null => some none
  | some j => (Json.asList Row.read (some j)).map some

def Result.ofMembers (ms : List (String × Json)) : Option Result := do
  let commandTag ← Json.asString (Json.lookup ms "command_tag")
  let columns ← Json.asList (fun name => Json.asString (some name)) (Json.lookup ms "columns")
  let rows ← Rows.read (Json.lookup ms "rows")
  return { commandTag, columns, rows }

def Result.read (j : Json) : Option Result := j.object? >>= Result.ofMembers

def Observation.ofMembers (ms : List (String × Json)) : Option Observation := do
  let outcome ← Json.asString (Json.lookup ms "outcome")
  let sqlState ← Json.asString (Json.lookup ms "sqlstate")
  let message ← Json.asString (Json.lookup ms "message")
  let toResult ← Result.ofMembers ms
  let results ← Json.asList Result.read (Json.lookup ms "results")
  return { toResult, outcome, sqlState, message, results }

def Observation.read (j : Json) : Option Observation := j.object? >>= Observation.ofMembers

def RecordedCase.ofMembers (ms : List (String × Json)) : Option RecordedCase := do
  let name ← Json.asString (Json.lookup ms "name")
  let group ← Json.asString (Json.lookup ms "group")
  let note ← Json.asString (Json.lookup ms "note")
  let steps ← Json.asList (fun step => Json.asString (some step)) (Json.lookup ms "steps")
  let ignoreRows ← Json.asBool (Json.lookup ms "ignore_rows")
  let knownGap ← Json.asString (Json.lookup ms "known_gap")
  let recordOnly ← Json.asBool (Json.lookup ms "record_only")
  let simpleProtocol ← Json.asBool (Json.lookup ms "simple_protocol")
  let conflictRace ← Json.asBool (Json.lookup ms "conflict_race")
  let observations ← Json.asList Observation.read (Json.lookup ms "observations")
  let sessionResults ← Json.asList (fun s => Json.asList Observation.read (some s))
    (Json.lookup ms "sessions")
  return { name, group, note, steps, ignoreRows, knownGap, recordOnly, simpleProtocol,
           conflictRace, observations, sessionResults }

def RecordedCase.read (j : Json) : Option RecordedCase := j.object? >>= RecordedCase.ofMembers

def readTime : Option Json → Option String
  | none | some .null => some zeroTime
  | j => Json.asString j

def Golden.ofMembers (ms : List (String × Json)) : Option Golden := do
  let recordedAt ← readTime (Json.lookup ms "recorded_at")
  let target ← Json.asString (Json.lookup ms "target")
  let serverVersion ← Json.asString (Json.lookup ms "server_version")
  let suite ← Json.asString (Json.lookup ms "suite")
  let cases ← Json.asList RecordedCase.read (Json.lookup ms "cases")
  return { recordedAt, target, serverVersion, suite, cases }

def Golden.read (j : Json) : Option Golden := j.object? >>= Golden.ofMembers

end Unmarshal

section Rows

/-! Records with all their rows changed. -/

variable (f : Rows → Rows)

def Result.mapRows (r : Result) : Result := { r with rows := f r.rows }

def Observation.mapRows (o : Observation) : Observation :=
  { o with
    toResult := o.toResult.mapRows f
    results := o.results.map (Result.mapRows f) }

def RecordedCase.mapRows (c : RecordedCase) : RecordedCase :=
  { c with
    observations := c.observations.map (Observation.mapRows f)
    sessionResults := c.sessionResults.map (List.map (Observation.mapRows f)) }

def Golden.mapRows (g : Golden) : Golden := { g with cases := g.cases.map (RecordedCase.mapRows f) }

variable {f} {h : Rows → Rows}

theorem Observation.mapRows_comp :
    Observation.mapRows f ∘ Observation.mapRows h = Observation.mapRows (f ∘ h) := by
  funext o
  simp [Observation.mapRows, Result.mapRows, Function.comp_def]

theorem RecordedCase.mapRows_mapRows (c : RecordedCase) :
    (c.mapRows h).mapRows f = c.mapRows (f ∘ h) := by
  simp [RecordedCase.mapRows, Observation.mapRows_comp]

end Rows

section Stored

def Rows.stored (rows : Rows) : Rows := if rows.getD [] = [] then none else rows

def RecordedCase.withoutSessions (c : RecordedCase) : RecordedCase := { c with sessions := [] }

def RecordedCase.stored (c : RecordedCase) : RecordedCase := (c.mapRows Rows.stored).withoutSessions

def Golden.stored (g : Golden) : Golden := { g with cases := g.cases.map RecordedCase.stored }

theorem Row.read_json (r : Row) : Row.read r.json = some r := by
  cases r with
  | none => rfl
  | some cells =>
    have hcells : Json.asList (fun cell => Json.asString (some cell))
        (some (.arr (cells.map .str))) = some (cells.map id) :=
      Json.asList_arr fun _ _ => rfl
    rw [Row.json, Row.read, hcells, List.map_id]
    · rfl
    · simp

theorem Rows.read_ofList (rows : Rows) : Rows.read (Json.ofList ((rows.getD []).map Row.json)) =
    some rows.stored := by
  unfold Json.ofList Rows.stored
  split
  next hnil => rw [if_pos (List.map_eq_nil_iff.1 hnil)]; rfl
  next hne =>
    rw [if_neg fun h => hne (by rw [h]; rfl)]
    cases rows with
    | none => exact absurd rfl hne
    | some rows =>
      have hrows : Json.asList Row.read (some (.arr (rows.map Row.json))) = some (rows.map id) :=
        Json.asList_arr fun r _ => Row.read_json r
      rw [Option.getD_some, Rows.read, hrows, List.map_id]
      · rfl
      · simp

theorem asList_strings (l : List String) :
    Json.asList (fun text => Json.asString (some text)) (Json.ofList (l.map .str)) = some l := by
  have h : Json.asList (fun text => Json.asString (some text)) (Json.ofList (l.map .str)) =
      some (l.map id) :=
    Json.asList_ofList fun _ _ => rfl
  rw [h, List.map_id]

theorem Result.ofMembers_members {ms : List (String × Option Json)} {r : Result}
    (hnodup : (ms.map fun p => Json.foldName p.1).Nodup) (h : ∀ p ∈ r.fields, p ∈ ms) :
    Result.ofMembers (Json.members ms) = some (r.mapRows Rows.stored) := by
  have hlookup {name : String} {v : Option Json} (hp : (name, v) ∈ r.fields) : Json.lookup
      (Json.members ms) name = v :=
    Json.lookup_members hnodup (h _ hp)
  unfold Result.ofMembers
  rw [hlookup (v := Json.ofString r.commandTag) (by simp [Result.fields]),
    hlookup (v := Json.ofList (r.columns.map .str)) (by simp [Result.fields]),
    hlookup (v := Json.ofList ((r.rows.getD []).map Row.json)) (by simp [Result.fields]),
    Json.asString_ofString, asList_strings, Rows.read_ofList]
  rfl

theorem Result.read_json (r : Result) : Result.read r.json = some (r.mapRows Rows.stored) := by
  have hnames : (["command_tag", "columns", "rows"].map Json.foldName).Nodup := by decide
  have hnodup : (r.fields.map fun p => Json.foldName p.1).Nodup := hnames
  exact Result.ofMembers_members hnodup fun _ hp => hp

theorem Observation.read_json (o : Observation) :
    Observation.read o.json = some (o.mapRows Rows.stored) := by
  have hnames : (["outcome", "sqlstate", "message", "command_tag", "columns", "rows", "results"].map
      Json.foldName).Nodup := by
    decide
  have hnodup : (o.fields.map fun p => Json.foldName p.1).Nodup := hnames
  have hlookup {name : String} {v : Option Json} (hp : (name, v) ∈ o.fields) : Json.lookup
      (Json.members o.fields) name = v :=
    Json.lookup_members hnodup hp
  have hresult : Result.ofMembers (Json.members o.fields) = some (o.toResult.mapRows Rows.stored) :=
    Result.ofMembers_members hnodup fun p hp => by simp [Observation.fields, hp]
  have hresults : Json.asList Result.read (Json.ofList (o.results.map Result.json)) =
      some (o.results.map (Result.mapRows Rows.stored)) :=
    Json.asList_ofList fun r _ => r.read_json
  show Observation.ofMembers (Json.members o.fields) = _
  unfold Observation.ofMembers
  rw [hlookup (v := some (.str o.outcome)) (by simp [Observation.fields]),
    hlookup (v := Json.ofString o.sqlState) (by simp [Observation.fields]),
    hlookup (v := Json.ofString o.message) (by simp [Observation.fields]), hresult,
    hlookup (v := Json.ofList (o.results.map Result.json)) (by simp [Observation.fields]), hresults,
    Json.asString_ofString, Json.asString_ofString]
  rfl

theorem RecordedCase.read_json (c : RecordedCase) : RecordedCase.read c.json = some c.stored := by
  have hnames : (["name", "group", "note", "steps", "ignore_rows", "known_gap", "record_only",
    "simple_protocol",
      "conflict_race", "observations", "sessions"].map Json.foldName).Nodup := by decide
  have hnodup : (c.fields.map fun p => Json.foldName p.1).Nodup := hnames
  have hlookup {name : String} {v : Option Json} (hp : (name, v) ∈ c.fields) : Json.lookup
      (Json.members c.fields) name = v :=
    Json.lookup_members hnodup hp
  have hsteps : Json.asList (fun step => Json.asString (some step))
      (some (.arr (c.steps.map .str))) = some (c.steps.map id) :=
    Json.asList_arr fun _ _ => rfl
  have hobservations : Json.asList Observation.read
    (Json.ofList (c.observations.map Observation.json)) =
      some (c.observations.map (Observation.mapRows Rows.stored)) := Json.asList_ofList fun o _ =>
        o.read_json
  have hsessions : Json.asList (fun s => Json.asList Observation.read (some s))
      (Json.ofList (c.sessionResults.map fun s => .arr (s.map Observation.json))) =
      some (c.sessionResults.map (List.map (Observation.mapRows Rows.stored))) :=
    Json.asList_ofList fun s _ => Json.asList_arr fun o _ => o.read_json
  rw [List.map_id] at hsteps
  show RecordedCase.ofMembers (Json.members c.fields) = _
  unfold RecordedCase.ofMembers
  rw [hlookup (v := some (.str c.name)) (by simp [RecordedCase.fields]),
    hlookup (v := some (.str c.group)) (by simp [RecordedCase.fields]),
    hlookup (v := Json.ofString c.note) (by simp [RecordedCase.fields]),
    hlookup (v := some (.arr (c.steps.map .str))) (by simp [RecordedCase.fields]),
    hlookup (v := Json.ofBool c.ignoreRows) (by simp [RecordedCase.fields]),
    hlookup (v := Json.ofString c.knownGap) (by simp [RecordedCase.fields]),
    hlookup (v := Json.ofBool c.recordOnly) (by simp [RecordedCase.fields]),
    hlookup (v := Json.ofBool c.simpleProtocol) (by simp [RecordedCase.fields]),
    hlookup (v := Json.ofBool c.conflictRace) (by simp [RecordedCase.fields]),
    hlookup (v := Json.ofList (c.observations.map Observation.json))
      (by simp [RecordedCase.fields]),
    hlookup (v := Json.ofList (c.sessionResults.map fun s => .arr (s.map Observation.json)))
      (by simp [RecordedCase.fields]), hsteps, hobservations, hsessions]
  simp only [Json.asString_ofString, Json.asBool_ofBool]
  rfl

theorem Golden.read_json (g : Golden) : Golden.read g.json = some g.stored := by
  have hnames : (["recorded_at", "target", "server_version", "suite", "cases"].map
    Json.foldName).Nodup := by decide
  have hnodup : (g.fields.map fun p => Json.foldName p.1).Nodup := hnames
  have hlookup {name : String} {v : Option Json} (hp : (name, v) ∈ g.fields) : Json.lookup
      (Json.members g.fields) name = v :=
    Json.lookup_members hnodup hp
  have hcases : Json.asList RecordedCase.read (some (.arr (g.cases.map RecordedCase.json))) =
      some (g.cases.map RecordedCase.stored) := Json.asList_arr fun c _ => c.read_json
  show Golden.ofMembers (Json.members g.fields) = _
  unfold Golden.ofMembers
  rw [hlookup (v := some (.str g.recordedAt)) (by simp [Golden.fields]),
    hlookup (v := some (.str g.target)) (by simp [Golden.fields]),
    hlookup (v := Json.ofString g.serverVersion) (by simp [Golden.fields]),
    hlookup (v := some (.str g.suite)) (by simp [Golden.fields]),
    hlookup (v := some (.arr (g.cases.map RecordedCase.json))) (by simp [Golden.fields]), hcases,
      Json.asString_ofString]
  rfl

theorem RecordedCase.sessions_of_read {j : Json} {c : RecordedCase}
    (h : RecordedCase.read j = some c) : c.sessions = [] := by
  obtain ⟨ms, -, h⟩ := Option.bind_eq_some_iff.1 h
  unfold RecordedCase.ofMembers at h
  simp only [bind, Option.bind_eq_some_iff, pure, Option.some.injEq] at h
  obtain ⟨_, -, _, -, _, -, _, -, _, -, _, -, _, -, _, -, _, -, _, -, _, -, rfl⟩ := h
  rfl

theorem Golden.sessions_of_read {j : Json} {g : Golden} (h : Golden.read j = some g) :
    ∀ c ∈ g.cases, c.sessions = [] := by
  obtain ⟨ms, -, h⟩ := Option.bind_eq_some_iff.1 h
  unfold Golden.ofMembers at h
  simp only [bind, Option.bind_eq_some_iff, pure, Option.some.injEq] at h
  obtain ⟨_, -, _, -, _, -, _, -, cases, hcases, rfl⟩ := h
  exact Json.forall_of_asList (fun _ _ hread => RecordedCase.sessions_of_read hread) hcases

end Stored

section Files

/-- A text format for JSON that can be read back.  What is not JSON cannot be read. -/
structure Codec (B : Type) : Type where
  marshal : Json → B
  marshalIndent : Json → B
  unmarshal : B → Option Json
  unmarshal_marshal : ∀ j, unmarshal (marshal j) = some j
  unmarshal_marshalIndent : ∀ j, unmarshal (marshalIndent j) = some j

/-- The fixtures of a directory by their names without `.json`, and which of the operations on
it to come fail; those after the last one do not. -/
structure Disk (B : Type) : Type where
  files : Dict String B
  faults : List Bool := []

variable {B : Type}

def Disk.attempt (d : Disk B) (change : Dict String B → Dict String B) : Bool × Disk B :=
  match d.faults with
  | [] => (true, { d with files := change d.files })
  | true :: faults => (false, { d with faults })
  | false :: faults => (true, ⟨change d.files, faults⟩)

theorem Disk.attempt_cases {d d' : Disk B} {change : Dict String B → Dict String B} {ok : Bool}
    (h : d.attempt change = (ok, d')) :
    ok = true ∧ d'.files = change d.files ∨ ok = false ∧ d'.files = d.files := by
  unfold Disk.attempt at h
  split at h
  next => cases h; exact .inl ⟨rfl, rfl⟩
  next => cases h; exact .inr ⟨rfl, rfl⟩
  next => cases h; exact .inl ⟨rfl, rfl⟩

theorem Disk.files_of_failed {d d' : Disk B} {change : Dict String B → Dict String B}
    (h : d.attempt change = (false, d')) : d'.files = d.files :=
  (Disk.attempt_cases h).elim (fun hd => absurd hd.1 Bool.false_ne_true) And.right

theorem Disk.files_of_done {d d' : Disk B} {change : Dict String B → Dict String B}
    (h : d.attempt change = (true, d')) : d'.files = change d.files :=
  (Disk.attempt_cases h).elim And.right fun hd => absurd hd.1.symm Bool.false_ne_true

theorem Disk.files_of_looked {d d' : Disk B} {ok : Bool} (h : d.attempt id = (ok, d')) :
    d'.files = d.files :=
  (Disk.attempt_cases h).elim And.right And.right

variable (codec : Codec B)

def load (files : Dict String B) (name : String) : Option Golden :=
  files.get name >>= codec.unmarshal >>= Golden.read

theorem load_set (files : Dict String B) (name : String) (g : Golden) :
    load codec (files.set name (codec.marshalIndent g.json)) name = some g.stored := by
  rw [load, Dict.get_set, if_pos rfl]
  show codec.unmarshal (codec.marshalIndent g.json) >>= Golden.read = _
  rw [codec.unmarshal_marshalIndent]
  exact g.read_json

variable [DecidableEq B] (σ : Sorting)

/-- The fixture observed the same thing. -/
def sameContent (files : Dict String B) (name : String) (g : Golden) : Bool :=
  match load codec files name with
  | none => false
  | some existing => codec.marshal (contentBytes σ existing) = codec.marshal (contentBytes σ g)

/-- Whether the fixture was written, or `none` if an operation failed. -/
def save (d : Disk B) (name : String) (g : Golden) : Option Bool × Disk B :=
  match d.attempt id with
  | (false, d) => (none, d)
  | (true, d) =>
    if sameContent codec σ d.files name g then (some false, d)
    else
      match d.attempt (·.set name (codec.marshalIndent g.json)) with
      | (false, d) => (none, d)
      | (true, d) => (some true, d)

end Files

section Kept

def Rows.plain (rows : Rows) : Rows := some ((rows.getD []).map fun row => some (row.getD []))

variable {B : Type} [DecidableEq B] {codec : Codec B} {σ : Sorting} {d d' : Disk B} {name : String}
  {g : Golden}

theorem Rows.plain_stored (rows : Rows) : rows.stored.plain = rows.plain := by
  unfold Rows.stored
  split
  next h => rw [Rows.plain, Rows.plain, h]; rfl
  next => rfl

theorem RecordedCase.plain_stored (c : RecordedCase) :
    c.stored.mapRows Rows.plain = (c.mapRows Rows.plain).withoutSessions := by
  have hplain : Rows.plain ∘ Rows.stored = Rows.plain := funext Rows.plain_stored
  show ((c.mapRows Rows.stored).mapRows Rows.plain).withoutSessions = _
  rw [RecordedCase.mapRows_mapRows, hplain]

theorem RecordedCase.withoutSessions_eq_iff (c : RecordedCase) : c.withoutSessions = c ↔
    c.sessions = [] := by
  refine ⟨fun h => (congrArg (fun c => c.sessions) h).symm, fun h => ?_⟩
  rw [RecordedCase.withoutSessions, ← h]

theorem RecordedCase.plain_stored_iff (c : RecordedCase) :
    c.stored.mapRows Rows.plain = c.mapRows Rows.plain ↔ c.sessions = [] := by
  rw [RecordedCase.plain_stored]
  exact RecordedCase.withoutSessions_eq_iff (c.mapRows Rows.plain)

theorem save_cases {written : Option Bool} (h : save codec σ d name g = (written, d')) :
    written = none ∧ d'.files = d.files ∨
    written = some false ∧ d'.files = d.files ∧ sameContent codec σ d.files name g = true ∨
    written = some true ∧ d'.files = d.files.set name (codec.marshalIndent g.json) ∧
      sameContent codec σ d.files name g = false := by
  unfold save at h
  split at h
  next d₁ hmade =>
    cases h
    exact .inl ⟨rfl, Disk.files_of_failed hmade⟩
  next d₁ hmade =>
    have hfiles : d₁.files = d.files := Disk.files_of_looked hmade
    rw [← hfiles]
    split at h
    next hsame =>
      cases h
      exact .inr (.inl ⟨rfl, rfl, hsame⟩)
    next hsame =>
      split at h
      next d₂ hwrite =>
        cases h
        exact .inl ⟨rfl, Disk.files_of_failed hwrite⟩
      next d₂ hwrite =>
        cases h
        exact .inr (.inr ⟨rfl, Disk.files_of_done hwrite, Bool.eq_false_iff.2 hsame⟩)

/-- A fixture that was written is read back as the record, just when no case of the record has
statements of sessions. -/
theorem fixture_kept_iff (codec : Codec B) (σ : Sorting) (d d' : Disk B) (name : String)
    (g : Golden) (h : save codec σ d name g = (some true, d')) :
    (∃ g', load codec d'.files name = some g' ∧ g'.mapRows Rows.plain = g.mapRows Rows.plain) ↔
      ∀ c ∈ g.cases, c.sessions = [] := by
  obtain ⟨hnone, -⟩ | ⟨hfalse, -⟩ | ⟨-, hfiles, -⟩ := save_cases h
  · cases hnone
  · cases hfalse
  · have hcases : g.stored.mapRows Rows.plain = g.mapRows Rows.plain ↔
        ∀ c ∈ g.cases, c.sessions = [] := by
      simp only [Golden.stored, Golden.mapRows, Golden.mk.injEq, true_and, List.map_map,
        List.map_inj_left, Function.comp_apply, RecordedCase.plain_stored_iff]
    rw [hfiles, load_set, ← hcases]
    exact ⟨fun ⟨_, hg, heq⟩ => Option.some.inj hg ▸ heq, fun heq => ⟨_, rfl, heq⟩⟩

def Codec.values : Codec Json where
  marshal j := j
  marshalIndent j := j
  unmarshal := some
  unmarshal_marshal _ := rfl
  unmarshal_marshalIndent _ := rfl

def goldenOf (c : RecordedCase) : Golden := ⟨zeroTime, "aurora-dsql", "", "default", [c]⟩

theorem fixture_kept_iff_step :
    let g := goldenOf { name := "select", steps := ["SELECT 1"],
                        observations :=
                          [{ outcome := "ok", commandTag := "SELECT 1", rows := some [some
                          ["1"]] }] }
    ∃ g', load Codec.values (save Codec.values .insertion ⟨.empty, []⟩ "basic" g).2.files
      "basic" = some g' ∧ g'.mapRows Rows.plain = g.mapRows Rows.plain :=
  (fixture_kept_iff Codec.values .insertion ⟨.empty, []⟩ _ "basic" _ rfl).2 (by simp [goldenOf])

/-- Two sessions: what they sent is not in the fixture. -/
theorem fixture_drops_statements :
    let g := goldenOf { name := "race", sessions := [["BEGIN", "COMMIT"], ["BEGIN", "COMMIT"]],
                        sessionResults := [[{ outcome := "ok" }], [{ outcome := "ok" }]] }
    let read := goldenOf
      { name := "race", sessionResults := [[{ outcome := "ok" }], [{ outcome := "ok" }]] }
    let saved := save Codec.values .insertion ⟨.empty, []⟩ "occ" g
    saved.1 = some true ∧ load Codec.values saved.2.files "occ" = some read ∧
      read.mapRows Rows.plain ≠ g.mapRows Rows.plain := by
  decide +kernel

end Kept

end DsqlEmulator.Conformance
