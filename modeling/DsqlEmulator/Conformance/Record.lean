import DsqlEmulator.Json
import Mathlib.Data.List.Sort
import Mathlib.Data.String.Basic

/-! What a run of the conformance suite records, and the part of it that change detection
looks at. -/

namespace DsqlEmulator.Conformance

abbrev Row : Type := Option (List String)

abbrev Rows : Type := Option (List Row)

structure Result : Type where
  commandTag : String := ""
  columns : List String := []
  rows : Rows := none
  deriving DecidableEq, Repr

structure Observation : Type extends Result where
  outcome : String
  sqlState : String := ""
  message : String := ""
  results : List Result := []
  deriving DecidableEq, Repr

structure Case : Type where
  name : String
  group : String := ""
  note : String := ""
  steps : List String := []
  ignoreRows : Bool := false
  knownGap : String := ""
  sessions : List (List String) := []
  recordOnly : Bool := false
  simpleProtocol : Bool := false
  conflictRace : Bool := false
  deriving DecidableEq, Repr

/-- A case with one list of observations, or one for each concurrent session. -/
structure RecordedCase : Type extends Case where
  observations : List Observation := []
  sessionResults : List (List Observation) := []
  deriving DecidableEq, Repr

/-- A recorded baseline; the time is the text it is written as. -/
structure Golden : Type where
  recordedAt : String
  target : String
  serverVersion : String
  suite : String
  cases : List RecordedCase
  deriving DecidableEq, Repr

section Marshal

def Row.json : Row → Json
  | none => .null
  | some cells => .arr (cells.map .str)

def Rows.json : Rows → Json
  | none => .null
  | some rows => .arr (rows.map Row.json)

def Result.fields (r : Result) : List (String × Option Json) :=
  [("command_tag", Json.ofString r.commandTag), ("columns", Json.ofList (r.columns.map .str)),
    ("rows", Json.ofList ((r.rows.getD []).map Row.json))]

def Result.json (r : Result) : Json := .obj (Json.members r.fields)

def Observation.fields (o : Observation) : List (String × Option Json) :=
  [("outcome", some (.str o.outcome)), ("sqlstate", Json.ofString o.sqlState),
    ("message", Json.ofString o.message)] ++
    o.toResult.fields ++ [("results", Json.ofList (o.results.map Result.json))]

def Observation.json (o : Observation) : Json := .obj (Json.members o.fields)

def RecordedCase.fields (c : RecordedCase) : List (String × Option Json) :=
  [("name", some (.str c.name)), ("group", some (.str c.group)), ("note", Json.ofString c.note),
    ("steps", some (.arr (c.steps.map .str))), ("ignore_rows", Json.ofBool c.ignoreRows),
    ("known_gap", Json.ofString c.knownGap), ("record_only", Json.ofBool c.recordOnly),
    ("simple_protocol", Json.ofBool c.simpleProtocol),
      ("conflict_race", Json.ofBool c.conflictRace),
    ("observations", Json.ofList (c.observations.map Observation.json)),
    ("sessions", Json.ofList (c.sessionResults.map fun s => .arr (s.map Observation.json)))]

def RecordedCase.json (c : RecordedCase) : Json := .obj (Json.members c.fields)

def Golden.fields (g : Golden) : List (String × Option Json) :=
  [("recorded_at", some (.str g.recordedAt)), ("target", some (.str g.target)),
    ("server_version", Json.ofString g.serverVersion), ("suite", some (.str g.suite)),
    ("cases", some (.arr (g.cases.map RecordedCase.json)))]

def Golden.json (g : Golden) : Json := .obj (Json.members g.fields)

theorem Row.json_injective : Function.Injective Row.json := by
  intro r r' h
  cases r with
  | none =>
    cases r' with
    | none => rfl
    | some cells => cases h
  | some cells =>
    cases r' with
    | none => cases h
    | some cells' =>
      have hstr : Function.Injective Json.str := fun _ _ hs => Json.str.inj hs
      rw [hstr.list_map (Json.arr.inj h)]

theorem Rows.json_injective : Function.Injective Rows.json := by
  intro r r' h
  cases r with
  | none =>
    cases r' with
    | none => rfl
    | some rows => cases h
  | some rows =>
    cases r' with
    | none => cases h
    | some rows' => rw [Row.json_injective.list_map (Json.arr.inj h)]

end Marshal

section Waived

def isRowCountTag (tag : String) : Bool :=
  tag.toList.take 7 = "SELECT ".toList && (Strings.atoi (tag.toList.drop 7)).isSome

def Result.withoutRows (r : Result) : Result :=
  { r with
    rows := none
    commandTag := if isRowCountTag r.commandTag then "" else r.commandTag }

def Observation.withoutRows (o : Observation) : Observation :=
  { o with
    toResult := o.toResult.withoutRows
    results := o.results.map Result.withoutRows }

def finalKey (o : Observation) : String :=
  "\x00".intercalate [o.outcome, o.sqlState, o.commandTag, o.message]

/-- How the last steps are sorted: by their key, those with one key in any order. -/
structure Sorting : Type where
  sort : List Observation → List Observation
  perm : ∀ l, (sort l).Perm l
  sorted : ∀ l, (sort l).Pairwise fun a b => ¬ finalKey b < finalKey a

variable (σ : Sorting)

def withConflictFinalsPooled (sessions : List (List Observation)) : List (List Observation) :=
  sessions.map List.dropLast ++ [σ.sort (sessions.filterMap List.getLast?)]

def enforcedCase (c : RecordedCase) : RecordedCase :=
  let c := if c.ignoreRows then
      { c with
        observations := c.observations.map Observation.withoutRows
        sessionResults := c.sessionResults.map (List.map Observation.withoutRows) }
    else c
  if c.conflictRace then { c with sessionResults := withConflictFinalsPooled σ c.sessionResults }
    else c

def zeroTime : String := "0001-01-01T00:00:00Z"

def Golden.content (g : Golden) : Golden :=
  { g with
    recordedAt := zeroTime
    cases := g.cases.map (enforcedCase σ) }

def contentBytes (g : Golden) : Json := (g.content σ).json

def Sorting.insertion : Sorting where
  sort l := l.insertionSort fun a b => finalKey a ≤ finalKey b
  perm l := l.perm_insertionSort _
  sorted l := by
    have htotal : Std.Total fun a b : Observation => finalKey a ≤ finalKey b :=
      ⟨fun a b => le_total _ _⟩
    have htrans : IsTrans Observation fun a b => finalKey a ≤ finalKey b := ⟨fun a b c => le_trans⟩
    exact (List.pairwise_insertionSort (fun a b : Observation => finalKey a ≤ finalKey b) l).imp
      fun h => not_lt.2 h

end Waived

end DsqlEmulator.Conformance
