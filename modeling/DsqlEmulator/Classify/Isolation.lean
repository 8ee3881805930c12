import DsqlEmulator.Classify.Embedded
import DsqlEmulator.Postgres.Isolation

/-! The isolation check and the rules on settings, against what PostgreSQL makes of the
statements they let through. -/

namespace DsqlEmulator.Classify

open Proxy Rules Postgres Strings

def constNode : SettingValue → Message
  | .text s => .node "a_const" (.of "A_Const" [] [("sval", .of "String" [("sval", .str s)] [])])
  | .number n => .node "a_const" (.of "A_Const" [] [("ival", .of "Integer" [("ival", .int n)] [])])

def modeNode : TransactionMode → Message
  | .isolation level => defElemNode "transaction_isolation" (some (constNode (.text level.name)))
  | .readOnly on =>
    defElemNode "transaction_read_only" (some (constNode (.number (if on then 1 else 0))))
  | .deferrable on =>
    defElemNode "transaction_deferrable" (some (constNode (.number (if on then 1 else 0))))

def setNode (kind : String) (isLocal : Bool) (name : String) (args : List Message) : Message :=
  .node "variable_set_stmt" (.of "VariableSetStmt"
    [("kind", .enum kind), ("is_local", .bool isLocal), ("name", .str name)]
      (args.map (Prod.mk "args")))

def commandNode : Command → Message
  | .begin start modes => .node "transaction_stmt" (.of "TransactionStmt"
      [("kind", .enum (if start then "TRANS_STMT_START" else "TRANS_STMT_BEGIN"))]
      ((modes.map modeNode).map (Prod.mk "options")))
  | .setTransaction modes => setNode "VAR_SET_MULTI" false "TRANSACTION" (modes.map modeNode)
  | .setSessionCharacteristics modes =>
    setNode "VAR_SET_MULTI" false "SESSION CHARACTERISTICS" (modes.map modeNode)
  | .setTransactionSnapshot id =>
    setNode "VAR_SET_MULTI" false "TRANSACTION SNAPSHOT" [constNode (.text id)]
  | .set isLocal name values => setNode "VAR_SET_VALUE" isLocal name (values.map constNode)
  | .setToDefault isLocal name => setNode "VAR_SET_DEFAULT" isLocal name []
  | .setFromCurrent isLocal name => setNode "VAR_SET_CURRENT" isLocal name []

def Supports (rs : Ruleset) (level : IsolationLevel) : Prop :=
  rs.supported.any (equalFold · level.name) = true

instance (rs : Ruleset) (level : IsolationLevel) : Decidable (Supports rs level) :=
  inferInstanceAs (Decidable (_ = _))

/-- The level in force and those that may come to be are listed. -/
structure Pinned (rs : Ruleset) (st : Levels) : Prop where
  current : Supports rs st.current
  default : Supports rs st.default
  reset : Supports rs st.reset

section Begin

variable {rs : Ruleset} {parse : String → Option (List Message)} {async start : Bool}
  {modes : List TransactionMode}

theorem defElemValue_modes (modes : List TransactionMode) :
    defElemValue (modes.map modeNode) "transaction_isolation" =
      ((levels modes).head?.map IsolationLevel.name).getD "" := by
  rw [defElemValue, defElem]
  congr 1
  induction modes with
  | nil => rfl
  | cons mode modes ih =>
    rw [List.map_cons, List.findSome?_cons, ih]
    cases mode <;> rfl

theorem isolationLevel_begin :
    isolationLevel (commandNode (.begin start modes)) =
      ((levels modes).head?.map IsolationLevel.name).getD "" := by
  rw [← defElemValue_modes]
  simp only [isolationLevel, commandNode, Message.get_node_self, Message.list_of_map]

theorem name_ne (level : IsolationLevel) : level.name ≠ "" := by
  cases level <;> decide

theorem transactionRules : embeddedRules.filter (·.stmt = "transaction_stmt") =
    [savepoint, releaseSavepoint, rollbackToSavepoint] := rfl

theorem unsupportedIsolation_begin :
    unsupportedIsolation rs.supported (commandNode (.begin start modes)) = none ↔
    ∀ level, (levels modes).head? = some level → Supports rs level := by
  rw [unsupportedIsolation, isolationLevel_begin]
  cases hl : (levels modes).head? with
  | none => simp
  | some level => simp [name_ne, Supports]

theorem begin_accepted_iff (hrules : rs.unsupported = embeddedRules) :
    (ofRuleset rs parse).verdict async (commandNode (.begin start modes)) = none ↔
      ∀ level, (levels modes).head? = some level → Supports rs level := by
  rw [commandNode, verdict_eq_none_iff, hrules, transactionRules, ← commandNode,
    unsupportedIsolation_begin]
  refine and_iff_left fun r hr _ => ?_
  simp only [List.mem_cons, List.not_mem_nil, or_false] at hr
  cases start <;> rcases hr with rfl | rfl | rfl <;> rfl

end Begin

section Set

variable {rs : Ruleset} {parse : String → Option (List Message)} {async isLocal : Bool}
  {kind name : String} {args : List Message}

theorem settingRules : embeddedRules.filter (·.stmt = "variable_set_stmt") =
    [setTransaction, setIsolation] := rfl

theorem matches_setRule {r : Rules.Rule} (hr : r ∈ [setTransaction, setIsolation]) :
    matchesRule r (setNode kind isLocal name args) = r.setName.contains name := by
  have hname : setParameter (setNode kind isLocal name args) = name := rfl
  have htype : nodeType (setNode kind isLocal name args) = "variable_set_stmt" := rfl
  simp only [List.mem_cons, List.not_mem_nil, or_false] at hr
  rcases hr with rfl | rfl <;> simp [matchesRule, setTransaction, setIsolation, hname, htype]

def refusedNames : List String := setTransaction.setName ++ setIsolation.setName

theorem isolationLevel_set (h : name ∉ refusedNames) :
    isolationLevel (setNode kind isLocal name args) = "" := by
  rw [refusedNames, List.mem_append, not_or] at h
  rw [setNode, isolationLevel, get_eq_none_of_nodeType (by decide), Message.get_node_self]
  exact (if_neg h.1).trans (if_neg h.2)

theorem set_accepted_iff (hrules : rs.unsupported = embeddedRules) :
    (ofRuleset rs parse).verdict async (setNode kind isLocal name args) = none ↔
      name ∉ refusedNames := by
  rw [setNode, verdict_eq_none_iff, hrules, settingRules, ← setNode]
  constructor
  · rintro ⟨-, h⟩ hname
    obtain hname | hname := List.mem_append.1 hname
    · have hno := h setTransaction (by simp) rfl
      rw [matches_setRule (by simp)] at hno
      exact absurd (List.contains_iff_mem.2 hname) (by rw [hno]; exact Bool.false_ne_true)
    · have hno := h setIsolation (by simp) rfl
      rw [matches_setRule (by simp)] at hno
      exact absurd (List.contains_iff_mem.2 hname) (by rw [hno]; exact Bool.false_ne_true)
  · intro h
    refine ⟨by simp [unsupportedIsolation, isolationLevel_set h], fun r hr _ => ?_⟩
    rw [matches_setRule hr, ← Bool.not_eq_true, List.contains_iff_mem]
    simp only [List.mem_cons, List.not_mem_nil, or_false] at hr
    rcases hr with rfl | rfl
    · exact fun hmem => h (List.mem_append_left _ hmem)
    · exact fun hmem => h (List.mem_append_right _ hmem)

end Set

section Kept

def misnamed (name : String) : Bool :=
  (sameName name "transaction_isolation" || sameName name "default_transaction_isolation") &&
    name ∉ setIsolation.setName

/-- What keeps a statement from changing the level behind the check: if the first level a
`BEGIN` asks for is listed, so is its last; a `SET` that spells the name of a level in other
letters gives it a listed one. -/
def KeepsLevel (rs : Ruleset) : Command → Prop
  | .begin _ modes =>
    ∀ first last, (levels modes).head? = some first → (levels modes).getLast? = some last →
      Supports rs first → Supports rs last
  | .set _ name [.text value] =>
    misnamed name = true → ∀ level, levelNamed value = some level → Supports rs level
  | _ => True

variable {rs : Ruleset} {parse : String → Option (List Message)} {async : Bool} {st : Levels}

theorem begin_kept_iff (hrules : rs.unsupported = embeddedRules) (hst : Pinned rs st) {start : Bool}
    {modes : List TransactionMode} :
    ((ofRuleset rs parse).verdict async (commandNode (.begin start modes)) = none →
        Pinned rs (st.exec (.begin start modes))) ↔ KeepsLevel rs (.begin start modes) := by
  rw [begin_accepted_iff hrules, KeepsLevel, Levels.exec, applyModes_eq]
  constructor
  · intro h first last hfirst hlast hsup
    have hkept := (h fun level hl => by rwa [← Option.some.inj (hfirst.symm.trans hl)]).current
    rwa [hlast] at hkept
  · intro h haccept
    refine ⟨?_, hst.default, hst.reset⟩
    cases hlast : (levels modes).getLast? with
    | none => exact hst.default
    | some last =>
      cases hfirst : (levels modes).head? with
      | none => simp [List.head?_eq_none_iff.1 hfirst] at hlast
      | some first => exact h first last hfirst hlast (haccept first hfirst)

theorem not_refused_of_misnamed {name : String} (h : misnamed name = true) :
    name ∉ refusedNames := by
  rw [misnamed, Bool.and_eq_true, decide_eq_true_eq] at h
  intro hmem
  obtain hmem | hmem := List.mem_append.1 hmem
  · have hno : ∀ n ∈ setTransaction.setName,
        (sameName n "transaction_isolation" || sameName n "default_transaction_isolation") =
          false := by decide
    exact absurd h.1 (by rw [hno name hmem]; exact Bool.false_ne_true)
  · exact h.2 hmem

theorem set_kept_iff (hrules : rs.unsupported = embeddedRules) (hst : Pinned rs st) {isLocal : Bool}
    {name value : String} :
    ((ofRuleset rs parse).verdict async (commandNode (.set isLocal name [.text value])) = none →
        Pinned rs (st.exec (.set isLocal name [.text value]))) ↔
          KeepsLevel rs (.set isLocal name [.text value]) := by
  rw [commandNode, set_accepted_iff hrules, KeepsLevel, Levels.exec]
  cases hlevel : levelNamed value with
  | none => simp [hst]
  | some level =>
    constructor
    · intro h hmis l hl
      obtain rfl := Option.some.inj hl
      have hkept := h (not_refused_of_misnamed hmis)
      rw [misnamed, Bool.and_eq_true, Bool.or_eq_true] at hmis
      dsimp only at hkept
      split at hkept
      next => exact hkept.current
      next hno =>
        rw [if_pos (hmis.1.resolve_left hno)] at hkept
        exact hkept.default
    · intro h hname
      have hno : name ∉ setIsolation.setName := fun hmem => hname (List.mem_append_right _ hmem)
      dsimp only
      split
      next hcur =>
        exact ⟨h (by rw [misnamed, hcur]; simpa using hno) level rfl, hst.default, hst.reset⟩
      next =>
        split
        next hdef =>
          exact ⟨hst.current, h (by rw [misnamed, hdef]; simpa using hno) level rfl, hst.reset⟩
        next => exact hst

/-- Where the levels are listed ones, a statement that opens a transaction or sets a
parameter is refused or leaves them so, just when it keeps the level. -/
theorem isolation_kept_iff (hrules : rs.unsupported = embeddedRules) (hst : Pinned rs st)
    (cmd : Command) :
    ((ofRuleset rs parse).verdict async (commandNode cmd) = none → Pinned rs (st.exec cmd)) ↔
      KeepsLevel rs cmd := by
  cases cmd with
  | begin start modes => exact begin_kept_iff hrules hst
  | setTransaction modes =>
    rw [commandNode, set_accepted_iff hrules]
    exact iff_of_true (fun h => absurd (by decide) h) trivial
  | setSessionCharacteristics modes =>
    rw [commandNode, set_accepted_iff hrules]
    exact iff_of_true (fun h => absurd (by decide) h) trivial
  | setTransactionSnapshot id => exact iff_of_true (fun _ => hst) trivial
  | set isLocal name values =>
    match values with
    | [.text value] => exact set_kept_iff hrules hst
    | [] => exact iff_of_true (fun _ => hst) trivial
    | [.number n] => exact iff_of_true (fun _ => hst) trivial
    | v :: _ :: _ => cases v <;> exact iff_of_true (fun _ => hst) trivial
  | setToDefault isLocal name =>
    refine iff_of_true (fun _ => ?_) trivial
    rw [Levels.exec]
    split
    · exact ⟨hst.current, hst.reset, hst.reset⟩
    · exact hst
  | setFromCurrent isLocal name => exact iff_of_true (fun _ => hst) trivial

theorem pinned_start : Pinned embedded ⟨.repeatableRead, .repeatableRead, .repeatableRead⟩ := by
  constructor <;> decide

theorem isolation_kept_iff_begin :
    ((ofRuleset embedded fun _ =>
        none).verdict false (commandNode (.begin false [.isolation .repeatableRead])) = none →
        Pinned embedded (Levels.exec ⟨.repeatableRead, .repeatableRead, .repeatableRead⟩
          (.begin false [.isolation .repeatableRead]))) ↔
      KeepsLevel embedded (.begin false [.isolation .repeatableRead]) :=
  isolation_kept_iff rfl pinned_start _

/-- `BEGIN ISOLATION LEVEL REPEATABLE READ, ISOLATION LEVEL READ COMMITTED`, and `SET
"Transaction_Isolation" = 'read committed'`: both are accepted, and change the level. -/
theorem isolation_changed_last :
    let st : Levels := ⟨.repeatableRead, .repeatableRead, .repeatableRead⟩
    let begin := Command.begin false [.isolation .repeatableRead, .isolation .readCommitted]
    let set := Command.set false "Transaction_Isolation" [.text "read committed"]
    Pinned embedded st ∧ ¬ Supports embedded .readCommitted ∧
      ((ofRuleset embedded fun _ => none).verdict false (commandNode begin) = none ∧
        (st.exec begin).current = .readCommitted) ∧
      (ofRuleset embedded fun _ => none).verdict false (commandNode set) = none ∧
        (st.exec set).current = .readCommitted := by
  intro st begin set
  exact ⟨pinned_start, by decide, by decide +kernel, by decide +kernel⟩

end Kept

end DsqlEmulator.Classify
