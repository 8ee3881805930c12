import DsqlEmulator.Classify.Eval

/-! What the embedded ruleset says of an `ALTER TABLE` and of a query. -/

namespace DsqlEmulator.Classify

open Proxy Rules

section Verdict

variable {rs : Ruleset} {parse : String → Option (List Message)} {async : Bool} {sql : String}

theorem find_unsupported (rules : List Rules.Rule) (async : Bool) (kind : String)
    (value : Message) : (rules.map ofRule).find?
      (fun rule => !(rule.unlessAsync && async) && rule.holds (.node kind value)) =
      ((rules.filter (·.stmt = kind)).find? fun r => !(r.unlessAsync && async) &&
          matchesRule r (.node kind value)).map
        ofRule := by
  rw [List.find?_map, List.find?_filter]
  congr 2
  funext r
  by_cases h : kind = r.stmt
  · simp [ofRule, h]
  · have hno : matchesRule r (.node kind value) = false := by
      rw [← Bool.not_eq_true]
      exact fun hm => h (nodeType_of_matchesRule hm)
    simp [ofRule, hno, Ne.symm h]

theorem verdict_node {kind : String} {value : Message}
    (hiso : isolationLevel (.node kind value) = "") :
    (ofRuleset rs parse).verdict async (.node kind value) =
      ((rs.unsupported.filter (·.stmt = kind)).find?
        fun r => !(r.unlessAsync && async) && matchesRule r (.node kind value)).map
          fun r => ⟨r.id, r.code, fill r (.node kind value)⟩ := by
  have hnone : (ofRuleset rs parse).unsupportedIsolation (.node kind value) = none := by
    simp [ofRuleset, unsupportedIsolation, hiso]
  have hfind : (ofRuleset rs parse).unsupported.find? (fun rule => !(rule.unlessAsync && async) &&
      rule.holds (.node kind value)) = _ := find_unsupported rs.unsupported async kind value
  unfold Classifier.verdict
  simp only [hnone, hfind]
  exact Option.map_map _ _ _

theorem verdict_eq_none_iff {kind : String} {value : Message} :
    (ofRuleset rs parse).verdict async (.node kind value) = none ↔
      unsupportedIsolation rs.supported (.node kind value) = none ∧
        ∀ r ∈ rs.unsupported.filter (·.stmt = kind), (r.unlessAsync && async) = false →
          matchesRule r (.node kind value) = false := by
  have hfind : (ofRuleset rs parse).unsupported.find? (fun rule => !(rule.unlessAsync && async) &&
      rule.holds (.node kind value)) = _ := find_unsupported rs.unsupported async kind value
  unfold Classifier.verdict
  simp only [hfind]
  cases hiso : (ofRuleset rs parse).unsupportedIsolation (.node kind value) with
  | some level =>
    have hsome : unsupportedIsolation rs.supported (.node kind value) = some level := hiso
    simp [hsome]
  | none =>
    have hnone : unsupportedIsolation rs.supported (.node kind value) = none := hiso
    rw [and_iff_right hnone]
    refine (Option.map_eq_none_iff.trans Option.map_eq_none_iff).trans ?_
    simp only [List.find?_eq_none, Bool.and_eq_true, Bool.not_eq_true', not_and, Bool.not_eq_true]

theorem isolationLevel_node {kind : String} {value : Message} (ht : kind ≠ "transaction_stmt")
    (hs : kind ≠ "variable_set_stmt") : isolationLevel (.node kind value) = "" := by
  rw [isolationLevel, get_eq_none_of_nodeType ht, get_eq_none_of_nodeType hs]

theorem classify_single {node : Message} (h : parse sql = some [node]) (v : Verdict) :
    (ofRuleset rs parse).classify async sql = .rejected v ↔
      (ofRuleset rs parse).verdict async node = some v := by
  have hparse : (ofRuleset rs parse).parse sql = some [node] := h
  simp only [Classifier.classify, hparse, Classifier.statements]
  cases (ofRuleset rs parse).verdict async node <;> simp

end Verdict

section Retype

def retypes (stmt : Message) : Prop :=
  stmt.list "cmds" ≠ [] ∧
    ∀ c ∈ stmt.list "cmds", ∃ cmd, c.get "alter_table_cmd" = some cmd ∧ cmd.enum "subtype" =
      "AT_AlterColumnType"

variable {stmt : Message} {parse : String → Option (List Message)} {async : Bool} {sql : String}

theorem alterRules : embeddedRules.filter (·.stmt = "alter_table_stmt") =
    [serialAlterColumn, alterAddColumnConstraint, alterColumnType, unsupportedTypeAlterColumn,
      arrayColumnAlterColumn, alterAddConstraintRequiresNotValid, alterAddKeyConstraint,
      alterValidateRequiresAsync] := rfl

theorem matches_serialAlterColumn :
    matchesRule serialAlterColumn (.node "alter_table_stmt" stmt) =
      intersects serialTypes (columnTypes (.node "alter_table_stmt" stmt)) := by
  simp [matchesRule, serialAlterColumn, serialTypes]

theorem matches_alterAddColumnConstraint :
    matchesRule alterAddColumnConstraint (.node "alter_table_stmt" stmt) =
      addsColumnWithConstraint (.node "alter_table_stmt" stmt)
        alterAddColumnConstraint.addColumnConstraint := by
  simp [matchesRule, alterAddColumnConstraint]

theorem matches_alterColumnType :
    matchesRule alterColumnType (.node "alter_table_stmt" stmt) =
      intersects ["AT_AlterColumnType"] (alterActions (.node "alter_table_stmt" stmt)) := by
  simp [matchesRule, alterColumnType]

theorem subtype_of_retypes (h : retypes stmt) {cmd : Message}
    (hcmd : cmd ∈ alterCmds (.node "alter_table_stmt" stmt)) :
    cmd.enum "subtype" = "AT_AlterColumnType" := by
  simp only [alterCmds, Message.get_node_self] at hcmd
  obtain ⟨c, hc, hget⟩ := List.mem_filterMap.1 hcmd
  obtain ⟨cmd', hcmd', hsub⟩ := h.2 c hc
  obtain rfl : cmd' = cmd := Option.some.inj (hcmd'.symm.trans hget)
  exact hsub

theorem retypes_action (h : retypes stmt) :
    intersects ["AT_AlterColumnType"] (alterActions (.node "alter_table_stmt" stmt)) = true := by
  obtain ⟨c, hc⟩ := List.exists_mem_of_ne_nil _ h.1
  obtain ⟨cmd, hcmd, hsub⟩ := h.2 c hc
  have hmem : cmd ∈ alterCmds (.node "alter_table_stmt" stmt) := by
    simp only [alterCmds, Message.get_node_self]
    exact List.mem_filterMap.2 ⟨c, hc, hcmd⟩
  refine List.any_eq_true.2 ⟨"AT_AlterColumnType", ?_, by decide⟩
  rw [alterActions, ← hsub]
  exact List.mem_map_of_mem hmem

theorem retypes_adds_nothing (h : retypes stmt) (kinds : List String) :
    addsColumnWithConstraint (.node "alter_table_stmt" stmt) kinds = false := by
  refine List.any_eq_false.2 fun cmd hcmd => ?_
  simp [subtype_of_retypes h hcmd]

/-- A retype is refused as one just when no column is given one of the serial types: the
rule on those stands before the rule on retypes. -/
theorem retype_refused_iff (h : retypes stmt)
    (hparse : parse sql = some [.node "alter_table_stmt" stmt]) :
    (ofRuleset embedded parse).classify async sql = .rejected ⟨"alter_column_type", "0A000",
        "unsupported ALTER TABLE ALTER COLUMN ... SET DATA TYPE statement"⟩ ↔
      ∀ t ∈ columnTypes (.node "alter_table_stmt" stmt), t ∉ serialTypes := by
  have hrules : embedded.unsupported.filter (·.stmt = "alter_table_stmt") = _ := alterRules
  rw [classify_single hparse, verdict_node (isolationLevel_node (by decide) (by decide)), hrules]
  simp only [List.find?_cons, matches_serialAlterColumn, matches_alterAddColumnConstraint,
    matches_alterColumnType, retypes_action h, retypes_adds_nothing h]
  cases hserial : intersects serialTypes (columnTypes (.node "alter_table_stmt" stmt)) with
  | true =>
    obtain ⟨t, ht, hmem⟩ := List.any_eq_true.1 hserial
    have hsome : ¬ ∀ t ∈ columnTypes (.node "alter_table_stmt" stmt), t ∉ serialTypes :=
      fun hall => hall t ht (List.contains_iff_mem.1 hmem)
    simp [hsome, serialAlterColumn]
  | false =>
    have hall : ∀ t ∈ columnTypes (.node "alter_table_stmt" stmt), t ∉ serialTypes :=
        fun t ht hmem =>
      List.any_eq_false.1 hserial t ht (List.contains_iff_mem.2 hmem)
    simp only [Bool.and_true, iff_true_right hall]
    rfl

def retypeCmd (names : List String) : Message :=
  .node "alter_table_cmd" (.of "AlterTableCmd" [("subtype", .enum "AT_AlterColumnType")]
    [("def", .node "column_def" (.of "ColumnDef" []
      [("type_name", .of "TypeName" [] (names.map fun n =>
        ("names", .node "string" (.of "String" [("sval", .str n)] []))))]))])

def alterTable (cmds : List Message) : Message :=
  .of "AlterTableStmt" [] (cmds.map (Prod.mk "cmds"))

theorem retypes_alterTable (types : List (List String)) (h : types ≠ []) :
    retypes (alterTable (types.map retypeCmd)) := by
  have hlist : (alterTable (types.map retypeCmd)).list "cmds" = types.map retypeCmd :=
    Message.list_of_map _ _ _ _
  refine ⟨by simpa [hlist] using h, fun c hc => ?_⟩
  rw [hlist] at hc
  obtain ⟨names, -, rfl⟩ := List.mem_map.1 hc
  exact ⟨_, Message.get_node_self _ _, rfl⟩

theorem retype_refused_iff_money :
    (ofRuleset embedded fun _ =>
        some [.node "alter_table_stmt" (alterTable [retypeCmd ["money"]])]).classify false ""
        = .rejected ⟨"alter_column_type", "0A000",
          "unsupported ALTER TABLE ALTER COLUMN ... SET DATA TYPE statement"⟩ ↔
      ∀ t ∈ columnTypes (.node "alter_table_stmt" (alterTable [retypeCmd ["money"]])),
        t ∉ serialTypes :=
  retype_refused_iff (retypes_alterTable [["money"]] (by decide)) rfl

/-- `ALTER TABLE t ALTER COLUMN a TYPE serial`: refused as a column of that type is. -/
theorem retype_refused_as_serial :
    retypes (alterTable [retypeCmd ["serial"]]) ∧
      (ofRuleset embedded fun _ =>
          some [.node "alter_table_stmt" (alterTable [retypeCmd ["serial"]])]).classify false ""
        = .rejected ⟨"serial_alter_column", "42704", "type \"serial\" does not exist"⟩ :=
  ⟨retypes_alterTable [["serial"]] (by decide), by decide +kernel⟩

end Retype

section Query

def callsListed (node : Message) : Prop :=
  ∃ call, Within (.node "func_call" call) node ∧
    functionName call ∈ unsupportedTextSearch.function ++ unsupportedGeometry.function

def samples (node : Message) : Prop :=
  ∃ m, Within m node ∧ (nodeType m = "RangeTableSample" ∨ m.descriptor = "RangeTableSample")

def locksListed (node : Message) : Prop :=
  ∃ clause, Within (.node "locking_clause" clause) node ∧ clause.enum "strength" ∈
    ["LCS_FORSHARE", "LCS_FORNOKEYUPDATE"]

variable {sel node : Message} {parse : String → Option (List Message)} {async : Bool} {sql : String}

theorem selectRules : embeddedRules.filter (·.stmt = "select_stmt") =
    [unsupportedTextSearch, unsupportedGeometry, unsupportedLocking, tablesample] := rfl

theorem matches_unsupportedTextSearch :
    matchesRule unsupportedTextSearch (.node "select_stmt" sel) =
    intersects unsupportedTextSearch.function (functionNames (.node "select_stmt" sel)) := by
  simp [matchesRule, unsupportedTextSearch]

theorem matches_unsupportedGeometry : matchesRule unsupportedGeometry (.node "select_stmt" sel) =
    intersects unsupportedGeometry.function (functionNames (.node "select_stmt" sel)) := by
  simp [matchesRule, unsupportedGeometry]

theorem matches_unsupportedLocking : matchesRule unsupportedLocking (.node "select_stmt" sel) =
    intersects ["LCS_FORSHARE", "LCS_FORNOKEYUPDATE"]
      (lockingStrengths (.node "select_stmt" sel)) := by
  simp [matchesRule, unsupportedLocking]

theorem matches_tablesample : matchesRule tablesample (.node "select_stmt" sel) =
    containsNode (.node "select_stmt" sel) ["RangeTableSample"] := by
  simp [matchesRule, tablesample]

theorem intersects_iff {want got : List String} : intersects want got = true ↔
    ∃ s ∈ got, s ∈ want := by
  simp [intersects]

theorem intersects_functionNames {want : List String} (h : "" ∉ want) :
    intersects want (functionNames node) = true ↔
      ∃ call, Within (.node "func_call" call) node ∧ functionName call ∈ want := by
  rw [intersects_iff]
  constructor
  · rintro ⟨f, hf, hwant⟩
    obtain ⟨call, hcall, rfl⟩ := (mem_functionNames node fun h' => h (h' ▸ hwant)).1 hf
    exact ⟨call, hcall, hwant⟩
  · rintro ⟨call, hcall, hwant⟩
    exact ⟨_, (mem_functionNames node fun h' => h (h' ▸ hwant)).2 ⟨call, hcall, rfl⟩, hwant⟩

theorem callsListed_iff : callsListed node ↔
    intersects unsupportedTextSearch.function (functionNames node) = true ∨
      intersects unsupportedGeometry.function (functionNames node) = true := by
  rw [intersects_functionNames (by decide), intersects_functionNames (by decide), ← exists_or]
  refine exists_congr fun call => ?_
  rw [List.mem_append, and_or_left]

theorem containsNode_iff : containsNode node ["RangeTableSample"] = true ↔ samples node := by
  simp only [containsNode, List.any_eq_true, mem_walkMessages_iff, samples]
  refine exists_congr fun m => and_congr_right fun _ => ?_
  cases m with
  | node kind value => simp [isNode]
  | mk name scalars fields => simp [isNode, nodeType]

theorem query_refused_iff (hparse : parse sql = some [.node "select_stmt" sel]) :
    (∃ v, (ofRuleset embedded parse).classify async sql = .rejected v) ↔
      callsListed (.node "select_stmt" sel) ∨ samples (.node "select_stmt" sel) ∨
        ∃ s ∈ lockingStrengths (.node "select_stmt" sel), s ∈
          ["LCS_FORSHARE", "LCS_FORNOKEYUPDATE"] := by
  have hrules : embedded.unsupported.filter (·.stmt = "select_stmt") = _ := selectRules
  have hfree : ∀ r ∈ [unsupportedTextSearch, unsupportedGeometry, unsupportedLocking, tablesample],
      (r.unlessAsync && async) = false := fun r hr => by
    rw [(by decide : ∀ r ∈ [unsupportedTextSearch, unsupportedGeometry, unsupportedLocking,
      tablesample], r.unlessAsync = false) r hr, Bool.false_and]
  have hlevel : isolationLevel (.node "select_stmt" sel) = "" :=
    isolationLevel_node (by decide) (by decide)
  simp only [classify_single hparse, verdict_node hlevel, hrules, ← Option.isSome_iff_exists,
    Option.isSome_map, List.find?_isSome]
  rw [callsListed_iff, ← containsNode_iff, ← intersects_iff, ← matches_unsupportedTextSearch,
    ← matches_unsupportedGeometry, ← matches_unsupportedLocking, ← matches_tablesample]
  constructor
  · rintro ⟨r, hr, hmatch⟩
    have hm := (Bool.and_eq_true_iff.1 hmatch).2
    simp only [List.mem_cons, List.not_mem_nil, or_false] at hr
    rcases hr with rfl | rfl | rfl | rfl <;> simp [hm]
  · intro h
    have found (r) (hr : r ∈ [unsupportedTextSearch, unsupportedGeometry, unsupportedLocking,
      tablesample])
        (hm : matchesRule r (.node "select_stmt" sel) = true) : ∃ r ∈ [unsupportedTextSearch,
          unsupportedGeometry, unsupportedLocking, tablesample],
              (!(r.unlessAsync && async) && matchesRule r (.node "select_stmt" sel)) = true :=
      ⟨r, hr, by rw [hfree r hr, hm]; rfl⟩
    rcases h with (h | h) | h | h
    · exact found _ (by simp) h
    · exact found _ (by simp) h
    · exact found _ (by simp) h
    · exact found _ (by simp) h

/-- A query with a forbidden construct at any depth is refused just when the locking
clauses are not the only ones: those of a nested query are not looked at. -/
theorem construct_refused_iff (hparse : parse sql = some [.node "select_stmt" sel]) :
    (callsListed (.node "select_stmt" sel) ∨ samples (.node "select_stmt" sel) ∨
        locksListed (.node "select_stmt" sel) →
        ∃ v, (ofRuleset embedded parse).classify async sql = .rejected v) ↔
      (locksListed (.node "select_stmt" sel) →
        callsListed (.node "select_stmt" sel) ∨ samples (.node "select_stmt" sel) ∨
          ∃ s ∈ lockingStrengths (.node "select_stmt" sel), s ∈
            ["LCS_FORSHARE", "LCS_FORNOKEYUPDATE"]) := by
  rw [query_refused_iff hparse]
  constructor
  · exact fun h hlock => h (.inr (.inr hlock))
  · rintro h (hcall | hsample | hlock)
    · exact .inl hcall
    · exact .inr (.inl hsample)
    · exact h hlock

def rangeVar (name : String) : Message :=
  .node "range_var" (.of "RangeVar" [("relname", .str name)] [])

def selectFrom (item : Message) (strengths : List String) : Message :=
  .of "SelectStmt" [] (("from_clause", item) :: strengths.map fun s =>
    ("locking_clause", .node "locking_clause" (.of "LockingClause" [("strength", .enum s)] [])))

def rangeSubselect (sel : Message) : Message :=
  .node "range_subselect" (.of "RangeSubselect" [] [("subquery", .node "select_stmt" sel)])

theorem construct_refused_iff_own :
    let sel := selectFrom (rangeVar "t") ["LCS_FORSHARE"]
    (callsListed (.node "select_stmt" sel) ∨ samples (.node "select_stmt" sel) ∨
      locksListed (.node "select_stmt" sel) →
        ∃ v, (ofRuleset embedded fun _ => some [.node "select_stmt" sel]).classify false "" =
          .rejected v) ↔
      (locksListed (.node "select_stmt" sel) →
        callsListed (.node "select_stmt" sel) ∨ samples (.node "select_stmt" sel) ∨
          ∃ s ∈ lockingStrengths (.node "select_stmt" sel), s ∈
              ["LCS_FORSHARE", "LCS_FORNOKEYUPDATE"]) :=
  construct_refused_iff rfl

/-- `SELECT FROM (SELECT FROM t FOR SHARE) AS s`: the nested clause is let through. -/
theorem construct_accepted_nested :
    let sel := selectFrom (rangeSubselect (selectFrom (rangeVar "t") ["LCS_FORSHARE"])) []
    locksListed (.node "select_stmt" sel) ∧
      (ofRuleset embedded fun _ => some [.node "select_stmt" sel]).classify false "" = .accepted
          [.select] [] := by
  intro sel
  refine ⟨⟨.of "LockingClause" [("strength", .enum "LCS_FORSHARE")] [],
    ?_, by decide⟩, by decide +kernel⟩
  exact mem_walkMessages_iff.1 (by decide +kernel)

def selectAs (value column : String) : Message :=
  .of "SelectStmt" [("limit_option", .enum "LIMIT_OPTION_DEFAULT"), ("op", .enum "SETOP_NONE")]
    [("target_list", .node "res_target" (.of "ResTarget" [("name", .str column)]
      [("val", .node "a_const"
        (.of "A_Const" [] [("sval", .of "String" [("sval", .str value)] [])]))]))]

theorem verdict_selectAs (value column : String) :
    (ofRuleset embedded parse).verdict async
      (.node "select_stmt" (selectAs value column)) = none := by
  have hlevel : isolationLevel (.node "select_stmt" (selectAs value column)) = "" :=
    isolationLevel_node (by decide) (by decide)
  have hnames : functionNames (.node "select_stmt" (selectAs value column)) = [] := rfl
  have hlocks : lockingStrengths (.node "select_stmt" (selectAs value column)) = [] := rfl
  have hsample : containsNode (.node "select_stmt" (selectAs value column)) ["RangeTableSample"] =
    false := rfl
  have hrules : embedded.unsupported.filter (·.stmt = "select_stmt") = _ := selectRules
  rw [verdict_eq_none_iff, hrules]
  refine ⟨by rw [unsupportedIsolation, hlevel]; rfl, fun r hr _ => ?_⟩
  simp only [List.mem_cons, List.not_mem_nil, or_false] at hr
  rcases hr with rfl | rfl | rfl | rfl
  · rw [matches_unsupportedTextSearch, hnames]; rfl
  · rw [matches_unsupportedGeometry, hnames]; rfl
  · rw [matches_unsupportedLocking, hlocks]; rfl
  · rw [matches_tablesample, hsample]

end Query

end DsqlEmulator.Classify
