import DsqlEmulator.Classify.Embedded

/-! The statements that change rows, and what `kindOf` and `statementTables` see of them. -/

namespace DsqlEmulator.Classify

open Proxy Rules

def changeNodes : List String := ["insert_stmt", "update_stmt", "delete_stmt", "merge_stmt"]

/-- A data change of a statement: the statement itself, or the query of a common table
expression of any `WITH` clause in it. -/
structure Change (node q : Message) : Prop where
  changes : nodeType q ∈ changeNodes
  place : q = node ∨ ∃ cte, Within (.node "common_table_expr" cte) node ∧
    cte.get "ctequery" = some q

def target : Message → List String
  | .node _ stmt => relationName (relation stmt)
  | .mk _ _ _ => []

def cteQuery : Message → Option Message
  | .node kind cte => if kind = "common_table_expr" then cte.get "ctequery" else none
  | .mk _ _ _ => none

def cteChanges (node : Message) : List Message :=
  ((walkMessages node).filterMap cteQuery).filter (nodeType · ∈ changeNodes)

theorem cteQuery_eq_some_iff {m q : Message} :
    cteQuery m = some q ↔ ∃ cte, m = .node "common_table_expr" cte ∧ cte.get "ctequery" =
      some q := by
  cases m with
  | node kind cte =>
    by_cases hkind : kind = "common_table_expr"
    · simp [cteQuery, hkind]
    · simp [cteQuery, hkind]
  | mk name scalars fields => simp [cteQuery]

theorem mem_cteChanges_iff {node q : Message} : q ∈ cteChanges node ↔ nodeType q ∈ changeNodes ∧
    ∃ cte, Within (.node "common_table_expr" cte) node ∧ cte.get "ctequery" = some q := by
  rw [cteChanges, List.mem_filter, decide_eq_true_eq, and_comm, List.mem_filterMap]
  refine and_congr_right fun _ => ⟨?_, ?_⟩
  · rintro ⟨m, hm, hq⟩
    obtain ⟨cte, rfl, hcte⟩ := cteQuery_eq_some_iff.1 hq
    exact ⟨cte, mem_walkMessages_iff.1 hm, hcte⟩
  · rintro ⟨cte, hwithin, hcte⟩
    exact ⟨_, mem_walkMessages_iff.2 hwithin, cteQuery_eq_some_iff.2 ⟨cte, rfl, hcte⟩⟩

theorem change_iff {node q : Message} :
    Change node q ↔ q = node ∧ nodeType node ∈ changeNodes ∨ q ∈ cteChanges node := by
  rw [mem_cteChanges_iff]
  constructor
  · rintro ⟨hq, rfl | hcte⟩
    · exact .inl ⟨rfl, hq⟩
    · exact .inr ⟨hq, hcte⟩
  · rintro (⟨rfl, hq⟩ | ⟨hq, hcte⟩)
    · exact ⟨hq, .inl rfl⟩
    · exact ⟨hq, .inr hcte⟩

theorem kindOf_eq_dml_iff {node : Message} : kindOf node = .dml ↔ nodeType node ∈ changeNodes := by
  constructor
  · intro h
    by_contra hno
    rw [kindOf, ← changeNodes, if_neg hno] at h
    revert h
    repeat' split
    all_goals simp
  · exact fun h => if_pos h

theorem statementTables_change {node : Message} (h : nodeType node ∈ changeNodes) :
    statementTables node = target node := by
  cases node with
  | node kind stmt =>
    simp only [nodeType_node, changeNodes, List.mem_cons, List.not_mem_nil, or_false] at h
    rcases h with rfl | rfl | rfl | rfl <;> rfl
  | mk name scalars fields => simp [nodeType, changeNodes] at h

theorem length_target_le (q : Message) : (target q).length ≤ 1 := by
  cases q with
  | node kind stmt =>
    dsimp only [target, relationName]
    split
    · exact Nat.zero_le 1
    · split <;> simp
  | mk name scalars fields => exact Nat.zero_le 1

theorem target_subset_iff {q q' : Message} : target q ⊆ target q' ↔ target q = [] ∨
    target q = target q' := by
  have hq := length_target_le q
  have hq' := length_target_le q'
  generalize target q = l at hq ⊢
  generalize target q' = l' at hq' ⊢
  match l, l', hq, hq' with
  | [], _, _, _ => simp
  | [a], [], _, _ => simp
  | [a], [b], _, _ => simp

/-- Every data change of a statement is seen just when its common table expressions make none,
or it is one itself and theirs name no relation but its own. -/
theorem changes_seen_iff (node : Message) :
    (∀ q, Change node q → kindOf node = .dml ∧ target q ⊆ statementTables node) ↔
      cteChanges node = [] ∨
        nodeType node ∈ changeNodes ∧ ∀ q ∈ cteChanges node, target q = [] ∨
          target q = target node := by
  simp only [change_iff, kindOf_eq_dml_iff]
  constructor
  · intro h
    by_cases hnone : cteChanges node = []
    · exact .inl hnone
    · obtain ⟨q, hq⟩ := List.exists_mem_of_ne_nil _ hnone
      have hnode := (h q (.inr hq)).1
      refine .inr ⟨hnode, fun q hq => target_subset_iff.1 ?_⟩
      rw [← statementTables_change hnode]
      exact (h q (.inr hq)).2
  · rintro h q (⟨rfl, hnode⟩ | hq)
    · exact ⟨hnode, by rw [statementTables_change hnode]; exact List.Subset.refl _⟩
    · obtain hnone | ⟨hnode, hall⟩ := h
      · simp [hnone] at hq
      · rw [statementTables_change hnode]
        exact ⟨hnode, target_subset_iff.2 (hall q hq)⟩

def withClause (queries : List Message) : String × Message :=
  ("with_clause", .of "WithClause" [] (queries.map fun q =>
    ("ctes", .node "common_table_expr" (.of "CommonTableExpr" [] [("ctequery", q)]))))

def selectWith (queries : List Message) : Message :=
  .node "select_stmt" (.of "SelectStmt" [] [withClause queries])

def relationField (name : String) : String × Message :=
  ("relation", .of "RangeVar" [("relname", .str name)] [])

def deleteFrom (name : String) : Message :=
  .node "delete_stmt" (.of "DeleteStmt" [] [relationField name])

def insertWith (queries : List Message) (name : String) : Message :=
  .node "insert_stmt" (.of "InsertStmt" [] [relationField name, withClause queries])

theorem changes_seen_iff_same :
    let node := insertWith [deleteFrom "t"] "t"
    Change node (deleteFrom "t") ∧ ∀ q, Change node q → kindOf node = .dml ∧
        target q ⊆ statementTables node := by
  intro node
  refine ⟨change_iff.2 (.inr (by decide +kernel)), (changes_seen_iff node).2 (.inr ⟨by decide, ?_⟩)⟩
  decide +kernel

/-- `WITH d AS (DELETE FROM t) SELECT`: accepted as a query that touches no table. -/
theorem changes_unseen_in_query :
    let node := selectWith [deleteFrom "t"]
    Change node (deleteFrom "t") ∧ target (deleteFrom "t") = ["t"] ∧
      (ofRuleset embedded fun _ => some [node]).classify false "" = .accepted [.select] [] := by
  intro node
  exact ⟨change_iff.2 (.inr (by decide +kernel)), rfl, by decide +kernel⟩

end DsqlEmulator.Classify
