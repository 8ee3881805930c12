import DsqlEmulator.Classify.Embedded
import DsqlEmulator.Proxy.Async

/-! The rules that require `ASYNC`.  They are passed over for a whole query as soon as
one of its statements carried the keyword. -/

namespace DsqlEmulator.Proxy

open Classify Wire Runs DsqlEmulator.Rewrite

variable {C : Classifier} {async : Bool}

/-- A statement as it was written: what the parser makes of it once the keyword is gone,
and whether it carried the keyword. -/
structure Written (Node : Type) where
  node : Node
  async : Bool

/-- A test that `Classify` makes of a statement. -/
inductive Check (C : Classifier) : Type
  | isolation (w : Written C.Node)
  | rule (w : Written C.Node) (r : Rule C.Node)

def Check.verdict (async : Bool) : Check C → Option Verdict
  | .isolation w =>
    (C.unsupportedIsolation w.node).map fun level =>
      ⟨"isolation", "0A000", "Unsupported isolation level: " ++ level⟩
  | .rule w r =>
    if !(r.unlessAsync && async) && r.holds w.node then some ⟨r.id, r.code, r.fill w.node⟩ else none

def checks (C : Classifier) (ws : List (Written C.Node)) : List (Check C) :=
  ws.flatMap fun w => .isolation w :: C.unsupported.map (.rule w)

theorem findSome_rules (w : Written C.Node) (rules : List (Rule C.Node)) :
    (rules.map (.rule w)).findSome? (Check.verdict async) =
      (rules.find? fun r => !(r.unlessAsync && async) && r.holds w.node).map fun r =>
        ⟨r.id, r.code, r.fill w.node⟩ := by
  induction rules with
  | nil => rfl
  | cons r rules ih =>
    rw [List.map_cons, List.findSome?_cons, List.find?_cons, ih, Check.verdict]
    cases !(r.unlessAsync && async) && r.holds w.node <;> rfl

theorem findSome_statement (w : Written C.Node) :
    ((.isolation w :: C.unsupported.map (.rule w) : List (Check C)).findSome?
        (Check.verdict async)) = C.verdict async w.node := by
  rw [List.findSome?_cons, findSome_rules, Check.verdict]
  unfold Classifier.verdict
  cases C.unsupportedIsolation w.node <;> rfl

theorem statements_rejected_iff (ws : List (Written C.Node)) {kinds : List Kind}
    {tables : List String} {v : Verdict} :
    C.statements async (ws.map Written.node) kinds tables = .rejected v ↔
      (checks C ws).findSome? (Check.verdict async) = some v := by
  induction ws generalizing kinds tables with
  | nil => simp [Classifier.statements, checks]
  | cons w ws ih =>
    rw [checks, List.flatMap_cons, ← checks, List.findSome?_append, findSome_statement,
      List.map_cons, Classifier.statements]
    cases C.verdict async w.node with
    | none => simpa using ih
    | some v' => simp

/-- The session reads the text as these statements: it strips the keyword if one of them
carries it, and parses what is left. -/
structure Spelled (D : Dialect) (C : Classifier) (sql : String) (ws : List (Written C.Node)) :
    Prop where
  classify : D.classify = C.classify
  plain : (∀ w ∈ ws, w.async = false) → D.stripAsync sql = none ∧ C.parse sql =
    some (ws.map Written.node)
  stripped : (∃ w ∈ ws, w.async = true) → ∃ rewritten k, D.stripAsync sql = some (rewritten, k) ∧
    C.parse rewritten = some (ws.map Written.node)

section Refusals

variable {D : Dialect} {sql jobID : String} {ws : List (Written C.Node)} {s : Session} {n : Nat}
  {v : Verdict}

theorem handleQuery_refuses (h : Spelled D C sql ws) (hab : s.txnAborted = false)
    (hv : (checks C ws).findSome? (Check.verdict (D.stripAsync sql).isSome) = some v) :
    (handleQuery D jobID s n sql).next = reject s n v.code v.message false := by
  by_cases hasync : ∃ w ∈ ws, w.async = true
  · obtain ⟨rewritten, k, hstrip, hparse⟩ := h.stripped hasync
    have hc : D.classify true rewritten = .rejected v := by
      rw [h.classify, Classifier.classify, hparse]
      rw [hstrip] at hv
      exact (statements_rejected_iff ws).2 hv
    simp only [handleQuery, hstrip, hab, Bool.false_eq_true, if_false, forwardAsyncJob, hc]
    rfl
  · obtain ⟨hstrip, hparse⟩ := h.plain (by simpa using hasync)
    have hc : D.classify false sql = .rejected v := by
      rw [h.classify, Classifier.classify, hparse]
      rw [hstrip] at hv
      exact (statements_rejected_iff ws).2 hv
    simp only [handleQuery, hstrip, hab, Bool.false_eq_true, if_false, hc]

theorem stripAsync_isSome_iff (h : Spelled D C sql ws) :
    (D.stripAsync sql).isSome = true ↔ ∃ w ∈ ws, w.async = true := by
  by_cases hasync : ∃ w ∈ ws, w.async = true
  · obtain ⟨rewritten, k, hstrip, -⟩ := h.stripped hasync
    simp [hstrip, hasync]
  · obtain ⟨hstrip, -⟩ := h.plain (by simpa using hasync)
    simp [hstrip, hasync]

/-- A statement that a rule on the keyword matches, and that was written without it, is
refused by that rule or before it, just when no statement of the query carried the keyword
or an earlier test finds something that is not exempt. -/
theorem unless_async_refused_iff {before after : List (Check C)} {w : Written C.Node}
    {r : Rule C.Node} (h : Spelled D C sql ws) (hab : s.txnAborted = false)
    (hchecks : checks C ws = before ++ .rule w r :: after) (hrule : r.unlessAsync = true)
    (hmatch : r.holds w.node = true) :
    (∃ v, (before ++ [Check.rule w r]).findSome? (Check.verdict (D.stripAsync sql).isSome) =
        some v ∧ (handleQuery D jobID s n sql).next = reject s n v.code v.message false) ↔
      (∀ w' ∈ ws, w'.async = false) ∨ ∃ c ∈ before, (c.verdict true).isSome = true := by
  have hrefused : (∃ v, (before ++ [Check.rule w r]).findSome?
    (Check.verdict (D.stripAsync sql).isSome) = some v ∧
        (handleQuery D jobID s n sql).next = reject s n v.code v.message false) ↔
      ∃ c ∈ before ++ [.rule w r], (c.verdict (D.stripAsync sql).isSome).isSome = true := by
    rw [← List.findSome?_isSome_iff, Option.isSome_iff_exists]
    refine exists_congr fun v => and_iff_left_of_imp fun hv => handleQuery_refuses h hab ?_
    rw [hchecks, List.append_cons, List.findSome?_append, hv, Option.some_or]
  rw [hrefused]
  by_cases hasync : ∃ w ∈ ws, w.async = true
  · have hexempt : Check.verdict true (.rule w r) = none := by simp [Check.verdict, hrule]
    have hsome : ¬ ∀ w' ∈ ws, w'.async = false := by simpa using hasync
    rw [(stripAsync_isSome_iff h).2 hasync]
    simp [hexempt, hsome, or_and_right, exists_or]
  · have hnone : ∀ w' ∈ ws, w'.async = false := by simpa using hasync
    rw [Bool.eq_false_iff.2 fun hsome => hasync ((stripAsync_isSome_iff h).1 hsome)]
    refine iff_of_true ⟨.rule w r, by simp, ?_⟩ (.inl hnone)
    simp [Check.verdict, hmatch]

end Refusals

section Mixed

def indexNode : Message := .node "index_stmt" (.of "IndexStmt" [] [])

def commitNode : Message :=
  .node "transaction_stmt" (.of "TransactionStmt" [("kind", .enum "TRANS_STMT_COMMIT")] [])

def parseSample (sql : String) (nodes : List Message) (text : String) : Option (List Message) :=
  if text = sql then some nodes else none

def indexRuleset : Rules.Ruleset :=
  { Rules.embedded with unsupported := [Rules.syncIndex], nodup := by decide }

theorem unless_async_refused_iff_plain :
    let sql := "CREATE INDEX ON t (a)"
    let C := ofRuleset indexRuleset (parseSample sql [indexNode])
    let D := { Dialect.sample [] with classify := C.classify, stripAsync := stripAsync (scanSample
      sql []) }
    let w : Written C.Node := ⟨indexNode, false⟩
    let r : Rule C.Node := ofRule Rules.syncIndex
    let s := Session.new D
    (∃ v, ([Check.isolation w] ++ [Check.rule w r]).findSome?
      (Check.verdict (D.stripAsync sql).isSome) = some v ∧
        (handleQuery D "" s 0 sql).next = reject s 0 v.code v.message false) ↔
      (∀ w' ∈ [w], w'.async = false) ∨
          ∃ c ∈ [Check.isolation w], (c.verdict true).isSome = true := by
  intro sql C D w r s
  have hspelled : Spelled D C sql [w] :=
    ⟨rfl, fun _ => ⟨by decide, rfl⟩, fun h => absurd h (by simp [w])⟩
  have hchecks : checks C [w] = [.isolation w] ++ .rule w r :: [] := rfl
  exact unless_async_refused_iff hspelled rfl hchecks rfl (by decide +kernel)

def mixedTokens : List ScanToken :=
  asyncTokens 0 ++ [⟨.semicolon, 27, 28⟩, ⟨.other "COMMIT", 29, 35⟩, ⟨.semicolon, 35, 36⟩,
    ⟨.create, 37, 43⟩,
    ⟨.index, 44, 49⟩, ⟨.on, 50, 52⟩, ⟨.ident, 53, 54⟩, ⟨.other "(", 55, 56⟩, ⟨.ident, 56, 57⟩,
      ⟨.other ")", 57, 58⟩]

/-- An index with the keyword, a `COMMIT` and an index without it, in one query: it is
accepted and forwarded. -/
theorem unless_async_exempts_all :
    let sql := "CREATE INDEX ASYNC ON t (a); COMMIT; CREATE INDEX ON t (b)"
    let rewritten := "CREATE INDEX ON t (a); COMMIT; CREATE INDEX ON t (b)"
    let C := ofRuleset Rules.embedded (parseSample rewritten [indexNode, commitNode, indexNode])
    let D := { Dialect.sample [] with classify := C.classify, stripAsync := stripAsync (scanSample
      sql mixedTokens) }
    let ws : List (Written C.Node) := [⟨indexNode, true⟩, ⟨commitNode, false⟩, ⟨indexNode, false⟩]
    Spelled D C sql ws ∧ Rules.syncIndex ∈ Rules.embedded.unsupported ∧
      matchesRule Rules.syncIndex indexNode = true ∧
      ((system D .any).dest (fun _ _ => True)
        (.send (.query sql) :: .readClient :: fronts 7)).written.map Request.msg =
        [.query (jobMarker "" ++ rewritten)] := by
  intro sql rewritten C D ws
  refine ⟨⟨rfl, fun h => absurd (h ⟨indexNode, true⟩ (by simp [ws])) (by simp), fun _ =>
    ⟨rewritten, 0, ?_, rfl⟩⟩, ?_⟩
  · decide +kernel
  · exact ⟨by decide, by decide +kernel, by decide +kernel⟩

end Mixed

end DsqlEmulator.Proxy
