import DsqlEmulator.Proxy.Session

/-! `Classify` over a parser.  The statement nodes are whatever libpg_query makes
them, less their places in the text; the predicates a rule sets on one are read as
a single test. -/

namespace DsqlEmulator.Classify

open Proxy

/-- A rule of a ruleset that was loaded, so one whose code is not empty. -/
structure Rule (Node : Type) where
  id : String
  code : String
  code_ne : code ≠ ""
  unlessAsync : Bool
  holds : Node → Bool
  fill : Node → String

structure Classifier where
  Node : Type
  parse : String → Option (List Node)
  unsupportedIsolation : Node → Option String
  unsupported : List (Rule Node)
  kindOf : Node → Kind
  statementTables : Node → List String

variable {C : Classifier} {async : Bool} {sql : String}

def Classifier.verdict (C : Classifier) (async : Bool) (node : C.Node) : Option Verdict :=
  match C.unsupportedIsolation node with
  | some level => some ⟨"isolation", "0A000", "Unsupported isolation level: " ++ level⟩
  | none =>
    (C.unsupported.find? fun rule => !(rule.unlessAsync && async) && rule.holds node).map
        fun rule =>
      ⟨rule.id, rule.code, rule.fill node⟩

def Classifier.statements (C : Classifier) (async : Bool) :
    List C.Node → List Kind → List String → Classification
  | [], kinds, tables => .accepted kinds tables
  | node :: nodes, kinds, tables =>
    match C.verdict async node with
    | some v => .rejected v
    | none => C.statements async nodes (kinds ++ [C.kindOf node]) (tables ++ C.statementTables node)

def Classifier.classify (C : Classifier) (async : Bool) (sql : String) : Classification :=
  match C.parse sql with
  | none => .unparsed
  | some nodes => C.statements async nodes [] []

theorem Classifier.statements_accepts {nodes : List C.Node} {kinds : List Kind}
    {tables : List String} (h : ∀ v, C.statements async nodes kinds tables ≠ .rejected v) :
    ∀ node ∈ nodes, C.verdict async node = none := by
  induction nodes generalizing kinds tables with
  | nil => exact fun node hnode => absurd hnode List.not_mem_nil
  | cons node nodes ih =>
    intro node' hnode
    simp only [Classifier.statements] at h
    split at h
    next v _ => exact absurd rfl (h v)
    next hnone =>
      rcases List.mem_cons.1 hnode with rfl | hrest
      · exact hnone
      · exact ih h node' hrest

theorem Classifier.verdict_of_not_rejected {nodes : List C.Node}
    (h : ∀ v, C.classify async sql ≠ .rejected v) (hparse : C.parse sql = some nodes) :
    ∀ node ∈ nodes, C.verdict async node = none := by
  apply C.statements_accepts
  simpa only [Classifier.classify, hparse] using h

theorem Classifier.statements_not_rejected {nodes : List C.Node} {kinds : List Kind}
    {tables : List String} (h : ∀ node ∈ nodes, C.verdict async node = none) (v : Verdict) :
    C.statements async nodes kinds tables ≠ .rejected v := by
  induction nodes generalizing kinds tables with
  | nil => simp [Classifier.statements]
  | cons node nodes ih =>
    simp only [Classifier.statements, h node List.mem_cons_self]
    exact ih fun node' hnode => h node' (List.mem_cons_of_mem node hnode)

theorem Classifier.not_rejected
    (h : ∀ nodes, C.parse sql = some nodes → ∀ node ∈ nodes, C.verdict async node = none)
    (v : Verdict) : C.classify async sql ≠ .rejected v := by
  unfold Classifier.classify
  split
  · simp
  next nodes hparse => exact C.statements_not_rejected (h nodes hparse) v

end DsqlEmulator.Classify
