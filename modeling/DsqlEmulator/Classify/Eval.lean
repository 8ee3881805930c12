import DsqlEmulator.Classify.Statements
import DsqlEmulator.Classify.Tree
import DsqlEmulator.Rules.Ruleset
import DsqlEmulator.Strings

/-! The predicates of a rule on a parsed statement, the messages of refusals, and the
classifier that a loaded ruleset makes. -/

namespace DsqlEmulator.Classify

open Proxy Strings

def intersects (want got : List String) : Bool := got.any want.contains

section Predicates

variable (node : Message)

def relpersistence : String :=
  match node.get "create_stmt" >>= (·.get "relation") with
  | some rel => rel.str "relpersistence"
  | none =>
    match node.get "create_table_as_stmt" >>= (·.get "into") >>= (·.get "rel") with
    | some rel => rel.str "relpersistence"
    | none => ""

def alterCmds : List Message :=
  match node.get "alter_table_stmt" with
  | some stmt => (stmt.list "cmds").filterMap (·.get "alter_table_cmd")
  | none => []

def columnDefs : List Message :=
  match node.get "create_stmt" with
  | some cs => (cs.list "table_elts").filterMap (·.get "column_def")
  | none => (alterCmds node).filterMap fun cmd =>
      if cmd.enum "subtype" ∈ ["AT_AddColumn", "AT_AlterColumnType"] then cmd.get "def" >>=
        (·.get "column_def") else none

def lastString (names : List Message) : Option String :=
  names.getLast? >>= (·.get "string") |>.map (·.str "sval")

def columnTypes : List String :=
  (columnDefs node).filterMap fun col => col.get "type_name" >>= fun name =>
    lastString (name.list "names")

def lockingStrengths : List String :=
  match node.get "select_stmt" with
  | some sel =>
    ((sel.list "locking_clause").filterMap (·.get "locking_clause")).map (·.enum "strength")
  | none => []

def alterActions : List String := (alterCmds node).map (·.enum "subtype")

def constraints (col : Message) : List Message :=
  (col.list "constraints").filterMap (·.get "constraint")

def addsColumnWithConstraint (kinds : List String) : Bool :=
  (alterCmds node).any fun cmd => cmd.enum "subtype" = "AT_AddColumn" &&
    ((cmd.get "def" >>= (·.get "column_def")).elim [] constraints).any fun c =>
      kinds.contains (c.enum "contype")

def addedConstraints : List Message :=
  (alterCmds node).filterMap fun cmd =>
    if cmd.enum "subtype" = "AT_AddConstraint" then cmd.get "def" >>= (·.get "constraint") else none

def addsConstraintOfType (kinds : List String) : Bool :=
  (addedConstraints node).any fun c => c.str "indexname" = "" && kinds.contains (c.enum "contype")

def addsConstraintWithoutValidation : Bool :=
  (addedConstraints node).any fun c => !c.bool "skip_validation" &&
    (c.enum "contype" = "CONSTR_CHECK" || c.enum "contype" = "CONSTR_FOREIGN")

def statementField {α : Type} (kind : String) (read : Message → α) (zero : α) : α :=
  (node.get kind).elim zero read

def showName : String := statementField node "variable_show_stmt" (·.str "name") ""
def removeType : String := statementField node "drop_stmt" (·.enum "remove_type") ""
def renameType : String := statementField node "rename_stmt" (·.enum "rename_type") ""
def objtype : String := statementField node "create_table_as_stmt" (·.enum "objtype") ""
def txnKind : String := statementField node "transaction_stmt" (·.enum "kind") ""
def setParameter : String := statementField node "variable_set_stmt" (·.str "name") ""

def vacuumKind : String :=
  statementField node "vacuum_stmt"
    (fun stmt => if stmt.bool "is_vacuumcmd" then "VACUUM" else "ANALYZE") ""

def hasArrayColumn : Bool :=
  (columnDefs node).any fun col => (col.get "type_name").any fun name =>
    !(name.list "array_bounds").isEmpty

def defElem {α : Type} (read : Message → Option α) (nodes : List Message) (name : String) :
    Option α :=
  nodes.findSome? fun node => do
    let de ← node.get "def_elem"
    if de.str "defname" = name then de.get "arg" >>= read else none

def functionLanguage : String :=
  statementField node "create_function_stmt"
    (fun fn => (defElem (fun arg => (arg.get "string").map (·.str "sval")) (fn.list "options")
      "language").getD "") ""

def defElemInt (nodes : List Message) (name : String) : Option Int :=
  defElem (fun arg => (arg.get "integer").map (·.int "ival")) nodes name

def sequenceCache : Option Int :=
  node.get "create_seq_stmt" >>= fun seq => defElemInt (seq.list "options") "cache"

def isIdentityColumn (col : Message) : Bool :=
  (constraints col).any (·.enum "contype" = "CONSTR_IDENTITY")

def lastTypeName (name : Option Message) : String :=
  (name >>= fun name => lastString (name.list "names")).getD ""

def identityColumnType (allowed : List String) : Option String :=
  (columnDefs node).findSome? fun col =>
    if isIdentityColumn col then
      let written := lastTypeName (col.get "type_name")
      if written = "" || allowed.contains written then none else some written
    else none

def cacheTooSmall (cache : Option Int) (min : Int) (allow : List Int) : Bool :=
  match cache with
  | none => true
  | some cache => if cache ≥ min then false else !allow.contains cache

def hasSmallIdentityCache (min : Int) (allow : List Int) : Bool :=
  match node.get "create_stmt" with
  | none => false
  | some cs => ((cs.list "table_elts").filterMap (·.get "column_def")).any fun col =>
      (constraints col).any fun c => c.enum "contype" = "CONSTR_IDENTITY" &&
        cacheTooSmall (defElemInt (c.list "options") "cache") min allow

def functionName (call : Message) : String := (lastString (call.list "funcname")).getD ""

def functionNames : List String :=
  (((walkNodes node).filterMap (·.get "func_call")).map functionName).filter (· ≠ "")

theorem mem_functionNames {f : String} (hf : f ≠ "") :
    f ∈ functionNames node ↔ ∃ call, Within (.node "func_call" call) node ∧
      functionName call = f := by
  simp only [functionNames, walkNodes, List.mem_filter, List.mem_map, List.mem_filterMap,
    mem_walkMessages_iff]
  constructor
  · rintro ⟨⟨call, ⟨m, ⟨hm, hnode⟩, hget⟩, hname⟩, -⟩
    cases m with
    | node kind value =>
      rw [Message.get_node] at hget
      split at hget
      next hkind =>
        cases hget
        exact ⟨_, hkind ▸ hm, hname⟩
      next => cases hget
    | mk => cases hnode
  · rintro ⟨call, hm, rfl⟩
    exact ⟨⟨call, ⟨_, ⟨hm, rfl⟩, Message.get_node_self _ _⟩, rfl⟩, decide_eq_true hf⟩

def containsNode (wanted : List String) : Bool :=
  (walkMessages node).any fun m => (isNode m && wanted.contains (nodeType m)) || wanted.contains
    m.descriptor

end Predicates

def matchesRule (r : Rules.Rule) (node : Message) : Bool :=
  nodeType node = r.stmt &&
  (r.relpersistence.isEmpty || r.relpersistence.contains (relpersistence node)) &&
  (r.columnType.isEmpty || intersects r.columnType (columnTypes node)) &&
  (!r.columnArray || hasArrayColumn node) &&
  (r.removeType.isEmpty || r.removeType.contains (removeType node)) &&
  (r.renameType.isEmpty || r.renameType.contains (renameType node)) &&
  (r.locking.isEmpty || intersects r.locking (lockingStrengths node)) &&
  (r.function.isEmpty || intersects r.function (functionNames node)) &&
  (r.contains.isEmpty || containsNode node r.contains) &&
  (r.vacuumKind.isEmpty || r.vacuumKind.contains (vacuumKind node)) &&
  (r.showName.isEmpty || r.showName.contains (showName node)) &&
  (r.alterAction.isEmpty || intersects r.alterAction (alterActions node)) &&
  (!r.addConstraintMissingNotValid || addsConstraintWithoutValidation node) &&
  (r.addConstraintType.isEmpty || addsConstraintOfType node r.addConstraintType) &&
  (r.addColumnConstraint.isEmpty || addsColumnWithConstraint node r.addColumnConstraint) &&
  (r.objtype.isEmpty || r.objtype.contains (objtype node)) &&
  (r.txnKind.isEmpty || r.txnKind.contains (txnKind node)) &&
  (r.setName.isEmpty || r.setName.contains (setParameter node)) &&
  (r.languageNot.isEmpty || !r.languageNot.contains (functionLanguage node)) &&
  (r.sequenceCacheMin.all fun min => cacheTooSmall (sequenceCache node) min r.cacheAllow) &&
  (r.identityTypeNot.isEmpty || (identityColumnType node r.identityTypeNot).isSome) &&
  (r.identityCacheMin.all fun min => hasSmallIdentityCache node min r.cacheAllow)

theorem nodeType_of_matchesRule {r : Rules.Rule} {node : Message} (h : matchesRule r node = true) :
    nodeType node = r.stmt := by
  simp only [matchesRule, Bool.and_assoc] at h
  exact of_decide_eq_true (Bool.and_eq_true_iff.1 h).1

section Messages

def canonical : List (String × String) :=
  [("int2", "smallint"), ("int4", "integer"), ("int8", "bigint"), ("float4", "real"),
    ("float8", "double precision"),
    ("bool", "boolean"), ("varbit", "bit varying"), ("bpchar", "character"),
      ("varchar", "character varying")]

def canonicalType (written : String) : String := (canonical.lookup written).getD written

def refusedType (r : Rules.Rule) (node : Message) : String :=
  let array := (columnDefs node).findSome? fun col => (col.get "type_name").bind fun name =>
    if (name.list "array_bounds").isEmpty then none else some
      (canonicalType (lastTypeName (some name)) ++ "[]")
  let listed := (columnDefs node).findSome? fun col => (col.get "type_name").bind fun name =>
    let written := lastTypeName (some name)
    if r.columnType.contains written then some (canonicalType written) else none
  ((if r.columnArray then array else none) <|>
    (if r.identityTypeNot.isEmpty then none else (identityColumnType node r.identityTypeNot).map
      canonicalType) <|>
    (if r.columnType.isEmpty then none else listed) <|>
    ((functionNames node).find? r.function.contains).map canonicalType).getD ""

def fill (r : Rules.Rule) (node : Message) : String :=
  if '\x7b' ∉ r.message.toList then r.message
  else
    let typed := replaceAll "\x7btype\x7d".toList (refusedType r node).toList 0 r.message.toList
    String.ofList (replaceAll "\x7blanguage\x7d".toList (functionLanguage node).toList 0 typed)

end Messages

section Isolation

def defElemValue (nodes : List Message) (name : String) : String :=
  (defElem (fun arg => arg.get "a_const" >>= (·.get "sval") |>.map (·.str "sval")) nodes name).getD
    ""

def isolationLevel (node : Message) : String :=
  match node.get "transaction_stmt" with
  | some ts => defElemValue (ts.list "options") "transaction_isolation"
  | none =>
    match node.get "variable_set_stmt" with
    | none => ""
    | some vs =>
      if vs.str "name" ∈ ["TRANSACTION", "SESSION CHARACTERISTICS"] then
        defElemValue (vs.list "args") "transaction_isolation"
      else if vs.str "name" ∈ ["transaction_isolation", "default_transaction_isolation"] then
        ((vs.list "args").head? >>= (·.get "a_const") >>= (·.get "sval") |>.map (·.str "sval")).getD
          ""
      else ""

def unsupportedIsolation (supported : List String) (node : Message) : Option String :=
  let level := isolationLevel node
  if level = "" || supported.any (equalFold · level) then none else some (toUpper level)

end Isolation

section Kinds

def ddlNodes : List String :=
  ["create_stmt", "alter_table_stmt", "drop_stmt", "index_stmt", "view_stmt", "create_seq_stmt",
    "alter_seq_stmt",
    "create_schema_stmt", "grant_stmt", "revoke_stmt", "comment_stmt", "create_table_as_stmt",
      "rename_stmt", "alter_owner_stmt", "alter_object_schema_stmt"]

def relation (stmt : Message) : Option String := (stmt.get "relation").map (·.str "relname")

def statementTables (node : Message) : List String :=
  match node.get "insert_stmt" <|> node.get "update_stmt" <|> node.get "delete_stmt" <|>
      node.get "merge_stmt" with
  | some stmt => relationName (relation stmt)
  | none => []

def kindOf (node : Message) : Kind :=
  if nodeType node ∈ ["insert_stmt", "update_stmt", "delete_stmt", "merge_stmt"] then .dml
  else if nodeType node = "select_stmt" then .select
  else if nodeType node = "transaction_stmt" then
    if txnKind node ∈ ["TRANS_STMT_BEGIN", "TRANS_STMT_START"] then .begin
    else if txnKind node = "TRANS_STMT_COMMIT" then .commit
    else if txnKind node = "TRANS_STMT_ROLLBACK" then .rollback
    else .other
  else if nodeType node ∈ ddlNodes then .ddl
  else .other

end Kinds

def ofRule (r : Rules.Rule) : Rule Message where
  id := r.id
  code := r.code
  code_ne := r.code_ne
  unlessAsync := r.unlessAsync
  holds := matchesRule r
  fill := fill r

/-- The classifier of a ruleset.  `parse` gives the statements of a text that have a node. -/
def ofRuleset (rs : Rules.Ruleset) (parse : String → Option (List Message)) : Classifier where
  Node := Message
  parse := parse
  unsupportedIsolation := unsupportedIsolation rs.supported
  unsupported := rs.unsupported.map ofRule
  kindOf := kindOf
  statementTables := statementTables

end DsqlEmulator.Classify
