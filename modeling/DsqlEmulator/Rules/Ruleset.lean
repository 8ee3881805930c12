import Mathlib.Data.List.Nodup

/-! Rulesets as `Load` returns them, and the embedded one. -/

namespace DsqlEmulator.Rules

/-- Rejects a statement that matches every predicate it sets; an empty predicate
matches anything.  The last fields are what `validate` asks of a rule. -/
structure Rule where
  id : String
  stmt : String
  relpersistence : List String := []
  columnType : List String := []
  objtype : List String := []
  txnKind : List String := []
  setName : List String := []
  columnArray : Bool := false
  removeType : List String := []
  renameType : List String := []
  locking : List String := []
  function : List String := []
  contains : List String := []
  vacuumKind : List String := []
  showName : List String := []
  alterAction : List String := []
  addConstraintMissingNotValid : Bool := false
  addConstraintType : List String := []
  addColumnConstraint : List String := []
  languageNot : List String := []
  identityTypeNot : List String := []
  unlessAsync : Bool := false
  sequenceCacheMin : Option Int := none
  identityCacheMin : Option Int := none
  cacheAllow : List Int := []
  code : String
  message : String
  id_ne : id ≠ "" := by decide
  stmt_ne : stmt ≠ "" := by decide
  code_ne : code ≠ "" := by decide
  message_ne : message ≠ "" := by simp
  deriving DecidableEq

/-- The caps of a transaction. -/
structure Limits where
  dmlRowsPerTxn : Int
  txnAgeSeconds : Int
  deriving DecidableEq, Repr

/-- A ruleset that was loaded.  Of the conflict settings only the lock timeout is here. -/
structure Ruleset where
  unsupported : List Rule
  supported : List String
  limits : Limits
  lockTimeoutMS : Int
  nodup : (unsupported.map Rule.id).Nodup
  supported_ne : supported ≠ []
  lockTimeoutMS_nonneg : 0 ≤ lockTimeoutMS

def serialTypes : List String := ["serial", "bigserial", "smallserial"]

def unsupportedTypes : List String :=
  ["money", "xml", "inet", "cidr", "macaddr", "macaddr8", "point", "line", "lseg", "box", "path",
    "polygon", "circle",
    "tsvector", "tsquery", "int4range", "int8range", "numrange", "tsrange", "tstzrange",
      "daterange", "bit", "varbit", "pg_lsn"]

/-! The rules on queries, on `ALTER TABLE`, on settings, transactions and indexes.
`\x7btype\x7d` and `\x7blanguage\x7d` are the placeholders of a message. -/

def serialAlterColumn : Rule :=
  { id := "serial_alter_column", stmt := "alter_table_stmt", columnType := serialTypes,
    code := "42704", message := "type \"serial\" does not exist" }

def alterAddColumnConstraint : Rule :=
  { id := "alter_add_column_constraint", stmt := "alter_table_stmt",
    addColumnConstraint := ["CONSTR_NOTNULL", "CONSTR_DEFAULT", "CONSTR_CHECK", "CONSTR_UNIQUE",
      "CONSTR_IDENTITY", "CONSTR_PRIMARY", "CONSTR_FOREIGN"],
    code := "0A000", message := "ALTER TABLE ADD COLUMN with constraint not supported" }

def alterColumnType : Rule :=
  { id := "alter_column_type", stmt := "alter_table_stmt", alterAction := ["AT_AlterColumnType"],
    code := "0A000", message := "unsupported ALTER TABLE ALTER COLUMN ... SET DATA TYPE statement" }

def unsupportedTypeAlterColumn : Rule :=
  { id := "unsupported_type_alter_column", stmt := "alter_table_stmt",
    columnType := unsupportedTypes, code := "0A000",
    message := "datatype \x7btype\x7d not supported" }

def arrayColumnAlterColumn : Rule :=
  { id := "array_column_alter_column", stmt := "alter_table_stmt", columnArray := true,
    code := "0A000", message := "datatype \x7btype\x7d not supported" }

def unsupportedTextSearch : Rule :=
  { id := "unsupported_text_search", stmt := "select_stmt",
    function := ["to_tsvector", "to_tsquery", "plainto_tsquery", "phraseto_tsquery",
      "websearch_to_tsquery", "ts_rank", "ts_headline", "setweight"],
    code := "42704", message := "text search configuration \"english\" does not exist" }

def unsupportedGeometry : Rule :=
  { id := "unsupported_geometry", stmt := "select_stmt",
    function := ["line", "circle", "polygon", "box", "path", "lseg", "center", "radius"],
      code := "0A000", message := "datatype \x7btype\x7d not supported" }

def unsupportedLocking : Rule :=
  { id := "unsupported_locking", stmt := "select_stmt", locking := ["LCS_FORSHARE",
    "LCS_FORNOKEYUPDATE"],
    code := "0A000", message :=
      "locking clauses other than FOR UPDATE/FOR KEY SHARE are not supported" }

def tablesample : Rule :=
  { id := "tablesample", stmt := "select_stmt", contains := ["RangeTableSample"], code := "0A000",
    message := "TABLESAMPLE clause not supported" }

def alterAddConstraintRequiresNotValid : Rule :=
  { id := "alter_add_constraint_requires_not_valid", stmt := "alter_table_stmt",
    addConstraintMissingNotValid := true,
    code := "0A000", message := "unsupported ALTER TABLE ADD CONSTRAINT statement" }

def alterAddKeyConstraint : Rule :=
  { id := "alter_add_key_constraint", stmt := "alter_table_stmt",
    addConstraintType := ["CONSTR_PRIMARY", "CONSTR_UNIQUE"], code := "0A000",
    message := "unsupported ALTER TABLE ADD CONSTRAINT statement" }

def alterValidateRequiresAsync : Rule :=
  { id := "alter_validate_requires_async", stmt := "alter_table_stmt",
    alterAction := ["AT_ValidateConstraint"], unlessAsync := true, code := "0A000", message :=
      "unsupported ALTER TABLE VALIDATE CONSTRAINT statement" }

def setTransaction : Rule :=
  { id := "set_transaction", stmt := "variable_set_stmt", setName := ["TRANSACTION",
    "SESSION CHARACTERISTICS"],
    code := "0A000", message := "setting configuration parameter \"TRANSACTION\" not supported" }

def setIsolation : Rule :=
  { id := "set_isolation", stmt := "variable_set_stmt",
    setName := ["transaction_isolation", "default_transaction_isolation"], code := "0A000",
    message := "setting configuration parameter \"default_transaction_isolation\" not supported" }

def syncIndex : Rule :=
  { id := "sync_index", stmt := "index_stmt", unlessAsync := true, code := "0A000",
    message := "unsupported mode. please use CREATE INDEX ASYNC." }

def savepoint : Rule :=
  { id := "savepoint", stmt := "transaction_stmt", txnKind := ["TRANS_STMT_SAVEPOINT"],
    code := "0A000", message := "unsupported transaction statement: SAVEPOINT" }

def releaseSavepoint : Rule :=
  { id := "release_savepoint", stmt := "transaction_stmt", txnKind := ["TRANS_STMT_RELEASE"],
    code := "0A000", message := "unsupported transaction statement: RELEASE" }

def rollbackToSavepoint : Rule :=
  { id := "rollback_to_savepoint", stmt := "transaction_stmt",
    txnKind := ["TRANS_STMT_ROLLBACK_TO"], code := "0A000",
    message := "unsupported transaction statement: ROLLBACK TO" }

def identityCacheRule (min : Int) (allow : List Int) : Rule :=
  { id := "identity_cache", stmt := "create_stmt", identityCacheMin := some min,
    cacheAllow := allow, code := "0A000",
    message := "identity column is not supported without an explicit cache size. please define CACHE greater than or equal to 65536 or equal to 1" }

def sequenceCacheRule (min : Int) (allow : List Int) : Rule :=
  { id := "sequence_cache", stmt := "create_seq_stmt", sequenceCacheMin := some min,
    cacheAllow := allow, code := "0A000",
    message := "CREATE SEQUENCE is not supported without an explicit cache size. please define CACHE greater than or equal to 65536 or equal to 1" }

def embeddedRules : List Rule :=
  [{ id := "truncate", stmt := "truncate_stmt", code := "0A000",
     message := "unsupported statement: Truncate" },
    { id := "extensions", stmt := "create_extension_stmt", code := "0A000",
      message := "unsupported statement: CreateExtension" },
    { id := "triggers", stmt := "create_trig_stmt", code := "0A000",
      message := "CREATE TRIGGER not supported" },
    { id := "create_database", stmt := "createdb_stmt", code := "0A000",
      message := "unsupported statement: Createdb" },
    { id := "temporary_table", stmt := "create_stmt", relpersistence := ["t"], code := "0A000",
      message := "TEMPORARY or TEMP table not supported for CREATE TABLE" },
    { id := "unlogged_table", stmt := "create_stmt", relpersistence := ["u"], code := "0A000",
      message := "UNLOGGED table not supported for CREATE TABLE" },
    { id := "serial", stmt := "create_stmt", columnType := serialTypes, code := "42704",
      message := "type \"serial\" does not exist" },
    serialAlterColumn,
    identityCacheRule 65536 [1],
    { id := "identity_type", stmt := "create_stmt", identityTypeNot := ["int8"], code := "0A000",
      message := "datatype \x7btype\x7d not supported, identity column type must be bigint" },
    alterAddColumnConstraint,
    { id := "unsupported_type", stmt := "create_stmt", columnType := unsupportedTypes,
      code := "0A000", message := "datatype \x7btype\x7d not supported" },
    alterColumnType, unsupportedTypeAlterColumn,
    { id := "array_column", stmt := "create_stmt", columnArray := true, code := "0A000",
      message := "datatype \x7btype\x7d not supported" },
    arrayColumnAlterColumn,
    { id := "alter_enum", stmt := "alter_enum_stmt", code := "0A000",
      message := "ALTER TYPE not supported" },
    { id := "rename_type", stmt := "rename_stmt", renameType := ["OBJECT_TYPE"], code := "0A000",
      message := "unsupported object in RENAME statement" },
    { id := "drop_type", stmt := "drop_stmt", removeType := ["OBJECT_TYPE"], code := "0A000",
      message := "unsupported object in DROP statement" },
    unsupportedTextSearch, unsupportedGeometry, unsupportedLocking,
    { id := "materialized_view", stmt := "create_table_as_stmt", objtype := ["OBJECT_MATVIEW"],
      code := "0A000", message := "unsupported statement: CreateTableAs" },
    { id := "create_table_as", stmt := "create_table_as_stmt", objtype := ["OBJECT_TABLE"],
      code := "0A000", message := "unsupported statement: CreateTableAs" },
    { id := "enum_type", stmt := "create_enum_stmt", code := "0A000",
      message := "CREATE TYPE not supported" },
    { id := "composite_type", stmt := "composite_type_stmt", code := "0A000",
      message := "unsupported statement: CompositeType" },
    { id := "range_type", stmt := "create_range_stmt", code := "0A000",
      message := "unsupported statement: CreateRange" },
    sequenceCacheRule 65536 [1],
    { id := "tablespace", stmt := "create_table_space_stmt", code := "0A000",
      message := "unsupported statement: CreateTableSpace" },
    { id := "foreign_table", stmt := "create_foreign_table_stmt", code := "0A000",
      message := "unsupported statement: CreateForeignTable" },
    { id := "vacuum", stmt := "vacuum_stmt", vacuumKind := ["VACUUM"], code := "0A000",
      message := "unsupported VACUUM statement" },
    tablesample, alterAddConstraintRequiresNotValid, alterAddKeyConstraint,
      alterValidateRequiresAsync,
    { id := "merge", stmt := "merge_stmt", code := "0A000",
      message := "unsupported statement type: MERGE" },
    { id := "show_lc_collate", stmt := "variable_show_stmt", showName := ["lc_collate"],
      code := "42704", message := "unrecognized configuration parameter \"lc_collate\"" },
    { id := "listen", stmt := "listen_stmt", code := "0A000",
      message := "unsupported statement: Listen" },
    { id := "notify", stmt := "notify_stmt", code := "0A000",
      message := "unsupported statement: Notify" },
    { id := "unlisten", stmt := "unlisten_stmt", code := "0A000",
      message := "unsupported statement: Unlisten" },
    { id := "alter_system", stmt := "alter_system_stmt", code := "0A000",
      message := "unsupported statement: AlterSystem" },
    setTransaction, setIsolation, syncIndex, savepoint, releaseSavepoint, rollbackToSavepoint,
    { id := "create_function_language", stmt := "create_function_stmt", languageNot := ["sql"],
      code := "0A000", message := "CREATE FUNCTION with language \x7blanguage\x7d not supported" }]

/-- The embedded ruleset, `dsql-2026.09.yaml`. -/
def embedded : Ruleset where
  unsupported := embeddedRules
  supported := ["repeatable read"]
  limits := ⟨3000, 1800⟩
  lockTimeoutMS := 50
  nodup := by decide
  supported_ne := by decide
  lockTimeoutMS_nonneg := by decide

end DsqlEmulator.Rules
