import DsqlEmulator.Occ.Intent
import DsqlEmulator.Txn.Tracker
import Mathlib.Logic.Function.Basic

namespace DsqlEmulator.Proxy

open Wire Occ Txn

structure Verdict where
  ruleID : String
  code : String
  message : String
  deriving DecidableEq, Repr

/-- The outcome of `Classify`.  Kinds and tables exist only when nothing was rejected. -/
inductive Classification : Type
  | unparsed
  | rejected (v : Verdict)
  | accepted (kinds : List Kind) (tables : List String)
  deriving DecidableEq, Repr

def Classification.kinds : Classification → List Kind
  | .accepted kinds _ => kinds
  | _ => []

structure OCCInjection where
  tables : List String
  every : Int
  deriving DecidableEq, Repr

structure OCC where
  error : String
  sqlState : String
  inject : List OCCInjection
  deriving DecidableEq, Repr

/-- What `rewriteSQL` returns for a statement that reports the server version;
`showTag` says that it also sets the pending command tag. -/
structure Rewrite where
  sql : String
  showTag : Bool
  deriving DecidableEq, Repr

/-- What a session asks of the packages that read SQL.  Nothing below depends on
how they answer.  `classify true` is `Classify` with `AsyncRewritten`. -/
structure Dialect where
  classify : Bool → String → Classification
  stripAsync : String → Option (String × Nat)
  analyze : String → Option Intent
  rewriteSQL : String → Option Rewrite
  occ : OCC
  maxAge : Nat
  serverVersion : String

def conflictError (cfg : OCC) : ErrorFields where
  code := if cfg.sqlState = "" then codeSerialization else cfg.sqlState
  message := if cfg.error = "" then "change conflicts with another transaction (OC000)"
    else cfg.error

def Dialect.sample (inject : List OCCInjection) : Dialect where
  classify _ sql :=
    (([("BEGIN", .accepted [.begin] []), ("COMMIT", .accepted [.commit] []),
      ("ROLLBACK", .accepted [.rollback] []), ("SELECT 1", .accepted [.select] []),
          ("SELECT * FROM t FOR UPDATE", .accepted [.select] []),
        ("INSERT INTO t VALUES (1)", .accepted [.dml] ["t"]),
        ("COMMIT; CREATE INDEX ON t (a)", .accepted [.commit, .ddl] []),
        ("TRUNCATE t", .rejected ⟨"truncate", "0A000", "unsupported statement: Truncate"⟩)] :
      List (String × Classification)).lookup sql).getD .unparsed
  stripAsync sql := [("COMMIT; CREATE INDEX ASYNC ON t (a)", "COMMIT; CREATE INDEX ON t (a)",
    1)].lookup sql
  analyze sql :=
    ([("INSERT INTO t VALUES (1)", { tag := "INSERT", rows := 1 }),
        ("SELECT * FROM t FOR UPDATE",
          { tag := "SELECT", rows := -1, shadow := "SELECT * FROM t", rowset := true })] :
      List (String × Intent)).lookup sql
  rewriteSQL _ := none
  occ := { error := "change conflicts with another transaction (OC000)", sqlState := "40001",
           inject }
  maxAge := 300
  serverVersion := ""

/-- What the session remembers about a prepared statement. -/
structure StatementInfo where
  kinds : List Kind
  tables : List String := []
  intent : Option Intent := none
  jobID : Option String := none
  deriving DecidableEq, Repr

structure JobResult where
  jobID : String
  described : Bool := false
  precedingTags : Nat := 0
  deriving DecidableEq, Repr

def abortTransactionQuery : Frontend := .query "SELECT 1/0"
def rollbackQuery : Frontend := .query "ROLLBACK"
def savepointQuery : Frontend := .query "SAVEPOINT dsql_occ"
def rollbackToQuery : Frontend := .query "ROLLBACK TO SAVEPOINT dsql_occ"
def restartQuery : Frontend := .query "ROLLBACK; BEGIN"

/-- A transaction failure the session injects: the upstream is sent `statement`,
and its output is suppressed until `swallow` `ReadyForQuery` messages have gone by. -/
structure TxnFailure where
  statement : Frontend
  status : TxStatus
  swallow : Nat
  deriving DecidableEq, Repr

/-- What the emulator runs a statement of its own for. -/
inductive Purpose : Type
  | savepoint | restore | count | rowset
  deriving DecidableEq, Repr

/-- Where a message on the upstream connection comes from: the client's `n`-th
message, or the `k`-th statement the emulator injected. -/
inductive Origin : Type
  | client (n : Nat)
  | hidden (p : Purpose) (k : Nat)
  | failure (k : Nat)
  deriving DecidableEq, Repr

structure Request where
  origin : Origin
  msg : Frontend
  deriving DecidableEq, Repr

structure Reply where
  origin : Origin
  msg : Backend
  deriving DecidableEq, Repr

/-- Why a message is written to the client. -/
inductive Source : Type
  | relayed (o : Origin)
  | refusal (n : Nat)
  | repair (n : Nat)
  | failure (k : Nat)
  deriving DecidableEq, Repr

structure Delivery where
  source : Source
  msg : Backend
  deriving DecidableEq, Repr

/-- A `hiddenExchange`: which statement it runs, with the variables its `consume`
and `finish` closures capture. -/
inductive Exchange : Type
  | savepoint (failed : Bool)
  | restore (repair : InFlight) (failed : Bool)
  | count (repair : InFlight) (rows : Int) (failed : Bool)
  | rowset (repair : InFlight) (failed : Bool)
  deriving DecidableEq, Repr

def Exchange.purpose : Exchange → Purpose
  | .savepoint _ => .savepoint
  | .restore _ _ => .restore
  | .count _ _ _ => .count
  | .rowset _ _ => .rowset

structure Hidden where
  id : Nat
  exchange : Exchange
  deriving DecidableEq, Repr

def Hidden.origin (h : Hidden) : Origin := .hidden h.exchange.purpose h.id

/-- The failure being injected, with the number of the statement that injects it
and of the client message it answers. -/
structure Armed where
  id : Nat
  request : Nat
  failure : TxnFailure
  deriving DecidableEq, Repr

/-- The session, less its connections and logger.  `serial` numbers the
statements the emulator injects; the code keeps no such number. -/
structure Session where
  tracker : Tracker
  txStatus : TxStatus := .idle
  skipSync : Bool := false
  pendingCommandTag : String := ""
  txnAborted : Bool := false
  failure : Option Armed := none
  failureRFQs : Nat := 0
  pendingFailure : Option TxnFailure := none
  occTouched : List String := []
  occCommits : Nat → Nat := fun _ => 0
  hidden : Option Hidden := none
  occSavepoint : Bool := false
  occDoomed : Bool := false
  occTxnStatements : Nat := 0
  occInFlight : Option InFlight := none
  occRepair : Option InFlight := none
  extendedBatchOpen : Bool := false
  pendingExchanges : Nat := 0
  job : Option JobResult := none
  statements : String → Option StatementInfo := fun _ => none
  closed : Bool := false
  serial : Nat := 0

def Session.new (D : Dialect) : Session where
  tracker := { maxAge := D.maxAge }

end DsqlEmulator.Proxy
