import Mathlib.Data.List.Basic

/-! The isolation levels of PostgreSQL and the statements that set them. -/

namespace DsqlEmulator.Postgres

inductive IsolationLevel : Type
  | readUncommitted | readCommitted | repeatableRead | serializable
  deriving DecidableEq, Repr

namespace IsolationLevel

def name : IsolationLevel → String
  | .readUncommitted => "read uncommitted"
  | .readCommitted => "read committed"
  | .repeatableRead => "repeatable read"
  | .serializable => "serializable"

def all : List IsolationLevel := [.readUncommitted, .readCommitted, .repeatableRead, .serializable]

end IsolationLevel

def sameName (s t : String) : Bool := s.toList.map Char.toLower = t.toList.map Char.toLower

def levelNamed (value : String) : Option IsolationLevel :=
  IsolationLevel.all.find? fun l => sameName value l.name

inductive TransactionMode : Type
  | isolation (level : IsolationLevel)
  | readOnly (on : Bool)
  | deferrable (on : Bool)
  deriving DecidableEq, Repr

def TransactionMode.level? : TransactionMode → Option IsolationLevel
  | .isolation level => some level
  | _ => none

def levels (modes : List TransactionMode) : List IsolationLevel :=
  modes.filterMap TransactionMode.level?

inductive SettingValue : Type
  | text (s : String)
  | number (n : Int)
  deriving DecidableEq, Repr

/-- The statements that open a transaction or set a parameter.  `begin true` is `START
TRANSACTION`. -/
inductive Command : Type
  | begin (start : Bool) (modes : List TransactionMode)
  | setTransaction (modes : List TransactionMode)
  | setSessionCharacteristics (modes : List TransactionMode)
  | setTransactionSnapshot (id : String)
  | set (isLocal : Bool) (name : String) (values : List SettingValue)
  | setToDefault (isLocal : Bool) (name : String)
  | setFromCurrent (isLocal : Bool) (name : String)
  deriving DecidableEq, Repr

structure Levels where
  current : IsolationLevel
  default : IsolationLevel
  reset : IsolationLevel
  deriving DecidableEq, Repr

def applyModes (level : IsolationLevel) (modes : List TransactionMode) : IsolationLevel :=
  modes.foldl (fun level mode => mode.level?.getD level) level

theorem applyModes_eq (level : IsolationLevel) (modes : List TransactionMode) :
    applyModes level modes = (levels modes).getLast?.getD level := by
  induction modes generalizing level with
  | nil => rfl
  | cons mode modes ih =>
    rw [applyModes, List.foldl_cons, ← applyModes, ih]
    cases mode with
    | isolation l => simp [levels, TransactionMode.level?, List.getLast?_cons]
    | readOnly on => rfl
    | deferrable on => rfl

/-- What a statement that succeeds does to the levels.  A `SET` of a level takes one value
that names one; the level of a transaction cannot be reset. -/
def Levels.exec (st : Levels) : Command → Levels
  | .begin _ modes => { st with current := applyModes st.default modes }
  | .setTransaction modes => { st with current := applyModes st.current modes }
  | .setSessionCharacteristics modes => { st with default := applyModes st.default modes }
  | .set _ name [.text value] =>
    match levelNamed value with
    | none => st
    | some level =>
      if sameName name "transaction_isolation" then { st with current := level }
      else if sameName name "default_transaction_isolation" then { st with default := level }
      else st
  | .setToDefault _ name =>
    if sameName name "default_transaction_isolation" then { st with default := st.reset } else st
  | _ => st

end DsqlEmulator.Postgres
