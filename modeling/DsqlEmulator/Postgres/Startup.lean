import DsqlEmulator.CommandLine
import DsqlEmulator.Dict

/-! What PostgreSQL makes of a startup message: the switches of its options in order, and
then its other parameters. -/

namespace DsqlEmulator.Postgres

open CommandLine

/-- The parameters of a startup message, in the order they are sent. -/
abbrev Params : Type := List (String × String)

def foldName (name : String) : String := String.ofList (name.toList.map Char.toLower)

def parseLongOption (w : List Char) : Option Params :=
  if '=' ∈ w then
    some [(String.ofList ((w.takeWhile (· ≠ '=')).map fun c => if c = '-' then '_' else c),
      String.ofList ((w.dropWhile (· ≠ '=')).drop 1))]
  else none

structure Postmaster : Type where
  known : Char → Option (Switch (String × String))
  read : String → String → Option String
  known_c : known 'c' = some (.takes parseLongOption)
  known_dash : known '-' = some (.takes parseLongOption)
  known_space : known ' ' = none

def reserved (name : String) : Bool :=
  name ∈ ["database", "user", "options", "replication"] || "_pq_.".toList.isPrefixOf name.toList

structure Started : Type where
  setting : String → Option String
  parameter : String → Option String

namespace Postmaster

variable (S : Postmaster)

def switches (options : String) : Option Params :=
  getopt S.known (Reading.between.split options.toList)

def writes (ps cmd : Params) : Params :=
  (cmd ++ ps.filter fun p => !reserved p.1).map fun w => (foldName w.1, w.2)

def started (ps cmd : Params) : Started where
  setting name := (lastValue (writes ps cmd) name).bind (S.read name)
  parameter name := if reserved name && name ≠ "options" then lastValue ps name else none

/-- `none` is a message that is refused: a switch that is not known, a setting that is
not accepted, or an empty name, which ends the message early. -/
def start (ps : Params) : Option Started := do
  let cmd ← S.switches ((lastValue ps "options").getD "")
  if (ps.all fun p => p.1 ≠ "") && (writes ps cmd).all fun w => (S.read w.1 w.2).isSome then
    some (S.started ps cmd)
  else none

variable {S} {ps cmd : Params} {own : Started}

theorem start_eq_some_iff : S.start ps = some own ↔
    ∃ cmd, S.switches ((lastValue ps "options").getD "") = some cmd ∧
    (∀ p ∈ ps, p.1 ≠ "") ∧ (∀ w ∈ writes ps cmd, (S.read w.1 w.2).isSome = true) ∧
      S.started ps cmd = own := by
  simp only [start, Option.bind_eq_bind, Option.bind_eq_some_iff]
  refine exists_congr fun cmd => and_congr_right fun _ => ?_
  simp [and_assoc]

theorem mem_writes {w : String × String} : w ∈ writes ps cmd ↔
    (∃ p ∈ cmd, (foldName p.1, p.2) = w) ∨ ∃ p ∈ ps, reserved p.1 = false ∧
      (foldName p.1, p.2) = w := by
  simp [writes, and_assoc]

theorem lastValue_writes {name : String} : lastValue (writes ps cmd) name =
    (lastValue (writes ps []) name).or (lastValue (writes [] cmd) name) := by
  simp [writes, lastValue_append]

end Postmaster

end DsqlEmulator.Postgres
