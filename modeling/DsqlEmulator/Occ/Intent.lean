import DsqlEmulator.Wire.Message

namespace DsqlEmulator.Occ

def codeLockTimeout : String := "55P03"
def codeSerialization : String := "40001"

def isConflict (code : String) : Bool :=
  code = codeLockTimeout || code = codeSerialization

/-- What a statement would have reported had the backend not refused it a lock.
`shadow` is empty when the statement states its own row count. -/
structure Intent where
  tag : String
  rows : Int
  shadow : String := ""
  rowset : Bool := false
  params : List Int := []
  deriving DecidableEq, Repr

def Intent.commandTag (i : Intent) (rows : Int) : String :=
  if i.tag = "INSERT" then "INSERT 0 " ++ toString rows
  else i.tag ++ " " ++ toString rows

def bindFormat (codes : List Int) (position : Nat) : Int :=
  match codes with
  | [] => 0
  | [c] => c
  | codes => codes.getD (position - 1) 0

/-- The statement the client is waiting on.  `request` numbers the client
message that put it in flight; the code keeps no such number. -/
structure InFlight where
  request : Nat
  intent : Intent
  extended : Bool := false
  formats : List Int := []
  params : List (Option String) := []
  paramFormats : List Int := []
  deriving DecidableEq, Repr

def InFlight.shadowParams (f : InFlight) : Option (List (Option String) × List Int) :=
  go f.intent.params
where
  go : List Int → Option (List (Option String) × List Int)
    | [] => some ([], [])
    | pos :: ps =>
      if pos < 1 ∨ f.params.length < pos then none
      else (go ps).map fun (vs, fs) =>
        (f.params.getD (pos.toNat - 1) none :: vs, bindFormat f.paramFormats pos.toNat :: fs)

end DsqlEmulator.Occ
