import Mathlib.Data.List.Sort
import DsqlEmulator.Occ.Intent

/-! Parsed statements and the shadows `Analyze` makes of them.  libpg_query gives a
statement as a tree of messages; what it parses and how it prints a tree is left
open, but for a printed tree being parsed back to itself. -/

namespace DsqlEmulator.Occ

/-- The fields of a message that `Analyze` reads or sets, and any other.  A `limitOption` stands
where a LIMIT is WITH TIES. -/
inductive Field : Type
  | relation | fromClause | usingClause | whereClause | returningList | onConflictClause
  | selectStmt | valuesLists
  | lockingClause | targetList | val | withClause | limitCount | limitOffset | limitOption
  | other (name : String)
  deriving DecidableEq, Repr

/-- The type of a message.  `other` is any type `Analyze` does not tell apart, with
the fields of it that are not messages. -/
inductive Label : Type
  | selectStmt | insertStmt | updateStmt | deleteStmt | mergeStmt | lockingClause
  | paramRef (number : Int)
  | other (name : String)
  deriving DecidableEq, Repr

mutual

/-- A message of a parsed statement. -/
inductive Node : Type
  | mk (label : Label) (fields : Fields)
  deriving DecidableEq

/-- The messages in the fields of a message; a repeated field stands once for each. -/
inductive Fields : Type
  | nil
  | cons (field : Field) (node : Node) (rest : Fields)
  deriving DecidableEq

end

def Node.label : Node → Label
  | .mk label _ => label

def Node.fields : Node → Fields
  | .mk _ fields => fields

namespace Fields

def ofList : List (Field × Node) → Fields
  | [] => .nil
  | (f, n) :: l => .cons f n (ofList l)

def get (f : Field) : Fields → List Node
  | .nil => []
  | .cons g n rest => if g = f then n :: rest.get f else rest.get f

def clear (f : Field) : Fields → Fields
  | .nil => .nil
  | .cons g n rest => if g = f then rest.clear f else .cons g n (rest.clear f)

def nodes : Fields → List Node
  | .nil => []
  | .cons _ n rest => n :: rest.nodes

end Fields

def Node.get (n : Node) (f : Field) : List Node := n.fields.get f

def Label.refs : Label → List Int
  | .paramRef number => [number]
  | _ => []

def Label.rename (ρ : Int → Int) : Label → Label
  | .paramRef number => .paramRef (ρ number)
  | label => label

mutual

def Node.refs : Node → List Int
  | .mk label fields => label.refs ++ fields.refs

def Fields.refs : Fields → List Int
  | .nil => []
  | .cons _ n rest => n.refs ++ rest.refs

end

mutual

def Node.rename (ρ : Int → Int) : Node → Node
  | .mk label fields => .mk (label.rename ρ) (fields.rename ρ)

def Fields.rename (ρ : Int → Int) : Fields → Fields
  | .nil => .nil
  | .cons f n rest => .cons f (n.rename ρ) (rest.rename ρ)

end

def firstSeen (seen : List Int) : List Int → List Int
  | [] => []
  | k :: ks => if k ∈ seen then firstSeen seen ks else k :: firstSeen (k :: seen) ks

def renumberParams (n : Node) : Option (Node × List Int) :=
  if n.refs.any (· < 1) then none
  else
    let order := (firstSeen [] n.refs).insertionSort (· ≤ ·)
    some (n.rename fun k => order.idxOf k + 1, order)

/-- What libpg_query does with texts and trees. -/
structure Grammar where
  parse : String → Option (List Node)
  deparse : Node → Option String
  parse_deparse : ∀ n sql, deparse n = some sql → parse sql = some [n]

def countStar : Node := .mk (.other "FuncCall count(*)") .nil

def resTarget (val : Node) : Node := .mk (.other "ResTarget") (.ofList [(.val, val)])

def shadowIntent (G : Grammar) (tag : String) (node : Node) (rowset : Bool) : Option Intent := do
  let (node, params) ← renumberParams node
  let shadow ← G.deparse node
  return { tag, rows := -1, shadow, rowset, params }

def countTree (rel : Node) (extra whereClause : List Node) : Node :=
  .mk .selectStmt (.ofList ((.targetList, resTarget countStar) ::
    ((rel :: extra).map (Prod.mk .fromClause) ++ whereClause.map (Prod.mk .whereClause))))

def countIntent (G : Grammar) (tag : String) (rel extra whereClause : List Node) : Option Intent :=
  match rel with
  | [] => none
  | rel :: _ => shadowIntent G tag (countTree rel extra whereClause) false

def analyzeNode (G : Grammar) (node : Node) : Option Intent :=
  match node.label with
  | .updateStmt =>
    if node.get .returningList ≠ [] then none
    else countIntent G "UPDATE" (node.get .relation) (node.get .fromClause) (node.get .whereClause)
  | .deleteStmt =>
    if node.get .returningList ≠ [] then none
    else countIntent G "DELETE" (node.get .relation) (node.get .usingClause) (node.get .whereClause)
  | .insertStmt =>
    if node.get .returningList ≠ [] ∨ node.get .onConflictClause ≠ [] then none
    else
      match node.get .selectStmt with
      | [] => none
      | values :: _ =>
        if values.label ≠ .selectStmt ∨ values.get .valuesLists = [] then none
        else some { tag := "INSERT", rows := (values.get .valuesLists).length }
  | .selectStmt =>
    if node.get .lockingClause = [] then none
    else shadowIntent G "SELECT" (.mk .selectStmt (node.fields.clear .lockingClause)) true
  | _ => none

/-- What a statement would have answered if the backend refused it a lock; `none` if
it cannot be told exactly. -/
def analyze (G : Grammar) (sql : String) : Option Intent :=
  match G.parse sql with
  | some [node] => analyzeNode G node
  | _ => none

end DsqlEmulator.Occ
