import Mathlib.Data.List.Basic

/-! Parsed statements as libpg_query gives them: protobuf messages, which the
classifier reads through their getters and walks through reflection. -/

namespace DsqlEmulator.Classify

/-- The value of a field that is not a message.  A value of an enumeration is given by
its name, which is what rules are compared with. -/
inductive Scalar : Type
  | str (s : String)
  | int (i : Int)
  | bool (b : Bool)
  | enum (name : String)
  deriving DecidableEq, Repr

mutual

/-- A message.  `node` is a `Node` with the field `kind` of its oneof set; any other
message has the name of its descriptor, its scalars and its fields that hold messages. -/
inductive Message : Type
  | node (kind : String) (value : Message)
  | mk (name : String) (scalars : List (String × Scalar)) (fields : MessageFields)
  deriving DecidableEq

/-- The messages in the fields of a message; a repeated field stands once for each of
its elements. -/
inductive MessageFields : Type
  | nil
  | cons (field : String) (value : Message) (rest : MessageFields)
  deriving DecidableEq

end

namespace MessageFields

def ofList : List (String × Message) → MessageFields
  | [] => .nil
  | (f, m) :: l => .cons f m (ofList l)

def toList : MessageFields → List (String × Message)
  | .nil => []
  | .cons f m rest => (f, m) :: rest.toList

@[simp] theorem toList_ofList (l : List (String × Message)) : (ofList l).toList = l := by
  induction l with
  | nil => rfl
  | cons p l ih => exact congrArg (List.cons p) ih

end MessageFields

namespace Message

def of (name : String) (scalars : List (String × Scalar)) (fields : List (String × Message)) :
    Message :=
  .mk name scalars (.ofList fields)

def descriptor : Message → String
  | .node _ _ => "Node"
  | .mk name _ _ => name

def fields : Message → List (String × Message)
  | .node kind value => [(kind, value)]
  | .mk _ _ fields => fields.toList

def list (m : Message) (field : String) : List Message :=
  (m.fields.filter (·.1 = field)).map Prod.snd

def get (m : Message) (field : String) : Option Message :=
  (m.fields.find? (·.1 = field)).map Prod.snd

def scalar : Message → String → Option Scalar
  | .node _ _, _ => none
  | .mk _ scalars _, field => scalars.lookup field

def str (m : Message) (field : String) : String :=
  match m.scalar field with
  | some (.str s) => s
  | _ => ""

def int (m : Message) (field : String) : Int :=
  match m.scalar field with
  | some (.int i) => i
  | _ => 0

def bool (m : Message) (field : String) : Bool :=
  match m.scalar field with
  | some (.bool b) => b
  | _ => false

def enum (m : Message) (field : String) : String :=
  match m.scalar field with
  | some (.enum name) => name
  | _ => ""

@[simp] theorem fields_node (kind : String) (value : Message) :
    (node kind value).fields = [(kind, value)] := rfl

@[simp] theorem fields_of (name : String) (scalars : List (String × Scalar))
    (l : List (String × Message)) : (of name scalars l).fields = l := MessageFields.toList_ofList l

theorem list_of_map (name : String) (scalars : List (String × Scalar)) (field : String)
    (ms : List Message) : (of name scalars (ms.map (Prod.mk field))).list field = ms := by
  simp [list, List.filter_map, Function.comp_def]

theorem get_node (kind : String) (value : Message) (field : String) :
    (node kind value).get field = if kind = field then some value else none := by
  by_cases h : kind = field <;> simp [get, h]

@[simp] theorem get_node_self (kind : String) (value : Message) :
    (node kind value).get kind = some value := by
  rw [get_node, if_pos rfl]

end Message

def defElemNode (name : String) (arg : Option Message) : Message :=
  .node "def_elem" (.of "DefElem" [("defname", .str name)] (arg.toList.map (Prod.mk "arg")))

def nodeType : Message → String
  | .node kind _ => kind
  | .mk _ _ _ => ""

@[simp] theorem nodeType_node (kind : String) (value : Message) :
    nodeType (.node kind value) = kind := rfl

theorem get_eq_none_of_nodeType {kind value field} (h : kind ≠ field) :
    (Message.node kind value).get field = none := by
  rw [Message.get_node, if_neg h]

section Walk

mutual

def walkMessages : Message → List Message
  | .node kind value => .node kind value :: walkMessages value
  | .mk name scalars fields => .mk name scalars fields :: walkFields fields

def walkFields : MessageFields → List Message
  | .nil => []
  | .cons _ value rest => walkMessages value ++ walkFields rest

end

def isNode : Message → Bool
  | .node _ _ => true
  | .mk _ _ _ => false

def walkNodes (m : Message) : List Message := (walkMessages m).filter isNode

theorem mem_walkFields {m : Message} {fs : MessageFields} :
    m ∈ walkFields fs ↔ ∃ p ∈ fs.toList, m ∈ walkMessages p.2 := by
  induction fs using MessageFields.rec (motive_1 := fun _ => True) with
  | node => trivial
  | mk => trivial
  | nil => simp [walkFields, MessageFields.toList]
  | cons f value rest _ ih => simp [walkFields, MessageFields.toList, ih]

theorem mem_walkMessages_self (m : Message) : m ∈ walkMessages m := by
  cases m <;> exact List.mem_cons_self

/-- A message stands in another at some depth: it is the other, or stands in one of its
fields. -/
inductive Within (m : Message) : Message → Prop
  | refl : Within m m
  | field {n : Message} {p : String × Message} : p ∈ n.fields → Within m p.2 → Within m n

theorem walkMessages_of_field {m n : Message} {p : String × Message} (hp : p ∈ n.fields)
    (h : m ∈ walkMessages p.2) : m ∈ walkMessages n := by
  cases n with
  | node kind value =>
    obtain rfl := List.mem_singleton.1 hp
    exact List.mem_cons_of_mem _ h
  | mk name scalars fields => exact List.mem_cons_of_mem _ (mem_walkFields.2 ⟨p, hp, h⟩)

mutual

theorem within_of_mem_walkMessages {m : Message} : ∀ {n : Message}, m ∈ walkMessages n → Within m n
  | .node kind value, h => by
    obtain rfl | h := List.mem_cons.1 h
    · exact .refl
    · exact .field (p := (kind, value)) List.mem_cons_self (within_of_mem_walkMessages h)
  | .mk name scalars fields, h => by
    obtain rfl | h := List.mem_cons.1 h
    · exact .refl
    · obtain ⟨p, hp, hw⟩ := within_of_mem_walkFields h
      exact .field (n := .mk name scalars fields) hp hw

theorem within_of_mem_walkFields {m : Message} :
    ∀ {fs : MessageFields}, m ∈ walkFields fs → ∃ p ∈ fs.toList, Within m p.2
  | .nil, h => absurd h List.not_mem_nil
  | .cons f value rest, h => by
    obtain h | h := List.mem_append.1 h
    · exact ⟨(f, value), List.mem_cons_self, within_of_mem_walkMessages h⟩
    · obtain ⟨p, hp, hw⟩ := within_of_mem_walkFields h
      exact ⟨p, List.mem_cons_of_mem _ hp, hw⟩

end

theorem mem_walkMessages_iff {m n : Message} : m ∈ walkMessages n ↔ Within m n := by
  refine ⟨within_of_mem_walkMessages, fun h => ?_⟩
  induction h with
  | refl => exact mem_walkMessages_self m
  | field hp _ ih => exact walkMessages_of_field hp ih

end Walk

end DsqlEmulator.Classify
