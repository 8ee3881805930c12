import DsqlEmulator.Dict
import DsqlEmulator.Strings

/-! JSON values, objects whose empty members are left out, and records read from objects. -/

namespace DsqlEmulator

inductive Json : Type
  | null
  | bool (b : Bool)
  | str (s : String)
  | arr (items : List Json)
  | obj (members : List (String × Json))
  deriving Repr

namespace Json

section Equality

mutual

def beq : Json → Json → Bool
  | .null, .null => true
  | .bool b, .bool c => b = c
  | .str s, .str t => s = t
  | .arr l, .arr l' => beqItems l l'
  | .obj m, .obj m' => beqMembers m m'
  | _, _ => false

def beqItems : List Json → List Json → Bool
  | [], [] => true
  | j :: l, j' :: l' => beq j j' && beqItems l l'
  | _, _ => false

def beqMembers : List (String × Json) → List (String × Json) → Bool
  | [], [] => true
  | (name, j) :: m, (name', j') :: m' => name = name' && beq j j' && beqMembers m m'
  | _, _ => false

end

mutual

theorem beq_iff : ∀ {j j' : Json}, beq j j' = true ↔ j = j'
  | .null, j' => by cases j' <;> simp [beq]
  | .bool b, j' => by cases j' <;> simp [beq]
  | .str s, j' => by cases j' <;> simp [beq]
  | .arr l, j' => by cases j' <;> simp [beq, beqItems_iff]
  | .obj m, j' => by cases j' <;> simp [beq, beqMembers_iff]

theorem beqItems_iff : ∀ {l l' : List Json}, beqItems l l' = true ↔ l = l'
  | [], l' => by cases l' <;> simp [beqItems]
  | j :: l, l' => by cases l' <;> simp [beqItems, beq_iff (j := j), beqItems_iff (l := l)]

theorem beqMembers_iff : ∀ {m m' : List (String × Json)}, beqMembers m m' = true ↔ m = m'
  | [], m' => by cases m' <;> simp [beqMembers]
  | (name, j) :: m, m' => by
    rcases m' with _ | ⟨⟨name', j'⟩, m'⟩ <;>
      simp [beqMembers, beq_iff (j := j), beqMembers_iff (m := m), and_assoc]

end

instance : DecidableEq Json := fun _ _ => decidable_of_iff _ beq_iff

end Equality

def members (l : List (String × Option Json)) : List (String × Json) :=
  l.filterMap fun m => m.2.map fun v => (m.1, v)

def ofString (s : String) : Option Json := if s = "" then none else some (.str s)

def ofBool (b : Bool) : Option Json := if b then some (.bool true) else none

def ofList (l : List Json) : Option Json := if l = [] then none else some (.arr l)

variable {s t : String} {b c : Bool} {l l' : List Json} {m m' : List (String × Option Json)}

theorem ofString_inj : ofString s = ofString t ↔ s = t := by
  unfold ofString
  split <;> split <;> simp_all [eq_comm]

theorem ofList_inj : ofList l = ofList l' ↔ l = l' := by
  unfold ofList
  split <;> split <;> simp_all [eq_comm]

theorem mem_members {name : String} {v : Json} : (name, v) ∈ members m ↔ (name, some v) ∈ m := by
  simp [members]

theorem members_inj (hname : m.map Prod.fst = m'.map Prod.fst) (hnodup : (m.map Prod.fst).Nodup) :
    members m = members m' ↔ m = m' := by
  refine ⟨fun h => ?_, fun h => h ▸ rfl⟩
  have hvalue {n n' : List (String × Option Json)} (hnodup : (n.map Prod.fst).Nodup)
    (h : members n = members n')
      {name : String} {v : Json} {v' : Option Json} (hv : (name, v') ∈ n)
          (hv' : (name, some v) ∈ n') : v' = some v := by
    have hmem : (name, some v) ∈ n := mem_members.1 (h ▸ mem_members.2 hv')
    exact (Prod.mk.inj (List.inj_on_of_nodup_map hnodup hv hmem rfl)).2
  have hlen : m.length = m'.length := by simpa using congrArg List.length hname
  refine List.ext_getElem hlen fun i hi hi' => ?_
  have hfst : m[i].1 = m'[i].1 := by
    have hget := List.getElem_of_eq hname (i := i) (by simpa using hi)
    simpa using hget
  have hm : (m[i].1, m[i].2) ∈ m := List.getElem_mem hi
  have hm' : (m[i].1, m'[i].2) ∈ m' := by rw [hfst]; exact List.getElem_mem hi'
  refine Prod.ext hfst ?_
  cases hsnd : m[i].2 with
  | some v =>
    rw [hsnd] at hm
    exact (hvalue (hname ▸ hnodup) h.symm hm' hm).symm
  | none =>
    cases hsnd' : m'[i].2 with
    | none => rfl
    | some v =>
      rw [hsnd'] at hm'
      have hsome := hvalue hnodup h hm hm'
      rw [hsnd] at hsome
      exact hsome

section Read

def foldName (name : String) : List Char := name.toList.map Strings.foldRune

def lookup (ms : List (String × Json)) (name : String) : Option Json :=
  lastValue (ms.map fun p => (foldName p.1, p.2)) (foldName name)

def object? : Json → Option (List (String × Json))
  | .null => some []
  | .obj ms => some ms
  | _ => none

def asString : Option Json → Option String
  | none | some .null => some ""
  | some (.str s) => some s
  | some _ => none

def asBool : Option Json → Option Bool
  | none | some .null => some false
  | some (.bool b) => some b
  | some _ => none

def asList {α : Type} (read : Json → Option α) : Option Json → Option (List α)
  | none | some .null => some []
  | some (.arr items) => items.mapM read
  | some _ => none

variable {α β : Type} {read : Json → Option β} {write : α → Json} {f : α → β} {as : List α}
  {name : String} {v : Option Json}

@[simp] theorem asString_ofString : asString (ofString s) = some s := by
  unfold ofString
  split
  next h => rw [h]; rfl
  next => rfl

@[simp] theorem asBool_ofBool : asBool (ofBool b) = some b := by cases b <;> rfl

theorem mapM_map (h : ∀ a ∈ as, read (write a) = some (f a)) :
    (as.map write).mapM read = some (as.map f) := by
  induction as with
  | nil => rfl
  | cons a as ih =>
    rw [List.map_cons, List.mapM_cons, h a List.mem_cons_self, ih fun a' ha' =>
      h a' (List.mem_cons_of_mem a ha')]
    rfl

theorem asList_arr (h : ∀ a ∈ as, read (write a) = some (f a)) :
    asList read (some (.arr (as.map write))) = some (as.map f) := mapM_map h

theorem asList_ofList (h : ∀ a ∈ as, read (write a) = some (f a)) :
    asList read (ofList (as.map write)) = some (as.map f) := by
  unfold ofList
  split
  next hnil =>
    rw [List.map_eq_nil_iff.1 hnil]
    rfl
  next => exact asList_arr h

theorem forall_of_asList {p : β → Prop} {v : Option Json} {bs : List β}
    (hread : ∀ j b, read j = some b → p b) (h : asList read v = some bs) : ∀ b ∈ bs, p b := by
  unfold asList at h
  split at h
  next => cases h; simp
  next => cases h; simp
  next items =>
    induction items generalizing bs with
    | nil => cases h; simp
    | cons j items ih =>
      rw [List.mapM_cons] at h
      obtain ⟨b, hb, h⟩ := Option.bind_eq_some_iff.1 h
      obtain ⟨bs', hbs', h⟩ := Option.bind_eq_some_iff.1 h
      cases h
      exact List.forall_mem_cons.2 ⟨hread j b hb, ih hbs'⟩
  next => cases h

theorem lookup_members (hnodup : (m.map fun p => foldName p.1).Nodup) (h : (name, v) ∈ m) :
    lookup (members m) name = v := by
  have hname {p q : String × Option Json} (hp : p ∈ m) (hq : q ∈ m)
      (heq : foldName p.1 = foldName q.1) : p = q :=
    List.inj_on_of_nodup_map hnodup hp hq heq
  cases v with
  | none =>
    refine lastValue_eq_none_iff.2 fun p hp hk => ?_
    obtain ⟨⟨name', w⟩, hmem, rfl⟩ := List.mem_map.1 hp
    cases hname h (mem_members.1 hmem) hk.symm
  | some w =>
    obtain ⟨w', hw'⟩ := Option.isSome_iff_exists.1 (lastValue_isSome_of_mem
      (List.mem_map_of_mem (f := fun p : String × Json => (foldName p.1, p.2)) (mem_members.2 h)))
    obtain ⟨⟨name', w''⟩, hmem, heq⟩ := List.mem_map.1 (mem_of_lastValue hw')
    obtain ⟨hfold, rfl⟩ := Prod.mk.inj heq
    cases hname h (mem_members.1 hmem) hfold.symm
    exact hw'

end Read

end Json

end DsqlEmulator
