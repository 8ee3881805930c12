import DsqlEmulator.Classify.Eval

/-! The number written as the `CACHE` of a sequence or of an identity column, and the
rules on it. -/

namespace DsqlEmulator.Classify

open Rules

inductive SequenceOption : Type
  | cache (n : Int)
  | other (name : String) (arg : Option Message) (name_ne : name ≠ "cache")

/-- A number that the parser gives as an `Integer`. -/
def Fits (n : Int) : Prop := -2147483648 ≤ n ∧ n ≤ 2147483647

instance (n : Int) : Decidable (Fits n) := inferInstanceAs (Decidable (_ ∧ _))

def numericOnly (n : Int) : Message :=
  if Fits n then .node "integer" (.of "Integer" [("ival", .int n)] [])
  else .node "float" (.of "Float" [("fval", .str (toString n))] [])

namespace SequenceOption

def cache? : SequenceOption → Option Int
  | .cache n => some n
  | .other _ _ _ => none

def toNode : SequenceOption → Message
  | .cache n => defElemNode "cache" (some (numericOnly n))
  | .other name arg _ => defElemNode name arg

end SequenceOption

/-- The options of a sequence.  PostgreSQL refuses one that is given twice. -/
structure SequenceOptions where
  options : List SequenceOption
  once : (options.filterMap SequenceOption.cache?).length ≤ 1

def SequenceOptions.cache (o : SequenceOptions) : Option Int :=
  (o.options.filterMap SequenceOption.cache?).head?

def SequenceOptions.fields (o : SequenceOptions) : List (String × Message) :=
  (o.options.map SequenceOption.toNode).map (Prod.mk "options")

/-- No `CACHE` is written, or one below the minimum that is not allowed. -/
def TooSmall (cache : Option Int) (min : Int) (allow : List Int) : Prop :=
  ∀ n, cache = some n → n < min ∧ n ∉ allow

section Numbers

theorem integer_numericOnly (n : Int) :
    ((numericOnly n).get "integer").map (·.int "ival") = if Fits n then some n else none := by
  rw [numericOnly]
  split
  · rfl
  · rfl

theorem defElem_cache {read : Message → Option Int} (opt : SequenceOption) :
    (do let de ← opt.toNode.get "def_elem"
        if de.str "defname" = "cache" then de.get "arg" >>= read else none) =
      opt.cache?.bind fun n => read (numericOnly n) := by
  cases opt with
  | cache n => rfl
  | other name arg h => exact if_neg h

theorem defElemInt_cache (opts : List SequenceOption) :
    defElemInt (opts.map SequenceOption.toNode) "cache" =
      (opts.filterMap SequenceOption.cache?).find? (Fits ·) := by
  rw [defElemInt, defElem, List.findSome?_map]
  simp only [Function.comp_def, defElem_cache, integer_numericOnly]
  induction opts with
  | nil => rfl
  | cons opt opts ih =>
    rw [List.findSome?_cons, ih]
    cases opt with
    | cache n =>
      by_cases h : Fits n <;> simp [SequenceOption.cache?, h]
    | other name arg hne => simp [SequenceOption.cache?]

variable (o : SequenceOptions) (min : Int) (allow : List Int)

theorem SequenceOptions.list_options {name : String} {scalars : List (String × Scalar)} :
    (Message.of name scalars o.fields).list "options" = o.options.map SequenceOption.toNode :=
  Message.list_of_map name scalars "options" _

theorem cacheTooSmall_iff :
    cacheTooSmall (defElemInt (o.options.map SequenceOption.toNode) "cache") min allow = true ↔
      TooSmall o.cache min allow ∨ ∃ n, o.cache = some n ∧ ¬ Fits n := by
  have honce := o.once
  rw [defElemInt_cache, SequenceOptions.cache, TooSmall]
  generalize o.options.filterMap SequenceOption.cache? = ns at honce
  match ns with
  | [] => simp [cacheTooSmall]
  | [n] =>
    by_cases hfits : Fits n
    · simp [cacheTooSmall, hfits]
    · simp [cacheTooSmall, hfits]
  | _ :: _ :: _ => simp at honce

end Numbers

section Rules

variable (min : Int) (allow : List Int)

def createSequence (o : SequenceOptions) : Message :=
  .node "create_seq_stmt" (.of "CreateSeqStmt" [] o.fields)

theorem matches_sequenceCache (o : SequenceOptions) :
    matchesRule (sequenceCacheRule min allow) (createSequence o) = true ↔
      TooSmall o.cache min allow ∨ ∃ n, o.cache = some n ∧ ¬ Fits n := by
  rw [← cacheTooSmall_iff]
  simp [matchesRule, sequenceCacheRule, createSequence, sequenceCache, SequenceOptions.list_options]

inductive ColumnConstraint : Type
  | identity (o : SequenceOptions)
  | other (contype : String) (contype_ne : contype ≠ "CONSTR_IDENTITY")

def ColumnConstraint.toNode : ColumnConstraint → Message
  | .identity o =>
    .node "constraint" (.of "Constraint" [("contype", .enum "CONSTR_IDENTITY")] o.fields)
  | .other contype _ => .node "constraint" (.of "Constraint" [("contype", .enum contype)] [])

/-- A column of a `CREATE TABLE`, or what else may stand between its parentheses. -/
inductive TableElement : Type
  | column (name : String) (typeName : Message) (constraints : List ColumnConstraint)
  | other (kind : String) (value : Message) (kind_ne : kind ≠ "column_def")

def TableElement.toNode : TableElement → Message
  | .column name typeName constraints =>
    .node "column_def" (.of "ColumnDef" [("colname", .str name)]
      (("type_name", typeName) :: (constraints.map ColumnConstraint.toNode).map
        (Prod.mk "constraints")))
  | .other kind value _ => .node kind value

def createTable (elts : List TableElement) : Message :=
  .node "create_stmt"
    (.of "CreateStmt" [] ((elts.map TableElement.toNode).map (Prod.mk "table_elts")))

def ColumnConstraint.identity? : ColumnConstraint → Option SequenceOptions
  | .identity o => some o
  | .other _ _ => none

def identities (elts : List TableElement) : List SequenceOptions :=
  elts.flatMap fun
    | .column _ _ constraints => constraints.filterMap ColumnConstraint.identity?
    | .other _ _ _ => []

def smallIdentity (c : Message) : Bool :=
  c.enum "contype" = "CONSTR_IDENTITY" && cacheTooSmall
    (defElemInt (c.list "options") "cache") min allow

theorem smallIdentity_toNode (c : ColumnConstraint) :
    (∃ con, c.toNode.get "constraint" = some con ∧ smallIdentity min allow con = true) ↔
      ∃ o, c.identity? = some o ∧ (TooSmall o.cache min allow ∨ ∃ n, o.cache = some n ∧
          ¬ Fits n) := by
  cases c with
  | identity o =>
    simp only [ColumnConstraint.toNode, Message.get_node_self, ColumnConstraint.identity?,
      Option.some.injEq,
      exists_eq_left', smallIdentity, SequenceOptions.list_options, Bool.and_eq_true,
        cacheTooSmall_iff]
    exact and_iff_right rfl
  | other contype h =>
    simp [ColumnConstraint.toNode, ColumnConstraint.identity?, smallIdentity, Message.enum,
      Message.scalar, Message.of, h]

theorem smallIdentity_column (e : TableElement) :
    (∃ col, e.toNode.get "column_def" = some col ∧
        ∃ con ∈ constraints col, smallIdentity min allow con = true) ↔
      ∃ o ∈ identities [e], TooSmall o.cache min allow ∨ ∃ n, o.cache = some n ∧ ¬ Fits n := by
  cases e with
  | column name typeName cs =>
    have hlist : (Message.of "ColumnDef" [("colname", .str name)]
        (("type_name", typeName) :: (cs.map ColumnConstraint.toNode).map
          (Prod.mk "constraints"))).list "constraints" =
        cs.map ColumnConstraint.toNode := by
      simp [Message.list, List.filter_map, Function.comp_def]
    simp only [TableElement.toNode, Message.get_node_self, Option.some.injEq, exists_eq_left',
      constraints, hlist,
      identities, List.flatMap_cons, List.flatMap_nil, List.append_nil, List.mem_filterMap,
        List.mem_map, exists_exists_and_eq_and]
    constructor
    · rintro ⟨con, ⟨c, hc, hcon⟩, hsmall⟩
      obtain ⟨o, ho, h⟩ := (smallIdentity_toNode min allow c).1 ⟨con, hcon, hsmall⟩
      exact ⟨o, ⟨c, hc, ho⟩, h⟩
    · rintro ⟨o, ⟨c, hc, ho⟩, h⟩
      obtain ⟨con, hcon, hsmall⟩ := (smallIdentity_toNode min allow c).2 ⟨o, ho, h⟩
      exact ⟨con, ⟨c, hc, hcon⟩, hsmall⟩
  | other kind value h =>
    simp [TableElement.toNode, get_eq_none_of_nodeType h, identities]

theorem matches_identityCache (elts : List TableElement) :
    matchesRule (identityCacheRule min allow) (createTable elts) = true ↔
      ∃ o ∈ identities elts, TooSmall o.cache min allow ∨ ∃ n, o.cache = some n ∧ ¬ Fits n := by
  have hmatch : matchesRule (identityCacheRule min allow) (createTable elts) =
      hasSmallIdentityCache (createTable elts) min allow := by
    simp [matchesRule, identityCacheRule, createTable]
  have hany : hasSmallIdentityCache (createTable elts) min allow = true ↔
      ∃ e ∈ elts, ∃ col, e.toNode.get "column_def" = some col ∧
        ∃ con ∈ constraints col, smallIdentity min allow con = true := by
    simp only [createTable, hasSmallIdentityCache, Message.get_node_self, Message.list_of_map,
      List.any_eq_true, List.mem_filterMap, List.mem_map, exists_exists_and_eq_and]
    constructor
    · rintro ⟨col, ⟨e, he, hcol⟩, h⟩
      exact ⟨e, he, col, hcol, h⟩
    · rintro ⟨e, he, col, hcol, h⟩
      exact ⟨col, ⟨e, he, hcol⟩, h⟩
  rw [hmatch, hany]
  simp only [smallIdentity_column, identities, List.flatMap_cons, List.flatMap_nil, List.append_nil,
    List.mem_flatMap]
  constructor
  · rintro ⟨e, he, o, ho, h⟩
    exact ⟨o, ⟨e, he, ho⟩, h⟩
  · rintro ⟨o, ⟨e, he, ho⟩, h⟩
    exact ⟨e, he, o, ho, h⟩

/-- The rules decide by the number written, but for those that do not fit in 32 bits, which
they refuse: right only where such a number is too small, or another column's is. -/
theorem cache_decided_iff :
    (∀ o : SequenceOptions,
      (matchesRule (sequenceCacheRule min allow) (createSequence o) = true ↔
          TooSmall o.cache min allow) ↔ ∀ n, o.cache = some n → Fits n ∨ n < min ∧ n ∉ allow) ∧
    ∀ elts : List TableElement,
      (matchesRule (identityCacheRule min allow) (createTable elts) = true ↔
          ∃ o ∈ identities elts, TooSmall o.cache min allow) ↔
        (∀ o ∈ identities elts, ∀ n, o.cache = some n → Fits n) ∨
          ∃ o ∈ identities elts, TooSmall o.cache min allow := by
  constructor
  · intro o
    rw [matches_sequenceCache]
    constructor
    · intro h n hn
      by_cases hfits : Fits n
      · exact .inl hfits
      · exact .inr (h.1 (.inr ⟨n, hn, hfits⟩) n hn)
    · rintro h
      refine ⟨?_, .inl⟩
      rintro (hsmall | ⟨n, hn, hfits⟩)
      · exact hsmall
      · intro m hm
        obtain rfl := Option.some.inj (hn.symm.trans hm)
        exact (h n hn).resolve_left hfits
  · intro elts
    rw [matches_identityCache]
    constructor
    · intro h
      by_cases hfit : ∀ o ∈ identities elts, ∀ n, o.cache = some n → Fits n
      · exact .inl hfit
      · push Not at hfit
        obtain ⟨o, ho, n, hn, hfits⟩ := hfit
        exact .inr (h.1 ⟨o, ho, .inr ⟨n, hn, hfits⟩⟩)
    · intro h
      constructor
      · rintro ⟨o, ho, hsmall | ⟨n, hn, hfits⟩⟩
        · exact ⟨o, ho, hsmall⟩
        · exact h.resolve_left fun hall => hfits (hall o ho n hn)
      · rintro ⟨o, ho, hsmall⟩
        exact ⟨o, ho, .inl hsmall⟩

/-- `CREATE SEQUENCE s CACHE 3000000000`: refused for a cache that is too small. -/
theorem cache_refused_large :
    let o : SequenceOptions := ⟨[.cache 3000000000], by decide⟩
    matchesRule (sequenceCacheRule 65536 [1]) (createSequence o) = true ∧
        ¬ TooSmall o.cache 65536 [1] := by
  intro o
  refine ⟨by decide +kernel, fun h => ?_⟩
  exact absurd (h 3000000000 rfl).1 (by decide)

end Rules

end DsqlEmulator.Classify
