import DsqlEmulator.Classify.Embedded

/-! What a refusal names as the type that caused it. -/

namespace DsqlEmulator.Classify

open Rules Strings

def First {α : Type} (p : α → Prop) (l : List α) (a : α) : Prop :=
  p a ∧ ∃ before after, l = before ++ a :: after ∧ ∀ b ∈ before, ¬ p b

theorem First.mem {α : Type} {p : α → Prop} {l : List α} {a : α} (h : First p l a) : a ∈ l := by
  obtain ⟨-, before, after, rfl, -⟩ := h
  exact List.mem_append_right before List.mem_cons_self

theorem exists_first {α β : Type} {f : α → Option β} {p : α → Prop} {l : List α}
    (hf : ∀ a ∈ l, (f a).isSome ↔ p a) (h : ∃ a ∈ l, p a) :
    ∃ a b, First p l a ∧ f a = some b ∧ l.findSome? f = some b := by
  obtain ⟨c, hc, hpc⟩ := h
  have hsome : (l.findSome? f).isSome := List.findSome?_isSome_iff.2 ⟨c, hc, (hf c hc).2 hpc⟩
  obtain ⟨b, hb⟩ := Option.isSome_iff_exists.1 hsome
  obtain ⟨before, a, after, rfl, ha, hbefore⟩ := List.findSome?_eq_some_iff.1 hb
  have hp : p a := (hf a (by simp)).1 (by simp [ha])
  refine ⟨a, b, ⟨hp, before, after, rfl, fun d hd hpd => ?_⟩, ha, hb⟩
  have hanswers := (hf d (List.mem_append_left _ hd)).2 hpd
  simp [hbefore d hd] at hanswers

section Columns

variable (col : Message)

def HasType (written : String) : Prop :=
  ∃ name, col.get "type_name" = some name ∧ lastTypeName (some name) = written

def IsArray : Prop := ∃ name, col.get "type_name" = some name ∧ name.list "array_bounds" ≠ []

def BadIdentity (allowed : List String) : Prop :=
  isIdentityColumn col = true ∧ ∃ written, HasType col written ∧ written ∉ allowed

def ListedType (types : List String) : Prop := ∃ written, HasType col written ∧ written ∈ types

end Columns

/-- Every type of a column has a name, as the parser sees to. -/
def TypesNamed (node : Message) : Prop :=
  ∀ col ∈ columnDefs node, ∀ written, HasType col written → written ≠ ""

/-- The rule names a type or a function that it refuses. -/
def NamesType (r : Rules.Rule) : Prop :=
  r.columnArray = true ∨ r.identityTypeNot ≠ [] ∨ r.columnType ≠ [] ∨ r.function ≠ []

/-- What a rule refuses a statement for, as it is displayed: the first array column, or else
the first identity column of a type not allowed, or else the first column of a listed type,
or else the first listed function that is called. -/
inductive Cause (r : Rules.Rule) (node : Message) : String → Prop
  | array {col written} (harray : r.columnArray = true) (hcol : First IsArray (columnDefs node) col)
      (htype : HasType col written) (hne : written ≠ "") : Cause r node
        (canonicalType written ++ "[]")
  | identity {col written} (harray : r.columnArray = false) (hset : r.identityTypeNot ≠ [])
      (hcol : First (BadIdentity · r.identityTypeNot) (columnDefs node) col)
      (htype : HasType col written) (hne : written ≠ "") : Cause r node (canonicalType written)
  | column {col written} (harray : r.columnArray = false) (hidentity : r.identityTypeNot = [])
      (hset : r.columnType ≠ []) (hcol : First (ListedType · r.columnType) (columnDefs node) col)
      (htype : HasType col written) (hne : written ≠ "") : Cause r node (canonicalType written)
  | called {call name} (harray : r.columnArray = false) (hidentity : r.identityTypeNot = [])
      (hcolumn : r.columnType = []) (hfirst : First (· ∈ r.function) (functionNames node) name)
      (hcall : Within (.node "func_call" call) node) (hname : functionName call = name)
        (hne : name ≠ "") :
      Cause r node (canonicalType name)

section Matches

variable {r : Rules.Rule} {node : Message}

theorem predicates_of_matchesRule (h : matchesRule r node = true) :
    (r.columnType = [] ∨ intersects r.columnType (columnTypes node) = true) ∧
      (r.columnArray = true → hasArrayColumn node = true) ∧
      (r.function = [] ∨ intersects r.function (functionNames node) = true) ∧
      (r.identityTypeNot = [] ∨ (identityColumnType node r.identityTypeNot).isSome = true) := by
  simp only [matchesRule, Bool.and_eq_true, Bool.or_eq_true, List.isEmpty_iff, Bool.not_eq_true']
    at h
  obtain ⟨⟨⟨⟨⟨⟨⟨⟨⟨⟨⟨⟨⟨⟨⟨⟨⟨⟨⟨⟨⟨-, -⟩, hcolumn⟩, harray⟩, -⟩, -⟩, -⟩, hfunction⟩, -⟩, -⟩, -⟩, -⟩, -⟩,
    -⟩, -⟩, -⟩, -⟩, -⟩, -⟩, -⟩, hidentity⟩, -⟩ := h
  refine ⟨hcolumn, fun hset => harray.resolve_left (by simp [hset]), hfunction, hidentity⟩

theorem canonicalType_ne {written : String} (h : written ≠ "") : canonicalType written ≠ "" := by
  unfold canonicalType
  cases hlookup : canonical.lookup written with
  | none => exact h
  | some name =>
    have hall : ∀ p ∈ canonical, p.2 ≠ "" := by decide
    obtain ⟨before, after, hmem, -⟩ := List.lookup_eq_some_iff.1 hlookup
    exact hall (written, name) (by simp [hmem])

theorem Cause.ne_empty {name : String} (h : Cause r node name) : name ≠ "" := by
  cases h with
  | array _ _ _ hne =>
    intro hempty
    exact canonicalType_ne hne (String.append_eq_empty_iff.1 hempty).1
  | identity _ _ _ _ hne => exact canonicalType_ne hne
  | column _ _ _ _ _ hne => exact canonicalType_ne hne
  | called _ _ _ _ _ _ hne => exact canonicalType_ne hne

theorem exists_array_column (hnamed : TypesNamed node) (h : hasArrayColumn node = true) :
    ∃ col written, First IsArray (columnDefs node) col ∧ HasType col written ∧ written ≠ "" ∧
      ((columnDefs node).findSome? fun col => (col.get "type_name").bind fun name =>
        if (name.list "array_bounds").isEmpty then none else some
          (canonicalType (lastTypeName (some name)) ++ "[]")) =
      some (canonicalType written ++ "[]") := by
  let f (col : Message) : Option String := (col.get "type_name").bind fun name =>
    if (name.list "array_bounds").isEmpty then none else some
      (canonicalType (lastTypeName (some name)) ++ "[]")
  have hf (col : Message) : (f col).isSome ↔ IsArray col := by
    cases hname : col.get "type_name" <;> simp [f, IsArray, hname]
  have hany : ∃ col ∈ columnDefs node, IsArray col := by
    obtain ⟨col, hcol, harray⟩ := List.any_eq_true.1 h
    exact ⟨col, hcol, by simpa [IsArray, Option.any_eq_true] using harray⟩
  obtain ⟨col, shown, hfirst, hgives, hfind⟩ := exists_first (fun col _ => hf col) hany
  obtain ⟨name, hname, hbounds⟩ := hfirst.1
  have heq : f col = some (canonicalType (lastTypeName (some name)) ++ "[]") := by
    simp [f, hname, hbounds]
  have htype : HasType col (lastTypeName (some name)) := ⟨name, hname, rfl⟩
  exact ⟨col, _, hfirst, htype, hnamed col hfirst.mem _ htype, hfind.trans (hgives.symm.trans heq)⟩

theorem exists_identity_column {allowed : List String} (hnamed : TypesNamed node)
    (h : (identityColumnType node allowed).isSome = true) :
    ∃ col written, First (BadIdentity · allowed) (columnDefs node) col ∧ HasType col written ∧
      written ≠ "" ∧ identityColumnType node allowed = some written := by
  let f (col : Message) : Option String := if isIdentityColumn col then
      let written := lastTypeName (col.get "type_name")
      if written = "" || allowed.contains written then none else some written
    else none
  have hf : ∀ col ∈ columnDefs node, (f col).isSome ↔ BadIdentity col allowed := by
    intro col hcol
    cases hname : col.get "type_name" with
    | none => simp [f, BadIdentity, HasType, hname, lastTypeName]
    | some name =>
      have hne : lastTypeName (some name) ≠ "" := hnamed col hcol _ ⟨name, hname, rfl⟩
      by_cases hidentity : isIdentityColumn col <;> by_cases hallowed : lastTypeName (some name) ∈
        allowed <;> simp [f, BadIdentity, HasType, hname, hne, hidentity, hallowed]
  have hany : ∃ col ∈ columnDefs node, BadIdentity col allowed := by
    obtain ⟨col, hcol, hsome⟩ := List.findSome?_isSome_iff.1 h
    exact ⟨col, hcol, (hf col hcol).1 hsome⟩
  obtain ⟨col, written, hfirst, hgives, hfind⟩ := exists_first hf hany
  obtain ⟨hidentity, _, ⟨name, hname, -⟩, -⟩ := hfirst.1
  have hwritten : lastTypeName (some name) = written := by
    simp only [f, hidentity, hname, if_true] at hgives
    split at hgives
    · cases hgives
    · exact Option.some.inj hgives
  have htype : HasType col written := ⟨name, hname, hwritten⟩
  exact ⟨col, written, hfirst, htype, hnamed col hfirst.mem _ htype, hfind⟩

theorem exists_listed_column {types : List String} (hnamed : TypesNamed node)
    (h : intersects types (columnTypes node) = true) :
    ∃ col written, First (ListedType · types) (columnDefs node) col ∧ HasType col written ∧
      written ≠ "" ∧ ((columnDefs node).findSome? fun col => (col.get "type_name").bind fun name =>
        if types.contains (lastTypeName (some name)) then some
          (canonicalType (lastTypeName (some name))) else none) = some (canonicalType written) := by
  let f (col : Message) : Option String := (col.get "type_name").bind fun name =>
    if types.contains (lastTypeName (some name)) then some
      (canonicalType (lastTypeName (some name))) else none
  have hf (col : Message) : (f col).isSome ↔ ListedType col types := by
    cases hname : col.get "type_name" <;> simp [f, ListedType, HasType, hname]
  have hany : ∃ col ∈ columnDefs node, ListedType col types := by
    obtain ⟨written, hwritten, hlisted⟩ := List.any_eq_true.1 h
    obtain ⟨col, hcol, hlast⟩ := List.mem_filterMap.1 hwritten
    obtain ⟨name, hname, hstring⟩ := Option.bind_eq_some_iff.1 hlast
    exact ⟨col, hcol, written, ⟨name, hname, by simp [lastTypeName, hstring]⟩,
      List.contains_iff_mem.1 hlisted⟩
  obtain ⟨col, shown, hfirst, hgives, hfind⟩ := exists_first (fun col _ => hf col) hany
  obtain ⟨written, ⟨name, hname, rfl⟩, hlisted⟩ := hfirst.1
  have heq : f col = some (canonicalType (lastTypeName (some name))) := by simp [f, hname, hlisted]
  have htype : HasType col (lastTypeName (some name)) := ⟨name, hname, rfl⟩
  exact ⟨col, _, hfirst, htype, hnamed col hfirst.mem _ htype, hfind.trans (hgives.symm.trans heq)⟩

theorem exists_listed_function {functions : List String}
    (h : intersects functions (functionNames node) = true) :
    ∃ call name, First (· ∈ functions) (functionNames node) name ∧
      Within (.node "func_call" call) node ∧ functionName call = name ∧ name ≠ "" ∧
      (functionNames node).find? functions.contains = some name := by
  obtain ⟨_, hcalled, hlisted⟩ := List.any_eq_true.1 h
  have hsome : ((functionNames node).find? functions.contains).isSome :=
    List.find?_isSome.2 ⟨_, hcalled, hlisted⟩
  obtain ⟨name, hfind⟩ := Option.isSome_iff_exists.1 hsome
  obtain ⟨hname, before, after, hsplit, hbefore⟩ := List.find?_eq_some_iff_append.1 hfind
  have hne : name ≠ "" := by
    have hmem : name ∈ functionNames node := List.mem_of_find?_eq_some hfind
    exact of_decide_eq_true (List.mem_filter.1 hmem).2
  obtain ⟨call, hcall, hcallName⟩ :=
    (mem_functionNames node hne).1 (List.mem_of_find?_eq_some hfind)
  refine ⟨call, name, ⟨List.contains_iff_mem.1 hname, before, after, hsplit, fun b hb hmem => ?_⟩,
    hcall, hcallName, hne, hfind⟩
  have hno := hbefore b hb
  simp [hmem] at hno

theorem cause_refusedType (hset : NamesType r) (hmatch : matchesRule r node = true)
    (hnamed : TypesNamed node) : Cause r node (refusedType r node) := by
  obtain ⟨hcolumn, harray, hfunction, hidentity⟩ := predicates_of_matchesRule hmatch
  unfold refusedType
  cases hca : r.columnArray with
  | true =>
    obtain ⟨col, written, hfirst, htype, hne, hfind⟩ := exists_array_column hnamed (harray hca)
    simp only [hfind, if_true]
    exact .array hca hfirst htype hne
  | false =>
    by_cases hin : r.identityTypeNot = []
    · by_cases hct : r.columnType = []
      · have hfn : r.function ≠ [] := by
          simpa [NamesType, hca, hin, hct] using hset
        obtain ⟨call, name, hfirst, hcall, hname, hne, hfind⟩ :=
          exists_listed_function (hfunction.resolve_left hfn)
        simp only [hin, hct, hfind]
        exact .called hca hin hct hfirst hcall hname hne
      · obtain ⟨col, written, hfirst, htype, hne, hfind⟩ :=
          exists_listed_column hnamed (hcolumn.resolve_left hct)
        simp only [hin, hfind, List.isEmpty_iff, hct]
        exact .column hca hin hct hfirst htype hne
    · obtain ⟨col, written, hfirst, htype, hne, hfind⟩ :=
        exists_identity_column hnamed (hidentity.resolve_left hin)
      simp only [hfind, List.isEmpty_iff, hin]
      exact .identity hca hin hfirst htype hne

end Matches

section Refusals

def typePlaceholder : String := "\x7btype\x7d"

def filledWith (r : Rules.Rule) (node : Message) (name : String) : String :=
  String.ofList (replaceAll "\x7blanguage\x7d".toList (functionLanguage node).toList 0
    (replaceAll typePlaceholder.toList name.toList 0 r.message.toList))

/-- The type named in a refusal is one that caused it, and it has a name. -/
theorem refusal_names_cause (r : Rules.Rule) (node : Message)
    (hmessage : typePlaceholder.toList <:+: r.message.toList) (hset : NamesType r)
    (hmatch : matchesRule r node = true) (hnamed : TypesNamed node) :
    refusedType r node ≠ "" ∧ Cause r node (refusedType r node) ∧
      fill r node = filledWith r node (refusedType r node) := by
  have hcause := cause_refusedType hset hmatch hnamed
  refine ⟨hcause.ne_empty, hcause, ?_⟩
  have hbrace : '\x7b' ∈ r.message.toList := hmessage.subset (by decide)
  rw [fill, if_neg (not_not.2 hbrace)]
  rfl

theorem refusal_names_cause_varbit :
    let node := Message.node "alter_table_stmt"
      (alterTable [retypeCmd ["text"], retypeCmd ["pg_catalog", "varbit"]])
    Cause unsupportedTypeAlterColumn node "bit varying" ∧
      fill unsupportedTypeAlterColumn node = "datatype bit varying not supported" := by
  intro node
  have hnamed : TypesNamed node := by
    have hall : ∀ col ∈ columnDefs node, lastTypeName (col.get "type_name") ≠ "" := by decide
    rintro col hcol _ ⟨name, hname, rfl⟩
    exact hname ▸ hall col hcol
  have hcause := refusal_names_cause unsupportedTypeAlterColumn node
    ⟨"datatype ".toList, " not supported".toList, by decide⟩
    (.inr (.inr (.inl (by decide)))) (by decide) hnamed
  have hname : refusedType unsupportedTypeAlterColumn node = "bit varying" := by decide
  rw [hname] at hcause
  exact ⟨hcause.2.1, hcause.2.2.trans (by decide)⟩

end Refusals

end DsqlEmulator.Classify
