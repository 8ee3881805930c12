import DsqlEmulator.Occ.Shadow

/-! The number a shadow counts against the number the statement would have reported.
An UPDATE or DELETE reports the rows of its target that some combination of the other
relations goes with; the shadow counts the combinations. -/

namespace DsqlEmulator.Occ

section Counting

variable {α γ : Type*} {c : α → List γ}

theorem countP_ne_nil_le (l : List α) :
    l.countP (fun a => !(c a).isEmpty) ≤ (l.flatMap c).length := by
  induction l with
  | nil => exact Nat.le_refl 0
  | cons a l ih =>
    rw [List.countP_cons, List.flatMap_cons, List.length_append]
    cases hc : c a with
    | nil => simpa [hc] using ih
    | cons x xs => simp only [List.isEmpty_cons, Bool.not_false, if_true, List.length_cons]; omega

theorem length_flatMap_eq_countP_iff (l : List α) :
    (l.flatMap c).length = l.countP (fun a => !(c a).isEmpty) ↔ ∀ a ∈ l, (c a).length ≤ 1 := by
  induction l with
  | nil => simp
  | cons a l ih =>
    have hle := countP_ne_nil_le (c := c) l
    rw [List.countP_cons, List.flatMap_cons, List.length_append, List.forall_mem_cons, ← ih]
    cases hc : c a with
    | nil => simp
    | cons x xs => simp only [List.isEmpty_cons, Bool.not_false, if_true, List.length_cons]; omega

end Counting

structure Snapshot (β : Type*) extends Semantics β where
  Row : Type
  rows : β → List Row
  /-- The combinations of rows of a FROM or USING list, in the scope of a WITH clause. -/
  joins : List β → List β → List (List Row)
  /-- Whether a WHERE clause holds of a row and a combination, in the scope of a WITH clause. -/
  holds : List β → List β → Row → List Row → Bool
  /-- The number a LIMIT or OFFSET stands for, if it is not null. -/
  number : β → Option Nat
  /-- How many rows of a VALUES clause tie with the last of the first ones, in its order. -/
  ties : β → Nat → Nat
  joins_nil : ∀ scope, joins scope [] = [[]]

section Meaning

variable {β : Type*} (S : Snapshot β) (env : Int → Option Bound)

def Snapshot.all (ns : List Node) : List β := ns.map (Node.eval S.toSemantics env)

def Snapshot.matched (scope extra whereClause : List β) (r : S.Row) : List (List S.Row) :=
  (S.joins scope extra).filter (S.holds scope whereClause r)

def Node.counted (t : Node) : Nat :=
  match S.all env (t.get .fromClause) with
  | [] => 1
  | rel :: extra =>
    ((S.rows rel).flatMap
      (S.matched (S.all env (t.get .withClause)) extra (S.all env (t.get .whereClause)))).length

def Dml.matched (d : Dml) : S.Row → List (List S.Row) :=
  S.matched (S.all env d.withClause) (S.all env d.extra) (S.all env d.whereClause)

def Dml.target (d : Dml) : List S.Row :=
  (d.relation.head?.map fun rel => S.rows (rel.eval S.toSemantics env)).getD []

def Dml.reported (d : Dml) : Nat :=
  (d.target S env).countP fun r => !(d.matched S env r).isEmpty

def Dml.Single (d : Dml) : Prop :=
  ∀ r ∈ d.target S env, (d.matched S env r).length ≤ 1

def Dml.Unscoped (d : Dml) : Prop :=
  ∀ r ∈ d.target S env, d.matched S env r = S.matched [] (S.all env d.extra)
    (S.all env d.whereClause) r

def Node.limit (values : Node) : Option Nat :=
  ((S.all env (values.get .limitCount)).head?.bind S.number).map fun limit =>
    if values.get .limitOption = [] ∨ limit = 0 then limit
    else limit + S.ties (values.eval S.toSemantics env) limit

/-- The number of rows left of `k` by the LIMIT and OFFSET of a VALUES clause. -/
def Node.inserted (values : Node) (k : Nat) : Nat :=
  let skip := ((S.all env (values.get .limitOffset)).head?.bind S.number).getD 0
  match values.limit S env with
  | none => k - skip
  | some limit => min limit (k - skip)

def Node.Uncut (values : Node) (k : Nat) : Prop :=
  (∀ skip, (S.all env (values.get .limitOffset)).head?.bind S.number = some skip → skip = 0) ∧
    ∀ limit, values.limit S env = some limit → k ≤ limit

theorem Node.inserted_eq_iff (values : Node) {k : Nat} (hk : k ≠ 0) :
    values.inserted S env k = k ↔ values.Uncut S env k := by
  rw [inserted, Uncut]
  cases (S.all env (values.get .limitOffset)).head?.bind S.number <;> cases values.limit S env <;>
    simp <;> omega

end Meaning

section Renamed

variable {ρ : Int → Int}

theorem Fields.get_rename (f : Field) (fs : Fields) :
    (fs.rename ρ).get f = (fs.get f).map (Node.rename ρ) := by
  fun_induction fs.get f with
  | case1 => rfl
  | case2 n rest ih => rw [rename, get, if_pos rfl, ih, List.map_cons]
  | case3 g n rest hg ih => rw [rename, get, if_neg hg, ih]

theorem Node.get_rename (n : Node) (f : Field) :
    (n.rename ρ).get f = (n.get f).map (Node.rename ρ) := by
  cases n with
  | mk label fields => exact Fields.get_rename f fields

theorem Fields.refs_get {f : Field} {c : Node} : ∀ {fs : Fields}, c ∈ fs.get f → c.refs ⊆ fs.refs
  | .nil, h => absurd h List.not_mem_nil
  | .cons g n rest, h => by
    rw [refs]
    rw [get] at h
    split at h
    · obtain rfl | h := List.mem_cons.1 h
      · exact List.subset_append_left _ _
      · exact List.Subset.trans (refs_get h) (List.subset_append_right _ _)
    · exact List.Subset.trans (refs_get h) (List.subset_append_right _ _)

theorem Node.refs_get {n : Node} {f : Field} {c : Node} (h : c ∈ n.get f) : c.refs ⊆ n.refs := by
  cases n with
  | mk label fields => exact List.Subset.trans (Fields.refs_get h) (List.subset_append_right _ _)

theorem Fields.get_append (f : Field) (l l' : List (Field × Node)) :
    (ofList (l ++ l')).get f = (ofList l).get f ++ (ofList l').get f := by
  induction l with
  | nil => rfl
  | cons p l ih =>
    rw [List.cons_append, ofList, ofList, get, get, ih]
    split <;> rfl

theorem Fields.get_map (f g : Field) (ns : List Node) :
    (ofList (ns.map (Prod.mk g))).get f = if g = f then ns else [] := by
  induction ns with
  | nil => split <;> rfl
  | cons n ns ih =>
    rw [List.map_cons, ofList, get, ih]
    split <;> rfl

theorem countTree_get {rel : Node} {extra whereClause : List Node} {f : Field}
    (hf : f ≠ .targetList) : (countTree rel extra whereClause).get f =
      (if Field.fromClause = f then rel :: extra else []) ++ if Field.whereClause =
        f then whereClause else [] := by
  rw [countTree, Node.get, Node.fields, Fields.ofList, Fields.get, if_neg (Ne.symm hf),
    Fields.get_append, Fields.get_map, Fields.get_map]

theorem Snapshot.all_renumbered {β : Type*} (S : Snapshot β) {n : Node} {i : Intent}
    (hi : i.params = n.positions) {f : InFlight} (hf : f.intent = i) (hc : f.Coded)
    {vs : List (Option String)} {fs : List Int} (h : f.shadowParams = some (vs, fs))
    (field : Field) :
    S.all (bound vs fs) ((n.rename n.renumber).get field) = S.all (bound f.params f.paramFormats)
      (n.get field) := by
  rw [all, all, Node.get_rename, List.map_map]
  apply List.map_congr_left
  intro c hmem
  apply Node.eval_rename
  intro k hk
  rw [Node.renumber, ← hi, ← hf]
  exact f.bound_shadowParams hc h
    (by rw [hf, hi]; exact Node.mem_positions.2 (Node.refs_get hmem hk))

end Renamed

section Shadow

variable {β : Type*} {rel : Node} {d : Dml}

theorem Dml.unscoped_of_nil (S : Snapshot β) (env : Int → Option Bound) (hw : d.withClause = []) :
    d.Unscoped S env := by
  intro r _
  rw [Dml.matched, hw]
  rfl

theorem counted_renumbered (S : Snapshot β) (hrel : d.relation.head? = some rel) {i : Intent}
    (hi : i.params = (countTree rel d.extra d.whereClause).positions) {f : InFlight}
    (hf : f.intent = i) (hc : f.Coded) {vs : List (Option String)} {fs : List Int}
    (h : f.shadowParams = some (vs, fs)) (hw : d.Unscoped S (bound f.params f.paramFormats)) :
    let tree := countTree rel d.extra d.whereClause
    (tree.rename tree.renumber).counted S (bound vs fs) =
      ((d.target S (bound f.params f.paramFormats)).flatMap
          (d.matched S (bound f.params f.paramFormats))).length := by
  intro tree
  have hfrom : tree.get .fromClause = rel :: d.extra := by rw [countTree_get] <;> simp
  have hwhere : tree.get .whereClause = d.whereClause := by rw [countTree_get] <;> simp
  have hwith : tree.get .withClause = [] := by rw [countTree_get] <;> simp
  rw [Node.counted, S.all_renumbered hi hf hc h, S.all_renumbered hi hf hc h,
    S.all_renumbered hi hf hc h, hfrom, hwhere, hwith, List.flatMap_congr hw, Dml.target, hrel]
  rfl

def Snapshot.scoped : Snapshot Unit where
  param _ _ := ()
  node _ _ := ()
  Row := Unit
  rows _ := [()]
  joins _ _ := [[]]
  holds scope _ _ _ := !scope.isEmpty
  number _ := none
  ties _ _ := 0
  joins_nil _ := rfl

theorem Snapshot.scoped_counted (t : Node) (env : Int → Option Bound)
    (hfrom : t.get .fromClause ≠ []) (hw : t.get .withClause = []) : t.counted .scoped env = 0 := by
  obtain ⟨rel, extra, h⟩ := List.exists_cons_of_ne_nil hfrom
  rw [Node.counted, h, hw]
  rfl

theorem Snapshot.scoped_reported (env : Int → Option Bound) (hrel : d.relation.head? = some rel)
    (hw : d.withClause ≠ []) : d.Single .scoped env ∧ d.reported .scoped env = 1 := by
  obtain ⟨w, ws, h⟩ := List.exists_cons_of_ne_nil hw
  rw [Dml.Single, Dml.reported, Dml.target, hrel, Dml.matched, h]
  exact ⟨fun _ _ => Nat.le_refl 1, rfl⟩

theorem shadow_counts_iff.{u} {G : Grammar} {sql : String} {n : Node} {i : Intent}
    (hn : G.parse sql = some [n]) (h : analyze G sql = some i) :
    (∀ d, n.dml = some d → ∃ t, G.parse i.shadow = some [t] ∧
      (∀ (β : Type u) (S : Snapshot β) (f : InFlight), f.intent = i → f.Coded →
        ∀ vs fs, f.shadowParams = some (vs, fs) → d.Unscoped S (bound f.params f.paramFormats) →
          (t.counted S (bound vs fs) = d.reported S (bound f.params f.paramFormats) ↔
            d.Single S (bound f.params f.paramFormats))) ∧
      (d.withClause ≠ [] → ∃ S : Snapshot Unit, ∀ env env',
        d.Single S env ∧ t.counted S env' ≠ d.reported S env)) ∧
    (n.label = .insertStmt → ∃ values, (n.get .selectStmt).head? = some values ∧
      ∀ (β : Type u) (S : Snapshot β) env, i.rows =
        values.inserted S env (values.get .valuesLists).length ↔
        values.Uncut S env (values.get .valuesLists).length) := by
  rw [analyze, hn] at h
  obtain ⟨d, rel, hd, hrel, hi⟩ | ⟨hl, _⟩ | ⟨hl, values, hv, hne, rfl⟩ := analyzeNode_cases h
  · obtain ⟨hparse, hparams, _⟩ := shadowIntent_some hi
    constructor
    · intro d' hd'
      obtain rfl : d = d' := Option.some.inj (hd.symm.trans hd')
      refine ⟨_, hparse, fun β S f hf hc vs fs hsp hw => ?_, fun hw =>
        ⟨.scoped, fun env env' => ?_⟩⟩
      · rw [counted_renumbered S hrel hparams hf hc hsp hw]
        exact length_flatMap_eq_countP_iff _
      · obtain ⟨hsingle, hone⟩ := Snapshot.scoped_reported env hrel hw
        refine ⟨hsingle, ?_⟩
        rw [hone, Snapshot.scoped_counted]
        · exact Nat.zero_ne_one
        · rw [Node.get_rename, countTree_get (by simp)]
          simp
        · rw [Node.get_rename, countTree_get (by simp)]
          rfl
    · intro hl
      rw [Node.dml, hl] at hd
      cases hd
  · refine ⟨fun d hd => ?_, fun hl' => ?_⟩
    · rw [Node.dml, hl] at hd
      cases hd
    · rw [hl] at hl'
      cases hl'
  · refine ⟨fun d hd => ?_, fun _ => ⟨values, hv, fun β S env => ?_⟩⟩
    · rw [Node.dml, hl] at hd
      cases hd
    · rw [← Node.inserted_eq_iff S env values (mt List.length_eq_zero_iff.1 hne), eq_comm,
        Int.natCast_inj]

def Snapshot.tagged : Snapshot Unit where
  param _ _ := ()
  node _ _ := ()
  Row := Nat
  rows _ := [1]
  joins _ extra := if extra.isEmpty then [[]] else [[10], [11]]
  holds _ _ _ _ := true
  number _ := none
  ties _ _ := 0
  joins_nil _ := rfl

theorem shadow_counts_iff_key :
    let shadow := countTree (.mk (.other "RangeVar jobs") .nil) [] [Node.sampleEquals]
    let statement := Node.sampleUpdate [(.whereClause, .sampleEquals)]
    let G := Grammar.sample "UPDATE jobs SET state = 'running' WHERE id = 1" statement
      "SELECT count(*) FROM jobs WHERE id = 1" shadow
    ∃ d t, statement.dml = some d ∧ G.parse "SELECT count(*) FROM jobs WHERE id = 1" = some [t] ∧
      (t.counted .tagged (bound [] []) = d.reported .tagged (bound [] []) ↔
          d.Single .tagged (bound [] [])) := by
  intro shadow statement G
  have hn : G.parse "UPDATE jobs SET state = 'running' WHERE id = 1" = some [statement] := by
    decide +kernel
  have h : analyze G "UPDATE jobs SET state = 'running' WHERE id = 1" =
      some { tag := "UPDATE", rows := -1, shadow := "SELECT count(*) FROM jobs WHERE id = 1" } := by
        decide +kernel
  obtain ⟨t, ht, hone, _⟩ := (shadow_counts_iff.{0} hn h).1 _ rfl
  exact ⟨_, t, rfl, ht, hone Unit .tagged ⟨0, _, false, [], [], []⟩ rfl (.inl rfl) [] [] rfl
    (Dml.unscoped_of_nil .tagged _ rfl)⟩

/-- The shadow of an UPDATE of the one job that joins it with its two tags counts 2, and the
UPDATE would report 1. -/
theorem shadow_counts_joined :
    let tags := Node.mk (.other "RangeVar tags") .nil
    let shadow := countTree (.mk (.other "RangeVar jobs") .nil) [tags] [.sampleEquals]
    let statement := Node.sampleUpdate [(.fromClause, tags), (.whereClause, .sampleEquals)]
    let G := Grammar.sample "UPDATE jobs SET state = 'running' FROM tags WHERE id = 1" statement
      "SELECT count(*) FROM jobs, tags WHERE id = 1" shadow
    analyze G "UPDATE jobs SET state = 'running' FROM tags WHERE id = 1" =
        some { tag := "UPDATE", rows := -1,
               shadow := "SELECT count(*) FROM jobs, tags WHERE id = 1" } ∧
      G.parse "SELECT count(*) FROM jobs, tags WHERE id = 1" = some [shadow] ∧
      shadow.counted .tagged (bound [] []) = 2 ∧
      statement.dml.map (·.reported .tagged (bound [] [])) = some 1 := by
  decide +kernel

end Shadow

end DsqlEmulator.Occ
