import Mathlib.Data.List.Count
import DsqlEmulator.Occ.Params

/-! What a shadow keeps of the statement it stands for: which of its parts can still
take a lock or write, and whether it counts the rows the statement would report. -/

namespace DsqlEmulator.Occ

open Wire

structure Dml where
  tag : String
  relation : List Node
  extra : List Node
  whereClause : List Node
  withClause : List Node

def Node.dml (n : Node) : Option Dml :=
  match n.label with
  | .updateStmt =>
    some ⟨"UPDATE", n.get .relation, n.get .fromClause, n.get .whereClause, n.get .withClause⟩
  | .deleteStmt =>
    some ⟨"DELETE", n.get .relation, n.get .usingClause, n.get .whereClause, n.get .withClause⟩
  | _ => none

section Analyze

variable {G : Grammar} {n : Node} {i : Intent}

theorem countIntent_some {d : Dml}
    (h : countIntent G d.tag d.relation d.extra d.whereClause = some i) :
    ∃ rel, d.relation.head? = some rel ∧
      shadowIntent G d.tag (countTree rel d.extra d.whereClause) false = some i := by
  cases hrel : d.relation with
  | nil => rw [hrel] at h; cases h
  | cons rel _ => rw [hrel] at h; exact ⟨rel, rfl, h⟩

theorem analyzeNode_cases (h : analyzeNode G n = some i) :
    (∃ d rel, n.dml = some d ∧ d.relation.head? = some rel ∧
        shadowIntent G d.tag (countTree rel d.extra d.whereClause) false = some i) ∨
      (n.label = .selectStmt ∧
          shadowIntent G "SELECT" (.mk .selectStmt (n.fields.clear .lockingClause)) true = some i) ∨
      (n.label = .insertStmt ∧ ∃ values, (n.get .selectStmt).head? = some values ∧
          values.get .valuesLists ≠ [] ∧
        i = { tag := "INSERT", rows := (values.get .valuesLists).length }) := by
  rw [analyzeNode] at h
  cases hl : n.label with
  | updateStmt =>
    simp only [hl] at h
    split at h
    · cases h
    · obtain ⟨rel, hrel, h⟩ := countIntent_some (d := ⟨_, _, _, _, n.get .withClause⟩) h
      exact .inl ⟨_, rel, by rw [Node.dml, hl]; rfl, hrel, h⟩
  | deleteStmt =>
    simp only [hl] at h
    split at h
    · cases h
    · obtain ⟨rel, hrel, h⟩ := countIntent_some (d := ⟨_, _, _, _, n.get .withClause⟩) h
      exact .inl ⟨_, rel, by rw [Node.dml, hl]; rfl, hrel, h⟩
  | insertStmt =>
    simp only [hl] at h
    split at h
    · cases h
    · split at h
      · cases h
      · rename_i values _ hsel
        split at h
        · cases h
        · rename_i hv
          exact .inr
            (.inr ⟨rfl, values, by rw [hsel]; rfl, (not_or.1 hv).2, (Option.some.inj h).symm⟩)
  | selectStmt =>
    simp only [hl] at h
    split at h
    · cases h
    · exact .inr (.inl ⟨rfl, h⟩)
  | _ => simp only [hl] at h; cases h

theorem shadowIntent_some {tag : String} {rowset : Bool}
    (h : shadowIntent G tag n rowset = some i) :
    G.parse i.shadow = some [n.rename n.renumber] ∧ i.params = n.positions ∧ i.tag = tag ∧
      i.rowset = rowset := by
  obtain ⟨⟨t, ps⟩, hr, h⟩ := Option.bind_eq_some_iff.1 h
  obtain ⟨shadow, hd, h⟩ := Option.bind_eq_some_iff.1 h
  obtain rfl := Option.some.inj h
  obtain ⟨rfl, rfl⟩ : t = n.rename n.renumber ∧ ps = n.positions := by
    rw [renumberParams] at hr
    split at hr
    · cases hr
    · exact ⟨(congrArg Prod.fst (Option.some.inj hr)).symm,
        (congrArg Prod.snd (Option.some.inj hr)).symm⟩
  exact ⟨G.parse_deparse _ _ hd, rfl, rfl, rfl⟩

end Analyze

section Harmless

def Label.harmful : Label → Bool
  | .lockingClause | .insertStmt | .updateStmt | .deleteStmt | .mergeStmt => true
  | _ => false

mutual

def Node.harmless : Node → Bool
  | .mk label fields => !label.harmful && fields.harmless

def Fields.harmless : Fields → Bool
  | .nil => true
  | .cons _ n rest => n.harmless && rest.harmless

end

variable {ρ : Int → Int}

theorem Label.harmful_rename (l : Label) : (l.rename ρ).harmful = l.harmful := by
  cases l <;> rfl

mutual

theorem Node.harmless_rename : ∀ n : Node, (n.rename ρ).harmless = n.harmless
  | .mk label fields => by
    rw [Node.rename, Node.harmless, Node.harmless, label.harmful_rename,
      Fields.harmless_rename fields]

theorem Fields.harmless_rename : ∀ fs : Fields, (fs.rename ρ).harmless = fs.harmless
  | .nil => rfl
  | .cons f n rest => by
    rw [Fields.rename, Fields.harmless, Fields.harmless, Node.harmless_rename n,
      Fields.harmless_rename rest]

end

theorem Fields.harmless_iff : ∀ fs : Fields, fs.harmless = true ↔ ∀ n ∈ fs.nodes, n.harmless = true
  | .nil => by simp [harmless, nodes]
  | .cons f n rest => by
    rw [harmless, Bool.and_eq_true, nodes, List.forall_mem_cons, harmless_iff rest]

theorem Fields.nodes_ofList (l : List (Field × Node)) : (ofList l).nodes = l.map Prod.snd := by
  induction l with
  | nil => rfl
  | cons p l ih => rw [ofList, nodes, ih, List.map_cons]

def Node.kept (n : Node) : List Node :=
  match n.dml with
  | some d => d.relation.head?.toList ++ d.extra ++ d.whereClause
  | none => (n.fields.clear .lockingClause).nodes

theorem Node.harmless_select (fs : Fields) :
    (mk .selectStmt fs).harmless = true ↔ ∀ c ∈ fs.nodes, c.harmless = true := by
  have hs : Label.selectStmt.harmful = false := rfl
  rw [harmless, hs, Bool.not_false, Bool.true_and, Fields.harmless_iff]

theorem countTree_harmless {rel : Node} {extra whereClause : List Node} :
    (countTree rel extra whereClause).harmless = true ↔
      ∀ c ∈ rel :: extra ++ whereClause, c.harmless = true := by
  have hcount : (resTarget countStar).harmless = true := by decide
  rw [countTree, Node.harmless_select, Fields.nodes_ofList, List.map_cons, List.forall_mem_cons,
    List.map_append, List.map_map, List.map_map]
  simp only [hcount, true_and, Function.comp_def, List.map_id', List.cons_append]

/-- A shadow locks nothing and writes nothing just when no part that it keeps of the
statement does. -/
theorem shadow_harmless_iff {G : Grammar} {sql : String} {i : Intent} (h : analyze G sql = some i)
    (hs : i.shadow ≠ "") :
    ∃ n t, G.parse sql = some [n] ∧ G.parse i.shadow = some [t] ∧
      (t.harmless = true ↔ ∀ c ∈ n.kept, c.harmless = true) := by
  rw [analyze] at h
  split at h
  · rename_i n hn
    obtain ⟨d, rel, hd, hrel, hi⟩ | ⟨hl, hi⟩ | ⟨_, _, _, _, rfl⟩ := analyzeNode_cases h
    · refine ⟨n, _, hn, (shadowIntent_some hi).1, ?_⟩
      rw [Node.harmless_rename, countTree_harmless, Node.kept, hd]
      simp only [hrel, Option.toList_some, List.cons_append, List.nil_append]
    · refine ⟨n, _, hn, (shadowIntent_some hi).1, ?_⟩
      have hd : n.dml = none := by rw [Node.dml, hl]
      rw [Node.harmless_rename, Node.harmless_select, Node.kept, hd]
    · exact absurd rfl hs
  · cases h

def Node.sampleUpdate (fields : List (Field × Node)) : Node :=
  .mk .updateStmt (.ofList ((.relation, .mk (.other "RangeVar jobs") .nil) ::
    (.targetList, .mk (.other "ResTarget state")
      (.ofList [(.val, .mk (.other "A_Const 'running'") .nil)])) :: fields))

def Node.sampleQueue : Node :=
  .mk (.other "SubLink id = ANY") (.ofList [(.other "subselect", .mk .selectStmt (.ofList
    [(.targetList, .mk (.other "ResTarget id") .nil),
      (.fromClause, .mk (.other "RangeVar jobs") .nil),
      (.lockingClause, .mk .lockingClause .nil)]))])

def Node.sampleEquals : Node := .mk (.other "A_Expr id = 1") .nil

def Grammar.sample (sql : String) (statement : Node) (text : String) (shadow : Node) : Grammar where
  parse s := if s = text then some [shadow] else if s = sql then some [statement] else none
  deparse n := if n = shadow then some text else none
  parse_deparse n s h := by
    split at h
    · rename_i hn
      cases h
      rw [if_pos rfl, hn]
    · cases h

theorem shadow_harmless_iff_key :
    let shadow := countTree (.mk (.other "RangeVar jobs") .nil) [] [Node.sampleEquals]
    let G := Grammar.sample "UPDATE jobs SET state = 'running' WHERE id = 1"
      (.sampleUpdate [(.whereClause, .sampleEquals)])
      "SELECT count(*) FROM jobs WHERE id = 1" shadow
    ∃ n t, G.parse "UPDATE jobs SET state = 'running' WHERE id = 1" = some [n] ∧
      G.parse "SELECT count(*) FROM jobs WHERE id = 1" = some [t] ∧
      (t.harmless = true ↔ ∀ c ∈ n.kept, c.harmless = true) := by
  intro shadow G
  have h : analyze G "UPDATE jobs SET state = 'running' WHERE id = 1" =
      some { tag := "UPDATE", rows := -1, shadow := "SELECT count(*) FROM jobs WHERE id = 1" } := by
        decide +kernel
  exact shadow_harmless_iff h (by decide)

/-- The shadow of an UPDATE that takes jobs from a queue locks them. -/
theorem shadow_harmless_queue :
    let sql :=
      "UPDATE jobs SET state = 'running' WHERE id IN (SELECT id FROM jobs FOR UPDATE SKIP LOCKED)"
    let shadow := countTree (.mk (.other "RangeVar jobs") .nil) [] [Node.sampleQueue]
    let G := Grammar.sample sql (.sampleUpdate [(.whereClause, .sampleQueue)])
      "SELECT count(*) FROM jobs WHERE id IN (SELECT id FROM jobs FOR UPDATE SKIP LOCKED)" shadow
    ∃ i, analyze G sql = some i ∧ i.shadow ≠ "" ∧ G.parse i.shadow = some [shadow] ∧
        shadow.harmless = false := by
  refine ⟨{ tag := "UPDATE", rows := -1,
            shadow :=
              "SELECT count(*) FROM jobs WHERE id IN (SELECT id FROM jobs FOR UPDATE SKIP LOCKED)" }, ?_⟩
  decide +kernel

end Harmless

end DsqlEmulator.Occ
