import DsqlEmulator.Classify.Classifier

/-! What `kindOf` and `statementTables` tell apart in a statement, and the relations
that the statements of a transaction name as their target. -/

namespace DsqlEmulator.Classify

open Proxy

inductive Statement : Type
  | insert (relation : Option String)
  | update (relation : Option String)
  | delete (relation : Option String)
  | merge (relation : Option String)
  | select
  | raise
  | begin
  | commit (chain : Bool)
  | rollback (chain : Bool)
  | savepoint (name : String)
  | release (name : String)
  | rollbackTo (name : String)
  | prepareTransaction
  | ddl
  | other
  deriving DecidableEq, Repr

def relationName : Option String → List String
  | none => []
  | some name => if name = "" then [] else [name]

namespace Statement

def statementTables : Statement → List String
  | .insert relation => relationName relation
  | .update relation => relationName relation
  | .delete relation => relationName relation
  | .merge relation => relationName relation
  | _ => []

def kindOf : Statement → Kind
  | .insert _ => .dml
  | .update _ => .dml
  | .delete _ => .dml
  | .merge _ => .dml
  | .select => .select
  | .raise => .select
  | .begin => .begin
  | .commit _ => .commit
  | .rollback _ => .rollback
  | .savepoint _ => .other
  | .release _ => .other
  | .rollbackTo _ => .other
  | .prepareTransaction => .other
  | .ddl => .ddl
  | .other => .other

def targets : Statement → List String
  | .insert relation => relationName relation
  | .update relation => relationName relation
  | .delete relation => relationName relation
  | _ => []

def isMerge : Statement → Bool
  | .merge _ => true
  | _ => false

def isCommit : Statement → Bool
  | .commit _ => true
  | _ => false

def ends : Statement → Bool
  | .commit _ => true
  | .rollback _ => true
  | _ => false

theorem targets_of_not_merge {s : Statement} (h : s.isMerge = false) :
    s.targets = s.statementTables := by
  cases s with
  | merge relation => cases h
  | _ => rfl

theorem ends_of_isCommit {s : Statement} (h : s.isCommit = true) : s.ends = true := by
  cases s with
  | commit chain => rfl
  | _ => cases h

theorem isCommit_iff {s : Statement} : s.isCommit = true ↔ ∃ chain, s = .commit chain := by
  cases s <;> simp [isCommit]

theorem endsTransaction_map (ss : List Statement) :
    Kind.endsTransaction (ss.map kindOf) = ss.any ends := by
  rw [Kind.endsTransaction, List.any_map]
  congr 1
  funext s
  cases s <;> rfl

theorem isCommit_map (ss : List Statement) : Kind.isCommit (ss.map kindOf) = ss.any isCommit := by
  rw [Kind.isCommit, List.any_map]
  congr 1
  funext s
  cases s <;> rfl

end Statement

/-- A dialect classifies what `parse` reads: a text it accepts has the kinds and the
tables of its statements, and it leaves alone only what does not parse. -/
structure Reads (D : Dialect) (parse : String → Option (List Statement)) : Prop where
  unparsed : ∀ async sql, D.classify async sql = .unparsed → parse sql = none
  accepted : ∀ async sql kinds tables, D.classify async sql = .accepted kinds tables →
    ∃ ss, parse sql = some ss ∧ kinds = ss.map Statement.kindOf ∧
      tables = ss.flatMap Statement.statementTables

section Classifier

variable {C : Classifier} {view : C.Node → Statement} {async : Bool}

theorem Classifier.statements_accepted (hkind : ∀ node, C.kindOf node = (view node).kindOf)
    (htables : ∀ node, C.statementTables node = (view node).statementTables) {nodes : List C.Node}
    {kinds kinds' : List Kind} {tables tables' : List String}
    (h : C.statements async nodes kinds tables = .accepted kinds' tables') :
    kinds' = kinds ++ (nodes.map view).map Statement.kindOf ∧
      tables' = tables ++ (nodes.map view).flatMap Statement.statementTables := by
  induction nodes generalizing kinds tables with
  | nil =>
    cases h
    simp
  | cons node nodes ih =>
    rw [Classifier.statements] at h
    split at h
    next => cases h
    next =>
      obtain ⟨h₁, h₂⟩ := ih h
      rw [h₁, h₂, hkind, htables]
      simp

theorem Classifier.statements_ne_unparsed (C : Classifier) {nodes : List C.Node} {kinds : List Kind}
    {tables : List String} : C.statements async nodes kinds tables ≠ .unparsed := by
  induction nodes generalizing kinds tables with
  | nil => simp [Classifier.statements]
  | cons node nodes ih =>
    rw [Classifier.statements]
    split
    · simp
    · exact ih

theorem Classifier.reads {D : Dialect} (hD : D.classify = C.classify)
    (hkind : ∀ node, C.kindOf node = (view node).kindOf)
    (htables : ∀ node, C.statementTables node = (view node).statementTables) :
    Reads D fun sql => (C.parse sql).map (List.map view) where
  unparsed async sql h := by
    rw [hD, Classifier.classify] at h
    split at h
    next hparse => simp [hparse]
    next nodes _ =>
      exact absurd h C.statements_ne_unparsed
  accepted async sql kinds tables h := by
    rw [hD, Classifier.classify] at h
    split at h
    next => cases h
    next nodes hparse =>
      obtain ⟨h₁, h₂⟩ := Classifier.statements_accepted hkind htables h
      exact ⟨nodes.map view, by simp [hparse], by simpa using h₁, by simpa using h₂⟩

end Classifier

def Statement.play (txn : Option (List String)) : Statement → Option (List String)
  | .begin => some (txn.getD [])
  | .commit chain => if chain then txn.map fun _ => [] else none
  | .rollback chain => if chain then txn.map fun _ => [] else none
  | s => txn.map (· ++ s.targets)

/-- The relations named as target since the `BEGIN` that opened the transaction, if
one is open. -/
def since (log : List Statement) : Option (List String) := log.foldl Statement.play none

theorem since_append (log ss : List Statement) :
    since (log ++ ss) = ss.foldl Statement.play (since log) :=
  List.foldl_append

def inside : Bool → List Statement → Bool
  | _, [] => true
  | opened, s :: ss => (opened || s.statementTables = []) && inside (opened || s = .begin) ss

section Plays

variable {txn : Option (List String)} {s : Statement} {ss : List Statement}

theorem Statement.play_isSome (h : s.ends = false) :
    (s.play txn).isSome = (txn.isSome || s = .begin) := by
  cases s with
  | commit chain => cases h
  | rollback chain => cases h
  | _ => cases txn <;> simp [Statement.play]

theorem Statement.play_ends (h : s.ends = true) : (s.play txn).getD [] = [] := by
  cases s with
  | commit chain => cases txn <;> cases chain <;> rfl
  | rollback chain => cases txn <;> cases chain <;> rfl
  | _ => cases h

theorem Statement.mem_play {t : String} (h : s.ends = false) (hm : s.isMerge = false)
    (hin : (txn.isSome || s.statementTables = []) = true) :
    t ∈ (s.play txn).getD [] ↔ t ∈ txn.getD [] ∨ t ∈ s.statementTables := by
  rw [← targets_of_not_merge hm] at hin ⊢
  cases s with
  | commit chain => cases h
  | rollback chain => cases h
  | begin => simp [Statement.play, Statement.targets]
  | _ =>
    cases txn with
    | none =>
      rw [Option.isSome_none, Bool.false_or, decide_eq_true_eq] at hin
      simp [Statement.play, hin]
    | some ts => simp [Statement.play]

theorem mem_plays {t : String} (hends : ∀ s ∈ ss, s.ends = false)
    (hmerge : ∀ s ∈ ss, s.isMerge = false) (hin : inside txn.isSome ss = true) :
    t ∈ (ss.foldl Statement.play txn).getD [] ↔ t ∈ txn.getD
      [] ∨ t ∈ ss.flatMap Statement.statementTables := by
  induction ss generalizing txn with
  | nil => simp
  | cons s ss ih =>
    rw [inside, Bool.and_eq_true] at hin
    have hs := hends s List.mem_cons_self
    have hopen : (s.play txn).isSome = (txn.isSome || s = .begin) := Statement.play_isSome hs
    have hrest := ih (fun x hx => hends x (List.mem_cons_of_mem s hx))
      (fun x hx => hmerge x (List.mem_cons_of_mem s hx)) (hopen ▸ hin.2)
    rw [List.foldl_cons, hrest, Statement.mem_play hs (hmerge s List.mem_cons_self) hin.1,
      List.flatMap_cons, List.mem_append, or_assoc]

end Plays

end DsqlEmulator.Classify
