import Mathlib.Data.List.Basic

namespace DsqlEmulator

/-- The category of a statement, used to enforce transaction rules. -/
inductive Kind : Type
  | other | select | dml | ddl | begin | commit | rollback
  deriving DecidableEq, Repr

namespace Kind

def endsTransaction (kinds : List Kind) : Bool :=
  kinds.any fun k => k = .commit ∨ k = .rollback

def isCommit (kinds : List Kind) : Bool :=
  kinds.any fun k => k = .commit

end Kind

namespace Txn

structure Violation where
  code : String
  rule : String
  message : String
  deriving DecidableEq, Repr

def codeFeatureUnsupported : String := "0A000"
def codeProgramLimit : String := "54000"

def durationString (sec : Nat) : String :=
  if sec ≥ 3600 then s!"{sec / 3600}h{sec / 60 % 60}m{sec % 60}s"
  else if sec ≥ 60 then s!"{sec / 60}m{sec % 60}s"
  else s!"{sec}s"

/-- Transaction state of one session.  `maxAge` is in seconds, as the ruleset
gives it; instants are in nanoseconds, and `beganAt` is `none` for the zero time. -/
structure Tracker where
  maxAge : Nat
  inTxn : Bool := false
  beganAt : Option Nat := none
  ddlCount : Nat := 0
  dmlSeen : Bool := false
  deriving DecidableEq, Repr

def Tracker.reset (t : Tracker) : Tracker := { t with ddlCount := 0, dmlSeen := false }

def Tracker.tooOld (t : Tracker) (now : Nat) : Bool :=
  match t.beganAt with
  | none => false
  | some b => 0 < t.maxAge && t.maxAge * 1000000000 < now - b

def ageViolation (t : Tracker) : Violation :=
  ⟨codeProgramLimit, "txn_age", s!"transaction age of {durationString t.maxAge} exceeded"⟩

def ddlCountViolation : Violation :=
  ⟨codeFeatureUnsupported, "ddl_count", "multiple ddl statements not supported in a transaction"⟩

def mixViolation : Violation :=
  ⟨codeFeatureUnsupported, "ddl_dml_mix", "ddl and dml are not supported in the same transaction"⟩

def check : List Kind → Nat → Bool → Option Violation
  | [], _, _ => none
  | .begin :: ks, _, _ => check ks 0 false
  | .commit :: ks, _, _ => check ks 0 false
  | .rollback :: ks, _, _ => check ks 0 false
  | .ddl :: ks, ddl, dml =>
    if 1 ≤ ddl then some ddlCountViolation
    else if dml then some mixViolation
    else check ks (ddl + 1) dml
  | .dml :: ks, ddl, _ => if 0 < ddl then some mixViolation else check ks ddl true
  | .select :: ks, ddl, dml => check ks ddl dml
  | .other :: ks, ddl, dml => check ks ddl dml

def Tracker.record (now : Nat) (t : Tracker) : Kind → Tracker
  | .begin => { t with inTxn := true, beganAt := some now, ddlCount := 0, dmlSeen := false }
  | .commit => { t with inTxn := false }.reset
  | .rollback => { t with inTxn := false }.reset
  | .ddl => { t with ddlCount := t.ddlCount + 1 }
  | .dml => { t with dmlSeen := true }
  | .select => t
  | .other => t

/-- Decides whether a batch may run, then records it.  A refused batch changes
nothing but the counters of a session that is in no transaction. -/
def Tracker.admitKinds (t : Tracker) (kinds : List Kind) (now : Nat) : Tracker × Option Violation :=
  let t := if t.inTxn then t else t.reset
  if !kinds.contains .rollback && t.inTxn && t.tooOld now then (t, some (ageViolation t))
  else match check kinds t.ddlCount t.dmlSeen with
    | some v => (t, some v)
    | none => (kinds.foldl (Tracker.record now) t, none)

def Tracker.fresh (t : Tracker) : Tracker := if t.inTxn then t else t.reset

def Tracker.Admits (t : Tracker) (kinds : List Kind) (now : Nat) : Prop :=
  (!kinds.contains .rollback && t.fresh.inTxn && t.fresh.tooOld now) = false ∧
    check kinds t.fresh.ddlCount t.fresh.dmlSeen = none

theorem Tracker.admitKinds_eq (t : Tracker) (kinds : List Kind) (now : Nat) :
    t.admitKinds kinds now =
    if !kinds.contains .rollback && t.fresh.inTxn && t.fresh.tooOld now then (t.fresh,
        some (ageViolation t.fresh)) else match check kinds t.fresh.ddlCount t.fresh.dmlSeen with
      | some v => (t.fresh, some v)
      | none => (kinds.foldl (Tracker.record now) t.fresh, none) := rfl

theorem Tracker.admitKinds_cases (t : Tracker) (kinds : List Kind) (now : Nat) :
    (∃ v, t.admitKinds kinds now = (t.fresh, some v)) ∨
      t.Admits kinds now ∧ t.admitKinds kinds now = (kinds.foldl (Tracker.record now) t.fresh,
          none) := by
  rw [t.admitKinds_eq]
  split
  · exact .inl ⟨_, rfl⟩
  · rename_i hage
    split
    · exact .inl ⟨_, rfl⟩
    · rename_i hcheck
      exact .inr ⟨⟨by simpa using hage, hcheck⟩, rfl⟩

@[simp] theorem Tracker.admitKinds_rollback (t : Tracker) (now : Nat) :
    t.admitKinds [.rollback] now = ([Kind.rollback].foldl (Tracker.record now) t.fresh, none) := by
  simp [Tracker.admitKinds, Tracker.fresh, check]

end Txn

end DsqlEmulator
