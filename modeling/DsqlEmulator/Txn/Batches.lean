import DsqlEmulator.Txn.Boundaries

/-! How a client groups its statements into batches.  The pass of `Admit` that looks
for a violation and the pass that records a batch keep the same counters, so inside a
transaction a batch may be cut in two, and a batch that is refused leaves no trace. -/

namespace DsqlEmulator.Txn

namespace Tracker

theorem check_append (now : Nat) (b₁ b₂ : List Kind) (t : Tracker) :
    check (b₁ ++ b₂) t.ddlCount t.dmlSeen =
      (check b₁ t.ddlCount t.dmlSeen).or
        (check b₂ (b₁.foldl (record now) t).ddlCount (b₁.foldl (record now) t).dmlSeen) := by
  induction b₁ generalizing t with
  | nil => rfl
  | cons k ks ih =>
    cases k with
    | ddl =>
      simp only [List.cons_append, check, List.foldl_cons]
      split
      · rfl
      · split
        · rfl
        · exact ih (t.record now .ddl)
    | dml =>
      simp only [List.cons_append, check, List.foldl_cons]
      split
      · rfl
      · exact ih (t.record now .dml)
    | begin => exact ih (t.record now .begin)
    | commit => exact ih (t.record now .commit)
    | rollback => exact ih (t.record now .rollback)
    | select => exact ih (t.record now .select)
    | other => exact ih (t.record now .other)

def Young (t : Tracker) (now : Nat) : Prop := t.inTxn = true → t.tooOld now = false

instance (t : Tracker) (now : Nat) : Decidable (t.Young now) := inferInstanceAs (Decidable (_ → _))

theorem Young.record {t : Tracker} {now : Nat} (h : t.Young now) (k : Kind) :
    (t.record now k).Young now := by
  cases k with
  | begin =>
    intro _
    simp [Tracker.record, tooOld]
  | commit => exact fun hin => by cases hin
  | rollback => exact fun hin => by cases hin
  | _ => exact h

theorem Young.foldl {t : Tracker} {now : Nat} (h : t.Young now) (ks : List Kind) :
    (ks.foldl (Tracker.record now) t).Young now := by
  induction ks generalizing t with
  | nil => exact h
  | cons k ks ih => exact ih (h.record k)

theorem Young.fresh {t : Tracker} {now : Nat} (h : t.Young now) : t.fresh.Young now := by
  unfold Tracker.fresh
  split
  · exact h
  · exact h

theorem fresh_of_inTxn {t : Tracker} (h : t.inTxn = true) : t.fresh = t := by simp [fresh, h]

@[simp] theorem fresh_inTxn (t : Tracker) : t.fresh.inTxn = t.inTxn := by
  unfold fresh
  split <;> rfl

theorem Young.admitKinds {t : Tracker} {now : Nat} (h : t.Young now) (ks : List Kind) :
    t.admitKinds ks now = match check ks t.fresh.ddlCount t.fresh.dmlSeen with
      | some v => (t.fresh, some v)
      | none => (ks.foldl (Tracker.record now) t.fresh, none) := by
  have hyoung : (!ks.contains .rollback && t.fresh.inTxn && t.fresh.tooOld now) = false := by
    cases hin : t.fresh.inTxn with
    | false => simp
    | true => simp [h.fresh hin]
  rw [t.admitKinds_eq, hyoung]
  rfl

theorem admitKinds_fresh (t : Tracker) (ks : List Kind) (now : Nat) :
    t.fresh.admitKinds ks now = t.admitKinds ks now := by
  rw [admitKinds_eq, fresh_fresh, t.admitKinds_eq]

def verdicts (t : Tracker) : List Batch → List (Option Violation × Bool)
  | [] => []
  | b :: bs =>
    let (t, violation) := t.admitKinds b.kinds b.now
    (violation, t.inTxn) :: t.verdicts bs

theorem verdicts_fresh (t : Tracker) (bs : List Batch) : t.fresh.verdicts bs = t.verdicts bs := by
  cases bs with
  | nil => rfl
  | cons b bs => simp only [verdicts, admitKinds_fresh]

end Tracker

/-- Inside a transaction that is within its age, a batch is admitted as a whole if and
only if it is when it is cut in two, and is recorded alike; and a batch that is refused
changes neither the verdicts on what follows nor whether a transaction is open. -/
theorem batches_split (t : Tracker) (now : Nat) (b₁ b₂ : List Kind)
    (hyoung : t.inTxn = true → t.tooOld now = false)
    (hopen : (t.admitKinds b₁ now).2 = none → (t.admitKinds b₁ now).1.inTxn = true) :
    ((t.admitKinds (b₁ ++ b₂) now).2 = none ↔
      (t.admitKinds b₁ now).2 = none ∧ ((t.admitKinds b₁ now).1.admitKinds b₂ now).2 = none) ∧
    ((t.admitKinds (b₁ ++ b₂) now).2 = none →
      (t.admitKinds (b₁ ++ b₂) now).1 = ((t.admitKinds b₁ now).1.admitKinds b₂ now).1) ∧
    ∀ (t : Tracker) (b : Batch), (t.admitKinds b.kinds b.now).2 ≠ none →
      (t.admitKinds b.kinds b.now).1.inTxn = t.inTxn ∧
        ∀ bs, (t.admitKinds b.kinds b.now).1.verdicts bs = t.verdicts bs := by
  have hy : t.Young now := hyoung
  have hrefused (t : Tracker) (b : Batch) (hb : (t.admitKinds b.kinds b.now).2 ≠ none) :
      (t.admitKinds b.kinds b.now).1 = t.fresh := by
    rcases t.admitKinds_cases b.kinds b.now with ⟨v, h⟩ | ⟨-, h⟩
    · rw [h]
    · rw [h] at hb
      exact absurd rfl hb
  have hsplit := Tracker.check_append now b₁ b₂ t.fresh
  rw [hy.admitKinds b₁] at hopen ⊢
  rw [hy.admitKinds (b₁ ++ b₂), hsplit]
  refine ⟨?_, ?_, fun t b hb => ?_⟩
  · cases h₁ : check b₁ t.fresh.ddlCount t.fresh.dmlSeen with
    | some v => simp
    | none =>
      rw [h₁] at hopen
      have hin := hopen rfl
      have hfresh := Tracker.fresh_of_inTxn hin
      simp only [Option.none_or]
      rw [(hy.fresh.foldl b₁).admitKinds b₂, hfresh]
      cases check b₂ (b₁.foldl (Tracker.record now) t.fresh).ddlCount
        (b₁.foldl (Tracker.record now) t.fresh).dmlSeen <;> simp
  · intro hadmitted
    cases h₁ : check b₁ t.fresh.ddlCount t.fresh.dmlSeen with
    | some v => simp [h₁] at hadmitted
    | none =>
      rw [h₁] at hopen hadmitted
      have hin := hopen rfl
      have hfresh := Tracker.fresh_of_inTxn hin
      simp only [Option.none_or] at hadmitted ⊢
      rw [(hy.fresh.foldl b₁).admitKinds b₂, hfresh]
      cases h₂ : check b₂ (b₁.foldl (Tracker.record now) t.fresh).ddlCount
          (b₁.foldl (Tracker.record now) t.fresh).dmlSeen with
      | some v => simp [h₂] at hadmitted
      | none => simp [List.foldl_append]
  · rw [hrefused t b hb]
    exact ⟨t.fresh_inTxn, t.verdicts_fresh⟩

theorem batches_split_begin :
    let t : Tracker := { maxAge := 300 }
    let b₁ : List Kind := [.begin, .dml]
    (t.admitKinds b₁ 0).1.inTxn = true ∧
      (t.admitKinds (b₁ ++ [.select, .dml]) 0).1 =
          ((t.admitKinds b₁ 0).1.admitKinds [.select, .dml] 0).1 := by
  intro t b₁
  have h := batches_split t 0 b₁ [.select, .dml] (by decide) (by decide)
  exact ⟨by decide, h.2.1 (h.1.2 (by decide))⟩

end DsqlEmulator.Txn
