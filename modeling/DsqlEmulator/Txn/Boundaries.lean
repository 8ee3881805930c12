import DsqlEmulator.Runs
import DsqlEmulator.Txn.Tracker

/-! The tracker against PostgreSQL's own transactions.  The tracker starts its
counters over at every `BEGIN`, while PostgreSQL opens a transaction only at one
that finds none open. -/

namespace DsqlEmulator.Txn

open Runs

structure Cut where
  opened : Option Nat := none
  current : List Kind := []
  ended : List (List Kind) := []
  deriving DecidableEq, Repr

def Cut.finish (c : Cut) : Cut := { ended := c.ended ++ [c.current] }

def Cut.statement (now : Nat) (c : Cut) : Kind → Cut
  | .begin => { c with opened := c.opened.or (some now) }
  | .commit => c.finish
  | .rollback => c.finish
  | k => { c with current := c.current ++ [k] }

def Cut.batch (c : Cut) (kinds : List Kind) (now : Nat) : Cut :=
  let c := kinds.foldl (Cut.statement now) c
  if c.opened = none then c.finish else c

def Cut.transactions (c : Cut) : List (List Kind) := c.ended ++ [c.current]

structure Batch where
  kinds : List Kind
  now : Nat
  deriving DecidableEq, Repr

structure Admission where
  batch : Batch
  opened : Option Nat
  deriving DecidableEq, Repr

structure History where
  tracker : Tracker
  cut : Cut := {}
  admitted : List Admission := []
  deriving DecidableEq, Repr

def admissions (maxAge : Nat) : System History Batch where
  init := { tracker := { maxAge } }
  step b h :=
    let (tracker, violation) := h.tracker.admitKinds b.kinds b.now
    match violation with
    | some _ => some { h with tracker }
    | none =>
      some { tracker, cut := h.cut.batch b.kinds b.now, admitted := h.admitted ++ [⟨b,
        h.cut.opened⟩] }

def counted : Kind → Bool
  | .ddl | .dml => true
  | _ => false

/-- At most one DDL statement, and none beside DML. -/
def Legal (txn : List Kind) : Prop :=
  txn.count .ddl ≤ 1 ∧ (.ddl ∈ txn → .dml ∉ txn)

def opensAfresh (now : Nat) : Cut → List Kind → Bool
  | _, [] => true
  | c, k :: ks =>
    (k ≠ .begin || c.opened = none && !c.current.any counted) && opensAfresh now
      (c.statement now k) ks

def OpensAfresh (b : Batch) (h : History) : Prop := opensAfresh b.now h.cut b.kinds = true

instance (b : Batch) (h : History) : Decidable (OpensAfresh b h) :=
  inferInstanceAs (Decidable (_ = _))

structure Agrees (t : Tracker) (c : Cut) : Prop where
  inTxn : t.inTxn = c.opened.isSome
  beganAt : c.opened ≠ none → t.beganAt = c.opened
  ddl : t.ddlCount = c.current.count .ddl
  dml : t.dmlSeen = c.current.contains .dml

section Statements

variable {t : Tracker} {c : Cut} {now : Nat} {k : Kind} {ks : List Kind}

theorem agrees_finish : Agrees ({ t with inTxn := false }.reset) c.finish where
  inTxn := rfl
  beganAt hopened := absurd rfl hopened
  ddl := rfl
  dml := rfl

theorem agrees_begin (hopened : c.opened = none) (hcounted : c.current.any counted = false) :
    Agrees (t.record now .begin) (c.statement now .begin) := by
  have hnone : ∀ k, counted k = true → k ∉ c.current := by
    intro k hk hmem
    cases hcounted.symm.trans (List.any_eq_true.2 ⟨k, hmem, hk⟩)
  refine ⟨?_, fun _ => ?_, ?_, ?_⟩
  · simp [Tracker.record, Cut.statement, hopened]
  · simp [Tracker.record, Cut.statement, hopened]
  · exact (List.count_eq_zero.2 (hnone .ddl rfl)).symm
  · simpa [Tracker.record, Cut.statement] using hnone .dml rfl

theorem legal_nil : Legal [] := ⟨Nat.zero_le 1, fun h => absurd h List.not_mem_nil⟩

theorem Legal.append_uncounted {txn : List Kind} (h : Legal txn) (hk : counted k = false) :
    Legal (txn ++ [k]) := by
  have hddl : k ≠ .ddl := by rintro rfl; cases hk
  have hdml : k ≠ .dml := by rintro rfl; cases hk
  refine ⟨?_, fun hmem hmem' => h.2 ?_ ?_⟩
  · rw [List.count_append, List.count_singleton, if_neg (by simpa using hddl), Nat.add_zero]
    exact h.1
  · exact (List.mem_append.1 hmem).resolve_right fun hd => hddl (List.mem_singleton.1 hd).symm
  · exact (List.mem_append.1 hmem').resolve_right fun hd => hdml (List.mem_singleton.1 hd).symm

theorem mem_transactions_finish {txn : List Kind} (h : txn ∈ c.finish.transactions) :
    txn ∈ c.transactions ∨ txn = [] := by
  rcases List.mem_append.1 h with h | h
  · exact .inl h
  · exact .inr (List.mem_singleton.1 h)

theorem legal_finish (h : ∀ txn ∈ c.transactions, Legal txn) :
    ∀ txn ∈ c.finish.transactions, Legal txn := by
  intro txn htxn
  rcases mem_transactions_finish htxn with hold | rfl
  · exact h txn hold
  · exact legal_nil

theorem legal_append (h : ∀ txn ∈ c.transactions, Legal txn) (hk : Legal (c.current ++ [k])) :
    ∀ txn ∈ Cut.transactions { c with current := c.current ++ [k] }, Legal txn := by
  intro txn htxn
  rcases List.mem_append.1 htxn with hold | hnew
  · exact h txn (List.mem_append_left _ hold)
  · exact List.mem_singleton.1 hnew ▸ hk

theorem Agrees.append_uncounted (h : Agrees t c) (hk : counted k = false) :
    Agrees t { c with current := c.current ++ [k] } := by
  have hddl : k ≠ .ddl := by rintro rfl; cases hk
  have hdml : k ≠ .dml := by rintro rfl; cases hk
  refine ⟨h.inTxn, h.beganAt, ?_, ?_⟩
  · rw [h.ddl, List.count_append, List.count_singleton, if_neg (by simpa using hddl), Nat.add_zero]
  · rw [h.dml]
    simp [Ne.symm hdml]

theorem Agrees.statement (now : Nat) (h : Agrees t c) (hlegal : ∀ txn ∈ c.transactions, Legal txn)
    (hcheck : check (k :: ks) t.ddlCount t.dmlSeen = none)
    (hopens : k = .begin → c.opened = none ∧ c.current.any counted = false) :
    Agrees (t.record now k) (c.statement now k) ∧
      (∀ txn ∈ (c.statement now k).transactions, Legal txn) ∧
      check ks (t.record now k).ddlCount (t.record now k).dmlSeen = none := by
  have hcurrent : Legal c.current := hlegal _ (List.mem_append_right _ (List.mem_singleton_self _))
  cases k with
  | begin => exact ⟨agrees_begin (hopens rfl).1 (hopens rfl).2, hlegal, hcheck⟩
  | commit => exact ⟨agrees_finish, legal_finish hlegal, hcheck⟩
  | rollback => exact ⟨agrees_finish, legal_finish hlegal, hcheck⟩
  | ddl =>
    simp only [check] at hcheck
    split at hcheck
    · cases hcheck
    rename_i hddl
    split at hcheck
    · cases hcheck
    rename_i hdml
    have hzero : c.current.count .ddl = 0 := by rw [← h.ddl]; omega
    have hnot : .dml ∉ c.current := by simpa [h.dml] using hdml
    refine ⟨⟨h.inTxn, h.beganAt, ?_, ?_⟩, legal_append hlegal ⟨?_, fun _ => ?_⟩, hcheck⟩
    · simp [Tracker.record, Cut.statement, h.ddl]
    · simp [Tracker.record, Cut.statement, h.dml]
    · simp [hzero]
    · simpa using hnot
  | dml =>
    simp only [check] at hcheck
    split at hcheck
    · cases hcheck
    rename_i hddl
    have hzero : .ddl ∉ c.current := by
      rw [← List.count_eq_zero, ← h.ddl]
      omega
    refine ⟨⟨h.inTxn, h.beganAt, ?_, ?_⟩, legal_append hlegal ⟨?_, fun hmem => ?_⟩, hcheck⟩
    · simp [Tracker.record, Cut.statement, h.ddl]
    · simp [Tracker.record, Cut.statement]
    · simpa using hcurrent.1
    · exact absurd hmem (by simpa using hzero)
  | select =>
    exact ⟨h.append_uncounted rfl, legal_append hlegal (hcurrent.append_uncounted rfl), hcheck⟩
  | other =>
    exact ⟨h.append_uncounted rfl, legal_append hlegal (hcurrent.append_uncounted rfl), hcheck⟩

theorem Agrees.statements (h : Agrees t c) (hlegal : ∀ txn ∈ c.transactions, Legal txn)
    (hcheck : check ks t.ddlCount t.dmlSeen = none) (hopens : opensAfresh now c ks = true) :
    Agrees (ks.foldl (Tracker.record now) t) (ks.foldl (Cut.statement now) c) ∧
      ∀ txn ∈ (ks.foldl (Cut.statement now) c).transactions, Legal txn := by
  induction ks generalizing t c with
  | nil => exact ⟨h, hlegal⟩
  | cons k ks ih =>
    simp only [opensAfresh, Bool.and_eq_true, Bool.or_eq_true, decide_eq_true_eq] at hopens
    obtain ⟨hk, hrest⟩ := hopens
    have hbegin : k = .begin → c.opened = none ∧ c.current.any counted = false := fun hb => by
      simpa using hk.resolve_left (not_not.2 hb)
    obtain ⟨hagrees, hlegal, hcheck⟩ := h.statement now hlegal hcheck hbegin
    exact ih hagrees hlegal hcheck hrest

theorem record_maxAge : (t.record now k).maxAge = t.maxAge := by
  cases k <;> rfl

theorem foldl_record_maxAge : (ks.foldl (Tracker.record now) t).maxAge = t.maxAge := by
  induction ks generalizing t with
  | nil => rfl
  | cons k ks ih => exact ih.trans record_maxAge

end Statements

section Histories

variable {t : Tracker} {c : Cut} {maxAge : Nat} {b : Batch} {h : History}

theorem fresh_maxAge : t.fresh.maxAge = t.maxAge := by
  unfold Tracker.fresh
  split <;> rfl

@[simp] theorem Tracker.fresh_fresh : t.fresh.fresh = t.fresh := by
  cases ht : t.inTxn <;> simp [Tracker.fresh, Tracker.reset, ht]

theorem Agrees.endBatch (h : Agrees t c) :
    Agrees t.fresh (if c.opened = none then c.finish else c) := by
  by_cases hopened : c.opened = none
  · have hin : t.inTxn = false := by rw [h.inTxn, hopened]; rfl
    rw [if_pos hopened, Tracker.fresh, if_neg (by simp [hin])]
    exact ⟨hin, fun hne => absurd rfl hne, rfl, rfl⟩
  · have hin : t.inTxn = true := by
      rw [h.inTxn]
      exact Option.isSome_iff_ne_none.2 hopened
    rwa [if_neg hopened, Tracker.fresh, if_pos hin]

structure Kept (maxAge : Nat) (h : History) : Prop where
  limit : h.tracker.maxAge = maxAge
  agrees : Agrees h.tracker.fresh h.cut
  idle : h.cut.opened = none → h.cut.current = []
  legal : ∀ txn ∈ h.cut.transactions, Legal txn
  ages : 0 < maxAge → ∀ a ∈ h.admitted, .rollback ∉ a.batch.kinds → ∀ o, a.opened = some o →
    a.batch.now ≤ o + maxAge * 1000000000

theorem Kept.init : Kept maxAge (admissions maxAge).init where
  limit := rfl
  agrees := ⟨rfl, fun hopened => absurd rfl hopened, rfl, rfl⟩
  idle _ := rfl
  legal _ htxn := List.mem_singleton.1 htxn ▸ legal_nil
  ages _ _ ha := absurd ha List.not_mem_nil

theorem Kept.young (hk : Kept maxAge h) (hpos : 0 < maxAge) (hroll : .rollback ∉ b.kinds)
    (hage : (!b.kinds.contains .rollback && h.tracker.fresh.inTxn && h.tracker.fresh.tooOld b.now) =
      false) {o : Nat} (hopened : h.cut.opened = some o) : b.now ≤ o + maxAge * 1000000000 := by
  have hin : h.tracker.fresh.inTxn = true := by rw [hk.agrees.inTxn, hopened]; rfl
  have hbegan : h.tracker.fresh.beganAt = some o :=
    (hk.agrees.beganAt (by simp [hopened])).trans hopened
  have hmax : h.tracker.fresh.maxAge = maxAge := fresh_maxAge.trans hk.limit
  have hold : h.tracker.fresh.tooOld b.now = false := by simpa [hroll, hin] using hage
  simp only [Tracker.tooOld, hbegan, hmax, hpos, decide_true, Bool.true_and,
    decide_eq_false_iff_not] at hold
  omega

theorem Kept.refuse (hk : Kept maxAge h) : Kept maxAge { h with tracker := h.tracker.fresh } := by
  refine ⟨fresh_maxAge.trans hk.limit, ?_, hk.idle, hk.legal, hk.ages⟩
  rw [Tracker.fresh_fresh]
  exact hk.agrees

theorem Kept.admit (hk : Kept maxAge h) (hok : OpensAfresh b h)
    (hcheck : h.tracker.Admits b.kinds b.now) :
    Kept maxAge { tracker := b.kinds.foldl (Tracker.record b.now) h.tracker.fresh
                  cut := h.cut.batch b.kinds b.now
                  admitted := h.admitted ++ [⟨b, h.cut.opened⟩] } := by
  obtain ⟨hagrees, hlegal⟩ := hk.agrees.statements hk.legal hcheck.2 hok
  refine ⟨foldl_record_maxAge.trans (fresh_maxAge.trans hk.limit), hagrees.endBatch, ?_, ?_, ?_⟩
  · intro hopened
    simp only [Cut.batch] at hopened ⊢
    split at hopened
    · rw [if_pos ‹_›]
      rfl
    · exact absurd hopened ‹_›
  · simp only [Cut.batch]
    split
    · exact legal_finish hlegal
    · exact hlegal
  · intro hpos a ha hroll o ho
    rcases List.mem_append.1 ha with hold | hnew
    · exact hk.ages hpos a hold hroll o ho
    · obtain rfl := List.mem_singleton.1 hnew
      exact hk.young hpos hroll hcheck.1 ho

theorem Kept.step {h' : History} (hk : Kept maxAge h) (hok : OpensAfresh b h)
    (hs : (admissions maxAge).step b h = some h') : Kept maxAge h' := by
  simp only [admissions] at hs
  rcases h.tracker.admitKinds_cases b.kinds b.now with ⟨v, hv⟩ | ⟨hadmits, hv⟩
  · rw [hv] at hs
    cases hs
    exact hk.refuse
  · rw [hv] at hs
    cases hs
    exact hk.admit hok hadmits

/-- In every transaction PostgreSQL makes of the admitted batches there is at most one
DDL statement and none beside DML, and no batch without `ROLLBACK` is admitted into
an explicit transaction past the age limit (a limit of 0 is none). -/
theorem admitted_transactions_legal (hw : Reach (admissions maxAge) OpensAfresh h) :
    (∀ txn ∈ h.cut.transactions, Legal txn) ∧
      (0 < maxAge → ∀ a ∈ h.admitted, .rollback ∉ a.batch.kinds → ∀ o, a.opened = some o →
        a.batch.now ≤ o + maxAge * 1000000000) := by
  have hkept : Kept maxAge h := hw.invariant Kept.init fun b h h' hk hok hs => hk.step hok hs
  exact ⟨hkept.legal, hkept.ages⟩

theorem admitted_transactions_legal_ddl :
    let h := (admissions 300).dest OpensAfresh
      [⟨[.begin], 0⟩, ⟨[.ddl], 1⟩, ⟨[.dml], 2⟩, ⟨[.commit, .dml, .commit, .begin], 3⟩,
        ⟨[.dml, .select], 5⟩]
    h.cut.transactions = [[.ddl], [.dml], [.dml, .select]] ∧
        ∀ txn ∈ h.cut.transactions, Legal txn :=
  ⟨by decide, (admitted_transactions_legal (Reach.dest _ _)).1⟩

/-- A second `BEGIN` starts the tracker's counters and its clock over; to PostgreSQL
it is a no-op. -/
theorem begin_restarts_counters :
    ∃ h : History, Reachable (admissions 300) h ∧ [.ddl, .ddl] ∈ h.cut.transactions ∧
      ¬ Legal [.ddl, .ddl] ∧ ⟨⟨[.ddl], 400000000000⟩, some 0⟩ ∈ h.admitted := by
  refine ⟨(admissions 300).dest (fun _ _ => True)
    [⟨[.begin], 0⟩, ⟨[.ddl], 1⟩, ⟨[.begin], 200000000000⟩, ⟨[.ddl], 400000000000⟩,
      ⟨[.commit], 400000000001⟩], Reach.dest _ _, by decide, fun hl => ?_, by decide⟩
  exact absurd hl.1 (by decide)

end Histories

end DsqlEmulator.Txn
