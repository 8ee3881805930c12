import DsqlEmulator.Line
import DsqlEmulator.Proxy.Threads

/-! How often an injection rule fails a commit.  Each rule counts the commits it
matches, but a rule that fails one keeps the rules behind it from counting it. -/

namespace DsqlEmulator.Proxy

open Wire Occ Txn Runs Line

variable {U : Upstream} {D : Dialect}

def OCCInjection.matches (inj : OCCInjection) (touched : List String) : Bool :=
  inj.tables = [] || inj.tables.any (· ∈ touched)

def OCCInjection.period (inj : OCCInjection) : Nat := if inj.every ≤ 0 then 1 else inj.every.toNat

/-- The rule fails a commit made after those in `before`. -/
def OCCInjection.Due (inj : OCCInjection) (before : List (List String)) (touched : List String) :
    Prop :=
  inj.matches touched = true ∧ inj.period ∣ (before ++ [touched]).countP inj.matches

def apart (touched : List String) : List OCCInjection → Nat → (Nat → Nat) → Bool
  | [], _, _ => true
  | inj :: rest, i, commits =>
    (!(inj.matches touched && (commits i + 1) % inj.period = 0) || rest.all fun inj =>
      !inj.matches touched) &&
      apart touched rest (i + 1) commits

section Rules

variable {touched : List String} {inj : OCCInjection} {rest rules : List OCCInjection} {i : Nat}
  {commits : Nat → Nat}

theorem occCommitConflict_cons : occCommitConflict touched (inj :: rest) i commits =
    if inj.matches touched then
      if (commits i + 1) % inj.period = 0 then (Function.update commits i (commits i + 1), true)
      else occCommitConflict touched rest (i + 1) (Function.update commits i (commits i + 1))
    else occCommitConflict touched rest (i + 1) commits := by
  by_cases h : inj.tables ≠ [] ∧ ¬ inj.tables.any (· ∈ touched) = true
  · have hno : inj.matches touched = false := by simpa [OCCInjection.matches] using h
    simp only [occCommitConflict, if_pos h, hno]
    rfl
  · have hyes : inj.matches touched = true := by
      by_cases htables : inj.tables = []
      · simp [OCCInjection.matches, htables]
      · have hany : inj.tables.any (· ∈ touched) = true := by
          by_contra hany
          exact h ⟨htables, hany⟩
        simp [OCCInjection.matches, hany]
    simp only [occCommitConflict, if_neg h, hyes, Function.update_self, OCCInjection.period]
    rfl

theorem apart_congr {commits' : Nat → Nat} (h : ∀ k, i ≤ k → commits' k = commits k) :
    apart touched rules i commits' = apart touched rules i commits := by
  induction rules generalizing i with
  | nil => rfl
  | cons inj rest ih =>
    simp only [apart, h i (Nat.le_refl i)]
    rw [ih fun k hk => h k (Nat.le_of_succ_le hk)]

theorem occCommitConflict_apart (h : apart touched rules i commits = true) :
    (∀ k < i, (occCommitConflict touched rules i commits).1 k = commits k) ∧
    (∀ k inj, rules[k]? = some inj → (occCommitConflict touched rules i commits).1 (i + k) =
      commits (i + k) + (inj.matches touched).toNat) ∧
    ((occCommitConflict touched rules i commits).2 = true ↔ ∃ k inj, rules[k]? = some inj ∧
      inj.matches touched = true ∧ (commits (i + k) + 1) % inj.period = 0) := by
  induction rules generalizing i commits with
  | nil => simp [occCommitConflict]
  | cons inj rest ih =>
    rw [apart, Bool.and_eq_true] at h
    obtain ⟨hfirst, hrest⟩ := h
    rw [occCommitConflict_cons]
    have hsplit (P : Nat → OCCInjection → Prop) : (∃ k inj', (inj :: rest)[k]? = some inj' ∧
      P k inj') ↔
        P 0 inj ∨ ∃ k inj', rest[k]? = some inj' ∧ P (k + 1) inj' := by
      constructor
      · rintro ⟨k, inj', hk, hp⟩
        cases k with
        | zero => exact .inl (Option.some.inj hk ▸ hp)
        | succ k => exact .inr ⟨k, inj', hk, hp⟩
      · rintro (hp | ⟨k, inj', hk, hp⟩)
        · exact ⟨0, inj, rfl, hp⟩
        · exact ⟨k + 1, inj', hk, hp⟩
    have hnext (k : Nat) : i + 1 + k = i + (k + 1) := by omega
    cases hm : inj.matches touched with
    | false =>
      obtain ⟨hlow, hcount, hiff⟩ := ih hrest
      refine ⟨fun k hk => hlow k (Nat.lt_succ_of_lt hk), fun k inj' hk => ?_, ?_⟩
      · cases k with
        | zero =>
          obtain rfl : inj = inj' := Option.some.inj hk
          rw [hm]
          exact hlow i (Nat.lt_succ_self i)
        | succ k => exact hnext k ▸ hcount k inj' hk
      · rw [hsplit]
        simpa [hm, hnext] using hiff
    | true =>
      by_cases hdue : (commits i + 1) % inj.period = 0
      · -- the rules behind it match nothing, so they have nothing to count
        have hnone : rest.all (fun inj => !inj.matches touched) = true := by
          simpa [hm, hdue] using hfirst
        have hno (k : Nat) (inj' : OCCInjection) (hk : rest[k]? = some inj') : inj'.matches
            touched = false := by
          simpa using List.all_eq_true.1 hnone inj' (List.mem_of_getElem? hk)
        simp only [if_true, if_pos hdue]
        refine ⟨fun k hk => Function.update_of_ne (by omega) _ _, fun k inj' hk => ?_, ?_⟩
        · cases k with
          | zero =>
            obtain rfl : inj = inj' := Option.some.inj hk
            simp [hm]
          | succ k =>
            rw [hno k inj' hk]
            exact Function.update_of_ne (by omega) _ _
        · rw [hsplit]
          simp [hm, hdue]
      · have hsame : ∀ k, i + 1 ≤ k → Function.update commits i (commits i + 1) k = commits k :=
          fun k hk => Function.update_of_ne (by omega) _ _
        have hrest' : apart touched rest (i + 1) (Function.update commits i (commits i + 1)) =
            true :=
          (apart_congr hsame).trans hrest
        obtain ⟨hlow, hcount, hiff⟩ := ih hrest'
        simp only [if_true, if_neg hdue]
        refine ⟨fun k hk => ?_, fun k inj' hk => ?_, ?_⟩
        · rw [hlow k (Nat.lt_succ_of_lt hk)]
          exact Function.update_of_ne (by omega) _ _
        · cases k with
          | zero =>
            obtain rfl : inj = inj' := Option.some.inj hk
            change (occCommitConflict touched rest (i + 1) _).1 i = commits i + _
            rw [hlow i (Nat.lt_succ_self i), hm]
            simp
          | succ k =>
            rw [← hnext k, hcount k inj' hk, hsame _ (by omega)]
        · rw [hiff, hsplit]
          simp [hdue, hnext, Function.update_of_ne]

end Rules

section Run

/-- A commit put to the injection rules: the tables it touched, and whether it was failed. -/
structure Trial where
  touched : List String
  failed : Bool
  deriving DecidableEq, Repr

def Act.isTrial : Act → Bool
  | .occCommitConflict _ _ _ => true
  | _ => false

def trialNote (D : Dialect) (l : Label U) (w : World U) (trials : List Trial) : List Trial :=
  if (l.act w).any Act.isTrial then
    trials ++ [⟨w.sess.occTouched,
      (occCommitConflict w.sess.occTouched D.occ.inject 0 w.sess.occCommits).2⟩]
  else trials

/-- No rule that fails a commit stands before one that matches it. -/
def Apart (D : Dialect) (l : Label U) (w : World U × List Trial) : Prop :=
  (l.act w.1).any Act.isTrial = true →
    apart w.1.sess.occTouched D.occ.inject 0 w.1.sess.occCommits = true

instance (l : Label U) (w : World U × List Trial) : Decidable (Apart D l w) :=
  inferInstanceAs (Decidable (_ → _))

theorem exec_occCommits {s : Session} {now : Nat} {jobID : String} {a : Act}
    (ha : a.isTrial = false) : (a.exec D now jobID s).sess.occCommits = s.occCommits := by
  cases a with
  | occCommitConflict n m info => cases ha
  | aborted n m => obtain ⟨_, _, h⟩ := exec_aborted_quiet n m; rw [h]
  | droppingUntilSync n m => obtain ⟨_, _, h⟩ := exec_droppingUntilSync_quiet n m; rw [h]
  | _ => dsimp only [Act.exec] <;> (repeat' split) <;> rfl

theorem exec_trial {s : Session} {now : Nat} {jobID : String} {a : Act} (ha : a.isTrial = true) :
    (a.exec D now jobID s).sess.occCommits =
      (occCommitConflict s.occTouched D.occ.inject 0 s.occCommits).1 := by
  cases a with
  | occCommitConflict n m info => rfl
  | _ => cases ha

theorem Moves.occCommits {l : Label U} {w w' : World U} (h : Moves D l w w') :
    w'.sess.occCommits = if (l.act w).any Act.isTrial then
      (occCommitConflict w.sess.occTouched D.occ.inject 0 w.sess.occCommits).1
        else w.sess.occCommits := by
  have hexec {now : Nat} {jobID : String} {a : Act} : (a.exec D now jobID w.sess).sess.occCommits =
      if a.isTrial then (occCommitConflict w.sess.occTouched D.occ.inject 0 w.sess.occCommits).1
      else w.sess.occCommits := by
    split
    next htrial => exact exec_trial htrial
    next htrial => exact exec_occCommits (Bool.eq_false_iff.2 htrial)
  cases h with
  | front hf =>
    simp only [Label.act, hf, List.head?_cons, Option.any_some]
    exact hexec
  | back hb =>
    simp only [Label.act, hb, List.head?_cons, Option.any_some]
    exact hexec
  | _ => rfl

structure Counted (D : Dialect) (w : World U × List Trial) : Prop where
  counts : ∀ k inj, D.occ.inject[k]? = some inj →
    w.1.sess.occCommits k = (w.2.map Trial.touched).countP inj.matches
  trials : EachAfter (fun before x => x.failed = true ↔
    ∃ inj ∈ D.occ.inject, inj.Due (before.map Trial.touched) x.touched) w.2

theorem Counted.moves {l : Label U} {w w' : World U} {trials : List Trial}
    (h : Counted D (w, trials)) (hok : Apart D l (w, trials)) (hm : Moves D l w w') :
    Counted D (w', trialNote D l w trials) := by
  by_cases htrial : (l.act w).any Act.isTrial = true
  · obtain ⟨-, hcount, hiff⟩ := occCommitConflict_apart (hok htrial)
    have hafter := hm.occCommits
    rw [if_pos htrial] at hafter
    have hdue (k : Nat) (inj : OCCInjection) (hk : D.occ.inject[k]? = some inj) :
        inj.Due (trials.map Trial.touched) w.sess.occTouched ↔
          inj.matches w.sess.occTouched = true ∧ (w.sess.occCommits k + 1) % inj.period = 0 := by
      have hold := h.counts k inj hk
      refine and_congr_right fun hmatch => ?_
      rw [hold, List.countP_append, List.countP_cons_of_pos hmatch, Nat.dvd_iff_mod_eq_zero]
      rfl
    refine ⟨fun k inj hk => ?_, ?_⟩
    · have hnew := hcount k inj hk
      rw [Nat.zero_add] at hnew
      change w'.sess.occCommits k = _
      rw [hafter, hnew, h.counts k inj hk, trialNote, if_pos htrial, List.map_append,
        List.countP_append]
      cases hmatch : inj.matches w.sess.occTouched <;> simp [hmatch]
    · change EachAfter _ (trialNote D l w trials)
      rw [trialNote, if_pos htrial]
      refine h.trials.snoc (hiff.trans ?_)
      constructor
      · rintro ⟨k, inj, hk, hd⟩
        rw [Nat.zero_add] at hd
        exact ⟨inj, List.mem_of_getElem? hk, (hdue k inj hk).2 hd⟩
      · rintro ⟨inj, hin, hd⟩
        obtain ⟨k, hk⟩ := List.mem_iff_getElem?.1 hin
        exact ⟨k, inj, hk, by rw [Nat.zero_add]; exact (hdue k inj hk).1 hd⟩
  · have hafter := hm.occCommits
    rw [if_neg htrial] at hafter
    refine ⟨fun k inj hk => ?_, ?_⟩
    · change w'.sess.occCommits k = (List.map Trial.touched (trialNote D l w trials)).countP _
      rw [hafter, trialNote, if_neg htrial]
      exact h.counts k inj hk
    · change EachAfter _ (trialNote D l w trials)
      rw [trialNote, if_neg htrial]
      exact h.trials

/-- In a run in which no rule that fails a commit stands before one that matches it,
a commit is failed if and only if a rule matches it and the commits the rule has
matched, this one included, are a multiple of its period. -/
theorem injection_cadence {w : World U × List Trial}
    (hw : Reach ((system D U).watched [] (trialNote D)) (Apart D) w) (before : List Trial)
    (x : Trial) (after : List Trial) (hx : w.2 = before ++ x :: after) :
    x.failed = true ↔ ∃ inj ∈ D.occ.inject, inj.Due (before.map Trial.touched) x.touched := by
  have hcounted : Counted D w := by
    refine hw.invariant (I := Counted D) ⟨fun k inj _ => rfl, .nil⟩ ?_
    rintro l ⟨w, trials⟩ ⟨w', trials'⟩ h hok hs
    obtain ⟨hs, rfl⟩ := System.watched_step.1 hs
    exact h.moves hok (moves_of_step hs)
  exact hcounted.trials before x after hx

def emptyTransactions (acts : List Nat) : List (Label .any) :=
  acts.flatMap fun k => List.flatten
    [[.send (.query "BEGIN"), .readClient], fronts 8,
      [.send (.query "COMMIT"), .readClient], fronts k]

theorem injection_cadence_second :
    let D := Dialect.sample [⟨["t"], 1⟩, ⟨[], 2⟩]
    let w := ((system D .any).watched [] (trialNote D)).dest (Apart D) (emptyTransactions [10, 12])
    w.2 = [⟨[], false⟩, ⟨[], true⟩] ∧ ∃ inj ∈ D.occ.inject, inj.Due [[]] [] := by
  intro D w
  have hw : w.2 = [⟨[], false⟩, ⟨[], true⟩] := by decide +kernel
  exact ⟨hw, (injection_cadence (Reach.dest _ _) [⟨[], false⟩] ⟨[], true⟩ [] hw).1 rfl⟩

/-- Every second commit and every third one: the rule that fails the second keeps the
other from counting it, so the third goes through. -/
theorem injection_cadence_starved :
    let D := Dialect.sample [⟨[], 2⟩, ⟨[], 3⟩]
    ∃ w : World .any × List Trial, Reachable ((system D .any).watched [] (trialNote D)) w ∧
      ∃ before x after, w.2 = before ++ x :: after ∧ x.failed = false ∧
        ∃ inj ∈ D.occ.inject, inj.Due (before.map Trial.touched) x.touched := by
  intro D
  refine ⟨((system D .any).watched [] (trialNote D)).dest (fun _ _ => True)
    (emptyTransactions [10, 12, 10]),
    Reach.dest _ _, [⟨[], false⟩, ⟨[], true⟩], ⟨[], false⟩, [], by decide +kernel, rfl, ⟨[], 3⟩, by
      decide, ?_⟩
  exact ⟨by decide, by decide⟩

end Run

end DsqlEmulator.Proxy
