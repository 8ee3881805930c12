import DsqlEmulator.Proxy.Executions
import DsqlEmulator.Proxy.Version

/-! The command tag of a rewritten `SHOW`.  It waits in one slot of the session from when
the statement is read, and the next command tag that comes back is replaced by it. -/

namespace DsqlEmulator.Proxy

open Wire Occ Txn Runs

variable {U : Upstream} {D : Dialect}

def isShow (D : Dialect) (sent : List Frontend) (q : Request) : Bool :=
  match q.origin with
  | .client n =>
    ((sent[n]?.bind Frontend.sql).bind D.rewriteSQL).any fun r =>
      r.showTag && q.msg.sql = some r.sql
  | _ => false

def Act.rewritesTag : Act → Bool
  | .rewriteCommandTag _ _ => true
  | _ => false

def replacedTag (D : Dialect) (s : Session) (a : Act) : Option String :=
  match a with
  | .rewriteCommandTag _ _ =>
    match (a.exec D 0 "" s).next with
    | [.writeClient ⟨_, .commandComplete tag⟩] => some tag
    | _ => none
  | _ => none

theorem replacedTag_eq_none {s : Session} {a : Act} (ha : a.rewritesTag = false) :
    replacedTag D s a = none := by
  cases a with
  | rewriteCommandTag o tag => cases ha
  | _ => rfl

theorem exec_pendingCommandTag {s : Session} {now : Nat} {jobID : String} {a : Act}
    (ha : a ≠ .setPendingCommandTag) (ha' : a.rewritesTag = false) :
    (a.exec D now jobID s).sess.pendingCommandTag = s.pendingCommandTag := by
  cases a with
  | setPendingCommandTag => exact absurd rfl ha
  | rewriteCommandTag o tag => cases ha'
  | aborted n m => obtain ⟨_, _, h⟩ := exec_aborted_quiet n m; rw [h]
  | droppingUntilSync n m => obtain ⟨_, _, h⟩ := exec_droppingUntilSync_quiet n m; rw [h]
  | _ => dsimp only [Act.exec] <;> (repeat' split) <;> rfl

theorem spent_rewritesTag {s : Session} {a : Act} (ha : a.rewritesTag = true) :
    a.spent D false s = true := by
  cases a with
  | rewriteCommandTag o tag =>
    refine Act.spent_iff.2 ⟨rfl, ?_⟩
    dsimp only [Act.exec]
    split <;> rfl
  | _ => cases ha

/-- The slot of the pending command tag.  It should hold `SHOW` at the command tag of a
rewritten `SHOW`, and nothing at any other. -/
def showReader (D : Dialect) : Reader D Bool String (Option String) where
  late := false
  slot := Session.pendingCommandTag
  react tag e := if e.1 = .complete then ("", if tag = "" then none else some tag) else (tag, none)
  arms _ a := a = .setPendingCommandTag
  handles := Act.rewritesTag
  outcome := replacedTag D
  truth sent held q ks := ks.map fun k => (k, (held.runs q).any (isShow D sent))
  Right p := p.1.1 = .complete → p.2 = if p.1.2 then some "SHOW" else none
  arms_signal s a h := by
    rw [decide_eq_true_iff] at h
    rw [h]
    rfl
  truth_signals sent held q ks := by
    rw [List.map_map]
    exact List.map_id ks
  handles_eq s a k t ha hs hk := by
    cases a with
    | rewriteCommandTag o tag =>
      cases hk
      by_cases hp : s.pendingCommandTag = ""
      · simp [replacedTag, hp]
      · simp [replacedTag, hp]
    | _ => cases ha
  slot_eq s a now jobID ha hh := by
    rw [decide_eq_false_iff_not] at ha
    refine exec_pendingCommandTag ha ?_
    cases hr : a.rewritesTag with
    | false => rfl
    | true => rw [hr, spent_rewritesTag hr] at hh; cases hh

def runsShow (D : Dialect) (w : World U) (held : Holdings) : Bool :=
  w.toUp.head?.any fun q => (held.runs q).any (isShow D w.sent)

/-- A `SHOW` is rewritten only while no command tag is on its way.  From then until the
upstream has run it once, with one command tag, it runs nothing else that has one; and it
runs no `SHOW` otherwise.  No exchange of the emulator's own, failure or repair takes the
command tag of a `SHOW`, or any other while the tag of a `SHOW` waits. -/
@[mk_iff] structure OneShow (D : Dialect) (l : Label U)
    (w : World U × Record Bool String (Option String)) : Prop where
  alone : l.act w.1 = some .setPendingCommandTag → .complete ∉ w.1.signals false
  once : .complete ∈ w.1.news l → w.2.now = if runsShow D w.1 w.2.held then "SHOW" else ""
  single : runsShow D w.1 w.2.held = true → (w.1.news l).count .complete ≤ 1
  taken : ∀ a ∈ w.1.spending D false l, a.rewritesTag = false → a.signal false = some .complete →
    w.1.sess.pendingCommandTag = "" ∧ w.2.line.head?.all (!·.2) = true

instance (l : Label U) (w : World U × Record Bool String (Option String)) :
    Decidable (OneShow D l w) :=
  decidable_of_iff _ (oneShow_iff D l w).symm

section Answers

variable {ks : List Signal}

theorem react_ne_complete {tag : String} {e : Signal × Bool} (h : e.1 ≠ .complete) :
    (showReader D).react tag e = (tag, none) := if_neg h

theorem outcomes_no_complete {b : Bool} {tag : String} (h : .complete ∉ ks) :
    ∀ p ∈ Slot.outcomes (showReader D).react tag (ks.map (·, b)), (showReader D).Right p := by
  induction ks with
  | nil => exact fun p hp => absurd hp List.not_mem_nil
  | cons k ks ih =>
    obtain ⟨hk, hks⟩ := not_or.1 (mt List.mem_cons.2 h)
    rw [List.map_cons, Slot.outcomes, List.forall_mem_cons]
    refine ⟨fun hc => absurd hc.symm hk, ?_⟩
    rw [react_ne_complete (Ne.symm hk)]
    exact ih hks

theorem outcomes_other :
    ∀ p ∈ Slot.outcomes (showReader D).react "" (ks.map (·, false)), (showReader D).Right p := by
  induction ks with
  | nil => exact fun p hp => absurd hp List.not_mem_nil
  | cons k ks ih =>
    have hreact : (showReader D).react "" (k, false) = ("", none) := by
      by_cases hk : k = .complete <;> simp [showReader, hk]
    rw [List.map_cons, Slot.outcomes, List.forall_mem_cons, hreact]
    exact ⟨fun _ => rfl, ih⟩

theorem outcomes_show (h : ks.count .complete ≤ 1) :
    ∀ p ∈ Slot.outcomes (showReader D).react "SHOW" (ks.map (·, true)), (showReader D).Right p := by
  induction ks with
  | nil => exact fun p hp => absurd hp List.not_mem_nil
  | cons k ks ih =>
    rw [List.map_cons, Slot.outcomes, List.forall_mem_cons]
    by_cases hk : k = .complete
    · subst hk
      rw [List.count_cons_self] at h
      have hnone : .complete ∉ ks := List.count_eq_zero.1 (by omega)
      exact ⟨fun _ => rfl, outcomes_no_complete hnone⟩
    · rw [react_ne_complete hk]
      rw [List.count_cons_of_ne hk] at h
      exact ⟨fun hc => absurd hc hk, ih h⟩

end Answers

variable {l : Label U} {w : World U × Record Bool String (Option String)}

theorem OneShow.ok (hf : (showReader D).Follows w) (h : OneShow D l w) : (showReader D).Ok l w := by
  refine ⟨fun harm e he s => ?_, ?_, fun a ha hh e he => ?_⟩
  · have hact : l.act w.1 = some .setPendingCommandTag := by
      obtain ⟨a, ha, harm⟩ := (Option.any_eq_true _ _).1 harm
      rw [ha, of_decide_eq_true harm]
    have hmem : e.1 ∈ w.1.signals false := by
      have hline : w.2.line.map Prod.fst = w.1.signals false := hf.line
      rw [← hline]
      exact List.mem_map_of_mem he
    have hne : e.1 ≠ .complete := fun hc => h.alone hact (hc ▸ hmem)
    rw [react_ne_complete hne]
    exact ⟨rfl, fun hc => absurd hc hne⟩
  · cases hq : w.1.toUp.head? with
    | none =>
      rw [Reader.sends, hq]
      exact fun p hp => absurd hp List.not_mem_nil
    | some q =>
      have hsends : (showReader D).sends l w.1 w.2.held = (w.1.news l).map
          (·, runsShow D w.1 w.2.held) := by
        rw [Reader.sends, runsShow, hq]
        rfl
      rw [hsends]
      by_cases hc : .complete ∈ w.1.news l
      · rw [h.once hc]
        cases hrun : runsShow D w.1 w.2.held with
        | false => exact outcomes_other
        | true => exact outcomes_show (h.single hrun)
      · exact outcomes_no_complete hc
  · by_cases hc : e.1 = .complete
    · obtain ⟨htag, hline⟩ := h.taken a ha hh (hc ▸ hf.head_signal ha he)
      have hother : e.2 = false := by
        rw [he] at hline
        simpa using hline
      refine ⟨?_, fun _ => ?_⟩
      · change ((if e.1 = .complete then _ else _ : String × Option String)).1 =
          w.1.sess.pendingCommandTag
        rw [if_pos hc, htag]
      · change replacedTag D w.1.sess a = if e.2 then some "SHOW" else none
        rw [replacedTag_eq_none hh, hother]
        rfl
    · rw [react_ne_complete hc]
      exact ⟨rfl, fun hc' => absurd hc' hc⟩

def Dialect.versioned : Dialect :=
  { Dialect.sample [] with
    classify := fun async sql =>
      if sql = "SHOW server_version" then .accepted [.other]
        [] else (Dialect.sample []).classify async sql
    rewriteSQL := Proxy.rewriteSQL "16.15"
    serverVersion := "16.15" }

end DsqlEmulator.Proxy
