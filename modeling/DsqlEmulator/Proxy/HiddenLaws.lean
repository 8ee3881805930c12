import DsqlEmulator.Proxy.Threads
import DsqlEmulator.Line

/-! Which messages of the upstream a hidden exchange takes.  The session tells
them apart by position only, so an exchange has to be armed in a gap: while
nothing else the upstream was sent is on its way back. -/

namespace DsqlEmulator.Proxy

open Wire Occ Txn Runs Line

variable {U : Upstream} {D : Dialect}

def Origin.isClient : Origin → Bool
  | .client _ => true
  | _ => false

def Origin.IsHidden (o : Origin) : Prop := ∃ p k, o = .hidden p k

instance : DecidablePred Origin.IsHidden
  | .client _ => .isFalse (by rintro ⟨_, _, h⟩; cases h)
  | .hidden p k => .isTrue ⟨p, k, rfl⟩
  | .failure _ => .isFalse (by rintro ⟨_, _, h⟩; cases h)

@[simp] theorem Origin.isHidden_client (n : Nat) : ¬ (Origin.client n).IsHidden := by
  simp [IsHidden]
@[simp] theorem Origin.isHidden_failure (k : Nat) : ¬ (Origin.failure k).IsHidden := by
  simp [IsHidden]
@[simp] theorem Origin.isHidden_hidden (p : Purpose) (k : Nat) : (Origin.hidden p k).IsHidden :=
  ⟨p, k, rfl⟩

def Reply.item (r : Reply) : Origin × Bool := (r.origin, r.msg.isReady)

def Request.item (q : Request) : Origin × Bool := (q.origin, q.msg.drawsReady)

def Act.unplaced : Act → Option Reply
  | .consumeHidden r => some r
  | _ => none

def Act.hiddenWrite : Act → Option (Origin × List Frontend)
  | .writeUpstream (.hidden p k) ms => some (.hidden p k, ms)
  | _ => none

def Act.clearing : Act → Option Hidden
  | .clearHidden h => some h
  | _ => none

def World.hand (w : World U) : List Reply := w.back.filterMap Act.unplaced

def World.line (w : World U) : List (Origin × Bool) :=
  w.hand.map Reply.item ++ (w.fromUp.map Reply.item ++ w.toUp.map Request.item)

def World.hiddenWrites (w : World U) : List (Origin × List Frontend) :=
  w.front.filterMap Act.hiddenWrite ++ w.back.filterMap Act.hiddenWrite

def Act.setting : Act → Option Exchange
  | .setHidden x _ => some x
  | _ => none

def Act.writing : Act → Option Origin
  | .writeUpstream o _ => some o
  | _ => none

/-- An exchange is armed when none is and nothing is on its way back from the
upstream, and nothing else is written before its own statement. -/
def Gap (l : Label U) (w : World U) : Prop :=
  (∀ _x ∈ (l.act w).bind Act.setting, w.sess.hidden = none ∧ w.line = []) ∧
    ∀ o ∈ (l.act w).bind Act.writing, o.IsHidden ∨ w.hiddenWrites = []

instance (l : Label U) (w : World U) : Decidable (Gap l w) := inferInstanceAs (Decidable (_ ∧ _))

theorem Gap.setHidden {l : Label U} {w : World U} {x : Exchange} {ms : List Frontend} (h : Gap l w)
    (ha : l.act w = some (.setHidden x ms)) : w.sess.hidden = none ∧ w.line = [] :=
  h.1 x (by rw [ha]; rfl)

theorem Gap.writeUpstream {l : Label U} {w : World U} {o : Origin} {ms : List Frontend}
    (h : Gap l w) (ha : l.act w = some (.writeUpstream o ms)) (ho : ¬ o.IsHidden) :
    w.hiddenWrites = [] :=
  (h.2 o (by rw [ha]; rfl)).resolve_left ho

inductive Attributed (w : World U) : Prop
  | idle : w.sess.hidden = none → (∀ x ∈ w.line, ¬ x.1.IsHidden) → w.hiddenWrites = [] →
      w.back.filterMap Act.clearing = [] → Attributed w
  | armed {h ms} : w.sess.hidden = some h → w.line = [] → w.hiddenWrites = [(h.origin, ms)] →
      Closing ms → w.back.filterMap Act.clearing = [] → Attributed w
  | running {h} : w.sess.hidden = some h → Leads Origin.IsHidden h.origin w.line →
      w.hiddenWrites = [] → w.back.filterMap Act.clearing = [] → Attributed w
  | ending {h} : w.sess.hidden = some h → (∀ x ∈ w.line, ¬ x.1.IsHidden) → w.hiddenWrites = [] →
      w.hand = [] → w.back.filterMap Act.clearing = [h] → Attributed w

theorem Attributed.congr {w w' : World U} (h : Attributed w) (hid : w'.sess.hidden = w.sess.hidden)
    (hand : w'.hand = w.hand) (line : w'.line = w.line) (writes : w'.hiddenWrites = w.hiddenWrites)
    (clearing : w'.back.filterMap Act.clearing = w.back.filterMap Act.clearing) :
    Attributed w' := by
  cases h with
  | idle h₁ h₂ h₃ h₄ => exact .idle (hid ▸ h₁) (line ▸ h₂) (writes ▸ h₃) (clearing ▸ h₄)
  | armed h₁ h₂ h₃ h₄ h₅ => exact .armed (hid ▸ h₁) (line ▸ h₂) (writes ▸ h₃) h₄ (clearing ▸ h₅)
  | running h₁ h₂ h₃ h₄ => exact .running (hid ▸ h₁) (line ▸ h₂) (writes ▸ h₃) (clearing ▸ h₄)
  | ending h₁ h₂ h₃ h₄ h₅ =>
    exact .ending (hid ▸ h₁) (line ▸ h₂) (writes ▸ h₃) (hand ▸ h₄) (clearing ▸ h₅)

theorem expands_of_answers {m : Frontend} {ms : List Backend} (o : Origin) (h : Answers m ms) :
    Expands (o, m.drawsReady) ((ms.map (Reply.mk o)).map Reply.item) := by
  obtain ⟨pre, hpre, h⟩ := h
  have hall : pre.map (Reply.item ∘ Reply.mk o) = List.replicate pre.length (o, false) :=
    List.map_eq_replicate_iff.2 fun b hb => by simp [Reply.item, hpre b hb]
  refine ⟨pre.length, ?_⟩
  rcases h with ⟨hm, st, rfl⟩ | ⟨hm, rfl⟩ <;> simp [hm, hall, Reply.item]

theorem leads_of_closing {ms : List Frontend} (o : Origin) (h : Closing ms) :
    Leads Origin.IsHidden o ((ms.map (Request.mk o)).map Request.item) := by
  obtain ⟨pre, last, rfl, hpre, hlast⟩ := h
  have hall : pre.map (Request.item ∘ Request.mk o) = List.replicate pre.length (o, false) :=
    List.map_eq_replicate_iff.2 fun b hb => by simp [Request.item, hpre b hb]
  have hl : Leads Origin.IsHidden o [(o, true)] := .last (by simp)
  simpa [Request.item, hall, hlast] using hl.replicate pre.length

section Frames

variable {s : Session} {now : Nat} {jobID : String} {a : Act}

def Act.setsHidden : Act → Bool
  | .setHidden _ _ => true
  | .consumeHidden _ => true
  | .clearHidden _ => true
  | _ => false

theorem exec_hidden (ha : a.setsHidden = false) :
    (a.exec D now jobID s).sess.hidden = s.hidden := by
  cases a with
  | aborted n m => obtain ⟨_, _, h⟩ := exec_aborted_quiet n m; rw [h]
  | droppingUntilSync n m => obtain ⟨_, _, h⟩ := exec_droppingUntilSync_quiet n m; rw [h]
  | setHidden x ms => cases ha
  | consumeHidden r => cases ha
  | clearHidden h => cases ha
  | _ => dsimp only [Act.exec] <;> (repeat' split) <;> rfl

def Act.Mild (a : Act) : Prop := a.unplaced = none ∧ a.hiddenWrite = none ∧ a.clearing = none

theorem frontCode_mild {n : Nat} {m : Frontend} (h : FrontCode n m a) : a.Mild := by
  cases a with
  | writeUpstream o ms =>
    cases o <;> simp_all [Act.Mild, Act.unplaced, Act.hiddenWrite, Act.clearing]
  | _ => first | exact ⟨rfl, rfl, rfl⟩ | exact h.elim

theorem relayCode_mild {o : Origin} (h : RelayCode o a) : a.Mild := by
  cases a <;> first | exact ⟨rfl, rfl, rfl⟩ | exact h.elim

theorem repairCode_mild (h : RepairCode a) : a.Mild := by
  cases a <;> first | exact ⟨rfl, rfl, rfl⟩ | exact h.elim

theorem mild_of_plain (hs : a.setsHidden = false) (hw : ∀ o ms, a ≠ .writeUpstream o ms) :
    a.Mild := by
  cases a with
  | writeUpstream o ms => exact absurd rfl (hw o ms)
  | _ => first | exact ⟨rfl, rfl, rfl⟩ | cases hs

theorem relay_mild (r : Reply) : ∀ b ∈ relay D r, b.Mild := by
  obtain ⟨o, m⟩ := r
  cases m with
  | error e =>
    by_cases he : isConflict e.code = true <;>
      simp [relay, he, Act.Mild, Act.unplaced, Act.hiddenWrite, Act.clearing]
  | _ => simp [relay, Act.Mild, Act.unplaced, Act.hiddenWrite, Act.clearing]

theorem exec_mode_mild {rest : List Act} (h : BackMode (a :: rest)) (hs : a.setsHidden = false) :
    ∀ b ∈ (a.exec D now jobID s).next, b.Mild := by
  cases h with
  | offering => cases hs
  | ending => cases hs
  | @checking r =>
    dsimp only [Act.exec]
    split
    · dsimp only
      split <;> simp [Act.Mild, Act.unplaced, Act.hiddenWrite, Act.clearing]
    · split
      · exact relay_mild r
      · simp [Act.Mild, Act.unplaced, Act.hiddenWrite, Act.clearing]
  | @pending r =>
    dsimp only [Act.exec]
    split
    · simp
    · exact relay_mild r
  | relaying h => exact fun b hb => relayCode_mild (exec_relay (h a (by simp)) b hb)
  | repairing h =>
    cases h a (by simp) with
    | code h =>
      cases a with
      | setHidden x ms => cases hs
      | beginFailure n f => simp [Act.Mild, Act.unplaced, Act.hiddenWrite, Act.clearing]
      | _ => first | exact h.elim | simp
    | _ => simp
  | _ =>
    dsimp only [Act.exec]
    (repeat' split) <;> simp [Act.Mild, Act.unplaced, Act.hiddenWrite, Act.clearing]

end Frames

section Steps

variable {w : World U} {rest : List Act} {e : Effect}

@[simp] theorem World.hand_applyFront : (w.applyFront rest e).hand = w.hand := rfl

@[simp] theorem World.hand_applyBack :
    (w.applyBack rest e).hand = e.next.filterMap Act.unplaced ++ rest.filterMap Act.unplaced := by
  simp [World.hand, World.applyBack]

@[simp] theorem World.line_applyFront :
    (w.applyFront rest e).line = w.line ++ e.up.map Request.item := by
  simp [World.line, World.hand, World.applyFront]

theorem World.line_offered {r : Reply} (hb : w.back = [.consumeHidden r]) :
    w.line = r.item :: (w.fromUp.map Reply.item ++ w.toUp.map Request.item) := by
  simp [World.line, World.hand, hb, Act.unplaced]

theorem World.line_applyBack (h : (w.applyBack rest e).hand = w.hand) :
    (w.applyBack rest e).line = w.line ++ e.up.map Request.item := by
  simp only [World.line, h]
  simp [World.applyBack]

@[simp] theorem World.hiddenWrites_applyFront : (w.applyFront rest e).hiddenWrites =
    e.next.filterMap Act.hiddenWrite ++
      (rest.filterMap Act.hiddenWrite ++ w.back.filterMap Act.hiddenWrite) := by
  simp [World.hiddenWrites, World.applyFront]

@[simp] theorem World.hiddenWrites_applyBack : (w.applyBack rest e).hiddenWrites =
    w.front.filterMap Act.hiddenWrite ++
      (e.next.filterMap Act.hiddenWrite ++ rest.filterMap Act.hiddenWrite) := by
  simp [World.hiddenWrites, World.applyBack]

theorem Attributed.of_write (o : Origin) (ms : List Frontend) (h : Attributed w)
    (hw : (o, ms) ∈ w.hiddenWrites) :
    ∃ x, w.sess.hidden = some x ∧ x.origin = o ∧ w.line = [] ∧ w.hiddenWrites = [(o, ms)] ∧
      Closing ms ∧ w.back.filterMap Act.clearing = [] := by
  cases h with
  | @armed x ms' h₁ h₂ h₃ h₄ h₅ =>
    rw [h₃, List.mem_singleton, Prod.mk.injEq] at hw
    obtain ⟨rfl, rfl⟩ := hw
    exact ⟨x, h₁, rfl, h₂, h₃, h₄, h₅⟩
  | idle _ _ h₃ _ => simp [h₃] at hw
  | running _ _ h₃ _ => simp [h₃] at hw
  | ending _ _ h₃ _ _ => simp [h₃] at hw

theorem Attributed.append {w' : World U} {l : List (Origin × Bool)} (h : Attributed w)
    (hno : w.hiddenWrites = []) (hl : ∀ x ∈ l, ¬ x.1.IsHidden)
    (hid : w'.sess.hidden = w.sess.hidden) (hand : w'.hand = w.hand) (line : w'.line = w.line ++ l)
    (writes : w'.hiddenWrites = [])
    (clearing : w'.back.filterMap Act.clearing = w.back.filterMap Act.clearing) :
    Attributed w' := by
  have free (hw : ∀ x ∈ w.line, ¬ x.1.IsHidden) : ∀ x ∈ w'.line, ¬ x.1.IsHidden := by
    rw [line]
    exact fun x hx => (List.mem_append.1 hx).elim (hw x) (hl x)
  cases h with
  | idle h₁ h₂ _ h₄ => exact .idle (hid ▸ h₁) (free h₂) writes (clearing ▸ h₄)
  | armed _ _ h₃ _ _ => simp [h₃] at hno
  | running h₁ h₂ _ h₄ => exact .running (hid ▸ h₁) (line ▸ h₂.append hl) writes (clearing ▸ h₄)
  | ending h₁ h₂ _ h₄ h₅ => exact .ending (hid ▸ h₁) (free h₂) writes (hand ▸ h₄) (clearing ▸ h₅)

theorem filterMap_next {β : Type} {f : Act → Option β} {l : List Act} (h : ∀ b ∈ l, f b = none) :
    l.filterMap f = [] :=
  List.filterMap_eq_nil_iff.2 h

theorem exec_front_hiddenWrite {n : Nat} {m : Frontend} {s : Session} {now : Nat} {jobID : String}
    {a : Act} (hs : s.PendingInjected) (h : FrontAct n m a) (hx : ∀ x ms, a ≠ .setHidden x ms) :
    (a.exec D now jobID s).next.filterMap Act.hiddenWrite = [] := by
  cases h with
  | code h =>
    cases a with
    | setHidden x ms => exact absurd rfl (hx x ms)
    | beginFailure k f => simp [Act.hiddenWrite]
    | _ =>
      exact filterMap_next fun b hb =>
        (frontCode_mild (exec_frontCode hs h (by simp) (by simp) b hb)).2.1
  | _ => simp

theorem Attributed.front {a : Act} {now : Nat} {jobID : String} (h : Attributed w) (ht : Threads w)
    (hf : w.front = a :: rest) (hgap : Gap (.front now jobID) w) :
    Attributed (w.applyFront rest (a.exec D now jobID w.sess)) := by
  obtain ⟨m, -, ha⟩ := ht.head hf
  have hact : Label.act w (.front now jobID) = some a := by simp [Label.act, hf]
  have hwrites : w.hiddenWrites =
      a.hiddenWrite.toList ++
          (rest.filterMap Act.hiddenWrite ++ w.back.filterMap Act.hiddenWrite) := by
    simp only [World.hiddenWrites, hf, List.filterMap_cons]
    cases a.hiddenWrite <;> rfl
  cases a with
  | setHidden x ms =>
    obtain ⟨hid, hline⟩ := hgap.setHidden hact
    cases ha with
    | code ha =>
      obtain ⟨rfl, rfl⟩ := ha
      cases h with
      | idle _ _ h₃ h₄ =>
        refine .armed (h := ⟨_, .savepoint false⟩) rfl (by simp [hline]) ?_
          (closing_query "SAVEPOINT dsql_occ") h₄
        rw [World.hiddenWrites_applyFront]
        exact congrArg (_ :: ·) (hwrites.symm.trans h₃)
      | _ h₁ => simp [hid] at h₁
  | writeUpstream o ms =>
    by_cases ho : o.IsHidden
    · obtain ⟨p, k, rfl⟩ := ho
      obtain ⟨x, h₁, h₂, h₃, h₄, h₅, h₆⟩ :=
        h.of_write (.hidden p k) ms (by simp [hwrites, Act.hiddenWrite])
      have hrest : rest.filterMap Act.hiddenWrite ++ w.back.filterMap Act.hiddenWrite = [] := by
        simpa [h₄, Act.hiddenWrite] using hwrites.symm
      refine .running (h := x) h₁ ?_ (by simpa using hrest) h₆
      simpa [h₃, ← h₂] using leads_of_closing x.origin h₅
    · have hno := hgap.writeUpstream hact ho
      have hrest := hwrites.symm.trans hno
      exact h.append (l := (ms.map (Request.mk o)).map Request.item) hno
        (by simpa [Request.item] using fun _ _ => ho) rfl rfl
        (by simp) (by simpa using (List.append_eq_nil_iff.1 hrest).2) rfl
  | consumeHidden r => cases ha with | code ha => exact ha.elim
  | clearHidden x => cases ha with | code ha => exact ha.elim
  | _ =>
    refine h.congr (exec_hidden rfl) rfl ?_ ?_ rfl
    · rw [World.line_applyFront, exec_up (by simp), List.map_nil, List.append_nil]
    · rw [World.hiddenWrites_applyFront, exec_front_hiddenWrite ht.pending ha (by simp), hwrites]
      rfl

@[simp] theorem Exchange.purpose_note (x : Exchange) (m : Backend) :
    (x.note m).purpose = x.purpose := by
  cases x with
  | count repair rows failed => cases m <;> rfl
  | _ => rfl

theorem Attributed.back_plain {a : Act} (h : Attributed w) (ht : Threads w)
    (hb : w.back = a :: rest) (hs : a.setsHidden = false) (hw : ∀ o ms, a ≠ .writeUpstream o ms) :
    Attributed (w.applyBack rest (a.exec D 0 "" w.sess)) := by
  have hnext : ∀ b ∈ (a.exec D 0 "" w.sess).next, b.Mild := exec_mode_mild (hb ▸ ht.back) hs
  obtain ⟨hu, hh, hc⟩ := mild_of_plain hs hw
  have hsame : (w.applyBack rest (a.exec D 0 "" w.sess)).hand = w.hand := by
    rw [World.hand_applyBack, filterMap_next fun b hb => (hnext b hb).1, World.hand, hb,
      List.filterMap_cons, hu]
    rfl
  refine h.congr (exec_hidden hs) hsame ?_ ?_ ?_
  · rw [World.line_applyBack hsame, exec_up hw, List.map_nil, List.append_nil]
  · rw [World.hiddenWrites_applyBack, filterMap_next fun b hb => (hnext b hb).2.1,
      World.hiddenWrites, hb, List.filterMap_cons, hh]
    rfl
  · change List.filterMap Act.clearing (_ ++ rest) = _
    rw [List.filterMap_append, filterMap_next fun b hb => (hnext b hb).2.2, hb,
      List.filterMap_cons, hc]
    rfl

theorem Attributed.consumeHidden {r : Reply} (h : Attributed w) (hb : w.back = [.consumeHidden r]) :
    Attributed (w.applyBack [] ((Act.consumeHidden r).exec D 0 "" w.sess)) := by
  have hline : w.line = r.item :: (w.fromUp.map Reply.item ++ w.toUp.map Request.item) :=
    World.line_offered hb
  cases h with
  | idle h₁ h₂ h₃ h₄ =>
    have heff : (Act.consumeHidden r).exec D 0 "" w.sess =
        { sess := w.sess, next := [.failureActive r] } := by
      simp [h₁]
    rw [heff]
    refine .idle h₁ ?_ ?_ rfl
    · intro x hx
      exact h₂ x (hline ▸ List.mem_cons_of_mem _
        (by simpa [World.line, World.hand, World.applyBack, Act.unplaced] using hx))
    · simpa [World.hiddenWrites, World.applyBack, hb, Act.hiddenWrite] using h₃
  | armed _ h₂ => simp [h₂] at hline
  | @running x h₁ h₂ h₃ h₄ =>
    obtain ⟨ho, h⟩ := (hline ▸ h₂).head
    have hw : w.front.filterMap Act.hiddenWrite = [] := by
      simpa [World.hiddenWrites, hb, Act.hiddenWrite] using h₃
    rcases h with ⟨hready, hfree⟩ | ⟨hready, hleads⟩
    · have heff : (Act.consumeHidden r).exec D 0 "" w.sess =
          { sess := w.sess, next := [.clearHidden x], fates := [⟨r,
              .hidden x.exchange.purpose x.id⟩] } := by
        simp only [Act.exec, h₁]
        exact if_pos hready
      rw [heff]
      exact .ending h₁
        (by simpa [World.line, World.hand, World.applyBack, Act.unplaced] using hfree)
        (by simp [World.applyBack, World.hiddenWrites, hw, Act.hiddenWrite]) rfl rfl
    · have heff : (Act.consumeHidden r).exec D 0 "" w.sess =
          { sess := { w.sess with hidden := some { x with exchange := x.exchange.note r.msg } }
            next := if x.exchange.passes r.msg then [.writeClient ⟨.relayed r.origin, r.msg⟩]
              else []
            fates := [⟨r, .hidden x.exchange.purpose x.id⟩] } := by
        simp only [Act.exec, h₁]
        exact if_neg (by simpa [Reply.item] using hready)
      rw [heff]
      have hsame : x.origin = Hidden.origin { x with exchange := x.exchange.note r.msg } := by
        simp [Hidden.origin]
      refine .running rfl (hsame ▸ ?_) ?_ ?_
      · rw [World.line, World.hand_applyBack]
        cases x.exchange.passes r.msg <;>
          simpa [List.filterMap_cons, Act.unplaced, World.applyBack] using hleads
      · rw [World.hiddenWrites_applyBack, hw]
        cases x.exchange.passes r.msg <;> rfl
      · cases x.exchange.passes r.msg <;> simp [World.applyBack, Act.clearing]
  | ending _ _ _ h₄ => simp [World.hand, hb, Act.unplaced] at h₄

theorem Attributed.clearHidden {x : Hidden} (h : Attributed w) (hb : w.back = [.clearHidden x]) :
    Attributed (w.applyBack [] ((Act.clearHidden x).exec D 0 "" w.sess)) := by
  have hnext : ∀ b ∈ x.exchange.finish D, b.Mild :=
    fun b hb => repairCode_mild (finish_repair _ b hb)
  have hsame : (w.applyBack [] ((Act.clearHidden x).exec D 0 "" w.sess)).hand = w.hand := by
    rw [World.hand_applyBack, World.hand, hb]
    exact congrArg (· ++ _) (filterMap_next fun b hb => (hnext b hb).1)
  cases h with
  | ending h₁ h₂ h₃ h₄ h₅ =>
    refine .idle rfl ?_ ?_ ?_
    · rw [World.line_applyBack hsame]
      simpa using h₂
    · rw [World.hiddenWrites_applyBack]
      dsimp only [Act.exec]
      rw [filterMap_next fun b hb => (hnext b hb).2.1]
      simpa [World.hiddenWrites, hb, Act.hiddenWrite] using h₃
    · simpa [World.applyBack] using fun b hb => (hnext b hb).2.2
  | armed _ _ _ _ h₅ => simp [hb, Act.clearing] at h₅
  | _ _ _ _ h₄ => simp [hb, Act.clearing] at h₄

theorem Attributed.setHidden {x : Exchange} {ms : List Frontend} (h : Attributed w) (ht : Threads w)
    (hb : w.back = .setHidden x ms :: rest) (hid : w.sess.hidden = none) (hline : w.line = []) :
    Attributed (w.applyBack rest ((Act.setHidden x ms).exec D 0 "" w.sess)) := by
  have hclosing : Closing ms := by
    cases hb ▸ ht.back with
    | relaying hm => exact (hm _ List.mem_cons_self).elim
    | repairing hm => cases hm _ List.mem_cons_self with | code hm => exact hm.2
  have hsame : (w.applyBack rest ((Act.setHidden x ms).exec D 0 "" w.sess)).hand = w.hand := by
    rw [World.hand_applyBack, World.hand, hb]; rfl
  cases h with
  | idle _ _ h₃ h₄ =>
    rw [World.hiddenWrites, hb] at h₃
    obtain ⟨h₅, h₆⟩ := List.append_eq_nil_iff.1 h₃
    have h₇ : rest.filterMap Act.hiddenWrite = [] := h₆
    rw [hb] at h₄
    refine .armed (h := ⟨_, x⟩) rfl ?_ ?_ hclosing h₄
    · rw [World.line_applyBack hsame, hline]; rfl
    · rw [World.hiddenWrites_applyBack, h₅, h₇]
      rfl
  | _ h₁ => simp [hid] at h₁

theorem Attributed.writeBack {o : Origin} {ms : List Frontend} (h : Attributed w)
    (hb : w.back = .writeUpstream o ms :: rest) (hgap : ¬ o.IsHidden → w.hiddenWrites = []) :
    Attributed (w.applyBack rest ((Act.writeUpstream o ms).exec D 0 "" w.sess)) := by
  have hsame : (w.applyBack rest ((Act.writeUpstream o ms).exec D 0 "" w.sess)).hand = w.hand := by
    rw [World.hand_applyBack, World.hand, hb]; rfl
  have hclear : w.back.filterMap Act.clearing = rest.filterMap Act.clearing := by rw [hb]; rfl
  by_cases ho : o.IsHidden
  · obtain ⟨p, k, rfl⟩ := ho
    have hwrites : w.hiddenWrites =
        w.front.filterMap Act.hiddenWrite ++ (.hidden p k, ms) ::
            rest.filterMap Act.hiddenWrite := by
      rw [World.hiddenWrites, hb]; rfl
    obtain ⟨x, h₁, h₂, h₃, h₄, h₅, h₆⟩ := h.of_write (.hidden p k) ms (by simp [hwrites])
    have hrest : w.front.filterMap Act.hiddenWrite = [] ∧ rest.filterMap Act.hiddenWrite = [] := by
      rw [hwrites] at h₄
      simpa [List.append_eq_singleton_iff] using h₄
    refine .running (h := x) h₁ ?_ (by rw [World.hiddenWrites_applyBack, hrest.1, hrest.2]; rfl)
      (hclear.symm.trans h₆)
    rw [World.line_applyBack hsame, h₃, ← h₂]
    exact leads_of_closing x.origin h₅
  · have hno := hgap ho
    have hrest : w.front.filterMap Act.hiddenWrite = [] ∧ rest.filterMap Act.hiddenWrite = [] := by
      rw [World.hiddenWrites, hb] at hno
      obtain ⟨h₅, h₆⟩ := List.append_eq_nil_iff.1 hno
      exact ⟨h₅, (List.filterMap_eq_nil_iff.2 fun b hb => List.filterMap_eq_nil_iff.1 h₆ b
        (List.mem_cons_of_mem _ hb))⟩
    refine h.append hno ?_ rfl hsame (World.line_applyBack hsame) ?_ hclear.symm
    · simpa [Request.item] using fun _ _ => ho
    · rw [World.hiddenWrites_applyBack, hrest.1, hrest.2]
      rfl

theorem Attributed.back {a : Act} (h : Attributed w) (ht : Threads w) (hb : w.back = a :: rest)
    (hgap : Gap .back w) : Attributed (w.applyBack rest (a.exec D 0 "" w.sess)) := by
  have hact : Label.act w .back = some a := by simp [Label.act, hb]
  have hmode : BackMode (a :: rest) := hb ▸ ht.back
  cases a with
  | setHidden x ms => exact h.setHidden ht hb (hgap.setHidden hact).1 (hgap.setHidden hact).2
  | writeUpstream o ms => exact h.writeBack hb (hgap.writeUpstream hact)
  | consumeHidden r =>
    cases hmode with
    | offering => exact h.consumeHidden hb
    | relaying hm => exact (hm _ List.mem_cons_self).elim
    | repairing hm => cases hm _ List.mem_cons_self with | code hm => exact hm.elim
  | clearHidden x =>
    cases hmode with
    | ending => exact h.clearHidden hb
    | relaying hm => exact (hm _ List.mem_cons_self).elim
    | repairing hm => cases hm _ List.mem_cons_self with | code hm => exact hm.elim
  | _ => exact h.back_plain ht hb (by rfl) (by simp)

theorem Attributed.answer {q : Request} {qs : List Request} {c : U.Choice} (h : Attributed w)
    (hq : w.toUp = q :: qs) : Attributed (w.applyAnswer q qs (U.answer w.up q.msg c)) := by
  have he := expands_of_answers q.origin (U.answers w.up q.msg c)
  have hline : w.line = (w.hand.map Reply.item ++ w.fromUp.map Reply.item) ++ q.item ::
      qs.map Request.item := by
    simp [World.line, hq]
  have hline' : (w.applyAnswer q qs (U.answer w.up q.msg c)).line =
      (w.hand.map Reply.item ++ w.fromUp.map Reply.item) ++
        (((U.answer w.up q.msg c).2.map (Reply.mk q.origin)).map Reply.item ++
            qs.map Request.item) := by
    simp [World.line, World.hand, World.applyAnswer]
  cases h with
  | idle h₁ h₂ h₃ h₄ => exact .idle h₁ (hline' ▸ all_expand (¬ ·.IsHidden) (hline ▸ h₂) he) h₃ h₄
  | armed _ h₂ => simp [hline] at h₂
  | running h₁ h₂ h₃ h₄ => exact .running h₁ (hline' ▸ (hline ▸ h₂).expand he) h₃ h₄
  | ending h₁ h₂ h₃ h₄ h₅ =>
    exact .ending h₁ (hline' ▸ all_expand (¬ ·.IsHidden) (hline ▸ h₂) he) h₃ h₄ h₅

theorem Attributed.readUpstream {r : Reply} {rs : List Reply} (h : Attributed w) (hb : w.back = [])
    (hu : w.fromUp = r :: rs) : Attributed { w with back := pumpBackend r, fromUp := rs } := by
  have hline : World.line { w with back := pumpBackend r, fromUp := rs } = w.line := by
    cases hr : r.msg.isReady <;>
      simp [World.line, World.hand, hb, hu, pumpBackend, hr, List.filterMap_cons, Act.unplaced]
  have hwrites : World.hiddenWrites { w with back := pumpBackend r, fromUp := rs } =
      w.hiddenWrites := by
    cases hr : r.msg.isReady <;> simp [World.hiddenWrites, hb, pumpBackend, hr, Act.hiddenWrite]
  have hclear : (pumpBackend r).filterMap Act.clearing = [] := by
    cases hr : r.msg.isReady <;> simp [pumpBackend, hr, Act.clearing]
  cases h with
  | idle h₁ h₂ h₃ _ => exact .idle h₁ (hline ▸ h₂) (hwrites ▸ h₃) hclear
  | armed h₁ h₂ h₃ h₄ _ => exact .armed h₁ (hline ▸ h₂) (hwrites ▸ h₃) h₄ hclear
  | running h₁ h₂ h₃ _ => exact .running h₁ (hline ▸ h₂) (hwrites ▸ h₃) hclear
  | ending _ _ _ _ h₅ => simp [hb] at h₅

theorem Attributed.moves {l : Label U} {w' : World U} (h : Attributed w) (ht : Threads w)
    (hgap : Gap l w) (hm : Moves D l w w') : Attributed w' := by
  cases hm with
  | send => exact h.congr rfl rfl rfl rfl rfl
  | @readClient _ m _ hf _ _ =>
    refine h.congr rfl rfl rfl ?_ rfl
    have hp : (pumpFrontend w.read m).filterMap Act.hiddenWrite = [] :=
      filterMap_next fun b hb => (frontCode_mild (pumpFrontend_front b hb)).2.1
    simp [World.hiddenWrites, hf, hp]
  | front hf => exact h.front ht hf hgap
  | readUpstream hb hu _ => exact h.readUpstream hb hu
  | back hb => exact h.back ht hb hgap
  | answer hq => exact h.answer hq

end Steps

section Placing

variable {s : Session} {now : Nat} {jobID : String} {a : Act}

def Act.reply : Act → Option Reply
  | .consumeHidden r => some r
  | .failureActive r => some r
  | .repairPending r => some r
  | _ => none

def World.unread (w : World U) : List Reply := w.back.filterMap Act.reply ++ w.fromUp

theorem frontAct_fates {n : Nat} {m : Frontend} (h : FrontAct n m a) :
    (a.exec D now jobID s).fates = [] := by
  cases h with
  | code h =>
    cases a with
    | aborted k m => obtain ⟨_, _, h⟩ := exec_aborted_quiet k m; rw [h]
    | droppingUntilSync k m => obtain ⟨_, _, h⟩ := exec_droppingUntilSync_quiet k m; rw [h]
    | _ => first | exact h.elim | (dsimp only [Act.exec] <;> (repeat' split) <;> rfl)
  | _ => rfl

theorem relay_reply (r : Reply) : (relay D r).filterMap Act.reply = [] := by
  obtain ⟨o, m⟩ := r
  cases m with
  | error e => by_cases he : isConflict e.code = true <;> simp [relay, he, Act.reply]
  | _ => simp [relay, Act.reply]

theorem relayCode_reply {o : Origin} (h : RelayCode o a) : a.reply = none := by
  cases a <;> first | rfl | exact h.elim

theorem repairCode_reply (h : RepairCode a) : a.reply = none := by
  cases a <;> first | rfl | exact h.elim

theorem relayCode_fates {o : Origin} (h : RelayCode o a) : (a.exec D now jobID s).fates = [] := by
  cases a <;> first | exact h.elim | (dsimp only [Act.exec] <;> (repeat' split) <;> rfl)

theorem exec_reply {rest : List Act} (h : BackMode (a :: rest)) :
    (a.exec D now jobID s).fates.map Fate.reply ++ (a.exec D now jobID s).next.filterMap Act.reply =
      a.reply.toList := by
  cases h with
  | offering =>
    dsimp only [Act.exec]
    (repeat' split) <;> simp [Act.reply]
  | checking =>
    dsimp only [Act.exec]
    (repeat' split) <;> simp [Act.reply, relay_reply]
  | pending =>
    dsimp only [Act.exec]
    (repeat' split) <;> simp [Act.reply, relay_reply]
  | @ending x =>
    have hnext : (x.exchange.finish D).filterMap Act.reply = [] :=
      filterMap_next fun b hb => repairCode_reply (finish_repair _ b hb)
    simpa [Act.reply] using hnext
  | relaying h =>
    have ha := h a (by simp)
    rw [relayCode_fates ha, relayCode_reply ha, filterMap_next fun b hb =>
      relayCode_reply (exec_relay ha b hb)]
    rfl
  | repairing h =>
    cases h a (by simp) with
    | code h => cases a <;> first | exact h.elim | simp [Act.reply]
    | _ => simp [Act.reply]
  | _ =>
    dsimp only [Act.exec]
    (repeat' split) <;> simp [Act.reply]

def Placed (w : World U) : Prop := w.said = w.fates.map Fate.reply ++ w.unread

theorem Placed.moves {l : Label U} {w w' : World U} (h : Placed w) (ht : Threads w)
    (hm : Moves D l w w') : Placed w' := by
  cases hm with
  | @front _ now jobID a rest hf =>
    obtain ⟨m, -, ha⟩ := ht.head hf
    have hfates : (a.exec D now jobID w.sess).fates = [] := frontAct_fates ha
    unfold Placed at h ⊢
    rw [World.applyFront, hfates, List.append_nil]
    exact h
  | @readUpstream _ r rest hb hu _ =>
    unfold Placed at h ⊢
    cases hr : r.msg.isReady <;> simpa [World.unread, hb, hu, pumpBackend, hr, List.filterMap_cons,
      Act.reply] using h
  | @back _ a rest hb =>
    have hreply : (a.exec D 0 "" w.sess).fates.map Fate.reply ++
        (a.exec D 0 "" w.sess).next.filterMap Act.reply = a.reply.toList :=
          exec_reply (hb ▸ ht.back)
    have hcons : w.back.filterMap Act.reply = a.reply.toList ++ rest.filterMap Act.reply := by
      rw [hb, List.filterMap_cons]
      cases a.reply <;> rfl
    unfold Placed at h ⊢
    rw [World.unread, hcons, ← hreply] at h
    change w.said = (w.fates ++ _).map Fate.reply ++ ((_ ++ rest).filterMap Act.reply ++ w.fromUp)
    rw [h]
    simp only [List.map_append, List.filterMap_append, List.append_assoc]
  | answer hq =>
    unfold Placed at h ⊢
    simp [World.applyAnswer, World.unread, h]
  | _ => exact h

theorem placed {ok : Label U → World U → Prop} {w : World U} (hw : Reach (system D U) ok w) :
    Placed w := by
  refine (hw.invariant (I := fun w => Threads w ∧ Placed w) ⟨Threads.start, by rfl⟩ ?_).2
  exact fun l w w' h _ hs => ⟨h.1.moves (moves_of_step hs), h.2.moves h.1 (moves_of_step hs)⟩

end Placing

section Deliveries

variable {s : Session} {now : Nat} {jobID : String} {a : Act}

def Delivery.Clean (d : Delivery) : Prop :=
  ∀ p k, d.source = .relayed (.hidden p k) → p = .rowset ∧ d.msg.isResult = true

@[simp] def Act.Clean : Act → Prop
  | .writeClient d => d.Clean
  | .failureActive r => ¬ r.origin.IsHidden
  | .repairPending r => ¬ r.origin.IsHidden
  | .markJobDescribed o => ¬ o.IsHidden
  | .readInTxn o _ => ¬ o.IsHidden
  | .occIntercept o _ _ => ¬ o.IsHidden
  | .startRepair o _ => ¬ o.IsHidden
  | .rewriteCommandTag o _ => ¬ o.IsHidden
  | .claimJob o _ => ¬ o.IsHidden
  | _ => True

theorem clean_relayed {o : Origin} {m : Backend} (h : ¬ o.IsHidden) :
    Delivery.Clean ⟨.relayed o, m⟩ := by
  rintro p k ⟨⟩
  exact absurd ⟨p, k, rfl⟩ h

theorem relay_clean {r : Reply} (h : ¬ r.origin.IsHidden) : ∀ b ∈ relay D r, b.Clean := by
  obtain ⟨o, m⟩ := r
  cases m with
  | error e => by_cases he : isConflict e.code = true <;> simp [relay, he, clean_relayed h, h]
  | _ => simp [relay, clean_relayed h, h]

theorem relayCode_clean {o : Origin} (h : RelayCode o a) (ho : ¬ o.IsHidden) : a.Clean := by
  cases a with
  | writeClient d =>
    obtain ⟨src, m⟩ := d
    obtain rfl : src = .relayed o := h
    exact clean_relayed ho
  | readInTxn o' e => exact h.1 ▸ ho
  | occIntercept o' e inTxn => exact h.1 ▸ ho
  | _ => first | trivial | exact h.elim | exact h ▸ ho

theorem relayCode_clean_next {o : Origin} (h : RelayCode o a) (hc : a.Clean) (ho : o.IsHidden) :
    (a.exec D now jobID s).next = [] := by
  cases a with
  | writeClient d => rfl
  | takeJob => rfl
  | setStateTxStatus st => rfl
  | noteTxStatus st => dsimp only [Act.exec]; split <;> rfl
  | readInTxn o' e => exact absurd (h.1 ▸ ho) hc
  | occIntercept o' e inTxn => exact absurd (h.1 ▸ ho) hc
  | markJobDescribed o' => exact absurd (h ▸ ho) hc
  | rewriteCommandTag o' tag => exact absurd (h ▸ ho) hc
  | claimJob o' tag => exact absurd (h ▸ ho) hc
  | _ => exact h.elim

theorem repairCode_clean (h : RepairCode a) : a.Clean := by
  cases a with
  | writeClient d =>
    obtain ⟨n, hd⟩ := h
    intro p k hs
    cases hd.symm.trans hs
  | _ => trivial

theorem exec_clean {rest : List Act} (h : BackMode (a :: rest)) (hc : a.Clean)
    (hr : ∀ r, a ≠ .consumeHidden r) : ∀ b ∈ (a.exec D now jobID s).next, b.Clean := by
  cases h with
  | offering => exact absurd rfl (hr _)
  | ending => exact fun b hb => repairCode_clean (finish_repair _ b hb)
  | @checking r =>
    dsimp only [Act.exec]
    split
    · dsimp only
      split <;> simp
    · split
      · exact relay_clean hc
      · simpa using hc
  | pending =>
    dsimp only [Act.exec]
    split
    · simp
    · exact relay_clean hc
  | failing =>
    dsimp only [Act.exec]
    (repeat' split) <;> simp [Delivery.Clean]
  | starting =>
    dsimp only [Act.exec]
    split <;> simp [clean_relayed hc]
  | @relaying o _ h =>
    have h := h a (by simp)
    by_cases ho : o.IsHidden
    · rw [relayCode_clean_next h hc ho]
      exact List.forall_mem_nil _
    · exact fun b hb => relayCode_clean (exec_relay h b hb) ho
  | repairing h =>
    cases h a (by simp) with
    | code h => cases a <;> first | exact h.elim | simp
    | _ => simp
  | _ => simp_all

theorem exec_client_clean (hc : a.Clean) : ∀ d ∈ (a.exec D now jobID s).client, d.Clean := by
  cases a with
  | writeClient d => simpa using hc
  | aborted n m => obtain ⟨_, _, h⟩ := exec_aborted_quiet n m; rw [h]; simp
  | droppingUntilSync n m => obtain ⟨_, _, h⟩ := exec_droppingUntilSync_quiet n m; rw [h]; simp
  | _ => dsimp only [Act.exec]; (repeat' split) <;> simp

theorem frontAct_clean {n : Nat} {m : Frontend} (h : FrontAct n m a) : a.Clean := by
  cases h with
  | code h =>
    cases a with
    | writeClient d =>
      intro p k hs
      cases h.1.symm.trans hs
    | _ => trivial
  | _ => trivial

theorem exec_fates {rest : List Act} (h : BackMode (a :: rest)) (hc : a.Clean)
    (hr : ∀ r, a ≠ .consumeHidden r) :
    ∀ f ∈ (a.exec D now jobID s).fates, ∀ p k, f.taker = .hidden p k ↔
      f.reply.origin = .hidden p k := by
  have hplaced {r : Reply} {t : Taker} (hr : ¬ r.origin.IsHidden) (ht : ∀ p k, t ≠ .hidden p k) :
      ∀ f ∈ [Fate.mk r t], ∀ p k, f.taker = .hidden p k ↔ f.reply.origin = .hidden p k := by
    simp only [List.mem_singleton, forall_eq]
    exact fun p k => ⟨fun h => absurd h (ht p k), fun h => absurd ⟨p, k, h⟩ hr⟩
  cases h with
  | offering => exact absurd rfl (hr _)
  | checking =>
    dsimp only [Act.exec]
    (repeat' split) <;> first | exact hplaced hc (by simp) | simp
  | pending =>
    dsimp only [Act.exec]
    (repeat' split) <;> exact hplaced hc (by simp)
  | relaying h =>
    rw [relayCode_fates (h a (by simp))]
    simp
  | repairing h =>
    cases h a (by simp) with
    | code h => cases a <;> first | exact h.elim | simp
    | _ => simp
  | _ => dsimp only [Act.exec]; (repeat' split) <;> simp

structure Consumed (w : World U) : Prop where
  fates : ∀ f ∈ w.fates, ∀ p k, f.taker = .hidden p k ↔ f.reply.origin = .hidden p k
  back : ∀ a ∈ w.back, a.Clean
  got : ∀ d ∈ w.got, d.Clean

theorem passes_rowset {x : Exchange} {m : Backend} (h : x.passes m = true) :
    x.purpose = .rowset ∧ m.isResult = true := by
  cases x with
  | rowset repair failed =>
    cases m <;> simp_all [Exchange.passes, Exchange.purpose, Backend.isResult]
  | _ => simp [Exchange.passes] at h

theorem Consumed.consumeHidden {w : World U} {r : Reply} (h : Consumed w) (hat : Attributed w)
    (hb : w.back = [.consumeHidden r]) :
    Consumed (w.applyBack [] ((Act.consumeHidden r).exec D 0 "" w.sess)) := by
  have hline : w.line = r.item :: (w.fromUp.map Reply.item ++ w.toUp.map Request.item) :=
    World.line_offered hb
  cases hat with
  | idle h₁ h₂ _ _ =>
    have hr : ¬ r.origin.IsHidden := h₂ r.item (by simp [hline])
    refine ⟨fun f hf => h.fates f ?_, ?_, fun d hd => h.got d ?_⟩
    · simpa [World.applyBack, h₁] using hf
    · simpa [World.applyBack, h₁] using hr
    · simpa [World.applyBack, h₁] using hd
  | armed _ h₂ => simp [h₂] at hline
  | @running x h₁ h₂ _ _ =>
    have ho : r.origin = .hidden x.exchange.purpose x.id := (hline ▸ h₂).head.1
    have hfate : ∀ f ∈ w.fates ++ [⟨r, .hidden x.exchange.purpose x.id⟩], ∀ p k,
        f.taker = .hidden p k ↔ f.reply.origin = .hidden p k := by
      intro f hf
      rcases List.mem_append.1 hf with hf | hf
      · exact h.fates f hf
      · simp_all
    cases hready : r.msg.isReady with
    | true =>
      refine ⟨?_, ?_, fun d hd => h.got d ?_⟩
      · simpa only [World.applyBack, Act.exec, h₁, hready, if_true] using hfate
      · simp [World.applyBack, h₁, hready]
      · simpa [World.applyBack, h₁, hready] using hd
    | false =>
      refine ⟨?_, ?_, fun d hd => h.got d ?_⟩
      · simpa only [World.applyBack, Act.exec, h₁, hready, Bool.false_eq_true, if_false] using hfate
      · cases hp : x.exchange.passes r.msg with
        | true =>
          obtain ⟨hpurpose, hresult⟩ := passes_rowset hp
          simpa [World.applyBack, h₁, hready, hp, Delivery.Clean, ho, hpurpose] using hresult
        | false => simp [World.applyBack, h₁, hready, hp]
      · simpa [World.applyBack, h₁, hready] using hd
  | ending _ _ _ h₄ => simp [World.hand, hb, Act.unplaced] at h₄

theorem Consumed.moves {l : Label U} {w w' : World U} (h : Consumed w) (ht : Threads w)
    (hat : Attributed w) (hm : Moves D l w w') : Consumed w' := by
  cases hm with
  | @front _ now jobID a rest hf =>
    obtain ⟨m, -, ha⟩ := ht.head hf
    have hfates : (a.exec D now jobID w.sess).fates = [] := frontAct_fates ha
    refine ⟨?_, h.back, fun d hd => ?_⟩
    · rw [World.applyFront, hfates, List.append_nil]
      exact h.fates
    · exact (List.mem_append.1 hd).elim (h.got d) (exec_client_clean (frontAct_clean ha) d)
  | @readUpstream _ r rest hb hu _ =>
    refine ⟨h.fates, ?_, h.got⟩
    cases hr : r.msg.isReady <;> simp [pumpBackend, hr]
  | @back _ a rest hb =>
    have hmode : BackMode (a :: rest) := hb ▸ ht.back
    have hc : a.Clean := h.back a (by simp [hb])
    by_cases hr : ∃ r, a = .consumeHidden r
    · obtain ⟨r, rfl⟩ := hr
      cases hmode with
      | offering => exact h.consumeHidden hat hb
      | relaying hm => exact (hm _ List.mem_cons_self).elim
      | repairing hm => cases hm _ List.mem_cons_self with | code hm => exact hm.elim
    · replace hr : ∀ r, a ≠ .consumeHidden r := fun r hr' => hr ⟨r, hr'⟩
      refine ⟨fun f hf => ?_, fun b hb' => ?_, fun d hd => ?_⟩
      · exact (List.mem_append.1 hf).elim (h.fates f) (exec_fates hmode hc hr f)
      · rcases List.mem_append.1 hb' with hb' | hb'
        · exact exec_clean hmode hc hr b hb'
        · exact h.back b (by simp [hb, hb'])
      · exact (List.mem_append.1 hd).elim (h.got d) (exec_client_clean hc d)
  | _ => exact ⟨h.fates, h.back, h.got⟩

theorem consumed {w : World U} (hw : Reach (system D U) Gap w) : Consumed w := by
  refine (hw.invariant (I := fun w => Threads w ∧ Attributed w ∧ Consumed w) ?_ ?_).2.2
  · exact ⟨Threads.start, .idle rfl (by simp [system, World.start, World.line, World.hand]) rfl rfl,
      by simp [system, World.start], by simp [system, World.start], by simp [system, World.start]⟩
  · rintro l w w' ⟨ht, ha, hc⟩ hgap hs
    have hm := moves_of_step hs
    exact ⟨ht.moves hm, ha.moves ht hgap hm, hc.moves ht ha hm⟩

/-- In a run in which every exchange is armed in a gap, an exchange takes the
messages that answer its own statement and no others, takes all of them, and the
client gets none of them but the rows of a locking `SELECT`. -/
theorem hidden_takes_own {w : World U} (hw : Reach (system D U) Gap w) :
    (∀ f ∈ w.fates, ∀ p k, f.taker = .hidden p k ↔ f.reply.origin = .hidden p k) ∧
    (∀ r ∈ w.said, ∀ p k, r.origin = .hidden p k → ⟨r, .hidden p k⟩ ∈ w.fates ∨ r ∈ w.unread) ∧
    ∀ d ∈ w.got, ∀ p k, d.source = .relayed (.hidden p k) → p = .rowset ∧
      d.msg.isResult = true := by
  have hc := consumed hw
  refine ⟨hc.fates, fun r hr p k ho => ?_, hc.got⟩
  rw [placed hw, List.mem_append, List.mem_map] at hr
  rcases hr with ⟨⟨r', t⟩, hf, rfl⟩ | hr
  · left
    have ht : t = .hidden p k := (hc.fates _ hf p k).2 ho
    exact ht ▸ hf
  · exact .inr hr

def lockStepInsert : List (Label .any) :=
  List.flatten
    [[.send (.query "BEGIN"), .readClient], fronts 8,
      [.answer ([.commandComplete "BEGIN"], .active), .readUpstream],
      backs 6, [.readUpstream], backs 8, [.send (.query "INSERT INTO t VALUES (1)"), .readClient],
        fronts 14, [.answer ([.commandComplete "SAVEPOINT"], .active), .readUpstream], backs 1,
        [.readUpstream], backs 3]

theorem hidden_takes_own_savepoint :
    let w := (system (.sample []) .any).dest Gap lockStepInsert
    ⟨⟨.hidden .savepoint 0, .ready .active⟩, .hidden .savepoint 0⟩ ∈ w.fates ∧
      (∀ f ∈ w.fates, ∀ p k, f.taker = .hidden p k ↔ f.reply.origin = .hidden p k) ∧
      (∀ r ∈ w.said, ∀ p k, r.origin = .hidden p k → ⟨r, .hidden p k⟩ ∈ w.fates ∨ r ∈ w.unread) ∧
      ∀ d ∈ w.got, ∀ p k, d.source = .relayed (.hidden p k) → p = .rowset ∧ d.msg.isResult = true :=
  ⟨by decide +kernel, hidden_takes_own (Reach.dest _ _)⟩

def pipelinedInsert : List (Label .any) :=
  List.flatten
    [[.send (.query "BEGIN"), .send (.query "INSERT INTO t VALUES (1)"), .readClient], fronts 8,
      [.answer ([.commandComplete "BEGIN"], .active), .readUpstream], backs 6,
        [.readUpstream, .back, .readClient], fronts 8, backs 1]

theorem hidden_takes_client_ready :
    ∃ w : World .any, Reachable (system (.sample []) .any) w ∧
      ⟨⟨.client 0, .ready .active⟩, .hidden .savepoint 0⟩ ∈ w.fates :=
  ⟨(system (.sample []) .any).dest (fun _ _ => True) pipelinedInsert,
    Reach.dest _ _, by decide +kernel⟩

end Deliveries

end DsqlEmulator.Proxy
