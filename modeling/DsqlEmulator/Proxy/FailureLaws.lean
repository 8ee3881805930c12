import DsqlEmulator.Proxy.HiddenLaws
import DsqlEmulator.Proxy.OrderLaws

/-! Which messages of the upstream an injected failure takes.  The session counts
`ReadyForQuery` messages, so a failure has to be armed while the only ones on
their way are those it counts on. -/

namespace DsqlEmulator.Proxy

open Wire Occ Txn Runs Line

variable {U : Upstream} {D : Dialect}

def Origin.IsFailure (o : Origin) : Prop := ∃ k, o = .failure k

instance : DecidablePred Origin.IsFailure
  | .client _ => .isFalse (by rintro ⟨_, h⟩; cases h)
  | .hidden _ _ => .isFalse (by rintro ⟨_, h⟩; cases h)
  | .failure k => .isTrue ⟨k, rfl⟩

@[simp] theorem Origin.isFailure_client (n : Nat) : ¬ (Origin.client n).IsFailure := by
  simp [IsFailure]
@[simp] theorem Origin.isFailure_hidden (p : Purpose) (k : Nat) :
    ¬ (Origin.hidden p k).IsFailure := by simp [IsFailure]
@[simp] theorem Origin.isFailure_failure (k : Nat) : (Origin.failure k).IsFailure := ⟨k, rfl⟩

theorem Origin.IsHidden.not_isFailure {o : Origin} (h : o.IsHidden) : ¬ o.IsFailure := by
  obtain ⟨p, k, rfl⟩ := h
  simp

def Act.unclaimed : Act → Option Reply
  | .consumeHidden r => some r
  | .failureActive r => some r
  | _ => none

def Act.failureWrite : Act → Option Origin
  | .writeUpstream (.failure k) _ => some (.failure k)
  | _ => none

def World.unclaimed (w : World U) : List (Origin × Bool) :=
  (w.back.filterMap Act.unclaimed).map Reply.item ++
    (w.fromUp.map Reply.item ++ w.toUp.map Request.item)

def World.closers (w : World U) : List Origin := Line.closers Origin.IsHidden w.unclaimed

def World.failureWrites (w : World U) : List Origin :=
  w.front.filterMap Act.failureWrite ++ w.back.filterMap Act.failureWrite

def Act.arming : Act → Option (Nat × TxnFailure)
  | .beginFailure n f => some (n, f)
  | _ => none

def Alone (l : Label U) (w : World U) : Prop :=
  (∀ x ∈ (l.act w).bind Act.arming, w.sess.failure = none ∧
      w.closers = if x.2.swallow = 2 then [.client x.1] else []) ∧
    ∀ o ∈ (l.act w).bind Act.writing, o.IsFailure ∨ w.failureWrites = []

instance (l : Label U) (w : World U) : Decidable (Alone l w) := inferInstanceAs (Decidable (_ ∧ _))

theorem Alone.beginFailure {l : Label U} {w : World U} {n : Nat} {f : TxnFailure} (h : Alone l w)
    (ha : l.act w = some (.beginFailure n f)) :
    w.sess.failure = none ∧ w.closers = if f.swallow = 2 then [.client n] else [] :=
  h.1 (n, f) (by rw [ha]; rfl)

theorem Alone.writeUpstream {l : Label U} {w : World U} {o : Origin} {ms : List Frontend}
    (h : Alone l w) (ha : l.act w = some (.writeUpstream o ms)) (ho : ¬ o.IsFailure) :
    w.failureWrites = [] :=
  (h.2 o (by rw [ha]; rfl)).resolve_left ho

def Armed.Own (a : Armed) (o : Origin) : Prop :=
  (∀ k, o = .failure k → k = a.id) ∧ (a.failure.swallow = 2 → ∀ n, o = .client n → n ≤ a.request)

theorem Armed.own_self (a : Armed) : a.Own (.failure a.id) := by
  constructor
  · rintro k ⟨⟩; rfl
  · rintro - n ⟨⟩

def World.taking (w : World U) : Nat := w.back.count .consumeFailureMessage

structure Injecting (w : World U) (a : Armed) (script later : List Origin) : Prop where
  failure : w.sess.failure = some a
  count : a.failure.swallow = w.sess.failureRFQs + w.taking + script.length
  shape : script = [.client a.request, .failure a.id] ∧ a.failure.swallow = 2 ∨
    script = [.failure a.id] ∨ script = [] ∧ w.taking = 1
  owing : w.closers ++ w.failureWrites = script ++ later
  spared : ∀ o ∈ later, ¬ o.IsFailure
  pending : w.failureWrites ≠ [] → w.failureWrites = [.failure a.id] ∧ later = [] ∧
    ∀ x ∈ w.unclaimed, a.Own x.1
  written : w.failureWrites = [] → script ≠ [] → Through a.Own (¬ ·.IsFailure) (.failure a.id)
    w.unclaimed
  ended : script = [] → ∀ x ∈ w.unclaimed, ¬ x.1.IsFailure

inductive Failing (w : World U) : Prop
  | quiet : w.sess.failure = none → (∀ x ∈ w.unclaimed, ¬ x.1.IsFailure) → w.failureWrites = [] →
      w.taking = 0 → Failing w
  | injecting {a script later} : Injecting w a script later → Failing w

theorem Failing.congr {w w' : World U} (h : Failing w) (hf : w'.sess.failure = w.sess.failure)
    (hn : w'.sess.failureRFQs = w.sess.failureRFQs) (hu : w'.unclaimed = w.unclaimed)
    (hw : w'.failureWrites = w.failureWrites) (ht : w'.taking = w.taking) : Failing w' := by
  cases h with
  | quiet h₁ h₂ h₃ h₄ => exact .quiet (hf ▸ h₁) (hu ▸ h₂) (hw ▸ h₃) (ht ▸ h₄)
  | injecting h =>
    refine .injecting ⟨hf ▸ h.failure, by rw [hn, ht]; exact h.count, by rw [ht]; exact h.shape, ?_,
      h.spared, ?_, ?_, ?_⟩
    · rw [World.closers, hu, hw]; exact h.owing
    · rw [hw, hu]; exact h.pending
    · rw [hw, hu]; exact h.written
    · rw [hu]; exact h.ended

section Line

variable {w w' : World U}

theorem Failing.drop {x : Origin × Bool} (h : Failing w) (hx : x.1.IsHidden)
    (hu : w.unclaimed = x :: w'.unclaimed) (hf : w'.sess.failure = w.sess.failure)
    (hn : w'.sess.failureRFQs = w.sess.failureRFQs) (hw : w'.failureWrites = w.failureWrites)
    (ht : w'.taking = w.taking) : Failing w' := by
  have hc : w'.closers = w.closers := by
    rw [World.closers, World.closers, hu, closers_cons]
    simp [hx]
  have hmem : ∀ y ∈ w'.unclaimed, y ∈ w.unclaimed := fun y hy => hu ▸ List.mem_cons_of_mem _ hy
  cases h with
  | quiet h₁ h₂ h₃ h₄ => exact .quiet (hf ▸ h₁) (fun y hy => h₂ y (hmem y hy)) (hw ▸ h₃) (ht ▸ h₄)
  | injecting h =>
    refine .injecting ⟨hf ▸ h.failure, by rw [hn, ht]; exact h.count, by rw [ht]; exact h.shape,
      by rw [hc, hw]; exact h.owing, h.spared, ?_, ?_, fun hs y hy => h.ended hs y (hmem y hy)⟩
    · rw [hw]
      exact fun hne =>
        ⟨(h.pending hne).1, (h.pending hne).2.1, fun y hy => (h.pending hne).2.2 y (hmem y hy)⟩
    · rw [hw]
      intro hnil hs
      have hthrough := h.written hnil hs
      rw [hu] at hthrough
      cases hthrough with
      | here => exact absurd ⟨_, rfl⟩ hx.not_isFailure
      | skip _ hthrough => exact hthrough

theorem Failing.append {l : List (Origin × Bool)} (h : Failing w) (hl : ∀ x ∈ l, ¬ x.1.IsFailure)
    (hnil : w.failureWrites = []) (hu : w'.unclaimed = w.unclaimed ++ l)
    (hf : w'.sess.failure = w.sess.failure) (hn : w'.sess.failureRFQs = w.sess.failureRFQs)
    (hw : w'.failureWrites = []) (ht : w'.taking = w.taking) : Failing w' := by
  have hfree (h : ∀ x ∈ w.unclaimed, ¬ x.1.IsFailure) : ∀ x ∈ w'.unclaimed, ¬ x.1.IsFailure := by
    rw [hu]
    exact fun x hx => (List.mem_append.1 hx).elim (h x) (hl x)
  cases h with
  | quiet h₁ h₂ h₃ h₄ => exact .quiet (hf ▸ h₁) (hfree h₂) hw (ht ▸ h₄)
  | @injecting a script later h =>
    suffices Injecting w' a script (later ++ closers Origin.IsHidden l) from .injecting this
    refine ⟨hf ▸ h.failure, by rw [hn, ht]; exact h.count, by rw [ht]; exact h.shape, ?_, ?_,
      fun hne => absurd hw hne, fun _ hs => ?_, fun hs => hfree (h.ended hs)⟩
    · have := h.owing
      rw [hnil, List.append_nil] at this
      rw [hw, World.closers, hu, closers_append, List.append_nil, ← List.append_assoc, ← this]
      rfl
    · intro o ho
      rcases List.mem_append.1 ho with ho | ho
      · exact h.spared o ho
      · exact hl _ (mem_of_mem_closers ho)
    · rw [hu]
      exact (h.written hnil hs).append hl

theorem Failing.write {k : Nat} (h : Failing w) (hk : .failure k ∈ w.failureWrites)
    (hu : w'.unclaimed = w.unclaimed ++ [(.failure k, true)])
    (hf : w'.sess.failure = w.sess.failure) (hn : w'.sess.failureRFQs = w.sess.failureRFQs)
    (hw : ∀ o, w.failureWrites = [o] → w'.failureWrites = []) (ht : w'.taking = w.taking) :
    Failing w' := by
  cases h with
  | quiet _ _ h₃ _ => simp [h₃] at hk
  | @injecting a script later h =>
    obtain ⟨hone, rfl, hown⟩ := h.pending (List.ne_nil_of_mem hk)
    rw [hone, List.mem_singleton, Origin.failure.injEq] at hk
    subst hk
    have hnil := hw _ hone
    have howing := h.owing
    rw [hone, List.append_nil] at howing
    have hne : script ≠ [] := by rintro rfl; simp at howing
    suffices Injecting w' a script [] from .injecting this
    refine ⟨hf ▸ h.failure, by rw [hn, ht]; exact h.count, by rw [ht]; exact h.shape, ?_, by simp,
      fun hne => absurd hnil hne, fun _ _ => ?_, fun hs => absurd hs hne⟩
    · rw [hnil, World.closers, hu, closers_append, List.append_nil, List.append_nil, ← howing]
      simp [World.closers, closers_cons]
    · rw [hu]
      exact .of_all hown

theorem Failing.answer {q : Request} {qs : List Request} {c : U.Choice} (h : Failing w)
    (hq : w.toUp = q :: qs) : Failing (w.applyAnswer q qs (U.answer w.up q.msg c)) := by
  have he := expands_of_answers q.origin (U.answers w.up q.msg c)
  have hu : w.unclaimed =
    ((w.back.filterMap Act.unclaimed).map Reply.item ++ w.fromUp.map Reply.item) ++
      q.item :: qs.map Request.item := by
    simp [World.unclaimed, hq]
  have hu' : (w.applyAnswer q qs (U.answer w.up q.msg c)).unclaimed =
      ((w.back.filterMap Act.unclaimed).map Reply.item ++ w.fromUp.map Reply.item) ++
        (((U.answer w.up q.msg c).2.map (Reply.mk q.origin)).map Reply.item ++
            qs.map Request.item) := by
    simp [World.unclaimed, World.applyAnswer]
  have hall (p : Origin → Prop) (hp : ∀ x ∈ w.unclaimed, p x.1) :
      ∀ x ∈ (w.applyAnswer q qs (U.answer w.up q.msg c)).unclaimed, p x.1 := by
    rw [hu']
    exact all_expand p (hu ▸ hp) he
  cases h with
  | quiet h₁ h₂ h₃ h₄ => exact .quiet h₁ (hall (¬ ·.IsFailure) h₂) h₃ h₄
  | @injecting a script later h =>
    refine .injecting ⟨h.failure, h.count, h.shape, ?_, h.spared, fun hne => ?_, fun hnil hs => ?_,
      fun hs => hall (¬ ·.IsFailure) (h.ended hs)⟩
    · rw [World.closers, hu', closers_expand he]
      change closers Origin.IsHidden (_ ++ q.item :: _) ++ w.failureWrites = _
      rw [← hu]
      exact h.owing
    · exact ⟨(h.pending hne).1, (h.pending hne).2.1, hall a.Own (h.pending hne).2.2⟩
    · rw [hu']
      exact (hu ▸ h.written hnil hs).expand (Armed.own_self _) he

variable {a : Armed} {script later : List Origin} {o : Origin}

theorem Injecting.script_ne_nil (h : Injecting w a script later) (h0 : w.taking = 0) :
    script ≠ [] := by
  rintro rfl
  rcases h.shape with ⟨h, -⟩ | h | ⟨-, h⟩
  · cases h
  · cases h
  · omega

theorem Injecting.own {b : Bool} {l : List (Origin × Bool)} (h : Injecting w a script later)
    (h0 : w.taking = 0) (hu : w.unclaimed = (o, b) :: l) : a.Own o := by
  by_cases hnil : w.failureWrites = []
  · have hthrough := h.written hnil (h.script_ne_nil h0)
    rw [hu] at hthrough
    cases hthrough with
    | here => exact a.own_self
    | skip hq _ => exact hq
  · exact (h.pending hnil).2.2 (o, b) (by simp [hu])

theorem Injecting.skip (h : Injecting w a script later) (h0 : w.taking = 0)
    (hu : w.unclaimed = (o, false) :: w'.unclaimed) (hf : w'.sess.failure = w.sess.failure)
    (hn : w'.sess.failureRFQs = w.sess.failureRFQs) (hw : w'.failureWrites = w.failureWrites)
    (ht : w'.taking = w.taking) : Injecting w' a script later := by
  have hc : w'.closers = w.closers := by
    rw [World.closers, World.closers, hu, closers_cons]
    simp
  have hmem : ∀ y ∈ w'.unclaimed, y ∈ w.unclaimed := fun y hy => hu ▸ List.mem_cons_of_mem _ hy
  refine ⟨hf ▸ h.failure, by rw [hn, ht]; exact h.count, by rw [ht]; exact h.shape,
    by rw [hc, hw]; exact h.owing, h.spared, ?_, ?_, fun hs => absurd hs (h.script_ne_nil h0)⟩
  · rw [hw]
    exact fun hne =>
      ⟨(h.pending hne).1, (h.pending hne).2.1, fun y hy => (h.pending hne).2.2 y (hmem y hy)⟩
  · rw [hw]
    intro hnil hs
    have hthrough := h.written hnil hs
    rw [hu] at hthrough
    cases hthrough with
    | skip _ hthrough => exact hthrough

theorem Injecting.take (h : Injecting w a script later) (h0 : w.taking = 0)
    (hu : w.unclaimed = (o, true) :: w'.unclaimed) (ho : ¬ o.IsHidden)
    (hf : w'.sess.failure = w.sess.failure) (hn : w'.sess.failureRFQs = w.sess.failureRFQs)
    (hw : w'.failureWrites = w.failureWrites) (ht : w'.taking = 1) :
    ∃ script', script = o :: script' ∧ Injecting w' a script' later := by
  have hc : w.closers = o :: w'.closers := by
    rw [World.closers, World.closers, hu, closers_cons]
    simp [ho]
  have hmem : ∀ y ∈ w'.unclaimed, y ∈ w.unclaimed := fun y hy => hu ▸ List.mem_cons_of_mem _ hy
  have howing := h.owing
  rw [hc, List.cons_append] at howing
  obtain ⟨o', script', rfl⟩ := List.exists_cons_of_ne_nil (h.script_ne_nil h0)
  rw [List.cons_append, List.cons.injEq] at howing
  obtain ⟨rfl, howing⟩ := howing
  refine ⟨script', rfl, hf ▸ h.failure, ?_, ?_, by rw [hw]; exact howing, h.spared, ?_, ?_, ?_⟩
  · rw [hn, ht, h.count, h0, List.length_cons]
    omega
  · rcases h.shape with ⟨h, -⟩ | h | ⟨h, -⟩
    · exact .inr (.inl (List.cons.inj h).2)
    · exact .inr (.inr ⟨(List.cons.inj h).2, ht⟩)
    · cases h
  · rw [hw]
    exact fun hne =>
      ⟨(h.pending hne).1, (h.pending hne).2.1, fun y hy => (h.pending hne).2.2 y (hmem y hy)⟩
  · rw [hw]
    intro hnil hs
    have hthrough := h.written hnil (by simp)
    rw [hu] at hthrough
    cases hthrough with
    | here =>
      rcases h.shape with ⟨h, -⟩ | h | ⟨h, -⟩
      · cases (List.cons.inj h).1
      · exact absurd (List.cons.inj h).2 hs
      · cases h
    | skip _ hthrough => exact hthrough
  · rintro rfl
    by_cases hnil : w.failureWrites = []
    · have hthrough := h.written hnil (by simp)
      rw [hu] at hthrough
      cases hthrough with
      | here hr => exact hr
      | skip _ hthrough =>
        -- a second end of the failing statement's answer would be spared
        have hspared : .failure a.id ∈ later := by
          rw [hnil, List.append_nil, List.nil_append] at howing
          exact howing ▸ mem_closers hthrough.mem (by simp)
        exact absurd ⟨_, rfl⟩ (h.spared _ hspared)
    · obtain ⟨hone, rfl, -⟩ := h.pending hnil
      simp [hone] at howing

end Line

section Frames

variable {s : Session} {now : Nat} {jobID : String} {a : Act}

theorem exec_failure (hb : ∀ n f, a ≠ .beginFailure n f) (hc : a ≠ .consumeFailureMessage) :
    (a.exec D now jobID s).sess.failure = s.failure ∧ (a.exec D now jobID s).sess.failureRFQs =
      s.failureRFQs := by
  cases a with
  | beginFailure n f => exact absurd rfl (hb n f)
  | consumeFailureMessage => exact absurd rfl hc
  | aborted n m => obtain ⟨_, _, h⟩ := exec_aborted_quiet n m; rw [h]; exact ⟨rfl, rfl⟩
  | droppingUntilSync n m =>
    obtain ⟨_, _, h⟩ := exec_droppingUntilSync_quiet n m; rw [h]; exact ⟨rfl, rfl⟩
  | _ => dsimp only [Act.exec]; (repeat' split) <;> exact ⟨rfl, rfl⟩

def Act.Inert (a : Act) : Prop :=
  a.unclaimed = none ∧ a.failureWrite = none ∧ a ≠ .consumeFailureMessage

theorem failureWrite_of_not_write (hw : ∀ o ms, a ≠ .writeUpstream o ms) :
    a.failureWrite = none := by
  cases a with
  | writeUpstream o ms => exact absurd rfl (hw o ms)
  | _ => rfl

theorem frontCode_inert {n : Nat} {m : Frontend} (h : FrontCode n m a) : a.Inert := by
  cases a with
  | writeUpstream o ms => cases o <;> simp_all [Act.Inert, Act.unclaimed, Act.failureWrite]
  | consumeFailureMessage => exact h.elim
  | _ => first | exact ⟨rfl, rfl, by simp⟩ | exact h.elim

theorem relayCode_inert {o : Origin} (h : RelayCode o a) : a.Inert := by
  cases a with
  | consumeFailureMessage => exact h.elim
  | _ => first | exact ⟨rfl, rfl, by simp⟩ | exact h.elim

theorem repairCode_inert (h : RepairCode a) : a.Inert := by
  cases a with
  | consumeFailureMessage => exact h.elim
  | _ => first | exact ⟨rfl, rfl, by simp⟩ | exact h.elim

theorem relay_inert (r : Reply) : ∀ b ∈ relay D r, b.Inert := by
  obtain ⟨o, m⟩ := r
  cases m with
  | error e =>
    by_cases he : isConflict e.code = true <;>
      simp [relay, he, Act.Inert, Act.unclaimed, Act.failureWrite]
  | _ => simp [relay, Act.Inert, Act.unclaimed, Act.failureWrite]

theorem exec_front_inert {n : Nat} {m : Frontend} (hs : s.PendingInjected) (h : FrontAct n m a)
    (hb : ∀ n f, a ≠ .beginFailure n f) : ∀ b ∈ (a.exec D now jobID s).next, b.Inert := by
  cases h with
  | code h =>
    cases a with
    | beginFailure k f => exact absurd rfl (hb k f)
    | setHidden x ms => simp [Act.Inert, Act.unclaimed, Act.failureWrite]
    | _ => exact fun b hb => frontCode_inert (exec_frontCode hs h (by simp) (by simp) b hb)
  | _ => simp

def Act.Claims (a : Act) : Prop :=
  (∃ r, a = .consumeHidden r) ∨ (∃ r, a = .failureActive r) ∨ a = .consumeFailureMessage ∨
    ∃ n f, a = .beginFailure n f

theorem exec_mode_inert {rest : List Act} (h : BackMode (a :: rest)) (ha : ¬ a.Claims) :
    ∀ b ∈ (a.exec D now jobID s).next, b.Inert := by
  cases h with
  | offering => exact absurd (.inl ⟨_, rfl⟩) ha
  | checking => exact absurd (.inr (.inl ⟨_, rfl⟩)) ha
  | failing => exact absurd (.inr (.inr (.inl rfl))) ha
  | ending => exact fun b hb => repairCode_inert (finish_repair _ b hb)
  | @pending r =>
    dsimp only [Act.exec]
    split
    · simp
    · exact relay_inert r
  | relaying h => exact fun b hb => relayCode_inert (exec_relay (h a (by simp)) b hb)
  | repairing h =>
    cases h a (by simp) with
    | code h =>
      cases a with
      | setHidden x ms => simp [Act.Inert, Act.unclaimed, Act.failureWrite]
      | beginFailure n f => exact absurd (.inr (.inr (.inr ⟨n, f, rfl⟩))) ha
      | _ => first | exact h.elim | simp
    | _ => simp
  | _ =>
    dsimp only [Act.exec]
    (repeat' split) <;> simp [Act.Inert, Act.unclaimed, Act.failureWrite]

theorem count_inert {l : List Act} (h : ∀ b ∈ l, b.Inert) : l.count .consumeFailureMessage = 0 :=
  List.count_eq_zero.2 fun hm => (h _ hm).2.2 rfl

end Frames

section Steps

variable {w : World U} {rest : List Act} {e : Effect} {a : Act}

@[simp] theorem World.unclaimed_applyFront :
    (w.applyFront rest e).unclaimed = w.unclaimed ++ e.up.map Request.item := by
  simp [World.unclaimed, World.applyFront]

theorem World.unclaimed_applyBack : (w.applyBack rest e).unclaimed =
    ((e.next ++ rest).filterMap Act.unclaimed).map Reply.item ++
      (w.fromUp.map Reply.item ++ w.toUp.map Request.item) ++ e.up.map Request.item := by
  simp [World.unclaimed, World.applyBack]

@[simp] theorem World.failureWrites_applyFront : (w.applyFront rest e).failureWrites =
    e.next.filterMap Act.failureWrite ++
      (rest.filterMap Act.failureWrite ++ w.back.filterMap Act.failureWrite) := by
  simp [World.failureWrites, World.applyFront]

@[simp] theorem World.failureWrites_applyBack : (w.applyBack rest e).failureWrites =
    w.front.filterMap Act.failureWrite ++
      (e.next.filterMap Act.failureWrite ++ rest.filterMap Act.failureWrite) := by
  simp [World.failureWrites, World.applyBack]

@[simp] theorem World.taking_applyFront : (w.applyFront rest e).taking = w.taking := rfl

theorem World.taking_applyBack : (w.applyBack rest e).taking =
    e.next.count .consumeFailureMessage + rest.count .consumeFailureMessage := by
  simp [World.taking, World.applyBack]

theorem unclaimed_read {n : Nat} {x : Origin × Bool} (hp : Placed w) (ho : Ordered w)
    (hx : x ∈ w.unclaimed) (hn : x.1 = .client n) : n < w.read := by
  have hsaid {r : Reply} (hr : r ∈ w.unread) (hx : r.item = x) : n < w.read := by
    obtain ⟨q, hq, hqr⟩ := ho.said r (hp ▸ List.mem_append_right _ hr)
    exact ho.read q hq n (hqr.trans ((congrArg Prod.fst hx).trans hn))
  simp only [World.unclaimed, List.mem_append, List.mem_map, List.mem_filterMap] at hx
  rcases hx with ⟨r, ⟨b, hb, hr⟩, hx⟩ | ⟨r, hr, hx⟩ | ⟨q, hq, rfl⟩
  · refine hsaid (List.mem_append_left _ (List.mem_filterMap.2 ⟨b, hb, ?_⟩)) hx
    cases b <;> first | exact hr | cases hr
  · exact hsaid (List.mem_append_right _ hr) hx
  · exact ho.read q (ho.toUp.subset hq) n hn

theorem Failing.arm {w' : World U} {n : Nat} {f : TxnFailure} (h : Failing w) (hp : Placed w)
    (ho : Ordered w) (hf : f.swallow = 1 ∨ f.swallow = 2 ∧ n = w.read - 1)
    (hnone : w.sess.failure = none) (hc : w.closers = if f.swallow = 2 then [.client n] else [])
    (hfail : w'.sess.failure = some ⟨w.sess.serial, n, f⟩) (hn : w'.sess.failureRFQs = 0)
    (hu : w'.unclaimed = w.unclaimed)
    (hw : w.failureWrites = [] → w'.failureWrites = [.failure w.sess.serial])
    (ht : w'.taking = w.taking) : Failing w' := by
  cases h with
  | injecting h => simp [h.failure] at hnone
  | quiet _ h₂ h₃ h₄ =>
    have hone := hw h₃
    have hc' : w'.closers = w.closers := by rw [World.closers, World.closers, hu]
    have hown : ∀ x ∈ w'.unclaimed, Armed.Own ⟨w.sess.serial, n, f⟩ x.1 := by
      intro x hx
      rw [hu] at hx
      refine ⟨fun k hk => absurd ⟨k, hk⟩ (h₂ x hx), fun h2 m hm => ?_⟩
      obtain ⟨-, rfl⟩ := hf.resolve_left (by simp only at h2; omega)
      have := unclaimed_read hp ho hx hm
      change m ≤ w.read - 1
      omega
    rcases hf with hf | ⟨hf, rfl⟩
    · rw [if_neg (by omega)] at hc
      exact .injecting (a := ⟨w.sess.serial, n, f⟩) ⟨hfail, by rw [hn, ht, h₄, hf]; rfl,
        .inr (.inl rfl),
        by rw [hc', hc, hone]; rfl, by simp, fun _ => ⟨hone, rfl, hown⟩, fun hnil => by
          simp [hone] at hnil, by simp⟩
    · rw [if_pos hf] at hc
      exact .injecting (a := ⟨w.sess.serial, w.read - 1, f⟩) ⟨hfail, by rw [hn, ht, h₄, hf]; rfl,
        .inl ⟨rfl, hf⟩,
        by rw [hc', hc, hone]; rfl, by simp, fun _ => ⟨hone, rfl, hown⟩, fun hnil => by
          simp [hone] at hnil, by simp⟩

theorem Failing.count (h : Failing w) (hb : w.back = [.consumeFailureMessage]) :
    Failing (w.applyBack [] (Act.consumeFailureMessage.exec D 0 "" w.sess)) := by
  have ht : w.taking = 1 := by simp [World.taking, hb]
  cases h with
  | quiet _ _ _ h₄ => omega
  | @injecting a script later h =>
    have hcount := h.count
    rw [ht] at hcount
    have hun : w.unclaimed = w.fromUp.map Reply.item ++ w.toUp.map Request.item := by
      simp [World.unclaimed, hb, Act.unclaimed]
    have hwr : w.failureWrites = w.front.filterMap Act.failureWrite := by
      simp [World.failureWrites, hb, Act.failureWrite]
    by_cases hle : a.failure.swallow ≤ w.sess.failureRFQs + 1
    · have heff : Act.consumeFailureMessage.exec D 0 "" w.sess =
          { sess := { w.sess with failure := none, failureRFQs := 0 }
            next := [.writeClient ⟨.failure a.id, .ready a.failure.status⟩] } := by
        simp only [Act.exec, h.failure]
        exact if_pos hle
      obtain rfl : script = [] := List.length_eq_zero_iff.1 (by omega)
      have hnil : w.failureWrites = [] := by
        by_contra hne
        obtain ⟨hone, rfl, -⟩ := h.pending hne
        have := h.owing
        simp [hone] at this
      rw [heff]
      refine .quiet rfl ?_ ?_ ?_
      · rw [World.unclaimed_applyBack]
        simpa [hun, Act.unclaimed] using h.ended rfl
      · rw [World.failureWrites_applyBack, ← hwr, hnil]
        simp [Act.failureWrite]
      · simp [World.taking_applyBack]
    · have heff : Act.consumeFailureMessage.exec D 0 "" w.sess =
          { sess := { w.sess with failureRFQs := w.sess.failureRFQs + 1 } } := by
        simp only [Act.exec, h.failure]
        exact if_neg hle
      have hne : script ≠ [] := by rintro rfl; simp at hcount; omega
      rw [heff]
      have hun' : (w.applyBack
        [] { sess := { w.sess with failureRFQs := w.sess.failureRFQs + 1 } }).unclaimed =
          w.unclaimed := by
        simp [World.unclaimed_applyBack, hun]
      have hwr' : (w.applyBack
        [] { sess := { w.sess with failureRFQs := w.sess.failureRFQs + 1 } }).failureWrites =
          w.failureWrites := by
        simp [hwr]
      refine .injecting ⟨h.failure, ?_, ?_, ?_, h.spared, ?_, ?_, fun hs => absurd hs hne⟩
      · simp only [World.taking_applyBack, List.count_nil, Nat.add_zero]
        exact hcount
      · rcases h.shape with h | h | ⟨h, -⟩
        · exact .inl h
        · exact .inr (.inl h)
        · exact absurd h hne
      · rw [World.closers, hun', hwr']
        exact h.owing
      · rw [hun', hwr']
        exact h.pending
      · rw [hun', hwr']
        exact h.written

theorem Failing.front {now : Nat} {jobID : String} (h : Failing w) (ht : Threads w) (hp : Placed w)
    (ho : Ordered w) (hf : w.front = a :: rest) (hal : Alone (.front now jobID) w) :
    Failing (w.applyFront rest (a.exec D now jobID w.sess)) := by
  obtain ⟨m, -, ha⟩ := ht.head hf
  have hact : Label.act w (.front now jobID) = some a := by simp [Label.act, hf]
  have hwrites : w.failureWrites =
      a.failureWrite.toList ++
          (rest.filterMap Act.failureWrite ++ w.back.filterMap Act.failureWrite) := by
    simp only [World.failureWrites, hf, List.filterMap_cons]
    cases a.failureWrite <;> rfl
  by_cases hbegin : ∃ n f, a = .beginFailure n f
  · obtain ⟨n, f, rfl⟩ := hbegin
    obtain ⟨hnone, hc⟩ := hal.beginFailure hact
    refine h.arm hp ho ?_ hnone hc rfl rfl (by simp) (fun hnil => ?_) rfl
    · cases ha with
      | code ha =>
        obtain ⟨rfl, ⟨-, rfl | rfl⟩ | ⟨-, rfl | rfl⟩⟩ := ha
        · exact .inl rfl
        · exact .inl rfl
        · exact .inr ⟨rfl, rfl⟩
        · exact .inr ⟨rfl, rfl⟩
    · rw [World.failureWrites_applyFront]
      exact congrArg (_ :: ·) (hwrites.symm.trans hnil)
  · replace hbegin : ∀ n f, a ≠ .beginFailure n f := fun n f h => hbegin ⟨n, f, h⟩
    have hc : a ≠ .consumeFailureMessage := by
      rintro rfl
      cases ha with | code ha => exact ha
    have hnext : ∀ b ∈ (a.exec D now jobID w.sess).next, b.Inert :=
      exec_front_inert ht.pending ha hbegin
    have hwrites' : (w.applyFront rest (a.exec D now jobID w.sess)).failureWrites =
        rest.filterMap Act.failureWrite ++ w.back.filterMap Act.failureWrite := by
      rw [World.failureWrites_applyFront, filterMap_next fun b hb => (hnext b hb).2.1,
        List.nil_append]
    by_cases hw : ∃ o ms, a = .writeUpstream o ms
    · obtain ⟨o, ms, rfl⟩ := hw
      by_cases hof : o.IsFailure
      · obtain ⟨k, rfl⟩ := hof
        refine h.write (k := k) (by simp [hwrites, Act.failureWrite]) ?_ rfl rfl
          (fun o ho => ?_) rfl
        · rw [World.unclaimed_applyFront]
          cases ha with
          | code ha => exact ha.elim
          | abort => rfl
          | rollback => rfl
        · rw [hwrites']
          exact (List.cons.inj (hwrites.symm.trans ho)).2
      · have hnil := hal.writeUpstream hact hof
        refine h.append ?_ hnil World.unclaimed_applyFront rfl rfl ?_ rfl
        · simpa [Request.item] using fun _ _ => hof
        · rw [hwrites']
          exact (List.append_eq_nil_iff.1 (hwrites.symm.trans hnil)).2
    · replace hw : ∀ o ms, a ≠ .writeUpstream o ms := fun o ms h => hw ⟨o, ms, h⟩
      refine h.congr (exec_failure hbegin hc).1 (exec_failure hbegin hc).2 ?_ ?_ rfl
      · rw [World.unclaimed_applyFront, exec_up hw, List.map_nil, List.append_nil]
      · rw [hwrites', hwrites, failureWrite_of_not_write hw]
        rfl

theorem Failing.consumeHidden {r : Reply} (h : Failing w) (hat : Attributed w)
    (hb : w.back = [.consumeHidden r]) :
    Failing (w.applyBack [] ((Act.consumeHidden r).exec D 0 "" w.sess)) := by
  have hline : w.line = r.item :: (w.fromUp.map Reply.item ++ w.toUp.map Request.item) :=
    World.line_offered hb
  have hun : w.unclaimed = r.item :: (w.fromUp.map Reply.item ++ w.toUp.map Request.item) := by
    simp [World.unclaimed, hb, Act.unclaimed]
  have hwr : w.failureWrites = w.front.filterMap Act.failureWrite := by
    simp [World.failureWrites, hb, Act.failureWrite]
  have h0 : w.taking = 0 := by simp [World.taking, hb]
  cases hat with
  | idle h₁ =>
    have heff : (Act.consumeHidden r).exec D 0 "" w.sess =
        { sess := w.sess, next := [.failureActive r] } := by
      simp [h₁]
    rw [heff]
    refine h.congr rfl rfl ?_ ?_ ?_
    · rw [World.unclaimed_applyBack, hun]
      simp [Act.unclaimed]
    · rw [World.failureWrites_applyBack, hwr]
      simp [Act.failureWrite]
    · rw [World.taking_applyBack, h0]
      rfl
  | armed _ h₂ => simp [h₂] at hline
  | @running x h₁ h₂ =>
    have ho : r.origin.IsHidden := ⟨_, _, (hline ▸ h₂).head.1⟩
    have hnext : ∀ b ∈ ((Act.consumeHidden r).exec D 0 "" w.sess).next, b.Inert := by
      simp only [Act.exec, h₁]
      split
      · simp [Act.Inert, Act.unclaimed, Act.failureWrite]
      · dsimp only
        split <;> simp [Act.Inert, Act.unclaimed, Act.failureWrite]
    have hf : ((Act.consumeHidden r).exec D 0 "" w.sess).sess.failure = w.sess.failure ∧
        ((Act.consumeHidden r).exec D 0 "" w.sess).sess.failureRFQs = w.sess.failureRFQs :=
      exec_failure (by simp) (by simp)
    refine h.drop (x := r.item) ho ?_ hf.1 hf.2 ?_ ?_
    · rw [hun, World.unclaimed_applyBack, exec_up (by simp)]
      simp only [List.append_nil, List.map_nil, filterMap_next fun b hb => (hnext b hb).1,
        List.nil_append]
    · rw [World.failureWrites_applyBack, filterMap_next fun b hb => (hnext b hb).2.1, hwr]
      simp
    · rw [World.taking_applyBack, count_inert hnext, h0]
      rfl
  | ending _ _ _ h₄ => simp [World.hand, hb, Act.unplaced] at h₄

theorem World.unclaimed_failureActive {r : Reply} (hb : w.back = [.failureActive r])
    (he : e.next.filterMap Act.unclaimed = []) (hup : e.up = []) :
    w.unclaimed = r.item :: (w.applyBack [] e).unclaimed := by
  rw [World.unclaimed_applyBack, hup, World.unclaimed, hb]
  simp [he, Act.unclaimed]

theorem World.failureWrites_failureActive {r : Reply} (hb : w.back = [.failureActive r])
    (he : e.next.filterMap Act.failureWrite = []) :
    (w.applyBack [] e).failureWrites = w.failureWrites := by
  rw [World.failureWrites_applyBack, he, World.failureWrites, hb]
  simp [Act.failureWrite]

theorem Injecting.failureActive {r : Reply} {a : Armed} {script later : List Origin}
    (h : Injecting w a script later) (hr : ¬ r.origin.IsHidden) (hb : w.back = [.failureActive r]) :
    ∃ script', (script = if r.msg.isReady then r.origin :: script' else script') ∧
      Injecting (w.applyBack [] ((Act.failureActive r).exec D 0 "" w.sess)) a script' later := by
  have h0 : w.taking = 0 := by simp [World.taking, hb]
  have heff : (Act.failureActive r).exec D 0 "" w.sess =
      { sess := w.sess, next := if r.msg.isReady then [.consumeFailureMessage] else []
        fates := [⟨r, .failure a.id⟩] } := by
    simp only [Act.exec, h.failure]
  rw [heff]
  cases hready : r.msg.isReady with
  | true =>
    have hitem : r.item = (r.origin, true) := by simp [Reply.item, hready]
    refine h.take h0 (hitem ▸ World.unclaimed_failureActive hb (by simp [Act.unclaimed]) rfl) hr rfl
      rfl (World.failureWrites_failureActive hb (by simp [Act.failureWrite])) ?_
    simp [World.taking_applyBack]
  | false =>
    have hitem : r.item = (r.origin, false) := by simp [Reply.item, hready]
    refine ⟨script, rfl, h.skip h0 (hitem ▸ World.unclaimed_failureActive hb rfl rfl) rfl rfl
      (World.failureWrites_failureActive hb rfl) ?_⟩
    simp [World.taking_applyBack, h0]

theorem Failing.failureActive {r : Reply} (h : Failing w) (hr : ¬ r.origin.IsHidden)
    (hb : w.back = [.failureActive r]) :
    Failing (w.applyBack [] ((Act.failureActive r).exec D 0 "" w.sess)) := by
  cases h with
  | quiet h₁ h₂ h₃ h₄ =>
    have hnext : ∀ b ∈ ((Act.failureActive r).exec D 0 "" w.sess).next, b.Inert := by
      simp only [Act.exec, h₁]
      split
      · exact relay_inert r
      · simp [Act.Inert, Act.unclaimed, Act.failureWrite]
    have hf : ((Act.failureActive r).exec D 0 "" w.sess).sess.failure = w.sess.failure :=
      (exec_failure (by simp) (by simp)).1
    refine .quiet (hf.trans h₁) (fun x hx => h₂ x ?_) ?_ ?_
    · rw [World.unclaimed_failureActive hb (filterMap_next fun b hb => (hnext b hb).1)
        (exec_up (by simp))]
      exact List.mem_cons_of_mem _ hx
    · rw [World.failureWrites_failureActive hb (filterMap_next fun b hb => (hnext b hb).2.1), h₃]
    · rw [World.taking_applyBack, count_inert hnext]
      rfl
  | injecting h =>
    obtain ⟨_, -, h'⟩ := h.failureActive hr hb
    exact .injecting h'

theorem Failing.back_inert (h : Failing w) (hb : w.back = a :: rest) (ha : a.Inert)
    (hbegin : ∀ n f, a ≠ .beginFailure n f) (hw : ∀ o ms, a ≠ .writeUpstream o ms)
    (hnext : ∀ b ∈ (a.exec D 0 "" w.sess).next, b.Inert) :
    Failing (w.applyBack rest (a.exec D 0 "" w.sess)) := by
  have hf : (a.exec D 0 "" w.sess).sess.failure = w.sess.failure ∧
      (a.exec D 0 "" w.sess).sess.failureRFQs = w.sess.failureRFQs := exec_failure hbegin ha.2.2
  refine h.congr hf.1 hf.2 ?_ ?_ ?_
  · rw [World.unclaimed_applyBack, exec_up hw, List.filterMap_append, filterMap_next fun b hb =>
      (hnext b hb).1,
      World.unclaimed, hb, List.filterMap_cons, ha.1]
    simp
  · rw [World.failureWrites_applyBack, filterMap_next fun b hb => (hnext b hb).2.1,
      World.failureWrites, hb, List.filterMap_cons, ha.2.1]
    rfl
  · rw [World.taking_applyBack, count_inert hnext, World.taking, hb, List.count_cons_of_ne ha.2.2,
      Nat.zero_add]

theorem Failing.writeBack {o : Origin} {ms : List Frontend} (h : Failing w)
    (hb : w.back = .writeUpstream o ms :: rest) (hal : ¬ o.IsFailure → w.failureWrites = [])
    (hms : o.IsFailure → ∃ m : Frontend, ms = [m] ∧ m.drawsReady = true) :
    Failing (w.applyBack rest ((Act.writeUpstream o ms).exec D 0 "" w.sess)) := by
  have hun : (w.applyBack rest ((Act.writeUpstream o ms).exec D 0 "" w.sess)).unclaimed =
      w.unclaimed ++ (ms.map (Request.mk o)).map Request.item := by
    rw [World.unclaimed_applyBack, World.unclaimed, hb]
    rfl
  have hwrites : w.failureWrites = w.front.filterMap Act.failureWrite ++
      ((Act.writeUpstream o ms).failureWrite.toList ++ rest.filterMap Act.failureWrite) := by
    rw [World.failureWrites, hb, List.filterMap_cons]
    cases (Act.writeUpstream o ms).failureWrite <;> rfl
  have ht : (w.applyBack rest ((Act.writeUpstream o ms).exec D 0 "" w.sess)).taking = w.taking := by
    rw [World.taking_applyBack, World.taking, hb]
    simp
  by_cases ho : o.IsFailure
  · obtain ⟨m, rfl, hm⟩ := hms ho
    obtain ⟨k, rfl⟩ := ho
    refine h.write (k := k) (by simp [hwrites, Act.failureWrite]) ?_ rfl rfl (fun o ho => ?_) ht
    · rw [hun]
      simp [Request.item, hm]
    · rw [hwrites] at ho
      have hnil : w.front.filterMap Act.failureWrite = [] ∧
          rest.filterMap Act.failureWrite = [] := by
        rcases List.append_eq_singleton_iff.1 ho with ⟨h, h'⟩ | ⟨-, h'⟩
        · exact ⟨h, (List.cons.inj h').2⟩
        · cases h'
      rw [World.failureWrites_applyBack, hnil.1, hnil.2]
      rfl
  · have hnil := hal ho
    refine h.append ?_ hnil hun rfl rfl ?_ ht
    · simpa [Request.item] using fun _ _ => ho
    · rw [hwrites, List.append_eq_nil_iff, List.append_eq_nil_iff] at hnil
      rw [World.failureWrites_applyBack, hnil.1, hnil.2.2]
      rfl

theorem Failing.armBack {n : Nat} {f : TxnFailure} (h : Failing w) (hp : Placed w) (ho : Ordered w)
    (hb : w.back = .beginFailure n f :: rest) (hf : f.swallow = 1) (hal : Alone .back w) :
    Failing (w.applyBack rest ((Act.beginFailure n f).exec D 0 "" w.sess)) := by
  have hact : Label.act w .back = some (.beginFailure n f) := by simp [Label.act, hb]
  obtain ⟨hnone, hc⟩ := hal.beginFailure hact
  refine h.arm hp ho (.inl hf) hnone hc rfl rfl ?_ (fun hnil => ?_) ?_
  · rw [World.unclaimed_applyBack, World.unclaimed, hb]
    exact List.append_nil _
  · rw [World.failureWrites, hb, List.append_eq_nil_iff] at hnil
    rw [World.failureWrites_applyBack, hnil.1]
    exact congrArg (_ :: ·) hnil.2
  · rw [World.taking_applyBack, World.taking, hb]
    simp

theorem repairAct_write {o : Origin} {ms : List Frontend} (h : RepairAct (.writeUpstream o ms))
    (ho : o.IsFailure) : ∃ m : Frontend, ms = [m] ∧ m.drawsReady = true := by
  obtain ⟨k, rfl⟩ := ho
  cases h with
  | code h => exact h.elim
  | abort => exact ⟨_, rfl, rfl⟩

theorem Failing.back (h : Failing w) (ht : Threads w) (hat : Attributed w) (hp : Placed w)
    (ho : Ordered w) (hc : Consumed w) (hb : w.back = a :: rest) (hal : Alone .back w) :
    Failing (w.applyBack rest (a.exec D 0 "" w.sess)) := by
  have hmode : BackMode (a :: rest) := hb ▸ ht.back
  have hact : Label.act w .back = some a := by simp [Label.act, hb]
  by_cases hclaims : a.Claims
  · rcases hclaims with ⟨r, rfl⟩ | ⟨r, rfl⟩ | rfl | ⟨n, f, rfl⟩
    · cases hmode with
      | offering => exact h.consumeHidden hat hb
      | relaying hm => exact (hm _ List.mem_cons_self).elim
      | repairing hm => cases hm _ List.mem_cons_self with | code hm => exact hm.elim
    · cases hmode with
      | checking => exact h.failureActive (hc.back (.failureActive r) (by simp [hb])) hb
      | relaying hm => exact (hm _ List.mem_cons_self).elim
      | repairing hm => cases hm _ List.mem_cons_self with | code hm => exact hm.elim
    · cases hmode with
      | failing => exact h.count hb
      | relaying hm => exact (hm _ List.mem_cons_self).elim
      | repairing hm => cases hm _ List.mem_cons_self with | code hm => exact hm.elim
    · cases hmode with
      | relaying hm => exact (hm _ List.mem_cons_self).elim
      | repairing hm =>
        cases hm _ List.mem_cons_self with
        | code hm =>
          obtain rfl : f = abortFailure 1 := hm
          exact h.armBack hp ho hb rfl hal
  · by_cases hw : ∃ o ms, a = .writeUpstream o ms
    · obtain ⟨o, ms, rfl⟩ := hw
      refine h.writeBack hb (hal.writeUpstream hact) fun hof => ?_
      cases hmode with
      | relaying hm => exact (hm _ List.mem_cons_self).elim
      | repairing hm => exact repairAct_write (hm _ List.mem_cons_self) hof
    · replace hw : ∀ o ms, a ≠ .writeUpstream o ms := fun o ms h => hw ⟨o, ms, h⟩
      have ha : a.Inert := by
        refine ⟨?_, failureWrite_of_not_write hw, fun h => hclaims (.inr (.inr (.inl h)))⟩
        cases a with
        | consumeHidden r => exact absurd (.inl ⟨r, rfl⟩) hclaims
        | failureActive r => exact absurd (.inr (.inl ⟨r, rfl⟩)) hclaims
        | _ => rfl
      exact h.back_inert hb ha (fun n f h => hclaims (.inr (.inr (.inr ⟨n, f, h⟩)))) hw
        (exec_mode_inert hmode hclaims)

theorem Failing.readUpstream {r : Reply} {rs : List Reply} (h : Failing w) (hb : w.back = [])
    (hu : w.fromUp = r :: rs) : Failing { w with back := pumpBackend r, fromUp := rs } := by
  refine h.congr rfl rfl ?_ ?_ ?_ <;>
    cases hr : r.msg.isReady <;>
      simp [World.unclaimed, World.failureWrites, World.taking, hb, hu, pumpBackend, hr,
        List.filterMap_cons, Act.unclaimed, Act.failureWrite]

theorem Failing.moves {l : Label U} {w' : World U} (h : Failing w) (ht : Threads w)
    (hat : Attributed w) (hp : Placed w) (ho : Ordered w) (hc : Consumed w) (hal : Alone l w)
    (hm : Moves D l w w') : Failing w' := by
  cases hm with
  | send => exact h.congr rfl rfl rfl rfl rfl
  | @readClient _ m _ hf _ _ =>
    refine h.congr rfl rfl rfl ?_ rfl
    have hpump : (pumpFrontend w.read m).filterMap Act.failureWrite = [] :=
      filterMap_next fun b hb => (frontCode_inert (pumpFrontend_front b hb)).2.1
    simp [World.failureWrites, hf, hpump]
  | front hf => exact h.front ht hp ho hf hal
  | readUpstream hb hu _ => exact h.readUpstream hb hu
  | back hb => exact h.back ht hat hp ho hc hb hal
  | answer hq => exact h.answer hq

end Steps

end DsqlEmulator.Proxy
