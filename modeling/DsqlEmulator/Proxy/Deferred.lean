import DsqlEmulator.Proxy.FailureLaws
import Mathlib.Data.List.Pairwise

/-! The record of the failures the session armed: what each of them took, and what
the client got for it. -/

namespace DsqlEmulator.Proxy

open Wire Occ Txn Runs Line

variable {U : Upstream} {D : Dialect}

section Frames

variable {s : Session} {now : Nat} {jobID : String} {a : Act}

theorem exec_armed (hb : ∀ n f, a ≠ .beginFailure n f) : (a.exec D now jobID s).armed = [] := by
  cases a with
  | beginFailure n f => exact absurd rfl (hb n f)
  | aborted n m => obtain ⟨_, _, h⟩ := exec_aborted_quiet n m; rw [h]
  | droppingUntilSync n m => obtain ⟨_, _, h⟩ := exec_droppingUntilSync_quiet n m; rw [h]
  | _ => dsimp only [Act.exec] <;> (repeat' split) <;> rfl

theorem serial_le_exec : s.serial ≤ (a.exec D now jobID s).sess.serial := by
  cases a with
  | beginFailure n f => exact Nat.le_succ _
  | setHidden x ms => exact Nat.le_succ _
  | aborted n m => obtain ⟨_, _, h⟩ := exec_aborted_quiet n m; rw [h]
  | droppingUntilSync n m => obtain ⟨_, _, h⟩ := exec_droppingUntilSync_quiet n m; rw [h]
  | _ => dsimp only [Act.exec]; (repeat' split) <;> exact Nat.le_refl _

end Frames

structure Registered (w : World U) : Prop where
  ids : ∀ a ∈ w.armings, a.id < w.sess.serial
  distinct : w.armings.Pairwise fun a b => a.id ≠ b.id
  current : ∀ a, w.sess.failure = some a → a ∈ w.armings
  deferred : ∀ a ∈ w.armings, a.failure.swallow = 2 → w.sent[a.request]? = some .sync ∧
    Injected 2 a.failure

section Registered

variable {w w' : World U} {now : Nat} {jobID : String} {a : Act}

theorem Registered.start : Registered (World.start D U) := by
  constructor <;> simp [World.start, Session.new]

theorem Registered.eq_of_id (h : Registered w) {a b : Armed} (ha : a ∈ w.armings)
    (hb : b ∈ w.armings) (hid : a.id = b.id) : a = b := by
  by_contra hne
  have : Std.Symm fun a b : Armed => a.id ≠ b.id := ⟨fun _ _ => Ne.symm⟩
  exact h.distinct.forall ha hb hne hid

theorem Registered.exec (h : Registered w) (hs : w'.sess = (a.exec D now jobID w.sess).sess)
    (harm : w'.armings = w.armings ++ (a.exec D now jobID w.sess).armed) (hsent : w'.sent = w.sent)
    (hdef : ∀ n f, a = .beginFailure n f → f.swallow = 2 → w.sent[n]? = some .sync ∧ Injected 2 f) :
    Registered w' := by
  by_cases hb : ∃ n f, a = .beginFailure n f
  · obtain ⟨n, f, rfl⟩ := hb
    have hserial : w'.sess.serial = w.sess.serial + 1 := by rw [hs]; rfl
    have hmem : ∀ b ∈ w'.armings, b ∈ w.armings ∨ b = ⟨w.sess.serial, n, f⟩ := by
      rw [harm]
      exact fun b hb => (List.mem_append.1 hb).imp_right List.mem_singleton.1
    refine ⟨fun b hb => ?_, ?_, fun b hb => ?_, fun b hb h2 => ?_⟩
    · rw [hserial]
      rcases hmem b hb with hb | rfl
      · exact Nat.lt_succ_of_lt (h.ids b hb)
      · exact Nat.lt_succ_self _
    · rw [harm]
      refine List.pairwise_append.2 ⟨h.distinct, List.pairwise_singleton _ _, fun b hb c hc => ?_⟩
      rw [List.mem_singleton.1 hc]
      exact (h.ids b hb).ne
    · rw [hs] at hb
      obtain rfl : ⟨w.sess.serial, n, f⟩ = b := Option.some.inj hb
      rw [harm]
      exact List.mem_append_right _ (List.mem_singleton_self _)
    · rw [hsent]
      rcases hmem b hb with hb | rfl
      · exact h.deferred b hb h2
      · exact hdef n f rfl h2
  · replace hb : ∀ n f, a ≠ .beginFailure n f := fun n f h => hb ⟨n, f, h⟩
    rw [exec_armed hb, List.append_nil] at harm
    refine ⟨fun b hm => ?_, harm ▸ h.distinct, fun b hcur => ?_, ?_⟩
    · exact Nat.lt_of_lt_of_le (h.ids b (harm ▸ hm)) (hs ▸ serial_le_exec)
    · rw [harm]
      by_cases hc : a = .consumeFailureMessage
      · subst hc
        rw [hs] at hcur
        refine h.current b ?_
        revert hcur
        dsimp only [Act.exec]
        (repeat' split) <;> simp_all
      · rw [hs, (exec_failure hb hc).1] at hcur
        exact h.current b hcur
    · rw [harm, hsent]
      exact h.deferred

theorem Registered.moves {l : Label U} (h : Registered w) (ht : Threads w) (hm : Moves D l w w') :
    Registered w' := by
  cases hm with
  | send =>
    refine ⟨h.ids, h.distinct, h.current, fun a ha h2 => ⟨?_, (h.deferred a ha h2).2⟩⟩
    have hsome := (h.deferred a ha h2).1
    rw [List.getElem?_append_left (List.getElem?_eq_some_iff.1 hsome).1, hsome]
  | front hf =>
    obtain ⟨m, hm, ha⟩ := ht.head hf
    refine h.exec rfl rfl rfl ?_
    rintro n f rfl h2
    cases ha with
    | code ha =>
      obtain ⟨rfl, ⟨-, rfl | rfl⟩ | ⟨rfl, hinj⟩⟩ := ha
      · cases h2
      · cases h2
      · exact ⟨hm, hinj⟩
  | back hb =>
    refine h.exec rfl rfl rfl ?_
    rintro n f rfl h2
    cases hb ▸ ht.back with
    | relaying hm => exact (hm _ List.mem_cons_self).elim
    | repairing hm =>
      cases hm _ List.mem_cons_self with
      | code hm =>
        obtain rfl : f = abortFailure 1 := hm
        cases h2
  | _ => exact ⟨h.ids, h.distinct, h.current, h.deferred⟩

end Registered

structure Charged (w : World U) : Prop where
  taken : ∀ f ∈ w.fates, ∀ k, f.taker = .failure k → ∃ a ∈ w.armings, a.id = k ∧
    a.Own f.reply.origin
  own : ∀ f ∈ w.fates, ∀ k, f.reply.origin = .failure k → f.taker = .failure k
  sync : ∀ a ∈ w.armings, a.failure.swallow = 2 →
    (∃ st, ⟨⟨.client a.request, .ready st⟩, .failure a.id⟩ ∈ w.fates) ∨
      w.sess.failure = some a ∧ w.sess.failureRFQs + w.taking = 0
  closed : ∀ a, w.sess.failure = some a → ∀ f ∈ w.fates, f.reply.origin = .failure a.id →
    f.reply.msg.isReady = true → w.sess.failureRFQs + w.taking = a.failure.swallow
  back : ∀ r, .repairPending r ∈ w.back → ¬ r.origin.IsFailure

section Charged

variable {w w' : World U} {a : Act} {rest : List Act}

theorem Charged.start : Charged (World.start D U) := by
  constructor <;> simp [World.start]

theorem Charged.keep (h : Charged w) (hf : w'.fates = w.fates) (ha : w'.armings = w.armings)
    (hs : w'.sess.failure = w.sess.failure)
    (hn : w'.sess.failureRFQs + w'.taking = w.sess.failureRFQs + w.taking)
    (hb : ∀ r, .repairPending r ∈ w'.back → ¬ r.origin.IsFailure) : Charged w' := by
  refine ⟨?_, ?_, ?_, ?_, hb⟩
  · rw [hf, ha]; exact h.taken
  · rw [hf]; exact h.own
  · rw [hf, ha, hs, hn]; exact h.sync
  · rw [hf, hs, hn]; exact h.closed

theorem Charged.place {f : Fate} (h : Charged w) (hf : w'.fates = w.fates ++ [f])
    (ha : w'.armings = w.armings) (hs : w'.sess.failure = w.sess.failure)
    (hn : w'.sess.failureRFQs + w'.taking = w.sess.failureRFQs + w.taking)
    (hb : ∀ r, .repairPending r ∈ w'.back → ¬ r.origin.IsFailure) (ho : ¬ f.reply.origin.IsFailure)
    (ht : ∀ k, f.taker ≠ .failure k) : Charged w' := by
  have hmem : ∀ g ∈ w'.fates, g ∈ w.fates ∨ g = f := by
    rw [hf]
    exact fun g hg => (List.mem_append.1 hg).imp_right List.mem_singleton.1
  refine ⟨fun g hg k hk => ?_, fun g hg k hk => ?_, fun b hb h2 => ?_,
    fun b hb g hg hk hready => ?_, hb⟩
  · rw [ha]
    rcases hmem g hg with hg | rfl
    · exact h.taken g hg k hk
    · exact absurd hk (ht k)
  · rcases hmem g hg with hg | rfl
    · exact h.own g hg k hk
    · exact absurd ⟨k, hk⟩ ho
  · rw [ha] at hb
    rw [hs, hn, hf]
    exact (h.sync b hb h2).imp_left fun ⟨st, hst⟩ => ⟨st, List.mem_append_left _ hst⟩
  · rw [hs] at hb
    rw [hn]
    rcases hmem g hg with hg | rfl
    · exact h.closed b hb g hg hk hready
    · exact absurd ⟨_, hk⟩ ho

theorem Charged.arm {n : Nat} {f : TxnFailure} (h : Charged w) (hreg : Registered w)
    (hfail : Failing w) (hnone : w.sess.failure = none) (hf : w'.fates = w.fates)
    (ha : w'.armings = w.armings ++ [⟨w.sess.serial, n, f⟩])
    (hs : w'.sess.failure = some ⟨w.sess.serial, n, f⟩) (hn : w'.sess.failureRFQs = 0)
    (ht : w'.taking = w.taking) (hb : ∀ r, .repairPending r ∈ w'.back → ¬ r.origin.IsFailure) :
    Charged w' := by
  have hmem : ∀ b ∈ w'.armings, b ∈ w.armings ∨ b = ⟨w.sess.serial, n, f⟩ := by
    rw [ha]
    exact fun b hb => (List.mem_append.1 hb).imp_right List.mem_singleton.1
  have h0 : w.taking = 0 := by
    cases hfail with
    | quiet _ _ _ h₄ => exact h₄
    | injecting h => simp [h.failure] at hnone
  refine ⟨fun g hg k hk => ?_, hf ▸ h.own, fun b hb h2 => ?_, fun b hb g hg hk _ => ?_, hb⟩
  · obtain ⟨b, hb, hid⟩ := h.taken g (hf ▸ hg) k hk
    exact ⟨b, ha ▸ List.mem_append_left _ hb, hid⟩
  · rcases hmem b hb with hb | rfl
    · rw [hf]
      exact .inl ((h.sync b hb h2).resolve_right fun h => by simp [hnone] at h)
    · exact .inr ⟨hs, by omega⟩
  · -- the new failure's number is fresh
    obtain rfl : ⟨w.sess.serial, n, f⟩ = b := Option.some.inj (hs.symm.trans hb)
    rw [hf] at hg
    obtain ⟨c, hc, hid, -⟩ := h.taken g hg _ (h.own g hg _ hk)
    exact absurd hid (hreg.ids c hc).ne

theorem Charged.take {r : Reply} {b : Armed} {script script' later : List Origin} (h : Charged w)
    (h0 : w.taking = 0) (hreg : Registered w) (hin : Injecting w b script later)
    (hin' : Injecting w' b script' later)
    (hscript : script = if r.msg.isReady then r.origin :: script' else script')
    (hown : b.Own r.origin) (hf : w'.fates = w.fates ++ [⟨r, .failure b.id⟩])
    (ha : w'.armings = w.armings) (hb : ∀ r, .repairPending r ∈ w'.back → ¬ r.origin.IsFailure) :
    Charged w' := by
  have hcount := hin.count
  have hcount' := hin'.count
  have hmem : ∀ g ∈ w'.fates, g ∈ w.fates ∨ g = ⟨r, .failure b.id⟩ := by
    rw [hf]
    exact fun g hg => (List.mem_append.1 hg).imp_right List.mem_singleton.1
  refine ⟨fun g hg k hk => ?_, fun g hg k hk => ?_, fun c hc h2 => ?_,
    fun c hc g hg hk hready => ?_, hb⟩
  · rw [ha]
    rcases hmem g hg with hg | rfl
    · exact h.taken g hg k hk
    · cases hk
      exact ⟨b, hreg.current b hin.failure, rfl, hown⟩
  · rcases hmem g hg with hg | rfl
    · exact h.own g hg k hk
    · rw [hown.1 k hk]
  · rw [hf]
    rcases h.sync c (ha ▸ hc) h2 with ⟨st, hst⟩ | ⟨hcur, hzero⟩
    · exact .inl ⟨st, List.mem_append_left _ hst⟩
    · obtain rfl : b = c := Option.some.inj (hin.failure.symm.trans hcur)
      have hlen : script.length = 2 := by omega
      cases hready : r.msg.isReady with
      | true =>
        obtain ⟨st, hst⟩ := Backend.isReady_iff.1 hready
        rw [if_pos hready] at hscript
        have ho : r.origin = .client b.request := by
          rcases hin.shape with ⟨h, -⟩ | h | ⟨h, -⟩
          · exact (List.cons.inj (hscript.symm.trans h)).1
          · simp [h] at hlen
          · simp [h] at hlen
        have hr : r = ⟨.client b.request, .ready st⟩ := by cases r; simp_all
        exact .inl ⟨st, List.mem_append_right _ (by simp [hr])⟩
      | false =>
        rw [if_neg (by simp [hready])] at hscript
        rw [← hscript] at hcount'
        exact .inr ⟨hin'.failure, by omega⟩
  · obtain rfl : b = c := Option.some.inj (hin'.failure.symm.trans hc)
    rcases hmem g hg with hg | rfl
    · -- its answer would have been complete already
      have := h.closed b hin.failure g hg hk hready
      have := List.length_pos_iff.2 (hin.script_ne_nil h0)
      omega
    · rw [if_pos hready] at hscript
      have hnil : script' = [] := by
        rcases hin.shape with ⟨h, -⟩ | h | ⟨h, -⟩
        · cases hk.symm.trans (List.cons.inj (hscript.symm.trans h)).1
        · exact (List.cons.inj (hscript.symm.trans h)).2
        · cases hscript.symm.trans h
      rw [hnil] at hcount'
      exact hcount'.symm

theorem Charged.failureActive {r : Reply} (h : Charged w) (hfail : Failing w)
    (hr : ¬ r.origin.IsHidden) (hreg : Registered w) (hb : w.back = [.failureActive r]) :
    Charged (w.applyBack [] ((Act.failureActive r).exec D 0 "" w.sess)) := by
  have h0 : w.taking = 0 := by simp [World.taking, hb]
  have hun : w.unclaimed = r.item :: (w.fromUp.map Reply.item ++ w.toUp.map Request.item) := by
    simp [World.unclaimed, hb, Act.unclaimed]
  cases hfail with
  | quiet h₁ h₂ _ _ =>
    have hof : ¬ r.origin.IsFailure := h₂ r.item (by simp [hun])
    have htaking : (w.applyBack [] ((Act.failureActive r).exec D 0 "" w.sess)).taking =
        w.taking := by
      rw [World.taking_applyBack, h0]
      simp only [Act.exec, h₁]
      split
      · exact (congrArg (· + _) (count_inert (relay_inert r))).trans rfl
      · rfl
    cases hready : r.msg.isReady with
    | true =>
      have heff : (Act.failureActive r).exec D 0 "" w.sess =
          { sess := w.sess, next := relay D r, fates := [⟨r, .client⟩] } := by
        simp only [Act.exec, h₁, hready, if_true]
      rw [heff] at htaking ⊢
      refine h.place rfl (List.append_nil _) rfl (congrArg (_ + ·) htaking) (fun r' hr' => ?_)
        hof (by simp)
      have := List.filterMap_eq_nil_iff.1 (relay_reply r) (.repairPending r')
        (by simpa [World.applyBack] using hr')
      simp [Act.reply] at this
    | false =>
      have heff : (Act.failureActive r).exec D 0 "" w.sess =
          { sess := w.sess, next := [.repairPending r] } := by
        simp only [Act.exec, h₁, hready]
        rfl
      rw [heff] at htaking ⊢
      refine h.keep (List.append_nil _) (List.append_nil _) rfl (congrArg (_ + ·) htaking)
        (fun r' hr' => ?_)
      obtain rfl : r' = r := by simpa [World.applyBack] using hr'
      exact hof
  | @injecting b script later hin =>
    obtain ⟨script', hscript, hin'⟩ := hin.failureActive (D := D) hr hb
    have heff : (Act.failureActive r).exec D 0 "" w.sess =
        { sess := w.sess, next := if r.msg.isReady then [.consumeFailureMessage] else []
          fates := [⟨r, .failure b.id⟩] } := by
      simp only [Act.exec, hin.failure]
    rw [heff] at hin' ⊢
    refine h.take h0 hreg hin hin' hscript (hin.own h0 hun) rfl (List.append_nil _) fun r' hr' => ?_
    cases hready : r.msg.isReady <;> simp [World.applyBack, hready] at hr'

theorem Charged.consumeHidden {r : Reply} (h : Charged w) (hat : Attributed w)
    (hb : w.back = [.consumeHidden r]) :
    Charged (w.applyBack [] ((Act.consumeHidden r).exec D 0 "" w.sess)) := by
  have h0 : w.taking = 0 := by simp [World.taking, hb]
  have hline : w.line = r.item :: (w.fromUp.map Reply.item ++ w.toUp.map Request.item) :=
    World.line_offered hb
  cases hat with
  | idle h₁ =>
    have heff : (Act.consumeHidden r).exec D 0 "" w.sess =
        { sess := w.sess, next := [.failureActive r] } := by
      simp [h₁]
    rw [heff]
    refine h.keep (List.append_nil _) (List.append_nil _) rfl ?_ (by simp [World.applyBack])
    rw [World.taking_applyBack, h0]
    rfl
  | armed _ h₂ => simp [h₂] at hline
  | @running x h₁ h₂ =>
    have ho : r.origin.IsHidden := ⟨_, _, (hline ▸ h₂).head.1⟩
    have hfates : ((Act.consumeHidden r).exec D 0 "" w.sess).fates =
        [⟨r, .hidden x.exchange.purpose x.id⟩] := by
      simp only [Act.exec, h₁]
      split <;> rfl
    have hs : ((Act.consumeHidden r).exec D 0 "" w.sess).sess.failure = w.sess.failure ∧
        ((Act.consumeHidden r).exec D 0 "" w.sess).sess.failureRFQs = w.sess.failureRFQs :=
      exec_failure (by simp) (by simp)
    refine h.place (congrArg (_ ++ ·) hfates) ?_ hs.1 ?_ ?_ ho.not_isFailure (by simp)
    · exact (congrArg (_ ++ ·) (exec_armed (by simp))).trans (List.append_nil _)
    · rw [World.taking_applyBack, h0]
      refine congrArg₂ (· + ·) hs.2 ?_
      simp only [Act.exec, h₁]
      (repeat' split) <;> simp
    · intro r'
      simp only [World.applyBack, Act.exec, h₁]
      (repeat' split) <;> simp
  | ending _ _ _ h₄ => simp [World.hand, hb, Act.unplaced] at h₄

theorem Charged.repairPending {r : Reply} (h : Charged w) (hb : w.back = [.repairPending r]) :
    Charged (w.applyBack [] ((Act.repairPending r).exec D 0 "" w.sess)) := by
  have h0 : w.taking = 0 := by simp [World.taking, hb]
  have hr : ¬ r.origin.IsFailure := h.back r (by simp [hb])
  dsimp only [Act.exec]
  split
  · exact h.place rfl (List.append_nil _) rfl (by rw [World.taking_applyBack, h0]; rfl)
      (by simp [World.applyBack]) hr (by simp)
  · refine h.place rfl (List.append_nil _) rfl ?_ (fun r' hr' => ?_) hr (by simp)
    · rw [World.taking_applyBack, count_inert (relay_inert r), h0]
      rfl
    · have := List.filterMap_eq_nil_iff.1 (relay_reply r) (.repairPending r')
        (by simpa [World.applyBack] using hr')
      simp [Act.reply] at this

theorem Charged.release (h : Charged w) (hf : w'.fates = w.fates) (ha : w'.armings = w.armings)
    (hs : w'.sess.failure = none) (hn : w.sess.failureRFQs + w.taking ≠ 0)
    (hb : ∀ r, .repairPending r ∈ w'.back → ¬ r.origin.IsFailure) : Charged w' := by
  refine ⟨?_, ?_, fun c hc h2 => .inl ?_, by simp [hs], hb⟩
  · rw [hf, ha]; exact h.taken
  · rw [hf]; exact h.own
  · rw [hf]
    exact (h.sync c (ha ▸ hc) h2).resolve_right fun h => hn h.2

theorem Charged.count (h : Charged w) (hb : w.back = [.consumeFailureMessage]) :
    Charged (w.applyBack [] (Act.consumeFailureMessage.exec D 0 "" w.sess)) := by
  have h1 : w.taking = 1 := by simp [World.taking, hb]
  dsimp only [Act.exec]
  split
  · split
    · exact h.release (List.append_nil _) (List.append_nil _) rfl (by omega)
        (by simp [World.applyBack])
    · refine h.keep (List.append_nil _) (List.append_nil _) rfl ?_ (by simp [World.applyBack])
      rw [World.taking_applyBack, h1]
      rfl
  · refine h.keep (List.append_nil _) (List.append_nil _) rfl ?_ (by simp [World.applyBack])
    rw [World.taking_applyBack, h1]
    rfl

theorem taking_applyBack_of_not_claims (hmode : BackMode (a :: rest)) (hb : w.back = a :: rest)
    (ha : ¬ a.Claims) : (w.applyBack rest (a.exec D 0 "" w.sess)).taking = w.taking := by
  rw [World.taking_applyBack, count_inert (exec_mode_inert hmode ha), World.taking, hb,
    List.count_cons_of_ne fun h => ha (.inr (.inr (.inl h))), Nat.zero_add]

theorem exec_reply_none (hmode : BackMode (a :: rest)) (ha : a.reply = none) :
    (a.exec D 0 "" w.sess).fates = [] ∧ ∀ r, .repairPending r ∉ (a.exec D 0 "" w.sess).next := by
  have hreply : (a.exec D 0 "" w.sess).fates.map Fate.reply ++
      (a.exec D 0 "" w.sess).next.filterMap Act.reply = a.reply.toList := exec_reply hmode
  rw [ha, Option.toList_none, List.append_eq_nil_iff, List.map_eq_nil_iff] at hreply
  refine ⟨hreply.1, fun r hr => ?_⟩
  have := List.filterMap_eq_nil_iff.1 hreply.2 _ hr
  simp [Act.reply] at this

theorem Charged.back_plain (h : Charged w) (ht : Threads w) (hb : w.back = a :: rest)
    (ha : a.reply = none) (hclaims : ¬ a.Claims) :
    Charged (w.applyBack rest (a.exec D 0 "" w.sess)) := by
  have hmode : BackMode (a :: rest) := hb ▸ ht.back
  obtain ⟨hfates, hpending⟩ := exec_reply_none (D := D) (w := w) hmode ha
  have hbegin : ∀ n f, a ≠ .beginFailure n f := fun n f h => hclaims (.inr (.inr (.inr ⟨n, f, h⟩)))
  have hs : (a.exec D 0 "" w.sess).sess.failure = w.sess.failure ∧
      (a.exec D 0 "" w.sess).sess.failureRFQs = w.sess.failureRFQs :=
    exec_failure hbegin fun h => hclaims (.inr (.inr (.inl h)))
  refine h.keep ?_ ?_ hs.1
    (congrArg₂ (· + ·) hs.2 (taking_applyBack_of_not_claims hmode hb hclaims)) fun r hr => ?_
  · exact (congrArg (_ ++ ·) hfates).trans (List.append_nil _)
  · exact (congrArg (_ ++ ·) (exec_armed hbegin)).trans (List.append_nil _)
  · exact h.back r (hb ▸ List.mem_cons_of_mem _ ((List.mem_append.1 hr).resolve_left (hpending r)))

theorem Charged.front {now : Nat} {jobID : String} (h : Charged w) (ht : Threads w)
    (hreg : Registered w) (hfail : Failing w) (hf : w.front = a :: rest)
    (hal : Alone (.front now jobID) w) :
    Charged (w.applyFront rest (a.exec D now jobID w.sess)) := by
  obtain ⟨m, -, ha⟩ := ht.head hf
  have hfates : (a.exec D now jobID w.sess).fates = [] := frontAct_fates ha
  have hf' : (w.applyFront rest (a.exec D now jobID w.sess)).fates = w.fates :=
    (congrArg (_ ++ ·) hfates).trans (List.append_nil _)
  by_cases hbegin : ∃ n f, a = .beginFailure n f
  · obtain ⟨n, f, rfl⟩ := hbegin
    have hact : Label.act w (.front now jobID) = some (.beginFailure n f) := by simp [Label.act, hf]
    exact h.arm hreg hfail (hal.beginFailure hact).1 hf' rfl rfl rfl rfl h.back
  · replace hbegin : ∀ n f, a ≠ .beginFailure n f := fun n f h => hbegin ⟨n, f, h⟩
    have hc : a ≠ .consumeFailureMessage := by
      rintro rfl
      cases ha with | code ha => exact ha
    have hs : (a.exec D now jobID w.sess).sess.failure = w.sess.failure ∧
        (a.exec D now jobID w.sess).sess.failureRFQs = w.sess.failureRFQs := exec_failure hbegin hc
    exact h.keep hf' ((congrArg (_ ++ ·) (exec_armed hbegin)).trans (List.append_nil _)) hs.1
      (congrArg (· + _) hs.2) h.back

theorem Charged.armBack {n : Nat} {f : TxnFailure} (h : Charged w) (hreg : Registered w)
    (hfail : Failing w) (hb : w.back = .beginFailure n f :: rest) (hal : Alone .back w) :
    Charged (w.applyBack rest ((Act.beginFailure n f).exec D 0 "" w.sess)) := by
  have hact : Label.act w .back = some (.beginFailure n f) := by simp [Label.act, hb]
  refine h.arm hreg hfail (hal.beginFailure hact).1 (List.append_nil _) rfl rfl rfl ?_ fun r hr =>
    ?_
  · rw [World.taking_applyBack, World.taking, hb]
    simp
  · refine h.back r (hb ▸ List.mem_cons_of_mem _ ?_)
    simpa [World.applyBack] using hr

theorem Charged.back_step (h : Charged w) (ht : Threads w) (hat : Attributed w) (hc : Consumed w)
    (hreg : Registered w) (hfail : Failing w) (hb : w.back = a :: rest) (hal : Alone .back w) :
    Charged (w.applyBack rest (a.exec D 0 "" w.sess)) := by
  have hmode : BackMode (a :: rest) := hb ▸ ht.back
  cases hmode with
  | offering => exact h.consumeHidden hat hb
  | @checking r => exact h.failureActive hfail (hc.back (.failureActive r) (by simp [hb])) hreg hb
  | pending => exact h.repairPending hb
  | failing => exact h.count hb
  | relaying hm =>
    have hcode := hm a List.mem_cons_self
    refine h.back_plain ht hb (relayCode_reply hcode) ?_
    rintro (⟨r, rfl⟩ | ⟨r, rfl⟩ | rfl | ⟨n, f, rfl⟩) <;> exact hcode
  | repairing hm =>
    by_cases hbegin : ∃ n f, a = .beginFailure n f
    · obtain ⟨n, f, rfl⟩ := hbegin
      exact h.armBack hreg hfail hb hal
    · refine h.back_plain ht hb ?_ ?_ <;> cases hm a List.mem_cons_self with
      | code hcode =>
        first
          | exact repairCode_reply hcode
          | rintro (⟨r, rfl⟩ | ⟨r, rfl⟩ | rfl | hf)
            · exact hcode
            · exact hcode
            · exact hcode
            · exact hbegin hf
      | _ => first | rfl | simp [Act.Claims]
  | _ => exact h.back_plain ht hb rfl (by simp [Act.Claims])

theorem Charged.moves {l : Label U} (h : Charged w) (ht : Threads w) (hat : Attributed w)
    (hc : Consumed w) (hreg : Registered w) (hfail : Failing w) (hal : Alone l w)
    (hm : Moves D l w w') : Charged w' := by
  cases hm with
  | front hf => exact h.front ht hreg hfail hf hal
  | @readUpstream _ r _ hb hu _ =>
    have h0 : w.taking = 0 := by simp [World.taking, hb]
    refine h.keep rfl rfl rfl (congrArg (_ + ·) (Eq.trans ?_ h0.symm)) fun r' hr' => ?_
    · cases hr : r.msg.isReady <;> simp [World.taking, pumpBackend, hr]
    · obtain h | h := mem_pumpBackend hr' <;> cases h
  | back hb => exact h.back_step ht hat hc hreg hfail hb hal
  | _ => exact h.keep rfl rfl rfl rfl h.back

end Charged

def Act.delivery : Act → Option Delivery
  | .writeClient d => some d
  | _ => none

def World.due (w : World U) : List Delivery := w.got ++ w.back.filterMap Act.delivery

section Deliveries

variable {s : Session} {now : Nat} {jobID : String} {a : Act} {rest : List Act}

theorem exec_client : (a.exec D now jobID s).client = a.delivery.toList := by
  cases a with
  | aborted n m => obtain ⟨_, _, h⟩ := exec_aborted_quiet n m; rw [h]; rfl
  | droppingUntilSync n m => obtain ⟨_, _, h⟩ := exec_droppingUntilSync_quiet n m; rw [h]; rfl
  | _ => dsimp only [Act.exec]; (repeat' split) <;> rfl

def Act.Unpaid (a : Act) : Prop := ∀ d, a.delivery = some d → ∀ k, d.source ≠ .failure k

theorem frontAct_unpaid {n : Nat} {m : Frontend} (h : FrontAct n m a) : a.Unpaid := by
  rintro d hd k hk
  cases h with
  | code h =>
    cases a <;> cases hd
    cases h.1.symm.trans hk
  | _ => cases hd

theorem relayCode_unpaid {o : Origin} (h : RelayCode o a) : a.Unpaid := by
  rintro d hd k hk
  cases a <;> cases hd
  cases Eq.trans (Eq.symm h) hk

theorem repairCode_unpaid (h : RepairCode a) : a.Unpaid := by
  rintro d hd k hk
  cases a <;> cases hd
  obtain ⟨n, h⟩ := h
  cases h.symm.trans hk

theorem relay_unpaid (r : Reply) : ∀ b ∈ relay D r, b.Unpaid := by
  obtain ⟨o, m⟩ := r
  cases m with
  | error e => by_cases he : isConflict e.code = true <;> simp [relay, he, Act.Unpaid, Act.delivery]
  | _ => simp [relay, Act.Unpaid, Act.delivery]

theorem exec_mode_unpaid (h : BackMode (a :: rest)) (hc : a ≠ .consumeFailureMessage) :
    ∀ b ∈ (a.exec D now jobID s).next, b.Unpaid := by
  cases h with
  | failing => exact absurd rfl hc
  | ending => exact fun b hb => repairCode_unpaid (finish_repair _ b hb)
  | @checking r =>
    dsimp only [Act.exec]
    split
    · dsimp only
      split <;> simp [Act.Unpaid, Act.delivery]
    · split
      · exact relay_unpaid r
      · simp [Act.Unpaid, Act.delivery]
  | @pending r =>
    dsimp only [Act.exec]
    split
    · simp
    · exact relay_unpaid r
  | relaying h => exact fun b hb => relayCode_unpaid (exec_relay (h a List.mem_cons_self) b hb)
  | repairing h =>
    cases h a List.mem_cons_self with
    | code h => cases a <;> first | exact h.elim | simp [Act.Unpaid, Act.delivery]
    | _ => simp
  | _ =>
    dsimp only [Act.exec]
    (repeat' split) <;> simp [Act.Unpaid, Act.delivery]

end Deliveries

structure Paid (w : World U) : Prop where
  due : ∀ a ∈ w.armings, w.due.filter (·.source = .failure a.id) =
    if w.sess.failure = some a then [] else [⟨.failure a.id, .ready a.failure.status⟩]
  known : ∀ d ∈ w.due, ∀ k, d.source = .failure k → k < w.sess.serial

section Paid

variable {w w' : World U} {a : Act} {rest : List Act}

theorem Paid.start : Paid (World.start D U) := by
  constructor <;> simp [World.start, World.due]

theorem Paid.keep (h : Paid w)
    (hdue : ∀ k, w'.due.filter (·.source = .failure k) = w.due.filter (·.source = .failure k))
    (ha : w'.armings = w.armings) (hs : w'.sess.failure = w.sess.failure)
    (hserial : w.sess.serial ≤ w'.sess.serial) : Paid w' := by
  refine ⟨?_, fun d hd k hk => ?_⟩
  · rw [ha, hs]
    exact fun b hb => (hdue b.id).trans (h.due b hb)
  · have hmem : d ∈ w.due.filter (·.source = .failure k) := by
      rw [← hdue k]
      exact List.mem_filter.2 ⟨hd, by simpa using hk⟩
    exact Nat.lt_of_lt_of_le (h.known d (List.mem_filter.1 hmem).1 k hk) hserial

theorem Paid.arm {n : Nat} {f : TxnFailure} (h : Paid w) (hreg : Registered w)
    (hnone : w.sess.failure = none) (hdue : w'.due = w.due)
    (ha : w'.armings = w.armings ++ [⟨w.sess.serial, n, f⟩])
    (hs : w'.sess.failure = some ⟨w.sess.serial, n, f⟩)
    (hserial : w'.sess.serial = w.sess.serial + 1) : Paid w' := by
  refine ⟨fun b hb => ?_, fun d hd k hk => ?_⟩
  · rw [hdue, hs]
    rw [ha] at hb
    rcases List.mem_append.1 hb with hb | hb
    · have hne : ¬ some (Armed.mk w.sess.serial n f) = some b := by
        rintro ⟨⟩
        exact absurd (hreg.ids _ hb) (Nat.lt_irrefl _)
      rw [h.due b hb, if_neg hne, if_neg (by simp [hnone])]
    · rw [List.mem_singleton.1 hb, if_pos rfl, List.filter_eq_nil_iff]
      intro d hd hk
      exact absurd (h.known d hd _ (by simpa using hk)) (Nat.lt_irrefl _)
  · rw [hserial]
    exact Nat.lt_succ_of_lt (h.known d (hdue ▸ hd) k hk)

theorem filter_unpaid {l : List Act} (h : ∀ b ∈ l, b.Unpaid) (k : Nat) :
    (l.filterMap Act.delivery).filter (·.source = .failure k) = [] := by
  rw [List.filter_eq_nil_iff]
  intro d hd
  obtain ⟨b, hb, hbd⟩ := List.mem_filterMap.1 hd
  simpa using h b hb d hbd k

theorem due_applyFront {e : Effect} (he : ∀ d ∈ e.client, ∀ k, d.source ≠ .failure k) (k : Nat) :
    (w.applyFront rest e).due.filter (·.source = .failure k) =
      w.due.filter (·.source = .failure k) := by
  have hnil : e.client.filter (·.source = .failure k) = [] :=
    List.filter_eq_nil_iff.2 fun d hd => by simpa using he d hd k
  simp [World.due, World.applyFront, hnil]

theorem due_applyBack (hb : w.back = a :: rest)
    (hnext : ∀ b ∈ (a.exec D 0 "" w.sess).next, b.Unpaid) (k : Nat) :
    (w.applyBack rest (a.exec D 0 "" w.sess)).due.filter (·.source = .failure k) =
      w.due.filter (·.source = .failure k) := by
  have hcons : w.back.filterMap Act.delivery = a.delivery.toList ++
      rest.filterMap Act.delivery := by
    rw [hb, List.filterMap_cons]
    cases a.delivery <;> rfl
  rw [World.due, World.due, hcons, World.applyBack, exec_client]
  simp only [List.filterMap_append, List.filter_append, filter_unpaid hnext k, List.nil_append,
    List.append_assoc]

theorem Paid.release {b : Armed} (h : Paid w) (hreg : Registered w) (hcur : w.sess.failure = some b)
    (hdue : w'.due = w.due ++ [⟨.failure b.id, .ready b.failure.status⟩])
    (ha : w'.armings = w.armings) (hs : w'.sess.failure = none)
    (hserial : w'.sess.serial = w.sess.serial) : Paid w' := by
  refine ⟨fun c hc => ?_, fun d hd k hk => ?_⟩
  · rw [ha] at hc
    rw [hdue, hs, List.filter_append, h.due c hc, hcur]
    by_cases hbc : b = c
    · subst hbc
      simp
    · have hid : b.id ≠ c.id := fun hid => hbc (hreg.eq_of_id (hreg.current b hcur) hc hid)
      simp [hbc, hid]
  · rw [hserial]
    rw [hdue] at hd
    rcases List.mem_append.1 hd with hd | hd
    · exact h.known d hd k hk
    · rw [List.mem_singleton.1 hd] at hk
      cases hk
      exact hreg.ids b (hreg.current b hcur)

theorem Paid.count (h : Paid w) (hreg : Registered w) (hb : w.back = [.consumeFailureMessage]) :
    Paid (w.applyBack [] (Act.consumeFailureMessage.exec D 0 "" w.sess)) := by
  have hdue : w.due = w.got := by simp [World.due, hb, Act.delivery]
  have hdue' {sess : Session} : (w.applyBack [] { sess }).due = w.due := by
    simp [World.due, World.applyBack, hb, Act.delivery]
  dsimp only [Act.exec]
  split
  next b hcur =>
    split
    · refine h.release hreg hcur ?_ (List.append_nil _) rfl rfl
      rw [hdue]
      simp [World.due, World.applyBack, Act.delivery]
    · exact h.keep (fun _ => congrArg _ hdue') (List.append_nil _) rfl (Nat.le_refl _)
  · exact h.keep (fun _ => congrArg _ hdue') (List.append_nil _) rfl (Nat.le_refl _)

theorem Paid.moves {l : Label U} (h : Paid w) (ht : Threads w) (hreg : Registered w)
    (hal : Alone l w) (hm : Moves D l w w') : Paid w' := by
  cases hm with
  | @front _ now jobID a rest hf =>
    obtain ⟨m, -, ha⟩ := ht.head hf
    by_cases hbegin : ∃ n f, a = .beginFailure n f
    · obtain ⟨n, f, rfl⟩ := hbegin
      have hact : Label.act w (.front now jobID) = some (.beginFailure n f) := by
        simp [Label.act, hf]
      exact h.arm hreg (hal.beginFailure hact).1 (by simp [World.due, World.applyFront]) rfl rfl rfl
    · replace hbegin : ∀ n f, a ≠ .beginFailure n f := fun n f h => hbegin ⟨n, f, h⟩
      have hc : a ≠ .consumeFailureMessage := by
        rintro rfl
        cases ha with | code ha => exact ha
      have hs : (a.exec D now jobID w.sess).sess.failure = w.sess.failure :=
        (exec_failure hbegin hc).1
      refine h.keep (due_applyFront ?_)
        ((congrArg (_ ++ ·) (exec_armed hbegin)).trans (List.append_nil _)) hs
        serial_le_exec
      rw [exec_client]
      exact fun d hd => frontAct_unpaid ha d (Option.mem_toList.1 hd)
  | @readUpstream _ r _ hb hu _ =>
    refine h.keep (fun _ => congrArg _ ?_) rfl rfl (Nat.le_refl _)
    cases hr : r.msg.isReady <;> simp [World.due, hb, pumpBackend, hr, Act.delivery]
  | @back _ a rest hb =>
    have hmode : BackMode (a :: rest) := hb ▸ ht.back
    by_cases hbegin : ∃ n f, a = .beginFailure n f
    · obtain ⟨n, f, rfl⟩ := hbegin
      have hact : Label.act w .back = some (.beginFailure n f) := by simp [Label.act, hb]
      refine h.arm hreg (hal.beginFailure hact).1 ?_ rfl rfl rfl
      simp [World.due, World.applyBack, hb, List.filterMap_cons, Act.delivery]
    · replace hbegin : ∀ n f, a ≠ .beginFailure n f := fun n f h => hbegin ⟨n, f, h⟩
      by_cases hc : a = .consumeFailureMessage
      · subst hc
        cases hmode with
        | failing => exact h.count hreg hb
        | relaying hm => exact (hm _ List.mem_cons_self).elim
        | repairing hm => cases hm _ List.mem_cons_self with | code hm => exact hm.elim
      · have hs : (a.exec D 0 "" w.sess).sess.failure = w.sess.failure := (exec_failure hbegin hc).1
        exact h.keep (due_applyBack hb (exec_mode_unpaid hmode hc))
          ((congrArg (_ ++ ·) (exec_armed hbegin)).trans (List.append_nil _)) hs serial_le_exec
  | _ => exact h.keep (fun _ => rfl) rfl rfl (Nat.le_refl _)

end Paid

section Readies

variable {w : World U}

theorem ready_pairwise (ho : Ordered w) (hp : Placed w) :
    (w.fates.filterMap (·.reply.readyOrigin) ++
      (w.unread.filterMap Reply.readyOrigin ++ w.toUp.filterMap Request.readyOrigin)).Pairwise
        Origin.Before := by
  have hall : (w.written.filterMap Request.readyOrigin).Pairwise Origin.Before := by
    refine List.pairwise_filterMap.2 (ho.written.imp fun {p q} h a ha b hb => ?_)
    simp only [Request.readyOrigin, Option.ite_none_right_eq_some, Option.some.injEq] at ha hb
    exact ha.2 ▸ hb.2 ▸ h
  rw [← ho.readies, hp, List.filterMap_append, List.filterMap_map, List.append_assoc] at hall
  exact hall

theorem ready_once {f g : Fate} {n : Nat} (ho : Ordered w) (hp : Placed w) (hf : f ∈ w.fates)
    (hg : g ∈ w.fates) (hfn : f.reply.readyOrigin = some (.client n))
    (hgn : g.reply.readyOrigin = some (.client n)) : f = g := by
  let Apart (f g : Fate) : Prop :=
    ¬ (f.reply.readyOrigin = some (.client n) ∧ g.reply.readyOrigin = some (.client n))
  have hpair : w.fates.Pairwise Apart := by
    refine (List.pairwise_filterMap.1 (List.pairwise_append.1 (ready_pairwise ho hp)).1).imp ?_
    exact fun h hfg => Origin.not_before_self n (h _ hfg.1 _ hfg.2)
  have : Std.Symm Apart := ⟨fun _ _ h h' => h h'.symm⟩
  by_contra hne
  exact hpair.forall hf hg hne ⟨hfn, hgn⟩

theorem ready_of_unclaimed {o : Origin} (h : (o, true) ∈ w.unclaimed) :
    o ∈ w.unread.filterMap Reply.readyOrigin ++ w.toUp.filterMap Request.readyOrigin := by
  have hreply {r : Reply} (hr : r ∈ w.unread) (hitem : r.item = (o, true)) :
      o ∈ w.unread.filterMap Reply.readyOrigin := by
    obtain ⟨ho, hready⟩ := Prod.mk.inj hitem
    exact List.mem_filterMap.2 ⟨r, hr, by simp [Reply.readyOrigin, hready, ho]⟩
  simp only [World.unclaimed, List.mem_append, List.mem_map, List.mem_filterMap] at h
  rw [List.mem_append]
  rcases h with ⟨r, ⟨b, hb, hr⟩, hitem⟩ | ⟨r, hr, hitem⟩ | ⟨q, hq, hitem⟩
  · refine .inl (hreply (List.mem_append_left _ (List.mem_filterMap.2 ⟨b, hb, ?_⟩)) hitem)
    cases b <;> first | exact hr | cases hr
  · exact .inl (hreply (List.mem_append_right _ hr) hitem)
  · obtain ⟨ho, hready⟩ := Prod.mk.inj hitem
    exact .inr (List.mem_filterMap.2 ⟨q, hq, by simp [Request.readyOrigin, hready, ho]⟩)

theorem not_placed_of_closers {f : Fate} {n : Nat} (ho : Ordered w) (hp : Placed w)
    (hc : .client n ∈ w.closers) (hf : f ∈ w.fates) : f.reply.readyOrigin ≠ some (.client n) :=
  fun hfn =>
  Origin.not_before_self n <| (List.pairwise_append.1 (ready_pairwise ho hp)).2.2 _
    (List.mem_filterMap.2 ⟨f, hf, hfn⟩) _ (ready_of_unclaimed (mem_of_mem_closers hc))

end Readies

def Act.readying : Act → Option Reply
  | .startRepair o st => some ⟨o, .ready st⟩
  | .writeClient ⟨.relayed o, .ready st⟩ => some ⟨o, .ready st⟩
  | _ => none

structure Relayed (w : World U) : Prop where
  back : ∀ b ∈ w.back, ∀ r, b.readying = some r → ⟨r, .client⟩ ∈ w.fates
  got : ∀ d ∈ w.got, ∀ o st, d = ⟨.relayed o, .ready st⟩ → ⟨⟨o, .ready st⟩, .client⟩ ∈ w.fates
  refused : ∀ d ∈ w.got, ∀ n st, d = ⟨.refusal n, .ready st⟩ → ∃ m, w.sent[n]? = some m ∧
    m.tag = .query

section Relayed

variable {s : Session} {now : Nat} {jobID : String} {a : Act} {rest : List Act}

theorem relay_readying {r : Reply} (hr : r.msg.isReady = false) :
    ∀ b ∈ relay D r, b.readying = none := by
  obtain ⟨o, m⟩ := r
  cases m with
  | error e => by_cases he : isConflict e.code = true <;> simp [relay, he, Act.readying]
  | parameterStatus name value =>
    simp only [relay, List.mem_singleton, forall_eq]
    split <;> rfl
  | ready st => cases hr
  | _ => simp [relay, Act.readying]

theorem relay_ready {o : Origin} {st : TxStatus} :
    ∀ b ∈ relay D ⟨o, .ready st⟩, ∀ r, b.readying = some r → r = ⟨o, .ready st⟩ := by
  simp [relay, Act.readying]

theorem exec_relay_readying {o : Origin} (h : RelayCode o a) :
    ∀ b ∈ (a.exec D now jobID s).next, b.readying = none := by
  cases a with
  | claimJob o' tag =>
    dsimp only [Act.exec]
    split
    · simp [Act.readying]
    · split
      · simp [Act.readying]
      · dsimp only
        split <;> simp [Act.readying, jobIDRowDescription, jobIDDataRow]
  | _ =>
    first
      | exact h.elim
      | (dsimp only [Act.exec]; (repeat' split) <;> simp [Act.readying, jobIDRowDescription])

theorem repairCode_readying (h : RepairCode a) : a.readying = none := by
  cases a with
  | writeClient d =>
    obtain ⟨n, h⟩ := h
    obtain ⟨src, m⟩ := d
    obtain rfl : src = .repair n := h
    rfl
  | startRepair o st => exact h.elim
  | _ => rfl

theorem exec_readying (h : BackMode (a :: rest)) :
    ∀ b ∈ (a.exec D now jobID s).next, ∀ r, b.readying = some r →
    a.readying = some r ∨ ⟨r, .client⟩ ∈ (a.exec D now jobID s).fates := by
  have hnone (hall : ∀ b ∈ (a.exec D now jobID s).next, b.readying = none) :
      ∀ b ∈ (a.exec D now jobID s).next, ∀ r, b.readying = some r →
        a.readying = some r ∨ ⟨r, .client⟩ ∈ (a.exec D now jobID s).fates := by
    intro b hb r hr
    cases (hall b hb).symm.trans hr
  cases h with
  | @offering r =>
    refine hnone ?_
    dsimp only [Act.exec]
    split
    · simp [Act.readying]
    · split
      · simp [Act.readying]
      next x _ hready =>
        dsimp only
        split
        next hp =>
          have hresult := (passes_rowset hp).2
          obtain ⟨o, m⟩ := r
          cases m <;> simp_all [Act.readying]
        · simp
  | @checking r =>
    dsimp only [Act.exec]
    split
    · dsimp only
      split <;> simp [Act.readying]
    · split
      next hready =>
        obtain ⟨o, m⟩ := r
        obtain ⟨st, rfl⟩ := Backend.isReady_iff.1 hready
        intro b hb r' hr'
        exact .inr (relay_ready (D := D) b hb r' hr' ▸ List.mem_singleton_self _)
      · simp [Act.readying]
  | pending hr =>
    refine hnone ?_
    dsimp only [Act.exec]
    split
    · simp
    · exact relay_readying hr
  | ending => exact hnone fun b hb => repairCode_readying (finish_repair _ b hb)
  | starting =>
    dsimp only [Act.exec]
    split <;> simp [Act.readying]
  | relaying h => exact hnone (exec_relay_readying (h a List.mem_cons_self))
  | repairing h =>
    refine hnone ?_
    cases h a List.mem_cons_self with
    | code h => cases a <;> first | exact h.elim | simp [Act.readying]
    | _ => simp
  | _ =>
    refine hnone ?_
    dsimp only [Act.exec]
    (repeat' split) <;> simp [Act.readying]

theorem Relayed.start : Relayed (World.start D U) := by
  constructor <;> simp [World.start]

theorem Relayed.front {w : World U} (h : Relayed w) (ht : Threads w) (hf : w.front = a :: rest) :
    Relayed (w.applyFront rest (a.exec D now jobID w.sess)) := by
  obtain ⟨m, hm, ha⟩ := ht.head hf
  have hnew : ∀ d ∈ (a.exec D now jobID w.sess).client, d.source = .refusal (w.read - 1) ∧
      ∀ st, d.msg = .ready st → m.tag = .query := by
    intro d hd
    rw [exec_client, Option.mem_toList] at hd
    cases ha with
    | code ha =>
      cases a <;> cases hd
      refine ⟨ha.1, fun st hst => ?_⟩
      rcases ha.2 with ⟨e, he⟩ | ⟨htag, -⟩
      · cases he.symm.trans hst
      · exact htag
    | _ => cases hd
  refine ⟨fun b hb r hr => List.mem_append_left _ (h.back b hb r hr), fun d hd o st hd' => ?_,
    fun d hd n st hd' => ?_⟩
  · refine List.mem_append_left _ ((List.mem_append.1 hd).elim (h.got d · o st hd') fun hd => ?_)
    cases (congrArg Delivery.source hd').symm.trans (hnew d hd).1
  · rcases List.mem_append.1 hd with hd | hd
    · exact h.refused d hd n st hd'
    · cases (congrArg Delivery.source hd').symm.trans (hnew d hd).1
      exact ⟨m, hm, (hnew d hd).2 st (congrArg Delivery.msg hd')⟩

theorem Relayed.back_step {w : World U} (h : Relayed w) (ht : Threads w) (hb : w.back = a :: rest) :
    Relayed (w.applyBack rest (a.exec D 0 "" w.sess)) := by
  have hmode : BackMode (a :: rest) := hb ▸ ht.back
  refine ⟨fun b hb' r hr => ?_, fun d hd o st hd' => ?_, fun d hd n st hd' => ?_⟩
  · rcases List.mem_append.1 hb' with hb' | hb'
    · rcases exec_readying hmode b hb' r hr with ha | hfate
      · exact List.mem_append_left _ (h.back a (by simp [hb]) r ha)
      · exact List.mem_append_right _ hfate
    · exact List.mem_append_left _ (h.back b (by simp [hb, hb']) r hr)
  · refine List.mem_append_left _ ((List.mem_append.1 hd).elim (h.got d · o st hd') fun hd => ?_)
    rw [exec_client, Option.mem_toList] at hd
    cases a <;> cases hd
    exact h.back (.writeClient d) (by simp [hb]) _ (by rw [hd']; rfl)
  · refine (List.mem_append.1 hd).elim (h.refused d · n st hd') fun hd => ?_
    rw [exec_client, Option.mem_toList] at hd
    cases a <;> cases hd
    subst hd'
    cases hmode with
    | relaying hm => cases hm _ List.mem_cons_self
    | repairing hm =>
      cases hm _ List.mem_cons_self with
      | code hm =>
        obtain ⟨k, hm⟩ := hm
        cases hm

theorem Relayed.moves {l : Label U} {w w' : World U} (h : Relayed w) (ht : Threads w)
    (hm : Moves D l w w') : Relayed w' := by
  cases hm with
  | send =>
    refine ⟨h.back, h.got, fun d hd n st hd' => ?_⟩
    obtain ⟨m, hm, htag⟩ := h.refused d hd n st hd'
    exact ⟨m, by rw [List.getElem?_append_left (List.getElem?_eq_some_iff.1 hm).1, hm], htag⟩
  | front hf => exact h.front ht hf
  | readUpstream hb hu _ =>
    refine ⟨fun b hb' r' hr' => ?_, h.got, h.refused⟩
    obtain rfl | rfl := mem_pumpBackend hb' <;> cases hr'
  | back hb => exact h.back_step ht hb
  | _ => exact ⟨h.back, h.got, h.refused⟩

end Relayed

section Deferred

/-- The steps of a run in which no exchange and no failure is armed too early. -/
def Timely (l : Label U) (w : World U) : Prop := Gap l w ∧ Alone l w

instance (l : Label U) (w : World U) : Decidable (Timely l w) := inferInstanceAs (Decidable (_ ∧ _))

structure Owned (w : World U) : Prop where
  threads : Threads w
  attributed : Attributed w
  placed : Placed w
  ordered : Ordered w
  consumed : Consumed w
  failing : Failing w
  registered : Registered w
  charged : Charged w
  paid : Paid w
  relayed : Relayed w

theorem owned {w : World U} (hw : Reach (system D U) Timely w) : Owned w := by
  refine hw.invariant (I := Owned) ?_ fun l w w' h hok hs => ?_
  · have hline : (World.start D U).line = [] := rfl
    have hun : (World.start D U).unclaimed = [] := rfl
    exact ⟨Threads.start, .idle rfl (by simp [system, hline]) rfl rfl, rfl, Ordered.start,
      ⟨by simp [system, World.start], by simp [system, World.start], by simp [system, World.start]⟩,
      .quiet rfl (by simp [system, hun]) rfl rfl, Registered.start, Charged.start, Paid.start,
        Relayed.start⟩
  · have hm := moves_of_step hs
    obtain ⟨ht, hat, hp, ho, hc, hf, hr, hch, hpd, hrl⟩ := h
    exact ⟨ht.moves hm, hat.moves ht hok.1 hm, hp.moves ht hm, ho.moves ht hm, hc.moves ht hat hm,
      hf.moves ht hat hp ho hc hok.2 hm, hr.moves ht hm, hch.moves ht hat hc hr hf hok.2 hm,
        hpd.moves ht hr hok.2 hm, hrl.moves ht hm⟩

variable {w : World U} {a : Armed}

theorem Owned.sync_ready (h : Owned w) (ha : a ∈ w.armings) (h2 : a.failure.swallow = 2) {f : Fate}
    (hf : f ∈ w.fates) (hn : f.reply.readyOrigin = some (.client a.request)) :
    f.taker = .failure a.id := by
  rcases h.charged.sync a ha h2 with ⟨st, hst⟩ | ⟨hcur, hzero⟩
  · rw [ready_once h.ordered h.placed hf hst hn rfl]
  · cases h.failing with
    | quiet hnone => simp [hnone] at hcur
    | @injecting b script later hin =>
      obtain rfl : b = a := Option.some.inj (hin.failure.symm.trans hcur)
      have hcount := hin.count
      have hscript : script = [.client b.request, .failure b.id] := by
        rcases hin.shape with ⟨h, -⟩ | h | ⟨h, -⟩
        · exact h
        · simp [h] at hcount; omega
        · simp [h] at hcount; omega
      have hmem : .client b.request ∈ w.closers := by
        have howing : .client b.request ∈ w.closers ++ w.failureWrites := by
          simp [hin.owing, hscript]
        refine (List.mem_append.1 howing).resolve_right fun hw => ?_
        by_cases hnil : w.failureWrites = []
        · simp [hnil] at hw
        · simp [(hin.pending hnil).1] at hw
      exact absurd hn (not_placed_of_closers h.ordered h.placed hmem hf)

theorem Owned.ended (h : Owned w) (ha : w.sess.failure = some a) {f : Fate} (hf : f ∈ w.fates)
    (hid : f.reply.origin = .failure a.id) (hready : f.reply.msg.isReady = true) : w.back ≠ [] := by
  intro hb
  have h0 : w.taking = 0 := by simp [World.taking, hb]
  have hclosed := h.charged.closed a ha f hf hid hready
  cases h.failing with
  | quiet hnone => simp [hnone] at ha
  | @injecting b script later hin =>
    obtain rfl : b = a := Option.some.inj (hin.failure.symm.trans ha)
    have := hin.count
    have := List.length_pos_iff.2 (hin.script_ne_nil h0)
    omega

/-- In a run in which no exchange and no failure is armed too early, a failure put
off to a `Sync` takes the `ReadyForQuery` for that `Sync` and the whole answer of
the statement it injects, takes nothing that answers a later message, and the
client gets one `ReadyForQuery` for the `Sync`, with the failure's status. -/
theorem deferred_failure_takes_own (hw : Reach (system D U) Timely w) (ha : a ∈ w.armings)
    (h2 : a.failure.swallow = 2) :
    (w.sent[a.request]? = some .sync ∧ Injected 2 a.failure) ∧
    (∀ r ∈ w.said, r.origin = .failure a.id ∨ r.readyOrigin = some (.client a.request) →
      ⟨r, .failure a.id⟩ ∈ w.fates ∨ r ∈ w.unread) ∧
    (∀ f ∈ w.fates, f.taker = .failure a.id →
      f.reply.origin = .failure a.id ∨ ∃ n ≤ a.request, f.reply.origin = .client n) ∧
    (∀ d ∈ w.got, ∀ st, d.msg = .ready st → d.source ≠ .relayed (.client a.request) ∧
        d.source ≠ .refusal a.request) ∧
    w.got.filter (·.source = .failure a.id) <+: [⟨.failure a.id, .ready a.failure.status⟩] ∧
    ((∃ st, ⟨⟨.failure a.id, .ready st⟩, .failure a.id⟩ ∈ w.fates) → w.back = [] →
      w.sess.failure ≠ some a ∧ w.got.filter (·.source = .failure a.id) =
        [⟨.failure a.id, .ready a.failure.status⟩]) := by
  have h := owned hw
  refine ⟨h.registered.deferred a ha h2, fun r hr ho => ?_, fun f hf ht => ?_, ?_, ?_, ?_⟩
  · rw [h.placed, List.mem_append, List.mem_map] at hr
    rcases hr with ⟨⟨r', t⟩, hf, rfl⟩ | hr
    · refine .inl ?_
      obtain rfl : t = .failure a.id := ho.elim (h.charged.own _ hf _) (h.sync_ready ha h2 hf)
      exact hf
    · exact .inr hr
  · obtain ⟨b, hb, hid, hown⟩ := h.charged.taken f hf a.id ht
    obtain rfl := h.registered.eq_of_id hb ha hid
    cases ho : f.reply.origin with
    | client n => exact .inr ⟨n, hown.2 h2 n ho, rfl⟩
    | failure k => exact .inl (by rw [hown.1 k ho])
    | hidden p k => cases ((h.consumed.fates f hf p k).2 ho).symm.trans ht
  · rintro ⟨src, _⟩ hd st rfl
    refine ⟨?_, ?_⟩
    · rintro rfl
      cases h.sync_ready ha h2 (h.relayed.got _ hd _ st rfl) rfl
    · rintro rfl
      obtain ⟨m, hm, htag⟩ := h.relayed.refused _ hd _ st rfl
      cases Option.some.inj (hm.symm.trans (h.registered.deferred a ha h2).1)
      cases htag
  · have hdue := h.paid.due a ha
    rw [World.due, List.filter_append] at hdue
    refine List.IsPrefix.trans ⟨_, hdue⟩ ?_
    split
    · exact List.nil_prefix
    · exact List.prefix_refl _
  · rintro ⟨st, hst⟩ hb
    have hover : w.sess.failure ≠ some a := fun hcur => h.ended hcur hst rfl rfl hb
    have hdue := h.paid.due a ha
    rw [World.due, hb, if_neg hover] at hdue
    exact ⟨hover, by simpa using hdue⟩

def refusedParse : List (Label .any) :=
  List.flatten
    [[.send (.query "BEGIN"), .readClient], fronts 8,
      [.answer ([.commandComplete "BEGIN"], .active), .readUpstream],
      backs 6, [.readUpstream], backs 8, [.send (.parse "" "TRUNCATE t"), .send .sync, .readClient],
        fronts 5, [.readClient], fronts 7,
      [.answer ([], .active), .answer ([.error { code := "22012", message := "division by zero" }],
        .failed), .readUpstream], backs 4, [.readUpstream], backs 2, [.readUpstream], backs 5]

theorem deferred_failure_takes_own_parse :
    let w := (system (.sample []) .any).dest Timely refusedParse
    let a : Armed := ⟨0, 2, abortFailure 2⟩
    a ∈ w.armings ∧ w.sess.failure ≠ some a ∧
      w.got.filter (·.source = .failure a.id) = [⟨.failure a.id, .ready .failed⟩] := by
  have ha : ⟨0, 2, abortFailure 2⟩ ∈
    ((system (.sample []) .any).dest Timely refusedParse).armings := by decide +kernel
  exact ⟨ha, (deferred_failure_takes_own (Reach.dest _ _) ha rfl).2.2.2.2.2
    ⟨.failed, by decide +kernel⟩ (by decide +kernel)⟩

def overtakenParse : List (Label .any) :=
  List.flatten
    [[.send (.query "BEGIN"), .readClient], fronts 8,
      [.answer ([.commandComplete "BEGIN"], .active), .readUpstream],
      backs 6, [.readUpstream], backs 8, [.send (.parse "" "TRUNCATE t"), .send .sync, .readClient],
        fronts 5,
      [.readClient], fronts 3, [.answer ([], .active), .readUpstream], backs 8, fronts 4,
      [.answer ([.error { code := "22012", message := "division by zero" }], .failed),
        .readUpstream], backs 2,
      [.readUpstream], backs 4, [.send (.query "ROLLBACK"), .readClient], fronts 8,
      [.answer ([.commandComplete "ROLLBACK"], .idle), .readUpstream], backs 2]

theorem deferred_failure_takes_later :
    ∃ w : World .any, Reachable (system (.sample []) .any) w ∧ ⟨0, 2, abortFailure 2⟩ ∈ w.armings ∧
      ⟨.relayed (.client 2), .ready .active⟩ ∈ w.got ∧
      ⟨⟨.client 3, .commandComplete "ROLLBACK"⟩, .failure 0⟩ ∈ w.fates :=
  ⟨(system (.sample []) .any).dest (fun _ _ => True) overtakenParse,
    Reach.dest _ _, by decide +kernel⟩

end Deferred

end DsqlEmulator.Proxy
