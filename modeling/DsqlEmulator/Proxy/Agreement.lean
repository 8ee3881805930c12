import DsqlEmulator.Proxy.Turns

/-! The tracker and the upstream agree on whether a transaction is open, once nothing is on
its way. -/

namespace DsqlEmulator.Proxy

open Wire Occ Txn Runs Classify Postgres

variable {U : Upstream} {D : Dialect} {parse : String → Option (List Statement)}
  {T : Transacts U parse}

def World.target (w : World U) : Bool := w.sess.tracker.inTxn && !w.front.any Act.closes

structure Steady (D : Dialect) (T : Transacts U parse) (w : World U) (g : Turn) : Prop where
  known : ∀ a ∈ w.front, a.Known D parse g
  lasts : Lasts w.front
  spared : w.sess.pendingFailure.isSome = true → w.sess.skipSync = true ∧
    ∀ a ∈ w.front, a.spare = true
  mends : ∀ a ∈ w.back, a.Mends parse
  waits : ∀ x ∈ g.waiting, ∃ portal, x.1 = .execute portal
  agrees : (w.toUp.flatMap (g.brings parse) ++ g.ahead parse w.sess w.front).foldl Kind.plays
    (g.held (T.opened w.up)) = w.target
  restored : w.restoring = true → g.Stays parse w

section Front

variable {w : World U} {g g' : Turn} {s : Session} {n now : Nat} {m : Frontend}
  {jobID : String} {a : Act} {rest : List Act} {qs : List Request}

theorem classed_of_not_forwards (ha : a.forwards = false) : g.classed s a = g := by
  cases a <;> first | rfl | cases ha

theorem classed_waiting : (g.classed s a).waiting = g.waiting := by
  unfold Turn.classed
  split <;> rfl

theorem brings_congr (h : ∀ q ∈ qs, ∀ k, q.origin = .client k → g'.kinds k = g.kinds k) :
    qs.flatMap (g'.brings parse) = qs.flatMap (g.brings parse) := by
  refine List.flatMap_congr fun q hq => ?_
  unfold Turn.brings
  split
  next k b =>
    rw [h _ hq k rfl]
  next => rfl

theorem brings_classed (ho : Ordered w) (hf : w.front = a :: rest)
    (ha : FrontAct (w.read - 1) m a) :
    w.toUp.flatMap ((g.classed w.sess a).brings parse) = w.toUp.flatMap (g.brings parse) := by
  cases hfw : a.forwards with
  | false => rw [classed_of_not_forwards hfw]
  | true =>
    refine brings_congr fun q hq k hk => ?_
    have hfresh := ho.fresh (by rw [hf, List.countP_cons_of_pos hfw]; omega) q
      (ho.toUp.subset hq) k hk
    have hne : k ≠ w.read - 1 := by omega
    unfold Turn.classed
    split
    next n b =>
      cases ha with
      | code ha =>
        obtain ⟨rfl, -⟩ := ha
        exact Function.update_of_ne hne ..
    next n b =>
      cases ha with
      | code ha =>
        obtain ⟨rfl, -⟩ := ha
        exact Function.update_of_ne hne ..
    next => rfl

theorem rest_not_forwards (ho : Ordered w) (hf : w.front = a :: rest) (hfw : a.forwards = true) :
    ∀ b ∈ rest, b.forwards = false := by
  have honce := ho.once
  rw [hf, List.countP_cons_of_pos hfw] at honce
  intro b hb
  rw [Bool.eq_false_iff]
  intro hbf
  have hpos : 0 < rest.countP Act.forwards := List.countP_pos_iff.2 ⟨b, hb, hbf⟩
  omega

theorem rest_classed (ho : Ordered w) (hf : w.front = a :: rest) :
    rest.flatMap (Act.brings parse (g.classed w.sess a)) = rest.flatMap (Act.brings parse g) := by
  cases hfw : a.forwards with
  | false => rw [classed_of_not_forwards hfw]
  | true =>
    have hrest := rest_not_forwards ho hf hfw
    refine List.flatMap_congr fun b hb => ?_
    cases b with
    | writeUpstream o ms =>
      cases o with
      | client k => cases hrest _ hb
      | _ => rfl
    | _ => rfl

theorem flatMap_notes (h : ∀ b ∈ rest, b.isNote = true) :
    rest.flatMap (Act.brings parse g) = [] := by
  refine List.flatMap_eq_nil_iff.2 fun b hb => ?_
  have hnote := h b hb
  cases b <;> first | rfl | cases hnote

theorem any_closes_notes (h : ∀ b ∈ rest, b.isNote = true) : rest.any Act.closes = false := by
  refine List.any_eq_false.2 fun b hb => ?_
  have hnote := h b hb
  cases b <;> first | (cases hnote; done) | simp

theorem spare_of_note (h : a.isNote = true) : a.spare = true := by
  cases a <;> first | rfl | cases h

theorem spared_exec (hspared : s.pendingFailure.isSome = true → s.skipSync = true ∧
      ∀ b ∈ a :: rest, b.spare = true) (hlasts : Lasts (a :: rest))
    (hsome : (a.exec D now jobID s).sess.pendingFailure.isSome = true) :
    (a.exec D now jobID s).sess.skipSync = true ∧
      ∀ b ∈ (a.exec D now jobID s).next ++ rest, b.spare = true := by
  by_cases hd : ∃ f, a = .deferFailure f
  · obtain ⟨f, rfl⟩ := hd
    exact ⟨rfl, fun b hb => spare_of_note (hlasts.notes rfl b hb)⟩
  by_cases hs : ∃ k, a = .handleSync k
  · obtain ⟨k, rfl⟩ := hs
    cases hsome
  rw [exec_pendingFailure (fun f hf => hd ⟨f, hf⟩) fun k hk => hs ⟨k, hk⟩] at hsome
  obtain ⟨hskip, hall⟩ := hspared hsome
  obtain ⟨ha, hrest⟩ := List.forall_mem_cons.1 hall
  cases a with
  | noteBatchState t =>
    dsimp only [Act.exec]
    (repeat' split) <;> exact ⟨hskip, hrest⟩
  | droppingUntilSync k m' =>
    rw [Act.exec, if_pos hskip]
    exact ⟨hskip, hrest⟩
  | writeUpstream o ms => exact ⟨hskip, hrest⟩
  | quit => exact ⟨hskip, hrest⟩
  | handleSync k => exact absurd ⟨k, rfl⟩ hs
  | _ => cases ha

theorem alone_of_last (parse : String → Option (List Statement)) (g : Turn)
    (hlasts : Lasts (a :: rest))
    (hspared : s.pendingFailure.isSome = true → s.skipSync = true ∧ ∀ b ∈ a :: rest, b.spare = true)
    (hlast : a.last = true) : rest.flatMap (Act.brings parse g) = [] ∧ rest.any Act.closes = false ∧
      (a.spare = false → s.deferred parse = []) := by
  refine ⟨flatMap_notes (hlasts.notes hlast), any_closes_notes (hlasts.notes hlast),
    fun hspare => ?_⟩
  cases hp : s.pendingFailure with
  | none => simp [Session.deferred, hp]
  | some f =>
    have := (hspared (by rw [hp]; rfl)).2 a List.mem_cons_self
    rw [hspare] at this
    cases this

theorem deferred_congr {s' : Session} (h : s'.pendingFailure = s.pendingFailure) :
    s'.deferred parse = s.deferred parse := by
  rw [Session.deferred, h, Session.deferred]

theorem ahead_cons : g.ahead parse s (a :: rest) = a.brings parse g ++ g.ahead parse s rest := by
  simp [Turn.ahead]

theorem ahead_append {l : List Act} :
    g.ahead parse s (l ++ rest) = l.flatMap (Act.brings parse g) ++ g.ahead parse s rest := by
  simp [Turn.ahead]

theorem Turned.agrees {calm : Prop} {x : Bool} {T : List Kind}
    (h : Turned parse g g' s calm a (a.exec D now jobID s)) (hlasts : Lasts (a :: rest))
    (hspared : s.pendingFailure.isSome = true → s.skipSync = true ∧ ∀ b ∈ a :: rest, b.spare = true)
    (hrest : rest.flatMap (Act.brings parse g') = rest.flatMap (Act.brings parse g))
    (hagrees : (T ++ g.ahead parse s (a :: rest)).foldl Kind.plays x =
      (s.tracker.inTxn && !(a :: rest).any Act.closes)) :
    (T ++ (a.exec D now jobID s).up.flatMap (g'.brings parse) ++
      g'.ahead parse (a.exec D now jobID s).sess
        ((a.exec D now jobID s).next ++ rest)).foldl Kind.plays x =
      ((a.exec D now jobID s).sess.tracker.inTxn &&
          !((a.exec D now jobID s).next ++ rest).any Act.closes) := by
  rw [ahead_cons, List.foldl_append, List.foldl_append, List.any_cons] at hagrees
  rw [ahead_append, List.append_assoc, List.foldl_append, ← List.append_assoc, List.foldl_append,
    List.any_append]
  generalize T.foldl Kind.plays x = y at hagrees ⊢
  cases h with
  | keeps htracker hpending hcloses hnext halike =>
    rw [halike, htracker, hnext, Bool.false_or]
    rw [hcloses, Bool.false_or] at hagrees
    rw [← hagrees, Turn.ahead, Turn.ahead, hrest, deferred_congr hpending]
  | admits _ htracker hpending hadmits hcloses hbrings hup hplays =>
    obtain ⟨hlast, hspare⟩ : a.last = true ∧ a.spare = false := by
      cases a <;> first | (cases hadmits; done) | (cases hcloses; done) | exact ⟨rfl, rfl⟩
    obtain ⟨hnil, hnone, hdeferred⟩ := alone_of_last parse g hlasts hspared hlast
    have hahead : g.ahead parse s rest = [] := by rw [Turn.ahead, hnil, hdeferred hspare]; rfl
    have hahead' : g'.ahead parse (a.exec D now jobID s).sess rest = [] := by
      rw [Turn.ahead, hrest, hnil, deferred_congr hpending, hdeferred hspare]; rfl
    rw [hcloses, hnone, hbrings, hahead] at hagrees
    rw [hup, hahead', hplays.stays, hnone, htracker]
    simp only [List.foldl_nil, Bool.or_false, Bool.not_false, Bool.and_true] at hagrees
    rw [hagrees]
    simpa using hplays.alike _
  | ends ha _ hpending hup hcloses halike =>
    obtain ⟨n, m, rfl⟩ := ha
    obtain ⟨hnil, -, hdeferred⟩ := alone_of_last parse g hlasts hspared rfl
    have hahead' : g'.ahead parse ((Act.aborted n m).exec D now jobID s).sess rest = [] := by
      rw [Turn.ahead, hrest, hnil, deferred_congr hpending, hdeferred rfl]; rfl
    rw [hup, hahead', hcloses, Bool.true_or, Bool.not_true, Bool.and_false]
    exact halike _
  | rolls ha =>
    subst ha
    have hahead : g'.ahead parse (Act.admitRollback.exec D now jobID s).sess rest =
        g.ahead parse s rest := by
      rw [Turn.ahead, hrest]; rfl
    simp only [Act.closes, Bool.true_or, Bool.not_true, Bool.and_false] at hagrees
    rw [hahead]
    simpa [Tracker.record, Tracker.reset] using hagrees
  | @defers f ha =>
    subst ha
    obtain ⟨hnil, hnone, hdeferred⟩ := alone_of_last parse g hlasts hspared rfl
    have hahead : g.ahead parse s rest = [] := by rw [Turn.ahead, hnil, hdeferred rfl]; rfl
    have hahead' : g'.ahead parse ((Act.deferFailure f).exec D now jobID s).sess rest =
        kindsOf parse f.statement := by
      rw [Turn.ahead, hrest, hnil]; rfl
    rw [hahead] at hagrees
    rw [hahead']
    exact hagrees
  | @syncs k ha =>
    subst ha
    obtain ⟨hnil, hnone, -⟩ := alone_of_last parse g hlasts hspared rfl
    have hahead : g.ahead parse s rest = s.deferred parse := by rw [Turn.ahead, hnil]; rfl
    have hahead' : g'.ahead parse ((Act.handleSync k).exec D now jobID s).sess rest = [] := by
      rw [Turn.ahead, hrest, hnil]; rfl
    have hnext : ((Act.handleSync k).exec D now jobID s).next.flatMap (Act.brings parse g') =
        s.deferred parse := by
      dsimp only [Act.exec]
      rw [List.flatMap_append]
      cases hp : s.pendingFailure <;>
        simp [forward, Frontend.counted, Session.deferred, hp, Turn.brings, kindsOf, statementsOf]
    have hopen : ((Act.handleSync k).exec D now jobID s).next.any Act.closes = false := by
      dsimp only [Act.exec]
      cases s.pendingFailure <;> rfl
    rw [hahead] at hagrees
    rw [hahead', hnext, hopen, hnone]
    rw [hnone] at hagrees
    exact hagrees

theorem foldl_true_of_append {k k' : List Kind} (h : (k ++ k').foldl Kind.plays true = true) :
    k'.foldl Kind.plays true = true := by
  rw [List.foldl_append] at h
  exact Kind.foldl_plays_true k' h

theorem Turned.stays {calm : Prop} (h : Turned parse g g' s calm a (a.exec D now jobID s))
    (hcalm : ¬ calm) (hlasts : Lasts (a :: rest))
    (hspared : s.pendingFailure.isSome = true → s.skipSync = true ∧ ∀ b ∈ a :: rest, b.spare = true)
    (hrest : rest.flatMap (Act.brings parse g') = rest.flatMap (Act.brings parse g))
    (htxn : s.tracker.inTxn = true) (hcloses : (a :: rest).any Act.closes = false)
    (hahead : (g.ahead parse s (a :: rest)).foldl Kind.plays true = true) :
    (a.exec D now jobID s).sess.tracker.inTxn = true ∧
      ((a.exec D now jobID s).next ++ rest).any Act.closes = false ∧
      (g'.ahead parse (a.exec D now jobID s).sess ((a.exec D now jobID s).next ++ rest)).foldl
        Kind.plays true = true := by
  have hagrees := h.agrees (x := true) (T := []) hlasts hspared hrest
    (by rw [htxn, hcloses]; exact hahead)
  rw [List.any_cons, Bool.or_eq_false_iff] at hcloses
  have hopen : (a.exec D now jobID s).sess.tracker.inTxn = true ∧
      (a.exec D now jobID s).next.any Act.closes = false := by
    cases h with
    | keeps htracker _ _ hnext _ => exact ⟨htracker.trans htxn, hnext⟩
    | admits hturns htracker _ _ _ _ _ hplays =>
      have hplain : a.batch.any Kind.turns = false := by
        rw [Bool.eq_false_iff]
        exact fun hturn => hcalm (hturns hturn)
      exact ⟨htracker.trans ((Kind.foldl_plays hplain).trans htxn), hplays.stays⟩
    | ends _ hcalm' => exact absurd hcalm' hcalm
    | rolls ha =>
      subst ha
      cases hcloses.1
    | defers ha =>
      subst ha
      exact ⟨htxn, rfl⟩
    | syncs ha =>
      subst ha
      refine ⟨htxn, ?_⟩
      dsimp only [Act.exec]
      cases s.pendingFailure <;> rfl
  have hany : ((a.exec D now jobID s).next ++ rest).any Act.closes = false := by
    rw [List.any_append, hopen.2, hcloses.2]
    rfl
  refine ⟨hopen.1, hany, foldl_true_of_append (hagrees.trans ?_)⟩
  rw [hopen.1, hany]
  rfl

theorem restoring_front (ha : FrontAct n m a)
    (h : (w.applyFront rest (a.exec D now jobID w.sess)).restoring = true) :
    w.restoring = true := by
  unfold World.restoring at h ⊢
  rw [Bool.or_eq_true] at h ⊢
  exact h.imp_left (exec_occRepair_front ha)

theorem Steady.front (hD : Knows D parse) (h : Steady D T w g) (ht : Threads w) (ho : Ordered w)
    (hok : Turning D (.front now jobID) (w, g) parse) (hf : w.front = a :: rest) :
    Steady D T (w.applyFront rest (a.exec D now jobID w.sess)) (g.classed w.sess a) := by
  obtain ⟨m, -, ha⟩ := ht.head hf
  have hact : (Label.front now jobID : Label U).act w = some a := Label.act_front hf
  have hlasts : Lasts (a :: rest) := hf ▸ h.lasts
  have hspared : w.sess.pendingFailure.isSome = true → w.sess.skipSync = true ∧
    ∀ b ∈ a :: rest, b.spare = true := hf ▸ h.spared
  obtain ⟨hknown, hknownRest⟩ := List.forall_mem_cons.1 (hf ▸ h.known)
  have hrest : rest.flatMap (Act.brings parse (g.classed w.sess a)) =
    rest.flatMap (Act.brings parse g) := rest_classed ho hf
  have hturned : Turned parse g (g.classed w.sess a) w.sess (w.restoring = false) a
      (a.exec D now jobID w.sess) :=
    turned_of_exec hD ha hknown (hok.control a hact) (hok.ending a hact) (hok.failing a hact)
      (hok.marker jobID rfl)
  refine ⟨?_, hlasts.exec ha, spared_exec hspared hlasts,
    h.mends, by rw [classed_waiting]; exact h.waits, ?_, fun hrestoring => ?_⟩
  · intro b hb
    rcases List.mem_append.1 hb with hb | hb
    · exact exec_known hD ha hknown b hb
    · cases hfw : a.forwards with
      | false => rw [classed_of_not_forwards hfw]; exact hknownRest b hb
      | true => exact known_of_not_forwards (rest_not_forwards ho hf hfw b hb)
  · have hagrees := h.agrees
    rw [World.target, hf] at hagrees
    have hnext := hturned.agrees hlasts hspared hrest hagrees
    rw [← brings_classed (m := m) ho hf ha] at hnext
    have hheld : (g.classed w.sess a).held (T.opened w.up) = g.held (T.opened w.up) := by
      rw [Turn.held, classed_waiting, Turn.held]
    change ((w.toUp ++ _).flatMap _ ++ _).foldl Kind.plays
      ((g.classed w.sess a).held (T.opened w.up)) = _
    rw [hheld, List.flatMap_append]
    exact hnext
  · have hold := restoring_front ha hrestoring
    obtain ⟨htxn, hcloses, hahead⟩ := h.restored hold
    rw [hf] at hcloses hahead
    exact hturned.stays (by simp [hold]) hlasts hspared hrest htxn hcloses hahead

end Front

section Back

variable {w : World U} {g : Turn} {s : Session} {a : Act} {rest : List Act}

theorem classed_of_not_remembers (ha : a.remembers = false) : g.classed s a = g := by
  cases a <;> first | rfl | cases ha

theorem restoring_of_mem (ha : a ∈ w.back) (h : a.restores = true) : w.restoring = true := by
  rw [World.restoring, List.any_eq_true.2 ⟨a, ha, h⟩, Bool.or_true]

theorem restoring_of_repair (h : w.sess.occRepair.isSome = true) : w.restoring = true := by
  rw [World.restoring, h, Bool.true_or]

theorem back_brings (hD : Knows D parse) (hmode : BackMode (a :: rest)) (hmends : a.Mends parse) :
    Kind.Alike ((a.exec D 0 "" s).up.flatMap (g.brings parse)) [] ∨
      a.restores = true ∧ (a.exec D 0 "" s).up.flatMap (g.brings parse) = [.rollback, .begin] := by
  by_cases ha : ∃ o ms, a = .writeUpstream o ms
  · obtain ⟨o, ms, rfl⟩ := ha
    have hclient := (backMode_write hmode).1
    have hup : ((Act.writeUpstream o ms).exec D 0 "" s).up.flatMap (g.brings parse) =
        ms.flatMap (kindsOf parse) := by
      dsimp only [Act.exec]
      rw [List.flatMap_map]
      refine List.flatMap_congr fun m _ => ?_
      cases o with
      | client n => cases hclient
      | _ => rfl
    rw [hup]
    have hplain (h : ∀ m ∈ ms, turns parse m = false) : Kind.Alike
        (ms.flatMap (kindsOf parse)) [] := by
      refine Kind.alike_nil (List.any_eq_false.2 fun k hk => ?_)
      obtain ⟨m, hm, hk⟩ := List.mem_flatMap.1 hk
      obtain ⟨st, hst, rfl⟩ := List.mem_map.1 hk
      exact List.any_eq_false.1 (h m hm) st hst
    by_cases hrestore : ∃ k, o = .hidden .restore k
    · obtain ⟨k, rfl⟩ := hrestore
      rcases hmends with rfl | rfl
      · left
        simpa using hD.alike_rollbackTo
      · right
        simpa using hD.kindsOf_restart
    · left
      refine hplain ?_
      cases o with
      | client n => cases hclient
      | failure k => exact hmends
      | hidden p k => cases p <;> first | exact absurd ⟨k, rfl⟩ hrestore | exact hmends
  · left
    rw [exec_up fun o ms h => ha ⟨o, ms, h⟩]
    exact .refl _

theorem Steady.back (hD : Knows D parse) (h : Steady D T w g) (ht : Threads w)
    (hsource : Sourced D w) (hok : Turning D .back (w, g) parse) (hb : w.back = a :: rest) :
    Steady D T (w.applyBack rest (a.exec D 0 "" w.sess)) (g.classed w.sess a) := by
  have hmode : BackMode (a :: rest) := hb ▸ ht.back
  obtain ⟨hadmits, hremembers, -⟩ := backMode_quiet hmode
  have hact : (Label.back : Label U).act w = some a := Label.act_back hb
  obtain ⟨hmends, hmendsRest⟩ := List.forall_mem_cons.1 (hb ▸ h.mends)
  have hshadowed : a.Shadowed D := hsource.back a (by simp [hb])
  have hnext : ∀ b ∈ (a.exec D 0 "" w.sess).next, b.Mends parse ∧
      (b.restores = true → w.sess.occRepair.isSome = true ∨ a.restores = true) :=
        exec_mends hD hmode hshadowed hmends
  have htracker : (a.exec D 0 "" w.sess).sess.tracker = w.sess.tracker := exec_tracker hadmits
  have hpending : (a.exec D 0 "" w.sess).sess.pendingFailure = w.sess.pendingFailure :=
    backMode_pendingFailure hmode
  have hahead : g.ahead parse (a.exec D 0 "" w.sess).sess w.front =
      g.ahead parse w.sess w.front := by
    rw [Turn.ahead, deferred_congr hpending, Turn.ahead]
  have hstays (hw : g.Stays parse w) : g.Stays parse (w.applyBack rest (a.exec D 0 "" w.sess)) := by
    refine ⟨?_, hw.2.1, ?_⟩
    · change (a.exec D 0 "" w.sess).sess.tracker.inTxn = true
      rw [htracker]
      exact hw.1
    · change (g.ahead parse (a.exec D 0 "" w.sess).sess w.front).foldl Kind.plays true = true
      rw [hahead]
      exact hw.2.2
  rw [classed_of_not_remembers hremembers]
  refine ⟨h.known, h.lasts, ?_, ?_, h.waits, ?_, fun hrestoring => hstays ?_⟩
  · intro hsome
    have hskip : (a.exec D 0 "" w.sess).sess.skipSync = w.sess.skipSync := exec_mode_skipSync hmode
    obtain ⟨hold, hall⟩ := h.spared (hpending ▸ hsome)
    exact ⟨hskip.trans hold, hall⟩
  · intro b hb'
    rcases List.mem_append.1 hb' with hb' | hb'
    · exact (hnext b hb').1
    · exact hmendsRest b hb'
  · change ((w.toUp ++ (a.exec D 0 "" w.sess).up).flatMap (g.brings parse) ++
      g.ahead parse (a.exec D 0 "" w.sess).sess w.front).foldl Kind.plays (g.held (T.opened w.up)) =
        ((a.exec D 0 "" w.sess).sess.tracker.inTxn && !w.front.any Act.closes)
    rw [hahead, htracker, List.flatMap_append, List.append_assoc, List.foldl_append,
      List.foldl_append]
    have hagrees := h.agrees
    rw [List.foldl_append] at hagrees
    rcases back_brings (g := g) (s := w.sess) hD hmode hmends with halike | ⟨hrestores, heq⟩
    · rw [halike]
      exact hagrees
    · -- the transaction that is restored is the one the session is in
      obtain ⟨htxn, hcloses, hopen⟩ :=
        h.restored (restoring_of_mem (hb ▸ List.mem_cons_self) hrestores)
      rw [heq, htxn, hcloses]
      exact hopen
  · rw [World.restoring, Bool.or_eq_true] at hrestoring
    rcases hrestoring with hrepair | hany
    · rcases exec_occRepair hrepair with hold | ⟨o, e, inTxn, rfl, htakes⟩
      · exact h.restored (restoring_of_repair hold)
      · exact hok.taking _ hact htakes
    · obtain ⟨b, hb', hrestores⟩ := List.any_eq_true.1 hany
      refine h.restored ?_
      rcases List.mem_append.1 hb' with hb' | hb'
      · rcases (hnext b hb').2 hrestores with hold | hold
        · exact restoring_of_repair hold
        · exact restoring_of_mem (hb ▸ List.mem_cons_self) hold
      · exact restoring_of_mem (hb ▸ List.mem_cons_of_mem a hb') hrestores

end Back

section Answer

variable {w : World U} {g : Turn} {q : Request} {rest : List Request} {st : U.State} {c : U.Choice}

theorem answered_kinds : (g.answered q).kinds = g.kinds := by
  unfold Turn.answered
  split
  · split <;> rfl
  · split <;> rfl
  · rfl

theorem answered_brings : (g.answered q).brings parse = g.brings parse := by
  funext q'
  unfold Turn.brings
  rw [answered_kinds]

theorem answered_act (a : Act) : a.brings parse (g.answered q) = a.brings parse g := by
  cases a with
  | writeUpstream o ms => simp only [Act.brings, answered_brings]
  | _ => rfl

theorem held_plain {m : Frontend} (hobeys : Obeys T g.waiting st m c)
    (hm : ∀ x ∈ g.waiting, x.1 ≠ m) :
    g.held (T.opened (U.answer st m c).1) = (kindsOf parse m).foldl Kind.plays
      (g.held (T.opened st)) := by
  have hopened := hobeys.opened hm
  cases hturns : turns parse m with
  | false =>
    rw [opens_of_not_turns hturns] at hopened
    rw [hopened]
    exact (opens_of_not_turns hturns).symm
  | true =>
    have hnone := (hobeys.carried hturns).1
    rw [Turn.held, Turn.held, hnone]
    exact hopened

theorem held_answered (hobeys : Obeys T g.waiting st q.msg c)
    (hwaits : ∀ x ∈ g.waiting, ∃ portal, x.1 = .execute portal)
    (halone : g.binds q = true → g.waiting = none) :
    (g.answered q).held (T.opened (U.answer st q.msg c).1) = (g.brings parse q).foldl Kind.plays
      (g.held (T.opened st)) := by
  obtain ⟨o, m⟩ := q
  by_cases hexecute : ∃ portal, m = .execute portal
  · obtain ⟨portal, rfl⟩ := hexecute
    have hbrings : g.brings parse ⟨o, .execute portal⟩ = [] := by cases o <;> rfl
    have hanswered : g.answered ⟨o, .execute portal⟩ =
        if g.waiting.map Prod.fst = some (.execute portal) then { g with waiting := none }
          else g := by cases o <;> rfl
    rw [hbrings, hanswered]
    split
    next hmap =>
      obtain ⟨⟨m, kinds⟩, hwaiting, rfl⟩ := Option.map_eq_some_iff.1 hmap
      rw [Turn.held, Turn.held, hwaiting]
      exact hobeys.opened_awaited hwaiting
    next hmap =>
      refine held_plain hobeys fun x hx heq => hmap ?_
      rw [Option.mem_def.1 hx]
      exact congrArg some heq
  · have hm : ∀ x ∈ g.waiting, x.1 ≠ m := by
      rintro x hx rfl
      exact hexecute (hwaits x hx)
    have hplain := held_plain hobeys hm
    by_cases hbind : ∃ n b, (⟨o, m⟩ : Request) = ⟨.client n, .bind b⟩
    · obtain ⟨n, b, heq⟩ := hbind
      cases heq
      simp only [Turn.answered, Turn.brings]
      cases hturns : (g.kinds n).any Kind.turns with
      | true =>
        have hnone := halone hturns
        rw [Turn.held, Turn.held, hnone] at hplain
        rw [if_pos rfl, Turn.held, Turn.held, hnone]
        exact congrArg (fun x => (g.kinds n).foldl Kind.plays x) hplain
      | false =>
        rw [if_neg Bool.false_ne_true, Kind.foldl_plays hturns]
        exact hplain
    · have hsame : g.answered ⟨o, m⟩ = g ∧ g.brings parse ⟨o, m⟩ = kindsOf parse m := by
        cases o with
        | client n =>
          cases m with
          | bind b => exact absurd ⟨n, b, rfl⟩ hbind
          | execute portal => exact absurd ⟨portal, rfl⟩ hexecute
          | _ => exact ⟨rfl, rfl⟩
        | _ =>
          cases m with
          | execute portal => exact absurd ⟨portal, rfl⟩ hexecute
          | _ => exact ⟨rfl, rfl⟩
      rw [hsame.1, hsame.2]
      exact hplain

theorem answered_waits (h : ∀ x ∈ g.waiting, ∃ portal, x.1 = .execute portal) :
    ∀ x ∈ (g.answered q).waiting, ∃ portal, x.1 = .execute portal := by
  unfold Turn.answered
  split
  next n b =>
    split
    · rintro x ⟨⟩
      exact ⟨b.portal, rfl⟩
    · exact h
  next =>
    split
    · rintro x ⟨⟩
    · exact h
  · exact h

theorem Steady.answer (h : Steady D T w g) (hok : Obeyed T (.answer c) (w, g))
    (hq : w.toUp = q :: rest) :
    Steady D T (w.applyAnswer q rest (U.answer w.up q.msg c)) (g.answered q) := by
  have hserves : (q, c) ∈ (Label.answer c : Label U).serves w := by simp [Label.serves, hq]
  have hheld := held_answered (hok.obeys _ hserves) h.waits (hok.alone _ hserves)
  have hahead (s : Session) (l : List Act) : (g.answered q).ahead parse s l =
      g.ahead parse s l := by
    rw [Turn.ahead, List.flatMap_congr fun a _ => answered_act a, Turn.ahead]
  refine ⟨fun a ha => ?_, h.lasts, h.spared, h.mends, answered_waits h.waits, ?_,
    fun hrestoring => ?_⟩
  · have hknown := h.known a ha
    cases a <;> first | trivial | simpa [Turn.Tells, answered_kinds] using hknown
  · have hagrees := h.agrees
    rw [hq, List.flatMap_cons, List.append_assoc, List.foldl_append, ← hheld] at hagrees
    change (rest.flatMap ((g.answered q).brings parse) ++ (g.answered q).ahead parse w.sess
      w.front).foldl Kind.plays
      ((g.answered q).held (T.opened (U.answer w.up q.msg c).1)) = w.target
    rw [hahead, answered_brings]
    exact hagrees
  · obtain ⟨htxn, hcloses, hopen⟩ := h.restored hrestoring
    exact ⟨htxn, hcloses, by rw [hahead]; exact hopen⟩

end Answer

section Run

variable {w : World U × Turn}

theorem Steady.start : Steady D T (World.start D U) {} := by
  have hclosed : T.opened U.init = false := by rw [Transacts.opened, T.status_init]; rfl
  constructor <;> simp [World.start, Lasts, Session.new, Turn.ahead, Turn.held, World.target,
    Session.deferred, hclosed, World.restoring]

theorem pumpFrontend_steady (D : Dialect) (parse : String → Option (List Statement)) (n : Nat)
    (m : Frontend) (g : Turn) : Lasts (pumpFrontend n m) ∧
    (pumpFrontend n m).flatMap (Act.brings parse g) = [] ∧
      (pumpFrontend n m).any Act.closes = false ∧
      ∀ a ∈ pumpFrontend n m, a.spare = true ∧ a.Known D parse g := by
  unfold pumpFrontend
  split <;> simp [Lasts, Turn.brings, kindsOf, statementsOf]

theorem Steady.readClient {w : World U} {g : Turn} {m : Frontend} {inbox : List Frontend}
    (h : Steady D T w g) (hf : w.front = []) :
    Steady D T { w with inbox, read := w.read + 1, front := pumpFrontend w.read m } g := by
  obtain ⟨hlasts, hbrings, hcloses, hall⟩ := pumpFrontend_steady D parse w.read m g
  have hahead : g.ahead parse w.sess (pumpFrontend w.read m) = g.ahead parse w.sess w.front := by
    rw [Turn.ahead, hbrings, Turn.ahead, hf]
    rfl
  refine ⟨fun a ha => (hall a ha).2, hlasts, fun hsome =>
    ⟨(h.spared hsome).1, fun a ha => (hall a ha).1⟩, h.mends, h.waits, ?_, fun hrestoring => ?_⟩
  · have hagrees := h.agrees
    rw [World.target, ← hahead, hf] at hagrees
    change _ = (w.sess.tracker.inTxn && !(pumpFrontend w.read m).any Act.closes)
    rw [hcloses]
    exact hagrees
  · obtain ⟨htxn, -, hopen⟩ := h.restored hrestoring
    refine ⟨htxn, hcloses, ?_⟩
    change (g.ahead parse w.sess (pumpFrontend w.read m)).foldl Kind.plays true = true
    rw [hahead]
    exact hopen

theorem Steady.readUpstream {w : World U} {g : Turn} {r : Reply} {fromUp : List Reply}
    (h : Steady D T w g) :
    Steady D T { w with fromUp, back := pumpBackend r } g := by
  have hpump : ∀ a ∈ pumpBackend r, a.Mends parse ∧ a.restores = false := by
    intro a ha
    rcases mem_pumpBackend ha with rfl | rfl <;> exact ⟨trivial, rfl⟩
  refine ⟨h.known, h.lasts, h.spared, fun a ha => (hpump a ha).1, h.waits, h.agrees,
    fun hrestoring => h.restored ?_⟩
  rw [World.restoring, Bool.or_eq_true] at hrestoring
  rcases hrestoring with hold | hany
  · exact restoring_of_repair hold
  · obtain ⟨a, ha, hrestores⟩ := List.any_eq_true.1 hany
    cases (hpump a ha).2.symm.trans hrestores

theorem steady (hD : Knows D parse)
    (hw : Reach ((system D U).watched {} Turn.note) (InTurn D T) w) :
    Steady D T w.1 w.2 := by
  induction hw with
  | init => exact .start
  | @step l w w' hw hok hs ih =>
    obtain ⟨w, g⟩ := w
    obtain ⟨w', g'⟩ := w'
    obtain ⟨hstep, rfl⟩ := System.watched_step.1 hs
    clear hs
    change step D l w = some w' at hstep
    have hreach : Reachable (system D U) w := hw.unwatched fun _ _ _ => trivial
    have ht : Threads w := threads hreach
    obtain ⟨hturning, hobeyed⟩ := hok
    cases moves_of_step hstep with
    | send => exact ⟨ih.known, ih.lasts, ih.spared, ih.mends, ih.waits, ih.agrees, ih.restored⟩
    | readClient hf _ _ => exact ih.readClient hf
    | @front _ now jobID a rest hf =>
      have hact : (Label.front now jobID : Label U).act w = some a := Label.act_front hf
      have hnote : Turn.note (.front now jobID) w g = g.classed w.sess a := by
        simp only [Turn.note, hact]
      rw [hnote]
      exact ih.front hD ht (ordered hreach) hturning hf
    | readUpstream _ _ _ => exact ih.readUpstream
    | @back _ a rest hb =>
      have hact : (Label.back : Label U).act w = some a := Label.act_back hb
      have hnote : Turn.note .back w g = g.classed w.sess a := by simp only [Turn.note, hact]
      rw [hnote]
      exact ih.back hD ht (sourced hreach) hturning hb
    | @answer _ c q rest hq =>
      have hnote : Turn.note (.answer c) w g = g.answered q := by
        simp [Turn.note, Label.act, Label.serves, hq]
      rw [hnote]
      exact ih.answer hobeyed hq

/-- Once the upstream has answered everything, and no failure and no `Execute` is awaited, the
tracker is in a transaction just when the upstream is. -/
theorem tracker_agrees (T : Transacts U parse) (hD : Knows D parse)
    (hw : Reach ((system D U).watched {} Turn.note) (InTurn D T) w) (hup : w.1.toUp = [])
    (hfront : ∀ a ∈ w.1.front, a.isNote = true) (hpending : w.1.sess.pendingFailure = none)
    (hwaiting : w.2.waiting = none) :
    w.1.sess.tracker.inTxn = true ↔ T.status w.1.up = .active ∨ T.status w.1.up = .failed := by
  have hagrees := (steady hD hw).agrees
  rw [hup, Turn.ahead, flatMap_notes hfront, Session.deferred, hpending, Turn.held, hwaiting,
    World.target, any_closes_notes hfront] at hagrees
  have hopened : T.opened w.1.up = w.1.sess.tracker.inTxn := hagrees.trans (Bool.and_true _)
  rw [← TxStatus.opened_iff, ← hopened]
  rfl

end Run

section Samples

def turnStatements (sql : String) : Option (List Statement) :=
  [("BEGIN", [.begin]), ("COMMIT", [.commit false]),
    ("INSERT INTO t VALUES (1)", [.insert (some "t")]),
    ("INSERT INTO t VALUES (1); COMMIT", [.insert (some "t"), .commit false]),
      ("SELECT 1/0", [.raise]),
    ("ROLLBACK", [.rollback false]), ("SAVEPOINT dsql_occ", [.savepoint "dsql_occ"]),
    ("ROLLBACK TO SAVEPOINT dsql_occ", [.rollbackTo "dsql_occ"]),
      ("ROLLBACK; BEGIN", [.rollback false, .begin])].lookup sql

def Dialect.turning : Dialect :=
  { Dialect.sample [] with stripAsync := fun _ => none }.over turnStatements

theorem knows_turning : Knows .turning turnStatements where
  reads := reads_over
  abort := rfl
  rollback := rfl
  saves := rfl
  rollbackTo := rfl
  restart := rfl
  marked sql rewritten statement jobID h := by cases h
  rewrites sql r h := by cases h
  shadows i hi := by
    obtain ⟨sql, h⟩ := hi
    by_cases hinsert : sql = "INSERT INTO t VALUES (1)"
    · subst hinsert
      cases h
      rfl
    · by_cases hselect : sql = "SELECT * FROM t FOR UPDATE"
      · subst hselect
        cases h
        rfl
      · simp [Dialect.turning, Dialect.over, Dialect.sample, List.lookup_cons,
          beq_false_of_ne hinsert, beq_false_of_ne hselect] at h

def turnsTaken : System (World (upstream turnStatements) × Turn)
    (Label (upstream turnStatements)) :=
  (system .turning (upstream turnStatements)).watched {} Turn.note

def preparedBegin : List (Label (upstream turnStatements)) :=
  List.flatten [[.send (.parse "" "BEGIN"), .send (.bind { portal := "", statement := "" }),
    .send (.execute ""), .send .sync],
    .readClient :: fronts 4, .readClient :: fronts 7, .readClient :: fronts 3,
      .readClient :: fronts 4, [.answer [], .answer [], .answer [], .answer []]]

theorem tracker_agrees_prepared :
    let w := turnsTaken.dest (InTurn .turning (transacts turnStatements)) preparedBegin
    w.1.up.status = .active ∧
      (w.1.sess.tracker.inTxn = true ↔ w.1.up.status = .active ∨ w.1.up.status = .failed) := by
  intro w
  have hup : w.1.toUp = [] := by decide +kernel
  have hfront : ∀ a ∈ w.1.front, a.isNote = true := by decide +kernel
  have hpending : w.1.sess.pendingFailure = none := by decide +kernel
  have hwaiting : w.2.waiting = none := by decide +kernel
  have hreach : Reach turnsTaken (InTurn .turning (transacts turnStatements)) w := Reach.dest _ _
  exact ⟨by decide +kernel, tracker_agrees _ knows_turning hreach hup hfront hpending hwaiting⟩

def skippedCommit : List (Label (upstream turnStatements)) :=
  List.flatten [[.send (.query "BEGIN"), .readClient], fronts 8, [.answer [], .readUpstream],
    backs 6, .readUpstream :: backs 8,
    [.send (.query "INSERT INTO t VALUES (1); COMMIT"), .readClient], fronts 10,
    [.answer [{ error := some { code := "23505", message := "duplicate key" } }], .readUpstream],
      backs 5, .readUpstream :: backs 8]

/-- The upstream has aborted the transaction, which the tracker takes to be over. -/
theorem tracker_misses_aborted :
    Knows .turning turnStatements ∧ ∃ w, Reachable turnsTaken w ∧
      (w.1.inbox = [] ∧ w.1.front = [] ∧ w.1.back = [] ∧ w.1.toUp = [] ∧ w.1.fromUp = []) ∧
      (w.1.sess.failure = none ∧ w.1.sess.pendingFailure = none ∧ w.1.sess.hidden = none ∧
          w.1.sess.occRepair = none) ∧
      w.1.sess.tracker.inTxn = false ∧ w.1.up.status = .failed := by
  refine ⟨knows_turning, turnsTaken.dest (fun _ _ => True) skippedCommit, Reach.dest _ _,
    ?_, ?_, ?_⟩
  · decide +kernel
  · decide +kernel
  · decide +kernel

end Samples

end DsqlEmulator.Proxy
