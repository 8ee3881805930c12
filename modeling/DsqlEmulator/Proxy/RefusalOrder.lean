import DsqlEmulator.Proxy.AnswerOrder

/-! The `ReadyForQuery` that ends a refusal, and the order of everything the client gets.  A
failure is armed once the refusal is delivered, or at the `Sync` of a batch of which nothing more
was forwarded, so nothing of an earlier message is outstanding then. -/

namespace DsqlEmulator.Proxy

open Wire Occ Txn Runs

variable {U : Upstream} {D : Dialect}

structure World.Beyond (w : World U) (n : Nat) : Prop where
  incoming : ∀ x ∈ w.incoming, n ≤ x.n
  toUp : ∀ q ∈ w.toUp, ∀ m, q.origin = .client m → n ≤ m

def World.Drained (w : World U) : Prop := ∀ n, w.Beyond n

section Outstanding

variable {w w' : World U} {l : Label U} {n : Nat} {a : Act} {rest : List Act}

theorem drained_of_nil (hin : w.incoming = []) (hup : w.toUp.filterMap (·.origin.number) = []) :
    w.Drained := by
  refine fun n => ⟨by simp [hin], fun q hq m hm => ?_⟩
  have hnone := List.filterMap_eq_nil_iff.1 hup q hq
  simp [hm, Origin.number] at hnone

theorem World.Beyond.moves (h : w.Beyond n) (ht : Threads w) (hm : Moves D l w w')
    (hup : ∀ now jobID, l = .front now jobID → ∀ k ms rest, w.front =
      .writeUpstream (.client k) ms :: rest → n ≤ k) : w'.Beyond n := by
  cases hm with
  | send => exact ⟨h.incoming, h.toUp⟩
  | readClient => exact ⟨h.incoming, h.toUp⟩
  | @front _ now jobID a rest hf =>
    refine ⟨h.incoming, fun q hq m hm => ?_⟩
    rcases List.mem_append.1 hq with hq | hq
    · exact h.toUp q hq m hm
    · obtain ⟨ms, rfl⟩ := exec_up_client hq hm
      exact hup now jobID rfl m ms rest hf
  | readUpstream hb hu => exact ⟨incoming_readUpstream hb hu ▸ h.incoming, h.toUp⟩
  | @back _ a rest hb =>
    have hmode : BackMode (a :: rest) := hb ▸ ht.back
    refine ⟨fun x hx => ?_, fun q hq m hm => ?_⟩
    · have hold := h.incoming
      rw [World.incoming, hb] at hold
      rcases List.mem_append.1 hx with hx | hx
      · obtain ⟨b, hbx, hmark⟩ := List.mem_filterMap.1 hx
        rcases List.mem_append.1 hbx with hbx | hbx
        · obtain ⟨z, hz, hfrom⟩ := exec_leaves hmode b hbx x hmark
          rw [hfrom.1]
          exact hold z (List.mem_append_left _ (List.mem_filterMap.2 ⟨a, List.mem_cons_self, hz⟩))
        · exact hold x
            (List.mem_append_left _ (List.mem_filterMap.2 ⟨b, List.mem_cons_of_mem a hbx, hmark⟩))
      · exact hold x (List.mem_append_right _ hx)
    · rcases List.mem_append.1 hq with hq | hq
      · exact h.toUp q hq m hm
      · exact absurd hm (exec_mode_up hmode hq m)
  | @answer _ c q rest hq =>
    refine ⟨fun x hx => ?_, fun q' hq' => h.toUp q' (by rw [hq]; exact List.mem_cons_of_mem q hq')⟩
    rw [incoming_applyAnswer] at hx
    rcases List.mem_append.1 hx with hx | hx
    · exact h.incoming x hx
    · obtain ⟨b, -, hmark⟩ := List.mem_filterMap.1 hx
      cases ho : q.origin with
      | client m =>
        rw [ho] at hmark
        cases hmark
        exact h.toUp q (by simp [hq]) m ho
      | _ =>
        rw [ho] at hmark
        cases hmark

theorem Threads.forwards (ht : Threads w) {k : Nat} {ms : List Frontend}
    (hf : w.front = .writeUpstream (.client k) ms :: rest) :
    0 < w.read ∧ k = w.read - 1 ∧ ∃ m, w.sent[w.read - 1]? = some m ∧ ∃ m', ms = [m'] ∧
      m'.tag = m.tag := by
  obtain ⟨m, hpos, hm, hall⟩ := ht.front (by simp [hf])
  cases hall (.writeUpstream (.client k) ms) (by simp [hf]) with
  | code h => exact ⟨hpos, h.1, m, hm, h.2⟩

theorem World.Beyond.keep (h : w.Beyond n) (ht : Threads w) (hn : n < w.read)
    (hm : Moves D l w w') : w'.Beyond n := by
  refine h.moves ht hm fun _ _ _ k ms rest hf => ?_
  obtain ⟨-, rfl, -⟩ := ht.forwards hf
  exact Nat.le_sub_one_of_lt hn

theorem World.Drained.moves (h : w.Drained) (ht : Threads w) (hm : Moves D l w w')
    (hup : ∀ now jobID, l = .front now jobID → ∀ k ms rest, w.front ≠ .writeUpstream
      (.client k) ms :: rest) : w'.Drained :=
  fun n => (h n).moves ht hm fun now jobID hl k ms rest hf => absurd hf (hup now jobID hl k ms rest)

end Outstanding

def Confesses (done : List Nat) : List Act → Prop
  | [] => True
  | a :: l =>
    (∀ n f, a = .beginFailure n f → n ∈ done) ∧
      Confesses ((a.delivery.bind Delivery.repair).toList ++ done) l

section Confesses

variable {s : Session} {now : Nat} {jobID : String} {a : Act} {done done' : List Nat}
  {l r rest : List Act}

theorem Confesses.mono (h : Confesses done l) (hsub : done ⊆ done') : Confesses done' l := by
  induction l generalizing done done' with
  | nil => trivial
  | cons a l ih =>
    exact ⟨fun n f ha => hsub (h.1 n f ha),
      ih h.2 (List.append_subset.2 ⟨List.subset_append_left _ _,
      List.Subset.trans hsub (List.subset_append_right _ _)⟩)⟩

theorem Confesses.append (hl : Confesses done l) (hr : Confesses done r) :
    Confesses done (l ++ r) := by
  induction l generalizing done with
  | nil => exact hr
  | cons a l ih => exact ⟨hl.1, ih hl.2 (hr.mono (List.subset_append_right _ _))⟩

theorem confesses_of_forall (h : ∀ a ∈ l, ∀ n f, a ≠ .beginFailure n f) : Confesses done l := by
  induction l generalizing done with
  | nil => trivial
  | cons a l ih =>
    exact ⟨fun n f ha => absurd ha (h a List.mem_cons_self n f), ih fun b hb =>
      h b (List.mem_cons_of_mem a hb)⟩

theorem failRepair_confesses {n : Nat} : Confesses done (failRepair D n) := by
  simp [failRepair, Confesses, Act.delivery, Delivery.repair]

theorem runShadow_confesses {repair : InFlight} : Confesses done (runShadow D repair) := by
  unfold runShadow runRowsetShadow runCountShadow
  (repeat' split) <;> first
    | exact failRepair_confesses
    | exact confesses_of_forall (by simp [completeRepair])

theorem finish_confesses (x : Exchange) : Confesses done (x.finish D) := by
  unfold Exchange.finish
  (repeat' split) <;> first
    | exact failRepair_confesses
    | exact runShadow_confesses
    | exact confesses_of_forall (by simp [completeRepair])

theorem relayCode_not_fails {o : Origin} (h : RelayCode o a) : ∀ n f, a ≠ .beginFailure n f := by
  rintro n f rfl
  exact h

theorem relay_not_fails (r : Reply) : ∀ b ∈ relay D r, ∀ n f, b ≠ .beginFailure n f := by
  obtain ⟨o, m⟩ := r
  cases m with
  | error e => by_cases he : isConflict e.code = true <;> simp [relay, he]
  | _ => simp [relay]

theorem exec_confesses (h : BackMode (a :: rest)) : Confesses done (a.exec D now jobID s).next := by
  cases h with
  | ending => exact finish_confesses _
  | relaying h =>
    exact confesses_of_forall fun b hb =>
      relayCode_not_fails (exec_relay (h a List.mem_cons_self) b hb)
  | @checking r =>
    dsimp only [Act.exec]
    split
    · dsimp only
      split <;> exact confesses_of_forall (by simp)
    · split
      · exact confesses_of_forall fun b hb => relay_not_fails r b hb
      · exact confesses_of_forall (by simp)
  | @pending r =>
    dsimp only [Act.exec]
    split
    · trivial
    · exact confesses_of_forall fun b hb => relay_not_fails r b hb
  | repairing h =>
    cases h a List.mem_cons_self with
    | code h => cases a <;> first | exact h.elim | exact confesses_of_forall (by simp)
    | _ => trivial
  | _ =>
    dsimp only [Act.exec]
    (repeat' split) <;> exact confesses_of_forall (by simp)

end Confesses

section Sync

variable {s : Session} {now n : Nat} {jobID : String} {a : Act}

theorem exec_sync_sanctions (h : FrontAct n .sync a)
    (hs : (a.exec D now jobID s).next.any Act.sanctions = true) :
    (∃ k, a = .handleSync k) ∧ s.pendingFailure.isSome = true ∧
      (a.exec D now jobID s).next.any Act.skips = false := by
  cases h with
  | code h =>
    cases a with
    | handleSync k =>
      cases hp : s.pendingFailure with
      | none => simp [hp, forward, Frontend.counted] at hs
      | some f => exact ⟨⟨k, rfl⟩, rfl, by simp [hp, forward, Frontend.counted]⟩
    | _ =>
      first
        | exact h.elim
        | (simp at h; done)
        | (dsimp only [Act.exec] at hs; (repeat' split at hs) <;> cases hs)
  | _ => cases hs

end Sync

def World.Terminated (w : World U) : Prop := ∃ n, n + 1 = w.read ∧ w.sent[n]? = some .terminate

def World.heralds (w : World U) : Bool := w.front.head?.any Act.speaks

structure Sequenced (w : World U) : Prop where
  quits : w.Terminated → w.sess.closed = true ∨ .quit ∈ w.front
  drops : w.sess.skipSync = true ∨ w.front.any Act.skips = true → w.Drained ∨ w.heralds = true ∨
    w.Terminated
  pending : w.sess.pendingFailure.isSome = true → w.sess.skipSync = true
  arming : ∀ n f, .beginFailure n f ∈ w.front → w.heralds = true ∨ w.Beyond n
  confessed : Confesses (w.got.filterMap Delivery.repair) w.back
  armed : ∀ a ∈ w.armings, a.request ∈ w.got.filterMap Delivery.repair ∨ a.request < w.read ∧
    w.Beyond a.request
  known : ∀ d ∈ w.due, ∀ k, d.source = .failure k → ∃ a ∈ w.armings, a.id = k
  after : w.got.Pairwise fun d d' => ∀ k m, d.source = .failure k →
    d'.source = .relayed (.client m) →
    ∃ a ∈ w.armings, a.id = k ∧ (a.request ∈ w.got.filterMap Delivery.repair ∨ a.request ≤ m)

section Sequenced

variable {w w' : World U} {l : Label U} {n now : Nat} {jobID : String} {a : Act} {rest : List Act}

theorem Sequenced.start : Sequenced (World.start D U) := by
  constructor <;> simp [World.start, Session.new, World.Terminated, Confesses, World.due]

theorem Threads.drained (ht : Threads w) (hok : Orderly (.front now jobID) w)
    (hs : w.heralds = true) : w.Drained := by
  cases hf : w.front with
  | nil => simp [World.heralds, hf] at hs
  | cons a rest =>
    obtain ⟨m, -, ha⟩ := ht.head hf
    rw [World.heralds, hf] at hs
    cases hd : a.delivery with
    | none => cases a <;> first | (cases hs; done) | cases hd
    | some d =>
      obtain ⟨rfl, hsource, -⟩ := frontAct_delivery ha hd
      have hrefusing : (Act.writeClient d).refusing = some (w.read - 1) := by
        obtain ⟨_, msg⟩ := d
        cases hsource
        rfl
      obtain ⟨hin, hup⟩ := hok.1 (w.read - 1) (by simp [Label.act, hf, hrefusing])
      exact drained_of_nil hin hup

theorem Threads.begins {f : TxnFailure} (ht : Threads w) (hb : .beginFailure n f ∈ w.front) :
    n < w.read := by
  obtain ⟨m, hpos, -, hall⟩ := ht.front (List.ne_nil_of_mem hb)
  cases hall _ hb with
  | code h =>
    rw [h.1]
    exact Nat.sub_lt hpos Nat.one_pos

theorem Refusing.not_forwards (hr : Refusing w) (ht : Threads w)
    (hdrop : w.sess.skipSync = true ∨ w.front.any Act.skips = true) {k : Nat} {ms : List Frontend}
    (hf : w.front = .writeUpstream (.client k) ms :: rest) : w.Terminated := by
  rcases hdrop with hskip | hany
  · rcases hr.dropping hskip _ (by rw [hf]; exact List.mem_cons_self) rfl with ⟨_, _, h⟩ |
      ⟨_, h⟩ | ⟨j, h⟩
    · cases h
    · cases h
    · cases h
      obtain ⟨hpos, -, m, hm, m', hm', htag⟩ := ht.forwards hf
      cases hm'
      refine ⟨w.read - 1, Nat.sub_add_cancel hpos, ?_⟩
      cases m with
      | terminate => exact hm
      | malformed t => cases t <;> cases htag
      | _ => cases htag
  · have hzero := hr.skips hany
    rw [hf, List.countP_cons_of_pos rfl] at hzero
    cases hzero

theorem begins_of_armed {s : Session} {b : Armed} (h : b ∈ (a.exec D now jobID s).armed) :
    ∃ f, a = .beginFailure b.request f := by
  by_cases hbegin : ∃ n f, a = .beginFailure n f
  · obtain ⟨n, f, rfl⟩ := hbegin
    obtain rfl := List.mem_singleton.1 h
    exact ⟨f, rfl⟩
  · rw [exec_armed fun n f ha => hbegin ⟨n, f, ha⟩] at h
    cases h

theorem heralds_of_next {l : List Act} (h : l.head?.any Act.speaks = true) :
    (l ++ rest).head?.any Act.speaks = true := by
  cases l with
  | nil => cases h
  | cons b l => exact h

theorem Sequenced.front_drops (h : Sequenced w) (ht : Threads w) (hr : Refusing w)
    (hf : w.front = a :: rest) (hok : Orderly (.front now jobID) w)
    (hdrop : (a.exec D now jobID w.sess).sess.skipSync = true ∨
      ((a.exec D now jobID w.sess).next ++ rest).any Act.skips = true) :
    (w.applyFront rest (a.exec D now jobID w.sess)).Drained ∨
      ((a.exec D now jobID w.sess).next ++ rest).head?.any Act.speaks = true ∨ w.Terminated := by
  obtain ⟨m, -, ha⟩ := ht.head hf
  have hmove : Moves D (.front now jobID) w (w.applyFront rest (a.exec D now jobID w.sess)) :=
    .front hf
  have hold : ((a.exec D now jobID w.sess).next ++ rest).head?.any Act.speaks = true ∨
      (w.sess.skipSync = true ∨ w.front.any Act.skips = true) := by
    rcases hdrop with hskip | hany
    · refine .inr ?_
      by_cases hskips : a.skips = true
      · exact .inr (by rw [hf, any_skips_cons, hskips, Bool.true_or])
      · refine .inl ((exec_skipSync (by simpa using hskips) ?_ ?_).symm.trans hskip)
        · rintro k rfl
          cases hskip
        · rintro rfl
          cases hskip
    · rw [List.any_append, Bool.or_eq_true] at hany
      rcases hany with hany | hany
      · obtain ⟨b, hb, hskips⟩ := List.any_eq_true.1 hany
        have hsanctions : (a.exec D now jobID w.sess).next.any Act.sanctions = true :=
          List.any_eq_true.2 ⟨b, hb, skips_sanctions hskips⟩
        by_cases hsync : m = .sync
        · subst hsync
          cases (exec_sync_sanctions ha hsanctions).2.2.symm.trans hany
        · exact .inl (heralds_of_next ((exec_tidy ha).heralded hsync hsanctions))
      · exact .inr (.inr (by rw [hf, any_skips_cons, hany, Bool.or_true]))
  rcases hold with hheralds | hold
  · exact .inr (.inl hheralds)
  have hdrained : w.Drained ∨ w.Terminated := by
    rcases h.drops hold with hdrained | hheralds | hterm
    · exact .inl hdrained
    · exact .inl (ht.drained hok hheralds)
    · exact .inr hterm
  rcases hdrained with hdrained | hterm
  · by_cases hterm : w.Terminated
    · exact .inr (.inr hterm)
    · refine .inl (hdrained.moves ht hmove fun _ _ _ k ms r hw => ?_)
      exact hterm (hr.not_forwards ht hold hw)
  · exact .inr (.inr hterm)

theorem Sequenced.front_pending (h : Sequenced w) (hr : Refusing w) (hf : w.front = a :: rest)
    (hsome : (a.exec D now jobID w.sess).sess.pendingFailure.isSome = true) :
    (a.exec D now jobID w.sess).sess.skipSync = true := by
  by_cases hskips : a.skips = true
  · cases a <;> first | rfl | cases hskips
  have hsync : ∀ k, a ≠ .handleSync k := by
    rintro k rfl
    cases hsome
  have hdefer : ∀ f, a ≠ .deferFailure f := by
    rintro f rfl
    exact hskips rfl
  rw [exec_pendingFailure hdefer hsync] at hsome
  have hskip := h.pending hsome
  refine (exec_skipSync (by simpa using hskips) hsync ?_).trans hskip
  rintro rfl
  -- what ends an aborted transaction would be forwarded
  have hclears := hr.clears
  rw [hf] at hclears
  obtain ⟨b, hb, hfw, hspared⟩ := hclears.1 rfl
  exact hspared (hr.dropping hskip b (by rw [hf]; exact List.mem_cons_of_mem _ hb) hfw)

theorem Sequenced.front_arming {f : TxnFailure} (h : Sequenced w) (ht : Threads w)
    (hf : w.front = a :: rest) (hok : Orderly (.front now jobID) w)
    (hb : .beginFailure n f ∈ (a.exec D now jobID w.sess).next ++ rest) :
    ((a.exec D now jobID w.sess).next ++ rest).head?.any Act.speaks = true ∨
      (w.applyFront rest (a.exec D now jobID w.sess)).Beyond n := by
  obtain ⟨m, hm, ha⟩ := ht.head hf
  have hmove : Moves D (.front now jobID) w (w.applyFront rest (a.exec D now jobID w.sess)) :=
    .front hf
  rcases List.mem_append.1 hb with hb | hb
  · have hsanctions : (a.exec D now jobID w.sess).next.any Act.sanctions = true :=
      List.any_eq_true.2 ⟨_, hb, rfl⟩
    by_cases hsync : m = .sync
    · subst hsync
      obtain ⟨⟨k, rfl⟩, hsome, -⟩ := exec_sync_sanctions ha hsanctions
      refine .inr ?_
      rcases h.drops (.inl (h.pending hsome)) with hdrained | hheralds | ⟨j, hj, hterm⟩
      · exact hdrained.moves ht hmove (fun _ _ _ k ms r hw => by rw [hf] at hw; cases hw) n
      · rw [World.heralds, hf] at hheralds
        cases hheralds
      · rw [← hj, Nat.add_sub_cancel, hterm] at hm
        cases hm
    · exact .inl (heralds_of_next ((exec_tidy ha).heralded hsync hsanctions))
  · refine .inr ?_
    have hmem : .beginFailure n f ∈ w.front := by rw [hf]; exact List.mem_cons_of_mem a hb
    rcases h.arming n f hmem with hheralds | hbeyond
    · exact (ht.drained hok hheralds n).keep ht (ht.begins hmem) hmove
    · exact hbeyond.keep ht (ht.begins hmem) hmove

theorem Sequenced.front (h : Sequenced w) (ht : Threads w) (hr : Refusing w)
    (hf : w.front = a :: rest) (hok : Orderly (.front now jobID) w) :
    Sequenced (w.applyFront rest (a.exec D now jobID w.sess)) := by
  obtain ⟨m, -, ha⟩ := ht.head hf
  have hmove : Moves D (.front now jobID) w (w.applyFront rest (a.exec D now jobID w.sess)) :=
    .front hf
  have hrepairs : w.got.filterMap Delivery.repair ⊆
      (w.applyFront rest (a.exec D now jobID w.sess)).got.filterMap Delivery.repair := by
    rw [World.applyFront, List.filterMap_append]
    exact List.subset_append_left _ _
  have hclient : ∀ d ∈ (a.exec D now jobID w.sess).client, d.source = .refusal (w.read - 1) := by
    intro d hd
    rw [exec_client, Option.mem_toList] at hd
    exact (frontAct_delivery ha hd).2.1
  refine ⟨fun hterm => ?_, h.front_drops ht hr hf hok, h.front_pending hr hf, fun n f =>
    h.front_arming ht hf hok,
    h.confessed.mono hrepairs, fun b hb => ?_, fun d hd k hk => ?_, ?_⟩
  · by_cases hquit : a = .quit
    · subst hquit
      exact .inl rfl
    · rcases h.quits hterm with hclosed | hmem
      · exact .inl ((exec_closed hquit).trans hclosed)
      · rw [hf] at hmem
        exact .inr (List.mem_append_right _ ((List.mem_cons.1 hmem).resolve_left (Ne.symm hquit)))
  · rcases List.mem_append.1 hb with hb | hb
    · exact (h.armed b hb).imp (@hrepairs _) fun hb => ⟨hb.1, hb.2.keep ht hb.1 hmove⟩
    · obtain ⟨f, rfl⟩ := begins_of_armed hb
      have hmem : .beginFailure b.request f ∈ w.front := by rw [hf]; exact List.mem_cons_self
      refine .inr ⟨ht.begins hmem, World.Beyond.keep ?_ ht (ht.begins hmem) hmove⟩
      refine (h.arming _ f hmem).resolve_left fun hheralds => ?_
      rw [World.heralds, hf] at hheralds
      cases hheralds
  · rw [World.due, World.applyFront, List.append_assoc] at hd
    rcases List.mem_append.1 hd with hd | hd
    · obtain ⟨b, hb, hid⟩ := h.known d (List.mem_append_left _ hd) k hk
      exact ⟨b, List.mem_append_left _ hb, hid⟩
    · rcases List.mem_append.1 hd with hd | hd
      · cases (hclient d hd).symm.trans hk
      · obtain ⟨b, hb, hid⟩ := h.known d (List.mem_append_right _ hd) k hk
        exact ⟨b, List.mem_append_left _ hb, hid⟩
  · refine List.pairwise_append.2 ⟨h.after.imp fun {d d'} hold k m hk hm => ?_,
      List.pairwise_of_forall_mem_list fun _ _ d' hd' k m _ hm => ?_, fun _ _ d' hd' k m _ hm => ?_⟩
    · obtain ⟨b, hb, hid, hreq⟩ := hold k m hk hm
      exact ⟨b, List.mem_append_left _ hb, hid, hreq.imp_left (@hrepairs _)⟩
    · cases (hclient d' hd').symm.trans hm
    · cases (hclient d' hd').symm.trans hm

theorem Sequenced.back_known {d : Delivery} {k : Nat} (h : Sequenced w) (ht : Threads w)
    (hreg : Registered w) (hb : w.back = a :: rest)
    (hd : d ∈ (w.applyBack rest (a.exec D 0 "" w.sess)).due) (hk : d.source = .failure k) :
    ∃ b ∈ w.armings, b.id = k := by
  have hmode : BackMode (a :: rest) := hb ▸ ht.back
  have hdue : ∀ d, d ∈ w.got ∨ a.delivery = some d ∨ d ∈ rest.filterMap Act.delivery →
      d ∈ w.due := by
    intro d hd
    rw [World.due, hb, List.filterMap_cons]
    rcases hd with hd | hd | hd
    · exact List.mem_append_left _ hd
    · simp [hd]
    · refine List.mem_append_right _ ?_
      cases a.delivery <;> simp [hd]
  rw [World.due, World.applyBack, exec_client, List.filterMap_append] at hd
  simp only [List.mem_append, Option.mem_toList] at hd
  rcases hd with (hd | hd) | hd | hd
  · exact h.known d (hdue d (.inl hd)) k hk
  · exact h.known d (hdue d (.inr (.inl hd))) k hk
  · obtain ⟨b, hmem, hbd⟩ := List.mem_filterMap.1 hd
    by_cases hc : a = .consumeFailureMessage
    · subst hc
      dsimp only [Act.exec] at hmem
      split at hmem
      · rename_i f hf
        split at hmem
        · obtain rfl := List.mem_singleton.1 hmem
          cases hbd
          cases hk
          exact ⟨f, hreg.current f hf, rfl⟩
        · cases hmem
      · cases hmem
    · exact absurd hk (exec_mode_unpaid hmode hc b hmem d hbd k)
  · exact h.known d (hdue d (.inr (.inr hd))) k hk

/-- What is relayed now was outstanding, so a failure that was told of before is not later. -/
theorem Sequenced.back_after {d d' : Delivery} {k m : Nat} (h : Sequenced w)
    (hb : w.back = a :: rest) (hd : d ∈ w.got) (hd' : d' ∈ (a.exec D 0 "" w.sess).client)
    (hk : d.source = .failure k) (hm : d'.source = .relayed (.client m)) :
    ∃ b ∈ w.armings, b.id = k ∧ (b.request ∈ w.got.filterMap Delivery.repair ∨ b.request ≤ m) := by
  obtain ⟨b, hmem, hid⟩ := h.known d (List.mem_append_left _ hd) k hk
  refine ⟨b, hmem, hid, (h.armed b hmem).imp_right fun hbeyond => ?_⟩
  rw [exec_client, Option.mem_toList] at hd'
  refine hbeyond.2.incoming ⟨m, Backend.part d'.msg⟩
    (List.mem_append_left _ (List.mem_filterMap.2 ⟨a, ?_, ?_⟩))
  · rw [hb]
    exact List.mem_cons_self
  · cases a <;> cases hd'
    simp [Act.mark, Delivery.mark, hm, Origin.mark]

theorem Sequenced.back (h : Sequenced w) (ht : Threads w) (hreg : Registered w)
    (hb : w.back = a :: rest) : Sequenced (w.applyBack rest (a.exec D 0 "" w.sess)) := by
  have hmode : BackMode (a :: rest) := hb ▸ ht.back
  have hmove : Moves D .back w (w.applyBack rest (a.exec D 0 "" w.sess)) := .back hb
  have hrepairs : w.got.filterMap Delivery.repair ⊆
      (w.applyBack rest (a.exec D 0 "" w.sess)).got.filterMap Delivery.repair := by
    rw [World.applyBack, List.filterMap_append]
    exact List.subset_append_left _ _
  have hconf := h.confessed
  rw [hb] at hconf
  refine ⟨fun hterm => (h.quits hterm).imp_left (backMode_closed hmode).trans, fun hdrop => ?_,
    fun hsome => ?_, fun n f hmem => ?_, ?_, fun b hmem => ?_, fun d hd k hk => ?_, ?_⟩
  · have hskip : (a.exec D 0 "" w.sess).sess.skipSync = w.sess.skipSync := exec_mode_skipSync hmode
    refine (h.drops (hdrop.imp_left hskip.symm.trans)).imp_left fun hdrained => ?_
    exact hdrained.moves ht hmove fun _ _ hl => by cases hl
  · have hpending : (a.exec D 0 "" w.sess).sess.pendingFailure = w.sess.pendingFailure :=
      backMode_pendingFailure hmode
    refine (exec_mode_skipSync hmode).trans (h.pending ?_)
    rw [← hpending]
    exact hsome
  · exact (h.arming n f hmem).imp_right fun hbeyond => hbeyond.keep ht (ht.begins hmem) hmove
  · refine (exec_confesses hmode).append (hconf.2.mono ?_)
    rw [World.applyBack, List.filterMap_append, exec_client]
    refine List.append_subset.2 ⟨?_, List.subset_append_left _ _⟩
    refine List.Subset.trans ?_ (List.subset_append_right _ _)
    cases a.delivery with
    | none => exact List.nil_subset _
    | some d =>
      cases hd : d.repair <;> simp [hd]
  · rcases List.mem_append.1 hmem with hmem | hmem
    · exact (h.armed b hmem).imp (@hrepairs _) fun hb => ⟨hb.1, hb.2.keep ht hb.1 hmove⟩
    · obtain ⟨f, rfl⟩ := begins_of_armed hmem
      exact .inl (hrepairs (hconf.1 _ f rfl))
  · obtain ⟨b, hmem, hid⟩ := h.back_known ht hreg hb hd hk
    exact ⟨b, List.mem_append_left _ hmem, hid⟩
  · have hkeep {k m : Nat} (hold : ∃ b ∈ w.armings, b.id = k ∧
        (b.request ∈ w.got.filterMap Delivery.repair ∨ b.request ≤ m)) :
        ∃ b ∈ w.armings ++ (a.exec D 0 "" w.sess).armed, b.id = k ∧ (b.request ∈
          (w.applyBack rest (a.exec D 0 "" w.sess)).got.filterMap Delivery.repair ∨
            b.request ≤ m) := by
      obtain ⟨b, hmem, hid, hreq⟩ := hold
      exact ⟨b, List.mem_append_left _ hmem, hid, hreq.imp_left (@hrepairs _)⟩
    refine List.pairwise_append.2 ⟨h.after.imp fun {d d'} hold k m hk hm => hkeep (hold k m hk hm),
      ?_, fun d hd d' hd' k m hk hm => hkeep (h.back_after hb hd hd' hk hm)⟩
    rw [exec_client]
    cases a.delivery <;> simp

theorem Sequenced.moves (h : Sequenced w) (ht : Threads w) (hr : Refusing w) (hreg : Registered w)
    (hok : Orderly l w) (hm : Moves D l w w') : Sequenced w' := by
  have hbeyond {n : Nat} (hn : n < w.read) (hb : w.Beyond n) : w'.Beyond n := hb.keep ht hn hm
  have hdrained (hl : ∀ now jobID, l ≠ .front now jobID) (hd : w.Drained) : w'.Drained :=
    hd.moves ht hm fun now jobID hfront => absurd hfront (hl now jobID)
  have harmed (hb : w'.armings = w.armings) (hg : w'.got = w.got) (hread : w.read ≤ w'.read) :
    ∀ a ∈ w'.armings,
      a.request ∈ w'.got.filterMap Delivery.repair ∨ a.request < w'.read ∧ w'.Beyond a.request := by
    rw [hb, hg]
    exact fun a ha => (h.armed a ha).imp_right fun hb => ⟨hb.1.trans_le hread, hbeyond hb.1 hb.2⟩
  cases hm with
  | @send _ m =>
    have hterm : World.Terminated { w with inbox := w.inbox ++ [m], sent := w.sent ++ [m] } →
        w.Terminated := by
      rintro ⟨n, hn, hsent⟩
      refine ⟨n, hn, ?_⟩
      rwa [List.getElem?_append_left ((Nat.lt_of_succ_le hn.le).trans_le ht.read_le)] at hsent
    refine ⟨fun ht' => h.quits (hterm ht'), fun hdrop => ?_, h.pending,
      fun n f hmem => (h.arming n f hmem).imp_right (hbeyond (ht.begins hmem)), h.confessed,
      harmed rfl rfl (Nat.le_refl _), h.known, h.after⟩
    refine (h.drops hdrop).imp (hdrained fun _ _ hl => by cases hl) (Or.imp_right ?_)
    rintro ⟨n, hn, hsent⟩
    exact ⟨n, hn, (List.getElem?_append_left (List.getElem?_eq_some_iff.1 hsent).1).trans hsent⟩
  | @readClient _ m rest hf hi hc =>
    have hsent : w.sent[w.read]? = some m := by
      rw [← List.head?_drop, ht.inbox, hi]
      rfl
    refine ⟨?_, fun hdrop => .inl (hdrained (fun _ _ hl => by cases hl) ?_), h.pending,
      fun n f hmem => ?_, h.confessed, harmed rfl rfl (Nat.le_succ _), h.known, h.after⟩
    · rintro ⟨n, hn, hterm⟩
      obtain rfl : n = w.read := Nat.succ.inj hn
      obtain rfl : m = .terminate := Option.some.inj (hsent.symm.trans hterm)
      exact .inr (by simp [pumpFrontend])
    · have hskip : w.sess.skipSync = true := by
        refine hdrop.resolve_right fun hany => ?_
        obtain ⟨b, hb, hskips⟩ := List.any_eq_true.1 hany
        cases (pumpFrontend_plain b hb).1.symm.trans (skips_sanctions hskips)
      rcases h.drops (.inl hskip) with hd | hheralds | hterm
      · exact hd
      · simp [World.heralds, hf] at hheralds
      · rcases h.quits hterm with hclosed | hmem
        · cases hclosed.symm.trans hc
        · rw [hf] at hmem
          cases hmem
    · cases (pumpFrontend_plain _ hmem).1
  | front hf => exact h.front ht hr hf hok
  | @readUpstream _ r rest hb hu hc =>
    refine ⟨h.quits, fun hdrop => (h.drops hdrop).imp_left (hdrained fun _ _ hl => by cases hl),
      h.pending, fun n f hmem => (h.arming n f hmem).imp_right (hbeyond (ht.begins hmem)), ?_,
        harmed rfl rfl (Nat.le_refl _), fun d hd => h.known d ?_, h.after⟩
    · refine confesses_of_forall fun a ha n f => ?_
      rcases mem_pumpBackend ha with rfl | rfl <;> simp
    · rw [World.due, List.mem_append] at hd
      refine List.mem_append_left _ (hd.resolve_right fun hd => ?_)
      obtain ⟨a, ha, had⟩ := List.mem_filterMap.1 hd
      rcases mem_pumpBackend ha with rfl | rfl <;> cases had
  | back hb => exact h.back ht hreg hb
  | answer hq =>
    exact ⟨h.quits, fun hdrop => (h.drops hdrop).imp_left (hdrained fun _ _ hl => by cases hl),
      h.pending,
      fun n f hmem => (h.arming n f hmem).imp_right (hbeyond (ht.begins hmem)), h.confessed,
        harmed rfl rfl (Nat.le_refl _), h.known, h.after⟩

end Sequenced

section AnswersInOrder

variable {w : World U} {d d' : Delivery} {n : Nat}

def Delivery.number (d : Delivery) : Option Nat :=
  match d.source with
  | .relayed o => o.number
  | .refusal n => some n
  | .repair n => some n
  | .failure _ => none

inductive World.Refuses (w : World U) : Delivery → Nat → Prop
  | refusal {n msg} : w.Refuses ⟨.refusal n, msg⟩ n
  | failure {a msg} : a ∈ w.armings → a.request ∉ w.got.filterMap Delivery.repair →
      w.Refuses ⟨.failure a.id, msg⟩ a.request

/-- `d` may be delivered before `d'`: neither the error nor the `ReadyForQuery` of a refusal
overtakes the upstream's answer to an earlier message, and after an error nothing of its batch
succeeds. -/
def Delivery.Precedes (w : World U) (d d' : Delivery) : Prop :=
  (∀ n m, w.Refuses d n → d'.source = .relayed (.client m) → n ≤ m) ∧
    ∀ n m, d.number = some n → d'.number = some m → d.msg.isError = true →
      d'.msg.isProgress = true → ¬ SameBatch w.sent n m

theorem Delivery.mark_of_number (h : d.number = some n) : d.mark = some ⟨n, Backend.part d.msg⟩ ∨
    d.repair = some n := by
  obtain ⟨source, msg⟩ := d
  cases source with
  | relayed o =>
    cases o with
    | client k => cases h; exact .inl rfl
    | _ => cases h
  | refusal k => cases h; exact .inl rfl
  | repair k => exact .inr h
  | failure k => cases h

theorem part_of_isProgress {b : Backend} (h : b.isProgress = true) :
    Backend.part b = .progress := by
  cases b <;> first | rfl | cases h

theorem Simple.not_sameBatch {m : Nat} (h : Simple w) (hd : d ∈ w.got) (hn : d.repair = some n) :
    ¬ SameBatch w.sent n m ∧ ¬ SameBatch w.sent m n := by
  obtain ⟨x, hx, htag⟩ := World.isQuery_iff.1
    (h n (List.mem_append_right _ (List.mem_append_right _ (List.mem_filterMap.2 ⟨d, hd, hn⟩))))
  have hext : x.tag.extended = false := by rw [htag]; rfl
  have hleft : ¬ Batched w.sent n m := fun hb => not_batched hx hext (Nat.le_refl n) hb.1 hb
  have hright : ¬ Batched w.sent m n := fun hb => not_batched hx hext hb.1 (Nat.le_refl n) hb
  exact ⟨not_or.2 ⟨hleft, hright⟩, not_or.2 ⟨hright, hleft⟩⟩

theorem InOrder.precedes {S : U.Skips} (h : InOrder S w) (hs : Simple w) (hq : Sequenced w)
    (hreg : Registered w) : w.got.Pairwise (Delivery.Precedes w) := by
  have hgot := List.pairwise_filterMap.1 (List.pairwise_append.1 h.marks).1
  refine (hgot.and hq.after).imp_of_mem fun {d d'} hd hd' hok =>
    ⟨fun n m hn hm => ?_, fun n m hn hm he hp => ?_⟩
  · have hmark : d'.mark = some ⟨m, Backend.part d'.msg⟩ := by simp [Delivery.mark, hm, Origin.mark]
    cases hn with
    | refusal => exact (hok.1 _ rfl _ hmark).1
    | @failure a msg ha hrepair =>
      obtain ⟨b, hb, hid, hreq⟩ := hok.2 a.id m rfl hm
      obtain rfl : b = a := hreg.eq_of_id hb ha hid
      exact hreq.resolve_left hrepair
  · rcases Delivery.mark_of_number hn with hn | hn
    · rcases Delivery.mark_of_number hm with hm | hm
      · obtain ⟨hle, hbatch⟩ := hok.1 _ hn _ hm
        have hnot : ¬ Batched w.sent n m := hbatch (part_error.2 he) (part_of_isProgress hp)
        rintro (hb | hb)
        · exact hnot hb
        · obtain rfl : n = m := Nat.le_antisymm hle hb.1
          exact hnot hb
      · exact (hs.not_sameBatch hd' hm).2
    · exact (hs.not_sameBatch hd hn).1

theorem answers_in_request_order (S : U.Skips) (hw : Reach (system D U) Orderly w) :
    w.got.Pairwise (Delivery.Precedes w) := by
  have hall := hw.invariant
    (I := fun w => Threads w ∧ Ordered w ∧ Refusing w ∧ Registered w ∧ InOrder S w ∧ Simple w ∧
      Sequenced w)
    ⟨.start, .start, .start, .start, .start, .start, .start⟩ fun l w w' ⟨ht, ho, hr, hreg, hi, hs,
        hq⟩ hok hstep =>
      have hm := moves_of_step hstep
      ⟨ht.moves hm, ho.moves ht hm, hr.moves ht ho hm, hreg.moves ht hm, hi.moves ht ho hr hok hm,
        hs.moves ht hok hm, hq.moves ht hr hreg hok hm⟩
  obtain ⟨-, -, -, hreg, hi, hs, hq⟩ := hall
  exact hi.precedes hs hq hreg

end AnswersInOrder

section Commits

def upToError : List Backend → List Backend
  | [] => []
  | b :: bs => if b.isError then [b] else b :: upToError bs

theorem upToError_sublist (bs : List Backend) : (upToError bs).Sublist bs := by
  induction bs with
  | nil => exact .slnil
  | cons b bs ih =>
    unfold upToError
    split
    · exact (List.nil_sublist bs).cons_cons b
    · exact ih.cons_cons b

theorem upToError_pairwise (bs : List Backend) :
    (upToError bs).Pairwise fun a b => a.isError = true → b.isProgress = false := by
  induction bs with
  | nil => exact .nil
  | cons b bs ih =>
    unfold upToError
    split
    · exact List.pairwise_singleton _ _
    · rename_i hb
      exact .cons (fun _ _ he => absurd he hb) ih

def readyIf (m : Frontend) (st : TxStatus) : List Backend :=
  if m.drawsReady then [.ready st] else []

theorem answers_readyIf {m : Frontend} {st : TxStatus} (pre : List Backend)
    (hpre : ∀ x ∈ pre, x.isReady = false) : Answers m (pre ++ readyIf m st) := by
  refine ⟨pre, hpre, ?_⟩
  unfold readyIf
  cases h : m.drawsReady <;> simp

def Upstream.stopping : Upstream where
  State := Bool
  Choice := List Backend × TxStatus
  init := false
  answer skip m c :=
    if skip && m.tag ≠ .sync then (true, readyIf m c.2)
    else
      let said := upToError (c.1.filter (!·.isReady))
      (m.tag.extended && said.any Backend.isError, said ++ readyIf m c.2)
  answers skip m c := by
    dsimp only
    split
    · exact answers_readyIf [] (by simp)
    · refine answers_readyIf _ fun x hx => ?_
      simpa using List.of_mem_filter ((upToError_sublist _).subset hx)

def Upstream.stoppingSkips : Upstream.stopping.Skips where
  skipping := id
  fails skip m c hm he := by
    have hnil : readyIf m c.2 = [] := by simp [readyIf, Frontend.drawsReady_of_extended hm]
    simp only [Upstream.stopping, hnil, List.append_nil] at he ⊢
    split
    · rfl
    · rename_i hskip
      rw [if_neg hskip] at he
      simpa [hm] using he
  stops skip m c hm := by
    have hnil : readyIf m c.2 = [] := by simp [readyIf, Frontend.drawsReady_of_extended hm]
    simp only [Upstream.stopping, hnil, List.append_nil]
    split
    · exact .nil
    · exact upToError_pairwise _
  drops skip m c hskip hm := by
    obtain rfl : skip = true := hskip
    have hrun : (true && decide (m.tag ≠ .sync)) = true := by simpa using hm
    simp only [Upstream.stopping, if_pos hrun, id]
    refine ⟨trivial, fun b hb => ?_⟩
    unfold readyIf at hb
    split at hb
    · rw [List.mem_singleton.1 hb]; rfl
    · cases hb

def Dialect.failing : Dialect := .sample [⟨[], 1⟩]

def refusedBind : List (Label .stopping) :=
  List.flatten
    [[.send (.parse "" "COMMIT"), .readClient], fronts 4,
      [.answer ([.parseComplete], .idle), .readUpstream], backs 4,
      [.send (.bind { portal := "", statement := "" }), .readClient], fronts 10,
        [.send .sync, .readClient], fronts 7,
      [.answer ([], .idle), .answer ([.commandComplete "ROLLBACK"], .idle)],
        [.readUpstream], backs 4, [.readUpstream], backs 2, [.readUpstream], backs 5]

theorem answers_in_request_order_bind :
    let w := (system .failing .stopping).dest Orderly refusedBind
    w.got = [⟨.relayed (.client 0), .parseComplete⟩,
      ⟨.refusal 1, .error (conflictError Dialect.failing.occ)⟩, ⟨.failure 0, .ready .idle⟩] ∧
      w.armings = [⟨0, 2, conflictFailure 2⟩] ∧ w.sent[2]? = some .sync ∧
      w.got.Pairwise (Delivery.Precedes w) :=
  ⟨by decide +kernel, by decide +kernel, by decide +kernel,
    answers_in_request_order Upstream.stoppingSkips (Reach.dest _ _)⟩

def overtakingBind : List (Label .stopping) :=
  List.flatten
    [[.send (.parse "" "COMMIT"), .send (.bind { portal := "", statement := "" }), .readClient],
      fronts 4, [.readClient],
      fronts 10, [.answer ([.parseComplete], .idle), .readUpstream], backs 4]

theorem refusal_overtakes_answer :
    ∃ w : World .stopping, Reachable (system .failing .stopping) w ∧
      w.sent = [.parse "" "COMMIT", .bind { portal := "", statement := "" }] ∧
      w.got = [⟨.refusal 1, .error (conflictError Dialect.failing.occ)⟩,
          ⟨.relayed (.client 0), .parseComplete⟩] ∧ ¬ w.got.Pairwise (Delivery.Precedes w) := by
  refine ⟨(system .failing .stopping).dest (fun _ _ => True) overtakingBind,
    Reach.dest _ _, by decide +kernel, by decide +kernel, ?_⟩
  have hgot : ((system .failing .stopping).dest (fun _ _ => True) overtakingBind).got =
      [⟨.refusal 1, .error (conflictError Dialect.failing.occ)⟩,
          ⟨.relayed (.client 0), .parseComplete⟩] := by
    decide +kernel
  rw [hgot]
  intro h
  have hfirst := (List.pairwise_cons.1 h).1 _ List.mem_cons_self
  exact absurd (hfirst.1 1 0 .refusal rfl) (by decide)

end Commits

end DsqlEmulator.Proxy
