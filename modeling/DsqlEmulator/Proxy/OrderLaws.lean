import DsqlEmulator.Proxy.Threads
import Mathlib.Order.Nat

/-! The order of what is written upstream.  The frontend pump writes each of the
client's messages at most once, in the order it read them. -/

namespace DsqlEmulator.Proxy

open Wire Occ Txn Runs

variable {U : Upstream} {D : Dialect}

@[simp] def Act.forwards : Act → Bool
  | .writeUpstream (.client _) _ => true
  | .droppingUntilSync _ _ => true
  | .handleSync _ => true
  | .aborted _ _ => true
  | .admitKinds _ _ _ => true
  | .admitAsync _ _ _ _ => true
  | .occAdjudicated _ _ _ => true
  | .occCommitConflict _ _ _ => true
  | _ => false

section Frontend

variable {s : Session} {n : Nat} {m : Frontend} {now : Nat} {jobID : String}

theorem forward_forwards : (forward n m).countP Act.forwards = 1 := by
  unfold forward
  split <;> rfl

theorem reject_forwards {code message : String} {extended : Bool} :
    (reject s n code message extended).countP Act.forwards = 0 := by
  unfold reject
  split <;> split <;> rfl

theorem rejectFailed_forwards {extended : Bool} :
    (rejectFailed n extended).countP Act.forwards = 0 := by
  cases extended <;> rfl

theorem occFailure_forwards {extended : Bool} :
    (occFailure D n extended).countP Act.forwards = 0 := by
  cases extended <;> rfl

theorem send_forwards {info : StatementInfo} : (send D n m info).countP Act.forwards = 1 := by
  unfold send
  split
  · split
    · split <;> rfl
    · exact forward_forwards
  · cases info.jobID
    · exact forward_forwards
    · exact (List.countP_cons_of_neg (by simp)).trans forward_forwards

theorem armAdjudicator_forwards {intent : Option Intent} {bind : Option Bind} :
    (armAdjudicator n intent bind).countP Act.forwards = 0 := by
  cases intent <;> rfl

theorem admitted_forwards {info : StatementInfo} :
    (admitted D s n m info).countP Act.forwards = 1 := by
  unfold admitted
  have htables : (if info.tables = [] then [] else [Act.addOccTables info.tables]).countP
      Act.forwards = 0 := by
    split <;> rfl
  rw [List.countP_append, htables, Nat.zero_add, List.countP_cons_of_neg (by simp)]
  split
  · split
    · rfl
    · rw [List.countP_cons_of_neg (by simp), send_forwards]
  · split
    · rw [List.countP_append, armAdjudicator_forwards, send_forwards]
    · exact send_forwards

theorem forwardAsyncJob_forwards {rewritten : String} {statement : Nat} :
    (forwardAsyncJob D jobID s n m rewritten statement).next.countP Act.forwards ≤ 1 := by
  unfold forwardAsyncJob runAsyncJob
  split
  · split <;> exact Nat.le_refl _
  · exact reject_forwards.le.trans (Nat.zero_le _)
  · split <;> exact Nat.le_refl _

theorem handleQuery_forwards {sql : String} :
    (handleQuery D jobID s n sql).next.countP Act.forwards ≤ 1 := by
  unfold handleQuery
  split
  · split
    · exact rejectFailed_forwards.le.trans (Nat.zero_le _)
    · exact forwardAsyncJob_forwards
  · split
    · split
      · exact (List.countP_append ..).trans_le (Nat.add_le_add (Nat.le_refl 0) forward_forwards.le)
      · exact rejectFailed_forwards.le.trans (Nat.zero_le _)
    · split
      · dsimp only
        exact forward_forwards.le
      · exact reject_forwards.le.trans (Nat.zero_le _)
      · exact Nat.le_refl _

theorem handleParse_forwards {name sql : String} :
    (handleParse D jobID s n name sql).next.countP Act.forwards ≤ 1 := by
  have hfailed : (rejectFailed n true).countP Act.forwards ≤ 1 :=
    rejectFailed_forwards.le.trans (Nat.zero_le _)
  unfold handleParse
  split
  · split
    · exact hfailed
    · exact forwardAsyncJob_forwards
  · dsimp only
    split
    · split
      · split
        · dsimp only
          exact forward_forwards.le
        · exact hfailed
      · exact hfailed
    · split
      · dsimp only
        exact forward_forwards.le
      · exact reject_forwards.le.trans (Nat.zero_le _)
      · split
        · split <;> exact Nat.le_refl _
        · rw [List.countP_append, forward_forwards]
          split <;> exact Nat.le_refl _

theorem handleBind_forwards {b : Bind} {info : StatementInfo} :
    (handleBind s n b info).next.countP Act.forwards ≤ 1 := by
  unfold handleBind
  split
  · split
    · exact (List.countP_append ..).trans_le (Nat.add_le_add (Nat.le_refl 0) forward_forwards.le)
    · exact rejectFailed_forwards.le.trans (Nat.zero_le _)
  · exact Nat.le_refl _

theorem dispatch_forwards : (dispatch s n m).next.countP Act.forwards ≤ 1 := by
  unfold dispatch
  split
  · exact Nat.le_refl _
  · exact Nat.le_refl _
  · split
    · dsimp only
      exact forward_forwards.le
    · exact Nat.le_refl _
  · dsimp only
    exact forward_forwards.le
  · dsimp only
    exact forward_forwards.le

theorem exec_forwards {a : Act} (h : FrontAct n m a) :
    (a.exec D now jobID s).next.countP Act.forwards ≤ a.forwards.toNat := by
  cases h with
  | code h =>
    cases a with
    | droppingUntilSync k m' =>
      dsimp only [Act.exec]
      split
      · exact Nat.zero_le _
      · rw [List.countP_append]
        exact Nat.add_le_add dispatch_forwards (Nat.le_refl 0)
    | handleSync k =>
      dsimp only [Act.exec]
      rw [List.countP_append, forward_forwards]
      cases s.pendingFailure <;> exact Nat.le_refl _
    | aborted k m' =>
      dsimp only [Act.exec]
      split
      · exact handleQuery_forwards
      · exact handleParse_forwards
      · split
        · exact handleBind_forwards
        · dsimp only
          exact forward_forwards.le
      · dsimp only
        exact forward_forwards.le
    | admitKinds k m' info =>
      dsimp only [Act.exec]
      split
      · exact reject_forwards.le.trans (Nat.zero_le _)
      · exact admitted_forwards.le
    | admitAsync k rewritten statement kinds =>
      dsimp only [Act.exec]
      split
      · exact reject_forwards.le.trans (Nat.zero_le _)
      · exact Nat.le_refl _
    | occAdjudicated k m' info =>
      dsimp only [Act.exec]
      split
      · exact occFailure_forwards.le.trans (Nat.zero_le _)
      · split
        · exact ((List.countP_cons_of_neg (by simp)).trans send_forwards).le
        · exact Nat.le_refl _
    | occCommitConflict k m' info =>
      dsimp only [Act.exec]
      split
      · exact occFailure_forwards.le.trans (Nat.zero_le _)
      · exact ((List.countP_cons_of_neg (by simp)).trans send_forwards).le
    | _ => first | exact h.elim | (dsimp only [Act.exec]; (repeat' split) <;> exact Nat.zero_le _)
  | _ => exact Nat.le_refl _

end Frontend

def Origin.Before : Origin → Origin → Prop
  | .client n, .client m => n < m
  | _, _ => True

theorem Origin.not_before_self (n : Nat) : ¬ (Origin.client n).Before (.client n) := Nat.lt_irrefl n

def Reply.readyOrigin (r : Reply) : Option Origin := if r.msg.isReady then some r.origin else none

def Request.readyOrigin (q : Request) : Option Origin :=
  if q.msg.drawsReady then some q.origin else none

theorem answers_readyOrigin {m : Frontend} {ms : List Backend} (o : Origin) (h : Answers m ms) :
    (ms.map (Reply.mk o)).filterMap Reply.readyOrigin = (Request.mk o m).readyOrigin.toList := by
  obtain ⟨pre, hpre, h⟩ := h
  have hnone : (pre.map (Reply.mk o)).filterMap Reply.readyOrigin = [] := by
    simp only [List.filterMap_eq_nil_iff, List.mem_map, forall_exists_index, and_imp]
    rintro _ b hb rfl
    simp [Reply.readyOrigin, hpre b hb]
  rcases h with ⟨hm, st, rfl⟩ | ⟨hm, rfl⟩
  · rw [List.map_append, List.filterMap_append, hnone]
    simp [Reply.readyOrigin, Request.readyOrigin, hm]
  · simp [hnone, Request.readyOrigin, hm]

structure Ordered (w : World U) : Prop where
  written : w.written.Pairwise fun a b => a.origin.Before b.origin
  read : ∀ q ∈ w.written, ∀ n, q.origin = .client n → n < w.read
  fresh : 0 < w.front.countP Act.forwards → ∀ q ∈ w.written, ∀ n, q.origin = .client n →
    n + 1 < w.read
  once : w.front.countP Act.forwards ≤ 1
  readies : w.said.filterMap Reply.readyOrigin ++ w.toUp.filterMap Request.readyOrigin =
    w.written.filterMap Request.readyOrigin
  toUp : w.toUp <:+ w.written
  said : ∀ r ∈ w.said, ∃ q ∈ w.written, q.origin = r.origin

theorem Ordered.start : Ordered (World.start D U) := by
  constructor <;> simp [World.start]

theorem Ordered.inject {w w' : World U} {qs : List Request} (h : Ordered w)
    (hqs : ∀ q ∈ qs, ∀ n, q.origin ≠ .client n) (hw : w'.written = w.written ++ qs)
    (hup : w'.toUp = w.toUp ++ qs) (hsaid : w'.said = w.said) (hread : w'.read = w.read)
    (hfront : w'.front.countP Act.forwards ≤ w.front.countP Act.forwards) : Ordered w' := by
  have hold : ∀ q ∈ w'.written, ∀ n, q.origin = .client n → q ∈ w.written := by
    intro q hq n hn
    rw [hw] at hq
    exact (List.mem_append.1 hq).resolve_right fun hq => hqs q hq n hn
  refine ⟨?_, fun q hq n hn => hread ▸ h.read q (hold q hq n hn) n hn, fun hpos q hq n hn => ?_,
    hfront.trans h.once, ?_, ?_, fun r hr => ?_⟩
  · rw [hw, List.pairwise_append]
    refine ⟨h.written, List.pairwise_of_forall_mem_list fun a ha b _ => ?_, fun a _ b hb => ?_⟩
    · cases ho : a.origin with
      | client n => exact absurd ho (hqs a ha n)
      | _ => trivial
    · cases ho : b.origin with
      | client n => exact absurd ho (hqs b hb n)
      | _ => cases a.origin <;> trivial
  · exact hread ▸ h.fresh (Nat.lt_of_lt_of_le hpos hfront) q (hold q hq n hn) n hn
  · rw [hw, hup, hsaid, List.filterMap_append, List.filterMap_append,
      ← List.append_assoc, h.readies]
  · rw [hw, hup]
    exact (List.suffix_append_inj_of_length_eq rfl).2 ⟨h.toUp, rfl⟩
  · obtain ⟨q, hq, ho⟩ := h.said r (hsaid ▸ hr)
    exact ⟨q, hw ▸ List.mem_append_left _ hq, ho⟩

theorem exec_up_client {s : Session} {now n : Nat} {jobID : String} {a : Act} {q : Request}
    (hq : q ∈ (a.exec D now jobID s).up) (hn : q.origin = .client n) :
    ∃ ms, a = .writeUpstream (.client n) ms := by
  by_cases ha : ∃ o ms, a = .writeUpstream o ms
  · obtain ⟨o, ms, rfl⟩ := ha
    obtain ⟨m, -, rfl⟩ := List.mem_map.1 hq
    obtain rfl : o = .client n := hn
    exact ⟨ms, rfl⟩
  · rw [exec_up fun o ms h => ha ⟨o, ms, h⟩] at hq
    cases hq

theorem exec_mode_up {s : Session} {a : Act} {rest : List Act} {q : Request}
    (h : BackMode (a :: rest)) (hq : q ∈ (a.exec D 0 "" s).up) (n : Nat) :
    q.origin ≠ .client n := by
  intro hn
  obtain ⟨ms, rfl⟩ := exec_up_client hq hn
  cases h with
  | relaying h => exact h _ List.mem_cons_self
  | repairing h => cases h _ List.mem_cons_self with | code h => exact h

theorem Moves.writes {l : Label U} {w w' : World U} (hm : Moves D l w w') (ht : Threads w) :
    ∃ qs, w'.written = w.written ++ qs ∧ (∀ q ∈ w'.toUp, q ∈ w.toUp ∨ q ∈ qs) ∧
      ((∀ q ∈ qs, ∀ n, q.origin ≠ .client n) ∨ ∃ m rest, w.front =
          .writeUpstream (.client (w.read - 1)) [m] :: rest ∧
        l.act w = w.front.head? ∧ qs = [⟨.client (w.read - 1), m⟩] ∧ w'.sess = w.sess) := by
  cases hm with
  | @front _ now jobID a rest hf =>
    refine ⟨_, rfl, fun q hq => List.mem_append.1 hq, ?_⟩
    obtain ⟨m, -, ha⟩ := ht.head hf
    by_cases hw : ∃ n ms, a = .writeUpstream (.client n) ms
    · obtain ⟨n, ms, rfl⟩ := hw
      cases ha with
      | code ha =>
        obtain ⟨rfl, m', rfl, -⟩ := ha
        exact .inr ⟨m', rest, hf, rfl, rfl, rfl⟩
    · refine .inl fun q hq n hn => ?_
      obtain ⟨ms, rfl⟩ := exec_up_client hq hn
      exact hw ⟨n, ms, rfl⟩
  | back hb =>
    exact ⟨_, rfl, fun q hq => List.mem_append.1 hq, .inl fun q hq =>
      exec_mode_up (hb ▸ ht.back) hq⟩
  | @answer _ c q' rest hq =>
    exact ⟨[], (List.append_nil _).symm, fun q h => .inl (hq ▸ List.mem_cons_of_mem q' h),
      .inl (by simp)⟩
  | _ => exact ⟨[], (List.append_nil _).symm, fun q h => .inl h, .inl (by simp)⟩

theorem countP_exec_front {w : World U} {n : Nat} {m : Frontend} {now : Nat} {jobID : String}
    {a : Act} {rest : List Act} (hf : w.front = a :: rest) (ha : FrontAct n m a) :
    ((a.exec D now jobID w.sess).next ++ rest).countP Act.forwards ≤
      w.front.countP Act.forwards := by
  have hexec : (a.exec D now jobID w.sess).next.countP Act.forwards ≤ a.forwards.toNat :=
    exec_forwards ha
  rw [hf, List.countP_append, List.countP_cons]
  cases hfw : a.forwards <;> rw [hfw] at hexec <;> simp only [Bool.toNat_false, Bool.toNat_true]
    at hexec <;> simp only [Bool.false_eq_true, if_true, if_false] <;> omega

theorem Ordered.forward {w : World U} {m : Frontend} {rest : List Act} (h : Ordered w)
    (hf : w.front = .writeUpstream (.client (w.read - 1)) [m] :: rest) (hpos : 0 < w.read) :
    Ordered (w.applyFront rest { sess := w.sess, up := [⟨.client (w.read - 1), m⟩] }) := by
  have hcount : rest.countP Act.forwards = 0 := by
    have := h.once
    rw [hf, List.countP_cons_of_pos (by rfl)] at this
    omega
  have hlt : ∀ q ∈ w.written, ∀ n, q.origin = .client n → n + 1 < w.read :=
    h.fresh (by rw [hf, List.countP_cons_of_pos (by rfl)]; omega)
  refine ⟨?_, fun q hq n hn => ?_, fun hpos => ?_, ?_, ?_, ?_, fun r hr => ?_⟩
  · refine List.pairwise_append.2 ⟨h.written, List.pairwise_singleton _ _, fun a ha b hb => ?_⟩
    rw [List.mem_singleton.1 hb]
    cases ho : a.origin with
    | client n =>
      have := hlt a ha n ho
      change n < w.read - 1
      omega
    | _ => trivial
  · rcases List.mem_append.1 hq with hq | hq
    · exact h.read q hq n hn
    · rw [List.mem_singleton.1 hq] at hn
      cases hn
      exact Nat.sub_lt hpos Nat.one_pos
  · change 0 < rest.countP Act.forwards at hpos
    omega
  · change rest.countP Act.forwards ≤ 1
    omega
  · simp only [World.applyFront, List.filterMap_append, ← List.append_assoc, h.readies]
  · exact (List.suffix_append_inj_of_length_eq rfl).2 ⟨h.toUp, rfl⟩
  · obtain ⟨q, hq, ho⟩ := h.said r hr
    exact ⟨q, List.mem_append_left _ hq, ho⟩

theorem Ordered.moves {l : Label U} {w w' : World U} (h : Ordered w) (ht : Threads w)
    (hm : Moves D l w w') : Ordered w' := by
  cases hm with
  | send => exact ⟨h.written, h.read, h.fresh, h.once, h.readies, h.toUp, h.said⟩
  | @readClient _ m rest hf hi hc =>
    have hone : (pumpFrontend w.read m).countP Act.forwards ≤ 1 := by
      unfold pumpFrontend
      split <;> exact Nat.le_refl _
    exact ⟨h.written, fun q hq n hn => Nat.lt_succ_of_lt (h.read q hq n hn),
      fun _ q hq n hn => Nat.succ_lt_succ (h.read q hq n hn), hone, h.readies, h.toUp, h.said⟩
  | @front _ now jobID a rest hf =>
    obtain ⟨m, hm, ha⟩ := ht.head hf
    by_cases hw : ∃ n ms, a = .writeUpstream (.client n) ms
    · obtain ⟨n, ms, rfl⟩ := hw
      cases ha with
      | code ha =>
        obtain ⟨rfl, m', rfl, -⟩ := ha
        have hpos : 0 < w.read := by
          obtain ⟨_, hpos, -, -⟩ := ht.front (by simp [hf])
          exact hpos
        exact h.forward hf hpos
    · refine h.inject (fun q hq n hn => ?_) rfl rfl rfl rfl (countP_exec_front hf ha)
      obtain ⟨ms, rfl⟩ := exec_up_client hq hn
      exact hw ⟨n, ms, rfl⟩
  | readUpstream hb hu _ => exact ⟨h.written, h.read, h.fresh, h.once, h.readies, h.toUp, h.said⟩
  | @back _ a rest hb =>
    exact h.inject (fun q hq => exec_mode_up (hb ▸ ht.back) hq) rfl rfl rfl rfl (Nat.le_refl _)
  | @answer _ c q rest hq =>
    refine ⟨h.written, h.read, h.fresh, h.once, ?_, ?_, fun r hr => ?_⟩
    · have hsplit : (q :: rest).filterMap Request.readyOrigin =
          q.readyOrigin.toList ++ rest.filterMap Request.readyOrigin := by
        rw [List.filterMap_cons]
        cases q.readyOrigin <;> rfl
      change (w.said ++ _).filterMap Reply.readyOrigin ++ rest.filterMap Request.readyOrigin = _
      rw [List.filterMap_append, answers_readyOrigin q.origin (U.answers w.up q.msg c),
        List.append_assoc, ← hsplit, ← hq]
      exact h.readies
    · exact (List.suffix_cons q rest).trans (hq ▸ h.toUp)
    · rcases List.mem_append.1 hr with hr | hr
      · exact h.said r hr
      · obtain ⟨b, -, rfl⟩ := List.mem_map.1 hr
        exact ⟨q, h.toUp.subset (by simp [hq]), rfl⟩

theorem ordered {ok : Label U → World U → Prop} {w : World U} (hw : Reach (system D U) ok w) :
    Ordered w := by
  refine (hw.invariant (I := fun w => Threads w ∧ Ordered w) ⟨Threads.start, Ordered.start⟩ ?_).2
  exact fun l w w' h _ hs => ⟨h.1.moves (moves_of_step hs), h.2.moves h.1 (moves_of_step hs)⟩

end DsqlEmulator.Proxy
