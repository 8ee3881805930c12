import DsqlEmulator.Proxy.Layout
import DsqlEmulator.Proxy.Readies
import DsqlEmulator.Proxy.Refusals

/-! A client that waits for the `ReadyForQuery` of each `Query` and `Sync` before it
sends more.  For such a client every exchange is armed in a gap, and so is every
failure, unless the answer to a `Sync` overtakes a failure put off to it. -/

namespace DsqlEmulator.Proxy

open Wire Occ Txn Runs Line

variable {U : Upstream} {D : Dialect}

def midBatch (ms : List Frontend) : Bool :=
  ms.foldl (fun b m => if m.tag.extended then true else if m.tag = .sync ∨
    m.tag = .query then false else b) false

@[simp] theorem midBatch_snoc (ms : List Frontend) (m : Frontend) : midBatch (ms ++ [m]) =
    if m.tag.extended then true else if m.tag = .sync ∨
      m.tag = .query then false else midBatch ms := by
  simp [midBatch]

def Sends (before : List Frontend) (m : Frontend) : Prop :=
  .terminate ∉ before ∧ m.tag ≠ .functionCall ∧ m.tag ≠ .other ∧
    (m.tag = .query → midBatch before = false)

instance (before : List Frontend) (m : Frontend) : Decidable (Sends before m) :=
  inferInstanceAs (Decidable (_ ∧ _ ∧ _ ∧ _))

def Label.sending : Label U → Option Frontend
  | .send m => some m
  | _ => none

def LockStep (l : Label U) (w : World U) : Prop :=
  ∀ m ∈ l.sending, w.sent.countP (·.drawsReady) = w.got.countP (·.msg.isReady) ∧ Sends w.sent m

instance (l : Label U) (w : World U) : Decidable (LockStep l w) :=
  inferInstanceAs (Decidable (∀ m ∈ l.sending, _))

theorem Sends.extended {before : List Frontend} {m : Frontend} (h : Sends before m) (hs : m ≠ .sync)
    (ht : m ≠ .terminate) (hq : m.tag ≠ .query) : m.tag.extended = true := by
  cases m with
  | sync => exact absurd rfl hs
  | terminate => exact absurd rfl ht
  | query sql => exact absurd rfl hq
  | functionCall => exact absurd rfl h.2.1
  | other => exact absurd rfl h.2.2.1
  | malformed t =>
    cases t with
    | query => exact absurd rfl hq
    | _ => rfl
  | _ => rfl

@[simp] def Act.unlooked : Act → Bool
  | .droppingUntilSync _ _ => true
  | .handleSync _ => true
  | _ => false

theorem unlooked_of_inner {a : Act} (h : a.notes = false ∧ a.defers = false) :
    a.unlooked = false := by
  cases a with
  | droppingUntilSync k m => cases h.1
  | handleSync k => cases h.2
  | _ => rfl

section Frames

variable {s : Session} {n : Nat} {m : Frontend} {now : Nat} {jobID : String} {a : Act}

theorem exec_extendedBatchOpen (ha : ∀ t, a ≠ .noteBatchState t) :
    (a.exec D now jobID s).sess.extendedBatchOpen = s.extendedBatchOpen := by
  cases a with
  | noteBatchState t => exact absurd rfl (ha t)
  | aborted n m => obtain ⟨_, _, h⟩ := exec_aborted_quiet n m; rw [h]
  | droppingUntilSync n m => obtain ⟨_, _, h⟩ := exec_droppingUntilSync_quiet n m; rw [h]
  | _ => dsimp only [Act.exec] <;> (repeat' split) <;> rfl

theorem backMode_not_notes {rest : List Act} (h : BackMode (a :: rest)) :
    ∀ t, a ≠ .noteBatchState t := by
  rintro t rfl
  cases h with
  | relaying h => exact h _ List.mem_cons_self
  | repairing h => cases h _ List.mem_cons_self with | code h => exact h

theorem exec_unlooked (ha : FrontAct n m a) (hu : a.unlooked = false) :
    ∀ b ∈ (a.exec D now jobID s).next, b.unlooked = false := by
  cases ha with
  | code ha =>
    cases a with
    | droppingUntilSync k m' => cases hu
    | handleSync k => cases hu
    | savepointReady bind => dsimp only [Act.exec]; split <;> simp
    | establishSavepoint => dsimp only [Act.exec]; split <;> simp
    | setHidden x ms => simp
    | beginFailure k f => simp
    | noteBatchState t => dsimp only [Act.exec]; (repeat' split) <;> simp
    | writeUpstream o ms => simp
    | _ => exact fun b hb => unlooked_of_inner ((exec_laid ha rfl rfl rfl).inner b hb)
  | _ => simp

end Frames

theorem Layout.dropping {m m' : Frontend} {k : Nat} {l : List Act} (h : Layout m l)
    (hb : .droppingUntilSync k m' ∈ l) : l = [.droppingUntilSync k m'] := by
  cases h with
  | unread =>
    rw [List.mem_singleton.1 hb]
  | handling hbody =>
    rcases List.mem_append.1 hb with hb | hb
    · cases hbody.notes _ hb
    · cases List.mem_singleton.1 hb
  | leaving _ hall => simpa using hall _ hb

structure Tracks (w : World U) : Prop where
  sends : EachAfter Sends w.sent
  layout : w.front ≠ [] → ∃ m, w.sent[w.read - 1]? = some m ∧ Layout m w.front
  noted : w.sess.extendedBatchOpen =
    midBatch (w.sent.take (if w.front = [] then w.read else w.read - 1))
  skips : w.sess.skipSync = true →
    midBatch (w.sent.take (if w.front.any Act.unlooked then w.read - 1 else w.read)) = true

theorem Tracks.start : Tracks (World.start D U) where
  sends := .nil
  layout h := absurd rfl h
  noted := rfl
  skips h := by cases h

section Tracks

variable {w w' : World U} {m : Frontend} {a : Act} {rest : List Act}

theorem take_current (hr : 0 < w.read) (hm : w.sent[w.read - 1]? = some m) :
    w.sent.take w.read = w.sent.take (w.read - 1) ++ [m] := by
  obtain ⟨hlt, rfl⟩ := List.getElem?_eq_some_iff.1 hm
  rw [← List.take_succ_eq_append_getElem hlt, Nat.sub_add_cancel hr]

theorem Tracks.current (h : Tracks w) (hm : w.sent[w.read - 1]? = some m) :
    Sends (w.sent.take (w.read - 1)) m := by
  obtain ⟨hlt, rfl⟩ := List.getElem?_eq_some_iff.1 hm
  refine h.sends _ _ (w.sent.drop (w.read - 1 + 1)) ?_
  rw [← List.drop_eq_getElem_cons hlt, List.take_append_drop]

theorem Tracks.dropped {k : Nat} (h : Tracks w) (ht : Threads w)
    (hf : w.front = .droppingUntilSync k m :: rest) (hskip : w.sess.skipSync = true) :
    m.tag.extended = true ∧ w.sent[w.read - 1]? = some m ∧
      midBatch (w.sent.take (w.read - 1)) = true := by
  obtain ⟨m', hm', ha⟩ := ht.head hf
  cases ha with
  | code ha =>
    obtain ⟨rfl, rfl, hs, ht⟩ := ha
    have hopen := h.skips hskip
    rw [hf] at hopen
    simp only [List.any_cons, Act.unlooked, Bool.true_or, if_true] at hopen
    refine ⟨(h.current hm').extended hs ht fun hq => ?_, hm', hopen⟩
    rw [(h.current hm').2.2.2 hq] at hopen
    cases hopen

theorem Tracks.front_noted {now : Nat} {jobID : String} (h : Tracks w) (ht : Threads w)
    (hf : w.front = a :: rest) (hm : w.sent[w.read - 1]? = some m) (hlayout : Layout m w.front) :
    (w.applyFront rest (a.exec D now jobID w.sess)).sess.extendedBatchOpen =
      midBatch (w.sent.take (if (a.exec D now jobID w.sess).next ++ rest =
          [] then w.read else w.read - 1)) := by
  obtain ⟨-, hpos, -, -⟩ := ht.front (by simp [hf])
  have htake := take_current hpos hm
  have hnoted : w.sess.extendedBatchOpen = midBatch (w.sent.take (w.read - 1)) := by
    rw [h.noted, if_neg (by simp [hf])]
  change (a.exec D now jobID w.sess).sess.extendedBatchOpen = _
  rw [hf] at hlayout
  generalize hl : a :: rest = l at hlayout
  cases hlayout with
  | @unread k =>
    obtain ⟨rfl, rfl⟩ := List.cons.inj hl
    rw [exec_extendedBatchOpen (by simp), hnoted]
    split
    next hnil =>
      have hskip : w.sess.skipSync = true := by
        by_contra hskip
        simp [Act.exec, hskip] at hnil
      obtain ⟨hext, -, hopen⟩ := h.dropped ht hf hskip
      rw [htake, midBatch_snoc, hext, hopen]
      rfl
    next => rfl
  | @handling body hbody =>
    cases body with
    | nil =>
      obtain ⟨rfl, rfl⟩ := List.cons.inj hl
      have hnil : ((Act.noteBatchState m.tag).exec D now jobID w.sess).next ++ [] = [] := by
        dsimp only [Act.exec]
        (repeat' split) <;> rfl
      rw [if_pos hnil, htake, midBatch_snoc, ← hnoted]
      dsimp only [Act.exec]
      (repeat' split) <;> rfl
    | cons b body =>
      obtain ⟨rfl, rfl⟩ := List.cons.inj hl
      have hne : ∀ t, a ≠ .noteBatchState t := by
        rintro t rfl
        cases hbody.notes _ List.mem_cons_self
      rw [exec_extendedBatchOpen hne, hnoted, if_neg (by simp)]
  | leaving hterm hall =>
    subst hterm hl
    have hne : ∀ t, a ≠ .noteBatchState t := by
      rintro t rfl
      simpa using hall _ List.mem_cons_self
    rw [exec_extendedBatchOpen hne, hnoted]
    split
    · rw [htake, midBatch_snoc]
      rfl
    · rfl

theorem Tracks.front_skips {now : Nat} {jobID : String} (h : Tracks w) (ht : Threads w)
    (hf : w.front = a :: rest) (hm : w.sent[w.read - 1]? = some m)
    (hskip : (a.exec D now jobID w.sess).sess.skipSync = true) :
    midBatch (w.sent.take
      (if ((a.exec D now jobID w.sess).next ++ rest).any Act.unlooked then w.read - 1
          else w.read)) = true := by
  obtain ⟨m', hpos, hm', hall⟩ := ht.front (by simp [hf])
  obtain rfl : m' = m := Option.some.inj (hm'.symm.trans hm)
  have ha : FrontAct (w.read - 1) m' a := hall a (by simp [hf])
  have htake := take_current hpos hm
  have hopen (hext : m'.tag.extended = true) : midBatch (w.sent.take w.read) = true := by
    rw [htake, midBatch_snoc, hext]
    rfl
  by_cases hunlooked : a.unlooked = true
  · cases a with
    | droppingUntilSync k m =>
      have hold : w.sess.skipSync = true := by
        rw [← hskip]
        exact (exec_skipSync rfl (by simp) (by simp)).symm
      obtain ⟨hext, hm, -⟩ := h.dropped ht hf hold
      obtain rfl : m = m' := Option.some.inj (hm.symm.trans hm')
      obtain ⟨m₂, hm₂, hlayout⟩ := h.layout (by simp [hf])
      have hrest : rest = [] := by
        have hsingle := hlayout.dropping (hf ▸ List.mem_cons_self)
        exact (List.cons.inj (hf.symm.trans hsingle)).2
      have hnext : ((Act.droppingUntilSync k m).exec D now jobID w.sess).next = [] := by
        simp [Act.exec, hold]
      rw [hnext, hrest]
      exact hopen hext
    | handleSync k => cases hskip
    | _ => cases hunlooked
  · have hnext : ∀ b ∈ (a.exec D now jobID w.sess).next, b.unlooked = false :=
      exec_unlooked ha (by simpa using hunlooked)
    have hany : ((a.exec D now jobID w.sess).next ++ rest).any Act.unlooked =
        w.front.any Act.unlooked := by
      have hnone : (a.exec D now jobID w.sess).next.any Act.unlooked = false :=
        List.any_eq_false.2 fun b hb => by
          rw [hnext b hb]
          exact Bool.false_ne_true
      rw [List.any_append, hnone, hf, List.any_cons]
      simp only [Bool.not_eq_true] at hunlooked
      rw [hunlooked]
    rw [hany]
    by_cases hs : a.skips = true
    · have hext : m'.tag = .parse ∨ m'.tag = .bind := by
        cases ha with
        | code ha =>
          cases a with
          | deferFailure f => exact ha.1
          | setSkipSync => exact ha
          | _ => cases hs
        | _ => cases hs
      have hlooked : w.front.any Act.unlooked = false := by
        refine List.any_eq_false.2 fun b hb hu => ?_
        cases b with
        | handleSync k =>
          cases hall _ hb with
          | code hb =>
            obtain ⟨-, rfl⟩ := hb
            simp at hext
        | droppingUntilSync k m =>
          obtain ⟨m₂, -, hlayout⟩ := h.layout (by simp [hf])
          have hsingle := hlayout.dropping hb
          obtain ⟨rfl, -⟩ := List.cons.inj (hf.symm.trans hsingle)
          cases hs
        | _ => cases hu
      rw [hlooked]
      exact hopen (by rcases hext with hext | hext <;> rw [hext] <;> rfl)
    · by_cases hc : a = .clearAborted
      · subst hc
        cases hskip
      · have hold : w.sess.skipSync = true := by
          rw [← hskip]
          exact (exec_skipSync (by simpa using hs) (by rintro k rfl; exact hunlooked rfl) hc).symm
        exact h.skips hold

theorem Tracks.front {now : Nat} {jobID : String} (h : Tracks w) (ht : Threads w)
    (hf : w.front = a :: rest) : Tracks (w.applyFront rest (a.exec D now jobID w.sess)) := by
  obtain ⟨m, hm, ha⟩ := ht.head hf
  obtain ⟨m', hm', hlayout⟩ := h.layout (by simp [hf])
  obtain rfl : m' = m := Option.some.inj (hm'.symm.trans hm)
  refine ⟨h.sends, fun hne => ⟨m', hm', ?_⟩, ?_, fun hskip => ?_⟩
  · exact ((hf ▸ hlayout).exec ha).resolve_left hne
  · exact h.front_noted ht hf hm' hlayout
  · exact h.front_skips ht hf hm' hskip

theorem pumpFrontend_ne_nil (n : Nat) (m : Frontend) : pumpFrontend n m ≠ [] := by
  unfold pumpFrontend
  split <;> simp

theorem pumpFrontend_unlooked (n : Nat) (m : Frontend) :
    (pumpFrontend n m).any Act.unlooked = true ∨ m = .terminate := by
  unfold pumpFrontend
  split
  · exact .inr rfl
  · exact .inl rfl
  · exact .inl rfl

theorem Tracks.moves {l : Label U} (h : Tracks w) (ht : Threads w) (hl : LockStep l w)
    (hm : Moves D l w w') : Tracks w' := by
  have hread := ht.read_le
  cases hm with
  | @send _ m =>
    have htake {k : Nat} (hk : k ≤ w.read) : (w.sent ++ [m]).take k = w.sent.take k :=
      List.take_append_of_le_length (hk.trans hread)
    refine ⟨h.sends.snoc (hl m rfl).2, fun hf => ?_, ?_, fun hskip => ?_⟩
    · obtain ⟨m', hpos, -, -⟩ := ht.front hf
      obtain ⟨m', hm', hlayout⟩ := h.layout hf
      have hlt : w.read - 1 < w.sent.length := by omega
      exact ⟨m', (List.getElem?_append_left hlt).trans hm', hlayout⟩
    · have hle : (if w.front = [] then w.read else w.read - 1) ≤ w.read := by split <;> omega
      exact h.noted.trans (congrArg midBatch (htake hle).symm)
    · have hle : (if w.front.any Act.unlooked then w.read - 1 else w.read) ≤ w.read := by
        split <;> omega
      exact (congrArg midBatch (htake hle)).trans (h.skips hskip)
  | @readClient _ m rest hf hi hc =>
    have hm : w.sent[w.read]? = some m := by rw [← List.head?_drop, ht.inbox, hi, List.head?_cons]
    have hnoted := h.noted
    rw [if_pos hf] at hnoted
    refine ⟨h.sends, fun _ => ⟨m, hm, pumpFrontend_layout w.read m⟩, ?_, fun hskip => ?_⟩
    · rw [if_neg (pumpFrontend_ne_nil w.read m)]
      exact hnoted
    · have hopen := h.skips hskip
      rw [hf, List.any_nil, if_neg Bool.false_ne_true] at hopen
      rcases pumpFrontend_unlooked w.read m with hany | rfl
      · rw [if_pos hany]
        exact hopen
      · have hnone : (pumpFrontend w.read .terminate).any Act.unlooked = false := rfl
        rw [hnone, if_neg Bool.false_ne_true]
        change midBatch (w.sent.take (w.read + 1)) = true
        rw [List.take_add_one, hm]
        exact (midBatch_snoc _ _).trans hopen
  | front hf => exact h.front ht hf
  | readUpstream _ _ _ => exact ⟨h.sends, h.layout, h.noted, h.skips⟩
  | @back _ a rest hb =>
    have hmode : BackMode (a :: rest) := hb ▸ ht.back
    refine ⟨h.sends, h.layout, ?_, fun hskip => h.skips ?_⟩
    · exact (exec_extendedBatchOpen (backMode_not_notes hmode)).trans h.noted
    · exact (exec_mode_skipSync hmode).symm.trans hskip
  | answer _ => exact ⟨h.sends, h.layout, h.noted, h.skips⟩

theorem tracks {ok : Label U → World U → Prop} (hok : ∀ l w, ok l w → LockStep l w)
    (hw : Reach (system D U) ok w) : Tracks w := by
  have hboth : Threads w ∧ Tracks w := by
    refine hw.invariant (I := fun w => Threads w ∧ Tracks w) ⟨.start, .start⟩ ?_
    rintro l w w' ⟨ht, h⟩ hl hs
    exact ⟨ht.moves (moves_of_step hs), h.moves ht (hok l w hl) (moves_of_step hs)⟩
  exact hboth.2

end Tracks

section Conservation

variable {w : World U}

/-- A lock-step client, and every exchange and every failure armed in time. -/
def InStep (l : Label U) (w : World U) : Prop := LockStep l w ∧ Timely l w

instance (l : Label U) (w : World U) : Decidable (InStep l w) := inferInstanceAs (Decidable (_ ∧ _))

/-- Nothing is on its way, and neither pump has anything to do. -/
@[mk_iff] structure World.Idle (w : World U) : Prop where
  inbox : w.inbox = []
  front : w.front = []
  back : w.back = []
  toUp : w.toUp = []
  fromUp : w.fromUp = []

instance : Decidable w.Idle := decidable_of_iff _ (World.idle_iff w).symm

theorem Tracks.dropping {l : Label U} {k : Nat} {m : Frontend} (h : Tracks w) (ht : Threads w)
    (ha : l.act w = some (.droppingUntilSync k m)) (hskip : w.sess.skipSync = true) :
    m.drawsReady = false := by
  cases l with
  | front now jobID =>
    obtain ⟨rest, hf⟩ := List.head?_eq_some_iff.1 ha
    exact Frontend.drawsReady_of_extended (h.dropped ht hf hskip).1
  | back =>
    obtain ⟨rest, hb⟩ := List.head?_eq_some_iff.1 ha
    have hmode := hb ▸ ht.back
    cases hmode with
    | relaying h => exact (h _ List.mem_cons_self).elim
    | repairing h => cases h _ List.mem_cons_self with | code h => exact h.elim
  | _ => cases ha

theorem balanced (hw : Reach (system D U) InStep w) : Balanced w := by
  induction hw with
  | init => exact .start
  | @step l w w' hw hok hs ih =>
    have hown := owned (hw.mono fun _ _ h => h.2)
    have htracks := tracks (fun _ _ h => h.1) hw
    exact ih.moves hown.threads hown.attributed hown.consumed hown.failing hok.2
      (fun k m ha => htracks.dropping hown.threads ha) (moves_of_step hs)

theorem Attributed.hidden_of_idle (h : Attributed w) (hidle : w.Idle) : w.sess.hidden = none := by
  have hwrites : w.hiddenWrites = [] := by simp [World.hiddenWrites, hidle.front, hidle.back]
  have hline : w.line = [] := by simp [World.line, World.hand, hidle.back, hidle.fromUp, hidle.toUp]
  cases h with
  | idle h => exact h
  | armed _ _ h => simp [hwrites] at h
  | running _ h =>
    rw [hline] at h
    cases h
  | ending _ _ _ _ h => simp [hidle.back] at h

theorem Failing.failure_of_idle (h : Failing w) (hidle : w.Idle) : w.sess.failure = none := by
  cases h with
  | quiet h => exact h
  | injecting h =>
    have hwrites : w.failureWrites = [] := by simp [World.failureWrites, hidle.front, hidle.back]
    have hun : w.unclaimed = [] := by simp [World.unclaimed, hidle.back, hidle.fromUp, hidle.toUp]
    have htaking : w.taking = 0 := by simp [World.taking, hidle.back]
    have howing := h.owing
    rw [World.closers, hun, hwrites] at howing
    rcases h.shape with ⟨hs, -⟩ | hs | ⟨-, ht⟩
    · simp [hs, Line.closers] at howing
    · simp [hs, Line.closers] at howing
    · omega

theorem World.Idle.owed (h : w.Idle) (hat : Attributed w) (hfail : Failing w) : w.owed = 0 := by
  have hun : w.unclaimed = [] := by simp [World.unclaimed, h.back, h.fromUp, h.toUp]
  simp [World.owed, World.outside, h.inbox, h.front, h.back, hun,
    Session.hiddenOwes_of_none (hat.hidden_of_idle h),
    World.failureOwes_of_none (hfail.failure_of_idle h)]

theorem counted_of_sends (h : EachAfter Sends w.sent) :
    w.sent.countP (·.drawsReady) = w.sent.countP (·.counted) := by
  refine List.countP_congr fun m hm => ?_
  obtain ⟨before, after, heq⟩ := List.append_of_mem hm
  have hcall : m.tag ≠ .functionCall := (h before m after heq).2.1
  simp [Frontend.drawsReady, Frontend.counted, hcall]

/-- A lock-step client never gets more `ReadyForQuery` messages than it has sent
`Query` and `Sync` messages, and has got as many once everything is answered, if
every exchange and every failure is armed in time. -/
theorem readies_conserved (hw : Reach (system D U) InStep w) :
    w.got.countP (·.msg.isReady) ≤ w.sent.countP (·.counted) ∧
      (w.Idle → w.got.countP (·.msg.isReady) = w.sent.countP (·.counted)) := by
  have hbalance := balanced hw
  have hown := owned (hw.mono fun _ _ h => h.2)
  rw [← counted_of_sends (tracks (fun _ _ h => h.1) hw).sends]
  unfold Balanced at hbalance
  refine ⟨by omega, fun hidle => ?_⟩
  rw [hidle.owed hown.attributed hown.failing] at hbalance
  exact hbalance.symm

def refusedInTransaction : List (Label .any) :=
  List.flatten
    [[.send (.query "BEGIN"), .readClient], fronts 8,
      [.answer ([], .active), .readUpstream], backs 8,
      [.send (.query "TRUNCATE t"), .readClient], fronts 7,
        [.answer ([], .failed), .readUpstream], backs 5]

theorem readies_conserved_refused :
    let w := (system (.sample []) .any).dest InStep refusedInTransaction
    w.Idle ∧ w.sent.countP (·.counted) = 2 ∧ w.got.countP (·.msg.isReady) = 2 := by
  intro w
  have hidle : w.Idle := by decide +kernel
  have hsent : w.sent.countP (·.counted) = 2 := by decide +kernel
  exact ⟨hidle, hsent, ((readies_conserved (Reach.dest _ _)).2 hidle).trans hsent⟩

def overtakenTwice : List (Label .any) :=
  List.flatten
    [[.send (.parse "" "COMMIT"), .send (.bind { portal := "", statement := "" }),
      .send (.execute ""), .send .sync,
        .readClient], fronts 4, [.readClient], fronts 10, [.readClient], fronts 1,
          [.readClient], fronts 3,
      [.answer ([.parseComplete], .idle), .answer ([], .idle), .readUpstream], backs 4,
        [.readUpstream], backs 8, [.send (.query "COMMIT")], fronts 4, [.readClient], fronts 12,
      [.answer ([], .idle), .answer ([], .idle), .readUpstream], backs 5, [.readUpstream], backs 8]

/-- A lock-step client gets three `ReadyForQuery` messages for two requests. -/
theorem readies_exceeded :
    ∃ w, Reach (system (.sample [⟨[], 1⟩]) .any) LockStep w ∧ w.Idle ∧
      w.sent.countP (·.counted) = 2 ∧ w.got.countP (·.msg.isReady) = 3 := by
  refine ⟨System.dest _ LockStep overtakenTwice, Reach.dest _ _, ?_⟩
  decide +kernel

end Conservation

end DsqlEmulator.Proxy
