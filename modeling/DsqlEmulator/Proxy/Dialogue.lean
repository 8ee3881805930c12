import DsqlEmulator.Proxy.LockStep
import DsqlEmulator.Proxy.Takeover

/-! A client with one message under way at a time.  What its message has the pumps and the
upstream do is followed in one order: a reply is read once the acts of the last one are done,
and a request is answered once every reply is read.  Every other order comes to the same. -/

namespace DsqlEmulator

namespace Proxy

open Wire Occ Txn Runs

variable {U : Upstream} {D : Dialect} {γ : Type}

structure Terms (U : Upstream) (γ : Type) where
  sends : Frontend → Prop
  names : String → Prop
  asks : U.State → γ → Request → Prop
  answers : U.State → Request → U.Choice → Prop
  mark : Request → U.State → γ → γ

variable {C : Terms U γ}

/-- The client sends once everything it has sent is answered. -/
def Terms.Allows (C : Terms U γ) (l : Label U) (w : World U) : Prop :=
  match l with
  | .send m => C.sends m ∧ w.sent.length = w.got.countP (·.msg.isReady)
  | .front _ jobID => C.names jobID
  | .answer c => ∀ q ∈ w.toUp.head?, C.answers w.up q c
  | _ => True

instance [DecidablePred C.sends] [DecidablePred C.names] [∀ st q c, Decidable (C.answers st q c)]
    (l : Label U) (w : World U) : Decidable (C.Allows l w) :=
  match l with
  | .send _ => inferInstanceAs (Decidable (_ ∧ _))
  | .front _ jobID => inferInstanceAs (Decidable (C.names jobID))
  | .answer _ => inferInstanceAs (Decidable (∀ q ∈ w.toUp.head?, _))
  | .readClient => isTrue trivial
  | .readUpstream => isTrue trivial
  | .back => isTrue trivial

def Terms.note (C : Terms U γ) (l : Label U) (w : World U) (g : γ) : γ :=
  match l, w.toUp with
  | .answer c, q :: _ => C.mark q (U.answer w.up q.msg c).1 g
  | _, _ => g

@[simp] theorem Terms.note_front {now : Nat} {jobID : String} {w : World U} {g : γ} :
    C.note (.front now jobID) w g = g := rfl

@[simp] theorem Terms.note_back {w : World U} {g : γ} : C.note .back w g = g := rfl

theorem Terms.note_answer {w : World U} {q : Request} {rest : List Request} (h : w.toUp = q :: rest)
    {c : U.Choice} {g : γ} : C.note (.answer c) w g = C.mark q (U.answer w.up q.msg c).1 g := by
  simp [Terms.note, h]

inductive Dialogue (told : Frontend → U.State → List Delivery → U.State → Prop) (u : U.State) :
    List Frontend → List Delivery → U.State → Prop
  | nil : Dialogue told u [] [] u
  | snoc {ms ds v m es w} : Dialogue told u ms ds v → told m v es w → Dialogue told u (ms ++ [m])
      (ds ++ es) w

theorem Dialogue.readies {told : Frontend → U.State → List Delivery → U.State → Prop}
    {u v : U.State} {ms : List Frontend} {ds : List Delivery}
    (htold : ∀ {m u es v}, told m u es v → es.countP (·.msg.isReady) = 1)
    (h : Dialogue told u ms ds v) : ds.countP (·.msg.isReady) = ms.length := by
  induction h with
  | nil => rfl
  | snoc _ ht ih => rw [List.countP_append, List.length_append, ih, htold ht, List.length_singleton]

section Courses

variable (D C)

inductive Settles (post : Session → U.State → γ → List Delivery → Prop) :
    Session → U.State → γ → List Act → List Reply → List Request → List Delivery → Prop
  | act {s up g a acts rs qs ds} : (∀ d ∈ (a.exec D 0 "" s).client, d.msg.isReady = false) →
      Settles post (a.exec D 0 "" s).sess up g ((a.exec D 0 "" s).next ++ acts) rs
        (qs ++ (a.exec D 0 "" s).up) (ds ++ (a.exec D 0 "" s).client) →
      Settles post s up g (a :: acts) rs qs ds
  | read {s up g r rs qs ds} : Settles post s up g (pumpBackend r) rs qs ds →
      Settles post s up g [] (r :: rs) qs ds
  | answer {s up g q qs ds} : C.asks up g q →
      (∀ c, C.answers up q c → Settles post s (U.answer up q.msg c).1
        (C.mark q (U.answer up q.msg c).1 g) []
        ((U.answer up q.msg c).2.map (Reply.mk q.origin)) qs ds) →
      Settles post s up g [] [] (q :: qs) ds
  | last {s up g d ds} : d.msg.isReady = true → post s up g (ds ++ [d]) →
      Settles post s up g [.writeClient d] [] [] ds

@[simp] def Act.prepares : Act → Bool
  | .setInFlight _ _ _ => true
  | .setPendingCommandTag => true
  | .beginExchange => true
  | _ => false

def Session.prepared (s : Session) (acts : List Act) : Session :=
  acts.foldl (fun s a => (a.exec D 0 "" s).sess) s

theorem Session.prepared_cons (s : Session) (a : Act) (acts : List Act) :
    s.prepared D (a :: acts) = (a.exec D 0 "" s).sess.prepared D acts := rfl

inductive Handles (post : Session → U.State → γ → List Delivery → Prop) :
    Session → U.State → γ → List Act → List Delivery → Prop
  | act {s up g a acts ds} : (∀ now jobID, C.names jobID → (a.exec D now jobID s).up = []) →
      (∀ now jobID, C.names jobID → ∀ d ∈ (a.exec D now jobID s).client, d.msg.isReady = false) →
      (∀ now jobID, C.names jobID → Handles post (a.exec D now jobID s).sess up g
        ((a.exec D now jobID s).next ++ acts) (ds ++ (a.exec D now jobID s).client)) →
      Handles post s up g (a :: acts) ds
  | refused {s up g d ds} : d.msg.isReady = true → post s up g (ds ++ [d]) →
      Handles post s up g [.writeClient d, .noteBatchState .query] ds
  | asked {s up g o ms ds} : Settles D C post s up g [] [] (ms.map (Request.mk o)) ds →
      Handles post s up g [.writeUpstream o ms, .noteBatchState .query] ds
  | saving {s up g k acts o ms ds} : s.hidden = some ⟨k, .savepoint false⟩ →
      0 < s.pendingExchanges → ms ≠ [] → (∀ a ∈ acts, a.prepares = true) →
      Settles D C post (s.prepared D acts) up g [] []
        (⟨.hidden .savepoint k, savepointQuery⟩ :: ms.map (Request.mk o)) ds →
      Handles post s up g (.writeUpstream (.hidden .savepoint k) [savepointQuery] ::
        (acts ++ [.writeUpstream o ms, .noteBatchState .query])) ds

end Courses

section Early

variable {post : Session → U.State → γ → List Delivery → Prop} {s : Session} {up : U.State} {g : γ}
  {acts : List Act} {rs : List Reply} {q : Request} {qs : List Request} {ds : List Delivery}

theorem Settles.early (h : Settles D C post s up g acts rs (q :: qs) ds) {c : U.Choice}
    (hc : C.answers up q c) :
    Settles D C post s (U.answer up q.msg c).1 (C.mark q (U.answer up q.msg c).1 g) acts
      (rs ++ (U.answer up q.msg c).2.map (Reply.mk q.origin)) qs ds := by
  generalize hQ : q :: qs = Q at h
  induction h generalizing qs with
  | act hready _ ih =>
    subst hQ
    exact .act hready (ih hc rfl)
  | read _ ih => exact .read (ih hc hQ)
  | answer _ h =>
    cases hQ
    exact h c hc
  | last => cases hQ

end Early

section Saving

inductive SavepointRun (k : Nat) (s : Session) : List Act → List Reply → List Request → Prop
  | sent {f} : s.hidden = some ⟨k, .savepoint f⟩ → 0 < s.pendingExchanges →
      SavepointRun k s [] [] [⟨.hidden .savepoint k, savepointQuery⟩]
  | replied {f o st} {ms : List Backend} : s.hidden = some ⟨k, .savepoint f⟩ →
      0 < s.pendingExchanges → (∀ m ∈ ms, m.isReady = false) →
        SavepointRun k s [] (ms.map (Reply.mk o) ++ [⟨o, .ready st⟩]) []
  | noting {f o st m} {ms : List Backend} : s.hidden = some ⟨k, .savepoint f⟩ →
      0 < s.pendingExchanges → m.isReady = false → (∀ m ∈ ms, m.isReady = false) →
      SavepointRun k s [.consumeHidden ⟨o, m⟩] (ms.map (Reply.mk o) ++ [⟨o, .ready st⟩]) []
  | ended {f o st} : s.hidden = some ⟨k, .savepoint f⟩ → 0 < s.pendingExchanges →
      SavepointRun k s [.endExchange, .consumeHidden ⟨o, .ready st⟩] [] []
  | consuming {f o st} : s.hidden = some ⟨k, .savepoint f⟩ →
      SavepointRun k s [.consumeHidden ⟨o, .ready st⟩] [] []
  | clearing {f} : SavepointRun k s [.clearHidden ⟨k, .savepoint f⟩] [] []
  | failing : SavepointRun k s [.clearSavepoint] [] []
  | gone : SavepointRun k s [] [] []

variable {s : Session} {k : Nat} {a b : Act} {acts rest : List Act} {rs : List Reply}
  {qs : List Request}

theorem SavepointRun.congr {s' : Session} (h : SavepointRun k s acts rs qs)
    (hh : s'.hidden = s.hidden) (hp : s.pendingExchanges ≤ s'.pendingExchanges) :
    SavepointRun k s' acts rs qs := by
  cases h with
  | sent h hpos => exact .sent (hh.trans h) (Nat.lt_of_lt_of_le hpos hp)
  | replied h hpos hms => exact .replied (hh.trans h) (Nat.lt_of_lt_of_le hpos hp) hms
  | noting h hpos hm hms => exact .noting (hh.trans h) (Nat.lt_of_lt_of_le hpos hp) hm hms
  | ended h hpos => exact .ended (hh.trans h) (Nat.lt_of_lt_of_le hpos hp)
  | consuming h => exact .consuming (hh.trans h)
  | clearing => exact .clearing
  | failing => exact .failing
  | gone => exact .gone

theorem exec_prepares (ha : a.prepares = true) (now : Nat) (jobID : String) :
    a.exec D now jobID s = { sess := (a.exec D 0 "" s).sess } ∧
      (a.exec D 0 "" s).sess.hidden = s.hidden ∧
      s.pendingExchanges ≤ (a.exec D 0 "" s).sess.pendingExchanges := by
  cases a with
  | setInFlight n intent bind => exact ⟨rfl, rfl, Nat.le_refl _⟩
  | setPendingCommandTag => exact ⟨rfl, rfl, Nat.le_refl _⟩
  | beginExchange => exact ⟨rfl, rfl, Nat.le_succ _⟩
  | _ => cases ha

theorem exec_comm (ha : a.prepares = true) (h : SavepointRun k s (b :: rest) rs qs) :
    b.exec D 0 "" (a.exec D 0 "" s).sess =
      { b.exec D 0 "" s with sess := (a.exec D 0 "" (b.exec D 0 "" s).sess).sess } := by
  cases h with
  | ended hh hpos =>
    cases a with
    | beginExchange =>
      simp only [Act.exec]
      have : s.pendingExchanges + 1 - 1 = s.pendingExchanges - 1 + 1 := by omega
      rw [this]
    | setInFlight n intent bind => rfl
    | setPendingCommandTag => rfl
    | _ => cases ha
  | noting hh hpos hm hms =>
    cases a with
    | beginExchange => simp [hh, hm]
    | setInFlight n intent bind => simp [hh, hm]
    | setPendingCommandTag => simp [hh, hm]
    | _ => cases ha
  | consuming hh =>
    cases a with
    | beginExchange => simp [hh]
    | setInFlight n intent bind => simp [hh]
    | setPendingCommandTag => simp [hh]
    | _ => cases ha
  | clearing => cases a <;> first | rfl | cases ha
  | failing => cases a <;> first | rfl | cases ha

theorem exec_prepared (hacts : ∀ a ∈ acts, a.prepares = true)
    (h : SavepointRun k s (b :: rest) rs qs) : b.exec D 0 "" (s.prepared D acts) =
      { b.exec D 0 "" s with sess := (b.exec D 0 "" s).sess.prepared D acts } := by
  induction acts generalizing s with
  | nil => rfl
  | cons a acts ih =>
    have ha := hacts a List.mem_cons_self
    obtain ⟨-, hhidden, hpending⟩ := exec_prepares (D := D) (s := s) ha 0 ""
    have hrun : SavepointRun k (a.exec D 0 "" s).sess (b :: rest) rs qs := h.congr hhidden hpending
    rw [Session.prepared_cons, Session.prepared_cons,
      ih (fun c hc => hacts c (List.mem_cons_of_mem _ hc)) hrun, exec_comm ha h]

theorem SavepointRun.exec (h : SavepointRun k s (b :: rest) rs qs) :
    (b.exec D 0 "" s).up = [] ∧ (b.exec D 0 "" s).client = [] ∧
      SavepointRun k (b.exec D 0 "" s).sess ((b.exec D 0 "" s).next ++ rest) rs qs := by
  cases h with
  | @noting f o st m ms hh hpos hm hms =>
    have hnote : ∃ f', Exchange.note (.savepoint f) m = .savepoint f' := ⟨_, rfl⟩
    obtain ⟨f', hf'⟩ := hnote
    have hpasses : Exchange.passes (.savepoint f) m = false := by cases m <;> rfl
    simp only [Act.exec, hh, hm, Bool.false_eq_true, if_false, hf', hpasses]
    exact ⟨trivial, trivial, .replied rfl hpos hms⟩
  | ended hh hpos => exact ⟨rfl, rfl, .consuming hh⟩
  | consuming hh =>
    simp only [Act.exec, hh, Backend.isReady, if_true]
    exact ⟨trivial, trivial, .clearing⟩
  | @clearing f =>
    refine ⟨rfl, rfl, ?_⟩
    cases f
    · exact .gone
    · exact .failing
  | failing => exact ⟨rfl, rfl, .gone⟩

theorem SavepointRun.read {r : Reply} (h : SavepointRun k s [] (r :: rs) qs) :
    SavepointRun k s (pumpBackend r) rs qs := by
  generalize hrs : r :: rs = rs' at h
  cases h with
  | sent => cases hrs
  | gone => cases hrs
  | @replied f o st ms hh hpos hms =>
    cases ms with
    | nil =>
      obtain ⟨rfl, rfl⟩ := List.cons.inj hrs
      exact .ended hh hpos
    | cons m ms =>
      obtain ⟨rfl, rfl⟩ := List.cons.inj hrs
      have hm : m.isReady = false := hms m List.mem_cons_self
      simp only [pumpBackend, hm, Bool.false_eq_true, if_false]
      exact .noting hh hpos hm fun x hx => hms x (List.mem_cons_of_mem _ hx)

theorem SavepointRun.answer {q : Request} {ms : List Backend}
    (h : SavepointRun k s acts rs (q :: qs)) (hms : Answers q.msg ms) :
    SavepointRun k s acts (rs ++ ms.map (Reply.mk q.origin)) qs := by
  cases h with
  | sent hh hpos =>
    obtain ⟨pre, hpre, ⟨-, st, rfl⟩ | ⟨hdraws, -⟩⟩ := hms
    · simpa using SavepointRun.replied hh hpos hpre
    · cases hdraws

end Saving

section Preparing

variable {s : Session} {acts : List Act}

theorem prepared_hidden (hacts : ∀ a ∈ acts, a.prepares = true) :
    (s.prepared D acts).hidden = s.hidden := by
  induction acts generalizing s with
  | nil => rfl
  | cons a acts ih =>
    rw [Session.prepared_cons, ih fun b hb => hacts b (List.mem_cons_of_mem _ hb)]
    exact (exec_prepares (hacts a List.mem_cons_self) 0 "").2.1

theorem prepared_pending (hacts : ∀ a ∈ acts, a.prepares = true) :
    (s.prepared D acts).pendingExchanges = s.pendingExchanges + acts.countP
      (· = .beginExchange) := by
  induction acts generalizing s with
  | nil => rfl
  | cons a acts ih =>
    have ha := hacts a List.mem_cons_self
    rw [Session.prepared_cons, ih fun b hb => hacts b (List.mem_cons_of_mem _ hb), List.countP_cons]
    cases a with
    | beginExchange => simp; omega
    | setInFlight n intent bind => simp
    | setPendingCommandTag => simp
    | _ => cases ha

theorem handles_prepared {post : Session → U.State → γ → List Delivery → Prop} {up : U.State}
    {g : γ} {o : Origin} {ms : List Frontend} {ds : List Delivery}
    (hacts : ∀ a ∈ acts, a.prepares = true)
    (h : Settles D C post (s.prepared D acts) up g [] [] (ms.map (Request.mk o)) ds) :
    Handles D C post s up g (acts ++ [.writeUpstream o ms, .noteBatchState .query]) ds := by
  induction acts generalizing s with
  | nil => exact .asked h
  | cons a acts ih =>
    have hexec (now : Nat) (jobID : String) : a.exec D now jobID s =
        { sess := (a.exec D 0 "" s).sess } :=
      (exec_prepares (hacts a List.mem_cons_self) now jobID).1
    refine .act (fun now jobID _ => ?_) (fun now jobID _ => ?_) fun now jobID _ => ?_
    · rw [hexec]
    · rw [hexec]; simp
    · rw [hexec, List.append_nil]
      exact ih (fun b hb => hacts b (List.mem_cons_of_mem _ hb)) h

end Preparing

section Poised

def Quieted (front : List Act) : Prop := front = [] ∨ front = [.noteBatchState .query]

inductive Poised (D : Dialect) (w : World U) : Session → List Request → Prop
  | quieted : Quieted w.front → Poised D w w.sess w.toUp
  | saving {k acts o ms} : w.front = acts ++ [.writeUpstream o ms, .noteBatchState .query] →
      (∀ a ∈ acts, a.prepares = true) → ms ≠ [] → SavepointRun k w.sess w.back w.fromUp w.toUp →
      Poised D w (w.sess.prepared D acts) (w.toUp ++ ms.map (Request.mk o))

variable {w : World U} {s : Session} {qs : List Request} {a : Act} {rest : List Act} {now : Nat}
  {jobID : String}

theorem exec_noted {s : Session} (h : s.extendedBatchOpen = false) (now : Nat) (jobID : String) :
    (Act.noteBatchState .query).exec D now jobID s = { sess := s } := by
  cases s
  cases h
  rfl

theorem Quieted.applyFront (h : Quieted w.front) (hbatch : w.sess.extendedBatchOpen = false)
    (hf : w.front = a :: rest) :
    w.applyFront rest (a.exec D now jobID w.sess) = { w with front := [] } := by
  obtain hnil | hnote := h
  · rw [hnil] at hf
    cases hf
  · rw [hnote] at hf
    obtain ⟨rfl, rfl⟩ := List.cons.inj hf
    rw [exec_noted hbatch]
    simp [World.applyFront]

theorem Poised.front (h : Poised D w s qs) (hbatch : w.sess.extendedBatchOpen = false)
    (hf : w.front = a :: rest) : Poised D (w.applyFront rest (a.exec D now jobID w.sess)) s qs ∧
      (w.applyFront rest (a.exec D now jobID w.sess)).got = w.got ∧
      (w.applyFront rest (a.exec D now jobID w.sess)).front.length < w.front.length := by
  cases h with
  | quieted h =>
    rw [h.applyFront hbatch hf]
    exact ⟨.quieted (.inl rfl), rfl, by simp [hf]⟩
  | @saving k acts o ms hfront hacts hms hrun =>
    rw [hfront] at hf
    cases acts with
    | nil =>
      obtain ⟨rfl, rfl⟩ := List.cons.inj hf
      exact ⟨.quieted (.inr rfl), List.append_nil _, by simp [hfront, World.applyFront]⟩
    | cons b acts =>
      obtain ⟨rfl, rfl⟩ := List.cons.inj hf
      have hb := hacts b List.mem_cons_self
      obtain ⟨hexec, hhidden, hpending⟩ : b.exec D now jobID w.sess =
          { sess := (b.exec D 0 "" w.sess).sess } ∧ _ ∧ _ :=
        exec_prepares hb now jobID
      rw [hexec]
      have hrun' : SavepointRun k (b.exec D 0 "" w.sess).sess w.back w.fromUp (w.toUp ++ []) := by
        rw [List.append_nil]
        exact hrun.congr hhidden hpending
      have hpoised : Poised D (w.applyFront (acts ++ [.writeUpstream o ms, .noteBatchState .query])
        { sess := (b.exec D 0 "" w.sess).sess })
          _ _ := .saving rfl (fun c hc => hacts c (List.mem_cons_of_mem _ hc)) hms hrun'
      refine ⟨?_, List.append_nil _, by simp [hfront, World.applyFront]⟩
      simpa only [World.applyFront, List.append_nil, Session.prepared_cons,
        List.append_eq] using hpoised

theorem Poised.back (h : Poised D w s qs) (hb : w.back = a :: rest) :
    Poised D (w.applyBack rest (a.exec D 0 "" w.sess)) (a.exec D 0 "" s).sess
      (qs ++ (a.exec D 0 "" s).up) ∧
      (w.applyBack rest (a.exec D 0 "" w.sess)).back = (a.exec D 0 "" s).next ++ rest ∧
      (w.applyBack rest (a.exec D 0 "" w.sess)).got = w.got ++ (a.exec D 0 "" s).client := by
  cases h with
  | quieted h => exact ⟨.quieted h, rfl, rfl⟩
  | @saving k acts o ms hfront hacts hms hrun =>
    rw [hb] at hrun
    obtain ⟨hup, hclient, hnext⟩ : (a.exec D 0 "" w.sess).up = [] ∧ _ ∧ _ := hrun.exec
    rw [exec_prepared hacts hrun]
    refine ⟨?_, rfl, rfl⟩
    have hrun' : SavepointRun k (a.exec D 0 "" w.sess).sess
      ((a.exec D 0 "" w.sess).next ++ rest) w.fromUp
        (w.toUp ++ (a.exec D 0 "" w.sess).up) := by
      rw [hup, List.append_nil]
      exact hnext
    have hpoised : Poised D (w.applyBack rest (a.exec D 0 "" w.sess)) _ _ :=
      .saving hfront hacts hms hrun'
    simpa only [World.applyBack, hup, List.append_nil] using hpoised

theorem Poised.read {r : Reply} {rs : List Reply} (h : Poised D w s qs) (hb : w.back = [])
    (hu : w.fromUp = r :: rs) : Poised D { w with back := pumpBackend r, fromUp := rs } s qs := by
  cases h with
  | quieted h => exact Poised.quieted (w := { w with back := pumpBackend r, fromUp := rs }) h
  | @saving k acts o ms hfront hacts hms hrun =>
    rw [hb, hu] at hrun
    exact Poised.saving (w := { w with back := pumpBackend r, fromUp := rs }) hfront hacts
      hms hrun.read

theorem Poised.answer {q : Request} {rest : List Request} {c : U.Choice} (h : Poised D w s qs)
    (hq : w.toUp = q :: rest) :
    ∃ qs', qs = q :: qs' ∧ Poised D (w.applyAnswer q rest (U.answer w.up q.msg c)) s qs' := by
  cases h with
  | quieted h =>
    exact ⟨rest, hq, Poised.quieted (w := w.applyAnswer q rest (U.answer w.up q.msg c)) h⟩
  | @saving k acts o ms hfront hacts hms hrun =>
    rw [hq] at hrun ⊢
    exact ⟨_, rfl, Poised.saving (w := w.applyAnswer q rest (U.answer w.up q.msg c)) hfront hacts
      hms (hrun.answer (U.answers _ _ _))⟩

theorem Poised.nil (h : Poised D w s []) : Quieted w.front ∧ s = w.sess ∧ [] = w.toUp := by
  generalize hqs : ([] : List Request) = qs at h
  cases h with
  | quieted h => exact ⟨h, rfl, rfl⟩
  | saving hfront hacts hms hrun =>
    exact absurd (List.append_eq_nil_iff.1 hqs.symm).2 (by simpa using hms)

end Poised

section Sound

variable {R : Session → U.State → γ → Prop}
  {told : Frontend → U.State → List Delivery → U.State → Prop}

def Concludes (R : Session → U.State → γ → Prop)
    (told : Frontend → U.State → List Delivery → U.State → Prop) (m : Frontend) (u : U.State)
    (s : Session) (v : U.State) (g : γ) (es : List Delivery) : Prop :=
  R s v g ∧ told m u es v

structure Ongoing (told : Frontend → U.State → List Delivery → U.State → Prop) (w : World U)
    (m : Frontend) (u : U.State) (es : List Delivery) : Prop where
  inbox : w.inbox = []
  before : ∃ ms ds, Dialogue told U.init ms ds u ∧ w.sent = ms ++ [m] ∧ w.got = ds ++ es
  unready : ∀ d ∈ es, d.msg.isReady = false

inductive Progress (D : Dialect) (C : Terms U γ) (R : Session → U.State → γ → Prop)
    (told : Frontend → U.State → List Delivery → U.State → Prop) (w : World U) (g : γ) : Prop
  | resting (ms) : Dialogue told U.init ms w.got w.up → w.sent = ms ++ w.inbox →
      w.inbox.length ≤ 1 →
      (∀ m ∈ w.inbox, C.sends m) → Quieted w.front → w.back = [] → w.fromUp = [] → w.toUp = [] →
        R w.sess w.up g →
      Progress D C R told w g
  | handling (m u es) : Ongoing told w m u es → w.back = [] → w.fromUp = [] → w.toUp = [] →
      Handles D C (Concludes R told m u) w.sess w.up g w.front es → Progress D C R told w g
  | underway (m u es s qs) : Ongoing told w m u es → Poised D w s qs →
      Settles D C (Concludes R told m u) s w.up g w.back w.fromUp qs es → Progress D C R told w g

variable {w w' : World U} {g : γ} {m : Frontend} {u : U.State} {es : List Delivery}

theorem Progress.ongoing_or (h : Progress D C R told w g) : (∃ m u es, Ongoing told w m u es) ∨
    ∃ ms, Dialogue told U.init ms w.got w.up ∧ w.sent = ms ++ w.inbox ∧ w.inbox.length ≤ 1 := by
  cases h with
  | resting ms hd hsent hlen => exact .inr ⟨ms, hd, hsent, hlen⟩
  | handling m u es h => exact .inl ⟨m, u, es, h⟩
  | underway m u es s qs h => exact .inl ⟨m, u, es, h⟩

theorem Ongoing.not_sending (htold : ∀ {m u es v}, told m u es v → es.countP (·.msg.isReady) = 1)
    (h : Ongoing told w m u es) : w.sent.length ≠ w.got.countP (·.msg.isReady) := by
  obtain ⟨ms, ds, hd, hsent, hgot⟩ := h.before
  have hzero : es.countP (·.msg.isReady) = 0 := List.countP_eq_zero.2 fun d hd => by
    simp [h.unready d hd]
  rw [hsent, hgot, List.countP_append, hd.readies htold, hzero, List.length_append,
    List.length_singleton]
  omega

theorem Ongoing.deliver (h : Ongoing told w m u es) {ds : List Delivery}
    (hds : ∀ d ∈ ds, d.msg.isReady = false) (hinbox : w'.inbox = w.inbox) (hsent : w'.sent = w.sent)
    (hgot : w'.got = w.got ++ ds) : Ongoing told w' m u (es ++ ds) := by
  obtain ⟨ms, ds', hd, hs, hg⟩ := h.before
  refine ⟨hinbox.trans h.inbox, ⟨ms, ds', hd, hsent.trans hs, ?_⟩, fun d hmem => ?_⟩
  · rw [hgot, hg, List.append_assoc]
  · rcases List.mem_append.1 hmem with hmem | hmem
    · exact h.unready d hmem
    · exact hds d hmem

theorem Ongoing.keep (h : Ongoing told w m u es) (hinbox : w'.inbox = w.inbox)
    (hsent : w'.sent = w.sent) (hgot : w'.got = w.got) : Ongoing told w' m u es := by
  have hnone : ∀ d ∈ ([] : List Delivery), d.msg.isReady = false := by simp
  simpa using h.deliver hnone hinbox hsent (by simpa using hgot)

theorem Ongoing.finish (h : Ongoing told w m u es) {d : Delivery} (hinbox : w'.inbox = w.inbox)
    (hsent : w'.sent = w.sent) (hgot : w'.got = w.got ++ [d])
    (hpost : Concludes R told m u w'.sess w'.up g (es ++ [d])) (hfront : Quieted w'.front)
    (hback : w'.back = []) (hfrom : w'.fromUp = []) (hto : w'.toUp = []) :
    Progress D C R told w' g := by
  obtain ⟨ms, ds, hd, hs, hg⟩ := h.before
  have hnil : w'.inbox = [] := hinbox.trans h.inbox
  refine .resting (ms ++ [m]) ?_ ?_ ?_ ?_ hfront hback hfrom hto hpost.1
  · rw [hgot, hg, List.append_assoc]
    exact hd.snoc hpost.2
  · rw [hsent, hs, hnil, List.append_nil]
  · simp [hnil]
  · simp [hnil]

section Steps

variable {l : Label U}

theorem Progress.moves_resting {ms : List Frontend}
    (htold : ∀ {m u es v}, told m u es v → es.countP (·.msg.isReady) = 1)
    (hhandles : ∀ {s u g m} n, R s u g → C.sends m → Handles D C (Concludes R told m u) s u g
      (pumpFrontend n m) []) (hbatch : w.sess.extendedBatchOpen = false) (hok : C.Allows l w)
    (hm : Moves D l w w') (hd : Dialogue told U.init ms w.got w.up) (hsent : w.sent = ms ++ w.inbox)
    (hlen : w.inbox.length ≤ 1) (hsends : ∀ m ∈ w.inbox, C.sends m) (hfront : Quieted w.front)
    (hback : w.back = []) (hfrom : w.fromUp = []) (hto : w.toUp = []) (hrest : R w.sess w.up g) :
    Progress D C R told w' (C.note l w g) := by
  cases hm with
  | @send _ m =>
    have hinbox : w.inbox = [] := by
      have hcount := hok.2
      rw [hsent, List.length_append, hd.readies htold] at hcount
      exact List.eq_nil_of_length_eq_zero (by omega)
    refine .resting ms hd ?_ ?_ (fun m' hm' => ?_) hfront hback hfrom hto hrest
    · rw [hsent, List.append_assoc]
    · simp [hinbox]
    · rw [hinbox] at hm'
      exact List.mem_singleton.1 hm' ▸ hok.1
  | @readClient _ m rest hf hi hc =>
    have hnil : rest = [] := by
      rw [hi, List.length_cons] at hlen
      exact List.eq_nil_of_length_eq_zero (by omega)
    refine .handling m w.up [] ⟨hnil, ⟨ms, w.got, hd, ?_, (List.append_nil _).symm⟩, by simp⟩
      hback hfrom hto (hhandles _ hrest (hsends m (by simp [hi])))
    rw [hsent, hi, hnil]
  | front hf =>
    rw [hfront.applyFront hbatch hf]
    exact .resting ms hd hsent hlen hsends (.inl rfl) hback hfrom hto hrest
  | readUpstream hb hu hc => cases hfrom.symm.trans hu
  | back hb => cases hback.symm.trans hb
  | answer hq => cases hto.symm.trans hq

theorem Progress.moves_handling
    (htold : ∀ {m u es v}, told m u es v → es.countP (·.msg.isReady) = 1) (hok : C.Allows l w)
    (hm : Moves D l w w') (h : Ongoing told w m u es) (hback : w.back = []) (hfrom : w.fromUp = [])
    (hto : w.toUp = []) (hh : Handles D C (Concludes R told m u) w.sess w.up g w.front es) :
    Progress D C R told w' (C.note l w g) := by
  cases hm with
  | send => exact absurd hok.2 (h.not_sending htold)
  | readClient hf hi hc => cases h.inbox.symm.trans hi
  | @front _ now jobID a rest hf =>
    rw [hf] at hh
    cases hh with
    | act hup hready hnext =>
      refine .handling m u _ (h.deliver (hready now jobID hok) rfl rfl rfl) hback hfrom ?_
        (hnext now jobID hok)
      simp only [World.applyFront, hto, hup now jobID hok, List.append_nil]
    | refused hr hpost =>
      refine h.finish rfl rfl rfl hpost (.inr rfl) hback hfrom ?_
      simp [World.applyFront, hto]
    | asked hs =>
      refine .underway m u es _ _ (h.keep rfl rfl (List.append_nil _)) (.quieted (.inr rfl)) ?_
      simpa [World.applyFront, hback, hfrom, hto] using hs
    | @saving _ _ _ k acts o qs _ hhidden hpending hqs hacts hs =>
      have hrun : SavepointRun k w.sess w.back w.fromUp
          (w.toUp ++ [⟨.hidden .savepoint k, savepointQuery⟩]) := by
        simpa [hback, hfrom, hto] using SavepointRun.sent hhidden hpending
      refine .underway m u es _ _ (h.keep rfl rfl (List.append_nil _))
        (.saving rfl hacts hqs hrun) ?_
      simpa [World.applyFront, hback, hfrom, hto] using hs
  | readUpstream hb hu hc => cases hfrom.symm.trans hu
  | back hb => cases hback.symm.trans hb
  | answer hq => cases hto.symm.trans hq

theorem Progress.moves_underway {s : Session} {qs : List Request}
    (htold : ∀ {m u es v}, told m u es v → es.countP (·.msg.isReady) = 1)
    (hbatch : w.sess.extendedBatchOpen = false) (hok : C.Allows l w) (hm : Moves D l w w')
    (h : Ongoing told w m u es) (hp : Poised D w s qs)
    (hs : Settles D C (Concludes R told m u) s w.up g w.back w.fromUp qs es) :
    Progress D C R told w' (C.note l w g) := by
  cases hm with
  | send => exact absurd hok.2 (h.not_sending htold)
  | readClient hf hi hc => cases h.inbox.symm.trans hi
  | front hf =>
    obtain ⟨hp', hgot, -⟩ := hp.front hbatch hf
    exact .underway m u es s qs (h.keep rfl rfl hgot) hp' hs
  | readUpstream hb hu hc =>
    rw [hb, hu] at hs
    cases hs with
    | read hs => exact .underway m u es s qs (h.keep rfl rfl rfl) (hp.read hb hu) hs
  | @back _ a rest hb =>
    obtain ⟨hp', hback, hgot⟩ := hp.back hb
    rw [hb] at hs
    generalize hF : w.fromUp = F at hs
    cases hs with
    | act hready hs =>
      subst hF
      refine .underway m u _ _ _ (h.deliver hready rfl rfl hgot) hp' ?_
      rw [hback]
      exact hs
    | last hready hpost =>
      obtain ⟨hfront, rfl, hto⟩ := hp.nil
      refine h.finish rfl rfl rfl hpost hfront rfl hF ?_
      simp [World.applyBack, ← hto]
  | @answer _ c q rest hq =>
    have hc : C.answers w.up q c := hok q (by simp [hq])
    obtain ⟨qs', rfl, hp'⟩ := hp.answer hq
    rw [Terms.note_answer hq]
    exact .underway m u es s qs' (h.keep rfl rfl rfl) hp' (hs.early hc)

theorem Progress.moves (htold : ∀ {m u es v}, told m u es v → es.countP (·.msg.isReady) = 1)
    (hhandles : ∀ {s u g m} n, R s u g → C.sends m → Handles D C (Concludes R told m u) s u g
      (pumpFrontend n m) []) (hbatch : w.sess.extendedBatchOpen = false)
    (h : Progress D C R told w g) (hok : C.Allows l w) (hm : Moves D l w w') :
    Progress D C R told w' (C.note l w g) := by
  cases h with
  | resting ms hd hsent hlen hsends hfront hback hfrom hto hrest =>
    exact moves_resting htold hhandles hbatch hok hm hd hsent hlen hsends hfront hback
      hfrom hto hrest
  | handling m u es h hback hfrom hto hh => exact moves_handling htold hok hm h hback hfrom hto hh
  | underway m u es s qs h hp hs => exact moves_underway htold hbatch hok hm h hp hs

end Steps

section Holds

variable {I : U.State → γ → Prop} {post : Session → U.State → γ → List Delivery → Prop}
  {s : Session} {up : U.State} {acts : List Act}
  {rs : List Reply} {qs : List Request} {ds : List Delivery}
    (hasks : ∀ {u g q}, C.asks u g q → I u g) include hasks

theorem Settles.holds (hpost : ∀ {s u g ds}, post s u g ds → I u g)
    (h : Settles D C post s up g acts rs qs ds) : I up g := by
  induction h with
  | act _ _ ih => exact ih
  | read _ ih => exact ih
  | answer hq _ _ => exact hasks hq
  | last _ h => exact hpost h

theorem Handles.holds (hnames : ∃ jobID, C.names jobID)
    (hpost : ∀ {s u g ds}, post s u g ds → I u g) (h : Handles D C post s up g acts ds) :
    I up g := by
  induction h with
  | act _ _ _ ih =>
    obtain ⟨jobID, hname⟩ := hnames
    exact ih 0 jobID hname
  | refused _ h => exact hpost h
  | asked h => exact h.holds hasks hpost
  | saving _ _ _ _ h => exact h.holds hasks hpost

theorem Progress.holds (hnames : ∃ jobID, C.names jobID) (hrest : ∀ {s u g}, R s u g → I u g)
    (h : Progress D C R told w g) : I w.up g := by
  cases h with
  | resting _ _ _ _ _ _ _ _ _ h => exact hrest h
  | handling _ _ _ _ _ _ _ h => exact h.holds hasks hnames fun h => hrest h.1
  | underway _ _ _ _ _ _ _ h => exact h.holds hasks fun h => hrest h.1

end Holds

structure Queries (w : World U) : Prop where
  tags : ∀ m ∈ w.sent, m.tag = .query
  batch : w.sess.extendedBatchOpen = false
  closed : w.sess.closed = false

theorem Queries.moves {ok : Label U → World U → Prop} {l : Label U} (h : Queries w)
    (hw : Reach (system D U) ok w) (hsend : ∀ m, l = .send m → m.tag = .query)
    (hm : Moves D l w w') : Queries w' := by
  cases hm with
  | @send _ m =>
    refine ⟨fun m' hmem => ?_, h.batch, h.closed⟩
    rcases List.mem_append.1 hmem with hmem | hmem
    · exact h.tags m' hmem
    · exact List.mem_singleton.1 hmem ▸ hsend m rfl
  | @front _ now jobID a rest hf =>
    obtain ⟨m, hmem, ha⟩ := (threads hw).head hf
    have htag := h.tags m (List.mem_of_getElem? hmem)
    have hquit : a ≠ .quit := by
      rintro rfl
      cases ha with
      | code ha =>
        obtain rfl : m = .terminate := ha
        cases htag
    refine ⟨h.tags, ?_, (exec_closed hquit).trans h.closed⟩
    by_cases hnote : ∃ t, a = .noteBatchState t
    · obtain ⟨t, rfl⟩ := hnote
      cases ha with
      | code ha =>
        obtain rfl : t = m.tag := ha
        rw [htag]
        rfl
    · exact (exec_extendedBatchOpen fun t ht => hnote ⟨t, ht⟩).trans h.batch
  | @back _ a rest hb =>
    have hmode := (threads hw).back
    rw [hb] at hmode
    exact ⟨h.tags, (exec_extendedBatchOpen (backMode_not_notes hmode)).trans h.batch,
      (backMode_closed hmode).trans h.closed⟩
  | _ => exact ⟨h.tags, h.batch, h.closed⟩

theorem queries (htags : ∀ m, C.sends m → m.tag = .query) (hw : Reach (system D U) C.Allows w) :
    Queries w := by
  induction hw with
  | init => exact ⟨by simp [system, World.start], rfl, rfl⟩
  | @step l w w' hw hok hs ih =>
    refine ih.moves hw (fun m hm => ?_) (moves_of_step hs)
    subst hm
    exact htags m hok.1

theorem Moves.step {l : Label U} (h : Moves D l w w') : step D l w = some w' := by
  cases h with
  | send => rfl
  | readClient hf hi hc => simp [Proxy.step, hf, hi, hc]
  | front hf => simp only [Proxy.step, hf]
  | readUpstream hb hu hc => simp [Proxy.step, hb, hu, hc]
  | back hb => simp only [Proxy.step, hb]
  | answer hq => simp only [Proxy.step, hq]

section Enabled

variable (hnames : ∃ jobID, C.names jobID)
include hnames

theorem enabled_front {a : Act} {rest : List Act} (hf : w.front = a :: rest) :
    ∃ l w', (∀ m, l ≠ .send m) ∧ C.Allows l w ∧ step D l w = some w' := by
  obtain ⟨jobID, hname⟩ := hnames
  exact ⟨.front 0 jobID, _, by simp, hname, Moves.step (.front hf)⟩

theorem Settles.enabled {s : Session} {qs : List Request}
    {post : Session → U.State → γ → List Delivery → Prop}
    (hanswers : ∀ {u g q}, C.asks u g q → ∃ c, C.answers u q c) (hclosed : w.sess.closed = false)
    (hp : Poised D w s qs) (h : Settles D C post s w.up g w.back w.fromUp qs es) :
    ∃ l w', (∀ m, l ≠ .send m) ∧ C.Allows l w ∧ step D l w = some w' := by
  cases hf : w.front with
  | cons a rest => exact enabled_front hnames hf
  | nil =>
    cases hb : w.back with
    | cons a rest => exact ⟨.back, _, by simp, trivial, Moves.step (.back hb)⟩
    | nil =>
      cases hu : w.fromUp with
      | cons r rest =>
        exact ⟨.readUpstream, _, by simp, trivial, Moves.step (.readUpstream hb hu hclosed)⟩
      | nil =>
        rw [hb, hu] at h
        generalize hup : w.up = up at h
        cases h with
        | @answer _ _ _ q qs _ hasks _ =>
          obtain ⟨c, hc⟩ := hanswers hasks
          have hq : w.toUp = q :: qs := by
            generalize hqs : q :: qs = Q at hp
            cases hp with
            | quieted => rfl
            | saving hfront => simp [hf] at hfront
          refine ⟨.answer c, _, by simp, fun q' hq' => ?_, Moves.step (.answer hq)⟩
          rw [hq] at hq'
          cases hq'
          exact hup ▸ hc

theorem Progress.enabled (hanswers : ∀ {u g q}, C.asks u g q → ∃ c, C.answers u q c)
    (htold : ∀ {m u es v}, told m u es v → es.countP (·.msg.isReady) = 1)
    (hclosed : w.sess.closed = false) (h : Progress D C R told w g)
    (hleft : w.sent.length ≠ w.got.countP (·.msg.isReady)) :
    ∃ l w', (∀ m, l ≠ .send m) ∧ C.Allows l w ∧ step D l w = some w' := by
  cases h with
  | underway m u es s qs _ hp hs => exact hs.enabled hnames hanswers hclosed hp
  | handling m u es _ _ _ _ hh =>
    cases hf : w.front with
    | cons a rest => exact enabled_front hnames hf
    | nil =>
      rw [hf] at hh
      cases hh
  | resting ms hd hsent =>
    cases hf : w.front with
    | cons a rest => exact enabled_front hnames hf
    | nil =>
      cases hi : w.inbox with
      | cons m rest =>
        exact ⟨.readClient, _, by simp, trivial, Moves.step (.readClient hf hi hclosed)⟩
      | nil =>
        rw [hsent, hi, List.append_nil, hd.readies htold] at hleft
        exact absurd rfl hleft

end Enabled

theorem progress (hinit : R (.new D) U.init g) (htags : ∀ m, C.sends m → m.tag = .query)
    (htold : ∀ {m u es v}, told m u es v → es.countP (·.msg.isReady) = 1)
    (hhandles : ∀ {s u g m} n, R s u g → C.sends m → Handles D C (Concludes R told m u) s u g
      (pumpFrontend n m) []) {w : World U × γ}
    (hw : Reach ((system D U).watched g C.note) (fun l w => C.Allows l w.1) w) :
    Progress D C R told w.1 w.2 := by
  induction hw with
  | init =>
    exact .resting [] .nil rfl (Nat.zero_le _) (by simp [System.watched, system, World.start])
      (.inl rfl) rfl rfl rfl hinit
  | @step l w w' hw hok hs ih =>
    obtain ⟨w', g'⟩ := w'
    obtain ⟨hstep, hnote⟩ := System.watched_step.1 hs
    have hbatch := (queries htags (hw.unwatched fun _ _ h => h)).batch
    exact hnote ▸ ih.moves htold hhandles hbatch hok (moves_of_step hstep)

end Sound

section Digest

variable {post : Session → U.State → γ → List Delivery → Prop} {s : Session} {up : U.State} {g : γ}
  {o : Origin}
  {m : Backend} {ms : List Backend} {st : TxStatus} {rs : List Reply} {qs : List Request}
    {ds : List Delivery}

theorem settles_failure {f : Armed} (hh : s.hidden = none) (hf : s.failure = some f)
    (hs : f.failure.swallow ≤ s.failureRFQs + 1) (hms : ∀ m ∈ ms, m.isReady = false)
    (h : post
      { s with failure := none, failureRFQs := 0, pendingExchanges := s.pendingExchanges - 1 }
      up g (ds ++ [⟨.failure f.id, .ready f.failure.status⟩])) :
    Settles D C post s up g [] (ms.map (Reply.mk o) ++ [⟨o, .ready st⟩]) [] ds := by
  induction ms with
  | nil =>
    refine .read (.act (by simp) (.act (by simp [hh]) ?_))
    simp only [Act.exec, hh]
    refine .act (by simp [hf]) ?_
    simp only [Act.exec, hf, Backend.isReady, if_true]
    refine .act (by simp [hs]) ?_
    simp only [Act.exec, hs, if_true]
    exact .last rfl (by simpa [hh] using h)
  | cons m ms ih =>
    have hm : m.isReady = false := hms m List.mem_cons_self
    refine .read ?_
    simp only [pumpBackend, hm, Bool.false_eq_true, if_false]
    refine .act (by simp [hh]) ?_
    simp only [Act.exec, hh]
    refine .act (by simp [hf]) ?_
    simp only [Act.exec, hf, hm, Bool.false_eq_true, if_false, List.append_nil, List.nil_append]
    exact ih fun x hx => hms x (List.mem_cons_of_mem _ hx)

theorem settles_hidden {k : Nat} {x : Exchange} (hh : s.hidden = some ⟨k, x⟩)
    (hms : ∀ m ∈ ms, m.isReady = false)
    (h : Settles D C post { s with hidden := none, pendingExchanges := s.pendingExchanges - 1 } up g
      ((ms.foldl Exchange.note x).finish D) [] qs
      (ds ++ (ms.filter x.passes).map (Delivery.mk (.relayed o)))) :
    Settles D C post s up g [] (ms.map (Reply.mk o) ++ [⟨o, .ready st⟩]) qs ds := by
  induction ms generalizing s x ds with
  | nil =>
    refine .read (.act (by simp) (.act (by simp [hh]) ?_))
    simp only [Act.exec, hh, Backend.isReady, if_true]
    refine .act (by simp) ?_
    simpa using h
  | cons m ms ih =>
    have hm : m.isReady = false := hms m List.mem_cons_self
    have hrest : ∀ m ∈ ms, m.isReady = false := fun x hx => hms x (List.mem_cons_of_mem _ hx)
    have hfilter : ms.filter (x.note m).passes = ms.filter x.passes := by
      congr 1
      funext m'
      exact passes_note x m m'
    refine .read ?_
    simp only [pumpBackend, hm, Bool.false_eq_true, if_false]
    refine .act (by simp [hh, hm]) ?_
    simp only [Act.exec, hh, hm, Bool.false_eq_true, if_false, List.append_nil]
    cases hp : x.passes m with
    | true =>
      refine .act (by simp [hm]) ?_
      simp only [Act.exec, List.append_nil]
      refine ih rfl hrest ?_
      rw [hfilter, List.append_assoc]
      simpa [hp] using h
    | false =>
      simp only [Bool.false_eq_true, if_false]
      refine ih rfl hrest ?_
      rw [hfilter]
      simpa [hp] using h

theorem settles_relay (hh : s.hidden = none) (hf : s.failure = none) (hr : s.occRepair = none)
    (hm : m.isReady = false) (h : Settles D C post s up g (relay D ⟨o, m⟩) rs qs ds) :
    Settles D C post s up g [] (⟨o, m⟩ :: rs) qs ds := by
  refine .read ?_
  simp only [pumpBackend, hm, Bool.false_eq_true, if_false]
  refine .act (by simp [hh]) ?_
  simp only [Act.exec, hh]
  refine .act (by simp [hf, hm]) ?_
  simp only [Act.exec, hf, hm, Bool.false_eq_true, if_false]
  refine .act (by simp [hr]) ?_
  simpa [hr] using h

theorem settles_write {d : Delivery} (hd : d.msg.isReady = false)
    (h : Settles D C post s up g [] rs qs (ds ++ [d])) :
    Settles D C post s up g [.writeClient d] rs qs ds :=
  .act (by simpa using hd) (by simpa using h)

theorem settles_shown (hh : s.hidden = none) (hf : s.failure = none) (hr : s.occRepair = none)
    (hms : ∀ m ∈ ms, m.isReady = false ∧ m.isOutcome = false)
    (h : ∀ job es, (∀ d ∈ es, d.msg.isReady = false ∧ d.msg.isOutcome = false) →
      Settles D C post { s with job } up g [] rs qs (ds ++ es)) :
    Settles D C post s up g [] (ms.map (Reply.mk o) ++ rs) qs ds := by
  induction ms generalizing s ds with
  | nil => simpa using h s.job [] (by simp)
  | cons m ms ih =>
    obtain ⟨hready, houtcome⟩ := hms m List.mem_cons_self
    have hnext (job : Option JobResult) (d : Delivery)
      (hd : d.msg.isReady = false ∧ d.msg.isOutcome = false) :
        Settles D C post { s with job } up g [.writeClient d] (ms.map (Reply.mk o) ++ rs)
            qs ds := by
      refine settles_write hd.1
        (ih hh hf hr (fun x hx => hms x (List.mem_cons_of_mem _ hx)) fun job' es hes => ?_)
      rw [List.append_assoc]
      exact h job' (d :: es) (by simpa using ⟨hd, hes⟩)
    refine settles_relay hh hf hr hready ?_
    cases m with
    | ready st => cases hready
    | error e => cases houtcome
    | commandComplete tag => cases houtcome
    | parameterStatus name value =>
      simp only [relay]
      split <;> exact hnext s.job _ ⟨rfl, rfl⟩
    | noData =>
      cases hjob : s.job with
      | none =>
        refine .act (by simp [hjob]) ?_
        simp only [Act.exec, hjob, List.append_nil]
        exact hnext s.job ⟨.relayed o, .noData⟩ ⟨rfl, rfl⟩
      | some job =>
        cases hdescribed : job.described with
        | true =>
          refine .act (by simp [hjob, hdescribed]) ?_
          simp only [Act.exec, hjob, hdescribed, if_true, List.append_nil]
          exact hnext s.job ⟨.relayed o, .noData⟩ ⟨rfl, rfl⟩
        | false =>
          refine .act (by simp [hjob, hdescribed]) ?_
          simpa [hjob, hdescribed] using hnext (some { job with described := true })
            ⟨.relayed o, jobIDRowDescription⟩ ⟨rfl, rfl⟩
    | _ => exact hnext s.job _ ⟨hready, houtcome⟩

theorem settles_complete {tag : String} (hh : s.hidden = none) (hf : s.failure = none)
    (hr : s.occRepair = none)
    (h : ∀ job pendingCommandTag es tag, (∀ d ∈ es, d.msg.isReady = false ∧ d.msg.isOutcome =
      false) → Settles D C post { s with job, pendingCommandTag } up g [] rs qs
      (ds ++ (es ++ [⟨.relayed o, .commandComplete tag⟩]))) :
    Settles D C post s up g [] (⟨o, .commandComplete tag⟩ :: rs) qs ds := by
  refine settles_relay hh hf hr rfl (.act ?_ ?_)
  · dsimp only [Act.exec]
    split <;> simp
  · cases htag : decide (s.pendingCommandTag = "") with
    | false =>
      simp only [Act.exec, of_decide_eq_false htag, if_false]
      exact settles_write rfl (by simpa using h s.job "" [] s.pendingCommandTag (by simp))
    | true =>
      simp only [Act.exec, of_decide_eq_true htag, if_true]
      cases hjob : s.job with
      | none =>
        refine .act (by simp [hjob]) ?_
        simp only [Act.exec, hjob]
        refine settles_write rfl ?_
        simp only [List.append_nil]
        exact h s.job s.pendingCommandTag [] tag (by simp)
      | some job =>
        by_cases hpos : 0 < job.precedingTags
        · refine .act (by simp [hjob, hpos]) ?_
          simp only [Act.exec, hjob, hpos, if_true]
          refine settles_write rfl ?_
          simpa using h (some { job with precedingTags := job.precedingTags - 1 })
            s.pendingCommandTag [] tag (by simp)
        · refine .act (by simp [hjob, hpos]) ?_
          simp only [Act.exec, hjob, hpos, if_false]
          cases hdescribed : job.described with
          | true =>
            refine .act (by simp [jobIDDataRow, Backend.isReady]) (settles_write rfl ?_)
            simpa using h none s.pendingCommandTag [⟨.relayed o, jobIDDataRow job.jobID⟩] tag
              (by simp [jobIDDataRow, Backend.isReady, Backend.isOutcome, Backend.isError,
                Backend.isComplete])
          | false =>
            refine .act (by simp [jobIDRowDescription, Backend.isReady])
              (.act (by simp [jobIDDataRow, Backend.isReady]) (settles_write rfl ?_))
            simpa using h none s.pendingCommandTag [⟨.relayed o, jobIDRowDescription⟩,
              ⟨.relayed o, jobIDDataRow job.jobID⟩] tag
              (by simp [jobIDDataRow, jobIDRowDescription, Backend.isReady, Backend.isOutcome,
                Backend.isError, Backend.isComplete])

theorem settles_error {e : ErrorFields} (hh : s.hidden = none) (hf : s.failure = none)
    (hr : s.occRepair = none) (hkeep : ∀ e, Settles D C post { s with job := none } up g [] rs qs
      (ds ++ [⟨.relayed o, .error e⟩]))
    (htake : ∀ repair, s.occInFlight = some repair → s.tracker.inTxn = true →
      Settles D C post { s with job := none, occRepair := some repair, occInFlight := none } up g
      [] rs qs ds) : Settles D C post s up g [] (⟨o, .error e⟩ :: rs) qs ds := by
  refine settles_relay hh hf hr rfl (.act (by simp) ?_)
  simp only [Act.exec, List.append_nil, List.nil_append]
  cases hconflict : isConflict e.code with
  | false => exact settles_write rfl (hkeep e)
  | true =>
    refine .act (by simp) ?_
    simp only [Act.exec, List.append_nil]
    cases htakes : (s.occSavepoint || s.occTxnStatements ≤ 1) && s.tracker.inTxn &&
        s.occInFlight.isSome && s.pendingExchanges ≤ 1 with
    | false =>
      refine .act (by simp [htakes, Backend.isReady]) ?_
      simp only [Act.exec, htakes, Bool.false_eq_true, if_false, List.append_nil]
      exact settles_write rfl (hkeep _)
    | true =>
      refine .act (by simp [htakes]) ?_
      simp only [Act.exec, htakes, if_true, List.append_nil]
      simp only [Bool.and_eq_true] at htakes
      obtain ⟨repair, hrepair⟩ := Option.isSome_iff_exists.1 htakes.1.2
      rw [hrepair]
      exact htake repair hrepair htakes.1.1.2

def Session.readied (s : Session) (st : TxStatus) : Session :=
  let s := { s with pendingExchanges := s.pendingExchanges - 1, job := none, txStatus := st }
  if st = .idle then
    { s with occSavepoint := false, occDoomed := false, occInFlight := none, occTxnStatements := 0 }
    else s

theorem settles_ready (hh : s.hidden = none) (hf : s.failure = none) (hr : s.occRepair = none)
    (h : post (s.readied st) up g (ds ++ [⟨.relayed o, .ready st⟩])) :
    Settles D C post s up g [] [⟨o, .ready st⟩] [] ds := by
  refine .read (.act (by simp) (.act (by simp [hh]) ?_))
  simp only [Act.exec, hh]
  refine .act (by simp [hf]) ?_
  simp only [Act.exec, hf, Backend.isReady, if_true, relay]
  refine .act (by simp) ?_
  simp only [Act.exec]
  refine .act (by simp [hr]) ?_
  simp only [Act.exec, hr]
  refine .act (by simp) (.act ?_ ?_)
  · dsimp only [Act.exec]
    split <;> simp
  · simp only [Act.exec]
    have hlast : post (s.readied st) up g (ds ++ [⟨.relayed o, .ready st⟩]) := h
    cases hidle : decide (st = .idle) with
    | true =>
      obtain rfl := of_decide_eq_true hidle
      exact .last rfl (by simpa [Session.readied, hh, hf, hr] using hlast)
    | false =>
      have hne := of_decide_eq_false hidle
      simp only [hne, if_false]
      exact .last rfl (by simpa [Session.readied, hne, hh, hf, hr] using hlast)

theorem settles_swallow {repair : InFlight} (hh : s.hidden = none) (hf : s.failure = none)
    (hr : s.occRepair = some repair) (hms : ∀ m ∈ ms, m.isReady = false)
    (h : Settles D C post s up g [] rs qs ds) :
    Settles D C post s up g [] (ms.map (Reply.mk o) ++ rs) qs ds := by
  induction ms with
  | nil => exact h
  | cons m ms ih =>
    have hm : m.isReady = false := hms m List.mem_cons_self
    refine .read ?_
    simp only [pumpBackend, hm, Bool.false_eq_true, if_false]
    refine .act (by simp [hh]) ?_
    simp only [Act.exec, hh]
    refine .act (by simp [hf, hm]) ?_
    simp only [Act.exec, hf, hm, Bool.false_eq_true, if_false]
    refine .act (by simp [hr]) ?_
    simpa [hr] using ih fun x hx => hms x (List.mem_cons_of_mem _ hx)

theorem settles_takeover {repair : InFlight} (hh : s.hidden = none) (hf : s.failure = none)
    (hr : s.occRepair = some repair) (h : Settles D C post
      { s with pendingExchanges := s.pendingExchanges - 1 + 1, job := none, occRepair := none,
               occDoomed := true, txStatus := .active,
               hidden := some ⟨s.serial, .restore repair false⟩, serial := s.serial + 1 }
      up g [] [] [⟨.hidden .restore s.serial,
        if s.occSavepoint then rollbackToQuery else restartQuery⟩] ds) :
    Settles D C post s up g [] [⟨o, .ready st⟩] [] ds := by
  refine .read (.act (by simp) (.act (by simp [hh]) ?_))
  simp only [Act.exec, hh]
  refine .act (by simp [hf]) ?_
  simp only [Act.exec, hf, Backend.isReady, if_true, relay]
  refine .act (by simp) ?_
  simp only [Act.exec]
  refine .act (by simp [hr]) ?_
  simp only [Act.exec, hr]
  refine .act (by simp) (.act (by simp) (.act (by simp) (.act (by simp) ?_)))
  simpa [Exchange.purpose, hf] using h

end Digest

end Proxy

end DsqlEmulator
