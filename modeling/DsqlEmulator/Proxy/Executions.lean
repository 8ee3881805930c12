import DsqlEmulator.Slot
import DsqlEmulator.Proxy.Threads

/-! What the upstream runs at each request, and the signals of its answers: the messages
at which the backend pump looks at a slot of the session. -/

namespace DsqlEmulator.Proxy

open Wire Occ Txn Runs

variable {U : Upstream} {D : Dialect}

section Holdings

structure Holdings where
  stmts : String → Option Request := fun _ => none
  portals : String → Option Request := fun _ => none

def Holdings.runs (h : Holdings) (q : Request) : Option Request :=
  match q.msg with
  | .query _ => some q
  | .execute portal => h.portals portal
  | _ => none

def Holdings.describes (h : Holdings) (q : Request) : Option Request :=
  match q.msg with
  | .describe true name => h.stmts name
  | .describe false portal => h.portals portal
  | _ => none

def Holdings.answered (h : Holdings) (q : Request) (ms : List Backend) : Holdings :=
  match q.msg with
  | .query _ => ⟨Function.update h.stmts "" none, Function.update h.portals "" none⟩
  | .parse name _ =>
    if .parseComplete ∈ ms then { h with stmts := Function.update h.stmts name (some q) } else h
  | .bind b =>
    if .bindComplete ∈
      ms then { h with portals := Function.update h.portals b.portal (h.stmts b.statement) } else h
  | .close true name =>
    if .closeComplete ∈ ms then { h with stmts := Function.update h.stmts name none } else h
  | .close false portal =>
    if .closeComplete ∈ ms then { h with portals := Function.update h.portals portal none } else h
  | _ => h

end Holdings

/-- The messages at which the backend pump looks at the job or the pending command tag. -/
inductive Signal : Type
  | complete | noData | clear
  deriving DecidableEq, Repr

def Backend.signal : Backend → Option Signal
  | .commandComplete _ => some .complete
  | .noData => some .noData
  | .error _ | .ready _ => some .clear
  | _ => none

def Act.signal (late : Bool) : Act → Option Signal
  | .consumeHidden r | .failureActive r | .repairPending r => Backend.signal r.msg
  | .markJobDescribed _ => some .noData
  | .takeJob => some .clear
  | .rewriteCommandTag _ _ => some .complete
  | .claimJob _ _ => if late then some .complete else none
  | _ => none

def World.signals (late : Bool) (w : World U) : List Signal :=
  w.back.filterMap (Act.signal late) ++ w.fromUp.filterMap fun r => Backend.signal r.msg

section Signals

variable {late : Bool} {a : Act} {rest : List Act} {s : Session}

theorem pumpBackend_signal (r : Reply) :
    (pumpBackend r).filterMap (Act.signal late) = (Backend.signal r.msg).toList := by
  rw [pumpBackend]
  split <;> rfl

theorem relay_signal (r : Reply) :
    (relay D r).filterMap (Act.signal late) = (Backend.signal r.msg).toList := by
  cases hr : r.msg with
  | error e => cases hc : isConflict e.code <;> simp [relay, hr, hc, Act.signal, Backend.signal]
  | _ => simp [relay, hr, Act.signal, Backend.signal]

theorem RepairAct.signal (h : RepairAct a) : a.signal late = none := by
  cases h with
  | code h => cases a <;> first | rfl | cases h
  | _ => rfl

theorem FrontAct.signal {n : Nat} {m : Frontend} (h : FrontAct n m a) : a.signal late = none := by
  cases h with
  | code h => cases a <;> first | rfl | cases h
  | _ => rfl

theorem exec_signal (late : Bool) (h : BackMode (a :: rest)) :
    (a.exec D 0 "" s).next.filterMap (Act.signal late) = (a.signal late).toList ∨
      (a.exec D 0 "" s).next.filterMap (Act.signal late) = [] := by
  cases h with
  | reading => exact .inr rfl
  | offering =>
    dsimp only [Act.exec]
    split
    · exact .inl rfl
    · split
      · exact .inr rfl
      · dsimp only
        split <;> exact .inr rfl
  | @checking r =>
    dsimp only [Act.exec]
    split
    · dsimp only
      split <;> exact .inr rfl
    · split
      · exact .inl (relay_signal r)
      · exact .inl rfl
  | @pending r =>
    dsimp only [Act.exec]
    split
    · exact .inr rfl
    · exact .inl (relay_signal r)
  | failing =>
    dsimp only [Act.exec]
    (repeat' split) <;> exact .inr rfl
  | failed => exact .inr rfl
  | ending =>
    exact .inr (List.filterMap_eq_nil_iff.2 fun b hb =>
      (RepairAct.code (finish_repair _ b hb)).signal)
  | readying => exact .inr rfl
  | starting =>
    dsimp only [Act.exec]
    split <;> exact .inr rfl
  | restoring => exact .inr rfl
  | relaying h =>
    have ha := h a List.mem_cons_self
    cases a with
    | rewriteCommandTag o tag =>
      dsimp only [Act.exec]
      split
      · cases late
        · exact .inr rfl
        · exact .inl rfl
      · exact .inr rfl
    | claimJob o tag =>
      dsimp only [Act.exec]
      (repeat' split) <;> exact .inr rfl
    | _ => first | exact ha.elim | (dsimp only [Act.exec]; (repeat' split) <;> exact .inr rfl)
  | repairing h =>
    exact .inr (List.filterMap_eq_nil_iff.2 fun b hb =>
      (exec_repair (h a List.mem_cons_self) b hb).signal)

def World.news (l : Label U) (w : World U) : List Signal :=
  match l with
  | .answer c => w.toUp.head?.elim [] fun q => (U.answer w.up q.msg c).2.filterMap Backend.signal
  | _ => []

def Act.spent (D : Dialect) (late : Bool) (s : Session) (a : Act) : Bool :=
  (a.signal late).isSome && (a.exec D 0 "" s).next.filterMap (Act.signal late) = []

def World.spending (D : Dialect) (late : Bool) (l : Label U) (w : World U) : Option Act :=
  match l with
  | .back => w.back.head?.filter (Act.spent D late w.sess)
  | _ => none

theorem World.spending_some {l : Label U} {w : World U} (h : w.spending D late l = some a) :
    l = .back ∧ a.spent D late w.sess = true ∧ ∃ rest, w.back = a :: rest := by
  cases l with
  | back =>
    obtain ⟨hhead, hs⟩ := Option.filter_eq_some_iff.1 h
    obtain ⟨rest, hb⟩ := List.head?_eq_some_iff.1 hhead
    exact ⟨rfl, hs, rest, hb⟩
  | _ => cases h

theorem Act.spent_iff : a.spent D late s = true ↔
    (a.signal late).isSome = true ∧ (a.exec D 0 "" s).next.filterMap (Act.signal late) = [] := by
  rw [spent, Bool.and_eq_true, decide_eq_true_iff]

theorem Moves.signals_spent {l : Label U} {w w' : World U} (hm : Moves D l w w')
    (h : w.spending D late l = some a) :
    ∃ k, a.signal late = some k ∧ w.signals late = k :: w'.signals late := by
  obtain ⟨rfl, hs, rest, hb⟩ := World.spending_some h
  obtain ⟨hsome, hnext⟩ := Act.spent_iff.1 hs
  obtain ⟨k, hk⟩ := Option.isSome_iff_exists.1 hsome
  refine ⟨k, hk, ?_⟩
  cases hm with
  | back hb' =>
    obtain ⟨rfl, rfl⟩ := List.cons.inj (hb.symm.trans hb')
    rw [World.signals, World.signals, World.applyBack, hb, List.filterMap_append, hnext,
      List.filterMap_cons_some hk]
    rfl

theorem Moves.signals_kept {l : Label U} {w w' : World U} (hm : Moves D l w w') (ht : Threads w)
    (h : w.spending D late l = none) : w'.signals late = w.signals late ++ w.news l := by
  cases hm with
  | @answer _ c q rest hq =>
    simp only [World.news, hq, List.head?_cons, Option.elim_some, World.signals, World.applyAnswer,
      List.filterMap_append, List.filterMap_map, List.append_assoc]
    rfl
  | @readUpstream _ r rest hb hu _ =>
    change _ = w.signals late ++ []
    rw [List.append_nil, World.signals, World.signals, hb, hu, pumpBackend_signal]
    cases hk : Backend.signal r.msg <;> simp [hk]
  | @back _ a rest hb =>
    change _ = w.signals late ++ []
    rw [List.append_nil, World.signals, World.signals, World.applyBack, hb, List.filterMap_append]
    have hnot : a.spent D late w.sess = false := by
      cases hs : a.spent D late w.sess with
      | false => rfl
      | true =>
        rw [World.spending, hb, List.head?_cons, Option.filter_some, if_pos hs] at h
        cases h
    have hkeep : (a.exec D 0 "" w.sess).next.filterMap (Act.signal late) =
        (a.signal late).toList := by
      obtain hk | hk := exec_signal (D := D) (s := w.sess) late (hb ▸ ht.back)
      · exact hk
      · cases hsig : a.signal late with
        | none => exact hk
        | some k =>
          exact absurd (Act.spent_iff.2 ⟨by rw [hsig]; rfl, hk⟩)
            (by rw [hnot]; exact Bool.false_ne_true)
    rw [hkeep]
    cases hsig : a.signal late with
    | none => rw [List.filterMap_cons_none hsig]; rfl
    | some k => rw [List.filterMap_cons_some hsig]; rfl
  | _ => exact (List.append_nil _).symm

end Signals

structure Reader (D : Dialect) (τ σ ο : Type) where
  late : Bool
  slot : Session → σ
  react : σ → Signal × τ → σ × ο
  arms : Session → Act → Bool
  handles : Act → Bool
  outcome : Session → Act → ο
  truth : List Frontend → Holdings → Request → List Signal → List (Signal × τ)
  Right : (Signal × τ) × ο → Prop
  arms_signal : ∀ s a, arms s a = true → a.signal late = none
  truth_signals : ∀ sent held q ks, (truth sent held q ks).map Prod.fst = ks
  handles_eq : ∀ s a k t, handles a = true → a.spent D late s = true → a.signal late = some k →
    (slot (a.exec D 0 "" s).sess, outcome s a) = react (slot s) (k, t)
  slot_eq : ∀ s a now jobID, arms s a = false → (handles a && a.spent D late s) = false →
    slot (a.exec D now jobID s).sess = slot s

section Reader

variable {τ σ ο : Type} (R : Reader D τ σ ο)

structure Record (τ σ ο : Type) where
  held : Holdings := {}
  line : List (Signal × τ) := []
  log : List ((Signal × τ) × ο) := []
  now : σ

def World.holds (l : Label U) (w : World U) (held : Holdings) : Holdings :=
  match l with
  | .answer c => w.toUp.head?.elim held fun q => held.answered q (U.answer w.up q.msg c).2
  | _ => held

def Reader.sends (l : Label U) (w : World U) (held : Holdings) : List (Signal × τ) :=
  w.toUp.head?.elim [] fun q => R.truth w.sent held q (w.news l)

def Label.effect (D : Dialect) (w : World U) : Label U → Option Effect
  | .front now jobID => w.front.head?.map (Act.exec D now jobID w.sess)
  | .back => w.back.head?.map (Act.exec D 0 "" w.sess)
  | _ => none

def Reader.arming (l : Label U) (w : World U) : Bool := (l.act w).any (R.arms w.sess)

def Reader.note (l : Label U) (w : World U) (g : Record τ σ ο) : Record τ σ ο where
  held := w.holds l g.held
  line := if (w.spending D R.late l).isSome then g.line.tail else g.line ++ R.sends l w g.held
  log := g.log ++ ((w.spending D R.late l).bind fun a => g.line.head?.map fun e =>
    (e, R.outcome w.sess a)).toList
  now := if R.arming l w then (l.effect D w).elim g.now fun e => R.slot e.sess
    else Slot.after R.react g.now (R.sends l w g.held)

structure Reader.Ok (l : Label U) (w : World U × Record τ σ ο) : Prop where
  arming : R.arming l w.1 = true → ∀ e ∈ w.2.line, ∀ s, (R.react s e).1 = s ∧
    R.Right (e, (R.react s e).2)
  sends : ∀ p ∈ Slot.outcomes R.react w.2.now (R.sends l w.1 w.2.held), R.Right p
  missed : ∀ a ∈ w.1.spending D R.late l, R.handles a = false → ∀ e ∈ w.2.line.head?,
    (R.react (R.slot w.1.sess) e).1 = R.slot w.1.sess ∧ R.Right (e, R.outcome w.1.sess a)

structure Reader.Follows (w : World U × Record τ σ ο) : Prop where
  threads : Threads w.1
  line : w.2.line.map Prod.fst = w.1.signals R.late
  lagging : Slot.Lagging R.react R.Right (R.slot w.1.sess) w.2.line w.2.log w.2.now

variable {R}

theorem Reader.sends_signals (l : Label U) (w : World U) (held : Holdings) :
    (R.sends l w held).map Prod.fst = w.news l := by
  rw [sends]
  cases hq : w.toUp.head? with
  | some q => exact R.truth_signals _ _ _ _
  | none =>
    cases l with
    | answer c => rw [World.news, hq]; rfl
    | _ => rfl

theorem Reader.sends_nil {l : Label U} {w : World U} {held : Holdings} (h : w.news l = []) :
    R.sends l w held = [] :=
  List.map_eq_nil_iff.1 ((R.sends_signals l w held).trans h)

theorem Reader.arming_effect {l : Label U} {w w' : World U} (hm : Moves D l w w')
    (harm : R.arming l w = true) :
    w.news l = [] ∧ ∃ e, l.effect D w = some e ∧ w'.sess = e.sess := by
  cases hm with
  | front hf => exact ⟨rfl, _, by rw [Label.effect, hf]; rfl, rfl⟩
  | back hb => exact ⟨rfl, _, by rw [Label.effect, hb]; rfl, rfl⟩
  | _ => cases harm

theorem Reader.slot_moves {l : Label U} {w w' : World U} (hm : Moves D l w w') (ht : Threads w)
    (harm : R.arming l w = false) (hspend : ∀ a ∈ w.spending D R.late l, R.handles a = false) :
    R.slot w'.sess = R.slot w.sess := by
  cases hm with
  | @front _ now jobID a rest hf =>
    rw [Reader.arming, Label.act, hf, List.head?_cons, Option.any_some] at harm
    refine R.slot_eq _ _ _ _ harm ?_
    obtain ⟨m, _, hact⟩ := ht.head hf
    rw [Act.spent, hact.signal, Option.isSome_none, Bool.false_and, Bool.and_false]
  | @back _ a rest hb =>
    rw [Reader.arming, Label.act, hb, List.head?_cons, Option.any_some] at harm
    refine R.slot_eq _ _ _ _ harm ?_
    rw [World.spending, hb, List.head?_cons] at hspend
    cases hs : a.spent D R.late w.sess with
    | false => rw [Bool.and_false]
    | true => rw [hspend a (Option.filter_eq_some_iff.2 ⟨rfl, hs⟩), Bool.false_and]
  | _ => rfl

theorem Reader.Follows.moves {l : Label U} {w w' : World U} {g : Record τ σ ο}
    (h : R.Follows (w, g)) (hok : R.Ok l (w, g)) (hm : Moves D l w w') :
    R.Follows (w', R.note l w g) := by
  cases hspend : w.spending D R.late l with
  | some a =>
    obtain ⟨rfl, hspent, rest, hb⟩ := World.spending_some hspend
    obtain ⟨k, hk, hsig⟩ := hm.signals_spent hspend
    have harm : R.arming .back w = false := by
      rw [Reader.arming, Label.act, hb, List.head?_cons, Option.any_some]
      cases ha : R.arms w.sess a with
      | false => rfl
      | true => rw [R.arms_signal _ _ ha] at hk; cases hk
    have hsends : R.sends .back w g.held = [] := Reader.sends_nil rfl
    have hline : g.line.map Prod.fst = k :: w'.signals R.late := h.line.trans hsig
    obtain ⟨e, line, hg, rfl, hrest⟩ := List.map_eq_cons_iff.1 hline
    have hnote : R.note .back w g =
        { held := g.held, line, log := g.log ++ [(e, R.outcome w.sess a)], now := g.now } := by
      simp only [Reader.note, hspend, harm, hsends, hg]
      rfl
    have hlag : Slot.Lagging R.react R.Right (R.slot w.sess) g.line g.log g.now := h.lagging
    rw [hg] at hlag
    rw [hnote]
    refine ⟨h.threads.moves hm, hrest, ?_⟩
    cases hh : R.handles a with
    | true =>
      obtain ⟨hslot, hout⟩ := Prod.ext_iff.1 (R.handles_eq w.sess a e.1 e.2 hh hspent hk)
      cases hm with
      | back hb' =>
        obtain ⟨rfl, rfl⟩ := List.cons.inj (hb.symm.trans hb')
        have hnext := hlag.handle
        rw [← hslot, ← hout] at hnext
        exact hnext
    | false =>
      have hslot := Reader.slot_moves hm h.threads harm fun b hb => by
        obtain rfl : a = b := Option.some.inj (hspend.symm.trans hb)
        exact hh
      obtain ⟨hsame, hright⟩ := hok.missed a hspend hh e (by rw [hg]; rfl)
      change Slot.Lagging R.react R.Right (R.slot w'.sess) line _ g.now
      rw [hslot]
      exact hlag.miss hsame hright
  | none =>
    have hline : (R.note l w g).line = g.line ++ R.sends l w g.held := by
      simp only [Reader.note, hspend]
      rfl
    have hlog : (R.note l w g).log = g.log := by
      simp only [Reader.note, hspend]
      exact List.append_nil _
    have hmap : (R.note l w g).line.map Prod.fst = w'.signals R.late := by
      rw [hline, List.map_append, Reader.sends_signals, hm.signals_kept h.threads hspend]
      exact congrArg (· ++ _) h.line
    refine ⟨h.threads.moves hm, hmap, ?_⟩
    rw [hline, hlog]
    cases harm : R.arming l w with
    | true =>
      obtain ⟨hnews, e, he, hsess⟩ := Reader.arming_effect hm harm
      have hnow : (R.note l w g).now = R.slot w'.sess := by
        simp only [Reader.note, harm, he, hsess]
        rfl
      rw [Reader.sends_nil hnews, List.append_nil, hnow]
      exact .of_blind h.lagging.log (hok.arming harm) _
    | false =>
      have hslot := Reader.slot_moves hm h.threads harm fun a ha => by rw [hspend] at ha; cases ha
      have hnow : (R.note l w g).now = Slot.after R.react g.now (R.sends l w g.held) := by
        simp only [Reader.note, harm]
        rfl
      change Slot.Lagging R.react R.Right (R.slot w'.sess) _ _ _
      rw [hnow, hslot]
      exact h.lagging.send hok.sends

theorem Reader.Follows.head_signal {l : Label U} {w : World U × Record τ σ ο} {a : Act}
    {e : Signal × τ} (h : R.Follows w) (ha : a ∈ w.1.spending D R.late l)
    (he : e ∈ w.2.line.head?) : a.signal R.late = some e.1 := by
  obtain ⟨-, hs, rest, hb⟩ := World.spending_some ha
  obtain ⟨k, hk⟩ := Option.isSome_iff_exists.1 (Act.spent_iff.1 hs).1
  obtain ⟨line, hline⟩ := List.head?_eq_some_iff.1 he
  have hmap := h.line
  rw [hline, World.signals, hb, List.filterMap_cons_some hk, List.map_cons, List.cons_append]
    at hmap
  rw [hk, (List.cons.inj hmap).1]

variable (R) in
def Reader.watch (U : Upstream) : System (World U × Record τ σ ο) (Label U) :=
  (system D U).watched { now := R.slot (.new D) } R.note

theorem Reader.follows {ok : Label U → World U × Record τ σ ο → Prop}
    (hok : ∀ l w, R.Follows w → ok l w → R.Ok l w) {w : World U × Record τ σ ο}
    (hw : Reach (R.watch U) ok w) : R.Follows w := by
  refine hw.invariant (I := R.Follows) ⟨.start, rfl, rfl, ?_, ?_⟩ ?_
  · exact fun p hp => absurd hp List.not_mem_nil
  · exact fun p hp => absurd hp List.not_mem_nil
  · rintro l ⟨w, g⟩ ⟨w', g'⟩ h hl hs
    obtain ⟨hs, rfl⟩ := System.watched_step.1 hs
    exact h.moves (hok l (w, g) h hl) (moves_of_step hs)

end Reader

end DsqlEmulator.Proxy
