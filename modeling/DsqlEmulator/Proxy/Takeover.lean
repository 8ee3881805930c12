import DsqlEmulator.Proxy.Threads

/-! What the client gets for a statement whose conflict the session takes over,
while the client waits for its answer. -/

namespace DsqlEmulator.Proxy

open Wire Occ Txn Runs

variable {U : Upstream} {D : Dialect}

inductive Drains (D : Dialect) : Session → List Act → Session → List Delivery → Prop
  | nil {s} : Drains D s [] s []
  | act {s a rest s' ds} : Drains D (a.exec D 0 "" s).sess ((a.exec D 0 "" s).next ++ rest) s' ds →
      Drains D s (a :: rest) s' ((a.exec D 0 "" s).client ++ ds)

inductive Pumps (D : Dialect) : Session → List Reply → Session → List Delivery → Prop
  | nil {s} : Pumps D s [] s []
  | read {s r rs s₁ ds s₂ es} : Drains D s (pumpBackend r) s₁ ds → Pumps D s₁ rs s₂ es →
      Pumps D s (r :: rs) s₂ (ds ++ es)

section Pumps

variable {s s₁ s₂ : Session} {ds es : List Delivery} {rs ts : List Reply}

theorem Drains.deterministic {acts : List Act} (h₁ : Drains D s acts s₁ ds)
    (h₂ : Drains D s acts s₂ es) : s₁ = s₂ ∧ ds = es := by
  induction h₁ generalizing s₂ es with
  | nil => cases h₂; exact ⟨rfl, rfl⟩
  | act _ ih =>
    cases h₂ with
    | act h =>
      obtain ⟨rfl, rfl⟩ := ih h
      exact ⟨rfl, rfl⟩

theorem Drains.of_exec {a : Act} {rest : List Act} {e : Effect} (he : a.exec D 0 "" s = e)
    (h : Drains D e.sess (e.next ++ rest) s₁ ds) : Drains D s (a :: rest) s₁ (e.client ++ ds) := by
  subst he
  exact .act h

theorem Pumps.append {s₃ : Session} (h₁ : Pumps D s rs s₂ ds) (h₂ : Pumps D s₂ ts s₃ es) :
    Pumps D s (rs ++ ts) s₃ (ds ++ es) := by
  induction h₁ with
  | nil => exact h₂
  | read hd _ ih =>
    rw [List.append_assoc]
    exact .read hd (ih h₂)

theorem Pumps.deterministic (h₁ : Pumps D s rs s₁ ds) (h₂ : Pumps D s rs s₂ es) :
    s₁ = s₂ ∧ ds = es := by
  induction h₁ generalizing s₂ es with
  | nil => cases h₂; exact ⟨rfl, rfl⟩
  | read hd _ ih =>
    cases h₂ with
    | read hd' h =>
      obtain ⟨rfl, rfl⟩ := hd.deterministic hd'
      obtain ⟨rfl, rfl⟩ := ih h
      exact ⟨rfl, rfl⟩

end Pumps

section Waiting

def Label.waits : Label U → Bool
  | .readUpstream | .back | .answer _ => true
  | _ => false

/-- The steps left while the client waits and the frontend pump has nothing to do. -/
def Waiting (l : Label U) (_ : World U) : Prop := l.waits = true

instance (l : Label U) (w : World U) : Decidable (Waiting l w) :=
  inferInstanceAs (Decidable (_ = _))

def following (D : Dialect) (w : World U) : System (World U) (Label U) where
  init := w
  step := step D

theorem pumps_of_waiting {w₀ w : World U} (hw : Reach (following D w₀) Waiting w)
    (h₀ : w₀.back = []) (hback : w.back = []) :
    ∃ rs ds, Pumps D w₀.sess rs w.sess ds ∧ w.got = w₀.got ++ ds ∧
      ∃ new, w.said = w₀.said ++ new ∧ w₀.fromUp ++ new = rs ++ w.fromUp := by
  suffices h : ∃ rs ds new, (∀ s' es, Drains D w.sess w.back s' es →
    Pumps D w₀.sess rs s' (ds ++ es)) ∧
      w.got = w₀.got ++ ds ∧ w.said = w₀.said ++ new ∧ w₀.fromUp ++ new = rs ++ w.fromUp by
    obtain ⟨rs, ds, new, h, hgot, hsaid, hnew⟩ := h
    have hp := h w.sess [] (hback ▸ .nil)
    rw [List.append_nil] at hp
    exact ⟨rs, ds, hp, hgot, new, hsaid, hnew⟩
  refine hw.invariant (I := fun w => ∃ rs ds new,
    (∀ s' es, Drains D w.sess w.back s' es → Pumps D w₀.sess rs s' (ds ++ es)) ∧
      w.got = w₀.got ++ ds ∧ w.said = w₀.said ++ new ∧ w₀.fromUp ++ new = rs ++ w.fromUp) ?_ ?_
  · refine ⟨[], [], [], fun s' es hd =>
      ?_, by simp [following], by simp [following], by simp [following]⟩
    rw [following, h₀] at hd
    cases hd
    exact .nil
  · rintro l v v' ⟨rs, ds, new, h, hgot, hsaid, hnew⟩ hok hs
    cases moves_of_step hs with
    | @readUpstream _ r rest hb hu _ =>
      refine ⟨rs ++ [r], ds, new, fun s' es hd => ?_, hgot, hsaid, by simp [hnew, hu]⟩
      have hp := h v.sess [] (hb ▸ .nil)
      rw [List.append_nil] at hp
      have hone := hp.append (.read hd .nil)
      rwa [List.append_nil] at hone
    | @back _ a rest hb =>
      refine ⟨rs, ds ++ (a.exec D 0 "" v.sess).client, new, fun s' es hd =>
        ?_, by simp [World.applyBack, hgot], hsaid,
        hnew⟩
      rw [List.append_assoc]
      exact h s' _ (hb ▸ .act hd)
    | @answer _ c q rest hq =>
      refine ⟨rs, ds, new ++ (U.answer v.up q.msg c).2.map (Reply.mk q.origin), h, hgot, ?_, ?_⟩
      · exact (congrArg (· ++ _) hsaid).trans (List.append_assoc ..)
      · rw [← List.append_assoc, hnew, List.append_assoc]
        rfl
    | _ => cases hok

end Waiting

section Messages

variable {s : Session} {o : Origin}

/-- The session would take over a conflict of the statement in flight. -/
structure Session.Takes (s : Session) (repair : InFlight) : Prop where
  hidden : s.hidden = none
  failure : s.failure = none
  occRepair : s.occRepair = none
  inFlight : s.occInFlight = some repair
  repairable : s.occSavepoint = true ∨ s.occTxnStatements ≤ 1
  inTxn : s.tracker.inTxn = true
  settled : s.pendingExchanges ≤ 1

def Backend.isRow : Backend → Bool
  | .rowDescription _ | .dataRow _ => true
  | _ => false

theorem drains_relay {r : Reply} {s' : Session} {ds : List Delivery} (hidden : s.hidden = none)
    (failure : s.failure = none) (repair : s.occRepair = none) (hready : r.msg.isReady = false)
    (h : Drains D s (relay D r) s' ds) : Drains D s (pumpBackend r) s' ds := by
  rw [pumpBackend, if_neg (by simp [hready])]
  refine .of_exec (e := { sess := s, next := [.failureActive r] }) (by simp [hidden]) ?_
  refine .of_exec (e := { sess := s, next := [.repairPending r] }) (by simp [failure, hready]) ?_
  refine .of_exec (e := { sess := s, next := relay D r, fates := [⟨r, .client⟩] })
    (by simp [repair]) ?_
  simpa using h

theorem drains_row {m : Backend} (hidden : s.hidden = none) (failure : s.failure = none)
    (repair : s.occRepair = none) (hm : Backend.isRow m = true) :
    Drains D s (pumpBackend ⟨o, m⟩) s [⟨.relayed o, m⟩] := by
  refine drains_relay hidden failure repair ?_ ?_
  · cases m <;> first | rfl | cases hm
  · have hrelay : relay D ⟨o, m⟩ = [.writeClient ⟨.relayed o, m⟩] := by cases m <;> first
      | rfl
      | cases hm
    rw [hrelay]
    exact .act .nil

variable {repair : InFlight}

def Session.takenOver (s : Session) (repair : InFlight) : Session :=
  { s with job := none, occRepair := some repair, occInFlight := none }

theorem drains_conflict {e : ErrorFields} (h : s.Takes repair) (he : isConflict e.code = true) :
    Drains D s (pumpBackend ⟨o, .error e⟩) (s.takenOver repair) [] := by
  refine drains_relay h.hidden h.failure h.occRepair rfl ?_
  have hrelay : relay D ⟨o, .error e⟩ = [.takeJob, .readInTxn o e] := by simp [relay, he]
  rw [hrelay]
  refine .of_exec (e := { sess := { s with job := none }, next := [] }) rfl ?_
  refine .of_exec (e := { sess := { s with job := none }, next := [.occIntercept o e true] })
    (by simp [h.inTxn]) ?_
  refine .of_exec (e := { sess := s.takenOver repair }) ?_ .nil
  have hready : ((s.occSavepoint || decide (s.occTxnStatements ≤ 1)) && true &&
    s.occInFlight.isSome &&
      decide (s.pendingExchanges ≤ 1)) = true := by
    simpa [h.inFlight, h.settled] using h.repairable
  dsimp only [Act.exec]
  rw [if_pos hready, h.inFlight]
  rfl

def Session.restoring (s : Session) (repair : InFlight) : Session :=
  { s with job := none, occRepair := none, occInFlight := none, occDoomed := true,
           txStatus := .active,
           hidden := some ⟨s.serial, .restore repair false⟩, serial := s.serial + 1,
           pendingExchanges := s.pendingExchanges - 1 + 1 }

theorem drains_startRepair {st : TxStatus} (h : s.Takes repair) :
    Drains D (s.takenOver repair) (pumpBackend ⟨o, .ready st⟩) (s.restoring repair) [] := by
  let s₁ : Session := { s.takenOver repair with pendingExchanges := s.pendingExchanges - 1 }
  let s₂ : Session := { s₁ with occRepair := none, occDoomed := true, txStatus := .active }
  let s₃ : Session :=
    { s₂ with hidden := some ⟨s.serial, .restore repair false⟩, serial := s.serial + 1 }
  let restore : Frontend := if s.occSavepoint then rollbackToQuery else restartQuery
  refine .of_exec (e := { sess := s₁ }) rfl ?_
  refine .of_exec (e := { sess := s₁, next := [.failureActive ⟨o, .ready st⟩] }) ?_ ?_
  · simp [s₁, Session.takenOver, h.hidden]
  refine .of_exec (e :=
    { sess := s₁, next := [.takeJob, .startRepair o st], fates := [⟨⟨o, .ready st⟩, .client⟩] }) ?_
    ?_
  · simp [s₁, Session.takenOver, h.failure, relay]
  refine .of_exec (e := { sess := s₁ }) rfl ?_
  refine .of_exec (e := { sess := s₂, next := [.chooseRestore repair] }) rfl ?_
  refine .of_exec (e := { sess := s₂, next := [.setHidden (.restore repair false) [restore]] }) rfl
    ?_
  refine .of_exec (e :=
    { sess := s₃, next := [.beginExchange, .writeUpstream (.hidden .restore s.serial) [restore]] })
    rfl ?_
  refine .of_exec (e := { sess := s.restoring repair }) rfl ?_
  exact .of_exec (e := { sess := s.restoring repair, up := [⟨_, restore⟩] }) rfl .nil

theorem drains_hidden {k : Nat} {x : Exchange} {m : Backend} (hs : s.hidden = some ⟨k, x⟩)
    (hm : m.isReady = false) :
    Drains D s (pumpBackend ⟨o, m⟩) { s with hidden := some ⟨k, x.note m⟩ }
      (if x.passes m then [⟨.relayed o, m⟩] else []) := by
  rw [pumpBackend, if_neg (by simp [hm])]
  refine .of_exec (e := { sess := { s with hidden := some ⟨k, x.note m⟩ }
                          next := if x.passes m then [.writeClient ⟨.relayed o, m⟩] else []
                          fates := [⟨⟨o, m⟩, .hidden x.purpose k⟩] }) (by simp [hs, hm]) ?_
  cases x.passes m with
  | true => exact .act .nil
  | false => exact .nil

theorem drains_finish {k : Nat} {x : Exchange} {st : TxStatus} {s' : Session} {ds : List Delivery}
    (hs : s.hidden = some ⟨k, x⟩)
    (h : Drains D { s with pendingExchanges := s.pendingExchanges - 1, hidden := none }
      (x.finish D) s' ds) : Drains D s (pumpBackend ⟨o, .ready st⟩) s' ds := by
  let s₁ : Session := { s with pendingExchanges := s.pendingExchanges - 1 }
  refine .of_exec (e := { sess := s₁ }) rfl ?_
  refine .of_exec (e :=
    { sess := s₁, next := [.clearHidden ⟨k, x⟩], fates := [⟨⟨o, .ready st⟩, .hidden x.purpose k⟩] })
    ?_ ?_
  · simp [s₁, hs]
  refine .of_exec (e := { sess := { s₁ with hidden := none }, next := x.finish D }) rfl ?_
  simpa using h

end Messages

section Repair

variable {s : Session} {repair : InFlight} {rs : List Reply}

def shadowCount : Int → List Backend → Int :=
  List.foldl fun rows m =>
    match m with
    | .dataRow vs => (firstColumnInt vs).getD rows
    | _ => rows

/-- What the client is to get for a statement that was taken over and repaired,
when its shadow answered `shadow`: the rows of a locking `SELECT` as the shadow
found them, or else the tag alone. -/
def repairAnswer (repair : InFlight) (shadow : List Backend) : List Backend :=
  if repair.intent.shadow = "" then [.commandComplete (repair.intent.commandTag repair.intent.rows),
    .ready .active]
  else if repair.intent.rowset then
    shadow.filter (fun m => match m with
      | .dataRow _ | .commandComplete _ => true
      | .rowDescription _ => !repair.extended
      | _ => false) ++ [.ready .active]
  else [.commandComplete (repair.intent.commandTag (shadowCount 0 shadow)), .ready .active]

/-- An answer that reports no error, less the `ReadyForQuery` that ends it. -/
def Smooth (rs : List Reply) : Prop := ∀ r ∈ rs, r.msg.isReady = false ∧ r.msg.isError = false

theorem passes_note (x : Exchange) (m m' : Backend) : (x.note m).passes m' = x.passes m' := by
  cases x with
  | count repair rows failed => cases m <;> rfl
  | rowset repair failed => cases m' <;> rfl
  | _ => rfl

theorem pumps_rows (hidden : s.hidden = none) (failure : s.failure = none)
    (occRepair : s.occRepair = none) (hrs : ∀ r ∈ rs, Backend.isRow r.msg = true) :
    Pumps D s rs s (rs.map fun r => ⟨.relayed r.origin, r.msg⟩) := by
  induction rs with
  | nil => exact .nil
  | cons r rs ih =>
    exact .read (drains_row hidden failure occRepair (hrs r (by simp)))
      (ih fun r' hr' => hrs r' (by simp [hr']))

theorem pumps_hidden {k : Nat} {x : Exchange} (hs : s.hidden = some ⟨k, x⟩) (hrs : Smooth rs) :
    Pumps D s rs { s with hidden := some ⟨k, (rs.map Reply.msg).foldl Exchange.note x⟩ }
      ((rs.filter (x.passes ·.msg)).map fun r => ⟨.relayed r.origin, r.msg⟩) := by
  induction rs generalizing s x with
  | nil =>
    have hsame : { s with hidden := some ⟨k, x⟩ } = s := by rw [← hs]
    rw [List.map_nil, List.foldl_nil, hsame]
    exact .nil
  | cons r rs ih =>
    have hone := drains_hidden (D := D) (o := r.origin) hs (hrs r (by simp)).1
    have hrest := ih (s := { s with hidden := some ⟨k, x.note r.msg⟩ }) (x := x.note r.msg) rfl
      fun r' hr' => hrs r' (by simp [hr'])
    have h := Pumps.read hone hrest
    simp only [passes_note] at h
    cases hp : x.passes r.msg <;> simpa [hp] using h

theorem foldl_note_restore (hrs : Smooth rs) :
    (rs.map Reply.msg).foldl Exchange.note (.restore repair false) = .restore repair false := by
  induction rs with
  | nil => rfl
  | cons r rs ih =>
    have hr := (hrs r (by simp)).2
    simpa [Exchange.note, hr] using ih fun r' hr' => hrs r' (by simp [hr'])

theorem foldl_note_rowset (hrs : Smooth rs) :
    (rs.map Reply.msg).foldl Exchange.note (.rowset repair false) = .rowset repair false := by
  induction rs with
  | nil => rfl
  | cons r rs ih =>
    have hr := (hrs r (by simp)).2
    simpa [Exchange.note, hr] using ih fun r' hr' => hrs r' (by simp [hr'])

theorem foldl_note_count {rows : Int} (hrs : Smooth rs) :
    (rs.map Reply.msg).foldl Exchange.note (.count repair rows false) =
      .count repair (shadowCount rows (rs.map Reply.msg)) false := by
  induction rs generalizing rows with
  | nil => rfl
  | cons r rs ih =>
    have hr := (hrs r (by simp)).2
    have hrest : Smooth rs := fun r' hr' => hrs r' (by simp [hr'])
    obtain ⟨o, m⟩ := r
    cases m with
    | dataRow vs =>
      simpa [Exchange.note, shadowCount] using @ih ((firstColumnInt vs).getD rows) hrest
    | error e => cases hr
    | _ => simpa [Exchange.note, shadowCount, Backend.isError] using @ih rows hrest

theorem drains_completeRepair (rows : Int) :
    Drains D s (completeRepair repair rows) s
      [⟨.repair repair.request, .commandComplete (repair.intent.commandTag rows)⟩,
          ⟨.repair repair.request, .ready .active⟩] :=
  .act (.act .nil)

theorem drains_setHidden (x : Exchange) (ms : List Frontend) :
    ∃ s', Drains D s [.setHidden x ms] s' [] ∧ s'.hidden = some ⟨s.serial, x⟩ :=
  ⟨{ s with hidden := some ⟨s.serial, x⟩, serial := s.serial + 1
            pendingExchanges := s.pendingExchanges + 1 }, .act (.act (.act .nil)), rfl⟩

/-- The messages a repair draws from the upstream: the answer to the statement that
restores the transaction and, if there is one, the answer to the shadow. -/
def repairReplies (repair : InFlight) (restore shadow : List Reply) (r₁ r₂ : Origin × TxStatus) :
    List Reply :=
  restore ++ ⟨r₁.1, .ready r₁.2⟩ :: if repair.intent.shadow = "" then [] else shadow ++
    [⟨r₂.1, .ready r₂.2⟩]

theorem pumps_exchange {k : Nat} {x y : Exchange} {r : Origin × TxStatus} {s' : Session}
    {ds : List Delivery} (hs : s.hidden = some ⟨k, x⟩) (hrs : Smooth rs)
    (hy : (rs.map Reply.msg).foldl Exchange.note x = y)
    (hfinish : Drains D { s with pendingExchanges := s.pendingExchanges - 1, hidden := none }
      (y.finish D) s' ds) : Pumps D s (rs ++ [⟨r.1, .ready r.2⟩]) s'
      ((rs.filter (x.passes ·.msg)).map (fun r => ⟨.relayed r.origin, r.msg⟩) ++ ds) := by
  subst hy
  have hlast : Pumps D _ [⟨r.1, .ready r.2⟩] s' (ds ++ []) :=
    .read (drains_finish
      (s := { s with hidden := some ⟨k, (rs.map Reply.msg).foldl Exchange.note x⟩ }) rfl hfinish)
      .nil
  rw [List.append_nil] at hlast
  exact (pumps_hidden hs hrs).append hlast

theorem filter_restore : rs.filter ((Exchange.restore repair false).passes ·.msg) = [] := by
  simp [Exchange.passes]

theorem filter_count {rows : Int} :
    rs.filter ((Exchange.count repair rows false).passes ·.msg) = [] := by
  simp [Exchange.passes]

theorem drains_runShadow {shadow : List Reply} {r : Origin × TxStatus}
    (hne : repair.intent.shadow ≠ "") (hshadow : Smooth shadow)
    (hparams : repair.shadowParams ≠ none) :
    ∃ s₁ s₂ ds, Drains D s (runShadow D repair) s₁ [] ∧
      Pumps D s₁ (shadow ++ [⟨r.1, .ready r.2⟩]) s₂ ds ∧
      ds.map Delivery.msg = repairAnswer repair (shadow.map Reply.msg) := by
  obtain ⟨⟨values, formats⟩, hp⟩ := Option.ne_none_iff_exists'.1 hparams
  cases hrow : repair.intent.rowset with
  | true =>
    obtain ⟨s₁, hd, hs₁⟩ := drains_setHidden (D := D) (s := s) (.rowset repair false)
      (if repair.extended then extendedQuery repair.intent.shadow values formats repair.formats
        else [.query repair.intent.shadow])
    refine ⟨s₁, _, _, ?_, pumps_exchange hs₁ hshadow (foldl_note_rowset hshadow) (.act .nil), ?_⟩
    · simpa [runShadow, hne, hrow, runRowsetShadow, hp] using hd
    · simp only [repairAnswer, hne, hrow, if_true, if_false, List.map_append, List.map_map,
        List.filter_map]
      refine congrArg₂ (· ++ ·) (congrArg (List.map _) (List.filter_congr fun r _ => ?_)) rfl
      cases hm : r.msg <;> simp [Exchange.passes, hm]
  | false =>
    obtain ⟨s₁, hd, hs₁⟩ := drains_setHidden (D := D) (s := s) (.count repair 0 false)
      (if values = [] then [.query repair.intent.shadow] else extendedQuery repair.intent.shadow
        values formats [])
    refine ⟨s₁, _, _, ?_, pumps_exchange hs₁ hshadow (foldl_note_count hshadow)
      (drains_completeRepair _), ?_⟩
    · simpa [runShadow, hne, hrow, runCountShadow, hp] using hd
    · simp [repairAnswer, hne, hrow, filter_count]

theorem pumps_repair {k : Nat} {restore shadow : List Reply} {r₁ r₂ : Origin × TxStatus}
    (hs : s.hidden = some ⟨k, .restore repair false⟩) (hrestore : Smooth restore)
    (hshadow : Smooth shadow) (hparams : repair.intent.shadow ≠ "" → repair.shadowParams ≠ none) :
    ∃ s' ds, Pumps D s (repairReplies repair restore shadow r₁ r₂) s' ds ∧
      ds.map Delivery.msg = repairAnswer repair (shadow.map Reply.msg) := by
  unfold repairReplies
  by_cases hne : repair.intent.shadow = ""
  · have hfinish : (Exchange.restore repair false).finish D =
        completeRepair repair repair.intent.rows := by
      simp [Exchange.finish, runShadow, hne]
    have hrun := pumps_exchange (r := r₁) hs hrestore (foldl_note_restore hrestore)
      (hfinish ▸ drains_completeRepair (D := D) repair.intent.rows)
    refine ⟨_, _, by rw [if_pos hne]; exact hrun, ?_⟩
    simp [repairAnswer, hne, filter_restore]
  · obtain ⟨s₁, s₂, ds, hd, hp, hds⟩ := drains_runShadow (D := D) (r := r₂)
      (s := { s with pendingExchanges := s.pendingExchanges - 1, hidden := none }) hne hshadow
        (hparams hne)
    have hfirst : Pumps D s (restore ++ [⟨r₁.1, .ready r₁.2⟩]) s₁ _ :=
      pumps_exchange hs hrestore (foldl_note_restore hrestore) (by simpa [Exchange.finish] using hd)
    rw [filter_restore, List.map_nil, List.append_nil] at hfirst
    refine ⟨s₂, ds, ?_, hds⟩
    rw [if_neg hne]
    simpa using hfirst.append hp

end Repair

/-- While the client waits for a statement whose conflict the session takes over and
repairs, it gets what the repair produces and nothing else exactly when the upstream
had sent no row and no row description for the statement before the error. -/
theorem takeover_answer_iff {w₀ w : World U} {repair : InFlight}
    {pre restore shadow new : List Reply} {o : Origin} {e : ErrorFields}
    {r₀ r₁ r₂ : Origin × TxStatus} (hback₀ : w₀.back = []) (htakes : w₀.sess.Takes repair)
    (hpre : ∀ r ∈ pre, Backend.isRow r.msg = true) (he : isConflict e.code = true)
    (hrestore : Smooth restore) (hshadow : Smooth shadow)
    (hparams : repair.intent.shadow ≠ "" → repair.shadowParams ≠ none)
    (hw : Reach (following D w₀) Waiting w) (hback : w.back = []) (hfrom : w.fromUp = [])
    (hnew : w.said = w₀.said ++ new)
    (hsaid : w₀.fromUp ++ new = pre ++ ⟨o, .error e⟩ :: ⟨r₀.1, .ready r₀.2⟩ :: repairReplies repair
      restore shadow r₁ r₂) :
    w.got.map Delivery.msg = w₀.got.map Delivery.msg ++ repairAnswer repair (shadow.map Reply.msg) ↔
      pre = [] := by
  obtain ⟨rs, ds, hpumps, hgot, new', hnew', hrs⟩ := pumps_of_waiting hw hback₀ hback
  obtain rfl : new = new' := List.append_cancel_left (hnew.symm.trans hnew')
  rw [hfrom, List.append_nil] at hrs
  rw [← hrs, hsaid] at hpumps
  have hrepair : ∃ s' ds', Pumps D (w₀.sess.restoring repair)
    (repairReplies repair restore shadow r₁ r₂) s' ds' ∧
      ds'.map Delivery.msg = repairAnswer repair (shadow.map Reply.msg) :=
        pumps_repair rfl hrestore hshadow hparams
  obtain ⟨s', ds', hrun, hds'⟩ := hrepair
  have htaken : Pumps D w₀.sess
    (⟨o, .error e⟩ :: ⟨r₀.1, .ready r₀.2⟩ :: repairReplies repair restore shadow r₁ r₂) s'
      ([] ++ ([] ++ ds')) :=
        .read (drains_conflict htakes he) (.read (drains_startRepair htakes) hrun)
  have hrows := pumps_rows (D := D) htakes.hidden htakes.failure htakes.occRepair hpre
  obtain ⟨-, rfl⟩ := hpumps.deterministic (hrows.append htaken)
  rw [hgot]
  simp only [List.map_append, List.nil_append, hds', List.append_cancel_left_eq]
  simp

def lockNotAvailable : ErrorFields where
  code := "55P03"
  message := "could not obtain lock on row in relation \"t\""

def lockingSelect : List (Label .any) :=
  List.flatten
    [[.send (.query "BEGIN"), .readClient], fronts 8,
      [.answer ([.commandComplete "BEGIN"], .active), .readUpstream],
      backs 6, [.readUpstream], backs 8, [.send (.query "SELECT * FROM t FOR UPDATE"), .readClient],
        fronts 13, [.answer ([.commandComplete "SAVEPOINT"], .active), .readUpstream], backs 1,
        [.readUpstream], backs 3]

def lockingSelectRepair : List (Label .any) :=
  List.flatten
    [[.readUpstream], backs 6, [.readUpstream], backs 9,
      [.answer ([.commandComplete "ROLLBACK"], .active), .readUpstream], backs 1,
        [.readUpstream], backs 6,
      [.answer ([.rowDescription ["a"], .dataRow [some "1"], .commandComplete "SELECT 1"], .active),
        .readUpstream],
      backs 2, [.readUpstream], backs 2, [.readUpstream], backs 2, [.readUpstream], backs 4]

theorem takeover_answer_iff_select :
    let w₀ := (system (.sample []) .any).dest (fun _ _ => True) lockingSelect
    let w := (following (.sample []) w₀).dest Waiting
      (.answer ([.error lockNotAvailable], .failed) :: lockingSelectRepair)
    w.got.map Delivery.msg = w₀.got.map Delivery.msg ++
      [.rowDescription ["a"], .dataRow [some "1"], .commandComplete "SELECT 1",
          .ready .active] := by
  intro w₀ w
  let repair : InFlight :=
    { request := 1, intent := { tag := "SELECT", rows := -1, shadow := "SELECT * FROM t",
                                rowset := true } }
  let restore : List Reply := [⟨.hidden .restore 1, .commandComplete "ROLLBACK"⟩]
  let shadow : List Reply :=
    [⟨.hidden .rowset 2, .rowDescription ["a"]⟩, ⟨.hidden .rowset 2, .dataRow [some "1"]⟩,
    ⟨.hidden .rowset 2, .commandComplete "SELECT 1"⟩]
  let r₀ : Origin × TxStatus := (.client 1, .failed)
  let r₁ : Origin × TxStatus := (.hidden .restore 1, .active)
  let r₂ : Origin × TxStatus := (.hidden .rowset 2, .active)
  have htakes : w₀.sess.Takes repair := by constructor <;> decide +kernel
  have hrestore : Smooth restore := by unfold Smooth; decide
  have hshadow : Smooth shadow := by unfold Smooth; decide
  have hnew : w.said = w₀.said ++ w.said.drop 4 := by decide +kernel
  have hsaid : w₀.fromUp ++ w.said.drop 4 = [] ++ ⟨.client 1, .error lockNotAvailable⟩ ::
    ⟨r₀.1, .ready r₀.2⟩ ::
      repairReplies repair restore shadow r₁ r₂ := by decide +kernel
  exact (takeover_answer_iff (by decide +kernel) htakes (by simp) (by decide) hrestore hshadow
    (by decide) (Reach.dest _ _) (by decide +kernel) (by decide +kernel) hnew hsaid).2 rfl

/-- The upstream sends a row before it runs into the lock, and the client gets it twice. -/
theorem takeover_repeats_row :
    ∃ w : World .any, Reachable (system (.sample []) .any) w ∧
      (w.got.map Delivery.msg).drop 2 =
        [.rowDescription ["a"], .dataRow [some "1"], .rowDescription ["a"], .dataRow [some "1"],
          .commandComplete "SELECT 1", .ready .active] := by
  refine ⟨(system (.sample []) .any).dest (fun _ _ => True) (List.flatten [lockingSelect,
    [.answer ([.rowDescription ["a"], .dataRow [some "1"], .error lockNotAvailable], .failed),
      .readUpstream], backs 4, [.readUpstream], backs 4, lockingSelectRepair]), Reach.dest _ _, ?_⟩
  decide +kernel

end DsqlEmulator.Proxy
