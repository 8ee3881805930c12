import DsqlEmulator.Arrange
import DsqlEmulator.Conformance.Compare

/-! How a race is judged when the last steps of its sessions change places. -/

namespace DsqlEmulator.Conformance

section Sessions

def losing (o : Observation) : Option String :=
  if o.outcome = "error" then some o.sqlState else none

def finals (ss : List (List Observation)) : List Observation := ss.filterMap List.getLast?

def earlier (ss : List (List Observation)) : List (List Observation) := ss.map List.dropLast

def AllStepped (ss : List (List Observation)) : Prop := ∀ s ∈ ss, s ≠ []

def withFinals (inits : List (List Observation)) (os : List Observation) :
    List (List Observation) :=
  List.zipWith (fun init o => init ++ [o]) inits os

variable {ss : List (List Observation)} {inits : List (List Observation)} {os : List Observation}

theorem finals_cons {s : List Observation} (hs : s ≠ []) :
    finals (s :: ss) = s.getLast hs :: finals ss := by
  rw [finals, List.filterMap_cons, List.getLast?_eq_some_getLast hs]
  rfl

theorem length_finals (h : AllStepped ss) : (finals ss).length = ss.length := by
  induction ss with
  | nil => rfl
  | cons s ss ih =>
    rw [finals_cons (h s List.mem_cons_self), List.length_cons, List.length_cons,
      ih fun s' hs' => h s' (List.mem_cons_of_mem s hs')]

theorem losers_eq (ss : List (List Observation)) : losers ss = (finals ss).filterMap losing := by
  induction ss with
  | nil => rfl
  | cons s ss ih =>
    rw [losers, List.flatMap_cons, List.map_append, ← losers, ih, finals, finals,
      List.filterMap_cons]
    cases hlast : s.getLast? with
    | none => simp [lost, hlast]
    | some o => by_cases herr : o.outcome = "error" <;> simp [lost, hlast, losing, herr]

theorem withFinals_laws (h : inits.length = os.length) :
    earlier (withFinals inits os) = inits ∧ AllStepped (withFinals inits os) ∧
      finals (withFinals inits os) = os := by
  induction inits generalizing os with
  | nil =>
    obtain rfl := List.length_eq_zero_iff.1 h.symm
    exact ⟨rfl, by simp [AllStepped, withFinals], rfl⟩
  | cons init inits ih =>
    obtain ⟨o, os, rfl⟩ := List.exists_cons_of_length_eq_add_one h.symm
    obtain ⟨hearlier, hstepped, hfinals⟩ := ih (Nat.succ.inj h)
    have hcons : withFinals (init :: inits) (o :: os) = (init ++ [o]) :: withFinals inits os := rfl
    have hne : init ++ [o] ≠ [] := by simp
    refine ⟨?_, ?_, ?_⟩
    · rw [hcons, earlier, List.map_cons, ← earlier, hearlier, List.dropLast_concat]
    · rw [hcons]
      exact List.forall_mem_cons.2 ⟨hne, hstepped⟩
    · rw [hcons, finals_cons hne, hfinals, List.getLast_concat]

end Sessions

section Judged

def Judged (ds : List Difference) : Prop :=
  ∃ d ∈ ds, d.field = "conflict_losers" ∨ d.field = "sqlstate"

instance {ds : List Difference} : Decidable (Judged ds) := List.decidableBEx _ ds

@[simp] theorem judged_nil : ¬ Judged [] := by simp [Judged]

@[simp] theorem judged_append {ds ds' : List Difference} :
    Judged (ds ++ ds') ↔ Judged ds ∨ Judged ds' := by
  simp [Judged, or_and_right, exists_or]

def Fielded (add : Add) : Prop := ∀ field w g advisory, (add field w g advisory).field = field

variable {add : Add} {ignoreRows : Bool} {field : String} {fields : String → String} {w g : Json}
  {advisory : Bool}

theorem judged_add (h : Fielded add) :
    Judged [add field w g advisory] ↔ field = "conflict_losers" ∨ field = "sqlstate" := by
  simp [Judged, h field w g advisory]

theorem not_judged_ite (h : Fielded add) (hne : ¬ (field = "conflict_losers" ∨ field = "sqlstate"))
    {p : Prop} [Decidable p] : ¬ Judged (if p then [add field w g advisory] else []) := by
  split
  · rwa [judged_add h]
  · exact judged_nil

theorem not_judged_compareResult (h : Fielded add)
    (hne : ∀ name ∈ ["command_tag", "columns", "rows"], ¬ (fields name = "conflict_losers" ∨
      fields name = "sqlstate")) {w g : Result} :
    ¬ Judged (compareResult add fields ignoreRows w g) := by
  unfold compareResult
  rw [judged_append, judged_append, not_or, not_or]
  exact ⟨⟨not_judged_ite h (hne _ (by simp)), not_judged_ite h (hne _ (by simp))⟩,
    not_judged_ite h (hne _ (by simp))⟩

theorem not_judged_compareResults (h : Fielded add) {n : Nat} {ws gs : List Result} :
    ¬ Judged (compareResults add ignoreRows n ws gs) := by
  induction ws generalizing n gs with
  | nil => exact judged_nil
  | cons w ws ih =>
    cases gs with
    | nil => exact judged_nil
    | cons g gs =>
      rw [compareResults, judged_append, not_or]
      refine ⟨not_judged_compareResult h fun name _ => ?_, ih⟩
      have hhead (name : String) : ("result " ++ toString n ++ " " ++ name).toList.head? =
        some 'r' := by simp
      rintro (heq | heq)
      · have := hhead name
        rw [heq] at this
        simp at this
      · have := hhead name
        rw [heq] at this
        simp at this

structure StateDiffers (w g : Observation) : Prop where
  want : w.outcome = "error"
  got : g.outcome = "error"
  known : w.sqlState ≠ ""
  ne : w.sqlState ≠ g.sqlState

theorem judged_compareStep (h : Fielded add) {w g : Observation} :
    Judged (compareStep add ignoreRows w g) ↔ StateDiffers w g := by
  unfold compareStep
  by_cases hout : w.outcome = g.outcome
  · rw [if_neg (not_not.2 hout)]
    by_cases herr : w.outcome = "error"
    · rw [if_pos herr, judged_append, or_iff_left (not_judged_ite h (by decide))]
      by_cases hstate : w.sqlState ≠ "" ∧ w.sqlState ≠ g.sqlState
      · rw [if_pos hstate, judged_add h]
        exact iff_of_true (.inr rfl) ⟨herr, hout ▸ herr, hstate.1, hstate.2⟩
      · rw [if_neg hstate]
        exact iff_of_false judged_nil fun hd => hstate ⟨hd.known, hd.ne⟩
    · rw [if_neg herr]
      refine iff_of_false ?_ fun hd => herr hd.want
      rw [judged_append, not_or]
      refine ⟨not_judged_compareResult h (by decide), ?_⟩
      split
      · rw [judged_add h]
        decide
      · exact not_judged_compareResults h
  · rw [if_pos hout]
    refine iff_of_false ?_ fun hd => hout (hd.want.trans hd.got.symm)
    show ¬ Judged ([_] ++ [_])
    rw [judged_append, judged_add h, judged_add h]
    decide

theorem judged_compareSteps {add : Nat → Add} (h : ∀ i, Fielded (add i)) {i : Nat}
    {ws gs : List Observation} :
    Judged (compareSteps add ignoreRows i ws gs) ↔ ∃ p ∈ ws.zip gs, StateDiffers p.1 p.2 := by
  induction ws generalizing i gs with
  | nil => simp [compareSteps]
  | cons w ws ih =>
    cases gs with
    | nil => simp [compareSteps]
    | cons g gs =>
      rw [compareSteps, judged_append, judged_compareStep (h i), ih, List.zip_cons_cons,
        List.exists_mem_cons_iff]

variable {golden emulated : RecordedCase} {session : Nat} {steps : List String}
  {want got : List Observation}

theorem judged_compareObservations (hlen : want.length = got.length) :
    Judged (compareObservations golden emulated session steps want got) ↔
      ∃ p ∈ want.zip got, StateDiffers p.1 p.2 := by
  unfold compareObservations
  rw [if_neg (not_not.2 hlen)]
  exact judged_compareSteps fun _ _ _ _ _ => rfl

theorem not_judged_compareObservations (hlen : want.length ≠ got.length) :
    ¬ Judged (compareObservations golden emulated session steps want got) := by
  unfold compareObservations
  rw [if_pos hlen]
  simp [Judged]

end Judged

section Races

variable {golden emulated : RecordedCase} {i : Nat} {ws gs : List (List Observation)}

def counted (ws gs : List (List Observation)) : List Bool :=
  List.zipWith (fun w g => decide (w.length = g.length)) ws gs

def EarlierDiffers (ws gs : List (List Observation)) : Prop :=
  ∃ p ∈ ws.zip gs, p.1.length = p.2.length ∧ ∃ q ∈ p.1.zip p.2, StateDiffers q.1 q.2

theorem length_eq_iff_dropLast {w g : List Observation} (hw : w ≠ []) (hg : g ≠ []) :
    w.dropLast.length = g.dropLast.length ↔ w.length = g.length := by
  have hw' := List.length_pos_of_ne_nil hw
  have hg' := List.length_pos_of_ne_nil hg
  rw [List.length_dropLast, List.length_dropLast]
  omega

theorem lost_map {s : List Observation} (hs : s ≠ []) :
    (lost s).map Observation.sqlState = (losing (s.getLast hs)).toList := by
  by_cases herr : (s.getLast hs).outcome = "error" <;>
    simp [lost, losing, List.getLast?_eq_some_getLast hs, herr]

theorem compareRaces_judged (golden emulated : RecordedCase) (i : Nat) (hw : AllStepped ws)
    (hg : AllStepped gs) :
    Judged (compareRaces golden emulated i ws gs).1 ↔ EarlierDiffers (earlier ws) (earlier gs) := by
  induction ws generalizing i gs with
  | nil => simp [compareRaces, EarlierDiffers, earlier]
  | cons want ws ih =>
    cases gs with
    | nil => simp [compareRaces, EarlierDiffers, earlier]
    | cons got gs =>
      obtain ⟨hwant, hws⟩ := List.forall_mem_cons.1 hw
      obtain ⟨hgot, hgs⟩ := List.forall_mem_cons.1 hg
      have hsplit : EarlierDiffers (earlier (want :: ws)) (earlier (got :: gs)) ↔
          (want.length = got.length ∧ ∃ q ∈ want.dropLast.zip got.dropLast, StateDiffers q.1 q.2) ∨
            EarlierDiffers (earlier ws) (earlier gs) := by
        rw [← length_eq_iff_dropLast hwant hgot]
        simp only [EarlierDiffers, earlier, List.map_cons, List.zip_cons_cons,
          List.exists_mem_cons_iff]
      rw [compareRaces, hsplit, ← ih (i + 1) hws hgs]
      by_cases hlen : want.length = got.length
      · have hcount : ¬ (want.length ≠ got.length ∨ want = []) := by simp [hlen, hwant]
        rw [if_neg hcount, judged_append,
          judged_compareObservations ((length_eq_iff_dropLast hwant hgot).2 hlen),
            and_iff_right hlen]
      · rw [if_pos (.inl hlen), judged_append, or_iff_right (not_judged_compareObservations hlen),
          or_iff_right fun hs => hlen hs.1]

theorem compareRaces_shown (golden emulated : RecordedCase) (i : Nat) (hw : AllStepped ws)
    (hg : AllStepped gs) : (compareRaces golden emulated i ws gs).2.1.map Observation.sqlState =
        shown losing (counted (earlier ws) (earlier gs)) (finals ws) ∧
      (compareRaces golden emulated i ws gs).2.2.map Observation.sqlState =
        shown losing (counted (earlier ws) (earlier gs)) (finals gs) := by
  induction ws generalizing i gs with
  | nil => exact ⟨rfl, by simp [compareRaces, counted, earlier, shown]⟩
  | cons want ws ih =>
    cases gs with
    | nil => simp [compareRaces, counted, earlier, shown]
    | cons got gs =>
      obtain ⟨hwant, hws⟩ := List.forall_mem_cons.1 hw
      obtain ⟨hgot, hgs⟩ := List.forall_mem_cons.1 hg
      obtain ⟨hleft, hright⟩ := ih (i + 1) hws hgs
      have hcounted : counted (earlier (want :: ws)) (earlier (got :: gs)) =
          decide (want.length = got.length) :: counted (earlier ws) (earlier gs) := by
        simp only [counted, earlier, List.map_cons, List.zipWith_cons_cons,
          length_eq_iff_dropLast hwant hgot]
      rw [compareRaces, hcounted, finals_cons hwant, finals_cons hgot, shown, shown,
        ← hleft, ← hright]
      by_cases hlen : want.length = got.length
      · have hcount : ¬ (want.length ≠ got.length ∨ want = []) := by simp [hlen, hwant]
        rw [if_neg hcount]
        simp only [List.map_append, lost_map hwant, lost_map hgot, hlen, decide_true,
          if_true, and_self]
      · rw [if_pos (.inl hlen)]
        simp only [hlen, decide_false, Bool.false_eq_true, if_false, List.nil_append, and_self]

theorem judged_compareLost {add : Add} (h : Fielded add) {ws gs : List Observation}
    (hlen : ws.length = gs.length) :
    Judged (compareLost add ws gs) ↔ ws.map Observation.sqlState ≠ gs.map Observation.sqlState := by
  induction ws generalizing gs with
  | nil =>
    obtain rfl := List.length_eq_zero_iff.1 hlen.symm
    simp [compareLost]
  | cons w ws ih =>
    obtain ⟨g, gs, rfl⟩ := List.exists_cons_of_length_eq_add_one hlen.symm
    have hcons : (w :: ws).map Observation.sqlState ≠ (g :: gs).map Observation.sqlState ↔
        w.sqlState ≠ g.sqlState ∨ ws.map Observation.sqlState ≠ gs.map Observation.sqlState := by
      rw [ne_eq, List.map_cons, List.map_cons, List.cons.injEq, not_and_or]
    rw [compareLost, judged_append, ih (Nat.succ.inj hlen), hcons]
    refine or_congr_left ?_
    split
    next hne => exact iff_of_true ((judged_add h).2 (.inr rfl)) hne
    next heq => exact iff_of_false judged_nil heq

theorem judged_compareConflictRace (hw : AllStepped golden.sessionResults)
    (hg : AllStepped emulated.sessionResults) : Judged (compareConflictRace golden emulated) ↔
      EarlierDiffers (earlier golden.sessionResults) (earlier emulated.sessionResults) ∨
        shown losing (counted (earlier golden.sessionResults) (earlier emulated.sessionResults))
          (finals golden.sessionResults) ≠
          shown losing (counted (earlier golden.sessionResults) (earlier emulated.sessionResults))
            (finals emulated.sessionResults) := by
  have hadd : Fielded (addRace golden emulated) := fun _ _ _ _ => rfl
  obtain ⟨hleft, hright⟩ := compareRaces_shown golden emulated 0 hw hg
  rw [← compareRaces_judged golden emulated 0 hw hg, ← hleft, ← hright]
  unfold compareConflictRace
  generalize compareRaces golden emulated 0 golden.sessionResults emulated.sessionResults = r
  obtain ⟨diffs, goldenLost, emulatedLost⟩ := r
  by_cases hlost : goldenLost.length = emulatedLost.length
  · simp only [hlost, ne_eq, not_true_eq_false, if_false, judged_append,
      judged_compareLost hadd hlost]
  · have hne : goldenLost.map Observation.sqlState ≠ emulatedLost.map Observation.sqlState :=
      fun heq => hlost (by simpa using congrArg List.length heq)
    have hcount : Judged
      [addRace golden emulated "conflict_losers" (.str (toString goldenLost.length))
        (.str (toString emulatedLost.length)) false] := (judged_add hadd).2 (.inl rfl)
    simp only [hlost, ne_eq, not_false_eq_true, if_true, judged_append, hne, or_true, hcount]

end Races

section Verdict

def Reported (golden emulated : RecordedCase) : Prop := Judged (compare golden emulated)

instance {golden emulated : RecordedCase} : Decidable (Reported golden emulated) :=
  inferInstanceAs (Decidable (Judged _))

def RecordedCase.withSessions (c : RecordedCase) (ss : List (List Observation)) : RecordedCase :=
  { c with sessionResults := ss }

/-- The same sessions, with their last steps in other places. -/
structure Reassigned (ss ss' : List (List Observation)) : Prop where
  earlier : earlier ss' = earlier ss
  stepped : AllStepped ss'
  finals : (finals ss').Perm (finals ss)

/-- The same sessions but for their last steps, of which as many lost and with the same
states. -/
structure SameLosers (ss ss' : List (List Observation)) : Prop where
  earlier : earlier ss' = earlier ss
  stepped : AllStepped ss'
  losers : (losers ss').Perm (losers ss)

/-- The verdict on sessions that are related is the verdict on these. -/
def DecidedBy (R : List (List Observation) → List (List Observation) → Prop)
    (golden emulated : RecordedCase) : Prop :=
  ∀ ws gs, R golden.sessionResults ws → R emulated.sessionResults gs →
    (Reported (golden.withSessions ws) (emulated.withSessions gs) ↔ Reported golden emulated)

def comparedCount (golden emulated : RecordedCase) : Nat :=
  (counted (earlier golden.sessionResults) (earlier emulated.sessionResults)).count true

/-- The numbers of sessions differ; or an earlier step is reported anyway; or what the compared
sessions lost with differs, or agrees, wherever the last steps stand. -/
def Settled (golden emulated : RecordedCase) : Prop :=
  golden.sessionResults.length ≠ emulated.sessionResults.length ∨
  EarlierDiffers (earlier golden.sessionResults) (earlier emulated.sessionResults) ∨
  ¬ CanAgree (comparedCount golden emulated) golden.sessionResults.length
    (losers golden.sessionResults) (losers emulated.sessionResults) ∨
  MustAgree (comparedCount golden emulated) golden.sessionResults.length
    (losers golden.sessionResults) (losers emulated.sessionResults)

variable {golden emulated : RecordedCase} {ss ss' ws gs : List (List Observation)}

theorem Reassigned.sameLosers (h : Reassigned ss ss') : SameLosers ss ss' := by
  refine ⟨h.earlier, h.stepped, ?_⟩
  rw [losers_eq, losers_eq]
  exact h.finals.filterMap losing

theorem SameLosers.length_eq (h : SameLosers ss ss') : ss'.length = ss.length := by
  have hlen := congrArg List.length h.earlier
  rwa [Conformance.earlier, Conformance.earlier, List.length_map, List.length_map] at hlen

theorem not_reported_of_length_ne
    (h : golden.sessionResults.length ≠ emulated.sessionResults.length) :
    ¬ Reported golden emulated := by
  have hsome : 0 < golden.sessionResults.length ∨ 0 < emulated.sessionResults.length := by omega
  unfold Reported compare compareSessions
  rw [if_pos hsome, if_pos h]
  simp [Judged]

theorem reported_iff (golden emulated : RecordedCase)
    (hrace : (emulated.conflictRace || golden.conflictRace) = true)
    (hlen : golden.sessionResults.length = emulated.sessionResults.length)
    (hpos : 0 < golden.sessionResults.length) (hw : AllStepped golden.sessionResults)
    (hg : AllStepped emulated.sessionResults) :
    Reported golden emulated ↔ EarlierDiffers (earlier golden.sessionResults)
      (earlier emulated.sessionResults) ∨
      shown losing (counted (earlier golden.sessionResults) (earlier emulated.sessionResults))
        (finals golden.sessionResults) ≠
        shown losing (counted (earlier golden.sessionResults) (earlier emulated.sessionResults))
          (finals emulated.sessionResults) := by
  unfold Reported compare compareSessions
  rw [if_pos (.inl hpos), if_neg (not_not.2 hlen), if_pos hrace]
  exact judged_compareConflictRace hw hg

theorem length_counted (hlen : ws.length = gs.length) :
    (counted (earlier ws) (earlier gs)).length = ws.length := by
  simp [counted, earlier, hlen]

theorem showable_shown {places : List Bool} (h : SameLosers ss ss')
    (hlen : ss.length = places.length) :
    Showable (places.count true) places.length (losers ss) (shown losing places (finals ss')) := by
  refine .of_perm h.losers ?_
  rw [losers_eq]
  exact (exists_shown_iff ((length_finals h.stepped).trans (h.length_eq.trans hlen))).1
    ⟨_, .refl _, rfl⟩

theorem exists_reassigned {places : List Bool} {l : List String} (hs : AllStepped ss)
    (hlen : ss.length = places.length)
    (h : Showable (places.count true) places.length (losers ss) l) :
    ∃ ss', Reassigned ss ss' ∧ shown losing places (finals ss') = l := by
  rw [losers_eq] at h
  obtain ⟨os, hperm, hshown⟩ := (exists_shown_iff ((length_finals hs).trans hlen)).2 h
  have hinits : (earlier ss).length = os.length := by
    rw [earlier, List.length_map, hperm.length_eq, length_finals hs]
  obtain ⟨hearlier, hstepped, hfinals⟩ := withFinals_laws hinits
  refine ⟨withFinals (earlier ss) os, ⟨hearlier, hstepped, ?_⟩, ?_⟩
  · rwa [hfinals]
  · rwa [hfinals]

theorem length_losers_le (hs : AllStepped ss) : (losers ss).length ≤ ss.length := by
  rw [losers_eq, ← length_finals hs]
  exact List.length_filterMap_le losing _

theorem withSessions_of_nil {c : RecordedCase} (hnil : c.sessionResults = [])
    (h : SameLosers c.sessionResults ss) : c.withSessions ss = c := by
  have hss : ss = [] :=
    List.length_eq_zero_iff.1 (h.length_eq.trans (by rw [hnil, List.length_nil]))
  rw [RecordedCase.withSessions, hss, ← hnil]

theorem reported_withSessions (hrace : (emulated.conflictRace || golden.conflictRace) = true)
    (hlen : golden.sessionResults.length = emulated.sessionResults.length)
    (hpos : 0 < golden.sessionResults.length) (hws : SameLosers golden.sessionResults ws)
    (hgs : SameLosers emulated.sessionResults gs) :
    Reported (golden.withSessions ws) (emulated.withSessions gs) ↔
      EarlierDiffers (earlier golden.sessionResults) (earlier emulated.sessionResults) ∨
        shown losing (counted (earlier golden.sessionResults) (earlier emulated.sessionResults))
          (finals ws) ≠
          shown losing (counted (earlier golden.sessionResults) (earlier emulated.sessionResults))
            (finals gs) := by
  have hcount : (golden.withSessions ws).sessionResults.length =
      (emulated.withSessions gs).sessionResults.length :=
    hws.length_eq.trans (hlen.trans hgs.length_eq.symm)
  rw [reported_iff (golden.withSessions ws) (emulated.withSessions gs) hrace hcount
    (hws.length_eq ▸ hpos) hws.stepped hgs.stepped]
  show EarlierDiffers (earlier ws) (earlier gs) ∨ shown losing (counted (earlier ws) (earlier gs))
    (finals ws) ≠ shown losing (counted (earlier ws) (earlier gs)) (finals gs) ↔ _
  rw [hws.earlier, hgs.earlier]

theorem counted_bounds (hlen : golden.sessionResults.length = emulated.sessionResults.length)
    (hw : AllStepped golden.sessionResults) (hg : AllStepped emulated.sessionResults) :
    comparedCount golden emulated ≤ golden.sessionResults.length ∧
      (losers golden.sessionResults).length ≤ golden.sessionResults.length ∧
        (losers emulated.sessionResults).length ≤ golden.sessionResults.length :=
  ⟨length_counted hlen ▸ List.count_le_length, length_losers_le hw, hlen ▸ length_losers_le hg⟩

section Settling

variable (hrace : (emulated.conflictRace || golden.conflictRace) = true)
  (hw : AllStepped golden.sessionResults) (hg : AllStepped emulated.sessionResults)
include hrace hw hg

theorem decidedBy_sameLosers_of_settled (h : Settled golden emulated) :
    DecidedBy SameLosers golden emulated := by
  intro ws gs hws hgs
  by_cases hlen : golden.sessionResults.length = emulated.sessionResults.length
  · obtain hzero | hpos := Nat.eq_zero_or_pos golden.sessionResults.length
    · have hnil : golden.sessionResults = [] := List.length_eq_zero_iff.1 hzero
      have hnil' : emulated.sessionResults = [] := List.length_eq_zero_iff.1 (hlen ▸ hzero)
      rw [withSessions_of_nil hnil hws, withSessions_of_nil hnil' hgs]
    · rw [reported_withSessions hrace hlen hpos hws hgs,
        reported_iff golden emulated hrace hlen hpos hw hg]
      by_cases hearlier : EarlierDiffers (earlier golden.sessionResults)
        (earlier emulated.sessionResults)
      · exact iff_of_true (.inl hearlier) (.inl hearlier)
      · obtain ⟨hm, hall, hall'⟩ := counted_bounds hlen hw hg
        have hsettled := ((h.resolve_left (not_not.2 hlen)).resolve_left hearlier)
        have hplaces := length_counted hlen
        have hshown {ss : List (List Observation)} (hss : SameLosers golden.sessionResults ss) :=
          hplaces ▸ showable_shown hss hplaces.symm
        have hshown' {ss : List (List Observation)} (hss : SameLosers emulated.sessionResults ss) :=
          hplaces ▸ showable_shown hss (hlen.symm.trans hplaces.symm)
        exact or_congr_right
          (not_congr ((agreement_settled_iff hm hall hall').1 hsettled _ _ _ _ (hshown hws)
          (hshown' hgs)
          (hshown ⟨rfl, hw, .refl _⟩) (hshown' ⟨rfl, hg, .refl _⟩)))
  · have hcount : (golden.withSessions ws).sessionResults.length ≠
        (emulated.withSessions gs).sessionResults.length :=
      fun heq => hlen (hws.length_eq.symm.trans (heq.trans hgs.length_eq))
    exact iff_of_false (not_reported_of_length_ne hcount) (not_reported_of_length_ne hlen)

theorem settled_of_decidedBy_reassigned (h : DecidedBy Reassigned golden emulated) :
    Settled golden emulated := by
  by_cases hlen : golden.sessionResults.length = emulated.sessionResults.length
  · refine .inr ?_
    by_cases hearlier : EarlierDiffers (earlier golden.sessionResults)
      (earlier emulated.sessionResults)
    · exact .inl hearlier
    · refine .inr ?_
      obtain ⟨hm, hall, hall'⟩ := counted_bounds hlen hw hg
      obtain hzero | hpos := Nat.eq_zero_or_pos golden.sessionResults.length
      · exact .inr (.inl (Nat.le_zero.1 (hzero ▸ hm)))
      · refine (agreement_settled_iff hm hall hall').2 fun l₁ l₁' l₂ l₂' h₁ h₁' h₂ h₂' => ?_
        have hplaces := length_counted hlen
        -- what can be shown is shown after the last steps changed places, and the verdict is one
        have hverdict {l l' : List String}
            (hl : Showable (comparedCount golden emulated) golden.sessionResults.length
              (losers golden.sessionResults) l)
            (hl' : Showable (comparedCount golden emulated) golden.sessionResults.length
              (losers emulated.sessionResults) l') :
            Reported golden emulated ↔ l ≠ l' := by
          rw [← hplaces] at hl hl'
          obtain ⟨ws, hws, rfl⟩ := exists_reassigned hw hplaces.symm hl
          obtain ⟨gs, hgs, rfl⟩ := exists_reassigned hg (hlen.symm.trans hplaces.symm) hl'
          rw [← h ws gs hws hgs, reported_withSessions hrace hlen hpos hws.sameLosers
            hgs.sameLosers, or_iff_right hearlier]
        exact not_iff_not.1 ((hverdict h₁ h₁').symm.trans (hverdict h₂ h₂'))
  · exact .inl hlen

end Settling

/-- A race is judged without regard to who lost, and by what was lost with alone, just when its
verdict is settled. -/
theorem race_impartial_iff (golden emulated : RecordedCase)
    (hrace : (emulated.conflictRace || golden.conflictRace) = true)
    (hw : AllStepped golden.sessionResults) (hg : AllStepped emulated.sessionResults) :
    (DecidedBy Reassigned golden emulated ↔ Settled golden emulated) ∧
      (DecidedBy SameLosers golden emulated ↔ Settled golden emulated) := by
  have himp (h : DecidedBy SameLosers golden emulated) : DecidedBy Reassigned golden emulated :=
    fun ws gs hws hgs => h ws gs hws.sameLosers hgs.sameLosers
  have hsettled := settled_of_decidedBy_reassigned hrace hw hg
  have hdecided := decidedBy_sameLosers_of_settled hrace hw hg
  exact ⟨⟨hsettled, fun h => himp (hdecided h)⟩, ⟨fun h => hsettled (himp h), hdecided⟩⟩

def raceOf (states : List (Option String)) : RecordedCase :=
  { name := "race"
    conflictRace := true
    sessionResults := states.map fun
      | none => [{ outcome := "ok", commandTag := "COMMIT" }]
      | some state => [{ outcome := "error", sqlState := state }] }

theorem allStepped_raceOf (states : List (Option String)) :
    AllStepped (raceOf states).sessionResults := by
  intro s hs
  obtain ⟨state, -, rfl⟩ := List.mem_map.1 hs
  cases state <;> simp

theorem race_impartial_iff_one :
    let golden := raceOf [some "40001", none]
    let emulated := raceOf [none, some "40001"]
    DecidedBy Reassigned golden emulated ∧ DecidedBy SameLosers golden emulated := by
  intro golden emulated
  have hsettled : Settled golden emulated :=
    .inr (.inr (.inr (.inr (.inr ⟨1, "40001", rfl, rfl, .inr rfl⟩))))
  have hiff := race_impartial_iff golden emulated rfl (allStepped_raceOf _) (allStepped_raceOf _)
  exact ⟨hiff.1.2 hsettled, hiff.2.2 hsettled⟩

/-- Both transactions lost, with different states: the replay is as the record has it, but not
as the record has it with the two changed over. -/
theorem race_partial :
    let golden := raceOf [some "40001", some "40P01"]
    let changed := (raceOf [some "40P01", some "40001"]).sessionResults
    Reassigned golden.sessionResults changed ∧ SameLosers golden.sessionResults changed ∧
      ¬ Reported golden golden ∧ Reported (golden.withSessions changed) golden ∧
        Reported golden (golden.withSessions changed) := by
  intro golden changed
  have hchanged : Reassigned golden.sessionResults changed :=
    ⟨rfl, allStepped_raceOf _, .swap _ _ _⟩
  exact ⟨hchanged, hchanged.sameLosers, by decide, by decide, by decide⟩

end Verdict

end DsqlEmulator.Conformance
