import DsqlEmulator.Postgres.Startup
import DsqlEmulator.Rules.Ruleset

/-! The startup message that the proxy sends on: the client's own, with an isolation level
set and options appended, and what PostgreSQL makes of it. -/

namespace DsqlEmulator.Wire

open Postgres CommandLine Rules

def rewriteStartup (ps params : Params) (options : List String) : Dict String String :=
  let msg := params.foldl (fun d p => d.set p.1 p.2) (Dict.ofList ps)
  if options = [] then msg
  else
    let existing := (msg.get "options").getD ""
    let all := if existing = "" then options else existing :: options
    msg.set "options" (" ".intercalate all)

def limitSettings (rs : Ruleset) : List (String × String) :=
  (if 0 < rs.limits.dmlRowsPerTxn then [("dsql.row_cap", toString rs.limits.dmlRowsPerTxn)]
    else []) ++
    if 0 < rs.lockTimeoutMS then [("lock_timeout", toString rs.lockTimeoutMS ++ "ms")] else []

def optionText (o : String × String) : String := "-c " ++ o.1 ++ "=" ++ o.2

def isolationDefault : String × String := ("default_transaction_isolation", "repeatable read")

/-- What the handshake makes of a client's message. -/
def handshake (rs : Ruleset) (ps : Params) : Dict String String :=
  rewriteStartup ps [isolationDefault] ((limitSettings rs).map optionText)

section Options

def optionWord (o : String × String) : List Char := o.1.toList ++ '=' :: o.2.toList

/-- A setting whose text is one word, and whose name is spelled as the server spells it. -/
structure Spelled (o : String × String) : Prop where
  plain : Reading.Plain (optionWord o)
  name : ∀ c ∈ o.1.toList, c ≠ '=' ∧ c ≠ '-'
  folded : foldName o.1 = o.1

def optionWords (os : List (String × String)) : List (List Char) :=
  os.flatMap fun o => [['-', 'c'], optionWord o]

variable {o : String × String} {os : List (String × String)}

theorem Spelled.parse (h : Spelled o) : parseLongOption (optionWord o) = some [o] := by
  have hname : ∀ c ∈ o.1.toList, decide (c ≠ '=') = true :=
    fun c hc => decide_eq_true (h.name c hc).1
  have htake : (optionWord o).takeWhile (· ≠ '=') = o.1.toList := by
    rw [optionWord, List.takeWhile_append_of_pos hname]
    simp
  have hdrop : (optionWord o).dropWhile (· ≠ '=') = '=' :: o.2.toList := by
    rw [optionWord, List.dropWhile_append_of_pos hname]
    simp
  have hmap : o.1.toList.map (fun c => if c = '-' then '_' else c) = o.1.toList :=
    (List.map_congr_left fun c hc => if_neg (h.name c hc).2).trans (List.map_id _)
  rw [parseLongOption, if_pos (by simp [optionWord]), htake, hdrop, hmap]
  simp

theorem Spelled.head_ne (h : Spelled o) : (optionWord o).head? ≠ some '-' := by
  rw [optionWord]
  cases ho : o.1.toList with
  | nil => simp
  | cons c cs => simpa using (h.name c (by simp [ho])).2

theorem dash_plain : Reading.Plain ['-', 'c'] := by
  intro c hc
  rcases List.mem_pair.1 hc with rfl | rfl
  · exact ⟨rfl, by decide⟩
  · exact ⟨rfl, by decide⟩

theorem optionText_toList : (optionText o).toList = ['-', 'c'] ++ ' ' :: optionWord o := by
  simp [optionText, optionWord]

theorem options_split (h : ∀ o ∈ os, Spelled o) (hos : os ≠ []) :
    ∃ rest, (" ".intercalate (os.map optionText)).toList = ['-', 'c'] ++ ' ' :: rest ∧
      ['-', 'c'] :: Reading.between.split rest = optionWords os := by
  induction os with
  | nil => exact absurd rfl hos
  | cons o os ih =>
    have ho : Spelled o := h o List.mem_cons_self
    have hword : optionWord o ≠ [] := by simp [optionWord]
    cases os with
    | nil =>
      refine ⟨optionWord o, ?_, ?_⟩
      · rw [List.map_singleton, String.intercalate_singleton, optionText_toList]
      · rw [Reading.split_between_word ho.plain hword]
        rfl
    | cons o' os =>
      obtain ⟨rest, hrest, hwords⟩ := ih (fun o hmem => h o (List.mem_cons_of_mem _ hmem))
        (List.cons_ne_nil o' os)
      refine ⟨optionWord o ++ ' ' :: (['-', 'c'] ++ ' ' :: rest), ?_, ?_⟩
      · rw [List.map_cons, List.map_cons, String.intercalate_cons_cons, ← List.map_cons,
          String.toList_append, String.toList_append, hrest, optionText_toList]
        simp
      · rw [Reading.split_between_space ho.plain hword, Reading.split_between_space dash_plain
          (List.cons_ne_nil _ _), hwords]
        rfl

def joined (existing : String) (os : List (String × String)) : String :=
  " ".intercalate (if existing = "" then os.map optionText else existing :: os.map optionText)

theorem joined_toList {existing : String} (he : existing ≠ "") (hos : os ≠ []) :
    (joined existing os).toList = existing.toList ++ ' ' ::
      (" ".intercalate (os.map optionText)).toList := by
  obtain ⟨o, os, rfl⟩ := List.exists_cons_of_ne_nil hos
  rw [joined, if_neg he, List.map_cons, String.intercalate_cons_cons]
  simp

variable {S : Postmaster} {existing : String}

theorem scan_optionWords (h : ∀ o ∈ os, Spelled o) :
    scan S.known .switches (optionWords os) = some (.switches, os) := by
  induction os with
  | nil => rfl
  | cons o os ih =>
    have hcons : optionWords (o :: os) = ['-', 'c'] :: optionWord o :: optionWords os := rfl
    rw [hcons, scan_takes S.known_c (by decide) (h o List.mem_cons_self).parse,
      ih fun o ho => h o (List.mem_cons_of_mem _ ho)]
    rfl

def Ended (S : Postmaster) (options : String) : Prop :=
  ∃ cmd, scan S.known .switches (Reading.between.split options.toList) = some (.ended, cmd)

def Escaped (options : String) : Prop := (options.toList.foldl Reading.next .between).escaped = true

theorem scan_joined (h : ∀ o ∈ os, Spelled o) (hos : os ≠ []) (hesc : ¬ Escaped existing) :
    Reading.between.split (joined existing os).toList = Reading.between.split existing.toList ++
      optionWords os := by
  obtain ⟨rest, hrest, hwords⟩ := options_split h hos
  have hnew : Reading.between.split (" ".intercalate (os.map optionText)).toList =
      optionWords os := by
    rw [hrest, Reading.split_between_space dash_plain (List.cons_ne_nil _ _), hwords]
  by_cases he : existing = ""
  · rw [joined, if_pos he, he, hnew]
    rfl
  · rw [joined_toList he hos, Reading.split_space (Bool.not_eq_true _ ▸ hesc), hnew]

theorem switches_joined (h : ∀ o ∈ os, Spelled o) (hos : os ≠ []) (hesc : ¬ Escaped existing)
    (hend : ¬ Ended S existing) :
    S.switches (joined existing os) = (S.switches existing).map (· ++ os) := by
  have hcons : ∃ o os', os = o :: os' ∧ Spelled o := by
    obtain ⟨o, os', rfl⟩ := List.exists_cons_of_ne_nil hos
    exact ⟨o, os', rfl, h o List.mem_cons_self⟩
  rw [Postmaster.switches, Postmaster.switches, scan_joined h hos hesc]
  unfold getopt
  rw [scan_append]
  cases hscan : scan S.known .switches (Reading.between.split existing.toList) with
  | none => rfl
  | some r =>
    obtain ⟨st, cmd⟩ := r
    cases st with
    | ended => exact absurd ⟨cmd, hscan⟩ hend
    | switches => rw [Option.bind_some, scan_optionWords h]; rfl
    | argument settings =>
      -- the first switch is taken as the argument, and its own argument is refused
      obtain ⟨o, os', rfl, ho⟩ := hcons
      have hnone : scan S.known (.argument settings) (optionWords (o :: os')) = none :=
        scan_takes_of_ne (fun heq => by cases heq) ho.head_ne
      rw [Option.bind_some, hnone]
      rfl

theorem switches_joined_eq_none (h : ∀ o ∈ os, Spelled o) (hos : os ≠ [])
    (hcut : Escaped existing ∨ Ended S existing) : S.switches (joined existing os) = none := by
  obtain ⟨o, os', rfl⟩ := List.exists_cons_of_ne_nil hos
  have ho : Spelled o := h o List.mem_cons_self
  have hnone : scan S.known .switches (Reading.between.split (joined existing (o :: os')).toList) =
      none := by
    by_cases hesc : Escaped existing
    · have he : existing ≠ "" := fun he => by subst he; cases hesc
      obtain ⟨rest, hrest, hwords⟩ := options_split h hos
      obtain ⟨w, -, hsplit⟩ := Reading.split_escaped_space (t := ['-', 'c'] ++ ' ' :: rest) hesc
      have htail : Reading.between.split rest = optionWord o :: optionWords os' :=
        (List.cons.inj hwords).2
      rw [joined_toList he hos, hrest, hsplit, Reading.split_word_space dash_plain, htail,
        scan_append]
      refine Option.bind_eq_none_iff.2 fun r _ => ?_
      rw [Option.map_eq_none_iff, scan_cons, List.append_assoc]
      refine Option.bind_eq_none_iff.2 fun q hq => ?_
      rw [word_of_unknown S.known_space (by decide) hq, scan_cons, Scan.word,
        switch_of_head_ne ho.head_ne]
      rfl
    · obtain ⟨cmd, hend⟩ := hcut.resolve_left hesc
      have hnone : scan S.known .ended (optionWords (o :: os')) = none :=
        scan_takes_of_ne (fun heq => by cases heq) ho.head_ne
      rw [scan_joined h hos hesc, scan_append, hend, Option.bind_some, hnone]
      rfl
  rw [Postmaster.switches, getopt, hnone]

end Options

section Limits

variable {rs : Ruleset} {n : Int}

theorem not_blank_of_isDigit {c : Char} (h : c.isDigit = true) : blank c = false ∧ c ≠ '\\' := by
  refine ⟨Bool.eq_false_iff.2 fun hb => ?_, fun hc => by subst hc; cases h⟩
  simp only [blank, List.mem_cons, List.not_mem_nil, or_false, decide_eq_true_eq] at hb
  rcases hb with rfl | rfl | rfl | rfl | rfl | rfl <;> cases h

theorem toString_plain (h : 0 < n) : Reading.Plain (toString n).toList := by
  obtain ⟨m, rfl⟩ := Int.eq_ofNat_of_zero_le (Int.le_of_lt h)
  intro c hc
  have hdigits : (toString (m : Int)).toList = Nat.toDigits 10 m := String.toList_ofList
  rw [hdigits] at hc
  exact not_blank_of_isDigit (Nat.isDigit_of_mem_toDigits (by decide) (by decide) hc)

theorem spelled_of_plain {name value : String} (hname : Reading.Plain name.toList)
    (hdash : '=' ∉ name.toList ∧ '-' ∉ name.toList) (hfold : foldName name = name)
    (hvalue : Reading.Plain value.toList) : Spelled (name, value) where
  plain c hc := by
    rcases List.mem_append.1 hc with hc | hc
    · exact hname c hc
    · rcases List.mem_cons.1 hc with rfl | hc
      · exact ⟨rfl, by decide⟩
      · exact hvalue c hc
  name c hc := ⟨fun heq => hdash.1 (heq ▸ hc), fun heq => hdash.2 (heq ▸ hc)⟩
  folded := hfold

theorem limitSettings_spelled : ∀ o ∈ limitSettings rs, Spelled o := by
  intro o ho
  simp only [limitSettings, List.mem_append, List.mem_ite_nil_right, List.mem_singleton] at ho
  rcases ho with ⟨hpos, rfl⟩ | ⟨hpos, rfl⟩
  · exact spelled_of_plain (by decide) (by decide) (by decide) (toString_plain hpos)
  · refine spelled_of_plain (by decide) (by decide) (by decide) fun c hc => ?_
    rcases List.mem_append.1 (String.toList_append ▸ hc) with hc | hc
    · exact toString_plain hpos c hc
    · exact (by decide : Reading.Plain "ms".toList) c hc

def pins (rs : Ruleset) : List (String × String) := isolationDefault :: limitSettings rs

theorem nodup_pins : ((pins rs).map Prod.fst).Nodup := by
  unfold pins limitSettings isolationDefault
  split <;> split <;> simp

end Limits

section Settings

variable {S : Postmaster} {rs : Ruleset} {ps ps' l : Params} {own new : Started} {k v name : String}

def clientOptions (ps : Params) : String := (lastValue ps "options").getD ""

theorem get_handshake (hk : k ≠ "options") : (handshake rs ps).get k =
    if k = isolationDefault.1 then some isolationDefault.2 else lastValue ps k := by
  simp only [handshake, rewriteStartup, List.foldl_cons, List.foldl_nil]
  split
  · rw [Dict.get_set, Dict.get_ofList]
  · rw [Dict.get_set, if_neg hk, Dict.get_set, Dict.get_ofList]

theorem options_handshake : ((handshake rs ps).get "options").getD "" =
    if limitSettings rs = [] then clientOptions ps else joined (clientOptions ps)
      (limitSettings rs) := by
  have hset : ((Dict.ofList ps).set isolationDefault.1 isolationDefault.2).get "options" =
      lastValue ps "options" := by
    rw [Dict.get_set, if_neg (by decide), Dict.get_ofList]
  simp only [handshake, rewriteStartup, List.foldl_cons, List.foldl_nil, List.map_eq_nil_iff, hset]
  split
  · rw [hset, clientOptions]
  · rw [Dict.get_set, if_pos rfl]
    rfl

/-- The client's message leaves the proxy's settings alone: its options do not cut off
the ones that follow, none of its parameters gives one of the settings another value, and
the parameters that spell one name in several ways give it one value. -/
structure Undisturbed (S : Postmaster) (rs : Ruleset) (ps : Params) : Prop where
  unescaped : limitSettings rs ≠ [] → ¬ Escaped (clientOptions ps)
  unended : limitSettings rs ≠ [] → ¬ Ended S (clientOptions ps)
  pinned : ∀ k v, lastValue ps k = some v → reserved k = false → k ≠ isolationDefault.1 →
    ∀ p ∈ pins rs, foldName k = p.1 → S.read p.1 v = S.read p.1 p.2
  alike : ∀ k v k' v', lastValue ps k = some v → lastValue ps k' = some v' → reserved k = false →
    reserved k' = false →
    foldName k = foldName k' → foldName k ∉ (pins rs).map Prod.fst → S.read (foldName k) v =
      S.read (foldName k) v'

/-- The proxy's settings have its values, and everything else is as the client's own
message leaves it. -/
structure Wins (S : Postmaster) (rs : Ruleset) (own new : Started) : Prop where
  pinned : ∀ p ∈ pins rs, new.setting p.1 = S.read p.1 p.2
  kept : ∀ name ∉ (pins rs).map Prod.fst, new.setting name = own.setting name
  parameter : new.parameter = own.parameter

theorem switches_handshake (h : Undisturbed S rs ps) (hperm : ps'.Perm (handshake rs ps).pairs) :
    S.switches (clientOptions ps') = (S.switches (clientOptions ps)).map
      (· ++ limitSettings rs) := by
  rw [clientOptions, Dict.lastValue_of_perm hperm, options_handshake]
  split
  · next hnil => simp [hnil]
  · next hne => exact switches_joined limitSettings_spelled hne (h.unescaped hne) (h.unended hne)

theorem mem_handshake (hperm : ps'.Perm (handshake rs ps).pairs) (hmem : (k, v) ∈ ps')
    (hk : k ≠ "options") :
    (k, v) = isolationDefault ∨ k ≠ isolationDefault.1 ∧ lastValue ps k = some v := by
  have hget := Dict.mem_pairs.1 (hperm.mem_iff.1 hmem)
  rw [get_handshake hk] at hget
  split at hget
  · next hiso => exact .inl (Prod.ext hiso (Option.some.inj hget).symm)
  · next hiso => exact .inr ⟨hiso, hget⟩

theorem ne_options_of_reserved (h : reserved k = false) : k ≠ "options" :=
  fun hk => by subst hk; cases h

theorem exists_of_writes (h : lastValue (Postmaster.writes ps []) name = some v) :
    ∃ k, foldName k = name ∧ reserved k = false ∧ lastValue ps k = some v := by
  obtain ⟨k, hk, hres, hv⟩ := exists_lastValue_of_map (p := fun k => !reserved k) h
  exact ⟨k, hk, by simpa using hres, hv⟩

theorem writes_isSome (h : lastValue ps k = some v) (hres : reserved k = false) :
    (lastValue (Postmaster.writes ps []) (foldName k)).isSome = true :=
  lastValue_isSome_of_mem (Postmaster.mem_writes.2 (.inr ⟨(k, v), mem_of_lastValue h, hres, rfl⟩))

theorem lastValue_handshake_of_ne (hperm : ps'.Perm (handshake rs ps).pairs)
    (hres : reserved k = false) (h : lastValue ps' k = some v) :
    (k, v) = isolationDefault ∨ k ≠ isolationDefault.1 ∧ lastValue ps k = some v :=
  mem_handshake hperm (mem_of_lastValue h) (ne_options_of_reserved hres)

theorem lastValue_limitSettings {cmd : Params} {p : String × String} (hp : p ∈ limitSettings rs) :
    lastValue (Postmaster.writes [] (cmd ++ limitSettings rs)) p.1 = some p.2 := by
  have hsame : (limitSettings rs).map (fun w => (foldName w.1, w.2)) = limitSettings rs :=
    (List.map_congr_left fun o ho => by rw [(limitSettings_spelled o ho).folded]; rfl).trans
      (List.map_id _)
  have hnodup : ((limitSettings rs).map Prod.fst).Nodup := (List.nodup_cons.1 nodup_pins).2
  rw [Postmaster.writes, List.filter_nil, List.append_nil, List.map_append, lastValue_append, hsame,
    (lastValue_eq_some_iff hnodup).2 hp, Option.some_or]

theorem lastValue_of_notMem {cmd : Params} (hname : name ∉ (pins rs).map Prod.fst) :
    lastValue (Postmaster.writes [] (cmd ++ limitSettings rs)) name =
      lastValue (Postmaster.writes [] cmd) name := by
  have hnone : lastValue ((limitSettings rs).map fun w => (foldName w.1, w.2)) name = none := by
    refine lastValue_eq_none_iff.2 fun q hq hqn => hname ?_
    obtain ⟨o, ho, rfl⟩ := List.mem_map.1 hq
    rw [← hqn, (limitSettings_spelled o ho).folded]
    exact List.mem_map_of_mem (List.mem_cons_of_mem _ ho)
  simp only [Postmaster.writes, List.filter_nil, List.append_nil, List.map_append, lastValue_append,
    hnone, Option.none_or]

theorem pinned_of_start (h : Undisturbed S rs ps) (hperm : ps'.Perm (handshake rs ps).pairs)
    (hnew : S.start ps' = some new) {p : String × String} (hp : p ∈ pins rs) :
    new.setting p.1 = S.read p.1 p.2 := by
  obtain ⟨cmd', hcmd', -, -, rfl⟩ := Postmaster.start_eq_some_iff.1 hnew
  obtain ⟨cmd, -, rfl⟩ := Option.map_eq_some_iff.1 ((switches_handshake h hperm).symm.trans hcmd')
  have hvalue : ∃ v, lastValue (Postmaster.writes ps' (cmd ++ limitSettings rs)) p.1 = some v ∧
      S.read p.1 v = S.read p.1 p.2 := by
    rw [Postmaster.lastValue_writes]
    cases hv : lastValue (Postmaster.writes ps' []) p.1 with
    | some v =>
      refine ⟨v, Option.some_or, ?_⟩
      obtain ⟨k, hk, hres, hlast⟩ := exists_of_writes hv
      rcases lastValue_handshake_of_ne hperm hres hlast with hiso | ⟨hiso, hlast⟩
      · -- the name is the isolation level's, and no other setting of the proxy has it
        obtain ⟨rfl, rfl⟩ := Prod.mk.inj hiso
        have hmem : isolationDefault ∈ pins rs := List.mem_cons_self
        have hfold : foldName isolationDefault.1 = isolationDefault.1 := by decide
        rw [List.inj_on_of_nodup_map nodup_pins hp hmem (hk.symm.trans hfold)]
        rfl
      · exact h.pinned k v hlast hres hiso p hp hk
    | none =>
      rcases List.mem_cons.1 hp with rfl | hp
      · have hmem : isolationDefault ∈ ps' :=
          hperm.mem_iff.2 (Dict.mem_pairs.2 (get_handshake (by decide)))
        have hwrite : (isolationDefault.1, isolationDefault.2) ∈ Postmaster.writes ps' [] :=
          Postmaster.mem_writes.2 (.inr ⟨isolationDefault, hmem, by decide, by decide⟩)
        exact absurd rfl (lastValue_eq_none_iff.1 hv _ hwrite)
      · exact ⟨p.2, by rw [Option.none_or, lastValue_limitSettings hp], rfl⟩
  obtain ⟨v, hv, hread⟩ := hvalue
  rw [Postmaster.started, ← hread]
  simp [hv]

theorem setting_concat (h : S.start (l ++ [(k, v)]) = some new) (hres : reserved k = false) :
    new.setting (foldName k) = S.read (foldName k) v := by
  obtain ⟨cmd, -, -, -, rfl⟩ := Postmaster.start_eq_some_iff.1 h
  have hlast : lastValue (Postmaster.writes (l ++ [(k, v)]) cmd) (foldName k) = some v := by
    have hfilter : (l ++ [(k, v)]).filter (fun p => !reserved p.1) =
        l.filter (fun p => !reserved p.1) ++ [(k, v)] := by
      simp [List.filter_append, hres]
    rw [Postmaster.writes, hfilter, ← List.append_assoc, List.map_append, List.map_singleton,
      lastValue_concat]
  simp [Postmaster.started, hlast]

theorem kept_of_start (h : Undisturbed S rs ps) (hperm : ps'.Perm (handshake rs ps).pairs)
    {cmd : Params} (hname : name ∉ (pins rs).map Prod.fst) :
    (S.started ps' (cmd ++ limitSettings rs)).setting name = (S.started ps cmd).setting name := by
  have hiso {k : String} (hk : foldName k = name) : k ≠ isolationDefault.1 := fun heq => by
    subst heq
    exact hname (hk ▸ List.mem_map_of_mem (f := Prod.fst)
      (List.mem_cons_self (a := isolationDefault)))
  have hback {k w : String} (hk : foldName k = name) (hres : reserved k = false)
    (hw : lastValue ps k = some w) :
      (lastValue (Postmaster.writes ps' []) name).isSome = true := by
    have hget : lastValue ps' k = some w := by
      rw [Dict.lastValue_of_perm hperm, get_handshake (ne_options_of_reserved hres),
        if_neg (hiso hk), hw]
    exact hk ▸ writes_isSome hget hres
  have hclient : lastValue (Postmaster.writes ps cmd) name =
      (lastValue (Postmaster.writes ps []) name).or (lastValue (Postmaster.writes [] cmd) name) :=
        Postmaster.lastValue_writes
  simp only [Postmaster.started]
  rw [hclient, Postmaster.lastValue_writes]
  cases hnew : lastValue (Postmaster.writes ps' []) name with
  | some v =>
    obtain ⟨k, hk, hres, hlast⟩ := exists_of_writes hnew
    have hown := ((lastValue_handshake_of_ne hperm hres hlast).resolve_left fun heq =>
      hiso hk (Prod.mk.inj heq).1).2
    obtain ⟨v', hv'⟩ := Option.isSome_iff_exists.1 (hk ▸ writes_isSome hown hres)
    obtain ⟨k', hk', hres', hlast'⟩ := exists_of_writes hv'
    rw [hv', Option.some_or, Option.some_or, Option.bind_some, Option.bind_some]
    subst hk
    exact h.alike k v k' v' hown hlast' hres hres' hk'.symm hname
  | none =>
    have hown : lastValue (Postmaster.writes ps []) name = none := by
      cases hv : lastValue (Postmaster.writes ps []) name with
      | none => rfl
      | some v =>
        obtain ⟨k, hk, hres, hlast⟩ := exists_of_writes hv
        have := hback hk hres hlast
        rw [hnew] at this
        cases this
    rw [hown, Option.none_or, Option.none_or, lastValue_of_notMem hname]

theorem parameter_of_start (hperm : ps'.Perm (handshake rs ps).pairs) {cmd cmd' : Params} :
    (S.started ps' cmd').parameter = (S.started ps cmd).parameter := by
  funext name
  simp only [Postmaster.started]
  split
  · next hres =>
    simp only [Bool.and_eq_true, decide_eq_true_eq] at hres
    have hiso : name ≠ isolationDefault.1 := fun heq => by subst heq; cases hres.1
    rw [Dict.lastValue_of_perm hperm, get_handshake hres.2, if_neg hiso]
  · rfl

theorem wins_of_undisturbed (haccept : ∀ p ∈ pins rs, (S.read p.1 p.2).isSome = true)
    (h : Undisturbed S rs ps) (hown : S.start ps = some own)
    (hperm : ps'.Perm (handshake rs ps).pairs) :
    ∃ new, S.start ps' = some new ∧ Wins S rs own new := by
  obtain ⟨cmd, hcmd, hname, hread, rfl⟩ := Postmaster.start_eq_some_iff.1 hown
  have hnew : S.start ps' = some (S.started ps' (cmd ++ limitSettings rs)) := by
    refine Postmaster.start_eq_some_iff.2 ⟨_, ?_, ?_, ?_, rfl⟩
    · exact (switches_handshake h hperm).trans (congrArg (Option.map (· ++ limitSettings rs)) hcmd)
    · rintro ⟨k, v⟩ hp hk
      obtain rfl : k = "" := hk
      rcases mem_handshake hperm hp (by decide) with hiso | ⟨-, hlast⟩
      · exact absurd (Prod.mk.inj hiso).1 (by decide)
      · exact hname _ (mem_of_lastValue hlast) rfl
    · intro w hw
      rcases Postmaster.mem_writes.1 hw with ⟨p, hp, rfl⟩ | ⟨⟨k, v⟩, hp, hres, rfl⟩
      · rcases List.mem_append.1 hp with hp | hp
        · exact hread _ (Postmaster.mem_writes.2 (.inl ⟨p, hp, rfl⟩))
        · simp only [(limitSettings_spelled p hp).folded]
          exact haccept p (List.mem_cons_of_mem _ hp)
      · rcases mem_handshake hperm hp (ne_options_of_reserved hres) with hiso | ⟨-, hlast⟩
        · obtain ⟨rfl, rfl⟩ := Prod.mk.inj hiso
          exact haccept isolationDefault List.mem_cons_self
        · exact hread _ (Postmaster.mem_writes.2 (.inr ⟨(k, v), mem_of_lastValue hlast, hres, rfl⟩))
  exact ⟨_, hnew, fun p hp => pinned_of_start h hperm hnew hp, fun name hn =>
    kept_of_start h hperm hn,
    parameter_of_start hperm⟩

theorem undisturbed_of_wins
    (h : ∀ ps', ps'.Perm (handshake rs ps).pairs → ∃ new, S.start ps' = some new ∧
      Wins S rs own new) : Undisturbed S rs ps := by
  have hlast {k v : String} (hv : lastValue ps k = some v) (hres : reserved k = false)
    (hk : k ≠ isolationDefault.1) :
      ∃ new, new.setting (foldName k) = S.read (foldName k) v ∧ Wins S rs own new := by
    have hget : (handshake rs ps).get k = some v := by
      rw [get_handshake (ne_options_of_reserved hres), if_neg hk, hv]
    obtain ⟨l, hl⟩ := Dict.exists_perm_concat hget
    obtain ⟨new, hnew, hwins⟩ := h _ hl
    exact ⟨new, setting_concat hnew hres, hwins⟩
  have hcut (hne : limitSettings rs ≠ []) : ¬ (Escaped (clientOptions ps) ∨
      Ended S (clientOptions ps)) := fun hcut => by
    obtain ⟨new, hnew, -⟩ := h _ (List.Perm.refl _)
    obtain ⟨cmd, hcmd, -⟩ := Postmaster.start_eq_some_iff.1 hnew
    have hoptions : (lastValue (handshake rs ps).pairs "options").getD "" =
        joined (clientOptions ps) (limitSettings rs) :=
      options_handshake.trans (if_neg hne)
    rw [hoptions, switches_joined_eq_none limitSettings_spelled hne hcut] at hcmd
    cases hcmd
  refine ⟨fun hne hesc => hcut hne (.inl hesc), fun hne hend => hcut hne (.inr hend), ?_, ?_⟩
  · intro k v hv hres hk p hp hname
    obtain ⟨new, hset, hwins⟩ := hlast hv hres hk
    rw [← hname, ← hset, hname, hwins.pinned p hp]
  · intro k v k' v' hv hv' hres hres' hname hpin
    have hiso {k : String} (hk : foldName k ∉ (pins rs).map Prod.fst) : k ≠ isolationDefault.1 :=
        fun heq => by
      subst heq
      exact hk (List.mem_map_of_mem (f := Prod.fst) (List.mem_cons_self (a := isolationDefault)))
    obtain ⟨new, hset, hwins⟩ := hlast hv hres (hiso hpin)
    obtain ⟨new', hset', hwins'⟩ := hlast hv' hres' (hiso (hname ▸ hpin))
    rw [← hset, hwins.kept _ hpin, hname, ← hset', hwins'.kept _ (hname ▸ hpin)]

/-- In every order that the message may be sent in, the proxy's settings win and the
client's other ones are kept, just when the client's message leaves them alone. -/
theorem startup_settings_iff (haccept : ∀ p ∈ pins rs, (S.read p.1 p.2).isSome = true)
    (ps : Params) :
    (Undisturbed S rs ps → ∀ ps' new, ps'.Perm (handshake rs ps).pairs → S.start ps' = some new →
      ∀ p ∈ pins rs, new.setting p.1 = S.read p.1 p.2) ∧
    ∀ own, S.start ps = some own →
      ((∀ ps', ps'.Perm (handshake rs ps).pairs → ∃ new, S.start ps' = some new ∧
          Wins S rs own new) ↔ Undisturbed S rs ps) :=
  ⟨fun h _ _ hperm hnew _ hp => pinned_of_start h hperm hnew hp, fun _ hown =>
    ⟨undisturbed_of_wins, fun h _ hperm => wins_of_undisturbed haccept h hown hperm⟩⟩

def plainPostmaster : Postmaster where
  known c := if c = 'c' ∨ c = '-' then some (.takes parseLongOption) else none
  read _ value := some value
  known_c := rfl
  known_dash := rfl
  known_space := rfl

def zonedClient : Params :=
  [("user", "admin"), ("timezone", "UTC"), ("options", "-c lock_timeout=10s --search-path=a")]

theorem startup_settings_iff_zoned :
    ∃ own, plainPostmaster.start zonedClient = some own ∧ own.setting "search_path" = some "a" ∧
      ((∀ ps', ps'.Perm (handshake embedded zonedClient).pairs →
          ∃ new, plainPostmaster.start ps' = some new ∧ Wins plainPostmaster embedded own new) ↔
        Undisturbed plainPostmaster embedded zonedClient) := by
  have hsome : (plainPostmaster.start zonedClient).isSome = true := by decide +kernel
  have hpath : (plainPostmaster.start zonedClient).bind (·.setting "search_path") = some "a" := by
    decide +kernel
  obtain ⟨own, hown⟩ := Option.isSome_iff_exists.1 hsome
  rw [hown, Option.bind_some] at hpath
  exact ⟨own, hown, hpath, (startup_settings_iff (fun _ _ => rfl) zonedClient).2 own hown⟩

/-- A lock timeout sent as a parameter wins over the proxy's, and options that end in a
backslash are accepted alone and refused with the proxy's after them. -/
theorem startup_settings_lost :
    (plainPostmaster.start (handshake embedded [("user", "admin"),
        ("lock_timeout", "10s")]).pairs).map (·.setting "lock_timeout") =
        some (some "10s") ∧
      ("lock_timeout", "50ms") ∈ pins embedded ∧
      (plainPostmaster.start [("user", "admin"), ("options", "-c timezone=UTC\\")]).map
        (·.setting "timezone") = some (some "UTC") ∧
      (plainPostmaster.start (handshake embedded [("user", "admin"),
          ("options", "-c timezone=UTC\\")]).pairs).isNone = true := by
  decide +kernel

end Settings

end DsqlEmulator.Wire
