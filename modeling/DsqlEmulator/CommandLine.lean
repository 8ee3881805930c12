import Mathlib.Data.List.Basic

/-! Command lines: a text split into words on unescaped white space, and the words read as
switches, some with an argument of their own. -/

universe u

namespace DsqlEmulator.CommandLine

section Words

def blank (c : Char) : Bool := c ∈ [' ', '\t', '\n', '\x0b', '\x0c', '\r']

/-- Between two words, or in one: what it holds so far, and whether a backslash has just
been read. -/
inductive Reading : Type
  | between
  | word (w : List Char) (escaped : Bool)
  deriving DecidableEq, Repr

namespace Reading

def next : Reading → Char → Reading
  | .between, c => if blank c then .between else if c = '\\' then .word [] true else .word [c] false
  | .word w escaped, c =>
    if blank c && !escaped then .between
    else if !escaped && c = '\\' then .word w true
    else .word (w ++ [c]) false

def ended : Reading → Char → List (List Char)
  | .between, _ => []
  | .word w escaped, c => if blank c && !escaped then [w] else []

def last : Reading → List (List Char)
  | .between => []
  | .word w _ => [w]

def words : Reading → List Char → List (List Char)
  | _, [] => []
  | r, c :: cs => r.ended c ++ (r.next c).words cs

def split (r : Reading) (s : List Char) : List (List Char) := r.words s ++ (s.foldl next r).last

variable {r : Reading} {s t w : List Char}

theorem words_append : r.words (s ++ t) = r.words s ++ (s.foldl next r).words t := by
  induction s generalizing r with
  | nil => rfl
  | cons c s ih => simp [words, ih]

theorem split_append : r.split (s ++ t) = r.words s ++ (s.foldl next r).split t := by
  rw [split, split, words_append, List.foldl_append, List.append_assoc]

/-- No character of the text ends a word or escapes another. -/
def Plain (s : List Char) : Prop := ∀ c ∈ s, blank c = false ∧ c ≠ '\\'

instance : Decidable (Plain s) := List.decidableBAll (fun c => blank c = false ∧ c ≠ '\\') s

theorem foldl_plain (h : Plain s) : s.foldl next (.word w false) = .word (w ++ s) false := by
  induction s generalizing w with
  | nil => rw [List.append_nil]; rfl
  | cons c s ih =>
    obtain ⟨hblank, hslash⟩ := h c List.mem_cons_self
    have hnext : next (.word w false) c = .word (w ++ [c]) false := by simp [next, hblank, hslash]
    rw [List.foldl_cons, hnext, ih fun d hd => h d (List.mem_cons_of_mem c hd), List.append_assoc]
    rfl

theorem words_plain (h : Plain s) : (Reading.word w false).words s = [] := by
  induction s generalizing w with
  | nil => rfl
  | cons c s ih =>
    obtain ⟨hblank, hslash⟩ := h c List.mem_cons_self
    have hnext : next (.word w false) c = .word (w ++ [c]) false := by simp [next, hblank, hslash]
    rw [words, hnext, ih fun d hd => h d (List.mem_cons_of_mem c hd)]
    simp [ended, hblank]

theorem split_word_space (h : Plain s) :
    (Reading.word w false).split (s ++ ' ' :: t) = (w ++ s) :: between.split t := by
  rw [split_append, words_plain h, foldl_plain h]
  rfl

theorem split_word (h : Plain s) : (Reading.word w false).split s = [w ++ s] := by
  rw [split, words_plain h, foldl_plain h]
  rfl

theorem split_between {c : Char} (h : blank c = false) (hslash : c ≠ '\\') :
    between.split (c :: t) = (Reading.word [] false).split (c :: t) := by
  simp [split, words, next, ended, h, hslash]

theorem split_between_space (h : Plain s) (hs : s ≠ []) :
    between.split (s ++ ' ' :: t) = s :: between.split t := by
  cases s with
  | nil => exact absurd rfl hs
  | cons c s =>
    obtain ⟨hblank, hslash⟩ := h c List.mem_cons_self
    exact (split_between hblank hslash).trans (split_word_space h)

theorem split_between_word (h : Plain s) (hs : s ≠ []) : between.split s = [s] := by
  cases s with
  | nil => exact absurd rfl hs
  | cons c s =>
    obtain ⟨hblank, hslash⟩ := h c List.mem_cons_self
    exact (split_between hblank hslash).trans (split_word h)

def escaped : Reading → Bool
  | .word _ escaped => escaped
  | .between => false

theorem split_space (h : (s.foldl next r).escaped = false) :
    r.split (s ++ ' ' :: t) = r.split s ++ between.split t := by
  rw [split_append, split.eq_1 r, List.append_assoc]
  congr 1
  cases hr : s.foldl next r with
  | between => rfl
  | word w escaped =>
    rw [hr] at h
    subst h
    rfl

theorem split_escaped_space (h : (s.foldl next r).escaped = true) :
    ∃ w, r.split s = r.words s ++ [w] ∧
    r.split (s ++ ' ' :: t) = r.words s ++ (Reading.word (w ++ [' ']) false).split t := by
  rw [split_append, split]
  cases hr : s.foldl next r with
  | between => rw [hr] at h; cases h
  | word w escaped =>
    rw [hr] at h
    obtain rfl : escaped = true := h
    exact ⟨w, rfl, rfl⟩

end Reading

end Words

section Switches

variable {α : Type u}

inductive Switch (α : Type u) : Type u
  | flag (settings : List α)
  | takes (settings : List Char → Option (List α))

inductive Scan (α : Type u) : Type u
  | switches
  | argument (settings : List Char → Option (List α))
  | ended

variable (known : Char → Option (Switch α))

def cluster : List Char → Option (Scan α × List α)
  | [] => some (.switches, [])
  | c :: cs =>
    match known c with
    | none => none
    | some (.flag settings) => (cluster cs).map fun r => (r.1, settings ++ r.2)
    | some (.takes settings) =>
      if cs = [] then some (.argument settings, []) else (settings cs).map fun xs => (.switches, xs)

def switch (w : List Char) : Option (Scan α × List α) :=
  if w = ['-', '-'] then some (.ended, [])
  else match w with
    | '-' :: c :: cs => cluster known (c :: cs)
    | _ => none

def Scan.word : Scan α → List Char → Option (Scan α × List α)
  | .switches, w => switch known w
  | .argument settings, w => (settings w).map fun xs => (.switches, xs)
  | .ended, _ => none

def scan : Scan α → List (List Char) → Option (Scan α × List α)
  | st, [] => some (st, [])
  | st, w :: ws => do
    let (st, xs) ← st.word known w
    let (st, ys) ← scan st ws
    return (st, xs ++ ys)

def getopt (ws : List (List Char)) : Option (List α) :=
  match scan known .switches ws with
  | some (.switches, xs) => some xs
  | some (.ended, xs) => some xs
  | some (.argument _, _) => none
  | none => none

variable {known} {st : Scan α} {ws vs : List (List Char)} {x y w : List Char} {r : Scan α × List α}

theorem scan_append : scan known st (ws ++ vs) =
    (scan known st ws).bind fun r => (scan known r.1 vs).map fun q => (q.1, r.2 ++ q.2) := by
  induction ws generalizing st with
  | nil => simp [scan]
  | cons w ws ih =>
    simp only [List.cons_append, scan, ih, Option.bind_eq_bind, Option.pure_def, Option.bind_assoc,
      Option.bind_some]
    refine Option.bind_congr fun r _ => ?_
    cases scan known r.1 ws with
    | none => rfl
    | some q => cases h : scan known q.1 vs <;> simp [h]

theorem switch_of_head_ne (h : w.head? ≠ some '-') : switch known w = none := by
  unfold switch
  rw [if_neg fun hw => h (by rw [hw]; rfl)]
  split
  · exact absurd rfl h
  · rfl

theorem cluster_of_unknown {c : Char} (h : known c = none)
    (hr : cluster known (x ++ c :: y) = some r) : r.1 = .switches := by
  induction x generalizing r with
  | nil => simp [cluster, h] at hr
  | cons d x ih =>
    rw [List.cons_append, cluster] at hr
    split at hr
    · simp at hr
    · obtain ⟨q, hq, rfl⟩ := Option.map_eq_some_iff.1 hr
      exact ih (r := q) hq
    · rw [if_neg (by simp)] at hr
      obtain ⟨xs, -, rfl⟩ := Option.map_eq_some_iff.1 hr
      rfl

theorem word_of_unknown {c : Char} (h : known c = none) (hdash : c ≠ '-')
    (hr : st.word known (x ++ c :: y) = some r) : r.1 = .switches := by
  cases st with
  | ended => cases hr
  | argument settings =>
    obtain ⟨xs, -, rfl⟩ := Option.map_eq_some_iff.1 hr
    rfl
  | switches =>
    have hne : x ++ c :: y ≠ ['-', '-'] := fun heq => by
      have hmem : c ∈ x ++ c :: y := List.mem_append_right x List.mem_cons_self
      simp [heq, hdash] at hmem
    rw [Scan.word] at hr
    unfold switch at hr
    rw [if_neg hne] at hr
    split at hr
    · next d cs heq =>
      -- the dash is in `x`, so the letter is among the ones that follow it
      cases x with
      | nil => exact absurd (List.cons.inj heq).1 hdash
      | cons e x =>
        rw [← (List.cons.inj heq).2] at hr
        exact cluster_of_unknown h hr
    · simp at hr

theorem scan_cons : scan known st (w :: ws) =
    (st.word known w).bind fun r => (scan known r.1 ws).map fun q => (q.1, r.2 ++ q.2) := by
  rw [scan]
  refine Option.bind_congr fun r _ => ?_
  cases h : scan known r.1 ws <;> simp [h]

theorem scan_takes {c : Char} {settings : List Char → Option (List α)} {xs : List α}
    (h : known c = some (.takes settings)) (hdash : c ≠ '-') (hw : settings w = some xs) :
    scan known .switches (['-', c] :: w :: ws) =
      (scan known .switches ws).map fun q => (q.1, xs ++ q.2) := by
  have hc : Scan.switches.word known ['-', c] = some (.argument settings, []) := by
    simp [Scan.word, switch, cluster, h, hdash]
  have harg : (Scan.argument settings).word known w = some (.switches, xs) := by
    simp [Scan.word, hw]
  rw [scan_cons, hc, Option.bind_some, scan_cons, harg, Option.bind_some, Option.map_map]
  rfl

theorem scan_takes_of_ne {c : Char} (hst : st ≠ .switches) (hw : w.head? ≠ some '-') :
    scan known st (['-', c] :: w :: ws) = none := by
  cases st with
  | switches => exact absurd rfl hst
  | ended => simp [scan_cons, Scan.word]
  | argument settings =>
    rw [scan_cons]
    cases h : (Scan.argument settings).word known ['-', c] with
    | none => rfl
    | some r =>
      obtain ⟨xs, -, rfl⟩ := Option.map_eq_some_iff.1 h
      rw [Option.bind_some, scan_cons, Scan.word, switch_of_head_ne hw]
      rfl

end Switches

end DsqlEmulator.CommandLine
