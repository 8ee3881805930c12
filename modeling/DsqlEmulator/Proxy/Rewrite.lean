import DsqlEmulator.Cuts

/-! `stripAsync` on the bytes of a text, where a slice out of range would stop the
program, and what it makes of the tokens. -/

namespace DsqlEmulator.Rewrite

open Cuts

inductive Token : Type
  | semicolon | create | unique | index | alter | table | ident | ifP | on
  | comment
  | other (name : String)
  deriving DecidableEq, Repr

/-- A token with its bounds in the bytes of the text. -/
structure ScanToken where
  token : Token
  start : Nat
  stop : Nat
  deriving DecidableEq, Repr

def asciiLower (b : UInt8) : UInt8 := if 65 ≤ b ∧ b ≤ 90 then b + 32 else b

def foldBytes : List UInt8 → List UInt8
  | 0xc5 :: 0xbf :: bs => 115 :: foldBytes bs
  | b :: bs => asciiLower b :: foldBytes bs
  | [] => []

/-- `strings.EqualFold` with `async`. -/
def equalFold (s : List UInt8) : Bool := foldBytes s = [97, 115, 121, 110, 99]

section StripAsync

def tokenAt (tokens : List ScanToken) (i : Nat) : Option Token := tokens[i]?.map ScanToken.token

def statements (tokens : List ScanToken) : List (List ScanToken) :=
  tokens.splitOnP (·.token = .semicolon)

def asyncCut (tokens : List ScanToken) (at_ : Nat) : Nat × Nat :=
  let bounds (i : Nat) : Nat × Nat := (tokens[i]?.map fun t => (t.start, t.stop)).getD (0, 0)
  ((bounds at_).1, if at_ + 1 < tokens.length then (bounds (at_ + 1)).1 else (bounds at_).2)

variable (sql : List UInt8)

def isAsync (tokens : List ScanToken) (i : Nat) : Option Bool :=
  match tokens[i]? with
  | none => some false
  | some t =>
    if t.token ≠ .ident ∨
      sql.length < t.stop then some false else (slice? sql t.start t.stop).map equalFold

def asyncKeyword (tokens : List ScanToken) : Option (Option Nat) :=
  match tokenAt tokens 0 with
  | some .create =>
    let at_ := if tokenAt tokens 1 = some .unique then 2 else 1
    if tokenAt tokens at_ ≠ some .index then some none
    else do
      let async ← isAsync sql tokens (at_ + 1)
      let next := tokenAt tokens (at_ + 2)
      return if async && (next = some .ident ∨ next = some .ifP ∨ next = some .on) then some
        (at_ + 1) else none
  | some .alter =>
    if tokenAt tokens 1 ≠ some .table then some none
    else do
      let async ← isAsync sql tokens 2
      return if async && tokenAt tokens 3 = some .ident then some 2 else none
  | _ => some none

/-- `none` stands for a slice out of range, and `some none` for a text that is left alone. -/
def stripAsync (tokens : List ScanToken) : Option (Option (List UInt8 × Nat)) := do
  let found ← (statements tokens).mapM (asyncKeyword sql)
  match found.findIdx? Option.isSome with
  | none => return none
  | some ordinal =>
    let cuts := ((statements tokens).zip found).filterMap fun (s, at_) => at_.map (asyncCut s)
    return some (← splice? sql 0 cuts, ordinal)

end StripAsync

def word (sql : List UInt8) (t : ScanToken) : Bool :=
  t.token = .ident && equalFold (slice sql t.start t.stop)

/-- The forms that the dialect spells with the keyword, and where it stands in them. -/
inductive Form (w : ScanToken → Bool) : List ScanToken → Nat → Prop
  | index {c i a n rest} : c.token = .create → i.token = .index → w a = true →
      n.token ∈ [.ident, .ifP, .on] → Form w (c :: i :: a :: n :: rest) 2
  | unique {c u i a n rest} : c.token = .create → u.token = .unique → i.token = .index →
      w a = true → n.token ∈ [.ident, .ifP, .on] → Form w (c :: u :: i :: a :: n :: rest) 3
  | table {c t a n rest} : c.token = .alter → t.token = .table → w a = true → n.token = .ident →
      Form w (c :: t :: a :: n :: rest) 2

/-- The tokens of a text: in it, in order, and none over another. -/
structure Scanned (sql : List UInt8) (tokens : List ScanToken) : Prop where
  bounds : ∀ t ∈ tokens, t.start ≤ t.stop ∧ t.stop ≤ sql.length
  ordered : tokens.Pairwise fun t t' => t.stop ≤ t'.start

section Recognised

variable {sql : List UInt8} {s : List ScanToken} {k : Nat}

theorem isAsync_eq (hb : ∀ t ∈ s, t.start ≤ t.stop ∧ t.stop ≤ sql.length) (i : Nat) :
    isAsync sql s i = some (s[i]?.any (word sql)) := by
  rw [isAsync]
  cases ht : s[i]? with
  | none => rfl
  | some t =>
    obtain ⟨hstart, hstop⟩ := hb t (List.mem_of_getElem? ht)
    by_cases hident : t.token = .ident
    · simp [hident, hstop.not_gt, slice?, hstart, hstop, word]
    · simp [hident, word]

theorem asyncKeyword_of_form (hb : ∀ t ∈ s, t.start ≤ t.stop ∧ t.stop ≤ sql.length)
    (h : Form (word sql) s k) : asyncKeyword sql s = some (some k) := by
  cases h with
  | index hc hi ha hn =>
    simp only [List.mem_cons, List.not_mem_nil, or_false] at hn
    simp [asyncKeyword, isAsync_eq hb, tokenAt, hc, hi, ha, hn]
  | unique hc hu hi ha hn =>
    simp only [List.mem_cons, List.not_mem_nil, or_false] at hn
    simp [asyncKeyword, isAsync_eq hb, tokenAt, hc, hu, hi, ha, hn]
  | table hc ht ha hn => simp [asyncKeyword, isAsync_eq hb, tokenAt, hc, ht, ha, hn]

theorem guarded_eq {A P : Prop} [Decidable A] [Decidable P] {j k : Nat} :
    (if A then some (if P then some j else none) else some none) = some (some k) ↔
      A ∧ P ∧ j = k := by
  by_cases hA : A <;> by_cases hP : P <;> simp [hA, hP]

theorem form_of_asyncKeyword (hb : ∀ t ∈ s, t.start ≤ t.stop ∧ t.stop ≤ sql.length)
    (h : asyncKeyword sql s = some (some k)) : Form (word sql) s k := by
  simp only [asyncKeyword, isAsync_eq hb, Option.bind_eq_bind, Option.bind_some, Option.pure_def,
    tokenAt] at h
  rcases s with _ | ⟨c, _ | ⟨i, _ | ⟨a, _ | ⟨n, rest⟩⟩⟩⟩
  · simp at h
  · cases hc : c.token <;> simp [hc] at h
  · cases hc : c.token <;> simp [hc] at h
  · cases hc : c.token <;> simp [hc] at h
    by_cases hu : i.token = .unique <;> simp [hu] at h
  · cases hc : c.token <;> simp [hc] at h
    · by_cases hu : i.token = .unique
      · rcases rest with _ | ⟨n', rest⟩
        · simp [hu] at h
        · simp [hu, guarded_eq] at h
          exact h.2.2 ▸ .unique hc hu h.1 h.2.1.1 (by simpa using h.2.1.2)
      · simp [hu, guarded_eq] at h
        exact h.2.2 ▸ .index hc h.1 h.2.1.1 (by simpa using h.2.1.2)
    · rw [guarded_eq] at h
      exact h.2.2 ▸ .table hc h.1 h.2.1.1 h.2.1.2

theorem asyncKeyword_isSome (hb : ∀ t ∈ s, t.start ≤ t.stop ∧ t.stop ≤ sql.length) :
    (asyncKeyword sql s).isSome = true := by
  simp only [asyncKeyword, isAsync_eq hb]
  repeat' split
  all_goals rfl

def keywordAt (sql : List UInt8) (s : List ScanToken) : Option Nat := (asyncKeyword sql s).join

theorem asyncKeyword_eq (hb : ∀ t ∈ s, t.start ≤ t.stop ∧ t.stop ≤ sql.length) :
    asyncKeyword sql s = some (keywordAt sql s) := by
  obtain ⟨found, hfound⟩ := Option.isSome_iff_exists.1 (asyncKeyword_isSome hb)
  rw [keywordAt, hfound, Option.join_some]

theorem keywordAt_iff (hb : ∀ t ∈ s, t.start ≤ t.stop ∧ t.stop ≤ sql.length) :
    keywordAt sql s = some k ↔ Form (word sql) s k := by
  rw [← Option.some_inj, ← asyncKeyword_eq hb]
  exact ⟨form_of_asyncKeyword hb, asyncKeyword_of_form hb⟩

theorem Form.split {w : ScanToken → Bool} (h : Form w s k) :
    ∃ x a n y, s = x ++ a :: n :: y ∧ x.length = k ∧ w a = true := by
  cases h with
  | @index c i a n rest _ _ ha _ => exact ⟨[c, i], a, n, rest, rfl, rfl, ha⟩
  | @unique c u i a n rest _ _ _ ha _ => exact ⟨[c, u, i], a, n, rest, rfl, rfl, ha⟩
  | @table c t a n rest _ _ ha _ => exact ⟨[c, t], a, n, rest, rfl, rfl, ha⟩

theorem asyncCut_eq {x y : List ScanToken} {a n : ScanToken} :
    asyncCut (x ++ a :: n :: y) x.length = (a.start, n.start) := by
  simp [asyncCut]

end Recognised

section Stripped

variable (sql : List UInt8) (tokens : List ScanToken)

def asyncCuts : List (Nat × Nat) :=
  (statements tokens).filterMap fun s => (keywordAt sql s).map (asyncCut s)

def kept : Nat → Bool := uncut (asyncCuts sql tokens)

def isKeyword (t : ScanToken) : Bool :=
  (statements tokens).any fun s => (keywordAt sql s).any fun k => s[k]? = some t

def relocate (t : ScanToken) : ScanToken :=
  ⟨t.token, Nat.count (kept sql tokens · = true) t.start,
    Nat.count (kept sql tokens · = true) t.stop⟩

def survivors : List ScanToken :=
  (tokens.filter fun t => !isKeyword sql tokens t).map (relocate sql tokens)

def Removed (i : Nat) : Prop :=
  ∃ s ∈ statements tokens, ∃ k a n, Form (word sql) s k ∧ s[k]? = some a ∧ s[k + 1]? = some n ∧
    a.start ≤ i ∧ i < n.start

end Stripped

section Laws

variable {sql : List UInt8} {tokens s : List ScanToken} {i : Nat} {t : ScanToken}

theorem Scanned.of_mem_statements (h : Scanned sql tokens) (hs : s ∈ statements tokens) :
    ∀ t ∈ s, t.start ≤ t.stop ∧ t.stop ≤ sql.length :=
  fun t ht => h.bounds t ((infix_of_mem_splitOnP hs).subset ht)

theorem ordered_asyncCuts {ss : List (List ScanToken)} {prev : Nat} (hprev : prev ≤ sql.length)
    (hb : ∀ t ∈ ss.flatten, t.start ≤ t.stop ∧ t.stop ≤ sql.length)
    (hord : ss.flatten.Pairwise fun t t' => t.stop ≤ t'.start)
    (hle : ∀ t ∈ ss.flatten, prev ≤ t.start) :
    Ordered sql.length prev (ss.filterMap fun s => (keywordAt sql s).map (asyncCut s)) := by
  induction ss generalizing prev with
  | nil => exact hprev
  | cons s ss ih =>
    rw [List.flatten_cons] at hb hord hle
    obtain ⟨hs, hss, hacross⟩ := List.pairwise_append.1 hord
    have hrest : ∀ t ∈ ss.flatten, t.start ≤ t.stop ∧ t.stop ≤ sql.length :=
      fun t ht => hb t (List.mem_append_right s ht)
    have hthis : ∀ t ∈ s, t.start ≤ t.stop ∧ t.stop ≤ sql.length :=
      fun t ht => hb t (List.mem_append_left _ ht)
    cases hk : keywordAt sql s with
    | none =>
      rw [List.filterMap_cons_none (by rw [hk, Option.map_none])]
      exact ih hprev hrest hss fun t ht => hle t (List.mem_append_right s ht)
    | some k =>
      obtain ⟨x, a, n, y, rfl, rfl, -⟩ := ((keywordAt_iff hthis).1 hk).split
      rw [List.filterMap_cons_some (by rw [hk, Option.map_some, asyncCut_eq])]
      have hmem : a ∈ x ++ a :: n :: y ∧ n ∈ x ++ a :: n :: y := by simp
      have han : a.stop ≤ n.start :=
        (List.pairwise_cons.1 (List.pairwise_append.1 hs).2.1).1 n List.mem_cons_self
      have hn := hthis n hmem.2
      refine ⟨hle a (List.mem_append_left _ hmem.1), (hthis a hmem.1).1.trans han, ?_⟩
      exact ih (hn.1.trans hn.2) hrest hss fun t ht => hn.1.trans (hacross n hmem.2 t ht)

theorem flatten_statements (tokens : List ScanToken) :
    (statements tokens).flatten = tokens.filter fun t => !decide (t.token = .semicolon) :=
  flatten_splitOnP _ tokens

theorem Scanned.ordered_cuts (h : Scanned sql tokens) :
    Ordered sql.length 0 (asyncCuts sql tokens) := by
  have hsub : (statements tokens).flatten.Sublist tokens :=
    flatten_statements tokens ▸ List.filter_sublist
  exact ordered_asyncCuts (Nat.zero_le _) (fun t ht => h.bounds t (hsub.subset ht))
    (h.ordered.sublist hsub) fun t _ => Nat.zero_le _

theorem kept_eq_false_iff (h : Scanned sql tokens) : kept sql tokens i = false ↔
    Removed sql tokens i := by
  rw [← Bool.not_eq_true, kept, uncut_iff]
  push Not
  constructor
  · rintro ⟨c, hc, hle, hlt⟩
    obtain ⟨s, hs, hcut⟩ := List.mem_filterMap.1 hc
    obtain ⟨k, hk, rfl⟩ := Option.map_eq_some_iff.1 hcut
    have hform := (keywordAt_iff (h.of_mem_statements hs)).1 hk
    obtain ⟨x, a, n, y, rfl, rfl, -⟩ := hform.split
    rw [asyncCut_eq] at hle hlt
    exact ⟨_, hs, _, a, n, hform, by simp, by simp, hle, hlt⟩
  · rintro ⟨s, hs, k, a, n, hform, ha, hn, hle, hlt⟩
    refine ⟨asyncCut s k, List.mem_filterMap.2 ⟨s, hs, ?_⟩, ?_⟩
    · rw [(keywordAt_iff (h.of_mem_statements hs)).2 hform, Option.map_some]
    · obtain ⟨x, a', n', y, rfl, rfl, -⟩ := hform.split
      obtain rfl : a' = a := by simpa using ha
      obtain rfl : n' = n := by simpa using hn
      rw [asyncCut_eq]
      exact ⟨hle, hlt⟩

theorem isKeyword_iff (h : Scanned sql tokens) :
    isKeyword sql tokens t = true ↔ ∃ s ∈ statements tokens, ∃ k, Form (word sql) s k ∧
      s[k]? = some t := by
  simp only [isKeyword, List.any_eq_true, Option.any_eq_true, decide_eq_true_eq]
  refine exists_congr fun s => and_congr_right fun hs => exists_congr fun k => ?_
  rw [keywordAt_iff (h.of_mem_statements hs)]

theorem kept_token (h : Scanned sql tokens) (ht : t ∈ tokens)
    (hkey : isKeyword sql tokens t = false) (hstart : t.start ≤ i) (hstop : i < t.stop) :
    kept sql tokens i = true := by
  by_contra hcut
  obtain ⟨s, hs, k, a, n, hform, ha, hn, hle, hlt⟩ :=
    (kept_eq_false_iff h).1 (Bool.eq_false_iff.2 hcut)
  have hnot : t ≠ a := by
    rintro rfl
    exact Bool.false_ne_true (hkey.symm.trans ((isKeyword_iff h).2 ⟨s, hs, k, hform, ha⟩))
  obtain ⟨x, a', n', y, hsplit, rfl, -⟩ := hform.split
  obtain rfl : a' = a := by simpa [hsplit] using ha
  obtain rfl : n' = n := by simpa [hsplit] using hn
  obtain ⟨u, v, htokens⟩ := infix_of_mem_splitOnP hs
  -- the keyword and the token after it stand side by side among all tokens
  have hall : tokens = (u ++ x) ++ a' :: n' :: (y ++ v) := by
    rw [← htokens, hsplit]
    simp
  have hord := h.ordered
  rw [hall] at hord ht
  obtain ⟨-, hright, hacross⟩ := List.pairwise_append.1 hord
  obtain ht | ht := List.mem_append.1 ht
  · have := hacross t ht a' List.mem_cons_self
    omega
  · obtain ht | ht := List.mem_cons.1 ht
    · exact hnot ht
    · obtain rfl | ht := List.mem_cons.1 ht
      · omega
      · have hnt := (List.pairwise_cons.1 (List.pairwise_cons.1 hright).2).1 t ht
        have hbound := h.of_mem_statements hs n' (by rw [hsplit]; simp)
        omega

theorem not_isKeyword_semicolon (h : Scanned sql tokens) (ht : t.token = .semicolon) :
    isKeyword sql tokens t = false := by
  rw [← Bool.not_eq_true, isKeyword_iff h]
  rintro ⟨s, hs, k, hform, hk⟩
  obtain ⟨x, a, n, y, rfl, rfl, hword⟩ := hform.split
  obtain rfl : a = t := by simpa using hk
  simp [word, ht] at hword

theorem statements_survivors (h : Scanned sql tokens) :
    statements (survivors sql tokens) =
      (statements tokens).map fun s => (s.filter fun t => !isKeyword sql tokens t).map
        (relocate sql tokens) := by
  rw [survivors, statements, splitOnP_map, Function.comp_def]
  have hfilter := splitOnP_filter (p := fun t => !isKeyword sql tokens t)
    (q := fun t => decide (t.token = .semicolon))
    (fun t ht => by rw [not_isKeyword_semicolon h (of_decide_eq_true ht)]; rfl) tokens
  exact (congrArg _ hfilter).trans (List.map_map)

theorem mapM_keywordAt {ss : List (List ScanToken)}
    (h : ∀ s ∈ ss, ∀ t ∈ s, t.start ≤ t.stop ∧ t.stop ≤ sql.length) :
    ss.mapM (asyncKeyword sql) = some (ss.map (keywordAt sql)) := by
  induction ss with
  | nil => rfl
  | cons s ss ih =>
    rw [List.mapM_cons, asyncKeyword_eq (h s List.mem_cons_self), ih fun s' hs' =>
      h s' (List.mem_cons_of_mem s hs')]
    rfl

theorem found_eq_map {ss : List (List ScanToken)} {found : List (Option Nat)}
    (h : ss.mapM (asyncKeyword sql) = some found) : found = ss.map (keywordAt sql) := by
  induction ss generalizing found with
  | nil => exact (Option.some.inj h).symm
  | cons s ss ih =>
    rw [List.mapM_cons] at h
    obtain ⟨k, hk, h⟩ := Option.bind_eq_some_iff.1 h
    obtain ⟨ks, hks, h⟩ := Option.bind_eq_some_iff.1 h
    cases h
    rw [List.map_cons, keywordAt, hk, Option.join_some, ← ih hks]

theorem splice_asyncCuts (h : Scanned sql tokens) :
    splice? sql 0 (asyncCuts sql tokens) = some (keep (kept sql tokens) sql) := by
  rw [splice_eq_keep h.ordered_cuts]
  exact congrArg some (keep_congr fun i _ => by simp [kept])

theorem stripAsync_eq (h : Scanned sql tokens) :
    stripAsync sql tokens =
      some (((statements tokens).findIdx? fun s => (keywordAt sql s).isSome).map fun ordinal =>
      (keep (kept sql tokens) sql, ordinal)) := by
  have hcuts : (((statements tokens).zip ((statements tokens).map (keywordAt sql))).filterMap
      fun x => x.2.map (asyncCut x.1)) = asyncCuts sql tokens := by
    have hzip := List.zip_map' (f := id) (g := keywordAt sql) (l := statements tokens)
    rw [List.map_id] at hzip
    rw [hzip, List.filterMap_map]
    rfl
  unfold stripAsync
  simp only [mapM_keywordAt fun s hs => h.of_mem_statements hs, Option.bind_eq_bind,
    Option.bind_some, List.findIdx?_map, Function.comp_def, hcuts, splice_asyncCuts h]
  cases (statements tokens).findIdx? fun s => (keywordAt sql s).isSome <;> rfl

theorem ordinal_of_stripAsync {out : List UInt8} {ordinal : Nat}
    (h : stripAsync sql tokens = some (some (out, ordinal))) :
    (statements tokens).findIdx? (fun s => (keywordAt sql s).isSome) = some ordinal := by
  obtain ⟨found, hfound, h⟩ := Option.bind_eq_some_iff.1 h
  have hkeys : found = (statements tokens).map (keywordAt sql) := found_eq_map hfound
  rw [hkeys, List.findIdx?_map] at h
  cases hidx : (statements tokens).findIdx? (Option.isSome ∘ keywordAt sql) with
  | none =>
    rw [hidx] at h
    cases h
  | some i =>
    rw [hidx] at h
    obtain ⟨_, -, h⟩ := Option.bind_eq_some_iff.1 h
    cases h
    exact hidx

/-- What is left of a text and of its tokens once the keywords are gone. -/
structure Stripped (sql : List UInt8) (tokens : List ScanToken) (out : List UInt8) : Prop where
  text : out = keep (kept sql tokens) sql
  removed : ∀ i, kept sql tokens i = false ↔ Removed sql tokens i
  keywords : ∀ t, isKeyword sql tokens t = true ↔
    ∃ s ∈ statements tokens, ∃ k, Form (word sql) s k ∧ s[k]? = some t
  scanned : Scanned out (survivors sql tokens)
  others : ∀ t ∈ tokens, isKeyword sql tokens t = false →
    slice out (relocate sql tokens t).start (relocate sql tokens t).stop = slice sql t.start t.stop
  boundaries : statements (survivors sql tokens) =
    (statements tokens).map fun s => (s.filter fun t => !isKeyword sql tokens t).map
      (relocate sql tokens)

theorem scanned_survivors (h : Scanned sql tokens) :
    Scanned (keep (kept sql tokens) sql) (survivors sql tokens) where
  bounds := by
    intro t' ht'
    obtain ⟨t, ht, rfl⟩ := List.mem_map.1 ht'
    obtain ⟨hstart, hstop⟩ := h.bounds t (List.mem_filter.1 ht).1
    rw [length_keep]
    exact ⟨Nat.count_monotone _ hstart, Nat.count_monotone _ hstop⟩
  ordered := by
    rw [survivors, List.pairwise_map]
    exact (h.ordered.filter _).imp fun hle => Nat.count_monotone _ hle

/-- Stripping a text whose tokens are in order never slices out of range; it takes effect
just when some statement opens with one of the forms; and it removes each keyword up to the
next token, and nothing else. -/
theorem stripAsync_removes (h : Scanned sql tokens) :
    ∃ result, stripAsync sql tokens = some result ∧
      (result.isSome = true ↔ ∃ s ∈ statements tokens, ∃ k, Form (word sql) s k) ∧
      ∀ out ordinal, result = some (out, ordinal) → Stripped sql tokens out := by
  refine ⟨_, stripAsync_eq h, ?_, fun out ordinal hout => ?_⟩
  · rw [Option.isSome_map, List.findIdx?_isSome, List.any_eq_true]
    refine exists_congr fun s => and_congr_right fun hs => ?_
    rw [Option.isSome_iff_exists]
    exact exists_congr fun k => keywordAt_iff (h.of_mem_statements hs)
  · obtain ⟨_, -, heq⟩ := Option.map_eq_some_iff.1 hout
    obtain ⟨rfl, -⟩ := Prod.mk.inj heq
    refine ⟨rfl, fun i => kept_eq_false_iff h, fun t => isKeyword_iff h, scanned_survivors h,
      fun t ht hkey => ?_, statements_survivors h⟩
    obtain ⟨hstart, hstop⟩ := h.bounds t ht
    exact slice_keep hstart hstop fun i hi hi' => kept_token h ht hkey hi hi'

end Laws

def utf8 (text : String) : List UInt8 := text.toUTF8.data.toList

def asyncTokens (start : Nat) : List ScanToken :=
  [⟨.create, start, start + 6⟩, ⟨.index, start + 7, start + 12⟩, ⟨.ident, start + 13, start + 18⟩,
    ⟨.on, start + 19, start + 21⟩, ⟨.ident, start + 22, start + 23⟩,
      ⟨.other "(", start + 24, start + 25⟩,
    ⟨.ident, start + 25, start + 26⟩, ⟨.other ")", start + 26, start + 27⟩]

theorem stripAsync_removes_two :
    let sql := utf8 "CREATE INDEX ASYNC ON t (a); CREATE INDEX ASYNC ON t (a)"
    let tokens := asyncTokens 0 ++ ⟨.semicolon, 27, 28⟩ :: asyncTokens 29
    stripAsync sql tokens = some (some (utf8 "CREATE INDEX ON t (a); CREATE INDEX ON t (a)", 0)) ∧
      ∃ result, stripAsync sql tokens = some result ∧
        (result.isSome = true ↔ ∃ s ∈ statements tokens, ∃ k, Form (word sql) s k) ∧
        ∀ out ordinal, result = some (out, ordinal) → Stripped sql tokens out := by
  intro sql tokens
  exact ⟨by decide +kernel, stripAsync_removes ⟨by decide +kernel, by decide +kernel⟩⟩

end DsqlEmulator.Rewrite
