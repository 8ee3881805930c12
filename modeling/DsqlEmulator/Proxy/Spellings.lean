import DsqlEmulator.Proxy.Rewrite

/-! The spellings of the statements with `ASYNC`: comments between their tokens, and the
names that may follow the keyword. -/

namespace DsqlEmulator.Rewrite

open Cuts

def recognised (sql : List UInt8) (tokens : List ScanToken) : List Bool :=
  (statements tokens).map fun s => (keywordAt sql s).isSome

/-- The tokens of `CREATE [UNIQUE] INDEX ASYNC` or, for a table, of `ALTER TABLE ASYNC`. -/
inductive Opening (w : ScanToken → Bool) : Bool → List ScanToken → Prop
  | index {c i a} : c.token = .create → i.token = .index → w a = true → Opening w false [c, i, a]
  | unique {c u i a} : c.token = .create → u.token = .unique → i.token = .index → w a = true →
      Opening w false [c, u, i, a]
  | table {c t a} : c.token = .alter → t.token = .table → w a = true → Opening w true [c, t, a]

def followers : Bool → List Token
  | false => [.ident, .ifP, .on]
  | true => [.ident]

section Openings

variable {w : ScanToken → Bool} {s o rest : List ScanToken} {n : ScanToken} {k : Nat} {table : Bool}

theorem Form.opening (h : Form w s k) :
    ∃ table o n rest, Opening w table o ∧ o.length = k + 1 ∧ n.token ∈ followers table ∧
      s = o ++ n :: rest := by
  cases h with
  | @index c i a n rest hc hi ha hn =>
    exact ⟨false, [c, i, a], n, rest, .index hc hi ha, rfl, hn, rfl⟩
  | @unique c u i a n rest hc hu hi ha hn =>
    exact ⟨false, [c, u, i, a], n, rest, .unique hc hu hi ha, rfl, hn, rfl⟩
  | @table c t a n rest hc ht ha hn =>
    exact ⟨true, [c, t, a], n, rest, .table hc ht ha, rfl, by simp [followers, hn], rfl⟩

theorem Opening.form (h : Opening w table o) (hn : n.token ∈ followers table)
    (hk : o.length = k + 1) : Form w (o ++ n :: rest) k := by
  cases h with
  | index hc hi ha => cases hk; exact .index hc hi ha hn
  | unique hc hu hi ha => cases hk; exact .unique hc hu hi ha hn
  | table hc ht ha => cases hk; exact .table hc ht ha (List.mem_singleton.1 hn)

theorem Opening.token (hw : ∀ t, w t = true → t.token = .ident) (h : Opening w table o) :
    ∀ t ∈ o, t.token ∈ [.create, .unique, .index, .alter, .table, .ident] := by
  cases h with
  | index hc hi ha => simp [hc, hi, hw _ ha]
  | unique hc hu hi ha => simp [hc, hu, hi, hw _ ha]
  | table hc ht ha => simp [hc, ht, hw _ ha]

end Openings

section Comments

def shift (d : Nat) (t : ScanToken) : ScanToken := ⟨t.token, t.start + d, t.stop + d⟩

def insertText (sql comment : List UInt8) (p : Nat) : List UInt8 :=
  sql.take p ++ (comment ++ sql.drop p)

def insertToken (xs ys : List ScanToken) (p d : Nat) : List ScanToken :=
  xs ++ ⟨.comment, p, p + d⟩ :: ys.map (shift d)

variable {sql comment : List UInt8} {xs ys a b s : List ScanToken} {p k : Nat}
  {w w' : ScanToken → Bool} {us vs : List (List ScanToken)}

theorem slice_insertText_before {i j : Nat} (hj : j ≤ p) (hp : p ≤ sql.length) :
    Cuts.slice (insertText sql comment p) i j = Cuts.slice sql i j := by
  have htake : (insertText sql comment p).take p = sql.take p :=
    List.take_left' (List.length_take_of_le hp)
  rw [← slice_take _ hj, htake, slice_take _ hj]

theorem slice_insertText_after {i j : Nat} (hi : p ≤ i) (hp : p ≤ sql.length) :
    Cuts.slice (insertText sql comment p) (i + comment.length)
      (j + comment.length) = Cuts.slice sql i j := by
  have hdrop : (insertText sql comment p).drop (i + comment.length) = sql.drop i := by
    have hlen : (sql.take p ++ comment).length = p + comment.length := by
      rw [List.length_append, List.length_take_of_le hp]
    rw [insertText, ← List.append_assoc, List.drop_append, List.drop_eq_nil_of_le (by omega),
      List.nil_append,
      List.drop_drop, hlen, show p + (i + comment.length - (p + comment.length)) = i by omega]
  rw [Cuts.slice, Cuts.slice, hdrop, Nat.add_sub_add_right]

theorem Form.congr {s' : List ScanToken}
    (hs : List.Forall₂ (fun t t' => t'.token = t.token ∧ w' t' = w t) s s') (h : Form w s k) :
    Form w' s' k := by
  cases h with
  | index hc hi ha hn =>
    obtain _ | ⟨hc', _ | ⟨hi', _ | ⟨ha', _ | ⟨hn', -⟩⟩⟩⟩ := hs
    exact .index (hc'.1.trans hc) (hi'.1.trans hi) (ha'.2.trans ha) (hn'.1 ▸ hn)
  | unique hc hu hi ha hn =>
    obtain _ | ⟨hc', _ | ⟨hu', _ | ⟨hi', _ | ⟨ha', _ | ⟨hn', -⟩⟩⟩⟩⟩ := hs
    exact .unique (hc'.1.trans hc) (hu'.1.trans hu) (hi'.1.trans hi) (ha'.2.trans ha) (hn'.1 ▸ hn)
  | table hc ht ha hn =>
    obtain _ | ⟨hc', _ | ⟨ht', _ | ⟨ha', _ | ⟨hn', -⟩⟩⟩⟩ := hs
    exact .table (hc'.1.trans hc) (ht'.1.trans ht) (ha'.2.trans ha) (hn'.1.trans hn)

theorem form_map_iff {f : ScanToken → ScanToken} (hf : ∀ t, (f t).token = t.token)
    (hw : ∀ t ∈ s, w' (f t) = w t) : Form w' (s.map f) k ↔ Form w s k := by
  have hs : List.Forall₂ (fun t t' => t'.token = t.token ∧ w' t' = w t) s (s.map f) :=
    List.forall₂_map_right_iff.2 (List.forall₂_same.2 fun t ht => ⟨hf t, hw t ht⟩)
  exact ⟨.congr (hs.flip.imp fun _ _ h => ⟨h.1.symm, h.2.symm⟩), .congr hs⟩

theorem Form.place_unique {k' : Nat} (h : Form w s k) (h' : Form w s k') : k = k' := by
  cases h with
  | index hc hi =>
    cases h' with
    | index => rfl
    | unique _ hu => cases hi.symm.trans hu
    | table => rfl
  | unique hc hu =>
    cases h' with
    | index _ hi => cases hi.symm.trans hu
    | unique => rfl
    | table hc' => cases hc.symm.trans hc'
  | table hc =>
    cases h' with
    | index => rfl
    | unique hc' => cases hc.symm.trans hc'
    | table => rfl

theorem Form.append {r : List ScanToken} (h : Form w (a ++ b) k) (hk : k + 2 ≤ a.length) :
    Form w (a ++ r) k := by
  obtain ⟨table, o, n, rest, hopen, hlen, hn, hs⟩ := h.opening
  have hpre : o ++ [n] <+: a ++ b := ⟨rest, by rw [hs, List.append_assoc]; rfl⟩
  obtain ⟨a', rfl⟩ := List.prefix_of_prefix_length_le hpre (List.prefix_append a b) (by simp; omega)
  rw [List.append_assoc, List.append_assoc]
  exact hopen.form hn hlen

theorem Form.without_comment {c : ScanToken} (hw : ∀ t, w t = true → t.token = .ident)
    (hc : c.token = .comment) (h : Form w (a ++ c :: b) k) : k + 2 ≤ a.length := by
  obtain ⟨table, o, n, rest, hopen, hlen, hn, hs⟩ := h.opening
  by_contra hlt
  have hpre : o ++ [n] <+: a ++ c :: b := ⟨rest, by rw [hs, List.append_assoc]; rfl⟩
  have hcomment : a ++ [c] <+: a ++ c :: b := ⟨b, by simp⟩
  have hmem : c ∈ o ++ [n] :=
    (List.prefix_of_prefix_length_le hcomment hpre (by simp; omega)).subset (by simp)
  obtain hmem | hmem := List.mem_append.1 hmem
  · exact absurd (hopen.token hw c hmem) (by simp [hc])
  · rw [← List.mem_singleton.1 hmem, hc] at hn
    cases table <;> simp [followers] at hn

theorem word_ident {t : ScanToken} (h : word sql t = true) : t.token = .ident := by
  rw [word, Bool.and_eq_true, decide_eq_true_eq] at h
  exact h.1

/-- A place between two tokens. -/
structure Gap (sql : List UInt8) (xs ys : List ScanToken) (p : Nat) : Prop where
  bound : p ≤ sql.length
  before : ∀ t ∈ xs, t.stop ≤ p
  after : ∀ t ∈ ys, p ≤ t.start

theorem word_before (hgap : Gap sql xs ys p) {t : ScanToken} (ht : t ∈ xs) :
    word (insertText sql comment p) t = word sql t := by
  rw [word, word, slice_insertText_before (hgap.before t ht) hgap.bound]

theorem word_after (hgap : Gap sql xs ys p) {t : ScanToken} (ht : t ∈ ys) :
    word (insertText sql comment p) (shift comment.length t) = word sql t := by
  rw [word, word]
  exact congrArg (_ && equalFold ·) (slice_insertText_after (hgap.after t ht) hgap.bound)

theorem length_insertText (hp : p ≤ sql.length) :
    (insertText sql comment p).length = sql.length + comment.length := by
  rw [insertText, List.length_append, List.length_append, List.length_take_of_le hp,
    List.length_drop]
  omega

theorem scanned_insert (h : Scanned sql (xs ++ ys)) (hgap : Gap sql xs ys p) :
    Scanned (insertText sql comment p) (insertToken xs ys p comment.length) where
  bounds := by
    rw [length_insertText hgap.bound]
    intro t ht
    obtain ht | ht := List.mem_append.1 ht
    · have := h.bounds t (List.mem_append_left ys ht)
      omega
    · obtain rfl | ht := List.mem_cons.1 ht
      · exact ⟨Nat.le_add_right _ _, Nat.add_le_add_right hgap.bound _⟩
      · obtain ⟨t, hmem, rfl⟩ := List.mem_map.1 ht
        have := h.bounds t (List.mem_append_right xs hmem)
        exact ⟨Nat.add_le_add_right this.1 _, Nat.add_le_add_right this.2 _⟩
  ordered := by
    obtain ⟨hxs, hys, hacross⟩ := List.pairwise_append.1 h.ordered
    refine List.pairwise_append.2 ⟨hxs, List.pairwise_cons.2 ⟨?_, ?_⟩, ?_⟩
    · intro t' ht'
      obtain ⟨t, ht, rfl⟩ := List.mem_map.1 ht'
      exact Nat.add_le_add_right (hgap.after t ht) _
    · exact List.pairwise_map.2 (hys.imp fun hle => Nat.add_le_add_right hle _)
    · intro t ht t' ht'
      obtain rfl | ht' := List.mem_cons.1 ht'
      · exact hgap.before t ht
      · obtain ⟨t', hmem, rfl⟩ := List.mem_map.1 ht'
        exact (hacross t ht t' hmem).trans (Nat.le_add_right _ _)

theorem keywordAt_isSome_iff (hb : ∀ t ∈ s, t.start ≤ t.stop ∧ t.stop ≤ sql.length) :
    (keywordAt sql s).isSome = true ↔ ∃ k, Form (word sql) s k := by
  rw [Option.isSome_iff_exists]
  exact exists_congr fun k => keywordAt_iff hb

theorem keywordAt_map {sql' : List UInt8} {f : ScanToken → ScanToken}
    (hf : ∀ t, (f t).token = t.token) (hw : ∀ t ∈ s, word sql' (f t) = word sql t)
    (hb : ∀ t ∈ s, t.start ≤ t.stop ∧ t.stop ≤ sql.length)
    (hb' : ∀ t ∈ s.map f, t.start ≤ t.stop ∧ t.stop ≤ sql'.length) :
    (keywordAt sql' (s.map f)).isSome = (keywordAt sql s).isSome := by
  rw [Bool.eq_iff_iff, keywordAt_isSome_iff hb', keywordAt_isSome_iff hb]
  exact exists_congr fun k => form_map_iff hf hw

theorem statements_insert (hx : statements xs = us ++ [a]) (hy : statements ys = b :: vs)
    (d : Nat) : statements (insertToken xs ys p d) =
      us ++ (a ++ ⟨.comment, p, p + d⟩ :: b.map (shift d)) :: vs.map (List.map (shift d)) := by
  have hmap : statements (ys.map (shift d)) = b.map (shift d) :: vs.map (List.map (shift d)) := by
    have hsplit := splitOnP_map (shift d) (fun t => decide (t.token = .semicolon)) ys
    exact hsplit.trans (congrArg (List.map (List.map (shift d))) hy)
  refine splitOnP_append hx ?_
  rw [statements] at hmap
  rw [List.splitOnP_cons_eq_if_modifyHead, if_neg (by simp), hmap]
  rfl

theorem subset_of_statements {s : List ScanToken} (hs : s ∈ statements xs) {t : ScanToken}
    (ht : t ∈ s) : t ∈ xs :=
  (infix_of_mem_splitOnP hs).subset ht

theorem form_insert_iff (hgap : Gap sql xs ys p) (ha : ∀ t ∈ a, t ∈ xs) (hb : ∀ t ∈ b, t ∈ ys) :
    Form (word (insertText sql comment p))
        (a ++ ⟨.comment, p, p + comment.length⟩ :: b.map (shift comment.length)) k ↔
      Form (word sql) (a ++ b) k ∧ k + 2 ≤ a.length := by
  have hsame : List.Forall₂ (fun t t' => t'.token = t.token ∧ word (insertText sql comment p) t' =
    word sql t)
      (a ++ b) (a ++ b.map (shift comment.length)) := by
    refine List.rel_append (List.forall₂_same.2 fun t ht => ⟨rfl, word_before hgap (ha t ht)⟩) ?_
    exact List.forall₂_map_right_iff.2 (List.forall₂_same.2 fun t ht =>
      ⟨rfl, word_after hgap (hb t ht)⟩)
  constructor
  · intro h
    have hk := h.without_comment (fun t => word_ident) rfl
    exact ⟨(h.append hk).congr (hsame.flip.imp fun _ _ h => ⟨h.1.symm, h.2.symm⟩), hk⟩
  · rintro ⟨h, hk⟩
    exact (h.congr hsame).append hk

theorem recognised_insert_iff (h : Scanned sql (xs ++ ys)) (hgap : Gap sql xs ys p)
    (hx : statements xs = us ++ [a]) (hy : statements ys = b :: vs) :
    recognised (insertText sql comment p) (insertToken xs ys p comment.length) =
      recognised sql (xs ++ ys) ↔ ∀ k, Form (word sql) (a ++ b) k → k + 2 ≤ a.length := by
  have hnew : Scanned (insertText sql comment p) (insertToken xs ys p comment.length) :=
    scanned_insert h hgap
  have hs' := statements_insert (p := p) hx hy comment.length
  have hs : statements (xs ++ ys) = us ++ (a ++ b) :: vs := splitOnP_append hx hy
  have hbefore : us.map (fun s => (keywordAt (insertText sql comment p) s).isSome) =
      us.map fun s => (keywordAt sql s).isSome := by
    refine List.map_congr_left fun s hmem => ?_
    have hkey := keywordAt_map (s := s) (f := id) (fun t => rfl)
      (fun t ht => word_before hgap (subset_of_statements (hx ▸ List.mem_append_left _ hmem) ht))
      (h.of_mem_statements (hs ▸ List.mem_append_left _ hmem))
      (by rw [List.map_id]; exact hnew.of_mem_statements (hs' ▸ List.mem_append_left _ hmem))
    rwa [List.map_id] at hkey
  have hafter : (vs.map (List.map (shift comment.length))).map
      (fun s => (keywordAt (insertText sql comment p) s).isSome) = vs.map fun s =>
          (keywordAt sql s).isSome := by
    rw [List.map_map]
    refine List.map_congr_left fun s hmem => ?_
    have hin : s.map (shift comment.length) ∈ vs.map (List.map (shift comment.length)) :=
      List.mem_map_of_mem hmem
    exact keywordAt_map (fun t => rfl)
      (fun t ht => word_after hgap (subset_of_statements (hy ▸ List.mem_cons_of_mem b hmem) ht))
      (h.of_mem_statements (hs ▸ List.mem_append_right _ (List.mem_cons_of_mem _ hmem)))
      (hnew.of_mem_statements (hs' ▸ List.mem_append_right _ (List.mem_cons_of_mem _ hin)))
  have hmid := keywordAt_isSome_iff
    (h.of_mem_statements (hs ▸ List.mem_append_right us List.mem_cons_self))
  have hmid' := keywordAt_isSome_iff
    (hnew.of_mem_statements (hs' ▸ List.mem_append_right us List.mem_cons_self))
  simp only [form_insert_iff hgap
    (fun t => subset_of_statements (hx ▸ List.mem_append_right us List.mem_cons_self))
    (fun t => subset_of_statements (hy ▸ List.mem_cons_self))] at hmid'
  rw [recognised, recognised, hs, hs', List.map_append, List.map_append, List.map_cons,
    List.map_cons, hbefore, hafter,
    List.append_cancel_left_eq, List.cons.injEq, and_iff_left rfl, Bool.eq_iff_iff, hmid, hmid']
  constructor
  · intro hiff k hk
    obtain ⟨k', hk', hle⟩ := hiff.2 ⟨k, hk⟩
    rwa [hk.place_unique hk']
  · intro hall
    exact ⟨fun ⟨k, hk, _⟩ => ⟨k, hk⟩, fun ⟨k, hk⟩ => ⟨k, hk, hall k hk⟩⟩

end Comments

section Names

variable {sql : List UInt8} {o rest : List ScanToken} {n : ScanToken} {k : Nat} {table : Bool}
  {w : ScanToken → Bool}

/-- The tokens that PostgreSQL takes for the name of an index or a table: an identifier,
quoted or not, or a keyword that is not reserved. -/
def legalName (unreserved : String → Bool) : Token → Bool
  | .ident => true
  | .index => true
  | .alter => true
  | .ifP => true
  | .other keyword => unreserved keyword
  | _ => false

theorem Opening.follower (hopen : Opening w table o) (h : Form w (o ++ n :: rest) k) :
    n.token ∈ followers table := by
  cases hopen with
  | index hc hi =>
    cases h with
    | index _ _ _ hn => exact hn
    | unique _ hu => cases hi.symm.trans hu
    | table hc' => cases hc.symm.trans hc'
  | unique hc hu =>
    cases h with
    | index _ hi => cases hu.symm.trans hi
    | unique _ _ _ _ hn => exact hn
    | table hc' => cases hc.symm.trans hc'
  | table hc =>
    cases h with
    | index hc' => cases hc.symm.trans hc'
    | unique hc' => cases hc.symm.trans hc'
    | table _ _ _ hn => exact List.mem_singleton.2 hn

theorem Opening.length_pos (h : Opening w table o) : 0 < o.length := by
  cases h <;> exact Nat.succ_pos _

theorem Opening.recognised_iff (hopen : Opening (word sql) table o)
    (hb : ∀ t ∈ o ++ n :: rest, t.start ≤ t.stop ∧ t.stop ≤ sql.length) :
    (keywordAt sql (o ++ n :: rest)).isSome = true ↔ n.token ∈ followers table := by
  rw [keywordAt_isSome_iff hb]
  refine ⟨fun ⟨k, hk⟩ => hopen.follower hk, fun hn => ⟨o.length - 1, hopen.form hn ?_⟩⟩
  have := hopen.length_pos
  omega

theorem stripped_iff_recognised {tokens : List ScanToken} (h : Scanned sql tokens) :
    (∃ out, stripAsync sql tokens = some (some out)) ↔
      ∃ s ∈ statements tokens, (keywordAt sql s).isSome = true := by
  have hiff : ((statements tokens).findIdx? fun s => (keywordAt sql s).isSome).isSome = true ↔
      ∃ s ∈ statements tokens, (keywordAt sql s).isSome = true := by
    rw [List.findIdx?_isSome, List.any_eq_true]
  rw [stripAsync_eq h, ← hiff, Option.isSome_iff_exists]
  simp

theorem legal_follower_iff {unreserved : String → Bool}
    (hlegal : legalName unreserved n.token = true) :
    n.token ∈ followers table ↔ n.token = .ident ∨ table = false ∧ n.token = .ifP := by
  cases table <;> cases hn : n.token <;> simp_all [followers, legalName]

end Names

/-- A comment leaves the same statements recognised just when it does not stand in the
opening of one; a statement with a legal name after the keyword, wherever it stands in a text, is
recognised just when that name is an identifier, or the keyword `IF` for an index, and the text is
stripped just when this statement or another one is recognised. -/
theorem async_spelled_iff (unreserved : String → Bool) (sql : List UInt8) :
    (∀ {comment : List UInt8} {xs ys a b : List ScanToken}
        {us vs : List (List ScanToken)} {p : Nat},
      Scanned sql (xs ++ ys) → Gap sql xs ys p → statements xs = us ++ [a] →
        statements ys = b :: vs →
        (recognised (insertText sql comment p) (insertToken xs ys p comment.length) =
            recognised sql (xs ++ ys) ↔ ∀ k, Form (word sql) (a ++ b) k → k + 2 ≤ a.length)) ∧
    ∀ {table : Bool} {tokens o rest : List ScanToken} {us vs : List (List ScanToken)}
      {n : ScanToken},
      Scanned sql tokens → statements tokens = us ++ (o ++ n :: rest) :: vs →
        Opening (word sql) table o → legalName unreserved n.token = true →
          ((keywordAt sql (o ++ n :: rest)).isSome = true ↔ n.token = .ident ∨ table = false ∧
              n.token = .ifP) ∧ ((∃ out, stripAsync sql tokens = some (some out)) ↔
            (n.token = .ident ∨ table = false ∧ n.token = .ifP) ∨
              ∃ s ∈ us ++ vs, (keywordAt sql s).isSome = true) := by
  refine ⟨fun h hgap hx hy => recognised_insert_iff h hgap hx hy,
    fun {table tokens o rest us vs n} h hs hopen hlegal => ?_⟩
  have hmem : o ++ n :: rest ∈ statements tokens := hs ▸ List.mem_append_right us List.mem_cons_self
  have hthis := (hopen.recognised_iff (h.of_mem_statements hmem)).trans (legal_follower_iff hlegal)
  refine ⟨hthis, ?_⟩
  rw [stripped_iff_recognised h, hs, ← hthis]
  simp only [List.mem_append, List.mem_cons]
  constructor
  · rintro ⟨s, hs | rfl | hs, hkey⟩
    · exact .inr ⟨s, .inl hs, hkey⟩
    · exact .inl hkey
    · exact .inr ⟨s, .inr hs, hkey⟩
  · rintro (hkey | ⟨s, hs | hs, hkey⟩)
    · exact ⟨_, .inr (.inl rfl), hkey⟩
    · exact ⟨s, .inl hs, hkey⟩
    · exact ⟨s, .inr (.inr hs), hkey⟩

def namedTokens (name : Token) : List ScanToken :=
  [⟨.create, 0, 6⟩, ⟨.index, 7, 12⟩, ⟨.ident, 13, 18⟩] ++ ⟨name, 19, 25⟩ ::
    [⟨.on, 26, 28⟩, ⟨.ident, 29, 30⟩, ⟨.other "(", 31, 32⟩, ⟨.ident, 32, 33⟩, ⟨.other ")", 33, 34⟩]

theorem async_spelled_iff_ident :
    let sql := utf8 "CREATE INDEX ASYNC i_on_a ON t (a)"
    ((keywordAt sql (namedTokens .ident)).isSome = true ↔
        Token.ident = .ident ∨ false = false ∧ Token.ident = .ifP) ∧
      ((∃ out, stripAsync sql (namedTokens .ident) = some (some out)) ↔
        (Token.ident = .ident ∨ false = false ∧ Token.ident = .ifP) ∨
          ∃ s ∈ ([] ++ [] : List (List ScanToken)), (keywordAt sql s).isSome = true) := by
  intro sql
  have hlegal : legalName (fun _ => false) .ident = true := rfl
  have hscan : Scanned sql (namedTokens .ident) := ⟨by decide +kernel, by decide +kernel⟩
  refine (async_spelled_iff (fun _ => false) sql).2 hscan (by decide +kernel) ?_ hlegal
  exact .index rfl rfl (by decide +kernel)

/-- `CREATE INDEX ASYNC i_on_a ON t (a)` with a comment after `INDEX`, and `CREATE INDEX
ASYNC action ON t (a)`, where the name is a keyword that is not reserved: neither is
recognised. -/
theorem async_unrecognised :
    let sql := utf8 "CREATE INDEX ASYNC i_on_a ON t (a)"
    let comment := utf8 "/**/"
    let xs : List ScanToken := [⟨.create, 0, 6⟩, ⟨.index, 7, 12⟩]
    let ys := (namedTokens .ident).drop 2
    (Gap sql xs ys 13 ∧ recognised sql (xs ++ ys) = [true] ∧
      recognised (insertText sql comment 13) (insertToken xs ys 13 comment.length) = [false]) ∧
      legalName (· = "ACTION") (.other "ACTION") = true ∧
      stripAsync (utf8 "CREATE INDEX ASYNC action ON t (a)") (namedTokens (.other "ACTION")) =
          some none := by
  intro sql comment xs ys
  have hgap : Gap sql xs ys 13 := ⟨by decide +kernel, by decide +kernel, by decide +kernel⟩
  exact ⟨⟨hgap, by decide +kernel, by decide +kernel⟩, rfl, by decide +kernel⟩

end DsqlEmulator.Rewrite
