import DsqlEmulator.Occ.Tree

/-! A shadow keeps some of the client's parameters under numbers of its own.  What it
means with the values picked for it is what it meant under the client's numbers with
the client's values. -/

namespace DsqlEmulator.Occ

abbrev Bound : Type := Option String × Int

structure Semantics (β : Type*) where
  param : Option Bound → List (Field × β) → β
  node : Label → List (Field × β) → β

section Eval

variable {β : Type*} (M : Semantics β) (env : Int → Option Bound)

def Semantics.label : Label → List (Field × β) → β
  | .paramRef number => M.param (env number)
  | label => M.node label

mutual

def Node.eval : Node → β
  | .mk label fields => M.label env label fields.eval

def Fields.eval : Fields → List (Field × β)
  | .nil => []
  | .cons f n rest => (f, n.eval) :: rest.eval

end

end Eval

section Rename

variable {β : Type*} {M : Semantics β} {env env' : Int → Option Bound} {ρ : Int → Int}

theorem Label.refs_rename (l : Label) : (l.rename ρ).refs = l.refs.map ρ := by
  cases l <;> rfl

mutual

theorem Node.refs_rename : ∀ n : Node, (n.rename ρ).refs = n.refs.map ρ
  | .mk label fields => by
    rw [Node.rename, Node.refs, Node.refs, label.refs_rename, Fields.refs_rename fields,
      List.map_append]

theorem Fields.refs_rename : ∀ fs : Fields, (fs.rename ρ).refs = fs.refs.map ρ
  | .nil => rfl
  | .cons f n rest => by
    rw [Fields.rename, Fields.refs, Fields.refs, Node.refs_rename n, Fields.refs_rename rest,
      List.map_append]

end

theorem Semantics.label_rename (l : Label) (h : ∀ k ∈ l.refs, env' (ρ k) = env k) :
    M.label env' (l.rename ρ) = M.label env l := by
  cases l with
  | paramRef number => exact congrArg M.param (h number List.mem_cons_self)
  | _ => rfl

mutual

theorem Node.eval_rename :
    ∀ n : Node, (∀ k ∈ n.refs, env' (ρ k) = env k) → (n.rename ρ).eval M env' = n.eval M env
  | .mk label fields, h => by
    rw [Node.refs] at h
    rw [Node.rename, Node.eval, Node.eval,
      Semantics.label_rename label fun k hk => h k (List.mem_append_left _ hk),
      Fields.eval_rename fields fun k hk => h k (List.mem_append_right _ hk)]

theorem Fields.eval_rename :
    ∀ fs : Fields, (∀ k ∈ fs.refs, env' (ρ k) = env k) → (fs.rename ρ).eval M env' = fs.eval M env
  | .nil, _ => rfl
  | .cons f n rest, h => by
    rw [Fields.refs] at h
    rw [Fields.rename, Fields.eval, Fields.eval, Node.eval_rename n fun k hk =>
      h k (List.mem_append_left _ hk),
      Fields.eval_rename rest fun k hk => h k (List.mem_append_right _ hk)]

end

end Rename

section Positions

def Node.positions (n : Node) : List Int := (firstSeen [] n.refs).insertionSort (· ≤ ·)

theorem mem_firstSeen {k : Int} {seen l : List Int} : k ∈ firstSeen seen l ↔ k ∈ l ∧ k ∉ seen := by
  induction l generalizing seen with
  | nil => simp [firstSeen]
  | cons j l ih =>
    by_cases hj : j ∈ seen
    · rw [firstSeen, if_pos hj, ih, List.mem_cons]
      constructor
      · exact fun ⟨h, hk⟩ => ⟨.inr h, hk⟩
      · rintro ⟨rfl | h, hk⟩
        · exact absurd hj hk
        · exact ⟨h, hk⟩
    · rw [firstSeen, if_neg hj, List.mem_cons, ih, List.mem_cons, List.mem_cons]
      constructor
      · rintro (rfl | ⟨h, hk⟩)
        · exact ⟨.inl rfl, hj⟩
        · exact ⟨.inr h, fun hs => hk (.inr hs)⟩
      · rintro ⟨rfl | h, hk⟩
        · exact .inl rfl
        · by_cases hkj : k = j
          · exact .inl hkj
          · exact .inr ⟨h, not_or.2 ⟨hkj, hk⟩⟩

theorem nodup_firstSeen (seen l : List Int) : (firstSeen seen l).Nodup := by
  induction l generalizing seen with
  | nil => exact List.nodup_nil
  | cons j l ih =>
    rw [firstSeen]
    split
    · exact ih seen
    · exact List.nodup_cons.2 ⟨fun h => (mem_firstSeen.1 h).2 List.mem_cons_self, ih _⟩

theorem Node.mem_positions {n : Node} {k : Int} : k ∈ n.positions ↔ k ∈ n.refs := by
  rw [positions, List.mem_insertionSort, mem_firstSeen]
  exact ⟨And.left, fun h => ⟨h, List.not_mem_nil⟩⟩

theorem Node.nodup_positions (n : Node) : n.positions.Nodup :=
  (List.perm_insertionSort _ _).nodup_iff.2 (nodup_firstSeen [] n.refs)

theorem Node.sorted_positions (n : Node) : n.positions.Pairwise (· < ·) := by
  have hle : n.positions.Pairwise (· ≤ ·) := List.pairwise_insertionSort _ _
  exact (hle.and n.nodup_positions).imp fun ⟨h, hne⟩ => lt_of_le_of_ne h hne

def Node.renumber (n : Node) (k : Int) : Int := n.positions.idxOf k + 1

theorem renumberParams_eq {n : Node} (h : ∀ k ∈ n.refs, 1 ≤ k) :
    renumberParams n = some (n.rename n.renumber, n.positions) := by
  rw [renumberParams, if_neg]
  · rfl
  · rw [List.any_eq_true]
    rintro ⟨k, hk, hlt⟩
    exact absurd (h k hk) (not_le.2 (of_decide_eq_true hlt))

end Positions

section Bind

def spread (k : Nat) : List Int → List Int
  | [] => List.replicate k 0
  | [c] => List.replicate k c
  | codes => codes

def bound (values : List (Option String)) (codes : List Int) (k : Int) : Option Bound :=
  if k < 1 then none else (values.zip (spread values.length codes))[k.toNat - 1]?

def InFlight.Coded (f : InFlight) : Prop :=
  f.paramFormats.length = 0 ∨ f.paramFormats.length = 1 ∨ f.paramFormats.length = f.params.length

variable {f : InFlight}

theorem getElem?_spread {k i : Nat} {codes : List Int} (hi : i < k)
    (h : codes.length = 0 ∨ codes.length = 1 ∨ codes.length = k) :
    (spread k codes)[i]? = some (bindFormat codes (i + 1)) := by
  match codes, h with
  | [], _ => simp [spread, bindFormat, hi]
  | [c], _ => simp [spread, bindFormat, hi]
  | c :: c' :: codes, h =>
    have hlen : (c :: c' :: codes).length = k := by simpa using h
    rw [← hlen] at hi
    simp only [spread, bindFormat, Nat.add_sub_cancel, List.getD_eq_getElem?_getD,
      List.getElem?_eq_getElem hi, Option.getD_some]

theorem InFlight.bound_eq (hf : f.Coded) {k : Int} (h1 : 1 ≤ k) (hk : k ≤ f.params.length) :
    bound f.params f.paramFormats k =
      some (f.params.getD (k.toNat - 1) none, bindFormat f.paramFormats k.toNat) := by
  have hi : k.toNat - 1 < f.params.length := by omega
  have hsucc : k.toNat - 1 + 1 = k.toNat := by omega
  have hcode := getElem?_spread hi hf
  rw [hsucc] at hcode
  rw [bound, if_neg (by omega), List.getElem?_zip_eq_some]
  refine ⟨?_, hcode⟩
  rw [List.getD_eq_getElem?_getD, List.getElem?_eq_getElem hi, Option.getD_some]

theorem InFlight.shadowParams_go_none {ps : List Int} :
    shadowParams.go f ps = none ↔ ∃ k ∈ ps, k < 1 ∨ (f.params.length : Int) < k := by
  induction ps with
  | nil => simp [shadowParams.go]
  | cons k ps ih =>
    rw [shadowParams.go, List.exists_mem_cons_iff]
    split
    · rename_i hk
      exact ⟨fun _ => .inl hk, fun _ => rfl⟩
    · rename_i hk
      rw [Option.map_eq_none_iff, ih, or_iff_right hk]

theorem InFlight.shadowParams_go_some {ps : List Int} {vs : List (Option String)} {fs : List Int}
    (h : shadowParams.go f ps = some (vs, fs)) :
    (∀ k ∈ ps, 1 ≤ k ∧ k ≤ f.params.length) ∧ vs =
      ps.map (fun k => f.params.getD (k.toNat - 1) none) ∧
      fs = ps.map (fun k => bindFormat f.paramFormats k.toNat) := by
  induction ps generalizing vs fs with
  | nil => cases h; simp
  | cons k ps ih =>
    rw [shadowParams.go] at h
    split at h
    · cases h
    · rename_i hk
      obtain ⟨⟨vs', fs'⟩, hgo, heq⟩ := Option.map_eq_some_iff.1 h
      obtain ⟨hps, rfl, rfl⟩ := ih hgo
      cases heq
      refine ⟨?_, rfl, rfl⟩
      rw [List.forall_mem_cons]
      exact ⟨by omega, hps⟩

theorem spread_length {codes : List Int} : spread codes.length codes = codes := by
  match codes with
  | [] => rfl
  | [_] => rfl
  | _ :: _ :: _ => rfl

theorem InFlight.bound_shadowParams (hf : f.Coded) {vs : List (Option String)} {fs : List Int}
    (h : f.shadowParams = some (vs, fs)) {k : Int} (hk : k ∈ f.intent.params) :
    bound vs fs (f.intent.params.idxOf k + 1) = bound f.params f.paramFormats k := by
  obtain ⟨hps, rfl, rfl⟩ := shadowParams_go_some h
  have hlt : f.intent.params.idxOf k < f.intent.params.length := List.idxOf_lt_length_iff.2 hk
  have hidx : (((f.intent.params.idxOf k : Int) + 1).toNat - 1) = f.intent.params.idxOf k := by
    omega
  rw [bound_eq hf (hps k hk).1 (hps k hk).2, bound, if_neg (by omega), hidx]
  have hcodes : spread (f.intent.params.map fun k => f.params.getD (k.toNat - 1) none).length
      (f.intent.params.map fun k => bindFormat f.paramFormats k.toNat) =
      f.intent.params.map fun k => bindFormat f.paramFormats k.toNat := by
    rw [List.length_map, ← List.length_map fun k : Int => bindFormat f.paramFormats k.toNat]
    exact spread_length
  rw [hcodes, List.zip_map', List.getElem?_map, List.getElem?_idxOf hk, Option.map_some]

end Bind

section Renumbered

variable {n : Node}

theorem Node.mem_refs_renumbered {k : Int} :
    k ∈ (n.rename n.renumber).refs ↔ 1 ≤ k ∧ k ≤ n.positions.length := by
  rw [refs_rename, List.mem_map]
  constructor
  · rintro ⟨j, hj, rfl⟩
    have hlt : n.positions.idxOf j < n.positions.length :=
      List.idxOf_lt_length_iff.2 (mem_positions.2 hj)
    rw [renumber]
    omega
  · intro ⟨h1, hk⟩
    have hlt : k.toNat - 1 < n.positions.length := by omega
    refine ⟨n.positions[k.toNat - 1], mem_positions.1 (List.getElem_mem hlt), ?_⟩
    rw [renumber, n.nodup_positions.idxOf_getElem]
    omega

theorem InFlight.shadowParams_none {f : InFlight} (hn : ∀ k ∈ n.refs, 1 ≤ k)
    (hf : f.intent.params = n.positions) :
    f.shadowParams = none ↔ ∃ k ∈ n.positions, (f.params.length : Int) < k := by
  rw [shadowParams, shadowParams_go_none, hf]
  refine exists_congr fun k => and_congr_right fun hk => or_iff_right ?_
  exact not_lt.2 (hn k (Node.mem_positions.1 hk))

theorem Node.eval_renumbered {β : Type*} (M : Semantics β) {f : InFlight}
    (hf : f.intent.params = n.positions) (hc : f.Coded) {vs : List (Option String)} {fs : List Int}
    (h : f.shadowParams = some (vs, fs)) :
    (n.rename n.renumber).eval M (bound vs fs) = n.eval M (bound f.params f.paramFormats) := by
  apply eval_rename
  intro k hk
  rw [renumber, ← hf]
  exact f.bound_shadowParams hc h (hf ▸ mem_positions.2 hk)

theorem renumberParams_preserves.{u} (n : Node) (hn : ∀ k ∈ n.refs, 1 ≤ k) :
    ∃ t ps, renumberParams n = some (t, ps) ∧ ps.Pairwise (· < ·) ∧ (∀ k, k ∈ ps ↔ k ∈ n.refs) ∧
      (∀ k, k ∈ t.refs ↔ 1 ≤ k ∧ k ≤ ps.length) ∧
      ∀ f : InFlight, f.intent.params = ps → f.Coded →
        (f.shadowParams = none ↔ ∃ k ∈ ps, (f.params.length : Int) < k) ∧
        ∀ vs fs, f.shadowParams = some (vs, fs) →
          ∀ (β : Type u) (M : Semantics β), t.eval M (bound vs fs) =
            n.eval M (bound f.params f.paramFormats) := by
  refine ⟨_, _, renumberParams_eq hn, n.sorted_positions, fun _ => Node.mem_positions,
    fun _ => Node.mem_refs_renumbered, fun f hf hc => ?_⟩
  refine ⟨InFlight.shadowParams_none hn hf, fun vs fs h β M => ?_⟩
  exact Node.eval_renumbered M hf hc h

def Node.sampleWhere : Node :=
  .mk (.other "BoolExpr AND")
    (.ofList [(.other "args", .mk (.paramRef 5) .nil), (.other "args", .mk (.paramRef 2) .nil)])

def InFlight.sampleBound : InFlight where
  request := 0
  intent := { tag := "UPDATE", rows := -1, shadow := "", params := [2, 5] }
  extended := true
  params := [some "v1", some "v2", some "v3", some "v4", some "v5"]
  paramFormats := [0, 0, 0, 0, 1]
  formats := []

theorem renumberParams_preserves_sample :
    ∃ t, renumberParams Node.sampleWhere = some (t, [2, 5]) ∧
      InFlight.sampleBound.shadowParams = some ([some "v2", some "v5"], [0, 1]) ∧
      ∀ (β : Type) (M : Semantics β), t.eval M (bound [some "v2", some "v5"] [0, 1]) =
        Node.sampleWhere.eval M
          (bound InFlight.sampleBound.params InFlight.sampleBound.paramFormats) := by
  have h : ∀ k ∈ Node.sampleWhere.refs, 1 ≤ k := by decide
  obtain ⟨t, ps, ht, -, -, -, hbind⟩ := renumberParams_preserves.{0} Node.sampleWhere h
  obtain rfl : ps = [2, 5] :=
    congrArg Prod.snd (Option.some.inj (ht.symm.trans (renumberParams_eq h)))
  have hvalues : InFlight.sampleBound.shadowParams = some ([some "v2", some "v5"], [0, 1]) := by
    decide
  exact ⟨t, ht, hvalues, (hbind InFlight.sampleBound rfl (.inr (.inr rfl))).2 _ _ hvalues⟩

end Renumbered

end DsqlEmulator.Occ
