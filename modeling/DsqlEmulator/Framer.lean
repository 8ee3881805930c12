import Mathlib.Data.Vector.Defs

/-! Bytes that arrive in chunks, and readers that cut a stream into messages. -/

namespace DsqlEmulator

inductive ReadError (E : Type) : Type
  | eof
  | unexpectedEof
  | failed (e : E)
  deriving DecidableEq, Repr

def ReadError.late {E : Type} : ReadError E → ReadError E
  | .eof => .unexpectedEof
  | e => e

/-- A source of bytes: what each of its reads gives, if there is room for it, and the error
it ends with.  A read may give nothing. -/
structure Source (α E : Type) : Type where
  chunks : List (List α)
  fault : ReadError E := .eof

namespace Source

variable {α E : Type}

def bytes (s : Source α E) : List α := s.chunks.flatten

def readChunks (fault : ReadError E) :
    List (List α) → (n : Nat) → Except (ReadError E) (List.Vector α n) × List (List α)
  | chunks, 0 => (.ok .nil, chunks)
  | [], _ + 1 => (.error fault, [])
  | c :: chunks, n + 1 =>
    if h : n + 1 < c.length then (.ok ⟨c.take (n + 1), List.length_take_of_le (Nat.le_of_lt h)⟩,
      c.drop (n + 1) :: chunks)
    else
      match readChunks fault chunks (n + 1 - c.length) with
      | (.ok l, rest) => (.ok ⟨c ++ l.1, by rw [List.length_append, l.2]; omega⟩, rest)
      | (.error e, rest) => (.error (if c = [] then e else e.late), rest)

def readFull (s : Source α E) (n : Nat) : Except (ReadError E) (List.Vector α n) × Source α E :=
  let (res, chunks) := readChunks s.fault s.chunks n
  (res, { s with chunks })

variable {fault : ReadError E} {chunks rest : List (List α)} {n : Nat}

theorem readChunks_eq {l : List.Vector α n} (h : readChunks fault chunks n = (.ok l, rest)) :
    chunks.flatten = l.toList ++ rest.flatten := by
  fun_induction readChunks fault chunks n with
  | case1 chunks =>
    cases h
    rfl
  | case2 => cases h
  | case3 c chunks n hlong =>
    cases h
    simp only [List.Vector.toList_mk, List.flatten_cons, ← List.append_assoc, List.take_append_drop]
  | case4 c chunks n hshort l' rest' hrec ih =>
    cases h
    simp only [List.flatten_cons, List.Vector.toList_mk, ih hrec, List.append_assoc]
    rfl
  | case5 => cases h

theorem exists_readChunks (fault : ReadError E) (h : n ≤ chunks.flatten.length) :
    ∃ l rest, readChunks fault chunks n = (.ok l, rest) := by
  fun_induction readChunks fault chunks n with
  | case1 chunks => exact ⟨_, _, rfl⟩
  | case2 => simp at h
  | case3 => exact ⟨_, _, rfl⟩
  | case4 => exact ⟨_, _, rfl⟩
  | case5 c chunks n hshort e rest hrec ih =>
    obtain ⟨l, rest', hok⟩ := ih (by simp only [List.flatten_cons, List.length_append] at h; omega)
    rw [hrec] at hok
    cases hok

variable {s s' : Source α E}

theorem readFull_eq {l : List.Vector α n} (h : s.readFull n = (.ok l, s')) :
    s.bytes = l.toList ++ s'.bytes := by
  unfold readFull at h
  obtain ⟨hres, rfl⟩ := Prod.mk.inj h
  exact readChunks_eq (Prod.ext hres rfl)

theorem exists_readFull {l : List.Vector α n} {rest : List α} (h : s.bytes = l.toList ++ rest) :
    ∃ s', s.readFull n = (.ok l, s') ∧ s'.bytes = rest := by
  have hlen : n ≤ s.chunks.flatten.length := by
    have htotal : s.bytes.length = n + rest.length := by rw [h, List.length_append, l.toList_length]
    exact htotal ▸ Nat.le_add_right n rest.length
  obtain ⟨l', left, hread⟩ := exists_readChunks s.fault hlen
  have hsplit : l.toList ++ rest = l'.toList ++ left.flatten := h.symm.trans (readChunks_eq hread)
  obtain ⟨hl, hrest⟩ := List.append_inj hsplit (l.toList_length.trans l'.toList_length.symm)
  refine ⟨{ s with chunks := left }, ?_, hrest.symm⟩
  rw [readFull, hread, show l = l' from Subtype.ext hl]

end Source

structure Framer (S β ε μ : Type) : Type where
  read : S → Except ε μ × S
  bytes : S → List β
  raw : μ → List β
  Good : μ → Prop
  raw_ne : ∀ {m}, Good m → raw m ≠ []
  sound : ∀ {s m s'}, read s = (.ok m, s') → Good m ∧ bytes s = raw m ++ bytes s'
  complete : ∀ {s m rest}, Good m → bytes s = raw m ++ rest → ∃ s', read s = (.ok m, s') ∧
    bytes s' = rest

namespace Framer

variable {S β ε μ : Type} (F : Framer S β ε μ)

theorem length_bytes_lt {s s' : S} {m : μ} (h : F.read s = (.ok m, s')) :
    (F.bytes s').length < (F.bytes s).length := by
  obtain ⟨hgood, heq⟩ := F.sound h
  rw [heq, List.length_append]
  exact Nat.lt_add_of_pos_left (List.length_pos_iff.2 (F.raw_ne hgood))

def readAll (s : S) : List μ × ε × S :=
  match h : F.read s with
  | (.error e, s') => ([], e, s')
  | (.ok m, s') =>
    have := F.length_bytes_lt h
    let rest := readAll s'
    (m :: rest.1, rest.2)
termination_by (F.bytes s).length

variable {F} {s s' : S}

theorem readAll_ok {m : μ} (h : F.read s = (.ok m, s')) :
    F.readAll s = (m :: (F.readAll s').1, (F.readAll s').2) := by
  rw [readAll]
  split
  next h' => cases h.symm.trans h'
  next h' => cases h.symm.trans h'; rfl

theorem readAll_sound :
    (∀ m ∈ (F.readAll s).1, F.Good m) ∧ (F.readAll s).1.flatMap F.raw <+: F.bytes s := by
  fun_induction F.readAll s with
  | case1 => exact ⟨by simp, List.nil_prefix⟩
  | case2 s m s' h hlt rest ih =>
    obtain ⟨hgood, heq⟩ := F.sound h
    refine ⟨fun m' hm' => ?_, ?_⟩
    · obtain rfl | hm' := List.mem_cons.1 hm'
      · exact hgood
      · exact ih.1 m' hm'
    · rw [heq]
      exact (List.prefix_append_right_inj _).2 ih.2

theorem readAll_complete {ms : List μ} {rest : List β} (hgood : ∀ m ∈ ms, F.Good m)
    (h : F.bytes s = ms.flatMap F.raw ++ rest) :
    ∃ s', F.bytes s' = rest ∧ F.readAll s = (ms ++ (F.readAll s').1, (F.readAll s').2) := by
  induction ms generalizing s with
  | nil => exact ⟨s, h, rfl⟩
  | cons m ms ih =>
    rw [List.flatMap_cons, List.append_assoc] at h
    obtain ⟨s₁, hread, hbytes⟩ := F.complete (hgood m List.mem_cons_self) h
    obtain ⟨s₂, hrest, hall⟩ := ih (fun m' hm' => hgood m' (List.mem_cons_of_mem m hm')) hbytes
    exact ⟨s₂, hrest, by rw [readAll_ok hread, hall]; rfl⟩

end Framer

def bigEndian (l : List UInt8) : Nat := l.foldl (fun n b => 256 * n + b.toNat) 0

end DsqlEmulator
