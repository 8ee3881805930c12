import DsqlEmulator.Framer

/-! The framing of protocol messages: what is forwarded is what was read. -/

namespace DsqlEmulator.Wire.Framing

def maxMessageLength : Nat := 268435456

/-- A framed message; `raw` is the whole frame. -/
structure Message : Type where
  type : UInt8
  body : List UInt8
  raw : List UInt8
  deriving DecidableEq, Repr

/-- The untagged message that opens a connection. -/
structure Startup : Type where
  code : Int
  body : List UInt8
  raw : List UInt8
  deriving DecidableEq, Repr

inductive Error (E : Type) : Type
  | read (e : ReadError E)
  | invalidLength (length : Nat) (type : UInt8)
  | body (type : UInt8) (e : ReadError E)
  | invalidStartupLength (length : Nat)
  | startup (e : ReadError E)
  deriving DecidableEq, Repr

variable {E : Type}

def readTagged (r : Source UInt8 E) : Except (Error E) Message × Source UInt8 E :=
  match r.readFull 5 with
  | (.error e, r) => (.error (.read e), r)
  | (.ok hdr, r) =>
    let length := bigEndian hdr.tail.toList
    if length < 4 ∨ length > maxMessageLength then (.error (.invalidLength length hdr.head), r)
    else
      match r.readFull (length - 4) with
      | (.error e, r) => (.error (.body hdr.head e), r)
      | (.ok body, r) => (.ok ⟨hdr.head, body.toList, hdr.toList ++ body.toList⟩, r)

def int32 (l : List UInt8) : Int := Int.bmod (bigEndian l) 4294967296

def readStartup (r : Source UInt8 E) : Except (Error E) Startup × Source UInt8 E :=
  match r.readFull 4 with
  | (.error e, r) => (.error (.read e), r)
  | (.ok lenBuf, r) =>
    let length := bigEndian lenBuf.toList
    if length < 8 ∨ length > maxMessageLength then (.error (.invalidStartupLength length), r)
    else
      match r.readFull (length - 4) with
      | (.error e, r) => (.error (.startup e), r)
      | (.ok rest, r) =>
        (.ok ⟨int32 (rest.toList.take 4), rest.toList, lenBuf.toList ++ rest.toList⟩, r)

/-- The frame is the type, four bytes with the length and the body; the length counts
itself and is within its limits. -/
structure Message.WellFormed (m : Message) (length : Nat) : Prop where
  raw : ∃ lengthBytes : List UInt8, lengthBytes.length = 4 ∧ bigEndian lengthBytes = length ∧
    m.raw = m.type :: lengthBytes ++ m.body
  body : length = 4 + m.body.length
  min : 4 ≤ length
  max : length ≤ maxMessageLength

structure Startup.WellFormed (s : Startup) (length : Nat) : Prop where
  raw : ∃ lengthBytes : List UInt8, lengthBytes.length = 4 ∧ bigEndian lengthBytes = length ∧
    s.raw = lengthBytes ++ s.body
  body : length = 4 + s.body.length
  code : s.code = int32 (s.body.take 4)
  min : 8 ≤ length
  max : length ≤ maxMessageLength

section Tagged

variable {r r' : Source UInt8 E} {m : Message} {rest : List UInt8}

theorem readTagged_sound (h : readTagged r = (.ok m, r')) :
    (∃ length, m.WellFormed length) ∧ r.bytes = m.raw ++ r'.bytes := by
  unfold readTagged at h
  split at h
  next => cases h
  next hdr r₁ hhdr =>
    simp only at h
    split at h
    next => cases h
    next hlength =>
      split at h
      next => cases h
      next body r₂ hbody =>
        cases h
        obtain ⟨hmin, hmax⟩ := not_or.1 hlength
        have hcons : hdr.toList = hdr.head :: hdr.tail.toList := by
          rw [← List.Vector.toList_cons, hdr.cons_head_tail]
        refine ⟨⟨bigEndian hdr.tail.toList,
          ⟨hdr.tail.toList, hdr.tail.toList_length, rfl, by rw [hcons]⟩, ?_,
          Nat.not_lt.1 hmin, Nat.not_lt.1 hmax⟩, ?_⟩
        · rw [body.toList_length]
          omega
        · rw [Source.readFull_eq hhdr, Source.readFull_eq hbody, List.append_assoc]

theorem readTagged_complete (hm : ∃ length, m.WellFormed length) (h : r.bytes = m.raw ++ rest) :
    ∃ r', readTagged r = (.ok m, r') ∧ r'.bytes = rest := by
  obtain ⟨_, ⟨lengthBytes, hfour, rfl, hraw⟩, hbody, hmin, hmax⟩ := hm
  let hdr : List.Vector UInt8 5 := ⟨m.type :: lengthBytes, by rw [List.length_cons, hfour]⟩
  let body : List.Vector UInt8 (bigEndian lengthBytes - 4) := ⟨m.body, by omega⟩
  have hsplit : r.bytes = hdr.toList ++ (body.toList ++ rest) := by
    rw [h, hraw]
    exact List.append_assoc _ _ _
  obtain ⟨r₁, hhdr, hleft⟩ := Source.exists_readFull hsplit
  obtain ⟨r₂, hread, hrest⟩ := Source.exists_readFull hleft
  refine ⟨r₂, ?_, hrest⟩
  have hlength : ¬ (bigEndian hdr.tail.toList < 4 ∨ bigEndian hdr.tail.toList > maxMessageLength) :=
    not_or.2 ⟨Nat.not_lt.2 hmin, Nat.not_lt.2 hmax⟩
  have hbodyRead : r₁.readFull (bigEndian hdr.tail.toList - 4) = (.ok body, r₂) := hread
  have hmessage : (⟨m.type, m.body, m.type :: lengthBytes ++ m.body⟩ : Message) = m := by
    rw [← hraw]
  unfold readTagged
  rw [hhdr]
  simp only [if_neg hlength]
  rw [hbodyRead]
  exact congrArg (fun m => (Except.ok m, r₂)) hmessage

def tagged (E : Type) : Framer (Source UInt8 E) UInt8 (Error E) Message where
  read := readTagged
  bytes := Source.bytes
  raw := Message.raw
  Good m := ∃ length, m.WellFormed length
  raw_ne := by
    rintro m ⟨_, ⟨_, -, -, hraw⟩, -⟩
    rw [hraw]
    exact List.cons_ne_nil _ _
  sound := readTagged_sound
  complete := readTagged_complete

end Tagged

section Startup

variable {r r' : Source UInt8 E} {s : Startup} {rest : List UInt8}

theorem readStartup_sound (h : readStartup r = (.ok s, r')) :
    (∃ length, s.WellFormed length) ∧ r.bytes = s.raw ++ r'.bytes := by
  unfold readStartup at h
  split at h
  next => cases h
  next lenBuf r₁ hlen =>
    simp only at h
    split at h
    next => cases h
    next hlength =>
      split at h
      next => cases h
      next body r₂ hbody =>
        obtain ⟨hok, rfl⟩ := Prod.mk.inj h
        obtain rfl := Except.ok.inj hok
        obtain ⟨hmin, hmax⟩ := not_or.1 hlength
        refine ⟨⟨bigEndian lenBuf.toList, ⟨lenBuf.toList, lenBuf.toList_length, rfl, rfl⟩, ?_, ?_,
          Nat.not_lt.1 hmin, Nat.not_lt.1 hmax⟩, ?_⟩
        · rw [body.toList_length]
          omega
        · dsimp only
        · rw [Source.readFull_eq hlen, Source.readFull_eq hbody, List.append_assoc]

theorem readStartup_complete (hs : ∃ length, s.WellFormed length) (h : r.bytes = s.raw ++ rest) :
    ∃ r', readStartup r = (.ok s, r') ∧ r'.bytes = rest := by
  obtain ⟨_, ⟨lengthBytes, hfour, rfl, hraw⟩, hbody, hcode, hmin, hmax⟩ := hs
  let lenBuf : List.Vector UInt8 4 := ⟨lengthBytes, hfour⟩
  let body : List.Vector UInt8 (bigEndian lengthBytes - 4) := ⟨s.body, by omega⟩
  have hsplit : r.bytes = lenBuf.toList ++ (body.toList ++ rest) := by
    rw [h, hraw]
    exact List.append_assoc _ _ _
  obtain ⟨r₁, hlen, hleft⟩ := Source.exists_readFull hsplit
  obtain ⟨r₂, hread, hrest⟩ := Source.exists_readFull hleft
  refine ⟨r₂, ?_, hrest⟩
  have hlength : ¬ (bigEndian lenBuf.toList < 8 ∨ bigEndian lenBuf.toList > maxMessageLength) :=
    not_or.2 ⟨Nat.not_lt.2 hmin, Nat.not_lt.2 hmax⟩
  have hbodyRead : r₁.readFull (bigEndian lenBuf.toList - 4) = (.ok body, r₂) := hread
  have hstartup : (⟨int32 (s.body.take 4), s.body, lengthBytes ++ s.body⟩ : Startup) = s := by
    rw [← hcode, ← hraw]
  unfold readStartup
  rw [hlen]
  simp only [if_neg hlength]
  rw [hbodyRead]
  exact congrArg (fun s => (Except.ok s, r₂)) hstartup

end Startup

/-- What is read is what was sent, frame by frame, and frames that were sent are read: on a
stream of tagged messages, and on one that a startup message opens. -/
theorem framing_verbatim (r : Source UInt8 E) :
    ((∀ m ∈ ((tagged E).readAll r).1, ∃ length, m.WellFormed length) ∧
      ((tagged E).readAll r).1.flatMap Message.raw <+: r.bytes) ∧
    (∀ (ms : List Message) (rest : List UInt8), (∀ m ∈ ms, ∃ length, m.WellFormed length) →
      r.bytes = ms.flatMap Message.raw ++ rest → ms <+: ((tagged E).readAll r).1) ∧
    (∀ (s : Startup) (r' : Source UInt8 E), readStartup r = (.ok s, r') →
      (∃ length, s.WellFormed length) ∧
        (∀ m ∈ ((tagged E).readAll r').1, ∃ length, m.WellFormed length) ∧
        s.raw ++ ((tagged E).readAll r').1.flatMap Message.raw <+: r.bytes) ∧
    (∀ (s : Startup) (ms : List Message) (rest : List UInt8), (∃ length, s.WellFormed length) →
      (∀ m ∈ ms, ∃ length, m.WellFormed length) →
        r.bytes = s.raw ++ ms.flatMap Message.raw ++ rest →
        ∃ r', readStartup r = (.ok s, r') ∧ ms <+: ((tagged E).readAll r').1) := by
  have hframes {r : Source UInt8 E} {ms : List Message} {rest : List UInt8}
      (hms : ∀ m ∈ ms, ∃ length, m.WellFormed length)
        (h : r.bytes = ms.flatMap Message.raw ++ rest) :
      ms <+: ((tagged E).readAll r).1 := by
    obtain ⟨_, -, hall⟩ := Framer.readAll_complete (F := tagged E) hms h
    rw [hall]
    exact List.prefix_append _ _
  refine ⟨Framer.readAll_sound, fun ms rest hms h => hframes hms h, fun s r' h => ?_,
    fun s ms rest hs hms h => ?_⟩
  · obtain ⟨hgood, hbytes⟩ := readStartup_sound h
    have hall := Framer.readAll_sound (F := tagged E) (s := r')
    refine ⟨hgood, hall.1, ?_⟩
    rw [hbytes]
    exact (List.prefix_append_right_inj _).2 hall.2
  · rw [List.append_assoc] at h
    obtain ⟨r', hread, hbytes⟩ := readStartup_complete hs h
    exact ⟨r', hread, hframes hms hbytes⟩

theorem framing_verbatim_sync :
    let r : Source UInt8 Empty :=
  { chunks := [[0, 0, 0], [8], [0, 3, 0], [0], [83, 0, 0], [], [0], [4, 81, 0]] }
    let sync : Message := ⟨83, [], [83, 0, 0, 0, 4]⟩
    ∃ r', readStartup r = (.ok ⟨196608, [0, 3, 0, 0], [0, 0, 0, 8, 0, 3, 0, 0]⟩, r') ∧
      [sync] <+: ((tagged Empty).readAll r').1 := by
  intro r sync
  have hsync : sync.WellFormed 4 := ⟨⟨[0, 0, 0, 4], rfl, rfl, rfl⟩, rfl, by decide, by decide⟩
  exact (framing_verbatim r).2.2.2 ⟨196608, [0, 3, 0, 0], [0, 0, 0, 8, 0, 3, 0, 0]⟩ [sync] [81, 0]
    ⟨8, ⟨[0, 0, 0, 8], rfl, rfl, rfl⟩, rfl, by decide, by decide, by decide⟩
    (fun m hm => ⟨4, List.mem_singleton.1 hm ▸ hsync⟩) rfl

end DsqlEmulator.Wire.Framing
