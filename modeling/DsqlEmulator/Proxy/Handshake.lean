import DsqlEmulator.Wire.Framing
import DsqlEmulator.Wire.Startup
import DsqlEmulator.Proxy.Relay

/-! The startup exchange: requests for encryption are answered until a message opens the
connection, and that one is sent on.  What opens no session is relayed as it is. -/

namespace DsqlEmulator.Proxy.Handshake

open Runs Wire Framing Rules Postgres Relay

deriving instance DecidableEq for DsqlEmulator.Source

def protocolVersion3 : Int := 196608

def protocolVersion32 : Int := 196610

def sslRequestCode : Int := 80877103

def gssEncRequest : Int := 80877104

def isStartup (code : Int) : Bool := code = protocolVersion3 || code = protocolVersion32

/-- How a startup message is decoded and encoded. -/
structure Codec : Type where
  decode : List UInt8 → Option Params
  encode : Int → Dict String String → Option (List UInt8)

def rewriteStartup (C : Codec) (rs : Ruleset) (st : Startup) : List UInt8 :=
  match C.decode st.body with
  | none => st.raw
  | some ps => (C.encode st.code (Wire.handshake rs ps)).getD st.raw

structure Config : Type where
  codec : Codec
  ruleset : Ruleset
  tls : Bool

def forwarded (cfg : Config) (st : Startup) : List UInt8 :=
  if isStartup st.code then rewriteStartup cfg.codec cfg.ruleset st else st.raw

variable {E : Type}

structure Net (E : Type) : Type where
  reply : Nat → Option E
  forward : Option E
  accept : Nat → DsqlEmulator.Source UInt8 E → Except E (DsqlEmulator.Source UInt8 E)

inductive Failure (E : Type) : Type
  | read (e : Framing.Error E)
  | network (e : E)
  deriving DecidableEq, Repr

structure Shake (E : Type) : Type where
  client : DsqlEmulator.Source UInt8 E
  layers : Nat := 0
  replies : List (Nat × UInt8) := []
  upstream : List (List UInt8) := []
  fromClient : Nat := 0
  deriving DecidableEq

def declined : UInt8 := 78

def accepted : UInt8 := 83

def Shake.reply (N : Net E) (b : UInt8) (s : Shake E) : Option E × Shake E :=
  match N.reply s.replies.length with
  | some e => (some e, s)
  | none => (none, { s with replies := s.replies ++ [(s.layers, b)] })

def negotiateTLS (tls : Bool) (N : Net E) (s : Shake E) : Option E × Shake E :=
  if tls then
    match s.reply N accepted with
    | (some e, s) => (some e, s)
    | (none, s) =>
      match N.accept s.layers s.client with
      | .error e => (some e, s)
      | .ok client => (none, { s with client, layers := s.layers + 1 })
  else s.reply N declined

def pass (cfg : Config) (N : Net E) (s : Shake E) : Option (Except (Failure E) Bool) × Shake E :=
  match readStartup s.client with
  | (.error e, client) => (some (.error (.read e)), { s with client })
  | (.ok st, client) =>
    let s := { s with client, fromClient := s.fromClient + st.raw.length }
    if st.code = sslRequestCode then
      let (err, s) := negotiateTLS cfg.tls N s
      (err.map (.error ∘ .network), s)
    else if st.code = gssEncRequest then
      let (err, s) := s.reply N declined
      (err.map (.error ∘ .network), s)
    else
      match N.forward with
      | some e => (some (.error (.network e)), s)
      | none =>
        (some (.ok (isStartup st.code)), { s with upstream := s.upstream ++ [forwarded cfg st] })

/-- The loop, for so many passes at most. -/
def handshake (cfg : Config) (N : Net E) :
    Nat → Shake E → Option (Except (Failure E) Bool × Shake E)
  | 0, _ => none
  | n + 1, s =>
    match pass cfg N s with
    | (some r, s) => some (r, s)
    | (none, s) => handshake cfg N n s

section Streams

/-- A request for encryption. -/
def Asks (q : Startup) : Prop := q.code = sslRequestCode ∨ q.code = gssEncRequest

instance (q : Startup) : Decidable (Asks q) := inferInstanceAs (Decidable (_ ∨ _))

structure Next (r : DsqlEmulator.Source UInt8 E) (st : Startup) (r' : DsqlEmulator.Source UInt8 E) :
    Prop where
  wellFormed : ∃ length, st.WellFormed length
  bytes : r.bytes = st.raw ++ r'.bytes

/-- The stream `r`, read through `n` layers of TLS, has the requests `qs`, each through the
layers of its time, and then the message `st`.  A layer is put on at once behind the request
for it, on all that follows. -/
inductive Presents (tls : Bool) (N : Net E) :
    Nat → DsqlEmulator.Source UInt8 E → List (Nat × Startup) → Startup → Nat →
      DsqlEmulator.Source UInt8 E → Prop
  | opens {n r st r'} : Next r st r' → ¬ Asks st → Presents tls N n r [] st n r'
  | declined {n r q r₁ qs st k r'} : Next r q r₁ → Asks q →
      (q.code = sslRequestCode → tls = false) →
      Presents tls N n r₁ qs st k r' → Presents tls N n r ((n, q) :: qs) st k r'
  | accepted {n r q r₁ plain qs st k r'} : Next r q r₁ → q.code = sslRequestCode → tls = true →
      N.accept n r₁ = .ok plain → Presents tls N (n + 1) plain qs st k r' →
        Presents tls N n r ((n, q) :: qs) st k r'

def answer (tls : Bool) (q : Startup) : UInt8 :=
  if tls ∧ q.code = sslRequestCode then accepted else declined

structure Opened (cfg : Config) (s : Shake E) (qs : List (Nat × Startup)) (st : Startup)
    (s' : Shake E) : Prop where
  replies : s'.replies = s.replies ++ qs.map fun q => (q.1, answer cfg.tls q.2)
  upstream : s'.upstream = s.upstream ++ [forwarded cfg st]
  fromClient : s'.fromClient = s.fromClient + (qs.flatMap (·.2.raw)).length + st.raw.length

variable {cfg : Config} {N : Net E} {s s' : Shake E} {b : Bool} {n k : Nat}
  {r r' : DsqlEmulator.Source UInt8 E} {st : Startup} {qs : List (Nat × Startup)}

theorem next_of_readStartup (h : readStartup r = (.ok st, r')) : Next r st r' :=
  ⟨(readStartup_sound h).1, (readStartup_sound h).2⟩

theorem reply_eq_none {v : UInt8} (h : s.reply N v = (none, s')) :
    s' = { s with replies := s.replies ++ [(s.layers, v)] } := by
  unfold Shake.reply at h
  split at h
  · cases h
  · exact (Prod.mk.inj h).2.symm

theorem negotiateTLS_eq_none {tls : Bool} (h : negotiateTLS tls N s = (none, s')) :
    (tls = false ∧ s' = { s with replies := s.replies ++ [(s.layers, declined)] }) ∨
      ∃ plain, tls = true ∧ N.accept s.layers s.client = .ok plain ∧
        s' = { s with client := plain, layers := s.layers + 1, replies := s.replies ++ [(s.layers,
            accepted)] } := by
  unfold negotiateTLS at h
  cases tls with
  | false => exact .inl ⟨rfl, reply_eq_none h⟩
  | true =>
    simp only [if_true] at h
    split at h
    · cases h
    · next s₁ hreply =>
      obtain rfl := reply_eq_none hreply
      split at h
      · cases h
      · next plain haccept => exact .inr ⟨plain, rfl, haccept, (Prod.mk.inj h).2.symm⟩

theorem pass_eq_none (h : pass cfg N s = (none, s')) : ∃ q r, Next s.client q r ∧ Asks q ∧
    (((q.code = sslRequestCode → cfg.tls = false) ∧
        s' = { s with client := r, fromClient := s.fromClient + q.raw.length,
                      replies := s.replies ++ [(s.layers, answer cfg.tls q)] }) ∨
      ∃ plain, q.code = sslRequestCode ∧ cfg.tls = true ∧ N.accept s.layers r = .ok plain ∧
        s' = { s with client := plain, layers := s.layers + 1,
                      fromClient := s.fromClient + q.raw.length,
                      replies := s.replies ++ [(s.layers, answer cfg.tls q)] }) := by
  unfold pass at h
  split at h
  · cases h
  · next q r hread =>
    refine ⟨q, r, next_of_readStartup hread, ?_⟩
    dsimp only at h
    split at h
    · next hssl =>
      obtain ⟨herr, hs'⟩ := Prod.mk.inj h
      refine ⟨.inl hssl, ?_⟩
      obtain ⟨htls, rfl⟩ | ⟨plain, htls, haccept, rfl⟩ :=
        negotiateTLS_eq_none (Prod.ext (Option.map_eq_none_iff.1 herr) hs')
      · exact .inl ⟨fun _ => htls, by simp [answer, htls]⟩
      · exact .inr ⟨plain, hssl, htls, haccept, by simp [answer, htls, hssl]⟩
    · next hssl =>
      split at h
      · next hgss =>
        obtain ⟨herr, hs'⟩ := Prod.mk.inj h
        obtain rfl := reply_eq_none (Prod.ext (Option.map_eq_none_iff.1 herr) hs')
        exact ⟨.inr hgss, .inl ⟨fun h => absurd h hssl, by simp [answer, hssl]⟩⟩
      · split at h <;> cases h

theorem pass_eq_ok (h : pass cfg N s = (some (.ok b), s')) :
    ∃ st r, Next s.client st r ∧ ¬ Asks st ∧ b = isStartup st.code ∧
    s' = { s with client := r, fromClient := s.fromClient + st.raw.length,
                  upstream := s.upstream ++ [forwarded cfg st] } := by
  have hnot {err : Option E} : err.map (Except.error ∘ Failure.network) ≠ some (.ok b) := by
    cases err <;> simp
  unfold pass at h
  split at h
  · cases h
  · next st r hread =>
    refine ⟨st, r, next_of_readStartup hread, ?_⟩
    dsimp only at h
    split at h
    · exact absurd (Prod.mk.inj h).1 hnot
    · split at h
      · exact absurd (Prod.mk.inj h).1 hnot
      · next hssl hgss =>
        split at h
        · cases h
        · obtain ⟨hb, hs'⟩ := Prod.mk.inj h
          exact ⟨not_or.2 ⟨hssl, hgss⟩, (Except.ok.inj (Option.some.inj hb)).symm, hs'.symm⟩

theorem presents_of_handshake (h : handshake cfg N n s = some (.ok b, s')) :
    ∃ qs st, Presents cfg.tls N s.layers s.client qs st s'.layers s'.client ∧
      Opened cfg s qs st s' ∧ b = isStartup st.code := by
  induction n generalizing s with
  | zero => cases h
  | succ n ih =>
    rw [handshake] at h
    split at h
    · next res s₁ hpass =>
      obtain ⟨rfl, rfl⟩ := Prod.mk.inj (Option.some.inj h)
      obtain ⟨st, r, hnext, hasks, rfl, rfl⟩ := pass_eq_ok hpass
      exact ⟨[], st, .opens hnext hasks, ⟨by simp, rfl, by simp⟩, rfl⟩
    · next s₁ hpass =>
      obtain ⟨qs, st, hp, ho, hb⟩ := ih h
      obtain ⟨q, r, hnext, hasks, ⟨hdeclined, rfl⟩ | ⟨plain, hssl, htls, haccept, rfl⟩⟩ :=
        pass_eq_none hpass
      · refine ⟨(s.layers, q) :: qs, st, .declined hnext hasks hdeclined hp,
          ⟨?_, ho.upstream, ?_⟩, hb⟩
        · simp [ho.replies]
        · simp [ho.fromClient, Nat.add_assoc]
      · refine ⟨(s.layers, q) :: qs, st, .accepted hnext hssl htls haccept hp,
          ⟨?_, ho.upstream, ?_⟩, hb⟩
        · simp [ho.replies]
        · simp [ho.fromClient, Nat.add_assoc]

/-- A handshake that ends well has answered every request of the stream with one byte, `'S'`
to one for TLS if it is configured and `'N'` otherwise; has put TLS on at once behind each it
accepted; has sent on the one message that follows, and nothing else; and has read no byte
behind it. -/
theorem handshake_presents (h : handshake cfg N n { client := r } = some (.ok b, s')) :
    ∃ qs st, Presents cfg.tls N 0 r qs st s'.layers s'.client ∧
      s'.replies = qs.map (fun q => (q.1, answer cfg.tls q.2)) ∧ s'.upstream = [forwarded cfg st] ∧
      s'.fromClient = (qs.flatMap (·.2.raw)).length + st.raw.length ∧ b = isStartup st.code := by
  obtain ⟨qs, st, hp, ho, hb⟩ := presents_of_handshake h
  exact ⟨qs, st, hp, by simpa using ho.replies, ho.upstream, by simpa using ho.fromClient, hb⟩

def sslBytes : List UInt8 := [0, 0, 0, 8, 4, 210, 22, 47]

def startupBytes : List UInt8 := [0, 0, 0, 8, 0, 3, 0, 0]

def cancelBytes : List UInt8 := [0, 0, 0, 16, 4, 210, 22, 46, 0, 0, 0, 1, 0, 0, 0, 2]

def Config.sample (tls : Bool) : Config := ⟨⟨fun _ => none, fun _ _ => none⟩, embedded, tls⟩

def Net.sample : Net Empty := ⟨fun _ => none, none, fun _ r => .ok r⟩

theorem handshake_presents_tls :
    ∃ s', handshake (.sample true) .sample 2
      { client := ⟨[sslBytes, startupBytes ++ [81]], .eof⟩ } = some (.ok true, s') ∧
      s'.layers = 1 ∧ s'.client.bytes = [81] ∧
      ∃ qs st, Presents true Net.sample 0 ⟨[sslBytes, startupBytes ++ [81]],
          .eof⟩ qs st s'.layers s'.client := by
  let s' : Shake Empty := ⟨⟨[[81]], .eof⟩, 1, [(0, accepted)], [startupBytes], 16⟩
  have h : handshake (.sample true) .sample 2
    { client := ⟨[sslBytes, startupBytes ++ [81]], .eof⟩ } = some (.ok true, s') := by
    decide +kernel
  obtain ⟨qs, st, hp, -⟩ := handshake_presents h
  exact ⟨s', h, rfl, rfl, qs, st, hp⟩

end Streams

section Plain

variable {cfg : Config} {N : Net E} {s s' : Shake E} {b : Bool} {n k : Nat}
  {r r' : DsqlEmulator.Source UInt8 E} {st : Startup}

theorem Presents.plain {tls : Bool} {qs : List (Nat × Startup)} (h : Presents tls N n r qs st k r')
    (htls : tls = false) : (∀ q ∈ qs, q.1 = n ∧ Asks q.2 ∧ ∃ length, q.2.WellFormed length) ∧
      (∃ length, st.WellFormed length) ∧ ¬ Asks st ∧
      r.bytes = qs.flatMap (·.2.raw) ++ st.raw ++ r'.bytes := by
  induction h with
  | opens hnext hasks => exact ⟨by simp, hnext.wellFormed, hasks, by simpa using hnext.bytes⟩
  | declined hnext hasks _ _ ih =>
    obtain ⟨hqs, hst, hno, hbytes⟩ := ih
    refine ⟨fun q hq => ?_, hst, hno, by simp [hnext.bytes, hbytes]⟩
    obtain rfl | hq := List.mem_cons.1 hq
    · exact ⟨rfl, hasks, hnext.wellFormed⟩
    · exact hqs q hq
  | accepted _ _ ht => cases ht.symm.trans htls

/-- A message of the stream, as `ReadStartup` takes it. -/
def Whole (st : Startup) : Prop := ∃ length, st.WellFormed length

theorem handshake_of_bytes {qs : List Startup} {rest : List UInt8} (htls : cfg.tls = false)
    (hreply : ∀ n, N.reply n = none) (hforward : N.forward = none)
    (hqs : ∀ q ∈ qs, Asks q ∧ Whole q) (hst : Whole st) (hasks : ¬ Asks st)
    (hbytes : s.client.bytes = qs.flatMap (·.raw) ++ st.raw ++ rest) :
    ∃ s', handshake cfg N (qs.length + 1) s = some (.ok (isStartup st.code), s') ∧
      s'.client.bytes = rest ∧ s'.upstream = s.upstream ++ [forwarded cfg st] ∧
      s'.replies = s.replies ++ List.replicate qs.length (s.layers, declined) := by
  induction qs generalizing s with
  | nil =>
    obtain ⟨r, hread, hrest⟩ := readStartup_complete hst (by simpa using hbytes)
    obtain ⟨hssl, hgss⟩ := not_or.1 hasks
    refine ⟨{ s with client := r, fromClient := s.fromClient + st.raw.length,
                     upstream := s.upstream ++ [forwarded cfg st] }, ?_, hrest, rfl, by simp⟩
    simp only [handshake, pass, hread, hssl, hgss, hforward, if_false]
  | cons q qs ih =>
    obtain ⟨hask, hq⟩ := hqs q List.mem_cons_self
    rw [List.flatMap_cons, List.append_assoc, List.append_assoc] at hbytes
    obtain ⟨r, hread, hrest⟩ := readStartup_complete hq hbytes
    let s₁ : Shake E :=
      { s with client := r, fromClient := s.fromClient + q.raw.length,
               replies := s.replies ++ [(s.layers, declined)] }
    have hpass : pass cfg N s = (none, s₁) := by
      by_cases hssl : q.code = sslRequestCode
      · simp [s₁, pass, hread, hssl, negotiateTLS, htls, Shake.reply, hreply]
      · have hgss : q.code = gssEncRequest := hask.resolve_left hssl
        simp only [pass, hread, if_neg hssl, if_pos hgss, Shake.reply, hreply, Option.map_none, s₁]
    have hnext : s₁.client.bytes = qs.flatMap (·.raw) ++ st.raw ++ rest :=
      hrest.trans (List.append_assoc _ _ _).symm
    obtain ⟨s', hs', hleft, hup, hreplies⟩ :=
      ih (fun q hq => hqs q (List.mem_cons_of_mem _ hq)) hnext
    refine ⟨s', ?_, hleft, hup, ?_⟩
    · rw [List.length_cons, handshake, hpass]
      exact hs'
    · rw [hreplies, List.append_assoc, List.length_cons, List.replicate_succ]
      rfl

/-- Without TLS, and with a network that takes what is written, the handshake ends well on
just the streams in which any number of requests is followed by another message, however they
arrive: then every request is declined, that message is sent on and what is behind it is left. -/
theorem handshake_plain_iff (htls : cfg.tls = false) (hreply : ∀ n, N.reply n = none)
    (hforward : N.forward = none) (rest m : List UInt8) (replies : List (Nat × UInt8)) :
    (∃ n s', handshake cfg N n { client := r } = some (.ok b, s') ∧ s'.client.bytes = rest ∧
        s'.upstream = [m] ∧ s'.replies = replies) ↔
      ∃ (qs : List Startup) (st : Startup), (∀ q ∈ qs, Asks q ∧ Whole q) ∧ Whole st ∧ ¬ Asks st ∧
        r.bytes = qs.flatMap (·.raw) ++ st.raw ++ rest ∧ b = isStartup st.code ∧
          m = forwarded cfg st ∧ replies = List.replicate qs.length (0, declined) := by
  constructor
  · rintro ⟨n, s', h, rfl, hup, rfl⟩
    obtain ⟨qs, st, hp, ho, rfl⟩ := presents_of_handshake h
    obtain ⟨hqs, hst, hasks, hbytes⟩ := hp.plain htls
    refine ⟨qs.map Prod.snd, st, ?_, hst, hasks, by simpa [List.flatMap_map] using hbytes,
      rfl, ?_, ?_⟩
    · intro q hq
      obtain ⟨p, hp, rfl⟩ := List.mem_map.1 hq
      exact (hqs p hp).2
    · simpa [hup] using ho.upstream
    · rw [ho.replies, List.length_map, List.nil_append, List.eq_replicate_iff]
      refine ⟨List.length_map _, fun x hx => ?_⟩
      obtain ⟨q, hq, rfl⟩ := List.mem_map.1 hx
      simp [answer, htls, (hqs q hq).1]
  · rintro ⟨qs, st, hqs, hst, hasks, hbytes, rfl, rfl, rfl⟩
    obtain ⟨s', hs', hleft, hup, hreplies⟩ := handshake_of_bytes (s := { client := r }) htls hreply
      hforward hqs hst hasks hbytes
    exact ⟨_, s', hs', hleft, hup, by simpa using hreplies⟩

theorem handshake_plain_iff_ssl :
    ∃ n s', handshake (.sample false) .sample n
      { client := ⟨[[0, 0], [0, 8, 4, 210, 22, 47, 0], [0, 0, 8, 0, 3, 0, 0, 81]], .eof⟩ } =
        some (.ok true, s') ∧ s'.client.bytes = [81] ∧ s'.upstream = [startupBytes] ∧ s'.replies =
          [(0, declined)] := by
  have hssl : (⟨80877103, [4, 210, 22, 47], sslBytes⟩ : Startup).WellFormed 8 :=
    ⟨⟨[0, 0, 0, 8], rfl, rfl, rfl⟩, rfl, by decide, by decide, by decide⟩
  have hst : (⟨196608, [0, 3, 0, 0], startupBytes⟩ : Startup).WellFormed 8 :=
    ⟨⟨[0, 0, 0, 8], rfl, rfl, rfl⟩, rfl, by decide, by decide, by decide⟩
  refine (handshake_plain_iff (N := Net.sample) rfl (fun _ => rfl) rfl [81] startupBytes
    [(0, declined)]).2
    ⟨[⟨80877103, [4, 210, 22, 47], sslBytes⟩], ⟨196608, [0, 3, 0, 0], startupBytes⟩, fun q hq => ?_,
      ⟨8, hst⟩, by decide, rfl, rfl, rfl, rfl⟩
  rw [List.mem_singleton.1 hq]
  exact ⟨by decide, 8, hssl⟩

end Plain

section Relayed

variable {cfg : Config} {N : Net E} {s' : Shake E} {n : Nat} {r : DsqlEmulator.Source UInt8 E}
  {halfCloses : Side → Bool} {w : Relay.State}

def relayed (halfCloses : Side → Bool) (s : Shake E) : System Relay.State Relay.Label :=
  Relay.relay halfCloses
    (fun
      | .client => s.client.bytes
      | .upstream => [])
    (fun
      | .client => s.fromClient
      | .upstream => 0)

/-- A connection that is not opened by a startup message reaches the upstream byte for byte,
but for the requests the handshake answered: what the upstream gets is the first other message
and what the client has sent since, and where the client's stream ends well it is all of it. -/
theorem unopened_verbatim (htls : cfg.tls = false)
    (h : handshake cfg N n { client := r } = some (.ok false, s'))
    (hw : Reachable (relayed halfCloses s') w) :
    ∃ (qs : List Startup) (st : Startup), (∀ q ∈ qs, Asks q ∧ Whole q) ∧ Whole st ∧ ¬ Asks st ∧
      isStartup st.code = false ∧
      r.bytes = qs.flatMap (·.raw) ++ st.raw ++ s'.client.bytes ∧ s'.client.bytes <+:
        (w.flow .client).sent ∧
      s'.upstream.flatten ++ (w.flow .client).out <+: st.raw ++ (w.flow .client).sent ∧
      ((w.flow .client).stage = .returned true →
        s'.upstream.flatten ++ (w.flow .client).out = st.raw ++ (w.flow .client).sent ∧
        (w.flow .client).counter =
          (qs.flatMap (·.raw) ++ st.raw ++ (w.flow .client).sent).length) := by
  obtain ⟨qs, st, hp, ho, hb⟩ := presents_of_handshake h
  obtain ⟨hqs, hst, hasks, hbytes⟩ := hp.plain htls
  have hsent : s'.client.bytes <+: (w.flow .client).sent := waiting_sent hw .client
  have hin : (w.flow .client).Intact s'.fromClient := intact hw .client
  have hup : s'.upstream.flatten = st.raw := by
    rw [ho.upstream, forwarded, if_neg (by rw [← hb]; simp)]
    simp
  refine ⟨qs.map Prod.snd, st, fun q hq => ?_, hst, hasks,
    hb.symm, by simpa [List.flatMap_map] using hbytes, hsent, ?_, ?_⟩
  · obtain ⟨p, hp, rfl⟩ := List.mem_map.1 hq
    exact (hqs p hp).2
  · rw [hup]
    exact (List.prefix_append_right_inj _).2 hin.out_sent
  · intro hstage
    refine ⟨by rw [hup, (hin.of_returned hstage).2], ?_⟩
    have hcounts := hin.counts
    obtain ⟨-, htaken⟩ := hin.atEnd (by rw [hstage]; rfl)
    simp only [hstage, Stage.uncounted, Nat.add_zero, htaken, ho.fromClient] at hcounts
    rw [hcounts]
    simp [List.flatMap_map, Nat.add_assoc]

theorem unopened_verbatim_cancel :
    ∃ s', handshake (.sample false) Net.sample 2
      { client := ⟨[sslBytes, cancelBytes ++ [7]], .eof⟩ } = some (.ok false, s') ∧
      let w := (relayed (fun _ => true) s').dest (fun _ _ => True)
        [.send .client [8], .finish .client,
        .read .client 2 (some .eof), .go .client, .write .client none, .go .client, .go .client]
      (w.flow .client).sent = [7, 8] ∧
      ∃ (qs : List Startup) (st : Startup), (∀ q ∈ qs, Asks q ∧ Whole q) ∧
        sslBytes ++ cancelBytes ++ [7] = qs.flatMap Startup.raw ++ st.raw ++ [7] ∧
        s'.upstream.flatten ++ (w.flow .client).out = st.raw ++ [7, 8] ∧
        (w.flow .client).counter = (qs.flatMap Startup.raw ++ st.raw ++ [7, 8]).length := by
  let s' : Shake Empty := ⟨⟨[[7]], .eof⟩, 0, [(0, declined)], [cancelBytes], 24⟩
  have h : handshake (.sample false) Net.sample 2
      { client := ⟨[sslBytes, cancelBytes ++ [7]], .eof⟩ } = some (.ok false, s') := by
    decide +kernel
  refine ⟨s', h, ?_⟩
  intro w
  have hsent : (w.flow .client).sent = [7, 8] := by decide +kernel
  have hstage : (w.flow .client).stage = .returned true := by decide +kernel
  obtain ⟨qs, st, hqs, -, -, -, hbytes, -, -, hall⟩ :=
    unopened_verbatim rfl h (Reach.dest (relayed (fun _ => true) s') _)
  rw [hsent] at hall
  exact ⟨hsent, qs, st, hqs, hbytes, hall hstage⟩

end Relayed

end DsqlEmulator.Proxy.Handshake
