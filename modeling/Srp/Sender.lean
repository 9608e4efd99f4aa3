import Srp.Suites
import Srp.Nonce

/-!
# The sending side

`Sender` of `srp/sender.py`. A call of `seal` is modelled with what it returns or raises, the sender
that it leaves behind, and the two things on its way that say how a nonce was used: the allocation
it made and the call of `suite.seal`, where it got that far. `Sender.seal_outcome` lists the ways a
call can end.
-/

namespace Srp

/-- Counters of a sender. -/
structure SenderStats where
  records_protected : ℕ := 0
  plaintext_bytes : ℕ := 0
  wire_bytes : ℕ := 0
  deriving DecidableEq, Repr

/-- The constructor's arguments. The prefix is drawn at random where the caller gives none. -/
structure SenderArgs where
  suite : AeadSuite
  session_id : Bytes
  stream_id : ℤ := 1
  nonce_prefix : Bytes
  record_limit : ℤ := 2 ^ 24
  start_seq : ℤ := 0

/-- Protects application records under one AEAD configuration. -/
structure Sender where
  suite : AeadSuite
  session_id : Bytes
  stream_id : ℤ
  nonces : NonceManager
  stats : SenderStats
  /-- The constructor's check of the session id. -/
  session_id_len : session_id.length = sessionIdLen

/-- The arguments of `seal` and `protect`. A payload that is no bytes-like object is `none`. -/
structure SealArgs where
  payload : Option Bytes
  record_type : ℤ := RecordType.DATA.value
  flags : ℤ := flagsNone
  deriving DecidableEq, Repr

/-- A call of `suite.seal`: what it was handed, and what it returned or raised. -/
structure SuiteSeal where
  nonce : Bytes
  plaintext : Bytes
  aad : Bytes
  result : Except Error Bytes

/-- A call of `seal`, from outside and on its way. -/
structure SealStep where
  /-- What the call returns or raises. -/
  result : Except Error ProtectedRecord
  /-- The sender after the call. -/
  sender : Sender
  /-- The allocation made, if the call got that far. -/
  allocated : Option NonceAllocation := none
  /-- The call of `suite.seal`, if the call got that far. -/
  sealed : Option SuiteSeal := none

/-- The constructor. -/
def Sender.new (a : SenderArgs) : Except Error Sender :=
  if h : a.session_id.length ≠ sessionIdLen then
    .error (.configurationError
      s!"session_id must be {sessionIdLen} bytes, got {a.session_id.length}")
  else match NonceManager.new a.nonce_prefix a.start_seq a.record_limit with
    | .error e => .error e
    | .ok nonces =>
      .ok { suite := a.suite, session_id := a.session_id, stream_id := a.stream_id, nonces
            stats := {}, session_id_len := not_not.mp h }

/-- The two checks of the payload that open `seal`. -/
def checkPayload : Option Bytes → Except Error Bytes
  | none => .error (.configurationError "payload must be a bytes-like object")
  | some payload =>
    if payload.length > maxPayloadLen then
      .error (.configurationError
        s!"payload of {payload.length} bytes exceeds policy limit {maxPayloadLen}")
    else .ok payload

/-- The fields of the header that `seal` builds. -/
def Sender.headerFields (s : Sender) (args : SealArgs) (payload : Bytes) (seq : ℤ) :
    HeaderFields :=
  { session_id := s.session_id
    stream_id := s.stream_id
    nonce_prefix := s.nonces.nonce_prefix
    seq
    payload_len := payload.length
    record_type := args.record_type
    flags := args.flags
    suite_id := s.suite.suite_id }

/-- The counters after one more record. -/
def SenderStats.note (st : SenderStats) (payload : Bytes) (record : ProtectedRecord) :
    SenderStats :=
  { records_protected := st.records_protected + 1
    plaintext_bytes := st.plaintext_bytes + payload.length
    wire_bytes := st.wire_bytes + record.len }

/-- Protect one application record: allocate the nonce, build the header around it, and use the
header as the associated data. -/
def Sender.seal (s : Sender) (args : SealArgs) : SealStep :=
  match checkPayload args.payload with
  | .error e => { result := .error e, sender := s }
  | .ok payload =>
    match s.nonces.allocate with
    | (.error e, nonces) => { result := .error e, sender := { s with nonces } }
    | (.ok allocation, nonces) =>
      -- From here on the number is spent, however the call ends.
      let s := { s with nonces }
      let allocated := some allocation
      match RecordHeader.new (s.headerFields args payload allocation.seq) with
      | .error e => { result := .error e, sender := s, allocated }
      | .ok header =>
        match header.aad with
        | .error e => { result := .error e, sender := s, allocated }
        | .ok aad =>
          let result := s.suite.seal allocation.nonce payload aad
          let sealed := some ⟨allocation.nonce, payload, aad, result⟩
          match result with
          | .error e => { result := .error e, sender := s, allocated, sealed }
          | .ok ciphertext_and_tag =>
            let record : ProtectedRecord := { header, ciphertext_and_tag }
            { result := .ok record
              sender := { s with stats := s.stats.note payload record }
              allocated, sealed }

/-- `protect`: seal one record and return its wire encoding. -/
def Sender.protect (s : Sender) (args : SealArgs) : Except Error Bytes × SealStep :=
  let step := s.seal args
  match step.result with
  | .error e => (.error e, step)
  | .ok record => (record.toBytes, step)

/-! ## The ways a call can end -/

/-- A new sender starts at its first number, with nothing issued. -/
theorem Sender.new_eq_ok {a : SenderArgs} {s : Sender} (hs : Sender.new a = .ok s) :
    s.suite = a.suite ∧ s.session_id = a.session_id ∧ s.stream_id = a.stream_id ∧
      s.nonces.nonce_prefix = a.nonce_prefix ∧ s.nonces.next = a.start_seq ∧
      s.nonces.start = a.start_seq ∧ s.nonces.limit = a.record_limit ∧ s.nonces.issued = 0 := by
  unfold Sender.new at hs
  split_ifs at hs
  split at hs
  · cases hs
  · rename_i nonces hm
    cases hs
    obtain ⟨hpre, hstart, hlimit, hissued⟩ := NonceManager.new_eq_ok hm
    refine ⟨rfl, rfl, rfl, hpre, ?_, hstart, hlimit, hissued⟩
    rw [nonces.next_eq, hstart, hissued, add_zero]

/-- A sender is built from a 16-byte session id and what its nonce manager is built from. -/
theorem Sender.exists_new_iff {a : SenderArgs} :
    (∃ s, Sender.new a = .ok s) ↔ a.session_id.length = sessionIdLen ∧
      ∃ m, NonceManager.new a.nonce_prefix a.start_seq a.record_limit = .ok m := by
  unfold Sender.new
  split_ifs with h
  · simp [h]
  · cases NonceManager.new a.nonce_prefix a.start_seq a.record_limit <;> simp [not_not.mp h]

/-- `protect` raises what `seal` raises, and otherwise returns the encoding of its record. -/
theorem Sender.protect_fst (s : Sender) (args : SealArgs) :
    (s.protect args).1 =
      match (s.seal args).result with
      | .error e => .error e
      | .ok record => record.toBytes := by
  unfold Sender.protect
  dsimp only
  split <;> rfl

/-- The call of `seal` in a call of `protect` is the one with its arguments. -/
theorem Sender.protect_snd (s : Sender) (args : SealArgs) : (s.protect args).2 = s.seal args := by
  unfold Sender.protect
  dsimp only
  split <;> rfl

/-- `protect` returns a frame if `seal` returns a record with that encoding. -/
theorem Sender.protect_eq_ok {s : Sender} {args : SealArgs} {wire : Bytes} :
    (s.protect args).1 = .ok wire ↔
      ∃ record, (s.seal args).result = .ok record ∧ record.toBytes = .ok wire := by
  rw [Sender.protect_fst]
  cases (s.seal args).result <;> simp

/-- A payload passes the checks as it is, if it is a bytes-like object within the limit. -/
theorem checkPayload_eq_ok {p : Option Bytes} {payload : Bytes} :
    checkPayload p = .ok payload ↔ p = some payload ∧ payload.length ≤ maxPayloadLen := by
  cases p with
  | none => simp [checkPayload]
  | some p =>
    simp only [checkPayload, Option.some.injEq]
    split_ifs with h
    · simp only [false_iff, not_and, not_le]
      rintro rfl
      exact h
    · simp only [Except.ok.injEq]
      constructor
      · rintro rfl
        exact ⟨rfl, not_lt.mp h⟩
      · exact And.left

/-- What the checks of the payload raise. -/
theorem checkPayload_error {p : Option Bytes} {e : Error} (h : checkPayload p = .error e) :
    ∃ message, e = .configurationError message := by
  cases p with
  | none => exact ⟨_, (Except.error.inj h).symm⟩
  | some p =>
    rw [checkPayload] at h
    split_ifs at h
    exact ⟨_, (Except.error.inj h).symm⟩

/-- The ways a call of `seal` can end: the payload is refused, the budget is spent, the header
cannot be built or encoded, `suite.seal` raises, or a record is returned. A nonce is spent in the
last three. -/
inductive Sender.Outcome (s : Sender) (args : SealArgs) : SealStep → Prop
  | payloadRefused {e : Error} (hp : checkPayload args.payload = .error e) :
    Outcome s args { result := .error e, sender := s }
  | exhausted {payload : Bytes} (hp : checkPayload args.payload = .ok payload)
    (hlimit : s.nonces.limit ≤ s.nonces.issued) :
    Outcome s args { result := .error s.nonces.exhaustedError, sender := s }
  | headerRefused {payload nonce : Bytes} {e : Error}
    (hp : checkPayload args.payload = .ok payload) (hlimit : s.nonces.issued < s.nonces.limit)
    (hn : deriveNonce s.nonces.nonce_prefix s.nonces.next = .ok nonce)
    (he : (∃ message, e = .configurationError message) ∨ e = .structError) :
    Outcome s args
      { result := .error e, sender := { s with nonces := s.nonces.advance hlimit }
        allocated := some ⟨s.nonces.next, nonce⟩ }
  | sealRefused {payload nonce aad : Bytes} {header : RecordHeader} {e : Error}
    (hp : checkPayload args.payload = .ok payload) (hlimit : s.nonces.issued < s.nonces.limit)
    (hn : deriveNonce s.nonces.nonce_prefix s.nonces.next = .ok nonce)
    (hfields : header.toHeaderFields = s.headerFields args payload s.nonces.next)
    (haad : header.toBytes = .ok aad) (he : s.suite.seal nonce payload aad = .error e) :
    Outcome s args
      { result := .error e, sender := { s with nonces := s.nonces.advance hlimit }
        allocated := some ⟨s.nonces.next, nonce⟩
        sealed := some ⟨nonce, payload, aad, .error e⟩ }
  | returned {payload nonce aad c : Bytes} {header : RecordHeader}
    (hp : checkPayload args.payload = .ok payload) (hlimit : s.nonces.issued < s.nonces.limit)
    (hn : deriveNonce s.nonces.nonce_prefix s.nonces.next = .ok nonce)
    (hfields : header.toHeaderFields = s.headerFields args payload s.nonces.next)
    (haad : header.toBytes = .ok aad) (hc : s.suite.seal nonce payload aad = .ok c) :
    Outcome s args
      { result := .ok ⟨header, c⟩
        sender :=
          { s with
            nonces := s.nonces.advance hlimit
            stats := s.stats.note payload ⟨header, c⟩ }
        allocated := some ⟨s.nonces.next, nonce⟩
        sealed := some ⟨nonce, payload, aad, .ok c⟩ }

/-- Every call of `seal` ends in one of these ways. -/
theorem Sender.seal_outcome (s : Sender) (args : SealArgs) : s.Outcome args (s.seal args) := by
  unfold Sender.seal
  cases hp : checkPayload args.payload with
  | error e => exact .payloadRefused hp
  | ok payload =>
    rcases s.nonces.allocate_cases with ⟨hlimit, ha⟩ | ⟨hlimit, nonce, hn, ha⟩
    · simp only [ha]
      exact .exhausted hp hlimit
    · simp only [ha]
      -- The number is spent. The constructor and `struct.pack` may still refuse the header.
      cases hh : RecordHeader.new _ with
      | error e => exact .headerRefused hp hlimit hn (.inl (RecordHeader.new_error hh))
      | ok header =>
        have hfields := RecordHeader.fields_of_new hh
        dsimp only
        cases haad : header.aad with
        | error e => exact .headerRefused hp hlimit hn (.inr (RecordHeader.toBytes_error haad))
        | ok aad =>
          dsimp only
          cases hc : s.suite.seal nonce payload aad with
          | error e => exact .sealRefused hp hlimit hn hfields haad hc
          | ok c => exact .returned hp hlimit hn hfields haad hc

/-- What is known of a record that a call returned: its payload, the nonce and the associated data that it
was sealed under, and the call of `suite.seal` that made its body. -/
structure Sender.Sealed (s : Sender) (args : SealArgs) (st : SealStep) (record : ProtectedRecord)
    (payload nonce aad : Bytes) : Prop where
  payload_eq : args.payload = some payload
  payload_len : payload.length ≤ maxPayloadLen
  fields : record.header.toHeaderFields = s.headerFields args payload s.nonces.next
  nonce_eq : deriveNonce record.header.nonce_prefix record.header.seq = .ok nonce
  aad_eq : record.header.toBytes = .ok aad
  body : s.suite.seal nonce payload aad = .ok record.ciphertext_and_tag
  sealed : st.sealed = some ⟨nonce, payload, aad, .ok record.ciphertext_and_tag⟩

namespace Sender.Outcome

variable {s : Sender} {args : SealArgs} {st : SealStep}

/-- No call changes what the sender was built with. -/
theorem config (h : s.Outcome args st) :
    st.sender.suite = s.suite ∧ st.sender.session_id = s.session_id ∧
      st.sender.stream_id = s.stream_id ∧ st.sender.nonces.nonce_prefix = s.nonces.nonce_prefix ∧
      st.sender.nonces.start = s.nonces.start ∧ st.sender.nonces.limit = s.nonces.limit := by
  cases h <;> exact ⟨rfl, rfl, rfl, rfl, rfl, rfl⟩

/-- A call returns a record that it sealed. -/
theorem exists_sealed (h : s.Outcome args st) {record : ProtectedRecord}
    (hresult : st.result = .ok record) :
    ∃ payload nonce aad, s.Sealed args st record payload nonce aad := by
  cases h with
  | @returned payload nonce aad c header hp hlimit hn hfields haad hc =>
    cases hresult
    obtain ⟨hpayload, hmax⟩ := checkPayload_eq_ok.mp hp
    refine ⟨payload, nonce, aad, hpayload, hmax, hfields, ?_, haad, hc, rfl⟩
    rw [hfields]
    exact hn
  | _ => cases hresult

/-- A record that a call returns has an encoding. -/
theorem exists_toBytes (h : s.Outcome args st) {record : ProtectedRecord}
    (hresult : st.result = .ok record) : ∃ wire, record.toBytes = .ok wire := by
  obtain ⟨payload, nonce, aad, hs⟩ := h.exists_sealed hresult
  exact ⟨_, by rw [ProtectedRecord.toBytes, hs.aad_eq]⟩

/-- A call that allocates no nonce leaves the counters, does not get to `suite.seal`, and returns no
record. A call that allocates one counts it, and hands it to `suite.seal` if it gets there. -/
theorem nonces_cases (h : s.Outcome args st) :
    (st.allocated = none ∧ st.sender.nonces = s.nonces ∧ st.sealed = none ∧
      ∀ record, st.result ≠ .ok record) ∨
    ∃ (hlimit : s.nonces.issued < s.nonces.limit) (nonce : Bytes),
      deriveNonce s.nonces.nonce_prefix s.nonces.next = .ok nonce ∧
      st.allocated = some ⟨s.nonces.next, nonce⟩ ∧ st.sender.nonces = s.nonces.advance hlimit ∧
      ∀ call, st.sealed = some call → call.nonce = nonce := by
  cases h with
  | payloadRefused => exact .inl ⟨rfl, rfl, rfl, fun _ => nofun⟩
  | exhausted => exact .inl ⟨rfl, rfl, rfl, fun _ => nofun⟩
  | headerRefused _ hlimit hn => exact .inr ⟨hlimit, _, hn, rfl, rfl, fun _ => nofun⟩
  | sealRefused _ hlimit hn =>
    exact .inr ⟨hlimit, _, hn, rfl, rfl, fun call hcall => by cases hcall; rfl⟩
  | returned _ hlimit hn =>
    exact .inr ⟨hlimit, _, hn, rfl, rfl, fun call hcall => by cases hcall; rfl⟩

/-- Only a spent budget raises `NonceExhaustedError`. -/
theorem limit_le_of_exhausted (h : s.Outcome args st) {message : String}
    (hst : st.result = .error (.nonceExhaustedError message)) :
    st.sender.nonces.limit ≤ st.sender.nonces.issued := by
  -- None of the other errors is a `NonceExhaustedError`.
  cases h with
  | payloadRefused hp =>
    obtain ⟨_, rfl⟩ := checkPayload_error hp
    cases hst
  | exhausted _ hlimit => exact hlimit
  | headerRefused _ _ _ he =>
    rcases he with ⟨_, rfl⟩ | rfl <;> cases hst
  | sealRefused _ _ _ _ _ he =>
    rcases AeadSuite.seal_error he with ⟨_, rfl⟩ | ⟨_, rfl⟩ <;> cases hst
  | returned => cases hst

end Sender.Outcome

/-! ## A sender for examples -/

/-- The arguments of a sender over the checksum backend, with a budget of four records. -/
def checksumArgs : SenderArgs :=
  { suite := checksumSuite 1 one_byte, session_id := List.replicate sessionIdLen 7
    nonce_prefix := [0, 0, 0, 1], record_limit := 4 }

/-- The sender of these arguments. -/
def checksumSender : Sender :=
  { suite := checksumArgs.suite, session_id := checksumArgs.session_id
    stream_id := checksumArgs.stream_id
    nonces :=
      { nonce_prefix := [0, 0, 0, 1], start := 0, next := 0, limit := 4, issued := 0
        prefix_len := rfl, start_nonneg := by decide, fits := by decide, next_eq := by decide
        issued_nonneg := by decide, issued_le := by decide }
    stats := {}, session_id_len := rfl }

/-- The constructor returns it. -/
theorem checksumSender_new : Sender.new checksumArgs = .ok checksumSender := rfl

end Srp
