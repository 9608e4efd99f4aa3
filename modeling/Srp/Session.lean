import Srp.Sender
import Srp.Refinement

/-!
# Session setup

`srp/session.py`, with the two configurations of `srp/suites.py` and their lookup by name: everything
that a sender and a receiver have to agree on besides the key, and the channel that pairs them. Keys,
session ids, and nonce prefixes that are drawn at random where the caller gives none are arguments
here.
-/

namespace Srp

/-! ## The supported configurations -/

/-- The two constructors of the `cryptography` library that `_build` calls. -/
structure AeadLibrary where
  aesgcm : Bytes → Backend
  chaCha20Poly1305 : Bytes → Backend

/-- AES-256-GCM. -/
def aesGcmSuite (lib : AeadLibrary) : SuiteClass :=
  { name := "aes-gcm", suite_id := 0x01, build := lib.aesgcm, suite_id_byte := one_byte }

/-- ChaCha20-Poly1305. -/
def chaCha20Poly1305Suite (lib : AeadLibrary) : SuiteClass :=
  { name := "chacha20-poly1305", suite_id := 0x02, build := lib.chaCha20Poly1305,
    suite_id_byte := two_byte }

/-- `SUITES`, in the order of the dictionary. -/
def supportedSuites (lib : AeadLibrary) : List SuiteClass :=
  [aesGcmSuite lib, chaCha20Poly1305Suite lib]

/-- `suite_class`: look up a configuration by name. -/
def suiteClass (suites : List SuiteClass) (name : String) : Except Error SuiteClass :=
  match suites.find? fun cls => cls.name == name with
  | some cls => .ok cls
  | none => .error (.configurationError
      (s!"unknown AEAD configuration '{name}'; supported: " ++
        ", ".intercalate (suites.map SuiteClass.name)))

/-! ## Channels -/

/-- Operational parameters that both endpoints must agree on. -/
structure SessionPolicy where
  record_limit : ℤ := 2 ^ 24
  replay_window : ℤ := 64
  max_streams : ℤ := 1024
  pin_session : Bool := true
  deriving DecidableEq, Repr

/-- The arguments of `create_channel`. -/
structure ChannelArgs where
  suite_name : String
  key : Bytes
  session_id : Bytes
  stream_id : ℤ := 1
  policy : SessionPolicy := {}
  nonce_prefix : Bytes
  start_seq : ℤ := 0

/-- A matched sender and receiver that share one key and session. -/
structure Channel where
  suite_name : String
  key : Bytes
  session_id : Bytes
  sender : Sender
  receiver : Receiver
  policy : SessionPolicy

/-- The arguments that `create_channel` hands to the sender. -/
def ChannelArgs.senderArgs (a : ChannelArgs) (suite : AeadSuite) : SenderArgs :=
  { suite
    session_id := a.session_id
    stream_id := a.stream_id
    nonce_prefix := a.nonce_prefix
    record_limit := a.policy.record_limit
    start_seq := a.start_seq }

/-- The receiver that `create_channel` builds. -/
def ChannelArgs.receiver (a : ChannelArgs) (suite : AeadSuite) : Receiver :=
  .new suite (if a.policy.pin_session then some a.session_id else none) a.policy.replay_window
    a.policy.max_streams

/-- `create_channel`: build a sender and a receiver that share a key, session, and policy. Each has a
suite of its own over the same key. -/
def createChannel (suites : List SuiteClass) (a : ChannelArgs) : Except Error Channel :=
  match suiteClass suites a.suite_name with
  | .error e => .error e
  | .ok cls =>
    if a.key.length ≠ keyLen then
      .error (.configurationError
        s!"{a.suite_name} requires a {keyLen}-byte key, got {a.key.length}")
    else if a.session_id.length ≠ sessionIdLen then
      .error (.configurationError
        s!"session_id must be {sessionIdLen} bytes, got {a.session_id.length}")
    else
      match AeadSuite.new cls a.key with
      | .error e => .error e
      | .ok suite =>
        match Sender.new (a.senderArgs suite) with
        | .error e => .error e
        | .ok sender =>
          .ok
            { suite_name := a.suite_name, key := a.key, session_id := a.session_id, sender
              receiver := a.receiver suite, policy := a.policy }

namespace Channel

/-- `send`: protect a record at the sender. -/
def send (ch : Channel) (args : SealArgs) : Except Error Bytes × Channel :=
  ((ch.sender.protect args).1, { ch with sender := (ch.sender.protect args).2.sender })

/-- `deliver`: hand a frame to the receiver. -/
def deliver (ch : Channel) (wire : Bytes) : Except Error Verdict × Channel :=
  ((ch.receiver.receive wire).result, { ch with receiver := (ch.receiver.receive wire).receiver })

end Channel

/-- A channel that `create_channel` returns has a new sender and receiver, under one suite. -/
theorem createChannel_eq_ok {suites : List SuiteClass} {a : ChannelArgs} {ch : Channel}
    (h : createChannel suites a = .ok ch) :
    ∃ suite, suite.key = a.key ∧ Sender.new (a.senderArgs suite) = .ok ch.sender ∧
      ch.receiver = a.receiver suite := by
  unfold createChannel at h
  split at h
  · cases h
  · split_ifs at h
    split at h
    · cases h
    · rename_i suite hsuite
      split at h
      · cases h
      · rename_i sender hsender
        cases h
        refine ⟨suite, ?_, hsender, rfl⟩
        unfold AeadSuite.new at hsuite
        split_ifs at hsuite
        cases hsuite
        rfl

/-! ## What a sender returns -/

/-- Over a backend that adds a tag, the encoding of a record that `seal` returned parses back to it. -/
theorem Sender.Sealed.parsed {s : Sender} {args : SealArgs} {st : SealStep} {record : ProtectedRecord}
    {payload nonce aad wire : Bytes} (hs : s.Sealed args st record payload nonce aad)
    (hadds : s.suite.impl.AddsTag) (hwire : record.toBytes = .ok wire) :
    parseRecord wire = .ok record := by
  obtain ⟨hnonce, hencrypt⟩ := AeadSuite.seal_eq_ok.mp hs.body
  have hbody := hadds hnonce hencrypt
  have hversion : record.header.version = protocolVersion := by rw [hs.fields]; rfl
  have hlen : record.header.payload_len = payload.length := by rw [hs.fields]; rfl
  refine parseRecord_eq_ok.mpr ⟨hwire, hversion, ?_, ?_⟩
  · rw [hlen]
    exact_mod_cast hs.payload_len
  · rw [hlen, hbody]
    rfl

/-- A record that `seal` returns has the header fields of the call, its encoding parses back to it, and
it opens to the payload. -/
theorem Sender.Outcome.opens {s : Sender} {args : SealArgs} {st : SealStep}
    {record : ProtectedRecord} {wire : Bytes} (hseals : s.suite.impl.Seals)
    (ho : s.Outcome args st) (hresult : st.result = .ok record)
    (hwire : record.toBytes = .ok wire) :
    ∃ payload, args.payload = some payload ∧
      record.header.toHeaderFields = s.headerFields args payload s.nonces.next ∧
        parseRecord wire = .ok record ∧ s.suite.openRecord record = .ok payload := by
  obtain ⟨payload, nonce, aad, hs⟩ := ho.exists_sealed hresult
  have hparsed := hs.parsed hseals.length hwire
  refine ⟨payload, hs.payload_eq, hs.fields, hparsed, ?_⟩
  -- The receiving side derives the nonce and the associated data that `seal` was called with.
  simp only [AeadSuite.openRecord, hs.nonce_eq, RecordHeader.aad, hs.aad_eq]
  exact AeadSuite.open_of_seal hseals hs.body

/-- The sender for examples emits the frame for examples. -/
theorem checksumSender_protect :
    (checksumSender.protect { payload := some [1, 2, 3] }).1 = .ok checksumFrame := by
  decide +kernel

end Srp
