import Srp.Configuration

/-!
# Records under a key of the attacker's

`forge_with_wrong_key` of `srp/adversary.py` hands a key of its own to a `Sender` that it builds at the
session, stream, prefix, and number of a genuine record. The header of what comes out does not depend on
the key, so it is that of the genuine record. But the sender is built with the default budget of `2^24`
records, so for the last numbers of the 64-bit space it is not built at all. `forgery_mimics_iff` says for
which numbers the forgery is made.
-/

namespace Srp

/-- The arguments of `forge_with_wrong_key`. A key and a prefix are drawn at random where the caller gives
none. -/
structure ForgeArgs where
  suite_name : String
  session_id : Bytes
  stream_id : ℤ := 1
  seq : ℤ := 0
  nonce_prefix : Bytes
  payload : Bytes := "forged application record".toUTF8.toList
  key : Bytes

namespace ForgeArgs

/-- The arguments that `forge_with_wrong_key` hands to the sender. The budget is the default one. -/
def senderArgs (a : ForgeArgs) (suite : AeadSuite) : SenderArgs :=
  { suite
    session_id := a.session_id
    stream_id := a.stream_id
    nonce_prefix := a.nonce_prefix
    start_seq := a.seq }

/-- The call of `protect`. -/
def sealArgs (a : ForgeArgs) : SealArgs := { payload := some a.payload }

end ForgeArgs

/-- `forge_with_wrong_key`: a record under a key that the attacker chose. -/
def forgeWithWrongKey (suites : List SuiteClass) (a : ForgeArgs) : Except Error Bytes :=
  match suiteClass suites a.suite_name with
  | .error e => .error e
  | .ok cls =>
    match AeadSuite.new cls a.key with
    | .error e => .error e
    | .ok suite =>
      match Sender.new (a.senderArgs suite) with
      | .error e => .error e
      | .ok sender => (sender.protect a.sealArgs).1

namespace ForgeArgs

/-- A sender of a suite at the session, stream, prefix, and number of a forgery. Its key is not
restricted. -/
structure IsPlaceOf (a : ForgeArgs) (suite_id : ℤ) (s : Sender) : Prop where
  suite_id : s.suite.suite_id = suite_id
  session_id : s.session_id = a.session_id
  stream_id : s.stream_id = a.stream_id
  nonce_prefix : s.nonces.nonce_prefix = a.nonce_prefix
  next : s.nonces.next = a.seq

/-- A frame mimics the genuine records at its place: it parses, and its header is that of every DATA record
of the payload that a sender there returns. -/
def Mimics (a : ForgeArgs) (suite_id : ℤ) (frame : Bytes) : Prop :=
  ∃ record, parseRecord frame = .ok record ∧
    ∀ (s : Sender) (genuine : ProtectedRecord), a.IsPlaceOf suite_id s →
      (s.seal a.sealArgs).result = .ok genuine → record.header = genuine.header

variable {a : ForgeArgs} {suite_id : ℤ} {s s' : Sender} {record record' : ProtectedRecord}

/-- Two senders at one place return records of the payload with one header. -/
theorem IsPlaceOf.header_eq (h : a.IsPlaceOf suite_id s) (g : a.IsPlaceOf suite_id s')
    (hr : (s.seal a.sealArgs).result = .ok record) (hr' : (s'.seal a.sealArgs).result = .ok record') :
    record.header = record'.header := by
  obtain ⟨payload, nonce, aad, hs⟩ := (s.seal_outcome a.sealArgs).exists_sealed hr
  obtain ⟨payload', nonce', aad', hs'⟩ := (s'.seal_outcome a.sealArgs).exists_sealed hr'
  obtain rfl := Option.some.inj (hs.payload_eq.symm.trans hs'.payload_eq)
  apply RecordHeader.ext_fields
  rw [hs.fields, hs'.fields]
  unfold Sender.headerFields
  rw [h.session_id, h.stream_id, h.nonce_prefix, h.next, h.suite_id, g.session_id, g.stream_id,
    g.nonce_prefix, g.next, g.suite_id]

/-- A forgery that is made was protected by a new sender at its place. -/
theorem exists_sender_of_forge {suites : List SuiteClass} {cls : SuiteClass} {frame : Bytes}
    (hcls : suiteClass suites a.suite_name = .ok cls) (h : forgeWithWrongKey suites a = .ok frame) :
    ∃ s record, a.IsPlaceOf cls.suite_id s ∧ s.suite.impl = cls.build a.key ∧
      (s.seal a.sealArgs).result = .ok record ∧ record.toBytes = .ok frame := by
  unfold forgeWithWrongKey at h
  rw [hcls] at h
  dsimp only at h
  unfold AeadSuite.new at h
  split_ifs at h with hkey
  dsimp only at h
  split at h
  · cases h
  · rename_i s hnew
    obtain ⟨hsuite, hsession, hstream, hpre, hnext, -⟩ := Sender.new_eq_ok hnew
    have hplace : a.IsPlaceOf cls.suite_id s := ⟨by rw [hsuite]; rfl, hsession, hstream, hpre, hnext⟩
    obtain ⟨record, hresult, hframe⟩ := Sender.protect_eq_ok.mp h
    exact ⟨s, record, hplace, by rw [hsuite]; rfl, hresult, hframe⟩

/-- What a forgery shares with another under another key is its header. -/
theorem take_eq_of_forge {suites : List SuiteClass} {cls : SuiteClass} {frame frame' key' : Bytes}
    (hcls : suiteClass suites a.suite_name = .ok cls) (h : forgeWithWrongKey suites a = .ok frame)
    (h' : forgeWithWrongKey suites { a with key := key' } = .ok frame') :
    frame'.take headerLen = frame.take headerLen := by
  obtain ⟨s, record, hplace, -, hresult, hframe⟩ := exists_sender_of_forge hcls h
  obtain ⟨s', record', hother, -, hresult', hframe'⟩ :=
    exists_sender_of_forge (a := { a with key := key' }) hcls h'
  -- The place of a forgery does not name its key.
  have hplace' : a.IsPlaceOf cls.suite_id s' :=
    ⟨hother.suite_id, hother.session_id, hother.stream_id, hother.nonce_prefix, hother.next⟩
  have hsame : record.header = record'.header := hplace.header_eq hplace' hresult hresult'
  obtain ⟨raw, hraw, rfl⟩ := ProtectedRecord.toBytes_eq_ok.mp hframe
  obtain ⟨raw', hraw', rfl⟩ := ProtectedRecord.toBytes_eq_ok.mp hframe'
  rw [← hsame, hraw, Except.ok.injEq] at hraw'
  rw [List.take_left' (RecordHeader.length_toBytes hraw), hraw',
    List.take_left' (hraw' ▸ RecordHeader.length_toBytes hraw)]

/-- A forgery that is made mimics the genuine records at its place, over a backend that adds a tag. -/
theorem mimics_of_forge {suites : List SuiteClass} {cls : SuiteClass} {frame : Bytes}
    (hadds : (cls.build a.key).AddsTag) (hcls : suiteClass suites a.suite_name = .ok cls)
    (h : forgeWithWrongKey suites a = .ok frame) : a.Mimics cls.suite_id frame := by
  obtain ⟨s, record, hplace, himpl, hresult, hframe⟩ := exists_sender_of_forge hcls h
  obtain ⟨payload, nonce, aad, hs⟩ := (s.seal_outcome a.sealArgs).exists_sealed hresult
  refine ⟨record, hs.parsed (himpl ▸ hadds) hframe, fun s' genuine hplace' hgenuine => ?_⟩
  exact hplace.header_eq hplace' hresult hgenuine

end ForgeArgs

/-- Both configurations are found under their names. -/
theorem suiteClass_supported {lib : AeadLibrary} {cls : SuiteClass} (hcls : cls ∈ supportedSuites lib) :
    suiteClass (supportedSuites lib) cls.name = .ok cls := by
  unfold supportedSuites at hcls ⊢
  simp only [List.mem_cons, List.not_mem_nil, or_false] at hcls
  rcases hcls with rfl | rfl
  · rfl
  · rfl

/-- A sender of the default budget is built at a number if the budget ends within the 64-bit space. -/
theorem ForgeArgs.exists_new_iff {a : ForgeArgs} (suite : AeadSuite)
    (hsession : a.session_id.length = sessionIdLen) (hpre : a.nonce_prefix.length = noncePrefixLen)
    (hseq : 0 ≤ a.seq ∧ a.seq ≤ 0xFFFFFFFFFFFFFFFF) :
    (∃ s, Sender.new (a.senderArgs suite) = .ok s) ↔ a.seq + 2 ^ 24 ≤ 2 ^ 64 := by
  rw [Sender.exists_new_iff, NonceManager.exists_new_iff]
  unfold ForgeArgs.senderArgs seqSpace
  dsimp only
  constructor
  · rintro ⟨-, -, -, -, hfits⟩
    exact hfits
  · intro hfits
    exact ⟨hsession, hpre, by omega, by omega, hfits⟩

/-- When the forgery under a wrong key is made. Over a correct library, for a supported suite and arguments
of the lengths and widths of the fields, `forge_with_wrong_key` returns a frame that mimics the genuine
records at its place, with the same header under every other key, exactly if the default budget from the
number on ends within the 64-bit space. -/
theorem forgery_mimics_iff {lib : AeadLibrary} {cls : SuiteClass} (hcls : cls ∈ supportedSuites lib)
    {a : ForgeArgs} (hname : a.suite_name = cls.name) (hcorrect : (cls.build a.key).Correct)
    (hkey : a.key.length = keyLen) (hsession : a.session_id.length = sessionIdLen)
    (hpre : a.nonce_prefix.length = noncePrefixLen)
    (hstream : 0 ≤ a.stream_id ∧ a.stream_id ≤ 0xFFFFFFFF)
    (hseq : 0 ≤ a.seq ∧ a.seq ≤ 0xFFFFFFFFFFFFFFFF) (hpayload : a.payload.length ≤ maxPayloadLen) :
    (∃ frame, forgeWithWrongKey (supportedSuites lib) a = .ok frame ∧ a.Mimics cls.suite_id frame ∧
      ∀ key' frame', forgeWithWrongKey (supportedSuites lib) { a with key := key' } = .ok frame' →
        frame'.take headerLen = frame.take headerLen) ↔
      a.seq + 2 ^ 24 ≤ 2 ^ 64 := by
  have hfound : suiteClass (supportedSuites lib) a.suite_name = .ok cls :=
    hname ▸ suiteClass_supported hcls
  let suite : AeadSuite := ⟨cls, a.key, hkey⟩
  have hforge : forgeWithWrongKey (supportedSuites lib) a =
      match Sender.new (a.senderArgs suite) with
      | .error e => .error e
      | .ok sender => (sender.protect a.sealArgs).1 := by
    unfold forgeWithWrongKey AeadSuite.new
    rw [hfound]
    dsimp only
    rw [dif_pos hkey]
  rw [← a.exists_new_iff suite hsession hpre hseq]
  constructor
  · rintro ⟨frame, hframe, -⟩
    rw [hforge] at hframe
    split at hframe
    · cases hframe
    · exact ⟨_, ‹_›⟩
  · rintro ⟨s, hnew⟩
    obtain ⟨hsuite, -, hstreamId, -⟩ := Sender.new_eq_ok hnew
    have himpl : s.suite.impl.Correct := by
      rw [hsuite]
      exact hcorrect
    have hstream' : 0 ≤ s.stream_id ∧ s.stream_id ≤ 0xFFFFFFFF := by
      rw [hstreamId]
      exact hstream
    have hargs : a.sealArgs.InOrder a.payload := ⟨rfl, hpayload, ⟨.DATA, rfl⟩, .inl rfl⟩
    -- The new sender has a budget, so its first call returns a frame.
    rcases Sender.protect_of_inOrder himpl hstream' hargs with ⟨frame, hframe⟩ | ⟨hle, -⟩
    · have hmade : forgeWithWrongKey (supportedSuites lib) a = .ok frame := by
        rw [hforge, hnew]
        exact hframe
      exact ⟨frame, hmade, ForgeArgs.mimics_of_forge hcorrect.seals.length hfound hmade,
        fun key' frame' h' => ForgeArgs.take_eq_of_forge hfound hmade h'⟩
    · have hlt := Sender.issued_lt_of_new hnew
      omega

/-! ## Forgeries for examples -/

/-- The checksum backend in place of both constructors of the library. -/
def checksumLibrary : AeadLibrary := ⟨fun _ => .checksum, fun _ => .checksum⟩

/-- A forgery at a number of stream 1 of the session for examples. -/
def checksumForgeArgs (seq : ℤ) : ForgeArgs :=
  { suite_name := "aes-gcm", session_id := List.replicate sessionIdLen 7, seq, nonce_prefix := [0, 0, 0, 1]
    payload := [1, 2, 3], key := List.replicate keyLen 9 }

/-- The last number at which a forgery is made. -/
theorem forgery_mimics_iff_at_the_last :
    ∃ frame, forgeWithWrongKey (supportedSuites checksumLibrary) (checksumForgeArgs (2 ^ 64 - 2 ^ 24)) =
      .ok frame ∧ (checksumForgeArgs (2 ^ 64 - 2 ^ 24)).Mimics 1 frame := by
  have hcls : aesGcmSuite checksumLibrary ∈ supportedSuites checksumLibrary := List.mem_cons_self
  obtain ⟨frame, hframe, hmimics, -⟩ := (forgery_mimics_iff hcls (a := checksumForgeArgs (2 ^ 64 - 2 ^ 24))
    rfl Backend.checksum_correct rfl rfl rfl (by decide) (by decide) (by decide)).mpr (by decide)
  exact ⟨frame, hframe, hmimics⟩

/-- At the last number of the 64-bit space no forgery is made, although a sender with a budget of one record
sends there. -/
theorem forgery_fails_at_the_end :
    forgeWithWrongKey (supportedSuites checksumLibrary) (checksumForgeArgs (2 ^ 64 - 1)) =
      .error (.configurationError "start + record_limit would overflow the 64-bit sequence space") ∧
    ∃ s frame, (checksumForgeArgs (2 ^ 64 - 1)).IsPlaceOf 1 s ∧
      (s.protect (checksumForgeArgs (2 ^ 64 - 1)).sealArgs).1 = .ok frame := by
  refine ⟨rfl, ?_⟩
  let args : SenderArgs :=
    { (checksumForgeArgs (2 ^ 64 - 1)).senderArgs (checksumSuite 1 one_byte) with record_limit := 1 }
  obtain ⟨s, hnew⟩ : ∃ s, Sender.new args = .ok s := ⟨_, rfl⟩
  obtain ⟨hsuite, hsession, hstream, hpre, hnext, -⟩ := Sender.new_eq_ok hnew
  have hplace : (checksumForgeArgs (2 ^ 64 - 1)).IsPlaceOf 1 s :=
    ⟨by rw [hsuite]; rfl, hsession, hstream, hpre, hnext⟩
  have hcorrect : s.suite.impl.Correct := by
    rw [hsuite]
    exact Backend.checksum_correct
  have hargs : (checksumForgeArgs (2 ^ 64 - 1)).sealArgs.InOrder [1, 2, 3] :=
    ⟨rfl, by decide, ⟨.DATA, rfl⟩, .inl rfl⟩
  have hstream' : 0 ≤ s.stream_id ∧ s.stream_id ≤ 0xFFFFFFFF := by
    rw [hstream]
    decide
  rcases Sender.protect_of_inOrder hcorrect hstream' hargs with ⟨frame, hframe⟩ | ⟨hle, -⟩
  · exact ⟨s, frame, hplace, hframe⟩
  · exact absurd (Sender.issued_lt_of_new hnew) (not_lt.mpr hle)

end Srp
