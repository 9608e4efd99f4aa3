import Srp.Errors
import Srp.Struct
import Mathlib.Tactic.NormNum

/-!
# Record header and wire format

`srp/header.py`: the 40-byte header, which is the associated data as well, and `parse_record`. A
`RecordHeader` can only be built with fields that its constructor admits, so it carries that fact.
The record type and the flags are `IntEnum` and `IntFlag` members or plain integers, which Python
compares by value, so a field holds the value.

The header round trips (`fromBytes_of_toBytes` and `exists_toBytes`) come from those of `Struct`, and
`fromBytes_eq_ok` says which bytes parse to a header, and to which.
-/

namespace Srp

/-- `PROTOCOL_VERSION`. -/
def protocolVersion : ℤ := 0x01

/-- `SESSION_ID_LEN`. -/
def sessionIdLen : ℕ := 16

/-- `NONCE_PREFIX_LEN`. -/
def noncePrefixLen : ℕ := 4

/-- `_HEADER = struct.Struct("!BBBB16sI4sQI")`: version, suite id, record type, flags, session id,
stream id, nonce prefix, sequence number, and payload length. -/
abbrev headerFormat : List Struct.Field :=
  [.uint 1, .uint 1, .uint 1, .uint 1, .str 16, .uint 4, .str 4, .uint 8, .uint 4]

/-- `HEADER_LEN`. -/
def headerLen : ℕ := Struct.size headerFormat

/-- `TAG_LEN`. -/
def tagLen : ℕ := 16

/-- `MIN_RECORD_LEN`. -/
def minRecordLen : ℕ := headerLen + tagLen

/-- `MAX_PAYLOAD_LEN`, 16 MiB. -/
def maxPayloadLen : ℕ := 2 ^ 24

@[simp]
theorem headerLen_eq : headerLen = 40 := rfl

@[simp]
theorem tagLen_eq : tagLen = 16 := rfl

@[simp]
theorem minRecordLen_eq : minRecordLen = 56 := rfl

/-- Application-level record classification. -/
inductive RecordType
  | DATA
  | CONTROL
  | CLOSE
  deriving DecidableEq, Repr

/-- The value of a record type. -/
def RecordType.value : RecordType → ℤ
  | DATA => 0x01
  | CONTROL => 0x02
  | CLOSE => 0x03

/-- The record type of a value, if it has one. -/
def RecordType.ofValue (value : ℤ) : Option RecordType :=
  [DATA, CONTROL, CLOSE].find? fun t => t.value == value

/-- `RecordFlags.NONE`. -/
def flagsNone : ℤ := 0x00

/-- `RecordFlags.END_OF_STREAM`. -/
def flagsEndOfStream : ℤ := 0x01

/-- `_coerce_type`: the member of a known value, the plain integer of any other. -/
def coerceType (value : ℤ) : ℤ :=
  match RecordType.ofValue value with
  | some t => t.value
  | none => value

/-- `RecordFlags(flags & 0xFF)`. -/
def coerceFlags (flags : ℤ) : ℤ := flags % 0x100

/-! ## Headers -/

/-- The nine fields of a header, with the constructor's defaults. -/
@[ext]
structure HeaderFields where
  session_id : Bytes
  stream_id : ℤ
  nonce_prefix : Bytes
  seq : ℤ
  payload_len : ℤ
  record_type : ℤ := RecordType.DATA.value
  flags : ℤ := flagsNone
  version : ℤ := protocolVersion
  suite_id : ℤ := 0x01
  deriving DecidableEq, Repr

/-- The fields that `RecordHeader.__post_init__` lets through. -/
structure HeaderFields.Admitted (f : HeaderFields) : Prop where
  session_id : f.session_id.length = sessionIdLen
  nonce_prefix : f.nonce_prefix.length = noncePrefixLen
  seq : 0 ≤ f.seq ∧ f.seq ≤ 0xFFFFFFFFFFFFFFFF
  stream_id : 0 ≤ f.stream_id ∧ f.stream_id ≤ 0xFFFFFFFF
  payload_len : 0 ≤ f.payload_len ∧ f.payload_len ≤ 0xFFFFFFFF

/-- The cleartext, authenticated metadata of one protected record. -/
structure RecordHeader extends HeaderFields where
  /-- The constructor admitted the fields. -/
  admitted : toHeaderFields.Admitted

instance : DecidableEq RecordHeader := fun h h' =>
  decidable_of_iff (h.toHeaderFields = h'.toHeaderFields)
    ⟨fun e => by cases h; cases h'; cases e; rfl, fun e => e ▸ rfl⟩

/-- The constructor, with the checks of `__post_init__` in order. -/
def RecordHeader.new (f : HeaderFields) : Except Error RecordHeader :=
  if h₁ : f.session_id.length ≠ sessionIdLen then
    .error (.configurationError
      s!"session_id must be {sessionIdLen} bytes, got {f.session_id.length}")
  else if h₂ : f.nonce_prefix.length ≠ noncePrefixLen then
    .error (.configurationError
      (s!"nonce_prefix must be {noncePrefixLen} bytes, got " ++ toString f.nonce_prefix.length))
  else if h₃ : ¬(0 ≤ f.seq ∧ f.seq ≤ 0xFFFFFFFFFFFFFFFF) then
    .error (.configurationError s!"seq {f.seq} out of 64-bit range")
  else if h₄ : ¬(0 ≤ f.stream_id ∧ f.stream_id ≤ 0xFFFFFFFF) then
    .error (.configurationError s!"stream_id {f.stream_id} out of 32-bit range")
  else if h₅ : ¬(0 ≤ f.payload_len ∧ f.payload_len ≤ 0xFFFFFFFF) then
    .error (.configurationError s!"payload_len {f.payload_len} out of range")
  else
    .ok ⟨f, not_not.mp h₁, not_not.mp h₂, not_not.mp h₃, not_not.mp h₄, not_not.mp h₅⟩

namespace RecordHeader

/-- The values that the header packs, in the order of the format. -/
def values (h : RecordHeader) : Struct.Values headerFormat :=
  (h.version, h.suite_id, h.record_type, h.flags, h.session_id, h.stream_id, h.nonce_prefix, h.seq,
    h.payload_len, ())

/-- `to_bytes`: the canonical 40-byte encoding. -/
def toBytes (h : RecordHeader) : Except Error Bytes :=
  match Struct.pack headerFormat h.values with
  | some raw => .ok raw
  | none => .error .structError

/-- The header is the associated data. -/
def aad (h : RecordHeader) : Except Error Bytes := h.toBytes

/-- `from_bytes`: parse a 40-byte header. Unknown record types, flags, and suite ids pass. -/
def fromBytes (raw : Bytes) : Except Error RecordHeader :=
  if raw.length ≠ headerLen then
    .error (.malformedRecordError s!"header must be {headerLen} bytes, got {raw.length}")
  else match Struct.unpack headerFormat raw with
    | none => .error .structError
    | some (version, suite_id, record_type, flags, session_id, stream_id, nonce_prefix, seq,
        payload_len, ()) =>
      if version ≠ protocolVersion then
        .error (.malformedRecordError ("unsupported protocol version 0x" ++ hex02 version.toNat))
      else
        RecordHeader.new
          { session_id, stream_id, nonce_prefix, seq, payload_len
            record_type := coerceType record_type
            flags := coerceFlags flags
            version, suite_id }

end RecordHeader

/-! ## Records -/

/-- A parsed protected record: the header, and the ciphertext and tag as one buffer. -/
structure ProtectedRecord where
  header : RecordHeader
  ciphertext_and_tag : Bytes
  deriving DecidableEq

namespace ProtectedRecord

/-- All but the last 16 bytes of the buffer. -/
def ciphertext (r : ProtectedRecord) : Bytes :=
  r.ciphertext_and_tag.take (r.ciphertext_and_tag.length - tagLen)

/-- The last 16 bytes of the buffer. -/
def tag (r : ProtectedRecord) : Bytes :=
  r.ciphertext_and_tag.drop (r.ciphertext_and_tag.length - tagLen)

/-- The wire encoding. -/
def toBytes (r : ProtectedRecord) : Except Error Bytes :=
  match r.header.toBytes with
  | .ok raw => .ok (raw ++ r.ciphertext_and_tag)
  | .error e => .error e

/-- `__len__`. -/
def len (r : ProtectedRecord) : ℕ := headerLen + r.ciphertext_and_tag.length

end ProtectedRecord

/-- `parse_record`: framing validation only, never authenticity. -/
def parseRecord (wire : Bytes) : Except Error ProtectedRecord :=
  if wire.length < minRecordLen then
    .error (.malformedRecordError
      s!"record must be at least {minRecordLen} bytes, got {wire.length}")
  else match RecordHeader.fromBytes (wire.take headerLen) with
    | .error e => .error e
    | .ok header =>
      if header.payload_len > maxPayloadLen then
        .error (.malformedRecordError
          s!"declared payload_len {header.payload_len} exceeds policy limit {maxPayloadLen}")
      else
        let body := wire.drop headerLen
        let expected := header.payload_len + tagLen
        if (body.length : ℤ) ≠ expected then
          .error (.malformedRecordError
            (s!"frame carries {body.length} bytes after the header but payload_len " ++
              s!"{header.payload_len} implies {expected}"))
        else .ok ⟨header, body⟩

/-! ## The header codec -/

namespace RecordHeader

variable {h h' : RecordHeader} {raw : Bytes}

/-- Headers with the same fields are equal. -/
theorem ext_fields (e : h.toHeaderFields = h'.toHeaderFields) : h = h' := by
  cases h
  cases h'
  cases e
  rfl

/-- The constructor lets admitted fields through as they are. -/
theorem new_of_admitted {f : HeaderFields} (hf : f.Admitted) : new f = .ok ⟨f, hf⟩ := by
  obtain ⟨h1, h2, h3, h4, h5⟩ := hf
  rw [new, dif_neg (not_not.mpr h1), dif_neg (not_not.mpr h2), dif_neg (not_not.mpr h3),
    dif_neg (not_not.mpr h4), dif_neg (not_not.mpr h5)]

/-- A header that the constructor returns has the fields it was given. -/
theorem fields_of_new {f : HeaderFields} (e : new f = .ok h) : h.toHeaderFields = f := by
  unfold new at e
  split_ifs at e
  cases e
  rfl

/-- All that the constructor raises is `ConfigurationError`. -/
theorem new_error {f : HeaderFields} {err : Error} (e : new f = .error err) :
    ∃ message, err = .configurationError message := by
  unfold new at e
  split_ifs at e <;> exact ⟨_, (Except.error.inj e).symm⟩

/-- The byte strings of a header have the lengths that the format gives them. -/
theorem strFits_values (h : RecordHeader) : Struct.StrFits headerFormat h.values :=
  ⟨trivial, trivial, trivial, trivial, h.admitted.session_id, trivial, h.admitted.nonce_prefix,
    trivial, trivial, trivial⟩

/-- The encoding is what the format packs. -/
theorem toBytes_eq_ok : h.toBytes = .ok raw ↔ Struct.pack headerFormat h.values = some raw := by
  unfold toBytes
  cases Struct.pack headerFormat h.values <;> simp

/-- A header whose version, suite, record type, and flags are bytes has an encoding. -/
theorem exists_toBytes_of_bytes (hversion : 0 ≤ h.version ∧ h.version < 256)
    (hsuite : 0 ≤ h.suite_id ∧ h.suite_id < 256) (htype : 0 ≤ h.record_type ∧ h.record_type < 256)
    (hflags : 0 ≤ h.flags ∧ h.flags < 256) : ∃ raw, h.toBytes = .ok raw := by
  obtain ⟨hsession, hpre, ⟨hseq0, hseq⟩, ⟨hstream0, hstream⟩, ⟨hlen0, hlen⟩⟩ := h.admitted
  have hfits : Struct.Fits headerFormat h.values :=
    ⟨hversion, hsuite, htype, hflags, hsession, ⟨hstream0, hstream.trans_lt (by norm_num)⟩, hpre,
      ⟨hseq0, hseq.trans_lt (by norm_num)⟩, ⟨hlen0, hlen.trans_lt (by norm_num)⟩, trivial⟩
  obtain ⟨raw, hraw⟩ := Struct.exists_pack hfits
  exact ⟨raw, toBytes_eq_ok.mpr hraw⟩

/-- All that `to_bytes` raises is `struct.error`. -/
theorem toBytes_error {err : Error} (e : h.toBytes = .error err) : err = .structError := by
  unfold toBytes at e
  split at e
  · cases e
  · exact (Except.error.inj e).symm

/-- An encoding has 40 bytes. -/
theorem length_toBytes (e : h.toBytes = .ok raw) : raw.length = headerLen :=
  Struct.length_pack (toBytes_eq_ok.mp e)

/-- The fields of a header can be read off its encoding. -/
theorem values_eq_fields (e : h.toBytes = .ok raw) : h.values = Struct.fields headerFormat raw := by
  have hu := Struct.unpack_pack h.strFits_values (toBytes_eq_ok.mp e)
  rw [Struct.unpack_of_length (length_toBytes e)] at hu
  exact (Option.some.inj hu).symm

/-- Headers with the same values are equal. -/
theorem ext_values (e : h.values = h'.values) : h = h' := by
  simp only [values, Prod.mk.injEq, and_true] at e
  obtain ⟨e1, e2, e3, e4, e5, e6, e7, e8, e9⟩ := e
  exact ext_fields (HeaderFields.ext e5 e6 e7 e8 e9 e3 e4 e1 e2)

/-- An encoding determines its header. -/
theorem toBytes_injective (e : h.toBytes = .ok raw) (e' : h'.toBytes = .ok raw) : h = h' :=
  ext_values (Struct.pack_injective h.strFits_values h'.strFits_values (toBytes_eq_ok.mp e) (toBytes_eq_ok.mp e'))

/-- Coercing a type byte to the enumeration keeps its value. -/
@[simp]
theorem coerceType_eq (value : ℤ) : coerceType value = value := by
  unfold coerceType
  cases e : RecordType.ofValue value with
  | none => rfl
  -- A member is looked up by its value.
  | some t =>
    show t.value = value
    simpa using List.find?_some e

/-- Coercing a flags byte keeps its value. -/
theorem coerceFlags_eq {flags : ℤ} (h0 : 0 ≤ flags) (h1 : flags < 256) :
    coerceFlags flags = flags :=
  Int.emod_eq_of_lt h0 h1

/-- Every 40 bytes are the encoding of a header. -/
theorem exists_toBytes (hlen : raw.length = headerLen) : ∃ h : RecordHeader, h.toBytes = .ok raw := by
  obtain ⟨hfits, hpack⟩ := Struct.pack_unpack (Struct.unpack_of_length hlen)
  -- What the fields of the format hold is what the constructor admits, and nothing else is checked.
  generalize Struct.fields headerFormat raw = vs at hfits hpack
  obtain ⟨version, suite_id, record_type, flags, session_id, stream_id, nonce_prefix, seq,
    payload_len, ⟨⟩⟩ := vs
  obtain ⟨-, -, -, -, h5, h6, h7, h8, h9, -⟩ := hfits
  obtain ⟨h6l, h6u⟩ := Struct.Field.fits_uint.mp h6
  obtain ⟨h8l, h8u⟩ := Struct.Field.fits_uint.mp h8
  obtain ⟨h9l, h9u⟩ := Struct.Field.fits_uint.mp h9
  rw [← Int.le_sub_one_iff] at h6u h8u h9u
  norm_num at h6u h8u h9u
  let f : HeaderFields := ⟨session_id, stream_id, nonce_prefix, seq, payload_len, record_type, flags,
    version, suite_id⟩
  have hadmitted : f.Admitted := ⟨h5, h7, ⟨h8l, h8u⟩, ⟨h6l, h6u⟩, ⟨h9l, h9u⟩⟩
  exact ⟨⟨f, hadmitted⟩, toBytes_eq_ok.mpr hpack⟩

/-- Parsing an encoding gives its header back, unless it has another protocol version. -/
theorem fromBytes_of_toBytes (e : h.toBytes = .ok raw) :
    fromBytes raw =
      if h.version = protocolVersion then .ok h
      else .error (.malformedRecordError
        ("unsupported protocol version 0x" ++ hex02 h.version.toNat)) := by
  have hu := Struct.unpack_pack h.strFits_values (toBytes_eq_ok.mp e)
  obtain ⟨-, -, -, ⟨h0, h1⟩, -⟩ := Struct.fits_of_pack h.strFits_values (toBytes_eq_ok.mp e)
  rw [fromBytes, if_neg (not_not.mpr (length_toBytes e)), hu]
  -- The coercions keep the values, so the constructor gets the fields of the header.
  simp only [values, ite_not, coerceType_eq, coerceFlags_eq h0 h1]
  split_ifs
  · exact new_of_admitted h.admitted
  · rfl

/-- A header is parsed from its encoding, and from no other bytes. -/
theorem fromBytes_eq_ok : fromBytes raw = .ok h ↔ h.toBytes = .ok raw ∧ h.version = protocolVersion := by
  constructor
  · intro e
    by_cases hlen : raw.length = headerLen
    · obtain ⟨h', e'⟩ := exists_toBytes hlen
      rw [fromBytes_of_toBytes e'] at e
      split_ifs at e with hv
      cases e
      exact ⟨e', hv⟩
    · rw [fromBytes, if_pos hlen] at e
      cases e
  · rintro ⟨e, hv⟩
    rw [fromBytes_of_toBytes e, if_pos hv]

end RecordHeader

end Srp
