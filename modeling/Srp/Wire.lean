import Srp.Nonce

/-!
# The wire grammar

The frames that `parse_record` of `srp/header.py` accepts are those that `ProtectedRecord.to_bytes`
writes for a record of the supported version whose body has the length that its header declares,
within the policy limit (`parseRecord_eq_ok`). All that it raises is `MalformedRecordError`
(`parseRecord_error`). The nonce of a header is a slice of its encoding
(`RecordHeader.deriveNonce_eq_slice`), so of the frame as well.
-/

namespace Srp

/-! ## Slices -/

/-- A slice does not look past its end. -/
theorem slice_take {bs : Bytes} {i j n : ℕ} (h : j ≤ n) : slice (bs.take n) i j = slice bs i j := by
  rw [slice, slice, List.drop_take, List.take_take, Nat.min_eq_left (by omega)]

/-- A slice within the first of two byte strings is one of the first. -/
theorem slice_append_left {bs bs' : Bytes} {i j : ℕ} (h : j ≤ bs.length) :
    slice (bs ++ bs') i j = slice bs i j := by
  rw [← slice_take h, List.take_left]

/-- Two adjacent slices make one. -/
theorem slice_append_slice {bs : Bytes} {i j k : ℕ} (hij : i ≤ j) (hjk : j ≤ k) :
    slice bs i j ++ slice bs j k = slice bs i k := by
  have hdrop : bs.drop j = (bs.drop i).drop (j - i) := by rw [List.drop_drop]; congr 1; omega
  rw [slice, slice, slice, hdrop, ← List.take_add]
  congr 1
  omega

/-- A slice within the bytes has the length it asks for. -/
theorem length_slice {bs : Bytes} {i j : ℕ} (h : j ≤ bs.length) : (slice bs i j).length = j - i := by
  rw [slice, List.length_take, List.length_drop]
  omega

/-- A slice of a slice is one of the bytes. -/
theorem slice_slice {bs : Bytes} {i j k l : ℕ} (hik : i ≤ k) (hlj : l ≤ j) :
    slice (slice bs i j) (k - i) (l - i) = slice bs k l := by
  unfold slice
  rw [List.drop_take, List.take_take, List.drop_drop]
  congr 1
  · omega
  · congr 1
    omega

/-- Where a slice of two byte strings is one, so are the slices of it. -/
theorem slice_congr {bs bs' : Bytes} {i j k l : ℕ} (h : slice bs i j = slice bs' i j) (hik : i ≤ k)
    (hlj : l ≤ j) : slice bs k l = slice bs' k l := by
  rw [← slice_slice hik hlj, h, slice_slice hik hlj]

/-! ## The fields in an encoded header -/

namespace RecordHeader

variable {h : RecordHeader} {raw : Bytes}

/-- Where an encoded header holds each of its fields. -/
theorem fields_of_toBytes (e : h.toBytes = .ok raw) :
    h.version = Struct.decode (slice raw 0 1) ∧ h.suite_id = Struct.decode (slice raw 1 2) ∧
      h.record_type = Struct.decode (slice raw 2 3) ∧ h.flags = Struct.decode (slice raw 3 4) ∧
      h.session_id = slice raw 4 20 ∧ h.stream_id = Struct.decode (slice raw 20 24) ∧
      h.nonce_prefix = slice raw 24 28 ∧ h.seq = Struct.decode (slice raw 28 36) ∧
      h.payload_len = Struct.decode (slice raw 36 40) := by
  have hv := values_eq_fields e
  simp only [values, Struct.fields, Struct.Field.unpack, Struct.Field.width, List.drop_drop,
    Prod.mk.injEq] at hv
  obtain ⟨h1, h2, h3, h4, h5, h6, h7, h8, h9, -⟩ := hv
  exact ⟨h1, h2, h3, h4, h5, h6, h7, h8, h9⟩

/-- Where an encoded header holds its version, nonce prefix, sequence number, and payload length. -/
theorem slices_of_toBytes (e : h.toBytes = .ok raw) :
    h.version = Struct.decode (slice raw 0 1) ∧ h.nonce_prefix = slice raw 24 28 ∧
      h.seq = Struct.decode (slice raw 28 36) ∧ h.payload_len = Struct.decode (slice raw 36 40) := by
  obtain ⟨h1, -, -, -, -, -, h7, h8, h9⟩ := fields_of_toBytes e
  exact ⟨h1, h7, h8, h9⟩

/-- Where an encoded header holds its suite, session, and stream. -/
theorem names_of_toBytes (e : h.toBytes = .ok raw) :
    h.suite_id = Struct.decode (slice raw 1 2) ∧ h.session_id = slice raw 4 20 ∧
      h.stream_id = Struct.decode (slice raw 20 24) := by
  obtain ⟨-, h2, -, -, h5, h6, -⟩ := fields_of_toBytes e
  exact ⟨h2, h5, h6⟩

/-- The nonce of a header is a slice of its encoding. -/
theorem deriveNonce_eq_slice (e : h.toBytes = .ok raw) :
    deriveNonce h.nonce_prefix h.seq = .ok (slice raw 24 36) := by
  obtain ⟨-, hp, hs, -⟩ := slices_of_toBytes e
  have hlen := length_toBytes e
  -- Encoding the number again, at its eight bytes, gives back the bytes that it was read from.
  have hwidth : (slice raw 28 36).length = 8 := length_slice (by rw [hlen, headerLen_eq]; omega)
  obtain ⟨nonce, hn⟩ := h.exists_deriveNonce
  obtain ⟨-, -, -, rfl⟩ := deriveNonce_eq_ok.mp hn
  rw [hn, hs, Int.toNat_natCast, hp, ← hwidth, Struct.encode_decode,
    slice_append_slice (by omega) (by omega)]

end RecordHeader

/-! ## Parsing -/

/-- All that a failed parse raises is `MalformedRecordError`. -/
theorem RecordHeader.fromBytes_error {raw : Bytes} {e : Error} (he : fromBytes raw = .error e) :
    ∃ message, e = .malformedRecordError message := by
  by_cases hlen : raw.length = headerLen
  · -- The buffer unpacks to fields that the constructor admits, so only the version is left.
    obtain ⟨h, hb⟩ := exists_toBytes hlen
    rw [fromBytes_of_toBytes hb] at he
    split_ifs at he
    exact ⟨_, (Except.error.inj he).symm⟩
  · rw [fromBytes, if_pos hlen] at he
    exact ⟨_, (Except.error.inj he).symm⟩

/-- The wire encoding of a record is that of its header, then its body. -/
theorem ProtectedRecord.toBytes_eq_ok {r : ProtectedRecord} {wire : Bytes} :
    r.toBytes = .ok wire ↔
      ∃ raw, r.header.toBytes = .ok raw ∧ wire = raw ++ r.ciphertext_and_tag := by
  unfold ProtectedRecord.toBytes
  cases r.header.toBytes <;> simp [eq_comm]

/-- A frame is the encoding of one record only. -/
theorem ProtectedRecord.toBytes_injective {r r' : ProtectedRecord} {wire : Bytes}
    (e : r.toBytes = .ok wire) (e' : r'.toBytes = .ok wire) : r = r' := by
  obtain ⟨raw, hraw, rfl⟩ := toBytes_eq_ok.mp e
  obtain ⟨raw', hraw', heq⟩ := toBytes_eq_ok.mp e'
  obtain ⟨hhead, hbody⟩ := List.append_inj heq
    ((RecordHeader.length_toBytes hraw).trans (RecordHeader.length_toBytes hraw').symm)
  obtain ⟨header, body⟩ := r
  obtain ⟨header', body'⟩ := r'
  obtain rfl : header = header' := RecordHeader.toBytes_injective hraw (hhead ▸ hraw')
  obtain rfl : body = body' := hbody
  rfl

/-- All that a failed parse raises is `MalformedRecordError`. -/
theorem parseRecord_error {wire : Bytes} {e : Error} (he : parseRecord wire = .error e) :
    ∃ message, e = .malformedRecordError message := by
  unfold parseRecord at he
  split_ifs at he
  · exact ⟨_, (Except.error.inj he).symm⟩
  · cases hh : RecordHeader.fromBytes (wire.take headerLen) with
    | error e' =>
      simp only [hh, Except.error.injEq] at he
      exact he ▸ RecordHeader.fromBytes_error hh
    | ok header =>
      simp only [hh] at he
      split_ifs at he <;> exact ⟨_, (Except.error.inj he).symm⟩

/-- The frames that parse are the encodings of records of the supported version, within the policy
limit, whose body is as long as the payload and a tag. -/
theorem parseRecord_eq_ok {wire : Bytes} {r : ProtectedRecord} :
    parseRecord wire = .ok r ↔
      r.toBytes = .ok wire ∧ r.header.version = protocolVersion ∧
        r.header.payload_len ≤ maxPayloadLen ∧
          (r.ciphertext_and_tag.length : ℤ) = r.header.payload_len + tagLen := by
  obtain ⟨header, body⟩ := r
  constructor
  · intro hp
    unfold parseRecord at hp
    split_ifs at hp
    cases hh : RecordHeader.fromBytes (wire.take headerLen) with
    | error e => simp only [hh, reduceCtorEq] at hp
    | ok header' =>
      simp only [hh] at hp
      split_ifs at hp with hlimit hlen
      cases hp
      obtain ⟨hb, hv⟩ := RecordHeader.fromBytes_eq_ok.mp hh
      refine ⟨ProtectedRecord.toBytes_eq_ok.mpr ⟨_, hb, ?_⟩, hv, not_lt.mp hlimit, not_not.mp hlen⟩
      exact (List.take_append_drop _ _).symm
  -- The encoding splits after 40 bytes, and passes each check of the parser.
  · rintro ⟨hb, hv, hlimit, hlen⟩
    obtain ⟨raw, hraw, rfl⟩ := ProtectedRecord.toBytes_eq_ok.mp hb
    dsimp only at hraw hv hlimit hlen ⊢
    have hrawlen := RecordHeader.length_toBytes hraw
    have h0 := header.admitted.payload_len.1
    have hmin : ¬(raw ++ body).length < minRecordLen := by
      rw [List.length_append, hrawlen, minRecordLen_eq, headerLen_eq]
      rw [tagLen_eq] at hlen
      omega
    rw [parseRecord, if_neg hmin, List.take_left' hrawlen, List.drop_left' hrawlen,
      RecordHeader.fromBytes_eq_ok.mpr ⟨hraw, hv⟩]
    dsimp only
    rw [if_neg (not_lt.mpr hlimit), if_neg (not_not.mpr hlen)]

/-- A frame parses, or raises `MalformedRecordError`. -/
theorem parseRecord_cases (wire : Bytes) :
    (∃ r, parseRecord wire = .ok r) ∨
      ∃ message, parseRecord wire = .error (.malformedRecordError message) := by
  cases hp : parseRecord wire with
  | ok r => exact .inl ⟨r, rfl⟩
  | error e =>
    obtain ⟨message, rfl⟩ := parseRecord_error hp
    exact .inr ⟨message, rfl⟩

/-- The version that a buffer spells is the supported one if its first byte is. -/
theorem version_eq_iff {bs : Bytes} :
    (Struct.decode (slice bs 0 1) : ℤ) = protocolVersion ↔ bs[0]? = some 1 := by
  cases bs with
  | nil => simp [slice, Struct.decode, protocolVersion]
  | cons b bs =>
    have hslice : slice (b :: bs) 0 1 = [b] := rfl
    rw [hslice, Struct.decode_singleton, protocolVersion, List.getElem?_cons_zero, Option.some.injEq,
      ← UInt8.toNat_inj]
    exact Nat.cast_inj

/-- A frame parses exactly if it is long enough, names the supported version, and is as long as the
payload length that it declares, within the policy limit, implies. -/
theorem exists_parseRecord_iff {wire : Bytes} :
    (∃ r, parseRecord wire = .ok r) ↔
      minRecordLen ≤ wire.length ∧ wire[0]? = some 1 ∧
        Struct.decode (slice wire 36 40) ≤ maxPayloadLen ∧
          wire.length = minRecordLen + Struct.decode (slice wire 36 40) := by
  rw [minRecordLen_eq]
  constructor
  · rintro ⟨r, hp⟩
    obtain ⟨hb, hv, hlimit, hlen⟩ := parseRecord_eq_ok.mp hp
    obtain ⟨raw, hraw, hwire⟩ := ProtectedRecord.toBytes_eq_ok.mp hb
    obtain ⟨hraw1, -, -, hraw4⟩ := RecordHeader.slices_of_toBytes hraw
    have hrawlen : raw.length = 40 := RecordHeader.length_toBytes hraw
    have hhead : wire.take 40 = raw := by rw [hwire, List.take_left' hrawlen]
    rw [← hhead, slice_take (by omega)] at hraw1 hraw4
    have hwirelen : wire.length = 40 + r.ciphertext_and_tag.length := by
      rw [hwire, List.length_append, hrawlen]
    rw [tagLen_eq] at hlen
    refine ⟨by omega, version_eq_iff.mp (hraw1.symm.trans hv), by omega, by omega⟩
  · rintro ⟨hmin, hversion, hlimit, hlen⟩
    have hrawlen : (wire.take headerLen).length = headerLen := by
      rw [List.length_take, headerLen_eq]
      omega
    obtain ⟨h, hraw⟩ := RecordHeader.exists_toBytes hrawlen
    obtain ⟨hraw1, -, -, hraw4⟩ := RecordHeader.slices_of_toBytes hraw
    rw [headerLen_eq, slice_take (by omega)] at hraw1 hraw4
    -- The record is the header that the first 40 bytes encode, in front of the rest.
    refine ⟨⟨h, wire.drop headerLen⟩, parseRecord_eq_ok.mpr ⟨?_, ?_, ?_, ?_⟩⟩
    · exact ProtectedRecord.toBytes_eq_ok.mpr ⟨_, hraw, (List.take_append_drop _ _).symm⟩
    · exact hraw1.trans (version_eq_iff.mpr hversion)
    · show h.payload_len ≤ maxPayloadLen
      omega
    · show ((wire.drop headerLen).length : ℤ) = h.payload_len + tagLen
      rw [List.length_drop, headerLen_eq, tagLen_eq]
      omega

/-- A parsed frame is the encoded header, its first forty bytes, in front of the body. -/
theorem split_of_parseRecord {wire : Bytes} {r : ProtectedRecord} (hp : parseRecord wire = .ok r) :
    r.header.toBytes = .ok (slice wire 0 40) ∧ r.ciphertext_and_tag = wire.drop 40 := by
  obtain ⟨raw, hraw, rfl⟩ := ProtectedRecord.toBytes_eq_ok.mp (parseRecord_eq_ok.mp hp).1
  have hrawlen : raw.length = 40 := RecordHeader.length_toBytes hraw
  refine ⟨?_, (List.drop_left' hrawlen).symm⟩
  rw [hraw, slice_append_left hrawlen.ge, slice, List.drop_zero, List.take_of_length_le hrawlen.le]

/-- A slice of the encoded header is that slice of the frame. -/
theorem slice_header {wire : Bytes} {i j : ℕ} (hj : j ≤ 40) :
    slice (slice wire 0 40) i j = slice wire i j :=
  slice_slice (Nat.zero_le i) hj

/-- What a parse gives, as slices of the frame: the encoded header and the body, and the nonce and
the declared payload length, both read from the header. -/
theorem slices_of_parseRecord {wire : Bytes} {r : ProtectedRecord} (hp : parseRecord wire = .ok r) :
    r.header.toBytes = .ok (slice wire 0 40) ∧ r.ciphertext_and_tag = wire.drop 40 ∧
      deriveNonce r.header.nonce_prefix r.header.seq = .ok (slice wire 24 36) ∧
        r.header.payload_len = Struct.decode (slice wire 36 40) := by
  obtain ⟨hraw, hbody⟩ := split_of_parseRecord hp
  obtain ⟨-, -, -, hlen⟩ := RecordHeader.slices_of_toBytes hraw
  have hnonce := RecordHeader.deriveNonce_eq_slice hraw
  rw [slice_header (by omega)] at hlen hnonce
  exact ⟨hraw, hbody, hnonce, hlen⟩

/-- The suite, session, stream, and number that a parse gives, as slices of the frame. -/
theorem names_of_parseRecord {wire : Bytes} {r : ProtectedRecord} (hp : parseRecord wire = .ok r) :
    r.header.suite_id = Struct.decode (slice wire 1 2) ∧ r.header.session_id = slice wire 4 20 ∧
      r.header.stream_id = Struct.decode (slice wire 20 24) ∧
        r.header.seq = Struct.decode (slice wire 28 36) := by
  obtain ⟨hraw, -⟩ := split_of_parseRecord hp
  obtain ⟨hsuite, hsession, hstream⟩ := RecordHeader.names_of_toBytes hraw
  obtain ⟨-, -, hseq, -⟩ := RecordHeader.slices_of_toBytes hraw
  rw [slice_header (by omega)] at hsuite hsession hstream hseq
  exact ⟨hsuite, hsession, hstream, hseq⟩

/-- Among the byte strings of its length, those that parse as a frame does share its version and its
payload length. -/
theorem exists_parseRecord_iff_of_length {wire wire' : Bytes} {r : ProtectedRecord}
    (hp : parseRecord wire = .ok r) (hlen : wire'.length = wire.length) :
    (∃ r', parseRecord wire' = .ok r') ↔
      slice wire' 0 1 = slice wire 0 1 ∧ slice wire' 36 40 = slice wire 36 40 := by
  obtain ⟨hmin, hversion, hlimit, hframe⟩ := exists_parseRecord_iff.mp ⟨r, hp⟩
  rw [exists_parseRecord_iff, hlen]
  rw [minRecordLen_eq] at hmin hframe ⊢
  have hwidth {i j : ℕ} (hj : j ≤ 56) : (slice wire' i j).length = (slice wire i j).length := by
    rw [length_slice (by omega), length_slice (by omega)]
  constructor
  · rintro ⟨-, hversion', -, hframe'⟩
    have hnumber := (version_eq_iff.mpr hversion').trans (version_eq_iff.mpr hversion).symm
    exact ⟨Struct.decode_injective (hwidth (by omega)) (by exact_mod_cast hnumber),
      Struct.decode_injective (hwidth (by omega)) (by omega)⟩
  · rintro ⟨hsame, hsame'⟩
    rw [hsame']
    refine ⟨hmin, version_eq_iff.mp ?_, hlimit, hframe⟩
    rw [hsame]
    exact version_eq_iff.mpr hversion

/-- The frame parser accepts exactly the wire grammar, raises `MalformedRecordError` on every other
frame, and is invertible where it accepts. -/
theorem parseRecord_spec (wire : Bytes) :
    ((∃ r, parseRecord wire = .ok r) ↔
      56 ≤ wire.length ∧ wire[0]? = some 1 ∧ Struct.decode (slice wire 36 40) ≤ 2 ^ 24 ∧
        wire.length = 56 + Struct.decode (slice wire 36 40)) ∧
    ((¬∃ r, parseRecord wire = .ok r) →
      ∃ message, parseRecord wire = .error (.malformedRecordError message)) ∧
    ∀ r, parseRecord wire = .ok r →
      r.toBytes = .ok wire ∧
      r.header.aad = .ok (slice wire 0 40) ∧
      r.ciphertext = slice wire 40 (40 + Struct.decode (slice wire 36 40)) ∧
      r.tag = slice wire (wire.length - 16) wire.length ∧
      deriveNonce r.header.nonce_prefix r.header.seq = .ok (slice wire 24 36) := by
  refine ⟨exists_parseRecord_iff, fun hno => (parseRecord_cases wire).resolve_left hno, ?_⟩
  · intro r hp
    obtain ⟨hb, -, -, hlen⟩ := parseRecord_eq_ok.mp hp
    obtain ⟨haad, hbody, hnonce, hL⟩ := slices_of_parseRecord hp
    obtain ⟨hmin, -, -, -⟩ := exists_parseRecord_iff.mp ⟨r, hp⟩
    rw [minRecordLen_eq] at hmin
    rw [tagLen_eq, hL] at hlen
    have hbodylen : r.ciphertext_and_tag.length = wire.length - 40 := by rw [hbody, List.length_drop]
    refine ⟨hb, haad, ?_, ?_, hnonce⟩
    · rw [ProtectedRecord.ciphertext, hbody, slice, tagLen_eq]
      congr 1
      rw [List.length_drop]
      omega
    · have hwidth : wire.length - (wire.length - 16) = (wire.drop (wire.length - 16)).length := by
        rw [List.length_drop]
      rw [ProtectedRecord.tag, hbody, slice, tagLen_eq, List.drop_drop, hwidth, List.take_length]
      congr 1
      rw [List.length_drop]
      omega

end Srp
