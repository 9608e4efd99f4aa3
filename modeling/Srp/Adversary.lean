import Srp.Wire

/-!
# The malicious actor

`MaliciousActor` of `srp/adversary.py` starts from a frame of a sender and changes it, without the key.
Its truncations are slices, with bounds as Python reads them. Its header changes go through the header
itself: `tamper_header` parses the 40 bytes, replaces fields, and encodes them again.
-/

namespace Srp

/-! ## Truncations -/

/-- A bound of a slice, as Python reads it: a negative one counts from the end, and none goes past the
ends. -/
def sliceBound (bs : Bytes) (i : ℤ) : ℕ :=
  if i < 0 then (i + bs.length).toNat else min i.toNat bs.length

/-- The slice `bs[i:j]`, for any integers. -/
def pySlice (bs : Bytes) (i j : ℤ) : Bytes := slice bs (sliceBound bs i) (sliceBound bs j)

/-- `_ct_range`: where the ciphertext starts and ends. -/
def ctRange (wire : Bytes) : ℤ × ℤ := (headerLen, wire.length - tagLen)

/-- `truncate_ciphertext`: drop bytes from the end of the ciphertext, at most as many as it has. -/
def truncateCiphertext (wire : Bytes) (count : ℤ := 1) : Bytes :=
  let (ct_start, ct_end) := ctRange wire
  let ct_len := ct_end - ct_start
  let count := if count > ct_len then ct_len else count
  let header := pySlice wire 0 headerLen
  let ciphertext := pySlice wire ct_start (ct_end - count)
  let tag := pySlice wire ct_end wire.length
  header ++ ciphertext ++ tag

/-- `truncate_tag`: drop bytes from the end of the frame. -/
def truncateTag (wire : Bytes) (count : ℤ := 1) : Bytes := pySlice wire 0 (-count)

/-! ## Header changes -/

/-- The keyword arguments of `evolve`: new values for some of the fields. -/
structure HeaderChanges where
  session_id : Option Bytes := none
  stream_id : Option ℤ := none
  nonce_prefix : Option Bytes := none
  seq : Option ℤ := none
  payload_len : Option ℤ := none
  record_type : Option ℤ := none
  flags : Option ℤ := none
  version : Option ℤ := none
  suite_id : Option ℤ := none
  deriving DecidableEq, Repr

/-- The fields with some of them replaced. -/
def HeaderFields.replace (f : HeaderFields) (changes : HeaderChanges) : HeaderFields :=
  { session_id := changes.session_id.getD f.session_id
    stream_id := changes.stream_id.getD f.stream_id
    nonce_prefix := changes.nonce_prefix.getD f.nonce_prefix
    seq := changes.seq.getD f.seq
    payload_len := changes.payload_len.getD f.payload_len
    record_type := changes.record_type.getD f.record_type
    flags := changes.flags.getD f.flags
    version := changes.version.getD f.version
    suite_id := changes.suite_id.getD f.suite_id }

/-- `evolve`: a copy with fields replaced, which the constructor checks again. -/
def RecordHeader.evolve (h : RecordHeader) (changes : HeaderChanges) : Except Error RecordHeader :=
  RecordHeader.new (h.toHeaderFields.replace changes)

/-- `tamper_header`: rewrite header fields, keeping ciphertext and tag. -/
def tamperHeader (wire : Bytes) (changes : HeaderChanges) : Except Error Bytes :=
  match RecordHeader.fromBytes (wire.take headerLen) with
  | .error e => .error e
  | .ok header =>
    match header.evolve changes with
    | .error e => .error e
    | .ok new_header =>
      match new_header.toBytes with
      | .error e => .error e
      | .ok raw => .ok (raw ++ wire.drop headerLen)

/-- On the frame of a record of the supported version, `tamper_header` encodes the changed header in
front of the same body, and raises where the constructor or the encoding does. -/
theorem tamperHeader_of_toBytes {r : ProtectedRecord} {wire : Bytes} (changes : HeaderChanges)
    (hr : r.toBytes = .ok wire) (hversion : r.header.version = protocolVersion) :
    tamperHeader wire changes =
      match r.header.evolve changes with
      | .error e => .error e
      | .ok header => ProtectedRecord.toBytes ⟨header, r.ciphertext_and_tag⟩ := by
  obtain ⟨raw, hraw, rfl⟩ := ProtectedRecord.toBytes_eq_ok.mp hr
  have hlen := RecordHeader.length_toBytes hraw
  -- The first 40 bytes parse to the header of the record.
  rw [tamperHeader, List.take_left' hlen, List.drop_left' hlen,
    RecordHeader.fromBytes_eq_ok.mpr ⟨hraw, hversion⟩]
  dsimp only
  cases r.header.evolve changes with
  | error e => rfl
  | ok header =>
    dsimp only [ProtectedRecord.toBytes]
    cases header.toBytes <;> rfl

end Srp
