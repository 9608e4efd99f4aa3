import Srp.Adversary

/-!
# The header encoding is canonical

`RecordHeader.to_bytes` writes nine fields into ranges of fixed width, one after the other. So a header
that serialises is determined by its encoding, every field of it (`toBytes_injective`), and replacing some
of its fields changes no byte outside their ranges (`RecordHeader.differs_within`). `tamper_header` inherits
this for the header of a frame, and leaves the rest of the frame. `header_encoding_is_canonical` collects
what this says of all headers and of all frames.
-/

namespace Srp

/-! ## Fields and their ranges -/

/-- The fields of a header, in the order of the format. -/
inductive HeaderField
  | version
  | suite_id
  | record_type
  | flags
  | session_id
  | stream_id
  | nonce_prefix
  | seq
  | payload_len
  deriving DecidableEq, Repr

namespace HeaderField

/-- The number of bytes of a field. -/
def width : HeaderField → ℕ
  | version => 1
  | suite_id => 1
  | record_type => 1
  | flags => 1
  | session_id => 16
  | stream_id => 4
  | nonce_prefix => 4
  | seq => 8
  | payload_len => 4

/-- The position of the first byte of a field. -/
def start : HeaderField → ℕ
  | version => 0
  | suite_id => 1
  | record_type => 2
  | flags => 3
  | session_id => 4
  | stream_id => 20
  | nonce_prefix => 24
  | seq => 28
  | payload_len => 36

/-- A position in the range of a field. -/
def Covers (f : HeaderField) (i : ℕ) : Prop := f.start ≤ i ∧ i < f.start + f.width

end HeaderField

/-- The fields that a call of `evolve` or `tamper_header` names. -/
def HeaderChanges.Names (changes : HeaderChanges) : HeaderField → Prop
  | HeaderField.version => changes.version.isSome
  | HeaderField.suite_id => changes.suite_id.isSome
  | HeaderField.record_type => changes.record_type.isSome
  | HeaderField.flags => changes.flags.isSome
  | HeaderField.session_id => changes.session_id.isSome
  | HeaderField.stream_id => changes.stream_id.isSome
  | HeaderField.nonce_prefix => changes.nonce_prefix.isSome
  | HeaderField.seq => changes.seq.isSome
  | HeaderField.payload_len => changes.payload_len.isSome

/-- The fields whose range only `struct.pack` checks are bytes. -/
structure HeaderFields.Serialisable (f : HeaderFields) : Prop where
  version : 0 ≤ f.version ∧ f.version ≤ 0xFF
  suite_id : 0 ≤ f.suite_id ∧ f.suite_id ≤ 0xFF
  record_type : 0 ≤ f.record_type ∧ f.record_type ≤ 0xFF
  flags : 0 ≤ f.flags ∧ f.flags ≤ 0xFF

/-- New values that the constructor admits and `struct.pack` takes, each in its own field. -/
structure HeaderChanges.Serialisable (changes : HeaderChanges) : Prop where
  session_id : ∀ v ∈ changes.session_id, v.length = sessionIdLen
  stream_id : ∀ v ∈ changes.stream_id, 0 ≤ v ∧ v ≤ 0xFFFFFFFF
  nonce_prefix : ∀ v ∈ changes.nonce_prefix, v.length = noncePrefixLen
  seq : ∀ v ∈ changes.seq, 0 ≤ v ∧ v ≤ 0xFFFFFFFFFFFFFFFF
  payload_len : ∀ v ∈ changes.payload_len, 0 ≤ v ∧ v ≤ 0xFFFFFFFF
  record_type : ∀ v ∈ changes.record_type, 0 ≤ v ∧ v ≤ 0xFF
  flags : ∀ v ∈ changes.flags, 0 ≤ v ∧ v ≤ 0xFF
  version : ∀ v ∈ changes.version, 0 ≤ v ∧ v ≤ 0xFF
  suite_id : ∀ v ∈ changes.suite_id, 0 ≤ v ∧ v ≤ 0xFF

/-- A value that a call may name is the given one after it, and else the one that it was. -/
structure Replaced {α : Type*} (given : Option α) (old new : α) : Prop where
  named : ∀ v ∈ given, new = v
  kept : given = none → new = old

/-- From some fields to others, each named field has the given value, and any other one its own. -/
structure HeaderChanges.Applied (changes : HeaderChanges) (f f' : HeaderFields) : Prop where
  session_id : Replaced changes.session_id f.session_id f'.session_id
  stream_id : Replaced changes.stream_id f.stream_id f'.stream_id
  nonce_prefix : Replaced changes.nonce_prefix f.nonce_prefix f'.nonce_prefix
  seq : Replaced changes.seq f.seq f'.seq
  payload_len : Replaced changes.payload_len f.payload_len f'.payload_len
  record_type : Replaced changes.record_type f.record_type f'.record_type
  flags : Replaced changes.flags f.flags f'.flags
  version : Replaced changes.version f.version f'.version
  suite_id : Replaced changes.suite_id f.suite_id f'.suite_id

/-- From one frame to another of its length, each named field of the header has the given value, any other one its
own, and no byte outside of the ranges of the named ones differs. -/
structure HeaderChanges.Rewrites (changes : HeaderChanges) (wire wire' : Bytes) : Prop where
  header : ∃ h h' : RecordHeader, h.toBytes = .ok (wire.take headerLen) ∧
    h'.toBytes = .ok (wire'.take headerLen) ∧ changes.Applied h.toHeaderFields h'.toHeaderFields
  length : wire'.length = wire.length
  others : ∀ i, wire'[i]? ≠ wire[i]? → ∃ f : HeaderField, changes.Names f ∧ f.Covers i

/-! ## Replacing fields -/

section Replace

variable {α : Type*} {o : Option α} {d : α}

/-- A value that replaces another, or the other itself, has what both have. -/
theorem getD_of_forall {P : α → Prop} (h : ∀ v ∈ o, P v) (hd : P d) : P (o.getD d) := by
  cases o with
  | none => exact hd
  | some v => exact h v rfl

/-- Only a named value is replaced. -/
theorem isSome_of_getD_ne (h : o.getD d ≠ d) : o.isSome := by
  cases o with
  | none => exact absurd rfl h
  | some v => rfl

/-- A default is replaced where there is a value. -/
theorem replaced_getD (o : Option α) (d : α) : Replaced o d (o.getD d) := by
  refine ⟨fun v hv => ?_, fun hnone => ?_⟩
  · rw [Option.mem_def.mp hv, Option.getD_some]
  · rw [hnone, Option.getD_none]

end Replace

namespace HeaderFields

variable {f : HeaderFields} {changes : HeaderChanges}

/-- Replacing fields gives the named ones their values, and leaves the others. -/
theorem applied_replace (f : HeaderFields) (changes : HeaderChanges) : changes.Applied f (f.replace changes) where
  session_id := replaced_getD _ _
  stream_id := replaced_getD _ _
  nonce_prefix := replaced_getD _ _
  seq := replaced_getD _ _
  payload_len := replaced_getD _ _
  record_type := replaced_getD _ _
  flags := replaced_getD _ _
  version := replaced_getD _ _
  suite_id := replaced_getD _ _

/-- Replacing fields by values that fit keeps the fields admitted. -/
theorem Admitted.replace (hf : f.Admitted) (hc : changes.Serialisable) :
    (f.replace changes).Admitted where
  session_id := getD_of_forall (P := fun v : Bytes => v.length = sessionIdLen) hc.session_id hf.session_id
  nonce_prefix :=
    getD_of_forall (P := fun v : Bytes => v.length = noncePrefixLen) hc.nonce_prefix hf.nonce_prefix
  seq := getD_of_forall hc.seq hf.seq
  stream_id := getD_of_forall hc.stream_id hf.stream_id
  payload_len := getD_of_forall hc.payload_len hf.payload_len

/-- Replacing fields by values that fit keeps the fields serialisable. -/
theorem Serialisable.replace (hf : f.Serialisable) (hc : changes.Serialisable) :
    (f.replace changes).Serialisable where
  version := getD_of_forall hc.version hf.version
  suite_id := getD_of_forall hc.suite_id hf.suite_id
  record_type := getD_of_forall hc.record_type hf.record_type
  flags := getD_of_forall hc.flags hf.flags

end HeaderFields

namespace RecordHeader

variable {h h' : RecordHeader} {raw raw' : Bytes} {changes : HeaderChanges}

/-- A header has an encoding exactly if its one-byte fields are bytes. -/
theorem exists_toBytes_iff : (∃ raw, h.toBytes = .ok raw) ↔ h.toHeaderFields.Serialisable := by
  constructor
  · rintro ⟨raw, e⟩
    obtain ⟨⟨v0, v1⟩, ⟨s0, s1⟩, ⟨t0, t1⟩, ⟨f0, f1⟩, -⟩ :=
      Struct.fits_of_pack h.strFits_values (toBytes_eq_ok.mp e)
    exact ⟨⟨v0, Int.le_of_lt_add_one v1⟩, ⟨s0, Int.le_of_lt_add_one s1⟩, ⟨t0, Int.le_of_lt_add_one t1⟩,
      ⟨f0, Int.le_of_lt_add_one f1⟩⟩
  · rintro ⟨⟨v0, v1⟩, ⟨s0, s1⟩, ⟨t0, t1⟩, ⟨f0, f1⟩⟩
    exact exists_toBytes_of_bytes ⟨v0, by omega⟩ ⟨s0, by omega⟩ ⟨t0, by omega⟩ ⟨f0, by omega⟩

/-- Two encodings differ only in the ranges of the fields that were replaced. -/
theorem differs_within (e : h.toBytes = .ok raw) (e' : h'.toBytes = .ok raw')
    (hfields : h'.toHeaderFields = h.toHeaderFields.replace changes) {i : ℕ} (hne : raw'[i]? ≠ raw[i]?) :
    ∃ f : HeaderField, changes.Names f ∧ f.Covers i := by
  have hdiffers := Struct.differsFrom_of_pack 0 (toBytes_eq_ok.mp e') (toBytes_eq_ok.mp e) hne
  rw [Nat.zero_add, values, values, hfields] at hdiffers
  -- One case for each field of the format, with its range.
  rcases hdiffers with ⟨hv, hi⟩ | ⟨hv, hi⟩ | ⟨hv, hi⟩ | ⟨hv, hi⟩ | ⟨hv, hi⟩ | ⟨hv, hi⟩ | ⟨hv, hi⟩ |
    ⟨hv, hi⟩ | ⟨hv, hi⟩ | hno
  · exact ⟨.version, isSome_of_getD_ne hv, hi⟩
  · exact ⟨.suite_id, isSome_of_getD_ne hv, hi⟩
  · exact ⟨.record_type, isSome_of_getD_ne hv, hi⟩
  · exact ⟨.flags, isSome_of_getD_ne hv, hi⟩
  · exact ⟨.session_id, isSome_of_getD_ne hv, hi⟩
  · exact ⟨.stream_id, isSome_of_getD_ne hv, hi⟩
  · exact Exists.intro HeaderField.nonce_prefix ⟨isSome_of_getD_ne hv, hi⟩
  · exact ⟨.seq, isSome_of_getD_ne hv, hi⟩
  · exact ⟨.payload_len, isSome_of_getD_ne hv, hi⟩
  · exact hno.elim

/-- Replacing fields of a header that serialises by values that fit gives a header that serialises. -/
theorem exists_evolve (e : h.toBytes = .ok raw) (hc : changes.Serialisable) :
    ∃ h' raw', h.evolve changes = .ok h' ∧ h'.toBytes = .ok raw' ∧
      h'.toHeaderFields = h.toHeaderFields.replace changes := by
  have hadmitted := h.admitted.replace hc
  have hserialisable := (exists_toBytes_iff.mp ⟨raw, e⟩).replace hc
  obtain ⟨raw', e'⟩ : ∃ raw', toBytes ⟨_, hadmitted⟩ = .ok raw' := exists_toBytes_iff.mpr hserialisable
  exact ⟨_, raw', new_of_admitted hadmitted, e', rfl⟩

/-- In front of one body, two encodings rewrite the fields that were replaced. -/
theorem rewrites_of_replace (e : h.toBytes = .ok raw) (e' : h'.toBytes = .ok raw')
    (hfields : h'.toHeaderFields = h.toHeaderFields.replace changes) (body : Bytes) :
    changes.Rewrites (raw ++ body) (raw' ++ body) := by
  have hlen := length_toBytes e
  have hlen' := length_toBytes e'
  have happlied := h.toHeaderFields.applied_replace changes
  rw [← hfields] at happlied
  refine ⟨⟨h, h', ?_, ?_, happlied⟩, ?_, fun i hne => ?_⟩
  · rw [e, List.take_left' hlen]
  · rw [e', List.take_left' hlen']
  · rw [List.length_append, List.length_append, hlen, hlen']
  -- Behind the header both have the body.
  · rcases lt_or_ge i headerLen with hi | hi
    · rw [List.getElem?_append_left (by omega), List.getElem?_append_left (by omega)] at hne
      exact differs_within e e' hfields hne
    · rw [List.getElem?_append_right (by omega), List.getElem?_append_right (by omega), hlen, hlen'] at hne
      exact absurd rfl hne

end RecordHeader

/-- On every wire of the supported version that has room for a header, `tamper_header` rewrites the named
fields by values that fit. -/
theorem tamperHeader_rewrites {wire : Bytes} {changes : HeaderChanges} (hlen : headerLen ≤ wire.length)
    (hversion : wire[0]? = some 1) (hc : changes.Serialisable) :
    ∃ wire', tamperHeader wire changes = .ok wire' ∧ changes.Rewrites wire wire' := by
  have htake : (wire.take headerLen).length = headerLen := by
    rw [List.length_take, Nat.min_eq_left hlen]
  obtain ⟨h, e⟩ := RecordHeader.exists_toBytes htake
  obtain ⟨h', raw', hevolve, e', hfields⟩ := RecordHeader.exists_evolve e hc
  -- The wire names the supported version in its first byte.
  have hv : h.version = protocolVersion := by
    obtain ⟨hv, -⟩ := RecordHeader.slices_of_toBytes e
    rw [hv, slice_take (by rw [headerLen_eq]; omega)]
    exact version_eq_iff.mpr hversion
  refine ⟨raw' ++ wire.drop headerLen, ?_, ?_⟩
  · rw [tamperHeader, RecordHeader.fromBytes_eq_ok.mpr ⟨e, hv⟩]
    dsimp only
    rw [hevolve]
    dsimp only
    rw [e']
  · have hrewrites := RecordHeader.rewrites_of_replace e e' hfields (wire.drop headerLen)
    rwa [List.take_append_drop] at hrewrites

/-- The header encoding is canonical. A header has an encoding, of 40 bytes, exactly if its one-byte fields
are bytes, and otherwise `struct.pack` raises. An encoding parses back to its header if that has the
supported version, and otherwise raises `MalformedRecordError`. Two encodings are equal exactly if all nine
fields are. Replacing fields by values that fit gives these fields the values, leaves all others as they
were, and changes only the bytes of these fields, in the encoding and in every wire with a header of the
supported version. -/
theorem header_encoding_is_canonical :
    (∀ h : RecordHeader,
      ((∃ raw, h.toBytes = .ok raw ∧ raw.length = 40) ↔ h.toHeaderFields.Serialisable) ∧
      (¬h.toHeaderFields.Serialisable → h.toBytes = .error .structError) ∧
      ∀ raw, h.toBytes = .ok raw →
        raw.length = 40 ∧
        (h.version = 1 → RecordHeader.fromBytes raw = .ok h) ∧
        (h.version ≠ 1 → ∃ message, RecordHeader.fromBytes raw = .error (.malformedRecordError message)) ∧
        (∀ (h' : RecordHeader) (raw' : Bytes), h'.toBytes = .ok raw' →
          (raw = raw' ↔ h.toHeaderFields = h'.toHeaderFields)) ∧
        ∀ changes : HeaderChanges, changes.Serialisable → ∃ h' raw', h.evolve changes = .ok h' ∧
          changes.Applied h.toHeaderFields h'.toHeaderFields ∧ h'.toBytes = .ok raw' ∧
            changes.Rewrites raw raw') ∧
    ∀ (wire : Bytes) (changes : HeaderChanges), 40 ≤ wire.length → wire[0]? = some 1 →
      changes.Serialisable →
        ∃ wire', tamperHeader wire changes = .ok wire' ∧ changes.Rewrites wire wire' := by
  refine ⟨fun h => ⟨?_, fun hno => ?_, fun raw e => ⟨?_, ?_, ?_, ?_, ?_⟩⟩, ?_⟩
  · rw [← RecordHeader.exists_toBytes_iff]
    constructor
    · rintro ⟨raw, e, -⟩
      exact ⟨raw, e⟩
    · rintro ⟨raw, e⟩
      exact ⟨raw, e, RecordHeader.length_toBytes e⟩
  · cases e : h.toBytes with
    | ok raw => exact absurd (RecordHeader.exists_toBytes_iff.mp ⟨raw, e⟩) hno
    | error err => rw [RecordHeader.toBytes_error e]
  · exact RecordHeader.length_toBytes e
  · intro hv
    rw [RecordHeader.fromBytes_of_toBytes e]
    exact if_pos hv
  · intro hv
    rw [RecordHeader.fromBytes_of_toBytes e]
    exact ⟨_, if_neg hv⟩
  · intro h' raw' e'
    constructor
    · rintro rfl
      rw [RecordHeader.toBytes_injective e e']
    · intro hfields
      rw [RecordHeader.ext_fields hfields, e', Except.ok.injEq] at e
      exact e.symm
  · intro changes hc
    obtain ⟨h', raw', hevolve, e', hfields⟩ := RecordHeader.exists_evolve e hc
    have hrewrites := RecordHeader.rewrites_of_replace e e' hfields []
    rw [List.append_nil, List.append_nil] at hrewrites
    have happlied := h.toHeaderFields.applied_replace changes
    rw [← hfields] at happlied
    exact ⟨h', raw', hevolve, happlied, e', hrewrites⟩
  · intro wire changes hlen hversion hc
    exact tamperHeader_rewrites hlen hversion hc

/-- A frame whose header is given another number and type has these in its header, and keeps the rest of it. -/
theorem header_encoding_is_canonical_of_renumber :
    let wire : Bytes :=
      [1, 1, 1, 0] ++ List.replicate 16 7 ++ [0, 0, 0, 1] ++ [9, 9, 9, 9] ++ [0, 0, 0, 0, 0, 0, 0, 3] ++
        [0, 0, 0, 1] ++ List.replicate 17 8
    ∃ (wire' : Bytes) (h h' : RecordHeader),
      tamperHeader wire { seq := some 5, record_type := some 3 } = .ok wire' ∧
        h.toBytes = .ok (wire.take 40) ∧ h'.toBytes = .ok (wire'.take 40) ∧ h'.seq = 5 ∧ h'.record_type = 3 ∧
          h'.session_id = h.session_id ∧ h'.stream_id = h.stream_id ∧ h'.nonce_prefix = h.nonce_prefix ∧
            h'.payload_len = h.payload_len ∧ h'.flags = h.flags ∧ h'.version = h.version ∧
              h'.suite_id = h.suite_id := by
  intro wire
  have hfits : HeaderChanges.Serialisable { seq := some 5, record_type := some 3 } := by
    refine ⟨nofun, nofun, nofun, fun v hv => ?_, nofun, fun v hv => ?_, nofun, nofun, nofun⟩
    · cases hv
      decide
    · cases hv
      decide
  obtain ⟨wire', htamper, hrewrites⟩ := header_encoding_is_canonical.2 wire _ (by decide) rfl hfits
  obtain ⟨h, h', e, e', happlied⟩ := hrewrites.header
  exact ⟨wire', h, h', htamper, e, e', happlied.seq.named 5 rfl, happlied.record_type.named 3 rfl,
    happlied.session_id.kept rfl, happlied.stream_id.kept rfl, happlied.nonce_prefix.kept rfl,
    happlied.payload_len.kept rfl, happlied.flags.kept rfl, happlied.version.kept rfl,
    happlied.suite_id.kept rfl⟩

end Srp
