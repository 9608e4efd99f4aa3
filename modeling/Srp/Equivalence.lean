import Srp.Mealy
import Srp.Refinement
import Srp.Session
import Srp.Adversary

/-!
# Configuration equivalence

Two channels that differ only in their AEAD configuration and key answer every script alike: sends,
deliveries of frames emitted before, and deliveries of such frames under the same edit
(`configuration_equivalence`). The two runs have different ciphertexts and different suite bytes, so
their frames are related by what they say otherwise (`Twins`), and the simulation relation
(`Exchange.Alike`) keeps all frames emitted so far in that relation.
-/

namespace Srp

/-! ## Headers of two configurations -/

/-- Two headers have the same fields but for the suite. -/
def HeaderFields.AgreeButSuite (f f' : HeaderFields) : Prop := f' = { f with suite_id := f'.suite_id }

/-- What two headers say of the suite: each names the one of its own run, or both name the same other
one. -/
def Labelled (id id' : ℤ) (f f' : HeaderFields) : Prop :=
  f.suite_id = id ∧ f'.suite_id = id' ∨
    f.suite_id = f'.suite_id ∧ f.suite_id ≠ id ∧ f.suite_id ≠ id'

/-- Headers that agree but for the suite name the same stream and number. -/
theorem HeaderFields.AgreeButSuite.place {h h' : RecordHeader} (e : h.AgreeButSuite h'.toHeaderFields) :
    h'.streamKey = h.streamKey ∧ h'.seq = h.seq := by
  rw [RecordHeader.streamKey, e]
  exact ⟨rfl, rfl⟩

namespace RecordHeader

/-- The constructor does not look at the suite. -/
theorem new_withSuite (f : HeaderFields) (id : ℤ) :
    (∃ e, new f = .error e ∧ new { f with suite_id := id } = .error e) ∨
      ∃ h h', new f = .ok h ∧ new { f with suite_id := id } = .ok h' := by
  by_cases hf : f.Admitted
  · have hf' : ({ f with suite_id := id } : HeaderFields).Admitted :=
      ⟨hf.session_id, hf.nonce_prefix, hf.seq, hf.stream_id, hf.payload_len⟩
    exact .inr ⟨_, _, new_of_admitted hf, new_of_admitted hf'⟩
  · cases hn : new f with
    | ok h => exact absurd (fields_of_new hn ▸ h.admitted) hf
    -- The same check fails, with the same message.
    | error e =>
      refine .inl ⟨e, rfl, ?_⟩
      rw [← hn]
      unfold new at hn ⊢
      dsimp only
      split_ifs at hn ⊢ <;> rfl

/-- The encodings of two headers that agree but for the suite, each of them a byte, differ in their
second byte only. -/
theorem toBytes_of_agree {h h' : RecordHeader} (hagree : h.AgreeButSuite h'.toHeaderFields)
    (hid : 0 ≤ h.suite_id ∧ h.suite_id < 256) (hid' : 0 ≤ h'.suite_id ∧ h'.suite_id < 256) :
    (h.toBytes = .error .structError ∧ h'.toBytes = .error .structError) ∨
      ∃ version suite suite' rest : Bytes, version.length = 1 ∧ suite.length = 1 ∧
        suite'.length = 1 ∧ h.toBytes = .ok (version ++ (suite ++ rest)) ∧
          h'.toBytes = .ok (version ++ (suite' ++ rest)) := by
  have hvalues : h'.values = (h.version, h'.suite_id, h.values.2.2) := by
    rw [values, hagree]
    rfl
  have hsuite : (Struct.Field.uint 1).pack h.suite_id = some (Struct.encode 1 h.suite_id.toNat) :=
    if_pos hid
  have hsuite' : (Struct.Field.uint 1).pack h'.suite_id =
    some (Struct.encode 1 h'.suite_id.toNat) := if_pos hid'
  -- Packing makes the byte of the version, the byte of the suite, and the rest, which does not depend on
  -- the suite.
  have hpack (id : ℤ) (suite : Bytes) (hs : (Struct.Field.uint 1).pack id = some suite) :
      Struct.pack headerFormat (h.version, id, h.values.2.2) =
        ((Struct.Field.uint 1).pack h.version).bind fun version =>
          (Struct.pack (headerFormat.drop 2) h.values.2.2).map fun rest =>
            version ++ (suite ++ rest) := by
    rw [Struct.pack_cons, Struct.pack_cons, hs]
    simp only [Option.bind_some, Option.map_map]
    rfl
  have hself : h.values = (h.version, h.suite_id, h.values.2.2) := rfl
  unfold toBytes
  rw [hself, hvalues, hpack _ _ hsuite, hpack _ _ hsuite']
  cases hv : (Struct.Field.uint 1).pack h.version with
  | none => exact .inl ⟨rfl, rfl⟩
  | some version =>
    cases Struct.pack (headerFormat.drop 2) h.values.2.2 with
    | none => exact .inl ⟨rfl, rfl⟩
    | some rest =>
      exact .inr ⟨version, _, _, rest, Struct.Field.length_pack hv,
        Struct.Field.length_pack hsuite, Struct.Field.length_pack hsuite', rfl, rfl⟩

end RecordHeader

/-! ## Frames of two configurations -/

/-- Two records say the same of everything but the suite, and have bodies of one length. -/
structure Twins (id id' : ℤ) (r r' : ProtectedRecord) : Prop where
  agree : r.header.AgreeButSuite r'.header.toHeaderFields
  labelled : Labelled id id' r.header.toHeaderFields r'.header.toHeaderFields
  length : r.ciphertext_and_tag.length = r'.ciphertext_and_tag.length

/-- Two frames encode twin records, or are both too short for a record. -/
def TwinFrames (id id' : ℤ) (w w' : Bytes) : Prop :=
  w.length < minRecordLen ∧ w'.length < minRecordLen ∨
    ∃ r r', Twins id id' r r' ∧ r.toBytes = .ok w ∧ r'.toBytes = .ok w'

/-- Two genuine records that agree but for the suite: each is of its own suite, and their frames parse to
them and open to the same payload. -/
structure GenuineRecords (A B : AeadSuite) (r r' : ProtectedRecord) (w w' payload : Bytes) :
    Prop where
  agree : r.header.AgreeButSuite r'.header.toHeaderFields
  suite_id : r.header.suite_id = A.suite_id
  suite_id' : r'.header.suite_id = B.suite_id
  length : r.ciphertext_and_tag.length = r'.ciphertext_and_tag.length
  parsed : parseRecord w = .ok r
  parsed' : parseRecord w' = .ok r'
  opens : A.openRecord r = .ok payload
  opens' : B.openRecord r' = .ok payload

/-- Two frames of genuine records, each of its own suite, which open to the same payload. -/
def Genuine (A B : AeadSuite) (w w' : Bytes) : Prop :=
  ∃ r r' payload, GenuineRecords A B r r' w w' payload

/-- What the two libraries are trusted for: the two functions fit together, `encrypt` takes every payload
within the policy limit, and `decrypt` raises only `InvalidTag`. -/
structure Backend.Correct (b : Backend) : Prop where
  seals : b.Seals
  documented : b.DecryptDocumented
  encrypts : ∀ nonce data aad, nonce.length = nonceLen → data.length ≤ maxPayloadLen →
    ∃ c, b.encrypt nonce data aad = .ok c

/-- Over a correct library, `seal` takes every payload within the policy limit. -/
theorem Backend.Correct.exists_seal {suite : AeadSuite} (h : suite.impl.Correct)
    {nonce payload : Bytes} (hn : nonce.length = nonceLen) (hp : payload.length ≤ maxPayloadLen)
    (aad : Bytes) :
    ∃ c, suite.seal nonce payload aad = .ok c ∧ c.length = payload.length + suiteTagLen := by
  obtain ⟨c, hc⟩ := h.encrypts nonce payload aad hn hp
  exact ⟨c, AeadSuite.seal_eq_ok.mpr ⟨hn, hc⟩, h.seals.length hn hc⟩

/-! ## Sends -/

/-- A sender under another suite. -/
def Sender.withSuite (s : Sender) (B : AeadSuite) : Sender := { s with suite := B }

/-- The same call of two senders that differ only in the suite: both raise the same, or both return
records that agree but for the suite. The senders still differ only in the suite. -/
theorem Sender.seal_withSuite {s : Sender} {B : AeadSuite} (hA : s.suite.impl.Correct)
    (hB : B.impl.Correct) (args : SealArgs) :
    ((s.withSuite B).seal args).sender = (s.seal args).sender.withSuite B ∧
      ((∃ e, (s.seal args).result = .error e ∧ ((s.withSuite B).seal args).result = .error e) ∨
        ∃ r r' : ProtectedRecord, (s.seal args).result = .ok r ∧
          ((s.withSuite B).seal args).result = .ok r' ∧
            r.header.AgreeButSuite r'.header.toHeaderFields ∧
              r.ciphertext_and_tag.length = r'.ciphertext_and_tag.length) := by
  unfold Sender.seal
  have hnonces : (s.withSuite B).nonces = s.nonces := rfl
  rw [hnonces]
  cases hp : checkPayload args.payload with
  | error e => exact ⟨rfl, .inl ⟨e, rfl, rfl⟩⟩
  | ok payload =>
    obtain ⟨-, hmax⟩ := checkPayload_eq_ok.mp hp
    rcases s.nonces.allocate_cases with ⟨-, ha⟩ | ⟨hlimit, nonce, hn, ha⟩
    · simp only [ha]
      exact ⟨rfl, .inl ⟨_, rfl, rfl⟩⟩
    · have hlen := length_deriveNonce hn
      have hfields : Sender.headerFields { s.withSuite B with nonces := s.nonces.advance hlimit } args
          payload s.nonces.next =
        { Sender.headerFields { s with nonces := s.nonces.advance hlimit } args payload
            s.nonces.next with suite_id := B.suite_id } := rfl
      simp only [ha, hfields]
      -- The constructor and the encoding of the header do not depend on the suite.
      rcases RecordHeader.new_withSuite (Sender.headerFields
        { s with nonces := s.nonces.advance hlimit } args payload s.nonces.next) B.suite_id with
        ⟨e, he, he'⟩ | ⟨h, h', hh, hh'⟩
      · simp only [he, he']
        exact ⟨rfl, .inl ⟨_, rfl, rfl⟩⟩
      · have hf := RecordHeader.fields_of_new hh
        have hf' := RecordHeader.fields_of_new hh'
        have hagree : h.AgreeButSuite h'.toHeaderFields := by
          rw [HeaderFields.AgreeButSuite, hf', hf]
        have hid : h.suite_id = s.suite.suite_id := by rw [hf]; rfl
        have hid' : h'.suite_id = B.suite_id := by rw [hf']
        simp only [hh, hh', RecordHeader.aad]
        rcases RecordHeader.toBytes_of_agree hagree (hid ▸ s.suite.cls.suite_id_byte)
          (hid' ▸ B.cls.suite_id_byte) with
          ⟨he, he'⟩ | ⟨version, suite, suite', rest, -, -, -, hraw, hraw'⟩
        · simp only [he, he']
          exact ⟨rfl, .inl ⟨_, rfl, rfl⟩⟩
        · simp only [hraw, hraw']
          obtain ⟨c, hc, hclen⟩ := hA.exists_seal hlen hmax (version ++ (suite ++ rest))
          obtain ⟨c', hc', hclen'⟩ := hB.exists_seal hlen hmax (version ++ (suite' ++ rest))
          have hsuite : (s.withSuite B).suite = B := rfl
          simp only [hsuite, hc, hc']
          refine ⟨?_, .inr ⟨_, _, rfl, rfl, hagree, hclen.trans hclen'.symm⟩⟩
          simp only [Sender.withSuite, SenderStats.note, ProtectedRecord.len, hclen, hclen']

/-- The same call of `protect` of two senders that differ only in the suite: both raise the same, or both
return frames of genuine records. The senders still differ only in the suite. -/
theorem Sender.protect_withSuite {s : Sender} {B : AeadSuite} (hA : s.suite.impl.Correct)
    (hB : B.impl.Correct) (args : SealArgs) :
    ((s.withSuite B).protect args).2.sender = (s.protect args).2.sender.withSuite B ∧
      ((∃ e, (s.protect args).1 = .error e ∧ ((s.withSuite B).protect args).1 = .error e) ∨
        ∃ w w', (s.protect args).1 = .ok w ∧ ((s.withSuite B).protect args).1 = .ok w' ∧
          Genuine s.suite B w w') := by
  obtain ⟨hsender, hcases⟩ := Sender.seal_withSuite hA hB args
  simp only [Sender.protect_snd, Sender.protect_fst]
  refine ⟨hsender, ?_⟩
  rcases hcases with ⟨e, he, he'⟩ | ⟨r, r', hr, hr', hagree, hlen⟩
  · exact .inl ⟨e, by rw [he], by rw [he']⟩
  -- Each record is genuine in its own run.
  · have ho := s.seal_outcome args
    have ho' := (s.withSuite B).seal_outcome args
    obtain ⟨w, hw⟩ := ho.exists_toBytes hr
    obtain ⟨w', hw'⟩ := ho'.exists_toBytes hr'
    obtain ⟨payload, hpayload, hfields, hparsed, hopens⟩ := ho.opens hA.seals hr hw
    obtain ⟨payload', hpayload', hfields', hparsed', hopens'⟩ := ho'.opens hB.seals hr' hw'
    obtain rfl := Option.some.inj (hpayload.symm.trans hpayload')
    refine .inr ⟨w, w', by simp only [hr, hw], by simp only [hr', hw'], r, r', payload, hagree, ?_, ?_, hlen,
      hparsed, hparsed', hopens, hopens'⟩
    · rw [hfields]
      rfl
    · rw [hfields']
      rfl

/-! ## Edits -/

/-- An edit of a frame. -/
inductive Edit
  /-- Only the first bytes are left. -/
  | truncate (n : ℕ)
  /-- Bytes are added at the end. -/
  | extend (suffix : Bytes)
  /-- Header fields are rewritten. -/
  | header (changes : HeaderChanges)
  /-- The bytes after the header are changed in any way, in which their number says what number is
  left. -/
  | body (change : Bytes → Bytes)
    (uniform : ∀ b b' : Bytes, b.length = b'.length → (change b).length = (change b').length)

/-- The edited frame. Only header fields that cannot be encoded raise. -/
def Edit.apply (wire : Bytes) : Edit → Except Error Bytes
  | truncate n => .ok (wire.take n)
  | extend suffix => .ok (wire ++ suffix)
  | header changes => tamperHeader wire changes
  | body change _ => .ok (wire.take headerLen ++ change (wire.drop headerLen))

/-- The suite that an edit writes into the header, if it does. -/
def Edit.suite_id : Edit → Option ℤ
  | header changes => changes.suite_id
  | _ => none

/-- Twin headers encode, or raise the same. -/
theorem Labelled.toBytes_cases {A B : AeadSuite} {h h' : RecordHeader}
    (hlabelled : Labelled A.suite_id B.suite_id h.toHeaderFields h'.toHeaderFields)
    (hagree : h.AgreeButSuite h'.toHeaderFields) :
    (∃ e, h.toBytes = .error e ∧ h'.toBytes = .error e) ∨
      ∃ raw raw', h.toBytes = .ok raw ∧ h'.toBytes = .ok raw' := by
  rcases hlabelled with ⟨hid, hid'⟩ | ⟨hsame, -⟩
  -- Each names the suite of its own run, which is a byte.
  · rcases RecordHeader.toBytes_of_agree hagree (hid ▸ A.cls.suite_id_byte)
      (hid' ▸ B.cls.suite_id_byte) with ⟨he, he'⟩ | ⟨_, _, _, _, -, -, -, hraw, hraw'⟩
    · exact .inl ⟨_, he, he'⟩
    · exact .inr ⟨_, _, hraw, hraw'⟩
  -- Both name the same other suite, which need not be a byte, but then the headers are equal.
  · obtain rfl : h = h' := by
      refine RecordHeader.ext_fields (Eq.symm ?_)
      rw [hagree, ← hsame]
    cases hb : h.toBytes with
    | error e => exact .inl ⟨e, rfl, rfl⟩
    | ok raw => exact .inr ⟨raw, raw, rfl, rfl⟩

namespace GenuineRecords

variable {A B : AeadSuite} {r r' : ProtectedRecord} {w w' payload raw raw' : Bytes}

/-- The header names the suite of its own run. -/
theorem labelled (h : GenuineRecords A B r r' w w' payload) :
    Labelled A.suite_id B.suite_id r.header.toHeaderFields r'.header.toHeaderFields :=
  .inl ⟨h.suite_id, h.suite_id'⟩

/-- The headers of genuine records, in front of bodies of one length, are twin frames. -/
theorem twinFrames (h : GenuineRecords A B r r' w w' payload) (hraw : r.header.toBytes = .ok raw)
    (hraw' : r'.header.toBytes = .ok raw') {b b' : Bytes} (hlen : b.length = b'.length) :
    TwinFrames A.suite_id B.suite_id (raw ++ b) (raw' ++ b') :=
  .inr ⟨⟨r.header, b⟩, ⟨r'.header, b'⟩, ⟨h.agree, h.labelled, hlen⟩,
    ProtectedRecord.toBytes_eq_ok.mpr ⟨raw, hraw, rfl⟩,
    ProtectedRecord.toBytes_eq_ok.mpr ⟨raw', hraw', rfl⟩⟩

/-- The same change of the header fields of genuine records gives headers that agree but for the suite,
or raises the same. -/
theorem evolve_cases (h : GenuineRecords A B r r' w w' payload) {changes : HeaderChanges}
    (hid : ∀ id ∈ changes.suite_id, id ≠ A.suite_id ∧ id ≠ B.suite_id) :
    (∃ e, r.header.evolve changes = .error e ∧ r'.header.evolve changes = .error e) ∨
      ∃ h h', r.header.evolve changes = .ok h ∧ r'.header.evolve changes = .ok h' ∧
        h.AgreeButSuite h'.toHeaderFields ∧
          Labelled A.suite_id B.suite_id h.toHeaderFields h'.toHeaderFields := by
  have hreplace : r'.header.replace changes =
      { r.header.replace changes with
        suite_id := changes.suite_id.getD r'.header.suite_id } := by
    rw [h.agree]
    rfl
  unfold RecordHeader.evolve
  rw [hreplace]
  rcases RecordHeader.new_withSuite (r.header.replace changes)
    (changes.suite_id.getD r'.header.suite_id) with ⟨e, he, he'⟩ | ⟨h₁, h₁', hh, hh'⟩
  · exact .inl ⟨e, he, he'⟩
  · have hf := RecordHeader.fields_of_new hh
    have hf' := RecordHeader.fields_of_new hh'
    refine .inr ⟨h₁, h₁', hh, hh', by rw [HeaderFields.AgreeButSuite, hf', hf], ?_⟩
    rw [Labelled, hf', hf]
    dsimp only [HeaderFields.replace]
    cases hc : changes.suite_id with
    | none => exact .inl ⟨h.suite_id, h.suite_id'⟩
    | some id => exact .inr ⟨rfl, hid id hc⟩

end GenuineRecords

/-- The same edit of the frames of genuine records gives twin frames, or raises the same. -/
theorem Genuine.apply_cases {A B : AeadSuite} {w w' : Bytes} (h : Genuine A B w w') {edit : Edit}
    (hid : ∀ id ∈ edit.suite_id, id ≠ A.suite_id ∧ id ≠ B.suite_id) :
    (∃ e, edit.apply w = .error e ∧ edit.apply w' = .error e) ∨
      ∃ u u', edit.apply w = .ok u ∧ edit.apply w' = .ok u' ∧
        TwinFrames A.suite_id B.suite_id u u' := by
  obtain ⟨r, r', payload, h⟩ := h
  obtain ⟨hw, hversion, -, -⟩ := parseRecord_eq_ok.mp h.parsed
  obtain ⟨hw', hversion', -, -⟩ := parseRecord_eq_ok.mp h.parsed'
  obtain ⟨raw, hraw, rfl⟩ := ProtectedRecord.toBytes_eq_ok.mp hw
  obtain ⟨raw', hraw', rfl⟩ := ProtectedRecord.toBytes_eq_ok.mp hw'
  have hlen := RecordHeader.length_toBytes hraw
  have hlen' := RecordHeader.length_toBytes hraw'
  cases edit with
  -- What is left is too short for a record, or both headers are whole.
  | truncate n =>
    refine .inr ⟨_, _, rfl, rfl, ?_⟩
    by_cases hn : n < minRecordLen
    · have hshort (v : Bytes) : (v.take n).length < minRecordLen := (List.length_take_le n v).trans_lt hn
      exact .inl ⟨hshort _, hshort _⟩
    · rw [minRecordLen_eq] at hn
      rw [headerLen_eq] at hlen hlen'
      rw [List.take_append, List.take_append, List.take_of_length_le (by omega),
        List.take_of_length_le (l := raw') (by omega), hlen, hlen']
      refine h.twinFrames hraw hraw' ?_
      rw [List.length_take, List.length_take, h.length]
  | extend suffix =>
    refine .inr ⟨_, _, rfl, rfl, ?_⟩
    rw [List.append_assoc, List.append_assoc]
    refine h.twinFrames hraw hraw' ?_
    rw [List.length_append, List.length_append, h.length]
  -- The same fields are replaced in headers that agree but for the suite.
  | header changes =>
    simp only [Edit.apply]
    rw [tamperHeader_of_toBytes changes hw hversion, tamperHeader_of_toBytes changes hw' hversion']
    rcases h.evolve_cases hid with ⟨e, he, he'⟩ | ⟨h₁, h₁', hh, hh', hagree, hlabelled⟩
    · simp only [he, he']
      exact .inl ⟨e, rfl, rfl⟩
    · simp only [hh, hh', ProtectedRecord.toBytes]
      rcases hlabelled.toBytes_cases hagree with ⟨e, he, he'⟩ | ⟨raw₁, raw₁', hraw₁, hraw₁'⟩
      · simp only [he, he']
        exact .inl ⟨e, rfl, rfl⟩
      · simp only [hraw₁, hraw₁']
        exact .inr ⟨_, _, rfl, rfl, .inr ⟨⟨h₁, r.ciphertext_and_tag⟩, ⟨h₁', r'.ciphertext_and_tag⟩,
          ⟨hagree, hlabelled, h.length⟩, ProtectedRecord.toBytes_eq_ok.mpr ⟨_, hraw₁, rfl⟩,
          ProtectedRecord.toBytes_eq_ok.mpr ⟨_, hraw₁', rfl⟩⟩⟩
  | body change uniform =>
    refine .inr ⟨_, _, rfl, rfl, ?_⟩
    rw [List.take_left' hlen, List.drop_left' hlen, List.take_left' hlen', List.drop_left' hlen']
    exact h.twinFrames hraw hraw' (uniform _ _ h.length)

/-! ## Deliveries -/

/-- Frames of twin records parse both or neither. -/
theorem Twins.parseRecord_iff {id id' : ℤ} {r r' : ProtectedRecord} {w w' : Bytes}
    (h : Twins id id' r r') (hw : r.toBytes = .ok w) (hw' : r'.toBytes = .ok w') :
    parseRecord w = .ok r ↔ parseRecord w' = .ok r' := by
  rw [parseRecord_eq_ok, parseRecord_eq_ok, h.agree, h.length]
  exact and_congr_left' (iff_of_true hw hw')

/-- Twin frames parse to twin records, or are both malformed. -/
theorem TwinFrames.parse_cases {id id' : ℤ} {w w' : Bytes} (h : TwinFrames id id' w w') :
    (∃ message message', parseRecord w = .error (.malformedRecordError message) ∧
      parseRecord w' = .error (.malformedRecordError message')) ∨
      ∃ r r', Twins id id' r r' ∧ parseRecord w = .ok r ∧ parseRecord w' = .ok r' := by
  have hmin {wire : Bytes} {r : ProtectedRecord} (hp : parseRecord wire = .ok r) :
      ¬wire.length < minRecordLen := not_lt.mpr (exists_parseRecord_iff.mp ⟨r, hp⟩).1
  rcases parseRecord_cases w with ⟨r, hp⟩ | ⟨message, hm⟩
  · rcases h with ⟨hshort, -⟩ | ⟨r₁, r₁', htwins, hw, hw'⟩
    · exact absurd hshort (hmin hp)
    · obtain rfl := ProtectedRecord.toBytes_injective hw (parseRecord_eq_ok.mp hp).1
      exact .inr ⟨_, r₁', htwins, hp, (htwins.parseRecord_iff hw hw').mp hp⟩
  · rcases parseRecord_cases w' with ⟨r', hp'⟩ | ⟨message', hm'⟩
    · rcases h with ⟨-, hshort⟩ | ⟨r₁, r₁', htwins, hw, hw'⟩
      · exact absurd hshort (hmin hp')
      · obtain rfl := ProtectedRecord.toBytes_injective hw' (parseRecord_eq_ok.mp hp').1
        rw [(htwins.parseRecord_iff hw hw').mpr hp'] at hm
        cases hm
    · exact .inl ⟨message, message', hm, hm'⟩

/-- Two verdicts say the same, with headers that agree but for the suite. -/
structure Verdict.AgreeButSuite (v v' : Verdict) : Prop where
  status : v.status = v'.status
  reason : v.reason = v'.reason
  plaintext : v.plaintext = v'.plaintext
  header : Option.Rel (fun h h' : RecordHeader => h.AgreeButSuite h'.toHeaderFields) v.header
    v'.header

/-- A receiver under another suite. -/
def Receiver.withSuite (r : Receiver) (B : AeadSuite) : Receiver := { r with suite := B }

namespace Receiver

variable {r : Receiver} {B : AeadSuite}

/-- Steps 2 to 4 refuse twin headers for the same reason, or let both through. -/
theorem refusal_withSuite {record record' : ProtectedRecord}
    (h : Twins r.suite.suite_id B.suite_id record record') :
    (∃ reason detail detail', r.refusal record.header = some (reason, detail) ∧
      (r.withSuite B).refusal record'.header = some (reason, detail')) ∨
      r.refusal record.header = none ∧ (r.withSuite B).refusal record'.header = none := by
  rcases h.labelled with ⟨hid, hid'⟩ | ⟨hsame, hne, hne'⟩
  -- Both pass the check of the suite, and the others see the same.
  · have heq : (r.withSuite B).refusal record'.header = r.refusal record.header := by
      have hown : ¬record'.header.suite_id ≠ (r.withSuite B).suite.suite_id := not_not.mpr hid'
      rw [refusal, if_neg hown, refusal, if_neg (not_not.mpr hid), h.agree.place.1, h.agree]
      rfl
    rw [heq]
    cases r.refusal record.header with
    | none => exact .inr ⟨rfl, rfl⟩
    | some refusal => exact .inl ⟨_, _, _, rfl, rfl⟩
  -- Neither passes it.
  · have hother : record'.header.suite_id ≠ (r.withSuite B).suite.suite_id := hsame ▸ hne'
    rw [refusal, if_pos hne, refusal, if_pos hother]
    exact .inl ⟨_, _, _, rfl, rfl⟩

/-- Two receivers that differ only in the suite answer twin frames alike, if their records open to the same
payload or do not authenticate. The receivers still differ only in the suite. -/
theorem receive_withSuite {u u' : Bytes} (hW : 0 ≤ r.replay_guard.window_size)
    (ht : TwinFrames r.suite.suite_id B.suite_id u u')
    (hopen : ∀ record record', parseRecord u = .ok record → parseRecord u' = .ok record' →
      (∃ p, r.suite.openRecord record = .ok p ∧ B.openRecord record' = .ok p) ∨
        (∃ message, r.suite.openRecord record = .error (.authenticationFailure message)) ∧
          ∃ message, B.openRecord record' = .error (.authenticationFailure message)) :
    ((r.withSuite B).receive u').receiver = (r.receive u).receiver.withSuite B ∧
      ∃ v v', (r.receive u).result = .ok v ∧ ((r.withSuite B).receive u').result = .ok v' ∧
        v.AgreeButSuite v' := by
  rcases ht.parse_cases with ⟨m, m', hm, hm'⟩ | ⟨record, record', htwins, hp, hp'⟩
  · rw [← (Outcome.malformed hm : r.Outcome u _).eq_receive,
      ← (Outcome.malformed hm' : (r.withSuite B).Outcome u' _).eq_receive]
    exact ⟨rfl, _, _, rfl, rfl, rfl, rfl, rfl, .none⟩
  · rcases refusal_withSuite htwins with ⟨reason, detail, detail', hr, hr'⟩ | ⟨hr, hr'⟩
    · rw [← (Outcome.refused hp hr).eq_receive, ← (Outcome.refused hp' hr').eq_receive]
      exact ⟨rfl, _, _, rfl, rfl, rfl, rfl, rfl, .some htwins.agree⟩
    · have hreaches := reaches_of_passed hp hr
      have hreaches' := reaches_of_passed hp' hr'
      have hB : B.openRecord record' = _ := hreaches'.openRecord_eq
      have hcases := hopen record record' hp hp'
      rw [hreaches.openRecord_eq, hB] at hcases
      rcases hcases with ⟨p, ho, ho'⟩ | ⟨⟨m, ho⟩, m', ho'⟩
      · obtain ⟨hkey, hseq⟩ := htwins.agree.place
        have hcommit : (r.withSuite B).replay_guard.commit record'.header.streamKey
            record'.header.seq = r.replay_guard.commit record.header.streamKey
              record.header.seq := by
          rw [hkey, hseq]
          rfl
        have hcommitted : (r.withSuite B).committed record'.header p =
            (r.committed record.header p).withSuite B := by
          rw [committed, hcommit]
          rfl
        cases hc : (r.replay_guard.commit record.header.streamKey record.header.seq).1 with
        | error e => exact absurd hc (ReplayGuard.commit_ne_error hW _ _ _)
        | ok changed =>
          rw [← (Outcome.accepted hreaches ho hc).eq_receive,
            ← (Outcome.accepted hreaches' ho' (hcommit ▸ hc)).eq_receive]
          exact ⟨hcommitted, _, _, rfl, rfl, rfl, rfl, rfl, .some htwins.agree⟩
      · rw [← (Outcome.authFailed hreaches ho).eq_receive,
          ← (Outcome.authFailed hreaches' ho').eq_receive]
        exact ⟨rfl, _, _, rfl, rfl, rfl, rfl, rfl, .some htwins.agree⟩

end Receiver

/-! ## Scripts -/

/-- A channel in use, with the frames that its sender has emitted so far. -/
structure Exchange where
  channel : Channel
  emitted : List Bytes := []

/-- A step of a script: a send, a delivery of the `i`-th emitted frame, or a delivery of it after an
edit. -/
inductive ScriptOp
  | send (args : SealArgs)
  | deliver (i : ℕ)
  | deliverEdited (i : ℕ) (edit : Edit)

/-- What is seen of a step. -/
inductive Seen
  | sent (result : Except Error Bytes)
  | delivered (result : Except Error Verdict)
  /-- The edit raised, and nothing was delivered. -/
  | notEdited (e : Error)
  /-- No such frame was emitted. -/
  | nothing

namespace Exchange

/-- A frame is delivered. -/
def hand (x : Exchange) (wire : Bytes) : Seen × Exchange :=
  (.delivered (x.channel.deliver wire).1, { x with channel := (x.channel.deliver wire).2 })

/-- One step of a script. -/
def step (x : Exchange) : ScriptOp → Seen × Exchange
  | .send args =>
    (.sent (x.channel.send args).1,
      { channel := (x.channel.send args).2
        emitted := x.emitted ++ (x.channel.send args).1.toOption.toList })
  | .deliver i =>
    match x.emitted[i]? with
    | none => (.nothing, x)
    | some wire => x.hand wire
  | .deliverEdited i edit =>
    match x.emitted[i]? with
    | none => (.nothing, x)
    | some wire =>
      match edit.apply wire with
      | .error e => (.notEdited e, x)
      | .ok edited => x.hand edited

/-- An edited frame does not authenticate. -/
def EditFails (x : Exchange) : ScriptOp → Prop
  | .deliverEdited i edit => ∀ wire edited, x.emitted[i]? = some wire →
      edit.apply wire = .ok edited → ¬x.channel.receiver.suite.Authenticates edited
  | _ => True

end Exchange

/-- An edit of a step writes neither of two suites into a header. -/
def ScriptOp.Neutral (id id' : ℤ) : ScriptOp → Prop
  | deliverEdited _ edit => ∀ i ∈ edit.suite_id, i ≠ id ∧ i ≠ id'
  | _ => True

/-- Two runs agree on a step: sends raise the same, or return frames of one length whose headers are equal
except for byte 1, and deliveries return verdicts that say the same. -/
inductive Seen.Agree : Seen → Seen → Prop
  | raised (e : Error) : Agree (.sent (.error e)) (.sent (.error e))
  | frames {w w' : Bytes} (length : w.length = w'.length)
    (header : ∀ k < headerLen, k ≠ 1 → w[k]? = w'[k]?) : Agree (.sent (.ok w)) (.sent (.ok w'))
  | verdicts {v v' : Verdict} (verdict : v.AgreeButSuite v') :
    Agree (.delivered (.ok v)) (.delivered (.ok v'))
  | notEdited (e : Error) : Agree (.notEdited e) (.notEdited e)
  | nothing : Agree .nothing .nothing

/-- Frames of genuine records agree as sends must. -/
theorem Genuine.agree {A B : AeadSuite} {w w' : Bytes} (h : Genuine A B w w') :
    w.length = w'.length ∧ ∀ k < headerLen, k ≠ 1 → w[k]? = w'[k]? := by
  obtain ⟨r, r', payload, h⟩ := h
  obtain ⟨raw, hraw, rfl⟩ := ProtectedRecord.toBytes_eq_ok.mp (parseRecord_eq_ok.mp h.parsed).1
  obtain ⟨raw', hraw', rfl⟩ := ProtectedRecord.toBytes_eq_ok.mp (parseRecord_eq_ok.mp h.parsed').1
  have hlen := RecordHeader.length_toBytes hraw
  have hlen' := RecordHeader.length_toBytes hraw'
  refine ⟨by rw [List.length_append, List.length_append, hlen, hlen', h.length], ?_⟩
  rcases RecordHeader.toBytes_of_agree h.agree (h.suite_id ▸ A.cls.suite_id_byte)
    (h.suite_id' ▸ B.cls.suite_id_byte) with
    ⟨he, -⟩ | ⟨version, suite, suite', rest, hv, hs, hs', hb, hb'⟩
  · rw [hraw] at he
    cases he
  · obtain rfl := Except.ok.inj (hraw.symm.trans hb)
    obtain rfl := Except.ok.inj (hraw'.symm.trans hb')
    intro k hk hne
    -- Before byte 1 the two share the version, and after it the rest.
    have hsame : (version ++ (suite ++ rest))[k]? = (version ++ (suite' ++ rest))[k]? := by
      by_cases h0 : k < version.length
      · rw [List.getElem?_append_left h0, List.getElem?_append_left h0]
      · rw [List.getElem?_append_right (not_lt.mp h0), List.getElem?_append_right (not_lt.mp h0),
          List.getElem?_append_right (by omega), List.getElem?_append_right (by omega), hs, hs']
    calc (version ++ (suite ++ rest) ++ r.ciphertext_and_tag)[k]?
      _ = (version ++ (suite ++ rest))[k]? := List.getElem?_append_left (hlen.symm ▸ hk)
      _ = (version ++ (suite' ++ rest))[k]? := hsame
      _ = (version ++ (suite' ++ rest) ++ r'.ciphertext_and_tag)[k]? :=
        (List.getElem?_append_left (hlen'.symm ▸ hk)).symm

/-- Frames of genuine records are twin frames. -/
theorem Genuine.twinFrames {A B : AeadSuite} {w w' : Bytes} (h : Genuine A B w w') :
    TwinFrames A.suite_id B.suite_id w w' := by
  obtain ⟨r, r', payload, h⟩ := h
  exact .inr ⟨r, r', ⟨h.agree, h.labelled, h.length⟩, (parseRecord_eq_ok.mp h.parsed).1,
    (parseRecord_eq_ok.mp h.parsed').1⟩

/-- Frames of genuine records parse to records that open to the same payload. -/
theorem Genuine.opens_of_parse {A B : AeadSuite} {w w' : Bytes} (h : Genuine A B w w')
    {record record' : ProtectedRecord} (hp : parseRecord w = .ok record)
    (hp' : parseRecord w' = .ok record') :
    ∃ p, A.openRecord record = .ok p ∧ B.openRecord record' = .ok p := by
  obtain ⟨r, r', payload, h⟩ := h
  obtain rfl := Except.ok.inj (h.parsed.symm.trans hp)
  obtain rfl := Except.ok.inj (h.parsed'.symm.trans hp')
  exact ⟨payload, h.opens, h.opens'⟩

/-- Two exchanges that differ only in the suite: their senders and receivers do, and the frames emitted are
those of genuine records. -/
structure Exchange.Alike (A B : AeadSuite) (x x' : Exchange) : Prop where
  sender : x'.channel.sender = x.channel.sender.withSuite B
  receiver : x'.channel.receiver = x.channel.receiver.withSuite B
  sender_suite : x.channel.sender.suite = A
  receiver_suite : x.channel.receiver.suite = A
  window : 0 ≤ x.channel.receiver.replay_guard.window_size
  emitted : List.Forall₂ (Genuine A B) x.emitted x'.emitted

/-- Lists that are related element by element have related elements at every position, or both none. -/
theorem getElem?_cases {α β : Type*} {R : α → β → Prop} {l : List α} {l' : List β}
    (h : List.Forall₂ R l l') (k : ℕ) :
    l[k]? = none ∧ l'[k]? = none ∨ ∃ a b, l[k]? = some a ∧ l'[k]? = some b ∧ R a b := by
  induction h generalizing k with
  | nil => exact .inl ⟨rfl, rfl⟩
  | cons hR _ ih =>
    cases k with
    | zero => exact .inr ⟨_, _, rfl, rfl, hR⟩
    | succ k => exact ih k

/-- A record that parses opens, or does not authenticate, over a documented library. -/
theorem AeadSuite.openRecord_cases {suite : AeadSuite} (hdoc : suite.impl.DecryptDocumented)
    {wire : Bytes} {record : ProtectedRecord} (hp : parseRecord wire = .ok record) :
    (∃ p, suite.openRecord record = .ok p) ∨
      ∃ message, suite.openRecord record = .error (.authenticationFailure message) := by
  obtain ⟨haad, -, hnonce, -⟩ := slices_of_parseRecord hp
  simp only [openRecord, hnonce, RecordHeader.aad, haad]
  exact open_cases hdoc (length_deriveNonce hnonce)

namespace Exchange.Alike

variable {A B : AeadSuite} {x x' : Exchange}

/-- Alike exchanges answer twin frames alike, if their records open to the same payload or do not
authenticate. -/
theorem hand (h : Alike A B x x') {u u' : Bytes} (ht : TwinFrames A.suite_id B.suite_id u u')
    (hopen : ∀ record record', parseRecord u = .ok record → parseRecord u' = .ok record' →
      (∃ p, A.openRecord record = .ok p ∧ B.openRecord record' = .ok p) ∨
        (∃ message, A.openRecord record = .error (.authenticationFailure message)) ∧
          ∃ message, B.openRecord record' = .error (.authenticationFailure message)) :
    (x.hand u).1.Agree (x'.hand u').1 ∧ Alike A B (x.hand u).2 (x'.hand u').2 := by
  obtain ⟨hs, hr, rfl, hrs, hW, he⟩ := h
  rw [← hrs] at ht hopen
  obtain ⟨hreceiver, v, v', hv, hv', hagree⟩ := Receiver.receive_withSuite hW ht hopen
  have hconfig := (x.channel.receiver.receive_outcome u).config_eq
  have hsuite := congrArg ReceiverConfig.suite hconfig
  have hwindow := congrArg ReceiverConfig.replay_window hconfig
  refine ⟨?_, hs, ?_, rfl, hsuite.trans hrs, hW.trans_eq hwindow.symm, he⟩
  · simp only [Exchange.hand, Channel.deliver, hr, hv, hv']
    exact .verdicts hagree
  · simp only [Exchange.hand, Channel.deliver, hr]
    exact hreceiver

/-- Alike exchanges agree on the next step, and stay alike. -/
theorem step (hA : A.impl.Correct) (hB : B.impl.Correct) (h : Alike A B x x') {op : ScriptOp}
    (hid : op.Neutral A.suite_id B.suite_id) (hno : x.EditFails op) (hno' : x'.EditFails op) :
    (x.step op).1.Agree (x'.step op).1 ∧ Alike A B (x.step op).2 (x'.step op).2 := by
  cases op with
  | send args =>
    obtain ⟨hs, hr, rfl, hrs, hW, he⟩ := h
    obtain ⟨hsender, hcases⟩ := Sender.protect_withSuite hA hB args
    have hsuite : (x.channel.sender.protect args).2.sender.suite = x.channel.sender.suite := by
      rw [Sender.protect_snd]
      exact (x.channel.sender.seal_outcome args).config.1
    simp only [Exchange.step, Channel.send, hs]
    rcases hcases with ⟨e, hres, hres'⟩ | ⟨w, w', hres, hres', hgenuine⟩
    · rw [hres, hres']
      exact ⟨.raised e, hsender, hr, hsuite, hrs, hW, by simpa [Except.toOption] using he⟩
    · rw [hres, hres']
      exact ⟨.frames hgenuine.agree.1 hgenuine.agree.2, hsender, hr, hsuite, hrs, hW,
        List.rel_append he (.cons hgenuine .nil)⟩
  | deliver i =>
    simp only [Exchange.step]
    rcases getElem?_cases h.emitted i with ⟨hw, hw'⟩ | ⟨w, w', hw, hw', hgenuine⟩
    · rw [hw, hw']
      exact ⟨.nothing, h⟩
    · rw [hw, hw']
      exact h.hand hgenuine.twinFrames fun record record' hp hp' =>
        .inl (hgenuine.opens_of_parse hp hp')
  | deliverEdited i edit =>
    simp only [Exchange.step]
    rcases getElem?_cases h.emitted i with ⟨hw, hw'⟩ | ⟨w, w', hw, hw', hgenuine⟩
    · rw [hw, hw']
      exact ⟨.nothing, h⟩
    · rw [hw, hw']
      rcases hgenuine.apply_cases hid with ⟨e, he, he'⟩ | ⟨u, u', hu, hu', htwins⟩
      · simp only [he, he']
        exact ⟨.notEdited e, h⟩
      · simp only [hu, hu']
        -- Neither edited frame authenticates, so both are rejected for the same reason.
        have hfails := hno w u hw hu
        have hfails' := hno' w' u' hw' hu'
        rw [h.receiver_suite] at hfails
        rw [h.receiver] at hfails'
        refine h.hand htwins fun record record' hp hp' => .inr ⟨?_, ?_⟩
        · exact (AeadSuite.openRecord_cases hA.documented hp).resolve_left
            fun ⟨p, ho⟩ => hfails ⟨record, p, hp, ho⟩
        · exact (AeadSuite.openRecord_cases hB.documented hp').resolve_left
            fun ⟨p, ho⟩ => hfails' ⟨record', p, hp', ho⟩

end Exchange.Alike

/-- A sender of the same arguments under another suite. -/
theorem Sender.new_withSuite {a : SenderArgs} {s : Sender} (B : AeadSuite) (hs : Sender.new a = .ok s) :
    Sender.new { a with suite := B } = .ok (s.withSuite B) := by
  unfold Sender.new at hs ⊢
  dsimp only
  split_ifs at hs ⊢ with hlen
  cases hm : NonceManager.new a.nonce_prefix a.start_seq a.record_limit with
  | error e =>
    rw [hm] at hs
    cases hs
  | ok nonces =>
    rw [hm] at hs
    cases hs
    rfl

/-- Configuration equivalence. Two channels that were built alike but for the configuration and the key run
the same script. Where the edits write neither suite into a header and no edited frame authenticates, in
either run, the two agree at every step: sends raise the same or return frames of one length that are equal
in their headers but for byte 1, deliveries return verdicts with the same status, reason, and plaintext and
with headers equal but for the suite, and the replay state, the counters of the sender, and all
statistics are equal. -/
theorem configuration_equivalence {suites : List SuiteClass} {a : ChannelArgs} {name : String}
    {key : Bytes} {ch ch' : Channel} (hch : createChannel suites a = .ok ch)
    (hch' : createChannel suites { a with suite_name := name, key := key } = .ok ch')
    (hW : 0 ≤ a.policy.replay_window) (hA : ch.sender.suite.impl.Correct)
    (hB : ch'.sender.suite.impl.Correct) {script : List ScriptOp}
    (hid : ∀ op ∈ script, op.Neutral ch.sender.suite.suite_id ch'.sender.suite.suite_id)
    (hno : Mealy.Along Exchange.step Exchange.EditFails ⟨ch, []⟩ script)
    (hno' : Mealy.Along Exchange.step Exchange.EditFails ⟨ch', []⟩ script) :
    List.Forall₂ Seen.Agree (Mealy.outputs Exchange.step ⟨ch, []⟩ script)
        (Mealy.outputs Exchange.step ⟨ch', []⟩ script) ∧
      ∀ k,
        let x := (Mealy.after Exchange.step ⟨ch, []⟩ (script.take k)).channel
        let x' := (Mealy.after Exchange.step ⟨ch', []⟩ (script.take k)).channel
        x.receiver.replay_guard = x'.receiver.replay_guard ∧ x.sender.nonces = x'.sender.nonces ∧
          x.sender.stats = x'.sender.stats ∧ x.receiver.stats = x'.receiver.stats := by
  obtain ⟨suite, -, hs, hr⟩ := createChannel_eq_ok hch
  obtain ⟨suite', -, hs', hr'⟩ := createChannel_eq_ok hch'
  have hsender : ch'.sender = ch.sender.withSuite suite' :=
    Except.ok.inj (hs'.symm.trans (Sender.new_withSuite suite' hs))
  have hsuite : ch.sender.suite = suite := (Sender.new_eq_ok hs).1
  have hsuite' : ch'.sender.suite = suite' := by
    rw [hsender]
    rfl
  rw [hsuite'] at hB hid
  -- The two new channels differ only in the suite, and every step keeps them so.
  have h : Exchange.Alike ch.sender.suite suite' ⟨ch, []⟩ ⟨ch', []⟩ := by
    refine ⟨hsender, ?_, rfl, ?_, ?_, .nil⟩
    · rw [hr, hr']
      rfl
    · rw [hr, hsuite]
      rfl
    · rw [hr]
      exact hW
  have hP : Mealy.Along Exchange.step (fun x op =>
      op.Neutral ch.sender.suite.suite_id suite'.suite_id ∧ x.EditFails op) ⟨ch, []⟩ script :=
    (Mealy.along_of_forall fun _ op hop => hid op hop).and hno
  have hsim (k : ℕ) : List.Forall₂ Seen.Agree
      (Mealy.outputs Exchange.step ⟨ch, []⟩ (script.take k))
        (Mealy.outputs Exchange.step ⟨ch', []⟩ (script.take k)) ∧
      Exchange.Alike ch.sender.suite suite' (Mealy.after Exchange.step ⟨ch, []⟩ (script.take k))
        (Mealy.after Exchange.step ⟨ch', []⟩ (script.take k)) :=
    Mealy.simulation (fun _ _ _ hR hop hop' => hR.step hA hB hop.1 hop.2 hop') h (hP.take k)
      (hno'.take k)
  refine ⟨?_, fun k => ?_⟩
  -- The run up to the length of the script is the whole of it.
  · have hall := (hsim script.length).1
    rwa [List.take_length] at hall
  · obtain ⟨hsame, hsame', -⟩ := (hsim k).2
    intro x x'
    rw [hsame, hsame']
    exact ⟨rfl, rfl, rfl, rfl⟩

/-- The checksum backend is correct. -/
theorem Backend.checksum_correct : checksum.Correct where
  seals := checksum_seals
  documented := checksum_documented
  encrypts _ _ _ _ _ := ⟨_, rfl⟩

/-- The checksum backend under two identifiers. -/
def checksumSuites : List SuiteClass :=
  [⟨"one", 1, fun _ => .checksum, one_byte⟩, ⟨"two", 2, fun _ => .checksum, two_byte⟩]

/-- The arguments of a channel over the first of them. -/
def checksumChannelArgs : ChannelArgs :=
  { suite_name := "one", key := List.replicate keyLen 0
    session_id := List.replicate sessionIdLen 7, nonce_prefix := [0, 0, 0, 1] }

/-- A send, two deliveries of its frame, and one of its first ten bytes. -/
def checksumScript : List ScriptOp :=
  [.send { payload := some [1, 2, 3] }, .deliver 0, .deliver 0, .deliverEdited 0 (.truncate 10)]

/-- The first ten bytes of a frame do not authenticate, so the two channels agree on the script. -/
theorem configuration_equivalence_of_truncation :
    ∃ ch ch', createChannel checksumSuites checksumChannelArgs = .ok ch ∧
      createChannel checksumSuites
        { checksumChannelArgs with suite_name := "two", key := List.replicate keyLen 1 } = .ok ch' ∧
      List.Forall₂ Seen.Agree (Mealy.outputs Exchange.step ⟨ch, []⟩ checksumScript)
        (Mealy.outputs Exchange.step ⟨ch', []⟩ checksumScript) := by
  have hshort (x : Exchange) : x.EditFails (.deliverEdited 0 (.truncate 10)) := by
    rintro wire edited - he ⟨record, _, hp, -⟩
    obtain ⟨hmin, -⟩ := exists_parseRecord_iff.mp ⟨record, hp⟩
    have hle := List.length_take_le 10 wire
    rw [Except.ok.inj he] at hle
    rw [minRecordLen_eq] at hmin
    omega
  have halong (ch : Channel) :
      Mealy.Along Exchange.step Exchange.EditFails ⟨ch, []⟩ checksumScript :=
    ⟨trivial, trivial, trivial, hshort _, trivial⟩
  obtain ⟨ch, hch, hA⟩ : ∃ ch, createChannel checksumSuites checksumChannelArgs = .ok ch ∧
      ch.sender.suite.impl.Correct := ⟨_, rfl, Backend.checksum_correct⟩
  obtain ⟨ch', hch', hB⟩ : ∃ ch', createChannel checksumSuites
      { checksumChannelArgs with suite_name := "two", key := List.replicate keyLen 1 } = .ok ch' ∧
        ch'.sender.suite.impl.Correct := ⟨_, rfl, Backend.checksum_correct⟩
  refine ⟨ch, ch', hch, hch', (configuration_equivalence hch hch' (by decide) hA hB ?_ (halong ch)
    (halong ch')).1⟩
  intro op hop
  simp only [checksumScript, List.mem_cons, List.not_mem_nil, or_false] at hop
  rcases hop with rfl | rfl | rfl | rfl <;> simp [ScriptOp.Neutral, Edit.suite_id]

end Srp
