import Srp.Actor
import Srp.Truncation
import Srp.Delivery

/-!
# What the other attacks come to

A changed header is refused for the first reason that its new values give, and only a record that none
applies to gets to `suite.open`, under the changed header (`header_attacks_are_classified`). Another tag is
rejected by the library alone (`tag_attacks_are_rejected`), and another body as long as the AEAD is not
forged (`headers_admit_their_own_body`).
-/

namespace Srp

/-! ## Frames with the same header -/

section Head

variable {w w' : Bytes} {record : ProtectedRecord}

/-- A slice of the header is one of its 40 bytes. -/
theorem slice_of_take_eq (h : w'.take 40 = w.take 40) {i j : ℕ} (hj : j ≤ 40) :
    slice w' i j = slice w i j := by
  rw [← slice_take hj, h, slice_take hj]

/-- With the header of a frame, what has its length parses to a record with its header. -/
theorem parseRecord_of_head (hp : parseRecord w = .ok record) (h : w'.take 40 = w.take 40)
    (hlen : w'.length = w.length) : parseRecord w' = .ok ⟨record.header, w'.drop 40⟩ := by
  obtain ⟨record', hp'⟩ := (exists_parseRecord_iff_of_length hp hlen).mpr
    ⟨slice_of_take_eq h (by omega), slice_of_take_eq h (by omega)⟩
  obtain ⟨hraw, -⟩ := split_of_parseRecord hp
  obtain ⟨hraw', hbody'⟩ := split_of_parseRecord hp'
  rw [slice_of_take_eq h (by omega)] at hraw'
  have hheader : record'.header = record.header := RecordHeader.toBytes_injective hraw' hraw
  rw [hp', ← hheader, ← hbody']

/-- What has another length does not parse. -/
theorem not_parse_of_head (hp : parseRecord w = .ok record) (h : w'.take 40 = w.take 40)
    (hlen : w'.length ≠ w.length) : ¬∃ record', parseRecord w' = .ok record' := by
  obtain ⟨-, -, -, hframe⟩ := exists_parseRecord_iff.mp ⟨record, hp⟩
  intro hp'
  obtain ⟨-, -, -, hframe'⟩ := exists_parseRecord_iff.mp hp'
  rw [slice_of_take_eq h (by omega)] at hframe'
  exact hlen (hframe'.trans hframe.symm)

end Head

/-! ## Rejections -/

namespace Receiver

/-- A byte string is rejected for a reason, and leaves the replay state. -/
def RejectsFor (r : Receiver) (wire : Bytes) (reason : RejectReason) : Prop :=
  ∃ v, (r.receive wire).result = .ok v ∧ v.judgement = .rejected reason ∧
    (r.receive wire).receiver.replay_guard = r.replay_guard

/-- The reason that a record is rejected for which does not open: the first one that applies before
authentication, or that. -/
def closedReason (r : Receiver) (header : RecordHeader) : RejectReason :=
  ((r.refusal header).map Prod.fst).getD .AUTH_FAILED

variable {r : Receiver} {wire : Bytes} {record : ProtectedRecord}

/-- What does not parse is malformed, and does not get to `suite.open`. -/
theorem rejectsFor_malformed (r : Receiver) (hno : ¬∃ record, parseRecord wire = .ok record) :
    r.RejectsFor wire .MALFORMED ∧ (r.receive wire).opened = none := by
  cases hp : parseRecord wire with
  | ok record => exact absurd ⟨record, hp⟩ hno
  | error e =>
    obtain ⟨message, rfl⟩ := parseRecord_error hp
    unfold RejectsFor
    rw [← (Outcome.malformed hp).eq_receive]
    exact ⟨⟨_, rfl, rfl, rfl⟩, rfl⟩

/-- What steps 2 to 4 refuse is rejected for their reason, and does not get there either. -/
theorem rejectsFor_refused {reason : RejectReason} {detail : String}
    (hp : parseRecord wire = .ok record) (hr : r.refusal record.header = some (reason, detail)) :
    r.RejectsFor wire reason ∧ (r.receive wire).opened = none := by
  unfold RejectsFor
  rw [← (Outcome.refused hp hr).eq_receive]
  exact ⟨⟨_, rfl, rfl, rfl⟩, rfl⟩

/-- What they let through does. -/
theorem Reaches.opened_eq {nonce aad : Bytes} (h : r.Reaches wire record nonce aad) :
    (r.receive wire).opened = some ⟨nonce, record.ciphertext_and_tag, aad,
      r.suite.open nonce record.ciphertext_and_tag aad⟩ := by
  rw [h.receive_eq]
  cases r.suite.open nonce record.ciphertext_and_tag aad with
  | error e =>
    cases e with
    | authenticationFailure message =>
      dsimp only
      rw [reject_eq]
    | _ => rfl
  | ok plaintext =>
    dsimp only
    rcases r.accept_cases record.header plaintext (some ⟨nonce, record.ciphertext_and_tag, aad,
      .ok plaintext⟩) with ⟨e, -, ha⟩ | ⟨changed, -, ha⟩
    · rw [ha]
    · rw [ha]

/-- What parses and is not opened is rejected. -/
theorem rejectsFor_of_closed (hdoc : r.suite.impl.DecryptDocumented)
    (hp : parseRecord wire = .ok record)
    (hclosed : ∀ call plaintext, (r.receive wire).opened = some call → call.result ≠ .ok plaintext) :
    r.RejectsFor wire (r.closedReason record.header) := by
  unfold closedReason
  rcases hr : r.refusal record.header with - | ⟨reason, detail⟩
  · have hreaches := reaches_of_passed hp hr
    cases ho : r.suite.open (slice wire 24 36) record.ciphertext_and_tag (slice wire 0 40) with
    | ok plaintext => exact absurd ho (hclosed _ plaintext hreaches.opened_eq)
    | error e =>
      obtain ⟨message, rfl⟩ := hreaches.exists_message hdoc ho
      unfold RejectsFor
      rw [← (Outcome.authFailed hreaches ho).eq_receive]
      exact ⟨_, rfl, rfl, rfl⟩
  · exact (rejectsFor_refused hp hr).1

/-- What parses and does not authenticate is rejected. -/
theorem rejectsFor_of_not_authenticates (hdoc : r.suite.impl.DecryptDocumented)
    (hp : parseRecord wire = .ok record) (hno : ¬r.suite.Authenticates wire) :
    r.RejectsFor wire (r.closedReason record.header) := by
  refine rejectsFor_of_closed hdoc hp fun call plaintext hopened hresult => ?_
  obtain ⟨record', _, _, hp', -, -, hopen, -⟩ :=
    (r.receive_outcome wire).parsed_of_opened hopened hresult
  exact hno ⟨record', plaintext, hp', hopen⟩

end Receiver

/-! ## Header attacks -/

section Header

variable {w w' : Bytes} {record : ProtectedRecord} {changes : HeaderChanges}

/-- A frame whose header was changed parses exactly if it still has the supported version and the length of
its body, and then to the record with the changed header. -/
theorem parse_of_tamperHeader (hp : parseRecord w = .ok record) (ht : tamperHeader w changes = .ok w') :
    ∃ header : RecordHeader, header.toHeaderFields = record.header.toHeaderFields.replace changes ∧
      if header.version = protocolVersion ∧ header.payload_len = record.header.payload_len then
        parseRecord w' = .ok ⟨header, record.ciphertext_and_tag⟩
      else ¬∃ record', parseRecord w' = .ok record' := by
  obtain ⟨header, hfields, hbytes⟩ := exists_header_of_tamperHeader hp ht
  obtain ⟨-, -, hlimit, hbody⟩ := parseRecord_eq_ok.mp hp
  refine ⟨header, hfields, ?_⟩
  split_ifs with hsame
  · obtain ⟨hversion, hlen⟩ := hsame
    rw [← hlen] at hlimit hbody
    exact parseRecord_eq_ok.mpr ⟨hbytes, hversion, hlimit, hbody⟩
  · rintro ⟨record', hp'⟩
    obtain ⟨hbytes', hversion', -, hbody'⟩ := parseRecord_eq_ok.mp hp'
    obtain rfl : record' = ⟨header, record.ciphertext_and_tag⟩ :=
      ProtectedRecord.toBytes_injective hbytes' hbytes
    dsimp only at hversion' hbody'
    exact hsame ⟨hversion', by omega⟩

/-- The first reason before authentication that applies to a record whose header was changed, by the history
of the receiver. -/
noncomputable def ReceiverConfig.tamperedRefusal (c : ReceiverConfig) (A : History)
    (header header' : RecordHeader) : Option RejectReason :=
  if header'.version = protocolVersion ∧ header'.payload_len = header.payload_len then c.refusal A header'
  else some .MALFORMED

/-- What a changed header comes to. After every run of a receiver, let any fields of the header of a frame be
changed by `tamper_header`. If the new values are of another version or payload length, of another suite
or session, or of a place that is replayed or stale, then the frame is rejected for the first of these
reasons, does not get to `suite.open`, and leaves the replay state. Otherwise it gets to `suite.open`, with the
nonce that the new values give and with the whole changed header for its associated data. -/
theorem header_attacks_are_classified (c : ReceiverConfig) (ws : List Bytes)
    (hp : parseRecord w = .ok record) (ht : tamperHeader w changes = .ok w') :
    let r := Mealy.after Receiver.step c.new ws
    let A := History.ofRun (Mealy.outputs Receiver.step c.new ws)
    ∃ header : RecordHeader, header.toHeaderFields = record.header.toHeaderFields.replace changes ∧
      match c.tamperedRefusal A record.header header with
      | some reason => r.RejectsFor w' reason ∧ (r.receive w').opened = none
      | none => ∃ nonce, deriveNonce header.nonce_prefix header.seq = .ok nonce ∧
          (r.receive w').opened = some ⟨nonce, w.drop headerLen, w'.take headerLen,
            c.suite.open nonce (w.drop headerLen) (w'.take headerLen)⟩ := by
  intro r A
  obtain ⟨header, hfields, hparse⟩ := parse_of_tamperHeader hp ht
  refine ⟨header, hfields, ?_⟩
  have hrep : r.replay_guard.Represents A := Receiver.represents_ofRun c ws
  have hconfig : r.config = c := Receiver.after_config c.new ws
  clear_value r A
  have hrefusal := Receiver.refusal_eq hrep header
  rw [hconfig] at hrefusal
  unfold ReceiverConfig.tamperedRefusal
  split_ifs at hparse ⊢ with hsame
  · rw [← hrefusal]
    obtain ⟨-, hbody⟩ := split_of_parseRecord hp
    rcases hr : r.refusal header with - | ⟨reason, detail⟩
    · have hreaches := Receiver.reaches_of_passed hparse hr
      refine ⟨_, hreaches.nonce, hreaches.opened_eq.trans ?_⟩
      dsimp only
      rw [hbody, ← hconfig]
      rfl
    · exact Receiver.rejectsFor_refused hparse hr
  · exact r.rejectsFor_malformed hparse

/-- Of the checksum frame, changing the suite is a mismatch. -/
theorem header_attacks_are_classified_of_suite :
    checksumConfig.new.RejectsFor (checksumFrame.set 1 2) .SUITE_MISMATCH := by
  obtain ⟨record, hp⟩ : ∃ record, parseRecord checksumFrame = .ok record := ⟨_, rfl⟩
  have ht : tamperHeader checksumFrame { suite_id := some 2 } = .ok (checksumFrame.set 1 2) := by
    decide +kernel
  obtain ⟨header, hfields, hverdict⟩ := header_attacks_are_classified checksumConfig [] hp ht
  obtain ⟨-, hversion, -, -⟩ := parseRecord_eq_ok.mp hp
  have hsame : header.version = protocolVersion ∧ header.payload_len = record.header.payload_len := by
    rw [hfields]
    exact ⟨hversion, rfl⟩
  have hsuite : header.suite_id ≠ checksumConfig.suite.suite_id := by
    rw [hfields]
    show (2 : ℤ) ≠ 1
    decide
  rw [ReceiverConfig.tamperedRefusal, if_pos hsame, ReceiverConfig.refusal, if_pos hsuite] at hverdict
  exact hverdict.1

end Header

/-! ## Tag attacks -/

section Tag

variable {w w' : Bytes} {record : ProtectedRecord}

/-- Another tag leaves the header and the ciphertext. -/
theorem replaceTag_eq (rng : Rng) (hlen : tagLen ≤ w.length) (tag : Option Bytes) :
    (replaceTag rng w tag).1 = w.take (w.length - tagLen) ++ tag.getD (rng.randbytes tagLen).1 := by
  have hbody : pySlice w 0 (-tagLen) = w.take (w.length - tagLen) := by
    have htake : truncateTag w tagLen = w.take (w.length - (tagLen : ℤ).toNat) :=
      truncateTag_eq (by decide) (by omega)
    rwa [Int.toNat_natCast] at htake
  unfold replaceTag
  cases tag with
  | none => rw [hbody, Option.getD_none]
  | some tag => rw [hbody, Option.getD_some]

/-- No tag is one of zeros. -/
theorem zeroTag_eq (rng : Rng) (w : Bytes) :
    zeroTag w = (replaceTag rng w (some (List.replicate tagLen 0))).1 := rfl

/-- A flip with an offset from zero changes the bytes, and none before its start. -/
theorem flipBit_eq {rng : Rng} {start : ℤ} {len : ℕ} {offset bit : Option ℤ} (hstart : 0 ≤ start)
    (hoffset : ∀ o ∈ offset, 0 ≤ o) (h : (flipBit rng w start len offset bit).1 = .ok w') :
    w' ≠ w ∧ w'.length = w.length ∧ ∀ n : ℕ, (n : ℤ) ≤ start → w'.take n = w.take n := by
  have hchosen : 0 ≤ (rng.choose offset len).1 := by
    unfold Rng.choose
    cases offset with
    | none => exact Int.natCast_nonneg _
    | some o => exact hoffset o rfl
  have hxor : xorBit w (start + (rng.choose offset len).1) ((rng.choose offset len).2.choose bit 8).1 =
      .ok w' := h
  obtain ⟨k, b, hk, hb, hplace, -, rfl⟩ := xorBit_eq_ok.mp hxor
  refine ⟨fun hsame => ?_, length_flipped _ _ _, fun n hn => ?_⟩
  · exact getElem?_flipped_ne hk hb (congrArg (·[k]?) hsame)
  · rw [← slice_zero, ← slice_zero]
    exact slice_flipped_of_outside (.inr (by omega))

/-- No two tags of one ciphertext are valid under one nonce and one associated data: both libraries compute the
tag from these, and compare. -/
def Backend.OneTag (b : Backend) : Prop :=
  ∀ {nonce aad c t t' p p' : Bytes}, t.length = tagLen → t'.length = tagLen →
    b.decrypt nonce (c ++ t) aad = .ok p → b.decrypt nonce (c ++ t') aad = .ok p' → t = t'

/-- What opens decrypts, under the nonce and the associated data that are slices of its frame. -/
theorem AeadSuite.decrypt_of_openRecord {suite : AeadSuite} {p : Bytes}
    (hp : parseRecord w = .ok record) (hopen : suite.openRecord record = .ok p) :
    suite.impl.decrypt (slice w 24 36) record.ciphertext_and_tag (slice w 0 40) = .ok p := by
  obtain ⟨haad, -, hnonce, -⟩ := slices_of_parseRecord hp
  simp only [AeadSuite.openRecord, hnonce, RecordHeader.aad, haad] at hopen
  exact (AeadSuite.open_eq_ok.mp hopen).2.2

/-- Of the byte strings with the header and the ciphertext of a frame that opens, and a tag, only the frame
opens. -/
theorem eq_of_authenticates {suite : AeadSuite} (honly : suite.impl.OneTag) {p : Bytes}
    (hp : parseRecord w = .ok record) (hopen : suite.openRecord record = .ok p)
    (hlen : w'.length = w.length)
    (hsame : w'.take (w.length - tagLen) = w.take (w.length - tagLen)) (hw' : suite.Authenticates w') :
    w' = w := by
  obtain ⟨record', p', hp', hopen'⟩ := hw'
  have hmin : minRecordLen ≤ w.length := (exists_parseRecord_iff.mp ⟨record, hp⟩).1
  rw [minRecordLen_eq] at hmin
  have htag : tagLen = 16 := rfl
  have hhead : w'.take 40 = w.take 40 := by
    have htake := congrArg (List.take 40) hsame
    rwa [List.take_take, List.take_take, Nat.min_eq_left (by omega)] at htake
  have hdecrypt := AeadSuite.decrypt_of_openRecord hp hopen
  have hdecrypt' := AeadSuite.decrypt_of_openRecord hp' hopen'
  rw [slice_of_take_eq hhead (by omega), slice_of_take_eq hhead (by omega)] at hdecrypt'
  -- Both bodies are the ciphertext and a tag.
  have hbody {v : Bytes} (hv : v.length = w.length) :
      v.drop 40 = (v.take (w.length - tagLen)).drop 40 ++ v.drop (w.length - tagLen) := by
    rw [← List.drop_append_of_le_length (by rw [List.length_take]; omega), List.take_append_drop]
  rw [(split_of_parseRecord hp).2, hbody rfl] at hdecrypt
  rw [(split_of_parseRecord hp').2, hbody hlen, hsame] at hdecrypt'
  have htags := honly (by rw [List.length_drop]; omega) (by rw [List.length_drop]; omega) hdecrypt'
    hdecrypt
  calc w'
    _ = w'.take (w.length - tagLen) ++ w'.drop (w.length - tagLen) := (List.take_append_drop _ _).symm
    _ = w := by rw [hsame, htags, List.take_append_drop]

/-- Another tag on a frame that opens is rejected. -/
theorem Receiver.rejectsFor_of_tag {r : Receiver} {p : Bytes} (hdoc : r.suite.impl.DecryptDocumented)
    (honly : r.suite.impl.OneTag) (hp : parseRecord w = .ok record)
    (hopen : r.suite.openRecord record = .ok p)
    (hsame : w'.take (w.length - tagLen) = w.take (w.length - tagLen)) (hne : w' ≠ w) :
    r.RejectsFor w' (if w'.length = w.length then r.closedReason record.header else .MALFORMED) := by
  have hmin : minRecordLen ≤ w.length := (exists_parseRecord_iff.mp ⟨record, hp⟩).1
  rw [minRecordLen_eq] at hmin
  have htag : tagLen = 16 := rfl
  have hhead : w'.take 40 = w.take 40 := by
    have htake := congrArg (List.take 40) hsame
    rwa [List.take_take, List.take_take, Nat.min_eq_left (by omega)] at htake
  split_ifs with hlen
  · have hrejects := rejectsFor_of_not_authenticates hdoc (parseRecord_of_head hp hhead hlen)
      fun hopens => hne (eq_of_authenticates honly hp hopen hlen hsame hopens)
    exact hrejects
  · exact (rejectsFor_malformed r (not_parse_of_head hp hhead hlen)).1

end Tag

/-- Tags are not exchanged. Over libraries that admit one tag, take any receiver in any state and any frame that
opens, forged or not. Then what `replace_tag`, `zero_tag`, and, at an offset from zero, `flip_tag_bit` return is
the frame itself or is rejected: as malformed if the new tag has another length, and otherwise for the first
reason that applies before authentication, or by that. A flip never returns the frame. -/
theorem tag_attacks_are_rejected {r : Receiver} {w : Bytes} {record : ProtectedRecord} {p : Bytes}
    (hdoc : r.suite.impl.DecryptDocumented) (honly : r.suite.impl.OneTag)
    (hp : parseRecord w = .ok record) (hopen : r.suite.openRecord record = .ok p) :
    (∀ (rng : Rng) (tag : Option Bytes), (replaceTag rng w tag).1 = w ∨
      r.RejectsFor (replaceTag rng w tag).1 (if (tag.map List.length).getD tagLen = tagLen then
        r.closedReason record.header else .MALFORMED)) ∧
      (zeroTag w = w ∨ r.RejectsFor (zeroTag w) (r.closedReason record.header)) ∧
        ∀ (rng : Rng) (offset bit : Option ℤ) (w' : Bytes), (∀ o ∈ offset, 0 ≤ o) →
          (flipTagBit rng w offset bit).1 = .ok w' → r.RejectsFor w' (r.closedReason record.header) := by
  have hmin : minRecordLen ≤ w.length := (exists_parseRecord_iff.mp ⟨record, hp⟩).1
  rw [minRecordLen_eq] at hmin
  have htag : tagLen = 16 := rfl
  have hreplace (rng : Rng) (tag : Option Bytes) : (replaceTag rng w tag).1 = w ∨
      r.RejectsFor (replaceTag rng w tag).1 (if (tag.map List.length).getD tagLen = tagLen then
        r.closedReason record.header else .MALFORMED) := by
    have heq := replaceTag_eq rng (w := w) (by omega) tag
    refine or_iff_not_imp_left.mpr fun hne => ?_
    have hhead : (w.take (w.length - tagLen)).length = w.length - tagLen :=
      List.length_take_of_le (by omega)
    have hrejects := Receiver.rejectsFor_of_tag (r := r) hdoc honly hp hopen
      (by rw [heq, List.take_left' hhead]) hne
    have hlength : (tag.getD (rng.randbytes tagLen).1).length = (tag.map List.length).getD tagLen := by
      cases tag with
      | none => rw [Option.getD_none, Rng.randbytes, List.length_map, List.length_range]; rfl
      | some tag => rfl
    have hiff : (replaceTag rng w tag).1.length = w.length ↔ (tag.map List.length).getD tagLen = tagLen := by
      rw [heq, List.length_append, hhead, hlength]
      omega
    simp only [hiff] at hrejects
    exact hrejects
  refine ⟨hreplace, ?_, fun rng offset bit w' hoffset hflip => ?_⟩
  · have hzero := hreplace ⟨fun _ => 0⟩ (some (List.replicate tagLen 0))
    rwa [← zeroTag_eq, if_pos (by rw [Option.map_some, List.length_replicate]; rfl)] at hzero
  · obtain ⟨hne, hlen, hsame⟩ := flipBit_eq (by omega) hoffset hflip
    have hrejects := Receiver.rejectsFor_of_tag (r := r) hdoc honly hp hopen (hsame _ (by omega)) hne
    rwa [if_pos hlen] at hrejects

/-- The checksum backend admits one tag. -/
theorem Backend.checksum_oneTag : checksum.OneTag := by
  intro nonce aad c t t' p p' ht ht' h h'
  have htag {t p : Bytes} (ht : t.length = tagLen) (h : checksum.decrypt nonce (c ++ t) aad = .ok p) :
      t = Srp.checksum nonce c aad := by
    simp only [checksum] at h
    rw [List.length_append, ht, show c.length + tagLen - suiteTagLen = c.length by
      rw [tagLen_eq]; unfold suiteTagLen; omega, List.take_left] at h
    split_ifs at h with hvalid
    exact (List.append_cancel_left hvalid).symm
  rw [htag ht h, htag ht' h']

/-- A tag of zeros on the checksum frame is rejected. -/
theorem tag_attacks_are_rejected_of_zero :
    ∃ reason, checksumConfig.new.RejectsFor (zeroTag checksumFrame) reason := by
  obtain ⟨record, p, hp, hopen⟩ : checksumConfig.suite.Authenticates checksumFrame := by decide +kernel
  obtain ⟨-, hzero, -⟩ := tag_attacks_are_rejected (r := checksumConfig.new) Backend.checksum_documented
    Backend.checksum_oneTag hp hopen
  exact ⟨_, hzero.resolve_left (by decide)⟩

/-! ## Body attacks -/

/-- What the methods of the actor that change a frame behind its header make of it. -/
inductive BodyAttack (w : Bytes) : Bytes → Prop
  | flipCiphertextBit {rng : Rng} {offset bit : Option ℤ} {w' : Bytes} (hoffset : ∀ o ∈ offset, 0 ≤ o)
    (h : (flipCiphertextBit rng w offset bit).1 = .ok w') : BodyAttack w w'
  | truncateCiphertext {count : ℤ} (h : 1 ≤ count) : BodyAttack w (truncateCiphertext w count)
  | flipTagBit {rng : Rng} {offset bit : Option ℤ} {w' : Bytes} (hoffset : ∀ o ∈ offset, 0 ≤ o)
    (h : (flipTagBit rng w offset bit).1 = .ok w') : BodyAttack w w'
  | replaceTag (rng : Rng) (tag : Option Bytes) : BodyAttack w (replaceTag rng w tag).1
  | zeroTag : BodyAttack w (zeroTag w)
  | splice (body_source : Bytes) : BodyAttack w (splice w body_source)
  | swapBodies_fst (wire_b : Bytes) : BodyAttack w (swapBodies w wire_b).1
  | swapBodies_snd (wire_a : Bytes) : BodyAttack w (swapBodies wire_a w).2

/-- They leave the header of a frame with room for a record. -/
theorem BodyAttack.take_eq {w w' : Bytes} (hmin : minRecordLen ≤ w.length) (h : BodyAttack w w') :
    w'.take headerLen = w.take headerLen := by
  rw [minRecordLen_eq] at hmin
  have htag : tagLen = 16 := rfl
  have hheader : headerLen = 40 := rfl
  have htake {v : Bytes} (hv : v.take (w.length - tagLen) = w.take (w.length - tagLen)) :
      v.take headerLen = w.take headerLen := by
    have hle := congrArg (List.take headerLen) hv
    rwa [List.take_take, List.take_take, Nat.min_eq_left (by omega)] at hle
  have hreplace (rng : Rng) (tag : Option Bytes) :
      (Srp.replaceTag rng w tag).1.take headerLen = w.take headerLen := by
    refine htake ?_
    rw [replaceTag_eq rng (by omega) tag, List.take_left' (List.length_take_of_le (by omega))]
  have hhead (body : Bytes) : (w.take headerLen ++ body).take headerLen = w.take headerLen :=
    List.take_left' (List.length_take_of_le (by omega))
  cases h with
  | flipCiphertextBit hoffset h =>
    unfold Srp.flipCiphertextBit ctRange at h
    dsimp only at h
    split_ifs at h
    exact (flipBit_eq (Int.natCast_nonneg headerLen) hoffset h).2.2 headerLen (le_refl _)
  | @truncateCiphertext count h =>
    rw [truncateCiphertext_eq h (by rwa [minRecordLen_eq]), minRecordLen_eq]
    rw [List.take_append_of_le_length (by rw [List.length_take]; omega), List.take_take,
      Nat.min_eq_left (by omega)]
  | flipTagBit hoffset h => exact (flipBit_eq (by omega) hoffset h).2.2 headerLen (by omega)
  | replaceTag rng tag => exact hreplace rng tag
  | zeroTag => exact hreplace ⟨fun _ => 0⟩ (some (List.replicate tagLen 0))
  | splice body_source => exact hhead _
  | swapBodies_fst wire_b => exact hhead _
  | swapBodies_snd wire_a => exact hhead _

/-- A header admits its own body only. Let the senders of a family, on distinct streams and in the receiver's
suite, emit frames in a run whose AEAD is not forged, and let a byte string with the header of such a frame be
delivered at any position, of any length and with any body, as all attacks behind the header make one, where they
flip a bit at an offset from zero and truncate by one byte or more. Then it is the frame itself, or it is rejected:
as malformed if it has another length, and otherwise for the first reason that applies before authentication, or
by that. The replay state is left. -/
theorem headers_admit_their_own_body {ι : Type*} [DecidableEq ι] {c : ReceiverConfig}
    {a : ι → SenderArgs} {senders : ι → Sender} {es : List (Event ι)} {i : ι} {e d : ℕ}
    {record : ProtectedRecord} {payload w w' : Bytes} {st : ReceiveStep} (hown : OwnStreams c a)
    (hs : ∀ i, Sender.new (a i) = .ok (senders i)) (hseals : c.suite.impl.Seals)
    (hdoc : c.suite.impl.DecryptDocumented) (hunforged : Unforged (c.run senders es))
    (hw : EmitsAt (c.run senders es) e i record payload w)
    (hget : (c.run senders es)[d]? = some (.delivered w' st))
    (h : w'.take headerLen = w.take headerLen ∨ BodyAttack w w') :
    let r := (Mealy.after System.step ⟨senders, c.new⟩ (es.take d)).receiver
    w' = w ∨ r.RejectsFor w' (if w'.length = w.length then r.closedReason record.header else .MALFORMED) := by
  intro r
  have hp := (hw.emitted_of_own hown hs hseals).parsed
  have hhead : w'.take 40 = w.take 40 :=
    h.elim id fun hattack => hattack.take_eq (exists_parseRecord_iff.mp ⟨record, hp⟩).1
  refine or_iff_not_imp_left.mpr fun hne => ?_
  split_ifs with hlen
  · have hp' := parseRecord_of_head hp hhead hlen
    have hsuite : r.suite = c.suite :=
      congrArg ReceiverConfig.suite (receiver_of_run_take c senders es d).1
    obtain ⟨-, hst⟩ := exists_of_delivered hget
    -- What is opened was emitted, and at its place only the frame was.
    have hclosed : ∀ call plaintext, (r.receive w').opened = some call → call.result ≠ .ok plaintext := by
      intro call plaintext hopened hresult
      obtain ⟨record', nonce, aad, hp'', -, haad, -, rfl⟩ :=
        (r.receive_outcome w').parsed_of_opened hopened hresult
      obtain ⟨e', -, j, hemits⟩ := exists_emitsAt_of_opened hunforged hget hp'' haad (hst ▸ hopened)
      have hplace : record.header.place = record'.header.place := by
        rw [← Except.ok.inj (hp'.symm.trans hp'')]
      exact hne (hw.eq_of_place hown hs hseals hemits hplace).2.symm
    have hrejects := Receiver.rejectsFor_of_closed (hsuite ▸ hdoc) hp' hclosed
    exact hrejects
  · exact (r.rejectsFor_malformed (not_parse_of_head hp hhead hlen)).1

/-- A frame is emitted, and delivered with a tag of zeros. -/
theorem headers_admit_their_own_body_of_zero :
    ∃ reason, checksumConfig.new.RejectsFor (zeroTag checksumFrame) reason := by
  let es : List (Event Unit) := [.send () (.frame { payload := some [1, 2, 3] }), .deliver (zeroTag checksumFrame)]
  have hown : OwnStreams checksumConfig (fun _ : Unit => checksumArgs) := ⟨fun _ => rfl, fun _ _ _ => rfl⟩
  have hwire : (checksumSender.step (.frame { payload := some [1, 2, 3] })).1.wire =
      some (.ok checksumFrame) := congrArg some checksumSender_protect
  obtain ⟨record, hemits⟩ : ∃ record,
      EmitsAt (checksumConfig.run (fun _ => checksumSender) es) 0 () record [1, 2, 3] checksumFrame :=
    exists_emitsAt_of_returns rfl rfl (.inl hwire)
  have hclosed : (checksumConfig.new.receive (zeroTag checksumFrame)).opened.map SuiteOpen.result =
      some (.error (.authenticationFailure "AEAD tag verification failed")) := by decide +kernel
  have hunforged : Unforged (checksumConfig.run (fun _ => checksumSender) es) := by
    intro d wire st call plaintext hget hopened hresult
    obtain ⟨hev, hst⟩ := exists_of_delivered hget
    match d with
    | 0 => cases hev
    | 1 =>
      cases hev
      have hst' : st = checksumConfig.new.receive (zeroTag checksumFrame) := hst
      rw [← hst', hopened, Option.map_some, hresult] at hclosed
      cases hclosed
    | n + 2 => cases hev
  have hrejects := headers_admit_their_own_body (d := 1) hown (fun _ => checksumSender_new)
    Backend.checksum_seals Backend.checksum_documented hunforged hemits rfl (.inr .zeroTag)
  exact ⟨_, hrejects.resolve_left (by decide)⟩

end Srp
