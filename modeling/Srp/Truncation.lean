import Srp.Adversary
import Srp.Session

/-!
# Truncated frames

A frame that is cut short, with its header left, has no longer the length that its header declares, so
the parser rejects it before anything else is looked at (`Receiver.caught_of_shorter`). The two truncations
of `MaliciousActor` cut the frame short with one exception: `truncate_ciphertext` drops no more bytes than
the ciphertext has, so it returns the frame of an empty payload as it was (`truncation_is_caught_iff`).
-/

namespace Srp

/-! ## What the truncations return -/

section Slices

variable {bs wire : Bytes} {count : ℤ}

/-- Within the ends, a slice is one with natural bounds. -/
theorem pySlice_of_range {i j : ℤ} (hi : 0 ≤ i ∧ i ≤ bs.length) (hj : 0 ≤ j ∧ j ≤ bs.length) :
    pySlice bs i j = slice bs i.toNat j.toNat := by
  unfold pySlice sliceBound
  rw [if_neg (by omega), if_neg (by omega), Nat.min_eq_left (by omega), Nat.min_eq_left (by omega)]

/-- A slice from the start is the beginning. -/
theorem slice_zero (bs : Bytes) (j : ℕ) : slice bs 0 j = bs.take j := by
  rw [slice, List.drop_zero, Nat.sub_zero]

/-- A frame without its last bytes, at most as many as there are. -/
theorem truncateTag_eq (h1 : 1 ≤ count) (hlen : count ≤ wire.length) :
    truncateTag wire count = wire.take (wire.length - count.toNat) := by
  have hstart : sliceBound wire 0 = 0 := by
    unfold sliceBound
    rw [if_neg (lt_irrefl 0)]
    exact Nat.zero_min _
  have hstop : sliceBound wire (-count) = wire.length - count.toNat := by
    unfold sliceBound
    rw [if_pos (by omega)]
    omega
  rw [truncateTag, pySlice, hstart, hstop, slice_zero]

/-- A frame without the last bytes of its ciphertext, as many of them as there are. -/
theorem truncateCiphertext_eq (h1 : 1 ≤ count) (hmin : minRecordLen ≤ wire.length) :
    truncateCiphertext wire count =
      wire.take (wire.length - tagLen - min count.toNat (wire.length - minRecordLen)) ++
        wire.drop (wire.length - tagLen) := by
  rw [minRecordLen_eq] at hmin ⊢
  rw [tagLen_eq]
  generalize hn : min count.toNat (wire.length - 56) = n
  -- The number of bytes dropped, with which the two branches of the clamp agree.
  have hcount : (if count > (wire.length - 16 : ℤ) - 40 then (wire.length - 16 : ℤ) - 40 else count) = n := by
    split_ifs <;> omega
  have hhead : pySlice wire 0 40 = slice wire 0 40 :=
    pySlice_of_range ⟨le_rfl, by omega⟩ ⟨by omega, by omega⟩
  have hbody : pySlice wire 40 (wire.length - 16 - n) = slice wire 40 (wire.length - 16 - n) := by
    rw [pySlice_of_range ⟨by omega, by omega⟩ ⟨by omega, by omega⟩]
    congr 1
    omega
  have htag : pySlice wire (wire.length - 16) wire.length = wire.drop (wire.length - 16) := by
    rw [pySlice_of_range ⟨by omega, by omega⟩ ⟨by omega, le_rfl⟩, slice]
    have hstart : ((wire.length : ℤ) - 16).toNat = wire.length - 16 := by omega
    rw [hstart, Int.toNat_natCast]
    apply List.take_of_length_le
    rw [List.length_drop]
  unfold truncateCiphertext ctRange
  dsimp only
  rw [headerLen_eq, tagLen_eq]
  push_cast
  rw [hcount, hhead, hbody, htag, slice_append_slice (by omega) (by omega), slice_zero]

end Slices

/-! ## Frames that are cut short -/

/-- A frame that is shorter than one that parses, but has its header if it has room for one, does not
parse. -/
theorem not_parse_of_shorter {w w' : Bytes} {record : ProtectedRecord} (hp : parseRecord w = .ok record)
    (hshort : w'.length < w.length) (hhead : headerLen ≤ w'.length → w'.take headerLen = w.take headerLen) :
    ¬∃ record', parseRecord w' = .ok record' := by
  intro hp'
  obtain ⟨-, -, -, hframe⟩ := exists_parseRecord_iff.mp ⟨record, hp⟩
  obtain ⟨hmin', -, -, hframe'⟩ := exists_parseRecord_iff.mp hp'
  rw [minRecordLen_eq] at hmin' hframe hframe'
  rw [headerLen_eq] at hhead
  -- Both declare the payload length that they share.
  have hsame : slice w' 36 40 = slice w 36 40 := by
    rw [← slice_take (le_refl 40), hhead (by omega), slice_take (le_refl 40)]
  rw [hsame] at hframe'
  omega

/-- A receiver catches a change of a frame by its framing: it is one, and it is rejected as malformed, with
the replay state left. -/
structure Receiver.CatchesByFraming (r : Receiver) (w w' : Bytes) : Prop where
  differs : w' ≠ w
  rejected : ∃ v, (r.receive w').result = .ok v ∧ v.status = .REJECTED ∧ v.reason = some .MALFORMED
  replay_guard : (r.receive w').receiver.replay_guard = r.replay_guard

/-- Every receiver catches a frame that is cut short with its header left. -/
theorem Receiver.caught_of_shorter (r : Receiver) {w w' : Bytes} {record : ProtectedRecord}
    (hp : parseRecord w = .ok record) (hshort : w'.length < w.length)
    (hhead : headerLen ≤ w'.length → w'.take headerLen = w.take headerLen) : r.CatchesByFraming w w' := by
  obtain ⟨message, hmalformed⟩ :=
    (parseRecord_cases w').resolve_left (not_parse_of_shorter hp hshort hhead)
  have heq := (Outcome.malformed (r := r) hmalformed).eq_receive
  refine ⟨fun hsame => ?_, ?_, ?_⟩
  · rw [hsame] at hshort
    exact lt_irrefl _ hshort
  · rw [← heq]
    exact ⟨_, rfl, rfl, rfl⟩
  · rw [← heq]
    rfl

/-- Every truncation is caught by framing, if there is something to truncate. Of a frame that a sender
emitted over a backend that adds a tag, every receiver catches every truncation of the tag, and it catches
the truncations of the ciphertext exactly if the payload is not empty. -/
theorem truncation_is_caught_iff {s : Sender} {args : SealArgs} {payload w : Bytes}
    (hadds : s.suite.impl.AddsTag) (hpayload : args.payload = some payload)
    (hw : (s.protect args).1 = .ok w) (r : Receiver) {count : ℤ} (hcount : 1 ≤ count) :
    ((r.CatchesByFraming w (truncateCiphertext w count) ∧
        (count ≤ w.length → r.CatchesByFraming w (truncateTag w count))) ↔ payload ≠ []) ∧
      (count ≤ w.length → r.CatchesByFraming w (truncateTag w count)) := by
  obtain ⟨record, hp, hlen⟩ : ∃ record, parseRecord w = .ok record ∧ w.length = 56 + payload.length := by
    obtain ⟨record, hresult, hwire⟩ := Sender.protect_eq_ok.mp hw
    obtain ⟨payload', nonce, aad, hs⟩ := (s.seal_outcome args).exists_sealed hresult
    obtain rfl := Option.some.inj (hpayload.symm.trans hs.payload_eq)
    obtain ⟨hnonce, hbody⟩ := AeadSuite.seal_eq_ok.mp hs.body
    obtain ⟨raw, hraw, rfl⟩ := ProtectedRecord.toBytes_eq_ok.mp hwire
    refine ⟨record, hs.parsed hadds hwire, ?_⟩
    rw [List.length_append, RecordHeader.length_toBytes hraw, hadds hnonce hbody, headerLen_eq]
    show 40 + (payload.length + 16) = _
    omega
  have hmin : minRecordLen ≤ w.length := by
    rw [minRecordLen_eq]
    omega
  have hct := truncateCiphertext_eq hcount hmin
  rw [minRecordLen_eq, tagLen_eq] at hct
  have htag : count ≤ w.length → r.CatchesByFraming w (truncateTag w count) := by
    intro hle
    rw [truncateTag_eq hcount hle]
    refine r.caught_of_shorter hp ?_ fun hroom => ?_
    · rw [List.length_take]
      omega
    · rw [List.length_take] at hroom
      rw [List.take_take, Nat.min_eq_left (by omega)]
  refine ⟨⟨fun hcaught hempty => ?_, fun hne => ⟨?_, htag⟩⟩, htag⟩
  -- Of an empty ciphertext nothing is dropped, and the frame comes back.
  · apply hcaught.1.differs
    have hnone : w.length - 16 - min count.toNat (w.length - 56) = w.length - 16 := by
      rw [hlen, hempty, List.length_nil]
      omega
    rw [hct, hnone, List.take_append_drop]
  · have hpos := List.length_pos_iff.mpr hne
    rw [hct]
    refine r.caught_of_shorter hp ?_ fun _ => ?_
    · rw [List.length_append, List.length_take, List.length_drop]
      omega
    -- The header is in front of the ciphertext.
    · rw [headerLen_eq, List.take_append_of_le_length (by rw [List.length_take]; omega), List.take_take,
        Nat.min_eq_left (by omega)]

/-- A frame with a payload of three bytes is caught without the last of them. -/
theorem truncation_is_caught_iff_of_one :
    checksumConfig.new.CatchesByFraming checksumFrame (truncateCiphertext checksumFrame 1) := by
  have hadds : checksumSender.suite.impl.AddsTag := Backend.checksum_seals.length
  exact ((truncation_is_caught_iff hadds rfl checksumSender_protect checksumConfig.new le_rfl).1.mpr
    (List.cons_ne_nil _ _)).1

/-- The frame of an empty payload comes back from `truncate_ciphertext`, and the receiver of the session
accepts it. -/
theorem truncation_of_nothing_is_accepted :
    let w := [1, 1, 1, 0] ++ List.replicate sessionIdLen 7 ++ [0, 0, 0, 1] ++ [0, 0, 0, 1] ++
      List.replicate 12 0 ++ List.replicate tagLen 118
    (checksumSender.protect { payload := some [] }).1 = .ok w ∧
      truncateCiphertext w 1 = w ∧
      (checksumConfig.new.receive (truncateCiphertext w 1)).result.map Verdict.accepted = .ok true ∧
      ¬checksumConfig.new.CatchesByFraming w (truncateCiphertext w 1) := by
  intro w
  have hsame : truncateCiphertext w 1 = w := by decide +kernel
  exact ⟨by decide +kernel, hsame, by decide +kernel, fun hcaught => hcaught.differs hsame⟩

end Srp
