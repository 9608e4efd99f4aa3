import Srp.Tamper
import Srp.Attacks
import Srp.Encoding
import Srp.Batch

/-!
# Sweeps over the bits of a header

`flip_header_bit`, once or for bit after bit: each of the frames that it makes of one frame is rejected for the
reason that belongs to the field of the bit (`Receiver.fieldReason`), in whatever state the receiver is. None
of them changes the replay state, so that a whole sweep is answered as from its beginning
(`header_sweep_is_attributed`).
-/

namespace Srp

/-! ## The reason of a field -/

/-- The place that the header of a frame names, read off its bytes. -/
def namedPlace (w : Bytes) : StreamKey × ℤ :=
  ((slice w 4 20, Struct.decode (slice w 20 24)), Struct.decode (slice w 28 36))

namespace Receiver

/-- The reason that a frame of a place is rejected for which does not authenticate. -/
def placeReason (r : Receiver) (place : StreamKey × ℤ) : RejectReason :=
  match r.replay_guard.check place.1 place.2 with
  | .DUPLICATE => .REPLAY_DETECTED
  | .TOO_OLD => .STALE_RECORD
  | .INVALID => .STALE_RECORD
  | .FRESH => .AUTH_FAILED

open HeaderField in
/-- The reason that a frame is rejected for in which a bit of a field was inverted. -/
def fieldReason (r : Receiver) (header : RecordHeader) (w' : Bytes) : HeaderField → RejectReason
  | version | payload_len => .MALFORMED
  | suite_id => .SUITE_MISMATCH
  | session_id =>
    if r.expected_session_id.isSome then .SESSION_MISMATCH else r.placeReason (namedPlace w')
  | stream_id | seq => r.placeReason (namedPlace w')
  | record_type | flags | nonce_prefix => r.placeReason header.place

variable {r : Receiver} {w w' : Bytes} {record : ProtectedRecord}

/-- What does not authenticate, in place of a frame of its length, is rejected for the first reason that
applies. -/
theorem rejectsFor_tamperReason (hdoc : r.suite.impl.DecryptDocumented)
    (hp : parseRecord w = .ok record) (hlen : w'.length = w.length)
    (hsuite : record.header.suite_id = r.suite.suite_id)
    (hpin : ∀ pin ∈ r.expected_session_id, record.header.session_id = pin)
    (hno : ¬r.suite.Authenticates w') : r.RejectsFor w' (r.tamperReason w w') := by
  by_cases hparses : ∃ record', parseRecord w' = .ok record'
  · obtain ⟨record', hp'⟩ := hparses
    rw [tamperReason_of_parsed hp hlen hp' hsuite hpin]
    exact rejectsFor_of_not_authenticates hdoc hp' hno
  · rw [tamperReason_of_malformed hp hlen hparses]
    exact (rejectsFor_malformed r hparses).1

/-- The reason for a frame of the same version, payload length, and suite, and of the same session where that
matters, is that of the place that it names. -/
theorem tamperReason_of_slices (hversion : slice w' 0 1 = slice w 0 1)
    (hlength : slice w' 36 40 = slice w 36 40) (hsuite : slice w' 1 2 = slice w 1 2)
    (hsession : r.expected_session_id.isSome → slice w' 4 20 = slice w 4 20) :
    r.tamperReason w w' = r.placeReason (namedPlace w') := by
  unfold tamperReason
  rw [if_neg (by simp [hversion, hlength]), if_neg (not_not.mpr hsuite),
    if_neg (fun h => h.2 (hsession h.1))]
  rfl

/-- The first reason that applies, where one bit is inverted, is that of its field. -/
theorem tamperReason_of_flipped (hp : parseRecord w = .ok record) {f : HeaderField} {k b : ℕ}
    (hk : f.Covers k) (hb : b < 8) :
    r.tamperReason w (flipped w k b) = r.fieldReason record.header (flipped w k b) f := by
  have hmin : minRecordLen ≤ w.length := (exists_parseRecord_iff.mp ⟨record, hp⟩).1
  rw [minRecordLen_eq] at hmin
  obtain ⟨hstart, hend⟩ := hk
  have hin {i j : ℕ} (hi : i ≤ k) (hj : k < j) (hj40 : j ≤ 40) :
      slice (flipped w k b) i j ≠ slice w i j := slice_flipped_ne (by omega) hb hi hj
  have hout {i j : ℕ} (h : k < i ∨ j ≤ k) : slice (flipped w k b) i j = slice w i j :=
    slice_flipped_of_outside h
  -- A bit that is not of the place leaves it.
  have hplace (h4 : k < 4 ∨ 20 ≤ k) (h20 : k < 20 ∨ 24 ≤ k) (h28 : k < 28 ∨ 36 ≤ k) :
      namedPlace (flipped w k b) = record.header.place := by
    obtain ⟨-, hsession, hstream, hseq⟩ := names_of_parseRecord hp
    unfold namedPlace RecordHeader.place RecordHeader.streamKey
    rw [hout h4, hout h20, hout h28, hsession, hstream, hseq]
  have hkept (h1 : 1 < k) (h36 : k < 36) (hpinned : r.expected_session_id.isSome → k < 4 ∨ 20 ≤ k) :
      r.tamperReason w (flipped w k b) = r.placeReason (namedPlace (flipped w k b)) :=
    tamperReason_of_slices (hout (by omega)) (hout (by omega)) (hout (by omega)) fun h => hout (hpinned h)
  have hunnamed (h : (2 ≤ k ∧ k < 4) ∨ (24 ≤ k ∧ k < 28)) :
      r.tamperReason w (flipped w k b) = r.placeReason record.header.place := by
    rw [hkept (by omega) (by omega) fun _ => by omega, hplace (by omega) (by omega) (by omega)]
  cases f with
  | version =>
    unfold tamperReason
    rw [if_pos (.inl (hin hstart hend (by decide)))]
    rfl
  | payload_len =>
    unfold tamperReason
    rw [if_pos (.inr (hin hstart hend (by decide)))]
    rfl
  | suite_id =>
    have hone : 1 ≤ k ∧ k < 2 := ⟨hstart, hend⟩
    unfold tamperReason
    rw [if_neg (by simp [hout (show k < 0 ∨ 1 ≤ k by omega), hout (show k < 36 ∨ 40 ≤ k by omega)]),
      if_pos (hin hone.1 hone.2 (by decide))]
    rfl
  | session_id =>
    have hrange : 4 ≤ k ∧ k < 20 := ⟨hstart, hend⟩
    unfold fieldReason
    split_ifs with hpinned
    · unfold tamperReason
      rw [if_neg (by simp [hout (show k < 0 ∨ 1 ≤ k by omega), hout (show k < 36 ∨ 40 ≤ k by omega)]),
        if_neg (not_not.mpr (hout (by omega))), if_pos ⟨hpinned, hin hrange.1 hrange.2 (by decide)⟩]
    · exact hkept (by omega) (by omega) fun h => absurd h hpinned
  | stream_id =>
    have hrange : 20 ≤ k ∧ k < 24 := ⟨hstart, hend⟩
    exact hkept (by omega) (by omega) fun _ => by omega
  | seq =>
    have hrange : 28 ≤ k ∧ k < 36 := ⟨hstart, hend⟩
    exact hkept (by omega) (by omega) fun _ => by omega
  | record_type =>
    have hrange : 2 ≤ k ∧ k < 3 := ⟨hstart, hend⟩
    exact hunnamed (by omega)
  | flags =>
    have hrange : 3 ≤ k ∧ k < 4 := ⟨hstart, hend⟩
    exact hunnamed (by omega)
  | nonce_prefix =>
    have hrange : 24 ≤ k ∧ k < 28 := ⟨hstart, hend⟩
    exact hunnamed (by omega)

/-- What is rejected and leaves the replay state leaves what it and all others are rejected for. -/
theorem fieldReason_congr {t : Receiver} (hconfig : t.config = r.config)
    (hguard : t.replay_guard = r.replay_guard) : t.fieldReason = r.fieldReason := by
  obtain ⟨-, hsession, -, -⟩ := ReceiverConfig.mk.inj hconfig
  have hplace : t.placeReason = r.placeReason := by
    unfold placeReason
    rw [hguard]
  funext header w' f
  unfold fieldReason
  rw [hsession, hplace]

end Receiver

/-- At an offset from zero, `flip_header_bit` inverts one bit of the byte there. -/
theorem flipped_of_flipHeaderBit {rng : Rng} {w w' : Bytes} {k b : ℕ}
    (h : (flipHeaderBit rng w (some k) (some b)).1 = .ok w') : b < 8 ∧ w' = flipped w k b := by
  have hxor : xorBit w (0 + k) b = .ok w' := h
  obtain ⟨k', b', hk, hb, hindex, hbit, rfl⟩ := xorBit_eq_ok.mp hxor
  obtain rfl : b = b' := by omega
  obtain rfl : k = k' := by omega
  exact ⟨hb, rfl⟩

/-- A sweep over the bits of a header. Take any receiver in any state, and a frame that names its suite and its
pin. Let the bits of the header be inverted with `flip_header_bit`, any of them in any order, and let none of
the frames that this makes authenticate. Then `receive_all` rejects each of them, for the reason of the field
that its bit belongs to, and leaves the replay state. -/
theorem header_sweep_is_attributed {r : Receiver} {w : Bytes} {record : ProtectedRecord}
    (hdoc : r.suite.impl.DecryptDocumented) (hp : parseRecord w = .ok record)
    (hsuite : record.header.suite_id = r.suite.suite_id)
    (hpin : ∀ pin ∈ r.expected_session_id, record.header.session_id = pin) (rng : Rng)
    {sweep : List (HeaderField × ℕ × ℕ)} {frames : List Bytes}
    (hsweep : List.Forall₂ (fun e w' => HeaderField.Covers e.1 e.2.1 ∧
      (flipHeaderBit rng w (some e.2.1) (some e.2.2)).1 = .ok w' ∧ ¬r.suite.Authenticates w') sweep frames) :
    ∃ vs, (r.receiveAll frames).1 = .ok vs ∧
      vs.map Verdict.judgement =
        List.zipWith (fun e w' => .rejected (r.fieldReason record.header w' e.1)) sweep frames ∧
      (r.receiveAll frames).2.replay_guard = r.replay_guard := by
  -- The reasons stay those of the first state, from every state that the sweep leads to.
  suffices h : ∀ t : Receiver, t.config = r.config → t.replay_guard = r.replay_guard →
      ∃ vs, (t.receiveAll frames).1 = .ok vs ∧
        vs.map Verdict.judgement =
          List.zipWith (fun e w' => .rejected (r.fieldReason record.header w' e.1)) sweep frames ∧
        (t.receiveAll frames).2.replay_guard = r.replay_guard from h r rfl rfl
  induction hsweep with
  | nil => exact fun t _ hguard => ⟨[], rfl, rfl, hguard⟩
  | @cons e w' sweep frames hflip _ ih =>
    intro t hconfig hguard
    obtain ⟨hcovers, hw', hno⟩ := hflip
    obtain ⟨hb, rfl⟩ := flipped_of_flipHeaderBit hw'
    obtain ⟨hsuite', hsession', -, -⟩ := ReceiverConfig.mk.inj hconfig
    rw [← hsuite'] at hdoc hsuite hno
    rw [← hsession'] at hpin
    obtain ⟨v, hv, hjudgement, hkept⟩ := Receiver.rejectsFor_tamperReason hdoc hp (length_flipped _ _ _)
      hsuite hpin hno
    rw [Receiver.tamperReason_of_flipped hp hcovers hb, Receiver.fieldReason_congr hconfig hguard] at hjudgement
    obtain ⟨vs, hvs, hjudgements, hlast⟩ := ih _
      ((t.receive_outcome (flipped w e.2.1 e.2.2)).config_eq.trans hconfig) (hkept.trans hguard)
    rw [Receiver.receiveAll_of_returned hv rfl, hvs]
    refine ⟨v :: vs, rfl, ?_, hlast⟩
    rw [List.map_cons, List.zipWith_cons_cons, hjudgement, hjudgements]

/-- A sweep over the checksum frame: the version, the suite, the session, and the type of the record. -/
theorem header_sweep_is_attributed_of_four :
    ∃ vs, (checksumConfig.new.receiveAll
        ([(0, 0), (1, 1), (4, 0), (2, 0)].map fun place => flipped checksumFrame place.1 place.2)).1 = .ok vs ∧
      vs.map Verdict.judgement =
        [.rejected .MALFORMED, .rejected .SUITE_MISMATCH, .rejected .SESSION_MISMATCH,
          .rejected .AUTH_FAILED] := by
  obtain ⟨record, hp⟩ : ∃ record, parseRecord checksumFrame = .ok record := ⟨_, rfl⟩
  have hsuite : record.header.suite_id = checksumConfig.new.suite.suite_id := by
    cases hp
    rfl
  have hpin : ∀ pin ∈ checksumConfig.new.expected_session_id, record.header.session_id = pin := by
    cases hp
    decide +kernel
  have hflips : List.Forall₂ (fun (e : HeaderField × ℕ × ℕ) w' => HeaderField.Covers e.1 e.2.1 ∧
      (flipHeaderBit ⟨fun _ => 0⟩ checksumFrame (some e.2.1) (some e.2.2)).1 = .ok w' ∧
        ¬checksumConfig.new.suite.Authenticates w')
      [(.version, 0, 0), (.suite_id, 1, 1), (.session_id, 4, 0), (.record_type, 2, 0)]
      ([(0, 0), (1, 1), (4, 0), (2, 0)].map fun place => flipped checksumFrame place.1 place.2) := by
    refine .cons ⟨⟨by decide, by decide⟩, by decide +kernel, by decide +kernel⟩ ?_
    refine .cons ⟨⟨by decide, by decide⟩, by decide +kernel, by decide +kernel⟩ ?_
    refine .cons ⟨⟨by decide, by decide⟩, by decide +kernel, by decide +kernel⟩ ?_
    exact .cons ⟨⟨by decide, by decide⟩, by decide +kernel, by decide +kernel⟩ .nil
  obtain ⟨vs, hvs, hjudgements, -⟩ := header_sweep_is_attributed (r := checksumConfig.new)
    Backend.checksum_documented hp hsuite hpin ⟨fun _ => 0⟩ hflips
  refine ⟨vs, hvs, hjudgements.trans ?_⟩
  cases hp
  decide +kernel

end Srp
