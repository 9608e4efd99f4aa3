import Srp.Agreement

/-!
# What becomes of a changed frame

A frame that a sender emitted is changed on its way, anywhere and in any number of bytes, to one of the
same length that no sender emitted. Which of its bytes differ, and what the replay state says of the place
that it names, decide the reason that it is rejected for (`Receiver.tamperReason`,
`tampering_is_rejected`), if the AEAD is not forged.
-/

namespace Srp

namespace Receiver

variable {r : Receiver} {w w' : Bytes} {record record' : ProtectedRecord}

/-- The first reason that applies to a frame `w'` in place of a frame `w`, by the bytes in which they differ
and the replay state. -/
def tamperReason (r : Receiver) (w w' : Bytes) : RejectReason :=
  if slice w' 0 1 ≠ slice w 0 1 ∨ slice w' 36 40 ≠ slice w 36 40 then .MALFORMED
  else if slice w' 1 2 ≠ slice w 1 2 then .SUITE_MISMATCH
  else if r.expected_session_id.isSome ∧ slice w' 4 20 ≠ slice w 4 20 then .SESSION_MISMATCH
  else
    match r.replay_guard.check (slice w' 4 20, Struct.decode (slice w' 20 24))
      (Struct.decode (slice w' 28 36)) with
    | .DUPLICATE => .REPLAY_DETECTED
    | .TOO_OLD => .STALE_RECORD
    | .INVALID => .STALE_RECORD
    | .FRESH => .AUTH_FAILED

/-- A frame that does not parse, of the length of one that does, differs from it where that matters. -/
theorem tamperReason_of_malformed (hp : parseRecord w = .ok record) (hlen : w'.length = w.length)
    (hno : ¬∃ record', parseRecord w' = .ok record') : r.tamperReason w w' = .MALFORMED := by
  rw [exists_parseRecord_iff_of_length hp hlen] at hno
  unfold tamperReason
  rw [if_pos (not_and_or.mp hno)]

/-- A frame that parses, in place of one that names the suite of the receiver and its pin if it has one, is
refused for the first reason that applies, unless none applies before authentication. -/
theorem tamperReason_of_parsed (hp : parseRecord w = .ok record) (hlen : w'.length = w.length)
    (hp' : parseRecord w' = .ok record') (hsuite : record.header.suite_id = r.suite.suite_id)
    (hpin : ∀ pin ∈ r.expected_session_id, record.header.session_id = pin) :
    r.tamperReason w w' = ((r.refusal record'.header).map Prod.fst).getD .AUTH_FAILED := by
  obtain ⟨hversion, hpayload⟩ := (exists_parseRecord_iff_of_length hp hlen).mp ⟨record', hp'⟩
  obtain ⟨hs, hsession, -, -⟩ := names_of_parseRecord hp
  obtain ⟨hs', hsession', hstream', hseq'⟩ := names_of_parseRecord hp'
  have hmin : 56 ≤ w.length := by
    obtain ⟨hmin, -⟩ := exists_parseRecord_iff.mp ⟨record, hp⟩
    exact hmin
  unfold tamperReason refusal
  rw [if_neg (by simp [hversion, hpayload])]
  -- One byte is determined by the number that it holds.
  have hsuite_iff : slice w' 1 2 ≠ slice w 1 2 ↔ record'.header.suite_id ≠ r.suite.suite_id := by
    have hwidth : (slice w' 1 2).length = (slice w 1 2).length := by
      rw [length_slice (by omega), length_slice (by omega)]
    rw [← hsuite, hs, hs', not_iff_not]
    constructor
    · intro h
      rw [h]
    · intro h
      exact Struct.decode_injective hwidth (by exact_mod_cast h)
  by_cases hne : record'.header.suite_id ≠ r.suite.suite_id
  · rw [if_pos (hsuite_iff.mpr hne), if_pos hne]
    rfl
  · rw [if_neg (mt hsuite_iff.mp hne), if_neg hne]
    have hcheck : (slice w' 4 20, (Struct.decode (slice w' 20 24) : ℤ)) = record'.header.streamKey := by
      unfold RecordHeader.streamKey
      rw [hsession', hstream']
    rw [hcheck, ← hseq', ← hsession', ← hsession]
    rcases hexpected : r.expected_session_id with - | pin
    · rw [Option.filter_none]
      dsimp only [Option.isSome_none]
      rw [if_neg (by simp)]
      cases r.replay_guard.check record'.header.streamKey record'.header.seq <;> rfl
    · have hsame : record.header.session_id = pin := hpin pin hexpected
      rw [hsame]
      by_cases hother : record'.header.session_id = pin
      · rw [if_neg (by simp [hother]), Option.filter_some_neg (by simpa using hother)]
        cases r.replay_guard.check record'.header.streamKey record'.header.seq <;> rfl
      · rw [if_pos (by simp [hother]), Option.filter_some_pos (by simpa using hother)]
        rfl

/-- A change of the record type, the flags, the nonce prefix, and the body only, of a record whose place is
fresh, leaves authentication to reject it. -/
theorem tamperReason_of_confined (hp : parseRecord w = .ok record)
    (hhead : slice w' 0 2 = slice w 0 2) (hstream : slice w' 4 24 = slice w 4 24)
    (hnumber : slice w' 28 40 = slice w 28 40)
    (hfresh : r.replay_guard.check record.header.streamKey record.header.seq = .FRESH) :
    r.tamperReason w w' = .AUTH_FAILED := by
  obtain ⟨-, hsession, hstreamId, hseq⟩ := names_of_parseRecord hp
  unfold RecordHeader.streamKey at hfresh
  rw [hsession, hstreamId, hseq] at hfresh
  unfold tamperReason
  rw [slice_congr hhead (by omega : 0 ≤ 0) (by omega : 1 ≤ 2),
    slice_congr hhead (by omega : 0 ≤ 1) (by omega : 2 ≤ 2),
    slice_congr hstream (by omega : 4 ≤ 4) (by omega : 20 ≤ 24),
    slice_congr hstream (by omega : 4 ≤ 20) (by omega : 24 ≤ 24),
    slice_congr hnumber (by omega : 28 ≤ 28) (by omega : 36 ≤ 40),
    slice_congr hnumber (by omega : 28 ≤ 36) (by omega : 40 ≤ 40), hfresh]
  simp

/-- A call whose record does not open, on a frame of the length of another that names the suite of the
receiver and its pin, rejects it for the first reason that applies. -/
theorem Outcome.tampered {st : ReceiveStep} (ho : r.Outcome w' st)
    (hdoc : r.suite.impl.DecryptDocumented) (hp : parseRecord w = .ok record)
    (hlen : w'.length = w.length) (hsuite : record.header.suite_id = r.suite.suite_id)
    (hpin : ∀ pin ∈ r.expected_session_id, record.header.session_id = pin)
    (hclosed : ∀ call plaintext, st.opened = some call → call.result ≠ .ok plaintext) :
    ∃ v, st.result = .ok v ∧ v.status = .REJECTED ∧ v.reason = some (r.tamperReason w w') ∧
      st.receiver.replay_guard = r.replay_guard := by
  rcases ho with ⟨hmalformed⟩ | ⟨hp', hr⟩ | ⟨hr, ho⟩ | ⟨hr, ho, he⟩ | ⟨hr, ho, hc⟩ | ⟨hr, ho, hc⟩
  · have hno : ¬∃ record', parseRecord w' = .ok record' := by
      rintro ⟨record', hp'⟩
      rw [hmalformed] at hp'
      cases hp'
    rw [tamperReason_of_malformed hp hlen hno]
    exact ⟨_, rfl, rfl, rfl, rfl⟩
  · rw [tamperReason_of_parsed hp hlen hp' hsuite hpin, hr]
    exact ⟨_, rfl, rfl, rfl, rfl⟩
  · rw [tamperReason_of_parsed hp hlen hr.parsed hsuite hpin, hr.passed]
    exact ⟨_, rfl, rfl, rfl, rfl⟩
  · obtain ⟨message, rfl⟩ := hr.exists_message hdoc ho
    exact absurd rfl (he message)
  · exact absurd rfl (hclosed _ _ rfl)
  · exact absurd rfl (hclosed _ _ rfl)

end Receiver

/-- Tamper evidence. In a run whose AEAD is not forged, let a sender emit a frame `w`, and let the receiver
have its suite and be pinned to its session or to none. Then at every position of the run every byte string
of the length of `w` that was not emitted before is rejected, for the first reason that applies, and leaves
the replay state. Where the change is confined to bytes that only authentication looks at, and the record
is fresh, the reason is that authentication failed. -/
theorem tampering_is_rejected {ι : Type*} [DecidableEq ι] {c : ReceiverConfig} {senders : ι → Sender}
    {es : List (Event ι)} {d e : ℕ} {i : ι} {record : ProtectedRecord} {payload w w' : Bytes}
    {st : ReceiveStep} (hunforged : Unforged (c.run senders es))
    (hdoc : c.suite.impl.DecryptDocumented) (hadds : c.suite.impl.AddsTag)
    (hsuite : (senders i).suite = c.suite)
    (hpin : ∀ pin ∈ c.expected_session_id, (senders i).session_id = pin)
    (hw : EmitsAt (c.run senders es) e i record payload w)
    (hget : (c.run senders es)[d]? = some (.delivered w' st)) (hlen : w'.length = w.length)
    (hnot : ∀ e' < d, ∀ j record' payload', ¬EmitsAt (c.run senders es) e' j record' payload' w') :
    let r := (Mealy.after System.step ⟨senders, c.new⟩ (es.take d)).receiver
    ∃ v, st.result = .ok v ∧ v.status = .REJECTED ∧ v.reason = some (r.tamperReason w w') ∧
      st.receiver.replay_guard = r.replay_guard ∧
      (slice w' 0 2 = slice w 0 2 → slice w' 4 24 = slice w 4 24 → slice w' 28 40 = slice w 28 40 →
        r.replay_guard.check record.header.streamKey record.header.seq = .FRESH →
          v.reason = some .AUTH_FAILED) := by
  intro r
  obtain ⟨-, hst⟩ := exists_of_delivered hget
  obtain ⟨hp, hsuite_id, hsession⟩ := hw.parsed (hsuite.symm ▸ hadds)
  have hconfig : r.config = c := (receiver_of_run_take c senders es d).1
  have ho : r.Outcome w' st := hst ▸ r.receive_outcome w'
  clear_value r
  subst hconfig
  -- What opens was emitted.
  have hclosed : ∀ call plaintext, st.opened = some call → call.result ≠ .ok plaintext := by
    intro call plaintext hopened hresult
    obtain ⟨record', nonce, aad, hp', -, haad, -, rfl⟩ := ho.parsed_of_opened hopened hresult
    obtain ⟨e', hlt, j, hemits⟩ := exists_emitsAt_of_opened hunforged hget hp' haad hopened
    exact hnot e' hlt j record' plaintext hemits
  have hsuite' : record.header.suite_id = r.suite.suite_id := by
    rw [hsuite_id, hsuite]
  have hpin' : ∀ pin ∈ r.expected_session_id, record.header.session_id = pin :=
    fun pin hmem => hsession.trans (hpin pin hmem)
  obtain ⟨v, hv, hrejected, hreason, hguard⟩ := ho.tampered hdoc hp hlen hsuite' hpin' hclosed
  refine ⟨v, hv, hrejected, hreason, hguard, fun hhead hstream hnumber hfresh => ?_⟩
  rw [hreason, Receiver.tamperReason_of_confined hp hhead hstream hnumber hfresh]

/-- A frame is emitted, and delivered with a byte of its tag changed. -/
theorem tampering_is_rejected_of_tag :
    let w' := checksumFrame.set 50 0
    ∃ v, (checksumConfig.new.receive w').result = .ok v ∧ v.status = .REJECTED ∧
      v.reason = some (checksumConfig.new.tamperReason checksumFrame w') := by
  intro w'
  let es : List (Event Unit) := [.send () (.frame { payload := some [1, 2, 3] }), .deliver w']
  have hwire : (checksumSender.step (.frame { payload := some [1, 2, 3] })).1.wire =
      some (.ok checksumFrame) := congrArg some checksumSender_protect
  obtain ⟨record, hemits⟩ : ∃ record,
      EmitsAt (checksumConfig.run (fun _ => checksumSender) es) 0 () record [1, 2, 3] checksumFrame :=
    exists_emitsAt_of_returns rfl rfl (.inl hwire)
  have hclosed : (checksumConfig.new.receive w').opened.map SuiteOpen.result =
      some (.error (.authenticationFailure "AEAD tag verification failed")) := by decide +kernel
  have hunforged : Unforged (checksumConfig.run (fun _ => checksumSender) es) := by
    intro d wire st call plaintext hget hopened hresult
    obtain ⟨hev, hst⟩ := exists_of_delivered hget
    match d with
    | 0 => cases hev
    | 1 =>
      cases hev
      have hst' : st = checksumConfig.new.receive w' := hst
      rw [← hst', hopened, Option.map_some, hresult] at hclosed
      cases hclosed
    | n + 2 => cases hev
  have hnot : ∀ e' < 1, ∀ j record' payload',
      ¬EmitsAt (checksumConfig.run (fun _ => checksumSender) es) e' j record' payload' w' := by
    rintro e' hlt j record' payload' ⟨⟨call, st, hget, -, hresult⟩, hbytes⟩
    obtain rfl : e' = 0 := by omega
    obtain ⟨hev, hst⟩ := exists_of_sent hget
    cases hev
    obtain ⟨record'', hresult', hbytes'⟩ := Sender.exists_record_of_returns (.inl hwire)
    have hsame : st = (checksumSender.step (.frame { payload := some [1, 2, 3] })).1 := hst
    rw [hsame, hresult'] at hresult
    obtain rfl := Except.ok.inj hresult
    have hframe : checksumFrame = w' := Except.ok.inj (hbytes'.symm.trans hbytes)
    exact absurd hframe (by decide)
  obtain ⟨v, hv, hrejected, hreason, -⟩ := tampering_is_rejected hunforged
    Backend.checksum_documented (fun hn hc => Backend.checksum_seals.length hn hc) rfl
    (fun pin hmem => Option.some.inj hmem) hemits (d := 1) rfl rfl hnot
  exact ⟨v, hv, hrejected, hreason⟩

end Srp
