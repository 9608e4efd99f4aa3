import Srp.Refinement

/-!
# What a rejection tells

Two receivers that differ in their keys are handed two frames with one header and bodies of one length.
As long as neither accepts, their verdicts agree in every field, and so do the states that they are left
in (`no_decryption_oracle`): nothing that a rejection returns or records depends on the key, the
ciphertext, or the tag. Of the two texts that `AeadSuite.open` fails with, only one is left for the
records that a receiver opens (`Receiver.Reaches.message_eq`).
-/

namespace Srp

/-- Frames of one length with one header both are malformed, for the same reason, or both parse, to
records with that header. -/
theorem parseRecord_congr {wire wire' : Bytes} (hlen : wire.length = wire'.length)
    (hhead : wire.take headerLen = wire'.take headerLen) :
    (∃ message, parseRecord wire = .error (.malformedRecordError message) ∧
      parseRecord wire' = .error (.malformedRecordError message)) ∨
    ∃ header, parseRecord wire = .ok ⟨header, wire.drop headerLen⟩ ∧
      parseRecord wire' = .ok ⟨header, wire'.drop headerLen⟩ := by
  have hbody : (wire.drop headerLen).length = (wire'.drop headerLen).length := by
    rw [List.length_drop, List.length_drop, hlen]
  unfold parseRecord
  dsimp only
  rw [← hlen, ← hhead, ← hbody]
  split_ifs with hmin
  · exact .inl ⟨_, rfl, rfl⟩
  · rcases hh : RecordHeader.fromBytes (wire.take headerLen) with e | header
    · obtain ⟨message, rfl⟩ := RecordHeader.fromBytes_error hh
      exact .inl ⟨message, rfl, rfl⟩
    · dsimp only
      split_ifs with hlimit hexpected
      · exact .inl ⟨_, rfl, rfl⟩
      · exact .inl ⟨_, rfl, rfl⟩
      · exact .inr ⟨header, rfl, rfl⟩

namespace Receiver

variable {r r' : Receiver} {wire wire' nonce aad : Bytes} {record : ProtectedRecord}

/-- The body of a parsed record has room for a tag, so `AeadSuite.open` fails on it with one text
only. -/
theorem Reaches.message_eq (h : r.Reaches wire record nonce aad) {message : String}
    (ho : r.suite.open nonce record.ciphertext_and_tag aad = .error (.authenticationFailure message)) :
    message = "AEAD tag verification failed" := by
  have hnonce : nonce.length = nonceLen := length_deriveNonce h.nonce
  have hroom : suiteTagLen ≤ record.ciphertext_and_tag.length := by
    obtain ⟨-, -, -, hlen⟩ := parseRecord_eq_ok.mp h.parsed
    have h0 := record.header.admitted.payload_len.1
    rw [tagLen_eq] at hlen
    unfold suiteTagLen
    omega
  unfold AeadSuite.open at ho
  rw [if_neg (not_not.mpr hnonce), if_neg (not_lt.mpr hroom)] at ho
  split at ho
  · cases ho
  · cases ho
    rfl
  · cases ho

/-- Two receivers of one suite, with one pin, the same limits, and the same replay state, whatever their
keys. -/
structure AgreeButKey (r r' : Receiver) : Prop where
  suite : r.suite.cls = r'.suite.cls
  expected_session_id : r.expected_session_id = r'.expected_session_id
  replay_guard : r.replay_guard = r'.replay_guard

/-- Steps 2 to 4 do not look at the key. -/
theorem AgreeButKey.refusal_eq (h : r.AgreeButKey r') (header : RecordHeader) :
    r.refusal header = r'.refusal header := by
  unfold refusal AeadSuite.suite_id
  rw [h.suite, h.expected_session_id, h.replay_guard]

/-- Both calls return one verdict, a rejection, and leave states that agree but for the key and count one
rejection more, for the same reason. -/
structure RejectAlike (r r' : Receiver) (st st' : ReceiveStep) (v : Verdict) : Prop where
  result : st.result = .ok v
  result' : st'.result = .ok v
  agree : st.receiver.AgreeButKey st'.receiver
  stats : ∃ reason, v.reason = some reason ∧ st.receiver.stats = r.stats.noteRejection reason ∧
    st'.receiver.stats = r'.stats.noteRejection reason

/-- Two rejections that build the same verdict. -/
theorem AgreeButKey.rejectAlike (h : r.AgreeButKey r') (reason : RejectReason)
    (header : Option RecordHeader) (detail : String) (opened opened' : Option SuiteOpen) :
    r.RejectAlike r' ⟨.ok (.rejection reason header detail), r.rejected reason, opened⟩
      ⟨.ok (.rejection reason header detail), r'.rejected reason, opened'⟩
      (.rejection reason header detail) :=
  ⟨rfl, rfl, ⟨h.suite, h.expected_session_id, h.replay_guard⟩, reason, rfl, rfl, rfl⟩

/-- What is rejected before the AEAD is reached is rejected identically by the other. -/
theorem AgreeButKey.rejectAlike_of_not_opened (h : r.AgreeButKey r')
    (hlen : wire.length = wire'.length) (hhead : wire.take headerLen = wire'.take headerLen)
    {v : Verdict} (hv : (r.receive wire).result = .ok v) (hopened : (r.receive wire).opened = none) :
    r.RejectAlike r' (r.receive wire) (r'.receive wire') v ∧ (r'.receive wire').opened = none := by
  have ho := r.receive_outcome wire
  generalize r.receive wire = st at ho hv hopened ⊢
  rcases ho with ⟨hp⟩ | ⟨hp, hr⟩ | - | - | - | -
  · rcases parseRecord_congr hlen hhead with ⟨message, hp₁, hp₂⟩ | ⟨header, hp₁, -⟩
    · obtain rfl := Error.malformedRecordError.inj (Except.error.inj (hp.symm.trans hp₁))
      cases hv
      rw [← (Outcome.malformed hp₂ : r'.Outcome wire' _).eq_receive]
      exact ⟨h.rejectAlike _ _ _ _ _, rfl⟩
    · rw [hp] at hp₁
      cases hp₁
  · rcases parseRecord_congr hlen hhead with ⟨message, hp₁, -⟩ | ⟨header, hp₁, hp₂⟩
    · rw [hp] at hp₁
      cases hp₁
    -- The other record has the same header, and that is all that is looked at.
    · obtain rfl := Except.ok.inj (hp.symm.trans hp₁)
      rw [h.refusal_eq] at hr
      cases hv
      rw [← (Outcome.refused hp₂ hr : r'.Outcome wire' _).eq_receive]
      exact ⟨h.rejectAlike _ _ _ _ _, rfl⟩
  all_goals cases hopened

/-- Where `suite.open` fails in both, both return one verdict. -/
theorem AgreeButKey.rejectAlike_of_failed (h : r.AgreeButKey r')
    (hlen : wire.length = wire'.length) (hhead : wire.take headerLen = wire'.take headerLen)
    {call call' : SuiteOpen} {message message' : String}
    (hcall : (r.receive wire).opened = some call)
    (hfailed : call.result = .error (.authenticationFailure message))
    (hcall' : (r'.receive wire').opened = some call')
    (hfailed' : call'.result = .error (.authenticationFailure message')) :
    ∃ v, r.RejectAlike r' (r.receive wire) (r'.receive wire') v := by
  have ho := r.receive_outcome wire
  have ho' := r'.receive_outcome wire'
  generalize r.receive wire = st at ho hcall ⊢
  generalize r'.receive wire' = st' at ho' hcall' ⊢
  rcases ho with - | - | ⟨hr, hopen⟩ | ⟨-, -, he⟩ | - | -
  · cases hcall
  · cases hcall
  · rcases ho' with - | - | ⟨hr', hopen'⟩ | ⟨-, -, he'⟩ | - | -
    · cases hcall'
    · cases hcall'
    · rcases parseRecord_congr hlen hhead with ⟨message, hp₁, -⟩ | ⟨header, hp₁, hp₂⟩
      · rw [hr.parsed] at hp₁
        cases hp₁
      · obtain rfl := Except.ok.inj (hr.parsed.symm.trans hp₁)
        obtain rfl := Except.ok.inj (hr'.parsed.symm.trans hp₂)
        obtain rfl := hr.message_eq hopen
        obtain rfl := hr'.message_eq hopen'
        exact ⟨_, h.rejectAlike _ _ _ _ _⟩
    -- The other call raised, or its record opened.
    · cases hcall'
      exact absurd (Except.error.inj hfailed') (he' message')
    · cases hcall'
      cases hfailed'
    · cases hcall'
      cases hfailed'
  · cases hcall
    exact absurd (Except.error.inj hfailed) (he message)
  · cases hcall
    cases hfailed
  · cases hcall
    cases hfailed

/-- Where a record that got to `suite.open` is rejected, that failed. -/
theorem Outcome.failed_of_rejected {st : ReceiveStep} {v : Verdict} {call : SuiteOpen}
    (ho : r.Outcome wire st) (hv : st.result = .ok v) (hno : v.status ≠ .ACCEPTED)
    (hcall : st.opened = some call) :
    ∃ message, call.result = .error (.authenticationFailure message) := by
  rcases ho with - | - | ⟨hr, hopen⟩ | - | - | -
  · cases hcall
  · cases hcall
  · cases hcall
    exact ⟨_, rfl⟩
  · cases hv
  · cases hv
  · cases hv
    exact absurd rfl hno

theorem AgreeButKey.symm (h : r.AgreeButKey r') : r'.AgreeButKey r :=
  ⟨h.suite.symm, h.expected_session_id.symm, h.replay_guard.symm⟩

end Receiver

/-- No decryption oracle. Let two receivers differ in no more than their keys and counters, and two frames
in no more than what follows the header. What the one rejects before the AEAD is reached, the other
rejects identically, and where `suite.open` fails in both, both return one verdict. So any two rejections
are equal in every field, and the states after them agree, whatever the cause. -/
theorem no_decryption_oracle {r r' : Receiver} (hagree : r.AgreeButKey r') {w w' : Bytes}
    (hlen : w.length = w'.length) (hhead : w.take headerLen = w'.take headerLen) :
    let st := r.receive w
    let st' := r'.receive w'
    (∀ v, st.result = .ok v → st.opened = none → r.RejectAlike r' st st' v ∧ st'.opened = none) ∧
    (∀ call call' message message',
      st.opened = some call → call.result = .error (.authenticationFailure message) →
      st'.opened = some call' → call'.result = .error (.authenticationFailure message') →
        ∃ v, r.RejectAlike r' st st' v) ∧
    ∀ v v', st.result = .ok v → v.status ≠ .ACCEPTED → st'.result = .ok v' → v'.status ≠ .ACCEPTED →
      v = v' ∧ r.RejectAlike r' st st' v := by
  intro st st'
  refine ⟨fun v hv hopened => hagree.rejectAlike_of_not_opened hlen hhead hv hopened,
    fun call call' message message' hcall hfailed hcall' hfailed' =>
      hagree.rejectAlike_of_failed hlen hhead hcall hfailed hcall' hfailed',
    fun v v' hv hno hv' hno' => ?_⟩
  suffices hsuff : ∃ u, r.RejectAlike r' st st' u by
    obtain ⟨u, hu⟩ := hsuff
    obtain rfl : u = v := Except.ok.inj (hu.result.symm.trans hv)
    obtain rfl : u = v' := Except.ok.inj (hu.result'.symm.trans hv')
    exact ⟨rfl, hu⟩
  rcases hcall : st.opened with - | call
  · exact ⟨v, (hagree.rejectAlike_of_not_opened hlen hhead hv hcall).1⟩
  · rcases hcall' : st'.opened with - | call'
    -- Rejected before the AEAD by the second, and so by the first.
    · have hfirst : st.opened = none :=
        (hagree.symm.rejectAlike_of_not_opened hlen.symm hhead.symm hv' hcall').2
      rw [hcall] at hfirst
      cases hfirst
    · obtain ⟨message, hfailed⟩ := (r.receive_outcome w).failed_of_rejected hv hno hcall
      obtain ⟨message', hfailed'⟩ := (r'.receive_outcome w').failed_of_rejected hv' hno' hcall'
      exact hagree.rejectAlike_of_failed hlen hhead hcall hfailed hcall' hfailed'

/-- A changed ciphertext under one key, and a changed tag under another. -/
theorem no_decryption_oracle_of_keys :
    let r := checksumConfig.new
    let r' := { r with suite := ⟨r.suite.cls, List.replicate keyLen 1, rfl⟩ }
    ∃ v, r.RejectAlike r' (r.receive (checksumFrame.set 41 9)) (r'.receive (checksumFrame.set 50 9)) v := by
  intro r r'
  have hagree : r.AgreeButKey r' := ⟨rfl, rfl, rfl⟩
  have hopened : (r.receive (checksumFrame.set 41 9)).opened.map SuiteOpen.result =
      some (.error (.authenticationFailure "AEAD tag verification failed")) := by decide +kernel
  have hopened' : (r'.receive (checksumFrame.set 50 9)).opened.map SuiteOpen.result =
      some (.error (.authenticationFailure "AEAD tag verification failed")) := by decide +kernel
  obtain ⟨call, hcall, hfailed⟩ := Option.map_eq_some_iff.mp hopened
  obtain ⟨call', hcall', hfailed'⟩ := Option.map_eq_some_iff.mp hopened'
  exact (no_decryption_oracle hagree (by decide) (by decide)).2.1 call call' _ _ hcall hfailed hcall'
    hfailed'

end Srp
