import Srp.System

/-!
# Injective agreement

Every acceptance in a run of senders and a receiver is accounted for by a call of `seal` of its own, with
the same header and payload (`injective_agreement`), if the AEAD is not forged.
-/

namespace Srp

variable {ι : Type*}

/-- A call of `seal` accounts for a verdict: it returned a record with the header of the verdict, and
its payload is the plaintext. -/
def Observation.AccountsFor (o : Observation ι) (v : Verdict) : Prop :=
  ∃ i call st record payload, o = .sent i call st ∧ st.result = .ok record ∧
    v.header = some record.header ∧ call.args.payload = some payload ∧ v.plaintext = some payload

/-- The delivery at a position is accepted with a verdict. -/
def AcceptsAt (os : List (Observation ι)) (d : ℕ) (v : Verdict) : Prop :=
  ∃ wire st, os[d]? = some (.delivered wire st) ∧ st.result = .ok v ∧ v.status = .ACCEPTED

/-- An accepted delivery: the record that it parses to, what it was opened under, and what it opened
to. -/
structure Opened (c : ReceiverConfig) (os : List (Observation ι)) (d : ℕ) (wire : Bytes)
    (record : ProtectedRecord) (nonce aad plaintext : Bytes) (st : ReceiveStep) : Prop where
  get : os[d]? = some (.delivered wire st)
  parsed : parseRecord wire = .ok record
  toBytes : record.header.toBytes = .ok aad
  pinned : ∀ pin ∈ c.expected_session_id, record.header.session_id = pin
  opened : st.opened = some ⟨nonce, record.ciphertext_and_tag, aad, .ok plaintext⟩
  place : st.acceptedPlace = some record.header.place
  /-- The place is new to the history. -/
  fresh : record.header.place ∉ historyBefore os d

section Run

variable [DecidableEq ι] {s : System ι} {es : List (Event ι)} {d : ℕ}

/-- What an acceptance says of its delivery: the record got to `suite.open` and opened, and its place is
new to the history. -/
theorem exists_opened {c : ReceiverConfig} {senders : ι → Sender} {es : List (Event ι)}
    {wire : Bytes} {st : ReceiveStep} {v : Verdict}
    (hget : (c.run senders es)[d]? = some (.delivered wire st)) (hv : st.result = .ok v)
    (hacc : v.status = .ACCEPTED) :
    ∃ record nonce aad plaintext, v = .acceptance plaintext record.header ∧
      Opened c (c.run senders es) d wire record nonce aad plaintext st := by
  obtain ⟨-, hst⟩ := exists_of_delivered hget
  obtain ⟨hconfig, hrep⟩ := receiver_of_run_take c senders es d
  generalize (Mealy.after System.step ⟨senders, c.new⟩ (es.take d)).receiver = r at hst hconfig hrep
  have ho := r.receive_outcome wire
  rw [← hst] at ho
  have hnew := (ho.represents hrep).2
  -- The other outcomes are rejections or raise.
  cases ho with
  | @accepted record nonce aad plaintext changed hr ho hc =>
    cases hv
    have hpin : ∀ pin ∈ c.expected_session_id, record.header.session_id = pin :=
      hconfig ▸ (Receiver.refusal_eq_none.mp hr.passed).2.1
    have hfresh : record.header.place ∉ historyBefore (c.run senders es) d := hnew _ rfl
    exact ⟨record, nonce, aad, plaintext, rfl, hget, hr.parsed, hr.aad, hpin, rfl, rfl, hfresh⟩
  | openRaised => cases hv
  | commitRaised => cases hv
  | _ =>
    cases hv
    cases hacc

/-- A call that sealed a payload returned a record with the header that it sealed it under. -/
theorem exists_of_sealed {i : ι} {call : SenderCall} {st : SenderStep} {nonce payload aad c : Bytes}
    (h : (Mealy.outputs System.step s es)[d]? = some (.sent i call st))
    (hsealed : st.sealed = some ⟨nonce, payload, aad, .ok c⟩) :
    ∃ header : RecordHeader, st.result = .ok ⟨header, c⟩ ∧ header.toBytes = .ok aad ∧
      call.args.payload = some payload := by
  obtain ⟨-, rfl⟩ := exists_of_sent h
  have ho := ((Mealy.after System.step s (es.take d)).senders i).step_outcome call
  generalize (((Mealy.after System.step s (es.take d)).senders i).step call).1.toSealStep = st at *
  cases ho with
  | returned hp _ _ _ haad =>
    cases hsealed
    exact ⟨_, rfl, haad, (checkPayload_eq_ok.mp hp).1⟩
  -- Here `suite.seal` was called too, but raised.
  | sealRefused => cases hsealed
  | _ => cases hsealed

/-- A frame whose record opened was emitted before, if the AEAD is not forged. -/
theorem exists_emitsAt_of_opened {wire : Bytes} {record : ProtectedRecord} {nonce aad plaintext : Bytes}
    {st : ReceiveStep} (hunforged : Unforged (Mealy.outputs System.step s es))
    (hget : (Mealy.outputs System.step s es)[d]? = some (.delivered wire st))
    (hparsed : parseRecord wire = .ok record) (htoBytes : record.header.toBytes = .ok aad)
    (hopened : st.opened = some ⟨nonce, record.ciphertext_and_tag, aad, .ok plaintext⟩) :
    ∃ e < d, ∃ i, EmitsAt (Mealy.outputs System.step s es) e i record plaintext wire := by
  obtain ⟨e, hlt, i, call, st', hsent, hsealed⟩ := hunforged d wire st _ plaintext hget hopened rfl
  obtain ⟨header, hresult, haad, hpayload⟩ := exists_of_sealed hsent hsealed
  -- The associated data determines the header.
  obtain rfl : header = record.header := RecordHeader.toBytes_injective haad htoBytes
  have hwire : record.toBytes = .ok wire := (parseRecord_eq_ok.mp hparsed).1
  exact ⟨e, hlt, i, ⟨call, st', hsent, hpayload, hresult⟩, hwire⟩

/-- The frame of an accepted delivery was emitted before, if the AEAD is not forged. -/
theorem Opened.exists_emitsAt {c : ReceiverConfig} {wire : Bytes} {record : ProtectedRecord}
    {nonce aad plaintext : Bytes} {st : ReceiveStep} (hunforged : Unforged (Mealy.outputs System.step s es))
    (h : Opened c (Mealy.outputs System.step s es) d wire record nonce aad plaintext st) :
    ∃ e < d, ∃ i, EmitsAt (Mealy.outputs System.step s es) e i record plaintext wire :=
  exists_emitsAt_of_opened hunforged h.get h.parsed h.toBytes h.opened

/-- An acceptance is accounted for by an earlier call of `seal`. -/
theorem exists_accountsFor {c : ReceiverConfig} {senders : ι → Sender} {es : List (Event ι)}
    (hunforged : Unforged (c.run senders es)) {v : Verdict} (h : AcceptsAt (c.run senders es) d v) :
    ∃ e < d, ∃ o, (c.run senders es)[e]? = some o ∧ o.AccountsFor v := by
  obtain ⟨wire, st, hget, hv, hacc⟩ := h
  obtain ⟨record, nonce, aad, plaintext, rfl, hd⟩ := exists_opened hget hv hacc
  obtain ⟨e, hlt, i, ⟨call, st', hsent, hpayload, hresult⟩, -⟩ := hd.exists_emitsAt hunforged
  exact ⟨e, hlt, _, hsent, i, call, st', record, plaintext, rfl, hresult, rfl, hpayload, rfl⟩

/-- The earlier of two acceptances puts its place into the history, so the later has another. -/
theorem not_lt_of_same_place {c : ReceiverConfig} {senders : ι → Sender} {es : List (Event ι)}
    {d d' : ℕ} {v v' : Verdict}
    (h : AcceptsAt (c.run senders es) d v)
    (h' : AcceptsAt (c.run senders es) d' v')
    (hplace : v.header.map RecordHeader.place = v'.header.map RecordHeader.place) : ¬d < d' := by
  intro hlt
  obtain ⟨wire, st, hget, hv, hacc⟩ := h
  obtain ⟨_, _, hget', hv', hacc'⟩ := h'
  obtain ⟨record, _, _, _, rfl, hd⟩ := exists_opened hget hv hacc
  obtain ⟨record', _, _, _, rfl, hd'⟩ := exists_opened hget' hv' hacc'
  have hsame : record.header.place = record'.header.place := Option.some.inj hplace
  have hbefore : st ∈ deliveries ((c.run senders es).take d') :=
    mem_deliveries_take.mpr ⟨d, hlt, wire, hd.get⟩
  have hseen : record.header.place ∈ historyBefore (c.run senders es) d' :=
    History.mem_ofRun.mpr ⟨st, hbefore, hd.place⟩
  exact hd'.fresh (hsame ▸ hseen)

/-- No two deliveries of a run are accepted with the same stream and sequence number. -/
theorem eq_of_same_place {c : ReceiverConfig} {senders : ι → Sender} {es : List (Event ι)}
    {d d' : ℕ} {v v' : Verdict}
    (h : AcceptsAt (c.run senders es) d v)
    (h' : AcceptsAt (c.run senders es) d' v')
    (hplace : v.header.map RecordHeader.place = v'.header.map RecordHeader.place) : d = d' := by
  have hle := not_lt_of_same_place h h' hplace
  have hge := not_lt_of_same_place h' h hplace.symm
  omega

end Run

/-- Injective agreement. In every run of senders and a receiver over an AEAD that is not forged, each
accepted delivery is preceded by a call of `seal` of its own, with the same header and with the
plaintext for its payload. The header names the pinned session, and no two accepted deliveries carry
the same stream and sequence number. -/
theorem injective_agreement [DecidableEq ι] (c : ReceiverConfig) (senders : ι → Sender)
    (es : List (Event ι)) (hunforged : Unforged (c.run senders es)) :
    let os := c.run senders es
    ∃ f : ℕ → ℕ,
      (∀ d v, AcceptsAt os d v → f d < d ∧ (∃ o, os[f d]? = some o ∧ o.AccountsFor v) ∧
        ∀ pin ∈ c.expected_session_id, v.header.map (·.session_id) = some pin) ∧
      (∀ d d' v v', AcceptsAt os d v → AcceptsAt os d' v' →
        v.header.map RecordHeader.place = v'.header.map RecordHeader.place → d = d') ∧
      ∀ d d' v v', AcceptsAt os d v → AcceptsAt os d' v' → f d = f d' → d = d' := by
  intro os
  -- A delivery that is accepted has one verdict, so the call can be chosen for the delivery.
  have hex : ∀ d, ∃ e, ∀ v, AcceptsAt os d v → e < d ∧ ∃ o, os[e]? = some o ∧ o.AccountsFor v := by
    intro d
    by_cases hacc : ∃ v, AcceptsAt os d v
    · obtain ⟨v, hv⟩ := hacc
      obtain ⟨e, hlt, hfor⟩ := exists_accountsFor hunforged hv
      refine ⟨e, fun v' hv' => ⟨hlt, ?_⟩⟩
      obtain ⟨_, st, hget, hres, -⟩ := hv
      obtain ⟨_, st', hget', hres', -⟩ := hv'
      rw [hget] at hget'
      cases hget'
      rw [hres] at hres'
      exact Except.ok.inj hres' ▸ hfor
    · exact ⟨0, fun v hv => absurd ⟨v, hv⟩ hacc⟩
  choose f hf using hex
  refine ⟨f, fun d v hv => ⟨(hf d v hv).1, (hf d v hv).2, ?_⟩, ?_, ?_⟩
  · obtain ⟨_, _, hget, hres, hacc⟩ := hv
    obtain ⟨_, _, _, _, rfl, hd⟩ := exists_opened hget hres hacc
    exact fun pin hmem => congrArg some (hd.pinned pin hmem)
  · exact fun d d' v v' hv hv' hplace => eq_of_same_place hv hv' hplace
  · intro d d' v v' hv hv' heq
    obtain ⟨-, o, ho, hfor⟩ := hf d v hv
    obtain ⟨-, o', ho', hfor'⟩ := hf d' v' hv'
    rw [heq, ho'] at ho
    obtain rfl := Option.some.inj ho
    -- One call of `seal` returns one header.
    obtain ⟨_, _, st, record, _, rfl, hres, hheader, -, -⟩ := hfor
    obtain ⟨_, _, st', record', _, heq', hres', hheader', -, -⟩ := hfor'
    cases heq'
    rw [hres] at hres'
    cases hres'
    have hsame : v.header = v'.header := hheader.trans hheader'.symm
    exact eq_of_same_place hv hv' (congrArg (Option.map RecordHeader.place) hsame)

/-- A frame that is delivered twice is accepted once, on account of the call that emitted it. -/
theorem injective_agreement_of_replay :
    ∃ f : ℕ → ℕ, ∀ d v, AcceptsAt checksumRun d v →
      f d < d ∧ ∃ o, checksumRun[f d]? = some o ∧ o.AccountsFor v := by
  obtain ⟨f, hf, -⟩ := injective_agreement checksumConfig (fun _ => checksumSender) checksumEvents
    unforged_checksumRun
  exact ⟨f, fun d v h => ⟨(hf d v h).1, (hf d v h).2.1⟩⟩

end Srp
