import Srp.NonceUse
import Srp.Session

/-!
# Senders, a receiver, and a network in between

A family of senders and one receiver. The network is the attacker's: any byte string can be delivered
at any time. What the AEAD is trusted for is stated of a run (`Unforged`): whatever opens was sealed
by one of the senders before. It holds wherever the network only relays (`unforged_of_relayed`).
-/

namespace Srp

/-! ## Runs -/

/-- The senders and the receiver. -/
structure System (ι : Type*) where
  senders : ι → Sender
  receiver : Receiver

/-- What can happen: a sender is called, or a byte string is delivered. -/
inductive Event (ι : Type*)
  | send (i : ι) (call : SenderCall)
  | deliver (wire : Bytes)

/-- What is seen of an event. -/
inductive Observation (ι : Type*)
  | sent (i : ι) (call : SenderCall) (st : SenderStep)
  | delivered (wire : Bytes) (st : ReceiveStep)

variable {ι : Type*}

/-- One event. -/
def System.step [DecidableEq ι] (s : System ι) : Event ι → Observation ι × System ι
  | .send i call =>
    (.sent i call ((s.senders i).step call).1,
      { s with senders := Function.update s.senders i ((s.senders i).step call).2 })
  | .deliver wire =>
    (.delivered wire (s.receiver.receive wire),
      { s with receiver := (s.receiver.receive wire).receiver })

/-- What is seen of a run of senders and the new receiver. -/
abbrev ReceiverConfig.run [DecidableEq ι] (c : ReceiverConfig) (senders : ι → Sender)
    (es : List (Event ι)) : List (Observation ι) :=
  Mealy.outputs System.step ⟨senders, c.new⟩ es

/-- The calls of `receive` in a run. -/
def deliveries (os : List (Observation ι)) : List ReceiveStep :=
  os.filterMap fun
    | .sent _ _ _ => none
    | .delivered _ st => some st

/-- The history of a run before a position. -/
abbrev historyBefore (os : List (Observation ι)) (d : ℕ) : History := .ofRun (deliveries (os.take d))

/-- The AEAD is not forged in a run: what opens under a nonce and associated data was sealed under
them before, and is what was sealed. -/
def Unforged (os : List (Observation ι)) : Prop :=
  ∀ (d : ℕ) (wire : Bytes) (st : ReceiveStep) (call : SuiteOpen) (plaintext : Bytes),
    os[d]? = some (Observation.delivered wire st) → st.opened = some call →
      call.result = .ok plaintext →
        ∃ e < d, ∃ (i : ι) (sending : SenderCall) (st' : SenderStep),
          os[e]? = some (Observation.sent i sending st') ∧
            st'.sealed = some ⟨call.nonce, plaintext, call.aad, .ok call.ciphertext_and_tag⟩

/-- The calls of `receive` before a position are those of the run up to it. -/
theorem mem_deliveries_take {os : List (Observation ι)} {st : ReceiveStep} {d : ℕ} :
    st ∈ deliveries (os.take d) ↔ ∃ d' < d, ∃ wire, os[d']? = some (.delivered wire st) := by
  simp only [deliveries, List.mem_filterMap]
  constructor
  · rintro ⟨o, ho, hst⟩
    obtain ⟨d', hd'⟩ := List.getElem?_of_mem ho
    rw [List.getElem?_take] at hd'
    split_ifs at hd' with hlt
    cases o with
    | sent => cases hst
    | delivered wire st' =>
      cases hst
      exact ⟨d', hlt, wire, hd'⟩
  · rintro ⟨d', hlt, wire, hget⟩
    refine ⟨.delivered wire st, List.mem_of_getElem? (i := d') ?_, rfl⟩
    rw [List.getElem?_take_of_lt hlt, hget]

/-- A call of a sender at a position of a run returned a record, sealed from a payload, whose encoding
is a frame. -/
structure EmitsAt (os : List (Observation ι)) (e : ℕ) (i : ι) (record : ProtectedRecord)
    (payload wire : Bytes) : Prop where
  sent : ∃ call st, os[e]? = some (.sent i call st) ∧ call.args.payload = some payload ∧
    st.result = .ok record
  toBytes : record.toBytes = .ok wire

section Run

variable [DecidableEq ι] {s : System ι} {es : List (Event ι)} {d : ℕ}

/-- The answer to a call of a sender at a position is the sender's in the state there. -/
theorem exists_of_sent {i : ι} {call : SenderCall} {st : SenderStep}
    (h : (Mealy.outputs System.step s es)[d]? = some (.sent i call st)) :
    es[d]? = some (.send i call) ∧
      st = (((Mealy.after System.step s (es.take d)).senders i).step call).1 := by
  obtain ⟨ev, hev, ho⟩ := Mealy.exists_of_getElem?_outputs h
  cases ev with
  | send j call' =>
    cases ho
    exact ⟨hev, rfl⟩
  | deliver wire => cases ho

/-- The answer to a delivery at a position is the receiver's in the state there. -/
theorem exists_of_delivered {wire : Bytes} {st : ReceiveStep}
    (h : (Mealy.outputs System.step s es)[d]? = some (.delivered wire st)) :
    es[d]? = some (.deliver wire) ∧
      st = (Mealy.after System.step s (es.take d)).receiver.receive wire := by
  obtain ⟨ev, hev, ho⟩ := Mealy.exists_of_getElem?_outputs h
  cases ev with
  | send j call' => cases ho
  | deliver wire' =>
    cases ho
    exact ⟨hev, rfl⟩

/-- The receiver of a run from a new one keeps its configuration, and its replay state stands for the
history of the deliveries. -/
theorem receiver_of_run (c : ReceiverConfig) (senders : ι → Sender) (es : List (Event ι)) :
    (Mealy.after System.step ⟨senders, c.new⟩ es).receiver.config = c ∧
      (Mealy.after System.step ⟨senders, c.new⟩ es).receiver.replay_guard.Represents
        (.ofRun (deliveries (c.run senders es))) := by
  refine Mealy.run_invariant (I := fun _ os (t : System ι) => t.receiver.config = c ∧
    t.receiver.replay_guard.Represents (.ofRun (deliveries os)))
    ⟨rfl, ReplayGuard.tracks_new _ _⟩ (fun _ os t ev h => ?_) es
  obtain ⟨hconfig, hrep⟩ := h
  cases ev with
  -- A call of a sender is no delivery, and the receiver does not see it.
  | send i call =>
    have hsame : deliveries (os ++ [(t.step (.send i call)).1]) = deliveries os := by
      simp [deliveries, System.step]
    rw [hsame]
    exact ⟨hconfig, hrep⟩
  -- A delivery is one call of `receive`.
  | deliver wire =>
    have hmore : deliveries (os ++ [(t.step (.deliver wire)).1]) =
        deliveries os ++ [t.receiver.receive wire] := by
      simp [deliveries, System.step]
    have ho := t.receiver.receive_outcome wire
    have hkeeps : (t.receiver.receive wire).receiver.config = t.receiver.config := ho.config_eq
    have hgrown := (ho.represents hrep).1
    rw [hmore, History.ofRun_append_singleton]
    exact ⟨hkeeps.trans hconfig, hgrown⟩

/-- The receiver at a position of a run from a new one has its configuration, and its replay state
stands for the history before the position. -/
theorem receiver_of_run_take (c : ReceiverConfig) (senders : ι → Sender) (es : List (Event ι))
    (d : ℕ) :
    (Mealy.after System.step ⟨senders, c.new⟩ (es.take d)).receiver.config = c ∧
      (Mealy.after System.step ⟨senders, c.new⟩ (es.take d)).receiver.replay_guard.Represents
        (historyBefore (c.run senders es) d) := by
  rw [historyBefore, ReceiverConfig.run, Mealy.take_outputs]
  exact receiver_of_run c senders (es.take d)

end Run

/-! ## Senders in a run -/

section Run

variable [DecidableEq ι] {s : System ι} {es : List (Event ι)} {i j : ι} {e e' d : ℕ}
  {record record' : ProtectedRecord} {payload payload' wire wire' : Bytes}

/-- A step leaves a sender, or makes a call of it. -/
theorem System.senders_step (s : System ι) (ev : Event ι) (i : ι) :
    (s.step ev).2.senders i = s.senders i ∨
      ∃ call, (s.step ev).2.senders i = ((s.senders i).step call).2 := by
  cases ev with
  | send j call =>
    rcases eq_or_ne i j with rfl | hne
    · exact .inr ⟨call, Function.update_self ..⟩
    · exact .inl (Function.update_of_ne hne ..)
  | deliver wire => exact .inl rfl

/-- A run keeps the suite and the stream of a sender. -/
theorem config_of_run (s : System ι) (es : List (Event ι)) (i : ι) :
    ((Mealy.after System.step s es).senders i).suite = (s.senders i).suite ∧
      ((Mealy.after System.step s es).senders i).session_id = (s.senders i).session_id ∧
        ((Mealy.after System.step s es).senders i).stream_id = (s.senders i).stream_id := by
  refine Mealy.after_invariant (P := fun t : System ι => (t.senders i).suite = (s.senders i).suite ∧
    (t.senders i).session_id = (s.senders i).session_id ∧
      (t.senders i).stream_id = (s.senders i).stream_id) (fun t ev h => ?_) ⟨rfl, rfl, rfl⟩ es
  rcases t.senders_step ev i with hsame | ⟨call, hcall⟩
  · rw [hsame]
    exact h
  -- A call of `seal` or `protect` writes the counter and the statistics only.
  · obtain ⟨hsuite, hsession, hstream, -⟩ := ((t.senders i).step_outcome call).config
    rw [hcall, Sender.step_snd, hsuite, hsession, hstream]
    exact h

/-- No step takes back a number that a sender has issued. -/
theorem next_le_step (s : System ι) (ev : Event ι) (i : ι) :
    (s.senders i).nonces.next ≤ ((s.step ev).2.senders i).nonces.next := by
  rcases s.senders_step ev i with hsame | ⟨call, hcall⟩
  · rw [hsame]
  · rw [hcall, Sender.step_snd]
    rcases ((s.senders i).step_outcome call).nonces_cases with
      ⟨-, hsame, -⟩ | ⟨hlimit, _, -, -, hadv, -⟩
    · rw [hsame]
    · rw [hadv]
      show (s.senders i).nonces.next ≤ (s.senders i).nonces.next + 1
      omega

/-- What is known of a record that a sender returned: the state of the sender then, and that the frame
parses and opens. -/
structure Emitted (s : System ι) (es : List (Event ι)) (e : ℕ) (i : ι) (record : ProtectedRecord)
    (payload wire : Bytes) : Prop where
  suite_id : record.header.suite_id = (s.senders i).suite.suite_id
  streamKey : record.header.streamKey = ((s.senders i).session_id, (s.senders i).stream_id)
  seq : record.header.seq = ((Mealy.after System.step s (es.take e)).senders i).nonces.next
  /-- The number is issued with the record. -/
  issued : record.header.seq <
    ((Mealy.after System.step s (es.take (e + 1))).senders i).nonces.next
  parsed : parseRecord wire = .ok record
  opens : (s.senders i).suite.openRecord record = .ok payload

/-- A record that a sender returned at a position was sealed there. -/
theorem EmitsAt.exists_sealed
    (h : EmitsAt (Mealy.outputs System.step s es) e i record payload wire) :
    ∃ call st nonce aad, (Mealy.outputs System.step s es)[e]? = some (.sent i call st) ∧
      ((Mealy.after System.step s (es.take e)).senders i).Sealed call.args st.toSealStep record payload
        nonce aad := by
  obtain ⟨⟨call, st, hget, hpayload, hresult⟩, -⟩ := h
  obtain ⟨-, rfl⟩ := exists_of_sent hget
  obtain ⟨payload', nonce, aad, hs⟩ := (Sender.step_outcome _ call).exists_sealed hresult
  obtain rfl := Option.some.inj (hpayload.symm.trans hs.payload_eq)
  exact ⟨call, _, nonce, aad, hget, hs⟩

/-- Over a backend that adds a tag, a frame that was emitted parses, and names the suite and the session of
its sender. -/
theorem EmitsAt.parsed (hadds : (s.senders i).suite.impl.AddsTag)
    (h : EmitsAt (Mealy.outputs System.step s es) e i record payload wire) :
    parseRecord wire = .ok record ∧ record.header.suite_id = (s.senders i).suite.suite_id ∧
      record.header.session_id = (s.senders i).session_id := by
  obtain ⟨call, st, nonce, aad, -, hs⟩ := h.exists_sealed
  obtain ⟨hsuite, hsession, -⟩ := config_of_run s (es.take e) i
  refine ⟨hs.parsed (hsuite ▸ hadds) h.toBytes, ?_, ?_⟩
  · rw [hs.fields, ← hsuite]
    rfl
  · rw [hs.fields, ← hsession]
    rfl

/-- Over a backend whose two functions fit together, that is known of every record returned. -/
theorem EmitsAt.emitted (hseals : (s.senders i).suite.impl.Seals)
    (h : EmitsAt (Mealy.outputs System.step s es) e i record payload wire) :
    Emitted s es e i record payload wire := by
  obtain ⟨⟨call, st, hget, hpayload, hresult⟩, hwire⟩ := h
  obtain ⟨hev, hst⟩ := exists_of_sent hget
  obtain ⟨hsuite, hsession, hstream⟩ := config_of_run s (es.take e) i
  have hafter : (Mealy.after System.step s (es.take (e + 1))).senders i = st.sender := by
    rw [Mealy.after_take_succ hev, hst, ← Sender.step_snd]
    exact Function.update_self ..
  -- The sender as it was when it was called, with the suite and the stream that it began with.
  generalize hs' : (Mealy.after System.step s (es.take e)).senders i = s' at *
  have ho := s'.step_outcome call
  rw [← hst] at ho
  obtain ⟨payload', hpayload', hfields, hparsed, hopens⟩ :=
    ho.opens (hsuite ▸ hseals) hresult hwire
  obtain rfl := Option.some.inj (hpayload.symm.trans hpayload')
  have hseq : record.header.seq = s'.nonces.next := by rw [hfields]; rfl
  refine ⟨?_, ?_, hs' ▸ hseq, ?_, hparsed, hsuite ▸ hopens⟩
  · rw [hfields, ← hsuite]
    rfl
  · rw [RecordHeader.streamKey, hfields, ← hsession, ← hstream]
    rfl
  -- A call that returned a record allocated its number, so the counter has passed it.
  · rw [hafter, hseq]
    rcases ho.nonces_cases with ⟨-, -, -, hno⟩ | ⟨hlimit, _, -, -, hadv, -⟩
    · exact absurd hresult (hno record)
    · rw [hadv]
      show s'.nonces.next < s'.nonces.next + 1
      omega

/-- A call of `suite.open` that returns was handed what a record that parses gives, and returned what the
record opens to. -/
theorem Receiver.Outcome.parsed_of_opened {r : Receiver} {st : ReceiveStep} {call : SuiteOpen}
    {plaintext : Bytes} (ho : r.Outcome wire st) (hopened : st.opened = some call)
    (hresult : call.result = .ok plaintext) :
    ∃ record nonce aad, parseRecord wire = .ok record ∧
      deriveNonce record.header.nonce_prefix record.header.seq = .ok nonce ∧
        record.header.toBytes = .ok aad ∧ r.suite.openRecord record = .ok plaintext ∧
          call = ⟨nonce, record.ciphertext_and_tag, aad, .ok plaintext⟩ := by
  cases ho with
  -- `suite.open` returned in two outcomes only: the call went on to `commit`, which raised or not.
  | commitRaised hr ho hc =>
    cases hopened
    cases hresult
    exact ⟨_, _, _, hr.parsed, hr.nonce, hr.aad, hr.openRecord_eq.trans ho, rfl⟩
  | accepted hr ho hc =>
    cases hopened
    cases hresult
    exact ⟨_, _, _, hr.parsed, hr.nonce, hr.aad, hr.openRecord_eq.trans ho, rfl⟩
  | malformed => cases hopened
  | refused => cases hopened
  | _ =>
    cases hopened
    cases hresult

/-- A call that returns a frame emits it. -/
theorem exists_emitsAt_of_returns {call : SenderCall} {st : SenderStep}
    (h : (Mealy.outputs System.step s es)[e]? = some (.sent i call st))
    (hpayload : call.args.payload = some payload) (hreturns : st.Returns wire) :
    ∃ record, EmitsAt (Mealy.outputs System.step s es) e i record payload wire := by
  obtain ⟨-, rfl⟩ := exists_of_sent h
  obtain ⟨record, hrecord, hwire⟩ := Sender.exists_record_of_returns hreturns
  exact ⟨record, ⟨call, _, h, hpayload, hrecord⟩, hwire⟩

/-- A network that delivers only frames that were emitted before does not forge. -/
theorem unforged_of_relayed {c : ReceiverConfig} {senders : ι → Sender}
    (hsuite : ∀ i, (senders i).suite = c.suite) (hseals : c.suite.impl.Seals)
    (hrelayed : ∀ d wire st, (c.run senders es)[d]? = some (.delivered wire st) →
      ∃ e < d, ∃ i record payload, EmitsAt (c.run senders es) e i record payload wire) :
    Unforged (c.run senders es) := by
  intro d wire st call plaintext hget hopened hresult
  obtain ⟨e, hlt, i, record, payload, hemits⟩ := hrelayed d wire st hget
  have hemitted := hemits.emitted ((hsuite i).symm ▸ hseals)
  obtain ⟨-, hst⟩ := exists_of_delivered hget
  -- What was handed to `suite.open` came from the record that the frame parses to, and that is the one
  -- that the sender returned.
  have ho := (Mealy.after System.step ⟨senders, c.new⟩ (es.take d)).receiver.receive_outcome wire
  rw [← hst] at ho
  obtain ⟨record', nonce, aad, hp, hnonce, haad, hopens, rfl⟩ := ho.parsed_of_opened hopened hresult
  obtain rfl := Except.ok.inj (hemitted.parsed.symm.trans hp)
  have hreceiver : (Mealy.after System.step ⟨senders, c.new⟩ (es.take d)).receiver.suite = c.suite :=
    congrArg ReceiverConfig.suite (receiver_of_run_take c senders es d).1
  rw [hreceiver, ← hsuite i, hemitted.opens] at hopens
  cases hopens
  -- The nonce and the associated data are functions of its header, so `seal` was handed the same.
  obtain ⟨sending, st', nonce', aad', hsent, hs⟩ := hemits.exists_sealed
  obtain rfl : nonce' = nonce := Except.ok.inj (hs.nonce_eq.symm.trans hnonce)
  obtain rfl : aad' = aad := Except.ok.inj (hs.aad_eq.symm.trans haad)
  exact ⟨e, hlt, i, sending, st', hsent, hs.sealed⟩

/-- A sender returns no two records with one number. -/
theorem Emitted.not_lt_of_seq_eq (h : Emitted s es e i record payload wire)
    (h' : Emitted s es e' i record' payload' wire')
    (hseq : record.header.seq = record'.header.seq) : ¬e < e' := by
  intro hlt
  -- The number was issued with the first record, and still is when the second is sealed.
  have hmono := Mealy.after_take_mono (P := fun t : System ι =>
    record.header.seq < (t.senders i).nonces.next)
    (fun t ev ht => ht.trans_le (next_le_step t ev i)) (Nat.succ_le_of_lt hlt) h.issued
  rw [← h'.seq, hseq] at hmono
  exact lt_irrefl _ hmono

end Run

/-! ## A run for examples -/

/-- A frame is emitted and delivered twice. -/
def checksumEvents : List (Event Unit) :=
  [.send () (.frame { payload := some [1, 2, 3] }), .deliver checksumFrame, .deliver checksumFrame]

/-- What is seen of that. -/
def checksumRun : List (Observation Unit) := checksumConfig.run (fun _ => checksumSender) checksumEvents

/-- The frame is emitted first. -/
theorem exists_emitsAt_checksumRun :
    ∃ record, EmitsAt checksumRun 0 () record [1, 2, 3] checksumFrame := by
  have hwire : (checksumSender.step (.frame { payload := some [1, 2, 3] })).1.wire =
      some (.ok checksumFrame) := congrArg some checksumSender_protect
  exact exists_emitsAt_of_returns rfl rfl (.inl hwire)

/-- The run only relays. -/
theorem unforged_checksumRun : Unforged checksumRun := by
  refine unforged_of_relayed (fun _ => rfl) Backend.checksum_seals fun d wire st h => ?_
  obtain ⟨hev, -⟩ := exists_of_delivered h
  obtain ⟨record, hemits⟩ := exists_emitsAt_checksumRun
  match d with
  | 0 => cases hev
  | 1 =>
    cases hev
    exact ⟨0, by decide, (), record, _, hemits⟩
  | 2 =>
    cases hev
    exact ⟨0, by decide, (), record, _, hemits⟩
  | n + 3 => cases hev

end Srp
