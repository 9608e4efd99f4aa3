import Srp.Equivalence
import Srp.Guard

/-!
# What a channel can fail with

A `Channel` as a machine that is handed payloads to send and frames to deliver. `create_channel` checks the
key, the session id, the nonce prefix, the first number, and the budget, but neither the stream id nor the
size of the replay window. So a channel that it returns may fail on its first record: on sending it, after
the number was spent, or on delivering it, after it was authenticated. `channel_never_fails_iff` says
exactly for which arguments it does not.
-/

namespace Srp

/-! ## Channels as machines -/

/-- What is done with a channel. -/
inductive ChannelOp
  | send (args : SealArgs)
  | deliver (wire : Bytes)

/-- What comes back. -/
inductive ChannelAnswer
  | sent (result : Except Error Bytes)
  | delivered (result : Except Error Verdict)

/-- A channel as a machine. -/
def Channel.step (ch : Channel) : ChannelOp → ChannelAnswer × Channel
  | .send args => (.sent (ch.send args).1, (ch.send args).2)
  | .deliver wire => (.delivered (ch.deliver wire).1, (ch.deliver wire).2)

/-- Arguments of `send` that are in order: a payload within the limit, a record type, and flags. -/
structure SealArgs.InOrder (args : SealArgs) (payload : Bytes) : Prop where
  payload_eq : args.payload = some payload
  payload_len : payload.length ≤ maxPayloadLen
  record_type : ∃ t : RecordType, args.record_type = t.value
  flags : args.flags = flagsNone ∨ args.flags = flagsEndOfStream

/-- Every byte string may be delivered, and what is sent is in order. -/
def ChannelOp.InOrder : ChannelOp → Prop
  | send args => ∃ payload, args.InOrder payload
  | deliver _ => True

/-- The answers that are documented: a frame or `NonceExhaustedError`, and a verdict. -/
def ChannelAnswer.Documented : ChannelAnswer → Prop
  | sent result => (∃ frame, result = .ok frame) ∨ ∃ message, result = .error (.nonceExhaustedError message)
  | delivered result => ∃ v, result = .ok v

/-- After every run of operations, every operation that is in order has a documented answer. -/
def Channel.NeverFails (ch : Channel) : Prop :=
  ∀ (ops : List ChannelOp) (op : ChannelOp), op.InOrder →
    ((Mealy.after Channel.step ch ops).step op).1.Documented

/-! ## Sends -/

namespace Sender

variable {s : Sender} {args : SealArgs} {payload : Bytes}

/-- A new sender has a budget. -/
theorem issued_lt_of_new {a : SenderArgs} (hs : new a = .ok s) : s.nonces.issued < s.nonces.limit := by
  obtain ⟨-, -, -, -, -, -, hlimit, hissued⟩ := new_eq_ok hs
  obtain ⟨-, hm⟩ := exists_new_iff.mp ⟨s, hs⟩
  obtain ⟨-, -, hpos, -⟩ := NonceManager.exists_new_iff.mp hm
  rw [hlimit, hissued]
  exact hpos

/-- Within the budget, a call of `seal` ends as the construction of the header, its encoding, and the call of
`suite.seal` do. -/
theorem seal_eq_of_lt (hp : checkPayload args.payload = .ok payload)
    (hlimit : s.nonces.issued < s.nonces.limit) :
    ∃ nonce, deriveNonce s.nonces.nonce_prefix s.nonces.next = .ok nonce ∧ (s.seal args).result = do
      let header ← RecordHeader.new (s.headerFields args payload s.nonces.next)
      let aad ← header.aad
      let c ← s.suite.seal nonce payload aad
      return ⟨header, c⟩ := by
  rcases s.nonces.allocate_cases with ⟨hle, -⟩ | ⟨hlt, nonce, hn, ha⟩
  · exact absurd hlimit (not_lt.mpr hle)
  · refine ⟨nonce, hn, ?_⟩
    -- The fields do not depend on the count of issued numbers.
    have hsame : headerFields { s with nonces := s.nonces.advance hlt } args payload s.nonces.next =
        s.headerFields args payload s.nonces.next := rfl
    unfold Sender.seal
    rw [hp]
    dsimp only
    rw [ha]
    dsimp only
    rw [hsame]
    rcases RecordHeader.new (s.headerFields args payload s.nonces.next) with e | header
    · rfl
    · dsimp only
      rcases haad : header.aad with e | aad
      · show _ = Except.bind header.aad _
        rw [haad]
        rfl
      · show _ = Except.bind header.aad _
        rw [haad]
        dsimp only
        show _ = Except.bind (s.suite.seal nonce payload aad) _
        rcases s.suite.seal nonce payload aad with e | c
        · rfl
        · rfl

/-- The fields of a header within the budget are admitted exactly if the stream id has 32 bits. -/
theorem admitted_headerFields_iff (hlen : payload.length ≤ maxPayloadLen)
    (hlimit : s.nonces.issued < s.nonces.limit) :
    (s.headerFields args payload s.nonces.next).Admitted ↔ 0 ≤ s.stream_id ∧ s.stream_id ≤ 0xFFFFFFFF := by
  obtain ⟨hseq0, hseq⟩ := NonceManager.next_range hlimit
  constructor
  · exact fun h => h.stream_id
  · intro hstream
    unfold seqSpace at hseq
    unfold maxPayloadLen at hlen
    refine ⟨s.session_id_len, s.nonces.prefix_len, ⟨hseq0, ?_⟩, hstream, ⟨?_, ?_⟩⟩
    · show s.nonces.next ≤ _
      omega
    · exact Int.natCast_nonneg _
    · show (payload.length : ℤ) ≤ _
      omega

/-- Over a correct library, a sender of a 32-bit stream answers what is in order as documented. -/
theorem protect_of_inOrder (hcorrect : s.suite.impl.Correct)
    (hstream : 0 ≤ s.stream_id ∧ s.stream_id ≤ 0xFFFFFFFF) (hargs : args.InOrder payload) :
    (∃ frame, (s.protect args).1 = .ok frame) ∨
      s.nonces.limit ≤ s.nonces.issued ∧ (s.protect args).1 = .error s.nonces.exhaustedError := by
  have hp : checkPayload args.payload = .ok payload :=
    checkPayload_eq_ok.mpr ⟨hargs.payload_eq, hargs.payload_len⟩
  rw [protect_fst]
  rcases lt_or_ge s.nonces.issued s.nonces.limit with hlimit | hlimit
  · have hadmitted : (s.headerFields args payload s.nonces.next).Admitted :=
      (admitted_headerFields_iff hargs.payload_len hlimit).mpr hstream
    have hnew := RecordHeader.new_of_admitted hadmitted
    -- Each of the one-byte fields is a byte.
    have htype : 0 ≤ args.record_type ∧ args.record_type < 256 := by
      obtain ⟨t, ht⟩ := hargs.record_type
      rw [ht]
      cases t <;> decide
    have hflags : 0 ≤ args.flags ∧ args.flags < 256 := by
      rcases hargs.flags with hf | hf <;> rw [hf] <;> decide
    obtain ⟨aad, haad⟩ := RecordHeader.exists_toBytes_of_bytes
      (h := ⟨s.headerFields args payload s.nonces.next, hadmitted⟩)
      (by decide : (0 : ℤ) ≤ protocolVersion ∧ protocolVersion < 256) s.suite.cls.suite_id_byte htype hflags
    obtain ⟨nonce, hn, hresult⟩ := seal_eq_of_lt hp hlimit
    obtain ⟨c, hc, -⟩ := hcorrect.exists_seal (length_deriveNonce hn) hargs.payload_len aad
    have hrecord :
        (s.seal args).result = .ok ⟨⟨s.headerFields args payload s.nonces.next, hadmitted⟩, c⟩ := by
      rw [hresult, hnew]
      show Except.bind (RecordHeader.toBytes _) _ = _
      rw [haad]
      show Except.bind (s.suite.seal nonce payload aad) _ = _
      rw [hc]
      rfl
    rw [hrecord]
    exact .inl ⟨_, ProtectedRecord.toBytes_eq_ok.mpr ⟨aad, haad, rfl⟩⟩
  · rcases s.nonces.allocate_cases with ⟨-, ha⟩ | ⟨hlt, -⟩
    · have hresult : (s.seal args).result = .error s.nonces.exhaustedError := by
        unfold Sender.seal
        rw [hp]
        dsimp only
        rw [ha]
      rw [hresult]
      exact .inr ⟨hlimit, rfl⟩
    · omega

/-- Within the budget, a sender of a stream that is not of 32 bits raises `ConfigurationError` on
everything. -/
theorem protect_of_stream (hstream : ¬(0 ≤ s.stream_id ∧ s.stream_id ≤ 0xFFFFFFFF))
    (hlimit : s.nonces.issued < s.nonces.limit) (hargs : args.InOrder payload) :
    ∃ message, (s.protect args).1 = .error (.configurationError message) := by
  rcases hnew : RecordHeader.new (s.headerFields args payload s.nonces.next) with e | header
  · obtain ⟨message, rfl⟩ := RecordHeader.new_error hnew
    obtain ⟨nonce, -, hresult⟩ :=
      seal_eq_of_lt (checkPayload_eq_ok.mpr ⟨hargs.payload_eq, hargs.payload_len⟩) hlimit
    refine ⟨message, ?_⟩
    rw [protect_fst, hresult, hnew]
    rfl
  · have hadmitted := header.admitted
    rw [RecordHeader.fields_of_new hnew] at hadmitted
    exact absurd ((admitted_headerFields_iff hargs.payload_len hlimit).mp hadmitted) hstream

end Sender

/-! ## Deliveries -/

/-- A window of a negative size cannot be built, and that is the only size. -/
theorem ReplayWindow.new_eq_error_iff {size : ℤ} : (∃ e, new size = .error e) ↔ size < 0 := by
  unfold new
  split_ifs with hneg
  · simp [hneg]
  · simp [hneg]

namespace Receiver

variable {r : Receiver} {wire payload : Bytes} {record : ProtectedRecord}

/-- Over a documented backend, a call of `receive` returns a verdict if a window of the size can be built, or
none is ever built. -/
theorem exists_verdict (hdoc : r.suite.impl.DecryptDocumented)
    (hwindow : 0 ≤ r.replay_guard.window_size ∨ r.replay_guard.max_streams ≤ 0) (wire : Bytes) :
    ∃ v, (r.receive wire).result = .ok v := by
  have ho := r.receive_outcome wire
  generalize r.receive wire = st at ho ⊢
  rcases ho with - | - | - | ⟨hr, ho, he⟩ | ⟨hr, ho, hc⟩ | -
  · exact ⟨_, rfl⟩
  · exact ⟨_, rfl⟩
  · exact ⟨_, rfl⟩
  · obtain ⟨message, rfl⟩ := hr.exists_message hdoc ho
    exact absurd rfl (he message)
  -- The commit raises only where there is room for a stream whose window cannot be built.
  · obtain ⟨-, hnew, hroom⟩ := ReplayGuard.commit_error hc
    have hneg := ReplayWindow.new_eq_error_iff.mp ⟨_, hnew⟩
    omega
  · exact ⟨_, rfl⟩

/-- A record that is let through and opens, on a new stream whose window cannot be built, makes `receive`
raise. -/
theorem not_exists_verdict (hp : parseRecord wire = .ok record)
    (hpassed : r.refusal record.header = none) (hopens : r.suite.openRecord record = .ok payload)
    (hnone : r.replay_guard.windowFor record.header.streamKey = none)
    (hneg : r.replay_guard.window_size < 0) : ¬∃ v, (r.receive wire).result = .ok v := by
  have hreaches := reaches_of_passed hp hpassed
  have ho := hreaches.openRecord_eq.symm.trans hopens
  obtain ⟨e, hnew⟩ := ReplayWindow.new_eq_error_iff.mpr hneg
  -- There is room, since the record was let through.
  have hroom : r.replay_guard.trackedStreams < r.replay_guard.max_streams := by
    by_contra hcap
    have hfresh := (refusal_eq_none.mp hpassed).2.2
    rw [ReplayGuard.check_of_none hnone, if_pos (.inl (not_lt.mp hcap))] at hfresh
    cases hfresh
  have hc := ReplayGuard.commit_of_unbuilt hnone hroom hnew record.header.seq
  rw [← (Outcome.commitRaised hreaches ho hc).eq_receive]
  rintro ⟨v, hv⟩
  cases hv

end Receiver

/-! ## Channels -/

namespace Channel

variable {ch : Channel}

/-- What operations keep of a channel. -/
structure SameConfig (ch ch' : Channel) : Prop where
  suite : ch'.sender.suite = ch.sender.suite
  stream_id : ch'.sender.stream_id = ch.sender.stream_id
  receiver : ch'.receiver.config = ch.receiver.config

/-- No run of operations changes the configuration. -/
theorem sameConfig_after (ch : Channel) (ops : List ChannelOp) :
    ch.SameConfig (Mealy.after step ch ops) := by
  have hstep : ∀ (t : Channel) (op : ChannelOp), ch.SameConfig t → ch.SameConfig (step t op).2 := by
    intro t op h
    rcases op with args | wire
    · obtain ⟨hsuite, -, hstream, -⟩ := (t.sender.seal_outcome args).config
      have hsender : (step t (.send args)).2.sender = (t.sender.seal args).sender := by
        show (t.sender.protect args).2.sender = _
        rw [Sender.protect_snd]
      refine ⟨?_, ?_, h.receiver⟩
      · rw [hsender, hsuite]
        exact h.suite
      · rw [hsender, hstream]
        exact h.stream_id
    · exact ⟨h.suite, h.stream_id, (t.receiver.receive_outcome wire).config_eq.trans h.receiver⟩
  exact Mealy.after_invariant hstep ⟨rfl, rfl, rfl⟩ ops

/-- A channel of a 32-bit stream whose receiver can build its windows, or never builds one, never
fails. -/
theorem neverFails (hcorrect : ch.sender.suite.impl.Correct)
    (hdoc : ch.receiver.suite.impl.DecryptDocumented)
    (hstream : 0 ≤ ch.sender.stream_id ∧ ch.sender.stream_id ≤ 0xFFFFFFFF)
    (hwindow : 0 ≤ ch.receiver.replay_guard.window_size ∨ ch.receiver.replay_guard.max_streams ≤ 0) :
    ch.NeverFails := by
  intro ops op hop
  obtain ⟨hsuite, hsame, hconfig⟩ := ch.sameConfig_after ops
  generalize Mealy.after step ch ops = t at hsuite hsame hconfig ⊢
  rcases op with args | wire
  · obtain ⟨payload, hargs⟩ := hop
    rw [← hsuite] at hcorrect
    rw [← hsame] at hstream
    rcases Sender.protect_of_inOrder hcorrect hstream hargs with hframe | ⟨-, hexhausted⟩
    · exact .inl hframe
    · exact .inr ⟨_, hexhausted⟩
  · obtain ⟨hsuite', -, hsize, hmax⟩ := ReceiverConfig.mk.inj hconfig
    rw [← hsuite'] at hdoc
    rw [← hsize, ← hmax] at hwindow
    exact t.receiver.exists_verdict hdoc hwindow wire

end Channel

/-- A payload in order. -/
theorem SealArgs.inOrder_empty : SealArgs.InOrder { payload := some [] } [] :=
  ⟨rfl, Nat.zero_le _, ⟨.DATA, rfl⟩, .inl rfl⟩

/-- The receiver of a new channel with room for a stream tracks none, and lets through every record that
names the suite and the session of the sender. -/
theorem createChannel_passes {suites : List SuiteClass} {a : ChannelArgs} {ch : Channel}
    (hch : createChannel suites a = .ok ch) (hroom : 0 < a.policy.max_streams) {header : RecordHeader}
    (hsuite_id : header.suite_id = ch.sender.suite.suite_id)
    (hsession_id : header.session_id = ch.sender.session_id) :
    ch.receiver.replay_guard.windowFor header.streamKey = none ∧ ch.receiver.refusal header = none := by
  obtain ⟨suite, -, hsender, hreceiver⟩ := createChannel_eq_ok hch
  obtain ⟨hsuite, hsession, -⟩ := Sender.new_eq_ok hsender
  have hnone : ch.receiver.replay_guard.windowFor header.streamKey = none := by
    rw [hreceiver]
    rfl
  refine ⟨hnone, Receiver.refusal_eq_none.mpr ⟨?_, ?_, ?_⟩⟩
  · rw [hsuite_id, hreceiver]
    exact congrArg AeadSuite.suite_id hsuite
  · intro pin hmem
    rw [hreceiver] at hmem
    unfold ChannelArgs.receiver Receiver.new at hmem
    dsimp only at hmem
    split_ifs at hmem
    · rw [hsession_id, ← Option.some.inj hmem]
      exact hsession
    · cases hmem
  · have hseq := header.admitted.seq.1
    have hempty : ch.receiver.replay_guard.trackedStreams = 0 := by
      rw [hreceiver]
      rfl
    have hmax : ch.receiver.replay_guard.max_streams = a.policy.max_streams := by
      rw [hreceiver]
      rfl
    rw [ReplayGuard.check_of_none hnone, if_neg (by omega)]

/-- The first record of a channel, delivered, makes a receiver raise that has room for its stream and cannot
build its window. -/
theorem createChannel_fails_on_delivery {suites : List SuiteClass} {a : ChannelArgs} {ch : Channel}
    (hch : createChannel suites a = .ok ch) (hcorrect : ch.sender.suite.impl.Correct)
    (hstream : 0 ≤ a.stream_id ∧ a.stream_id ≤ 0xFFFFFFFF) (hneg : a.policy.replay_window < 0)
    (hroom : 0 < a.policy.max_streams) : ¬ch.NeverFails := by
  obtain ⟨suite, -, hsender, hreceiver⟩ := createChannel_eq_ok hch
  obtain ⟨hsuite, -, hstreamId, -⟩ := Sender.new_eq_ok hsender
  have hstream' : 0 ≤ ch.sender.stream_id ∧ ch.sender.stream_id ≤ 0xFFFFFFFF := by
    rw [hstreamId]
    exact hstream
  intro hnever
  rcases Sender.protect_of_inOrder hcorrect hstream' SealArgs.inOrder_empty with ⟨frame, hframe⟩ | ⟨hle, -⟩
  · -- The record that was sent opens at the receiver, whose guard is new.
    obtain ⟨record, hresult, hwire⟩ := Sender.protect_eq_ok.mp hframe
    obtain ⟨payload, -, hfields, hparsed, hopens⟩ :=
      (ch.sender.seal_outcome { payload := some [] }).opens hcorrect.seals hresult hwire
    obtain ⟨hnone, hpassed⟩ := createChannel_passes hch hroom
      (congrArg HeaderFields.suite_id hfields) (congrArg HeaderFields.session_id hfields)
    have hopens' : ch.receiver.suite.openRecord record = .ok payload := by
      rw [hreceiver]
      show suite.openRecord record = _
      rw [← hopens, hsuite]
      rfl
    have hneg' : ch.receiver.replay_guard.window_size < 0 := by
      rw [hreceiver]
      exact hneg
    exact Receiver.not_exists_verdict hparsed hpassed hopens' hnone hneg'
      (hnever [.send { payload := some [] }] (.deliver frame) trivial)
  · have hlt := Sender.issued_lt_of_new hsender
    omega

/-- When a channel never fails. Over a correct library, a channel that `create_channel` returns answers
every operation that is in order with a frame or `NonceExhaustedError`, or with a verdict, after every run
of operations, exactly if the stream id has 32 bits and the size of the replay window is not negative or no
stream is ever tracked. -/
theorem channel_never_fails_iff {suites : List SuiteClass} {a : ChannelArgs} {ch : Channel}
    (hch : createChannel suites a = .ok ch) (hcorrect : ch.sender.suite.impl.Correct) :
    ch.NeverFails ↔ (0 ≤ a.stream_id ∧ a.stream_id ≤ 0xFFFFFFFF) ∧
      (0 ≤ a.policy.replay_window ∨ a.policy.max_streams ≤ 0) := by
  obtain ⟨suite, -, hsender, hreceiver⟩ := createChannel_eq_ok hch
  obtain ⟨hsuite, -, hstream, -⟩ := Sender.new_eq_ok hsender
  have hstream' : ch.sender.stream_id = a.stream_id := hstream
  constructor
  · intro hnever
    have hrange : 0 ≤ a.stream_id ∧ a.stream_id ≤ 0xFFFFFFFF := by
      by_contra hno
      rw [← hstream'] at hno
      obtain ⟨message, hfails⟩ := Sender.protect_of_stream hno (Sender.issued_lt_of_new hsender)
        SealArgs.inOrder_empty
      have hanswer : (∃ frame, (ch.sender.protect { payload := some [] }).1 = .ok frame) ∨
          ∃ message, (ch.sender.protect { payload := some [] }).1 =
            .error (.nonceExhaustedError message) :=
        hnever [] (.send { payload := some [] }) ⟨[], SealArgs.inOrder_empty⟩
      rw [hfails] at hanswer
      rcases hanswer with ⟨frame, hframe⟩ | ⟨message', herror⟩
      · cases hframe
      · cases herror
    refine ⟨hrange, ?_⟩
    by_contra hno
    obtain ⟨hneg, hroom⟩ := not_or.mp hno
    exact createChannel_fails_on_delivery hch hcorrect hrange (not_le.mp hneg) (not_le.mp hroom) hnever
  · rintro ⟨hrange, hwindow⟩
    have hdoc : ch.receiver.suite.impl.DecryptDocumented := by
      rw [hsuite] at hcorrect
      rw [hreceiver]
      exact hcorrect.documented
    refine Channel.neverFails hcorrect hdoc ?_ ?_
    · rw [hstream']
      exact hrange
    · rw [hreceiver]
      exact hwindow

/-- The channel for examples never fails. -/
theorem channel_never_fails_iff_of_checksum :
    ∃ ch, createChannel checksumSuites checksumChannelArgs = .ok ch ∧ ch.NeverFails := by
  have hch : createChannel checksumSuites checksumChannelArgs = .ok _ := rfl
  exact ⟨_, hch, (channel_never_fails_iff hch Backend.checksum_correct).mpr (by decide)⟩

/-- A channel of stream `2^32` fails on its first record, whose number is spent, and a channel with a window
of size `-1` fails when its first record is delivered. -/
theorem channel_fails_after_construction :
    (∃ ch, createChannel checksumSuites { checksumChannelArgs with stream_id := 2 ^ 32 } = .ok ch ∧
      ¬ch.NeverFails ∧ (ch.send { payload := some [] }).1 =
        .error (.configurationError "stream_id 4294967296 out of 32-bit range") ∧
      (ch.send { payload := some [] }).2.sender.nonces.issued = 1) ∧
    ∃ ch, createChannel checksumSuites
      { checksumChannelArgs with policy := { replay_window := -1 } } = .ok ch ∧ ¬ch.NeverFails := by
  constructor
  · have hch : createChannel checksumSuites { checksumChannelArgs with stream_id := 2 ^ 32 } = .ok _ := rfl
    refine ⟨_, hch, fun hnever => ?_, by decide +kernel, by decide +kernel⟩
    obtain ⟨suite, -, hsender, -⟩ := createChannel_eq_ok hch
    have hanswer := hnever [] (.send { payload := some [] }) ⟨[], SealArgs.inOrder_empty⟩
    obtain ⟨message, hfails⟩ := Sender.protect_of_stream (by decide)
      (Sender.issued_lt_of_new hsender) SealArgs.inOrder_empty
    rcases hanswer with ⟨frame, hframe⟩ | ⟨message', herror⟩
    · cases hframe.symm.trans hfails
    · cases herror.symm.trans hfails
  · have hch : createChannel checksumSuites
        { checksumChannelArgs with policy := { replay_window := -1 } } = .ok _ := rfl
    exact ⟨_, hch, createChannel_fails_on_delivery hch Backend.checksum_correct (by decide) (by decide)
      (by decide)⟩

end Srp
