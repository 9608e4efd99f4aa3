import Mathlib.Data.Fintype.Card
import Srp.Agreement

/-!
# Delivery of genuine records

A family of senders that share the suite of a receiver, on streams of their own (`Peers`), over an AEAD
that is not forged. A record that one of them returned is identified by its stream and sequence number
(`EmitsAt.eq_of_place`), so what the history of a run holds are the frames that were delivered and
accepted (`mem_history_iff`). With that the verdict on every delivery of a frame follows
(`exactly_once_recovery`): no record is lost to the replay protection unless it is behind the window,
and none is accepted twice.
-/

namespace Srp

variable {ι : Type*}

/-- Senders under the suite of a receiver, on distinct streams. -/
structure OwnStreams (c : ReceiverConfig) (a : ι → SenderArgs) : Prop where
  suite : ∀ i, (a i).suite = c.suite
  /-- No two senders share a stream. -/
  distinct : Function.Injective fun i => ((a i).session_id, (a i).stream_id)

/-- Such senders in the session that the receiver is pinned to, and no more of them than it has room for. -/
structure Peers [Fintype ι] (c : ReceiverConfig) (a : ι → SenderArgs) : Prop extends OwnStreams c a where
  pinned : ∀ i, ∀ pin ∈ c.expected_session_id, (a i).session_id = pin
  room : (Fintype.card ι : ℤ) ≤ c.max_streams

/-- The new senders of a family are in the receiver's suite, on the streams of their arguments. -/
theorem OwnStreams.of_new {c : ReceiverConfig} {a : ι → SenderArgs} {senders : ι → Sender}
    (hown : OwnStreams c a) (hs : ∀ i, Sender.new (a i) = .ok (senders i)) (i : ι) :
    (senders i).suite = c.suite ∧
      ((senders i).session_id, (senders i).stream_id) = ((a i).session_id, (a i).stream_id) := by
  obtain ⟨hsuite, hsession, hstream, -⟩ := Sender.new_eq_ok (hs i)
  exact ⟨hsuite.trans (hown.suite i), by rw [hsession, hstream]⟩

/-- A frame is delivered at a position of a run, and accepted. -/
def AcceptsFrameAt (os : List (Observation ι)) (d : ℕ) (wire : Bytes) : Prop :=
  ∃ st v, os[d]? = some (.delivered wire st) ∧ st.result = .ok v ∧ v.status = .ACCEPTED

/-! ## Histories -/

namespace History

variable {A : History} {key : StreamKey} {seq W : ℤ}

/-- A stream with a number has a largest. -/
theorem exists_isGreatest (h : A.numbers key ≠ ∅) : ∃ H, IsGreatest (A.numbers key : Set ℤ) H :=
  ⟨_, Finset.isGreatest_max' _ (Finset.nonempty_iff_ne_empty.mpr h)⟩

/-- A pair that was not accepted, with room for its stream, is refused exactly if its number is out of
the window of the highest. -/
theorem not_refused_iff {max : ℤ} (hnew : (key, seq) ∉ A)
    (hroom : A.numbers key = ∅ → (A.streams.card : ℤ) < max) :
    ¬A.Replayed W key seq ∧ ¬A.Stale W max key seq ↔
      A.numbers key = ∅ ∨ ∃ H, IsGreatest (A.numbers key : Set ℤ) H ∧ (H < seq ∨ H - seq < W) := by
  by_cases hnone : A.numbers key = ∅
  -- Nothing was accepted on the stream, which has room.
  · rw [stale_iff_of_empty hnone, not_le]
    have hfresh : ¬A.Replayed W key seq := not_replayed hnone
    have hfits : (A.streams.card : ℤ) < max := hroom hnone
    exact ⟨fun _ => .inl hnone, fun _ => ⟨hfresh, hfits⟩⟩
  -- Else the window reaches down from the highest number, which is the only one to compare with.
  · obtain ⟨H, hH⟩ := exists_isGreatest hnone
    rw [replayed_iff hH, stale_iff hH]
    constructor
    · rintro ⟨-, hnot⟩
      exact .inr ⟨H, hH, by omega⟩
    · rintro (hnone' | ⟨H', hH', hin⟩)
      · exact absurd hnone' hnone
      · obtain rfl := hH.unique hH'
        exact ⟨fun hr => hnew hr.2, by omega⟩

/-- A pair that was accepted or is behind the window of some number of its stream is refused: as replayed
if it was accepted and is within the window of the highest, and else as stale. -/
theorem refused_of_seen (max : ℤ)
    (h : (key, seq) ∈ A ∨ ∃ M ∈ A.numbers key, seq ≤ M ∧ W ≤ M - seq) :
    (A.Replayed W key seq ↔
      (key, seq) ∈ A ∧ ∃ H, IsGreatest (A.numbers key : Set ℤ) H ∧ H - seq < W) ∧
      (¬A.Replayed W key seq → A.Stale W max key seq) := by
  have hsome : A.numbers key ≠ ∅ := by
    intro hnone
    rcases h with hmem | ⟨M, hM, -⟩
    · rw [← mem_numbers, hnone] at hmem
      exact absurd hmem (Finset.notMem_empty seq)
    · rw [hnone] at hM
      exact absurd hM (Finset.notMem_empty M)
  obtain ⟨H, hH⟩ := exists_isGreatest hsome
  rw [replayed_iff hH, stale_iff hH]
  -- There is one highest number, so to say that it exists or to say it of `H` is the same.
  have hwindow : (∃ H, IsGreatest (A.numbers key : Set ℤ) H ∧ H - seq < W) ↔ H - seq < W :=
    ⟨fun ⟨_, hH', hin⟩ => hH.unique hH' ▸ hin, fun hin => ⟨H, hH, hin⟩⟩
  refine ⟨by rw [hwindow, and_comm], fun hno => ?_⟩
  show seq ≤ H ∧ W ≤ H - seq
  rcases h with hmem | ⟨M, hM, hle, hbehind⟩
  · have hle : seq ≤ H := hH.2 (Finset.mem_coe.mpr (mem_numbers.mpr hmem))
    have hout : ¬H - seq < W := fun hin => hno ⟨hin, hmem⟩
    omega
  -- What is behind the window of some number is behind that of the highest.
  · have hle' : M ≤ H := hH.2 (Finset.mem_coe.mpr hM)
    omega

end History

/-- The history of a run grows along it. -/
theorem historyBefore_mono {os : List (Observation ι)} {d d' : ℕ} (h : d' ≤ d) :
    historyBefore os d' ⊆ historyBefore os d := by
  intro place hplace
  obtain ⟨st, hst, hacc⟩ := History.mem_ofRun.mp hplace
  obtain ⟨k, hlt, wire, hget⟩ := mem_deliveries_take.mp hst
  have hst' : st ∈ deliveries (os.take d) := mem_deliveries_take.mpr ⟨k, hlt.trans_le h, wire, hget⟩
  exact History.mem_ofRun.mpr ⟨st, hst', hacc⟩

/-! ## What the history of a run holds -/

section Recovery

variable [DecidableEq ι] {c : ReceiverConfig} {a : ι → SenderArgs} {senders : ι → Sender}
  {es : List (Event ι)} {i j : ι} {e e' d : ℕ} {record record' : ProtectedRecord}
  {payload payload' wire wire' : Bytes}

/-- An accepted delivery is one of a frame that a sender emitted before, and puts its place into the
history. -/
theorem exists_emitsAt_of_mem {place : StreamKey × ℤ}
    (hunforged : Unforged (c.run senders es))
    (h : place ∈ historyBefore (c.run senders es) d) :
    ∃ d' < d, ∃ e' < d', ∃ j record' payload' wire',
      EmitsAt (c.run senders es) e' j record' payload' wire' ∧
        record'.header.place = place ∧
          AcceptsFrameAt (c.run senders es) d' wire' := by
  obtain ⟨st, hmem, hplace⟩ := History.mem_ofRun.mp h
  obtain ⟨d', hlt, wire', hget⟩ := mem_deliveries_take.mp hmem
  obtain ⟨v, -, hv, hacc, -, -⟩ := acceptedPlace_eq_some.mp hplace
  obtain ⟨record', nonce, aad, payload', -, hd⟩ := exists_opened hget hv hacc
  obtain ⟨e', hlt', j, hemits⟩ := hd.exists_emitsAt hunforged
  have hsame : record'.header.place = place := Option.some.inj (hd.place.symm.trans hplace)
  exact ⟨d', hlt, e', hlt', j, record', payload', wire', hemits, hsame, st, v, hget, hv, hacc⟩

section Emits

variable (hown : OwnStreams c a) (hs : ∀ i, Sender.new (a i) = .ok (senders i))
  (hseals : c.suite.impl.Seals)

include hown hs hseals

/-- What is known of a record that a sender of a family returned. -/
theorem EmitsAt.emitted_of_own
    (h : EmitsAt (c.run senders es) e i record payload wire) :
    Emitted ⟨senders, c.new⟩ es e i record payload wire :=
  h.emitted ((hown.of_new hs i).1 ▸ hseals)

/-- The stream of a record is that of its sender. -/
theorem EmitsAt.streamKey_eq
    (h : EmitsAt (c.run senders es) e i record payload wire) :
    record.header.streamKey = ((a i).session_id, (a i).stream_id) :=
  (h.emitted_of_own hown hs hseals).streamKey.trans (hown.of_new hs i).2

/-- The stream and the number of a record determine the call that returned it. -/
theorem EmitsAt.eq_of_place
    (h : EmitsAt (c.run senders es) e i record payload wire)
    (h' : EmitsAt (c.run senders es) e' j record' payload' wire')
    (hplace : record.header.place = record'.header.place) : e = e' ∧ wire = wire' := by
  obtain ⟨hkey, hseq⟩ := Prod.mk.inj hplace
  -- The stream determines the sender, and the number the call.
  have hi := h.streamKey_eq hown hs hseals
  rw [hkey, h'.streamKey_eq hown hs hseals] at hi
  obtain rfl : j = i := hown.distinct hi
  have hemitted := h.emitted_of_own hown hs hseals
  have hemitted' := h'.emitted_of_own hown hs hseals
  have hle := hemitted.not_lt_of_seq_eq hemitted' hseq
  have hge := hemitted'.not_lt_of_seq_eq hemitted hseq.symm
  obtain rfl : e = e' := by omega
  refine ⟨rfl, ?_⟩
  -- One call returns one record, and a record has one encoding.
  obtain ⟨⟨call, st, hget, -, hresult⟩, hwire⟩ := h
  obtain ⟨⟨call', st', hget', -, hresult'⟩, hwire'⟩ := h'
  rw [hget] at hget'
  cases hget'
  rw [hresult] at hresult'
  cases hresult'
  exact Except.ok.inj (hwire.symm.trans hwire')

/-- The history holds the place of a record exactly if its frame was delivered and accepted. -/
theorem EmitsAt.mem_history_iff (hunforged : Unforged (c.run senders es))
    (h : EmitsAt (c.run senders es) e i record payload wire) :
    record.header.place ∈ historyBefore (c.run senders es) d ↔
      ∃ d' < d, AcceptsFrameAt (c.run senders es) d' wire := by
  constructor
  · intro hmem
    obtain ⟨d', hlt, _, -, _, _, _, _, h', hplace, hacc⟩ :=
      exists_emitsAt_of_mem hunforged hmem
    obtain ⟨rfl, rfl⟩ := h.eq_of_place hown hs hseals h' hplace.symm
    exact ⟨d', hlt, hacc⟩
  · rintro ⟨d', hlt, st, v, hget, hv, hacc⟩
    obtain ⟨record', _, _, _, -, hd⟩ := exists_opened hget hv hacc
    -- What was accepted is what the frame parses to, and that is the record.
    have hparsed := (h.emitted_of_own hown hs hseals).parsed
    obtain rfl := Except.ok.inj (hparsed.symm.trans hd.parsed)
    have hst : st ∈ deliveries ((c.run senders es).take d) :=
      mem_deliveries_take.mpr ⟨d', hlt, wire, hget⟩
    exact History.mem_ofRun.mpr ⟨st, hst, hd.place⟩

end Emits

section Verdicts

variable [Fintype ι] (hpeers : Peers c a) (hs : ∀ i, Sender.new (a i) = .ok (senders i))
  (hseals : c.suite.impl.Seals)

include hpeers hs hseals

/-- The verdict on a frame that was emitted, by the history at its delivery: it is rejected if its
number is replayed or stale, and accepted otherwise. -/
theorem EmitsAt.verdict (hW : 0 ≤ c.replay_window)
    (h : EmitsAt (c.run senders es) e i record payload wire)
    {st : ReceiveStep}
    (hget : (c.run senders es)[d]? = some (.delivered wire st)) :
    let A := historyBefore (c.run senders es) d
    let replayed := A.Replayed c.replay_window record.header.streamKey record.header.seq
    let stale := A.Stale c.replay_window c.max_streams record.header.streamKey record.header.seq
    ∃ v, st.result = .ok v ∧ v.header = some record.header ∧
      (replayed → v.status = .REJECTED ∧ v.reason = some .REPLAY_DETECTED) ∧
      (¬replayed → stale → v.status = .REJECTED ∧ v.reason = some .STALE_RECORD) ∧
      (¬replayed → ¬stale → v.status = .ACCEPTED ∧ v.plaintext = some payload) := by
  intro A replayed stale
  have hemitted := h.emitted_of_own hpeers.toOwnStreams hs hseals
  obtain ⟨hsuite, hkey⟩ := hpeers.of_new hs i
  obtain ⟨-, hst⟩ := exists_of_delivered hget
  obtain ⟨hconfig, hrep⟩ := receiver_of_run_take c senders es d
  change _ = c at hconfig
  -- The header names the suite and the pinned session, so only the replay state can refuse it.
  have hsession : record.header.session_id = (a i).session_id :=
    congrArg Prod.fst (h.streamKey_eq hpeers.toOwnStreams hs hseals)
  have hpass : ¬∃ pin ∈ c.expected_session_id, record.header.session_id ≠ pin := by
    rintro ⟨pin, hmem, hne⟩
    exact hne (hsession.trans (hpeers.pinned i pin hmem))
  have hsame : ¬record.header.suite_id ≠ c.suite.suite_id := by
    rw [hemitted.suite_id, hsuite]
    exact not_not.mpr rfl
  have hopens := hemitted.opens
  rw [hsuite] at hopens
  generalize (Mealy.after System.step ⟨senders, c.new⟩ (es.take d)).receiver = r at hst hconfig hrep
  subst hconfig
  have hverdict := Receiver.receive_of_opens hW hrep hemitted.parsed hopens
  rw [ReceiverConfig.refusal, if_neg hsame, if_neg hpass, ← hst] at hverdict
  by_cases hr : replayed
  · rw [if_pos hr] at hverdict
    obtain ⟨detail, hv⟩ := hverdict
    exact ⟨_, hv, rfl, fun _ => ⟨rfl, rfl⟩, fun hno => absurd hr hno, fun hno => absurd hr hno⟩
  · rw [if_neg hr] at hverdict
    by_cases hstale : stale
    · rw [if_pos hstale] at hverdict
      obtain ⟨detail, hv⟩ := hverdict
      exact ⟨_, hv, rfl, fun hyes => absurd hyes hr, fun _ _ => ⟨rfl, rfl⟩,
        fun _ hno => absurd hstale hno⟩
    · rw [if_neg hstale] at hverdict
      exact ⟨_, hverdict, rfl, fun hyes => absurd hyes hr, fun _ hyes => absurd hyes hstale,
        fun _ _ => ⟨rfl, rfl⟩⟩

variable (hunforged : Unforged (c.run senders es))

include hunforged

/-- The streams of a history are among those of the senders, so there is room for the stream of a record
of which it has none. -/
theorem EmitsAt.card_streams_lt (h : EmitsAt (c.run senders es) e i record payload wire)
    (hnone : (historyBefore (c.run senders es) d).numbers record.header.streamKey = ∅) :
    ((historyBefore (c.run senders es) d).streams.card : ℤ) < c.max_streams := by
  rw [h.streamKey_eq hpeers.toOwnStreams hs hseals] at hnone
  generalize hA : historyBefore (c.run senders es) d = A at hnone ⊢
  let keys : Finset StreamKey := Finset.univ.image fun i => ((a i).session_id, (a i).stream_id)
  -- Every stream of the history is one of a sender, and none is this one.
  have hsub : A.streams ⊆ keys.erase ((a i).session_id, (a i).stream_id) := by
    intro key hkey
    obtain ⟨q, hq⟩ := History.mem_streams.mp hkey
    refine Finset.mem_erase.mpr ⟨?_, ?_⟩
    · rintro rfl
      rw [hnone] at hq
      exact absurd hq (Finset.notMem_empty q)
    · rw [History.mem_numbers, ← hA] at hq
      obtain ⟨_, _, _, _, j, record', _, _, h', hplace, -⟩ := exists_emitsAt_of_mem hunforged hq
      have hkey' : record'.header.streamKey = key := congrArg Prod.fst hplace
      refine Finset.mem_image.mpr ⟨j, Finset.mem_univ j, ?_⟩
      exact (h'.streamKey_eq hpeers.toOwnStreams hs hseals).symm.trans hkey'
  have hcard : keys.card = Fintype.card ι := Finset.card_image_of_injective _ hpeers.distinct
  have hmem : ((a i).session_id, (a i).stream_id) ∈ keys :=
    Finset.mem_image_of_mem (fun i => ((a i).session_id, (a i).stream_id)) (Finset.mem_univ i)
  have hlt : A.streams.card < Fintype.card ι :=
    calc A.streams.card
      _ ≤ (keys.erase ((a i).session_id, (a i).stream_id)).card := Finset.card_le_card hsub
      _ < keys.card := Finset.card_erase_lt_of_mem hmem
      _ = Fintype.card ι := hcard
  have hroom := hpeers.room
  omega

/-- A frame that was delivered before was accepted, or is behind the window of some number of its
stream. -/
theorem EmitsAt.seen_of_delivered (hW : 0 ≤ c.replay_window)
    (h : EmitsAt (c.run senders es) e i record payload wire)
    (hbefore : ∃ d' < d, ∃ st, (c.run senders es)[d']? = some (.delivered wire st)) :
    (record.header.streamKey, record.header.seq) ∈ historyBefore (c.run senders es) d ∨
      ∃ M ∈ (historyBefore (c.run senders es) d).numbers record.header.streamKey,
        record.header.seq ≤ M ∧ c.replay_window ≤ M - record.header.seq := by
  obtain ⟨d', hlt, st, hget⟩ := hbefore
  have hmono : historyBefore (c.run senders es) d' ⊆ historyBefore (c.run senders es) d :=
    historyBefore_mono hlt.le
  obtain ⟨v, hv, -, -, -, haccept⟩ := h.verdict hpeers hs hseals hW hget
  -- By the verdict on the earlier delivery: replayed and accepted both mean that the history has it.
  by_cases hr : (historyBefore (c.run senders es) d').Replayed c.replay_window
    record.header.streamKey record.header.seq
  · obtain ⟨_, -, -, hmem⟩ := hr
    exact .inl (hmono hmem)
  · by_cases hstale : (historyBefore (c.run senders es) d').Stale c.replay_window c.max_streams
      record.header.streamKey record.header.seq
    · rcases hstale with ⟨M, hM, hle, hbehind⟩ | ⟨hnone, hfull⟩
      · have hM' : M ∈ (historyBefore (c.run senders es) d).numbers record.header.streamKey :=
          History.mem_numbers.mpr (hmono (History.mem_numbers.mp hM.1))
        exact .inr ⟨M, hM', hle, hbehind⟩
      · exact absurd (h.card_streams_lt hpeers hs hseals hunforged hnone) (not_lt.mpr hfull)
    · have hacc : AcceptsFrameAt (c.run senders es) d' wire := ⟨st, v, hget, hv, (haccept hr hstale).1⟩
      exact .inl ((h.mem_history_iff hpeers.toOwnStreams hs hseals hunforged).mpr ⟨d', hlt, hacc⟩)

end Verdicts

end Recovery

/-- Exactly-once recovery. Senders of a family emit frames that are delivered in any order, any number
of times or never, among any other byte strings that do not authenticate. The first delivery of a frame
is accepted, with the payload and the header that were sealed, exactly if nothing was accepted on its
stream so far, or its number is beyond the highest number accepted there, or within the window of that.
Every later delivery of it is rejected: as replayed if it was accepted and is still within the window,
and as stale otherwise. -/
theorem exactly_once_recovery [DecidableEq ι] [Fintype ι] {c : ReceiverConfig} {a : ι → SenderArgs}
    {senders : ι → Sender} {es : List (Event ι)} {i : ι} {e d : ℕ} {record : ProtectedRecord}
    {payload wire : Bytes} {st : ReceiveStep} (hW : 0 ≤ c.replay_window) (hpeers : Peers c a)
    (hs : ∀ i, Sender.new (a i) = .ok (senders i)) (hseals : c.suite.impl.Seals)
    (hunforged : Unforged (c.run senders es))
    (hemits : EmitsAt (c.run senders es) e i record payload wire)
    (hget : (c.run senders es)[d]? = some (.delivered wire st)) :
    let os := c.run senders es
    let numbers := (historyBefore os d).numbers record.header.streamKey
    let seq := record.header.seq
    let delivered := ∃ d' < d, ∃ st', os[d']? = some (.delivered wire st')
    let accepted := ∃ d' < d, AcceptsFrameAt os d' wire
    let inWindow := ∃ H, IsGreatest (numbers : Set ℤ) H ∧ H - seq < c.replay_window
    let recoverable := numbers = ∅ ∨
      ∃ H, IsGreatest (numbers : Set ℤ) H ∧ (H < seq ∨ H - seq < c.replay_window)
    ∃ v, st.result = .ok v ∧
      (¬delivered →
        (v.status = .ACCEPTED ∧ v.plaintext = some payload ∧ v.header = some record.header ↔
          recoverable) ∧ (¬recoverable → v.status = .REJECTED)) ∧
      (delivered → v.status = .REJECTED ∧
        (accepted ∧ inWindow → v.reason = some .REPLAY_DETECTED) ∧
        (¬(accepted ∧ inWindow) → v.reason = some .STALE_RECORD)) := by
  intro os numbers seq delivered accepted inWindow recoverable
  obtain ⟨v, hv, hheader, hreplay, hstale, haccept⟩ := hemits.verdict hpeers hs hseals hW hget
  have hmem := hemits.mem_history_iff (d := d) hpeers.toOwnStreams hs hseals hunforged
  have hroom := hemits.card_streams_lt (d := d) hpeers hs hseals hunforged
  refine ⟨v, hv, fun hfirst => ?_, fun hlater => ?_⟩
  -- The first delivery: the history has not got the record, so only its number can be held against it.
  · have hnew : record.header.place ∉ historyBefore os d := by
      rw [hmem]
      rintro ⟨d', hlt, st', _, hget', -⟩
      exact hfirst ⟨d', hlt, st', hget'⟩
    have hiff := History.not_refused_iff (W := c.replay_window) hnew hroom
    by_cases hrec : recoverable
    · obtain ⟨hnr, hns⟩ := hiff.mpr hrec
      obtain ⟨hstatus, hplaintext⟩ := haccept hnr hns
      exact ⟨iff_of_true ⟨hstatus, hplaintext, hheader⟩ hrec, fun hno => absurd hrec hno⟩
    · have hstatus : v.status = .REJECTED := by
        by_cases hr : (historyBefore os d).Replayed c.replay_window record.header.streamKey seq
        · exact (hreplay hr).1
        · exact (hstale hr (by_contra fun hns => hrec (hiff.mp ⟨hr, hns⟩))).1
      refine ⟨iff_of_false (fun hacc => ?_) hrec, fun _ => hstatus⟩
      rw [hacc.1] at hstatus
      cases hstatus
  -- A later one: the history has the record, or it was behind the window at an earlier delivery.
  · have hseen := hemits.seen_of_delivered hpeers hs hseals hunforged hW hlater
    obtain ⟨hiff, hst⟩ := History.refused_of_seen c.max_streams hseen
    rw [← RecordHeader.place, hmem] at hiff
    by_cases hr : (historyBefore os d).Replayed c.replay_window record.header.streamKey seq
    · obtain ⟨hstatus, hreason⟩ := hreplay hr
      exact ⟨hstatus, fun _ => hreason, fun hno => absurd (hiff.mp hr) hno⟩
    · obtain ⟨hstatus, hreason⟩ := hstale hr (hst hr)
      exact ⟨hstatus, fun hyes => absurd (hiff.mpr hyes) hr, fun _ => hreason⟩

/-- A frame that is delivered twice is accepted with its payload, and rejected then. -/
theorem exactly_once_recovery_of_replay :
    (∀ st, checksumRun[1]? = some (.delivered checksumFrame st) →
      ∃ v, st.result = .ok v ∧ v.status = .ACCEPTED ∧ v.plaintext = some [1, 2, 3]) ∧
    ∀ st, checksumRun[2]? = some (.delivered checksumFrame st) →
      ∃ v, st.result = .ok v ∧ v.status = .REJECTED := by
  have hpeers : Peers checksumConfig (fun _ : Unit => checksumArgs) :=
    ⟨⟨fun _ => rfl, fun _ _ _ => rfl⟩, fun _ pin h => by cases h; rfl, by decide⟩
  obtain ⟨record, hemits⟩ := exists_emitsAt_checksumRun
  refine ⟨fun st h => ?_, fun st h => ?_⟩
  · obtain ⟨v, hv, hfirst, -⟩ := exactly_once_recovery (by decide) hpeers
      (fun _ => checksumSender_new) Backend.checksum_seals unforged_checksumRun hemits h
    have hnot : ¬∃ d' < 1, ∃ st', checksumRun[d']? = some (.delivered checksumFrame st') := by
      rintro ⟨d', hlt, st', h'⟩
      obtain rfl : d' = 0 := by omega
      cases h'
    obtain ⟨hstatus, hplaintext, -⟩ := (hfirst hnot).1.mpr (.inl rfl)
    exact ⟨v, hv, hstatus, hplaintext⟩
  · obtain ⟨v, hv, -, hlater⟩ := exactly_once_recovery (by decide) hpeers
      (fun _ => checksumSender_new) Backend.checksum_seals unforged_checksumRun hemits h
    exact ⟨v, hv, (hlater ⟨1, by decide, _, rfl⟩).1⟩

end Srp
