import Srp.Mealy
import Srp.Receiver
import Srp.History

/-!
# The receiver refines one that remembers everything

The abstract receiver (`ReceiverConfig.step`) has the whole `History` for its state, and judges a
frame by it. The replay state of a receiver stands for the history of its run, so it answers the same
(`receiver_refines_history`). With that, every raise site on the path of `receive` is unreachable
(`receive_never_raises`).
-/

namespace Srp

/-! ## The abstract receiver -/

/-- The place of a record in a history: its stream and its sequence number. -/
def RecordHeader.place (h : RecordHeader) : StreamKey × ℤ := (h.streamKey, h.seq)

/-- What `suite.open` makes of a record, under the nonce and the associated data that its header
gives. -/
def AeadSuite.openRecord (suite : AeadSuite) (record : ProtectedRecord) : Except Error Bytes := do
  let nonce ← deriveNonce record.header.nonce_prefix record.header.seq
  let aad ← record.header.aad
  suite.open nonce record.ciphertext_and_tag aad

/-- A frame passes `suite.open`: it parses, and opens under the nonce and the associated data that its
header gives. -/
def AeadSuite.Authenticates (suite : AeadSuite) (wire : Bytes) : Prop :=
  ∃ record plaintext, parseRecord wire = .ok record ∧ suite.openRecord record = .ok plaintext

/-- Whether a frame passes `suite.open`. -/
def AeadSuite.authenticates (suite : AeadSuite) (wire : Bytes) : Bool :=
  match parseRecord wire with
  | .error _ => false
  | .ok record => (suite.openRecord record).toBool

/-- It says so. -/
theorem AeadSuite.authenticates_iff {suite : AeadSuite} {wire : Bytes} :
    suite.authenticates wire = true ↔ suite.Authenticates wire := by
  unfold authenticates Authenticates
  cases hp : parseRecord wire with
  | error e => simp
  | ok record => cases hopen : suite.openRecord record <;> simp [hopen, Except.toBool]

instance (suite : AeadSuite) : DecidablePred suite.Authenticates := fun _ =>
  decidable_of_iff _ AeadSuite.authenticates_iff

/-- What a verdict says of a delivery. -/
structure Judgement where
  status : RecordStatus
  reason : Option RejectReason
  plaintext : Option Bytes
  deriving DecidableEq, Repr

/-- The judgement of a rejection. -/
def Judgement.rejected (reason : RejectReason) : Judgement := ⟨.REJECTED, some reason, none⟩

/-- The judgement of an acceptance. -/
def Judgement.accepted (plaintext : Bytes) : Judgement := ⟨.ACCEPTED, none, some plaintext⟩

/-- What a verdict says of its delivery. -/
def Verdict.judgement (v : Verdict) : Judgement := ⟨v.status, v.reason, v.plaintext⟩

/-- What a receiver is built with. -/
structure ReceiverConfig where
  suite : AeadSuite
  expected_session_id : Option Bytes
  replay_window : ℤ
  max_streams : ℤ

namespace ReceiverConfig

variable (c : ReceiverConfig)

/-- The new receiver. -/
def new : Receiver := .new c.suite c.expected_session_id c.replay_window c.max_streams

open Classical in
/-- The first reason before authentication that applies to a header, if any does. -/
noncomputable def refusal (A : History) (header : RecordHeader) : Option RejectReason :=
  if header.suite_id ≠ c.suite.suite_id then some .SUITE_MISMATCH
  else if ∃ pin ∈ c.expected_session_id, header.session_id ≠ pin then some .SESSION_MISMATCH
  else if A.Replayed c.replay_window header.streamKey header.seq then some .REPLAY_DETECTED
  else if A.Stale c.replay_window c.max_streams header.streamKey header.seq then some .STALE_RECORD
  else none

/-- The judgement on a frame. -/
noncomputable def judge (A : History) (wire : Bytes) : Judgement :=
  match parseRecord wire with
  | .error _ => .rejected .MALFORMED
  | .ok record =>
    match c.refusal A record.header with
    | some reason => .rejected reason
    | none =>
      match c.suite.openRecord record with
      | .error _ => .rejected .AUTH_FAILED
      | .ok plaintext => .accepted plaintext

/-- The abstract receiver: it judges a frame, and remembers the place of a record that it accepts. -/
noncomputable def step (A : History) (wire : Bytes) : Judgement × History :=
  (c.judge A wire,
    match parseRecord wire with
    | .ok record =>
      if (c.judge A wire).status = .ACCEPTED then insert record.header.place A else A
    | .error _ => A)

end ReceiverConfig

/-- A receiver over the checksum backend for examples, pinned to a session, with a window of 64 numbers
and room for four streams. -/
def checksumConfig : ReceiverConfig :=
  { suite := checksumSuite 1 one_byte, expected_session_id := some (List.replicate sessionIdLen 7)
    replay_window := 64, max_streams := 4 }

/-- The frame of record 0 of stream 1 of that session, with payload `[1, 2, 3]`. -/
def checksumFrame : Bytes :=
  [1, 1, 1, 0] ++ List.replicate sessionIdLen 7 ++ [0, 0, 0, 1] ++ [0, 0, 0, 1] ++
    List.replicate 8 0 ++ [0, 0, 0, 3] ++ [1, 2, 3] ++ List.replicate suiteTagLen 127

/-! ## What a run of a receiver accepted -/

/-- The place of the record that a call accepted, if it accepted one. -/
def ReceiveStep.acceptedPlace (st : ReceiveStep) : Option (StreamKey × ℤ) :=
  match st.result with
  | .ok v => if v.status = .ACCEPTED then v.header.map RecordHeader.place else none
  | .error _ => none

/-- The places that the calls of a run accepted. -/
def History.ofRun (steps : List ReceiveStep) : History :=
  (steps.filterMap ReceiveStep.acceptedPlace).toFinset

/-- The history after one more call. -/
def History.grow (A : History) (st : ReceiveStep) : History :=
  match st.acceptedPlace with
  | some place => insert place A
  | none => A

/-- One more call grows the history by what it accepted. -/
theorem History.ofRun_append_singleton (steps : List ReceiveStep) (st : ReceiveStep) :
    ofRun (steps ++ [st]) = (ofRun steps).grow st := by
  unfold ofRun grow
  cases h : st.acceptedPlace <;> simp [h]

/-- A history holds the places that the calls of its run accepted. -/
theorem History.mem_ofRun {steps : List ReceiveStep} {place : StreamKey × ℤ} :
    place ∈ ofRun steps ↔ ∃ st ∈ steps, st.acceptedPlace = some place := by
  simp [ofRun]

/-- The history of a run holds that of its beginning. -/
theorem History.ofRun_subset_append (steps steps' : List ReceiveStep) :
    ofRun steps ⊆ ofRun (steps ++ steps') := by
  intro place h
  obtain ⟨st, hst, hplace⟩ := mem_ofRun.mp h
  exact mem_ofRun.mpr ⟨st, List.mem_append_left _ hst, hplace⟩

/-- A call accepts a place if it returns an accepted verdict whose header names it. -/
theorem acceptedPlace_eq_some {st : ReceiveStep} {place : StreamKey × ℤ} :
    st.acceptedPlace = some place ↔ ∃ v header, st.result = .ok v ∧ v.status = .ACCEPTED ∧
      v.header = some header ∧ header.place = place := by
  unfold ReceiveStep.acceptedPlace
  rcases st.result with e | v
  · simp
  · by_cases hacc : v.status = .ACCEPTED
    · simp [hacc]
    · simp [hacc]

/-- An acceptance accepts the place that its header names. -/
@[simp]
theorem acceptedPlace_acceptance (plaintext : Bytes) (header : RecordHeader) (r : Receiver)
    (opened : Option SuiteOpen) :
    (ReceiveStep.mk (.ok (.acceptance plaintext header)) r opened).acceptedPlace =
      some header.place := rfl

/-! ## One call -/

namespace Receiver

variable {r : Receiver} {A : History} {wire nonce aad : Bytes} {record : ProtectedRecord}

/-- The configuration of a receiver. -/
abbrev config (r : Receiver) : ReceiverConfig :=
  ⟨r.suite, r.expected_session_id, r.replay_guard.window_size, r.replay_guard.max_streams⟩

/-- An acceptance does not change the configuration. -/
theorem config_committed (r : Receiver) (header : RecordHeader) (plaintext : Bytes) :
    (r.committed header plaintext).config = r.config := by
  obtain ⟨hW, hmax⟩ := r.replay_guard.commit_config header.streamKey header.seq
  rw [config, committed, hW, hmax]

/-- No call changes the configuration. -/
theorem Outcome.config_eq {st : ReceiveStep} (h : r.Outcome wire st) :
    st.receiver.config = r.config := by
  cases h with
  | accepted => exact config_committed r _ _
  | _ => rfl

/-- No run changes the configuration. -/
theorem after_config (r : Receiver) (ws : List Bytes) :
    (Mealy.after step r ws).config = r.config :=
  Mealy.after_invariant (P := fun t : Receiver => t.config = r.config)
    (fun t w ht => (receive_outcome t w).config_eq.trans ht) rfl ws

/-- A record that gets to `suite.open` is opened under the nonce and the associated data that its
header gives. -/
theorem Reaches.openRecord_eq (h : r.Reaches wire record nonce aad) :
    r.suite.openRecord record = r.suite.open nonce record.ciphertext_and_tag aad := by
  simp only [AeadSuite.openRecord, h.nonce, RecordHeader.aad, h.aad]
  rfl

/-- Steps 2 to 4 refuse a header for the first reason that applies to it, by the history that the
replay state stands for. -/
theorem refusal_eq (h : r.replay_guard.Represents A) (header : RecordHeader) :
    (r.refusal header).map Prod.fst = r.config.refusal A header := by
  rw [refusal, ReceiverConfig.refusal]
  by_cases hsuite : header.suite_id ≠ r.suite.suite_id
  · rw [if_pos hsuite, if_pos hsuite]
    rfl
  · rw [if_neg hsuite, if_neg hsuite]
    by_cases hpin : ∃ pin ∈ r.expected_session_id, header.session_id ≠ pin
    · rw [if_pos hpin]
      obtain ⟨pin, hmem, hne⟩ := hpin
      rw [Option.mem_def.mp hmem, Option.filter_some_pos (by simpa using hne)]
      rfl
    · have hfilter : r.expected_session_id.filter (header.session_id ≠ ·) = none := by
        rw [Option.filter_eq_none_iff]
        intro pin hmem
        simpa using fun hne => hpin ⟨pin, hmem, hne⟩
      rw [if_neg hpin, hfilter]
      -- The number of a header is from zero, so the guard answers by the history.
      rcases h.check_cases header.streamKey header.admitted.seq.1 with
        ⟨hr, hc⟩ | ⟨hr, hs, hc | hc⟩ | ⟨hr, hs, hc⟩
      · simp [hr, hc]
      · simp [hr, hs, hc]
      · simp [hr, hs, hc]
      · simp [hr, hs, hc]

/-- Steps 2 to 4 let a header through that names the suite and the pinned session, and whose number the
replay state finds fresh. -/
theorem refusal_eq_none {header : RecordHeader} :
    r.refusal header = none ↔
      header.suite_id = r.suite.suite_id ∧ (∀ pin ∈ r.expected_session_id, header.session_id = pin) ∧
        r.replay_guard.check header.streamKey header.seq = .FRESH := by
  unfold refusal
  by_cases hsuite : header.suite_id = r.suite.suite_id
  · cases hpin : r.expected_session_id.filter (header.session_id ≠ ·) with
    | some pin =>
      obtain ⟨hmem, hne⟩ := Option.filter_eq_some_iff.mp hpin
      have hno : ¬∀ pin ∈ r.expected_session_id, header.session_id = pin :=
        fun hall => absurd (hall pin hmem) (by simpa using hne)
      simp only [hsuite, ne_eq, not_true_eq_false, if_false, reduceCtorEq, hno, false_and, and_false]
    | none =>
      have hall : ∀ pin ∈ r.expected_session_id, header.session_id = pin := by
        simpa using Option.filter_eq_none_iff.mp hpin
      simp only [hsuite, ne_eq, not_true_eq_false, if_false, true_and]
      cases r.replay_guard.check header.streamKey header.seq <;> simp_all
  · simp [hsuite]

/-- A call leaves a replay state that stands for the history after it, and what it accepts is new to
the history. -/
theorem Outcome.represents {st : ReceiveStep} (h : r.replay_guard.Represents A)
    (ho : r.Outcome wire st) :
    st.receiver.replay_guard.Represents (A.grow st) ∧
      ∀ place, st.acceptedPlace = some place → place ∉ A := by
  -- Only an acceptance writes the replay state, and it was checked in the same state.
  cases ho with
  | @accepted record nonce aad plaintext changed hr ho hc =>
    have hfresh : r.replay_guard.check record.header.streamKey record.header.seq = .FRESH :=
      (refusal_eq_none.mp hr.passed).2.2
    obtain ⟨-, hnot, hrep⟩ := h.commit_fresh record.header.admitted.seq.1 hfresh hc
    refine ⟨hrep, fun place hplace => ?_⟩
    rw [acceptedPlace_acceptance, Option.some.injEq] at hplace
    exact hplace ▸ hnot
  | _ => exact ⟨h, fun place hplace => by cases hplace⟩

/-- After a run from a new receiver, the replay state stands for the history of the run. -/
theorem represents_ofRun (c : ReceiverConfig) (ws : List Bytes) :
    (Mealy.after step c.new ws).replay_guard.Represents
      (.ofRun (Mealy.outputs step c.new ws)) := by
  refine Mealy.run_invariant (I := fun _ os (t : Receiver) => t.replay_guard.Represents (.ofRun os))
    (ReplayGuard.tracks_new _ _) (fun _ os t w ht => ?_) ws
  rw [History.ofRun_append_singleton]
  exact ((t.receive_outcome w).represents ht).1

/-- Over a documented backend and with a window size from zero, a call returns the verdict that the
abstract receiver judges. -/
theorem Outcome.judgement_eq {st : ReceiveStep} (hdoc : r.suite.impl.DecryptDocumented)
    (hW : 0 ≤ r.replay_guard.window_size) (h : r.replay_guard.Represents A)
    (ho : r.Outcome wire st) :
    ∃ v, st.result = .ok v ∧ v.judgement = r.config.judge A wire := by
  unfold ReceiverConfig.judge
  cases ho with
  | malformed hp => exact ⟨_, rfl, by rw [hp]; rfl⟩
  | @refused record reason detail hp hr =>
    have hrefusal := refusal_eq h record.header
    rw [hr] at hrefusal
    refine ⟨_, rfl, ?_⟩
    simp only [hp, ← hrefusal]
    rfl
  | @authFailed record nonce aad message hr ho =>
    have hrefusal := refusal_eq h record.header
    rw [hr.passed] at hrefusal
    refine ⟨_, rfl, ?_⟩
    simp only [hr.parsed, ← hrefusal, hr.openRecord_eq, ho]
    rfl
  | openRaised hr ho he =>
    obtain ⟨message, rfl⟩ := hr.exists_message hdoc ho
    exact absurd rfl (he message)
  | commitRaised hr ho hc =>
    exact absurd (congrArg Prod.fst hc) (ReplayGuard.commit_ne_error hW _ _ _)
  | @accepted record nonce aad plaintext changed hr ho hc =>
    have hrefusal := refusal_eq h record.header
    rw [hr.passed] at hrefusal
    refine ⟨_, rfl, ?_⟩
    simp only [hr.parsed, ← hrefusal, hr.openRecord_eq, ho]
    rfl

/-- With a window size from zero, a record that opens is refused for the first reason that applies to
its header, and accepted if none does. -/
theorem receive_of_opens (hW : 0 ≤ r.replay_guard.window_size) (h : r.replay_guard.Represents A)
    (hp : parseRecord wire = .ok record) {plaintext : Bytes}
    (hopen : r.suite.openRecord record = .ok plaintext) :
    match r.config.refusal A record.header with
    | some reason =>
      ∃ detail, (r.receive wire).result = .ok (.rejection reason (some record.header) detail)
    | none => (r.receive wire).result = .ok (.acceptance plaintext record.header) := by
  rw [← refusal_eq h record.header]
  rcases hr : r.refusal record.header with - | ⟨reason, detail⟩
  · have hreaches := reaches_of_passed hp hr
    have ho := hreaches.openRecord_eq.symm.trans hopen
    rcases hc : (r.replay_guard.commit record.header.streamKey record.header.seq).1 with e | changed
    · exact absurd hc (ReplayGuard.commit_ne_error hW _ _ _)
    · show (r.receive wire).result = _
      rw [← (Outcome.accepted hreaches ho hc).eq_receive]
  · refine ⟨detail, ?_⟩
    rw [← (Outcome.refused hp hr).eq_receive]

/-- The history grows by a call as the abstract receiver's does. -/
theorem Outcome.grow_eq {st : ReceiveStep} (hdoc : r.suite.impl.DecryptDocumented)
    (hW : 0 ≤ r.replay_guard.window_size) (h : r.replay_guard.Represents A)
    (ho : r.Outcome wire st) : A.grow st = (r.config.step A wire).2 := by
  obtain ⟨v, hv, hj⟩ := ho.judgement_eq hdoc hW h
  simp only [ReceiverConfig.step, ← hj]
  cases ho with
  | malformed hp =>
    simp only [hp]
    rfl
  | refused hp =>
    cases hv
    simp only [hp]
    rfl
  | authFailed hr =>
    cases hv
    simp only [hr.parsed]
    rfl
  | openRaised => cases hv
  | commitRaised => cases hv
  | accepted hr =>
    cases hv
    simp only [hr.parsed]
    rfl

/-- After a run, the abstract receiver remembers the history of the run of the receiver. -/
theorem after_step_eq_ofRun {c : ReceiverConfig} (hdoc : c.suite.impl.DecryptDocumented)
    (hW : 0 ≤ c.replay_window) (ws : List Bytes) :
    Mealy.after c.step ∅ ws = .ofRun (Mealy.outputs step c.new ws) := by
  -- From the end, since a call is judged by what the calls before it accepted.
  induction ws using List.reverseRecOn with
  | nil => rfl
  | append_singleton ws w ih =>
    have hrep := represents_ofRun c ws
    have hconfig := after_config c.new ws
    rw [Mealy.outputs_append, Mealy.outputs_cons, Mealy.outputs_nil, Mealy.after_append,
      Mealy.after_cons, Mealy.after_nil, History.ofRun_append_singleton, ih]
    generalize Mealy.after step c.new ws = r at hrep hconfig ⊢
    obtain rfl : r.config = c := hconfig
    exact ((receive_outcome r w).grow_eq hdoc hW hrep).symm

end Receiver

/-- The receiver refines the abstract receiver that remembers the set `A` of all accepted places. In
every run from a new receiver, the verdict on the next frame is the one that the abstract receiver
judges by `A`, and `A` grows by exactly the place of an accepted record. -/
theorem receiver_refines_history (c : ReceiverConfig) (hW : 0 ≤ c.replay_window)
    (hdoc : c.suite.impl.DecryptDocumented) (ws : List Bytes) (w : Bytes) :
    let r := Mealy.after Receiver.step c.new ws
    let A := Mealy.after c.step ∅ ws
    A = .ofRun (Mealy.outputs Receiver.step c.new ws) ∧
    ∃ v, (r.receive w).result = .ok v ∧ v.judgement = (c.step A w).1 ∧
      (v.status = .ACCEPTED → ∃ record, parseRecord w = .ok record ∧
        v.header = some record.header ∧ record.header.place ∉ A ∧
          (c.step A w).2 = insert record.header.place A) ∧
      (v.status ≠ .ACCEPTED → (c.step A w).2 = A) := by
  intro r A
  have hA : A = .ofRun (Mealy.outputs Receiver.step c.new ws) :=
    Receiver.after_step_eq_ofRun hdoc hW ws
  have hrep : r.replay_guard.Represents A := hA ▸ Receiver.represents_ofRun c ws
  have hconfig : r.config = c := Receiver.after_config c.new ws
  clear_value r A
  subst hconfig
  have ho := r.receive_outcome w
  obtain ⟨v, hv, hj⟩ := ho.judgement_eq hdoc hW hrep
  refine ⟨hA, v, hv, hj, ?_⟩
  -- What `A` grows by is read off the outcome of the call.
  rw [← ho.grow_eq hdoc hW hrep]
  have hnew := (ho.represents hrep).2
  generalize r.receive w = st at ho hv hnew ⊢
  cases ho with
  | openRaised => cases hv
  | commitRaised => cases hv
  | accepted hr =>
    cases hv
    exact ⟨fun _ => ⟨_, hr.parsed, rfl, hnew _ rfl, rfl⟩, fun hno => absurd rfl hno⟩
  | _ =>
    cases hv
    exact ⟨fun hacc => RecordStatus.noConfusion hacc, fun _ => rfl⟩

/-- Delivered twice, a frame is judged twice as the abstract receiver judges it. -/
theorem receiver_refines_history_of_replay :
    let A := Mealy.after checksumConfig.step ∅ [checksumFrame]
    A = .ofRun (Mealy.outputs Receiver.step checksumConfig.new [checksumFrame]) ∧
      ∃ v, ((Mealy.after Receiver.step checksumConfig.new [checksumFrame]).receive
        checksumFrame).result = .ok v ∧ v.judgement = (checksumConfig.step A checksumFrame).1 := by
  obtain ⟨hA, v, hv, hj, -⟩ := receiver_refines_history checksumConfig (by decide)
    Backend.checksum_documented [checksumFrame] checksumFrame
  exact ⟨hA, v, hv, hj⟩

/-! ## No call raises -/

/-- No raise site on the path of a call can be reached, apart from the two whose exceptions `receive`
catches. -/
structure Receiver.NoRaise (r : Receiver) (wire : Bytes) : Prop where
  /-- `parse_record` raises nothing but `MalformedRecordError`: neither the checks of the
  `RecordHeader` constructor nor `struct.unpack` can fail in it. -/
  parse : ∀ e, parseRecord wire = .error e → ∃ message, e = .malformedRecordError message
  /-- The header of a parsed record packs. -/
  aad : ∀ record, parseRecord wire = .ok record → ∃ aad, record.header.aad = .ok aad
  /-- `derive_nonce` succeeds on it, and returns a nonce of the length that `AeadSuite.open` wants. -/
  nonce : ∀ record, parseRecord wire = .ok record →
    ∃ nonce, deriveNonce record.header.nonce_prefix record.header.seq = .ok nonce ∧
      nonce.length = nonceLen
  /-- The body of a parsed record has room for a tag. -/
  body : ∀ record, parseRecord wire = .ok record → suiteTagLen ≤ record.ciphertext_and_tag.length
  /-- The window of a new stream can be built. -/
  window : ∃ w, ReplayWindow.new r.replay_guard.window_size = .ok w
  /-- `Verdict.__post_init__` lets every rejection through that `receive` builds. -/
  rejection : ∀ reason header detail, ∃ v, Verdict.new (.rejection reason header detail) = .ok v
  /-- `Verdict.__post_init__` lets every acceptance through that `receive` builds. -/
  acceptance : ∀ plaintext header, ∃ v, Verdict.new (.acceptance plaintext header) = .ok v

namespace Receiver

/-- With a window size from zero, no raise site of a call can be reached. -/
theorem noRaise {r : Receiver} (hW : 0 ≤ r.replay_guard.window_size) (wire : Bytes) :
    r.NoRaise wire where
  parse _ he := parseRecord_error he
  aad _ hp := ⟨_, (slices_of_parseRecord hp).1⟩
  nonce _ hp := by
    obtain ⟨-, -, hn, -⟩ := slices_of_parseRecord hp
    exact ⟨_, hn, length_deriveNonce hn⟩
  body record hp := by
    obtain ⟨-, -, -, hlen⟩ := parseRecord_eq_ok.mp hp
    have h0 := record.header.admitted.payload_len.1
    rw [tagLen_eq] at hlen
    unfold suiteTagLen
    omega
  window := ReplayGuard.exists_new_window hW
  rejection reason header detail :=
    ⟨_, Verdict.new_of_failClosed (VerdictFields.failClosed_rejection reason header detail)⟩
  acceptance plaintext header :=
    ⟨_, Verdict.new_of_failClosed (VerdictFields.failClosed_acceptance plaintext header)⟩

/-- A verdict carries a plaintext exactly if `suite.open` returned it in that call, and a reason
exactly if `suite.open` returned none. -/
theorem Outcome.plaintext_iff {r : Receiver} {wire : Bytes} {st : ReceiveStep} {v : Verdict}
    (ho : r.Outcome wire st) (hv : st.result = .ok v) :
    (∀ p, v.plaintext = some p ↔ ∃ call, st.opened = some call ∧ call.result = .ok p) ∧
      (v.reason.isSome ↔ ¬∃ call p, st.opened = some call ∧ call.result = .ok p) := by
  cases ho with
  | openRaised => cases hv
  | commitRaised => cases hv
  | _ =>
    cases hv
    simp [Verdict.rejection, VerdictFields.rejection, Verdict.acceptance, VerdictFields.acceptance]

end Receiver

/-- In every state that a run from a new receiver reaches and on every byte string, `receive` returns
a verdict: no other raise site on its path can be reached. The verdict carries a plaintext exactly if
`suite.open` returned it in that very call, and a reason exactly if `suite.open` returned none. -/
theorem receive_never_raises (c : ReceiverConfig) (hW : 0 ≤ c.replay_window)
    (hdoc : c.suite.impl.DecryptDocumented) (ws : List Bytes) (w : Bytes) :
    let r := Mealy.after Receiver.step c.new ws
    let st := r.receive w
    r.NoRaise w ∧
    ∃ v, st.result = .ok v ∧
      (∀ p, v.plaintext = some p ↔ ∃ call, st.opened = some call ∧ call.result = .ok p) ∧
      (v.reason.isSome ↔ ¬∃ call p, st.opened = some call ∧ call.result = .ok p) := by
  intro r st
  have hconfig : r.config = c := Receiver.after_config c.new ws
  have hrep : r.replay_guard.Represents _ := Receiver.represents_ofRun c ws
  have ho : r.Outcome w st := r.receive_outcome w
  clear_value r st
  subst hconfig
  obtain ⟨v, hv, -⟩ := ho.judgement_eq hdoc hW hrep
  exact ⟨Receiver.noRaise hW w, v, hv, ho.plaintext_iff hv⟩

/-- After an empty frame, that of a record gets a verdict with its payload, and with the last byte of its tag
changed one with a reason. -/
theorem receive_never_raises_on_opened :
    let r := Mealy.after Receiver.step checksumConfig.new [[]]
    (∃ v, (r.receive checksumFrame).result = .ok v ∧ v.plaintext = some [1, 2, 3]) ∧
      ∃ v, (r.receive (checksumFrame.set 58 0)).result = .ok v ∧ v.reason.isSome := by
  intro r
  have hnever := receive_never_raises checksumConfig (by decide) Backend.checksum_documented [[]]
  constructor
  · obtain ⟨-, v, hv, hplaintext, -⟩ := hnever checksumFrame
    obtain ⟨call, hcall, hresult⟩ : ∃ call, (r.receive checksumFrame).opened = some call ∧
        call.result = .ok [1, 2, 3] := Option.map_eq_some_iff.mp (by decide +kernel)
    exact ⟨v, hv, (hplaintext _).mpr ⟨call, hcall, hresult⟩⟩
  · obtain ⟨-, v, hv, -, hreason⟩ := hnever (checksumFrame.set 58 0)
    obtain ⟨call, hcall, hresult⟩ : ∃ call, (r.receive (checksumFrame.set 58 0)).opened = some call ∧
        call.result = .error (.authenticationFailure "AEAD tag verification failed") :=
      Option.map_eq_some_iff.mp (by decide +kernel)
    refine ⟨v, hv, hreason.mpr ?_⟩
    rintro ⟨call', p, hcall', hopened⟩
    obtain rfl := Option.some.inj (hcall.symm.trans hcall')
    rw [hresult] at hopened
    cases hopened

end Srp
