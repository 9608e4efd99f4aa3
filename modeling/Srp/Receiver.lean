import Srp.Suites
import Srp.Wire
import Srp.Replay

/-!
# The receiving side

`Receiver` of `srp/receiver.py`. A `Verdict` can only be built fail-closed, so it carries that fact. A
call of `receive` is modelled with what it returns or raises, the receiver that it leaves behind, and
the call of `suite.open`, where it got that far. `Receiver.receive_outcome` lists the ways a call can
end: of the raise sites on its path only two are left, an exception of the library that `suite.open`
lets through and a window that cannot be built.
-/

namespace Srp

/-! ## Verdicts -/

/-- The fields of a verdict, with the constructor's defaults. -/
structure VerdictFields where
  status : RecordStatus
  reason : Option RejectReason := none
  plaintext : Option Bytes := none
  header : Option RecordHeader := none
  detail : String := ""
  deriving DecidableEq

/-- What `Verdict.__post_init__` requires: an accepted verdict has a plaintext and no reason, and any
other has a reason and no plaintext. -/
structure VerdictFields.FailClosed (f : VerdictFields) : Prop where
  accepted : f.status = .ACCEPTED → f.plaintext.isSome ∧ f.reason = none
  rejected : f.status ≠ .ACCEPTED → f.plaintext = none ∧ f.reason.isSome

/-- Outcome of processing one protected application record. -/
structure Verdict extends VerdictFields where
  /-- The constructor admitted the fields. -/
  fail_closed : toVerdictFields.FailClosed

instance : DecidableEq Verdict := fun v v' =>
  decidable_of_iff (v.toVerdictFields = v'.toVerdictFields)
    ⟨fun e => by cases v; cases v'; cases e; rfl, fun e => e ▸ rfl⟩

/-- The constructor, with the checks of `__post_init__` in order. -/
def Verdict.new (f : VerdictFields) : Except Error Verdict :=
  if hs : f.status = .ACCEPTED then
    if h₁ : f.plaintext = none then
      .error (.configurationError "accepted verdict without plaintext")
    else if h₂ : f.reason ≠ none then
      .error (.configurationError "accepted verdict must not carry a reject reason")
    else
      .ok ⟨f, fun _ => ⟨Option.isSome_iff_ne_none.mpr h₁, not_not.mp h₂⟩, fun h => absurd hs h⟩
  else if h₁ : f.plaintext ≠ none then
    .error (.configurationError
      ("rejected verdict must not carry plaintext — " ++
        "this is the leak FR-7 and SR-6 exist to prevent"))
  else if h₂ : f.reason = none then
    .error (.configurationError "rejected verdict must state a reason")
  else
    .ok ⟨f, fun h => absurd h hs, fun _ => ⟨not_not.mp h₁, Option.isSome_iff_ne_none.mpr h₂⟩⟩

/-- Whether a verdict accepts. -/
def Verdict.accepted (v : Verdict) : Bool := v.status = .ACCEPTED

/-- The fields of a rejection. -/
def VerdictFields.rejection (reason : RejectReason) (header : Option RecordHeader)
    (detail : String) : VerdictFields :=
  { status := .REJECTED, reason := some reason, header, detail }

/-- The fields of an acceptance. -/
def VerdictFields.acceptance (plaintext : Bytes) (header : RecordHeader) : VerdictFields :=
  { status := .ACCEPTED, plaintext := some plaintext, header := some header }

/-! ## Receivers -/

/-- Counters of a receiver. The rejections are counted by the value of their reason. -/
structure ReceiverStats where
  accepted : ℕ := 0
  plaintext_bytes : ℕ := 0
  rejected : Finmap fun _ : String => ℕ := ∅
  deriving DecidableEq

/-- `note_rejection`. -/
def ReceiverStats.noteRejection (st : ReceiverStats) (reason : RejectReason) : ReceiverStats :=
  let key := reason.value
  { st with rejected := st.rejected.insert key ((st.rejected.lookup key).getD 0 + 1) }

/-- The counters after one more acceptance. -/
def ReceiverStats.noteAcceptance (st : ReceiverStats) (plaintext : Bytes) : ReceiverStats :=
  { st with accepted := st.accepted + 1, plaintext_bytes := st.plaintext_bytes + plaintext.length }

/-- The stream that a header names: the key of its replay window. -/
def RecordHeader.streamKey (h : RecordHeader) : StreamKey := (h.session_id, h.stream_id)

/-- Verifies protected records and recovers application records. -/
structure Receiver where
  suite : AeadSuite
  /-- The session that the receiver is pinned to, if any. -/
  expected_session_id : Option Bytes
  stats : ReceiverStats
  replay_guard : ReplayGuard

/-- A call of `suite.open`: what it was handed, and what it returned or raised. -/
structure SuiteOpen where
  nonce : Bytes
  ciphertext_and_tag : Bytes
  aad : Bytes
  result : Except Error Bytes

/-- A call of `receive`, from outside and on its way. -/
structure ReceiveStep where
  /-- What the call returns or raises. -/
  result : Except Error Verdict
  /-- The receiver after the call. -/
  receiver : Receiver
  /-- The call of `suite.open`, if the call got that far. -/
  opened : Option SuiteOpen := none

namespace Receiver

/-- The constructor. -/
def new (suite : AeadSuite) (expected_session_id : Option Bytes) (replay_window max_streams : ℤ) :
    Receiver :=
  { suite, expected_session_id, stats := {}, replay_guard := .new replay_window max_streams }

/-- `_reject`: count the rejection and build its verdict. -/
def reject (r : Receiver) (reason : RejectReason) (header : Option RecordHeader) (detail : String)
    (opened : Option SuiteOpen) : ReceiveStep :=
  { result := Verdict.new (.rejection reason header detail)
    receiver := { r with stats := r.stats.noteRejection reason }
    opened }

/-- Steps 2 to 4, which query the receiver without changing it: the suite, the session, and the
replay state. A record that they refuse is rejected for the reason and with the detail returned. -/
def refusal (r : Receiver) (header : RecordHeader) : Option (RejectReason × String) :=
  if header.suite_id ≠ r.suite.suite_id then
    some (.SUITE_MISMATCH, s!"receiver bound to suite 0x{hex02 r.suite.suite_id.toNat}, " ++
      s!"record declares 0x{hex02 header.suite_id.toNat}")
  -- The pin, where there is one and the record names another session.
  else match r.expected_session_id.filter (header.session_id ≠ ·) with
  | some pin =>
    some (.SESSION_MISMATCH, s!"receiver pinned to session {Bytes.hex (pin.take 4)}.., " ++
      s!"record declares {Bytes.hex (header.session_id.take 4)}..")
  | none =>
    match r.replay_guard.check header.streamKey header.seq with
    | .DUPLICATE =>
      some (.REPLAY_DETECTED, s!"seq {header.seq} already accepted on stream {header.stream_id}")
    | .TOO_OLD =>
      some (.STALE_RECORD,
        s!"seq {header.seq} is behind the replay window on stream {header.stream_id}")
    | .INVALID =>
      some (.STALE_RECORD, s!"seq {header.seq} could not be classified " ++
        "(stream capacity or range exceeded)")
    | .FRESH => none

/-- Steps 7 and 8: commit the number and return the plaintext. -/
def accept (r : Receiver) (header : RecordHeader) (plaintext : Bytes) (opened : Option SuiteOpen) :
    ReceiveStep :=
  match r.replay_guard.commit header.streamKey header.seq with
  | (.error e, replay_guard) => { result := .error e, receiver := { r with replay_guard }, opened }
  -- Whether the commit changed anything is not looked at.
  | (.ok _, replay_guard) =>
    { result := Verdict.new (.acceptance plaintext header)
      receiver := { r with replay_guard, stats := r.stats.noteAcceptance plaintext }
      opened }

/-- Steps 5 to 8: reconstruct the nonce, open the record, and accept it if it opens. -/
def authenticate (r : Receiver) (record : ProtectedRecord) : ReceiveStep :=
  match deriveNonce record.header.nonce_prefix record.header.seq with
  | .error e => { result := .error e, receiver := r }
  | .ok nonce =>
    match record.header.aad with
    | .error e => { result := .error e, receiver := r }
    | .ok aad =>
      let result := r.suite.open nonce record.ciphertext_and_tag aad
      let opened := some ⟨nonce, record.ciphertext_and_tag, aad, result⟩
      match result with
      | .error (.authenticationFailure message) =>
        r.reject .AUTH_FAILED (some record.header) message opened
      | .error e => { result := .error e, receiver := r, opened }
      | .ok plaintext => r.accept record.header plaintext opened

/-- Process one protected application record. -/
def receive (r : Receiver) (wire : Bytes) : ReceiveStep :=
  match parseRecord wire with
  | .error (.malformedRecordError message) => r.reject .MALFORMED none message none
  | .error e => { result := .error e, receiver := r }
  | .ok record =>
    match r.refusal record.header with
    | some (reason, detail) => r.reject reason (some record.header) detail none
    | none => r.authenticate record

/-- A receiver as a machine: a byte string is delivered, and the whole call comes out. -/
def step (r : Receiver) (wire : Bytes) : ReceiveStep × Receiver :=
  (r.receive wire, (r.receive wire).receiver)

end Receiver

/-! ## The ways a call can end -/

/-- The constructor lets fail-closed fields through as they are. -/
theorem Verdict.new_of_failClosed {f : VerdictFields} (hf : f.FailClosed) : new f = .ok ⟨f, hf⟩ := by
  unfold Verdict.new
  by_cases hs : f.status = .ACCEPTED
  · obtain ⟨hp, hr⟩ := hf.accepted hs
    rw [dif_pos hs, dif_neg (Option.isSome_iff_ne_none.mp hp), dif_neg (not_not.mpr hr)]
  · obtain ⟨hp, hr⟩ := hf.rejected hs
    rw [dif_neg hs, dif_neg (not_not.mpr hp), dif_neg (Option.isSome_iff_ne_none.mp hr)]

/-- The fields of a rejection are fail-closed. -/
theorem VerdictFields.failClosed_rejection (reason : RejectReason) (header : Option RecordHeader)
    (detail : String) : (rejection reason header detail).FailClosed :=
  ⟨fun h => RecordStatus.noConfusion h, fun _ => ⟨rfl, rfl⟩⟩

/-- The fields of an acceptance are fail-closed. -/
theorem VerdictFields.failClosed_acceptance (plaintext : Bytes) (header : RecordHeader) :
    (acceptance plaintext header).FailClosed :=
  ⟨fun _ => ⟨rfl, rfl⟩, fun h => absurd rfl h⟩

/-- The verdict of a rejection. -/
def Verdict.rejection (reason : RejectReason) (header : Option RecordHeader) (detail : String) :
    Verdict :=
  ⟨.rejection reason header detail, VerdictFields.failClosed_rejection reason header detail⟩

/-- The verdict of an acceptance. -/
def Verdict.acceptance (plaintext : Bytes) (header : RecordHeader) : Verdict :=
  ⟨.acceptance plaintext header, VerdictFields.failClosed_acceptance plaintext header⟩

namespace Receiver

/-- The receiver after a rejection. -/
def rejected (r : Receiver) (reason : RejectReason) : Receiver :=
  { r with stats := r.stats.noteRejection reason }

/-- The receiver after an acceptance. -/
def committed (r : Receiver) (header : RecordHeader) (plaintext : Bytes) : Receiver :=
  { r with
    replay_guard := (r.replay_guard.commit header.streamKey header.seq).2
    stats := r.stats.noteAcceptance plaintext }

/-- A rejection never fails to build its verdict. -/
theorem reject_eq (r : Receiver) (reason : RejectReason) (header : Option RecordHeader)
    (detail : String) (opened : Option SuiteOpen) :
    r.reject reason header detail opened =
      ⟨.ok (.rejection reason header detail), r.rejected reason, opened⟩ := by
  rw [reject, Verdict.new_of_failClosed (VerdictFields.failClosed_rejection reason header detail)]
  rfl

/-- A delivery that gets to `suite.open`, with the record that it parses to, and the nonce and the
associated data that the record is opened under. -/
structure Reaches (r : Receiver) (wire : Bytes) (record : ProtectedRecord) (nonce aad : Bytes) :
    Prop where
  parsed : parseRecord wire = .ok record
  passed : r.refusal record.header = none
  nonce : deriveNonce record.header.nonce_prefix record.header.seq = .ok nonce
  aad : record.header.toBytes = .ok aad

/-- The ways a call of `receive` can end: the frame is malformed, steps 2 to 4 refuse the record, the
record does not open, `suite.open` raises something else, the commit raises, or the record is
accepted. -/
inductive Outcome (r : Receiver) (wire : Bytes) : ReceiveStep → Prop
  | malformed {message : String}
    (hp : parseRecord wire = .error (.malformedRecordError message)) :
    Outcome r wire ⟨.ok (.rejection .MALFORMED none message), r.rejected .MALFORMED, none⟩
  | refused {record : ProtectedRecord} {reason : RejectReason} {detail : String}
    (hp : parseRecord wire = .ok record) (hr : r.refusal record.header = some (reason, detail)) :
    Outcome r wire ⟨.ok (.rejection reason (some record.header) detail), r.rejected reason, none⟩
  | authFailed {record : ProtectedRecord} {nonce aad : Bytes} {message : String}
    (hr : r.Reaches wire record nonce aad)
    (ho : r.suite.open nonce record.ciphertext_and_tag aad =
      .error (.authenticationFailure message)) :
    Outcome r wire
      ⟨.ok (.rejection .AUTH_FAILED (some record.header) message), r.rejected .AUTH_FAILED,
        some ⟨nonce, record.ciphertext_and_tag, aad, .error (.authenticationFailure message)⟩⟩
  | openRaised {record : ProtectedRecord} {nonce aad : Bytes} {e : Error}
    (hr : r.Reaches wire record nonce aad)
    (ho : r.suite.open nonce record.ciphertext_and_tag aad = .error e)
    (he : ∀ message, e ≠ .authenticationFailure message) :
    Outcome r wire ⟨.error e, r, some ⟨nonce, record.ciphertext_and_tag, aad, .error e⟩⟩
  | commitRaised {record : ProtectedRecord} {nonce aad plaintext : Bytes} {e : Error}
    (hr : r.Reaches wire record nonce aad)
    (ho : r.suite.open nonce record.ciphertext_and_tag aad = .ok plaintext)
    (hc : r.replay_guard.commit record.header.streamKey record.header.seq =
      (.error e, r.replay_guard)) :
    Outcome r wire
      ⟨.error e, r, some ⟨nonce, record.ciphertext_and_tag, aad, .ok plaintext⟩⟩
  | accepted {record : ProtectedRecord} {nonce aad plaintext : Bytes} {changed : Bool}
    (hr : r.Reaches wire record nonce aad)
    (ho : r.suite.open nonce record.ciphertext_and_tag aad = .ok plaintext)
    (hc : (r.replay_guard.commit record.header.streamKey record.header.seq).1 = .ok changed) :
    Outcome r wire
      ⟨.ok (.acceptance plaintext record.header), r.committed record.header plaintext,
        some ⟨nonce, record.ciphertext_and_tag, aad, .ok plaintext⟩⟩

/-- The last two steps raise where the commit does, and accept otherwise. -/
theorem accept_cases (r : Receiver) (header : RecordHeader) (plaintext : Bytes)
    (opened : Option SuiteOpen) :
    (∃ e, r.replay_guard.commit header.streamKey header.seq =
        (.error e, r.replay_guard) ∧ r.accept header plaintext opened = ⟨.error e, r, opened⟩) ∨
      ∃ changed, (r.replay_guard.commit header.streamKey header.seq).1 =
        .ok changed ∧ r.accept header plaintext opened =
          ⟨.ok (.acceptance plaintext header), r.committed header plaintext, opened⟩ := by
  unfold accept committed
  rcases hc : r.replay_guard.commit header.streamKey header.seq with
    ⟨e | changed, g⟩
  -- A commit that raises has not touched the guard.
  · obtain rfl := (ReplayGuard.commit_error hc).1
    exact .inl ⟨e, rfl, rfl⟩
  · refine .inr ⟨changed, rfl, ?_⟩
    rw [Verdict.new_of_failClosed (VerdictFields.failClosed_acceptance plaintext header)]
    rfl

/-- A delivery that gets to `suite.open` ends by what that returns. -/
theorem Reaches.receive_eq {r : Receiver} {wire nonce aad : Bytes} {record : ProtectedRecord}
    (h : r.Reaches wire record nonce aad) :
    r.receive wire =
      let result := r.suite.open nonce record.ciphertext_and_tag aad
      let opened := some ⟨nonce, record.ciphertext_and_tag, aad, result⟩
      match result with
      | .error (.authenticationFailure message) =>
        r.reject .AUTH_FAILED (some record.header) message opened
      | .error e => { result := .error e, receiver := r, opened }
      | .ok plaintext => r.accept record.header plaintext opened := by
  simp only [receive, h.parsed, h.passed, authenticate, h.nonce, RecordHeader.aad, h.aad]

/-- A record that steps 2 to 4 let through gets to `suite.open`: the nonce and the associated data of a parsed
record are slices of its frame. -/
theorem reaches_of_passed {r : Receiver} {wire : Bytes} {record : ProtectedRecord}
    (hp : parseRecord wire = .ok record) (hr : r.refusal record.header = none) :
    r.Reaches wire record (slice wire 24 36) (slice wire 0 40) := by
  obtain ⟨haad, -, hnonce, -⟩ := slices_of_parseRecord hp
  exact ⟨hp, hr, hnonce, haad⟩

/-- Over a documented backend, all that `suite.open` raises on a record that gets there is
`AuthenticationFailure`. -/
theorem Reaches.exists_message {r : Receiver} {wire nonce aad : Bytes} {record : ProtectedRecord}
    (h : r.Reaches wire record nonce aad) (hdoc : r.suite.impl.DecryptDocumented) {e : Error}
    (ho : r.suite.open nonce record.ciphertext_and_tag aad = .error e) :
    ∃ message, e = .authenticationFailure message := by
  rcases AeadSuite.open_cases hdoc (length_deriveNonce h.nonce) with ⟨p, hok⟩ | ⟨message, herr⟩
  · rw [hok] at ho
    cases ho
  · rw [herr] at ho
    exact ⟨message, (Except.error.inj ho).symm⟩

/-- Every call of `receive` ends in one of these ways. -/
theorem receive_outcome (r : Receiver) (wire : Bytes) : r.Outcome wire (r.receive wire) := by
  cases hp : parseRecord wire with
  | error e =>
    obtain ⟨message, rfl⟩ := parseRecord_error hp
    simp only [receive, hp, reject_eq]
    exact .malformed hp
  | ok record =>
    cases hr : r.refusal record.header with
    | some refusal =>
      simp only [receive, hp, hr, reject_eq]
      exact .refused hp hr
    | none =>
      have hreaches := reaches_of_passed hp hr
      rw [hreaches.receive_eq]
      cases ho : r.suite.open (slice wire 24 36) record.ciphertext_and_tag (slice wire 0 40) with
      | error e =>
        cases e with
        | authenticationFailure message =>
          simp only [reject_eq]
          exact .authFailed hreaches ho
        | _ => exact .openRaised hreaches ho fun _ => Error.noConfusion
      | ok plaintext =>
        dsimp only
        rcases r.accept_cases record.header plaintext _ with ⟨e, hc, ha⟩ | ⟨changed, hc, ha⟩
        · rw [ha]
          exact .commitRaised hreaches ho hc
        · rw [ha]
          exact .accepted hreaches ho hc

/-- The conditions of the ways exclude one another: the end of one is that of the call. -/
theorem Outcome.eq_receive {r : Receiver} {wire : Bytes} {st : ReceiveStep}
    (h : r.Outcome wire st) : st = r.receive wire := by
  cases h with
  | malformed hp => simp only [receive, hp, reject_eq]
  | refused hp hr => simp only [receive, hp, hr, reject_eq]
  | authFailed hr ho => simp only [hr.receive_eq, ho, reject_eq]
  | openRaised hr ho he => simp only [hr.receive_eq, ho]
  | commitRaised hr ho hc => simp only [hr.receive_eq, ho, accept, hc]
  | @accepted record _ _ plaintext _ hr ho hc =>
    simp only [hr.receive_eq, ho]
    rcases r.accept_cases record.header plaintext _ with ⟨e, hc', -⟩ | ⟨_, -, ha⟩
    · rw [hc'] at hc
      cases hc
    · exact ha.symm

end Receiver

end Srp
