import Srp.Refinement

/-!
# What one delivery can do to another

Two runs of a receiver are compared, one of them handed only some of the deliveries of the other.
Rejections change nothing that a later verdict depends on, so deliveries that are rejected, and frames
that do not authenticate, can be taken out of a run (`rejected_traffic_cannot_poison`). Streams share
only the cap, so as long as it is not reached the deliveries on other streams can be taken out as well
(`streams_are_isolated`).
-/

namespace Srp

/-! ## Rejected traffic -/

/-- Whether a call returns a rejection. -/
def ReceiveStep.rejected (st : ReceiveStep) : Bool :=
  match st.result with
  | .ok v => v.status = .REJECTED
  | .error _ => false

namespace Receiver

variable {r t : Receiver} {wire : Bytes} {st : ReceiveStep}

/-- Two receivers that refuse, open, and commit the record of a frame alike answer it the same, and
stay in any relation that the same rejections and acceptances keep. -/
theorem receive_congr {R : Receiver → Receiver → Prop} (hsuite : r.suite = t.suite)
    (hrefusal : ∀ record, parseRecord wire = .ok record →
      r.refusal record.header = t.refusal record.header)
    (hcommit : ∀ record, parseRecord wire = .ok record → r.refusal record.header = none →
      (r.replay_guard.commit record.header.streamKey record.header.seq).1 =
        (t.replay_guard.commit record.header.streamKey record.header.seq).1)
    (hR : R r t) (hrejected : ∀ reason, R (r.rejected reason) (t.rejected reason))
    (hcommitted : ∀ record plaintext, parseRecord wire = .ok record →
      r.refusal record.header = none →
        R (r.committed record.header plaintext) (t.committed record.header plaintext)) :
    (r.receive wire).result = (t.receive wire).result ∧
      R (r.receive wire).receiver (t.receive wire).receiver := by
  have hreaches {record : ProtectedRecord} {nonce aad : Bytes}
      (hr : r.Reaches wire record nonce aad) : t.Reaches wire record nonce aad :=
    ⟨hr.parsed, (hrefusal _ hr.parsed).symm.trans hr.passed, hr.nonce, hr.aad⟩
  -- The outcome of the first is one of the second as well, and so what the second does.
  have ho := r.receive_outcome wire
  generalize r.receive wire = st at ho ⊢
  cases ho with
  | malformed hp =>
    rw [← (Outcome.malformed hp : t.Outcome wire _).eq_receive]
    exact ⟨rfl, hrejected _⟩
  | refused hp hr =>
    rw [← (Outcome.refused hp ((hrefusal _ hp).symm.trans hr)).eq_receive]
    exact ⟨rfl, hrejected _⟩
  | authFailed hr ho =>
    rw [hsuite] at ho
    rw [← (Outcome.authFailed (hreaches hr) ho).eq_receive]
    exact ⟨rfl, hrejected _⟩
  | openRaised hr ho he =>
    rw [hsuite] at ho
    rw [← (Outcome.openRaised (hreaches hr) ho he).eq_receive]
    exact ⟨rfl, hR⟩
  | @commitRaised record _ _ _ e hr ho hc =>
    rw [hsuite] at ho
    have hc' := hcommit record hr.parsed hr.passed
    -- A commit that raises leaves its guard as it was.
    rcases hct : t.replay_guard.commit record.header.streamKey record.header.seq with ⟨result, g⟩
    rw [hc, hct] at hc'
    obtain rfl : .error e = result := hc'
    obtain rfl := (ReplayGuard.commit_error hct).1
    rw [← (Outcome.commitRaised (hreaches hr) ho hct).eq_receive]
    exact ⟨rfl, hR⟩
  | accepted hr ho hc =>
    rw [hsuite] at ho
    rw [hcommit _ hr.parsed hr.passed] at hc
    rw [← (Outcome.accepted (hreaches hr) ho hc).eq_receive]
    exact ⟨rfl, hcommitted _ _ hr.parsed hr.passed⟩

/-- Two receivers differ in nothing but their counts of rejections. -/
structure Alike (r t : Receiver) : Prop where
  suite : r.suite = t.suite
  expected_session_id : r.expected_session_id = t.expected_session_id
  replay_guard : r.replay_guard = t.replay_guard
  accepted : r.stats.accepted = t.stats.accepted
  plaintext_bytes : r.stats.plaintext_bytes = t.stats.plaintext_bytes

/-- A rejection changes only the counts of rejections. -/
theorem Alike.rejected (h : Alike r t) (reason : RejectReason) : Alike (r.rejected reason) t :=
  ⟨h.suite, h.expected_session_id, h.replay_guard, h.accepted, h.plaintext_bytes⟩

/-- The same rejection of both changes only the counts of rejections. -/
theorem Alike.rejected_both (h : Alike r t) (reason : RejectReason) :
    Alike (r.rejected reason) (t.rejected reason) :=
  ⟨h.suite, h.expected_session_id, h.replay_guard, h.accepted, h.plaintext_bytes⟩

/-- The same acceptance by both changes the same. -/
theorem Alike.committed (h : Alike r t) (header : RecordHeader) (plaintext : Bytes) :
    Alike (r.committed header plaintext) (t.committed header plaintext) := by
  obtain ⟨h1, h2, h3, h4, h5⟩ := h
  refine ⟨h1, h2, ?_, ?_, ?_⟩
  · simp only [Receiver.committed, h3]
  · simp only [Receiver.committed, ReceiverStats.noteAcceptance, h4]
  · simp only [Receiver.committed, ReceiverStats.noteAcceptance, h5]

/-- Steps 2 to 4 do not look at the counts. -/
theorem Alike.refusal_eq (h : Alike r t) (header : RecordHeader) :
    r.refusal header = t.refusal header := by
  unfold refusal
  rw [h.suite, h.expected_session_id, h.replay_guard]

/-- Receivers that differ only in their counts of rejections answer the same, and stay so. -/
theorem Alike.receive (h : Alike r t) (wire : Bytes) :
    (r.receive wire).result = (t.receive wire).result ∧
      Alike (r.receive wire).receiver (t.receive wire).receiver :=
  receive_congr h.suite (fun _ _ => h.refusal_eq _) (fun _ _ _ => by rw [h.replay_guard]) h
    h.rejected_both (fun _ _ _ _ => h.committed _ _)

/-- A rejected delivery leaves the receiver as it was, apart from the counts of rejections. -/
theorem Outcome.alike_of_rejected (ho : r.Outcome wire st) (hst : st.rejected = true)
    (h : Alike r t) : Alike st.receiver t := by
  cases ho with
  | malformed => exact h.rejected _
  | refused => exact h.rejected _
  | authFailed => exact h.rejected _
  | openRaised => cases hst
  | commitRaised => cases hst
  | accepted => cases hst

/-- A frame that does not authenticate leaves the receiver as it was, apart from the counts of
rejections. -/
theorem Outcome.alike_of_not_authenticates (ho : r.Outcome wire st)
    (hno : ¬r.suite.Authenticates wire) (h : Alike r t) : Alike st.receiver t := by
  cases ho with
  | malformed => exact h.rejected _
  | refused => exact h.rejected _
  | authFailed => exact h.rejected _
  | openRaised => exact h
  | commitRaised hr ho => exact absurd ⟨_, _, hr.parsed, hr.openRecord_eq.trans ho⟩ hno
  | accepted hr ho => exact absurd ⟨_, _, hr.parsed, hr.openRecord_eq.trans ho⟩ hno

/-- A receiver is like itself. -/
theorem Alike.refl (r : Receiver) : Alike r r := ⟨rfl, rfl, rfl, rfl, rfl⟩

/-- The machine that is handed frames with a mark, which it does not look at. -/
def markedStep (r : Receiver) (i : Bytes × Bool) : ReceiveStep × Receiver := r.step i.1

/-- No run on marked frames changes the suite. -/
theorem after_markedStep_suite (r : Receiver) (ws : List (Bytes × Bool)) :
    (Mealy.after markedStep r ws).suite = r.suite := by
  have hmap : Mealy.after markedStep r ws = Mealy.after step r (ws.map Prod.fst) :=
    Mealy.after_map Prod.fst r ws
  rw [hmap]
  exact congrArg ReceiverConfig.suite (after_config r _)

end Receiver

/-- Rejected traffic cannot poison a receiver, whatever state it is in. Taking out of a run the
deliveries that were rejected, or any frames that do not authenticate, leaves the answers to the other
deliveries as they were, and at the end the replay state and the counts of acceptances and of their
bytes. In the second part the frames that are taken out are marked `true`. -/
theorem rejected_traffic_cannot_poison (r : Receiver) :
    (∀ ws : List Bytes,
      let rest := Mealy.keptInputs (fun _ st => !st.rejected) Receiver.step r ws
      (Mealy.keptOutputs (fun _ st => !st.rejected) Receiver.step r ws).map ReceiveStep.result =
          (Mealy.outputs Receiver.step r rest).map ReceiveStep.result ∧
        Receiver.Alike (Mealy.after Receiver.step r ws) (Mealy.after Receiver.step r rest)) ∧
    ∀ ws : List (Bytes × Bool), (∀ i ∈ ws, i.2 = true → ¬r.suite.Authenticates i.1) →
      let rest := (ws.filter fun i => !i.2).map Prod.fst
      (Mealy.keptOutputs (fun i _ => !i.2) Receiver.markedStep r ws).map ReceiveStep.result =
          (Mealy.outputs Receiver.step r rest).map ReceiveStep.result ∧
        Receiver.Alike (Mealy.after Receiver.step r (ws.map Prod.fst))
          (Mealy.after Receiver.step r rest) := by
  refine ⟨fun ws => ?_, fun ws hno => ?_⟩
  -- Kept by the answer: what is dropped was rejected.
  · refine Mealy.projection _ _ _ _ _ (P := fun _ _ => True) ?_ (fun s t w h _ _ => h.receive w)
      (Receiver.Alike.refl r) (Mealy.along_of_forall fun _ _ _ => trivial)
    intro s t w h _ hdrop
    exact (s.receive_outcome w).alike_of_rejected (Bool.not_eq_eq_eq_not.mp hdrop) h
  -- Kept by the mark: what is dropped does not authenticate under the suite, which no run changes.
  · have hP : Mealy.Along Receiver.markedStep (fun s i => i.2 = true → ¬s.suite.Authenticates i.1)
        r ws := by
      refine Mealy.along_of_prefixes fun js i ks hws => ?_
      rw [Receiver.after_markedStep_suite]
      exact hno i (by simp [hws])
    have hproj := Mealy.projection Receiver.markedStep Receiver.markedStep (fun i _ => !i.2)
      ReceiveStep.result ReceiveStep.result
      (fun s t i h hP hdrop => (s.receive_outcome i.1).alike_of_not_authenticates
        (hP (Bool.not_eq_eq_eq_not.mp hdrop)) h)
      (fun s t i h _ _ => h.receive i.1) (Receiver.Alike.refl r) hP
    rw [Mealy.keptInputs_of_input] at hproj
    have hout (vs : List (Bytes × Bool)) : Mealy.outputs Receiver.markedStep r vs =
        Mealy.outputs Receiver.step r (vs.map Prod.fst) := Mealy.outputs_map Prod.fst r vs
    have hafter (vs : List (Bytes × Bool)) : Mealy.after Receiver.markedStep r vs =
        Mealy.after Receiver.step r (vs.map Prod.fst) := Mealy.after_map Prod.fst r vs
    rwa [hout, hafter, hafter] at hproj

/-- A frame whose tag was changed leaves no trace in front of the genuine one. -/
theorem rejected_traffic_cannot_poison_of_forged :
    Receiver.Alike (Mealy.after Receiver.step checksumConfig.new [checksumFrame.set 58 0, checksumFrame])
      (Mealy.after Receiver.step checksumConfig.new [checksumFrame]) :=
  ((rejected_traffic_cannot_poison checksumConfig.new).2
    [(checksumFrame.set 58 0, true), (checksumFrame, false)] (by decide +kernel)).2

/-! ## Streams -/

/-- Whether a frame parses to a record whose header names the stream. -/
def namesStream (key : StreamKey) (wire : Bytes) : Bool :=
  match parseRecord wire with
  | .ok record => record.header.streamKey = key
  | .error _ => false

/-- A frame that parses names the stream of its header. -/
theorem namesStream_of_parse {key : StreamKey} {wire : Bytes} {record : ProtectedRecord}
    (hp : parseRecord wire = .ok record) :
    namesStream key wire = true ↔ record.header.streamKey = key := by
  simp [namesStream, hp]

namespace ReplayGuard

variable {g g' : ReplayGuard} {key : StreamKey} {seq : ℤ}

/-- Two guards with the same configuration have the same window for a stream, and room for it. -/
structure AlikeOn (g g' : ReplayGuard) (key : StreamKey) : Prop where
  window_size : g.window_size = g'.window_size
  max_streams : g.max_streams = g'.max_streams
  window : g.windowFor key = g'.windowFor key
  room : g.windowFor key = none → g.trackedStreams < g.max_streams ∧ g'.trackedStreams < g'.max_streams

/-- Guards that are alike on a stream answer the same for it. -/
theorem AlikeOn.check_eq (h : g.AlikeOn g' key) : g.check key seq = g'.check key seq := by
  have hw := h.window
  unfold windowFor at hw
  unfold check
  rw [← hw]
  cases hl : g.streams.lookup key with
  -- Only for an untracked stream does the guard count the others, and both have room.
  | none =>
    obtain ⟨hroom, hroom'⟩ := h.room hl
    simp only [not_le.mpr hroom, not_le.mpr hroom', if_false]
  | some w => rfl

/-- Guards that are alike on a stream commit the same for it, and to the same window. -/
theorem AlikeOn.commit_eq (h : g.AlikeOn g' key) :
    (g.commit key seq).1 = (g'.commit key seq).1 ∧
      (g.commit key seq).2.windowFor key = (g'.commit key seq).2.windowFor key := by
  have hw := h.window
  unfold windowFor at hw ⊢
  unfold commit
  rw [← hw]
  cases hl : g.streams.lookup key with
  | none =>
    obtain ⟨hroom, hroom'⟩ := h.room hl
    simp only [not_le.mpr hroom, not_le.mpr hroom', if_false, ← h.window_size]
    cases ReplayWindow.new g.window_size with
    | error e => exact ⟨rfl, hw⟩
    | ok w => exact ⟨rfl, by simp only [Finmap.lookup_insert]⟩
  | some w => exact ⟨rfl, by simp only [Finmap.lookup_insert]⟩

/-- A commit writes no other window. -/
theorem windowFor_commit_of_ne {key' : StreamKey} (hne : key' ≠ key) :
    (g.commit key seq).2.windowFor key' = g.windowFor key' := by
  unfold windowFor commit
  split
  · split_ifs
    · rfl
    · split
      · rfl
      · exact Finmap.lookup_insert_of_ne _ hne
  · exact Finmap.lookup_insert_of_ne _ hne

/-- A commit tracks no stream but those tracked before and its own. -/
theorem mem_streams_commit {key' : StreamKey} (h : key' ∈ (g.commit key seq).2.streams) :
    key' = key ∨ key' ∈ g.streams := by
  by_contra hno
  obtain ⟨hne, hnot⟩ := not_or.mp hno
  have hlook : (g.commit key seq).2.windowFor key' = g.windowFor key' := windowFor_commit_of_ne hne
  unfold windowFor at hlook
  rw [Finmap.lookup_eq_none.mpr hnot, Finmap.lookup_eq_none] at hlook
  exact hlook h

end ReplayGuard

namespace Receiver

variable {r t : Receiver} {key : StreamKey} {wire : Bytes}

/-- A receiver that is handed only the frames that name a stream, beside one that is handed all: they
have the same window for the stream, and the first tracks no other. -/
structure Projects (key : StreamKey) (r t : Receiver) : Prop where
  config : r.config = t.config
  window : r.replay_guard.windowFor key = t.replay_guard.windowFor key
  only : ∀ {key'}, key' ∈ t.replay_guard.streams → key' = key

/-- There is room for the stream beside those tracked. -/
def Room (key : StreamKey) (r : Receiver) : Prop :=
  ((insert key r.replay_guard.streams.keys).card : ℤ) ≤ r.replay_guard.max_streams

/-- With room for the stream, both replay states are alike on it. -/
theorem Projects.alikeOn (h : Projects key r t) (hroom : Room key r) :
    r.replay_guard.AlikeOn t.replay_guard key := by
  have hmax : r.replay_guard.max_streams = t.replay_guard.max_streams :=
    congrArg ReceiverConfig.max_streams h.config
  refine ⟨congrArg ReceiverConfig.replay_window h.config, hmax, h.window, fun hnone => ?_⟩
  -- An untracked stream has room beside those tracked, and the projection tracks none.
  have hr : key ∉ r.replay_guard.streams := Finmap.lookup_eq_none.mp hnone
  have ht : key ∉ t.replay_guard.streams := Finmap.lookup_eq_none.mp (h.window.symm.trans hnone)
  have hempty : t.replay_guard.streams.keys = ∅ := by
    refine Finset.eq_empty_of_forall_notMem fun key' hmem => ?_
    have hmem' := Finmap.mem_keys.mp hmem
    exact ht (h.only hmem' ▸ hmem')
  unfold Room at hroom
  rw [Finset.card_insert_of_notMem (mt Finmap.mem_keys.mp hr)] at hroom
  rw [← hmax, ReplayGuard.trackedStreams, ReplayGuard.trackedStreams, hempty, Finset.card_empty]
  omega

/-- With room for the stream, steps 2 to 4 treat a header that names it alike. -/
theorem Projects.refusal_eq (h : Projects key r t) (hroom : Room key r) {header : RecordHeader}
    (hkey : header.streamKey = key) : r.refusal header = t.refusal header := by
  have hsuite : r.suite = t.suite := congrArg ReceiverConfig.suite h.config
  have hpin : r.expected_session_id = t.expected_session_id :=
    congrArg ReceiverConfig.expected_session_id h.config
  unfold refusal
  rw [hsuite, hpin, hkey, (h.alikeOn hroom).check_eq]

/-- A rejection by both keeps the projection. -/
theorem Projects.rejected_both (h : Projects key r t) (reason : RejectReason) :
    Projects key (r.rejected reason) (t.rejected reason) :=
  ⟨h.config, h.window, h.only⟩

/-- An acceptance on the stream by both keeps the projection. -/
theorem Projects.committed_both (h : Projects key r t) (hroom : Room key r) {header : RecordHeader}
    (hkey : header.streamKey = key) (plaintext : Bytes) :
    Projects key (r.committed header plaintext) (t.committed header plaintext) := by
  subst hkey
  refine ⟨?_, (h.alikeOn hroom).commit_eq.2, fun {key'} hmem => ?_⟩
  · exact (config_committed r header plaintext).trans
      (h.config.trans (config_committed t header plaintext).symm)
  · exact (ReplayGuard.mem_streams_commit hmem).elim id h.only

/-- A frame that names the stream is answered the same, and keeps the projection. -/
theorem Projects.receive (h : Projects key r t) (hroom : Room key r)
    (hnames : namesStream key wire = true) :
    (r.receive wire).result = (t.receive wire).result ∧
      Projects key (r.receive wire).receiver (t.receive wire).receiver := by
  have hkey {record : ProtectedRecord} (hp : parseRecord wire = .ok record) :
      record.header.streamKey = key := (namesStream_of_parse hp).mp hnames
  refine receive_congr (congrArg ReceiverConfig.suite h.config)
    (fun _ hp => h.refusal_eq hroom (hkey hp)) (fun _ hp _ => ?_) h h.rejected_both
    (fun _ _ hp _ => h.committed_both hroom (hkey hp) _)
  rw [hkey hp]
  exact (h.alikeOn hroom).commit_eq.1

/-- A frame that does not name the stream does not touch the projection. -/
theorem Outcome.projects_of_not_names {st : ReceiveStep} (ho : r.Outcome wire st)
    (hnames : namesStream key wire = false) (h : Projects key r t) : Projects key st.receiver t := by
  cases ho with
  | malformed => exact ⟨h.config, h.window, h.only⟩
  | refused => exact ⟨h.config, h.window, h.only⟩
  | authFailed => exact ⟨h.config, h.window, h.only⟩
  | openRaised => exact h
  | commitRaised => exact h
  -- An acceptance on another stream writes the window of that one.
  | @accepted record _ _ plaintext _ hr =>
    have hne : key ≠ record.header.streamKey := by
      rintro rfl
      rw [(namesStream_of_parse hr.parsed).mpr rfl] at hnames
      cases hnames
    exact ⟨(config_committed r _ _).trans h.config,
      (ReplayGuard.windowFor_commit_of_ne hne).trans h.window, h.only⟩

end Receiver

/-- Streams are isolated from one another. While the streams accepted in a run together with a stream
do not exceed the cap, the answers to the frames that name the stream, and its window at the end, are
those of the run that delivers only the frames that name it. -/
theorem streams_are_isolated (c : ReceiverConfig) (ws : List Bytes) (key : StreamKey)
    (hcap : ((insert key
      (History.ofRun (Mealy.outputs Receiver.step c.new ws)).streams).card : ℤ) ≤ c.max_streams) :
    let own := ws.filter (namesStream key)
    (Mealy.keptOutputs (fun w _ => namesStream key w) Receiver.step c.new ws).map
        ReceiveStep.result = (Mealy.outputs Receiver.step c.new own).map ReceiveStep.result ∧
      (Mealy.after Receiver.step c.new ws).replay_guard.windowFor key =
        (Mealy.after Receiver.step c.new own).replay_guard.windowFor key := by
  -- The streams tracked on the way are among those accepted in the whole run.
  have hroom : Mealy.Along Receiver.step (fun r _ => r.Room key) c.new ws := by
    refine Mealy.along_of_prefixes fun js i ks hws => ?_
    have hkeys := (Receiver.represents_ofRun c js).keys_eq
    have hmax : (Mealy.after Receiver.step c.new js).replay_guard.max_streams = c.max_streams :=
      congrArg ReceiverConfig.max_streams (Receiver.after_config c.new js)
    have hsub : (History.ofRun (Mealy.outputs Receiver.step c.new js)).streams ⊆
        (History.ofRun (Mealy.outputs Receiver.step c.new ws)).streams := by
      rw [hws, Mealy.outputs_append]
      exact Finset.image_subset_image (History.ofRun_subset_append _ _)
    have hcard := Finset.card_le_card (Finset.insert_subset_insert key hsub)
    unfold Receiver.Room
    rw [hkeys, hmax]
    omega
  have hproj := Mealy.projection Receiver.step Receiver.step (fun w _ => namesStream key w)
    ReceiveStep.result ReceiveStep.result
    (fun s t w h _ hdrop => (s.receive_outcome w).projects_of_not_names hdrop h)
    (fun s t w h hP hkeep => h.receive hP hkeep)
    (⟨rfl, rfl, fun {_} h => absurd h Finmap.notMem_empty⟩ : c.new.Projects key c.new) hroom
  rw [Mealy.keptInputs_of_input] at hproj
  exact ⟨hproj.1, hproj.2.window⟩

/-- Between the two deliveries of a frame, one that names no stream makes no difference. -/
theorem streams_are_isolated_from_noise :
    let key : StreamKey := (List.replicate sessionIdLen 7, 1)
    (Mealy.after Receiver.step checksumConfig.new
      [checksumFrame, [], checksumFrame]).replay_guard.windowFor key =
        (Mealy.after Receiver.step checksumConfig.new
          ([checksumFrame, [], checksumFrame].filter (namesStream key))).replay_guard.windowFor key :=
  (streams_are_isolated checksumConfig [checksumFrame, [], checksumFrame] _ (by decide +kernel)).2

end Srp
