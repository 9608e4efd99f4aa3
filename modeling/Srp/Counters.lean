import Srp.System
import Srp.Total

/-!
# The counters of a run

The statistics of the senders and of the receiver, the numbers of issued nonces, and the counts of the
windows are kept apart, by different paths. What each of them says of a run is stated in terms of what
was seen of the run (`Sender.Tally`, `Receiver.Tally`), and `counters_reconcile` is that they all say so
after every run.
-/

namespace Srp

/-! ## What is counted -/

/-- `rejected_total`. -/
def ReceiverStats.rejectedTotal (st : ReceiverStats) : ℕ := st.rejected.total id

/-- The sum of `accepted` over all windows. -/
def ReplayGuard.acceptedTotal (g : ReplayGuard) : ℕ := g.streams.total ReplayWindow.accepted

/-- The frame that a call returned: `protect` returns it, and `seal` the record that it encodes. -/
def SenderStep.frame (st : SenderStep) : Option Bytes :=
  match st.wire with
  | some wire => wire.toOption
  | none => st.result.toOption.bind fun record => record.toBytes.toOption

/-- The plaintext that a call of `receive` returned with an accepted verdict. -/
def ReceiveStep.recovered (st : ReceiveStep) : Option Bytes :=
  st.result.toOption.bind fun v => if v.accepted then v.plaintext else none

/-- The payload and the frame of a call that returned a frame. -/
def SenderCall.returned (call : SenderCall) (st : SenderStep) : Option (Bytes × Bytes) :=
  call.args.payload.bind fun payload => st.frame.map fun frame => (payload, frame)

/-- The payloads and the frames of the calls of a sender in a run that returned a frame. -/
def returnedBy {ι : Type*} [DecidableEq ι] (os : List (Observation ι)) (i : ι) : List (Bytes × Bytes) :=
  os.filterMap fun
    | .sent j call st => if j = i then call.returned st else none
    | .delivered _ _ => none

/-- What the counters of a sender say: of the frames that it returned, with their payloads. -/
structure Sender.Tally (start : ℤ) (frames : List (Bytes × Bytes)) (s : Sender) : Prop where
  records : s.stats.records_protected = frames.length
  issued : s.stats.records_protected ≤ s.nonces.issued
  plaintext : s.stats.plaintext_bytes = (frames.map fun f => f.1.length).sum
  wire : s.stats.wire_bytes = (frames.map fun f => f.2.length).sum
  overhead : s.stats.wire_bytes = s.stats.plaintext_bytes + 56 * s.stats.records_protected
  next : s.nonces.next = start + s.nonces.issued

/-- What the counters of a receiver say: of the calls of `receive`. -/
structure Receiver.Tally (steps : List ReceiveStep) (r : Receiver) : Prop where
  calls : r.stats.accepted + r.stats.rejectedTotal = steps.length
  windows : r.stats.accepted = r.replay_guard.acceptedTotal
  places : r.stats.accepted = (History.ofRun steps).card
  plaintext : r.stats.plaintext_bytes = ((steps.filterMap ReceiveStep.recovered).map List.length).sum

/-! ## A call of a sender -/

namespace Sender

variable {s : Sender} {start : ℤ} {frames : List (Bytes × Bytes)}

/-- The frame of a call is that of the record that its `seal` returned. -/
theorem frame_step (s : Sender) (call : SenderCall) :
    (s.step call).1.frame =
      (s.step call).1.result.toOption.bind fun record => record.toBytes.toOption := by
  rcases call with args | args
  · rfl
  · show (s.protect args).1.toOption = (s.protect args).2.result.toOption.bind _
    rw [protect_fst, protect_snd]
    cases (s.seal args).result <;> rfl

namespace Tally

/-- A new sender has sent nothing. -/
theorem of_new {a : SenderArgs} (hs : new a = .ok s) : s.Tally a.start_seq [] := by
  have hstats : s.stats = {} := by
    unfold new at hs
    split_ifs at hs
    split at hs
    · cases hs
    · cases hs
      rfl
  obtain ⟨-, -, -, -, hnext, -, -, hissued⟩ := new_eq_ok hs
  constructor
  all_goals simp [hstats, hnext, hissued]

/-- A number may be spent without a record. -/
theorem advance (h : s.Tally start frames) (hlimit : s.nonces.issued < s.nonces.limit) :
    Tally start frames { s with nonces := s.nonces.advance hlimit } := by
  have hissued := h.issued
  have hnext := h.next
  refine ⟨h.records, ?_, h.plaintext, h.wire, h.overhead, ?_⟩
  · show (s.stats.records_protected : ℤ) ≤ s.nonces.issued + 1
    omega
  · show s.nonces.next + 1 = start + (s.nonces.issued + 1)
    omega

/-- A record counts with its payload and its frame. -/
theorem note (h : s.Tally start frames) (hlimit : s.nonces.issued < s.nonces.limit)
    {record : ProtectedRecord} {payload wire : Bytes} (hwire : wire.length = record.len)
    (hlen : record.len = payload.length + 56) :
    Tally start (frames ++ [(payload, wire)])
      { s with nonces := s.nonces.advance hlimit, stats := s.stats.note payload record } := by
  have hissued := h.issued
  have hnext := h.next
  have hoverhead := h.overhead
  refine ⟨?_, ?_, ?_, ?_, ?_, ?_⟩
  · show s.stats.records_protected + 1 = _
    rw [h.records, List.length_append, List.length_singleton]
  · show ((s.stats.records_protected + 1 : ℕ) : ℤ) ≤ s.nonces.issued + 1
    omega
  · show s.stats.plaintext_bytes + payload.length = _
    rw [h.plaintext, List.map_append, List.sum_append, List.map_singleton, List.sum_singleton]
  · show s.stats.wire_bytes + record.len = _
    rw [h.wire, List.map_append, List.sum_append, List.map_singleton, List.sum_singleton, hwire]
  · show s.stats.wire_bytes + record.len =
      s.stats.plaintext_bytes + payload.length + 56 * (s.stats.records_protected + 1)
    omega
  · show s.nonces.next + 1 = start + (s.nonces.issued + 1)
    omega

/-- Every call is tallied. -/
theorem step (h : s.Tally start frames) (hlen : s.suite.impl.AddsTag) (call : SenderCall) :
    (s.step call).2.Tally start (frames ++ (call.returned (s.step call).1).toList) := by
  have ho := s.step_outcome call
  rw [step_snd, SenderCall.returned, frame_step]
  generalize (s.step call).1.toSealStep = st at ho ⊢
  rcases ho with - | - | ⟨-, hlimit, -, -⟩ | ⟨-, hlimit, -, -, -, -⟩ |
    @⟨payload, nonce, aad, c, header, hp, hlimit, hn, hfields, haad, hc⟩
  · simpa [Except.toOption] using h
  · simpa [Except.toOption] using h
  -- The number is spent, and no record is returned.
  · simpa [Except.toOption] using h.advance hlimit
  · simpa [Except.toOption] using h.advance hlimit
  · have hbody : c.length = payload.length + suiteTagLen := hlen (length_deriveNonce hn)
      (AeadSuite.seal_eq_ok.mp hc).2
    have haadlen : aad.length = headerLen := RecordHeader.length_toBytes haad
    have hwire : ProtectedRecord.toBytes ⟨header, c⟩ = .ok (aad ++ c) :=
      ProtectedRecord.toBytes_eq_ok.mpr ⟨aad, haad, rfl⟩
    have hrecord : ProtectedRecord.len ⟨header, c⟩ = payload.length + 56 := by
      unfold ProtectedRecord.len
      rw [hbody, headerLen_eq]
      unfold suiteTagLen
      omega
    have hsame : (aad ++ c).length = ProtectedRecord.len ⟨header, c⟩ := by
      rw [List.length_append, haadlen]
      rfl
    have hreturned := h.note hlimit hsame hrecord
    rw [(checkPayload_eq_ok.mp hp).1]
    simpa [Except.toOption, hwire] using hreturned

end Tally

end Sender

/-! ## A call of the receiver -/

/-- One more rejection is counted. -/
theorem ReceiverStats.rejectedTotal_note (st : ReceiverStats) (reason : RejectReason) :
    (st.noteRejection reason).rejectedTotal = st.rejectedTotal + 1 := by
  let count := (st.rejected.lookup reason.value).getD 0
  have hcount : st.rejected.amount id reason.value = count := by
    unfold Finmap.amount
    rw [Option.map_id, id]
  have hinsert : Finmap.total id (st.rejected.insert reason.value (count + 1)) + count =
      Finmap.total id st.rejected + (count + 1) := by
    rw [← hcount]
    exact Finmap.total_insert _ _ _
  show Finmap.total id (st.rejected.insert reason.value (count + 1)) = Finmap.total id st.rejected + 1
  omega

/-- The pairs of a history are counted stream by stream. -/
theorem History.card_eq_sum (A : History) : A.card = ∑ key ∈ A.streams, (A.numbers key).card := by
  have hfiber : ∀ key, (A.numbers key).card = (A.filter (·.1 = key)).card := by
    intro key
    refine Finset.card_image_of_injOn ?_
    rintro ⟨k, x⟩ hx ⟨k', x'⟩ hx' rfl
    have hk : k = key := (Finset.mem_filter.mp hx).2
    have hk' : k' = key := (Finset.mem_filter.mp hx').2
    rw [hk, hk']
  simp only [hfiber]
  exact Finset.card_eq_sum_card_image Prod.fst A

/-- The windows of a guard count the pairs of the history that it stands for. -/
theorem ReplayGuard.Represents.acceptedTotal_eq {g : ReplayGuard} {A : History} (h : g.Represents A) :
    g.acceptedTotal = A.card := by
  rw [A.card_eq_sum, ← h.keys_eq]
  refine Finset.sum_congr rfl fun key hkey => ?_
  obtain ⟨w, hw⟩ := Finmap.mem_iff.mp (Finmap.mem_keys.mp hkey)
  unfold Finmap.amount
  rw [hw]
  exact (h.window hw).1.accepted

namespace Receiver

variable {r : Receiver} {steps : List ReceiveStep} {st : ReceiveStep} {wire : Bytes}

/-- A new receiver was not called. -/
theorem tally_new (c : ReceiverConfig) : c.new.Tally [] := ⟨rfl, rfl, rfl, rfl⟩

/-- A rejection counts as one. -/
theorem Tally.reject (h : r.Tally steps) {reason : RejectReason}
    (hreceiver : st.receiver = r.rejected reason) (hplace : st.acceptedPlace = none)
    (hrecovered : st.recovered = none) : st.receiver.Tally (steps ++ [st]) := by
  have hcalls := h.calls
  rw [hreceiver]
  constructor
  · show r.stats.accepted + (r.stats.noteRejection reason).rejectedTotal = _
    rw [ReceiverStats.rejectedTotal_note, List.length_append, List.length_singleton]
    omega
  · exact h.windows
  · rw [History.ofRun_append_singleton, History.grow, hplace]
    exact h.places
  · rw [List.filterMap_append, List.filterMap_cons_none hrecovered, List.filterMap_nil, List.append_nil]
    exact h.plaintext

/-- An acceptance counts with its plaintext, its place being new. -/
theorem Tally.accept (h : r.Tally steps) {header : RecordHeader} {plaintext : Bytes}
    (hreceiver : st.receiver = r.committed header plaintext)
    (hrep : st.receiver.replay_guard.Represents (.ofRun (steps ++ [st])))
    (hplace : st.acceptedPlace = some header.place) (hnew : header.place ∉ History.ofRun steps)
    (hrecovered : st.recovered = some plaintext) : st.receiver.Tally (steps ++ [st]) := by
  have hcalls := h.calls
  have hplaces : st.receiver.stats.accepted = (History.ofRun (steps ++ [st])).card := by
    rw [History.ofRun_append_singleton, History.grow, hplace, hreceiver]
    show r.stats.accepted + 1 = (insert header.place (History.ofRun steps)).card
    rw [Finset.card_insert_of_notMem hnew, h.places]
  constructor
  · rw [hreceiver]
    show r.stats.accepted + 1 + r.stats.rejectedTotal = _
    rw [List.length_append, List.length_singleton]
    omega
  · rw [hplaces, hrep.acceptedTotal_eq]
  · exact hplaces
  · rw [hreceiver, List.filterMap_append, List.filterMap_cons_some hrecovered, List.filterMap_nil,
      List.map_append, List.sum_append, List.map_singleton, List.sum_singleton, ← h.plaintext]
    rfl

/-- Over a documented backend and with a window size from zero, every call is tallied. -/
theorem Outcome.tally (ho : r.Outcome wire st) (h : r.Tally steps)
    (hrep : r.replay_guard.Represents (.ofRun steps)) (hdoc : r.suite.impl.DecryptDocumented)
    (hW : 0 ≤ r.replay_guard.window_size) : st.receiver.Tally (steps ++ [st]) := by
  obtain ⟨v, hv, -⟩ := ho.judgement_eq hdoc hW hrep
  obtain ⟨hrep', hnew⟩ := ho.represents hrep
  rw [← History.ofRun_append_singleton] at hrep'
  rcases ho with - | - | - | - | - | -
  · exact h.reject rfl rfl rfl
  · exact h.reject rfl rfl rfl
  · exact h.reject rfl rfl rfl
  -- No call raises, so each is counted.
  · cases hv
  · cases hv
  · exact h.accept rfl hrep' rfl (hnew _ rfl) rfl

end Receiver

/-! ## Runs -/

section Run

variable {ι : Type*} [DecidableEq ι] {c : ReceiverConfig} {a : ι → SenderArgs}

/-- What holds of the senders and the receiver of a run. -/
structure System.Tallied (c : ReceiverConfig) (a : ι → SenderArgs) (os : List (Observation ι))
    (s : System ι) : Prop where
  sender : ∀ i, (s.senders i).suite = (a i).suite ∧ (s.senders i).Tally (a i).start_seq (returnedBy os i)
  receiver : s.receiver.Tally (deliveries os)
  config : s.receiver.config = c
  represents : s.receiver.replay_guard.Represents (.ofRun (deliveries os))

/-- The frames that a sender returned, after one more event. -/
theorem returnedBy_append (os : List (Observation ι)) (o : Observation ι) (i : ι) :
    returnedBy (os ++ [o]) i = returnedBy os i ++ returnedBy [o] i := List.filterMap_append

/-- Every event is tallied. -/
theorem System.Tallied.step {s : System ι} {os : List (Observation ι)} (h : s.Tallied c a os)
    (hW : 0 ≤ c.replay_window) (hdoc : c.suite.impl.DecryptDocumented)
    (hlen : ∀ i, (a i).suite.impl.AddsTag) (ev : Event ι) :
    (s.step ev).2.Tallied c a (os ++ [(s.step ev).1]) := by
  rcases ev with ⟨j, call⟩ | wire
  · have hsame : deliveries (os ++ [(s.step (.send j call)).1]) = deliveries os := by
      simp [deliveries, System.step]
    refine ⟨fun i => ?_, ?_, h.config, ?_⟩
    · obtain ⟨hsuite, htally⟩ := h.sender i
      rw [returnedBy_append]
      rcases eq_or_ne j i with rfl | hne
      · have hstep : ((s.step (.send j call)).2.senders j) = ((s.senders j).step call).2 :=
          Function.update_self ..
        have hone : returnedBy [(s.step (.send j call)).1] j =
            (call.returned ((s.senders j).step call).1).toList := by
          unfold returnedBy System.step
          cases hreturned : call.returned ((s.senders j).step call).1 <;> simp [hreturned]
        rw [hstep, hone]
        refine ⟨?_, htally.step (hsuite ▸ hlen j) call⟩
        rw [Sender.step_snd]
        exact ((s.senders j).step_outcome call).config.1.trans hsuite
      · have hstep : ((s.step (.send j call)).2.senders i) = s.senders i :=
          Function.update_of_ne hne.symm ..
        have hnone : returnedBy [(s.step (.send j call)).1] i = [] := by
          simp [returnedBy, System.step, hne]
        rw [hstep, hnone, List.append_nil]
        exact ⟨hsuite, htally⟩
    · rw [hsame]
      exact h.receiver
    · rw [hsame]
      exact h.represents
  · have hmore : deliveries (os ++ [(s.step (.deliver wire)).1]) =
        deliveries os ++ [s.receiver.receive wire] := by
      simp [deliveries, System.step]
    have ho := s.receiver.receive_outcome wire
    have hkeeps : (s.receiver.receive wire).receiver.config = s.receiver.config := ho.config_eq
    have hconfig := h.config
    refine ⟨fun i => ?_, ?_, hkeeps.trans hconfig, ?_⟩
    · have hnone : returnedBy [(s.step (.deliver wire)).1] i = [] := by
        simp [returnedBy, System.step]
      rw [returnedBy_append, hnone, List.append_nil]
      exact h.sender i
    · rw [hmore]
      subst hconfig
      exact ho.tally h.receiver h.represents hdoc hW
    · rw [hmore, History.ofRun_append_singleton]
      exact (ho.represents h.represents).1

end Run

/-- The counters reconcile with the run. After every run of senders and a receiver, whatever seals fail
and whatever is delivered, the counters of each sender say what frames it returned, and those of the
receiver and of its windows say what became of the calls of `receive`. -/
theorem counters_reconcile {ι : Type*} [DecidableEq ι] (c : ReceiverConfig) {a : ι → SenderArgs}
    {senders : ι → Sender} (hs : ∀ i, Sender.new (a i) = .ok (senders i)) (hW : 0 ≤ c.replay_window)
    (hdoc : c.suite.impl.DecryptDocumented) (hlen : ∀ i, (a i).suite.impl.AddsTag)
    (es : List (Event ι)) :
    let os := c.run senders es
    let s := Mealy.after System.step ⟨senders, c.new⟩ es
    (∀ i, (s.senders i).Tally (a i).start_seq (returnedBy os i)) ∧ s.receiver.Tally (deliveries os) := by
  intro os s
  have hnew : System.Tallied c a [] ⟨senders, c.new⟩ :=
    ⟨fun i => ⟨(Sender.new_eq_ok (hs i)).1, .of_new (hs i)⟩, Receiver.tally_new c, rfl,
      ReplayGuard.tracks_new _ _⟩
  have hrun : s.Tallied c a os := Mealy.run_invariant (I := fun _ os (t : System ι) => t.Tallied c a os)
    hnew (fun _ _ _ ev h => h.step hW hdoc hlen ev) es
  exact ⟨fun i => (hrun.sender i).2, hrun.receiver⟩

/-- A frame is returned, and delivered twice. -/
theorem counters_reconcile_of_replay :
    (Mealy.after System.step ⟨fun _ => checksumSender, checksumConfig.new⟩
      checksumEvents).receiver.Tally (deliveries checksumRun) :=
  (counters_reconcile checksumConfig (fun _ => checksumSender_new) (by decide) Backend.checksum_documented
    (fun _ => Backend.checksum_seals.length) checksumEvents).2

end Srp
