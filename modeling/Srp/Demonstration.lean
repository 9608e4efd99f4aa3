import Srp.Answers

/-!
# The run of the network demonstration

`run` of `demo/run_network_demo.py`: a plan of five attacks, the numbers that it expects of the receiver's
counters, and its verdict over both. `demonstration_passes_iff` says for which numbers of records the run
passes, whatever the interleaving of the threads and the random choices of the actor. Key, session id, and
nonce prefix are arguments, and what is printed is not modelled.
-/

namespace Srp

open Framing Pipeline

/-! ## The run -/

/-- `f"application record {i:04d}".encode()`. -/
def applicationRecord (i : ℕ) : Bytes :=
  ("application record ".toList ++ (Nat.toDigits 10 i).leftpad 4 '0').map fun ch => UInt8.ofNat ch.toNat

/-- The payloads of `sender_entity`. -/
def demoPayloads (records : ℤ) : List Bytes := (List.range records.toNat).map applicationRecord

/-- The plan of the actor. -/
def demoPlan : List (ℕ × ActorAction) :=
  [(2, .flipCiphertext), (4, .flipTag), (6, .tamperAad), (8, .drop), (9, .replay)]

/-- The receiver of the run, pinned to the session. -/
def demoReceiver (suite : AeadSuite) (session_id : Bytes) : ReceiverConfig :=
  { suite, expected_session_id := some session_id, replay_window := 64, max_streams := 1024 }

/-- `expected_accepted`. -/
def expectedAccepted (records : ℤ) : ℤ :=
  records - (({2, 4, 6, 8} : Finset ℕ) ∩ Finset.range records.toNat).card

/-- `expected_rejections`, without the reasons that are not expected at all. -/
def expectedRejections (records : ℤ) : Finmap fun _ : String => ℕ :=
  let expected : List (String × ℕ) :=
    [("AUTH_FAILED", (({2, 4, 6} : Finset ℕ) ∩ Finset.range records.toNat).card),
      ("REPLAY_DETECTED", if records > 9 then 1 else 0)]
  (expected.filter (·.2 ≠ 0)).foldl (fun m e => m.insert e.1 e.2) ∅

/-- `ok`: the counters are the expected ones, and every verdict has a plaintext or rejects. -/
def demoOk (records : ℤ) (r : ReceiverEntity) : Bool :=
  r.receiver.stats.accepted = expectedAccepted records &&
    r.receiver.stats.rejected = expectedRejections records &&
      r.log.all fun v => v.plaintext.isSome || !v.accepted

/-! ## The payloads -/

/-- A number below the budget of a sender has at most eight digits. -/
theorem length_applicationRecord {i : ℕ} (h : i < 2 ^ 24) :
    19 < (applicationRecord i).length ∧ (applicationRecord i).length ≤ 27 := by
  have hdigits : (Nat.toDigits 10 i).length ≤ 8 := Nat.toDigits_length 10 i 8 (by decide) (by omega)
  have htext : "application record ".toList.length = 19 := by decide
  unfold applicationRecord
  rw [List.length_map, List.length_append, List.length_leftpad, htext]
  omega

/-- The payloads are within the limit of the sender, and none is empty. -/
theorem forall_mem_demoPayloads {records : ℤ} (h : records ≤ 2 ^ 24) :
    ∀ payload ∈ demoPayloads records, payload ≠ [] ∧ payload.length ≤ maxPayloadLen := by
  intro payload hmem
  obtain ⟨i, hi, rfl⟩ := List.mem_map.mp hmem
  have hlt := List.mem_range.mp hi
  obtain ⟨hlong, hshort⟩ := length_applicationRecord (i := i) (by omega)
  refine ⟨List.ne_nil_of_length_pos (by omega), hshort.trans ?_⟩
  unfold maxPayloadLen
  omega

/-! ## The counters -/

/-- Of the answers, the two counters that are compared look at the reasons alone. -/
theorem counters_congr {js js' : List Judgement} (st st' : ReceiverStats)
    (hreasons : js.map Judgement.reason = js'.map Judgement.reason) (hacc : st.accepted = st'.accepted)
    (hrej : st.rejected = st'.rejected) :
    (js.foldl .note st).accepted = (js'.foldl .note st').accepted ∧
      (js.foldl .note st).rejected = (js'.foldl .note st').rejected := by
  induction js generalizing js' st st' with
  | nil =>
    rw [List.map_nil, List.nil_eq, List.map_eq_nil_iff] at hreasons
    rw [hreasons]
    exact ⟨hacc, hrej⟩
  | cons j js ih =>
    cases js' with
    | nil => cases hreasons
    | cons j' js' =>
      obtain ⟨hreason, hrest⟩ := List.cons.inj hreasons
      apply ih _ _ hrest
      · unfold ReceiverStats.note
        rw [hreason]
        split
        · exact hacc
        · exact congrArg (· + 1) hacc
      · unfold ReceiverStats.note
        rw [hreason]
        split
        · unfold ReceiverStats.noteRejection
          rw [hrej]
        · exact hrej

/-- The reasons do not depend on the payloads. -/
theorem map_reason_answers (payloads payloads' : List Bytes) (replay_window : ℤ) (last : ℕ)
    (log : List (ℕ × ActorAction)) :
    (answers payloads replay_window last log).map Judgement.reason =
      (answers payloads' replay_window last log).map Judgement.reason := by
  induction log generalizing last with
  | nil => rfl
  | cons e log ih =>
    obtain ⟨i, action⟩ := e
    rw [answers, answers, List.map_cons, List.map_cons, ih]
    cases action <;> rfl

/-- The counters after the answers to the plan of the run. -/
def demoStats (n : ℕ) : ReceiverStats := (answers [] 64 0 (planLog demoPlan n)).foldl .note {}

/-- Up to the last attack, the counters are the expected ones. -/
theorem demoStats_of_le : ∀ n ≤ 10, ((demoStats n).accepted : ℤ) = expectedAccepted n ∧
    (demoStats n).rejected = expectedRejections n := by
  decide +kernel

/-- Behind the last attack, records are forwarded. -/
theorem plannedAt_demoPlan {n : ℕ} (h : 10 ≤ n) : plannedAt demoPlan n = .forward := by
  unfold plannedAt demoPlan
  have hne {i : ℕ} (hi : i < 10) : (n == i) = false := beq_false_of_ne (by omega)
  simp only [List.lookup_cons, List.lookup_nil, hne, Nat.reduceLT, Option.getD_none]

/-- The records that a run must have to reach all attacks. -/
theorem inter_range_of_le {attacked : Finset ℕ} (ha : attacked ⊆ Finset.range 10) {n : ℕ} (h : 10 ≤ n) :
    attacked ∩ Finset.range n = attacked :=
  Finset.inter_eq_left.mpr (ha.trans (Finset.range_subset_range.mpr h))

/-- Behind the last attack, one more record is one more to be accepted. -/
theorem expected_succ {n : ℕ} (h : 10 ≤ n) :
    expectedAccepted (n + 1 : ℕ) = expectedAccepted n + 1 ∧
      expectedRejections (n + 1 : ℕ) = expectedRejections n := by
  constructor
  · unfold expectedAccepted
    rw [Int.toNat_natCast, Int.toNat_natCast, inter_range_of_le (by decide) h,
      inter_range_of_le (by decide) (by omega)]
    push_cast
    ring
  · unfold expectedRejections
    rw [Int.toNat_natCast, Int.toNat_natCast, inter_range_of_le (by decide) h,
      inter_range_of_le (by decide) (by omega), if_pos (by omega), if_pos (by omega)]

/-- For every number of records, the counters are the expected ones. -/
theorem demoStats_eq (n : ℕ) : ((demoStats n).accepted : ℤ) = expectedAccepted n ∧
    (demoStats n).rejected = expectedRejections n := by
  rcases le_total n 10 with h | h
  · exact demoStats_of_le n h
  induction n, h using Nat.le_induction with
  | base => exact demoStats_of_le 10 (le_refl 10)
  | succ n h ih =>
    have hlog : planLog demoPlan (n + 1) = planLog demoPlan n ++ [(n, .forward)] := by
      rw [planLog, plannedAt_demoPlan h]
      rfl
    have hstats : demoStats (n + 1) = (demoStats n).note (.accepted []) := by
      unfold demoStats
      rw [hlog, answers_concat, List.foldl_append]
      rfl
    obtain ⟨hacc, hrej⟩ := expected_succ h
    rw [hacc, hrej, hstats, ← ih.1, ← ih.2]
    exact ⟨Nat.cast_succ _, rfl⟩

/-- A verdict has a plaintext or rejects. -/
theorem Verdict.isSome_or_rejected (v : Verdict) : (v.plaintext.isSome || !v.accepted) = true := by
  unfold Verdict.accepted
  by_cases h : v.status = .ACCEPTED
  · rw [(v.fail_closed.accepted h).1]
    rfl
  · rw [decide_eq_false h, Bool.not_false, Bool.or_true]

/-! ## The result -/

open Network

/-- The receiver of the run receives what its sender sends. -/
theorem receives_demoReceiver {suite : AeadSuite} {session_id nonce_prefix : Bytes} {s : Sender}
    (hs : Sender.new { suite, session_id, nonce_prefix } = .ok s) :
    Receives (demoReceiver suite session_id) s := by
  obtain ⟨hsuite, hsession, -⟩ := Sender.new_eq_ok hs
  refine ⟨hsuite.symm, fun pin hpin => ?_, Int.natCast_nonneg 64, Int.natCast_succ_pos 1023⟩
  rw [hsession, ← Option.some.inj hpin]

/-- With the counters of the answers to the plan, a run passes exactly if its number of records is not
negative. -/
theorem demoOk_iff {records : ℤ} {st : ReceiverEntity}
    (hacc : st.receiver.stats.accepted = (demoStats records.toNat).accepted)
    (hrej : st.receiver.stats.rejected = (demoStats records.toNat).rejected) :
    demoOk records st = true ↔ 0 ≤ records := by
  obtain ⟨haccepted, hrejected⟩ := demoStats_eq records.toNat
  have hall : st.log.all fun v => v.plaintext.isSome || !v.accepted :=
    List.all_eq_true.mpr fun v _ => v.isSome_or_rejected
  rw [demoOk, hall, Bool.and_true, Bool.and_eq_true, decide_eq_true_iff, decide_eq_true_iff, hacc, hrej,
    haccepted, hrejected]
  constructor
  · rintro ⟨hexpected, -⟩
    by_contra hneg
    have hzero : records.toNat = 0 := Int.toNat_of_nonpos (by omega)
    rw [hzero, expectedAccepted, expectedAccepted, hzero] at hexpected
    simp at hexpected
    omega
  · intro hpos
    rw [Int.toNat_of_nonneg hpos]
    exact ⟨rfl, rfl⟩

/-- The demonstration passes. Over a correct library, let the sender and the receiver of `run` share a key
and a session, let the number of records be within the default budget, and let what opens of the relayed
frames be frames of the sender. Then whatever the random choices of the actor, the connections, and the
schedule of the threads, once nothing can move every thread has returned, and the run passes exactly if the
number of records is not negative. -/
theorem demonstration_passes_iff {suite : AeadSuite} {session_id nonce_prefix : Bytes} {s : Sender}
    (hs : Sender.new { suite, session_id, nonce_prefix } = .ok s) (hcorrect : suite.impl.Correct)
    {records : ℤ} (hrecords : records ≤ 2 ^ 24) {rng : Rng}
    (hauth : ∀ wire ∈ relayedFrames { plan := demoPlan, rng } (senderFrames s (demoPayloads records)),
      suite.Authenticates wire → wire ∈ senderFrames s (demoPayloads records))
    {toActor toReceiver : ℕ+} {as : List NetworkAction} {net : Network}
    (h : Schedule.run step (start toActor toReceiver s { plan := demoPlan, rng }
      { receiver := (demoReceiver suite session_id).new } (demoPayloads records)) as = some net)
    (hstuck : Schedule.Stuck step net) :
    (net.sender.status = .returned ∧ net.actor.thread.status = .returned ∧
      net.receiver.thread.status = .returned) ∧
      (demoOk records net.receiver.thread.state = true ↔ 0 ≤ records) := by
  obtain ⟨hsuite, -, hstream, -, -, -, hlimit, hissued⟩ := Sender.new_eq_ok hs
  have hcorrect' : s.suite.impl.Correct := by rwa [hsuite]
  have hstream' : 0 ≤ s.stream_id ∧ s.stream_id ≤ 0xFFFFFFFF := by
    rw [show s.stream_id = 1 from hstream]
    decide
  have hlength : (demoPayloads records).length = records.toNat := by
    rw [demoPayloads, List.length_map, List.length_range]
  have hremaining : s.nonces.remaining = 2 ^ 24 := by
    rw [NonceManager.remaining, hlimit, hissued]
    rfl
  have hpayloads := forall_mem_demoPayloads hrecords
  obtain ⟨hsender, hactor, -, t, hclose, ht⟩ :=
    sequentially_follows_plan (receives_demoReceiver hs) hcorrect' hstream' hpayloads hauth
  have hreturned := Thread.status_close_of_running ht.running
  have houtcome := outcome_eq_of_run h hstuck (Status.not_raises_of_returned hactor)
    (Status.not_raises_of_returned (hclose ▸ hreturned))
  rw [← houtcome] at hsender hactor hclose
  rw [hlength, hremaining] at hsender ht
  have hwithin : (records.toNat : ℤ) ≤ 2 ^ 24 := by omega
  rw [if_pos hwithin] at hsender
  rw [min_eq_left hwithin, Int.toNat_natCast] at ht
  have hreceiver : net.receiver.thread = t.close := hclose
  rw [hreceiver, Thread.state_close]
  refine ⟨⟨hsender, hactor, hreturned⟩, ?_⟩
  -- The counters are those of a run with this many records, where there are any.
  obtain ⟨hacc, hrej⟩ := counters_congr {} {}
    (map_reason_answers (demoPayloads records) [] 64 0 (planLog demoPlan records.toNat)) rfl rfl
  have hstats := congrArg ReceiverStats.accepted ht.stats
  have hstats' := congrArg ReceiverStats.rejected ht.stats
  exact demoOk_iff (hstats.trans hacc) (hstats'.trans hrej)

/-- It passes on three records over the checksum backend. -/
theorem demonstration_passes_iff_of_three : ∃ net : Network,
    net.sender.status = .returned ∧ demoOk 3 net.receiver.thread.state = true := by
  have hs : Sender.new
      { suite := checksumArgs.suite, session_id := checksumArgs.session_id, nonce_prefix := [0, 0, 0, 1] } =
      .ok
        { checksumSender with
          nonces :=
            { nonce_prefix := [0, 0, 0, 1], start := 0, next := 0, limit := 2 ^ 24, issued := 0
              prefix_len := rfl, start_nonneg := by decide, fits := by decide, next_eq := by decide
              issued_nonneg := by decide, issued_le := by decide } } := rfl
  obtain ⟨net, ⟨as, h⟩, hstuck⟩ := Schedule.exists_stuck below_wf
    (fun _ _ _ hstep => (step_moves hstep).below) (start 64 64 _ { plan := demoPlan, rng := ⟨fun _ => 0⟩ }
      { receiver := (demoReceiver checksumArgs.suite checksumArgs.session_id).new } (demoPayloads 3))
  obtain ⟨hended, hok⟩ := demonstration_passes_iff hs Backend.checksum_correct (by decide)
    (by decide +kernel) h hstuck
  exact ⟨net, hended.1, hok.mpr (by decide)⟩

end Srp
