import Mathlib.Data.Int.ConditionallyCompleteOrder
import Mathlib.Data.Set.Lattice
import Mathlib.Order.CompletePartialOrder
import Srp.Mealy
import Srp.Sender
import Srp.Wire

/-!
# The nonces of a sender and of a family of senders

What one run of a sender issues: its numbers in order, from the next one on (`Sender.Issues`). From it
follow that a sender never uses a nonce twice, whatever fails on the way
(`sender_never_reuses_a_nonce`), and exactly when two senders under one key issue a common nonce
(`common_nonce_iff_of_family`).
-/

namespace Srp

/-! ## Runs of a sender -/

/-- A call of a sender: `seal` returns a record, and `protect` its frame. -/
inductive SenderCall
  | record (args : SealArgs)
  | frame (args : SealArgs)

/-- The answer to a call of a sender. -/
structure SenderStep extends SealStep where
  /-- What the call returns or raises, if it is one of `protect`. -/
  wire : Option (Except Error Bytes) := none

/-- A sender as a machine. -/
def Sender.step (s : Sender) : SenderCall → SenderStep × Sender
  | .record args => ({ s.seal args with }, (s.seal args).sender)
  | .frame args =>
    ({ (s.protect args).2 with wire := some (s.protect args).1 }, (s.protect args).2.sender)

/-- The arguments of a call. -/
def SenderCall.args : SenderCall → SealArgs
  | record args => args
  | frame args => args

/-- Both calls are calls of `seal`. -/
theorem Sender.step_fst (s : Sender) (call : SenderCall) :
    (s.step call).1.toSealStep = s.seal call.args := by
  cases call with
  | record args => rfl
  | frame args => exact s.protect_snd args

/-- Both calls leave the sender that `seal` leaves. -/
theorem Sender.step_snd (s : Sender) (call : SenderCall) :
    (s.step call).2 = (s.step call).1.sender := by
  cases call <;> rfl

/-- Both calls end in one of the ways of `seal`. -/
theorem Sender.step_outcome (s : Sender) (call : SenderCall) :
    s.Outcome call.args (s.step call).1.toSealStep :=
  s.step_fst call ▸ s.seal_outcome call.args

namespace Sender

/-- The pairs that the calls of a run allocated. -/
def allocations (steps : List SenderStep) : List NonceAllocation :=
  steps.filterMap fun st => st.allocated

/-- A run of a sender from `s` to `t` issues consecutive numbers from the next one on, each with its
nonce, and counts them. -/
structure Issues (s : Sender) (as : List NonceAllocation) (t : Sender) : Prop where
  nonce_prefix : t.nonces.nonce_prefix = s.nonces.nonce_prefix
  start : t.nonces.start = s.nonces.start
  limit : t.nonces.limit = s.nonces.limit
  count : t.nonces.issued = s.nonces.issued + as.length
  seqs : as.map NonceAllocation.seq = (List.range as.length).map fun k : ℕ => s.nonces.next + k
  derived : ∀ a ∈ as, deriveNonce s.nonces.nonce_prefix a.seq = .ok a.nonce

/-- Every run issues so. -/
theorem issues_run (s : Sender) (calls : List SenderCall) :
    s.Issues (allocations (Mealy.outputs step s calls)) (Mealy.after step s calls) := by
  refine Mealy.run_invariant (I := fun _ os t => s.Issues (allocations os) t)
    ⟨rfl, rfl, rfl, by simp [allocations], rfl, fun a ha => by cases ha⟩
    (fun _ os t call h => ?_) calls
  have ho := t.step_outcome call
  rw [step_snd]
  generalize (t.step call).1 = st at ho ⊢
  obtain ⟨-, -, -, hpre, hstart, hlimit⟩ := ho.config
  have happend : allocations (os ++ [st]) = allocations os ++ st.allocated.toList := by
    cases ha : st.allocated <;> simp [allocations, ha]
  rw [happend]
  rcases ho.nonces_cases with ⟨hnone, hsame, -⟩ | ⟨hlt, nonce, hn, hsome, hadv, -⟩
  -- The call raised before it allocated.
  · rw [hnone, Option.toList_none, List.append_nil]
    exact ⟨hpre.trans h.nonce_prefix, hstart.trans h.start, hlimit.trans h.limit,
      hsame ▸ h.count, h.seqs, h.derived⟩
  · -- The next number follows those that the run issued.
    have hnext : t.nonces.next = s.nonces.next + (allocations os).length := by
      rw [t.nonces.next_eq, s.nonces.next_eq, h.start, h.count, add_assoc]
    rw [hsome, Option.toList_some]
    refine ⟨hpre.trans h.nonce_prefix, hstart.trans h.start, hlimit.trans h.limit, ?_, ?_, ?_⟩
    · rw [hadv, NonceManager.advance_issued, h.count, List.length_append]
      push_cast
      exact add_assoc _ _ _
    · rw [List.map_append, List.length_append, List.length_singleton, List.range_succ,
        List.map_append, h.seqs, List.map_singleton, List.map_singleton, hnext]
    · intro a ha
      rcases List.mem_append.mp ha with ha | ha
      · exact h.derived a ha
      · obtain rfl := List.mem_singleton.mp ha
        exact h.nonce_prefix ▸ hn

namespace Issues

variable {s t : Sender} {as : List NonceAllocation}

/-- The numbers issued are strictly increasing. -/
theorem pairwise_seq (h : s.Issues as t) : (as.map NonceAllocation.seq).Pairwise (· < ·) := by
  rw [h.seqs, List.pairwise_map]
  exact List.pairwise_lt_range.imp fun hlt => by omega

/-- The numbers issued are those from the next one on, as many as were issued. -/
theorem mem_seq_iff (h : s.Issues as t) {q : ℤ} :
    q ∈ as.map NonceAllocation.seq ↔ s.nonces.next ≤ q ∧ q < t.nonces.next := by
  rw [h.seqs, t.nonces.next_eq, h.start, h.count, s.nonces.next_eq]
  simp only [List.mem_map, List.mem_range]
  constructor
  · rintro ⟨k, hk, rfl⟩
    omega
  · rintro ⟨hle, hlt⟩
    exact ⟨(q - (s.nonces.start + s.nonces.issued)).toNat, by omega, by omega⟩

/-- The nonces issued are those of the numbers issued. -/
theorem mem_nonce_iff (h : s.Issues as t) {nonce : Bytes} :
    nonce ∈ as.map NonceAllocation.nonce ↔
      ∃ q, s.nonces.next ≤ q ∧ q < t.nonces.next ∧ deriveNonce s.nonces.nonce_prefix q = .ok nonce := by
  constructor
  · intro hmem
    obtain ⟨a, ha, rfl⟩ := List.mem_map.mp hmem
    obtain ⟨hle, hlt⟩ := h.mem_seq_iff.mp (List.mem_map_of_mem ha)
    exact ⟨a.seq, hle, hlt, h.derived a ha⟩
  · rintro ⟨q, hle, hlt, hn⟩
    obtain ⟨a, ha, rfl⟩ := List.mem_map.mp (h.mem_seq_iff.mpr ⟨hle, hlt⟩)
    rw [h.derived a ha, Except.ok.injEq] at hn
    exact hn ▸ List.mem_map_of_mem ha

/-- No nonce is issued twice. -/
theorem nodup_nonce (h : s.Issues as t) : (as.map NonceAllocation.nonce).Nodup := by
  have hseq : (as.map NonceAllocation.seq).Nodup := h.pairwise_seq.imp fun hlt => hlt.ne
  refine List.Nodup.map_on (fun a ha b hb heq => ?_) hseq.of_map
  -- One nonce is that of one number, and one number is issued once.
  have hb' := h.derived b hb
  rw [← heq] at hb'
  obtain ⟨-, hq⟩ := deriveNonce_injective (h.derived a ha) hb'
  exact List.inj_on_of_nodup_map hseq ha hb hq

end Issues

end Sender

/-! ## One sender -/

/-- A call emits a record: `seal` returns it, or `protect` its frame. -/
def SenderStep.Emits (st : SenderStep) : Prop :=
  (∃ record, st.result = .ok record) ∨ ∃ frame, st.wire = some (.ok frame)

/-- A call returns a frame: `protect` returns it, or `seal` a record that encodes to it. -/
def SenderStep.Returns (st : SenderStep) (frame : Bytes) : Prop :=
  st.wire = some (.ok frame) ∨ ∃ record, st.result = .ok record ∧ record.toBytes = .ok frame

/-- A frame was sealed, in the call that returned it, under the nonce that its bytes 24 to 35 show,
which is the nonce of the header in its first 40 bytes. -/
def SenderStep.SealedAsShown (st : SenderStep) (frame : Bytes) : Prop :=
  ∃ header call, RecordHeader.fromBytes (slice frame 0 40) = .ok header ∧
    deriveNonce header.nonce_prefix header.seq = .ok (slice frame 24 36) ∧
    st.sealed = some call ∧ call.nonce = slice frame 24 36 ∧ call.result = .ok (frame.drop 40)

namespace Sender

variable {s : Sender} {call : SenderCall}

/-- The frame that a call returns is that of the record it returns. -/
theorem exists_record_of_returns {frame : Bytes} (h : (s.step call).1.Returns frame) :
    ∃ record, (s.step call).1.result = .ok record ∧ record.toBytes = .ok frame := by
  rcases h with h | h
  · cases call with
    | record args => cases h
    | frame args =>
      obtain ⟨record, hresult, hframe⟩ := protect_eq_ok.mp (Option.some.inj h)
      rw [← protect_snd] at hresult
      exact ⟨record, hresult, hframe⟩
  · exact h

/-- A call that emits a record returns one, whichever it is. -/
theorem exists_record_of_emits (h : (s.step call).1.Emits) :
    ∃ record, (s.step call).1.result = .ok record := by
  rcases h with h | ⟨frame, h⟩
  · exact h
  · obtain ⟨record, hresult, -⟩ := exists_record_of_returns (.inl h)
    exact ⟨record, hresult⟩

/-- The frame that a call returns was sealed under the nonce that it shows. -/
theorem sealedAsShown_of_returns {frame : Bytes} (h : (s.step call).1.Returns frame) :
    (s.step call).1.SealedAsShown frame := by
  obtain ⟨record, hrecord, hframe⟩ := exists_record_of_returns h
  obtain ⟨payload, nonce, aad, hs⟩ := (s.step_outcome call).exists_sealed hrecord
  obtain ⟨raw, hraw, rfl⟩ := ProtectedRecord.toBytes_eq_ok.mp hframe
  obtain rfl : aad = raw := Except.ok.inj (hs.aad_eq.symm.trans hraw)
  have hlen : aad.length = 40 := RecordHeader.length_toBytes hs.aad_eq
  have hshown := RecordHeader.deriveNonce_eq_slice hs.aad_eq
  have hversion : record.header.version = protocolVersion := by rw [hs.fields]; rfl
  -- The first 40 bytes of the frame are the associated data, the encoding of the header.
  have hhead : slice (aad ++ record.ciphertext_and_tag) 0 40 = aad := by
    rw [slice_append_left (by omega), slice, List.drop_zero, List.take_of_length_le (by omega)]
  refine ⟨record.header, _, ?_, ?_, hs.sealed, ?_, ?_⟩
  · rw [hhead]
    exact RecordHeader.fromBytes_eq_ok.mpr ⟨hs.aad_eq, hversion⟩
  · rw [slice_append_left (by omega)]
    exact hshown
  · rw [slice_append_left (by omega)]
    exact Except.ok.inj (hs.nonce_eq.symm.trans hshown)
  · exact congrArg Except.ok (List.drop_left' hlen).symm

/-- A call that returns a record returns a frame. -/
theorem exists_returns_of_emits (h : (s.step call).1.Emits) :
    ∃ frame, (s.step call).1.Returns frame := by
  obtain ⟨record, hrecord⟩ := exists_record_of_emits h
  obtain ⟨frame, hframe⟩ := (s.step_outcome call).exists_toBytes hrecord
  exact ⟨frame, .inr ⟨record, hrecord, hframe⟩⟩

/-- With the budget spent, no run emits a record. -/
theorem not_emits_of_limit_le (hlimit : s.nonces.limit ≤ s.nonces.issued) (calls : List SenderCall) :
    ∀ st ∈ Mealy.outputs step s calls, ¬st.Emits := by
  induction calls generalizing s with
  | nil => exact fun st hst => absurd hst List.not_mem_nil
  | cons call calls ih =>
    have ho := s.step_outcome call
    -- A call allocates only below the limit.
    rcases ho.nonces_cases with ⟨-, hsame, -, hno⟩ | ⟨hlt, -⟩
    · intro st hst
      rcases List.mem_cons.mp hst with rfl | hst
      · intro hemits
        obtain ⟨record, hrecord⟩ := exists_record_of_emits hemits
        exact hno record hrecord
      · refine ih ?_ st hst
        rw [step_snd, hsame]
        exact hlimit
    · exact absurd hlt (not_lt.mpr hlimit)

/-- Once a call raises `NonceExhaustedError`, no later one of the run emits a record. -/
theorem pairwise_exhausted (s : Sender) (calls : List SenderCall) :
    (Mealy.outputs step s calls).Pairwise fun st st' =>
      (∃ message, st.result = .error (.nonceExhaustedError message)) → ¬st'.Emits := by
  induction calls generalizing s with
  | nil => exact .nil
  | cons call calls ih =>
    refine List.pairwise_cons.mpr ⟨fun st hst => ?_, ih _⟩
    rintro ⟨message, hraised⟩
    have hlimit := (s.step_outcome call).limit_le_of_exhausted hraised
    rw [← step_snd] at hlimit
    exact not_emits_of_limit_le hlimit calls st hst

/-- What the calls of a run handed to `suite.seal` are nonces that the run issued, in order. -/
theorem handed_of_issues (s : Sender) (calls : List SenderCall) :
    ∃ as : List NonceAllocation,
      as.Sublist (allocations (Mealy.outputs step s calls)) ∧
        ((Mealy.outputs step s calls).filterMap fun st => st.sealed).map SuiteSeal.nonce =
          as.map NonceAllocation.nonce := by
  induction calls generalizing s with
  | nil => exact ⟨[], List.Sublist.refl _, rfl⟩
  | cons call calls ih =>
    obtain ⟨as, hsub, hmap⟩ := ih (s.step call).2
    have ho := s.step_outcome call
    rw [Mealy.outputs_cons, allocations, List.filterMap_cons, List.filterMap_cons]
    rcases ho.nonces_cases with ⟨hnone, -, hsealed, -⟩ | ⟨-, nonce, -, hsome, -, hcall⟩
    · rw [hnone, hsealed]
      exact ⟨as, hsub, hmap⟩
    · rw [hsome]
      cases hsealed : (s.step call).1.sealed with
      -- The number is spent, though the header was refused before `suite.seal`.
      | none => exact ⟨as, hsub.cons _, hmap⟩
      | some sealing =>
        refine ⟨⟨s.nonces.next, nonce⟩ :: as, hsub.cons_cons _, ?_⟩
        rw [List.map_cons, List.map_cons, hmap, hcall sealing hsealed]

end Sender

/-- A sender never uses a nonce twice, whatever fails. In every run of calls from a new sender, the
nonces handed to `suite.seal` are distinct, those of strictly increasing numbers of the sender's
range, and at most as many as its budget. Once `NonceExhaustedError` is raised, no later call emits a
record. Every frame returned was sealed under the nonce that it shows. -/
theorem sender_never_reuses_a_nonce {a : SenderArgs} {s : Sender} (hs : Sender.new a = .ok s)
    (calls : List SenderCall) :
    let steps := Mealy.outputs Sender.step s calls
    let handed := (steps.filterMap fun st => st.sealed).map SuiteSeal.nonce
    handed.Nodup ∧
    (∃ seqs : List ℤ,
      List.Forall₂ (fun q nonce => deriveNonce a.nonce_prefix q = .ok nonce) seqs handed ∧
        seqs.Pairwise (· < ·) ∧ ∀ q ∈ seqs, a.start_seq ≤ q ∧ q < a.start_seq + a.record_limit) ∧
    (handed.length : ℤ) ≤ a.record_limit ∧
    steps.Pairwise (fun st st' =>
      (∃ message, st.result = .error (.nonceExhaustedError message)) → ¬st'.Emits) ∧
    ∀ st ∈ steps, (st.Emits → ∃ frame, st.Returns frame) ∧
      ∀ frame, st.Returns frame → st.SealedAsShown frame := by
  intro steps handed
  obtain ⟨-, -, -, hpre, hnext, hstart, hlimit, hissued⟩ := Sender.new_eq_ok hs
  have hissues := s.issues_run calls
  obtain ⟨as, hsub, hhanded⟩ := s.handed_of_issues calls
  replace hhanded : handed = as.map NonceAllocation.nonce := hhanded
  -- The counter is never past the budget.
  have hend : (Mealy.after Sender.step s calls).nonces.next ≤ a.start_seq + a.record_limit := by
    have hle := (Mealy.after Sender.step s calls).nonces.issued_le
    rw [NonceManager.next_eq, hissues.start, hstart]
    rw [hissues.limit, hlimit] at hle
    omega
  refine ⟨?_, ⟨as.map NonceAllocation.seq, ?_, ?_, ?_⟩, ?_, s.pairwise_exhausted calls, ?_⟩
  · exact hhanded ▸ hissues.nodup_nonce.sublist (hsub.map _)
  · rw [hhanded, List.forall₂_map_left_iff, List.forall₂_map_right_iff,
      List.forall₂_same]
    exact fun a' ha' => hpre ▸ hissues.derived a' (hsub.subset ha')
  · exact hissues.pairwise_seq.sublist (hsub.map _)
  · intro q hq
    obtain ⟨hle, hlt⟩ := hissues.mem_seq_iff.mp ((hsub.map _).subset hq)
    exact ⟨hnext ▸ hle, hlt.trans_le hend⟩
  · have hlen := hsub.length_le
    rw [hhanded, List.length_map]
    have hcount := hissues.count
    have hle := (Mealy.after Sender.step s calls).nonces.issued_le
    rw [hissues.limit, hlimit] at hle
    rw [hissued] at hcount
    omega
  · intro st hst
    obtain ⟨js, call, -, rfl⟩ := Mealy.exists_of_mem_outputs hst
    exact ⟨Sender.exists_returns_of_emits, fun frame => Sender.sealedAsShown_of_returns⟩

/-- Between two frames that are sealed, a payload is refused and a header is. -/
theorem sender_never_reuses_a_nonce_of_failures :
    let steps := Mealy.outputs Sender.step checksumSender
      [.frame { payload := some [1] }, .record { payload := none },
        .frame { payload := some [2], record_type := 300 }, .record { payload := some [3] }]
    ((steps.filterMap fun st => st.sealed).map SuiteSeal.nonce).Nodup ∧
      (steps.filterMap fun st => st.sealed).length = 2 :=
  ⟨(sender_never_reuses_a_nonce checksumSender_new _).1, rfl⟩

/-! ## Families of senders -/

section Family

variable {ι : Type*} [DecidableEq ι] {a : ι → SenderArgs} {s : ι → Sender}

/-- The nonces that one sender of a family issued in a run, whatever became of its calls. -/
def issuedBy (i : ι) (steps : List (ι × SenderStep)) : List Bytes :=
  (Sender.allocations (Mealy.own i steps)).map NonceAllocation.nonce

/-- The numbers that a sender of a family has issued. -/
def issuedRange (a : SenderArgs) (t : Sender) : Set ℤ :=
  Set.Ico a.start_seq (a.start_seq + t.nonces.issued)

/-- The numbers that a sender may issue. -/
def SenderArgs.range (a : SenderArgs) : Set ℤ := Set.Ico a.start_seq (a.start_seq + a.record_limit)

/-- In every interleaving, a sender of a family issues what it issues alone. -/
theorem issues_of_family (s : ι → Sender) (calls : List (ι × SenderCall)) (i : ι) :
    (s i).Issues (Sender.allocations (Mealy.own i (Mealy.outputs (Mealy.family Sender.step) s calls)))
      (Mealy.after (Mealy.family Sender.step) s calls i) := by
  rw [Mealy.own_outputs_family, Mealy.after_family]
  exact (s i).issues_run _

/-- The nonces that a new sender of a family issued are those of its prefix and its issued
numbers. -/
theorem mem_issuedBy_iff (hs : ∀ i, Sender.new (a i) = .ok (s i)) (calls : List (ι × SenderCall))
    (i : ι) {nonce : Bytes} :
    let pre := SenderArgs.nonce_prefix (a i)
    nonce ∈ issuedBy i (Mealy.outputs (Mealy.family Sender.step) s calls) ↔
      ∃ q ∈ issuedRange (a i) (Mealy.after (Mealy.family Sender.step) s calls i),
        deriveNonce pre q = .ok nonce := by
  intro pre
  have h := issues_of_family s calls i
  obtain ⟨-, -, -, hpre, hnext, hstart, -, -⟩ := Sender.new_eq_ok (hs i)
  rw [issuedBy, h.mem_nonce_iff, hpre, hnext, NonceManager.next_eq, h.start, hstart]
  simp only [pre, issuedRange, Set.mem_Ico, and_assoc]

/-- A new sender of a family issues only numbers that it may issue. -/
theorem issuedRange_subset (hs : ∀ i, Sender.new (a i) = .ok (s i)) (calls : List (ι × SenderCall))
    (i : ι) :
    issuedRange (a i) (Mealy.after (Mealy.family Sender.step) s calls i) ⊆ (a i).range := by
  have h := issues_of_family s calls i
  obtain ⟨-, -, -, -, -, -, hlimit, -⟩ := Sender.new_eq_ok (hs i)
  refine Set.Ico_subset_Ico_right ?_
  have hle := (Mealy.after (Mealy.family Sender.step) s calls i).nonces.issued_le
  rw [h.limit, hlimit] at hle
  omega

/-- Every number that a sender may issue has a nonce under its prefix. -/
theorem exists_deriveNonce_of_mem_range {a : SenderArgs} {s : Sender} (hs : Sender.new a = .ok s)
    {q : ℤ} (hq : q ∈ a.range) : ∃ nonce, deriveNonce a.nonce_prefix q = .ok nonce := by
  obtain ⟨-, -, -, hpre, -, hstart, hlimit, -⟩ := Sender.new_eq_ok hs
  have h0 := s.nonces.start_nonneg
  have hfits := s.nonces.fits
  have hlen := s.nonces.prefix_len
  rw [hstart] at h0 hfits
  rw [hlimit] at hfits
  rw [hpre] at hlen
  exact ⟨_, deriveNonce_of_range hlen (h0.trans hq.1) (hq.2.trans_le hfits)⟩

/-- The nonces of one sender's share of the calls. -/
theorem filterMap_own (i : ι) (steps : List (ι × SenderStep)) :
    ((Mealy.own i steps).filterMap fun st => st.allocated.map NonceAllocation.nonce) =
      issuedBy i steps := by
  rw [issuedBy, Sender.allocations, List.map_filterMap]

end Family

/-- When two senders of a family under one key issue a common nonce. In every interleaving of their
calls, successful or not, two of them have issued a common nonce exactly if their prefixes are equal
and the ranges of the numbers that they have issued intersect. So if no two senders have the same
prefix, or those with the same prefix were built with disjoint ranges, all nonces that the family
issues are distinct. -/
theorem common_nonce_iff_of_family {ι : Type*} [DecidableEq ι] {a : ι → SenderArgs} {s : ι → Sender}
    (hs : ∀ i, Sender.new (a i) = .ok (s i)) (calls : List (ι × SenderCall)) :
    let steps := Mealy.outputs (Mealy.family Sender.step) s calls
    let t := Mealy.after (Mealy.family Sender.step) s calls
    (∀ i j, i ≠ j →
      ((∃ nonce, nonce ∈ issuedBy i steps ∧ nonce ∈ issuedBy j steps) ↔
        SenderArgs.nonce_prefix (a i) = SenderArgs.nonce_prefix (a j) ∧
          (issuedRange (a i) (t i) ∩ issuedRange (a j) (t j)).Nonempty)) ∧
    ((∀ i j, i ≠ j → SenderArgs.nonce_prefix (a i) ≠ SenderArgs.nonce_prefix (a j)) ∨
        (∀ i j, i ≠ j → SenderArgs.nonce_prefix (a i) = SenderArgs.nonce_prefix (a j) →
          Disjoint (a i).range (a j).range) →
      (steps.filterMap fun e => e.2.allocated.map NonceAllocation.nonce).Nodup) := by
  intro steps t
  have hcommon : ∀ i j, i ≠ j →
      ((∃ nonce, nonce ∈ issuedBy i steps ∧ nonce ∈ issuedBy j steps) ↔
        SenderArgs.nonce_prefix (a i) = SenderArgs.nonce_prefix (a j) ∧
          (issuedRange (a i) (t i) ∩ issuedRange (a j) (t j)).Nonempty) := by
    intro i j _
    constructor
    -- A nonce determines its prefix and its number.
    · rintro ⟨nonce, hi, hj⟩
      obtain ⟨q, hq, hn⟩ := (mem_issuedBy_iff hs calls i).mp hi
      obtain ⟨q', hq', hn'⟩ := (mem_issuedBy_iff hs calls j).mp hj
      obtain ⟨hpre, rfl⟩ := deriveNonce_injective hn hn'
      exact ⟨hpre, q, hq, hq'⟩
    · rintro ⟨hpre, q, hq, hq'⟩
      obtain ⟨nonce, hn⟩ := exists_deriveNonce_of_mem_range (hs i) (issuedRange_subset hs calls i hq)
      exact ⟨nonce, (mem_issuedBy_iff hs calls i).mpr ⟨q, hq, hn⟩,
        (mem_issuedBy_iff hs calls j).mpr ⟨q, hq', hpre ▸ hn⟩⟩
  -- Each sender repeats none of its own, and under either condition no two have one in common.
  refine ⟨hcommon, fun hcond => Mealy.nodup_filterMap_of_own
    (g := fun st : SenderStep => st.allocated.map NonceAllocation.nonce)
    (fun i => ?_) fun i j nonce hij => ?_⟩
  · rw [filterMap_own]
    exact (issues_of_family s calls i).nodup_nonce
  · rw [filterMap_own, filterMap_own]
    intro hi hj
    obtain ⟨hpre, q, hq, hq'⟩ := (hcommon i j hij).mp ⟨nonce, hi, hj⟩
    rcases hcond with hne | hdisj
    · exact hne i j hij hpre
    · exact Set.disjoint_left.mp (hdisj i j hij hpre) (issuedRange_subset hs calls i hq)
        (issuedRange_subset hs calls j hq')

/-- Two senders of one prefix that begin at 0 and at 4, each with a budget of four, share no nonce. -/
theorem common_nonce_iff_of_family_of_two :
    ∃ s : Bool → Sender,
      (∀ i, Sender.new { checksumArgs with start_seq := if i then 4 else 0 } = .ok (s i)) ∧
        ((Mealy.outputs (Mealy.family Sender.step) s
          [(true, .frame { payload := some [1] }), (false, .record { payload := some [2] }),
            (true, .frame { payload := some [3] })]).filterMap fun e =>
              e.2.allocated.map NonceAllocation.nonce).Nodup := by
  have hex (i : Bool) : ∃ s, Sender.new { checksumArgs with start_seq := if i then 4 else 0 } =
      .ok s := by
    cases i <;> exact ⟨_, rfl⟩
  choose s hs using hex
  refine ⟨s, hs, (common_nonce_iff_of_family hs _).2 (.inr fun i j hij _ => ?_)⟩
  rw [Set.disjoint_left]
  cases i <;> cases j <;> simp_all [SenderArgs.range, checksumArgs]

end Srp
