import Srp.NonceUse

/-!
# The budget of a key

How the budget of a `NonceManager` is spent. Of any number of calls of `allocate`, the first ones up to the
limit return the numbers from the start on, each with its nonce, and all others raise `NonceExhaustedError`
and change nothing (`nonce_counter_is_exact`), up to the last number of the 64-bit space. `Sender.seal`
allocates before it builds the header, so a call that raises leaves the sender as it was if it did not get
to the allocation, and otherwise has spent one number (`failed_call_spends_at_most_one`).
-/

namespace Srp

/-! ## Calls of `allocate` -/

namespace NonceManager

variable {m : NonceManager}

/-- A manager as a machine: every input is a call of `allocate`. -/
def step (m : NonceManager) (_ : Unit) : Except Error NonceAllocation × NonceManager := m.allocate

/-- The manager after so many calls. -/
def afterCalls (m : NonceManager) (k : ℕ) : NonceManager := Mealy.after step m (List.replicate k ())

@[simp]
theorem afterCalls_zero (m : NonceManager) : m.afterCalls 0 = m := rfl

/-- One more call is one of `allocate`. -/
theorem afterCalls_succ (m : NonceManager) (k : ℕ) :
    m.afterCalls (k + 1) = (m.afterCalls k).allocate.2 := by
  unfold afterCalls
  rw [List.replicate_succ', Mealy.after_append]
  rfl

/-- No call changes what the manager was built with. -/
theorem allocate_config (m : NonceManager) :
    NonceManager.nonce_prefix m.allocate.2 = m.nonce_prefix ∧ m.allocate.2.start = m.start ∧
      m.allocate.2.limit = m.limit := by
  rcases m.allocate_cases with ⟨-, ha⟩ | ⟨hlt, nonce, -, ha⟩
  · rw [ha]
    exact ⟨rfl, rfl, rfl⟩
  · rw [ha]
    exact ⟨rfl, rfl, rfl⟩

/-- A call counts a number unless the budget is spent. -/
theorem allocate_issued (m : NonceManager) : m.allocate.2.issued = min (m.issued + 1) m.limit := by
  have hle := m.issued_le
  rcases m.allocate_cases with ⟨hlimit, ha⟩ | ⟨hlt, nonce, -, ha⟩
  · rw [ha]
    show m.issued = _
    omega
  · rw [ha]
    show m.issued + 1 = _
    omega

/-- Any number of calls leave what the manager was built with, and count a number each until the budget
is spent. -/
theorem afterCalls_spec (m : NonceManager) (k : ℕ) :
    NonceManager.nonce_prefix (m.afterCalls k) = m.nonce_prefix ∧ (m.afterCalls k).start = m.start ∧
      (m.afterCalls k).limit = m.limit ∧ (m.afterCalls k).issued = min (m.issued + k) m.limit := by
  induction k with
  | zero =>
    have hle := m.issued_le
    refine ⟨rfl, rfl, rfl, ?_⟩
    rw [afterCalls_zero]
    omega
  | succ k ih =>
    obtain ⟨hpre, hstart, hlimit, hissued⟩ := ih
    obtain ⟨hpre', hstart', hlimit'⟩ := (m.afterCalls k).allocate_config
    rw [afterCalls_succ, hpre', hstart', hlimit', allocate_issued, hlimit, hissued]
    refine ⟨hpre, hstart, rfl, ?_⟩
    push_cast
    omega

/-- Within the budget, a call returns the next number, and the prefix followed by its eight bytes. -/
theorem allocate_of_lt (h : m.issued < m.limit) :
    m.allocate.1 = .ok ⟨m.next, m.nonce_prefix ++ Struct.encode 8 m.next.toNat⟩ := by
  rcases m.allocate_cases with ⟨hle, -⟩ | ⟨hlt, nonce, hn, ha⟩
  · omega
  · obtain ⟨-, -, -, rfl⟩ := deriveNonce_eq_ok.mp hn
    rw [ha]

/-- Past the budget, a call raises and changes nothing. -/
theorem allocate_of_le (h : m.limit ≤ m.issued) : m.allocate = (.error m.exhaustedError, m) := by
  rw [allocate, dif_pos h]

/-- The records still permitted are those of the budget that were not issued. -/
theorem remaining_eq (m : NonceManager) : m.remaining = m.limit - m.issued := by
  have hle := m.issued_le
  unfold remaining
  omega

/-- A budget is spent if no record is permitted any more. -/
theorem exhausted_iff (m : NonceManager) : m.exhausted = true ↔ m.remaining = 0 := by
  have hle := m.issued_le
  rw [remaining_eq]
  unfold exhausted
  rw [decide_eq_true_iff]
  omega

end NonceManager

/-- The nonce counter is exact. On a manager that the constructor returns, the call after `k` others returns
the number `start + k`, and the prefix followed by its eight bytes, if `k` is below the limit, and otherwise
raises `NonceExhaustedError` and changes nothing. The counters agree after any number of calls, and exactly
the numbers of the budget are issued. -/
theorem nonce_counter_is_exact {p : Bytes} {start record_limit : ℤ} {m : NonceManager}
    (hm : NonceManager.new p start record_limit = .ok m) (k : ℕ) :
    let mk := m.afterCalls k
    (k < record_limit → (mk.allocate.1 = .ok ⟨start + k, p ++ Struct.encode 8 (start + k).toNat⟩ ∧
      (p ++ Struct.encode 8 (start + k).toNat).length = 12)) ∧
    (record_limit ≤ k → ∃ message, mk.allocate = (.error (.nonceExhaustedError message), mk)) ∧
    mk.next = start + mk.issued ∧ mk.remaining = record_limit - mk.issued ∧
      (mk.exhausted = true ↔ mk.remaining = 0) ∧ mk.issued = min (k : ℤ) record_limit := by
  intro mk
  obtain ⟨hpre, hstart, hlimit, hissued⟩ := NonceManager.new_eq_ok hm
  obtain ⟨hpre', hstart', hlimit', hissued'⟩ := m.afterCalls_spec k
  have hcount : mk.issued = min (k : ℤ) record_limit := by
    rw [hissued', hissued, hlimit, zero_add]
  have hnext : mk.next = start + mk.issued := by
    rw [mk.next_eq, hstart', hstart]
  have hlimit_mk : mk.limit = record_limit := hlimit'.trans hlimit
  refine ⟨fun hk => ?_, fun hk => ⟨_, NonceManager.allocate_of_le (by omega)⟩, hnext, ?_,
    mk.exhausted_iff, hcount⟩
  · have hlt : mk.issued < mk.limit := by omega
    have hseq : mk.next = start + k := by omega
    have hallocate := NonceManager.allocate_of_lt hlt
    rw [hpre', hpre, hseq] at hallocate
    refine ⟨hallocate, ?_⟩
    -- The number is one of the 64-bit space, in which the limit ends.
    have hrange := (NonceManager.next_range hlt).2
    rw [hseq] at hrange
    rw [List.length_append, Struct.length_encode (toNat_lt_of_lt_seqSpace hrange), ← hpre, m.prefix_len]
    rfl
  · rw [mk.remaining_eq, hlimit_mk]

/-- The last number of the 64-bit space is issued, as the second of a budget of two. -/
theorem nonce_counter_is_exact_at_the_end :
    ∃ m, NonceManager.new [0, 0, 0, 1] (2 ^ 64 - 2) 2 = .ok m ∧
      (m.afterCalls 1).allocate.1 =
        .ok ⟨2 ^ 64 - 1, [0, 0, 0, 1] ++ Struct.encode 8 (2 ^ 64 - 1)⟩ := by
  have hm : NonceManager.new [0, 0, 0, 1] (2 ^ 64 - 2) 2 = .ok _ := rfl
  obtain ⟨hallocate, -⟩ := (nonce_counter_is_exact hm 1).1 (by decide)
  exact ⟨_, hm, hallocate⟩

/-! ## Calls that raise -/

/-- A call raises: `protect` does, or `seal`. -/
def SenderStep.Raises (st : SenderStep) : Prop :=
  match st.wire with
  | some wire => ∃ e, wire = .error e
  | none => ∃ e, st.result = .error e

namespace Sender

/-- A call is refused before it allocates: its payload does not pass the checks, or the budget is spent. -/
def RefusesEarly (s : Sender) (args : SealArgs) : Prop :=
  (∃ e, checkPayload args.payload = .error e) ∨ s.nonces.limit ≤ s.nonces.issued

/-- What is seen of a sender's counters is the same: `next_seq`, the numbers issued and remaining, and the
statistics. -/
structure SameCounters (s s' : Sender) : Prop where
  next : s'.nonces.next = s.nonces.next
  issued : s'.nonces.issued = s.nonces.issued
  remaining : s'.nonces.remaining = s.nonces.remaining
  stats : s'.stats = s.stats

/-- One number more was issued, and nothing else is seen of it. -/
structure SpentOne (s s' : Sender) : Prop where
  next : s'.nonces.next = s.nonces.next + 1
  issued : s'.nonces.issued = s.nonces.issued + 1
  remaining : s'.nonces.remaining = s.nonces.remaining - 1
  stats : s'.stats = s.stats

variable {s : Sender} {args : SealArgs} {st : SealStep}

/-- Whichever of the two calls raises, `seal` does: a record that it returns has an encoding. -/
theorem exists_error_of_raises {call : SenderCall} (h : (s.step call).1.Raises) :
    ∃ e, (s.step call).1.result = .error e := by
  cases call with
  | record args => exact h
  | frame args =>
    obtain ⟨e, he⟩ : ∃ e, (s.protect args).1 = .error e := h
    show ∃ e, (s.protect args).2.result = .error e
    rw [protect_fst] at he
    rw [protect_snd]
    cases hresult : (s.seal args).result with
    | error e' => exact ⟨e', rfl⟩
    | ok record =>
      obtain ⟨wire, hwire⟩ := (s.seal_outcome args).exists_toBytes hresult
      rw [hresult] at he
      cases hwire.symm.trans he

/-- The sender with one more number issued, and the same statistics. -/
theorem spentOne_advance (s : Sender) (hlimit : s.nonces.issued < s.nonces.limit) :
    s.SpentOne { s with nonces := s.nonces.advance hlimit } where
  next := rfl
  issued := rfl
  remaining := by
    rw [NonceManager.remaining_eq, NonceManager.remaining_eq]
    show s.nonces.limit - (s.nonces.issued + 1) = _
    omega
  stats := rfl

/-- A call that raises is refused before it allocates, and leaves the sender, or has spent one number. -/
theorem Outcome.failed_cases (ho : s.Outcome args st) {e : Error} (he : st.result = .error e) :
    (s.RefusesEarly args ∧ st.sender = s) ∨ (¬s.RefusesEarly args ∧ s.SpentOne st.sender) := by
  have hlate {payload : Bytes} (hp : checkPayload args.payload = .ok payload)
      (hlimit : s.nonces.issued < s.nonces.limit) : ¬s.RefusesEarly args := by
    rintro (⟨e, he⟩ | hle)
    · cases hp.symm.trans he
    · omega
  cases ho with
  | payloadRefused hp => exact .inl ⟨.inl ⟨_, hp⟩, rfl⟩
  | exhausted hp hlimit => exact .inl ⟨.inr hlimit, rfl⟩
  | headerRefused hp hlimit => exact .inr ⟨hlate hp hlimit, s.spentOne_advance hlimit⟩
  | sealRefused hp hlimit => exact .inr ⟨hlate hp hlimit, s.spentOne_advance hlimit⟩
  | returned => cases he

end Sender

/-- What a call that raises leaves. It never writes the statistics. One that is refused before it allocates
leaves the sender as it was, and every other has spent exactly one number. So exactly the calls that do not
get to the allocation are seen to change nothing. -/
theorem failed_call_spends_at_most_one (s : Sender) (call : SenderCall)
    (hraises : (s.step call).1.Raises) :
    let s' := (s.step call).2
    s'.stats = s.stats ∧
    (s.RefusesEarly call.args → s' = s) ∧
    (¬s.RefusesEarly call.args → s.SpentOne s') ∧
    (s.SameCounters s' ↔ s.RefusesEarly call.args) := by
  intro s'
  obtain ⟨e, he⟩ := Sender.exists_error_of_raises hraises
  have hs' : s' = (s.step call).1.sender := s.step_snd call
  rw [hs']
  rcases (s.step_outcome call).failed_cases he with ⟨hearly, hsame⟩ | ⟨hlate, hspent⟩
  · rw [hsame]
    exact ⟨rfl, fun _ => rfl, fun hno => absurd hearly hno, fun _ => hearly, fun _ => ⟨rfl, rfl, rfl, rfl⟩⟩
  · refine ⟨hspent.stats, fun hearly => absurd hearly hlate, fun _ => hspent, fun hsame => ?_,
      fun hearly => absurd hearly hlate⟩
    -- The count of issued numbers shows the difference.
    have hissued := hspent.issued.symm.trans hsame.issued
    omega

/-- A record type that is no byte raises `struct.error`, and spends the first number. -/
theorem failed_call_spends_at_most_one_of_type :
    checksumSender.SpentOne
      (checksumSender.step (.frame { payload := some [], record_type := 256 })).2 := by
  have hraises : (checksumSender.step (.frame { payload := some [], record_type := 256 })).1.Raises :=
    ⟨.structError, by decide +kernel⟩
  refine (failed_call_spends_at_most_one _ _ hraises).2.2.1 ?_
  rintro (⟨e, he⟩ | hle)
  · cases he
  · exact absurd hle (by decide)

/-- A call that raises need not leave the counters: with the record type 256, `seal` raises and the number
is gone. -/
theorem failed_call_changes_the_counters :
    (checksumSender.seal { payload := some [], record_type := 256 }).result = .error .structError ∧
      checksumSender.nonces.issued = 0 ∧
      (checksumSender.seal { payload := some [], record_type := 256 }).sender.nonces.issued = 1 ∧
      ¬checksumSender.SameCounters
        (checksumSender.seal { payload := some [], record_type := 256 }).sender := by
  have hissued :
      (checksumSender.seal { payload := some [], record_type := 256 }).sender.nonces.issued = 1 := by
    decide +kernel
  refine ⟨by decide +kernel, rfl, hissued, fun hsame => ?_⟩
  have hsame' := hissued.symm.trans hsame.issued
  cases hsame'

end Srp
