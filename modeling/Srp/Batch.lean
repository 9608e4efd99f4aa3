import Srp.Arrivals
import Srp.Budget
import Srp.Answers

/-!
# Batches

`protect_many` and `receive_all`, with a network between them that may reorder, repeat, and lose the frames of
a batch. A batch is protected as far as its payloads are in order and the budget lasts, and what is spent on
it is spent even if it raises (`protect_many_spends_its_prefix`). The receiver answers the frames of a batch
by the order in which they arrive alone, so that which payloads get through is told by that order
(`batch_arrives_in_any_order`).
-/

namespace Srp

open Arrivals

/-! ## The calls -/

/-- `protect_many`: protect a sequence of application records. -/
def Sender.protectMany (s : Sender) (payloads : List (Option Bytes)) :
    Except Error (List Bytes) × Sender :=
  Mealy.collect (fun s payload => ((s.protect { payload }).1, (s.protect { payload }).2.sender)) s payloads

/-- `receive_all`: process a sequence of records, returning a verdict for each. -/
def Receiver.receiveAll (r : Receiver) (wires : List Bytes) : Except Error (List Verdict) × Receiver :=
  Mealy.collect (fun r wire => ((r.receive wire).result, (r.receive wire).receiver)) r wires

/-! ## Protecting a batch -/

namespace Sender

variable {s : Sender} {p : Option Bytes} {payload : Bytes}

/-- A payload on which `protect` raises ends the batch. -/
theorem protectMany_of_raised {e : Error} {t : Sender} (hwire : (s.protect { payload := p }).1 = .error e)
    (hsender : (s.protect { payload := p }).2.sender = t) (payloads : List (Option Bytes)) :
    s.protectMany (p :: payloads) = (.error e, t) :=
  Mealy.collect_cons_error (Prod.ext hwire hsender) payloads

/-- A payload that is protected puts its frame in front of the others. -/
theorem protectMany_of_protected {wire : Bytes} {t : Sender} (hwire : (s.protect { payload := p }).1 = .ok wire)
    (hsender : (s.protect { payload := p }).2.sender = t) (payloads : List (Option Bytes)) :
    s.protectMany (p :: payloads) =
      ((t.protectMany payloads).1.map (wire :: ·), (t.protectMany payloads).2) :=
  Mealy.collect_cons_ok (Prod.ext hwire hsender) payloads

/-- How many payloads of a batch pass the checks of `seal`, before the first that does not, and are within the
budget. -/
def permitted (s : Sender) (payloads : List (Option Bytes)) : ℕ :=
  min (payloads.takeWhile fun p => (checkPayload p).isOk).length s.nonces.remaining.toNat

/-- What `protect` raises on the first payload that is not permitted. -/
def refusedWith (s : Sender) (p : Option Bytes) : Error :=
  match checkPayload p with
  | .error e => e
  | .ok _ => s.nonces.exhaustedError

/-- A payload that does not pass the checks is refused, and the sender stays. -/
theorem protect_of_unchecked {e : Error} (hp : checkPayload p = .error e) :
    (s.protect { payload := p }).1 = .error e ∧ (s.protect { payload := p }).2.sender = s := by
  have hseal : s.seal { payload := p } = { result := .error e, sender := s } := by
    unfold Sender.seal
    dsimp only
    rw [hp]
  rw [protect_fst, protect_snd, hseal]
  exact ⟨rfl, rfl⟩

/-- With the budget spent, so is any other payload. -/
theorem protect_of_spent (hp : checkPayload p = .ok payload) (hlimit : s.nonces.limit ≤ s.nonces.issued) :
    (s.protect { payload := p }).1 = .error s.nonces.exhaustedError ∧
      (s.protect { payload := p }).2.sender = s := by
  rcases s.nonces.allocate_cases with ⟨-, ha⟩ | ⟨hlt, -⟩
  · have hseal : s.seal { payload := p } =
        { result := .error s.nonces.exhaustedError, sender := s } := by
      unfold Sender.seal
      dsimp only
      rw [hp]
      dsimp only
      rw [ha]
    rw [protect_fst, protect_snd, hseal]
    exact ⟨rfl, rfl⟩
  · omega

/-- Within the budget, a sender of a 32-bit stream over a correct library protects it. -/
theorem protect_of_permitted (hcorrect : s.suite.impl.Correct)
    (hstream : 0 ≤ s.stream_id ∧ s.stream_id ≤ 0xFFFFFFFF) (hp : checkPayload p = .ok payload)
    (hlimit : s.nonces.issued < s.nonces.limit) :
    ∃ wire record, (s.protect { payload := p }).1 = .ok wire ∧
      FrameOf s.suite (s.session_id, s.stream_id) s.nonces.next payload wire record ∧
        (s.protect { payload := p }).2.sender =
          { s with nonces := s.nonces.advance hlimit, stats := s.stats.note payload record } := by
  obtain ⟨hpayload, hlen⟩ := checkPayload_eq_ok.mp hp
  have hargs : SealArgs.InOrder { payload := p } payload := ⟨hpayload, hlen, ⟨.DATA, rfl⟩, .inl rfl⟩
  rcases protect_of_inOrder hcorrect hstream hargs with ⟨wire, hwire⟩ | ⟨hle, -⟩
  · obtain ⟨record, hresult, hbytes⟩ := protect_eq_ok.mp hwire
    obtain ⟨payload', hpayload', hframe, -⟩ := frameOf_of_seal hcorrect.seals rfl hresult hbytes
    obtain rfl : payload' = payload := Option.some.inj (hpayload'.symm.trans hpayload)
    refine ⟨wire, record, hwire, hframe, ?_⟩
    rw [protect_snd]
    have ho := s.seal_outcome { payload := p }
    generalize s.seal { payload := p } = st at ho hresult
    cases ho with
    | returned hp' =>
      obtain rfl := Except.ok.inj (hp'.symm.trans hp)
      cases hresult
      rfl
    | _ => cases hresult
  · omega

/-- With one permitted payload in front, one more is permitted. -/
theorem permitted_cons (hp : checkPayload p = .ok payload) (hlimit : s.nonces.issued < s.nonces.limit)
    (stats : SenderStats) (payloads : List (Option Bytes)) :
    s.permitted (p :: payloads) = permitted { s with nonces := s.nonces.advance hlimit, stats } payloads + 1 := by
  have hremaining : (s.nonces.advance hlimit).remaining = s.nonces.remaining - 1 := by
    rw [NonceManager.remaining_eq, NonceManager.remaining_eq]
    show s.nonces.limit - (s.nonces.issued + 1) = _
    omega
  have hpos : 0 < s.nonces.remaining := by
    rw [NonceManager.remaining_eq]
    omega
  unfold permitted
  rw [List.takeWhile_cons_of_pos (by rw [hp]; rfl), List.length_cons]
  dsimp only
  rw [hremaining]
  omega

/-- A payload that is not permitted ends the batch, and the sender stays. -/
theorem protectMany_of_refused {payloads : List (Option Bytes)} (hzero : s.permitted (p :: payloads) = 0) :
    s.protectMany (p :: payloads) = (.error (s.refusedWith p), s) := by
  unfold refusedWith
  cases hp : checkPayload p with
  | error e =>
    obtain ⟨hwire, hsender⟩ := protect_of_unchecked hp
    exact protectMany_of_raised hwire hsender payloads
  | ok payload =>
    have hlimit : s.nonces.limit ≤ s.nonces.issued := by
      by_contra hlt
      rw [permitted_cons hp (not_le.mp hlt) s.stats payloads] at hzero
      omega
    obtain ⟨hwire, hsender⟩ := protect_of_spent hp hlimit
    exact protectMany_of_raised hwire hsender payloads

/-- The first payload of a batch is permitted only within the budget, and if it passes the checks. -/
theorem exists_of_permitted {payloads : List (Option Bytes)} (hpos : s.permitted (p :: payloads) ≠ 0) :
    ∃ payload, checkPayload p = .ok payload ∧ s.nonces.issued < s.nonces.limit := by
  unfold permitted at hpos
  cases hp : checkPayload p with
  | error e =>
    rw [List.takeWhile_cons_of_neg (by rw [hp]; nofun), List.length_nil] at hpos
    omega
  | ok payload =>
    rw [NonceManager.remaining_eq] at hpos
    exact ⟨payload, rfl, by omega⟩

/-- A sender, and itself after some more records: they are counted, and each has spent a number. -/
structure SpentOn (s : Sender) (n : ℕ) (t : Sender) : Prop where
  suite : t.suite = s.suite
  key : (t.session_id, t.stream_id) = (s.session_id, s.stream_id)
  refusedWith : t.refusedWith = s.refusedWith
  next : t.nonces.next = s.nonces.next + n
  remaining : t.nonces.remaining = s.nonces.remaining - n
  records : t.stats.records_protected = s.stats.records_protected + n

/-- No record spends nothing. -/
theorem spentOn_zero (s : Sender) : s.SpentOn 0 s :=
  ⟨rfl, rfl, rfl, (add_zero _).symm, (sub_zero _).symm, rfl⟩

/-- What some records spend, and then some more. -/
theorem SpentOn.trans {m n : ℕ} {t u : Sender} (h : s.SpentOn m t) (h' : t.SpentOn n u) :
    s.SpentOn (m + n) u where
  suite := h'.suite.trans h.suite
  key := h'.key.trans h.key
  refusedWith := h'.refusedWith.trans h.refusedWith
  next := by
    rw [h'.next, h.next, Nat.cast_add]
    ring
  remaining := by
    rw [h'.remaining, h.remaining, Nat.cast_add]
    ring
  records := by
    rw [h'.records, h.records, Nat.add_assoc]

/-- A record that is protected spends one number. -/
theorem spentOn_one (hlimit : s.nonces.issued < s.nonces.limit) (payload : Bytes) (record : ProtectedRecord) :
    s.SpentOn 1 { s with nonces := s.nonces.advance hlimit, stats := s.stats.note payload record } :=
  ⟨rfl, rfl, rfl, rfl, (s.spentOne_advance hlimit).remaining, rfl⟩

/-- What the first payload of a batch comes to: nothing is permitted and it is refused, or its frame stands in
front of what the others come to. -/
theorem protectMany_cases (hcorrect : s.suite.impl.Correct)
    (hstream : 0 ≤ s.stream_id ∧ s.stream_id ≤ 0xFFFFFFFF) (p : Option Bytes)
    (payloads : List (Option Bytes)) :
    (s.permitted (p :: payloads) = 0 ∧ s.protectMany (p :: payloads) = (.error (s.refusedWith p), s)) ∨
      ∃ payload wire record t, p = some payload ∧
        FrameOf s.suite (s.session_id, s.stream_id) s.nonces.next payload wire record ∧ s.SpentOn 1 t ∧
        s.permitted (p :: payloads) = t.permitted payloads + 1 ∧
        s.protectMany (p :: payloads) =
          ((t.protectMany payloads).1.map (wire :: ·), (t.protectMany payloads).2) := by
  by_cases hzero : s.permitted (p :: payloads) = 0
  · exact .inl ⟨hzero, protectMany_of_refused hzero⟩
  · obtain ⟨payload, hp, hlimit⟩ := exists_of_permitted hzero
    obtain ⟨wire, record, hwire, hframe, hsender⟩ := protect_of_permitted hcorrect hstream hp hlimit
    have hpermitted := permitted_cons hp hlimit (s.stats.note payload record) payloads
    have hresult := protectMany_of_protected hwire hsender payloads
    exact .inr ⟨payload, wire, record, _, (checkPayload_eq_ok.mp hp).1, hframe,
      spentOn_one hlimit payload record, hpermitted, hresult⟩

/-- What was permitted is spent, whether the batch raises or not. -/
theorem protectMany_spentOn (hcorrect : s.suite.impl.Correct)
    (hstream : 0 ≤ s.stream_id ∧ s.stream_id ≤ 0xFFFFFFFF) (payloads : List (Option Bytes)) :
    s.SpentOn (s.permitted payloads) (s.protectMany payloads).2 := by
  induction payloads generalizing s with
  | nil => exact s.spentOn_zero
  | cons p payloads ih =>
    rcases protectMany_cases hcorrect hstream p payloads with
      ⟨hzero, hresult⟩ | ⟨payload, wire, record, t, -, -, hspent, hpermitted, hresult⟩
    · rw [hzero, hresult]
      exact s.spentOn_zero
    · have hstream' : 0 ≤ t.stream_id ∧ t.stream_id ≤ 0xFFFFFFFF := by
        rwa [(Prod.mk.inj hspent.key).2]
      have hrest := ih (s := t) (hspent.suite ▸ hcorrect) hstream'
      rw [hpermitted, hresult, Nat.add_comm]
      exact hspent.trans hrest

end Sender

/-- One more frame, in front of the stream. -/
theorem FramesOf.cons {suite : AeadSuite} {key : StreamKey} {start : ℤ} {payload wire : Bytes}
    {record : ProtectedRecord} {payloads frames : List Bytes}
    (hframe : FrameOf suite key start payload wire record)
    (h : FramesOf suite key (start + 1) payloads frames) :
    FramesOf suite key start (payload :: payloads) (wire :: frames) := by
  intro i w hw
  cases i with
  | zero =>
    obtain rfl := Option.some.inj hw
    exact ⟨payload, record, rfl, by rwa [Nat.cast_zero, add_zero]⟩
  | succ i =>
    obtain ⟨payload', record', hpayload, hframe'⟩ := h i w hw
    refine ⟨payload', record', hpayload, ?_⟩
    rwa [show start + ((i + 1 : ℕ) : ℤ) = start + 1 + i by push_cast; ring]

/-- What becomes of a batch. Over a correct library, let a sender of a 32-bit stream protect any payloads. Then
exactly the permitted ones are counted and spend a number each, whether the batch raises or not. It
returns if that is all of them, with the frames of the payloads in order, and else it raises what the first
payload that is not permitted is refused with: the error of the payload's own check, even if the budget is
spent, or that of the spent budget. -/
theorem protect_many_spends_its_prefix {s : Sender} (hcorrect : s.suite.impl.Correct)
    (hstream : 0 ≤ s.stream_id ∧ s.stream_id ≤ 0xFFFFFFFF) (payloads : List (Option Bytes)) :
    let n := s.permitted payloads
    let s' := (s.protectMany payloads).2
    (s'.nonces.next = s.nonces.next + n ∧ s'.nonces.remaining = s.nonces.remaining - n ∧
      s'.stats.records_protected = s.stats.records_protected + n) ∧
      match payloads[n]? with
      | some p => (s.protectMany payloads).1 = .error (s.refusedWith p)
      | none => ∃ ps wires, payloads = ps.map some ∧ (s.protectMany payloads).1 = .ok wires ∧
          wires.length = ps.length ∧
            FramesOf s.suite (s.session_id, s.stream_id) s.nonces.next ps wires := by
  have hspent := Sender.protectMany_spentOn hcorrect hstream payloads
  refine ⟨⟨hspent.next, hspent.remaining, hspent.records⟩, ?_⟩
  clear hspent
  induction payloads generalizing s with
  | nil => exact ⟨[], [], rfl, rfl, rfl, nofun⟩
  | cons p payloads ih =>
    rcases Sender.protectMany_cases hcorrect hstream p payloads with
      ⟨hzero, hresult⟩ | ⟨payload, wire, record, t, rfl, hframe, hspent, hpermitted, hresult⟩
    · rw [hzero, hresult]
      rfl
    · have hstream' : 0 ≤ t.stream_id ∧ t.stream_id ≤ 0xFFFFFFFF := by
        rwa [(Prod.mk.inj hspent.key).2]
      have hrest := ih (s := t) (hspent.suite ▸ hcorrect) hstream'
      rw [hspent.refusedWith, hspent.suite, hspent.key, hspent.next, Nat.cast_one] at hrest
      rw [hpermitted, List.getElem?_cons_succ, hresult]
      cases hq : payloads[t.permitted payloads]? with
      | some q =>
        rw [hq] at hrest
        dsimp only at hrest ⊢
        rw [hrest]
        rfl
      | none =>
        rw [hq] at hrest
        obtain ⟨ps, wires, hps, hwires, hlen, hframes⟩ := hrest
        refine ⟨payload :: ps, wire :: wires, ?_, ?_, ?_, hframes.cons hframe⟩
        · rw [hps, List.map_cons]
        · rw [hwires]
          rfl
        · rw [List.length_cons, List.length_cons, hlen]

/-- A batch of three whose second payload is no bytes-like object. -/
theorem protect_many_spends_its_prefix_of_none :
    (checksumSender.protectMany [some [1], none, some [2]]).1 =
        .error (.configurationError "payload must be a bytes-like object") ∧
      (checksumSender.protectMany [some [1], none, some [2]]).2.nonces.next = 1 := by
  obtain ⟨⟨hnext, -, -⟩, hresult⟩ := protect_many_spends_its_prefix (s := checksumSender)
    Backend.checksum_correct (by decide) [some [1], none, some [2]]
  have hone : checksumSender.permitted [some [1], none, some [2]] = 1 := by decide
  rw [hone] at hnext hresult
  exact ⟨hresult, hnext⟩

/-! ## Receiving a batch -/

/-- The judgement on the frame of a payload, by what becomes of it. -/
def arrivalJudgement (payload : Bytes) : Arrival → Judgement
  | .fresh => .accepted payload
  | .duplicate => .rejected .REPLAY_DETECTED
  | .late => .rejected .STALE_RECORD

/-- The history holds what it should of a batch of which the frames of some numbers have arrived. -/
structure Holds (A : History) (key : StreamKey) (start W max : ℤ) (seen : List ℕ) : Prop where
  /-- Before the first frame, there is room for the stream. -/
  room : seen = [] → A.numbers key = ∅ ∧ A.streams.card < max
  /-- The largest number that has arrived is held. -/
  greatest : ∀ m, seen.max? = some m → IsGreatest (A.numbers key : Set ℤ) (start + m)
  /-- What has arrived and is less than a window behind is held. -/
  within : ∀ m, seen.max? = some m → ∀ i ∈ seen, (m : ℤ) - i < W → (key, start + (i : ℤ)) ∈ A
  /-- What is held has arrived. -/
  arrived : ∀ i : ℕ, (key, start + (i : ℤ)) ∈ A → i ∈ seen

namespace Holds

variable {A : History} {key : StreamKey} {start W max : ℤ} {seen : List ℕ} {i : ℕ}

/-- Before the first frame, nothing is held of the stream. -/
theorem nil (hnone : A.numbers key = ∅) (hroom : A.streams.card < max) : Holds A key start W max [] where
  room := fun _ => ⟨hnone, hroom⟩
  greatest := nofun
  within := nofun
  arrived := by
    intro i hi
    rw [← History.mem_numbers, hnone] at hi
    exact absurd hi (Finset.notMem_empty _)

/-- What becomes of a frame is told by the history. -/
theorem meet_spec (h : Holds A key start W max seen) (hW : 0 ≤ W) (i : ℕ) :
    match meet W seen i with
    | .fresh => ¬A.Replayed W key (start + i) ∧ ¬A.Stale W max key (start + i)
    | .duplicate => A.Replayed W key (start + i)
    | .late => ¬A.Replayed W key (start + i) ∧ A.Stale W max key (start + i) := by
  unfold meet
  cases hmax : seen.max? with
  | none =>
    obtain ⟨hnone, hroom⟩ := h.room (List.max?_eq_none_iff.mp hmax)
    exact ⟨History.not_replayed hnone, fun hs =>
      absurd ((History.stale_iff_of_empty hnone).mp hs) (not_le.mpr hroom)⟩
  | some m =>
    have hgreatest := h.greatest m hmax
    obtain ⟨-, hle⟩ := max?_eq_some.mp hmax
    dsimp only
    rw [History.replayed_iff hgreatest, History.stale_iff hgreatest]
    split_ifs with hlate hseen
    · exact ⟨fun hr => by omega, by omega, by omega⟩
    · exact ⟨by omega, h.within m hmax i hseen (by omega)⟩
    · exact ⟨fun hr => hseen (h.arrived i hr.2), fun hs => by omega⟩

/-- What is held of the stream is not ahead of what has arrived. -/
theorem le_of_mem (h : Holds A key start W max seen) {seq : ℤ} {m : ℕ} (hseq : seq ∈ A.numbers key)
    (hm : ∀ j ∈ seen, j ≤ m) : seq ≤ start + m := by
  cases hmax : seen.max? with
  | none =>
    rw [(h.room (List.max?_eq_none_iff.mp hmax)).1] at hseq
    exact absurd hseq (Finset.notMem_empty _)
  | some m' =>
    have hle := (h.greatest m' hmax).2 hseq
    have hmm := hm m' (max?_eq_some.mp hmax).1
    omega

/-- A frame that gets through is held. -/
theorem fresh (h : Holds A key start W max seen) (i : ℕ) :
    Holds (insert (key, start + (i : ℤ)) A) key start W max (seen ++ [i]) := by
  refine ⟨fun hnil => absurd hnil (by simp), fun m hmax => ?_, fun m hmax j hj hlt => ?_, fun j hj => ?_⟩
  · obtain ⟨hm, hle⟩ := max?_eq_some.mp hmax
    have hseen : ∀ j ∈ seen, j ≤ m := fun j hj => hle j (List.mem_append_left _ hj)
    rw [History.numbers_insert]
    refine ⟨?_, fun seq hseq => ?_⟩
    · rcases List.mem_append.mp hm with hm | hm
      · exact Finset.mem_insert_of_mem (h.greatest m (max?_eq_some.mpr ⟨hm, hseen⟩)).1
      · rw [List.mem_singleton.mp hm]
        exact Finset.mem_insert_self _ _
    · rcases Finset.mem_insert.mp hseq with rfl | hseq
      · have him := hle i (List.mem_append_right _ (List.mem_singleton_self i))
        omega
      · exact h.le_of_mem hseq hseen
  · rcases List.mem_append.mp hj with hj | hj
    -- The largest number can only have grown.
    · obtain ⟨m', hmax'⟩ : ∃ m', seen.max? = some m' := by
        cases hmax' : seen.max? with
        | none =>
          rw [List.max?_eq_none_iff.mp hmax'] at hj
          exact absurd hj List.not_mem_nil
        | some m' => exact ⟨m', rfl⟩
      have hmm := (max?_eq_some.mp hmax).2 m' (List.mem_append_left _ (max?_eq_some.mp hmax').1)
      exact Finset.mem_insert_of_mem (h.within m' hmax' j hj (by omega))
    · rw [List.mem_singleton.mp hj]
      exact Finset.mem_insert_self _ _
  · rcases Finset.mem_insert.mp hj with heq | hj
    · have hij : start + (j : ℤ) = start + i := congrArg Prod.snd heq
      exact List.mem_append_right _ (List.mem_singleton.mpr (by omega))
    · exact List.mem_append_left _ (h.arrived j hj)

/-- Any other frame leaves the history. -/
theorem other (h : Holds A key start W max seen) (hW : 0 ≤ W) (hne : meet W seen i ≠ .fresh) :
    Holds A key start W max (seen ++ [i]) := by
  obtain ⟨m, hmax, hle, hin⟩ := exists_of_meet_ne_fresh hW hne
  have hsame {m' : ℕ} (hmax' : (seen ++ [i]).max? = some m') : m' = m :=
    Option.some.inj (hmax'.symm.trans (max?_concat_of_le hmax hle))
  refine ⟨fun hnil => absurd hnil (by simp), fun m' hmax' => ?_, fun m' hmax' j hj hlt => ?_, fun j hj => ?_⟩
  · rw [hsame hmax']
    exact h.greatest m hmax
  · rw [hsame hmax'] at hlt
    rcases List.mem_append.mp hj with hj | hj
    · exact h.within m hmax j hj hlt
    · rw [List.mem_singleton.mp hj] at hlt ⊢
      exact h.within m hmax i (hin hlt) hlt
  · exact List.mem_append_left _ (h.arrived j hj)

end Holds

/-- A frame of a batch is judged by what becomes of it, and the history goes on to hold what it should. -/
theorem ReceiverConfig.judge_of_arrival {c : ReceiverConfig} {A : History} {key : StreamKey} {start : ℤ}
    {seen : List ℕ} {i : ℕ} {payload wire : Bytes} {record : ProtectedRecord} (hW : 0 ≤ c.replay_window)
    (hpin : ∀ pin ∈ c.expected_session_id, key.1 = pin)
    (hframe : FrameOf c.suite key (start + i) payload wire record)
    (h : Holds A key start c.replay_window c.max_streams seen) :
    c.judge A wire = arrivalJudgement payload (meet c.replay_window seen i) ∧
      Holds (c.step A wire).2 key start c.replay_window c.max_streams (seen ++ [i]) := by
  have hplace : record.header.place = (key, start + (i : ℤ)) := Prod.ext hframe.streamKey hframe.seq
  obtain ⟨hreplayed, hstale, hpassed⟩ := refusal_of_named (A := A) hframe.suite_id hpin hplace
  have hspec := h.meet_spec hW i
  cases hmeet : meet c.replay_window seen i with
  | fresh =>
    rw [hmeet] at hspec
    have hj := judge_of_opens hframe.parsed (hpassed hspec.1 hspec.2) hframe.opens
    rw [step_of_accepted hframe.parsed hj, hplace]
    exact ⟨hj, h.fresh i⟩
  | duplicate =>
    rw [hmeet] at hspec
    have hj := judge_of_refused hframe.parsed (hreplayed hspec)
    rw [step_of_rejected hj]
    exact ⟨hj, h.other hW (by rw [hmeet]; nofun)⟩
  | late =>
    rw [hmeet] at hspec
    have hj := judge_of_refused hframe.parsed (hstale hspec.1 hspec.2)
    rw [step_of_rejected hj]
    exact ⟨hj, h.other hW (by rw [hmeet]; nofun)⟩

/-- The frames that `protect_many` returns are those of the payloads. -/
theorem framesOf_of_protectMany {s : Sender} {payloads wires : List Bytes} (hseals : s.suite.impl.Seals)
    (hsent : (s.protectMany (payloads.map some)).1 = .ok wires) :
    FramesOf s.suite (s.session_id, s.stream_id) s.nonces.next payloads wires := by
  induction payloads generalizing s wires with
  | nil =>
    cases hsent
    exact fun _ _ hw => nomatch hw
  | cons payload payloads ih =>
    have ho := s.seal_outcome { payload := some payload }
    cases hwire : (s.protect { payload := some payload }).1 with
    | error e =>
      rw [List.map_cons, Sender.protectMany_of_raised hwire rfl] at hsent
      cases hsent
    | ok wire =>
      obtain ⟨record, hresult, hbytes⟩ := Sender.protect_eq_ok.mp hwire
      obtain ⟨_, hpayload, hframe, hnext⟩ := frameOf_of_seal hseals rfl hresult hbytes
      obtain rfl := Option.some.inj hpayload
      obtain ⟨hsuite, hsession, hstream, -⟩ := ho.config
      rw [List.map_cons, Sender.protectMany_of_protected hwire (congrArg _ (s.protect_snd _))] at hsent
      dsimp only at hsent
      generalize (s.seal { payload := some payload }).sender = t at hsuite hsession hstream hnext hsent
      cases hrest : (t.protectMany (payloads.map some)).1 with
      | error e =>
        rw [hrest] at hsent
        cases hsent
      | ok wires' =>
        rw [hrest] at hsent
        cases hsent
        have hframes := ih (hsuite ▸ hseals) hrest
        rw [hsuite, hsession, hstream, hnext] at hframes
        exact hframes.cons hframe

/-- A call of `receive` that returns puts its verdict in front of the others. -/
theorem Receiver.receiveAll_of_returned {r t : Receiver} {wire : Bytes} {v : Verdict}
    (hv : (r.receive wire).result = .ok v) (ht : (r.receive wire).receiver = t) (wires : List Bytes) :
    r.receiveAll (wire :: wires) = ((t.receiveAll wires).1.map (v :: ·), (t.receiveAll wires).2) :=
  Mealy.collect_cons_ok (Prod.ext hv ht) wires

/-- Frames of a batch are answered by what becomes of them, from any history that holds what it should. -/
theorem Receiver.receiveAll_of_holds {c : ReceiverConfig} {r : Receiver} {A : History} {key : StreamKey}
    {start : ℤ} {payloads wires : List Bytes} {seen is : List ℕ} (hdoc : c.suite.impl.DecryptDocumented)
    (hW : 0 ≤ c.replay_window) (hpin : ∀ pin ∈ c.expected_session_id, key.1 = pin)
    (hframes : FramesOf c.suite key start payloads wires) (his : ∀ i ∈ is, i < wires.length)
    (hconfig : r.config = c) (hrep : r.replay_guard.Represents A)
    (h : Holds A key start c.replay_window c.max_streams seen) :
    ∃ vs, (r.receiveAll (is.map fun i => wires.getD i [])).1 = .ok vs ∧
      vs.map Verdict.judgement =
        List.zipWith (fun i => arrivalJudgement (payloads.getD i [])) is (meetAll c.replay_window seen is) := by
  induction is generalizing r A seen with
  | nil => exact ⟨[], rfl, rfl⟩
  | cons i is ih =>
    have hi := his i List.mem_cons_self
    obtain ⟨payload, record, hpayload, hframe⟩ := hframes i wires[i] (List.getElem?_eq_getElem hi)
    obtain ⟨hj, hholds⟩ := ReceiverConfig.judge_of_arrival hW hpin hframe h
    have ho := r.receive_outcome wires[i]
    have hdoc' : r.suite.impl.DecryptDocumented := by rwa [← hconfig] at hdoc
    have hW' : 0 ≤ r.replay_guard.window_size := by rwa [← hconfig] at hW
    obtain ⟨v, hv, hjudgement⟩ := ho.judgement_eq hdoc' hW' hrep
    have hgrow := ho.grow_eq hdoc' hW' hrep
    have hafter := (ho.represents hrep).1
    rw [hgrow, hconfig] at hafter
    obtain ⟨vs, hvs, hjudgements⟩ := ih (fun j hj => his j (List.mem_cons_of_mem _ hj))
      (ho.config_eq.trans hconfig) hafter hholds
    have hwire : wires.getD i [] = wires[i] := List.getD_eq_getElem _ _ hi
    have hgetD : payloads.getD i [] = payload := by
      rw [List.getD_eq_getElem?_getD, hpayload]
      rfl
    refine ⟨v :: vs, ?_, ?_⟩
    · rw [List.map_cons, hwire, receiveAll_of_returned hv rfl, hvs]
      rfl
    · rw [List.map_cons, meetAll, List.zipWith_cons_cons, hjudgements, hjudgement, hconfig, hj, hgetD]

/-- A verdict accepts exactly if the frame gets through. -/
theorem accepted_iff_fresh {payloads : List Bytes} {vs : List Verdict} {is : List ℕ} {as : List Arrival}
    (h : vs.map Verdict.judgement =
      List.zipWith (fun i => arrivalJudgement (payloads.getD i [])) is as) {k : ℕ} {v : Verdict}
    (hv : vs[k]? = some v) : v.status = .ACCEPTED ↔ as[k]? = some .fresh := by
  have hk : (vs.map Verdict.judgement)[k]? = some v.judgement := by
    rw [List.getElem?_map, hv]
    rfl
  rw [h, List.getElem?_zipWith] at hk
  rcases hi : is[k]? with - | i
  · rw [hi] at hk
    cases hk
  rcases ha : as[k]? with - | a
  · rw [hi, ha] at hk
    cases hk
  rw [hi, ha] at hk
  have hstatus : v.status = (arrivalJudgement (payloads.getD i []) a).status :=
    congrArg Judgement.status (Option.some.inj hk).symm
  rw [hstatus]
  cases a with
  | fresh => exact iff_of_true rfl rfl
  | duplicate => exact iff_of_false nofun nofun
  | late => exact iff_of_false nofun nofun

/-- All verdicts accept exactly if all frames get through. -/
theorem forall_accepted_iff {payloads : List Bytes} {vs : List Verdict} {is : List ℕ} {as : List Arrival}
    (h : vs.map Verdict.judgement =
      List.zipWith (fun i => arrivalJudgement (payloads.getD i [])) is as) (hlen : as.length = vs.length) :
    (∀ v ∈ vs, v.status = .ACCEPTED) ↔ ∀ a ∈ as, a = .fresh := by
  constructor
  · intro hall a ha
    obtain ⟨k, hk⟩ := List.getElem?_of_mem ha
    have hlt : k < vs.length := hlen ▸ (List.getElem?_eq_some_iff.mp hk).1
    have hfresh := (accepted_iff_fresh h (List.getElem?_eq_getElem hlt)).mp (hall _ (List.getElem_mem hlt))
    exact Option.some.inj (hk.symm.trans hfresh)
  · intro hall v hv
    obtain ⟨k, hk⟩ := List.getElem?_of_mem hv
    have hlt : k < as.length := hlen ▸ (List.getElem?_eq_some_iff.mp hk).1
    rw [accepted_iff_fresh h hk, List.getElem?_eq_getElem hlt, hall _ (List.getElem_mem hlt)]

/-- The frames of a batch in any order. Let `protect_many` return the frames of some payloads, and let a receiver
of the session that does not know the stream yet, with room for it, be handed any of these frames, in any order
and any number of times. Then `receive_all` returns, and each verdict is told by what has arrived before. So
a payload gets through exactly if once its frame arrives when no other has that is a whole window ahead, and
all verdicts accept exactly if no frame arrives twice and none is overtaken by a whole window. -/
theorem batch_arrives_in_any_order {c : ReceiverConfig} {s : Sender} {payloads wires : List Bytes}
    (hreceives : Receives c s) (hseals : s.suite.impl.Seals) (hdoc : s.suite.impl.DecryptDocumented)
    (hsent : (s.protectMany (payloads.map some)).1 = .ok wires) (ws : List Bytes)
    (hunknown : (Mealy.after Receiver.step c.new ws).replay_guard.windowFor (s.session_id, s.stream_id) = none)
    (hroom : (Mealy.after Receiver.step c.new ws).replay_guard.trackedStreams < c.max_streams) (is : List ℕ)
    (his : ∀ i ∈ is, i < payloads.length) :
    ∃ vs, ((Mealy.after Receiver.step c.new ws).receiveAll (is.map fun i => wires.getD i [])).1 = .ok vs ∧
      vs.map Verdict.judgement =
        List.zipWith (fun i => arrivalJudgement (payloads.getD i [])) is (meetAll c.replay_window [] is) ∧
      (∀ i, (∃ (k : ℕ) (v : Verdict), is[k]? = some i ∧ vs[k]? = some v ∧ v.status = .ACCEPTED) ↔
        ∃ k : ℕ, is[k]? = some i ∧ ∀ j ∈ is.take k, (j : ℤ) - i < c.replay_window) ∧
      ((∀ v ∈ vs, v.status = .ACCEPTED) ↔
        is.Pairwise fun (j i : ℕ) => j ≠ i ∧ (j : ℤ) - i < c.replay_window) := by
  have hframes := framesOf_of_protectMany hseals hsent
  have hlen : wires.length = payloads.length :=
    (Mealy.length_of_collect hsent).trans (List.length_map _)
  have hrep := Receiver.represents_ofRun c ws
  have hconfig := Receiver.after_config c.new ws
  generalize Mealy.after Receiver.step c.new ws = r at hunknown hroom hrep hconfig
  generalize History.ofRun (Mealy.outputs Receiver.step c.new ws) = A at hrep
  have hnone := hrep.numbers_eq_empty hunknown
  rw [hrep.trackedStreams_eq] at hroom
  rw [← hreceives.suite] at hdoc hframes
  obtain ⟨vs, hvs, hjudgements⟩ := Receiver.receiveAll_of_holds hdoc hreceives.window hreceives.pinned hframes
    (hlen ▸ his) hconfig hrep (.nil hnone hroom)
  have hcount : vs.length = is.length := (Mealy.length_of_collect hvs).trans (List.length_map _)
  refine ⟨vs, hvs, hjudgements, fun i => ?_, ?_⟩
  · rw [← mem_fresh_iff]
    constructor
    · exact fun ⟨k, v, hi, hv, hacc⟩ => ⟨k, hi, (accepted_iff_fresh hjudgements hv).mp hacc⟩
    · rintro ⟨k, hi, hfresh⟩
      have hk : k < vs.length := hcount ▸ (List.getElem?_eq_some_iff.mp hi).1
      have hv := List.getElem?_eq_getElem hk
      exact ⟨k, vs[k], hi, hv, (accepted_iff_fresh hjudgements hv).mpr hfresh⟩
  · have hall := forall_accepted_iff hjudgements ((length_meetAll c.replay_window [] is).trans hcount.symm)
    rw [hall, forall_fresh_iff]

/-- A batch of three that arrives out of order, with its first frame twice. -/
theorem batch_arrives_in_any_order_of_three :
    ∃ wires vs, (checksumSender.protectMany [some [1], some [2], some [3]]).1 = .ok wires ∧
      (checksumConfig.new.receiveAll ([2, 0, 0, 1].map fun i => wires.getD i [])).1 = .ok vs ∧
        vs.map Verdict.judgement =
          [.accepted [3], .accepted [1], .rejected .REPLAY_DETECTED, .accepted [2]] := by
  obtain ⟨wires, hwires⟩ : ∃ wires, (checksumSender.protectMany ([[1], [2], [3]].map some)).1 = .ok wires :=
    ⟨_, rfl⟩
  obtain ⟨vs, hvs, hjudgements, -, -⟩ := batch_arrives_in_any_order receives_checksumConfig
    Backend.checksum_seals Backend.checksum_documented hwires [] rfl (by decide) [2, 0, 0, 1] (by decide)
  exact ⟨wires, vs, hwires, hvs, hjudgements⟩

end Srp
