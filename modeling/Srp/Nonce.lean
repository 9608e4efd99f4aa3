import Srp.Header

/-!
# Nonce management

`srp/nonce.py`: the 96-bit nonce is the 4-byte prefix of the session followed by the 64-bit sequence
number, and `NonceManager` hands out the sequence numbers of one key and session. A manager carries
the relation between its counters, which its constructor establishes and `allocate` keeps: the next
number is the start plus the number issued, which never passes the limit, which ends within the
64-bit space. So the range check of `derive_nonce` never fails in `allocate`
(`NonceManager.allocate_cases`).
-/

namespace Srp

/-- `SEQ_SPACE`, one past the largest representable sequence number. -/
def seqSpace : ℤ := 2 ^ 64

/-- `derive_nonce`: the prefix, then the big-endian sequence number. -/
def deriveNonce : Bytes → ℤ → Except Error Bytes := fun nonce_prefix seq =>
  if nonce_prefix.length ≠ noncePrefixLen then
    .error (.configurationError
      (s!"nonce_prefix must be {noncePrefixLen} bytes, got " ++ toString nonce_prefix.length))
  else if ¬(0 ≤ seq ∧ seq < seqSpace) then
    .error (.configurationError s!"seq {seq} outside 64-bit range")
  else .ok <| nonce_prefix ++ Struct.encode 8 seq.toNat

/-- One issued pair of a sequence number and its nonce. -/
structure NonceAllocation where
  seq : ℤ
  nonce : Bytes
  deriving DecidableEq, Repr

/-- Sender-side allocator of unique nonces for one key and session. -/
structure NonceManager where
  nonce_prefix : Bytes
  start : ℤ
  next : ℤ
  limit : ℤ
  issued : ℤ
  /-- The constructor's check of the prefix. -/
  prefix_len : nonce_prefix.length = noncePrefixLen
  /-- The constructor's check of the start. -/
  start_nonneg : 0 ≤ start
  /-- The constructor's check against overflow. -/
  fits : start + limit ≤ seqSpace
  /-- The next number follows those issued. -/
  next_eq : next = start + issued
  /-- A number of records issued. -/
  issued_nonneg : 0 ≤ issued
  /-- The budget is never passed. -/
  issued_le : issued ≤ limit

namespace NonceManager

/-- The constructor. The prefix is drawn at random where the caller gives none. -/
def new : Bytes → ℤ → ℤ → Except Error NonceManager := fun nonce_prefix start record_limit =>
  if h₁ : nonce_prefix.length ≠ noncePrefixLen then
    .error (.configurationError
      (s!"nonce_prefix must be {noncePrefixLen} bytes, got " ++ toString nonce_prefix.length))
  else if h₂ : ¬(0 ≤ start ∧ start < seqSpace) then
    .error (.configurationError s!"start {start} outside 64-bit range")
  else if h₃ : record_limit ≤ 0 then
    .error (.configurationError "record_limit must be positive")
  else if h₄ : start + record_limit > seqSpace then
    .error (.configurationError "start + record_limit would overflow the 64-bit sequence space")
  else
    .ok { nonce_prefix, start, next := start, limit := record_limit, issued := 0
          prefix_len := not_not.mp h₁
          start_nonneg := (not_not.mp h₂).1
          fits := not_lt.mp h₄
          next_eq := (add_zero start).symm
          issued_nonneg := le_refl 0
          issued_le := (not_le.mp h₃).le }

/-- The text of the error of a spent budget. -/
def exhaustedError (m : NonceManager) : Error :=
  .nonceExhaustedError
    (s!"record budget of {m.limit} exhausted for this key/session " ++
      s!"(prefix={m.nonce_prefix.hex}); rekey before sending further records")

/-- The manager with one more number issued: `allocate`'s two assignments. -/
def advance (m : NonceManager) (h : m.issued < m.limit) : NonceManager :=
  { m with
    next := m.next + 1
    issued := m.issued + 1
    next_eq := by have := m.next_eq; omega
    issued_nonneg := by have := m.issued_nonneg; omega
    issued_le := by omega }

/-- `allocate`: the next unique pair. The counter advances only after the budget check passes. -/
def allocate (m : NonceManager) : Except Error NonceAllocation × NonceManager :=
  if h : m.issued ≥ m.limit then (.error m.exhaustedError, m)
  else
    let seq := m.next
    match deriveNonce m.nonce_prefix seq with
    | .error e => (.error e, m)
    | .ok nonce => (.ok { seq, nonce }, m.advance (not_le.mp h))

/-- Records still permitted under the budget. -/
def remaining (m : NonceManager) : ℤ := max 0 (m.limit - m.issued)

/-- Whether the budget is spent. -/
def exhausted (m : NonceManager) : Bool := m.issued ≥ m.limit

end NonceManager

/-! ## The nonce construction -/

/-- On a 4-byte prefix and a 64-bit number, the nonce is the prefix and the number's bytes. -/
theorem deriveNonce_of_range {p : Bytes} {seq : ℤ} (hp : p.length = noncePrefixLen)
    (h0 : 0 ≤ seq) (h1 : seq < seqSpace) :
    deriveNonce p seq = .ok (p ++ Struct.encode 8 seq.toNat) := by
  rw [deriveNonce, if_neg (not_not.mpr hp), if_neg (not_not.mpr ⟨h0, h1⟩)]

/-- A nonce is derived only from a 4-byte prefix and a 64-bit number. -/
theorem deriveNonce_eq_ok {p nonce : Bytes} {seq : ℤ} :
    deriveNonce p seq = .ok nonce ↔
      p.length = noncePrefixLen ∧ 0 ≤ seq ∧ seq < seqSpace ∧
        nonce = p ++ Struct.encode 8 seq.toNat := by
  constructor
  · intro e
    unfold deriveNonce at e
    split_ifs at e with hp hs
    exact ⟨not_not.mp hp, hs.1, hs.2, (Except.ok.inj e).symm⟩
  · rintro ⟨hp, h0, h1, rfl⟩
    exact deriveNonce_of_range hp h0 h1

/-- A 64-bit number fits in eight bytes. -/
theorem toNat_lt_of_lt_seqSpace {seq : ℤ} (h1 : seq < seqSpace) : seq.toNat < 256 ^ 8 := by
  unfold seqSpace at h1
  omega

/-- A derived nonce has the length that the configurations require. -/
theorem length_deriveNonce {p nonce : Bytes} {seq : ℤ} (e : deriveNonce p seq = .ok nonce) :
    nonce.length = 12 := by
  obtain ⟨hp, -, h1, rfl⟩ := deriveNonce_eq_ok.mp e
  rw [List.length_append, hp, Struct.length_encode (toNat_lt_of_lt_seqSpace h1)]
  rfl

/-- A nonce determines the prefix and the sequence number that it is derived from. -/
theorem deriveNonce_injective {p p' nonce : Bytes} {seq seq' : ℤ}
    (e : deriveNonce p seq = .ok nonce) (e' : deriveNonce p' seq' = .ok nonce) :
    p = p' ∧ seq = seq' := by
  obtain ⟨hp, h0, h1, rfl⟩ := deriveNonce_eq_ok.mp e
  obtain ⟨hp', h0', h1', heq⟩ := deriveNonce_eq_ok.mp e'
  -- Both prefixes have four bytes, so the nonce splits in one place.
  obtain ⟨rfl, henc⟩ := List.append_inj heq (hp.trans hp'.symm)
  have hdec := congrArg Struct.decode henc
  rw [Struct.decode_encode (toNat_lt_of_lt_seqSpace h1),
    Struct.decode_encode (toNat_lt_of_lt_seqSpace h1')] at hdec
  exact ⟨rfl, by omega⟩

/-- Every header has a nonce. -/
theorem RecordHeader.exists_deriveNonce (h : RecordHeader) :
    ∃ nonce, deriveNonce h.nonce_prefix h.seq = .ok nonce := by
  obtain ⟨h0, h1⟩ := h.admitted.seq
  refine ⟨_, deriveNonce_of_range h.admitted.nonce_prefix h0 ?_⟩
  unfold seqSpace
  omega

/-! ## Allocation -/

namespace NonceManager

/-- The constructor's arguments are the manager's, with nothing issued. -/
theorem new_eq_ok {p : Bytes} {start record_limit : ℤ} {m : NonceManager}
    (e : new p start record_limit = .ok m) :
    m.nonce_prefix = p ∧ m.start = start ∧ m.limit = record_limit ∧ m.issued = 0 := by
  unfold new at e
  split_ifs at e
  cases e
  exact ⟨rfl, rfl, rfl, rfl⟩

/-- The arguments that the constructor admits. -/
theorem exists_new_iff {p : Bytes} {start record_limit : ℤ} :
    (∃ m, new p start record_limit = .ok m) ↔
      p.length = noncePrefixLen ∧ (0 ≤ start ∧ start < seqSpace) ∧ 0 < record_limit ∧
        start + record_limit ≤ seqSpace := by
  constructor
  · rintro ⟨m, e⟩
    unfold new at e
    split_ifs at e with h₁ h₂ h₃ h₄
    exact ⟨not_not.mp h₁, h₂, not_le.mp h₃, not_lt.mp h₄⟩
  · rintro ⟨h₁, h₂, h₃, h₄⟩
    unfold new
    rw [dif_neg (not_not.mpr h₁), dif_neg (not_not.mpr h₂), dif_neg (not_le.mpr h₃), dif_neg (not_lt.mpr h₄)]
    exact ⟨_, rfl⟩

/-- One more number is counted. -/
@[simp]
theorem advance_issued (m : NonceManager) (h : m.issued < m.limit) :
    (m.advance h).issued = m.issued + 1 := rfl

/-- Below the limit, the next number is a 64-bit one: the limit ends within that space. -/
theorem next_range {m : NonceManager} (h : m.issued < m.limit) : 0 ≤ m.next ∧ m.next < seqSpace := by
  have h0 := m.start_nonneg
  have h1 := m.issued_nonneg
  have h2 := m.fits
  rw [m.next_eq]
  omega

/-- What one allocation can do: past the budget it changes nothing, and within it it issues the next
number with its nonce and counts it. -/
theorem allocate_cases (m : NonceManager) :
    (m.limit ≤ m.issued ∧ m.allocate = (.error m.exhaustedError, m)) ∨
      ∃ (h : m.issued < m.limit) (nonce : Bytes), deriveNonce m.nonce_prefix m.next = .ok nonce ∧
        m.allocate = (.ok ⟨m.next, nonce⟩, m.advance h) := by
  rcases le_or_gt m.limit m.issued with h | h
  · exact .inl ⟨h, by rw [allocate, dif_pos h]⟩
  -- Within the budget the checks of `derive_nonce` pass.
  · obtain ⟨h0, h1⟩ := next_range h
    have hn := deriveNonce_of_range m.prefix_len h0 h1
    refine .inr ⟨h, _, hn, ?_⟩
    rw [allocate, dif_neg (not_le.mpr h)]
    simp only [hn]

end NonceManager

end Srp
