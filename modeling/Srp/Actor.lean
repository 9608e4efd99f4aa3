import Srp.Adversary

/-!
# The other attacks of the malicious actor

The methods of `MaliciousActor` that change a frame in place, and those that join parts of frames. A
random choice is the next draw of a generator, which may draw anything. The three bit flips are one
operation at different places (`flipBit`), with the index of a `bytearray` as Python reads it, and the
seven header attacks are `tamper_header` with one field.
-/

namespace Srp

/-! ## Random choices -/

/-- What a call outside the package raises: an exception of the package or a `ValueError`, or one of the
others of Python's own. -/
inductive Raised
  | error (e : Error)
  | indexError (message : String)
  | overflowError (message : String)
  /-- `BrokenPipeError` or `ConnectionResetError`, where the other end of a socket is closed. -/
  | connectionError
  deriving DecidableEq, Repr

/-- `random.Random`, by the numbers that it will draw. -/
structure Rng where
  draws : ℕ → ℕ

namespace Rng

/-- `randrange`, of a positive bound. -/
def randrange (rng : Rng) (n : ℕ) : ℕ × Rng :=
  (rng.draws 0 % n, ⟨fun k => rng.draws (k + 1)⟩)

/-- `randbytes`. -/
def randbytes (rng : Rng) (n : ℕ) : Bytes × Rng :=
  ((List.range n).map fun k => UInt8.ofNat (rng.draws k), ⟨fun k => rng.draws (k + n)⟩)

/-- The caller's value, or a number below `n` where there is none. -/
def choose (rng : Rng) (given : Option ℤ) (n : ℕ) : ℤ × Rng :=
  match given with
  | some value => (value, rng)
  | none => ((rng.randrange n).1, (rng.randrange n).2)

/-- What is drawn is below the bound. -/
theorem randrange_lt (rng : Rng) {n : ℕ} (h : 0 < n) : (rng.randrange n).1 < n :=
  Nat.mod_lt _ h

end Rng

/-! ## Bit flips -/

/-- `w[index] ^= 1 << bit` on a `bytearray`. -/
def xorBit (w : Bytes) (index bit : ℤ) : Except Raised Bytes :=
  let i := if index < 0 then index + w.length else index
  if i < 0 ∨ (w.length : ℤ) ≤ i then .error (.indexError "bytearray index out of range")
  else if bit < 0 then .error (.error (.valueError "negative shift count"))
  else
    let value := (w.getD i.toNat 0).toNat ^^^ (1 <<< bit.toNat)
    if 256 ≤ value then .error (.error (.valueError "byte must be in range(0, 256)"))
    else .ok (w.set i.toNat (UInt8.ofNat value))

/-- A flip in the `len` bytes from `start` on. The offset and the bit are drawn where the caller gives
none. -/
def flipBit (rng : Rng) (wire : Bytes) (start : ℤ) (len : ℕ) (offset bit : Option ℤ) :
    Except Raised Bytes × Rng :=
  let (offset, rng) := rng.choose offset len
  let (bit, rng) := rng.choose bit 8
  (xorBit wire (start + offset) bit, rng)

/-- `flip_ciphertext_bit`. -/
def flipCiphertextBit (rng : Rng) (wire : Bytes) (offset bit : Option ℤ := none) :
    Except Raised Bytes × Rng :=
  let (ct_start, ct_end) := ctRange wire
  let ct_len := ct_end - ct_start
  if ct_len ≤ 0 then (.error (.error (.valueError "no ciphertext to modify (empty payload)")), rng)
  else flipBit rng wire ct_start ct_len.toNat offset bit

/-- `flip_tag_bit`. -/
def flipTagBit (rng : Rng) (wire : Bytes) (offset bit : Option ℤ := none) : Except Raised Bytes × Rng :=
  flipBit rng wire (wire.length - tagLen) tagLen offset bit

/-- `flip_header_bit`. -/
def flipHeaderBit (rng : Rng) (wire : Bytes) (offset bit : Option ℤ := none) :
    Except Raised Bytes × Rng :=
  flipBit rng wire 0 headerLen offset bit

/-! ## Tags -/

/-- `replace_tag`: another tag, random where the caller gives none. -/
def replaceTag (rng : Rng) (wire : Bytes) (tag : Option Bytes := none) : Bytes × Rng :=
  match tag with
  | some tag => (pySlice wire 0 (-tagLen) ++ tag, rng)
  | none => (pySlice wire 0 (-tagLen) ++ (rng.randbytes tagLen).1, (rng.randbytes tagLen).2)

/-- `zero_tag`. -/
def zeroTag (wire : Bytes) : Bytes := pySlice wire 0 (-tagLen) ++ List.replicate tagLen 0

/-! ## Header attacks -/

/-- `relabel_record_type`. -/
def relabelRecordType (wire : Bytes) (record_type : ℤ := RecordType.CLOSE.value) : Except Error Bytes :=
  tamperHeader wire { record_type := some record_type }

/-- `set_flags`. -/
def setFlags (wire : Bytes) (flags : ℤ) : Except Error Bytes :=
  tamperHeader wire { flags := some flags }

/-- `redirect_stream`. -/
def redirectStream (wire : Bytes) (stream_id : ℤ) : Except Error Bytes :=
  tamperHeader wire { stream_id := some stream_id }

/-- `declare_wrong_length`. -/
def declareWrongLength (wire : Bytes) (payload_len : ℤ) : Except Error Bytes :=
  tamperHeader wire { payload_len := some payload_len }

/-- `switch_suite_label`. -/
def switchSuiteLabel (wire : Bytes) (suite_id : ℤ) : Except Error Bytes :=
  tamperHeader wire { suite_id := some suite_id }

/-- `renumber`. -/
def renumber (wire : Bytes) (seq : ℤ) : Except Error Bytes :=
  tamperHeader wire { seq := some seq }

/-- `reassign_session`. -/
def reassignSession (wire : Bytes) (session_id : Bytes) : Except Error Bytes :=
  tamperHeader wire { session_id := some session_id }

/-! ## Whole frames -/

/-- `replay`: a copy. -/
def replay (wire : Bytes) : Bytes := wire

/-- `splice`: the header of one frame with the ciphertext and the tag of another. -/
def splice (header_source body_source : Bytes) : Bytes :=
  header_source.take headerLen ++ body_source.drop headerLen

/-- `swap_bodies`. -/
def swapBodies (wire_a wire_b : Bytes) : Bytes × Bytes :=
  let header_a := wire_a.take headerLen
  let header_b := wire_b.take headerLen
  let body_a := wire_a.drop headerLen
  let body_b := wire_b.drop headerLen
  (header_a ++ body_b, header_b ++ body_a)

/-- `random_bytes`. -/
def randomBytes (rng : Rng) (length : ℕ := 128) : Bytes × Rng := rng.randbytes length

/-! ## What a flip changes -/

/-- The bytes with one bit of the byte at `k` inverted. -/
def flipped (w : Bytes) (k bit : ℕ) : Bytes := w.modify k (· ^^^ UInt8.ofNat (1 <<< bit))

section Flipped

variable {w w' : Bytes} {k b i j : ℕ}

/-- A flip keeps the length. -/
@[simp]
theorem length_flipped (w : Bytes) (k b : ℕ) : (flipped w k b).length = w.length :=
  List.length_modify ..

/-- The other bytes stay. -/
theorem getElem?_flipped_of_ne (h : j ≠ k) : (flipped w k b)[j]? = w[j]? := by
  exact List.getElem?_modify_ne _ _ h.symm

/-- One bit of a byte is not zero. -/
theorem oneBit_ne_zero (h : b < 8) : UInt8.ofNat (1 <<< b) ≠ 0 := by
  have hall : ∀ b < 8, UInt8.ofNat (1 <<< b) ≠ 0 := by decide
  exact hall b h

/-- The byte that is flipped changes. -/
theorem getElem?_flipped_ne (hk : k < w.length) (hb : b < 8) : (flipped w k b)[k]? ≠ w[k]? := by
  unfold flipped
  rw [List.getElem?_modify_eq, List.getElem?_eq_getElem hk]
  intro h
  have hx : w[k] ^^^ UInt8.ofNat (1 <<< b) = w[k] := Option.some.inj h
  have hzero : UInt8.ofNat (1 <<< b) = 0 := by
    calc UInt8.ofNat (1 <<< b)
      _ = w[k] ^^^ (w[k] ^^^ UInt8.ofNat (1 <<< b)) := by rw [← UInt8.xor_assoc]; simp
      _ = 0 := by rw [hx]; simp
  exact oneBit_ne_zero hb hzero

/-- A byte of a slice. -/
theorem getElem?_slice (w : Bytes) (i j n : ℕ) :
    (slice w i j)[n]? = if n < j - i then w[i + n]? else none := by
  unfold slice
  rw [List.getElem?_take]
  split_ifs
  · rw [List.getElem?_drop]
  · rfl

/-- The slices that the byte is not in stay. -/
theorem slice_flipped_of_outside (h : k < i ∨ j ≤ k) : slice (flipped w k b) i j = slice w i j := by
  apply List.ext_getElem?
  intro n
  rw [getElem?_slice, getElem?_slice]
  split_ifs with hn
  · exact getElem?_flipped_of_ne (by omega)
  · rfl

/-- The slices that the byte is in change. -/
theorem slice_flipped_ne (hk : k < w.length) (hb : b < 8) (hi : i ≤ k) (hj : k < j) :
    slice (flipped w k b) i j ≠ slice w i j := by
  intro h
  have hbyte := congrArg (·[k - i]?) h
  simp only [getElem?_slice, if_pos (show k - i < j - i by omega), Nat.add_sub_cancel' hi] at hbyte
  exact getElem?_flipped_ne hk hb hbyte

end Flipped

/-- The value of a byte with a bit inverted is that of a byte exactly for the eight bits of one. -/
theorem xor_shiftLeft_lt_iff (x : UInt8) (b : ℕ) : x.toNat ^^^ (1 <<< b) < 256 ↔ b < 8 := by
  constructor
  · intro h
    by_contra hb
    have hpow : 2 ^ 8 ≤ 2 ^ b := Nat.pow_le_pow_right (by decide) (not_lt.mp hb)
    -- The bit is above those of the byte, so it is set in the value.
    have hbit : (x.toNat ^^^ (1 <<< b)).testBit b = true := by
      rw [Nat.testBit_xor, Nat.testBit_lt_two_pow (x.toNat_lt.trans_le hpow), Nat.one_shiftLeft,
        Nat.testBit_two_pow_self]
      rfl
    have hle := Nat.ge_two_pow_of_testBit hbit
    omega
  · intro h
    have hpow : 2 ^ b < 2 ^ 8 := Nat.pow_lt_pow_right (by decide) h
    have hlt : 1 <<< b < 2 ^ 8 := by rwa [Nat.one_shiftLeft]
    exact Nat.xor_lt_two_pow x.toNat_lt hlt

/-- The byte that a flip writes. -/
theorem flipped_eq_set {w : Bytes} {k : ℕ} (b : ℕ) (hk : k < w.length) :
    flipped w k b = w.set k (UInt8.ofNat ((w.getD k 0).toNat ^^^ (1 <<< b))) := by
  have hget : w.getD k 0 = w[k] := by
    rw [List.getD_eq_getElem?_getD, List.getElem?_eq_getElem hk, Option.getD_some]
  unfold flipped
  rw [hget, UInt8.ofNat_xor, UInt8.ofNat_toNat, List.modify_eq_set_get _ hk]
  rfl

/-- A flip returns exactly at an index of the array, counted from either end, and at one of the eight bits
of a byte. -/
theorem xorBit_eq_ok {w w' : Bytes} {index bit : ℤ} :
    xorBit w index bit = .ok w' ↔
      ∃ k b : ℕ, k < w.length ∧ b < 8 ∧ (index = k ∨ index = k - w.length) ∧ bit = b ∧
        w' = flipped w k b := by
  unfold xorBit
  generalize hi : (if index < 0 then index + (w.length : ℤ) else index) = i
  dsimp only
  constructor
  · intro h
    split_ifs at h with hrange hneg hbit
    have hplace : index = i.toNat ∨ index = i.toNat - w.length := by
      split_ifs at hi <;> omega
    have hk : i.toNat < w.length := by omega
    have hb : bit.toNat < 8 := (xor_shiftLeft_lt_iff _ _).mp (not_le.mp hbit)
    refine ⟨i.toNat, bit.toNat, hk, hb, hplace, (Int.toNat_of_nonneg (not_lt.mp hneg)).symm, ?_⟩
    rw [flipped_eq_set _ hk]
    exact (Except.ok.inj h).symm
  · rintro ⟨k, b, hk, hb, hplace, rfl, rfl⟩
    obtain rfl : i = k := by
      split_ifs at hi <;> omega
    have hbit := (xor_shiftLeft_lt_iff (w.getD k 0) b).mpr hb
    rw [if_neg (by omega), if_neg (by omega), Int.toNat_natCast, Int.toNat_natCast,
      if_neg (not_le.mpr hbit), flipped_eq_set _ hk]

/-- A flip at random is one of a bit of the bytes that it may choose from. -/
theorem exists_flipped_of_random (rng : Rng) {w : Bytes} {start : ℤ} {len : ℕ} (h0 : 0 ≤ start)
    (hlen : 0 < len) (hfits : start + len ≤ w.length) :
    ∃ k b : ℕ, start ≤ k ∧ (k : ℤ) < start + len ∧ k < w.length ∧ b < 8 ∧
      (flipBit rng w start len none none).1 = .ok (flipped w k b) := by
  have hoffset := rng.randrange_lt hlen
  have hbit := (rng.randrange len).2.randrange_lt (by decide : 0 < 8)
  refine ⟨(start + (rng.randrange len).1).toNat, ((rng.randrange len).2.randrange 8).1, ?_, ?_, ?_,
    hbit, ?_⟩
  · omega
  · omega
  · omega
  · refine xorBit_eq_ok.mpr ⟨_, _, ?_, hbit, .inl ?_, rfl, rfl⟩
    · omega
    · omega

/-! ## What a header attack makes -/

/-- What `tamper_header` returns for the frame of a record encodes the record with the changed header. -/
theorem exists_header_of_tamperHeader {w w' : Bytes} {r : ProtectedRecord} {changes : HeaderChanges}
    (hp : parseRecord w = .ok r) (ht : tamperHeader w changes = .ok w') :
    ∃ header : RecordHeader, header.toHeaderFields = r.header.toHeaderFields.replace changes ∧
      ProtectedRecord.toBytes ⟨header, r.ciphertext_and_tag⟩ = .ok w' := by
  obtain ⟨hbytes, hversion, -, -⟩ := parseRecord_eq_ok.mp hp
  rw [tamperHeader_of_toBytes changes hbytes hversion] at ht
  cases he : r.header.evolve changes with
  | error e =>
    rw [he] at ht
    cases ht
  | ok header =>
    rw [he] at ht
    exact ⟨header, RecordHeader.fields_of_new he, ht⟩

/-- Changing neither the version nor the payload length, it makes a frame that parses to that record. -/
theorem parseRecord_of_tamperHeader {w w' : Bytes} {r : ProtectedRecord} {changes : HeaderChanges}
    (hp : parseRecord w = .ok r) (ht : tamperHeader w changes = .ok w')
    (hversion : changes.version = none) (hlen : changes.payload_len = none) :
    ∃ header : RecordHeader, header.toHeaderFields = r.header.toHeaderFields.replace changes ∧
      parseRecord w' = .ok ⟨header, r.ciphertext_and_tag⟩ := by
  obtain ⟨header, hfields, hbytes⟩ := exists_header_of_tamperHeader hp ht
  obtain ⟨-, hv, hlimit, hbody⟩ := parseRecord_eq_ok.mp hp
  have hversion' : header.version = r.header.version := by
    rw [hfields, HeaderFields.replace, hversion]
    rfl
  have hlen' : header.payload_len = r.header.payload_len := by
    rw [hfields, HeaderFields.replace, hlen]
    rfl
  refine ⟨header, hfields, parseRecord_eq_ok.mpr ⟨hbytes, ?_, ?_, ?_⟩⟩
  · exact hversion'.trans hv
  · rwa [hlen']
  · rwa [hlen']

end Srp
