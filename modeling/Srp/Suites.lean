import Srp.Errors

/-!
# AEAD configurations

`AeadSuite` of `srp/suites.py` over a backend: the `AESGCM` or `ChaCha20Poly1305` object that the
`cryptography` library builds from the key. The library is not part of this package, so a backend
is any pair of functions. What the documentation of the library promises of it is stated apart
(`DecryptDocumented`, `Seals`), for the results that rely on it.
-/

namespace Srp

/-- `key_len` of both configurations. -/
def keyLen : ℕ := 32

/-- `nonce_len` of both configurations. -/
def nonceLen : ℕ := 12

/-- `tag_len` of both configurations. -/
def suiteTagLen : ℕ := 16

/-- The library object of one key. Both functions take the nonce, the data, and the associated
data. -/
structure Backend where
  /-- `encrypt`, returning the ciphertext followed by the tag. -/
  encrypt : Bytes → Bytes → Bytes → Except BackendError Bytes
  /-- `decrypt` of a ciphertext followed by its tag. -/
  decrypt : Bytes → Bytes → Bytes → Except BackendError Bytes

/-- A subclass of `AeadSuite`: its selector, its one-byte identifier, and `_build`. -/
structure SuiteClass where
  /-- Human-readable selector. -/
  name : String
  /-- Identifier carried in the record header. -/
  suite_id : ℤ
  /-- The library object of a key. -/
  build : Bytes → Backend
  /-- The identifier fits in one byte. -/
  suite_id_byte : 0 ≤ suite_id ∧ suite_id < 256

/-- One configuration bound to one key. -/
structure AeadSuite where
  /-- The configuration. -/
  cls : SuiteClass
  /-- The pre-shared key. -/
  key : Bytes
  /-- The constructor admits only keys of this length. -/
  key_len : key.length = keyLen

/-- The constructor. -/
def AeadSuite.new (cls : SuiteClass) (key : Bytes) : Except Error AeadSuite :=
  if h : key.length = keyLen then .ok ⟨cls, key, h⟩
  else .error (.configurationError
    s!"{cls.name} requires a {keyLen}-byte key, got {key.length}")

/-- The first identifier fits in one byte. -/
theorem one_byte : (0 : ℤ) ≤ 1 ∧ (1 : ℤ) < 256 := by decide

/-- The second identifier fits in one byte. -/
theorem two_byte : (0 : ℤ) ≤ 2 ∧ (2 : ℤ) < 256 := by decide

/-- Identifier carried in the record header. -/
def AeadSuite.suite_id (suite : AeadSuite) : ℤ := suite.cls.suite_id

/-- The library object, built once from the key. -/
def AeadSuite.impl (suite : AeadSuite) : Backend := suite.cls.build suite.key

/-- Both `seal` and `open` raise on a nonce of another length. -/
def AeadSuite.nonceLenError (suite : AeadSuite) (nonce : Bytes) : Error :=
  .configurationError s!"{suite.cls.name} requires a {nonceLen}-byte nonce, got {nonce.length}"

/-- Authenticated encryption: the ciphertext followed by the tag. -/
def AeadSuite.seal (suite : AeadSuite) (nonce plaintext aad : Bytes) : Except Error Bytes :=
  if nonce.length ≠ nonceLen then .error (suite.nonceLenError nonce)
  else match suite.impl.encrypt nonce plaintext aad with
    | .ok ciphertext_and_tag => .ok ciphertext_and_tag
    | .error e => .error (.backend e)

/-- `open`: verify and decrypt. A buffer shorter than the tag never reaches the library, and
`InvalidTag` comes out without detail. -/
def AeadSuite.open (suite : AeadSuite) (nonce ciphertext_and_tag aad : Bytes) : Except Error Bytes :=
  if nonce.length ≠ nonceLen then .error (suite.nonceLenError nonce)
  else if ciphertext_and_tag.length < suiteTagLen then
    .error (.authenticationFailure "ciphertext shorter than authentication tag")
  else match suite.impl.decrypt nonce ciphertext_and_tag aad with
    | .ok plaintext => .ok plaintext
    | .error .invalidTag => .error (.authenticationFailure "AEAD tag verification failed")
    | .error e => .error (.backend e)

/-! ## What the library documents -/

/-- On a nonce of the configuration's length, `decrypt` returns bytes or raises `InvalidTag`. -/
def Backend.DecryptDocumented (b : Backend) : Prop :=
  ∀ nonce data aad e, nonce.length = nonceLen → b.decrypt nonce data aad = .error e →
    e = .invalidTag

/-- What `encrypt` returns is longer than its data by the tag. -/
def Backend.AddsTag (b : Backend) : Prop :=
  ∀ {nonce data aad c}, nonce.length = nonceLen → b.encrypt nonce data aad = .ok c →
    c.length = data.length + suiteTagLen

/-- What `encrypt` returns is longer than its data by the tag, and `decrypt` gives the data back
under the same nonce and associated data. -/
structure Backend.Seals (b : Backend) : Prop where
  /-- The ciphertext and tag are as long as the data and a tag. -/
  length : b.AddsTag
  /-- Decrypting gives the data back. -/
  decrypts : ∀ {nonce data aad c}, nonce.length = nonceLen → b.encrypt nonce data aad = .ok c →
    b.decrypt nonce c aad = .ok data

namespace AeadSuite

variable {suite : AeadSuite} {nonce data aad : Bytes}

/-- `seal` returns only on a nonce of the right length, what the library returns. -/
theorem seal_eq_ok {c : Bytes} :
    suite.seal nonce data aad = .ok c ↔
      nonce.length = nonceLen ∧ suite.impl.encrypt nonce data aad = .ok c := by
  unfold AeadSuite.seal
  by_cases h : nonce.length = nonceLen
  · cases suite.impl.encrypt nonce data aad <;> simp [h]
  · simp [h]

/-- `open` returns only on a nonce of the right length and a buffer with room for a tag, what the
library returns. -/
theorem open_eq_ok {p : Bytes} :
    suite.open nonce data aad = .ok p ↔
      nonce.length = nonceLen ∧ suiteTagLen ≤ data.length ∧
        suite.impl.decrypt nonce data aad = .ok p := by
  unfold AeadSuite.open
  by_cases h : nonce.length = nonceLen
  · by_cases hd : data.length < suiteTagLen
    · simp [h, hd, Nat.not_le.mpr hd]
    · rcases suite.impl.decrypt nonce data aad with (_ | _) | _ <;> simp [h, hd, Nat.not_lt.mp hd]
  · simp [h]

/-- On a nonce of the right length and over a documented backend, `open` returns or raises
`AuthenticationFailure`. -/
theorem open_cases (hdoc : suite.impl.DecryptDocumented) (hn : nonce.length = nonceLen) :
    (∃ p, suite.open nonce data aad = .ok p) ∨
      ∃ message, suite.open nonce data aad = .error (.authenticationFailure message) := by
  unfold AeadSuite.open
  rw [if_neg (not_not.mpr hn)]
  split_ifs with hd
  · exact .inr ⟨_, rfl⟩
  · cases h : suite.impl.decrypt nonce data aad with
    | ok p => exact .inl ⟨p, rfl⟩
    | error e =>
      obtain rfl := hdoc nonce data aad e hn h
      exact .inr ⟨_, rfl⟩

/-- All that `seal` raises is `ConfigurationError`, or what the library raises. -/
theorem seal_error {e : Error} (h : suite.seal nonce data aad = .error e) :
    (∃ message, e = .configurationError message) ∨ ∃ b, e = .backend b := by
  unfold AeadSuite.seal at h
  split_ifs at h
  · exact .inl ⟨_, (Except.error.inj h).symm⟩
  · split at h
    · cases h
    · exact .inr ⟨_, (Except.error.inj h).symm⟩

/-- `open` gives back what `seal` was handed. -/
theorem open_of_seal (hseals : suite.impl.Seals) {c : Bytes}
    (h : suite.seal nonce data aad = .ok c) : suite.open nonce c aad = .ok data := by
  obtain ⟨hn, hc⟩ := seal_eq_ok.mp h
  have hlen : c.length = data.length + suiteTagLen := hseals.length hn hc
  exact open_eq_ok.mpr ⟨hn, by omega, hseals.decrypts hn hc⟩

end AeadSuite

/-! ## A backend for examples -/

/-- Sixteen copies of the sum of all bytes. -/
def checksum (nonce data aad : Bytes) : Bytes :=
  List.replicate suiteTagLen ((nonce ++ data ++ aad).foldl (· + ·) 0)

/-- A backend that keeps the data in the clear and has a checksum for the tag. -/
def Backend.checksum : Backend where
  encrypt nonce data aad := .ok (data ++ Srp.checksum nonce data aad)
  decrypt nonce c aad :=
    let data := c.take (c.length - suiteTagLen)
    if data ++ Srp.checksum nonce data aad = c then .ok data else .error .invalidTag

/-- All that the checksum backend's `decrypt` raises is `InvalidTag`. -/
theorem Backend.checksum_documented : checksum.DecryptDocumented := by
  intro nonce data aad e _ h
  simp only [checksum] at h
  split_ifs at h
  exact (Except.error.inj h).symm

/-- The checksum backend's two functions fit together. -/
theorem Backend.checksum_seals : checksum.Seals where
  length _ h := by
    cases h
    simp [Srp.checksum]
  decrypts _ h := by
    cases h
    simp [checksum, Srp.checksum]

/-- The suite of the checksum backend under an identifier, with a key of zeros. -/
def checksumSuite (suite_id : ℤ) (h : 0 ≤ suite_id ∧ suite_id < 256) : AeadSuite :=
  ⟨⟨"checksum", suite_id, fun _ => .checksum, h⟩, List.replicate keyLen 0, rfl⟩

end Srp
