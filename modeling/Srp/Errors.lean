import Mathlib.Data.Int.Notation
import Mathlib.Tactic.Common

/-!
# Byte strings, errors, and statuses

The exceptions of `srp/errors.py`, with the others that the code can raise, and the two enumerations
of a verdict. A function that can raise returns `Except Error`.
-/

namespace Srp

/-- Python's `bytes`. -/
abbrev Bytes := List UInt8

/-- The slice `bs[i:j]`, for `0 ≤ i ≤ j`. -/
def slice (bs : Bytes) (i j : ℕ) : Bytes := (bs.drop i).take (j - i)

/-- The digits of `{n:02x}`, for `n ≥ 0`. -/
def hex02 (n : ℕ) : String :=
  let digits := Nat.toDigits 16 n
  String.ofList (if digits.length < 2 then '0' :: digits else digits)

/-- `bytes.hex()`. -/
def Bytes.hex (bs : Bytes) : String :=
  String.join (bs.map fun b => hex02 b.toNat)

/-- What the `cryptography` library raises: `InvalidTag`, or anything else. -/
inductive BackendError
  | invalidTag
  | other (name : String)
  deriving DecidableEq, Repr

/-- An exception, with its text where it comes from this package. -/
inductive Error
  /-- Bad key length, unknown suite, bad parameters. -/
  | configurationError (message : String)
  /-- The sender has reached its usage limit for the current key. -/
  | nonceExhaustedError (message : String)
  /-- Tag verification failed. -/
  | authenticationFailure (message : String)
  /-- A wire record could not be parsed at all. -/
  | malformedRecordError (message : String)
  /-- `struct.error`, on a value that its field cannot hold or a buffer of another size. -/
  | structError
  /-- Python's own `ValueError`. -/
  | valueError (message : String)
  /-- An exception of the `cryptography` library that nothing here catches. -/
  | backend (e : BackendError)
  deriving DecidableEq, Repr

/-- Outcome of processing one protected application record. -/
inductive RecordStatus
  | ACCEPTED
  | REJECTED
  deriving DecidableEq, Repr

/-- Why a protected application record was rejected, in the order in which the checks are
applied. -/
inductive RejectReason
  | MALFORMED
  | SUITE_MISMATCH
  | SESSION_MISMATCH
  | REPLAY_DETECTED
  | STALE_RECORD
  | AUTH_FAILED
  deriving DecidableEq, Repr

/-- The value of a reason, under which the statistics count it. -/
def RejectReason.value : RejectReason → String
  | MALFORMED => "MALFORMED"
  | SUITE_MISMATCH => "SUITE_MISMATCH"
  | SESSION_MISMATCH => "SESSION_MISMATCH"
  | REPLAY_DETECTED => "REPLAY_DETECTED"
  | STALE_RECORD => "STALE_RECORD"
  | AUTH_FAILED => "AUTH_FAILED"

end Srp
