import Mathlib.Data.List.Pairwise
import Mathlib.Data.Int.Order.Basic
import Mathlib.Tactic.Common
import Mathlib.Tactic.Push

/-!
# Numbered messages over a network without order

Numbered messages that arrive in any order, some more than once and some never, at a receiver with a sliding
window: a message is late if it is a whole window behind the largest number that has arrived, and a
duplicate if it has arrived before (`meet`). What has arrived decides, whether it was let through or not. So
a message gets through exactly if once nothing arrives before it that is a whole window ahead
(`mem_fresh_iff`), and all of them get through exactly if none is overtaken by a whole window or arrives twice
(`forall_fresh_iff`).
-/

namespace Arrivals

/-- What becomes of a message that arrives. -/
inductive Arrival
  | fresh
  | duplicate
  | late
  deriving DecidableEq, Repr

variable {W : ℤ} {seen is : List ℕ} {i j m : ℕ}

/-- What becomes of message `i` if the messages of some numbers have arrived. -/
def meet (W : ℤ) (seen : List ℕ) (i : ℕ) : Arrival :=
  match seen.max? with
  | none => .fresh
  | some m => if W ≤ (m : ℤ) - i then .late else if i ∈ seen then .duplicate else .fresh

/-- What becomes of messages in the order in which they arrive. -/
def meetAll (W : ℤ) : List ℕ → List ℕ → List Arrival
  | _, [] => []
  | seen, i :: is => meet W seen i :: meetAll W (seen ++ [i]) is

/-- The largest number that has arrived. -/
theorem max?_eq_some : seen.max? = some m ↔ m ∈ seen ∧ ∀ j ∈ seen, j ≤ m :=
  List.max?_eq_some_iff

/-- A message that is not ahead of all others leaves the largest number. -/
theorem max?_concat_of_le (hmax : seen.max? = some m) (hle : i ≤ m) : (seen ++ [i]).max? = some m := by
  obtain ⟨hm, hall⟩ := max?_eq_some.mp hmax
  refine max?_eq_some.mpr ⟨List.mem_append_left _ hm, fun j hj => ?_⟩
  rcases List.mem_append.mp hj with hj | hj
  · exact hall j hj
  · rwa [List.mem_singleton.mp hj]

/-- A message that does not get through is not ahead of all others, and has arrived if it is within the
window. -/
theorem exists_of_meet_ne_fresh (hW : 0 ≤ W) (h : meet W seen i ≠ .fresh) :
    ∃ m, seen.max? = some m ∧ i ≤ m ∧ ((m : ℤ) - i < W → i ∈ seen) := by
  unfold meet at h
  cases hmax : seen.max? with
  | none =>
    rw [hmax] at h
    exact absurd rfl h
  | some m =>
    rw [hmax] at h
    dsimp only at h
    split_ifs at h with hlate hseen
    · exact ⟨m, rfl, by omega, fun hlt => by omega⟩
    · exact ⟨m, rfl, (max?_eq_some.mp hmax).2 i hseen, fun _ => hseen⟩
    · exact absurd rfl h

/-- A message gets through if it has not arrived yet, and nothing has that is a whole window ahead. -/
theorem meet_eq_fresh_iff : meet W seen i = .fresh ↔ ∀ j ∈ seen, j ≠ i ∧ (j : ℤ) - i < W := by
  unfold meet
  cases hmax : seen.max? with
  | none =>
    rw [List.max?_eq_none_iff.mp hmax]
    simp
  | some m =>
    obtain ⟨hm, hle⟩ := max?_eq_some.mp hmax
    dsimp only
    split_ifs with hlate hseen
    · refine iff_of_false nofun fun h => ?_
      have hahead := (h m hm).2
      omega
    · exact iff_of_false nofun fun h => (h i hseen).1 rfl
    · refine iff_of_true rfl fun j hj => ⟨fun heq => hseen (heq ▸ hj), ?_⟩
      have hjm := hle j hj
      omega

@[simp]
theorem length_meetAll (W : ℤ) (seen is : List ℕ) : (meetAll W seen is).length = is.length := by
  induction is generalizing seen with
  | nil => rfl
  | cons i is ih => rw [meetAll, List.length_cons, List.length_cons, ih]

/-- What becomes of a message is decided by those before it. -/
theorem getElem?_meetAll (W : ℤ) (seen is : List ℕ) (k : ℕ) :
    (meetAll W seen is)[k]? = is[k]?.map (meet W (seen ++ is.take k)) := by
  induction is generalizing seen k with
  | nil => rfl
  | cons i is ih =>
    cases k with
    | zero => simp [meetAll]
    | succ k => simp [meetAll, ih]

/-- All messages get through exactly if none arrives twice, and none is overtaken by a whole window. -/
theorem forall_fresh_iff :
    (∀ a ∈ meetAll W [] is, a = .fresh) ↔
      is.Pairwise fun (j i : ℕ) => j ≠ i ∧ (j : ℤ) - i < W := by
  suffices h : ∀ seen, (∀ a ∈ meetAll W seen is, a = .fresh) ↔
      (∀ j ∈ seen, ∀ i ∈ is, j ≠ i ∧ (j : ℤ) - i < W) ∧
        is.Pairwise fun (j i : ℕ) => j ≠ i ∧ (j : ℤ) - i < W by
    rw [h []]
    simp
  induction is with
  | nil => simp [meetAll]
  | cons i is ih =>
    intro seen
    rw [meetAll, List.forall_mem_cons, meet_eq_fresh_iff, ih, List.pairwise_cons]
    simp only [List.forall_mem_append, List.forall_mem_singleton, List.forall_mem_cons]
    constructor
    · exact fun ⟨hi, ⟨hseen, his⟩, hrest⟩ => ⟨fun j hj => ⟨hi j hj, hseen j hj⟩, his, hrest⟩
    · exact fun ⟨hseen, his, hrest⟩ =>
        ⟨fun j hj => (hseen j hj).1, ⟨fun j hj => (hseen j hj).2, his⟩, hrest⟩

/-- A message gets through at some time exactly if once nothing has arrived before it that is a whole window
ahead. -/
theorem mem_fresh_iff :
    (∃ k : ℕ, is[k]? = some i ∧ (meetAll W [] is)[k]? = some .fresh) ↔
      ∃ k : ℕ, is[k]? = some i ∧ ∀ j ∈ is.take k, (j : ℤ) - i < W := by
  constructor
  · rintro ⟨k, hi, hfresh⟩
    rw [getElem?_meetAll, hi] at hfresh
    exact ⟨k, hi, fun j hj => (meet_eq_fresh_iff.mp (Option.some.inj hfresh) j hj).2⟩
  · rintro ⟨k, hi, hahead⟩
    -- The first time that it arrives will do.
    have hlt := (List.getElem?_eq_some_iff.mp hi).1
    induction k using Nat.strongRecOn with
    | ind k ih =>
      by_cases hbefore : i ∈ is.take k
      · obtain ⟨k', hk'⟩ := List.getElem?_of_mem hbefore
        rw [List.getElem?_take] at hk'
        split_ifs at hk' with hkk
        refine ih k' hkk hk' (fun j hj => hahead j ?_) (by omega)
        exact List.take_subset_take_left _ (Nat.le_of_lt hkk) hj
      · refine ⟨k, hi, ?_⟩
        rw [getElem?_meetAll, hi]
        refine congrArg some (meet_eq_fresh_iff.mpr fun j hj => ⟨?_, hahead j hj⟩)
        exact fun heq => hbefore (heq ▸ hj)

end Arrivals
