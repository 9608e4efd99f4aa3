import Mathlib.Algebra.BigOperators.Group.Finset.Basic
import Mathlib.Data.Finmap

/-!
# Totals over finite maps

The total of a quantity over the values of a finite map, and what one insertion does to it.
-/

namespace Finmap

variable {α β : Type*} [DecidableEq α] {f : β → ℕ}

/-- The quantity at a key, zero where there is no value. -/
def amount (f : β → ℕ) (m : Finmap fun _ : α => β) (a : α) : ℕ := ((m.lookup a).map f).getD 0

/-- The total over all keys. -/
def total (f : β → ℕ) (m : Finmap fun _ : α => β) : ℕ := ∑ a ∈ m.keys, amount f m a

variable (m : Finmap fun _ : α => β) (a : α) (b : β)

@[simp]
theorem amount_insert : amount f (m.insert a b) a = f b := by
  unfold amount
  rw [lookup_insert]
  rfl

theorem amount_insert_of_ne {a' : α} (h : a' ≠ a) : amount f (m.insert a b) a' = amount f m a' := by
  unfold amount
  rw [lookup_insert_of_ne _ h]

/-- The amount at a key without a value is zero. -/
theorem amount_eq_zero {m : Finmap fun _ : α => β} {a : α} (h : a ∉ m.keys) : amount f m a = 0 := by
  unfold amount
  rw [lookup_eq_none.mpr (mt mem_keys.mpr h)]
  rfl

/-- The total is the amount at one key and those at the others. -/
theorem total_eq_add_erase : total f m = amount f m a + ∑ a' ∈ m.keys.erase a, amount f m a' := by
  unfold total
  by_cases h : a ∈ m.keys
  · exact (Finset.add_sum_erase _ _ h).symm
  · rw [amount_eq_zero h, zero_add, Finset.erase_eq_of_notMem h]

/-- An insertion replaces the amount at its key. -/
theorem total_insert : total f (m.insert a b) + amount f m a = total f m + f b := by
  have hkeys : (m.insert a b).keys.erase a = m.keys.erase a := by
    ext a'
    simp only [Finset.mem_erase, mem_keys, mem_insert]
    tauto
  have hothers : ∑ a' ∈ m.keys.erase a, amount f (m.insert a b) a' =
      ∑ a' ∈ m.keys.erase a, amount f m a' :=
    Finset.sum_congr rfl fun a' ha' => amount_insert_of_ne m a b (Finset.ne_of_mem_erase ha')
  have hafter := total_eq_add_erase (f := f) (m.insert a b) a
  have hbefore := total_eq_add_erase (f := f) m a
  rw [amount_insert, hkeys, hothers] at hafter
  omega

end Finmap
