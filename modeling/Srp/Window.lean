import Srp.Mealy
import Srp.Replay

/-!
# Runs of a replay window

A `ReplayWindow` as a machine that is handed numbers to commit. Two sets go with a run. The window
represents the numbers whose commit returned `True`, which decides what `check` answers
(`window_represents_accepted`). And it retains the highest of all numbers committed and those within
its width of the highest (`ReplayWindow.Retains`), whatever their commits returned, which decides its
bitmap.
-/

namespace Srp

namespace ReplayWindow

variable {w w' : ReplayWindow} {S S' T : Finset ℤ} {seq x W : ℤ}

/-! ## One commit -/

/-- A commit keeps the size. -/
@[simp]
theorem size_commit (w : ReplayWindow) (seq : ℤ) : (w.commit seq).2.size = w.size := by
  unfold commit
  dsimp only
  split_ifs <;> rfl

/-- A negative number is refused. -/
theorem commit_of_neg (w : ReplayWindow) (hneg : seq < 0) : w.commit seq = (false, w) := by
  unfold commit
  rw [if_pos hneg]

/-- A commit keeps the bitmap within the width, where a width of zero counts for one. -/
theorem bitmap_commit_lt (h : w.bitmap < 2 ^ max w.size 1) (seq : ℤ) :
    (w.commit seq).2.bitmap < 2 ^ max w.size 1 := by
  have hone : 1 < 2 ^ max w.size 1 := Nat.one_lt_two_pow (by omega)
  unfold commit
  dsimp only
  split_ifs with hneg hahead hsome hjump hold hbit
  · exact h
  -- The window jumps, is shifted, and takes its first number.
  · exact hone
  · have hwidth : max w.size 1 = w.size := by omega
    show ((w.bitmap <<< _) ||| 1) &&& w.mask < _
    rw [w.mask_eq, hwidth]
    exact Bitmap.shift_lt _ _
  · exact hone
  · exact h
  · exact h
  · exact Bitmap.mark_lt h (by omega)

/-- The highest number after a commit is the larger of the two. -/
theorem highest_seq_commit (w : ReplayWindow) (h0 : 0 ≤ seq) :
    (w.commit seq).2.highest_seq = max seq w.highest_seq := by
  unfold commit
  rw [if_neg (not_lt.mpr h0)]
  rcases lt_or_ge w.highest_seq seq with hlt | hle
  · rw [if_pos (.inr hlt), max_eq_left hlt.le]
  · rw [if_neg (by omega), max_eq_right hle]
    dsimp only
    split_ifs <;> rfl

/-- No commit takes the highest number back. -/
theorem le_highest_seq_commit (w : ReplayWindow) (seq : ℤ) :
    w.highest_seq ≤ (w.commit seq).2.highest_seq := by
  rcases lt_or_ge seq 0 with hneg | h0
  · rw [w.commit_of_neg hneg]
  · rw [w.highest_seq_commit h0]
    exact le_max_right seq w.highest_seq

/-- No run of commits takes the highest number back. -/
theorem le_highest_seq_after (w : ReplayWindow) (seqs : List ℤ) :
    w.highest_seq ≤ (Mealy.after commit w seqs).highest_seq :=
  Mealy.after_invariant (P := fun v : ReplayWindow => w.highest_seq ≤ v.highest_seq)
    (fun v seq hv => hv.trans (v.le_highest_seq_commit seq)) le_rfl seqs

/-- No run of commits changes the size. -/
theorem size_after (w : ReplayWindow) (seqs : List ℤ) : (Mealy.after commit w seqs).size = w.size :=
  Mealy.after_invariant (P := fun v : ReplayWindow => v.size = w.size)
    (fun v seq hv => (v.size_commit seq).trans hv) rfl seqs

/-! ## What the answers say of the accepted numbers -/

/-- `seen` finds what `check` calls a duplicate. -/
theorem seen_iff (w : ReplayWindow) (x : ℤ) : w.seen x = true ↔ w.check x = .DUPLICATE := by
  unfold seen check
  dsimp only
  by_cases hneg : x < 0
  · simp [hneg]
  · by_cases hempty : w.highest_seq < 0
    · simp [hneg, hempty]
    · simp only [hneg, hempty, or_self, if_false]
      split_ifs <;> simp_all

namespace Represents

/-- Invalid are the negative numbers. -/
theorem invalid_iff (h : w.Represents S) (x : ℤ) : w.check x = .INVALID ↔ x < 0 := by
  rw [h.check_eq]
  split_ifs with hneg <;> simp [hneg]

/-- Too old are the numbers from zero out of the width of the highest. -/
theorem too_old_iff (h : w.Represents S) (x : ℤ) :
    w.check x = .TOO_OLD ↔ 0 ≤ x ∧ S.Nonempty ∧ (w.size : ℤ) ≤ w.highest_seq - x := by
  rw [h.check_eq]
  split_ifs with hneg hold hmem
  · simp [hneg]
  · -- The highest number is not below `x`, so there is one.
    have hsome : S.Nonempty := by
      rw [Finset.nonempty_iff_ne_empty, ne_eq, ← h.highest_neg_iff]
      omega
    exact iff_of_true rfl ⟨not_lt.mp hneg, hsome, hold.2⟩
  · have hnot : ¬(w.size : ℤ) ≤ w.highest_seq - x := by omega
    simp [hnot]
  · have hnot : ¬(w.size : ℤ) ≤ w.highest_seq - x := by omega
    simp [hnot]

/-- Duplicates are the accepted numbers within the width of the highest. -/
theorem duplicate_iff (h : w.Represents S) (x : ℤ) :
    w.check x = .DUPLICATE ↔ w.highest_seq - x < w.size ∧ x ∈ S := by
  rw [h.check_eq]
  split_ifs with hneg hold hmem
  · have hnot : x ∉ S := fun hmem => absurd (h.nonneg x hmem) (not_le.mpr hneg)
    simp [hnot]
  · have hnot : ¬w.highest_seq - x < w.size := by omega
    simp [hnot]
  · have hle := h.le_highest x hmem
    exact iff_of_true rfl ⟨by omega, hmem⟩
  · simp [hmem]

/-- Fresh are the numbers from zero that are neither. -/
theorem fresh_iff (h : w.Represents S) (x : ℤ) :
    w.check x = .FRESH ↔
      0 ≤ x ∧ ¬(S.Nonempty ∧ (w.size : ℤ) ≤ w.highest_seq - x) ∧
        ¬(w.highest_seq - x < w.size ∧ x ∈ S) := by
  have hinvalid := h.invalid_iff x
  have hold := h.too_old_iff x
  have hdup := h.duplicate_iff x
  cases hc : w.check x with
  | FRESH =>
    simp only [hc, reduceCtorEq, false_iff] at hinvalid hold hdup
    exact iff_of_true rfl ⟨not_lt.mp hinvalid, fun hno => hold ⟨not_lt.mp hinvalid, hno⟩, hdup⟩
  | DUPLICATE =>
    rw [hc, eq_self, true_iff] at hdup
    exact iff_of_false (by simp) fun hf => hf.2.2 hdup
  | TOO_OLD =>
    rw [hc, eq_self, true_iff] at hold
    exact iff_of_false (by simp) fun hf => hf.2.1 hold.2
  | INVALID =>
    rw [hc, eq_self, true_iff] at hinvalid
    exact iff_of_false (by simp) fun hf => absurd hf.1 (not_le.mpr hinvalid)

/-- Refused are the negative numbers, those out of the width of the highest, and the accepted ones. -/
theorem refused_iff (h : w.Represents S) (x : ℤ) :
    w.check x ≠ .FRESH ↔
      x < 0 ∨ x ≤ w.highest_seq ∧ (w.size : ℤ) ≤ w.highest_seq - x ∨ x ∈ S := by
  rw [h.check_eq]
  split_ifs with hneg hold hmem
  · simp [hneg]
  · simp [hold]
  · simp [hmem]
  · simp [hneg, hold, hmem]

/-- The bits of a snapshot are those of the accepted numbers within the width of the highest. -/
theorem testBit_snapshot (h : w.Represents S) (i : ℕ) :
    w.snapshot.bitmap.testBit i = true ↔ i < w.size ∧ w.highest_seq - i ∈ S := by
  unfold snapshot
  rw [w.mask_eq, Nat.testBit_and, Nat.one_shiftLeft, Nat.testBit_two_pow_sub_one, Bool.and_eq_true,
    decide_eq_true_eq, and_comm]
  exact and_congr_right fun hi => h.bits i hi

/-- The highest number is the largest of the set, or `-1`. -/
theorem highest_eq_max (h : w.Represents S) : w.highest_seq = S.max.unbotD (-1) := by
  rcases S.eq_empty_or_nonempty with rfl | hS
  · have hmem := h.highest.1
    rw [Finset.coe_empty, insert_empty_eq, Set.mem_singleton_iff] at hmem
    rw [hmem, Finset.max_empty, WithBot.unbotD_bot]
  · have hmax := (Finset.isGreatest_max' S hS).unique (h.isGreatest hS)
    rw [← hmax, ← Finset.coe_max' hS, WithBot.unbotD_coe]

/-- A window of the same size for a larger set refuses what the window refuses, and finds too old what
the window finds too old. -/
theorem check_mono (h : w.Represents S) (h' : w'.Represents S') (hsub : S ⊆ S')
    (hsize : w'.size = w.size) (x : ℤ) :
    (w.check x ≠ .FRESH → w'.check x ≠ .FRESH) ∧ (w.check x = .TOO_OLD → w'.check x = .TOO_OLD) := by
  have hle : w.highest_seq ≤ w'.highest_seq :=
    h'.highest.2 (Set.insert_subset_insert (Finset.coe_subset.mpr hsub) h.highest.1)
  rw [h.refused_iff, h'.refused_iff, h.too_old_iff, h'.too_old_iff, hsize]
  constructor
  · rintro (hneg | ⟨hx, hold⟩ | hmem)
    · exact .inl hneg
    · exact .inr (.inl ⟨hx.trans hle, by omega⟩)
    · exact .inr (.inr (hsub hmem))
  · rintro ⟨h0, hsome, hold⟩
    exact ⟨h0, hsome.mono hsub, by omega⟩

/-- One commit leads to a window for a larger set. -/
theorem exists_commit (h : w.Represents S) (seq : ℤ) :
    ∃ S', (w.commit seq).2.Represents S' ∧ S ⊆ S' := by
  rcases h.commit_cases seq with ⟨-, -, -, -, hrep, -⟩ | ⟨-, hc⟩
  · exact ⟨_, hrep, Finset.subset_insert seq S⟩
  · rw [hc]
    exact ⟨S, h, subset_rfl⟩

/-- A number is refused once it was handed to `commit`. -/
theorem check_commit_ne_fresh (h : w.Represents S) (seq : ℤ) :
    (w.commit seq).2.check seq ≠ .FRESH := by
  rcases h.commit_cases seq with ⟨-, -, -, -, hrep, -⟩ | ⟨hno, hc⟩
  · exact (hrep.refused_iff seq).mpr (.inr (.inr (Finset.mem_insert_self seq S)))
  · rw [hc]
    exact hno

end Represents

/-! ## Runs of commits -/

/-- The numbers of a run whose commit returned `True`, in order. -/
abbrev acceptedRun (w : ReplayWindow) (seqs : List ℤ) : List ℤ :=
  Mealy.keptInputs (fun _ changed => changed) commit w seqs

/-- After a run from a new window, the window represents the numbers whose commit returned `True`, and no
number is among them twice. -/
theorem represents_run (hnew : new W = .ok w) (seqs : List ℤ) :
    (Mealy.after commit w seqs).Represents (w.acceptedRun seqs).toFinset ∧
      (w.acceptedRun seqs).Nodup := by
  -- On the run: a number is accepted only if the set has not got it.
  induction seqs using List.reverseRecOn with
  | nil => exact ⟨(represents_new hnew).1, List.nodup_nil⟩
  | append_singleton seqs seq ih =>
    obtain ⟨hrep, hnodup⟩ := ih
    rw [acceptedRun, Mealy.keptInputs_append_singleton, Mealy.after_append, Mealy.after_cons,
      Mealy.after_nil]
    rcases hrep.commit_cases seq with ⟨-, -, hnot, hchanged, hrep', -⟩ | ⟨-, hc⟩
    · rw [hchanged, if_pos rfl, List.toFinset_append, Finset.union_comm]
      refine ⟨hrep', List.nodup_append.mpr ⟨hnodup, List.nodup_singleton seq, ?_⟩⟩
      rintro a ha b hb rfl
      obtain rfl := List.mem_singleton.mp hb
      exact hnot (List.mem_toFinset.mpr ha)
    · rw [hc]
      simpa using ⟨hrep, hnodup⟩

end ReplayWindow

/-- The sliding bitmap represents the set `S` of the numbers whose commit returned `True`. After every run
of commits of any integers on a new window, the highest number is the largest of `S` or `-1`, the count is
the size of `S`, no number was accepted twice, and `check`, `seen`, and `snapshot` answer by `S`. -/
theorem window_represents_accepted {W : ℤ} (hW : 0 ≤ W) :
    ∃ w₀, ReplayWindow.new W = .ok w₀ ∧ ∀ seqs : List ℤ,
      let w := Mealy.after ReplayWindow.commit w₀ seqs
      let S := (w₀.acceptedRun seqs).toFinset
      w.highest_seq = S.max.unbotD (-1) ∧ w.accepted = S.card ∧ (w₀.acceptedRun seqs).Nodup ∧
      (∀ x : ℤ,
        (w.check x = .INVALID ↔ x < 0) ∧
        (w.check x = .TOO_OLD ↔ 0 ≤ x ∧ S.Nonempty ∧ W ≤ w.highest_seq - x) ∧
        (w.check x = .DUPLICATE ↔ w.highest_seq - x < W ∧ x ∈ S) ∧
        (w.check x = .FRESH ↔ 0 ≤ x ∧ ¬(S.Nonempty ∧ W ≤ w.highest_seq - x) ∧
          ¬(w.highest_seq - x < W ∧ x ∈ S)) ∧
        (w.seen x = true ↔ w.check x = .DUPLICATE)) ∧
      ∀ i : ℕ, w.snapshot.bitmap.testBit i = true ↔ i < W ∧ w.highest_seq - i ∈ S := by
  have hnew : ReplayWindow.new W = .ok _ := if_neg (not_lt.mpr hW)
  refine ⟨_, hnew, fun seqs => ?_⟩
  intro w S
  obtain ⟨h, hnodup⟩ := ReplayWindow.represents_run hnew seqs
  have hsize : (w.size : ℤ) = W := by
    rw [ReplayWindow.size_after]
    exact (ReplayWindow.represents_new hnew).2
  refine ⟨h.highest_eq_max, h.accepted, hnodup, fun x => ?_, fun i => ?_⟩
  · rw [← hsize]
    exact ⟨h.invalid_iff x, h.too_old_iff x, h.duplicate_iff x, h.fresh_iff x, w.seen_iff x⟩
  · have hlt : (i : ℤ) < W ↔ i < w.size := by omega
    rw [hlt]
    exact h.testBit_snapshot i

/-- In a window of two numbers, the third commit finds the first number too old, and the fourth repeats the
second. -/
theorem window_represents_accepted_of_four :
    ∃ w₀, ReplayWindow.new 2 = .ok w₀ ∧
      (Mealy.after ReplayWindow.commit w₀ [5, 7, 4, 7]).highest_seq =
        (w₀.acceptedRun [5, 7, 4, 7]).toFinset.max.unbotD (-1) := by
  obtain ⟨w₀, hnew, h⟩ := window_represents_accepted (W := 2) (by decide)
  exact ⟨w₀, hnew, (h [5, 7, 4, 7]).1⟩

namespace ReplayWindow

variable {w w' : ReplayWindow} {T : Finset ℤ} {seq W : ℤ}

/-! ## What a window retains of all numbers committed -/

/-- A window retains of a set its largest number, or `-1`, and what is within the width of that, where a
width of zero counts for one. Nothing else is in its bitmap. -/
structure Retains (w : ReplayWindow) (T : Finset ℤ) : Prop where
  /-- Only numbers from zero are committed. -/
  nonneg : ∀ x ∈ T, 0 ≤ x
  /-- The highest number. -/
  highest : IsGreatest (insert (-1) (T : Set ℤ)) w.highest_seq
  /-- The bitmap. -/
  bits : Bitmap.Shows (max w.size 1) w.highest_seq T w.bitmap
  /-- No bit is out of the width. -/
  bound : w.bitmap < 2 ^ max w.size 1

/-- A new window retains the empty set. -/
theorem retains_new (hnew : new W = .ok w) : w.Retains ∅ := by
  unfold new at hnew
  split_ifs at hnew
  cases hnew
  exact ⟨by simp, by simp, fun i _ => by simp, Nat.two_pow_pos _⟩

/-- The highest number is in a set that has one. -/
theorem Retains.highest_mem (h : w.Retains T) (h0 : 0 ≤ w.highest_seq) : w.highest_seq ∈ T := by
  rcases h.highest.1 with he | hmem
  · omega
  · exact hmem

/-- A window without a highest number retains the empty set. -/
theorem Retains.eq_empty (h : w.Retains T) (hneg : w.highest_seq < 0) : T = ∅ := by
  refine Finset.eq_empty_of_forall_notMem fun x hx => ?_
  have hnonneg := h.nonneg x hx
  have hle := h.highest.2 (Set.mem_insert_of_mem _ (Finset.mem_coe.mpr hx))
  omega

/-- What a commit leaves in the bitmap, by the number committed. -/
theorem Retains.bits_commit (h : w.Retains T) (h0 : 0 ≤ seq) :
    Bitmap.Shows (max w.size 1) (w.commit seq).2.highest_seq (insert seq (T : Set ℤ))
      (w.commit seq).2.bitmap := by
  have hle : ∀ x ∈ (T : Set ℤ), x ≤ w.highest_seq := fun x hx => h.highest.2 (Set.mem_insert_of_mem _ hx)
  unfold ReplayWindow.commit
  rw [if_neg (not_lt.mpr h0)]
  rcases lt_or_ge w.highest_seq seq with hlt | hge
  · rw [if_pos (.inr hlt)]
    dsimp only
    split_ifs with hpos hjump
    -- A jump past the width, a shift within it, and the first number of a new window.
    · exact Bitmap.Shows.jump hle (by omega)
    · have hwidth : max w.size 1 = w.size := by omega
      rw [w.mask_eq, hwidth]
      exact (hwidth ▸ h.bits).shift hle hlt
    · rw [h.eq_empty (not_le.mp hpos), Finset.coe_empty, insert_empty_eq]
      exact Bitmap.shows_single
  · rw [if_neg (by omega)]
    dsimp only
    split_ifs with hold hbit
    -- Out of the width: nothing is recorded, and nothing of it would show.
    · rcases eq_or_lt_of_le hge with rfl | hlt
      · rw [Set.insert_eq_of_mem (Finset.mem_coe.mpr (h.highest_mem h0))]
        exact h.bits
      · exact h.bits.insert_behind (by omega)
    · have hmem : seq ∈ (T : Set ℤ) := by
        rw [Bitmap.and_shiftLeft_ne_zero, h.bits _ (by omega)] at hbit
        have hback : w.highest_seq - ((w.highest_seq - seq).toNat : ℤ) = seq := by omega
        rwa [hback] at hbit
      rw [Set.insert_eq_of_mem hmem]
      exact h.bits
    · exact h.bits.mark hge

/-- Committing a number from zero adds it to the set retained, whatever the commit returns. -/
theorem Retains.commit (h : w.Retains T) (h0 : 0 ≤ seq) : (w.commit seq).2.Retains (insert seq T) := by
  refine ⟨fun x hx => ?_, ?_, ?_, ?_⟩
  · rcases Finset.mem_insert.mp hx with rfl | hx
    · exact h0
    · exact h.nonneg x hx
  · rw [w.highest_seq_commit h0, Finset.coe_insert, Set.insert_comm]
    exact h.highest.insert seq
  · rw [size_commit, Finset.coe_insert]
    exact h.bits_commit h0
  · rw [size_commit]
    exact bitmap_commit_lt h.bound seq

/-- A window is determined, apart from its count, by its size and the set that it retains. -/
theorem Retains.unique (h : w.Retains T) (h' : w'.Retains T) (hsize : w.size = w'.size) :
    w.highest_seq = w'.highest_seq ∧ w.bitmap = w'.bitmap := by
  have hhighest : w.highest_seq = w'.highest_seq := h.highest.unique h'.highest
  have hbits := h'.bits
  have hbound := h'.bound
  rw [← hsize] at hbits hbound
  rw [← hhighest] at hbits
  exact ⟨hhighest, h.bits.unique hbits h.bound hbound⟩

end ReplayWindow

end Srp
