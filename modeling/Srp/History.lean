import Srp.Replay

/-!
# The replay state as a history

What the bounded replay state stands for: the set of all `(stream, number)` pairs accepted so far
(`History`). Whether a pair is `Replayed` or `Stale` is said in terms of that set alone. A guard that
represents a history answers by it (`ReplayGuard.Represents.check_cases`), and committing a pair that
it found fresh adds the pair to the history (`ReplayGuard.Represents.commit_fresh`).
-/

namespace Srp

/-- The pairs of a stream and a sequence number that were accepted. -/
abbrev History := Finset (StreamKey × ℤ)

namespace History

variable {A : History} {key key' : StreamKey} {seq M W max : ℤ}

/-- The numbers accepted on a stream. -/
def numbers (A : History) (key : StreamKey) : Finset ℤ := (A.filter (·.1 = key)).image Prod.snd

/-- The streams on which a record was accepted. -/
def streams (A : History) : Finset StreamKey := A.image Prod.fst

/-- The pair was accepted, and is within the window of the largest number of its stream. -/
def Replayed (A : History) (W : ℤ) (key : StreamKey) (seq : ℤ) : Prop :=
  ∃ M, IsGreatest (A.numbers key : Set ℤ) M ∧ M - seq < W ∧ (key, seq) ∈ A

/-- The number is out of the window of the largest number of its stream, or it would begin a stream
past the cap. -/
def Stale (A : History) (W max : ℤ) (key : StreamKey) (seq : ℤ) : Prop :=
  (∃ M, IsGreatest (A.numbers key : Set ℤ) M ∧ seq ≤ M ∧ W ≤ M - seq) ∨
    A.numbers key = ∅ ∧ max ≤ A.streams.card

@[simp]
theorem mem_numbers : seq ∈ A.numbers key ↔ (key, seq) ∈ A := by
  simp [numbers]

/-- A stream has an accepted record if it has an accepted number. -/
theorem mem_streams : key ∈ A.streams ↔ (A.numbers key).Nonempty := by
  simp [streams, Finset.Nonempty]

/-- The numbers of a stream grow by those accepted on it. -/
theorem numbers_insert : numbers (insert (key, seq) A) key = insert seq (A.numbers key) := by
  ext x
  simp

/-- The numbers of another stream stay. -/
theorem numbers_insert_of_ne (h : key' ≠ key) :
    numbers (insert (key, seq) A) key' = A.numbers key' := by
  ext x
  simp [h]

/-- The streams grow by the one that a record was accepted on. -/
@[simp]
theorem streams_insert : streams (insert (key, seq) A) = insert key A.streams := by
  simp [streams, Finset.image_insert]

/-- On a stream with a largest number, a pair is replayed if it was accepted and is within its
window. -/
theorem replayed_iff (hM : IsGreatest (A.numbers key : Set ℤ) M) :
    A.Replayed W key seq ↔ M - seq < W ∧ (key, seq) ∈ A :=
  ⟨fun ⟨_, hM', h⟩ => hM.unique hM' ▸ h, fun h => ⟨M, hM, h⟩⟩

/-- On a stream with a largest number, a number is stale if it is out of its window. -/
theorem stale_iff (hM : IsGreatest (A.numbers key : Set ℤ) M) :
    A.Stale W max key seq ↔ seq ≤ M ∧ W ≤ M - seq := by
  constructor
  · rintro (⟨_, hM', h⟩ | ⟨hnone, -⟩)
    · exact hM.unique hM' ▸ h
    · have hmem := hM.1
      simp [hnone] at hmem
  · exact fun h => .inl ⟨M, hM, h⟩

/-- On a stream without a number, nothing is replayed. -/
theorem not_replayed (hnone : A.numbers key = ∅) : ¬A.Replayed W key seq := by
  rintro ⟨M, hM, -, -⟩
  have hmem := hM.1
  simp [hnone] at hmem

/-- On a stream without a number, every number is stale if there is no room for the stream. -/
theorem stale_iff_of_empty (hnone : A.numbers key = ∅) :
    A.Stale W max key seq ↔ max ≤ A.streams.card := by
  constructor
  · rintro (⟨M, hM, -⟩ | ⟨-, h⟩)
    · have hmem := hM.1
      simp [hnone] at hmem
    · exact h
  · exact fun h => .inr ⟨hnone, h⟩

end History

/-! ## What a guard stands for -/

namespace ReplayGuard

/-- A guard tracks the streams of a history, with windows of the guard's size, and the window of each stream
is in a relation to the numbers of the stream. -/
structure Tracks (R : ReplayWindow → Finset ℤ → Prop) (g : ReplayGuard) (A : History) : Prop where
  /-- The window of a tracked stream. -/
  window : ∀ {key w}, g.streams.lookup key = some w →
    R w (A.numbers key) ∧ (w.size : ℤ) = g.window_size
  /-- The tracked streams. -/
  tracked : ∀ {key}, key ∈ g.streams ↔ key ∈ A.streams

/-- A guard stands for a history: it tracks the streams of the history, and the window of each
stands for the numbers accepted on it. -/
abbrev Represents (g : ReplayGuard) (A : History) : Prop := g.Tracks ReplayWindow.Represents A

variable {R : ReplayWindow → Finset ℤ → Prop} {g : ReplayGuard} {A : History} {key : StreamKey}
  {seq : ℤ}

/-- A new guard tracks no stream, in whatever relation. -/
theorem tracks_new (window_size max_streams : ℤ) : (new window_size max_streams).Tracks R ∅ := by
  refine ⟨fun {key w} h => ?_, fun {key} => ?_⟩
  · simp [new] at h
  · simp [new, History.streams, Finmap.notMem_empty]

namespace Tracks

/-- The tracked streams are those of the history. -/
theorem keys_eq (h : g.Tracks R A) : g.streams.keys = A.streams := by
  ext key
  rw [Finmap.mem_keys, h.tracked]

/-- The number of tracked streams is that of the history. -/
theorem trackedStreams_eq (h : g.Tracks R A) : g.trackedStreams = A.streams.card := by
  rw [trackedStreams, h.keys_eq]

/-- A stream without a window has no number. -/
theorem numbers_eq_empty (h : g.Tracks R A) (hl : g.streams.lookup key = none) :
    A.numbers key = ∅ := by
  rw [Finmap.lookup_eq_none, h.tracked, History.mem_streams] at hl
  exact Finset.not_nonempty_iff_eq_empty.mp hl

/-- Writing a window in the relation to the numbers of its stream with one more adds that one to the
history. -/
theorem insert_window (h : g.Tracks R A) {w : ReplayWindow} (hw : R w (insert seq (A.numbers key)))
    (hsize : (w.size : ℤ) = g.window_size) :
    Tracks R { g with streams := g.streams.insert key w } (insert (key, seq) A) := by
  refine ⟨fun {key' w'} hl => ?_, fun {key'} => ?_⟩
  · rcases eq_or_ne key' key with rfl | hne
    · rw [Finmap.lookup_insert, Option.some.injEq] at hl
      subst hl
      rw [History.numbers_insert]
      exact ⟨hw, hsize⟩
    · rw [Finmap.lookup_insert_of_ne _ hne] at hl
      rw [History.numbers_insert_of_ne hne]
      exact h.window hl
  · rw [Finmap.mem_insert, History.streams_insert, Finset.mem_insert, h.tracked]

end Tracks

/-- The highest number of a stream's window is the largest accepted on it. -/
theorem Represents.isGreatest (h : g.Represents A) {w : ReplayWindow}
    (hl : g.streams.lookup key = some w) :
    IsGreatest (A.numbers key : Set ℤ) w.highest_seq := by
  have hmem : key ∈ g.streams := Finmap.mem_iff.mpr ⟨w, hl⟩
  exact (h.window hl).1.isGreatest (History.mem_streams.mp (h.tracked.mp hmem))

/-- What `check` answers for a number from zero, in terms of the history. -/
theorem Represents.check_cases (h : g.Represents A) (key : StreamKey) (h0 : 0 ≤ seq) :
    (A.Replayed g.window_size key seq ∧ g.check key seq = .DUPLICATE) ∨
    (¬A.Replayed g.window_size key seq ∧ A.Stale g.window_size g.max_streams key seq ∧
      (g.check key seq = .TOO_OLD ∨ g.check key seq = .INVALID)) ∨
    (¬A.Replayed g.window_size key seq ∧ ¬A.Stale g.window_size g.max_streams key seq ∧
      g.check key seq = .FRESH) := by
  unfold check
  cases hl : g.streams.lookup key with
  -- An unknown stream: only the cap counts.
  | none =>
    have hnone := h.numbers_eq_empty hl
    dsimp only
    rw [h.trackedStreams_eq, History.stale_iff_of_empty hnone]
    simp only [History.not_replayed hnone, not_lt.mpr h0, if_false, false_and, not_false_eq_true,
      true_and, false_or, ge_iff_le]
    split_ifs with hcap <;> simp [hcap]
  -- A tracked stream: its window answers, and its highest number is the largest of the stream.
  | some w =>
    obtain ⟨hw, hsize⟩ := h.window hl
    have hM := h.isGreatest hl
    dsimp only
    rw [hw.check_eq, if_neg (not_lt.mpr h0), hsize, History.replayed_iff hM, History.stale_iff hM]
    simp only [History.mem_numbers]
    split_ifs with hold hmem
    · exact .inr (.inl ⟨by omega, hold, .inl rfl⟩)
    · have hle : seq ≤ w.highest_seq := hM.2 (Finset.mem_coe.mpr (History.mem_numbers.mpr hmem))
      exact .inl ⟨⟨by omega, hmem⟩, rfl⟩
    · exact .inr (.inr ⟨fun hr => hmem hr.2, hold, rfl⟩)

/-- A window size from zero builds a window. -/
theorem exists_new_window (hW : 0 ≤ g.window_size) :
    ∃ w, ReplayWindow.new g.window_size = .ok w :=
  ⟨_, if_neg (not_lt.mpr hW)⟩

/-- With a window size from zero, no commit raises. -/
theorem commit_ne_error (hW : 0 ≤ g.window_size) (key : StreamKey) (seq : ℤ) (e : Error) :
    (g.commit key seq).1 ≠ .error e := by
  intro hc
  obtain ⟨w, hnew⟩ := exists_new_window hW
  rw [(commit_error (Prod.ext hc rfl)).2.1] at hnew
  cases hnew

/-- Committing a number that `check` finds fresh adds it to the history, unless the window of a new
stream cannot be built. -/
theorem Represents.commit_fresh (h : g.Represents A) (h0 : 0 ≤ seq)
    (hfresh : g.check key seq = .FRESH) {changed : Bool}
    (hc : (g.commit key seq).1 = .ok changed) :
    changed = true ∧ (key, seq) ∉ A ∧ (g.commit key seq).2.Represents (insert (key, seq) A) := by
  unfold check at hfresh
  unfold commit at hc ⊢
  cases hl : g.streams.lookup key with
  | none =>
    have hnone := h.numbers_eq_empty hl
    have hnot : (key, seq) ∉ A := by rw [← History.mem_numbers, hnone]; simp
    have hroom : ¬(g.trackedStreams : ℤ) ≥ g.max_streams := by
      intro hcap
      simp [hl, hcap] at hfresh
    simp only [hl, if_neg hroom] at hc ⊢
    cases hnew : ReplayWindow.new g.window_size with
    | error e => simp [hnew] at hc
    | ok w =>
      obtain ⟨hw, hsize⟩ := ReplayWindow.represents_new hnew
      -- Every number from zero is ahead of a new window.
      have hahead : w.highest_seq < seq := by
        have hneg := hw.highest_neg_iff.mpr rfl
        omega
      obtain ⟨hchanged, hw', hsize'⟩ := hw.commit_ahead h0 hahead
      rw [← hnone] at hw'
      simp only [hnew, Except.ok.injEq] at hc
      exact ⟨hc ▸ hchanged, hnot, h.insert_window hw' (hsize' ▸ hsize)⟩
  | some w =>
    obtain ⟨hw, hsize⟩ := h.window hl
    simp only [hl] at hfresh hc ⊢
    rcases hw.commit_cases seq with ⟨-, -, hnot, hchanged, hw', hsize'⟩ | ⟨hno, -⟩
    · rw [History.mem_numbers] at hnot
      exact ⟨(Except.ok.inj hc) ▸ hchanged, hnot, h.insert_window hw' (hsize' ▸ hsize)⟩
    · exact absurd hfresh hno

/-- A commit keeps the configuration of the guard. -/
theorem commit_config (g : ReplayGuard) (key : StreamKey) (seq : ℤ) :
    (g.commit key seq).2.window_size = g.window_size ∧
      (g.commit key seq).2.max_streams = g.max_streams := by
  unfold commit
  split
  · split_ifs
    · exact ⟨rfl, rfl⟩
    · split <;> exact ⟨rfl, rfl⟩
  · exact ⟨rfl, rfl⟩

end ReplayGuard

end Srp
