import Srp.Errors
import Srp.Bitmap
import Mathlib.Data.Finmap
import Mathlib.Data.Finset.Image
import Mathlib.Data.Finset.Max

/-!
# Replay windows

`srp/replay.py`: a `ReplayWindow` is the sliding bitmap of one stream, and a `ReplayGuard` keeps one
window for each stream, up to a cap. `ReplayWindow.Represents` says which set of numbers a window
stands for, and `ReplayWindow.commit_cases` that `commit` adds a number to that set exactly when
`check` finds it fresh, and otherwise changes nothing.
-/

namespace Srp

/-- The session that a stream belongs to and its stream id. -/
abbrev StreamKey := Bytes × ℤ

/-- Result of consulting the replay state. -/
inductive ReplayVerdict
  /-- Not seen before; may proceed to authentication. -/
  | FRESH
  /-- Already accepted on this stream. -/
  | DUPLICATE
  /-- Too old to classify. -/
  | TOO_OLD
  /-- Outside the representable range, or on an unknown stream at the cap. -/
  | INVALID
  deriving DecidableEq, Repr

/-- Immutable view of replay state. -/
structure WindowSnapshot where
  highest_seq : ℤ
  window_size : ℕ
  accepted : ℕ
  bitmap : ℕ
  deriving DecidableEq, Repr

/-- Replay history of one stream: bit `i` of the bitmap records `highest_seq - i`. -/
structure ReplayWindow where
  size : ℕ
  highest_seq : ℤ
  bitmap : ℕ
  accepted : ℕ
  mask : ℕ
  /-- The constructor's mask. -/
  mask_eq : mask = (1 <<< size) - 1

namespace ReplayWindow

/-- The constructor. A negative size fails in the shift that builds the mask. -/
def new (size : ℤ) : Except Error ReplayWindow :=
  if size < 0 then .error (.valueError "negative shift count")
  else .ok
    { size := size.toNat, highest_seq := -1, bitmap := 0, accepted := 0
      mask := (1 <<< size.toNat) - 1, mask_eq := rfl }

/-- Classify `seq` without modifying any state. -/
def check (w : ReplayWindow) (seq : ℤ) : ReplayVerdict :=
  if seq < 0 then .INVALID
  else if w.highest_seq < 0 then .FRESH
  else if seq > w.highest_seq then .FRESH
  else
    let diff := (w.highest_seq - seq).toNat
    if diff ≥ w.size then .TOO_OLD
    else if w.bitmap &&& (1 <<< diff) ≠ 0 then .DUPLICATE
    else .FRESH

/-- Record `seq` as accepted, and say whether the state changed. -/
def commit (w : ReplayWindow) (seq : ℤ) : Bool × ReplayWindow :=
  if seq < 0 then (false, w)
  else if w.highest_seq < 0 ∨ seq > w.highest_seq then
    -- Advance the window.
    let bitmap :=
      if w.highest_seq ≥ 0 then
        let shift := (seq - w.highest_seq).toNat
        if shift ≥ w.size then 1 else ((w.bitmap <<< shift) ||| 1) &&& w.mask
      else 1
    (true, { w with highest_seq := seq, bitmap, accepted := w.accepted + 1 })
  else
    let diff := (w.highest_seq - seq).toNat
    if diff ≥ w.size then (false, w)
    else
      let bit := 1 <<< diff
      if w.bitmap &&& bit ≠ 0 then (false, w)
      else (true, { w with bitmap := w.bitmap ||| bit, accepted := w.accepted + 1 })

/-- `seen`: whether `seq` is recorded as accepted. -/
def seen (w : ReplayWindow) (seq : ℤ) : Bool :=
  if w.highest_seq < 0 ∨ seq < 0 then false
  else if seq > w.highest_seq then false
  else
    let diff := (w.highest_seq - seq).toNat
    if diff ≥ w.size then false
    else w.bitmap &&& (1 <<< diff) ≠ 0

/-- `snapshot`. -/
def snapshot (w : ReplayWindow) : WindowSnapshot :=
  { highest_seq := w.highest_seq, window_size := w.size, accepted := w.accepted
    bitmap := w.bitmap &&& w.mask }

end ReplayWindow

/-- One window for each stream that a record was committed on. -/
structure ReplayGuard where
  window_size : ℤ
  max_streams : ℤ
  streams : Finmap fun _ : StreamKey => ReplayWindow

namespace ReplayGuard

/-- The constructor. -/
def new (window_size max_streams : ℤ) : ReplayGuard :=
  { window_size, max_streams, streams := ∅ }

/-- `tracked_streams`. -/
def trackedStreams (g : ReplayGuard) : ℕ := g.streams.keys.card

/-- `window_for`. -/
def windowFor (g : ReplayGuard) (key : StreamKey) : Option ReplayWindow := g.streams.lookup key

/-- Pre-authentication query. An unknown stream is fresh while there is room for it. -/
def check (g : ReplayGuard) (key : StreamKey) (seq : ℤ) : ReplayVerdict :=
  match g.streams.lookup key with
  | none =>
    if g.trackedStreams ≥ g.max_streams then .INVALID
    else if seq < 0 then .INVALID
    else .FRESH
  | some window => window.check seq

/-- Post-authentication update. It creates the stream where there is room. -/
def commit (g : ReplayGuard) (key : StreamKey) (seq : ℤ) : Except Error Bool × ReplayGuard :=
  match g.streams.lookup key with
  | none =>
    if g.trackedStreams ≥ g.max_streams then (.ok false, g)
    else match ReplayWindow.new g.window_size with
      | .error e => (.error e, g)
      | .ok window =>
        let (changed, window) := window.commit seq
        (.ok changed, { g with streams := g.streams.insert key window })
  | some window =>
    let (changed, window) := window.commit seq
    (.ok changed, { g with streams := g.streams.insert key window })

end ReplayGuard

/-- A commit raises only where the window of a new stream, for which there is room, cannot be built, and
changes nothing then. -/
theorem ReplayGuard.commit_error {g g' : ReplayGuard} {key : StreamKey} {seq : ℤ} {e : Error}
    (h : g.commit key seq = (.error e, g')) :
    g' = g ∧ ReplayWindow.new g.window_size = .error e ∧ (g.trackedStreams : ℤ) < g.max_streams := by
  unfold commit at h
  split at h
  · split_ifs at h with hcap
    · cases h
    · split at h
      · rename_i hw
        cases h
        exact ⟨rfl, hw, not_le.mp hcap⟩
      · cases h
  · cases h

/-! ## What a window stands for -/

namespace ReplayWindow

/-- A window stands for a set of numbers: its highest number is the largest of the set, or `-1`, and
its bitmap shows the set as far as its size reaches. -/
structure Represents (w : ReplayWindow) (S : Finset ℤ) : Prop where
  /-- Only numbers from zero are recorded. -/
  nonneg : ∀ x ∈ S, 0 ≤ x
  /-- The highest number. -/
  highest : IsGreatest (insert (-1) (S : Set ℤ)) w.highest_seq
  /-- The bitmap. -/
  bits : Bitmap.Shows w.size w.highest_seq S w.bitmap
  /-- The count. -/
  accepted : w.accepted = S.card

variable {w : ReplayWindow} {S : Finset ℤ} {seq : ℤ}

/-- A new window stands for the empty set. -/
theorem represents_new {size : ℤ} (e : new size = .ok w) :
    w.Represents ∅ ∧ (w.size : ℤ) = size := by
  unfold new at e
  split_ifs at e with h
  cases e
  refine ⟨⟨by simp, by simp, fun i _ => by simp, rfl⟩, ?_⟩
  exact Int.toNat_of_nonneg (not_lt.mp h)

/-- No number of the set is above the highest. -/
theorem Represents.le_highest (h : w.Represents S) : ∀ x ∈ S, x ≤ w.highest_seq :=
  fun _ hx => h.highest.2 (Set.mem_insert_of_mem _ hx)

/-- The highest number is `-1` only for the empty set. -/
theorem Represents.highest_neg_iff (h : w.Represents S) : w.highest_seq < 0 ↔ S = ∅ := by
  constructor
  · intro hneg
    refine Finset.eq_empty_of_forall_notMem fun x hx => ?_
    have hnonneg := h.nonneg x hx
    have hle := h.le_highest x hx
    omega
  · rintro rfl
    have hmem := h.highest.1
    rw [Finset.coe_empty, insert_empty_eq, Set.mem_singleton_iff] at hmem
    omega

/-- The highest number is the largest of a set that has one. -/
theorem Represents.isGreatest (h : w.Represents S) (hS : S.Nonempty) :
    IsGreatest (S : Set ℤ) w.highest_seq := by
  refine ⟨?_, fun x hx => h.le_highest x hx⟩
  rcases h.highest.1 with he | hmem
  -- At `-1` the set would be empty.
  · have hempty : S = ∅ := h.highest_neg_iff.mp (by omega)
    exact absurd hempty hS.ne_empty
  · exact hmem

/-- The bit that `check`, `seen`, and `commit` look at says whether the number is in the set. -/
theorem Represents.bit_iff (h : w.Represents S) (hle : seq ≤ w.highest_seq)
    (hW : (w.highest_seq - seq).toNat < w.size) :
    w.bitmap &&& (1 <<< (w.highest_seq - seq).toNat) ≠ 0 ↔ seq ∈ S := by
  rw [Bitmap.and_shiftLeft_ne_zero, h.bits _ hW,
    show w.highest_seq - ((w.highest_seq - seq).toNat : ℤ) = seq by omega, Finset.mem_coe]

/-- What `check` answers, in terms of the set. -/
theorem Represents.check_eq (h : w.Represents S) (seq : ℤ) :
    w.check seq =
      if seq < 0 then .INVALID
      else if seq ≤ w.highest_seq ∧ (w.size : ℤ) ≤ w.highest_seq - seq then .TOO_OLD
      else if seq ∈ S then .DUPLICATE
      else .FRESH := by
  unfold check
  by_cases hneg : seq < 0
  · simp [hneg]
  · rcases lt_or_ge w.highest_seq seq with hlt | hle
    · -- Ahead of the window, which covers the empty window too.
      have hnot : seq ∉ S := fun hmem => absurd (h.le_highest seq hmem) (not_le.mpr hlt)
      simp [hneg, hlt, hnot, not_le.mpr hlt]
    · have hpos : ¬w.highest_seq < 0 := by omega
      have hiff : (w.highest_seq - seq).toNat ≥ w.size ↔ (w.size : ℤ) ≤ w.highest_seq - seq := by
        omega
      simp only [hneg, hpos, not_lt.mpr hle, if_false, hiff, hle, true_and]
      split_ifs with h1 h2 h3
      · rfl
      · rfl
      · exact absurd ((h.bit_iff hle (by omega)).mp h2) h3
      · rename_i hmem
        exact absurd ((h.bit_iff hle (by omega)).mpr hmem) h2
      · rfl

/-- Committing a number ahead of the window moves the window up to it. -/
theorem Represents.commit_ahead (h : w.Represents S) (h0 : 0 ≤ seq) (hlt : w.highest_seq < seq) :
    (w.commit seq).1 = true ∧ (w.commit seq).2.Represents (insert seq S) ∧
      (w.commit seq).2.size = w.size := by
  have hnot : seq ∉ S := fun hmem => absurd (h.le_highest seq hmem) (not_le.mpr hlt)
  have hgreatest : IsGreatest (insert (-1) (↑(insert seq S) : Set ℤ)) seq := by
    refine ⟨by simp, ?_⟩
    rintro x (rfl | hx)
    · omega
    · rcases Finset.mem_insert.mp hx with rfl | hx
      · exact le_refl _
      · exact (h.le_highest x hx).trans hlt.le
  rw [commit, if_neg (not_lt.mpr h0), if_pos (.inr hlt)]
  refine ⟨rfl, ⟨?_, hgreatest, ?_, ?_⟩, rfl⟩
  · intro x hx
    rcases Finset.mem_insert.mp hx with rfl | hx
    · exact h0
    · exact h.nonneg x hx
  · rw [Finset.coe_insert]
    dsimp only
    split_ifs with hpos hjump
    -- A jump past the width, a shift within it, and the first number of a new window.
    · exact Bitmap.Shows.jump h.le_highest (by omega)
    · rw [w.mask_eq]
      exact h.bits.shift h.le_highest hlt
    · rw [h.highest_neg_iff.mp (not_le.mp hpos), Finset.coe_empty, insert_empty_eq]
      exact Bitmap.shows_single
  · rw [Finset.card_insert_of_notMem hnot, h.accepted]

/-- Committing a missing number within the window fills it in. -/
theorem Represents.commit_late (h : w.Represents S) (h0 : 0 ≤ seq) (hle : seq ≤ w.highest_seq)
    (hW : w.highest_seq - seq < w.size) (hnot : seq ∉ S) :
    (w.commit seq).1 = true ∧ (w.commit seq).2.Represents (insert seq S) ∧
      (w.commit seq).2.size = w.size := by
  have hbit : ¬w.bitmap &&& (1 <<< (w.highest_seq - seq).toNat) ≠ 0 :=
    fun hne => hnot ((h.bit_iff hle (by omega)).mp hne)
  have hgreatest : IsGreatest (insert (-1) (↑(insert seq S) : Set ℤ)) w.highest_seq := by
    rw [Finset.coe_insert, Set.insert_comm]
    refine ⟨Set.mem_insert_of_mem _ h.highest.1, ?_⟩
    rintro x (rfl | hx)
    · exact hle
    · exact h.highest.2 hx
  rw [commit, if_neg (not_lt.mpr h0), if_neg (by omega)]
  dsimp only
  rw [if_neg (by omega), if_neg hbit]
  refine ⟨rfl, ⟨?_, hgreatest, ?_, ?_⟩, rfl⟩
  · intro x hx
    rcases Finset.mem_insert.mp hx with rfl | hx
    · exact h0
    · exact h.nonneg x hx
  · rw [Finset.coe_insert]
    exact h.bits.mark hle
  · rw [Finset.card_insert_of_notMem hnot, h.accepted]

/-- Committing any other number changes nothing. -/
theorem Represents.commit_refused (h : w.Represents S)
    (hno : seq < 0 ∨ seq ≤ w.highest_seq ∧ (w.size ≤ w.highest_seq - seq ∨ seq ∈ S)) :
    w.commit seq = (false, w) := by
  unfold commit
  by_cases h0 : seq < 0
  · rw [if_pos h0]
  · obtain ⟨hle, hold⟩ := hno.resolve_left h0
    rw [if_neg h0, if_neg (by omega)]
    dsimp only
    by_cases hW : (w.highest_seq - seq).toNat ≥ w.size
    · rw [if_pos hW]
    · have hmem : seq ∈ S := hold.resolve_left (by omega)
      rw [if_neg hW, if_pos ((h.bit_iff hle (by omega)).mpr hmem)]

/-- What one commit can do: a number that `check` finds fresh is added to the set, and any other
changes nothing. -/
theorem Represents.commit_cases (h : w.Represents S) (seq : ℤ) :
    (w.check seq = .FRESH ∧ 0 ≤ seq ∧ seq ∉ S ∧ (w.commit seq).1 = true ∧
      (w.commit seq).2.Represents (insert seq S) ∧ (w.commit seq).2.size = w.size) ∨
    (w.check seq ≠ .FRESH ∧ w.commit seq = (false, w)) := by
  rw [h.check_eq]
  -- The answers of `check` in its order: invalid, too old, duplicate, and fresh.
  split_ifs with h0 hold hmem
  · exact .inr ⟨by simp, h.commit_refused (.inl h0)⟩
  · exact .inr ⟨by simp, h.commit_refused (.inr ⟨hold.1, .inl hold.2⟩)⟩
  · exact .inr ⟨by simp, h.commit_refused (.inr ⟨h.le_highest seq hmem, .inr hmem⟩)⟩
  · refine .inl ⟨rfl, not_lt.mp h0, hmem, ?_⟩
    rcases lt_or_ge w.highest_seq seq with hlt | hle
    · exact h.commit_ahead (not_lt.mp h0) hlt
    · have hin : w.highest_seq - seq < w.size := by omega
      exact h.commit_late (not_lt.mp h0) hle hin hmem

end ReplayWindow

end Srp
