import Srp.History
import Srp.Window

/-!
# Runs of a replay guard

A `ReplayGuard` as a machine that is handed pairs of a stream and a number to commit, any integers among
them. `ReplayGuard.Outcome` lists what one commit can do, and what `check` would have answered. From it
follow what holds over all runs: what is refused stays refused (`replay_rejection_is_permanent`), the
order of the commits does not matter (`replay_state_is_order_independent`), and exactly when a commit
that returns `False` changes nothing (`unchanged_iff_of_commit`).
-/

namespace Srp

namespace ReplayGuard

/-- A guard as a machine: it is handed a pair to commit. -/
def step (g : ReplayGuard) (p : StreamKey × ℤ) : Except Error Bool × ReplayGuard := g.commit p.1 p.2

/-- A guard with the window of a stream written. -/
def write (g : ReplayGuard) (key : StreamKey) (w : ReplayWindow) : ReplayGuard :=
  { g with streams := g.streams.insert key w }

variable {g g' : ReplayGuard} {w : ReplayWindow} {key key' : StreamKey} {seq x : ℤ} {changed : Bool}

@[simp]
theorem max_streams_write : (g.write key w).max_streams = g.max_streams := rfl

@[simp]
theorem windowFor_write : (g.write key w).windowFor key = some w := Finmap.lookup_insert _

theorem windowFor_write_of_ne (h : key' ≠ key) :
    (g.write key w).windowFor key' = g.windowFor key' := Finmap.lookup_insert_of_ne _ h

/-- Writing the window that a stream has changes nothing. -/
theorem write_self (h : g.windowFor key = some w) : g.write key w = g := by
  have hstreams : g.streams.insert key w = g.streams := by
    refine Finmap.ext_lookup fun key' => ?_
    rcases eq_or_ne key' key with rfl | hne
    · rw [Finmap.lookup_insert]
      exact h.symm
    · rw [Finmap.lookup_insert_of_ne _ hne]
  unfold write
  rw [hstreams]

/-- Writing a window tracks its stream. -/
theorem keys_write : (g.write key w).streams.keys = insert key g.streams.keys := by
  ext key'
  rw [Finset.mem_insert, Finmap.mem_keys, Finmap.mem_keys]
  exact Finmap.mem_insert

/-- Writing a window untracks no stream. -/
theorem trackedStreams_le_write : g.trackedStreams ≤ (g.write key w).trackedStreams := by
  unfold trackedStreams
  rw [keys_write]
  exact Finset.card_le_card (Finset.subset_insert key _)

/-- Writing the window of a tracked stream tracks no other. -/
theorem trackedStreams_write_of_some {v : ReplayWindow} (h : g.windowFor key = some v) :
    (g.write key w).trackedStreams = g.trackedStreams := by
  have hmem : key ∈ g.streams.keys := Finmap.mem_keys.mpr (Finmap.mem_of_lookup_eq_some h)
  unfold trackedStreams
  rw [keys_write, Finset.insert_eq_of_mem hmem]

/-- Writing the window of an untracked stream tracks one more. -/
theorem trackedStreams_write_of_none (h : g.windowFor key = none) :
    (g.write key w).trackedStreams = g.trackedStreams + 1 := by
  have hnot : key ∉ g.streams.keys := mt Finmap.mem_keys.mp (Finmap.lookup_eq_none.mp h)
  unfold trackedStreams
  rw [keys_write, Finset.card_insert_of_notMem hnot]

/-! ## What `check` answers -/

/-- For a tracked stream its window answers. -/
theorem check_of_some (h : g.windowFor key = some w) (x : ℤ) : g.check key x = w.check x := by
  unfold windowFor at h
  unfold check
  rw [h]

/-- For an untracked stream the cap answers. -/
theorem check_of_none (h : g.windowFor key = none) (x : ℤ) :
    g.check key x = if g.max_streams ≤ g.trackedStreams ∨ x < 0 then .INVALID else .FRESH := by
  unfold windowFor at h
  unfold check
  rw [h]
  dsimp only
  by_cases hcap : g.max_streams ≤ g.trackedStreams
  · rw [if_pos hcap, if_pos (.inl hcap)]
  · by_cases hneg : x < 0
    · rw [if_neg hcap, if_pos hneg, if_pos (.inr hneg)]
    · rw [if_neg hcap, if_neg hneg, if_neg (not_or.mpr ⟨hcap, hneg⟩)]

/-- Negative numbers are invalid on every stream. -/
theorem check_of_neg (g : ReplayGuard) (key : StreamKey) (hneg : x < 0) :
    g.check key x = .INVALID := by
  cases h : g.windowFor key with
  | none => rw [check_of_none h, if_pos (.inr hneg)]
  | some w =>
    rw [check_of_some h]
    unfold ReplayWindow.check
    rw [if_pos hneg]

/-! ## What one commit can do -/

/-- Every window of a guard has the guard's size, and represents some set. -/
structure Sound (g : ReplayGuard) : Prop where
  window : ∀ {key w}, g.windowFor key = some w →
    (∃ S, w.Represents S) ∧ (w.size : ℤ) = g.window_size

/-- What a commit can do: record the number in the window of its stream, begin the stream with it, be
refused by the window or for want of room, or begin the stream and have a negative number refused. -/
inductive Outcome (g : ReplayGuard) (key : StreamKey) (seq : ℤ) : Bool → ReplayGuard → Prop
  | recorded {w : ReplayWindow} (hw : g.windowFor key = some w) (hcheck : w.check seq = .FRESH) :
    Outcome g key seq true (g.write key (w.commit seq).2)
  | begun {w : ReplayWindow} (hnone : g.windowFor key = none)
    (hroom : g.trackedStreams < g.max_streams) (hnew : ReplayWindow.new g.window_size = .ok w)
    (h0 : 0 ≤ seq) : Outcome g key seq true (g.write key (w.commit seq).2)
  | refused {w : ReplayWindow} (hw : g.windowFor key = some w) (hcheck : w.check seq ≠ .FRESH) :
    Outcome g key seq false g
  | full (hnone : g.windowFor key = none) (hcap : g.max_streams ≤ g.trackedStreams) :
    Outcome g key seq false g
  | leaked {w : ReplayWindow} (hnone : g.windowFor key = none)
    (hroom : g.trackedStreams < g.max_streams) (hnew : ReplayWindow.new g.window_size = .ok w)
    (hneg : seq < 0) : Outcome g key seq false (g.write key w)

/-- The commit to a tracked stream is that to its window. -/
theorem commit_of_some (h : g.windowFor key = some w) (seq : ℤ) :
    g.commit key seq = (.ok (w.commit seq).1, g.write key (w.commit seq).2) := by
  unfold windowFor at h
  unfold commit
  rw [h]
  rfl

/-- The commit to an untracked stream with room is that to a new window. -/
theorem commit_of_new (hnone : g.windowFor key = none) (hroom : g.trackedStreams < g.max_streams)
    (hnew : ReplayWindow.new g.window_size = .ok w) (seq : ℤ) :
    g.commit key seq = (.ok (w.commit seq).1, g.write key (w.commit seq).2) := by
  unfold windowFor at hnone
  unfold commit
  rw [hnone]
  dsimp only
  rw [if_neg (not_le.mpr hroom), hnew]
  rfl

/-- The commit to an untracked stream without room is refused. -/
theorem commit_of_full (hnone : g.windowFor key = none) (hcap : g.max_streams ≤ g.trackedStreams)
    (seq : ℤ) : g.commit key seq = (.ok false, g) := by
  unfold windowFor at hnone
  unfold commit
  rw [hnone]
  dsimp only
  rw [if_pos hcap]

/-- The commit to an untracked stream with room raises where its window cannot be built. -/
theorem commit_of_unbuilt (hnone : g.windowFor key = none) (hroom : g.trackedStreams < g.max_streams)
    {e : Error} (hnew : ReplayWindow.new g.window_size = .error e) (seq : ℤ) :
    g.commit key seq = (.error e, g) := by
  unfold windowFor at hnone
  unfold commit
  rw [hnone]
  dsimp only
  rw [if_neg (not_le.mpr hroom), hnew]

/-- With a window size from zero, a commit does one of these. -/
theorem Sound.commit_outcome (h : g.Sound) (hW : 0 ≤ g.window_size) (key : StreamKey) (seq : ℤ) :
    ∃ changed g', g.commit key seq = (.ok changed, g') ∧ g.Outcome key seq changed g' := by
  cases hl : g.windowFor key with
  | some w =>
    obtain ⟨⟨S, hrep⟩, -⟩ := h.window hl
    have hcommit := commit_of_some hl seq
    rcases hrep.commit_cases seq with ⟨hfresh, -, -, hchanged, -⟩ | ⟨hno, hc⟩
    · rw [hchanged] at hcommit
      exact ⟨true, _, hcommit, .recorded hl hfresh⟩
    · rw [hc, write_self hl] at hcommit
      exact ⟨false, g, hcommit, .refused hl hno⟩
  | none =>
    rcases lt_or_ge (g.trackedStreams : ℤ) g.max_streams with hroom | hcap
    · obtain ⟨w, hnew⟩ := exists_new_window hW
      have hcommit := commit_of_new hl hroom hnew seq
      rcases lt_or_ge seq 0 with hneg | h0
      -- The stream is begun before the window refuses the number.
      · rw [w.commit_of_neg hneg] at hcommit
        exact ⟨false, _, hcommit, .leaked hl hroom hnew hneg⟩
      · have hrep := (ReplayWindow.represents_new hnew).1
        have hhighest := hrep.highest_neg_iff.mpr rfl
        rw [(hrep.commit_ahead h0 (by omega)).1] at hcommit
        exact ⟨true, _, hcommit, .begun hl hroom hnew h0⟩
    · exact ⟨false, g, commit_of_full hl hcap seq, .full hl hcap⟩

namespace Outcome

/-- A commit leaves the windows of the other streams. -/
theorem windowFor_of_ne (ho : g.Outcome key seq changed g') (hne : key' ≠ key) :
    g'.windowFor key' = g.windowFor key' := by
  cases ho with
  | recorded => exact windowFor_write_of_ne hne
  | begun => exact windowFor_write_of_ne hne
  | refused => rfl
  | full => rfl
  | leaked => exact windowFor_write_of_ne hne

/-- A commit keeps the configuration. -/
theorem config_eq (ho : g.Outcome key seq changed g') :
    g'.window_size = g.window_size ∧ g'.max_streams = g.max_streams := by
  cases ho <;> exact ⟨rfl, rfl⟩

/-- A commit untracks no stream. -/
theorem trackedStreams_le (ho : g.Outcome key seq changed g') : g.trackedStreams ≤ g'.trackedStreams := by
  cases ho with
  | recorded => exact trackedStreams_le_write
  | begun => exact trackedStreams_le_write
  | refused => exact le_rfl
  | full => exact le_rfl
  | leaked => exact trackedStreams_le_write

/-- What a new window has and commits to a window keep, every window of the guard keeps. -/
theorem windows {P : ReplayWindow → Prop} (ho : g.Outcome key seq changed g')
    (hnew : ∀ {w}, ReplayWindow.new g.window_size = .ok w → P w)
    (hcommit : ∀ {w : ReplayWindow}, P w → P (w.commit seq).2)
    (h : ∀ {key w}, g.windowFor key = some w → P w) {key' : StreamKey} {w' : ReplayWindow}
    (hw' : g'.windowFor key' = some w') : P w' := by
  rcases eq_or_ne key' key with rfl | hne
  · rcases ho with ⟨hw, -⟩ | ⟨-, -, hbegun, -⟩ | - | - | ⟨-, -, hbegun, -⟩
    · obtain rfl := Option.some.inj (windowFor_write.symm.trans hw')
      exact hcommit (h hw)
    · obtain rfl := Option.some.inj (windowFor_write.symm.trans hw')
      exact hcommit (hnew hbegun)
    · exact h hw'
    · exact h hw'
    · obtain rfl := Option.some.inj (windowFor_write.symm.trans hw')
      exact hnew hbegun
  · rw [ho.windowFor_of_ne hne] at hw'
    exact h hw'

/-- A commit keeps every window sound. -/
theorem sound (ho : g.Outcome key seq changed g') (h : g.Sound) : g'.Sound := by
  refine ⟨fun {key' w'} hw' => ?_⟩
  rw [ho.config_eq.1]
  refine ho.windows (P := fun w => (∃ S, w.Represents S) ∧ (w.size : ℤ) = g.window_size)
    (fun hnew => ?_) (fun hw => ?_) h.window hw'
  · obtain ⟨hrep, hsize⟩ := ReplayWindow.represents_new hnew
    exact ⟨⟨∅, hrep⟩, hsize⟩
  · obtain ⟨⟨S, hrep⟩, hsize⟩ := hw
    obtain ⟨S', hrep', -⟩ := hrep.exists_commit seq
    rw [ReplayWindow.size_commit]
    exact ⟨⟨S', hrep'⟩, hsize⟩

/-- A commit returns `True` exactly where `check` finds its number fresh. -/
theorem check_iff (ho : g.Outcome key seq changed g') : g.check key seq = .FRESH ↔ changed = true := by
  cases ho with
  | recorded hw hcheck => exact iff_of_true ((check_of_some hw seq).trans hcheck) rfl
  | begun hnone hroom _ h0 =>
    have hno : ¬(g.max_streams ≤ g.trackedStreams ∨ seq < 0) := by omega
    exact iff_of_true (by rw [check_of_none hnone, if_neg hno]) rfl
  | refused hw hcheck => exact iff_of_false (by rwa [check_of_some hw]) Bool.false_ne_true
  | full hnone hcap =>
    refine iff_of_false ?_ Bool.false_ne_true
    rw [check_of_none hnone, if_pos (.inl hcap)]
    simp
  | leaked hnone _ _ hneg =>
    refine iff_of_false ?_ Bool.false_ne_true
    rw [check_of_neg g key hneg]
    simp

/-- A commit takes back no refusal, and finds too old what was too old. -/
theorem check_mono (ho : g.Outcome key seq changed g') (h : g.Sound) (key' : StreamKey) (x : ℤ) :
    (g.check key' x ≠ .FRESH → g'.check key' x ≠ .FRESH) ∧
      (g.check key' x = .TOO_OLD → g'.check key' x = .TOO_OLD) := by
  rcases lt_or_ge x 0 with hneg | h0
  -- A negative number is invalid before and after.
  · rw [check_of_neg g key' hneg, check_of_neg g' key' hneg]
    exact ⟨id, id⟩
  rcases eq_or_ne key' key with rfl | hne
  · cases ho with
    | @recorded w hw =>
      obtain ⟨⟨S, hrep⟩, -⟩ := h.window hw
      obtain ⟨S', hrep', hsub⟩ := hrep.exists_commit seq
      rw [check_of_some hw, check_of_some windowFor_write]
      exact hrep.check_mono hrep' hsub (w.size_commit seq) x
    | begun hnone hroom =>
      have hno : ¬(g.max_streams ≤ g.trackedStreams ∨ x < 0) := by omega
      rw [check_of_none hnone, if_neg hno]
      simp
    | refused => exact ⟨id, id⟩
    | full => exact ⟨id, id⟩
    | leaked hnone hroom =>
      have hno : ¬(g.max_streams ≤ g.trackedStreams ∨ x < 0) := by omega
      rw [check_of_none hnone, if_neg hno]
      simp
  · have hwindow := ho.windowFor_of_ne hne
    cases hl : g.windowFor key' with
    | some w =>
      rw [check_of_some hl, check_of_some (hwindow.trans hl)]
      exact ⟨id, id⟩
    -- An untracked stream stays so, and once there is no room there is none.
    | none =>
      have hmore := ho.trackedStreams_le
      have hmax := ho.config_eq.2
      rw [check_of_none hl, check_of_none (hwindow.trans hl), hmax]
      split_ifs with hcap hcap' hcap'
      · exact ⟨id, id⟩
      · omega
      · simp
      · exact ⟨id, id⟩

/-- A number is refused once it was handed to `commit`. -/
theorem check_ne_fresh (ho : g.Outcome key seq changed g') (h : g.Sound) : g'.check key seq ≠ .FRESH := by
  cases ho with
  | recorded hw =>
    obtain ⟨⟨S, hrep⟩, -⟩ := h.window hw
    rw [check_of_some windowFor_write]
    exact hrep.check_commit_ne_fresh seq
  | begun _ _ hnew =>
    rw [check_of_some windowFor_write]
    exact (ReplayWindow.represents_new hnew).1.check_commit_ne_fresh seq
  | refused hw hcheck => rwa [check_of_some hw]
  | full hnone hcap =>
    rw [check_of_none hnone, if_pos (.inl hcap)]
    simp
  | leaked _ _ _ hneg =>
    rw [check_of_neg _ key hneg]
    simp

/-- A commit that begins no stream with a negative number changes nothing if it returns `False`. -/
theorem eq_of_unchanged (ho : g.Outcome key seq false g')
    (hkept : (g.windowFor key).isSome ∨ g.max_streams ≤ g.trackedStreams ∨ 0 ≤ seq) : g' = g := by
  cases ho with
  | refused => rfl
  | full => rfl
  | leaked hnone hroom _ hneg =>
    rw [hnone] at hkept
    rcases hkept with hsome | hcap | h0
    · cases hsome
    · omega
    · omega

/-- After a commit its stream is tracked, or there is no room for it. -/
theorem tracked_or_full (ho : g.Outcome key seq changed g') :
    (g'.windowFor key).isSome ∨ g'.max_streams ≤ g'.trackedStreams := by
  cases ho with
  | recorded => exact .inl (by rw [windowFor_write]; rfl)
  | begun => exact .inl (by rw [windowFor_write]; rfl)
  | refused hw => exact .inl (by rw [hw]; rfl)
  | full _ hcap => exact .inr hcap
  | leaked => exact .inl (by rw [windowFor_write]; rfl)

end Outcome

/-! ## Runs of commits -/

/-- A new guard has no window. -/
theorem sound_new (window_size max_streams : ℤ) : (new window_size max_streams).Sound :=
  ⟨fun {key w} hw => by simp [new, windowFor] at hw⟩

/-- What holds of a guard that a run of commits from a new one leads to. -/
structure Reachable (W max : ℤ) (g : ReplayGuard) : Prop where
  sound : g.Sound
  window_size : g.window_size = W
  max_streams : g.max_streams = max

variable {W max : ℤ}

/-- The outcome of a commit in a run. -/
theorem Reachable.commit_outcome (h : Reachable W max g) (hW : 0 ≤ W) (key : StreamKey) (seq : ℤ) :
    ∃ changed g', g.commit key seq = (.ok changed, g') ∧ g.Outcome key seq changed g' :=
  h.sound.commit_outcome (h.window_size ▸ hW) key seq

/-- One more commit of a run. -/
theorem Reachable.commit (h : Reachable W max g) (hW : 0 ≤ W) (key : StreamKey) (seq : ℤ) :
    Reachable W max (g.commit key seq).2 := by
  obtain ⟨changed, g', hc, ho⟩ := h.commit_outcome hW key seq
  obtain ⟨hsize, hmax⟩ := ho.config_eq
  rw [hc]
  exact ⟨ho.sound h.sound, hsize.trans h.window_size, hmax.trans h.max_streams⟩

/-- What every outcome of a commit preserves holds after every run. -/
theorem Reachable.after_invariant {P : ReplayGuard → Prop} (h : Reachable W max g) (hW : 0 ≤ W)
    (hstep : ∀ {t t' : ReplayGuard} {key seq changed}, t.Sound → t.Outcome key seq changed t' →
      P t → P t') (hP : P g) (ps : List (StreamKey × ℤ)) : P (Mealy.after step g ps) := by
  have hboth : ∀ (t : ReplayGuard) (p : StreamKey × ℤ), Reachable W max t ∧ P t →
      Reachable W max (step t p).2 ∧ P (step t p).2 := by
    rintro t p ⟨ht, hPt⟩
    obtain ⟨changed, t', hc, ho⟩ := ht.commit_outcome hW p.1 p.2
    refine ⟨ht.commit hW p.1 p.2, ?_⟩
    unfold step
    rw [hc]
    exact hstep ht.sound ho hPt
  exact (Mealy.after_invariant hboth ⟨h, hP⟩ ps).2

/-- Every run of commits. -/
theorem reachable_after (hW : 0 ≤ W) (max : ℤ) (ps : List (StreamKey × ℤ)) :
    Reachable W max (Mealy.after step (new W max) ps) :=
  Mealy.after_invariant (P := Reachable W max) (fun _ p h => h.commit hW p.1 p.2)
    ⟨sound_new W max, rfl, rfl⟩ ps

/-- No run of commits takes back a refusal, and what was too old stays so. -/
theorem Reachable.check_mono_after (h : Reachable W max g) (hW : 0 ≤ W) (ps : List (StreamKey × ℤ))
    (key : StreamKey) (x : ℤ) :
    (g.check key x ≠ .FRESH → (Mealy.after step g ps).check key x ≠ .FRESH) ∧
      (g.check key x = .TOO_OLD → (Mealy.after step g ps).check key x = .TOO_OLD) := by
  refine h.after_invariant (P := fun t : ReplayGuard =>
    (g.check key x ≠ .FRESH → t.check key x ≠ .FRESH) ∧
      (g.check key x = .TOO_OLD → t.check key x = .TOO_OLD)) hW ?_ ⟨id, id⟩ ps
  rintro t t' key' seq' changed hsound ho ⟨hrefused, hold⟩
  obtain ⟨hrefused', hold'⟩ := ho.check_mono hsound key x
  exact ⟨fun hno => hrefused' (hrefused hno), fun hto => hold' (hold hto)⟩

/-- To commit again is refused, and changes nothing. -/
theorem Reachable.commit_again (h : Reachable W max g) (hW : 0 ≤ W) (key : StreamKey) (seq : ℤ) :
    (g.commit key seq).2.commit key seq = (.ok false, (g.commit key seq).2) := by
  obtain ⟨changed, g', hc, ho⟩ := h.commit_outcome hW key seq
  have h' := h.commit hW key seq
  rw [hc] at h' ⊢
  obtain ⟨again, g'', hc', ho'⟩ := h'.commit_outcome hW key seq
  -- The number is refused by now, and its stream was begun if there was room for it.
  have hagain : again = false := by
    rw [← Bool.not_eq_true, ← ho'.check_iff]
    exact ho.check_ne_fresh h.sound
  subst hagain
  have hkept : (g'.windowFor key).isSome ∨ g'.max_streams ≤ g'.trackedStreams ∨ 0 ≤ seq :=
    ho.tracked_or_full.imp id .inl
  rw [hc', ho'.eq_of_unchanged hkept]

end ReplayGuard

/-- A refusal of the replay state is permanent. In every state that commits of any pairs lead to, a pair
that `check` does not find fresh is not fresh after any further commits on any streams, and one that is
too old stays too old. -/
theorem replay_rejection_is_permanent {W : ℤ} (hW : 0 ≤ W) (max : ℤ)
    (commits later : List (StreamKey × ℤ)) (key : StreamKey) (seq : ℤ) :
    let g := Mealy.after ReplayGuard.step (.new W max) commits
    let g' := Mealy.after ReplayGuard.step g later
    (g.check key seq ≠ .FRESH → g'.check key seq ≠ .FRESH) ∧
      (g.check key seq = .TOO_OLD → g'.check key seq = .TOO_OLD) :=
  (ReplayGuard.reachable_after hW max commits).check_mono_after hW later key seq

/-- A duplicate is still refused after the window moved past it. -/
theorem replay_rejection_is_permanent_of_jump :
    (Mealy.after ReplayGuard.step (.new 4 1) [(([], 1), 0), (([], 1), 9)]).check ([], 1) 0 ≠ .FRESH :=
  (replay_rejection_is_permanent (by decide : (0 : ℤ) ≤ 4) 1 [(([], 1), 0)] [(([], 1), 9)]
    ([], 1) 0).1 (by decide +kernel)

/-- When a commit that returns `False` changes nothing. In every state that commits of any pairs lead to,
a commit either leaves the guard as it was or returns `True`, and repeated returns `False` and changes
nothing, exactly if its stream is tracked, or there is no room for it, or its number is not negative. -/
theorem unchanged_iff_of_commit {W : ℤ} (hW : 0 ≤ W) (max : ℤ) (commits : List (StreamKey × ℤ))
    (key : StreamKey) (seq : ℤ) :
    let g := Mealy.after ReplayGuard.step (.new W max) commits
    let g' := (g.commit key seq).2
    (((g.commit key seq).1 = .ok false → g' = g) ∧ g'.commit key seq = (.ok false, g')) ↔
      (g.windowFor key).isSome ∨ g.max_streams ≤ g.trackedStreams ∨ 0 ≤ seq := by
  intro g g'
  have h : ReplayGuard.Reachable W max g := ReplayGuard.reachable_after hW max commits
  have hagain : g'.commit key seq = (.ok false, g') := h.commit_again hW key seq
  rw [and_iff_left hagain]
  constructor
  · intro hkept
    by_contra hno
    obtain ⟨hnone, hroom, hneg⟩ := by simpa only [not_or] using hno
    rw [Bool.not_eq_true, Option.isSome_eq_false_iff, Option.isNone_iff_eq_none] at hnone
    -- The stream is begun with an empty window.
    obtain ⟨w, hnew⟩ := ReplayGuard.exists_new_window (h.window_size ▸ hW)
    have hc := ReplayGuard.commit_of_new hnone (not_le.mp hroom) hnew seq
    rw [w.commit_of_neg (not_le.mp hneg)] at hc
    have hsame : g.write key w = g := by
      have hg' : g' = g.write key w := congrArg Prod.snd hc
      rw [← hg']
      exact hkept (congrArg Prod.fst hc)
    have hwritten : (g.write key w).windowFor key = some w := ReplayGuard.windowFor_write
    rw [hsame, hnone] at hwritten
    cases hwritten
  · intro hkept hfalse
    obtain ⟨changed, g'', hc, ho⟩ := h.commit_outcome hW key seq
    have hg' : g' = g'' := congrArg Prod.snd hc
    rw [hc] at hfalse
    obtain rfl : changed = false := Except.ok.inj hfalse
    rw [hg']
    exact ho.eq_of_unchanged hkept

/-- Committing a negative number on a new stream returns `False`, and tracks the stream. -/
theorem commit_negative_begins_stream :
    let g := ReplayGuard.new 64 1024
    (g.commit ([], 1) (-1)).1 = .ok false ∧ (g.commit ([], 1) (-1)).2.trackedStreams ≠ g.trackedStreams := by
  decide +kernel

/-- In a guard without room, a commit that returns `False` changes nothing. -/
theorem unchanged_iff_of_commit_at_cap :
    let g := ReplayGuard.new 64 0
    (g.commit ([], 1) (-1)).1 = .ok false → (g.commit ([], 1) (-1)).2 = g :=
  ((unchanged_iff_of_commit (by decide : (0 : ℤ) ≤ 64) 0 [] ([], 1) (-1)).mpr
    (.inr (.inl (by decide)))).1

/-! ## Runs in another order -/

namespace ReplayGuard

variable {g : ReplayGuard} {A : History} {key : StreamKey} {seq W max : ℤ}

/-- Committing a number from zero on a stream with room adds the pair to the history that the windows
retain, whatever the commit returns. -/
theorem Tracks.commit (h : g.Tracks ReplayWindow.Retains A) (hW : 0 ≤ g.window_size) (h0 : 0 ≤ seq)
    (hroom : ((insert key A.streams).card : ℤ) ≤ g.max_streams) :
    (g.commit key seq).2.Tracks ReplayWindow.Retains (insert (key, seq) A) := by
  cases hl : g.windowFor key with
  | some w =>
    obtain ⟨hw, hsize⟩ := h.window hl
    rw [commit_of_some hl]
    exact h.insert_window (hw.commit h0) ((congrArg _ (w.size_commit seq)).trans hsize)
  | none =>
    have hnone := h.numbers_eq_empty hl
    have hnot : key ∉ A.streams := by
      rw [History.mem_streams, hnone]
      exact Finset.not_nonempty_empty
    have hlt : (g.trackedStreams : ℤ) < g.max_streams := by
      rw [Finset.card_insert_of_notMem hnot, ← h.trackedStreams_eq] at hroom
      omega
    obtain ⟨w, hnew⟩ := exists_new_window hW
    obtain ⟨-, hsize⟩ := ReplayWindow.represents_new hnew
    have hw : w.Retains (A.numbers key) := hnone ▸ ReplayWindow.retains_new hnew
    rw [commit_of_new hl hlt hnew]
    exact h.insert_window (hw.commit h0) ((congrArg _ (w.size_commit seq)).trans hsize)

/-- After a run of commits of numbers from zero, on no more streams than there is room for, the windows
retain the pairs committed. -/
theorem tracks_run (hW : 0 ≤ W) (ps : List (StreamKey × ℤ)) (h0 : ∀ p ∈ ps, 0 ≤ p.2)
    (hroom : ((History.streams ps.toFinset).card : ℤ) ≤ max) :
    (Mealy.after step (new W max) ps).Tracks ReplayWindow.Retains ps.toFinset := by
  induction ps using List.reverseRecOn with
  | nil => exact tracks_new W max
  | append_singleton ps p ih =>
    obtain ⟨key, seq⟩ := p
    have hinsert : (ps ++ [(key, seq)]).toFinset = insert (key, seq) ps.toFinset := by
      rw [List.toFinset_append, Finset.union_comm]
      rfl
    rw [hinsert, History.streams_insert] at hroom
    have hless : ((History.streams ps.toFinset).card : ℤ) ≤ max := by
      have hcard := Finset.card_le_card (Finset.subset_insert key (History.streams ps.toFinset))
      omega
    have hreach : Reachable W max (Mealy.after step (new W max) ps) := reachable_after hW max ps
    have hrun := ih (fun p hp => h0 p (List.mem_append_left _ hp)) hless
    rw [Mealy.after_append, hinsert]
    exact hrun.commit (hW.trans_eq hreach.window_size.symm) (h0 _ (by simp))
      (hroom.trans_eq hreach.max_streams.symm)

end ReplayGuard

/-- The replay state does not depend on the order of arrival. Two lists of commits of numbers from zero
that have the same pairs, in any order and with any repetitions, on no more streams than there is room
for, leave the same tracked streams, each with the same highest number and the same bitmap. -/
theorem replay_state_is_order_independent {W max : ℤ} (hW : 0 ≤ W) {ps ps' : List (StreamKey × ℤ)}
    (h0 : ∀ p ∈ ps, 0 ≤ p.2) (hsame : ∀ p, p ∈ ps ↔ p ∈ ps')
    (hroom : ((ps.map Prod.fst).toFinset.card : ℤ) ≤ max) :
    let g := Mealy.after ReplayGuard.step (.new W max) ps
    let g' := Mealy.after ReplayGuard.step (.new W max) ps'
    g.streams.keys = g'.streams.keys ∧
      ∀ key, (g.windowFor key).map (fun w => (w.highest_seq, w.bitmap)) =
        (g'.windowFor key).map fun w => (w.highest_seq, w.bitmap) := by
  intro g g'
  have hset : ps.toFinset = ps'.toFinset := by
    ext p
    rw [List.mem_toFinset, List.mem_toFinset, hsame p]
  have hstreams : History.streams ps.toFinset = (ps.map Prod.fst).toFinset := by
    ext key
    simp [History.streams]
  rw [← hstreams] at hroom
  have h : g.Tracks ReplayWindow.Retains ps.toFinset := ReplayGuard.tracks_run hW ps h0 hroom
  have h' : g'.Tracks ReplayWindow.Retains ps.toFinset := by
    rw [hset] at hroom ⊢
    exact ReplayGuard.tracks_run hW ps' (fun p hp => h0 p ((hsame p).mpr hp)) hroom
  refine ⟨h.keys_eq.trans h'.keys_eq.symm, fun key => ?_⟩
  have hsize : g.window_size = g'.window_size :=
    (ReplayGuard.reachable_after hW max ps).window_size.trans
      (ReplayGuard.reachable_after hW max ps').window_size.symm
  have htracked : key ∈ g.streams ↔ key ∈ g'.streams := h.tracked.trans h'.tracked.symm
  cases hl : g.windowFor key with
  | none =>
    have hl' : g'.windowFor key = none :=
      Finmap.lookup_eq_none.mpr (mt htracked.mpr (Finmap.lookup_eq_none.mp hl))
    rw [hl']
  | some w =>
    obtain ⟨w', hl'⟩ := Finmap.mem_iff.mp (htracked.mp (Finmap.mem_of_lookup_eq_some hl))
    obtain ⟨hw, hwsize⟩ := h.window hl
    obtain ⟨hw', hwsize'⟩ := h'.window hl'
    obtain ⟨hhighest, hbitmap⟩ := hw.unique hw' (by omega)
    have hl'' : g'.windowFor key = some w' := hl'
    rw [hl'', Option.map_some, Option.map_some, hhighest, hbitmap]

/-- In a window of two numbers, a late number is recorded in one order and too old in the other. -/
theorem replay_state_is_order_independent_of_late :
    (Mealy.after ReplayGuard.step (.new 2 1) [(([], 1), 0), (([], 1), 5), (([], 1), 5)]).streams.keys =
      (Mealy.after ReplayGuard.step (.new 2 1) [(([], 1), 5), (([], 1), 0)]).streams.keys :=
  (replay_state_is_order_independent (by decide) (by simp) (by intro p; simp; tauto) (by decide)).1

end Srp
