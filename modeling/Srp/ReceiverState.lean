import Mathlib.Algebra.Order.BigOperators.Group.Finset
import Mathlib.Data.Int.Interval
import Mathlib.Data.Nat.Size
import Srp.Guard
import Srp.Refinement

/-!
# The replay state of a receiver

A run of a receiver takes its guard through a run of commits, of the places that it accepted
(`Receiver.replay_guard_of_run`), so what holds of all runs of a guard holds of receivers. `check` and
`commit` agree, so an acceptance is always recorded (`check_and_commit_agree`). And the replay state has
a bound in the configuration alone, and keeps what it holds (`receiver_state_is_bounded`): at the cap a
new stream is refused, and no tracked one makes room for it.
-/

namespace Srp

/-! ## The bound of a guard -/

/-- The bits of the numbers of a window. -/
def ReplayWindow.footprint (w : ReplayWindow) : ℕ :=
  Nat.size w.size + Nat.size w.mask + Nat.size w.highest_seq.toNat + Nat.size w.bitmap +
    Nat.size w.accepted

/-- The bits of the tracked streams and of their windows. -/
def ReplayGuard.footprint (g : ReplayGuard) : ℕ :=
  ∑ key ∈ g.streams.keys, (8 * key.1.length + Nat.size key.2.toNat +
    ((g.windowFor key).map ReplayWindow.footprint).getD 0)

namespace ReplayGuard

variable {g g' g'' : ReplayGuard} {w : ReplayWindow} {key : StreamKey} {seq W max : ℤ} {changed : Bool}

/-- A guard tracks no more streams than there is room for, with bitmaps within the width. -/
structure Contained (g : ReplayGuard) : Prop where
  tracked : (g.trackedStreams : ℤ) ≤ g.max_streams
  bitmap : ∀ {key w}, g.windowFor key = some w → w.bitmap < 2 ^ Max.max w.size 1

/-- The window of every stream goes on: it is there later, and was committed to in between. -/
def GoesOn (g g' : ReplayGuard) : Prop :=
  ∀ key w, g.windowFor key = some w →
    ∃ seqs, g'.windowFor key = some (Mealy.after ReplayWindow.commit w seqs)

theorem goesOn_refl (g : ReplayGuard) : g.GoesOn g := fun _ _ hw => ⟨[], hw⟩

theorem GoesOn.trans (h : g.GoesOn g') (h' : g'.GoesOn g'') : g.GoesOn g'' := by
  intro key w hw
  obtain ⟨seqs, hseqs⟩ := h key w hw
  obtain ⟨seqs', hseqs'⟩ := h' key _ hseqs
  refine ⟨seqs ++ seqs', ?_⟩
  rw [Mealy.after_append]
  exact hseqs'

/-- One commit keeps a guard contained. -/
theorem Outcome.contained (ho : g.Outcome key seq changed g') (h : g.Contained) : g'.Contained := by
  constructor
  · rcases ho with ⟨hw, -⟩ | ⟨hnone, hroom, -, -⟩ | - | - | ⟨hnone, hroom, -, -⟩
    · rw [trackedStreams_write_of_some hw]
      exact h.tracked
    · rw [trackedStreams_write_of_none hnone, max_streams_write]
      omega
    · exact h.tracked
    · exact h.tracked
    · rw [trackedStreams_write_of_none hnone, max_streams_write]
      omega
  · intro key' w' hw'
    refine ho.windows (P := fun w => w.bitmap < 2 ^ Max.max w.size 1) (fun hnew => ?_) (fun {w} hw => ?_)
      h.bitmap hw'
    · exact (ReplayWindow.retains_new hnew).bound
    · rw [ReplayWindow.size_commit]
      exact ReplayWindow.bitmap_commit_lt hw seq

/-- One commit takes every window on. -/
theorem Outcome.goesOn (ho : g.Outcome key seq changed g') : g.GoesOn g' := by
  intro key' w' hw'
  rcases eq_or_ne key' key with rfl | hne
  · rcases ho with ⟨hw, -⟩ | ⟨hnone, -, -, -⟩ | - | - | ⟨hnone, -, -, -⟩
    · obtain rfl := Option.some.inj (hw.symm.trans hw')
      exact ⟨[seq], windowFor_write⟩
    -- A stream is begun only where it has no window.
    · rw [hnone] at hw'
      cases hw'
    · exact ⟨[], hw'⟩
    · exact ⟨[], hw'⟩
    · rw [hnone] at hw'
      cases hw'
  · exact ⟨[], (ho.windowFor_of_ne hne).trans hw'⟩

/-- A new guard is contained. -/
theorem contained_new (hmax : 0 ≤ max) : (new W max).Contained := by
  constructor
  · exact hmax
  · intro key w hw
    simp [new, windowFor] at hw

/-- Every run of commits keeps a guard contained. -/
theorem contained_after (hW : 0 ≤ W) (hmax : 0 ≤ max) (ps : List (StreamKey × ℤ)) :
    (Mealy.after step (new W max) ps).Contained :=
  (reachable_after hW max []).after_invariant hW (fun _ ho ht => ho.contained ht)
    (contained_new hmax) ps

/-- Every run of commits takes every window on. -/
theorem Reachable.goesOn (h : Reachable W max g) (hW : 0 ≤ W) (ps : List (StreamKey × ℤ)) :
    g.GoesOn (Mealy.after step g ps) :=
  h.after_invariant hW (fun _ ho ht => ht.trans ho.goesOn) (goesOn_refl g) ps

/-- What `check` and `commit` of a guard say of one number. -/
theorem Reachable.check_commit (h : Reachable W max g) (hW : 0 ≤ W) (key : StreamKey) (seq : ℤ) :
    (g.check key seq = .FRESH ↔ (g.commit key seq).1 = .ok true) ∧
      (g.commit key seq).2.check key seq ≠ .FRESH := by
  obtain ⟨changed, g', hc, ho⟩ := h.commit_outcome hW key seq
  rw [hc, Except.ok.injEq]
  exact ⟨ho.check_iff, ho.check_ne_fresh h.sound⟩

end ReplayGuard

/-! ## The runs of a receiver's guard -/

namespace Receiver

variable {r : Receiver} {wire : Bytes} {st : ReceiveStep}

/-- A call takes the guard through the commit of the place that it accepts, if it accepts one. -/
theorem Outcome.replay_guard_eq (ho : r.Outcome wire st) :
    st.receiver.replay_guard =
      Mealy.after ReplayGuard.step r.replay_guard st.acceptedPlace.toList := by
  rcases ho with - | - | - | - | - | -
  all_goals rfl

/-- A run takes the guard through the commits of the places that it accepts. -/
theorem replay_guard_of_run (r : Receiver) (ws : List Bytes) :
    (Mealy.after step r ws).replay_guard = Mealy.after ReplayGuard.step r.replay_guard
      ((Mealy.outputs step r ws).filterMap ReceiveStep.acceptedPlace) := by
  refine Mealy.run_invariant (I := fun _ os (t : Receiver) => t.replay_guard =
    Mealy.after ReplayGuard.step r.replay_guard (os.filterMap ReceiveStep.acceptedPlace)) rfl
    (fun _ os t w ht => ?_) ws
  have hone : (os ++ [(step t w).1]).filterMap ReceiveStep.acceptedPlace =
      os.filterMap ReceiveStep.acceptedPlace ++ (t.receive w).acceptedPlace.toList := by
    unfold step
    cases hplace : (t.receive w).acceptedPlace <;> simp [hplace]
  rw [hone, Mealy.after_append, ← ht]
  exact (t.receive_outcome w).replay_guard_eq

/-- The guard of a receiver is in a state that commits lead to. -/
theorem reachable_of_run {c : ReceiverConfig} (hW : 0 ≤ c.replay_window) (ws : List Bytes) :
    ReplayGuard.Reachable c.replay_window c.max_streams (Mealy.after step c.new ws).replay_guard := by
  rw [replay_guard_of_run]
  exact ReplayGuard.reachable_after hW c.max_streams _

end Receiver

/-- `check` and `commit` never disagree. In every state that commits of any pairs lead to, a number is
fresh exactly if its commit returns `True`, and it is not fresh after the commit. So the commit of an
acceptance in `receive`, whose result is not looked at, records the record. -/
theorem check_and_commit_agree {W : ℤ} (hW : 0 ≤ W) (max : ℤ) :
    (∀ (commits : List (StreamKey × ℤ)) (key : StreamKey) (seq : ℤ),
      let g := Mealy.after ReplayGuard.step (.new W max) commits
      (g.check key seq = .FRESH ↔ (g.commit key seq).1 = .ok true) ∧
        (g.commit key seq).2.check key seq ≠ .FRESH) ∧
    ∀ (suite : AeadSuite) (expected_session_id : Option Bytes) (ws : List Bytes) (w : Bytes)
      (v : Verdict),
      let r := Mealy.after Receiver.step (.new suite expected_session_id W max) ws
      let st := r.receive w
      st.result = .ok v → v.status = .ACCEPTED → ∃ header, v.header = some header ∧
        r.replay_guard.commit header.streamKey header.seq = (.ok true, st.receiver.replay_guard) ∧
        st.receiver.replay_guard.check header.streamKey header.seq ≠ .FRESH := by
  constructor
  · intro commits key seq g
    exact (ReplayGuard.reachable_after hW max commits).check_commit hW key seq
  · intro suite expected_session_id ws w v r st hv hacc
    have hreach : ReplayGuard.Reachable W max r.replay_guard :=
      Receiver.reachable_of_run (c := ⟨suite, expected_session_id, W, max⟩) hW ws
    have ho : r.Outcome w st := r.receive_outcome w
    clear_value r st
    rcases ho with - | - | - | - | - | @⟨record, nonce, aad, plaintext, changed, hr, ho, hc⟩
    all_goals cases hv
    · cases hacc
    · cases hacc
    · cases hacc
    · have hfresh := (Receiver.refusal_eq_none.mp hr.passed).2.2
      obtain ⟨hiff, hafter⟩ := hreach.check_commit hW record.header.streamKey record.header.seq
      exact ⟨record.header, rfl, Prod.ext (hiff.mp hfresh) rfl, hafter⟩

/-- After a commit of 5, `check` and `commit` agree on 9. -/
theorem check_and_commit_agree_of_ahead :
    let g := Mealy.after ReplayGuard.step (.new 4 1) [(([], 1), 5)]
    g.check ([], 1) 9 = .FRESH ↔ (g.commit ([], 1) 9).1 = .ok true :=
  ((check_and_commit_agree (by decide : (0 : ℤ) ≤ 4) 1).1 [(([], 1), 5)] ([], 1) 9).1

/-! ## The size of a receiver's guard -/

/-- The bound of the bits of one stream and of its window. -/
def ReceiverConfig.streamBound (c : ReceiverConfig) : ℕ :=
  let width := c.replay_window.toNat
  8 * sessionIdLen + 32 + (Nat.size width + width + 64 + max width 1 + 65)

/-- The bound of the footprint. -/
def ReceiverConfig.footprintBound (c : ReceiverConfig) : ℕ := c.max_streams.toNat * c.streamBound

/-- A call accepts a record on a stream. -/
def ReceiveStep.AcceptsOn (st : ReceiveStep) (key : StreamKey) : Prop :=
  ∃ v header, st.result = .ok v ∧ v.status = .ACCEPTED ∧ v.header = some header ∧
    header.streamKey = key

namespace History

variable {steps : List ReceiveStep} {key : StreamKey} {seq : ℤ}

/-- The streams of a history are those that its run accepted a record on. -/
theorem mem_streams_ofRun : key ∈ (ofRun steps).streams ↔ ∃ st ∈ steps, st.AcceptsOn key := by
  unfold streams
  simp only [Finset.mem_image, mem_ofRun, acceptedPlace_eq_some]
  constructor
  · rintro ⟨place, ⟨st, hst, v, header, hv, hacc, hheader, rfl⟩, rfl⟩
    exact ⟨st, hst, v, header, hv, hacc, hheader, rfl⟩
  · rintro ⟨st, hst, v, header, hv, hacc, hheader, rfl⟩
    exact ⟨header.place, ⟨st, hst, v, header, hv, hacc, hheader, rfl⟩, rfl⟩

/-- The streams and numbers of a history are those of headers. -/
theorem admitted_of_mem (h : (key, seq) ∈ ofRun steps) :
    key.1.length = sessionIdLen ∧ key.2 < 2 ^ 32 ∧ 0 ≤ seq ∧ seq < 2 ^ 64 := by
  obtain ⟨st, -, hplace⟩ := mem_ofRun.mp h
  obtain ⟨v, header, -, -, -, hheader⟩ := acceptedPlace_eq_some.mp hplace
  obtain ⟨rfl, rfl⟩ := Prod.mk.inj hheader
  have hstream := header.admitted.stream_id.2
  obtain ⟨hseq0, hseq⟩ := header.admitted.seq
  refine ⟨header.admitted.session_id, ?_, hseq0, ?_⟩
  · show header.stream_id < _
    omega
  · omega

/-- The numbers of a history on a stream are those of 64 bits. -/
theorem card_numbers_le (steps : List ReceiveStep) (key : StreamKey) :
    ((ofRun steps).numbers key).card ≤ 2 ^ 64 := by
  have hsub : (ofRun steps).numbers key ⊆ Finset.Ico 0 (2 ^ 64) := by
    intro seq hseq
    obtain ⟨-, -, hseq0, hlt⟩ := admitted_of_mem (mem_numbers.mp hseq)
    exact Finset.mem_Ico.mpr ⟨hseq0, hlt⟩
  calc ((ofRun steps).numbers key).card
      ≤ (Finset.Ico (0 : ℤ) (2 ^ 64)).card := Finset.card_le_card hsub
    _ = 2 ^ 64 := by rw [Int.card_Ico]; rfl

end History

/-- The footprint of a window, by the bounds of its numbers. -/
theorem ReplayWindow.footprint_le {w : ReplayWindow} (hbitmap : w.bitmap < 2 ^ max w.size 1)
    (hhighest : w.highest_seq < 2 ^ 64) (haccepted : w.accepted ≤ 2 ^ 64) :
    w.footprint ≤ Nat.size w.size + w.size + 64 + max w.size 1 + 65 := by
  have h₁ : Nat.size w.highest_seq.toNat ≤ 64 := Nat.size_le.mpr (by omega)
  have h₂ : Nat.size w.bitmap ≤ max w.size 1 := Nat.size_le.mpr hbitmap
  have h₃ : Nat.size w.accepted ≤ 65 := Nat.size_le.mpr (by omega)
  have h₄ : Nat.size w.mask ≤ w.size := by
    rw [Nat.size_le, w.mask_eq, Nat.one_shiftLeft]
    exact Nat.sub_lt (Nat.two_pow_pos w.size) Nat.one_pos
  unfold footprint
  omega

/-- A contained guard that stands for the history of a run has a bounded footprint. -/
theorem ReplayGuard.footprint_le {c : ReceiverConfig} {g : ReplayGuard} {steps : List ReceiveStep}
    (hrep : g.Represents (.ofRun steps)) (hcontained : g.Contained)
    (hsize : g.window_size = c.replay_window) (hmax : g.max_streams = c.max_streams) :
    g.footprint ≤ c.footprintBound := by
  have hone : ∀ key ∈ g.streams.keys, 8 * key.1.length + Nat.size key.2.toNat +
      ((g.windowFor key).map ReplayWindow.footprint).getD 0 ≤ c.streamBound := by
    intro key hkey
    obtain ⟨w, hw⟩ := Finmap.mem_iff.mp (Finmap.mem_keys.mp hkey)
    obtain ⟨hwrep, hwsize⟩ := hrep.window hw
    -- The highest number of the window is one of the stream's.
    have hmem := (hrep.isGreatest hw).1
    obtain ⟨hsession, hstream, -, hhighest⟩ :=
      History.admitted_of_mem (History.mem_numbers.mp (Finset.mem_coe.mp hmem))
    have haccepted : w.accepted ≤ 2 ^ 64 := hwrep.accepted ▸ History.card_numbers_le steps key
    have hfoot := ReplayWindow.footprint_le (hcontained.bitmap hw) hhighest haccepted
    have hwidth : w.size = c.replay_window.toNat := by omega
    have hkey₂ : Nat.size key.2.toNat ≤ 32 := Nat.size_le.mpr (by omega)
    have hw' : g.windowFor key = some w := hw
    rw [hwidth] at hfoot
    rw [hw', Option.map_some, Option.getD_some, hsession]
    unfold ReceiverConfig.streamBound
    dsimp only
    omega
  have htracked : g.trackedStreams ≤ c.max_streams.toNat := by
    have hle := hcontained.tracked
    omega
  unfold footprint ReceiverConfig.footprintBound
  calc _ ≤ g.trackedStreams * c.streamBound := Finset.sum_le_card_nsmul _ _ _ hone
    _ ≤ c.max_streams.toNat * c.streamBound := Nat.mul_le_mul_right _ htracked

/-- The replay state of a receiver is bounded, and no replay history is lost. After every run on any
byte strings, no more streams are tracked than there is room for, a stream is tracked exactly if a record
on it was accepted, and the footprint has a bound in the configuration alone. After any later deliveries,
the window of a tracked stream is the same one with more commits, its highest number not lower. -/
theorem receiver_state_is_bounded (c : ReceiverConfig) (hW : 0 ≤ c.replay_window)
    (hM : 0 ≤ c.max_streams) (ws later : List Bytes) :
    let g := (Mealy.after Receiver.step c.new ws).replay_guard
    let g' := (Mealy.after Receiver.step c.new (ws ++ later)).replay_guard
    (g.trackedStreams : ℤ) ≤ c.max_streams ∧
    (∀ key, key ∈ g.streams ↔ ∃ st ∈ Mealy.outputs Receiver.step c.new ws, st.AcceptsOn key) ∧
    (∀ key w, g.windowFor key = some w → ∃ w', g'.windowFor key = some w' ∧
      (∃ seqs, w' = Mealy.after ReplayWindow.commit w seqs) ∧ w.highest_seq ≤ w'.highest_seq) ∧
    (∀ key w, g.windowFor key = some w → w.bitmap < 2 ^ (max c.replay_window 1).toNat) ∧
    g.footprint ≤ c.footprintBound := by
  intro g g'
  have hrep : g.Represents _ := Receiver.represents_ofRun c ws
  have hreach : ReplayGuard.Reachable c.replay_window c.max_streams g := Receiver.reachable_of_run hW ws
  have hcontained : g.Contained := by
    unfold g
    rw [Receiver.replay_guard_of_run]
    exact ReplayGuard.contained_after hW hM _
  have hon : g.GoesOn g' := by
    unfold g'
    rw [Mealy.after_append, Receiver.replay_guard_of_run (Mealy.after Receiver.step c.new ws)]
    exact hreach.goesOn hW _
  refine ⟨?_, fun key => ?_, fun key w hw => ?_, fun key w hw => ?_, ?_⟩
  · exact hcontained.tracked.trans hreach.max_streams.le
  · rw [hrep.tracked, History.mem_streams_ofRun]
  · obtain ⟨seqs, hseqs⟩ := hon key w hw
    exact ⟨_, hseqs, ⟨seqs, rfl⟩, w.le_highest_seq_after seqs⟩
  · have hsize : (w.size : ℤ) = c.replay_window := (hrep.window hw).2.trans hreach.window_size
    have hwidth : (max c.replay_window 1).toNat = max w.size 1 := by omega
    rw [hwidth]
    exact hcontained.bitmap hw
  · exact ReplayGuard.footprint_le hrep hcontained hreach.window_size hreach.max_streams

/-- The state of the example receiver after a frame was delivered twice. -/
theorem receiver_state_is_bounded_of_replay :
    ((Mealy.after Receiver.step checksumConfig.new
      [checksumFrame, checksumFrame]).replay_guard.trackedStreams : ℤ) ≤ 4 :=
  (receiver_state_is_bounded checksumConfig (by decide) (by decide)
    [checksumFrame, checksumFrame] []).1

end Srp
