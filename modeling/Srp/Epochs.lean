import Srp.Refinement

/-!
# Key epochs

`ReplayGuard.reset`, which drops all replay state when a fresh key epoch starts, called between deliveries
through the guard that a receiver exposes. The abstract receiver forgets its history at a reset, and the
receiver refines it (`receiver_refines_epochs`): it judges by what it has accepted since the last reset, so
a place is accepted again only in another epoch.
-/

namespace Srp

/-! ## Resets -/

/-- `reset`: drop all replay state. The count of evictions, which nothing ever raises, is not modelled. -/
def ReplayGuard.reset (g : ReplayGuard) : ReplayGuard := { g with streams := ∅ }

/-- What is done with a receiver: a byte string is delivered, or its replay state is dropped. -/
inductive ReceiverOp
  | deliver (wire : Bytes)
  | reset
  deriving DecidableEq, Repr

/-- A receiver as a machine with resets. A reset has no answer. -/
def Receiver.operate (r : Receiver) : ReceiverOp → Option ReceiveStep × Receiver
  | .deliver wire => (some (r.receive wire), (r.receive wire).receiver)
  | .reset => (none, { r with replay_guard := r.replay_guard.reset })

/-! ## What was answered since the last reset -/

section Since

variable {α : Type*} {os : List (Option α)} {x : α} {j k : ℕ}

/-- The answers since the last reset. -/
def sinceReset (os : List (Option α)) : List α :=
  os.foldl (fun l o => o.elim [] fun x => l ++ [x]) []

/-- One more answer. -/
theorem sinceReset_concat_some (os : List (Option α)) (x : α) :
    sinceReset (os ++ [some x]) = sinceReset os ++ [x] := by
  rw [sinceReset, List.foldl_append]
  rfl

/-- One more reset. -/
theorem sinceReset_concat_none (os : List (Option α)) : sinceReset (os ++ [none]) = [] := by
  rw [sinceReset, List.foldl_append]
  rfl

/-- An answer with no reset behind it is one of those since the last reset. -/
theorem mem_sinceReset (h : os[j]? = some (some x)) (hjk : j < k) (hk : k ≤ os.length)
    (hno : ∀ m, j < m → m < k → os[m]? ≠ some none) : x ∈ sinceReset (os.take k) := by
  induction k, hjk using Nat.le_induction with
  | base =>
    rw [List.take_add_one, h]
    exact (sinceReset_concat_some _ _) ▸ List.mem_append_right _ (List.mem_singleton_self x)
  | succ k hjk ih =>
    have hmem := ih (by omega) fun m hj hm => hno m hj (by omega)
    rw [List.take_add_one]
    obtain ⟨o, ho⟩ : ∃ o, os[k]? = some o := ⟨_, List.getElem?_eq_getElem (by omega)⟩
    cases o with
    | none => exact absurd ho (hno k hjk (by omega))
    | some y =>
      rw [ho]
      exact (sinceReset_concat_some _ _) ▸ List.mem_append_left _ hmem

end Since

/-! ## The receiver by epochs -/

namespace Receiver

/-- After a run with resets, the receiver has its configuration, and its replay state stands for what was
accepted since the last reset. -/
theorem represents_sinceReset (c : ReceiverConfig) (ops : List ReceiverOp) :
    (Mealy.after operate c.new ops).config = c ∧
      (Mealy.after operate c.new ops).replay_guard.Represents
        (.ofRun (sinceReset (Mealy.outputs operate c.new ops))) := by
  refine Mealy.run_invariant (I := fun _ os (t : Receiver) => t.config = c ∧
    t.replay_guard.Represents (.ofRun (sinceReset os))) ⟨rfl, ReplayGuard.tracks_new _ _⟩
    (fun _ os t op h => ?_) ops
  obtain ⟨hconfig, hrep⟩ := h
  cases op with
  | deliver wire =>
    have ho := t.receive_outcome wire
    refine ⟨ho.config_eq.trans hconfig, ?_⟩
    show (t.receive wire).receiver.replay_guard.Represents (.ofRun (sinceReset (os ++ [some _])))
    rw [sinceReset_concat_some, History.ofRun_append_singleton]
    exact (ho.represents hrep).1
  | reset =>
    refine ⟨hconfig, ?_⟩
    show t.replay_guard.reset.Represents (.ofRun (sinceReset (os ++ [none])))
    rw [sinceReset_concat_none]
    exact ReplayGuard.tracks_new _ _

end Receiver

/-- The receiver refines one that forgets at a reset. In every run of deliveries and resets, each delivery
returns the verdict that the abstract receiver judges by what was accepted since the last reset. So between
two acceptances of one place there is a reset. -/
theorem receiver_refines_epochs (c : ReceiverConfig) (hW : 0 ≤ c.replay_window)
    (hdoc : c.suite.impl.DecryptDocumented) (ops : List ReceiverOp) :
    let os := Mealy.outputs Receiver.operate c.new ops
    (∀ (k : ℕ) (wire : Bytes), ops[k]? = some (.deliver wire) →
      ∃ st v, os[k]? = some (some st) ∧ st.result = .ok v ∧
        v.judgement = c.judge (.ofRun (sinceReset (os.take k))) wire) ∧
      ∀ (j k : ℕ) (st st' : ReceiveStep) (place : StreamKey × ℤ), j < k → os[j]? = some (some st) →
        os[k]? = some (some st') → st.acceptedPlace = some place → st'.acceptedPlace = some place →
          ∃ m, j < m ∧ m < k ∧ ops[m]? = some ReceiverOp.reset := by
  intro os
  have hstate (k : ℕ) := Receiver.represents_sinceReset c (ops.take k)
  refine ⟨fun k wire hop => ?_, fun j k st st' place hjk hj hk hplace hplace' => ?_⟩
  · obtain ⟨hconfig, hrep⟩ := hstate k
    rw [← Mealy.take_outputs] at hrep
    have hos : os[k]? = some (some ((Mealy.after Receiver.operate c.new (ops.take k)).receive wire)) := by
      rw [Mealy.getElem?_outputs, hop]
      rfl
    generalize Mealy.after Receiver.operate c.new (ops.take k) = r at hconfig hrep hos
    subst hconfig
    obtain ⟨v, hv, hj⟩ := (r.receive_outcome wire).judgement_eq hdoc hW hrep
    exact ⟨_, v, hos, hv, hj⟩
  · by_contra hno
    -- Without a reset the first acceptance is still in the history, which refuses the second one.
    have hreset : ∀ m, j < m → m < k → os[m]? ≠ some none := by
      intro m hjm hmk hm
      obtain ⟨op, hop, ho⟩ := Mealy.exists_of_getElem?_outputs hm
      cases op with
      | deliver wire => cases ho
      | reset => exact hno ⟨m, hjm, hmk, hop⟩
    have hlen : k < os.length := (List.getElem?_eq_some_iff.mp hk).1
    have hmem : st ∈ sinceReset (os.take k) := mem_sinceReset hj hjk hlen.le hreset
    have hseen : place ∈ History.ofRun (sinceReset (os.take k)) :=
      History.mem_ofRun.mpr ⟨st, hmem, hplace⟩
    obtain ⟨-, hrep⟩ := hstate k
    rw [← Mealy.take_outputs] at hrep
    obtain ⟨op, hop, ho⟩ := Mealy.exists_of_getElem?_outputs hk
    cases op with
    | deliver wire =>
      have hst := Option.some.inj ho
      have hfresh := ((Receiver.receive_outcome _ wire).represents hrep).2 place
      rw [hst] at hfresh
      exact hfresh hplace' hseen
    | reset => cases ho

/-- A frame that is accepted before and after a reset, which is what lies between. -/
theorem receiver_refines_epochs_of_reset :
    let ops : List ReceiverOp := [.deliver checksumFrame, .reset, .deliver checksumFrame]
    ∃ m, 0 < m ∧ m < 2 ∧ ops[m]? = some .reset := by
  intro ops
  obtain ⟨-, hbetween⟩ := receiver_refines_epochs checksumConfig (by decide)
    Backend.checksum_documented ops
  apply hbetween 0 2 _ _ ((List.replicate sessionIdLen 7, 1), 0) (by decide) rfl rfl
  · decide +kernel
  · decide +kernel

end Srp
