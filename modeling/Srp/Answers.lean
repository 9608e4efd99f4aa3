import Srp.Relay
import Srp.Attacks
import Srp.Interleaving

/-!
# What the receiver makes of the relayed records

The log of the actor lists what was put on the wire towards the receiver, and the receiver answers it entry by
entry (`answers`): a forwarded record is accepted with its payload, a changed one fails to authenticate,
and a replay is detected as long as the window reaches back to it. `relay_verdicts` says so for every
payload, and `relay_follows_plan` says what the log is.
-/

namespace Srp

open Framing Pipeline

/-! ## What the log calls for -/

/-- What the receiver is to make of an entry of the log that stands right behind one for record
`last`. -/
def answer (payloads : List Bytes) (replay_window : ℤ) (last i : ℕ) : ActorAction → Judgement
  | .forward => .accepted (payloads.getD i [])
  | .replay => .rejected (if (last : ℤ) - i < replay_window then .REPLAY_DETECTED else .STALE_RECORD)
  | _ => .rejected .AUTH_FAILED

/-- What the receiver is to make of the entries of a log, right behind one for record `last`. -/
def answers (payloads : List Bytes) (replay_window : ℤ) : ℕ → List (ℕ × ActorAction) → List Judgement
  | _, [] => []
  | last, (i, action) :: log =>
    answer payloads replay_window last i action :: answers payloads replay_window i log

/-- A changed record is to be rejected as not authentic. -/
theorem answer_of_changed {action : ActorAction}
    (h : action ∈ [.flipCiphertext, .flipTag, .tamperAad]) (payloads : List Bytes) (replay_window : ℤ)
    (last i : ℕ) : action ≠ .forward ∧
      answer payloads replay_window last i action = .rejected .AUTH_FAILED := by
  simp only [List.mem_cons, List.not_mem_nil, or_false] at h
  rcases h with rfl | rfl | rfl
  · exact ⟨nofun, rfl⟩
  · exact ⟨nofun, rfl⟩
  · exact ⟨nofun, rfl⟩

/-- The record that a log ends with. -/
def lastRecord (last : ℕ) (log : List (ℕ × ActorAction)) : ℕ :=
  (log.getLast?.map Prod.fst).getD last

@[simp]
theorem lastRecord_concat (last : ℕ) (log : List (ℕ × ActorAction)) (e : ℕ × ActorAction) :
    lastRecord last (log ++ [e]) = e.1 := by
  simp [lastRecord]

/-- One more entry calls for one more answer. -/
theorem answers_concat (payloads : List Bytes) (replay_window : ℤ) (last : ℕ)
    (log : List (ℕ × ActorAction)) (i : ℕ) (action : ActorAction) :
    answers payloads replay_window last (log ++ [(i, action)]) =
      answers payloads replay_window last log ++
        [answer payloads replay_window (lastRecord last log) i action] := by
  induction log generalizing last with
  | nil => rfl
  | cons e log ih =>
    have hlast : lastRecord last (e :: log) = lastRecord e.1 log := by
      unfold lastRecord
      rw [List.getLast?_cons]
      cases log.getLast? <;> rfl
    rw [List.cons_append, answers, ih, hlast]
    rfl

/-! ## What the receiver remembers -/

/-- The history holds the places of the forwarded records of a log. -/
def Remembers (A : History) (key : StreamKey) (start : ℤ) (log : List (ℕ × ActorAction)) : Prop :=
  ∀ place, place ∈ A ↔ ∃ i : ℕ, (i, .forward) ∈ log ∧ place = (key, start + i)

namespace Remembers

variable {A : History} {key : StreamKey} {start W max : ℤ} {log : List (ℕ × ActorAction)} {i : ℕ}

/-- Nothing is remembered of the empty log. -/
theorem nil : Remembers ∅ key start [] := by
  simp [Remembers]

/-- A forwarded record is remembered. -/
theorem forward (h : Remembers A key start log) (i : ℕ) :
    Remembers (insert (key, start + (i : ℤ)) A) key start (log ++ [(i, .forward)]) := by
  intro place
  rw [Finset.mem_insert, h place]
  constructor
  · rintro (rfl | ⟨j, hmem, rfl⟩)
    · exact ⟨i, List.mem_append_right _ (List.mem_singleton_self _), rfl⟩
    · exact ⟨j, List.mem_append_left _ hmem, rfl⟩
  · rintro ⟨j, hmem, rfl⟩
    rcases List.mem_append.mp hmem with hmem | hmem
    · exact .inr ⟨j, hmem, rfl⟩
    · rw [List.mem_singleton, Prod.mk.injEq] at hmem
      rw [hmem.1]
      exact .inl rfl

/-- No other entry is. -/
theorem other (h : Remembers A key start log) {e : ℕ × ActorAction} (he : e.2 ≠ .forward) :
    Remembers A key start (log ++ [e]) := by
  intro place
  rw [h place]
  constructor
  · rintro ⟨j, hmem, rfl⟩
    exact ⟨j, List.mem_append_left _ hmem, rfl⟩
  · rintro ⟨j, hmem, rfl⟩
    rcases List.mem_append.mp hmem with hmem | hmem
    · exact ⟨j, hmem, rfl⟩
    · rw [← List.mem_singleton.mp hmem] at he
      exact absurd rfl he

/-- The numbers of the stream are those of the forwarded records. -/
theorem mem_numbers (h : Remembers A key start log) {seq : ℤ} :
    seq ∈ A.numbers key ↔ ∃ i : ℕ, (i, .forward) ∈ log ∧ seq = start + i := by
  rw [History.mem_numbers, h (key, seq)]
  simp

/-- A record beyond those of the log is neither replayed nor stale. -/
theorem not_refused (h : Remembers A key start log) (hmax : 0 < max) (hnew : ∀ e ∈ log, e.1 < i) :
    ¬A.Replayed W key (start + i) ∧ ¬A.Stale W max key (start + i) := by
  have hbelow : ∀ seq ∈ A.numbers key, seq < start + i := by
    intro seq hseq
    obtain ⟨j, hmem, rfl⟩ := h.mem_numbers.mp hseq
    have hlt := hnew _ hmem
    omega
  have hfresh : (key, start + (i : ℤ)) ∉ A := by
    intro hmem
    exact lt_irrefl _ (hbelow _ (History.mem_numbers.mpr hmem))
  refine (History.not_refused_iff hfresh fun hnone => ?_).mpr ?_
  -- All that is remembered is on this stream.
  · have hempty : A = ∅ := by
      apply Finset.eq_empty_of_forall_notMem
      intro place hplace
      obtain ⟨j, hmem, rfl⟩ := (h place).mp hplace
      have hj : start + (j : ℤ) ∈ A.numbers key := h.mem_numbers.mpr ⟨j, hmem, rfl⟩
      rw [hnone] at hj
      exact absurd hj (Finset.notMem_empty _)
    rw [hempty]
    exact hmax
  · by_cases hnone : A.numbers key = ∅
    · exact .inl hnone
    · obtain ⟨H, hH⟩ := History.exists_isGreatest hnone
      exact .inr ⟨H, hH, .inl (hbelow H hH.1)⟩

/-- A forwarded record right behind the last one is replayed within the window, and else stale. -/
theorem refused (max : ℤ) {last : ℕ} (h : Remembers A key start (log ++ [(last, .forward)]))
    (hnew : ∀ e ∈ log, e.1 < last) (hold : (i, .forward) ∈ log) :
    if (last : ℤ) - i < W then A.Replayed W key (start + i)
    else ¬A.Replayed W key (start + i) ∧ A.Stale W max key (start + i) := by
  have hgreatest : IsGreatest (A.numbers key : Set ℤ) (start + last) := by
    refine ⟨h.mem_numbers.mpr ⟨last, List.mem_append_right _ (List.mem_singleton_self _), rfl⟩, ?_⟩
    intro seq hseq
    obtain ⟨j, hmem, rfl⟩ := h.mem_numbers.mp hseq
    rcases List.mem_append.mp hmem with hmem | hmem
    · have hlt := hnew _ hmem
      dsimp only at hlt
      omega
    · rw [List.mem_singleton, Prod.mk.injEq] at hmem
      rw [hmem.1]
  have hin : (key, start + (i : ℤ)) ∈ A := (h _).mpr ⟨i, List.mem_append_left _ hold, rfl⟩
  have hlt : i < last := hnew _ hold
  rw [History.replayed_iff hgreatest, History.stale_iff hgreatest]
  split_ifs with hwindow
  · exact ⟨by omega, hin⟩
  · exact ⟨fun hr => hwindow (by omega), by omega, by omega⟩

end Remembers

/-! ## The judgements -/

namespace ReceiverConfig

variable {c : ReceiverConfig} {A : History} {key : StreamKey} {seq : ℤ} {payload wire : Bytes}
  {record : ProtectedRecord} {reason : RejectReason}

/-- In its suite and on its session, a record is refused by the history alone. -/
theorem refusal_of_named (hsuite : record.header.suite_id = c.suite.suite_id)
    (hpin : ∀ pin ∈ c.expected_session_id, key.1 = pin) (hplace : record.header.place = (key, seq)) :
    (A.Replayed c.replay_window key seq → c.refusal A record.header = some .REPLAY_DETECTED) ∧
      (¬A.Replayed c.replay_window key seq → A.Stale c.replay_window c.max_streams key seq →
        c.refusal A record.header = some .STALE_RECORD) ∧
        (¬A.Replayed c.replay_window key seq → ¬A.Stale c.replay_window c.max_streams key seq →
          c.refusal A record.header = none) := by
  obtain ⟨hkey, hseq⟩ := Prod.mk.inj hplace
  have hsession : record.header.session_id = key.1 := congrArg Prod.fst hkey
  have hnopin : ¬∃ pin ∈ c.expected_session_id, record.header.session_id ≠ pin := by
    rintro ⟨pin, hmem, hne⟩
    exact hne (hsession.trans (hpin pin hmem))
  unfold refusal
  rw [if_neg (not_not.mpr hsuite), if_neg hnopin, hkey, hseq]
  refine ⟨fun hr => if_pos hr, fun hr hs => ?_, fun hr hs => ?_⟩
  · rw [if_neg hr, if_pos hs]
  · rw [if_neg hr, if_neg hs]

/-- A refused record is rejected for the reason. -/
theorem judge_of_refused (hp : parseRecord wire = .ok record)
    (hr : c.refusal A record.header = some reason) : c.judge A wire = .rejected reason := by
  simp only [judge, hp, hr]

/-- Any other record is rejected if it does not open. -/
theorem judge_of_unauthentic (hp : parseRecord wire = .ok record)
    (hr : c.refusal A record.header = none) (hno : ¬c.suite.Authenticates wire) :
    c.judge A wire = .rejected .AUTH_FAILED := by
  simp only [judge, hp, hr]
  cases hopen : c.suite.openRecord record with
  | error e => rfl
  | ok plaintext => exact absurd ⟨record, plaintext, hp, hopen⟩ hno

/-- It is accepted if it opens. -/
theorem judge_of_opens (hp : parseRecord wire = .ok record) (hr : c.refusal A record.header = none)
    (hopen : c.suite.openRecord record = .ok payload) : c.judge A wire = .accepted payload := by
  simp only [judge, hp, hr, hopen]

/-- Nothing is remembered of a rejected frame. -/
theorem step_of_rejected (hj : c.judge A wire = .rejected reason) : (c.step A wire).2 = A := by
  unfold step
  rw [hj]
  dsimp only
  split
  · rfl
  · rfl

/-- The place of an accepted record is remembered. -/
theorem step_of_accepted (hp : parseRecord wire = .ok record)
    (hj : c.judge A wire = .accepted payload) :
    (c.step A wire).2 = insert record.header.place A := by
  simp only [step, hj, hp]
  rfl

end ReceiverConfig

/-! ## The loop of the receiver -/

/-- The counters after a verdict. -/
def ReceiverStats.note (st : ReceiverStats) (j : Judgement) : ReceiverStats :=
  match j.reason with
  | some reason => st.noteRejection reason
  | none => st.noteAcceptance (j.plaintext.getD [])

/-- A call counts the verdict that it returns. -/
theorem Receiver.Outcome.stats_eq {r : Receiver} {wire : Bytes} {st : ReceiveStep} {v : Verdict}
    (ho : r.Outcome wire st) (hv : st.result = .ok v) : st.receiver.stats = r.stats.note v.judgement := by
  cases ho with
  | openRaised => cases hv
  | commitRaised => cases hv
  | _ =>
    cases hv
    rfl

/-- The receiver has answered a log entry by entry, has counted the answers, and remembers what it
should. -/
structure Answered (c : ReceiverConfig) (key : StreamKey) (start : ℤ) (payloads : List Bytes)
    (log : List (ℕ × ActorAction)) (t : Thread Raised ReceiverEntity) : Prop where
  running : t.status = .running
  verdicts : t.state.log.map Verdict.judgement = answers payloads c.replay_window 0 log
  config : t.state.receiver.config = c
  stats : t.state.receiver.stats = (answers payloads c.replay_window 0 log).foldl .note {}
  history : ∃ A, t.state.receiver.replay_guard.Represents A ∧ Remembers A key start log

section Answered

variable {c : ReceiverConfig} {key : StreamKey} {start : ℤ} {payloads frames sent : List Bytes}
  {log : List (ℕ × ActorAction)} {t : Thread Raised ReceiverEntity} {wire : Bytes} {i : ℕ}
  {action : ActorAction}

/-- Before the first frame, nothing is to be answered. -/
theorem answered_new (c : ReceiverConfig) (key : StreamKey) (start : ℤ) (payloads : List Bytes) :
    Answered c key start payloads [] ⟨{ receiver := c.new }, .running⟩ :=
  ⟨rfl, rfl, rfl, rfl, ∅, ReplayGuard.tracks_new _ _, .nil⟩

/-- A frame that is judged as the log calls for, and remembered as it should be. -/
theorem Answered.step (hdoc : c.suite.impl.DecryptDocumented) (hW : 0 ≤ c.replay_window)
    (h : Answered c key start payloads log t)
    (hjudge : ∀ A, Remembers A key start log →
      c.judge A wire = answer payloads c.replay_window (lastRecord 0 log) i action ∧
        Remembers (c.step A wire).2 key start (log ++ [(i, action)])) :
    Answered c key start payloads (log ++ [(i, action)]) (t.step ReceiverEntity.turn wire).2 := by
  obtain ⟨A, hrep, hrem⟩ := h.history
  obtain ⟨hj, hgrown⟩ := hjudge A hrem
  have hconfig := h.config
  have hverdicts := h.verdicts
  have hrunning := h.running
  have hstats := h.stats
  obtain ⟨⟨r, verdicts⟩, status⟩ := t
  dsimp only at hrep hconfig hverdicts hrunning hstats
  have ho := r.receive_outcome wire
  rw [← hconfig] at hdoc hW
  obtain ⟨v, hresult, hv⟩ := ho.judgement_eq hdoc hW hrep
  have hgrow := ho.grow_eq hdoc hW hrep
  have hafter := (ho.represents hrep).1
  rw [Thread.step_of_running hrunning]
  unfold ReceiverEntity.turn
  simp only [hresult, Turn.last]
  rw [hconfig, hj] at hv
  refine ⟨rfl, ?_, ho.config_eq.trans hconfig, ?_, (c.step A wire).2, ?_, hgrown⟩
  · calc (verdicts ++ [v]).map Verdict.judgement
      _ = answers payloads c.replay_window 0 log ++ [v.judgement] := by
        rw [List.map_append, hverdicts, List.map_singleton]
      _ = answers payloads c.replay_window 0 (log ++ [(i, action)]) := by
        rw [answers_concat, hv]
  · rw [answers_concat, List.foldl_append, ← hstats, ho.stats_eq hresult, hv]
    rfl
  · rwa [hgrow, hconfig] at hafter

/-- The frames of a stream, each for its payload. -/
def FramesOf (suite : AeadSuite) (key : StreamKey) (start : ℤ) (payloads frames : List Bytes) : Prop :=
  ∀ (i : ℕ) wire, frames[i]? = some wire → ∃ payload record, payloads[i]? = some payload ∧
    FrameOf suite key (start + i) payload wire record

/-- Two frames of a stream with the same place are the same frame. -/
theorem FramesOf.index_eq {suite : AeadSuite} (h : FramesOf suite key start payloads frames) {j : ℕ}
    {wire' : Bytes} {record : ProtectedRecord} (hw : frames[j]? = some wire')
    (hp : parseRecord wire' = .ok record) (hplace : record.header.place = (key, start + i)) : j = i := by
  obtain ⟨payload, record', -, hframe⟩ := h j wire' hw
  have hsame : record = record' := Except.ok.inj (hp.symm.trans hframe.parsed)
  have hseq : start + (j : ℤ) = start + i := by
    rw [← hframe.seq, ← hsame]
    exact congrArg Prod.snd hplace
  omega

/-- A receiver of the stream answers what is relayed to it entry by entry, as long as what opens of it is a
frame of the stream. -/
theorem answered_of_relayed (hdoc : c.suite.impl.DecryptDocumented) (hW : 0 ≤ c.replay_window)
    (hmax : 0 < c.max_streams) (hpin : ∀ pin ∈ c.expected_session_id, key.1 = pin)
    (hframes : FramesOf c.suite key start payloads frames) (h : Relayed frames log sent)
    (hauth : ∀ wire ∈ sent, c.suite.Authenticates wire → wire ∈ frames) :
    Answered c key start payloads log
      (Thread.after ReceiverEntity.turn ⟨{ receiver := c.new }, .running⟩ sent) := by
  -- A frame of the stream is judged by the history alone.
  have hforward {log : List (ℕ × ActorAction)} {t : Thread Raised ReceiverEntity} {i : ℕ} {wire : Bytes}
      (ht : Answered c key start payloads log t) (hnew : ∀ e ∈ log, e.1 < i)
      (hw : frames[i]? = some wire) :
      Answered c key start payloads (log ++ [(i, .forward)]) (t.step ReceiverEntity.turn wire).2 := by
    obtain ⟨payload, record, hpayload, hframe⟩ := hframes i wire hw
    have hplace : record.header.place = (key, start + (i : ℤ)) := Prod.ext hframe.streamKey hframe.seq
    refine ht.step hdoc hW fun A hA => ?_
    obtain ⟨hr, hs⟩ := hA.not_refused (W := c.replay_window) hmax hnew
    have hnone := (c.refusal_of_named hframe.suite_id hpin hplace).2.2 hr hs
    have hj := c.judge_of_opens hframe.parsed hnone hframe.opens
    refine ⟨?_, ?_⟩
    · rw [hj, answer, List.getD_eq_getElem?_getD, hpayload]
      rfl
    · rw [c.step_of_accepted hframe.parsed hj, hplace]
      exact hA.forward i
  induction h with
  | nil => exact answered_new c key start payloads
  | forward h hnew hw ih =>
    rw [Thread.after_append]
    exact hforward (ih fun w hmem => hauth w (List.mem_append_left _ hmem)) hnew hw
  | @changed log sent i action wire wire' h hnew hw haction hc ih =>
    rw [Thread.after_append]
    have ht := ih fun w hmem => hauth w (List.mem_append_left _ hmem)
    obtain ⟨payload, record, hpayload, hframe⟩ := hframes i wire hw
    obtain ⟨record', hp', hsuite', hplace'⟩ := hc.parsed record hframe.parsed
    have hplace : record'.header.place = (key, start + (i : ℤ)) :=
      hplace'.trans (Prod.ext hframe.streamKey hframe.seq)
    -- What names the place of a frame and is another one is no frame of the stream.
    have hno : ¬c.suite.Authenticates wire' := by
      intro hopens
      have hmem := hauth wire' (List.mem_append_right _ (List.mem_singleton_self _)) hopens
      obtain ⟨j, hj⟩ := List.getElem?_of_mem hmem
      rw [hframes.index_eq hj hp' hplace, hw] at hj
      exact hc.ne (Option.some.inj hj).symm
    refine ht.step hdoc hW fun A hA => ?_
    obtain ⟨hr, hs⟩ := hA.not_refused (W := c.replay_window) hmax hnew
    have hnone := (c.refusal_of_named (hsuite'.trans hframe.suite_id) hpin hplace).2.2 hr hs
    have hj := c.judge_of_unauthentic hp' hnone hno
    obtain ⟨hother, hanswer⟩ := answer_of_changed haction payloads c.replay_window (lastRecord 0 log) i
    rw [c.step_of_rejected hj, hj, hanswer]
    exact ⟨rfl, hA.other hother⟩
  | @replay log sent i last wire wire' h hnew hw hold hw' ih =>
    rw [Thread.after_append, Thread.after_append]
    have hsent : ∀ w ∈ sent, c.suite.Authenticates w → w ∈ frames := fun w hmem =>
      hauth w (List.mem_append_left _ (List.mem_append_left _ hmem))
    obtain ⟨payload, record, hpayload, hframe⟩ := hframes i wire' hw'
    have hplace : record.header.place = (key, start + (i : ℤ)) := Prod.ext hframe.streamKey hframe.seq
    refine (hforward (ih hsent) hnew hw).step hdoc hW fun A hA => ?_
    have hrefused := hA.refused (W := c.replay_window) c.max_streams hnew hold
    obtain ⟨hreplayed, hstale, -⟩ := c.refusal_of_named (A := A) hframe.suite_id hpin hplace
    rw [lastRecord_concat, answer]
    split_ifs at hrefused ⊢ with hwindow
    · have hj := c.judge_of_refused hframe.parsed (hreplayed hrefused)
      rw [c.step_of_rejected hj]
      exact ⟨hj, hA.other nofun⟩
    · have hj := c.judge_of_refused hframe.parsed (hstale hrefused.1 hrefused.2)
      rw [c.step_of_rejected hj]
      exact ⟨hj, hA.other nofun⟩

end Answered

/-! ## Any schedule -/

/-- A receiver of the session of a sender, in its suite, with a window and room for a stream. -/
structure Receives (c : ReceiverConfig) (s : Sender) : Prop where
  suite : c.suite = s.suite
  pinned : ∀ pin ∈ c.expected_session_id, s.session_id = pin
  window : 0 ≤ c.replay_window
  room : 0 < c.max_streams

/-- What is sent is numbered from the sender's next number on. -/
theorem framesOf_senderFrames {s : Sender} (hseals : s.suite.impl.Seals) (payloads : List Bytes) :
    FramesOf s.suite (s.session_id, s.stream_id) s.nonces.next payloads (senderFrames s payloads) :=
  fun _ _ hw => frameOf_of_sent hseals hw

/-- Run one after the other, the loops leave behind a log of the actor that the receiver has answered entry
by entry. -/
theorem answered_of_sequentially {c : ReceiverConfig} {s : Sender} (hreceives : Receives c s)
    (hseals : s.suite.impl.Seals) (hdoc : s.suite.impl.DecryptDocumented)
    {plan : List (ℕ × ActorAction)} {rng : Rng} {payloads : List Bytes}
    (hauth : ∀ wire ∈ relayedFrames { plan, rng } (senderFrames s payloads),
      c.suite.Authenticates wire → wire ∈ senderFrames s payloads) :
    let o := sequentially ⟨s, .running⟩ ⟨{ plan, rng }, .running⟩ ⟨{ receiver := c.new }, .running⟩ payloads
    ∃ t, o.receiver = t.close ∧
      Answered c (s.session_id, s.stream_id) s.nonces.next payloads o.actor.state.log t := by
  intro o
  have hframes := framesOf_senderFrames hseals payloads
  have hdata : ∀ wire ∈ senderFrames s payloads, ∃ record, parseRecord wire = .ok record ∧
      record.header.record_type = RecordType.DATA.value := by
    intro wire hmem
    obtain ⟨i, hi⟩ := List.getElem?_of_mem hmem
    obtain ⟨payload, record, -, hframe⟩ := hframes i wire hi
    exact ⟨record, hframe.parsed, hframe.record_type⟩
  have hrelayed := (ActorEntity.follows_of_data plan rng hdata).1.relayed
  rw [← hreceives.suite] at hdoc hframes
  refine ⟨_, rfl, ?_⟩
  rw [show o.actor.state.log = _ from congrArg ActorEntity.log (Thread.state_close _)]
  exact answered_of_relayed hdoc hreceives.window hreceives.room hreceives.pinned hframes hrelayed hauth

/-- Run one after the other, the loops leave behind the log that the plan calls for on the records sent, if
each payload is in order and not empty. -/
theorem sequentially_follows_plan {c : ReceiverConfig} {s : Sender} (hreceives : Receives c s)
    (hcorrect : s.suite.impl.Correct) (hstream : 0 ≤ s.stream_id ∧ s.stream_id ≤ 0xFFFFFFFF)
    {plan : List (ℕ × ActorAction)} {rng : Rng} {payloads : List Bytes}
    (hpayloads : ∀ payload ∈ payloads, payload ≠ [] ∧ payload.length ≤ maxPayloadLen)
    (hauth : ∀ wire ∈ relayedFrames { plan, rng } (senderFrames s payloads),
      c.suite.Authenticates wire → wire ∈ senderFrames s payloads) :
    let o := sequentially ⟨s, .running⟩ ⟨{ plan, rng }, .running⟩ ⟨{ receiver := c.new }, .running⟩ payloads
    let log := planLog plan (min (payloads.length : ℤ) s.nonces.remaining).toNat
    (o.sender.status = if (payloads.length : ℤ) ≤ s.nonces.remaining then .returned
      else .raised (.error s.nonces.exhaustedError)) ∧
      o.actor.status = .returned ∧ o.actor.state.log = log ∧ ∃ t, o.receiver = t.close ∧
        Answered c (s.session_id, s.stream_id) s.nonces.next payloads log t := by
  intro o log
  obtain ⟨hcount, hstatus⟩ :=
    senderFrames_of_inOrder hcorrect hstream fun payload hmem => (hpayloads payload hmem).2
  -- Each frame has the ciphertext of a payload.
  have hlong : ∀ wire ∈ senderFrames s payloads,
      minRecordLen < wire.length ∧ ∃ record, parseRecord wire = .ok record := by
    intro wire hmem
    obtain ⟨i, hi⟩ := List.getElem?_of_mem hmem
    obtain ⟨payload, record, hpayload, hframe⟩ :=
      framesOf_senderFrames hcorrect.seals payloads i wire hi
    have hpos := List.length_pos_of_ne_nil (hpayloads payload (List.mem_of_getElem? hpayload)).1
    exact ⟨by rw [hframe.length]; omega, record, hframe.parsed⟩
  obtain ⟨hrunning, hcomplies⟩ := ActorEntity.complies_of_frames plan rng hlong
  have hlog : o.actor.state.log = log := by
    calc o.actor.state.log
      _ = planLog plan (senderFrames s payloads).length := by
        rw [← hcomplies.log_eq]
        exact congrArg ActorEntity.log (Thread.state_close _)
      _ = log := by rw [← Int.toNat_natCast (senderFrames s payloads).length, hcount]
  refine ⟨?_, Thread.status_close_of_running hrunning, hlog, ?_⟩
  · show (Thread.after senderTurn ⟨s, .running⟩ payloads).close.status = _
    split_ifs at hstatus ⊢
    · exact Thread.status_close_of_running hstatus
    · rw [Thread.close_of_ended (by rw [hstatus]; exact nofun), hstatus]
  · rw [← hlog]
    exact answered_of_sequentially hreceives hcorrect.seals hcorrect.documented hauth

open Network

/-- The receiver answers the log of the actor entry by entry. Let the receiver have the session and the
suite of the sender, and let what opens of the relayed frames be frames of the sender. Then whatever the
plan, the payloads, the connections, and the schedule, the log of the actor is at any time the beginning of
the one that it ends with, and the verdicts are the first of those that this calls for. Once nothing can
move they are all of them, and the receiver has not raised. -/
theorem relay_verdicts {c : ReceiverConfig} {s : Sender} (hreceives : Receives c s)
    (hseals : s.suite.impl.Seals) (hdoc : s.suite.impl.DecryptDocumented)
    {plan : List (ℕ × ActorAction)} {rng : Rng} {payloads : List Bytes}
    (hauth : ∀ wire ∈ relayedFrames { plan, rng } (senderFrames s payloads),
      c.suite.Authenticates wire → wire ∈ senderFrames s payloads)
    {toActor toReceiver : ℕ+} {as : List NetworkAction} {net : Network}
    (h : Schedule.run step (start toActor toReceiver s { plan, rng } { receiver := c.new } payloads) as =
      some net) :
    let o := sequentially ⟨s, .running⟩ ⟨{ plan, rng }, .running⟩ ⟨{ receiver := c.new }, .running⟩ payloads
    let log := o.actor.state.log
    net.actor.thread.state.log <+: log ∧
      net.receiver.thread.state.log.map Verdict.judgement <+: answers payloads c.replay_window 0 log ∧
        (Schedule.Stuck step net → net.actor.thread.state.log = log ∧
          net.receiver.thread.state.log.map Verdict.judgement = answers payloads c.replay_window 0 log ∧
            net.receiver.thread.status = .returned) := by
  intro o log
  obtain ⟨frames, relayed, hdue⟩ := due_of_run h
  obtain ⟨t, hclose, ht⟩ := answered_of_sequentially hreceives hseals hdoc hauth
  have hverdicts := ht.verdicts
  rw [← t.state_close, ← hclose] at hverdicts
  refine ⟨hdue.log_prefix.1, ?_, fun hstuck => ?_⟩
  · rw [← hverdicts]
    exact hdue.log_prefix.2.map Verdict.judgement
  · have hrefines := hdue.refines (stuck_iff.mp hstuck)
    have hreturned : o.receiver.status = .returned := by
      rw [hclose]
      exact Thread.status_close_of_running ht.running
    -- A receiver that does not raise leaves the actor to its own end.
    have hactor := hrefines.actor_eq (Status.not_raises_of_returned hreturned)
    have hreceiver : net.receiver.thread = o.receiver := hrefines.receiver
    refine ⟨congrArg (·.state.log) hactor, ?_, ?_⟩
    · rw [hreceiver]
      exact hverdicts
    · rw [hreceiver]
      exact hreturned

/-- The plan of an example: the second record is changed, and the first one is replayed after the third. -/
def examplePlan : List (ℕ × ActorAction) := [(1, .flipTag), (2, .replay)]

/-- The receiver of the example gets the session of the sender. -/
theorem receives_checksumConfig : Receives checksumConfig checksumSender :=
  ⟨rfl, fun pin hpin => by cases hpin; rfl, by decide, by decide⟩

/-- What opens of the frames that are relayed in the example are frames of the sender. -/
theorem unforged_examplePlan :
    ∀ wire ∈ relayedFrames { plan := examplePlan, rng := ⟨fun _ => 0⟩ }
        (senderFrames checksumSender [[1], [2], [3]]),
      checksumConfig.suite.Authenticates wire → wire ∈ senderFrames checksumSender [[1], [2], [3]] := by
  decide +kernel

/-- A schedule that the example comes to rest by. -/
theorem exists_stuck_examplePlan : ∃ as net, Schedule.run step
    (start 40 64 checksumSender { plan := examplePlan, rng := ⟨fun _ => 0⟩ }
      { receiver := checksumConfig.new } [[1], [2], [3]]) as = some net ∧ Schedule.Stuck step net := by
  obtain ⟨net, ⟨as, h⟩, hstuck⟩ := Schedule.exists_stuck below_wf
    (fun _ _ _ hstep => (step_moves hstep).below)
    (start 40 64 checksumSender { plan := examplePlan, rng := ⟨fun _ => 0⟩ }
      { receiver := checksumConfig.new } [[1], [2], [3]])
  exact ⟨as, net, h, hstuck⟩

/-- The example has its verdicts. -/
theorem relay_verdicts_of_example : ∃ net : Network,
    net.receiver.thread.state.log.map Verdict.judgement =
      answers [[1], [2], [3]] 64 0 net.actor.thread.state.log := by
  obtain ⟨as, net, h, hstuck⟩ := exists_stuck_examplePlan
  obtain ⟨-, -, hrest⟩ := relay_verdicts receives_checksumConfig Backend.checksum_seals
    Backend.checksum_documented unforged_examplePlan h
  obtain ⟨hlog, hverdicts, -⟩ := hrest hstuck
  rw [← hlog] at hverdicts
  exact ⟨net, hverdicts⟩

/-- The network does what the plan says. Over a correct library and on a 32-bit stream, let the payloads be
within the limit and not empty. Then whatever the plan, the random choices, the connections, and the
schedule, once nothing can move the sender has returned, or raised `NonceExhaustedError` if there were more
payloads than its budget permits, and the actor and the receiver have returned. The log of the actor is the
one that the plan calls for on the records sent, and the receiver has answered it entry by entry. -/
theorem relay_follows_plan {c : ReceiverConfig} {s : Sender} (hreceives : Receives c s)
    (hcorrect : s.suite.impl.Correct) (hstream : 0 ≤ s.stream_id ∧ s.stream_id ≤ 0xFFFFFFFF)
    {plan : List (ℕ × ActorAction)} {rng : Rng} {payloads : List Bytes}
    (hpayloads : ∀ payload ∈ payloads, payload ≠ [] ∧ payload.length ≤ maxPayloadLen)
    (hauth : ∀ wire ∈ relayedFrames { plan, rng } (senderFrames s payloads),
      c.suite.Authenticates wire → wire ∈ senderFrames s payloads)
    {toActor toReceiver : ℕ+} {as : List NetworkAction} {net : Network}
    (h : Schedule.run step (start toActor toReceiver s { plan, rng } { receiver := c.new } payloads) as =
      some net)
    (hstuck : Schedule.Stuck step net) :
    let log := planLog plan (min (payloads.length : ℤ) s.nonces.remaining).toNat
    (net.sender.status = if (payloads.length : ℤ) ≤ s.nonces.remaining then .returned
      else .raised (.error s.nonces.exhaustedError)) ∧
      net.actor.thread.status = .returned ∧ net.receiver.thread.status = .returned ∧
        net.actor.thread.state.log = log ∧
          net.receiver.thread.state.log.map Verdict.judgement =
            answers payloads c.replay_window 0 log := by
  intro log
  obtain ⟨hsender, hactor, hlog, t, hclose, ht⟩ :=
    sequentially_follows_plan hreceives hcorrect hstream hpayloads hauth
  have hreturned := Thread.status_close_of_running ht.running
  have houtcome := outcome_eq_of_run h hstuck (Status.not_raises_of_returned hactor)
    (Status.not_raises_of_returned (hclose ▸ hreturned))
  rw [← houtcome] at hsender hactor hlog hclose
  have hreceiver : net.receiver.thread = t.close := hclose
  refine ⟨hsender, hactor, ?_, hlog, ?_⟩
  · rw [hreceiver]
    exact hreturned
  · rw [hreceiver, Thread.state_close]
    exact ht.verdicts

/-- In the example, the second frame is rejected as not authentic, and the replay as such. -/
theorem relay_follows_plan_of_example : ∃ net : Network,
    net.sender.status = .returned ∧ net.receiver.thread.state.log.map Verdict.judgement =
      [.accepted [1], .rejected .AUTH_FAILED, .accepted [3], .rejected .REPLAY_DETECTED] := by
  obtain ⟨as, net, h, hstuck⟩ := exists_stuck_examplePlan
  obtain ⟨hsender, -, -, -, hverdicts⟩ := relay_follows_plan receives_checksumConfig
    Backend.checksum_correct (by decide) (by decide) unforged_examplePlan h hstuck
  exact ⟨net, hsender, hverdicts⟩

end Srp
