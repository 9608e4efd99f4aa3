import Mathlib.Data.Prod.Lex
import Srp.Network
import Srp.Schedule

/-!
# The interleavings of the network

What the schedules of the threads have in common. Every step is one of `Network.Moves`, and none of them changes
how the threads are due to end (`Network.Due.step`), so nothing of the interleaving shows in what they leave
behind, but in how far a thread got before it found its reader gone (`network_refines_pipeline`). Every step
leaves less to do, and one is enabled as long as any thread runs, although a send waits for room and a read for
bytes, so no schedule deadlocks (`network_comes_to_rest`).
-/

namespace Srp

open Framing Pipeline

namespace Network

/-! ## What a step does -/

/-- What one step can do. -/
inductive Moves (net : Network) : Network → Prop
  | transmit {payload : Bytes} {unsent : List Bytes} {sender : Worker Raised Sender}
    (hu : net.unsent = payload :: unsent) (hs : net.sender.take framePrefixLen senderTurn payload = some sender) :
    Moves net { net with sender, unsent }
  | senderSend {n : ℕ} {bytes : Bytes} {sender : Worker Raised Sender} {link : Link framePrefixLen}
    (hs : net.sender.send framePrefixLen n = some (bytes, sender)) (hopen : net.actor.thread.status = .running)
    (hw : net.actor.link.write bytes = some link) :
    Moves net { net with sender, actor := { net.actor with link } }
  | senderLose {n : ℕ} {bytes : Bytes} {sender : Worker Raised Sender}
    (hs : net.sender.send framePrefixLen n = some (bytes, sender)) (hclosed : net.actor.thread.status ≠ .running) :
    Moves net { net with sender }
  | senderBreak {sender : Worker Raised Sender} (hs : net.sender.fail .connectionError = some sender)
    (hclosed : net.actor.thread.status ≠ .running) : Moves net { net with sender }
  | hangUp {sender : Worker Raised Sender} (hu : net.unsent = []) (hs : net.sender.finish = some sender) :
    Moves net { net with sender }
  | actorRecv {n : ℕ} {actor : Stage framePrefixLen (Worker Raised ActorEntity)}
    (hr : net.actor.recv ActorEntity.turn n = some actor) : Moves net { net with actor }
  | actorSend {n : ℕ} {bytes : Bytes} {thread : Worker Raised ActorEntity} {link : Link framePrefixLen}
    (hs : net.actor.thread.send framePrefixLen n = some (bytes, thread))
    (hopen : net.receiver.thread.status = .running) (hw : net.receiver.link.write bytes = some link) :
    Moves net { net with actor := { net.actor with thread }, receiver := { net.receiver with link } }
  | actorLose {n : ℕ} {bytes : Bytes} {thread : Worker Raised ActorEntity}
    (hs : net.actor.thread.send framePrefixLen n = some (bytes, thread))
    (hclosed : net.receiver.thread.status ≠ .running) :
    Moves net { net with actor := { net.actor with thread } }
  | actorBreak {thread : Worker Raised ActorEntity} (hs : net.actor.thread.fail .connectionError = some thread)
    (hclosed : net.receiver.thread.status ≠ .running) :
    Moves net { net with actor := { net.actor with thread } }
  | actorFinish {thread : Worker Raised ActorEntity} (hclosed : net.sender.status ≠ .running)
    (hempty : net.actor.link.inflight = []) (hs : net.actor.thread.finish = some thread) :
    Moves net { net with actor := { net.actor with thread } }
  | receiverRecv {n : ℕ} {receiver : Stage framePrefixLen (Thread Raised ReceiverEntity)}
    (hr : net.receiver.read ReceiverEntity.turn n = some receiver) : Moves net { net with receiver }
  | receiverFinish (hs : net.receiver.thread.status = .running) (hclosed : net.actor.thread.status ≠ .running)
    (hempty : net.receiver.link.inflight = []) :
    Moves net { net with receiver := { net.receiver with thread := net.receiver.thread.close } }

variable {net net' : Network} {o : NetworkOutcome}

/-- Every step is one of these. -/
theorem step_moves {a : NetworkAction} (h : net.step a = some net') : net.Moves net' := by
  cases a with
  | transmit =>
    simp only [step] at h
    split at h
    · cases h
    · obtain ⟨sender, hs, rfl⟩ := Option.map_eq_some_iff.mp h
      exact .transmit ‹_› hs
  | senderSend n =>
    obtain ⟨⟨bytes, sender⟩, hs, h⟩ := Option.bind_eq_some_iff.mp h
    obtain ⟨actor, hw, rfl⟩ := Option.map_eq_some_iff.mp h
    by_cases hopen : net.actor.thread.status = .running
    · obtain ⟨link, hlink, rfl⟩ := Stage.accept_of_running hopen hw
      exact .senderSend hs hopen hlink
    · rw [Stage.accept_of_ended hopen hw]
      exact .senderLose hs hopen
  | senderBreak =>
    simp only [step] at h
    split_ifs at h with hclosed
    obtain ⟨sender, hs, rfl⟩ := Option.map_eq_some_iff.mp h
    exact .senderBreak hs hclosed
  | hangUp =>
    simp only [step] at h
    split_ifs at h with hu
    obtain ⟨sender, hs, rfl⟩ := Option.map_eq_some_iff.mp h
    exact .hangUp hu hs
  | actorRecv n =>
    obtain ⟨actor, hr, rfl⟩ := Option.map_eq_some_iff.mp h
    exact .actorRecv hr
  | actorSend n =>
    obtain ⟨⟨bytes, thread⟩, hs, h⟩ := Option.bind_eq_some_iff.mp h
    obtain ⟨receiver, hw, rfl⟩ := Option.map_eq_some_iff.mp h
    by_cases hopen : net.receiver.thread.status = .running
    · obtain ⟨link, hlink, rfl⟩ := Stage.accept_of_running hopen hw
      exact .actorSend hs hopen hlink
    · rw [Stage.accept_of_ended hopen hw]
      exact .actorLose hs hopen
  | actorBreak =>
    simp only [step] at h
    split_ifs at h with hclosed
    obtain ⟨thread, hs, rfl⟩ := Option.map_eq_some_iff.mp h
    exact .actorBreak hs hclosed
  | actorFinish =>
    simp only [step] at h
    split_ifs at h with hend
    obtain ⟨thread, hs, rfl⟩ := Option.map_eq_some_iff.mp h
    exact .actorFinish hend.1 hend.2 hs
  | receiverRecv n =>
    obtain ⟨receiver, hr, rfl⟩ := Option.map_eq_some_iff.mp h
    exact .receiverRecv hr
  | receiverFinish =>
    simp only [step] at h
    split_ifs at h with hend
    cases h
    exact .receiverFinish hend.1 hend.2.1 hend.2.2

/-! ## What the network will come to -/

/-- How the threads will end from here, with what the actor and the receiver will still be handed. -/
structure Due (net : Network) (o : NetworkOutcome) (toActor toReceiver : List Bytes) : Prop where
  sender : net.sender.EndsAs senderTurn (fun _ _ => True) .connectionError net.actor.thread.status.Raises
    net.unsent o.sender
  actor : net.actor.thread.EndsAs ActorEntity.turn ActorEntity.LogExtends .connectionError
    net.receiver.thread.status.Raises toActor o.actor
  receiver : (net.receiver.thread.after ReceiverEntity.turn toReceiver).close = o.receiver
  /-- What the sender will send is what the actor will be handed, as long as it reads. -/
  feedsActor : net.actor.thread.status = .running →
    Feeds senderTurn net.sender net.unsent net.actor.link toActor
  feedsReceiver : net.receiver.thread.status = .running →
    Feeds ActorEntity.turn net.actor.thread toActor net.receiver.link toReceiver
  /-- Who has returned found the end of its connection. -/
  actorReturned : net.actor.thread.status = .returned → net.sender.status ≠ .running
  receiverReturned : net.receiver.thread.status = .returned → net.actor.thread.status ≠ .running

/-- Before they start, the threads will end as the loops do one after the other. -/
theorem due_start (toActor toReceiver : ℕ+) (sender : Sender) (actor : ActorEntity) (receiver : ReceiverEntity)
    (payloads : List Bytes) :
    ∃ frames relayed, (start toActor toReceiver sender actor receiver payloads).Due
      (sequentially ⟨sender, .running⟩ ⟨actor, .running⟩ ⟨receiver, .running⟩ payloads) frames relayed :=
  ⟨_, _, Worker.endsAs_new sender payloads, Worker.endsAs_new actor _, rfl,
    fun _ => feeds_new fits_of_senderTurn sender payloads toActor,
    fun _ => feeds_new ActorEntity.fits_of_turn actor _ toReceiver, nofun, nofun⟩

/-- The actor only reads on if it runs, so a sender that runs has no reader that returned. -/
theorem Due.actor_raises {frames relayed : List Bytes} (h : net.Due o frames relayed)
    (hs : net.sender.status = .running) (ha : net.actor.thread.status ≠ .running) :
    net.actor.thread.status.Raises := by
  match hstatus : net.actor.thread.status with
  | .running => exact absurd hstatus ha
  | .returned => exact absurd hs (h.actorReturned hstatus)
  | .raised e => exact ⟨e, rfl⟩

/-- The same for the actor and the receiver. -/
theorem Due.receiver_raises {frames relayed : List Bytes} (h : net.Due o frames relayed)
    (ha : net.actor.thread.status = .running) (hr : net.receiver.thread.status ≠ .running) :
    net.receiver.thread.status.Raises := by
  match hstatus : net.receiver.thread.status with
  | .running => exact absurd hstatus hr
  | .returned => exact absurd ha (h.receiverReturned hstatus)
  | .raised e => exact ⟨e, rfl⟩

/-- The logs so far are the beginnings of those that the threads will end with. -/
theorem Due.log_prefix {frames relayed : List Bytes} (h : net.Due o frames relayed) :
    net.actor.thread.state.log <+: o.actor.state.log ∧
      net.receiver.thread.state.log <+: o.receiver.state.log := by
  constructor
  · exact h.actor.related (R := ActorEntity.LogExtends) (fun _ => List.prefix_rfl)
      (fun _ _ _ => List.IsPrefix.trans) ActorEntity.steady_turn
  · rw [← h.receiver, Thread.state_close]
    exact Thread.after_related (R := ReceiverEntity.LogExtends) (fun _ => List.prefix_rfl)
      (fun _ _ _ => List.IsPrefix.trans) ReceiverEntity.steady_turn _ _

/-- No step changes how the threads will end. -/
theorem Due.step {frames relayed : List Bytes} (h : net.Due o frames relayed) (hm : net.Moves net') :
    ∃ frames' relayed', net'.Due o frames' relayed' := by
  cases hm with
  | @transmit payload unsent sender hu hs =>
    have hsender := h.sender
    have hfeeds := h.feedsActor
    rw [hu] at hsender hfeeds
    exact ⟨frames, relayed, { h with
      sender := hsender.take (fun _ _ => Turn.steady_true _ _) hs
      feedsActor := fun ha => (hfeeds ha).take hs
      actorReturned := fun ha => absurd (Worker.take_eq_some hs).1 (h.actorReturned ha) }⟩
  | senderSend hs hopen hw =>
    exact ⟨frames, relayed, { h with
      sender := h.sender.send hs
      feedsActor := fun ha => (h.feedsActor ha).send hs hw
      actorReturned := fun ha => absurd (Worker.status_send hs).1 (h.actorReturned ha) }⟩
  | senderLose hs hclosed =>
    exact ⟨frames, relayed, { h with
      sender := h.sender.send hs
      feedsActor := fun ha => absurd ha hclosed
      actorReturned := fun ha => absurd (Worker.status_send hs).1 (h.actorReturned ha) }⟩
  | senderBreak hs hclosed =>
    have hrunning := (Worker.fail_eq_some hs).1
    exact ⟨frames, relayed, { h with
      sender := h.sender.fail (fun _ => trivial) (fun _ _ _ _ _ => trivial) (fun _ _ => Turn.steady_true _ _) hs
        (h.actor_raises hrunning hclosed)
      feedsActor := fun ha => absurd ha hclosed
      actorReturned := fun ha => absurd hrunning (h.actorReturned ha) }⟩
  | hangUp hu hs =>
    have hsender := h.sender
    have hfeeds := h.feedsActor
    rw [hu] at hsender hfeeds
    refine ⟨frames, relayed, { h with
      sender := ?_
      feedsActor := fun ha => ?_
      actorReturned := fun ha => absurd (Worker.finish_eq_some hs).1 (h.actorReturned ha) }⟩
    · dsimp only
      rw [hu]
      exact hsender.finish hs
    · dsimp only
      rw [hu]
      exact (hfeeds ha).finish hs
  | @actorRecv n actor hr =>
    obtain ⟨hrunning, m, hlink, hcase⟩ := Stage.recv_eq_some hr
    obtain ⟨link, thread⟩ := actor
    rcases (h.feedsActor hrunning).recv hlink with ⟨rfl, hfeeds⟩ | ⟨m, frames', rfl, rfl, hfeeds⟩
    · obtain ⟨-, rfl⟩ | ⟨m, hm, -⟩ := hcase
      · exact ⟨frames, relayed, { h with feedsActor := fun _ => hfeeds }⟩
      · cases hm
    · obtain ⟨hm, -⟩ | ⟨m', hm, ht⟩ := hcase
      · cases hm
      · obtain rfl := Option.some.inj hm
        have hnot : thread.status ≠ .returned := by
          have hresumed : thread = _ := (Worker.take_eq_some ht).2.2
          rw [hresumed]
          exact Worker.resume_ne_returned _
        exact ⟨frames', relayed, { h with
          sender := h.sender.of_not (Status.not_raises_of_running hrunning)
          actor := h.actor.take ActorEntity.steady_turn ht
          feedsActor := fun _ => hfeeds
          feedsReceiver := fun hopen => (h.feedsReceiver hopen).take ht
          actorReturned := fun ha => absurd ha hnot
          receiverReturned := fun hreturned => absurd hrunning (h.receiverReturned hreturned) }⟩
  | actorSend hs hopen hw =>
    obtain ⟨hrunning, hnot⟩ := Worker.status_send hs
    exact ⟨frames, relayed, { h with
      sender := h.sender.of_not (Status.not_raises_of_running hrunning)
      actor := h.actor.send hs
      feedsActor := fun _ => h.feedsActor hrunning
      feedsReceiver := fun hr => (h.feedsReceiver hr).send hs hw
      actorReturned := fun ha => absurd ha hnot
      receiverReturned := fun hreturned => absurd hrunning (h.receiverReturned hreturned) }⟩
  | actorLose hs hclosed =>
    obtain ⟨hrunning, hnot⟩ := Worker.status_send hs
    exact ⟨frames, relayed, { h with
      sender := h.sender.of_not (Status.not_raises_of_running hrunning)
      actor := h.actor.send hs
      feedsActor := fun _ => h.feedsActor hrunning
      feedsReceiver := fun hr => absurd hr hclosed
      actorReturned := fun ha => absurd ha hnot
      receiverReturned := fun hreturned => absurd hrunning (h.receiverReturned hreturned) }⟩
  | actorBreak hs hclosed =>
    obtain ⟨hrunning, rfl⟩ := Worker.fail_eq_some hs
    exact ⟨frames, relayed, { h with
      sender := h.sender.of_not (Status.not_raises_of_running hrunning)
      actor := h.actor.fail (fun _ => List.prefix_rfl) (fun _ _ _ => List.IsPrefix.trans)
        ActorEntity.steady_turn hs (h.receiver_raises hrunning hclosed)
      feedsActor := nofun
      feedsReceiver := fun hr => absurd hr hclosed
      actorReturned := nofun
      receiverReturned := fun _ => nofun }⟩
  | actorFinish hclosed hempty hs =>
    obtain ⟨hrunning, -, hended⟩ := Worker.finish_eq_some hs
    obtain rfl := (h.feedsActor hrunning).eq_nil hclosed hempty
    have hactor := h.actor.finish hs
    have hfeeds (hr : net.receiver.thread.status = .running) := (h.feedsReceiver hr).finish hs
    rw [hended] at hactor hfeeds ⊢
    exact ⟨[], relayed, { h with
      sender := h.sender.of_not (Status.not_raises_of_running hrunning)
      actor := hactor
      feedsActor := nofun
      feedsReceiver := hfeeds
      actorReturned := fun _ => hclosed
      receiverReturned := fun _ => nofun }⟩
  | @receiverRecv n receiver hr =>
    obtain ⟨hrunning, m, hlink, hcase⟩ := Stage.read_eq_some hr
    obtain ⟨link, thread⟩ := receiver
    rcases (h.feedsReceiver hrunning).recv hlink with ⟨rfl, hfeeds⟩ | ⟨m, relayed', rfl, rfl, hfeeds⟩
    · obtain ⟨-, rfl⟩ | ⟨m, hm, -⟩ := hcase
      · exact ⟨frames, relayed, { h with feedsReceiver := fun _ => hfeeds }⟩
      · cases hm
    · obtain ⟨hm, -⟩ | ⟨m', hm, rfl⟩ := hcase
      · cases hm
      · obtain rfl := Option.some.inj hm
        exact ⟨frames, relayed', { h with
          actor := h.actor.of_not (Status.not_raises_of_running hrunning)
          receiver := h.receiver
          feedsReceiver := fun _ => hfeeds
          receiverReturned := fun hreturned => absurd hreturned (Thread.step_ne_returned hrunning m) }⟩
  | receiverFinish hs hclosed hempty =>
    obtain rfl := (h.feedsReceiver hs).eq_nil hclosed hempty
    have hended := net.receiver.thread.status_close
    have hreceiver : (net.receiver.thread.close.after ReceiverEntity.turn []).close = o.receiver := by
      rw [Thread.after_nil, Thread.close_of_ended hended]
      exact h.receiver
    exact ⟨frames, [], { h with
      actor := h.actor.of_not (Status.not_raises_of_running hs)
      receiver := hreceiver
      feedsReceiver := fun hr => absurd hr hended
      receiverReturned := fun _ => hclosed }⟩

/-- What a schedule leads to is due to end as the loops do one after the other. -/
theorem due_of_run {toActor toReceiver : ℕ+} {sender : Sender} {actor : ActorEntity}
    {receiver : ReceiverEntity} {payloads : List Bytes} {as : List NetworkAction} {net : Network}
    (h : Schedule.run Network.step (start toActor toReceiver sender actor receiver payloads) as = some net) :
    ∃ frames relayed, net.Due
      (sequentially ⟨sender, .running⟩ ⟨actor, .running⟩ ⟨receiver, .running⟩ payloads) frames relayed := by
  refine Schedule.run_invariant (P := fun net => ∃ frames relayed, net.Due
    (sequentially ⟨sender, .running⟩ ⟨actor, .running⟩ ⟨receiver, .running⟩ payloads) frames relayed) ?_ h
    (due_start toActor toReceiver sender actor receiver payloads)
  rintro net a net' ⟨frames, relayed, hdue⟩ hstep
  exact hdue.step (step_moves hstep)

/-! ## Coming to rest -/

/-- No thread runs. -/
structure Ended (net : Network) : Prop where
  sender : net.sender.status ≠ .running
  actor : net.actor.thread.status ≠ .running
  receiver : net.receiver.thread.status ≠ .running

instance : DecidablePred Ended := fun net =>
  decidable_of_iff (net.sender.status ≠ .running ∧ net.actor.thread.status ≠ .running ∧
    net.receiver.thread.status ≠ .running) ⟨fun h => ⟨h.1, h.2.1, h.2.2⟩, fun h => ⟨h.1, h.2, h.3⟩⟩

/-- How the threads have ended. -/
def outcome (net : Network) : NetworkOutcome :=
  ⟨net.sender.thread, net.actor.thread.thread, net.receiver.thread⟩

/-- When every thread has ended, they have ended as they would, up to those that found their readers gone. -/
theorem Due.refines {frames relayed : List Bytes} (h : net.Due o frames relayed) (he : net.Ended) :
    net.outcome.Refines o := by
  have hreceiver := h.receiver
  obtain ⟨-, hafter⟩ := Thread.sent_of_ended ReceiverEntity.turn he.receiver relayed
  rw [hafter, Thread.close_of_ended he.receiver] at hreceiver
  exact ⟨hreceiver, h.actor.of_ended he.actor, h.sender.of_ended he.sender⟩

/-- A lexicographic descent, where the first component does not go up and the others go down. -/
theorem lex_of_le {α : Type*} {r : α → α → Prop} {m n : ℕ} {x y : α} (h : m ≤ n) (hr : r x y) :
    Prod.Lex (· < ·) r (m, x) (n, y) := by
  rcases h.lt_or_eq with hlt | rfl
  · exact .left _ _ hlt
  · exact .right _ hr

/-- What is left to do: payloads and bytes to send, and bytes to read, the sender first. -/
def remaining (net : Network) : ℕ × ℕ × ℕ × ℕ × ℕ :=
  (net.unsent.length + net.sender.alive, net.sender.left framePrefixLen,
    net.actor.link.inflight.length + net.actor.thread.alive, net.actor.thread.left framePrefixLen,
    net.receiver.link.inflight.length + net.receiver.thread.alive)

/-- The network after a step, and before it. -/
def Below (net' net : Network) : Prop :=
  Prod.Lex (· < ·) (Prod.Lex (· < ·) (Prod.Lex (· < ·) (Prod.Lex (· < ·) (· < ·)))) net'.remaining net.remaining

/-- There is no endless descent. -/
theorem below_wf : WellFounded Below :=
  InvImage.wf remaining (Nat.lt_wfRel.wf.prod_lex (Nat.lt_wfRel.wf.prod_lex (Nat.lt_wfRel.wf.prod_lex
    (Nat.lt_wfRel.wf.prod_lex Nat.lt_wfRel.wf))))

/-- Every step leaves less to do: a turn that begins takes an input, and one that goes on hands over bytes. -/
theorem Moves.below (h : net.Moves net') : Below net' net := by
  unfold Below remaining
  cases h with
  | @transmit payload unsent sender hu hs =>
    have halive := Worker.alive_of_running (Worker.take_eq_some hs).1
    have hle := sender.alive_le_one
    refine .left _ _ ?_
    rw [hu, List.length_cons]
    dsimp only
    omega
  | senderSend hs hopen hw =>
    obtain ⟨hleft, halive⟩ := Worker.left_send hs
    exact lex_of_le (Nat.add_le_add_left halive _) (.left _ _ hleft)
  | senderLose hs hclosed =>
    obtain ⟨hleft, halive⟩ := Worker.left_send hs
    exact lex_of_le (Nat.add_le_add_left halive _) (.left _ _ hleft)
  | senderBreak hs hclosed =>
    obtain ⟨hrunning, rfl⟩ := Worker.fail_eq_some hs
    exact .left _ _ (Nat.add_lt_add_left (Worker.alive_ended_lt hrunning) _)
  | hangUp hu hs =>
    obtain ⟨hrunning, -, rfl⟩ := Worker.finish_eq_some hs
    exact .left _ _ (Nat.add_lt_add_left (Worker.alive_ended_lt hrunning) _)
  | @actorRecv n actor hr =>
    obtain ⟨hrunning, o, hlink, -⟩ := Stage.recv_eq_some hr
    have hlength := Link.length_recv hlink
    have halive := Worker.alive_of_running hrunning
    have hle := actor.thread.alive_le_one
    refine .right _ (.right _ (.left _ _ ?_))
    dsimp only
    omega
  | actorSend hs hopen hw =>
    obtain ⟨hleft, halive⟩ := Worker.left_send hs
    exact .right _ (.right _ (lex_of_le (Nat.add_le_add_left halive _) (.left _ _ hleft)))
  | actorLose hs hclosed =>
    obtain ⟨hleft, halive⟩ := Worker.left_send hs
    exact .right _ (.right _ (lex_of_le (Nat.add_le_add_left halive _) (.left _ _ hleft)))
  | actorBreak hs hclosed =>
    obtain ⟨hrunning, rfl⟩ := Worker.fail_eq_some hs
    exact .right _ (.right _ (.left _ _ (Nat.add_lt_add_left (Worker.alive_ended_lt hrunning) _)))
  | actorFinish hclosed hempty hs =>
    obtain ⟨hrunning, -, hended⟩ := Worker.finish_eq_some hs
    have hless : (Worker.ended net.actor.thread.state none).alive < net.actor.thread.alive :=
      Worker.alive_ended_lt hrunning
    rw [← hended] at hless
    exact .right _ (.right _ (.left _ _ (Nat.add_lt_add_left hless _)))
  | @receiverRecv n receiver hr =>
    obtain ⟨hrunning, o, hlink, -⟩ := Stage.read_eq_some hr
    have hlength := Link.length_recv hlink
    have halive := Thread.alive_eq_one hrunning
    have hle := receiver.thread.alive_le_one
    refine .right _ (.right _ (.right _ (.right _ ?_)))
    dsimp only
    omega
  | receiverFinish hs hclosed hempty =>
    refine .right _ (.right _ (.right _ (.right _ (Nat.add_lt_add_left ?_ _))))
    rw [Thread.alive_eq_one hs, Thread.alive_of_ended net.receiver.thread.status_close]
    exact Nat.one_pos

/-- Only a network with a thread that runs takes a step. -/
theorem Moves.not_ended (h : net.Moves net') : ¬net.Ended := by
  intro hended
  cases h with
  | transmit hu hs => exact hended.sender (Worker.take_eq_some hs).1
  | senderSend hs hopen hw => exact hended.sender (Worker.status_send hs).1
  | senderLose hs hclosed => exact hended.sender (Worker.status_send hs).1
  | senderBreak hs hclosed => exact hended.sender (Worker.fail_eq_some hs).1
  | hangUp hu hs => exact hended.sender (Worker.finish_eq_some hs).1
  | actorRecv hr => exact hended.actor (Stage.recv_eq_some hr).1
  | actorSend hs hopen hw => exact hended.actor (Worker.status_send hs).1
  | actorLose hs hclosed => exact hended.actor (Worker.status_send hs).1
  | actorBreak hs hclosed => exact hended.actor (Worker.fail_eq_some hs).1
  | actorFinish hclosed hempty hs => exact hended.actor (Worker.finish_eq_some hs).1
  | receiverRecv hr => exact hended.receiver (Stage.read_eq_some hr).1
  | receiverFinish hs hclosed hempty => exact hended.receiver hs

section Stuck

variable (h : Schedule.Stuck step net)

include h

/-- A stuck receiver that runs has nothing to read. -/
theorem receiver_inflight_of_stuck (hr : net.receiver.thread.status = .running) :
    net.receiver.link.inflight = [] := by
  by_contra hne
  obtain ⟨receiver, hread⟩ := Stage.exists_read ReceiverEntity.turn hr hne
  have hstep : net.step (.receiverRecv 1) = some { net with receiver } :=
    Option.map_eq_some_iff.mpr ⟨receiver, hread, rfl⟩
  exact h.not_enabled hstep

/-- A stuck actor does not wait to send: its reader has ended, or has read all there is. -/
theorem actor_pending_of_stuck : net.actor.thread.pending = [] := by
  by_contra hne
  by_cases hopen : net.receiver.thread.status = .running
  · obtain ⟨bytes, thread, hs, hlen⟩ := Worker.exists_send framePrefixLen hne
    obtain ⟨receiver, haccept⟩ := Stage.exists_accept net.receiver.thread.status hlen
      (receiver_inflight_of_stuck h hopen)
    have hstep : net.step (.actorSend 1) = some { net with actor := { net.actor with thread }, receiver } :=
      Option.bind_eq_some_iff.mpr ⟨_, hs, Option.map_eq_some_iff.mpr ⟨receiver, haccept, rfl⟩⟩
    exact h.not_enabled hstep
  · obtain ⟨thread, hfail⟩ := Worker.exists_fail Raised.connectionError hne
    have hstep : net.step .actorBreak = some { net with actor := { net.actor with thread } } := by
      simp only [step, if_pos hopen, hfail]
      rfl
    exact h.not_enabled hstep

/-- A stuck actor that runs waits for more, with nothing to read. -/
theorem actor_inflight_of_stuck (ha : net.actor.thread.status = .running) :
    net.actor.link.inflight = [] ∧ ∃ state, net.actor.thread = .reading state := by
  obtain ⟨state, hstate⟩ | hsending := Worker.reading_or_sending ha
  · refine ⟨?_, state, hstate⟩
    by_contra hne
    obtain ⟨actor, hrecv⟩ := Stage.exists_recv ActorEntity.turn hstate hne
    have hstep : net.step (.actorRecv 1) = some { net with actor } :=
      Option.map_eq_some_iff.mpr ⟨actor, hrecv, rfl⟩
    exact h.not_enabled hstep
  · exact absurd (actor_pending_of_stuck h) hsending

/-- Nor does a stuck sender wait to send. -/
theorem sender_pending_of_stuck : net.sender.pending = [] := by
  by_contra hne
  by_cases hopen : net.actor.thread.status = .running
  · obtain ⟨bytes, sender, hs, hlen⟩ := Worker.exists_send framePrefixLen hne
    obtain ⟨actor, haccept⟩ := Stage.exists_accept net.actor.thread.status hlen
      (actor_inflight_of_stuck h hopen).1
    have hstep : net.step (.senderSend 1) = some { net with sender, actor } :=
      Option.bind_eq_some_iff.mpr ⟨_, hs, Option.map_eq_some_iff.mpr ⟨actor, haccept, rfl⟩⟩
    exact h.not_enabled hstep
  · obtain ⟨sender, hfail⟩ := Worker.exists_fail Raised.connectionError hne
    have hstep : net.step .senderBreak = some { net with sender } := by
      simp only [step, if_pos hopen, hfail]
      rfl
    exact h.not_enabled hstep

/-- A stuck sender has ended: it has payloads to send, or else hangs up. -/
theorem sender_of_stuck : net.sender.status ≠ .running := by
  intro hs
  obtain ⟨state, hstate⟩ | hsending := Worker.reading_or_sending hs
  · cases hu : net.unsent with
    | nil =>
      have hstep : net.step .hangUp = some { net with sender := .ended state none } := by
        simp only [step, if_pos hu, hstate]
        rfl
      exact h.not_enabled hstep
    | cons payload unsent =>
      have hstep : ∃ net', net.step .transmit = some net' := by
        simp only [step, hu, hstate]
        exact ⟨_, rfl⟩
      obtain ⟨net', hstep⟩ := hstep
      exact h.not_enabled hstep
  · exact absurd (sender_pending_of_stuck h) hsending

/-- So the actor finds the end of its connection. -/
theorem actor_of_stuck : net.actor.thread.status ≠ .running := by
  intro ha
  obtain ⟨hempty, state, hstate⟩ := actor_inflight_of_stuck h ha
  have hstep : net.step .actorFinish =
      some { net with actor := { net.actor with thread := .ended state none } } := by
    simp only [step, if_pos (And.intro (sender_of_stuck h) hempty), hstate]
    rfl
  exact h.not_enabled hstep

/-- And the receiver that of its own. -/
theorem receiver_of_stuck : net.receiver.thread.status ≠ .running := by
  intro hr
  have hstep : net.step .receiverFinish =
      some { net with receiver := { net.receiver with thread := net.receiver.thread.close } } :=
    if_pos ⟨hr, actor_of_stuck h, receiver_inflight_of_stuck h hr⟩
  exact h.not_enabled hstep

end Stuck

/-- Nothing moves if and only if every thread has ended: no thread waits for another forever. -/
theorem stuck_iff : Schedule.Stuck step net ↔ net.Ended := by
  refine ⟨fun h => ⟨sender_of_stuck h, actor_of_stuck h, receiver_of_stuck h⟩, fun h a => ?_⟩
  by_contra hne
  obtain ⟨net', hstep⟩ := Option.ne_none_iff_exists'.mp hne
  exact (step_moves hstep).not_ended h

end Network

/-- Where the receiver does not raise, the actor does not find it gone. -/
theorem NetworkOutcome.Refines.actor_eq {n o : NetworkOutcome} (h : n.Refines o)
    (hr : ¬o.receiver.status.Raises) : n.actor = o.actor :=
  h.actor.resolve_right fun ⟨_, hraises⟩ => hr (h.receiver ▸ hraises)

/-- Where neither the actor nor the receiver raises, no thread finds its reader gone. -/
theorem NetworkOutcome.Refines.eq {n o : NetworkOutcome} (h : n.Refines o) (ha : ¬o.actor.status.Raises)
    (hr : ¬o.receiver.status.Raises) : n = o := by
  have hactor := h.actor_eq hr
  have hsender : n.sender = o.sender := h.sender.resolve_right fun ⟨_, hraises⟩ => ha (hactor ▸ hraises)
  exact NetworkOutcome.ext hsender hactor h.receiver

open Network

/-- A run to the end leaves what the loops leave one after the other, where neither the actor nor the receiver
raises. -/
theorem outcome_eq_of_run {toActor toReceiver : ℕ+} {sender : Sender} {actor : ActorEntity}
    {receiver : ReceiverEntity} {payloads : List Bytes} {as : List NetworkAction} {net : Network}
    (h : Schedule.run step (start toActor toReceiver sender actor receiver payloads) as = some net)
    (hstuck : Schedule.Stuck step net) :
    let o := sequentially ⟨sender, .running⟩ ⟨actor, .running⟩ ⟨receiver, .running⟩ payloads
    ¬o.actor.status.Raises → ¬o.receiver.status.Raises → net.outcome = o := by
  obtain ⟨frames, relayed, hdue⟩ := due_of_run h
  exact (hdue.refines (stuck_iff.mp hstuck)).eq

/-- However the threads interleave, however the bytes are cut and whatever the connections hold, what the actor and
the receiver have logged so far begins what their loops log one after the other. When nothing can move anymore, the
receiver has ended exactly as its loop does, and so have the actor and the sender, unless they found a reader gone
that had raised. Where neither of those loops raises, all three have ended exactly as the loops do. -/
theorem network_refines_pipeline (toActor toReceiver : ℕ+) (sender : Sender) (actor : ActorEntity)
    (receiver : ReceiverEntity) (payloads : List Bytes) (as : List NetworkAction) (net : Network)
    (h : Schedule.run step (start toActor toReceiver sender actor receiver payloads) as = some net) :
    let o := sequentially ⟨sender, .running⟩ ⟨actor, .running⟩ ⟨receiver, .running⟩ payloads
    net.actor.thread.state.log <+: o.actor.state.log ∧
      net.receiver.thread.state.log <+: o.receiver.state.log ∧
        (Schedule.Stuck step net → net.outcome.Refines o ∧
          (¬o.actor.status.Raises → ¬o.receiver.status.Raises → net.outcome = o)) := by
  intro o
  obtain ⟨frames, relayed, hdue⟩ : ∃ frames relayed, net.Due o frames relayed := due_of_run h
  refine ⟨hdue.log_prefix.1, hdue.log_prefix.2, fun hstuck => ?_⟩
  have hrefines := hdue.refines (stuck_iff.mp hstuck)
  exact ⟨hrefines, hrefines.eq⟩

/-- A run in which the sender waits for room, and the actor is handed the frame in three pieces and flips a bit of
its tag. -/
theorem network_refines_pipeline_of_flip :
    let actor : ActorEntity := { plan := [(0, .flipTag)], rng := ⟨fun _ => 0⟩ }
    let receiver : ReceiverEntity := { receiver := .new checksumSender.suite none 64 4 }
    ∃ net, Schedule.run step (start 60 64 checksumSender actor receiver [[1]])
      [.transmit, .senderSend 60, .actorRecv 3, .actorRecv 1, .senderSend 1, .hangUp, .actorRecv 57,
        .actorSend 61, .receiverRecv 4, .actorFinish, .receiverRecv 57, .receiverFinish] = some net ∧
      net.outcome =
        sequentially ⟨checksumSender, .running⟩ ⟨actor, .running⟩ ⟨receiver, .running⟩ [[1]] := by
  intro actor receiver
  have hrun : ∃ net ∈ Schedule.run step (start 60 64 checksumSender actor receiver [[1]])
      [.transmit, .senderSend 60, .actorRecv 3, .actorRecv 1, .senderSend 1, .hangUp, .actorRecv 57,
        .actorSend 61, .receiverRecv 4, .actorFinish, .receiverRecv 57, .receiverFinish], net.Ended := by
    decide +kernel
  obtain ⟨net, h, hended⟩ := hrun
  obtain ⟨-, -, hstuck⟩ := network_refines_pipeline 60 64 checksumSender actor receiver [[1]] _ net h
  have hactor : ¬(sequentially ⟨checksumSender, .running⟩ ⟨actor, .running⟩ ⟨receiver, .running⟩
      [[1]]).actor.status.Raises := by
    decide +kernel
  have hreceiver : ¬(sequentially ⟨checksumSender, .running⟩ ⟨actor, .running⟩ ⟨receiver, .running⟩
      [[1]]).receiver.status.Raises := by
    decide +kernel
  exact ⟨net, h, (hstuck (stuck_iff.mpr hended)).2 hactor hreceiver⟩

/-- A receiver that raises on the first record closes its socket, and the actor finds it gone with the second one.
Run by itself, the loop of the actor would have forwarded both. -/
example :
    let actor : ActorEntity := { plan := [], rng := ⟨fun _ => 0⟩ }
    let receiver : ReceiverEntity := { receiver := .new checksumSender.suite none (-1) 4 }
    ∃ net ∈ Schedule.run step (start 64 64 checksumSender actor receiver [[1], [2]])
      [.transmit, .senderSend 61, .actorRecv 4, .actorRecv 57, .actorSend 61, .receiverRecv 4, .receiverRecv 57,
        .transmit, .senderSend 61, .hangUp, .actorRecv 4, .actorRecv 57, .actorBreak],
      net.Ended ∧ net.actor.thread.status = .raised .connectionError ∧
        net.actor.thread.state.log = [(0, .forward)] := by
  decide +kernel

/-- The network does not deadlock, and comes to rest, although a send waits for room and a read for bytes. No run
of it goes on forever, nothing can move if and only if every thread has ended, and every state leads to one in
which that is so. -/
theorem network_comes_to_rest :
    (¬∃ run : ℕ → Network, ∀ n, ∃ a, (run n).step a = some (run (n + 1))) ∧
      ∀ net : Network, (Schedule.Stuck step net ↔ net.Ended) ∧
        ∃ net', Schedule.Reaches step net net' ∧ net'.Ended := by
  have hbelow (net : Network) (a : NetworkAction) (net' : Network) (h : net.step a = some net') :
      Below net' net := (step_moves h).below
  refine ⟨Schedule.not_infinite below_wf hbelow, fun net => ⟨stuck_iff, ?_⟩⟩
  obtain ⟨net', hreaches, hstuck⟩ := Schedule.exists_stuck below_wf hbelow net
  exact ⟨net', hreaches, stuck_iff.mp hstuck⟩

end Srp
