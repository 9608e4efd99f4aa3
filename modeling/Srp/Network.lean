import Srp.Sender
import Srp.Receiver
import Srp.Transport
import Srp.Pipeline

/-!
# The network demonstration

The three entities of `demo/run_network_demo.py`, as threads joined by two TCP connections: a sender, the
malicious actor as a proxy, and a receiver. The body of each loop is one turn (`ActorEntity.turn`), and
`Network.step` lets any thread take its next step at any time: a writer hands over any part of its frame that
the connection has room for, and waits where it has none; a reader is handed any part of the bytes that have
arrived; and a writer whose reader has ended, and so has closed its socket, loses its bytes or raises. What the
three loops leave behind when they are run one after the other is `sequentially`.

The timeouts of 20 seconds on the sockets and on joining the threads are not modelled: a thread waits for as long
as it has to.
-/

namespace Srp

open Framing Pipeline

/-! ## The sender -/

/-- `send_frame`, and what comes after it in a turn. The length of the data may not fit. -/
def sendFrameThen {σ : Type*} (data : Bytes) (state : σ) (rest : Turn Raised Bytes σ) : Turn Raised Bytes σ :=
  match sendFrame data with
  | .error e => .done (some e) state
  | .ok _ => .send state data rest

/-- The body of the loop of `sender_entity`: protect a payload, and send the frame. -/
def senderTurn (s : Sender) (payload : Bytes) : Turn Raised Bytes Sender :=
  let sender := (s.protect { payload := some payload }).2.sender
  match (s.protect { payload := some payload }).1 with
  | .error e => .done (some (.error e)) sender
  | .ok wire => sendFrameThen wire sender (.done none sender)

/-! ## The actor -/

/-- What the plan of the actor can name. -/
inductive ActorAction
  | forward
  | flipCiphertext
  | flipTag
  | tamperAad
  | drop
  | replay
  deriving DecidableEq, Repr

/-- The locals of `actor_entity`, with the generator of its actor. The frame kept for a replay has its
index with it. -/
structure ActorEntity where
  plan : List (ℕ × ActorAction)
  rng : Rng
  captured : Option (ℕ × Bytes) := none
  index : ℕ := 0
  log : List (ℕ × ActorAction) := []

namespace ActorEntity

/-- `plan.get(index, "forward")`. -/
def planned (a : ActorEntity) : ActorAction := (a.plan.lookup a.index).getD .forward

/-- The actor with one more entry in its log. -/
def logged (a : ActorEntity) (entry : ℕ × ActorAction) : ActorEntity :=
  { a with log := a.log ++ [entry] }

/-- `send_frame` towards the receiver, then the entry of the log for it, and what comes after. -/
def emit (a : ActorEntity) (data : Bytes) (entry : ℕ × ActorAction)
    (rest : ActorEntity → Turn Raised Bytes ActorEntity) : Turn Raised Bytes ActorEntity :=
  sendFrameThen data a (rest (a.logged entry))

/-- The end of a turn. -/
def next (a : ActorEntity) : ActorEntity := { a with index := a.index + 1 }

/-- A turn that sends a changed frame, unless the change raises. -/
def rewrite (a : ActorEntity) (changed : Except Raised Bytes) (action : ActorAction) :
    Turn Raised Bytes ActorEntity :=
  match changed with
  | .error e => .done (some e) a
  | .ok data => a.emit data (a.index, action) fun a => .done none a.next

/-- The body of the loop of `actor_entity`. -/
def turn (a : ActorEntity) (wire : Bytes) : Turn Raised Bytes ActorEntity :=
  match a.planned with
  | .forward =>
    a.emit wire (a.index, .forward) fun a =>
      .done none { a with captured := a.captured.or (some (a.index, wire)) }.next
  | .flipCiphertext =>
    let (changed, rng) := flipCiphertextBit a.rng wire
    { a with rng }.rewrite changed .flipCiphertext
  | .flipTag =>
    let (changed, rng) := flipTagBit a.rng wire
    { a with rng }.rewrite changed .flipTag
  | .tamperAad =>
    let changed := (relabelRecordType wire RecordType.CLOSE.value).mapError .error
    a.rewrite changed .tamperAad
  | .drop => .done none a.next
  | .replay =>
    a.emit wire (a.index, .forward) fun a =>
      match a.captured with
      | none => .done none a.next
      | some (index, frame) => a.emit (replay frame) (index, .replay) fun a => .done none a.next

end ActorEntity

/-! ## The receiver -/

/-- The locals of `receiver_entity`. -/
structure ReceiverEntity where
  receiver : Receiver
  log : List Verdict := []

/-- The body of the loop of `receiver_entity`, which sends nothing. -/
def ReceiverEntity.turn (r : ReceiverEntity) (wire : Bytes) : Turn Raised Bytes ReceiverEntity :=
  let receiver := (r.receiver.receive wire).receiver
  match (r.receiver.receive wire).result with
  | .error e => .done (some (.error e)) { r with receiver }
  | .ok verdict => .done none { receiver, log := r.log ++ [verdict] }

/-! ## The three of them -/

/-- The three threads: the sender with the payloads that it has still to send, and the actor and the
receiver, each at the end of a connection. -/
structure Network where
  sender : Worker Raised Sender
  unsent : List Bytes
  actor : Stage framePrefixLen (Worker Raised ActorEntity)
  receiver : Stage framePrefixLen (Thread Raised ReceiverEntity)

/-- The step that a thread takes next. A writer hands over `n` bytes, and a reader is handed `n`. -/
inductive NetworkAction
  /-- The sender protects the next payload, and begins to send its frame. -/
  | transmit
  | senderSend (n : ℕ)
  /-- The `sendall` of the sender raises, since the actor has closed its socket. -/
  | senderBreak
  /-- The sender closes its socket, with all payloads sent. -/
  | hangUp
  | actorRecv (n : ℕ)
  | actorSend (n : ℕ)
  /-- The `sendall` of the actor raises, since the receiver has closed its socket. -/
  | actorBreak
  /-- The actor finds that its connection has ended. -/
  | actorFinish
  | receiverRecv (n : ℕ)
  /-- The receiver finds that its connection has ended. -/
  | receiverFinish
  deriving DecidableEq, Repr

namespace Network

/-- One step of one thread, if it does not wait. Who has ended has closed its sockets. -/
def step (net : Network) : NetworkAction → Option Network
  | .transmit =>
    match net.unsent with
    | [] => none
    | payload :: unsent =>
      (net.sender.take framePrefixLen senderTurn payload).map fun sender => { net with sender, unsent }
  | .senderSend n =>
    (net.sender.send framePrefixLen n).bind fun (bytes, sender) =>
      (net.actor.accept net.actor.thread.status bytes).map fun actor => { net with sender, actor }
  | .senderBreak =>
    if net.actor.thread.status ≠ .running then
      (net.sender.fail .connectionError).map fun sender => { net with sender }
    else none
  | .hangUp => if net.unsent = [] then net.sender.finish.map fun sender => { net with sender } else none
  | .actorRecv n => (net.actor.recv ActorEntity.turn n).map fun actor => { net with actor }
  | .actorSend n =>
    (net.actor.thread.send framePrefixLen n).bind fun (bytes, thread) =>
      (net.receiver.accept net.receiver.thread.status bytes).map fun receiver =>
        { net with actor := { net.actor with thread }, receiver }
  | .actorBreak =>
    if net.receiver.thread.status ≠ .running then
      (net.actor.thread.fail .connectionError).map fun thread => { net with actor := { net.actor with thread } }
    else none
  | .actorFinish =>
    if net.sender.status ≠ .running ∧ net.actor.link.inflight = [] then
      net.actor.thread.finish.map fun thread => { net with actor := { net.actor with thread } }
    else none
  | .receiverRecv n => (net.receiver.read ReceiverEntity.turn n).map fun receiver => { net with receiver }
  | .receiverFinish =>
    if net.receiver.thread.status = .running ∧ net.actor.thread.status ≠ .running ∧
        net.receiver.link.inflight = [] then
      some { net with receiver := { net.receiver with thread := net.receiver.thread.close } }
    else none

/-- The three threads before they start, with the payloads to send and the capacities of the two connections. -/
def start (toActor toReceiver : ℕ+) (sender : Sender) (actor : ActorEntity) (receiver : ReceiverEntity)
    (payloads : List Bytes) : Network :=
  { sender := .reading sender, unsent := payloads
    actor := ⟨.new _ toActor, .reading actor⟩
    receiver := ⟨.new _ toReceiver, ⟨receiver, .running⟩⟩ }

end Network

/-- How the three threads end. -/
@[ext]
structure NetworkOutcome where
  sender : Thread Raised Sender
  actor : Thread Raised ActorEntity
  receiver : Thread Raised ReceiverEntity

/-- The three loops run one after the other, each to its end before the next one starts, and none of their sends
fails. -/
def sequentially (sender : Thread Raised Sender) (actor : Thread Raised ActorEntity)
    (receiver : Thread Raised ReceiverEntity) (payloads : List Bytes) : NetworkOutcome :=
  let frames := sender.sent senderTurn payloads
  let relayed := actor.sent ActorEntity.turn frames
  { sender := (sender.after senderTurn payloads).close
    actor := (actor.after ActorEntity.turn frames).close
    receiver := (receiver.after ReceiverEntity.turn relayed).close }

/-- How a network may end, against its loops run one after the other: a thread can have found its reader gone, if
that has raised. -/
structure NetworkOutcome.Refines (n o : NetworkOutcome) : Prop where
  receiver : n.receiver = o.receiver
  actor : n.actor = o.actor ∨ (n.actor.status = .raised .connectionError ∧ n.receiver.status.Raises)
  sender : n.sender = o.sender ∨ (n.sender.status = .raised .connectionError ∧ n.actor.status.Raises)

/-! ## What is sent fits in a frame -/

/-- What `send_frame` does not raise on is sent. -/
theorem sendFrameThen_cases {σ : Type*} (data : Bytes) (state : σ) (rest : Turn Raised Bytes σ) :
    (∃ e, sendFrameThen data state rest = .done (some e) state) ∨
      (Fits framePrefixLen data ∧ sendFrameThen data state rest = .send state data rest) := by
  unfold sendFrameThen
  split
  · exact .inl ⟨_, rfl⟩
  · exact .inr ⟨(sendFrame_eq_ok.mp ‹_›).1, rfl⟩

/-- Data that fits in a frame is sent. -/
theorem sendFrameThen_of_fits {σ : Type*} {data : Bytes} (h : Fits framePrefixLen data) (state : σ)
    (rest : Turn Raised Bytes σ) : sendFrameThen data state rest = .send state data rest := by
  unfold sendFrameThen
  rw [sendFrame_eq_ok.mpr ⟨h, rfl⟩]

/-- Where what comes after it fits in frames, so does what is sent. -/
theorem fits_of_sendFrameThen {σ : Type*} {data : Bytes} {state : σ} {rest : Turn Raised Bytes σ}
    (h : ∀ m ∈ rest.sent, Fits framePrefixLen m) :
    ∀ m ∈ (sendFrameThen data state rest).sent, Fits framePrefixLen m := by
  rcases sendFrameThen_cases data state rest with ⟨e, he⟩ | ⟨hfits, he⟩
  · rw [he]
    exact fun m hm => absurd hm List.not_mem_nil
  · rw [he]
    exact List.forall_mem_cons.mpr ⟨hfits, h⟩

/-- What the sender sends fits in a frame. -/
theorem fits_of_senderTurn (s : Sender) (payload : Bytes) :
    ∀ m ∈ (senderTurn s payload).sent, Fits framePrefixLen m := by
  unfold senderTurn
  dsimp only
  split
  · exact fun m hm => absurd hm List.not_mem_nil
  · exact fits_of_sendFrameThen fun m hm => absurd hm List.not_mem_nil

namespace ActorEntity

/-- What a rewriting turn sends fits in a frame. -/
theorem fits_of_rewrite (a : ActorEntity) (changed : Except Raised Bytes) (action : ActorAction) :
    ∀ m ∈ (a.rewrite changed action).sent, Fits framePrefixLen m := by
  unfold rewrite
  split
  · exact fun m hm => absurd hm List.not_mem_nil
  · exact fits_of_sendFrameThen fun m hm => absurd hm List.not_mem_nil

/-- What the actor sends fits in a frame. -/
theorem fits_of_turn (a : ActorEntity) (wire : Bytes) :
    ∀ m ∈ (a.turn wire).sent, Fits framePrefixLen m := by
  unfold turn
  cases a.planned with
  | forward => exact fits_of_sendFrameThen fun m hm => absurd hm List.not_mem_nil
  | flipCiphertext => exact fits_of_rewrite _ _ _
  | flipTag => exact fits_of_rewrite _ _ _
  | tamperAad => exact fits_of_rewrite _ _ _
  | drop => exact fun m hm => absurd hm List.not_mem_nil
  | replay =>
    refine fits_of_sendFrameThen ?_
    dsimp only
    split
    · exact fun m hm => absurd hm List.not_mem_nil
    · exact fits_of_sendFrameThen fun m hm => absurd hm List.not_mem_nil

end ActorEntity

/-! ## Logs -/

namespace ActorEntity

/-- The log of one actor begins that of another. -/
def LogExtends (a a' : ActorEntity) : Prop := a.log <+: a'.log

/-- Where what comes after a send only adds to the log, so does the send. -/
theorem steady_emit {a b : ActorEntity} {data : Bytes} {entry : ℕ × ActorAction}
    {rest : ActorEntity → Turn Raised Bytes ActorEntity} (hlog : b.log <+: a.log)
    (hrest : (rest (a.logged entry)).Steady LogExtends a) :
    (a.emit data entry rest).Steady LogExtends b := by
  unfold emit
  rcases sendFrameThen_cases data a (rest (a.logged entry)) with ⟨e, he⟩ | ⟨-, he⟩
  · rw [he]
    exact hlog
  · rw [he]
    exact ⟨hlog, hrest⟩

/-- A rewriting turn only adds to the log. -/
theorem steady_rewrite {a b : ActorEntity} (hlog : b.log <+: a.log) (changed : Except Raised Bytes)
    (action : ActorAction) : (a.rewrite changed action).Steady LogExtends b := by
  unfold rewrite
  split
  · exact hlog
  · exact steady_emit hlog (List.prefix_append _ _)

/-- The actor only adds to its log. -/
theorem steady_turn (a : ActorEntity) (wire : Bytes) :
    (a.turn wire).Steady LogExtends a := by
  unfold turn
  cases a.planned with
  | forward => exact steady_emit List.prefix_rfl (List.prefix_append _ _)
  | flipCiphertext =>
    exact steady_rewrite (a := { a with rng := (flipCiphertextBit a.rng wire).2 }) (b := a)
      List.prefix_rfl _ _
  | flipTag =>
    exact steady_rewrite (a := { a with rng := (flipTagBit a.rng wire).2 }) (b := a) List.prefix_rfl _ _
  | tamperAad => exact steady_rewrite List.prefix_rfl _ _
  | drop => exact List.prefix_rfl
  | replay =>
    refine steady_emit List.prefix_rfl ?_
    split
    · exact List.prefix_append _ _
    · exact steady_emit (List.prefix_append _ _) (List.prefix_append _ _)

end ActorEntity

/-- The log of one receiver begins that of another. -/
def ReceiverEntity.LogExtends (r r' : ReceiverEntity) : Prop := r.log <+: r'.log

/-- The receiver only adds to its log. -/
theorem ReceiverEntity.steady_turn (r : ReceiverEntity) (wire : Bytes) :
    (r.turn wire).Steady LogExtends r := by
  unfold turn
  dsimp only
  split
  · exact List.prefix_rfl
  · exact List.prefix_append _ _

end Srp
