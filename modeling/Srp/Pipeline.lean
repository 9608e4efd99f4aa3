import Srp.Framing
import Srp.Thread

/-!
# Threads joined by bounded connections

To send a message, a thread hands its bytes to a connection, as many at a time as this has room for (`Worker`). A
thread that has ended has closed its connections: what was sent to it is lost, and who sends to it may raise.

`Feeds` says what the reader of a connection will still be sent, and `Worker.EndsAs` how a thread will end. No step
changes either, but that a send can fail once the reader has ended. So a pipeline ends as its loops do when they
are run one after the other, up to those that find their readers gone.
-/

namespace Pipeline

open Framing

variable {ε σ ι ο : Type*}

/-! ## Workers -/

/-- Where a thread stands that sends over a connection: it waits for an input, or hands over what is left of a
message, with the rest of its turn before it, or has ended, by raising or not. -/
inductive Worker (ε σ : Type*)
  | reading (state : σ)
  | sending (state : σ) (bytes : List UInt8) (ne : bytes ≠ []) (rest : Turn ε (List UInt8) σ)
  | ended (state : σ) (raised : Option ε)

namespace Worker

variable {w : ℕ}

/-- The locals. -/
def state : Worker ε σ → σ
  | reading s | sending s _ _ _ | ended s _ => s

/-- How far the thread has got. -/
def status : Worker ε σ → Status ε
  | reading _ | sending _ _ _ _ => .running
  | ended _ none => .returned
  | ended _ (some e) => .raised e

/-- The locals, and how far the thread has got. -/
def thread (k : Worker ε σ) : Thread ε σ := ⟨k.state, k.status⟩

/-- What a thread does with the rest of its turn: it ends the turn, or begins to send. -/
def resume (w : ℕ) [NeZero w] : Turn ε (List UInt8) σ → Worker ε σ
  | .done none s => reading s
  | .done (some e) s => ended s (some e)
  | .send s m rest => sending s (frame w m) (frame_ne_nil m) rest

/-- The thread takes an input, if it waits for one. -/
def take (w : ℕ) [NeZero w] (turn : σ → ι → Turn ε (List UInt8) σ) (i : ι) : Worker ε σ → Option (Worker ε σ)
  | reading s => some (resume w (turn s i))
  | _ => none

/-- The thread hands over the next `n` bytes, and goes on when they are the last ones. -/
def send (w : ℕ) [NeZero w] (n : ℕ) : Worker ε σ → Option (List UInt8 × Worker ε σ)
  | sending s bytes _ rest =>
    if 0 < n ∧ n ≤ bytes.length then
      some (bytes.take n, if h : bytes.drop n = [] then resume w rest else sending s (bytes.drop n) h rest)
    else none
  | _ => none

/-- The send raises. -/
def fail (e : ε) : Worker ε σ → Option (Worker ε σ)
  | sending s _ _ _ => some (ended s (some e))
  | _ => none

/-- There is no more input, so the loop returns. -/
def finish : Worker ε σ → Option (Worker ε σ)
  | reading s => some (ended s none)
  | _ => none

/-- The bytes of the message being sent that were not handed over. -/
def pending : Worker ε σ → List UInt8
  | sending _ bytes _ _ => bytes
  | _ => []

/-- What the turn will send after that. -/
def unsent : Worker ε σ → List (List UInt8)
  | sending _ _ _ rest => rest.sent
  | _ => []

/-- The thread after its turn, if none of its sends fails. -/
def settled : Worker ε σ → Thread ε σ
  | reading s => ⟨s, .running⟩
  | sending _ _ _ rest => rest.last
  | ended s none => ⟨s, .returned⟩
  | ended s (some e) => ⟨s, .raised e⟩

/-- What the thread will begin to send on some inputs, if none of its sends fails. -/
def toSend (turn : σ → ι → Turn ε (List UInt8) σ) (k : Worker ε σ) (is : List ι) : List (List UInt8) :=
  k.unsent ++ k.settled.sent turn is

/-- How the thread will end on some inputs, if none of its sends fails. -/
def toEnd (turn : σ → ι → Turn ε (List UInt8) σ) (k : Worker ε σ) (is : List ι) : Thread ε σ :=
  (k.settled.after turn is).close

/-- One for a thread that runs. -/
def alive (k : Worker ε σ) : ℕ :=
  match k.status with
  | .running => 1
  | _ => 0

/-- How many bytes the turn has still to hand over. -/
def left (w : ℕ) (k : Worker ε σ) : ℕ := k.pending.length + (stream w k.unsent).length

variable {turn : σ → ι → Turn ε (List UInt8) σ} {k k' : Worker ε σ} {is : List ι} {i : ι} {n : ℕ}
  {bytes : List UInt8}

/-- A thread that has ended is settled, and hands over nothing. -/
theorem eq_of_ended (h : k.status ≠ .running) :
    k.settled = k.thread ∧ k.pending = [] ∧ k.unsent = [] ∧ k.alive = 0 := by
  match k, h with
  | reading _, h => exact absurd rfl h
  | sending _ _ _ _, h => exact absurd rfl h
  | ended _ none, _ => exact ⟨rfl, rfl, rfl, rfl⟩
  | ended _ (some _), _ => exact ⟨rfl, rfl, rfl, rfl⟩

/-- A thread that runs counts one. -/
theorem alive_of_running (h : k.status = .running) : k.alive = 1 := by
  unfold alive
  rw [h]

/-- No thread counts more. -/
theorem alive_le_one (k : Worker ε σ) : k.alive ≤ 1 := by
  unfold alive
  split <;> simp

/-- Ending counts one less. -/
theorem alive_ended_lt (h : k.status = .running) {state : σ} {raised : Option ε} :
    (ended state raised).alive < k.alive := by
  have hended : (ended state raised).alive = 0 := by cases raised <;> rfl
  rw [hended, alive_of_running h]
  exact Nat.one_pos

/-- A thread that has ended will send nothing, and end as it has. -/
theorem toEnd_of_ended (turn : σ → ι → Turn ε (List UInt8) σ) (h : k.status ≠ .running) (is : List ι) :
    k.toSend turn is = [] ∧ k.toEnd turn is = k.thread := by
  obtain ⟨hsettled, -, hunsent, -⟩ := eq_of_ended h
  have hended : k.settled.status ≠ .running := by
    rw [hsettled]
    exact h
  obtain ⟨hsent, hafter⟩ := Thread.sent_of_ended turn hended is
  unfold toSend toEnd
  rw [hunsent, hsent, hafter, Thread.close_of_ended hended]
  exact ⟨rfl, hsettled⟩

/-- Going on with a turn leaves what it comes to. -/
theorem settled_resume [NeZero w] (t : Turn ε (List UInt8) σ) : (resume w t).settled = t.last := by
  match t with
  | .done none s => rfl
  | .done (some e) s => rfl
  | .send s m rest => rfl

/-- Going on with a turn does not end the loop without raising. -/
theorem resume_ne_returned [NeZero w] (t : Turn ε (List UInt8) σ) : (resume w t).status ≠ .returned := by
  match t with
  | .done none s => exact nofun
  | .done (some e) s => exact nofun
  | .send s m rest => exact nofun

/-- Only a thread that waits takes an input. -/
theorem take_eq_some [NeZero w] (h : k.take w turn i = some k') :
    k.status = .running ∧ k = reading k.state ∧ k' = resume w (turn k.state i) := by
  cases k with
  | reading s =>
    cases h
    exact ⟨rfl, rfl, rfl⟩
  | sending s bytes ne rest => cases h
  | ended s raised => cases h

/-- Only a thread that sends hands over bytes, the first ones of those that it has, and goes on after the last. -/
theorem send_eq_some [NeZero w] (h : k.send w n = some (bytes, k')) :
    ∃ s bs ne rest, k = sending s bs ne rest ∧ 0 < n ∧ n ≤ bs.length ∧ bytes = bs.take n ∧
      ((bs.drop n = [] ∧ k' = resume w rest) ∨ ∃ ne', k' = sending s (bs.drop n) ne' rest) := by
  cases k with
  | reading s => cases h
  | ended s raised => cases h
  | sending s bs ne rest =>
    simp only [send] at h
    split_ifs at h with hn hd
    · cases h
      exact ⟨s, bs, ne, rest, rfl, hn.1, hn.2, rfl, .inl ⟨hd, rfl⟩⟩
    · cases h
      exact ⟨s, bs, ne, rest, rfl, hn.1, hn.2, rfl, .inr ⟨hd, rfl⟩⟩

/-- Only a thread that runs hands over bytes, and it does not return by that. -/
theorem status_send [NeZero w] (h : k.send w n = some (bytes, k')) :
    k.status = .running ∧ k'.status ≠ .returned := by
  obtain ⟨s, bs, ne, rest, rfl, -, -, -, hcase⟩ := send_eq_some h
  refine ⟨rfl, ?_⟩
  rcases hcase with ⟨-, rfl⟩ | ⟨ne', rfl⟩
  · exact resume_ne_returned rest
  · exact nofun

/-- A thread that sends can hand over one byte. -/
theorem exists_send (w : ℕ) [NeZero w] (h : k.pending ≠ []) :
    ∃ bytes k', k.send w 1 = some (bytes, k') ∧ bytes.length = 1 := by
  cases k with
  | reading s => exact absurd rfl h
  | ended s raised => exact absurd rfl h
  | sending s bs ne rest =>
    have hpos := List.length_pos_iff.mpr ne
    have hsend : (sending s bs ne rest).send w 1 = some
        (bs.take 1, if h : bs.drop 1 = [] then resume w rest else sending s (bs.drop 1) h rest) :=
      if_pos ⟨Nat.one_pos, hpos⟩
    exact ⟨_, _, hsend, List.length_take_of_le hpos⟩

/-- A thread that runs waits for an input, or sends. -/
theorem reading_or_sending (h : k.status = .running) : (∃ s, k = reading s) ∨ k.pending ≠ [] := by
  match k, h with
  | reading s, _ => exact .inl ⟨s, rfl⟩
  | sending _ _ ne _, _ => exact .inr ne
  | ended _ none, h => cases h
  | ended _ (some _), h => cases h

/-- The send of a thread that sends can raise. -/
theorem exists_fail (e : ε) (h : k.pending ≠ []) : ∃ k', k.fail e = some k' := by
  cases k with
  | reading s => exact absurd rfl h
  | ended s raised => exact absurd rfl h
  | sending s bs ne rest => exact ⟨_, rfl⟩

/-- Only the send of a thread that sends can raise. -/
theorem fail_eq_some {e : ε} (h : k.fail e = some k') :
    k.status = .running ∧ k' = ended k.state (some e) := by
  cases k with
  | reading s => cases h
  | ended s raised => cases h
  | sending s bs ne rest =>
    cases h
    exact ⟨rfl, rfl⟩

/-- Only a thread that waits finds that there is no more input. -/
theorem finish_eq_some (h : k.finish = some k') :
    k.status = .running ∧ k = reading k.state ∧ k' = ended k.state none := by
  cases k with
  | reading s =>
    cases h
    exact ⟨rfl, rfl, rfl⟩
  | ended s raised => cases h
  | sending s bs ne rest => cases h

/-- Handing over bytes leaves less to hand over. -/
theorem left_send [NeZero w] (h : k.send w n = some (bytes, k')) :
    k'.left w < k.left w ∧ k'.alive ≤ k.alive := by
  obtain ⟨s, bs, ne, rest, rfl, hpos, hle, -, hcase⟩ := send_eq_some h
  have halive : (sending s bs ne rest : Worker ε σ).alive = 1 := rfl
  refine ⟨?_, halive ▸ k'.alive_le_one⟩
  have hbs := List.length_pos_iff.mpr ne
  rcases hcase with ⟨-, rfl⟩ | ⟨ne', rfl⟩
  · unfold left
    match rest with
    | .done none _ | .done (some _) _ =>
      simp only [resume, pending, unsent, Turn.sent, stream_nil, List.length_nil]
      omega
    | .send _ m rest =>
      simp only [resume, pending, unsent, Turn.sent, stream_cons, List.length_append]
      omega
  · unfold left
    simp only [pending, unsent, List.length_drop]
    omega

end Worker

/-! ## What a reader will be sent -/

/-- With its writer still to take some inputs, the reader of a connection will be handed some messages, if none of
the writer's sends fails. -/
def Feeds {w : ℕ} (turn : σ → ι → Turn ε (List UInt8) σ) (k : Worker ε σ) (is : List ι) (l : Link w)
    (ms : List (List UInt8)) : Prop :=
  ∃ unread, l.Carries k.pending unread ∧ (∀ m ∈ k.toSend turn is, Fits w m) ∧ ms = unread ++ k.toSend turn is

section Feeds

variable {w : ℕ} [NeZero w] {turn : σ → ι → Turn ε (List UInt8) σ} {k k' : Worker ε σ} {is : List ι} {i : ι}
  {l l' : Link w} {ms : List (List UInt8)} {n : ℕ} {bytes : List UInt8}

/-- Over a new connection, the reader will be handed what the loop of the writer sends. -/
theorem feeds_new (hturn : ∀ s i, ∀ m ∈ (turn s i).sent, Fits w m) (s : σ) (is : List ι) (capacity : ℕ+) :
    Feeds turn (.reading s) is (.new w capacity) ((⟨s, .running⟩ : Thread ε σ).sent turn is) :=
  ⟨[], Link.carries_new capacity, Thread.forall_mem_sent hturn _ is, rfl⟩

/-- A writer that goes on with a turn begins to send what the turn sends. -/
theorem feeds_resume {t : Turn ε (List UInt8) σ} {unread : List (List UInt8)} (hcarries : l.Carries [] unread)
    (hfits : ∀ m ∈ t.sent ++ t.last.sent turn is, Fits w m) :
    Feeds turn (.resume w t) is l (unread ++ (t.sent ++ t.last.sent turn is)) := by
  match t with
  | .done none s => exact ⟨unread, hcarries, hfits, rfl⟩
  | .done (some e) s => exact ⟨unread, hcarries, hfits, rfl⟩
  | .send s m rest =>
    refine ⟨unread ++ [m], hcarries.begin (hfits m List.mem_cons_self), ?_, ?_⟩
    · exact fun m' hm => hfits m' (List.mem_cons_of_mem m hm)
    · exact (List.append_assoc unread [m] _).symm

/-- Taking an input changes nothing. -/
theorem Feeds.take (h : Feeds turn k (i :: is) l ms) (ht : k.take w turn i = some k') :
    Feeds turn k' is l ms := by
  obtain ⟨unread, hcarries, hfits, rfl⟩ := h
  obtain ⟨-, hk, rfl⟩ := Worker.take_eq_some ht
  rw [hk] at hcarries hfits ⊢
  exact feeds_resume hcarries hfits

/-- Handing over bytes changes nothing. -/
theorem Feeds.send (h : Feeds turn k is l ms) (hs : k.send w n = some (bytes, k')) (hw : l.write bytes = some l') :
    Feeds turn k' is l' ms := by
  obtain ⟨unread, hcarries, hfits, rfl⟩ := h
  obtain ⟨s, bs, ne, rest, rfl, -, -, rfl, hcase⟩ := Worker.send_eq_some hs
  have hwritten := hcarries.write n hw
  rcases hcase with ⟨hd, rfl⟩ | ⟨ne', rfl⟩
  · rw [show (Worker.sending s bs ne rest).pending.drop n = [] from hd] at hwritten
    exact feeds_resume hwritten hfits
  · exact ⟨unread, hwritten, hfits, rfl⟩

omit [NeZero w] in
/-- Ending changes nothing, when there is no more input. -/
theorem Feeds.finish (h : Feeds turn k [] l ms) (hf : k.finish = some k') : Feeds turn k' [] l ms := by
  obtain ⟨unread, hcarries, hfits, rfl⟩ := h
  obtain ⟨-, hk, rfl⟩ := Worker.finish_eq_some hf
  rw [hk] at hcarries hfits ⊢
  exact ⟨unread, hcarries, hfits, rfl⟩

/-- What the reader is handed is the first of what it will be. -/
theorem Feeds.recv {o : Option (List UInt8)} (h : Feeds turn k is l ms) (hr : l.recv n = some (o, l')) :
    (o = none ∧ Feeds turn k is l' ms) ∨ ∃ m ms', o = some m ∧ ms = m :: ms' ∧ Feeds turn k is l' ms' := by
  obtain ⟨unread, hcarries, hfits, rfl⟩ := h
  rcases hcarries.recv hr with ⟨rfl, hcarries'⟩ | ⟨m, ns, rfl, rfl, hcarries'⟩
  · exact .inl ⟨rfl, unread, hcarries', hfits, rfl⟩
  · exact .inr ⟨m, _, rfl, rfl, ns, hcarries', hfits, rfl⟩

omit [NeZero w] in
/-- With nothing in flight, a reader whose writer has ended will be handed nothing. -/
theorem Feeds.eq_nil (h : Feeds turn k is l ms) (hk : k.status ≠ .running) (hempty : l.inflight = []) :
    ms = [] := by
  obtain ⟨unread, hcarries, -, rfl⟩ := h
  obtain ⟨-, hpending, -, -⟩ := Worker.eq_of_ended hk
  rw [hpending] at hcarries
  rw [hcarries.eq_nil hempty, (Worker.toEnd_of_ended turn hk is).1]
  rfl

end Feeds

/-! ## How a thread will end -/

namespace Worker

/-- The turn changes the locals only as a relation has it. -/
def Steady (R : σ → σ → Prop) : Worker ε σ → Prop
  | sending s _ _ rest => rest.Steady R s
  | _ => True

/-- With some inputs still to come, a thread will end as `t`, or has found its connection closed, with locals on
the way to those of `t`, after its reader had raised. -/
structure EndsAs (turn : σ → ι → Turn ε (List UInt8) σ) (R : σ → σ → Prop) (closed : ε) (peer : Prop)
    (k : Worker ε σ) (is : List ι) (t : Thread ε σ) : Prop where
  steady : k.Steady R
  ends : k.toEnd turn is = t ∨ (k.status = .raised closed ∧ peer ∧ R k.state t.state)

variable {w n : ℕ} {turn : σ → ι → Turn ε (List UInt8) σ} {R : σ → σ → Prop} {closed : ε} {peer peer' : Prop}
  {k k' : Worker ε σ} {is : List ι} {i : ι} {t : Thread ε σ} {bytes : List UInt8}

/-- Going on with a turn, the thread changes its locals only so. -/
theorem steady_resume [NeZero w] {rest : Turn ε (List UInt8) σ} {s : σ} (h : rest.Steady R s) :
    (resume w rest).Steady R := by
  match rest, h with
  | .done none _, _ => exact trivial
  | .done (some _) _, _ => exact trivial
  | .send _ _ _, h => exact h.2

/-- A new thread will end as its loop does. -/
theorem endsAs_new (s : σ) (is : List ι) :
    (reading s).EndsAs turn R closed peer is ((⟨s, .running⟩ : Thread ε σ).after turn is).close :=
  ⟨trivial, .inl rfl⟩

/-- As long as its reader has not raised, a thread has not found its connection closed. -/
theorem EndsAs.of_not (h : k.EndsAs turn R closed peer is t) (hpeer : ¬peer) :
    k.EndsAs turn R closed peer' is t :=
  ⟨h.steady, .inl (h.ends.resolve_right fun ⟨_, hp, _⟩ => hpeer hp)⟩

/-- A thread that runs has not found its connection closed. -/
theorem EndsAs.of_running (h : k.EndsAs turn R closed peer is t) (hk : k.status = .running) :
    k.toEnd turn is = t :=
  h.ends.resolve_right fun ⟨hstatus, _⟩ => nomatch hk.symm.trans hstatus

/-- A thread that has ended did so as it would, or found its connection closed. -/
theorem EndsAs.of_ended (h : k.EndsAs turn R closed peer is t) (hk : k.status ≠ .running) :
    k.thread = t ∨ (k.status = .raised closed ∧ peer) := by
  have hends := h.ends
  rw [(toEnd_of_ended turn hk is).2] at hends
  exact hends.imp_right fun ⟨hstatus, hp, _⟩ => ⟨hstatus, hp⟩

/-- Taking an input changes nothing. -/
theorem EndsAs.take [NeZero w] (hturn : ∀ s i, (turn s i).Steady R s)
    (h : k.EndsAs turn R closed peer (i :: is) t) (ht : k.take w turn i = some k') :
    k'.EndsAs turn R closed peer is t := by
  obtain ⟨hrunning, hk, rfl⟩ := take_eq_some ht
  have hends := h.of_running hrunning
  refine ⟨steady_resume (hturn _ i), .inl ?_⟩
  rw [← hends, hk]
  unfold toEnd
  rw [settled_resume]
  rfl

/-- Handing over bytes changes nothing. -/
theorem EndsAs.send [NeZero w] (h : k.EndsAs turn R closed peer is t) (hs : k.send w n = some (bytes, k')) :
    k'.EndsAs turn R closed peer is t := by
  obtain ⟨s, bs, ne, rest, rfl, -, -, -, hcase⟩ := send_eq_some hs
  have hends := h.of_running rfl
  rcases hcase with ⟨-, rfl⟩ | ⟨ne', rfl⟩
  · refine ⟨steady_resume h.steady, .inl ?_⟩
    rw [← hends]
    unfold toEnd
    rw [settled_resume]
    rfl
  · exact ⟨h.steady, .inl hends⟩

/-- Ending changes nothing, when there is no more input. -/
theorem EndsAs.finish (h : k.EndsAs turn R closed peer [] t) (hf : k.finish = some k') :
    k'.EndsAs turn R closed peer [] t := by
  obtain ⟨hrunning, hk, rfl⟩ := finish_eq_some hf
  have hends := h.of_running hrunning
  rw [hk] at hends
  exact ⟨trivial, .inl hends⟩

section Related

variable (hrefl : ∀ s, R s s) (htrans : ∀ s t u, R s t → R t u → R s u) (hturn : ∀ s i, (turn s i).Steady R s)

include hrefl htrans hturn

/-- The locals are on the way to those that the thread will end with. -/
theorem EndsAs.related (h : k.EndsAs turn R closed peer is t) : R k.state t.state := by
  rcases h.ends with hends | ⟨-, -, hR⟩
  · have hsettled : R k.state k.settled.state := by
      match k, h.steady with
      | reading s, _ => exact hrefl s
      | ended s none, _ => exact hrefl s
      | ended s (some e), _ => exact hrefl s
      | sending s bs ne rest, hsteady => exact hsteady.last htrans
    rw [← hends]
    unfold toEnd
    rw [Thread.state_close]
    exact htrans _ _ _ hsettled (Thread.after_related hrefl htrans hturn _ is)
  · exact hR

/-- After its reader has raised, a thread may find its connection closed. -/
theorem EndsAs.fail (h : k.EndsAs turn R closed peer is t) (hf : k.fail closed = some k') (hpeer : peer) :
    k'.EndsAs turn R closed peer is t := by
  have hR := h.related hrefl htrans hturn
  obtain ⟨-, rfl⟩ := fail_eq_some hf
  exact ⟨trivial, .inr ⟨rfl, hpeer, hR⟩⟩

end Related

end Worker

/-! ## Stages -/

/-- A thread at the reading end of a connection. -/
structure Stage (w : ℕ) (τ : Type*) where
  link : Link w
  thread : τ

namespace Stage

variable {w n : ℕ} {τ : Type*}

/-- The connection is handed bytes by its writer. Those of a thread that has ended are lost. -/
def accept (s : Stage w τ) (status : Status ε) (bytes : List UInt8) : Option (Stage w τ) :=
  match status with
  | .running => (s.link.write bytes).map fun link => { s with link }
  | _ => some s

/-- A thread that waits for input is handed `n` bytes, and takes a turn if a message ends with them. -/
def recv [NeZero w] (turn : σ → List UInt8 → Turn ε (List UInt8) σ) (n : ℕ) (s : Stage w (Worker ε σ)) :
    Option (Stage w (Worker ε σ)) :=
  match s.thread with
  | .reading state =>
    match s.link.recv n with
    | none => none
    | some (none, link) => some { s with link }
    | some (some m, link) => some ⟨link, .resume w (turn state m)⟩
  | _ => none

/-- The same for a thread that sends nothing. -/
def read [NeZero w] (turn : σ → List UInt8 → Turn ε ο σ) (n : ℕ) (s : Stage w (Thread ε σ)) :
    Option (Stage w (Thread ε σ)) :=
  match s.thread.status with
  | .running =>
    match s.link.recv n with
    | none => none
    | some (none, link) => some { s with link }
    | some (some m, link) => some ⟨link, (s.thread.step turn m).2⟩
  | _ => none

/-- A connection whose reader runs takes what it has room for. -/
theorem accept_of_running {s s' : Stage w τ} {status : Status ε} {bytes : List UInt8} (hs : status = .running)
    (h : s.accept status bytes = some s') : ∃ link, s.link.write bytes = some link ∧ s' = { s with link } := by
  subst hs
  obtain ⟨link, hw, rfl⟩ := Option.map_eq_some_iff.mp h
  exact ⟨link, hw, rfl⟩

/-- What is handed to a connection whose reader has ended is lost. -/
theorem accept_of_ended {s s' : Stage w τ} {status : Status ε} {bytes : List UInt8} (hs : status ≠ .running)
    (h : s.accept status bytes = some s') : s' = s := by
  unfold accept at h
  split at h
  · exact absurd rfl hs
  · exact (Option.some.inj h).symm

/-- A connection with nothing in flight takes a byte. -/
theorem exists_accept {s : Stage w τ} (status : Status ε) {bytes : List UInt8} (hbytes : bytes.length = 1)
    (h : s.link.inflight = []) : ∃ s', s.accept status bytes = some s' := by
  obtain ⟨link, hw⟩ := Link.exists_write hbytes h
  unfold accept
  cases status with
  | running => exact ⟨_, Option.map_eq_some_iff.mpr ⟨link, hw, rfl⟩⟩
  | returned => exact ⟨s, rfl⟩
  | raised e => exact ⟨s, rfl⟩

variable [NeZero w]

/-- Only a thread that waits is handed bytes, and a message that ends with them is its next input. -/
theorem recv_eq_some {turn : σ → List UInt8 → Turn ε (List UInt8) σ} {s s' : Stage w (Worker ε σ)}
    (h : s.recv turn n = some s') :
    s.thread.status = .running ∧ ∃ o, s.link.recv n = some (o, s'.link) ∧
      ((o = none ∧ s'.thread = s.thread) ∨ ∃ m, o = some m ∧ s.thread.take w turn m = some s'.thread) := by
  unfold recv at h
  split at h
  · rename_i state hs
    rw [hs]
    refine ⟨rfl, ?_⟩
    split at h
    · cases h
    · cases h
      exact ⟨none, ‹_›, .inl ⟨rfl, hs⟩⟩
    · rename_i m link hlink
      cases h
      exact ⟨some m, hlink, .inr ⟨m, rfl, rfl⟩⟩
  · cases h

/-- Only a thread that runs is handed bytes, and a message that ends with them is its next input. -/
theorem read_eq_some {turn : σ → List UInt8 → Turn ε ο σ} {s s' : Stage w (Thread ε σ)}
    (h : s.read turn n = some s') :
    s.thread.status = .running ∧ ∃ o, s.link.recv n = some (o, s'.link) ∧
      ((o = none ∧ s'.thread = s.thread) ∨ ∃ m, o = some m ∧ (s.thread.step turn m).2 = s'.thread) := by
  unfold read at h
  split at h
  · rename_i hs
    refine ⟨hs, ?_⟩
    split at h
    · cases h
    · cases h
      exact ⟨none, ‹_›, .inl ⟨rfl, rfl⟩⟩
    · rename_i m link hlink
      cases h
      exact ⟨some m, hlink, .inr ⟨m, rfl, rfl⟩⟩
  · cases h

/-- A thread that waits can read, if anything is in flight. -/
theorem exists_recv (turn : σ → List UInt8 → Turn ε (List UInt8) σ) {s : Stage w (Worker ε σ)} {state : σ}
    (hs : s.thread = .reading state) (h : s.link.inflight ≠ []) : ∃ s', s.recv turn 1 = some s' := by
  obtain ⟨o, link, hr⟩ := Link.exists_recv h
  unfold recv
  rw [hs, hr]
  cases o with
  | none => exact ⟨_, rfl⟩
  | some m => exact ⟨_, rfl⟩

/-- A thread that runs can read, if anything is in flight. -/
theorem exists_read (turn : σ → List UInt8 → Turn ε ο σ) {s : Stage w (Thread ε σ)}
    (hs : s.thread.status = .running) (h : s.link.inflight ≠ []) : ∃ s', s.read turn 1 = some s' := by
  obtain ⟨o, link, hr⟩ := Link.exists_recv h
  unfold read
  rw [hs, hr]
  cases o with
  | none => exact ⟨_, rfl⟩
  | some m => exact ⟨_, rfl⟩

end Stage

end Pipeline
