import Mathlib.Data.PNat.Defs
import Srp.Struct

/-!
# Length-prefixed frames over a byte stream

A message is sent behind its length, a big-endian integer of `w` bytes, on a connection that keeps the
bytes and their order and nothing else: a writer hands it any part of the bytes that it has room for, and a
reader is handed what has arrived so far in chunks of any size. The state of a reader is the bytes of the frame
that it has not finished (`Reading`), and a connection is that state with the bytes in flight (`Link`).
`Link.Carries` says which messages are on their way, and `Carries.begin`, `Carries.write` and `Carries.recv`
that a connection is a queue of messages, however the stream is cut at its two ends.
-/

namespace Framing

variable {w : ℕ}

/-! ## Frames -/

/-- A message behind its length. -/
def frame (w : ℕ) (m : List UInt8) : List UInt8 := Struct.encode w m.length ++ m

/-- The length of the message fits in the header. -/
def Fits (w : ℕ) (m : List UInt8) : Prop := m.length < 256 ^ w

/-- The frames of some messages, one after the other. -/
def stream (w : ℕ) (ms : List (List UInt8)) : List UInt8 := ms.flatMap (frame w)

/-- Bytes that no frame ends within: the header is short, or the message behind it. -/
def Unfinished (w : ℕ) (bs : List UInt8) : Prop :=
  bs.length < w ∨ bs.length < w + Struct.decode (bs.take w)

instance (bs : List UInt8) : Decidable (Unfinished w bs) :=
  inferInstanceAs (Decidable (_ ∨ _))

@[simp]
theorem stream_nil : stream w [] = [] := rfl

@[simp]
theorem stream_cons (m : List UInt8) (ms : List (List UInt8)) :
    stream w (m :: ms) = frame w m ++ stream w ms := rfl

@[simp]
theorem stream_append (ms ns : List (List UInt8)) :
    stream w (ms ++ ns) = stream w ms ++ stream w ns :=
  List.flatMap_append

/-- A frame is longer than its message by the header. -/
theorem length_frame {m : List UInt8} (hm : Fits w m) : (frame w m).length = w + m.length := by
  rw [frame, List.length_append, Struct.length_encode hm]

/-- A frame has at least the bytes of its header. -/
theorem frame_ne_nil [NeZero w] (m : List UInt8) : frame w m ≠ [] := by
  have hpos := NeZero.pos w
  have hhead := Struct.le_length_encode w m.length
  apply List.ne_nil_of_length_pos
  rw [frame, List.length_append]
  omega

/-- The header of a frame, whatever follows it. -/
theorem take_frame_append {m t : List UInt8} (hm : Fits w m) :
    (frame w m ++ t).take w = Struct.encode w m.length := by
  rw [frame, List.append_assoc, List.take_left' (Struct.length_encode hm)]

/-- The message of a frame, and what follows it. -/
theorem drop_frame_append {m t : List UInt8} (hm : Fits w m) :
    (frame w m ++ t).drop w = m ++ t := by
  rw [frame, List.append_assoc, List.drop_left' (Struct.length_encode hm)]

/-- What begins with a frame is not unfinished. -/
theorem not_unfinished_frame_append {m t : List UInt8} (hm : Fits w m) :
    ¬Unfinished w (frame w m ++ t) := by
  have hlen : (frame w m ++ t).length = w + m.length + t.length := by
    rw [List.length_append, length_frame hm]
  unfold Unfinished
  rw [take_frame_append hm, Struct.decode_encode hm, hlen]
  omega

/-- Bytes as long as their header and the length in it say are a frame. -/
theorem eq_frame {bs : List UInt8} (hlen : bs.length = w + Struct.decode (bs.take w)) :
    bs = frame w (bs.drop w) ∧ Fits w (bs.drop w) := by
  have hhead : (bs.take w).length = w := by
    rw [List.length_take]
    omega
  have hdrop : (bs.drop w).length = Struct.decode (bs.take w) := by
    rw [List.length_drop]
    omega
  have hcode : Struct.encode w (Struct.decode (bs.take w)) = bs.take w := by
    have h := Struct.encode_decode (bs.take w)
    rwa [hhead] at h
  refine ⟨?_, ?_⟩
  · calc bs
      _ = bs.take w ++ bs.drop w := (List.take_append_drop w bs).symm
      _ = Struct.encode w (Struct.decode (bs.take w)) ++ bs.drop w := by rw [hcode]
      _ = frame w (bs.drop w) := by rw [frame, hdrop]
  · have hlt := Struct.decode_lt (bs.take w)
    rwa [hhead, ← hdrop] at hlt

/-- Two streams that begin with a frame begin with the same one, if they are equal. -/
theorem frame_append_inj {m m' t t' : List UInt8} (hm : Fits w m) (hm' : Fits w m')
    (h : frame w m ++ t = frame w m' ++ t') : m = m' ∧ t = t' := by
  have hhead := congrArg (List.take w) h
  rw [take_frame_append hm, take_frame_append hm'] at hhead
  have hlen : m.length = m'.length := by
    rw [← Struct.decode_encode hm, hhead, Struct.decode_encode hm']
  have hrest := congrArg (List.drop w) h
  rw [drop_frame_append hm, drop_frame_append hm'] at hrest
  exact List.append_inj hrest hlen

/-- A stream that begins with a frame is that of its message and others. -/
theorem stream_eq_frame_append [NeZero w] {ms : List (List UInt8)} {m t : List UInt8}
    (hms : ∀ n ∈ ms, Fits w n) (hm : Fits w m) (h : stream w ms = frame w m ++ t) :
    ∃ ns, ms = m :: ns ∧ t = stream w ns := by
  cases ms with
  | nil =>
    have hlen := congrArg List.length h
    rw [List.length_append, length_frame hm, stream_nil, List.length_nil] at hlen
    exact absurd hlen (by have := NeZero.pos w; omega)
  | cons n ns =>
    obtain ⟨rfl, rfl⟩ := frame_append_inj (hms n List.mem_cons_self) hm h
    exact ⟨ns, rfl, rfl⟩

/-- Bytes are unfinished, or begin with a frame. -/
theorem unfinished_or_frame (bs : List UInt8) :
    Unfinished w bs ∨ ∃ m t, Fits w m ∧ bs = frame w m ++ t := by
  by_cases hu : Unfinished w bs
  · exact .inl hu
  · unfold Unfinished at hu
    have hhead : (bs.take (w + Struct.decode (bs.take w))).take w = bs.take w := by
      rw [List.take_take, Nat.min_eq_left (Nat.le_add_right ..)]
    have hlen : (bs.take (w + Struct.decode (bs.take w))).length =
        w + Struct.decode ((bs.take (w + Struct.decode (bs.take w))).take w) := by
      rw [hhead, List.length_take]
      omega
    obtain ⟨hframe, hfits⟩ := eq_frame hlen
    refine .inr ⟨_, bs.drop (w + Struct.decode (bs.take w)), hfits, ?_⟩
    rw [← hframe, List.take_append_drop]

/-- Bytes are a stream of frames and an unfinished one. -/
theorem exists_stream [NeZero w] (bs : List UInt8) :
    ∃ ms t, (∀ m ∈ ms, Fits w m) ∧ Unfinished w t ∧ bs = stream w ms ++ t := by
  induction hn : bs.length using Nat.strong_induction_on generalizing bs with
  | _ n ih =>
    rcases unfinished_or_frame (w := w) bs with hu | ⟨m, t, hm, rfl⟩
    · exact ⟨[], bs, fun _ h => absurd h List.not_mem_nil, hu, rfl⟩
    · -- What follows the first frame is shorter.
      have hlt : t.length < n := by
        rw [← hn, List.length_append, length_frame hm]
        have := NeZero.pos w
        omega
      obtain ⟨ms, t', hms, hu, ht⟩ := ih _ hlt t rfl
      refine ⟨m :: ms, t', fun k hk => ?_, hu, ?_⟩
      · rcases List.mem_cons.mp hk with rfl | hk
        · exact hm
        · exact hms k hk
      · rw [stream_cons, List.append_assoc, ← ht]

/-- The beginning of a frame is unfinished. -/
theorem unfinished_take {m : List UInt8} {k : ℕ} (hm : Fits w m) (hk : k < (frame w m).length) :
    Unfinished w ((frame w m).take k) := by
  have hhead := take_frame_append (t := []) hm
  rw [List.append_nil] at hhead
  rw [length_frame hm] at hk
  rcases Nat.lt_or_ge k w with hlt | hge
  · refine .inl ?_
    rw [List.length_take]
    omega
  · refine .inr ?_
    rw [List.take_take, Nat.min_eq_left hge, hhead, Struct.decode_encode hm, List.length_take]
    omega

/-- The beginning of a stream is that of some of its messages, and of a frame that is unfinished. -/
theorem take_stream [NeZero w] {ms : List (List UInt8)} (hms : ∀ m ∈ ms, Fits w m) (k : ℕ) :
    ∃ n ≤ ms.length, ∃ t, Unfinished w t ∧ (stream w ms).take k = stream w (ms.take n) ++ t ∧
      (stream w (ms.take n)).length ≤ k ∧
        (n < ms.length → k < (stream w (ms.take (n + 1))).length) := by
  induction ms generalizing k with
  | nil => exact ⟨0, le_refl 0, [], .inl (NeZero.pos w), List.take_nil, Nat.zero_le k, nofun⟩
  | cons m ms ih =>
    have hm := hms m List.mem_cons_self
    rcases Nat.lt_or_ge k (frame w m).length with hlt | hge
    -- The cut is in the first frame.
    · refine ⟨0, Nat.zero_le _, (frame w m).take k, unfinished_take hm hlt, ?_, Nat.zero_le k, fun _ => ?_⟩
      · rw [stream_cons, List.take_append_of_le_length hlt.le]
        rfl
      · simpa using hlt
    · obtain ⟨n, hn, t, hu, htake, hle, hlt⟩ :=
        ih (fun m' h => hms m' (List.mem_cons_of_mem m h)) (k - (frame w m).length)
      refine ⟨n + 1, Nat.succ_le_succ hn, t, hu, ?_, ?_, fun h => ?_⟩
      · calc (stream w (m :: ms)).take k
          _ = frame w m ++ (stream w ms).take (k - (frame w m).length) := by
            rw [stream_cons, List.take_append, List.take_of_length_le hge]
          _ = stream w ((m :: ms).take (n + 1)) ++ t := by
            rw [htake, List.take_succ_cons, stream_cons, List.append_assoc]
      · rw [List.take_succ_cons, stream_cons, List.length_append]
        omega
      · have hrest := hlt (Nat.lt_of_succ_lt_succ h)
        rw [List.take_succ_cons, stream_cons, List.length_append]
        omega

/-- A stream that is unfinished is empty. -/
theorem eq_nil_of_unfinished {ms : List (List UInt8)} (hms : ∀ n ∈ ms, Fits w n)
    (h : Unfinished w (stream w ms)) : ms = [] := by
  cases ms with
  | nil => rfl
  | cons n ns => exact absurd h (not_unfinished_frame_append (hms n List.mem_cons_self))

/-! ## Readers -/

/-- Where a reader stands: what it has of a frame that it has not finished. -/
structure Reading (w : ℕ) where
  bytes : List UInt8
  unfinished : Unfinished w bytes

namespace Reading

/-- Before a frame. -/
def start (w : ℕ) [NeZero w] : Reading w := ⟨[], .inl (NeZero.pos w)⟩

/-- How many bytes the reader asks for: those missing from the header, or those missing from the
message. -/
def missing (r : Reading w) : ℕ :=
  if r.bytes.length < w then w - r.bytes.length
  else w + Struct.decode (r.bytes.take w) - r.bytes.length

/-- The reader is handed a chunk. It hands on the message of a frame that ends with it. -/
def push [NeZero w] (r : Reading w) (chunk : List UInt8) : Option (List UInt8) × Reading w :=
  if h : Unfinished w (r.bytes ++ chunk) then (none, ⟨r.bytes ++ chunk, h⟩)
  else (some ((r.bytes ++ chunk).drop w), .start w)

/-- A reader always asks for something. -/
theorem missing_pos (r : Reading w) : 0 < r.missing := by
  have h := r.unfinished
  unfold Unfinished at h
  unfold missing
  split_ifs <;> omega

/-- A chunk of at most the bytes asked for leaves the frame unfinished, or ends with it. -/
theorem push_cases [NeZero w] {r : Reading w} {chunk : List UInt8} (h : chunk.length ≤ r.missing) :
    (∃ hu, r.push chunk = (none, ⟨r.bytes ++ chunk, hu⟩)) ∨
      ∃ m, r.push chunk = (some m, .start w) ∧ Fits w m ∧ r.bytes ++ chunk = frame w m := by
  unfold push
  by_cases hu : Unfinished w (r.bytes ++ chunk)
  · rw [dif_pos hu]
    exact .inl ⟨hu, rfl⟩
  · rw [dif_neg hu]
    have hlen : (r.bytes ++ chunk).length = w + Struct.decode ((r.bytes ++ chunk).take w) := by
      have hopen := r.unfinished
      unfold Unfinished at hu hopen
      unfold missing at h
      rw [List.length_append] at hu ⊢
      split_ifs at h with hshort
      -- The header ends with the chunk, and the message is empty.
      · omega
      -- The header was there before, and the chunk is the rest of the message.
      · rw [List.take_append_of_le_length (by omega)] at hu ⊢
        omega
    obtain ⟨hframe, hfits⟩ := eq_frame hlen
    exact .inr ⟨_, rfl, hfits, hframe⟩

end Reading

/-! ## Connections -/

/-- A connection: how many bytes it holds at most, those in flight, and where its reader stands. -/
structure Link (w : ℕ) where
  capacity : ℕ+
  inflight : List UInt8
  within : inflight.length ≤ capacity
  reading : Reading w

namespace Link

/-- Nothing sent, and nothing read. -/
def new (w : ℕ) [NeZero w] (capacity : ℕ+) : Link w := ⟨capacity, [], Nat.zero_le _, .start w⟩

/-- The writer hands over some bytes, if the connection has room for them. -/
def write (l : Link w) (bs : List UInt8) : Option (Link w) :=
  if h : (l.inflight ++ bs).length ≤ l.capacity then
    some { l with inflight := l.inflight ++ bs, within := h }
  else none

/-- The reader is handed the first `n` bytes in flight: at least one, and no more than it asks for. -/
def recv [NeZero w] (l : Link w) (n : ℕ) : Option (Option (List UInt8) × Link w) :=
  if 0 < n ∧ n ≤ l.reading.missing ∧ n ≤ l.inflight.length then
    let (m, reading) := l.reading.push (l.inflight.take n)
    let within := (List.drop_sublist n l.inflight).length_le.trans l.within
    some (m, { l with inflight := l.inflight.drop n, within, reading })
  else none

/-- The messages on their way: those whose frames are the bytes of the unfinished frame, the bytes in flight, and
the bytes that the writer has still to hand over. -/
structure Carries (l : Link w) (pending : List UInt8) (ms : List (List UInt8)) : Prop where
  fits : ∀ m ∈ ms, Fits w m
  bytes : l.reading.bytes ++ l.inflight ++ pending = stream w ms

variable {l l' : Link w} {m pending : List UInt8} {ms : List (List UInt8)} {n : ℕ}

/-- A new connection carries nothing. -/
theorem carries_new [NeZero w] (capacity : ℕ+) : (new w capacity).Carries [] [] :=
  ⟨fun _ h => absurd h List.not_mem_nil, rfl⟩

/-- A writer that begins to send puts a message behind those on their way. -/
theorem Carries.begin (h : l.Carries [] ms) (hm : Fits w m) : l.Carries (frame w m) (ms ++ [m]) := by
  refine ⟨fun k hk => ?_, ?_⟩
  · rcases List.mem_append.mp hk with hk | hk
    · exact h.fits k hk
    · rw [List.mem_singleton.mp hk]
      exact hm
  · have hbytes := h.bytes
    rw [List.append_nil] at hbytes
    rw [hbytes, stream_append, stream_cons, stream_nil, List.append_nil]

/-- What is handed over changes nothing of what is on its way. -/
theorem Carries.write (h : l.Carries pending ms) (n : ℕ) (hw : l.write (pending.take n) = some l') :
    l'.Carries (pending.drop n) ms := by
  unfold Link.write at hw
  split_ifs at hw
  cases hw
  refine ⟨h.fits, ?_⟩
  calc l.reading.bytes ++ (l.inflight ++ pending.take n) ++ pending.drop n
    _ = l.reading.bytes ++ l.inflight ++ (pending.take n ++ pending.drop n) := by
      simp only [List.append_assoc]
    _ = stream w ms := by rw [List.take_append_drop, h.bytes]

/-- What is read is the first of the messages on their way, once all of its frame was handed over. -/
theorem Carries.recv [NeZero w] {o : Option (List UInt8)} (h : l.Carries pending ms)
    (hr : l.recv n = some (o, l')) :
    (o = none ∧ l'.Carries pending ms) ∨ ∃ m ns, o = some m ∧ ms = m :: ns ∧ l'.Carries pending ns := by
  unfold Link.recv at hr
  split_ifs at hr with hn
  have hchunk : (l.inflight.take n).length ≤ l.reading.missing :=
    (List.length_take_le ..).trans hn.2.1
  have hbytes : l.reading.bytes ++ l.inflight.take n ++ (l.inflight.drop n ++ pending) = stream w ms := by
    rw [← h.bytes, List.append_assoc, ← List.append_assoc (l.inflight.take n), List.take_append_drop,
      List.append_assoc]
  rcases Reading.push_cases hchunk with ⟨hu, hp⟩ | ⟨m, hp, hfits, hframe⟩
  · simp only [hp, Option.some.injEq, Prod.mk.injEq] at hr
    obtain ⟨rfl, rfl⟩ := hr
    rw [← List.append_assoc] at hbytes
    exact .inl ⟨rfl, h.fits, hbytes⟩
  -- A frame ends with the chunk, so the stream begins with that frame.
  · simp only [hp, Option.some.injEq, Prod.mk.injEq] at hr
    obtain ⟨rfl, rfl⟩ := hr
    rw [hframe] at hbytes
    obtain ⟨ns, rfl, hrest⟩ := stream_eq_frame_append h.fits hfits hbytes.symm
    exact .inr ⟨m, ns, rfl, rfl, fun k hk => h.fits k (List.mem_cons_of_mem m hk), hrest⟩

/-- With nothing in flight and nothing to be handed over, nothing is on its way. -/
theorem Carries.eq_nil (h : l.Carries [] ms) (hempty : l.inflight = []) : ms = [] := by
  apply eq_nil_of_unfinished h.fits
  rw [← h.bytes, hempty, List.append_nil, List.append_nil]
  exact l.reading.unfinished

/-- A connection with nothing in flight has room for a byte. -/
theorem exists_write {bs : List UInt8} (hbs : bs.length = 1) (hempty : l.inflight = []) :
    ∃ l', l.write bs = some l' := by
  have hpos := l.capacity.pos
  unfold write
  rw [dif_pos (by rw [hempty, List.nil_append, hbs]; exact hpos)]
  exact ⟨_, rfl⟩

/-- What is in flight can be read from. -/
theorem exists_recv [NeZero w] (h : l.inflight ≠ []) : ∃ o l', l.recv 1 = some (o, l') := by
  have hpos := List.length_pos_iff.mpr h
  have hmissing := l.reading.missing_pos
  unfold recv
  rw [if_pos ⟨Nat.one_pos, hmissing, hpos⟩]
  exact ⟨_, _, rfl⟩

/-- Reading takes bytes out of flight. -/
theorem length_recv [NeZero w] {o : Option (List UInt8)} (hr : l.recv n = some (o, l')) :
    l'.inflight.length < l.inflight.length := by
  unfold recv at hr
  split_ifs at hr with hn
  simp only [Option.some.injEq, Prod.mk.injEq] at hr
  obtain ⟨-, rfl⟩ := hr
  rw [List.length_drop]
  omega

end Link

end Framing
