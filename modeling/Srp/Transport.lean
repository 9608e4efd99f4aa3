import Srp.Actor
import Srp.Framing

/-!
# Transport framing

`send_frame`, `recv_exact`, and `recv_frame` of `demo/run_network_demo.py`: records over a TCP
connection, each behind its length in four bytes. A socket is read in chunks of the kernel's choice, so a
`Socket` here is any list of chunks, of which a call of `recv` is handed the next one as far as it asked
for it. What the three functions make of a connection depends on its bytes only (`recvFrames_eq`), and
`recv_frames_of_sent` says what that is when the stream breaks off at any byte.
-/

namespace Srp

open Framing

/-! ## Sending -/

/-- The number of bytes of the length in front of a record. -/
abbrev framePrefixLen : ℕ := 4

/-- `send_frame`: what it puts on the connection. `to_bytes` raises on a length of more than four
bytes. -/
def sendFrame (data : Bytes) : Except Raised Bytes :=
  if data.length < 2 ^ 32 then .ok (Struct.encode framePrefixLen data.length ++ data)
  else .error (.overflowError "int too big to convert")

/-- What is sent is the frame of the data, if its length fits. -/
theorem sendFrame_eq_ok {data bytes : Bytes} :
    sendFrame data = .ok bytes ↔ Fits framePrefixLen data ∧ bytes = frame framePrefixLen data := by
  unfold sendFrame
  split_ifs with h
  · rw [Except.ok.injEq]
    exact ⟨fun he => ⟨h, he.symm⟩, fun he => he.2.symm⟩
  · exact ⟨nofun, fun he => absurd he.1 h⟩

/-! ## Receiving -/

/-- The reading end of a connection: the chunks in which what was sent is handed over. After the last one
the peer has closed. -/
structure Socket where
  chunks : List Bytes
  nonempty : ∀ c ∈ chunks, c ≠ []

namespace Socket

/-- What will be read from the connection. -/
def bytes (s : Socket) : Bytes := s.chunks.flatten

/-- `sock.recv`, of a positive count: the next chunk as far as it was asked for, and nothing only at the
end. -/
def recv (s : Socket) (count : ℕ) : Bytes × Socket :=
  match s with
  | ⟨[], h⟩ => ([], ⟨[], h⟩)
  | ⟨c :: cs, h⟩ =>
    if hle : c.length ≤ count then (c, ⟨cs, fun d hd => h d (List.mem_cons_of_mem c hd)⟩)
    else
      (c.take count, ⟨c.drop count :: cs, fun d hd => by
        rcases List.mem_cons.mp hd with rfl | hd
        · exact mt List.drop_eq_nil_iff.mp hle
        · exact h d (List.mem_cons_of_mem c hd)⟩)

/-- `recv_exact`: the loop, with the buffer so far. -/
def recvExact (s : Socket) (count : ℕ) (buffer : Bytes := []) : Option Bytes × Socket :=
  if buffer.length < count then
    match s.recv (count - buffer.length) with
    | ([], s) => (none, s)
    | (b :: bs, s) => recvExact s count (buffer ++ b :: bs)
  else (some buffer, s)
termination_by count - buffer.length
decreasing_by
  rw [List.length_append, List.length_cons]
  omega

/-- `recv_frame`. -/
def recvFrame (s : Socket) : Option Bytes × Socket :=
  match s.recvExact framePrefixLen with
  | (none, s) => (none, s)
  | (some header, s) => s.recvExact (Struct.decode header)

variable {s s' : Socket} {count : ℕ} {buffer : Bytes}

/-- A call of `recv` hands over a chunk of at most the bytes asked for, or the connection has ended. -/
theorem recv_cases (s : Socket) (hcount : 0 < count) :
    (s.bytes = [] ∧ s.recv count = ([], s)) ∨
      ∃ chunk s', s.recv count = (chunk, s') ∧ chunk ≠ [] ∧ chunk.length ≤ count ∧
        s.bytes = chunk ++ s'.bytes := by
  obtain ⟨chunks, hne⟩ := s
  cases chunks with
  | nil => exact .inl ⟨rfl, rfl⟩
  | cons c cs =>
    have hc := hne c List.mem_cons_self
    unfold recv
    dsimp only
    split_ifs with hle
    · exact .inr ⟨c, _, rfl, hc, hle, rfl⟩
    · -- Part of the chunk is handed over, and the rest stays in front.
      refine .inr ⟨c.take count, _, rfl, ?_, List.length_take_le .., ?_⟩
      · rw [ne_eq, List.take_eq_nil_iff, not_or]
        exact ⟨hcount.ne', hc⟩
      · unfold bytes
        rw [List.flatten_cons, List.flatten_cons, ← List.append_assoc, List.take_append_drop]

/-- `recv_exact` returns the bytes that are missing, or `None` where the connection ends before. -/
theorem recvExact_spec (s : Socket) (count : ℕ) (buffer : Bytes) (hbuffer : buffer.length ≤ count) :
    ∃ s', (count - buffer.length ≤ s.bytes.length ∧
        s.recvExact count buffer = (some (buffer ++ s.bytes.take (count - buffer.length)), s') ∧
          s'.bytes = s.bytes.drop (count - buffer.length)) ∨
      (s.bytes.length < count - buffer.length ∧ s.recvExact count buffer = (none, s')) := by
  fun_induction recvExact s count buffer with
  | case1 s buffer hlt s' hrecv =>
    have hcount : 0 < count - buffer.length := by omega
    rcases s.recv_cases hcount with ⟨hempty, -⟩ | ⟨chunk, t, h, hne, -, -⟩
    · refine ⟨s', .inr ⟨?_, rfl⟩⟩
      rw [hempty]
      exact hcount
    · rw [h] at hrecv
      exact absurd (Prod.mk.inj hrecv).1 hne
  | case2 s buffer hlt b bs s' hrecv ih =>
    rcases s.recv_cases (by omega : 0 < count - buffer.length) with ⟨-, h⟩ | ⟨chunk, t, h, -, hle, hb⟩
    · rw [h] at hrecv
      cases hrecv
    · rw [h] at hrecv
      obtain ⟨rfl, rfl⟩ := Prod.mk.inj hrecv
      have hlen : (buffer ++ b :: bs).length = buffer.length + (b :: bs).length := List.length_append
      have hrest : count - buffer.length = (b :: bs).length + (count - (buffer ++ b :: bs).length) := by
        omega
      obtain ⟨s', ⟨hge, he, hd⟩ | ⟨hlt', he⟩⟩ := ih (by omega)
      · refine ⟨s', .inl ⟨?_, ?_, ?_⟩⟩
        · rw [hb, List.length_append]
          omega
        · rw [he, hb, hrest, List.take_length_add_append, List.append_assoc]
        · rw [hd, hb, hrest, List.drop_length_add_append]
      · refine ⟨s', .inr ⟨?_, he⟩⟩
        rw [hb, List.length_append]
        omega
  | case3 s buffer hge =>
    have hzero : count - buffer.length = 0 := by omega
    refine ⟨s, .inl ⟨by omega, ?_, ?_⟩⟩
    · rw [hzero, List.take_zero, List.append_nil]
    · rw [hzero, List.drop_zero]

/-- `recv_exact` returns the first bytes of the connection, if it has so many. -/
theorem recvExact_of_le (h : count ≤ s.bytes.length) :
    ∃ s', s.recvExact count = (some (s.bytes.take count), s') ∧ s'.bytes = s.bytes.drop count := by
  obtain ⟨s', ⟨-, he, hd⟩ | ⟨hlt, -⟩⟩ := s.recvExact_spec count [] (Nat.zero_le _)
  · exact ⟨s', he, hd⟩
  · exact absurd h (not_le.mpr hlt)

/-- `recv_exact` returns `None`, if it has not. -/
theorem recvExact_of_lt (h : s.bytes.length < count) : ∃ s', s.recvExact count = (none, s') := by
  obtain ⟨s', ⟨hge, -, -⟩ | ⟨-, he⟩⟩ := s.recvExact_spec count [] (Nat.zero_le _)
  · exact absurd h (not_lt.mpr hge)
  · exact ⟨s', he⟩

/-- `recv_frame` returns the message of a frame, and reads no further. -/
theorem recvFrame_of_frame {m t : Bytes} (hm : Fits framePrefixLen m)
    (hs : s.bytes = frame framePrefixLen m ++ t) : ∃ s', s.recvFrame = (some m, s') ∧ s'.bytes = t := by
  have hlen : s.bytes.length = framePrefixLen + m.length + t.length := by
    rw [hs, List.length_append, length_frame hm]
  obtain ⟨s₁, he₁, hd₁⟩ := recvExact_of_le (s := s) (show framePrefixLen ≤ _ by omega)
  rw [hs, take_frame_append hm] at he₁
  rw [hs, drop_frame_append hm] at hd₁
  -- The length that was sent is that of the message.
  obtain ⟨s₂, he₂, hd₂⟩ := recvExact_of_le (s := s₁) (show m.length ≤ _ by rw [hd₁]; simp)
  rw [hd₁, List.take_left] at he₂
  rw [hd₁, List.drop_left] at hd₂
  refine ⟨s₂, ?_, hd₂⟩
  unfold recvFrame
  rw [he₁]
  dsimp only
  rw [Struct.decode_encode hm, he₂]

/-- `recv_frame` returns `None` where the connection ends within a frame. -/
theorem recvFrame_of_unfinished (hs : Unfinished framePrefixLen s.bytes) :
    ∃ s', s.recvFrame = (none, s') := by
  unfold recvFrame
  rcases Nat.lt_or_ge s.bytes.length framePrefixLen with hlt | hge
  · obtain ⟨s₁, he₁⟩ := recvExact_of_lt hlt
    exact ⟨s₁, by rw [he₁]⟩
  · obtain ⟨s₁, he₁, hd₁⟩ := recvExact_of_le hge
    have hshort : s₁.bytes.length < Struct.decode (s.bytes.take framePrefixLen) := by
      unfold Unfinished at hs
      rw [hd₁, List.length_drop]
      omega
    obtain ⟨s₂, he₂⟩ := recvExact_of_lt hshort
    refine ⟨s₂, ?_⟩
    rw [he₁]
    exact he₂

/-- A frame that is read is gone from the connection. -/
theorem length_of_recvFrame {wire : Bytes} (h : s.recvFrame = (some wire, s')) :
    s'.bytes.length < s.bytes.length := by
  rcases unfinished_or_frame (w := framePrefixLen) s.bytes with hu | ⟨m, t, hm, hs⟩
  · obtain ⟨t, ht⟩ := recvFrame_of_unfinished hu
    rw [ht] at h
    cases h
  · obtain ⟨t', ht, hbytes⟩ := recvFrame_of_frame hm hs
    rw [ht] at h
    cases h
    have hpos : 0 < framePrefixLen := by decide
    rw [hbytes, hs, List.length_append, length_frame hm]
    omega

/-- The frames that an entity reads before `recv_frame` returns `None`. -/
def recvFrames (s : Socket) : List Bytes :=
  match _h : s.recvFrame with
  | (none, _) => []
  | (some wire, s') => wire :: recvFrames s'
termination_by s.bytes.length
decreasing_by exact length_of_recvFrame _h

/-- The frames that are read are those of the stream, up to one that is unfinished. -/
theorem recvFrames_of_stream {ms : List Bytes} {t : Bytes} (hms : ∀ m ∈ ms, Fits framePrefixLen m)
    (ht : Unfinished framePrefixLen t) (hs : s.bytes = stream framePrefixLen ms ++ t) :
    s.recvFrames = ms := by
  induction ms generalizing s with
  | nil =>
    obtain ⟨s', he⟩ := recvFrame_of_unfinished (s := s) (by rwa [hs])
    rw [recvFrames]
    split
    · rfl
    · rename_i h
      rw [he] at h
      cases h
  | cons m ms ih =>
    rw [stream_cons, List.append_assoc] at hs
    obtain ⟨s', he, hrest⟩ := recvFrame_of_frame (hms m List.mem_cons_self) hs
    rw [recvFrames]
    split
    · rename_i h
      rw [he] at h
      cases h
    · rename_i h
      rw [he] at h
      cases h
      rw [ih (fun k hk => hms k (List.mem_cons_of_mem m hk)) hrest]

/-- What is read depends on the bytes, and not on the chunks in which they arrive. -/
theorem recvFrames_eq (h : s.bytes = s'.bytes) : s.recvFrames = s'.recvFrames := by
  obtain ⟨ms, t, hms, ht, hs⟩ := exists_stream (w := framePrefixLen) s.bytes
  rw [recvFrames_of_stream hms ht hs, recvFrames_of_stream hms ht (h ▸ hs)]

end Socket

/-- What is sent for some data is their stream, and each of their lengths fits. -/
theorem sent_eq {data sent : List Bytes}
    (hsent : List.Forall₂ (fun d bytes => sendFrame d = .ok bytes) data sent) :
    (∀ d ∈ data, Fits framePrefixLen d) ∧ sent = data.map (frame framePrefixLen) := by
  induction hsent with
  | nil => exact ⟨fun _ h => absurd h List.not_mem_nil, rfl⟩
  | cons h _ ih =>
    obtain ⟨hfits, rfl⟩ := sendFrame_eq_ok.mp h
    refine ⟨fun d hd => ?_, by rw [List.map_cons, ← ih.2]⟩
    rcases List.mem_cons.mp hd with rfl | hd
    · exact hfits
    · exact ih.1 d hd

/-- Frames survive the transport. Let some data be sent, each with a call of `send_frame` that returns,
and let the connection carry the first `k` bytes of that and break off there. However the kernel cuts
them into chunks, the frames that are read are the data whose frames were carried whole, in order, and
nothing of the next. -/
theorem recv_frames_of_sent {data sent : List Bytes} {k : ℕ} {s : Socket}
    (hsent : List.Forall₂ (fun d bytes => sendFrame d = .ok bytes) data sent)
    (hs : s.bytes = sent.flatten.take k) :
    ∃ n ≤ data.length, s.recvFrames = data.take n ∧ (sent.take n).flatten.length ≤ k ∧
      (n < data.length → k < (sent.take (n + 1)).flatten.length) := by
  obtain ⟨hfits, rfl⟩ := sent_eq hsent
  have hflat (ms : List Bytes) : (ms.map (frame framePrefixLen)).flatten = stream framePrefixLen ms :=
    (List.flatMap_def ..).symm
  obtain ⟨n, hn, t, ht, htake, hle, hlt⟩ := take_stream hfits k
  refine ⟨n, hn, ?_, ?_, fun h => ?_⟩
  · rw [hflat, htake] at hs
    exact Socket.recvFrames_of_stream (fun m hm => hfits m (List.mem_of_mem_take hm)) ht hs
  · rw [← List.map_take, hflat]
    exact hle
  · rw [← List.map_take, hflat]
    exact hlt h

/-- Of two frames of which the second one lacks its last byte, the first one is read. -/
theorem recv_frames_of_sent_of_torn :
    ∃ n ≤ 2, (Socket.recvFrames ⟨[[0], [0, 0, 2, 1], [2, 0, 0, 0]], by decide⟩ =
      ([[1, 2], []] : List Bytes).take n) ∧ n < 2 := by
  have hsent : List.Forall₂ (fun d bytes => sendFrame d = .ok bytes) [[1, 2], []]
      [[0, 0, 0, 2, 1, 2], [0, 0, 0, 0]] := .cons rfl (.cons rfl .nil)
  obtain ⟨n, hn, hread, hle, -⟩ := recv_frames_of_sent (k := 9)
    (s := ⟨[[0], [0, 0, 2, 1], [2, 0, 0, 0]], by decide⟩) hsent rfl
  refine ⟨n, hn, hread, ?_⟩
  by_contra hall
  rw [List.take_of_length_le (by exact not_lt.mp hall)] at hle
  exact absurd hle (by decide)

end Srp
