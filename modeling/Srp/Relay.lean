import Srp.Network
import Srp.Equivalence
import Srp.Encoding
import Srp.Configuration

/-!
# What the receiver makes of the relayed records

The three loops of the network demonstration, run one after the other on a fresh sender, actor, and
receiver. The frames of the sender are numbered in order (`frameOf_of_sent`), what the actor makes of them
goes along with its log entry by entry (`Relayed`), and the receiver answers each entry by what was
done (`relay_verdicts`): a forwarded record is accepted, a changed one fails to authenticate, and a
replay is detected as long as the window reaches back to it.
-/

namespace Srp

open Framing Pipeline

/-! ## The frames of the sender -/

/-- The length of a frame is that of its header and its body. -/
theorem length_of_parseRecord {wire : Bytes} {record : ProtectedRecord}
    (hp : parseRecord wire = .ok record) :
    wire.length = headerLen + record.ciphertext_and_tag.length := by
  have hmin : minRecordLen ≤ wire.length := (exists_parseRecord_iff.mp ⟨record, hp⟩).1
  rw [minRecordLen_eq] at hmin
  rw [(split_of_parseRecord hp).2, List.length_drop, headerLen_eq]
  omega

/-- A frame of a stream: the record that it parses to, and the payload that this opens to. -/
structure FrameOf (suite : AeadSuite) (key : StreamKey) (seq : ℤ) (payload wire : Bytes)
    (record : ProtectedRecord) : Prop where
  parsed : parseRecord wire = .ok record
  opens : suite.openRecord record = .ok payload
  suite_id : record.header.suite_id = suite.suite_id
  streamKey : record.header.streamKey = key
  seq : record.header.seq = seq
  record_type : record.header.record_type = RecordType.DATA.value
  length : wire.length = minRecordLen + payload.length

/-- A turn of the sender sends the frame of the record that `seal` returns, or it raises and sends
nothing. -/
theorem senderTurn_cases (s : Sender) (payload : Bytes) :
    (∃ e t, senderTurn s payload = .done (some e) t) ∨
      ∃ record wire, (s.seal { payload := some payload }).result = .ok record ∧
        record.toBytes = .ok wire ∧
          let t := (s.seal { payload := some payload }).sender
          senderTurn s payload = .send t wire (.done none t) := by
  unfold senderTurn
  rw [Sender.protect_snd]
  cases hprotect : (s.protect { payload := some payload }).1 with
  | error e => exact .inl ⟨_, _, rfl⟩
  | ok wire =>
    obtain ⟨record, hresult, hwire⟩ := Sender.protect_eq_ok.mp hprotect
    let t := (s.seal { payload := some payload }).sender
    rcases sendFrameThen_cases wire t (.done none t) with ⟨e, he⟩ | ⟨-, he⟩
    · exact .inl ⟨e, t, he⟩
    · exact .inr ⟨record, wire, hresult, hwire, he⟩

/-- A record that `seal` returns has a frame of the sender's stream at its next number, and moves the number
on. -/
theorem frameOf_of_seal {s : Sender} {args : SealArgs} {record : ProtectedRecord} {wire : Bytes}
    (hseals : s.suite.impl.Seals) (htype : args.record_type = RecordType.DATA.value)
    (hresult : (s.seal args).result = .ok record) (hwire : record.toBytes = .ok wire) :
    ∃ payload, args.payload = some payload ∧
      FrameOf s.suite (s.session_id, s.stream_id) s.nonces.next payload wire record ∧
        (s.seal args).sender.nonces.next = s.nonces.next + 1 := by
  have ho := s.seal_outcome args
  obtain ⟨payload, hpayload, hfields, hparsed, hopens⟩ := ho.opens hseals hresult hwire
  refine ⟨payload, hpayload, ⟨hparsed, hopens, ?_, ?_, ?_, ?_, ?_⟩, ?_⟩
  · rw [hfields]
    rfl
  · rw [RecordHeader.streamKey, hfields]
    rfl
  · rw [hfields]
    rfl
  · rw [hfields]
    exact htype
  · obtain ⟨-, -, -, hlen⟩ := parseRecord_eq_ok.mp hparsed
    have hpayload_len : record.header.payload_len = payload.length := by
      rw [hfields]
      rfl
    rw [length_of_parseRecord hparsed, minRecordLen]
    omega
  · rcases ho.nonces_cases with ⟨-, -, -, hno⟩ | ⟨hlimit, _, -, -, hadv, -⟩
    · exact absurd hresult (hno record)
    · rw [hadv]
      rfl

/-- The frames that the sender sends are numbered in order, each for the payload of its turn. -/
theorem frameOf_of_sent {s : Sender} {payloads : List Bytes} (hseals : s.suite.impl.Seals) {i : ℕ}
    {wire : Bytes}
    (h : ((⟨s, .running⟩ : Thread Raised Sender).sent senderTurn payloads)[i]? = some wire) :
    ∃ payload record, payloads[i]? = some payload ∧
      FrameOf s.suite (s.session_id, s.stream_id) (s.nonces.next + i) payload wire record := by
  induction payloads generalizing s i with
  | nil => cases h
  | cons payload payloads ih =>
    rw [Thread.sent_cons, Thread.step_of_running rfl] at h
    rcases senderTurn_cases s payload with ⟨e, t, hturn⟩ | ⟨record, wire', hresult, hwire, hturn⟩
    -- The thread has raised, and sends nothing more.
    · rw [hturn] at h
      dsimp only [Turn.sent, Turn.last] at h
      rw [(Thread.sent_of_ended senderTurn (t := ⟨t, .raised e⟩) nofun payloads).1] at h
      cases h
    · rw [hturn] at h
      dsimp only [Turn.sent, Turn.last] at h
      obtain ⟨payload', hpayload, hframe, hnext⟩ := frameOf_of_seal hseals rfl hresult hwire
      obtain rfl := Option.some.inj hpayload
      obtain ⟨hsuite, hsession, hstream, -⟩ := (s.seal_outcome { payload := some payload }).config
      cases i with
      | zero =>
        obtain rfl : wire' = wire := Option.some.inj h
        exact ⟨payload, record, rfl, by rwa [Nat.cast_zero, add_zero]⟩
      | succ i =>
        obtain ⟨payload', record', hp, hf⟩ := ih (by rwa [hsuite]) (i := i) h
        rw [hsuite, hsession, hstream, hnext] at hf
        refine ⟨payload', record', hp, ?_⟩
        rwa [Nat.cast_succ, add_comm (i : ℤ) 1, ← add_assoc]

/-! ## What the actor sends -/

/-- A frame that is not the one it was made from, and names its suite and its place. -/
structure Counterfeit (wire wire' : Bytes) : Prop where
  ne : wire' ≠ wire
  parsed : ∀ record, parseRecord wire = .ok record → ∃ record', parseRecord wire' = .ok record' ∧
    record'.header.suite_id = record.header.suite_id ∧ record'.header.place = record.header.place

/-- The log of the actor goes along with what it has sent, entry by entry: a frame of the sender, beyond
all those named before, as it was or changed, or one that was forwarded before, right behind a later
one. -/
inductive Relayed (frames : List Bytes) : List (ℕ × ActorAction) → List Bytes → Prop
  | nil : Relayed frames [] []
  | forward {log : List (ℕ × ActorAction)} {sent : List Bytes} {i : ℕ} {wire : Bytes}
    (h : Relayed frames log sent) (hnew : ∀ e ∈ log, e.1 < i) (hw : frames[i]? = some wire) :
    Relayed frames (log ++ [(i, .forward)]) (sent ++ [wire])
  | changed {log : List (ℕ × ActorAction)} {sent : List Bytes} {i : ℕ} {action : ActorAction}
    {wire wire' : Bytes} (h : Relayed frames log sent) (hnew : ∀ e ∈ log, e.1 < i)
    (hw : frames[i]? = some wire) (haction : action ∈ [.flipCiphertext, .flipTag, .tamperAad])
    (hc : Counterfeit wire wire') : Relayed frames (log ++ [(i, action)]) (sent ++ [wire'])
  | replay {log : List (ℕ × ActorAction)} {sent : List Bytes} {i last : ℕ} {wire wire' : Bytes}
    (h : Relayed frames log sent) (hnew : ∀ e ∈ log, e.1 < last) (hw : frames[last]? = some wire)
    (hold : (i, .forward) ∈ log) (hw' : frames[i]? = some wire') :
    Relayed frames (log ++ [(last, .forward)] ++ [(i, .replay)]) (sent ++ [wire] ++ [wire'])

/-- More frames of the sender change nothing of what was sent. -/
theorem Relayed.append {frames sent : List Bytes} {log : List (ℕ × ActorAction)}
    (h : Relayed frames log sent) (more : List Bytes) : Relayed (frames ++ more) log sent := by
  have hmore {i : ℕ} {wire : Bytes} (hw : frames[i]? = some wire) : (frames ++ more)[i]? = some wire := by
    rw [List.getElem?_append_left (List.getElem?_eq_some_iff.mp hw).1, hw]
  induction h with
  | nil => exact .nil
  | forward _ hnew hw ih => exact ih.forward hnew (hmore hw)
  | changed _ hnew hw haction hc ih => exact ih.changed hnew (hmore hw) haction hc
  | replay _ hnew hw hold hw' ih => exact ih.replay hnew (hmore hw) hold (hmore hw')

section Counterfeit

variable {wire wire' : Bytes} {record : ProtectedRecord}

/-- A frame of one length with another that parses, and with the same version, suite, session, stream,
number, and payload length, parses to a record of the same suite and place. -/
theorem exists_parseRecord_of_slices (hp : parseRecord wire = .ok record)
    (hlen : wire'.length = wire.length) (hhead : slice wire' 0 2 = slice wire 0 2)
    (hstream : slice wire' 4 24 = slice wire 4 24) (hnumber : slice wire' 28 40 = slice wire 28 40) :
    ∃ record', parseRecord wire' = .ok record' ∧
      record'.header.suite_id = record.header.suite_id ∧ record'.header.place = record.header.place := by
  have hversion := slice_congr hhead (by omega : 0 ≤ 0) (by omega : 1 ≤ 2)
  have hpayload := slice_congr hnumber (by omega : 28 ≤ 36) (by omega : 40 ≤ 40)
  obtain ⟨record', hp'⟩ := (exists_parseRecord_iff_of_length hp hlen).mpr ⟨hversion, hpayload⟩
  obtain ⟨hsuite, hsession, hstreamId, hseq⟩ := names_of_parseRecord hp
  obtain ⟨hsuite', hsession', hstreamId', hseq'⟩ := names_of_parseRecord hp'
  rw [slice_congr hhead (by omega : 0 ≤ 1) (by omega : 2 ≤ 2)] at hsuite'
  rw [slice_congr hstream (by omega : 4 ≤ 4) (by omega : 20 ≤ 24)] at hsession'
  rw [slice_congr hstream (by omega : 4 ≤ 20) (by omega : 24 ≤ 24)] at hstreamId'
  rw [slice_congr hnumber (by omega : 28 ≤ 28) (by omega : 36 ≤ 40)] at hseq'
  refine ⟨record', hp', hsuite'.trans hsuite.symm, ?_⟩
  unfold RecordHeader.place RecordHeader.streamKey
  rw [hsession', hsession, hstreamId', hstreamId, hseq', hseq]

/-- A bit flip behind the header makes a counterfeit. -/
theorem counterfeit_flipped {k b : ℕ} (hk : 40 ≤ k) (hlen : k < wire.length) (hb : b < 8) :
    Counterfeit wire (flipped wire k b) := by
  refine ⟨fun h => ?_, fun record hp => ?_⟩
  · exact getElem?_flipped_ne hlen hb (congrArg (·[k]?) h)
  · exact exists_parseRecord_of_slices hp (length_flipped ..) (slice_flipped_of_outside (by omega))
      (slice_flipped_of_outside (by omega)) (slice_flipped_of_outside (by omega))

/-- Relabelling a DATA record makes a counterfeit. -/
theorem counterfeit_relabelled (hp : parseRecord wire = .ok record)
    (htype : record.header.record_type = RecordType.DATA.value)
    (ht : relabelRecordType wire = .ok wire') : Counterfeit wire wire' := by
  obtain ⟨header, hfields, hp'⟩ := parseRecord_of_tamperHeader hp ht rfl rfl
  refine ⟨fun hsame => ?_, fun record₁ hp₁ => ?_⟩
  · rw [hsame, hp] at hp'
    have hheader : record.header = header := congrArg ProtectedRecord.header (Except.ok.inj hp')
    have hclose : header.record_type = RecordType.CLOSE.value := by
      rw [hfields]
      rfl
    rw [← hheader, htype] at hclose
    exact absurd hclose (by decide)
  · have hsame : record = record₁ := Except.ok.inj (hp.symm.trans hp₁)
    rw [← hsame]
    refine ⟨_, hp', ?_, ?_⟩
    · dsimp only
      rw [hfields]
      rfl
    · unfold RecordHeader.place RecordHeader.streamKey
      dsimp only
      rw [hfields]
      rfl

/-- A ciphertext flip that returns makes a counterfeit. -/
theorem counterfeit_of_flipCiphertextBit {rng : Rng}
    (h : (flipCiphertextBit rng wire).1 = .ok wire') : Counterfeit wire wire' := by
  unfold flipCiphertextBit ctRange at h
  dsimp only at h
  split_ifs at h with hempty
  have hroom : (headerLen : ℤ) + ((wire.length : ℤ) - tagLen - headerLen).toNat ≤ wire.length := by
    omega
  obtain ⟨k, b, hk, -, hlen, hb, hflip⟩ :=
    exists_flipped_of_random rng (Int.natCast_nonneg headerLen) (by omega) hroom
  rw [hflip] at h
  rw [← Except.ok.inj h]
  exact counterfeit_flipped (Int.ofNat_le.mp hk) hlen hb

/-- A tag flip of a frame that parses makes a counterfeit. -/
theorem counterfeit_of_flipTagBit {rng : Rng} (hp : parseRecord wire = .ok record)
    (h : (flipTagBit rng wire).1 = .ok wire') : Counterfeit wire wire' := by
  have hmin : minRecordLen ≤ wire.length := (exists_parseRecord_iff.mp ⟨record, hp⟩).1
  rw [minRecordLen_eq] at hmin
  have htag : tagLen = 16 := rfl
  obtain ⟨k, b, hk, -, hlen, hb, hflip⟩ :=
    exists_flipped_of_random rng (show 0 ≤ (wire.length : ℤ) - tagLen by omega) (show 0 < tagLen by omega)
      (show (wire.length : ℤ) - tagLen + tagLen ≤ wire.length by omega)
  unfold flipTagBit at h
  rw [hflip] at h
  rw [← Except.ok.inj h]
  exact counterfeit_flipped (by omega) hlen hb

end Counterfeit

namespace ActorEntity

/-- What is known of the actor after some frames of the sender and what it sent for them. -/
structure Follows (a : ActorEntity) (frames sent : List Bytes) : Prop where
  relayed : Relayed frames a.log sent
  earlier : ∀ e ∈ a.log, e.1 < frames.length
  captured : ∀ i wire, a.captured = some (i, wire) → frames[i]? = some wire ∧ (i, .forward) ∈ a.log

variable {a : ActorEntity} {frames sent : List Bytes} {wire : Bytes}

@[simp]
theorem index_logged (a : ActorEntity) (entry : ℕ × ActorAction) :
    (a.logged entry).index = a.index := rfl

@[simp]
theorem captured_logged (a : ActorEntity) (entry : ℕ × ActorAction) :
    (a.logged entry).captured = a.captured := rfl

/-- A frame for which nothing is sent. -/
theorem Follows.skip (h : a.Follows frames sent) (wire : Bytes) : a.Follows (frames ++ [wire]) sent := by
  refine ⟨h.relayed.append _, fun e he => ?_, fun i w hc => ?_⟩
  · rw [List.length_append]
    exact (h.earlier e he).trans_le (Nat.le_add_right ..)
  · obtain ⟨hw, hmem⟩ := h.captured i w hc
    rw [List.getElem?_append_left (List.getElem?_eq_some_iff.mp hw).1]
    exact ⟨hw, hmem⟩

/-- What is known of the actor at the end of a turn. -/
structure FollowsOn (k : Turn Raised Bytes ActorEntity) (frames sent : List Bytes) : Prop where
  follows : k.last.state.Follows frames (sent ++ k.sent)
  index : k.last.status = .running → k.last.state.index = frames.length

/-- A turn that raises. -/
theorem Follows.raised (h : a.Follows frames sent) (e : Raised) : FollowsOn (.done (some e) a) frames sent :=
  ⟨(List.append_nil sent).symm ▸ h, nofun⟩

/-- The end of a turn. -/
theorem Follows.next (h : a.Follows frames sent) (hindex : a.index + 1 = frames.length) :
    FollowsOn (.done none a.next) frames sent :=
  ⟨(List.append_nil sent).symm ▸ ⟨h.relayed, h.earlier, h.captured⟩, fun _ => hindex⟩

/-- A `send_frame` raises, or adds its entry to the log, and the turn goes on. -/
theorem Follows.emit {data : Bytes} {entry : ℕ × ActorAction} {rest : ActorEntity → Turn Raised Bytes ActorEntity}
    (h : a.Follows frames sent) (hrest : FollowsOn (rest (a.logged entry)) frames (sent ++ [data])) :
    FollowsOn (a.emit data entry rest) frames sent := by
  unfold ActorEntity.emit
  rcases sendFrameThen_cases data a (rest (a.logged entry)) with ⟨e, he⟩ | ⟨-, he⟩
  · rw [he]
    exact h.raised e
  · rw [he]
    have hfollows := hrest.follows
    rw [List.append_assoc, List.singleton_append] at hfollows
    exact ⟨hfollows, hrest.index⟩

/-- A frame that is forwarded. -/
theorem Follows.forward (h : a.Follows frames sent) (hindex : a.index = frames.length) (wire : Bytes) :
    (a.logged (a.index, .forward)).Follows (frames ++ [wire]) (sent ++ [wire]) := by
  have hskip := h.skip wire
  refine ⟨hskip.relayed.forward (hindex ▸ h.earlier) ?_, fun e he => ?_, fun i w hc => ?_⟩
  · rw [hindex, List.getElem?_concat_length]
  · rcases List.mem_append.mp he with he | he
    · exact hskip.earlier e he
    · rw [List.mem_singleton.mp he, List.length_append, hindex]
      exact Nat.lt_succ_self _
  · obtain ⟨hw, hmem⟩ := hskip.captured i w hc
    exact ⟨hw, List.mem_append_left _ hmem⟩

/-- A rewriting turn that sends a counterfeit, if it sends anything. -/
theorem Follows.rewrite (h : a.Follows frames sent) (hindex : a.index = frames.length)
    {changed : Except Raised Bytes} {action : ActorAction}
    (haction : action ∈ [.flipCiphertext, .flipTag, .tamperAad])
    (hc : ∀ wire', changed = .ok wire' → Counterfeit wire wire') :
    FollowsOn (a.rewrite changed action) (frames ++ [wire]) sent := by
  have hskip := h.skip wire
  unfold ActorEntity.rewrite
  cases changed with
  | error e => exact hskip.raised e
  | ok data =>
    have hnext : a.index + 1 = (frames ++ [wire]).length := by
      rw [List.length_append, hindex, List.length_singleton]
    refine hskip.emit (Follows.next ⟨?_, fun e he => ?_, fun i w hcap => ?_⟩ hnext)
    · refine hskip.relayed.changed (hindex ▸ h.earlier) ?_ haction (hc data rfl)
      rw [hindex, List.getElem?_concat_length]
    · rcases List.mem_append.mp he with he | he
      · exact hskip.earlier e he
      · rw [List.mem_singleton.mp he, ← hnext]
        exact Nat.lt_succ_self _
    · obtain ⟨hw, hmem⟩ := hskip.captured i w hcap
      exact ⟨hw, List.mem_append_left _ hmem⟩

/-- A turn on the frame of a DATA record. -/
theorem Follows.turn {record : ProtectedRecord} (h : a.Follows frames sent)
    (hindex : a.index = frames.length) (hp : parseRecord wire = .ok record)
    (htype : record.header.record_type = RecordType.DATA.value) :
    FollowsOn (a.turn wire) (frames ++ [wire]) sent := by
  have hforward := h.forward hindex wire
  have hnext : a.index + 1 = (frames ++ [wire]).length := by
    rw [List.length_append, hindex, List.length_singleton]
  unfold ActorEntity.turn
  cases a.planned with
  | forward =>
    refine (h.skip wire).emit (Follows.next ⟨hforward.relayed, hforward.earlier, fun i w hcap => ?_⟩ hnext)
    cases hkept : a.captured with
    | none =>
      -- The first frame to be forwarded is kept.
      simp only [captured_logged, hkept] at hcap
      cases hcap
      refine ⟨?_, List.mem_append_right _ (List.mem_singleton_self _)⟩
      rw [index_logged, hindex, List.getElem?_concat_length]
    | some kept =>
      simp only [captured_logged, hkept] at hcap
      cases hcap
      exact hforward.captured i w hkept
  | flipCiphertext =>
    refine Follows.rewrite (a := { a with rng := (flipCiphertextBit a.rng wire).2 })
      ⟨h.relayed, h.earlier, h.captured⟩ hindex (by decide) fun wire' hw => ?_
    exact counterfeit_of_flipCiphertextBit hw
  | flipTag =>
    refine Follows.rewrite (a := { a with rng := (flipTagBit a.rng wire).2 })
      ⟨h.relayed, h.earlier, h.captured⟩ hindex (by decide) fun wire' hw => ?_
    exact counterfeit_of_flipTagBit hp hw
  | tamperAad =>
    refine h.rewrite hindex (by decide) fun wire' hw => ?_
    cases ht : relabelRecordType wire with
    | error e =>
      rw [ht] at hw
      cases hw
    | ok changed =>
      rw [ht] at hw
      cases hw
      exact counterfeit_relabelled hp htype ht
  | drop => exact (h.skip wire).next hnext
  | replay =>
    refine (h.skip wire).emit ?_
    rw [captured_logged]
    cases hkept : a.captured with
    | none => exact hforward.next hnext
    | some kept =>
      obtain ⟨i, frame⟩ := kept
      have hcap := (h.skip wire).captured i frame hkept
      have hlast : (frames ++ [wire])[a.index]? = some wire := by
        rw [hindex, List.getElem?_concat_length]
      have hreplay := (h.skip wire).relayed.replay (hindex ▸ h.earlier) hlast hcap.2 hcap.1
      refine hforward.emit (Follows.next ⟨hreplay, fun e he => ?_, fun j w hcap => ?_⟩ hnext)
      · rcases List.mem_append.mp he with he | he
        · exact hforward.earlier e he
        · rw [List.mem_singleton.mp he]
          exact (h.skip wire).earlier (i, .forward) hcap.2
      · obtain ⟨hw, hmem⟩ := hforward.captured j w hcap
        exact ⟨hw, List.mem_append_left _ hmem⟩

/-- After any frames of DATA records, a new actor has its log go along with what it has sent. -/
theorem follows_of_data (plan : List (ℕ × ActorAction)) (rng : Rng)
    (hdata : ∀ wire ∈ frames, ∃ record, parseRecord wire = .ok record ∧
      record.header.record_type = RecordType.DATA.value) :
    let t : Thread Raised ActorEntity := ⟨{ plan, rng }, .running⟩
    (t.after turn frames).state.Follows frames (t.sent turn frames) ∧
      ((t.after turn frames).status = .running →
        (t.after turn frames).state.index = frames.length) := by
  intro t
  induction frames using List.reverseRecOn with
  | nil => exact ⟨⟨.nil, nofun, nofun⟩, fun _ => rfl⟩
  | append_singleton frames wire ih =>
    obtain ⟨hfollows, hindex⟩ := ih fun w hw => hdata w (List.mem_append_left _ hw)
    obtain ⟨record, hp, htype⟩ := hdata wire (List.mem_append_right _ (List.mem_singleton_self wire))
    rw [Thread.after_append, Thread.sent_append, List.length_append, List.length_singleton]
    generalize t.after turn frames = t₁ at hfollows hindex ⊢
    generalize t.sent turn frames = sent₁ at hfollows ⊢
    rw [Thread.after_cons, Thread.after_nil, Thread.sent_cons, Thread.sent_nil, List.append_nil]
    by_cases hrunning : t₁.status = .running
    · have hturn := hfollows.turn (hindex hrunning) hp htype
      rw [Thread.step_of_running hrunning]
      have hlast := hturn.index
      rw [List.length_append, List.length_singleton] at hlast
      exact ⟨hturn.follows, hlast⟩
    · rw [Thread.step_of_ended hrunning, List.append_nil]
      exact ⟨hfollows.skip wire, fun h => absurd h hrunning⟩

end ActorEntity

/-! ## What the plan calls for -/

/-- The entries of the log for a record, where `kept` is the index of the frame kept for a replay. -/
def entries (action : ActorAction) (i : ℕ) (kept : Option ℕ) : List (ℕ × ActorAction) :=
  match action with
  | .forward => [(i, .forward)]
  | .drop => []
  | .replay => (i, .forward) :: (kept.map fun j => (j, ActorAction.replay)).toList
  | action => [(i, action)]

/-- `plan.get(index, "forward")`. -/
def plannedAt (plan : List (ℕ × ActorAction)) (i : ℕ) : ActorAction := (plan.lookup i).getD .forward

/-- The first of some records that the plan forwards. -/
def firstForward (plan : List (ℕ × ActorAction)) : ℕ → Option ℕ
  | 0 => none
  | n + 1 => (firstForward plan n).or (if plannedAt plan n = .forward then some n else none)

/-- The log that the plan calls for on some records. -/
def planLog (plan : List (ℕ × ActorAction)) : ℕ → List (ℕ × ActorAction)
  | 0 => []
  | n + 1 => planLog plan n ++ entries (plannedAt plan n) n (firstForward plan n)

/-- What parses fits in a frame of the transport. -/
theorem fits_of_parseRecord {wire : Bytes} {record : ProtectedRecord}
    (hp : parseRecord wire = .ok record) : Fits framePrefixLen wire := by
  obtain ⟨-, -, hlimit, hlen⟩ := exists_parseRecord_iff.mp ⟨record, hp⟩
  rw [minRecordLen_eq] at hlen
  have hroom : minRecordLen + maxPayloadLen < 256 ^ framePrefixLen := by decide
  rw [minRecordLen_eq] at hroom
  unfold Fits
  omega

/-- What has the length of a message that fits does too. -/
theorem fits_of_length_eq {data data' : Bytes} (h : Fits framePrefixLen data)
    (hlen : data'.length = data.length) : Fits framePrefixLen data' := by
  unfold Fits at h ⊢
  rwa [hlen]

namespace ActorEntity

variable {a : ActorEntity} {frames : List Bytes} {wire data : Bytes} {record : ProtectedRecord}

/-- What fits in a frame is sent and logged. -/
theorem last_emit_of_fits (a : ActorEntity) (h : Fits framePrefixLen data) (entry : ℕ × ActorAction)
    (rest : ActorEntity → Turn Raised Bytes ActorEntity) :
    (a.emit data entry rest).last = (rest (a.logged entry)).last := by
  unfold emit
  rw [sendFrameThen_of_fits h]
  rfl

/-- A change that fits in a frame is sent and logged. -/
theorem last_rewrite_of_fits (a : ActorEntity) (h : Fits framePrefixLen data) (action : ActorAction) :
    (a.rewrite (.ok data) action).last = ⟨(a.logged (a.index, action)).next, .running⟩ :=
  a.last_emit_of_fits h (a.index, action) fun a => .done none a.next

/-- A ciphertext flip of a frame with a ciphertext returns one of its length. -/
theorem exists_flipCiphertextBit (rng : Rng) (hlen : minRecordLen < wire.length) :
    ∃ data, (flipCiphertextBit rng wire).1 = .ok data ∧ data.length = wire.length := by
  rw [minRecordLen_eq] at hlen
  have hheader : headerLen = 40 := rfl
  have htag : tagLen = 16 := rfl
  unfold flipCiphertextBit ctRange
  dsimp only
  rw [if_neg (by omega)]
  obtain ⟨k, b, -, -, -, -, hflip⟩ := exists_flipped_of_random rng
    (Int.natCast_nonneg headerLen) (show 0 < ((wire.length : ℤ) - tagLen - headerLen).toNat by omega)
    (show (headerLen : ℤ) + ((wire.length : ℤ) - tagLen - headerLen).toNat ≤ wire.length by omega)
  exact ⟨_, hflip, length_flipped ..⟩

/-- A tag flip returns a frame of that length. -/
theorem exists_flipTagBit (rng : Rng) (hlen : minRecordLen < wire.length) :
    ∃ data, (flipTagBit rng wire).1 = .ok data ∧ data.length = wire.length := by
  rw [minRecordLen_eq] at hlen
  have htag : tagLen = 16 := rfl
  obtain ⟨k, b, -, -, -, -, hflip⟩ := exists_flipped_of_random rng
    (show 0 ≤ (wire.length : ℤ) - tagLen by omega) (show 0 < tagLen by omega)
    (show (wire.length : ℤ) - tagLen + tagLen ≤ wire.length by omega)
  exact ⟨_, hflip, length_flipped ..⟩

/-- Relabelling returns a frame of that length. -/
theorem exists_relabelRecordType (hp : parseRecord wire = .ok record) :
    ∃ data, relabelRecordType wire = .ok data ∧ data.length = wire.length := by
  obtain ⟨hmin, hversion, -, -⟩ := exists_parseRecord_iff.mp ⟨record, hp⟩
  have hheader : headerLen ≤ wire.length := (Nat.le_add_right ..).trans hmin
  have hclose : HeaderChanges.Serialisable { record_type := some RecordType.CLOSE.value } := by
    refine ⟨nofun, nofun, nofun, nofun, nofun, fun v hv => ?_, nofun, nofun, nofun⟩
    rw [← Option.some.inj hv]
    decide
  obtain ⟨data, hdata, hrewrites⟩ := tamperHeader_rewrites hheader hversion hclose
  exact ⟨data, hdata, hrewrites.length⟩

/-- A turn on a frame with a ciphertext does what the plan calls for, if the frame that is kept fits. -/
theorem last_turn (hp : parseRecord wire = .ok record) (hlen : minRecordLen < wire.length)
    (hkept : ∀ i frame, a.captured = some (i, frame) → Fits framePrefixLen frame) :
    ∃ a', (a.turn wire).last = ⟨a', .running⟩ ∧ a'.plan = a.plan ∧ a'.index = a.index + 1 ∧
      a'.log = a.log ++ entries a.planned a.index (a.captured.map Prod.fst) ∧
        a'.captured = if a.planned = .forward then a.captured.or (some (a.index, wire)) else a.captured := by
  have hfits := fits_of_parseRecord hp
  unfold turn
  cases a.planned with
  | forward =>
    dsimp only
    rw [a.last_emit_of_fits hfits]
    exact ⟨_, rfl, rfl, rfl, rfl, rfl⟩
  | flipCiphertext =>
    obtain ⟨data, hdata, hsame⟩ := exists_flipCiphertextBit a.rng hlen
    have hfits' := fits_of_length_eq hfits hsame
    dsimp only
    rw [hdata, last_rewrite_of_fits _ hfits']
    exact ⟨_, rfl, rfl, rfl, rfl, rfl⟩
  | flipTag =>
    obtain ⟨data, hdata, hsame⟩ := exists_flipTagBit a.rng hlen
    have hfits' := fits_of_length_eq hfits hsame
    dsimp only
    rw [hdata, last_rewrite_of_fits _ hfits']
    exact ⟨_, rfl, rfl, rfl, rfl, rfl⟩
  | tamperAad =>
    obtain ⟨data, hdata, hsame⟩ := exists_relabelRecordType hp
    have hfits' := fits_of_length_eq hfits hsame
    dsimp only
    rw [hdata, Except.mapError, last_rewrite_of_fits _ hfits']
    exact ⟨_, rfl, rfl, rfl, rfl, rfl⟩
  | drop => exact ⟨_, rfl, rfl, rfl, (List.append_nil _).symm, rfl⟩
  | replay =>
    dsimp only
    rw [a.last_emit_of_fits hfits, captured_logged]
    cases hcap : a.captured with
    | none => exact ⟨_, rfl, rfl, rfl, rfl, hcap⟩
    | some kept =>
      obtain ⟨i, frame⟩ := kept
      dsimp only
      rw [Srp.replay, last_emit_of_fits _ (hkept i frame hcap)]
      exact ⟨_, rfl, rfl, rfl, List.append_assoc a.log [_] [_], hcap⟩

/-- What is known of the actor after some frames, each of which had a ciphertext. -/
structure Complies (a : ActorEntity) (plan : List (ℕ × ActorAction)) (n : ℕ) : Prop where
  plan_eq : a.plan = plan
  index_eq : a.index = n
  log_eq : a.log = planLog plan n
  captured_eq : a.captured.map Prod.fst = firstForward plan n
  fits : ∀ i frame, a.captured = some (i, frame) → Fits framePrefixLen frame

/-- One more frame with a ciphertext. -/
theorem Complies.turn {plan : List (ℕ × ActorAction)} {n : ℕ} (h : a.Complies plan n)
    (hp : parseRecord wire = .ok record) (hlen : minRecordLen < wire.length) :
    ∃ a', (a.turn wire).last = ⟨a', .running⟩ ∧ a'.Complies plan (n + 1) := by
  obtain ⟨a', hturn, hplan, hindex, hlog, hcaptured⟩ := last_turn hp hlen h.fits
  have hplanned : a.planned = plannedAt plan n := by
    rw [planned, h.plan_eq, h.index_eq]
    rfl
  rw [hplanned] at hlog hcaptured
  refine ⟨a', hturn, hplan.trans h.plan_eq, ?_, ?_, ?_, ?_⟩
  · rw [hindex, h.index_eq]
  · rw [hlog, h.log_eq, h.captured_eq, h.index_eq]
    rfl
  · rw [hcaptured, firstForward, ← h.captured_eq]
    cases hkept : a.captured with
    | none => split_ifs <;> simp [h.index_eq]
    | some kept => split_ifs <;> simp
  · intro i frame hcap
    rw [hcaptured] at hcap
    split_ifs at hcap
    · cases hkept : a.captured with
      | none =>
        rw [hkept] at hcap
        cases hcap
        exact fits_of_parseRecord hp
      | some kept =>
        rw [hkept] at hcap
        cases hcap
        exact h.fits i frame hkept
    · exact h.fits i frame hcap

/-- After any frames that have a ciphertext, a new actor still runs, and its log is the one that its plan
calls for. -/
theorem complies_of_frames (plan : List (ℕ × ActorAction)) (rng : Rng)
    (hframes : ∀ wire ∈ frames, minRecordLen < wire.length ∧ ∃ record, parseRecord wire = .ok record) :
    let t : Thread Raised ActorEntity := ⟨{ plan, rng }, .running⟩
    (t.after turn frames).status = .running ∧ (t.after turn frames).state.Complies plan frames.length := by
  intro t
  induction frames using List.reverseRecOn with
  | nil => exact ⟨rfl, rfl, rfl, rfl, rfl, nofun⟩
  | append_singleton frames wire ih =>
    obtain ⟨hrunning, hcomplies⟩ := ih fun w hw => hframes w (List.mem_append_left _ hw)
    obtain ⟨hlen, record, hp⟩ :=
      hframes wire (List.mem_append_right _ (List.mem_singleton_self wire))
    obtain ⟨a', hturn, hcomplies'⟩ := hcomplies.turn hp hlen
    rw [Thread.after_append, List.length_append, List.length_singleton, Thread.after_cons,
      Thread.after_nil, Thread.step_of_running hrunning, hturn]
    exact ⟨rfl, hcomplies'⟩

end ActorEntity

/-! ## Within the budget of the sender -/

/-- Over a correct library, a sender of a 32-bit stream sends the frame of a payload in order, unless its
budget is spent. -/
theorem senderTurn_of_inOrder {s : Sender} {payload : Bytes} (hcorrect : s.suite.impl.Correct)
    (hstream : 0 ≤ s.stream_id ∧ s.stream_id ≤ 0xFFFFFFFF) (hlen : payload.length ≤ maxPayloadLen) :
    if s.nonces.issued < s.nonces.limit then
      ∃ wire t, senderTurn s payload = .send t wire (.done none t) ∧ t.suite = s.suite ∧
        t.stream_id = s.stream_id ∧ t.nonces.limit = s.nonces.limit ∧
          t.nonces.exhaustedError = s.nonces.exhaustedError ∧ t.nonces.issued = s.nonces.issued + 1
    else ∃ t, senderTurn s payload = .done (some (.error s.nonces.exhaustedError)) t := by
  have hargs : SealArgs.InOrder { payload := some payload } payload :=
    ⟨rfl, hlen, ⟨.DATA, rfl⟩, .inl rfl⟩
  have ho := s.seal_outcome { payload := some payload }
  have hcases := Sender.protect_of_inOrder hcorrect hstream hargs
  unfold senderTurn
  rw [Sender.protect_snd]
  split_ifs with hlimit
  · rcases hcases with ⟨wire, hwire⟩ | ⟨hle, -⟩
    · obtain ⟨record, hresult, hbytes⟩ := Sender.protect_eq_ok.mp hwire
      obtain ⟨_, -, hframe, -⟩ := frameOf_of_seal hcorrect.seals rfl hresult hbytes
      rw [hwire]
      dsimp only
      rw [sendFrameThen_of_fits (fits_of_parseRecord hframe.parsed)]
      obtain ⟨hsuite, -, hstreamId, -, -, hlimit'⟩ := ho.config
      refine ⟨wire, _, rfl, hsuite, hstreamId, hlimit', ?_⟩
      rcases ho.nonces_cases with ⟨-, -, -, hno⟩ | ⟨_, _, -, -, hadv, -⟩
      · exact absurd hresult (hno record)
      · rw [hadv]
        exact ⟨rfl, rfl⟩
    · exact absurd hlimit (not_lt.mpr hle)
  · rcases hcases with ⟨wire, hwire⟩ | ⟨-, hexhausted⟩
    · obtain ⟨record, hresult, -⟩ := Sender.protect_eq_ok.mp hwire
      rcases ho.nonces_cases with ⟨-, -, -, hno⟩ | ⟨hlt, -⟩
      · exact absurd hresult (hno record)
      · exact absurd hlt hlimit
    · rw [hexhausted]
      exact ⟨_, rfl⟩

/-- The frames that a sender sends for some payloads. -/
def senderFrames (s : Sender) (payloads : List Bytes) : List Bytes :=
  (⟨s, .running⟩ : Thread Raised Sender).sent senderTurn payloads

/-- The frames that an actor sends for some frames. -/
def relayedFrames (a : ActorEntity) (frames : List Bytes) : List Bytes :=
  (⟨a, .running⟩ : Thread Raised ActorEntity).sent ActorEntity.turn frames

/-- It sends as many frames as its budget permits, and raises if there are more payloads. -/
theorem senderFrames_of_inOrder {s : Sender} {payloads : List Bytes} (hcorrect : s.suite.impl.Correct)
    (hstream : 0 ≤ s.stream_id ∧ s.stream_id ≤ 0xFFFFFFFF)
    (hlen : ∀ payload ∈ payloads, payload.length ≤ maxPayloadLen) :
    ((senderFrames s payloads).length : ℤ) = min (payloads.length : ℤ) s.nonces.remaining ∧
      ((⟨s, .running⟩ : Thread Raised Sender).after senderTurn payloads).status =
        if (payloads.length : ℤ) ≤ s.nonces.remaining then .running
        else .raised (.error s.nonces.exhaustedError) := by
  unfold senderFrames
  induction payloads generalizing s with
  | nil => simp [NonceManager.remaining]
  | cons payload payloads ih =>
    have hturn := senderTurn_of_inOrder hcorrect hstream (hlen payload List.mem_cons_self)
    rw [Thread.sent_cons, Thread.after_cons, Thread.step_of_running rfl]
    split_ifs at hturn with hlimit
    · obtain ⟨wire, t, hturn, hsuite, hstreamId, hlimit', hexhausted, hissued⟩ := hturn
      rw [hturn]
      dsimp only [Turn.sent, Turn.last]
      rw [← hsuite] at hcorrect
      rw [← hstreamId] at hstream
      obtain ⟨hcount, hstatus⟩ := ih hcorrect hstream fun p hp => hlen p (List.mem_cons_of_mem _ hp)
      rw [hexhausted] at hstatus
      -- One number of the budget is spent.
      have hremaining : t.nonces.remaining = s.nonces.remaining - 1 := by
        unfold NonceManager.remaining
        rw [hlimit', hissued]
        omega
      rw [hremaining] at hcount hstatus
      refine ⟨?_, ?_⟩
      · rw [List.length_append, List.length_singleton, List.length_cons]
        push_cast
        omega
      · refine hstatus.trans (if_congr ?_ rfl rfl)
        rw [List.length_cons]
        omega
    · obtain ⟨t, hturn⟩ := hturn
      rw [hturn]
      dsimp only [Turn.sent, Turn.last]
      obtain ⟨hsent, hafter⟩ := Thread.sent_of_ended senderTurn
        (t := (⟨t, .raised (.error s.nonces.exhaustedError)⟩ : Thread Raised Sender)) nofun payloads
      rw [hsent, hafter]
      have hremaining : s.nonces.remaining = 0 := by
        unfold NonceManager.remaining
        omega
      rw [hremaining, List.length_cons]
      refine ⟨?_, ?_⟩
      · rw [List.append_nil, List.length_nil]
        omega
      · rw [if_neg (by omega)]

end Srp
