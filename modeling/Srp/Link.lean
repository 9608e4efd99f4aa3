import Srp.Batch

/-!
# A channel over a network without order

A channel of `create_channel` whose frames go over a network that reorders, repeats, and loses them, with
sends, deliveries, and round trips in any order (`Link`). What it is for is said without keys, nonces, and
windows (`AbstractLink`): payloads are taken until the budget is spent, and a frame that arrives is answered by
the numbers of those that have arrived before. `channel_refines_link` shows that the two answer every run
alike, and `attacked_channel_refines_link` that an adversary who injects whatever it likes and does not forge
comes to no more than such a network.
-/

namespace Srp

open Arrivals

/-- `roundtrip`: protect, then immediately verify. -/
def Channel.roundtrip (ch : Channel) (args : SealArgs) : Except Error Verdict × Channel :=
  match ch.send args with
  | (.error e, ch) => (.error e, ch)
  | (.ok wire, ch) => ch.deliver wire

/-! ## The link -/

/-- What happens at a channel: a payload is sent, the frame of some number arrives, or a payload makes the round
trip. -/
inductive LinkOp
  | send (payload : Option Bytes)
  | arrive (i : ℕ)
  | roundtrip (payload : Option Bytes)
  deriving DecidableEq, Repr

/-- What is seen of it: whether a payload was sent, or the judgement on a frame. Of a frame that was never sent
nothing is seen. -/
inductive LinkAnswer
  | sent (result : Except Error Unit)
  | received (result : Except Error Judgement)
  | nothing

/-- A channel, and the frames that it has sent. -/
structure Link where
  channel : Channel
  frames : List Bytes := []

/-- A link as a machine. -/
def Link.step (l : Link) : LinkOp → LinkAnswer × Link
  | .send payload =>
    match l.channel.send { payload } with
    | (.error e, channel) => (.sent (.error e), { l with channel })
    | (.ok wire, channel) => (.sent (.ok ()), { channel, frames := l.frames ++ [wire] })
  | .arrive i =>
    match l.frames[i]? with
    | none => (.nothing, l)
    | some wire =>
      let (result, channel) := l.channel.deliver wire
      (.received (result.map Verdict.judgement), { l with channel })
  | .roundtrip payload =>
    let (result, channel) := l.channel.roundtrip { payload }
    -- The network may have seen the frame, too.
    let frames := match (l.channel.send { payload }).1 with
      | .error _ => l.frames
      | .ok wire => l.frames ++ [wire]
    (.received (result.map Verdict.judgement), { channel, frames })

/-! ## What it is for -/

/-- The payloads that were taken, and the numbers of the frames that have arrived. -/
structure AbstractLink where
  payloads : List Bytes := []
  arrived : List ℕ := []
  deriving DecidableEq, Repr

namespace AbstractLink

variable (limit replay_window : ℤ) (exhausted : Error)

/-- Whether a payload is taken. -/
def take (t : AbstractLink) (payload : Option Bytes) : Except Error Bytes :=
  match checkPayload payload with
  | .error e => .error e
  | .ok payload => if t.payloads.length < limit then .ok payload else .error exhausted

/-- The abstract link as a machine. -/
def step (t : AbstractLink) : LinkOp → LinkAnswer × AbstractLink
  | .send payload =>
    match t.take limit exhausted payload with
    | .error e => (.sent (.error e), t)
    | .ok payload => (.sent (.ok ()), { t with payloads := t.payloads ++ [payload] })
  | .arrive i =>
    match t.payloads[i]? with
    | none => (.nothing, t)
    | some payload =>
      (.received (.ok (arrivalJudgement payload (meet replay_window t.arrived i))),
        { t with arrived := t.arrived ++ [i] })
  | .roundtrip payload =>
    match t.take limit exhausted payload with
    | .error e => (.received (.error e), t)
    | .ok payload =>
      (.received (.ok (.accepted payload)),
        { payloads := t.payloads ++ [payload], arrived := t.arrived ++ [t.payloads.length] })

end AbstractLink

/-! ## The simulation -/

/-- One more frame, behind the stream. -/
theorem FramesOf.concat {suite : AeadSuite} {key : StreamKey} {start : ℤ} {payload wire : Bytes}
    {record : ProtectedRecord} {payloads frames : List Bytes}
    (h : FramesOf suite key start payloads frames) (hlen : frames.length = payloads.length)
    (hframe : FrameOf suite key (start + payloads.length) payload wire record) :
    FramesOf suite key start (payloads ++ [payload]) (frames ++ [wire]) := by
  intro i w hw
  rcases lt_or_ge i frames.length with hi | hi
  · rw [List.getElem?_append_left hi] at hw
    obtain ⟨payload', record', hpayload, hframe'⟩ := h i w hw
    refine ⟨payload', record', ?_, hframe'⟩
    rwa [List.getElem?_append_left (hlen ▸ hi)]
  · rw [List.getElem?_append_right hi, List.getElem?_singleton] at hw
    split_ifs at hw with hzero
    have hlast : i = payloads.length := by omega
    rw [hlast, ← Option.some.inj hw]
    exact ⟨payload, record, List.getElem?_concat_length, hframe⟩

/-- The abstract link stands for a link. -/
structure Link.Models (c : ReceiverConfig) (key : StreamKey) (start limit : ℤ) (exhausted : Error) (l : Link)
    (t : AbstractLink) : Prop where
  suite : l.channel.sender.suite = c.suite
  key_eq : (l.channel.sender.session_id, l.channel.sender.stream_id) = key
  next : l.channel.sender.nonces.next = start + t.payloads.length
  remaining : l.channel.sender.nonces.remaining = limit - t.payloads.length
  exhausted : l.channel.sender.nonces.exhaustedError = exhausted
  count : l.frames.length = t.payloads.length
  frames : FramesOf c.suite key start t.payloads l.frames
  config : l.channel.receiver.config = c
  history : ∃ A, l.channel.receiver.replay_guard.Represents A ∧
    Holds A key start c.replay_window c.max_streams t.arrived
  arrived : ∀ i ∈ t.arrived, i < t.payloads.length

namespace Link.Models

variable {c : ReceiverConfig} {key : StreamKey} {start limit : ℤ} {exhausted : Error} {l : Link}
  {t : AbstractLink}

/-- A payload is sent exactly if it is taken. -/
theorem send (h : l.Models c key start limit exhausted t) (hcorrect : c.suite.impl.Correct)
    (hstream : 0 ≤ key.2 ∧ key.2 ≤ 0xFFFFFFFF) (payload : Option Bytes) :
    (∃ e, t.take limit exhausted payload = .error e ∧
      l.channel.send { payload } = (.error e, l.channel)) ∨
    ∃ p wire channel, t.take limit exhausted payload = .ok p ∧
      l.channel.send { payload } = (.ok wire, channel) ∧
        (⟨channel, l.frames ++ [wire]⟩ : Link).Models c key start limit exhausted
          { t with payloads := t.payloads ++ [p] } := by
  have hsend (w : Except Error Bytes) (s : Sender) (hw : (l.channel.sender.protect { payload }).1 = w)
      (hs : (l.channel.sender.protect { payload }).2.sender = s) :
      l.channel.send { payload } = (w, { l.channel with sender := s }) := by
    rw [← hw, ← hs]
    rfl
  have hlimit : l.channel.sender.nonces.issued < l.channel.sender.nonces.limit ↔ t.payloads.length < limit := by
    have hremaining := h.remaining
    rw [NonceManager.remaining_eq] at hremaining
    omega
  unfold AbstractLink.take
  cases hp : checkPayload payload with
  | error e =>
    obtain ⟨hwire, hsender⟩ := Sender.protect_of_unchecked (s := l.channel.sender) hp
    exact .inl ⟨e, rfl, hsend _ _ hwire hsender⟩
  | ok p =>
    dsimp only
    split_ifs with hspent
    · rw [← hlimit] at hspent
      have hsuite := h.suite
      obtain ⟨wire, record, hwire, hframe, hsender⟩ := Sender.protect_of_permitted (hsuite ▸ hcorrect)
        ((Prod.mk.inj h.key_eq).2 ▸ hstream) hp hspent
      rw [hsuite, h.key_eq, h.next] at hframe
      refine .inr ⟨p, wire, _, rfl, hsend _ _ hwire hsender, hsuite, h.key_eq, ?_, ?_, h.exhausted, ?_,
        h.frames.concat h.count hframe, h.config, h.history, fun i hi => ?_⟩
      · show l.channel.sender.nonces.next + 1 = _
        rw [h.next, List.length_append, List.length_singleton]
        push_cast
        ring
      · have hremaining := (l.channel.sender.spentOne_advance hspent).remaining
        refine hremaining.trans ?_
        rw [h.remaining, List.length_append, List.length_singleton]
        push_cast
        ring
      · rw [List.length_append, List.length_append, h.count]
        rfl
      · rw [List.length_append]
        exact Nat.lt_add_right _ (h.arrived i hi)
    · rw [← hlimit] at hspent
      obtain ⟨hwire, hsender⟩ := Sender.protect_of_spent hp (not_lt.mp hspent)
      rw [h.exhausted] at hwire
      exact .inl ⟨_, rfl, hsend _ _ hwire hsender⟩

/-- A frame that arrives is answered by what becomes of it. -/
theorem deliver (h : l.Models c key start limit exhausted t) (hdoc : c.suite.impl.DecryptDocumented)
    (hW : 0 ≤ c.replay_window) (hpin : ∀ pin ∈ c.expected_session_id, key.1 = pin) {i : ℕ}
    {payload wire : Bytes} (hpayload : t.payloads[i]? = some payload) (hwire : l.frames[i]? = some wire) :
    ∃ v channel, l.channel.deliver wire = (.ok v, channel) ∧
      v.judgement = arrivalJudgement payload (meet c.replay_window t.arrived i) ∧
        (⟨channel, l.frames⟩ : Link).Models c key start limit exhausted
          { t with arrived := t.arrived ++ [i] } := by
  obtain ⟨payload', record, hpayload', hframe⟩ := h.frames i wire hwire
  obtain rfl := Option.some.inj (hpayload'.symm.trans hpayload)
  obtain ⟨A, hrep, hholds⟩ := h.history
  obtain ⟨hj, hholds'⟩ := ReceiverConfig.judge_of_arrival hW hpin hframe hholds
  have ho := l.channel.receiver.receive_outcome wire
  have hconfig := h.config
  rw [← hconfig] at hdoc hW
  obtain ⟨v, hv, hjudgement⟩ := ho.judgement_eq hdoc hW hrep
  have hgrow := ho.grow_eq hdoc hW hrep
  have hafter := (ho.represents hrep).1
  rw [hgrow, hconfig] at hafter
  rw [hconfig, hj] at hjudgement
  refine ⟨v, { l.channel with receiver := (l.channel.receiver.receive wire).receiver }, Prod.ext hv rfl,
    hjudgement, h.suite, h.key_eq, h.next, h.remaining, h.exhausted, h.count, h.frames,
    ho.config_eq.trans hconfig, ⟨_, hafter, hholds'⟩, fun j hj => ?_⟩
  rcases List.mem_append.mp hj with hj | hj
  · exact h.arrived j hj
  · rw [List.mem_singleton.mp hj]
    exact (List.getElem?_eq_some_iff.mp hpayload).1

/-- The two answer one operation alike, and the abstract link still stands for the link. -/
theorem step (h : l.Models c key start limit exhausted t) (hcorrect : c.suite.impl.Correct)
    (hstream : 0 ≤ key.2 ∧ key.2 ≤ 0xFFFFFFFF) (hW : 0 ≤ c.replay_window)
    (hpin : ∀ pin ∈ c.expected_session_id, key.1 = pin) (op : LinkOp) :
    (l.step op).1 = (t.step limit c.replay_window exhausted op).1 ∧
      (l.step op).2.Models c key start limit exhausted (t.step limit c.replay_window exhausted op).2 := by
  cases op with
  | send payload =>
    unfold Link.step AbstractLink.step
    rcases h.send hcorrect hstream payload with ⟨e, htake, hsend⟩ | ⟨p, wire, channel, htake, hsend, hmodels⟩
    · simp only [htake, hsend]
      exact ⟨trivial, h⟩
    · simp only [htake, hsend]
      exact ⟨trivial, hmodels⟩
  | arrive i =>
    unfold Link.step AbstractLink.step
    rcases lt_or_ge i l.frames.length with hi | hi
    · have hwire := List.getElem?_eq_getElem hi
      have hpayload := List.getElem?_eq_getElem (h.count ▸ hi)
      obtain ⟨v, channel, hdeliver, hv, hmodels⟩ := h.deliver hcorrect.documented hW hpin hpayload hwire
      simp only [hwire, hpayload, hdeliver]
      exact ⟨congrArg (fun j => LinkAnswer.received (.ok j)) hv, hmodels⟩
    · have hpayload : t.payloads[i]? = none := List.getElem?_eq_none (h.count ▸ hi)
      simp only [List.getElem?_eq_none hi, hpayload]
      exact ⟨trivial, h⟩
  | roundtrip payload =>
    unfold Link.step AbstractLink.step Channel.roundtrip
    rcases h.send hcorrect hstream payload with ⟨e, htake, hsend⟩ | ⟨p, wire, channel, htake, hsend, hmodels⟩
    · simp only [htake, hsend]
      exact ⟨rfl, h⟩
    · -- The frame is ahead of all that have arrived.
      have hfresh : meet c.replay_window t.arrived t.payloads.length = .fresh := by
        refine meet_eq_fresh_iff.mpr fun j hj => ?_
        have hlt := h.arrived j hj
        omega
      have hpayload : (t.payloads ++ [p])[t.payloads.length]? = some p := List.getElem?_concat_length
      have hwire : (l.frames ++ [wire])[t.payloads.length]? = some wire := by
        rw [← h.count]
        exact List.getElem?_concat_length
      obtain ⟨v, channel', hdeliver, hv, hmodels'⟩ :=
        hmodels.deliver hcorrect.documented hW hpin hpayload hwire
      dsimp only at hdeliver hv hmodels'
      rw [hfresh] at hv
      simp only [htake, hsend, hdeliver]
      exact ⟨congrArg (fun j => LinkAnswer.received (.ok j)) hv, hmodels'⟩

end Link.Models

/-- A new channel is stood for by the link that has taken nothing. -/
theorem createChannel_models {suites : List SuiteClass} {a : ChannelArgs} {ch : Channel}
    (hch : createChannel suites a = .ok ch) (hroom : 0 < a.policy.max_streams) :
    ∃ c : ReceiverConfig, c.suite = ch.sender.suite ∧ c.replay_window = a.policy.replay_window ∧
      (∀ pin ∈ c.expected_session_id, a.session_id = pin) ∧
        Link.Models c (a.session_id, a.stream_id) a.start_seq a.policy.record_limit
          ch.sender.nonces.exhaustedError { channel := ch } {} := by
  obtain ⟨suite, -, hsender, hreceiver⟩ := createChannel_eq_ok hch
  obtain ⟨hsuite, hsession, hstreamId, -, hnext, -, hlimit, hissued⟩ := Sender.new_eq_ok hsender
  refine ⟨⟨suite, if a.policy.pin_session then some a.session_id else none, a.policy.replay_window,
    a.policy.max_streams⟩, hsuite.symm, rfl, fun pin hmem => ?_, hsuite, Prod.ext hsession hstreamId, ?_, ?_, rfl,
    rfl, (fun _ _ hw => nomatch hw), ?_, ⟨∅, ?_, .nil rfl hroom⟩, fun _ hi => nomatch hi⟩
  · dsimp only at hmem
    split_ifs at hmem
    · exact Option.some.inj hmem
    · cases hmem
  · rw [hnext]
    exact (add_zero _).symm
  · rw [NonceManager.remaining_eq, hlimit, hissued]
    rfl
  · rw [hreceiver]
    rfl
  · rw [hreceiver]
    exact ReplayGuard.tracks_new _ _

/-- A channel is a link without keys, nonces, and windows. Over a correct library, take any channel of a 32-bit
stream that `create_channel` returns, with a window and with room for a stream. Whatever is sent, makes the round
trip, or arrives again, late, and out of order, the channel answers as the abstract link does. -/
theorem channel_refines_link {suites : List SuiteClass} {a : ChannelArgs} {ch : Channel}
    (hch : createChannel suites a = .ok ch) (hcorrect : ch.sender.suite.impl.Correct)
    (hstream : 0 ≤ a.stream_id ∧ a.stream_id ≤ 0xFFFFFFFF) (hW : 0 ≤ a.policy.replay_window)
    (hroom : 0 < a.policy.max_streams) (ops : List LinkOp) :
    Mealy.outputs Link.step { channel := ch } ops =
      Mealy.outputs (AbstractLink.step a.policy.record_limit a.policy.replay_window
        ch.sender.nonces.exhaustedError) {} ops := by
  obtain ⟨c, hsuite, hwindow, hpin, hmodels⟩ := createChannel_models hch hroom
  rw [← hsuite] at hcorrect
  rw [← hwindow] at hW ⊢
  have hrun : List.Forall₂ Eq (Mealy.outputs Link.step { channel := ch } ops)
      (Mealy.outputs (AbstractLink.step a.policy.record_limit c.replay_window
        ch.sender.nonces.exhaustedError) {} ops) :=
    (Mealy.simulation (P := fun _ _ => True) (Q := fun _ _ => True)
      (fun l t op h _ _ => h.step hcorrect hstream hW hpin op) hmodels
      (Mealy.along_of_forall fun _ _ _ => trivial) (Mealy.along_of_forall fun _ _ _ => trivial)).1
  exact List.forall₂_eq_eq_eq ▸ hrun

/-- A payload sent, another one on the round trip, and then the frames of both. -/
theorem channel_refines_link_of_checksum :
    ∃ ch, createChannel checksumSuites checksumChannelArgs = .ok ch ∧
      Mealy.outputs Link.step { channel := ch }
          [.send (some [1]), .roundtrip (some [2]), .arrive 0, .arrive 1, .arrive 2, .send none] =
        [.sent (.ok ()), .received (.ok (.accepted [2])), .received (.ok (.accepted [1])),
          .received (.ok (.rejected .REPLAY_DETECTED)), .nothing,
          .sent (.error (.configurationError "payload must be a bytes-like object"))] := by
  have hch : createChannel checksumSuites checksumChannelArgs = .ok _ := rfl
  refine ⟨_, hch, ?_⟩
  exact (channel_refines_link hch Backend.checksum_correct (by decide) (by decide) (by decide) _).trans rfl

/-! ## Under attack -/

/-- What happens at a channel under attack: any of the above, or the adversary injects a byte string. -/
inductive AttackedOp
  | op (op : LinkOp)
  | inject (wire : Bytes)
  deriving DecidableEq, Repr

namespace Link

/-- A link under attack as a machine. -/
def attackedStep (l : Link) : AttackedOp → LinkAnswer × Link
  | .op op => l.step op
  | .inject wire =>
    let (result, channel) := l.channel.deliver wire
    (.received (result.map Verdict.judgement), { l with channel })

/-- What an operation comes to: an injected frame that was sent arrives, and anything else that is injected comes
to nothing. -/
def read (l : Link) : AttackedOp → Option LinkOp
  | .op op => some op
  | .inject wire => (l.frames.idxOf? wire).map .arrive

/-- A link under attack, watched by what each operation comes to. -/
def watch (l : Link) (a : AttackedOp) : (Option LinkOp × LinkAnswer) × Link :=
  ((l.read a, (l.attackedStep a).1), (l.attackedStep a).2)

/-- The adversary does not forge: what it injects opens only if it was sent. -/
def Unforged (l : Link) : AttackedOp → Prop
  | .op _ => True
  | .inject wire => l.channel.receiver.suite.Authenticates wire → wire ∈ l.frames

end Link

/-- What comes to nothing is rejected, and the abstract link still stands for the link. -/
theorem Link.Models.inject {c : ReceiverConfig} {key : StreamKey} {start limit : ℤ} {exhausted : Error} {l : Link}
    {t : AbstractLink} (h : l.Models c key start limit exhausted t) (hdoc : c.suite.impl.DecryptDocumented)
    {wire : Bytes} (hunforged : l.Unforged (.inject wire)) (hnone : l.read (.inject wire) = none) :
    (∃ reason, (l.attackedStep (.inject wire)).1 = .received (.ok (.rejected reason))) ∧
      (l.attackedStep (.inject wire)).2.Models c key start limit exhausted t := by
  have hnot : ¬l.channel.receiver.suite.Authenticates wire := fun hopens =>
    List.idxOf?_eq_none_iff.mp (Option.map_eq_none_iff.mp hnone) (hunforged hopens)
  have hconfig := h.config
  obtain ⟨A, hrep, hholds⟩ := h.history
  obtain ⟨reason, v, hv, hjudgement, hguard⟩ : ∃ reason, l.channel.receiver.RejectsFor wire reason := by
    cases hp : parseRecord wire with
    | error e =>
      exact ⟨_, (l.channel.receiver.rejectsFor_malformed (by rw [hp]; rintro ⟨record, hp'⟩; cases hp')).1⟩
    | ok record =>
      rw [← hconfig] at hdoc
      exact ⟨_, Receiver.rejectsFor_of_not_authenticates hdoc hp hnot⟩
  refine ⟨⟨reason, ?_⟩, h.suite, h.key_eq, h.next, h.remaining, h.exhausted, h.count, h.frames,
    (l.channel.receiver.receive_outcome wire).config_eq.trans hconfig, ⟨A, ?_, hholds⟩, h.arrived⟩
  · show LinkAnswer.received ((l.channel.receiver.receive wire).result.map Verdict.judgement) = _
    rw [hv, ← hjudgement]
    rfl
  · show (l.channel.receiver.receive wire).receiver.replay_guard.Represents A
    rwa [hguard]

/-- An injected frame that was sent arrives. -/
theorem Link.attackedStep_of_read {l : Link} {a : AttackedOp} {op : LinkOp} (h : l.read a = some op) :
    l.attackedStep a = l.step op := by
  cases a with
  | op op' =>
    obtain rfl := Option.some.inj h
    rfl
  | inject wire =>
    obtain ⟨i, hi, rfl⟩ := Option.map_eq_some_iff.mp h
    obtain ⟨hlt, hwire, -⟩ := List.idxOf?_eq_some_iff.mp hi
    have hget : l.frames[i]? = some wire := List.getElem?_eq_some_iff.mpr ⟨hlt, hwire⟩
    simp only [attackedStep, step, hget]

/-- A run under attack: what its operations come to is answered as by the abstract link, and the rest is
rejected. -/
theorem Link.Models.run {c : ReceiverConfig} {key : StreamKey} {start limit : ℤ} {exhausted : Error} {l : Link}
    {t : AbstractLink} (h : l.Models c key start limit exhausted t) (hcorrect : c.suite.impl.Correct)
    (hstream : 0 ≤ key.2 ∧ key.2 ≤ 0xFFFFFFFF) (hW : 0 ≤ c.replay_window)
    (hpin : ∀ pin ∈ c.expected_session_id, key.1 = pin) {ops : List AttackedOp}
    (hunforged : Mealy.Along Link.attackedStep Link.Unforged l ops) :
    ((Mealy.outputs Link.watch l ops).filter fun o => o.1.isSome).map Prod.snd =
        Mealy.outputs (AbstractLink.step limit c.replay_window exhausted) t
          ((Mealy.outputs Link.watch l ops).filterMap Prod.fst) ∧
      ∀ o ∈ Mealy.outputs Link.watch l ops, o.1 = none →
        ∃ reason, o.2 = .received (.ok (.rejected reason)) := by
  induction ops generalizing l t with
  | nil => exact ⟨rfl, fun _ ho => nomatch ho⟩
  | cons a ops ih =>
    obtain ⟨hnow, hlater⟩ := hunforged
    have hwatch : Mealy.outputs Link.watch l (a :: ops) =
        (l.read a, (l.attackedStep a).1) :: Mealy.outputs Link.watch (l.attackedStep a).2 ops := rfl
    rw [hwatch]
    cases hread : l.read a with
    | some op =>
      rw [Link.attackedStep_of_read hread] at hlater ⊢
      obtain ⟨hanswer, hmodels⟩ := h.step hcorrect hstream hW hpin op
      obtain ⟨hanswers, hrejected⟩ := ih hmodels hlater
      rw [List.filter_cons_of_pos (by rfl), List.map_cons, List.filterMap_cons_some (by rfl),
        Mealy.outputs_cons, ← hanswer, hanswers]
      refine ⟨rfl, fun o ho hnone => ?_⟩
      rcases List.mem_cons.mp ho with rfl | ho
      · cases hnone
      · exact hrejected o ho hnone
    | none =>
      cases a with
      | op op => cases hread
      | inject wire =>
        obtain ⟨hreason, hmodels⟩ := h.inject hcorrect.documented hnow hread
        obtain ⟨hanswers, hrejected⟩ := ih hmodels hlater
        rw [List.filter_cons_of_neg (by nofun), List.filterMap_cons_none (by rfl)]
        refine ⟨hanswers, fun o ho hnone => ?_⟩
        rcases List.mem_cons.mp ho with rfl | ho
        · exact hreason
        · exact hrejected o ho hnone

/-- An adversary who does not forge comes to no more than a network without order. Over a correct library, take
any channel of a 32-bit stream that `create_channel` returns, with a window and with room for a stream, and let
the adversary inject whatever it likes between the operations, as long as what opens of it was sent. Read each
injected frame that was sent as its arrival, and leave out the rest. Then what is left is answered as by the
abstract link, and all that was left out is rejected. -/
theorem attacked_channel_refines_link {suites : List SuiteClass} {a : ChannelArgs} {ch : Channel}
    (hch : createChannel suites a = .ok ch) (hcorrect : ch.sender.suite.impl.Correct)
    (hstream : 0 ≤ a.stream_id ∧ a.stream_id ≤ 0xFFFFFFFF) (hW : 0 ≤ a.policy.replay_window)
    (hroom : 0 < a.policy.max_streams) {ops : List AttackedOp}
    (hunforged : Mealy.Along Link.attackedStep Link.Unforged { channel := ch } ops) :
    let os := Mealy.outputs Link.watch { channel := ch } ops
    (os.filter fun o => o.1.isSome).map Prod.snd =
        Mealy.outputs (AbstractLink.step a.policy.record_limit a.policy.replay_window
          ch.sender.nonces.exhaustedError) {} (os.filterMap Prod.fst) ∧
      ∀ o ∈ os, o.1 = none → ∃ reason, o.2 = .received (.ok (.rejected reason)) := by
  obtain ⟨c, hsuite, hwindow, hpin, hmodels⟩ := createChannel_models hch hroom
  rw [← hsuite] at hcorrect
  rw [← hwindow] at hW ⊢
  exact hmodels.run hcorrect hstream hW hpin hunforged

/-- A frame that is sent, injected, and injected again with another tag. -/
theorem attacked_channel_refines_link_of_checksum :
    ∃ ch, createChannel checksumSuites checksumChannelArgs = .ok ch ∧
      let os := Mealy.outputs Link.watch { channel := ch }
        [.op (.send (some [1, 2, 3])), .inject checksumFrame, .inject (zeroTag checksumFrame)]
      (os.filter fun o => o.1.isSome).map Prod.snd = [.sent (.ok ()), .received (.ok (.accepted [1, 2, 3]))] ∧
        ∃ reason, (none, LinkAnswer.received (.ok (.rejected reason))) ∈ os := by
  have hch : createChannel checksumSuites checksumChannelArgs = .ok _ := rfl
  refine ⟨_, hch, ?_⟩
  intro os
  obtain ⟨hanswers, hrejected⟩ := attacked_channel_refines_link hch Backend.checksum_correct (by decide)
    (by decide) (by decide) (show Mealy.Along _ _ _
      [.op (.send (some [1, 2, 3])), .inject checksumFrame, .inject (zeroTag checksumFrame)] from
        ⟨trivial, fun _ => by decide +kernel, fun hopens => absurd hopens (by decide +kernel), trivial⟩)
  have hreads : os.filterMap Prod.fst = [.send (some [1, 2, 3]), .arrive 0] := by decide +kernel
  have hlast : (os.map Prod.fst)[2]? = some none := by decide +kernel
  refine ⟨(hreads ▸ hanswers).trans rfl, ?_⟩
  rw [List.getElem?_map] at hlast
  obtain ⟨⟨read, answer⟩, ho, hnone⟩ := Option.map_eq_some_iff.mp hlast
  obtain ⟨reason, hreason⟩ := hrejected _ (List.mem_of_getElem? ho) hnone
  refine ⟨reason, ?_⟩
  rw [← hreason, ← hnone]
  exact List.mem_of_getElem? ho

end Srp
