import FieldLink.Session
import FieldLink.Proofs.ConnectionKeys
import FieldLink.Proofs.EnvelopeFidelity
import FieldLink.Proofs.FrameInverse
import FieldLink.Proofs.PayloadShape
import FieldLink.Proofs.Receiving

/-!
# A channel between two sessions

Two sessions under one secret and a network between them that may drop, repeat and reorder what it carries. What
the receiver takes is a subsequence of what was sent. The counters in the frames carry the proof: they increase
along the frames that were posted, and the receiver has only messages from up to its watermark.
-/

namespace FieldLink

structure Message where
  kind : MessageKind
  timestamp : UInt64
  sequence : UInt32
  payload : Document

def Envelope.message (e : Envelope) : Message := ⟨e.kind, e.timestamp, e.sequence, e.payload⟩

/-- A message that the transport took, and the frame it went out in. -/
structure Posting where
  message : Message
  frame : Octets

namespace Posting

def counter (p : Posting) : UInt64 := Frame.counterOf p.frame

/-- Nothing but the message comes out of the frame, whoever opens it under the key. -/
def Faithful (key : Key) (p : Posting) : Prop :=
  ∀ (watermark : UInt64) (text : Octets) (e : Envelope),
    Frame.opened? key p.frame watermark = some text → Envelope.decode text = .ok e → e.message = p.message

end Posting

/-- Sealing a text under a key seals it with the next counter, or uses that counter up on a text that is too long, or
fails since there is no counter left. -/
theorem Frame.sealText_cases {c : SecurityContext} {key : Key} (hkey : c.frameKey = some key) (text : Octets)
    (source : RandomSource) :
    (∃ vector rest, sealText c text source =
        (.ok (sealedWith key (c.sent + 1) vector text), { c with sent := c.sent + 1 }, rest) ∧
        vector.length = vectorLength ∧ text.length ≤ Gcm.maxLength ∧ c.sent < c.sent + 1) ∨
      (∃ rest, sealText c text source =
        (.error (.invalidArgument .textTooLong), { c with sent := c.sent + 1 }, rest) ∧
        Gcm.maxLength < text.length ∧ c.sent < c.sent + 1) ∨
      sealText c text source = (.error (.invalidArgument .counterExhausted), c, source) ∧
        c.sent = UInt64.ofNat (2 ^ 64 - 1) := by
  have hroom : text.length + overhead ≤ (List.replicate (text.length + overhead) (0 : UInt8)).length := by simp
  by_cases hsent : c.sent = UInt64.ofNat (2 ^ 64 - 1)
  · refine .inr (.inr ⟨?_, hsent⟩)
    simp only [sealText, sealedLength_of_key hkey]
    rw [sealInto_of_spent hkey hroom hsent]
    rfl
  · have hmoved := SecurityContext.sent_lt_of_unspent hsent
    by_cases htext : text.length ≤ Gcm.maxLength
    · exact .inl ⟨_, _, sealText_of_key hkey hsent htext source, RandomSource.length_draw vectorLength source,
        htext, hmoved⟩
    · rw [Nat.not_le] at htext
      obtain ⟨after, hrefused⟩ := exists_sealInto_of_long hkey hroom hsent htext source
      refine .inr (.inl ⟨(source.draw vectorLength).2, ?_, htext, hmoved⟩)
      simp only [sealText, sealedLength_of_key hkey]
      rw [hrefused]
      rfl

namespace Session

theorem post_eq (s : Session) (kind : MessageKind) (timestamp : UInt64) (payload : Document)
    (signature : Option Signature) (vectors : RandomSource) (transport : Transport) :
    s.post kind timestamp payload signature vectors transport =
      match Frame.sealText s.context
        (Envelope.encode s.preferCbor kind timestamp s.nextSequence payload signature).octets vectors with
      | (.error e, context, _) => (.error (.security e), { s with context })
      | (.ok frame, context, _) =>
        match transport frame with
        | .error e => (.error e, { s with context })
        | .ok () => (.ok ⟨s.nextSequence, frame⟩, { s with context, nextSequence := s.nextSequence + 1 }) := by
  simp only [post, transmit]
  generalize Frame.sealText s.context _ vectors = outcome
  obtain ⟨_ | frame, context, rest⟩ := outcome
  · rfl
  · cases htaken : transport frame <;> simp only [htaken]

/-- What an attempt to send may do to a session: the counter never falls, and a frame that was taken has one of
its own, above all before, and holds the message. -/
structure SendsSafely (key : Key) (before : Session) (kind : MessageKind) (timestamp : UInt64)
    (payload : Document) (outcome : Except SessionError Sent × Session) : Prop where
  frameKey : outcome.2.context.frameKey = some key
  monotone : before.context.sent ≤ outcome.2.context.sent
  above : ∀ sent, outcome.1 = .ok sent → before.context.sent < Frame.counterOf sent.frame
  below : ∀ sent, outcome.1 = .ok sent → Frame.counterOf sent.frame ≤ outcome.2.context.sent
  faithful : ∀ sent, outcome.1 = .ok sent →
    Posting.Faithful key ⟨⟨kind, timestamp, sent.sequence, payload⟩, sent.frame⟩

section Sending

variable {key : Key} {s : Session}

private theorem sendsSafely_of_error {after : Session} (hafter : after.context.frameKey = some key)
    (hsent : s.context.sent ≤ after.context.sent) (kind : MessageKind) (timestamp : UInt64)
    (payload : Document) (e : SessionError) :
    SendsSafely key s kind timestamp payload (.error e, after) where
  frameKey := hafter
  monotone := hsent
  above := by
    intro sent h
    cases h
  below := by
    intro sent h
    cases h
  faithful := by
    intro sent h
    cases h

variable (hkey : s.context.frameKey = some key)
include hkey

theorem post_sendsSafely (kind : MessageKind) (timestamp : UInt64) {payload : Document}
    (hnames : payload.HasDistinctNames) (signature : Option Signature) (vectors : RandomSource)
    (transport : Transport) :
    SendsSafely key s kind timestamp payload (s.post kind timestamp payload signature vectors transport) := by
  generalize hencoded : Envelope.encode s.preferCbor kind timestamp s.nextSequence payload signature = encoded
  rcases Frame.sealText_cases hkey encoded.octets vectors with
    ⟨vector, rest, hseal, hvector, htext, hmoved⟩ | ⟨rest, hseal, -, hmoved⟩ | ⟨hseal, -⟩
  · cases htaken : transport (Frame.sealedWith key (s.context.sent + 1) vector encoded.octets) with
    | error e =>
      simp only [post_eq, hencoded, hseal, htaken]
      refine sendsSafely_of_error ?_ (UInt64.le_of_lt hmoved) _ _ _ _
      exact hkey
    | ok =>
      simp only [post_eq, hencoded, hseal, htaken]
      have hcounter := Frame.counterOf_sealedWith key (s.context.sent + 1) vector encoded.octets
      refine ⟨hkey, UInt64.le_of_lt hmoved, ?_, ?_, ?_⟩
      · rintro sent ⟨rfl⟩
        rw [hcounter]
        exact hmoved
      · rintro sent ⟨rfl⟩
        rw [hcounter]
        exact UInt64.le_refl _
      · rintro sent ⟨rfl⟩ watermark text e hopened hdecode
        have habove := Frame.lt_counterOf_of_isAdmissible (Frame.isAdmissible_of_opened? hopened)
        rw [hcounter] at habove
        rw [Frame.opened?_sealedWith hvector htext habove] at hopened
        cases hopened
        subst hencoded
        have hfits : Gcm.maxLength < 2 ^ 64 := by decide
        rw [Envelope.eq_of_decode_encode hnames (Nat.lt_of_le_of_lt htext hfits) hdecode]
        rfl
  · simp only [post_eq, hencoded, hseal]
    refine sendsSafely_of_error ?_ (UInt64.le_of_lt hmoved) _ _ _ _
    exact hkey
  · simp only [post_eq, hencoded, hseal]
    exact sendsSafely_of_error hkey (UInt64.le_refl _) _ _ _ _

theorem send_sendsSafely (kind : MessageKind) (timestamp : UInt64) {payload : Document}
    (hnames : payload.HasDistinctNames) (vectors : RandomSource) (transport : Transport) :
    SendsSafely key s kind timestamp payload (s.send kind timestamp payload vectors transport) :=
  post_sendsSafely hkey kind timestamp hnames none vectors transport

theorem sendMessage_sendsSafely {α : Type} [Payload α] [DistinctPayload α] (timestamp : UInt64) (value : α)
    (vectors : RandomSource) (transport : Transport) :
    SendsSafely key s (Payload.kind α) timestamp (Payload.render value)
      (s.sendMessage timestamp value vectors transport) := by
  unfold sendMessage
  split
  · exact sendsSafely_of_error hkey (UInt64.le_refl _) _ _ _ _
  · next payload hpayload =>
    rw [Payload.eq_render_of_toDocument hpayload]
    exact send_sendsSafely hkey _ _ (DistinctPayload.hasDistinctNames value) vectors transport

theorem sendCommand_sendsSafely (timestamp : UInt64) (command : Command) (nonces vectors : RandomSource)
    (transport : Transport) :
    SendsSafely key s .command timestamp (Payload.render command)
      (s.sendCommand timestamp command nonces vectors transport) := by
  unfold sendCommand
  split
  · exact sendsSafely_of_error hkey (UInt64.le_refl _) _ _ _ _
  · next payload hpayload =>
    rw [Payload.eq_render_of_toDocument hpayload]
    split
    · exact sendsSafely_of_error hkey (UInt64.le_refl _) _ _ _ _
    · exact post_sendsSafely hkey _ _ (DistinctPayload.hasDistinctNames command) _ vectors transport

end Sending

/-- A frame that is received is refused where the watermark stays, or opens above the watermark and moves it; what
is handed on is decoded from what was opened. -/
theorem receive_of_key {key : Key} {s : Session} (hkey : s.context.frameKey = some key) (frame : Octets) :
    (s.receive frame).2.context = s.context ∧
      (((s.receive frame).2.watermark = s.watermark ∧ ∃ e, (s.receive frame).1 = .error e) ∨
        s.watermark < Frame.counterOf frame ∧ (s.receive frame).2.watermark = Frame.counterOf frame ∧
          ∀ inbound, (s.receive frame).1 = .ok inbound → ∃ text,
            Frame.opened? key frame s.watermark = some text ∧ Envelope.decode text = .ok inbound.envelope) := by
  have hopen := Frame.openText_of_key hkey frame s.watermark
  cases hopened : Frame.opened? key frame s.watermark with
  | none =>
    rw [hopened] at hopen
    simp only [receive, hopen]
    exact ⟨trivial, .inl ⟨trivial, _, rfl⟩⟩
  | some text =>
    have habove := Frame.lt_counterOf_of_isAdmissible (Frame.isAdmissible_of_opened? hopened)
    rw [hopened] at hopen
    cases hdecode : Envelope.decode text with
    | error e =>
      simp only [receive, hopen, hdecode]
      refine ⟨trivial, .inr ⟨habove, trivial, ?_⟩⟩
      rintro inbound ⟨⟩
    | ok e =>
      simp only [receive, hopen, hdecode]
      obtain ⟨authenticator, hafter, -⟩ := judge_keeps { s with watermark := Frame.counterOf frame } e
      rw [hafter]
      refine ⟨rfl, .inr ⟨habove, rfl, ?_⟩⟩
      intro inbound hinbound
      exact ⟨text, rfl, by rw [hdecode, envelope_of_judge hinbound]⟩

end Session

/-- Two sessions, every message that was taken from the one so far, and those that the other took in. -/
structure Channel where
  sender : Session
  receiver : Session
  posted : List Posting
  received : List Message

namespace Channel

def opened (sender receiver : Session) : Channel := ⟨sender, receiver, [], []⟩

/-- One thing that happens: an attempt to send over a transport that may refuse, or the delivery of any frame that
was taken. -/
inductive Event : Type 1 where
  | send (kind : MessageKind) (timestamp : UInt64) (payload : Document) (distinct : payload.HasDistinctNames)
      (vectors : RandomSource) (transport : Transport)
  | sendMessage {α : Type} [Payload α] [DistinctPayload α] (timestamp : UInt64) (value : α)
      (vectors : RandomSource) (transport : Transport)
  | sendCommand (timestamp : UInt64) (command : Command) (nonces vectors : RandomSource)
      (transport : Transport)
  | deliver (index : Nat)

def afterSending (c : Channel) (kind : MessageKind) (timestamp : UInt64) (payload : Document)
    (outcome : Except SessionError Sent × Session) : Channel :=
  match outcome with
  | (.ok sent, sender) =>
    { c with sender, posted := c.posted ++ [⟨⟨kind, timestamp, sent.sequence, payload⟩, sent.frame⟩] }
  | (.error _, sender) => { c with sender }

def afterDelivery (c : Channel) (frame : Octets) : Channel :=
  match c.receiver.receive frame with
  | (.ok inbound, receiver) => { c with receiver, received := c.received ++ [inbound.envelope.message] }
  | (.error _, receiver) => { c with receiver }

def step (c : Channel) : Event → Channel
  | .send kind timestamp payload _ vectors transport =>
    c.afterSending kind timestamp payload (c.sender.send kind timestamp payload vectors transport)
  | @Event.sendMessage α _ _ timestamp value vectors transport =>
    c.afterSending (Payload.kind α) timestamp (Payload.render value)
      (c.sender.sendMessage timestamp value vectors transport)
  | .sendCommand timestamp command nonces vectors transport =>
    c.afterSending .command timestamp (Payload.render command)
      (c.sender.sendCommand timestamp command nonces vectors transport)
  | .deliver index =>
    match c.posted[index]? with
    | some posting => c.afterDelivery posting.frame
    | none => c

def run (c : Channel) (events : List Event) : Channel := events.foldl step c

/-- The messages in frames that the receiver's watermark has reached. -/
def reached (c : Channel) : List Message :=
  (c.posted.filter fun p => p.counter ≤ c.receiver.watermark).map Posting.message

/-- What holds after any events. -/
structure InOrder (key : Key) (c : Channel) : Prop where
  senderKey : c.sender.context.frameKey = some key
  receiverKey : c.receiver.context.frameKey = some key
  used : ∀ p ∈ c.posted, p.counter ≤ c.sender.context.sent
  increasing : c.posted.Pairwise fun p q => p.counter < q.counter
  faithful : ∀ p ∈ c.posted, p.Faithful key
  received : c.received.Sublist c.reached

variable {key : Key} {c : Channel}

theorem InOrder.afterSending (h : c.InOrder key) {kind : MessageKind} {timestamp : UInt64} {payload : Document}
    {outcome : Except SessionError Sent × Session}
    (hsafe : Session.SendsSafely key c.sender kind timestamp payload outcome) :
    (c.afterSending kind timestamp payload outcome).InOrder key := by
  obtain ⟨result, sender⟩ := outcome
  have hused : ∀ p ∈ c.posted, p.counter ≤ sender.context.sent :=
    fun p hp => UInt64.le_trans (h.used p hp) hsafe.monotone
  cases result with
  | error e => exact ⟨hsafe.frameKey, h.receiverKey, hused, h.increasing, h.faithful, h.received⟩
  | ok sent =>
    refine ⟨hsafe.frameKey, h.receiverKey, ?_, ?_, ?_, ?_⟩
    · intro p hp
      rcases List.mem_append.mp hp with hp | hp
      · exact hused p hp
      · obtain rfl := List.mem_singleton.mp hp
        exact hsafe.below sent rfl
    · refine List.pairwise_append.mpr ⟨h.increasing, List.pairwise_singleton _ _, ?_⟩
      intro p hp q hq
      obtain rfl := List.mem_singleton.mp hq
      exact UInt64.lt_of_le_of_lt (h.used p hp) (hsafe.above sent rfl)
    · intro p hp
      rcases List.mem_append.mp hp with hp | hp
      · exact h.faithful p hp
      · obtain rfl := List.mem_singleton.mp hp
        exact hsafe.faithful sent rfl
    · refine h.received.trans ?_
      simp only [reached, Channel.afterSending, List.filter_append, List.map_append]
      exact List.sublist_append_left _ _

theorem reached_sublist {receiver : Session} (hle : c.receiver.watermark ≤ receiver.watermark) :
    c.reached.Sublist { c with receiver }.reached := by
  refine List.Sublist.map _ (List.monotone_filter_right _ ?_)
  intro p hp
  simp only [decide_eq_true_eq] at hp ⊢
  exact UInt64.le_trans hp hle

/-- When the watermark moves to the counter of a frame above it, all that was reached before comes before the
message of the frame. -/
theorem reached_append_sublist (hincreasing : c.posted.Pairwise fun p q => p.counter < q.counter) {p : Posting}
    (hp : p ∈ c.posted) (habove : c.receiver.watermark < p.counter) {receiver : Session}
    (hwatermark : receiver.watermark = p.counter) :
    (c.reached ++ [p.message]).Sublist { c with receiver }.reached := by
  obtain ⟨front, back, hposted⟩ := List.append_of_mem hp
  rw [hposted, List.pairwise_append, List.pairwise_cons] at hincreasing
  obtain ⟨-, ⟨hback, -⟩, -⟩ := hincreasing
  -- Neither the frame itself nor any behind it was reached before.
  have hbehind : (p :: back).filter (fun q => q.counter ≤ c.receiver.watermark) = [] := by
    refine List.filter_eq_nil_iff.mpr ?_
    intro q hq
    simp only [decide_eq_true_eq, UInt64.not_le]
    rcases List.mem_cons.mp hq with rfl | hq
    · exact habove
    · exact UInt64.lt_trans habove (hback q hq)
  have hbefore : c.reached = (front.filter fun q => q.counter ≤ c.receiver.watermark).map Posting.message := by
    rw [reached, hposted, List.filter_append, hbehind, List.append_nil]
  have hafter : { c with receiver }.reached = (front.filter fun q => q.counter ≤ p.counter).map Posting.message ++
      p.message :: (back.filter fun q => q.counter ≤ p.counter).map Posting.message := by
    have hself : decide (p.counter ≤ p.counter) = true := decide_eq_true (UInt64.le_refl _)
    simp only [reached, hposted, hwatermark, List.filter_append, List.filter_cons, hself, if_true,
      List.map_append, List.map_cons]
  rw [hbefore, hafter]
  refine List.Sublist.append (List.Sublist.map _ (List.monotone_filter_right _ ?_))
    (List.singleton_sublist.mpr List.mem_cons_self)
  intro q hq
  simp only [decide_eq_true_eq] at hq ⊢
  exact UInt64.le_trans hq (UInt64.le_of_lt habove)

theorem InOrder.afterDelivery (h : c.InOrder key) {p : Posting} (hp : p ∈ c.posted) :
    (c.afterDelivery p.frame).InOrder key := by
  obtain ⟨hcontext, hcases⟩ := Session.receive_of_key h.receiverKey p.frame
  unfold Channel.afterDelivery
  generalize c.receiver.receive p.frame = outcome at hcontext hcases
  obtain ⟨result, receiver⟩ := outcome
  have hkey : receiver.context.frameKey = some key := by rw [hcontext, h.receiverKey]
  cases result with
  | error e =>
    refine ⟨h.senderKey, hkey, h.used, h.increasing, h.faithful, h.received.trans (reached_sublist ?_)⟩
    rcases hcases with ⟨hsame, -⟩ | ⟨habove, hmoved, -⟩
    · exact UInt64.le_of_eq hsame.symm
    · exact UInt64.le_trans (UInt64.le_of_lt habove) (UInt64.le_of_eq hmoved.symm)
  | ok inbound =>
    rcases hcases with ⟨-, e, hfailed⟩ | ⟨habove, hmoved, hopened⟩
    · cases hfailed
    · obtain ⟨text, hopened, hdecode⟩ := hopened inbound rfl
      have hmessage := h.faithful p hp _ text _ hopened hdecode
      refine ⟨h.senderKey, hkey, h.used, h.increasing, h.faithful, ?_⟩
      simp only [hmessage]
      exact (h.received.append_right _).trans (reached_append_sublist h.increasing hp habove hmoved)

theorem InOrder.step (h : c.InOrder key) (event : Event) : (c.step event).InOrder key := by
  cases event with
  | send kind timestamp payload distinct vectors transport =>
    exact h.afterSending (Session.send_sendsSafely h.senderKey kind timestamp distinct vectors transport)
  | sendMessage timestamp value vectors transport =>
    exact h.afterSending (Session.sendMessage_sendsSafely h.senderKey timestamp value vectors transport)
  | sendCommand timestamp command nonces vectors transport =>
    exact h.afterSending
      (Session.sendCommand_sendsSafely h.senderKey timestamp command nonces vectors transport)
  | deliver index =>
    simp only [Channel.step]
    split
    · next posting hposting => exact h.afterDelivery (List.mem_of_getElem? hposting)
    · exact h

theorem InOrder.run (h : c.InOrder key) (events : List Event) : (c.run events).InOrder key := by
  induction events generalizing c with
  | nil => exact h
  | cons event events ih => exact ih (h.step event)

end Channel

/-- Between a session that starts fresh and any other under the same secret, whatever is sent, refused by the
transport, lost, repeated and delivered out of order: the messages that were received are a subsequence of those
that were sent. -/
theorem received_sublist_posted {sending receiving : SecuritySettings} {c d : SecurityContext}
    (preferCbor : Bool) (authenticator : Option Authenticator) (receiver : Session)
    (events : List Channel.Event) (hsending : sending.encryption = true)
    (hreceiving : receiving.encryption = true) (hsecret : sending.secret = receiving.secret)
    (hc : SecurityContext.ofSettings sending = .ok c) (hd : SecurityContext.ofSettings receiving = .ok d)
    (hreceiver : receiver.context.frameKey = d.frameKey) :
    let after := (Channel.opened (Session.start c preferCbor authenticator) receiver).run events
    after.received.Sublist (after.posted.map Posting.message) := by
  intro after
  obtain ⟨key, hkey, hframe⟩ := SecurityContext.frameKey_of_ofSettings hsending hc
  obtain ⟨other, hother, hframe'⟩ := SecurityContext.frameKey_of_ofSettings hreceiving hd
  rw [hsecret, hother] at hkey
  cases hkey
  have hopened : (Channel.opened (Session.start c preferCbor authenticator) receiver).InOrder key := by
    refine ⟨hframe, by rw [← hframe', ← hreceiver]; rfl, ?_, List.Pairwise.nil, ?_, List.Sublist.refl _⟩
    all_goals
      intro p hp
      cases hp
  exact (hopened.run events).received.trans (List.Sublist.map _ (List.filter_sublist))

private theorem receive_sealedWith {key : Key} {s : Session} (hkey : s.context.frameKey = some key)
    (counter : UInt64) {vector text : Octets} {e : Envelope} (habove : s.watermark < counter)
    (hvector : vector.length = Frame.vectorLength) (htext : text.length ≤ Gcm.maxLength)
    (hdecode : Envelope.decode text = .ok e) (hkind : e.kind ≠ .command) :
    s.receive (Frame.sealedWith key counter vector text) =
      (.ok ⟨e, false⟩, { s with watermark := counter }) := by
  have hopen := Frame.openText_of_key hkey (Frame.sealedWith key counter vector text) s.watermark
  simp only [Frame.opened?_sealedWith hvector htext habove, Frame.counterOf_sealedWith] at hopen
  simp only [Session.receive, hopen, hdecode]
  rcases Session.judge_cases { s with watermark := counter } e with ⟨-, hjudge⟩ | ⟨a, hcommand, -⟩
  · exact hjudge
  · exact absurd hcommand hkind

private theorem receive_of_counter_le {key : Key} {s : Session} (hkey : s.context.frameKey = some key)
    (frame : Octets) (hle : Frame.counterOf frame ≤ s.watermark) :
    s.receive frame = (.error (.security .invalidResponse), s) := by
  have hopen := Frame.openText_of_key hkey frame s.watermark
  cases hopened : Frame.opened? key frame s.watermark with
  | none =>
    rw [hopened] at hopen
    simp only [Session.receive, hopen]
  | some text =>
    have habove := Frame.lt_counterOf_of_isAdmissible (Frame.isAdmissible_of_opened? hopened)
    exact absurd habove (UInt64.not_lt.mpr hle)

/-- A heartbeat that the transport refuses, the same one again, and its frame delivered twice. -/
theorem received_sublist_posted_repeated :
    let settings : SecuritySettings := ⟨true, false, false, List.replicate 32 9, none⟩
    let payload := Document.object [("uptime_ms", .ofUInt64 5)]
    let distinct : payload.HasDistinctNames := ⟨List.nodup_singleton _, trivial, trivial⟩
    let vectors := RandomSource.cycle [7, 9]
    let events : List Channel.Event := [.send .heartbeat 1000 payload distinct vectors Transport.closed,
      .send .heartbeat 1000 payload distinct vectors Transport.reliable, .deliver 0, .deliver 0]
    ∃ c, SecurityContext.ofSettings settings = .ok c ∧
      let after := (Channel.opened (Session.start c false none) (Session.start c true none)).run events
      after.received.Sublist (after.posted.map Posting.message) ∧
        after.received = [⟨.heartbeat, 1000, 1, payload⟩] := by
  intro settings payload distinct vectors events
  obtain ⟨key, hc⟩ : ∃ key, SecurityContext.ofSettings settings = .ok ⟨none, some key, 0, none⟩ :=
    SecurityContext.exists_ofSettings (by decide)
  refine ⟨_, hc, ?_, ?_⟩
  · exact received_sublist_posted false none (Session.start _ true none) events rfl rfl rfl hc hc rfl
  · have htext : (Envelope.encode false .heartbeat 1000 1 payload none).octets.length ≤ Gcm.maxLength := by
      decide +kernel
    have hdecode := Envelope.decode_encodeJson .heartbeat 1000 1 none distinct (show payload.depth ≤ 126 by decide)
    generalize hencoded : Envelope.encode false .heartbeat 1000 1 payload none = encoded at htext
    rw [show Envelope.encodeJson .heartbeat 1000 1 payload none = encoded from hencoded] at hdecode
    have hvector := RandomSource.length_draw Frame.vectorLength vectors
    have hseal (sent : UInt64) (hsent : sent ≠ UInt64.ofNat (2 ^ 64 - 1)) :
        Frame.sealText ⟨none, some key, sent, none⟩ encoded.octets vectors =
          (.ok (Frame.sealedWith key (sent + 1) (vectors.draw Frame.vectorLength).1 encoded.octets),
            ⟨none, some key, sent + 1, none⟩, (vectors.draw Frame.vectorLength).2) :=
      Frame.sealText_of_key rfl hsent htext vectors
    -- The refused attempt uses up the first counter, so that the frame has the second.
    have hrefused := hseal 0 (by decide)
    have hsealed := hseal 1 (by decide)
    rw [show (0 + 1 : UInt64) = 1 from rfl] at hrefused
    rw [show (1 + 1 : UInt64) = 2 from rfl] at hsealed
    generalize vectors.draw Frame.vectorLength = drawn at hvector hrefused hsealed
    have hreceived := @receive_sealedWith key ⟨⟨none, some key, 0, none⟩, 0, true, 1, none⟩ rfl 2 drawn.1
      encoded.octets _ (show (0 : UInt64) < 2 by decide) hvector htext hdecode (by simp)
    have hrepeated := @receive_of_counter_le key ⟨⟨none, some key, 0, none⟩, 2, true, 1, none⟩ rfl
      (Frame.sealedWith key 2 drawn.1 encoded.octets)
      (by rw [Frame.counterOf_sealedWith]; exact UInt64.le_refl _)
    simp only [events, Channel.run, List.foldl_cons, List.foldl_nil, Channel.step, Channel.opened, Session.start,
      Session.send, Session.post, Session.transmit, hencoded, hrefused, Transport.closed, Channel.afterSending,
      hsealed, Transport.reliable, List.nil_append, List.getElem?_cons_zero, Channel.afterDelivery, hreceived,
      hrepeated, Envelope.message]

end FieldLink
