import FieldLink.Proofs.CommandDelivery

/-!
# One attempt to send, of any kind

It either fails before there is a frame or hands exactly one over, and this frame does not depend on the
transport: it opens to what was to be sent, under the number that is next.
-/

namespace FieldLink

namespace Frame

/-- What sealing a frame makes of a context: under a key the frame has the next counter. -/
def Leaves (c : SecurityContext) (frame : Octets) (after : SecurityContext) : Prop :=
  c.frameKey = none ∧ after = c ∨
    c.frameKey.isSome = true ∧ c.sent < c.sent + 1 ∧ counterOf frame = c.sent + 1 ∧
      after = { c with sent := c.sent + 1 }

theorem Leaves.frameKey_eq {c after : SecurityContext} {frame : Octets} (h : Leaves c frame after) :
    after.frameKey = c.frameKey := by
  rcases h with ⟨-, rfl⟩ | ⟨-, -, -, rfl⟩ <;> rfl

theorem Leaves.of_key {c after : SecurityContext} {frame : Octets} (h : Leaves c frame after)
    (hkey : c.frameKey.isSome = true) :
    c.sent < c.sent + 1 ∧ counterOf frame = c.sent + 1 ∧ after.sent = c.sent + 1 := by
  rcases h with ⟨hnone, -⟩ | ⟨-, hmoved, hcounter, rfl⟩
  · rw [hnone] at hkey
    cases hkey
  · exact ⟨hmoved, hcounter, rfl⟩

theorem leaves_of_sealText {c after : SecurityContext} {text frame : Octets} {source rest : RandomSource}
    (h : sealText c text source = (.ok frame, after, rest)) : Leaves c frame after := by
  rcases cases_of_sealText_ok h with ⟨hkey, -, hafter⟩ | ⟨key, vector, hkey, -, -, hmoved, rfl, hafter⟩
  · exact .inl ⟨hkey, hafter⟩
  · exact .inr ⟨by rw [hkey]; rfl, hmoved, counterOf_sealedWith _ _ _ _, hafter⟩

/-- A text is not sealed for want of a counter, or since it is too long, and then a counter is used up. -/
theorem cases_of_sealText_error {c after : SecurityContext} {text : Octets} {source rest : RandomSource}
    {e : SecurityError} (h : sealText c text source = (.error e, after, rest)) :
    c.frameKey.isSome = true ∧ (c.sent = UInt64.ofNat (2 ^ 64 - 1) ∧ after = c ∨
      Gcm.maxLength < text.length ∧ c.sent < c.sent + 1 ∧ e = .invalidArgument .textTooLong ∧
        after = { c with sent := c.sent + 1 }) := by
  cases hkey : c.frameKey with
  | none =>
    rw [sealText_of_keyless hkey] at h
    cases h
  | some key =>
    rcases sealText_cases hkey text source with
      ⟨vector, unused, hsealed, -⟩ | ⟨unused, hlong, htext, hmoved⟩ | ⟨hspent, hsent⟩
    · rw [hsealed] at h
      cases h
    · rw [hlong] at h
      cases h
      exact ⟨rfl, .inr ⟨htext, hmoved, rfl, by rw [hkey]⟩⟩
    · rw [hspent] at h
      cases h
      exact ⟨rfl, .inl ⟨hsent, rfl⟩⟩

end Frame

namespace Session

structure Draft where
  kind : MessageKind
  timestamp : UInt64
  payload : Document
  signature : Option Signature

namespace Draft

def text (d : Draft) (preferCbor : Bool) (sequence : UInt32) : Octets :=
  (Envelope.encode preferCbor d.kind d.timestamp sequence d.payload d.signature).octets

structure Sendable (d : Draft) : Prop where
  distinct : d.payload.HasDistinctNames
  signature : ∀ s, d.signature = some s → s.Fits

end Draft

inductive Attempt : Type 1 where
  | document (kind : MessageKind) (timestamp : UInt64) (payload : Document) (distinct : payload.HasDistinctNames)
  | message {α : Type} [Payload α] [DistinctPayload α] (timestamp : UInt64) (value : α)
  | command (timestamp : UInt64) (value : Command) (nonces : RandomSource)

namespace Attempt

def perform (s : Session) (vectors : RandomSource) (transport : Transport) :
    Attempt → Except SessionError Sent × Session
  | document kind timestamp payload _ => s.send kind timestamp payload vectors transport
  | message timestamp value => s.sendMessage timestamp value vectors transport
  | command timestamp value nonces => s.sendCommand timestamp value nonces vectors transport

def draft (s : Session) : Attempt → Except SessionError Draft
  | document kind timestamp payload _ => .ok ⟨kind, timestamp, payload, none⟩
  | @message α _ _ timestamp value =>
    match Payload.toDocument value with
    | .error e => .error (.protocol e)
    | .ok payload => .ok ⟨Payload.kind α, timestamp, payload, none⟩
  | command timestamp value nonces =>
    match Payload.toDocument value with
    | .error e => .error (.protocol e)
    | .ok payload =>
      match s.signatureFor timestamp payload nonces with
      | .error e => .error (.security e)
      | .ok signature => .ok ⟨.command, timestamp, payload, signature⟩

/-- The frame that the transport is given, if there is one. -/
def handed (s : Session) (vectors : RandomSource) (a : Attempt) : Option Octets :=
  match a.draft s with
  | .error _ => none
  | .ok d => (Frame.sealText s.context (d.text s.preferCbor s.nextSequence) vectors).1.toOption

end Attempt

private theorem fits_of_signatureFor {s : Session} {timestamp : UInt64} {payload : Document} {nonces : RandomSource}
    {signature : Signature} (h : s.signatureFor timestamp payload nonces = .ok (some signature)) : signature.Fits := by
  cases hauthenticator : s.authenticator with
  | none =>
    simp only [signatureFor, hauthenticator] at h
    cases h
  | some a =>
    cases hkey : a.key with
    | none =>
      simp only [signatureFor, hauthenticator, hkey] at h
      cases h
    | some key =>
      rw [signatureFor_of_key hauthenticator hkey] at h
      cases h
      exact Authenticator.fits_signatureOf (Authenticator.isNonce_draw nonces)

namespace Attempt

variable {s : Session} {a : Attempt} {d : Draft}

theorem sendable_of_draft (h : a.draft s = .ok d) : d.Sendable := by
  cases a with
  | document kind timestamp payload distinct =>
    cases h
    exact ⟨distinct, nofun⟩
  | message timestamp value =>
    simp only [draft] at h
    split at h
    · cases h
    · next payload hpayload =>
      cases h
      rw [Payload.eq_render_of_toDocument hpayload]
      exact ⟨DistinctPayload.hasDistinctNames value, nofun⟩
  | command timestamp value nonces =>
    simp only [draft] at h
    split at h
    · cases h
    · next payload hpayload =>
      split at h
      · cases h
      · next signature hsignature =>
        cases h
        refine ⟨?_, ?_⟩
        · simp only [Payload.eq_render_of_toDocument hpayload]
          exact DistinctPayload.hasDistinctNames value
        · rintro signature rfl
          exact fits_of_signatureFor hsignature

theorem perform_eq (s : Session) (a : Attempt) (vectors : RandomSource) (transport : Transport) :
    a.perform s vectors transport =
      match a.draft s with
      | .error e => (.error e, s)
      | .ok d => s.post d.kind d.timestamp d.payload d.signature vectors transport := by
  cases a with
  | document kind timestamp payload distinct => rfl
  | message timestamp value =>
    simp only [perform, draft, sendMessage]
    cases Payload.toDocument value <;> rfl
  | command timestamp value nonces =>
    simp only [perform, draft, sendCommand]
    cases Payload.toDocument value with
    | error e => rfl
    | ok payload => cases hsignature : s.signatureFor timestamp payload nonces <;> simp only [hsignature]

end Attempt

/-- A frame is handed over just if a transport can make the attempt succeed by taking it. -/
theorem Attempt.exists_sent_iff (s : Session) (a : Attempt) (vectors : RandomSource) (transport : Transport) :
    (∃ sent, (a.perform s vectors transport).1 = .ok sent) ↔
      ∃ frame, a.handed s vectors = some frame ∧ transport frame = .ok () := by
  rw [a.perform_eq, handed]
  cases a.draft s with
  | error e => simp
  | ok d =>
    simp only [post_eq, Draft.text]
    generalize Frame.sealText s.context _ vectors = outcome
    obtain ⟨_ | frame, context, rest⟩ := outcome
    · simp [Except.toOption]
    · cases htaken : transport frame <;> simp [Except.toOption, htaken]

/-- A frame that opens, under the key of a context, to the text of a message under a number: nothing else is decoded
from the text, and the message is unless its payload is nested too deeply. -/
structure Carrying (c : SecurityContext) (d : Draft) (preferCbor : Bool) (sequence : UInt32) (frame : Octets) :
    Prop where
  opened : (Frame.openText c frame 0).1 = .ok (d.text preferCbor sequence)
  faithful : (d.text preferCbor sequence).length < 2 ^ 64 → ∀ e, Envelope.decode (d.text preferCbor sequence) = .ok e →
    e.Carries d.kind d.timestamp sequence d.payload d.signature
  readable : d.payload.depth ≤ 126 → d.payload.Fits → ∃ e, Envelope.decode (d.text preferCbor sequence) = .ok e

theorem carrying_of_sealText {c after : SecurityContext} {d : Draft} {sequence : UInt32} {preferCbor : Bool}
    {frame : Octets} {vectors rest : RandomSource} (hd : d.Sendable)
    (hseal : Frame.sealText c (d.text preferCbor sequence) vectors = (.ok frame, after, rest)) :
    Carrying c d preferCbor sequence frame where
  opened := by
    refine Frame.openText_of_sealText rfl hseal ?_
    intro hkey
    obtain ⟨hmoved, hcounter, -⟩ := (Frame.leaves_of_sealText hseal).of_key hkey
    rw [hcounter]
    exact UInt64.lt_of_le_of_lt UInt64.zero_le hmoved
  faithful := by
    intro hlength e hdecode
    rw [Envelope.eq_of_decode_encode hd.distinct hlength hdecode]
    exact ⟨rfl, rfl, rfl, rfl, rfl, rfl, rfl⟩
  readable := by
    intro hdepth hfits
    obtain ⟨e, hdecode, -⟩ :=
      Envelope.exists_decode_encode preferCbor d.kind d.timestamp sequence d.signature hd.distinct hdepth hfits
        hd.signature
    exact ⟨e, hdecode⟩

end Session
end FieldLink
