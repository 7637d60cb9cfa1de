import FieldLink.Proofs.CommandExecution
import FieldLink.Proofs.CommandInverse
import FieldLink.Proofs.SecureChannel
import FieldLink.Proofs.SignedCommands

/-!
# From one end of a connection to the board at the other

A command that was sent under a key is opened, decoded, found authentic and read as the command that it was, and
the board does what it names and nothing else.
-/

namespace FieldLink

namespace Frame

private theorem openText_of_keyless {c : SecurityContext} (hkey : c.frameKey = none) (frame : Octets)
    (watermark : UInt64) : openText c frame watermark = (.ok frame, watermark) := by
  simp [openText, openInPlace, hkey, Except.map]

/-- A text that was sealed is its own frame without a key, and under a key is in a frame with the next counter. -/
theorem cases_of_sealText_ok {c after : SecurityContext} {text frame : Octets} {source rest : RandomSource}
    (h : sealText c text source = (.ok frame, after, rest)) :
    c.frameKey = none ∧ frame = text ∧ after = c ∨
      ∃ key vector, c.frameKey = some key ∧ vector.length = vectorLength ∧ text.length ≤ Gcm.maxLength ∧
        c.sent < c.sent + 1 ∧ frame = sealedWith key (c.sent + 1) vector text ∧
        after = { c with sent := c.sent + 1 } := by
  cases hkey : c.frameKey with
  | none =>
    rw [sealText_of_keyless hkey] at h
    cases h
    exact .inl ⟨rfl, rfl, rfl⟩
  | some key =>
    rcases sealText_cases hkey text source with
      ⟨vector, unused, hsealed, hvector, htext, hmoved⟩ | ⟨unused, hlong, -⟩ | ⟨hspent, -⟩
    · rw [hsealed] at h
      cases h
      exact .inr ⟨key, vector, rfl, hvector, htext, hmoved, rfl, by rw [hkey]⟩
    · rw [hlong] at h
      cases h
    · rw [hspent] at h
      cases h

theorem openText_of_sealText {c d after : SecurityContext} (hkeys : c.frameKey = d.frameKey) {text frame : Octets}
    {source rest : RandomSource} (hseal : sealText c text source = (.ok frame, after, rest)) {watermark : UInt64}
    (habove : c.frameKey.isSome = true → watermark < counterOf frame) :
    (openText d frame watermark).1 = .ok text := by
  rcases cases_of_sealText_ok hseal with ⟨hkey, rfl, -⟩ | ⟨key, vector, hkey, hvector, htext, -, rfl, -⟩
  · rw [openText_of_keyless (hkeys ▸ hkey)]
  · have hlt := habove (by rw [hkey]; rfl)
    rw [counterOf_sealedWith] at hlt
    rw [openText_of_key (hkeys ▸ hkey), opened?_sealedWith hvector htext hlt]

end Frame

namespace Session

section Sending

variable {s : Session} {timestamp : UInt64} {vectors : RandomSource} {transport : Transport} {sent : Sent}

private theorem exists_sealText_of_post {kind : MessageKind} {payload : Document} {signature : Option Signature}
    (h : (s.post kind timestamp payload signature vectors transport).1 = .ok sent) :
    ∃ after rest, Frame.sealText s.context
      (Envelope.encode s.preferCbor kind timestamp sent.sequence payload signature).octets vectors =
        (.ok sent.frame, after, rest) := by
  rw [post_eq] at h
  generalize hencoded : Envelope.encode s.preferCbor kind timestamp s.nextSequence payload signature = encoded at h
  generalize hseal : Frame.sealText s.context encoded.octets vectors = result at h
  obtain ⟨frame, after, rest⟩ := result
  cases frame with
  | error e => cases h
  | ok frame =>
    cases htaken : transport frame with
    | error e =>
      simp only [htaken] at h
      cases h
    | ok =>
      simp only [htaken] at h
      cases h
      exact ⟨after, rest, by rw [hencoded, hseal]⟩

theorem signatureFor_of_key {a : Authenticator} {key : Key} (ha : s.authenticator = some a) (hkey : a.key = some key)
    (timestamp : UInt64) (payload : Document) (nonces : RandomSource) :
    s.signatureFor timestamp payload nonces = .ok (some (Authenticator.signatureOf key payload Envelope.currentVersion
      timestamp (nonces.draw Authenticator.signingNonceLength).1)) := by
  simp only [signatureFor, ha, hkey, Option.isSome_some, if_true, Authenticator.signFresh]
  rw [Authenticator.sign_of_key hkey (Authenticator.isNonce_draw nonces)]
  rfl

private theorem post_of_sendCommand {a : Authenticator} {key : Key} (ha : s.authenticator = some a)
    (hkey : a.key = some key) {command : Command} {nonces : RandomSource}
    (h : (s.sendCommand timestamp command nonces vectors transport).1 = .ok sent) :
    Payload.toDocument command = .ok (Payload.render command) ∧
      (s.post .command timestamp (Payload.render command) (some (Authenticator.signatureOf key (Payload.render command)
        Envelope.currentVersion timestamp (nonces.draw Authenticator.signingNonceLength).1)) vectors transport).1 =
          .ok sent := by
  unfold sendCommand at h
  split at h
  · cases h
  · next payload hpayload =>
    obtain rfl := Payload.eq_render_of_toDocument hpayload
    rw [signatureFor_of_key ha hkey] at h
    exact ⟨hpayload, h⟩

private theorem sendCommand_of_sealText {a : Authenticator} {key : Key} (ha : s.authenticator = some a)
    (hkey : a.key = some key) {command : Command} (hvalid : command.fault? = none) {nonces rest : RandomSource}
    {frame : Octets} {after : SecurityContext}
    (hseal : Frame.sealText s.context (Envelope.encode s.preferCbor .command timestamp s.nextSequence
      command.toDocument (some (Authenticator.signatureOf key command.toDocument Envelope.currentVersion timestamp
        (nonces.draw Authenticator.signingNonceLength).1))).octets vectors = (.ok frame, after, rest)) :
    (s.sendCommand timestamp command nonces vectors Transport.reliable).1 = .ok ⟨s.nextSequence, frame⟩ := by
  have hdocument : Payload.toDocument command = .ok command.toDocument := by
    have hfault : Payload.fault? command = none := hvalid
    rw [Payload.toDocument, Payload.check, hfault]
    rfl
  rw [sendCommand, hdocument]
  simp only [signatureFor_of_key ha hkey, post_eq, hseal, Transport.reliable]

end Sending

private theorem receive_of_validate {s : Session} {a : Authenticator} {frame text : Octets} {e : Envelope}
    (ha : s.authenticator = some a) (hopen : (Frame.openText s.context frame s.watermark).1 = .ok text)
    (hdecode : Envelope.decode text = .ok e) (hkind : e.kind = .command) (hvalid : (a.validate e).1 = .ok ()) :
    (s.receive frame).1 = .ok ⟨e, true⟩ := by
  simp only [receive, hopen, hdecode, judge, hkind, ha, hvalid]

end Session

namespace SecurityContext

variable {sending receiving : SecuritySettings} {c d : SecurityContext}

private theorem encryption_of_frameKey (hc : ofSettings sending = .ok c) (hkey : c.frameKey.isSome = true) :
    sending.encryption = true := by
  cases hencryption : sending.encryption with
  | true => rfl
  | false =>
    have hframe := keyFor_of_ofSettings hc
    rw [keyFor, hencryption] at hframe
    rw [← Except.ok.inj hframe] at hkey
    cases hkey

theorem frameKey_eq_of_ofSettings (hencryption : sending.encryption = receiving.encryption)
    (hsecret : sending.secret = receiving.secret) (hc : ofSettings sending = .ok c)
    (hd : ofSettings receiving = .ok d) : c.frameKey = d.frameKey := by
  have hframe := keyFor_of_ofSettings hc
  rw [hencryption, hsecret, keyFor_of_ofSettings hd] at hframe
  exact (Except.ok.inj hframe).symm

end SecurityContext

namespace Session

/-- A command that was sent under a key is received under it, with its signature. -/
theorem exists_receive_of_sendCommand {sender receiver : Session} {signer verifier : Authenticator} {key : Key}
    (hkeys : sender.context.frameKey = receiver.context.frameKey) (hsigner : sender.authenticator = some signer)
    (hsigning : signer.key = some key) (hverifier : receiver.authenticator = some verifier)
    (hverifying : verifier.key = some key) {timestamp : UInt64} {command : Command} {nonces vectors : RandomSource}
    {transport : Transport} {sent : Sent}
    (hsent : (sender.sendCommand timestamp command nonces vectors transport).1 = .ok sent)
    (habove : sender.context.frameKey.isSome = true → receiver.watermark < Frame.counterOf sent.frame)
    (hfresh : Authenticator.isFresh verifier.latest timestamp = true)
    (hnew : verifier.history.contains (nonces.draw Authenticator.signingNonceLength).1 = false) :
    ∃ e signature, (receiver.receive sent.frame).1 = .ok ⟨e, true⟩ ∧
      e.Carries .command timestamp sent.sequence (Payload.render command) (some signature) := by
  obtain ⟨-, hpost⟩ := post_of_sendCommand hsigner hsigning hsent
  obtain ⟨after, rest, hseal⟩ := exists_sealText_of_post hpost
  have hopen := Frame.openText_of_sealText hkeys hseal habove
  have hshallow := command.isShallow_toDocument
  obtain ⟨e, hdecode, hcarries⟩ := Authenticator.exists_decode_signed sender.preferCbor .command key timestamp
    sent.sequence (DistinctPayload.hasDistinctNames command) (Nat.le_trans hshallow.depth_le (by decide)) hshallow.fits
    (Authenticator.isNonce_draw nonces)
  have haccepted :=
    Authenticator.validate_of_carries hverifying hcarries hfresh (Authenticator.isNonce_draw nonces) hnew
  exact ⟨e, _, receive_of_validate hverifier hopen hdecode hcarries.kind (by rw [haccepted]), hcarries⟩

end Session

/-- A command that was sent is received as the command that it was, and is carried out: the board takes the values
that the command names and keeps all others. Only a frequency of zero is refused, and then nothing happens. -/
theorem sent_command_applied {sending receiving : SecuritySettings} {c d : SecurityContext}
    {sender receiver : Session} {signer verifier : Authenticator} {key : Key}
    (hencryption : sending.encryption = receiving.encryption) (hsecret : sending.secret = receiving.secret)
    (hc : SecurityContext.ofSettings sending = .ok c) (hd : SecurityContext.ofSettings receiving = .ok d)
    (hsender : sender.context.frameKey = c.frameKey) (hreceiver : receiver.context.frameKey = d.frameKey)
    (hsigner : sender.authenticator = some signer) (hsigning : signer.key = some key)
    (hverifier : receiver.authenticator = some verifier) (hverifying : verifier.key = some key)
    {timestamp : UInt64} {command : Command} {nonces vectors : RandomSource} {transport : Transport} {sent : Sent}
    (hsent : (sender.sendCommand timestamp command nonces vectors transport).1 = .ok sent)
    (habove : sending.encryption = true → receiver.watermark < Frame.counterOf sent.frame)
    (hfresh : verifier.latest = 0 ∨ verifier.latest.toNat ≤ timestamp.toNat + 60000)
    (hnew : verifier.history.contains (nonces.draw 8).1 = false) :
    ∃ inbound, (receiver.receive sent.frame).1 = .ok inbound ∧ inbound.authenticated = true ∧
      inbound.envelope.crcValid = true ∧ Payload.ofEnvelope Command inbound.envelope = .ok command ∧
      ∀ board : Board,
        (command.frequency = some ⟨0⟩ → board.execute inbound.envelope =
          (.failure sent.sequence BoardFault.zeroFrequency.message, board)) ∧
        (command.frequency ≠ some ⟨0⟩ → ∃ changed, board.execute inbound.envelope = (.success sent.sequence, changed) ∧
          ∀ after, Board.Applied command board after ↔ after = changed) := by
  have hkeys : sender.context.frameKey = receiver.context.frameKey := by
    rw [hsender, hreceiver, SecurityContext.frameKey_eq_of_ofSettings hencryption hsecret hc hd]
  have hcounter : sender.context.frameKey.isSome = true → receiver.watermark < Frame.counterOf sent.frame := by
    intro hkey
    rw [hsender] at hkey
    exact habove (SecurityContext.encryption_of_frameKey hc hkey)
  obtain ⟨e, signature, hreceive, hcarries⟩ := Session.exists_receive_of_sendCommand hkeys hsigner hsigning hverifier
    hverifying hsent hcounter ((Authenticator.isFresh_iff _ _).mpr hfresh) hnew
  obtain ⟨hdocument, -⟩ := Session.post_of_sendCommand hsigner hsigning hsent
  have hcommand : Payload.ofEnvelope Command e = .ok command := by
    rw [Payload.ofEnvelope, if_pos (show e.kind = Payload.kind Command from hcarries.kind), hcarries.payload]
    exact Payload.ofDocument_of_toDocument hdocument
  refine ⟨⟨e, true⟩, hreceive, rfl, hcarries.crcValid, hcommand, ?_⟩
  intro board
  rw [← hcarries.sequence]
  exact Board.execute_cases hcarries.kind hcarries.crcValid hcommand (Payload.fault?_of_toDocument hdocument) board

set_option maxRecDepth 2000 in
/-- The highest output is set to its full duty over a sealed connection. The receiver's watermark is one below the
counter of the frame, and its verifier remembers another nonce. -/
theorem sent_command_applied_sealed :
    let settings : SecuritySettings := ⟨true, false, false, List.replicate 32 9, none⟩
    let key : Key := ⟨List.replicate 32 0x5A, by decide⟩
    let signer : Authenticator := ⟨some key, .empty, 0⟩
    let verifier : Authenticator := ⟨some key, ⟨[⟨[0xAB], 61000⟩], by decide⟩, 61000⟩
    let command : Command := ⟨some ⟨15, 4095⟩, none, none⟩
    let nonces := RandomSource.cycle [1, 2, 3]
    let vectors := RandomSource.cycle [7, 9]
    ∃ c sent inbound, SecurityContext.ofSettings settings = .ok c ∧
      ((Session.start c true (some signer)).sendCommand 1000 command nonces vectors Transport.reliable).1 = .ok sent ∧
      ((Session.start c false (some verifier)).receive sent.frame).1 = .ok inbound ∧ inbound.authenticated = true ∧
      inbound.envelope.crcValid = true ∧ Payload.ofEnvelope Command inbound.envelope = .ok command ∧
      ∀ board : Board, ∃ changed, board.execute inbound.envelope = (.success sent.sequence, changed) ∧
        ∀ after, Board.Applied command board after ↔ after = changed := by
  intro settings key signer verifier command nonces vectors
  obtain ⟨frameKey, hc⟩ : ∃ key, SecurityContext.ofSettings settings = .ok ⟨none, some key, 0, none⟩ :=
    SecurityContext.exists_ofSettings (by decide)
  have htext : (Envelope.encode true .command 1000 1 command.toDocument (some (Authenticator.signatureOf key
      command.toDocument Envelope.currentVersion 1000 (nonces.draw 8).1))).octets.length ≤ Gcm.maxLength := by
    decide +kernel
  have hseal := @Frame.sealText_of_key ⟨none, some frameKey, 0, none⟩ frameKey rfl _
    (show (0 : UInt64) ≠ UInt64.ofNat (2 ^ 64 - 1) by decide) htext vectors
  have hsent := Session.sendCommand_of_sealText (s := Session.start ⟨none, some frameKey, 0, none⟩ true (some signer))
    rfl rfl (show command.fault? = none by decide) hseal
  have habove (vector text : Octets) : 0 < Frame.counterOf (Frame.sealedWith frameKey (0 + 1) vector text) := by
    rw [Frame.counterOf_sealedWith]
    decide
  obtain ⟨inbound, hreceive, hauthentic, hcrc, hcommand, hboard⟩ :=
    @sent_command_applied settings settings _ _ _ (Session.start _ false (some verifier)) _ _ _ rfl rfl hc hc rfl rfl
      rfl rfl rfl rfl _ _ _ _ _ _ hsent (fun _ => habove _ _) (.inr (by decide)) (by decide)
  exact ⟨_, _, inbound, hc, hsent, hreceive, hauthentic, hcrc, hcommand, fun board => (hboard board).2 (by simp)⟩

end FieldLink
