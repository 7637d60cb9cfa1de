import FieldLink.Proofs.CommandInverse
import FieldLink.Proofs.EnvelopeInverse

/-!
# Typed payloads from one end to the other

A payload whose document is shallow and is read back without a fault is delivered, in either wire format;
commands, acknowledgements and heartbeats are delivered as they were sent, and a document that is accepted as a
command is never a fault and has a command that is written and read again.
-/

namespace FieldLink

theorem Document.IsShallow.mono {low high : Nat} {d : Document} (h : d.IsShallow low) (hle : low ≤ high) :
    d.IsShallow high :=
  ⟨Nat.le_trans h.depth_le hle, h.fits⟩

namespace Payload

/-- A payload arrives as another: it is encoded, its message is found whole at the other end, is read there as the
other payload, and is refused as a payload of any other kind. -/
def ArrivesAs {α : Type} [Payload α] (preferCbor : Bool) (timestamp : UInt64) (sequence : UInt32) (value back : α) :
    Prop :=
  ∃ encoded e, encode preferCbor timestamp sequence value = .ok encoded ∧ Envelope.decode encoded.octets = .ok e ∧
    e.crcValid = true ∧ e.timestamp = timestamp ∧ e.sequence = sequence ∧ ofEnvelope α e = .ok back ∧
    ∀ (β : Type) [Payload β], kind β ≠ kind α →
      ofEnvelope β e = .error (.invalidPayload (kind β) (.carries (kind α)))

variable {α : Type} [Payload α] {value back : α}

theorem ArrivesAs.unique {preferCbor : Bool} {timestamp : UInt64} {sequence : UInt32} {other : α}
    (h : ArrivesAs preferCbor timestamp sequence value back)
    (hother : ArrivesAs preferCbor timestamp sequence value other) : back = other := by
  obtain ⟨encoded, e, hencoded, hdecoded, -, -, -, hback, -⟩ := h
  obtain ⟨otherEncoded, otherEnvelope, hotherEncoded, hotherDecoded, -, -, -, hotherBack, -⟩ := hother
  rw [hencoded] at hotherEncoded
  cases hotherEncoded
  rw [hdecoded] at hotherDecoded
  cases hotherDecoded
  rw [hback] at hotherBack
  exact Except.ok.inj hotherBack

/-- A document of any shape goes through the envelope as it is, and its payload is read from it. -/
theorem arrivesAs_of_shape? [DistinctPayload α] (hfault : fault? value = none)
    (hshallow : (render value).IsShallow 126) (hshape : shape? (render value) = some back)
    (hback : fault? back = none) (preferCbor : Bool) (timestamp : UInt64) (sequence : UInt32) :
    ArrivesAs preferCbor timestamp sequence value back := by
  have hencoded : encode preferCbor timestamp sequence value =
      .ok (Envelope.encode preferCbor (kind α) timestamp sequence (render value) none) := by
    rw [encode, toDocument_of_fault? hfault]
    rfl
  obtain ⟨e, hdecoded, hcarries⟩ := Envelope.exists_decode_encode preferCbor (kind α) timestamp sequence none
    (DistinctPayload.hasDistinctNames value) hshallow.depth_le hshallow.fits (by simp)
  refine ⟨_, e, hencoded, hdecoded, hcarries.crcValid, hcarries.timestamp, hcarries.sequence, ?_, ?_⟩
  · rw [ofEnvelope, if_pos hcarries.kind, hcarries.payload]
    exact ofDocument_eq_ok_iff.mpr ⟨hshape, hback⟩
  · intro β _ hkind
    rw [ofEnvelope, hcarries.kind, if_neg (Ne.symm hkind)]

end Payload

namespace Command

structure IsExecutable (c : Command) : Prop where
  action : c.duty.isSome ∨ c.frequency.isSome ∨ c.port.isSome
  channel : ∀ a, c.duty = some a → a.channel.toNat < 16

theorem fault?_eq_none_iff (c : Command) : c.fault? = none ↔ c.IsExecutable := by
  obtain ⟨duty, frequency, port⟩ := c
  have hsplit : fault? ⟨duty, frequency, port⟩ = none ↔
      ¬(duty.isNone ∧ frequency.isNone ∧ port.isNone) ∧ ∀ a, duty = some a → ¬channelCount ≤ a.channel.toNat := by
    cases duty <;> simp [fault?]
  rw [hsplit]
  constructor
  · rintro ⟨haction, hchannel⟩
    refine ⟨?_, fun a ha => Nat.not_le.mp (hchannel a ha)⟩
    cases duty <;> cases frequency <;> cases port <;> simp_all
  · rintro ⟨haction, hchannel⟩
    refine ⟨?_, fun a ha => Nat.not_le.mpr (hchannel a ha)⟩
    cases duty <;> cases frequency <;> cases port <;> simp_all

end Command

namespace Acknowledgement

theorem fields?_toDocument (a : Acknowledgement) : Shape.fields? ["ref_seq", "ok", "reason"] a.toDocument =
    some [some (.ofUInt32 a.sequence), some (.bool a.ok), a.reason.map .text] := by
  obtain ⟨sequence, ok, reason⟩ := a
  cases reason <;> rfl

theorem ofDocument?_toDocument (a : Acknowledgement) : ofDocument? a.toDocument = some a := by
  have hreason : Shape.optional Document.text? (a.reason.map .text) = some a.reason := by
    apply Shape.optional_map
    · exact fun _ => rfl
    · simp
  simp -implicitDefEqProofs [ofDocument?, fields?_toDocument, hreason, Shape.required, Document.bool?]

theorem isShallow_toDocument {a : Acknowledgement} (hreason : ∀ reason, a.reason = some reason → FitsMemory reason) :
    a.toDocument.IsShallow 1 := by
  obtain ⟨sequence, ok, reason⟩ := a
  have hsequence : FitsMemory "ref_seq" := by decide
  have hok : FitsMemory "ok" := by decide
  cases reason with
  | none => exact ⟨show 1 ≤ 1 by decide, show 2 < 2 ^ 64 by decide, hsequence, trivial, hok, trivial, trivial⟩
  | some reason =>
    exact ⟨show 1 ≤ 1 by decide, show 3 < 2 ^ 64 by decide, hsequence, trivial, hok, trivial,
      show FitsMemory "reason" by decide, hreason reason rfl, trivial⟩

end Acknowledgement

namespace Heartbeat

theorem ofDocument?_toDocument (h : Heartbeat) : ofDocument? h.toDocument = some h := by
  have hfields : Shape.fields? ["uptime_ms"] h.toDocument = some [some (.ofUInt64 h.uptime)] := rfl
  simp -implicitDefEqProofs [ofDocument?, hfields, Shape.required]

theorem isShallow_toDocument (h : Heartbeat) : h.toDocument.IsShallow 1 :=
  ⟨show 1 ≤ 1 by decide, show 1 < 2 ^ 64 by decide, show FitsMemory "uptime_ms" by decide, trivial, trivial⟩

end Heartbeat

/-- A document that is accepted as a command, in whatever shape, has an executable command, which is written and read
again as itself. Every executable command, every acknowledgement and every heartbeat arrives as it was sent, whatever
the format, and at no reader of another kind of payload. -/
theorem commands_and_answers_arrive :
    (∀ (d : Document) (c : Command), Payload.ofDocument Command d = .ok c →
      c.IsExecutable ∧ ∃ written, Payload.toDocument c = .ok written ∧ Payload.ofDocument Command written = .ok c) ∧
    ∀ (preferCbor : Bool) (timestamp : UInt64) (sequence : UInt32),
      (∀ c : Command, c.IsExecutable → Payload.ArrivesAs preferCbor timestamp sequence c c) ∧
      (∀ a : Acknowledgement, (∀ reason, a.reason = some reason → FitsMemory reason) →
        Payload.ArrivesAs preferCbor timestamp sequence a a) ∧
      ∀ h : Heartbeat, Payload.ArrivesAs preferCbor timestamp sequence h h := by
  constructor
  · intro d c h
    obtain ⟨-, hfault⟩ := Payload.ofDocument_eq_ok_iff.mp h
    refine ⟨c.fault?_eq_none_iff.mp hfault, _, Payload.toDocument_of_fault? hfault, ?_⟩
    exact Payload.ofDocument_eq_ok_iff.mpr ⟨c.ofDocument?_toDocument, hfault⟩
  · intro preferCbor timestamp sequence
    refine ⟨fun c hc => ?_, fun a hreason => ?_, fun h => ?_⟩
    · have hfault := c.fault?_eq_none_iff.mpr hc
      have hshallow : (Payload.render c).IsShallow 126 := c.isShallow_toDocument.mono (by decide)
      exact Payload.arrivesAs_of_shape? hfault hshallow c.ofDocument?_toDocument hfault ..
    · have hshallow : (Payload.render a).IsShallow 126 := (a.isShallow_toDocument hreason).mono (by decide)
      exact Payload.arrivesAs_of_shape? rfl hshallow a.ofDocument?_toDocument rfl ..
    · have hshallow : (Payload.render h).IsShallow 126 := h.isShallow_toDocument.mono (by decide)
      exact Payload.arrivesAs_of_shape? rfl hshallow h.ofDocument?_toDocument rfl ..

/-- A command in the form of an array, with a null for one action and no place for the other, and a refusal. -/
theorem commands_and_answers_arrive_positional :
    let d : Document := .array [.array [.ofUInt8 15, .ofUInt16 2048], .null]
    let c : Command := ⟨some ⟨15, 2048⟩, none, none⟩
    let a : Acknowledgement := ⟨7, false, some "below 3 °C"⟩
    let h : Heartbeat := ⟨60000⟩
    Payload.ofDocument Command d = .ok c ∧
      (∃ written, Payload.toDocument c = .ok written ∧ Payload.ofDocument Command written = .ok c) ∧
      Payload.ArrivesAs true 1700000000000 7 c c ∧ Payload.ArrivesAs false 1700000000001 8 a a ∧
      Payload.ArrivesAs true 1700000000002 9 h h := by
  intro d c a h
  have hread : Payload.ofDocument Command d = .ok c := by
    refine Payload.ofDocument_eq_ok_iff.mpr ⟨?_, by decide⟩
    have hduty : DutyAction.ofDocument? (.array [.ofUInt8 15, .ofUInt16 2048]) = some ⟨15, 2048⟩ := by
      simp -implicitDefEqProofs [DutyAction.ofDocument?, Shape.fields?, Shape.required]
    have hfields : Shape.fields? ["set_pwm", "pwm_freq", "write_gpio"] d =
        some [some (.array [.ofUInt8 15, .ofUInt16 2048]), some .null, none] := rfl
    change Command.ofDocument? d = some c
    simp -implicitDefEqProofs [Command.ofDocument?, hfields, Shape.optional, hduty, c]
  obtain ⟨hexecutable, hwritten⟩ := commands_and_answers_arrive.1 d c hread
  have harrive := commands_and_answers_arrive.2
  exact ⟨hread, hwritten, (harrive true _ _).1 c hexecutable,
    (harrive false _ _).2.1 a (by rintro reason ⟨⟩; decide), (harrive true _ _).2.2 h⟩

end FieldLink
