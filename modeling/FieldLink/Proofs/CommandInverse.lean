import FieldLink.Proofs.PayloadShape

/-!
# Commands and their documents

A command is read from its document as it was written, and its document is shallow and short, so that either
wire format carries it whole.
-/

namespace FieldLink

namespace Document

@[simp] theorem uint16?_ofUInt16 (n : UInt16) : (ofUInt16 n).uint16? = some n := by
  have hlt : n.toUInt64.toNat < 2 ^ 16 := by
    rw [UInt16.toNat_toUInt64]
    exact n.toNat_lt
  rw [ofUInt16, uint16?, natural?_ofUInt64 hlt, Option.map_some, UInt16.toNat_toUInt64, UInt16.ofNat_toNat]

@[simp] theorem uint8?_ofUInt8 (n : UInt8) : (ofUInt8 n).uint8? = some n := by
  have hlt : n.toUInt64.toNat < 2 ^ 8 := by
    rw [UInt8.toNat_toUInt64]
    exact n.toNat_lt
  rw [ofUInt8, uint8?, natural?_ofUInt64 hlt, Option.map_some, UInt8.toNat_toUInt64, UInt8.ofNat_toNat]

end Document

/-- A field that may be left out is read as it was written, if what is written is never null. -/
theorem Shape.optional_map {α : Type} {read : Document → Option α} {render : α → Document}
    (hread : ∀ x, read (render x) = some x) (hrender : ∀ x, render x ≠ .null) (x : Option α) :
    Shape.optional read (x.map render) = some x := by
  cases x with
  | none => rfl
  | some x =>
    rw [Option.map_some, Shape.optional]
    · rw [hread, Option.map_some]
    · exact hrender x

theorem Expander.ofName?_name (e : Expander) : ofName? e.name = some e := by
  cases e <;> rfl

theorem Port.ofName?_name (p : Port) : ofName? p.name = some p := by
  cases p <;> rfl

theorem Expander.ofName?_eq_some_iff {text : String} {e : Expander} : ofName? text = some e ↔ text = e.name := by
  constructor
  · intro h
    cases e <;> grind [ofName?, name]
  · rintro rfl
    exact e.ofName?_name

theorem Port.ofName?_eq_some_iff {text : String} {p : Port} : ofName? text = some p ↔ text = p.name := by
  constructor
  · intro h
    cases p <;> grind [ofName?, name]
  · rintro rfl
    exact p.ofName?_name

-- The numbers are read below bounds that a check by computation would unfold: in what follows `simp` must prove its
-- steps and may not leave them to be computed.

theorem DutyAction.ofDocument?_toDocument (a : DutyAction) : ofDocument? a.toDocument = some a := by
  have hfields : Shape.fields? ["ch", "duty"] a.toDocument =
      some [some (.ofUInt8 a.channel), some (.ofUInt16 a.duty)] := rfl
  simp -implicitDefEqProofs [ofDocument?, hfields, Shape.required]

theorem FrequencyAction.ofDocument?_toDocument (a : FrequencyAction) : ofDocument? a.toDocument = some a := by
  have hfields : Shape.fields? ["freq"] a.toDocument = some [some (.ofUInt16 a.frequency)] := rfl
  simp -implicitDefEqProofs [ofDocument?, hfields, Shape.required]

theorem PortAction.ofDocument?_toDocument (a : PortAction) : ofDocument? a.toDocument = some a := by
  have hfields : Shape.fields? ["dev", "port", "mask", "value"] a.toDocument = some [some (.text a.expander.name),
    some (.text a.port.name), some (.ofUInt16 a.mask), some (.ofUInt16 a.value)] := rfl
  simp -implicitDefEqProofs [ofDocument?, hfields, Shape.required, Expander.ofDocument?, Port.ofDocument?, Shape.name?,
    Expander.ofName?_name, Port.ofName?_name]

namespace Command

theorem fields?_toDocument (c : Command) : Shape.fields? ["set_pwm", "pwm_freq", "write_gpio"] c.toDocument =
    some [c.duty.map DutyAction.toDocument, c.frequency.map FrequencyAction.toDocument,
      c.port.map PortAction.toDocument] := by
  obtain ⟨duty, frequency, port⟩ := c
  cases duty <;> cases frequency <;> cases port <;> rfl

/-- Each action of a command is the member of its name, and there are no others. -/
theorem members_of_toDocument {c : Command} {members : List (String × Document)} (h : c.toDocument = .object members) :
    (members.map Prod.fst).Sublist ["set_pwm", "pwm_freq", "write_gpio"] ∧
      members.lookup "set_pwm" = c.duty.map DutyAction.toDocument ∧
      members.lookup "pwm_freq" = c.frequency.map FrequencyAction.toDocument ∧
      members.lookup "write_gpio" = c.port.map PortAction.toDocument := by
  have hfields := c.fields?_toDocument
  rw [h] at hfields
  exact ⟨names_sublist h, by simpa [Shape.fields?] using hfields⟩

theorem ofDocument?_toDocument (c : Command) : ofDocument? c.toDocument = some c := by
  have hduty := Shape.optional_map DutyAction.ofDocument?_toDocument (by simp [DutyAction.toDocument]) c.duty
  have hfrequency :=
    Shape.optional_map FrequencyAction.ofDocument?_toDocument (by simp [FrequencyAction.toDocument]) c.frequency
  have hport := Shape.optional_map PortAction.ofDocument?_toDocument (by simp [PortAction.toDocument]) c.port
  simp [ofDocument?, fields?_toDocument, hduty, hfrequency, hport]

end Command

/-- What was written as a command is read as that command. -/
theorem Payload.ofDocument_of_toDocument {c : Command} {d : Document} (h : toDocument c = .ok d) :
    ofDocument Command d = .ok c := by
  rw [eq_render_of_toDocument h]
  exact ofDocument_eq_ok_iff.mpr ⟨c.ofDocument?_toDocument, fault?_of_toDocument h⟩

namespace Document

/-- A document no deeper than `depth` whose lengths fit 64 bits. -/
structure IsShallow (depth : Nat) (d : Document) : Prop where
  depth_le : d.depth ≤ depth
  fits : d.Fits

/-- Members of a shallow object. -/
structure AreShallow (depth : Nat) (members : List (String × Document)) : Prop where
  depth_le : membersDepth members ≤ depth
  fits : MembersFit members

private theorem areShallow_append {depth : Nat} {front back : List (String × Document)}
    (hfront : AreShallow depth front) (hback : AreShallow depth back) : AreShallow depth (front ++ back) := by
  induction front with
  | nil => exact hback
  | cons member front ih =>
    obtain ⟨hdepth, hname, hfits, hrest⟩ := hfront
    rw [membersDepth, Nat.max_le] at hdepth
    obtain ⟨hdepths, hall⟩ := ih ⟨hdepth.2, hrest⟩
    exact ⟨Nat.max_le.mpr ⟨hdepth.1, hdepths⟩, hname, hfits, hall⟩

private theorem areShallow_optional {α : Type} {render : α → Document} {depth : Nat}
    (h : ∀ x, (render x).IsShallow depth) (name : String) (hname : FitsMemory name) (x : Option α) :
    AreShallow depth (x.map fun a => (name, render a)).toList := by
  cases x with
  | none => exact ⟨Nat.zero_le _, trivial⟩
  | some x => exact ⟨Nat.max_le.mpr ⟨(h x).depth_le, Nat.zero_le _⟩, hname, (h x).fits, trivial⟩

end Document

namespace Command

private theorem isShallow_duty (a : DutyAction) : a.toDocument.IsShallow 1 :=
  ⟨show 1 ≤ 1 by decide, show 2 < 2 ^ 64 by decide, show FitsMemory "ch" by decide, trivial,
    show FitsMemory "duty" by decide, trivial, trivial⟩

private theorem isShallow_frequency (a : FrequencyAction) : a.toDocument.IsShallow 1 :=
  ⟨show 1 ≤ 1 by decide, show 1 < 2 ^ 64 by decide, show FitsMemory "freq" by decide, trivial, trivial⟩

private theorem isShallow_port (a : PortAction) : a.toDocument.IsShallow 1 := by
  have hexpander : FitsMemory a.expander.name := by
    cases a.expander <;> decide
  have hport : FitsMemory a.port.name := by
    cases a.port <;> decide
  exact ⟨show 1 ≤ 1 by decide, show 4 < 2 ^ 64 by decide, show FitsMemory "dev" by decide, hexpander,
    show FitsMemory "port" by decide, hport, show FitsMemory "mask" by decide, trivial,
    show FitsMemory "value" by decide, trivial, trivial⟩

/-- The document of a command goes two levels down. -/
theorem isShallow_toDocument (c : Command) : c.toDocument.IsShallow 2 := by
  have hduty := Document.areShallow_optional isShallow_duty "set_pwm" (by decide) c.duty
  have hfrequency := Document.areShallow_optional isShallow_frequency "pwm_freq" (by decide) c.frequency
  have hport := Document.areShallow_optional isShallow_port "write_gpio" (by decide) c.port
  obtain ⟨hdepth, hfits⟩ := Document.areShallow_append (Document.areShallow_append hduty hfrequency) hport
  refine ⟨Nat.succ_le_succ hdepth, ?_, hfits⟩
  have hlength {α : Type} (x : Option α) : x.toList.length ≤ 1 := by
    cases x <;> simp
  have := hlength (c.duty.map fun a => ("set_pwm", a.toDocument))
  have := hlength (c.frequency.map fun a => ("pwm_freq", a.toDocument))
  have := hlength (c.port.map fun a => ("write_gpio", a.toDocument))
  simp only [List.length_append]
  omega

end Command
end FieldLink
