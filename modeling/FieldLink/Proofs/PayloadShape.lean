import FieldLink.Command
import FieldLink.Proofs.DocumentShape

/-!
# Names in the documents of payloads

The documents of typed payloads have no name twice in an object.
-/

namespace FieldLink

/-- Payloads that are written without repeating a name in an object. -/
class DistinctPayload (α : Type) [Payload α] : Prop where
  hasDistinctNames (value : α) : (Payload.render value).HasDistinctNames

namespace Payload

variable {α : Type} [Payload α] {value read : α} {d : Document}

theorem check_eq_ok_iff : check read = .ok value ↔ read = value ∧ fault? value = none := by
  rw [check]
  cases hfault : fault? read with
  | none =>
    rw [Except.ok.injEq]
    exact ⟨fun heq => ⟨heq, heq ▸ hfault⟩, And.left⟩
  | some fault =>
    refine iff_of_false (by rintro ⟨⟩) ?_
    rintro ⟨rfl, hvalue⟩
    rw [hfault] at hvalue
    cases hvalue

theorem toDocument_of_fault? (h : fault? value = none) : toDocument value = .ok (render value) := by
  rw [toDocument, check_eq_ok_iff.mpr ⟨rfl, h⟩]
  rfl

/-- A payload that is written has no fault. -/
theorem fault?_of_toDocument (h : toDocument value = .ok d) : fault? value = none := by
  rw [toDocument, check] at h
  split at h
  · assumption
  · cases h

/-- A payload that is written is rendered as it is. -/
theorem eq_render_of_toDocument (h : toDocument value = .ok d) : d = render value := by
  rw [toDocument_of_fault? (fault?_of_toDocument h)] at h
  exact (Except.ok.inj h).symm

theorem ofDocument_eq_ok_iff : ofDocument α d = .ok value ↔ shape? d = some value ∧ fault? value = none := by
  rw [ofDocument, readShape]
  cases hshape : shape? (α := α) d with
  | none => exact iff_of_false (by rintro ⟨⟩) (by simp)
  | some read =>
    rw [Option.some.injEq]
    exact check_eq_ok_iff

theorem ofDocument_of_shape?_eq_none (h : shape? (α := α) d = none) :
    ofDocument α d = .error (.invalidPayload (kind α) .shape) := by
  rw [ofDocument, readShape, h]
  rfl

end Payload

private theorem Document.itemsHaveDistinctNames_map {α : Type} {render : α → Document}
    (h : ∀ x, (render x).HasDistinctNames) (xs : List α) : ItemsHaveDistinctNames (xs.map render) := by
  induction xs with
  | nil => trivial
  | cons x xs ih => exact ⟨h x, ih⟩

private theorem Document.hasDistinctNames_ofFloat? (x : FloatValue .double) : (ofFloat? x).HasDistinctNames := by
  cases x <;> trivial

theorem HumidityReading.hasDistinctNames_toDocument (r : HumidityReading) : r.toDocument.HasDistinctNames :=
  ⟨show ["id", "t", "rh", "ok"].Nodup by decide, trivial, Document.hasDistinctNames_ofFloat? _,
    Document.hasDistinctNames_ofFloat? _, trivial, trivial⟩

theorem TemperatureReading.hasDistinctNames_toDocument (r : TemperatureReading) :
    r.toDocument.HasDistinctNames :=
  ⟨show ["rom", "t"].Nodup by decide, trivial, Document.hasDistinctNames_ofFloat? _, trivial⟩

theorem Ports.hasDistinctNames_toDocument (p : Ports) : p.toDocument.HasDistinctNames :=
  ⟨show ["A", "B"].Nodup by decide, trivial, trivial, trivial⟩

theorem PortBanks.hasDistinctNames_toDocument (b : PortBanks) : b.toDocument.HasDistinctNames :=
  ⟨show ["mcp0", "mcp1"].Nodup by decide, b.first.hasDistinctNames_toDocument,
    b.second.hasDistinctNames_toDocument, trivial⟩

theorem PwmState.hasDistinctNames_toDocument (s : PwmState) : s.toDocument.HasDistinctNames := by
  have hduty (n : UInt16) : (Document.ofUInt16 n).HasDistinctNames := trivial
  exact ⟨show ["pca9685"].Nodup by decide, ⟨show ["freq", "duty"].Nodup by decide, trivial,
    Document.itemsHaveDistinctNames_map hduty _, trivial⟩, trivial⟩

instance : DistinctPayload Telemetry where
  hasDistinctNames t :=
    ⟨show ["sht20", "ds18b20", "gpio", "pwm"].Nodup by decide,
      Document.itemsHaveDistinctNames_map HumidityReading.hasDistinctNames_toDocument _,
      Document.itemsHaveDistinctNames_map TemperatureReading.hasDistinctNames_toDocument _,
      t.ports.hasDistinctNames_toDocument, t.pwm.hasDistinctNames_toDocument, trivial⟩

theorem DutyAction.hasDistinctNames_toDocument (a : DutyAction) : a.toDocument.HasDistinctNames :=
  ⟨show ["ch", "duty"].Nodup by decide, trivial, trivial, trivial⟩

theorem FrequencyAction.hasDistinctNames_toDocument (a : FrequencyAction) : a.toDocument.HasDistinctNames :=
  ⟨show ["freq"].Nodup by decide, trivial, trivial⟩

theorem PortAction.hasDistinctNames_toDocument (a : PortAction) : a.toDocument.HasDistinctNames :=
  ⟨show ["dev", "port", "mask", "value"].Nodup by decide, trivial, trivial, trivial, trivial, trivial⟩

/-- A member that may be left out has its one name and a value without repeated names. -/
theorem Document.optionalMember {α : Type} {render : α → Document} (h : ∀ x, (render x).HasDistinctNames)
    (name : String) (x : Option α) :
    ((x.map fun a => (name, render a)).toList.map Prod.fst).Sublist [name] ∧
      MembersHaveDistinctNames (x.map fun a => (name, render a)).toList := by
  cases x with
  | none => exact ⟨List.nil_sublist _, trivial⟩
  | some x => exact ⟨List.Sublist.refl _, h x, trivial⟩

private theorem Document.membersHaveDistinctNames_append {front back : List (String × Document)}
    (hfront : MembersHaveDistinctNames front) (hback : MembersHaveDistinctNames back) :
    MembersHaveDistinctNames (front ++ back) := by
  induction front with
  | nil => exact hback
  | cons member front ih => exact ⟨hfront.1, ih hfront.2⟩

/-- The members of a command are named for its actions and stand in their order. -/
theorem Command.names_sublist {c : Command} {members : List (String × Document)} (h : c.toDocument = .object members) :
    (members.map Prod.fst).Sublist ["set_pwm", "pwm_freq", "write_gpio"] := by
  have hduty := (Document.optionalMember DutyAction.hasDistinctNames_toDocument "set_pwm" c.duty).1
  have hfrequency := (Document.optionalMember FrequencyAction.hasDistinctNames_toDocument "pwm_freq" c.frequency).1
  have hport := (Document.optionalMember PortAction.hasDistinctNames_toDocument "write_gpio" c.port).1
  cases h
  rw [List.map_append, List.map_append]
  exact (hduty.append hfrequency).append hport

instance : DistinctPayload Command where
  hasDistinctNames c := by
    have hduty := (Document.optionalMember DutyAction.hasDistinctNames_toDocument "set_pwm" c.duty).2
    have hfrequency := (Document.optionalMember FrequencyAction.hasDistinctNames_toDocument "pwm_freq" c.frequency).2
    have hport := (Document.optionalMember PortAction.hasDistinctNames_toDocument "write_gpio" c.port).2
    have hnames : ["set_pwm", "pwm_freq", "write_gpio"].Nodup := by decide
    exact ⟨hnames.sublist (Command.names_sublist (c := c) rfl), Document.membersHaveDistinctNames_append
      (Document.membersHaveDistinctNames_append hduty hfrequency) hport⟩

instance : DistinctPayload Acknowledgement where
  hasDistinctNames a := by
    obtain ⟨sequence, ok, reason⟩ := a
    cases reason with
    | none => exact ⟨show ["ref_seq", "ok"].Nodup by decide, trivial, trivial, trivial⟩
    | some reason => exact ⟨show ["ref_seq", "ok", "reason"].Nodup by decide, trivial, trivial, trivial, trivial⟩

instance : DistinctPayload Heartbeat where
  hasDistinctNames _ := ⟨show ["uptime_ms"].Nodup by decide, trivial, trivial⟩

end FieldLink
