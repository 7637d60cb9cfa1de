import FieldLink.Proofs.TelemetryInverse
import Mathlib.Data.List.Forall2

/-!
# Telemetry that was accepted, written out again

A number beyond the range of singles is accepted as an infinite reading, which is written as null and not
accepted a second time; all other telemetry that was accepted is.
-/

namespace FieldLink

namespace FloatFormat

/-- The least double beyond the range of singles: `2 ^ 128 - 2 ^ 103`, the midpoint after the largest single. -/
def beyondSingles : Nat := 0x47EFFFFFF0000000

theorem nearest_single_lt_infinity_iff (index : Nat) :
    single.nearest (double.units index) (2 ^ double.scale) < single.infinity ↔ index < beyondSingles := by
  have hmidpoint : single.midpoint (single.infinity - 1) * 2 ^ double.scale =
      2 * (double.units beyondSingles * 2 ^ single.scale) := by decide +kernel
  have hodd : (single.infinity - 1) % 2 ≠ 0 := by decide
  have hlast : single.infinity = single.infinity - 1 + 1 := by decide
  rw [hlast, Nat.lt_succ_iff, nearest_le_iff (by decide) _ (Nat.two_pow_pos _), hmidpoint,
    or_iff_left fun heq => hodd heq.2, Nat.mul_lt_mul_left Nat.two_pos,
    Nat.mul_lt_mul_right (Nat.two_pow_pos _), double.units_strictMono.lt_iff_lt]

private theorem nearest_single_integer_lt_infinity (n : Integer) : single.nearest n.val.natAbs 1 < single.infinity := by
  have hunits : single.units 0x5F800000 = 2 ^ 64 * 2 ^ single.scale := by decide +kernel
  have hbound : n.val.natAbs ≤ 2 ^ 64 := by
    have hlower := n.lower
    have hupper := n.upper
    omega
  have hle : single.nearest n.val.natAbs 1 ≤ 0x5F800000 := by
    apply nearest_le_of_le_units (by decide) Nat.one_pos
    rw [hunits, Nat.mul_one]
    exact Nat.mul_le_mul_right _ hbound
  exact Nat.lt_of_le_of_lt hle (by decide)

end FloatFormat

/-- A number beyond the range of singles. -/
def Document.IsBeyondSingles : Document → Prop
  | .float x => FloatFormat.beyondSingles ≤ x.index
  | _ => False

namespace Reading

theorem isFinite_round_iff (negative : Bool) (n d : Nat) :
    IsFinite (.round .single negative n d) ↔ FloatFormat.single.nearest n d < FloatFormat.single.infinity := by
  rw [FloatValue.round, FloatValue.ofIndex]
  split
  · exact iff_of_true ⟨_, rfl⟩ (by omega)
  · refine iff_of_false ?_ (by omega)
    rintro ⟨s, hs⟩
    split at hs <;> cases hs

private theorem isFinite_iff_of_ofDocument? {d : Document} {x : Reading} (h : ofDocument? d = some x) :
    x.IsFinite ↔ ¬d.IsBeyondSingles := by
  cases d with
  | integer n =>
    have hread : ofDocument? (.integer n) = some (.round .single (n.val < 0) n.val.natAbs 1) := rfl
    rw [hread, Option.some.injEq] at h
    rw [← h, isFinite_round_iff]
    exact iff_of_true (FloatFormat.nearest_single_integer_lt_infinity n) id
  | float y =>
    have hread : ofDocument? (.float y) = some (.convert .single (.finite y)) := rfl
    rw [hread, Option.some.injEq] at h
    rw [← h, FloatValue.convert, isFinite_round_iff, FloatFormat.nearest_single_lt_infinity_iff,
      Document.IsBeyondSingles, Nat.not_le]
  | _ => cases h

end Reading

private theorem Shape.forall₂_of_list? {α : Type} {read : Document → Option α} {d : Document} {xs : List α}
    (h : Shape.list? read d = some xs) :
    ∃ items, d = .array items ∧ List.Forall₂ (fun item x => read item = some x) items xs := by
  cases d with
  | array items =>
    refine ⟨items, rfl, ?_⟩
    rw [Shape.list?] at h
    induction items generalizing xs with
    | nil =>
      cases h
      exact .nil
    | cons item items ih =>
      rw [List.mapM_cons] at h
      obtain ⟨x, hx, hrest⟩ := Option.bind_eq_some_iff.mp h
      obtain ⟨rest, hitems, hjoined⟩ := Option.bind_eq_some_iff.mp hrest
      cases hjoined
      exact .cons hx (ih hitems)
  | _ => cases h

private theorem Shape.exists_of_required {α : Type} {read : Document → Option α} {field : Option Document} {x : α}
    (h : Shape.required read field = some x) : ∃ d, field = some d ∧ read d = some x :=
  Option.bind_eq_some_iff.mp h

namespace HumidityReading

def numbers (d : Document) : List Document :=
  match Shape.fields? ["id", "t", "rh", "ok"] d with
  | some [_, some temperature, some humidity, _] => [temperature, humidity]
  | _ => []

private theorem forall₂_numbers {d : Document} {r : HumidityReading} (h : ofDocument? d = some r) :
    List.Forall₂ (fun number x => Reading.ofDocument? number = some x) (numbers d) [r.temperature, r.humidity] := by
  simp only [ofDocument?, Option.bind_eq_bind, Option.bind_eq_some_iff] at h
  obtain ⟨fields, hfields, h⟩ := h
  split at h
  · next id temperature humidity valid =>
    simp only [Option.pure_def, Option.bind_eq_some_iff] at h
    obtain ⟨_, -, readTemperature, htemperature, readHumidity, hhumidity, _, -, hr⟩ := h
    cases hr
    obtain ⟨t, rfl, ht⟩ := Shape.exists_of_required htemperature
    obtain ⟨rh, rfl, hrh⟩ := Shape.exists_of_required hhumidity
    rw [numbers, hfields]
    exact .cons ht (.cons hrh .nil)
  · cases h

end HumidityReading
namespace TemperatureReading

def numbers (d : Document) : List Document :=
  match Shape.fields? ["rom", "t"] d with
  | some [_, some temperature] => [temperature]
  | _ => []

private theorem forall₂_numbers {d : Document} {r : TemperatureReading} (h : ofDocument? d = some r) :
    List.Forall₂ (fun number x => Reading.ofDocument? number = some x) (numbers d) [r.temperature] := by
  simp only [ofDocument?, Option.bind_eq_bind, Option.bind_eq_some_iff] at h
  obtain ⟨fields, hfields, h⟩ := h
  split at h
  · next rom temperature =>
    simp only [Option.pure_def, Option.bind_eq_some_iff] at h
    obtain ⟨_, -, readTemperature, htemperature, hr⟩ := h
    cases hr
    obtain ⟨t, rfl, ht⟩ := Shape.exists_of_required htemperature
    rw [numbers, hfields]
    exact .cons ht .nil
  · cases h

end TemperatureReading

namespace Telemetry

/-- The numbers that stand in the places of all readings. -/
def numbers (d : Document) : List Document :=
  match Shape.fields? ["sht20", "ds18b20", "gpio", "pwm"] d with
  | some [some (.array humidity), some (.array temperature), _, _] =>
    humidity.flatMap HumidityReading.numbers ++ temperature.flatMap TemperatureReading.numbers
  | _ => []

private theorem forall₂_numbers {d : Document} {t : Telemetry} (h : ofDocument? d = some t) :
    List.Forall₂ (fun number x => Reading.ofDocument? number = some x) (numbers d) t.readings := by
  simp only [ofDocument?, Option.bind_eq_bind, Option.bind_eq_some_iff] at h
  obtain ⟨fields, hfields, h⟩ := h
  split at h
  · next humidity temperature ports pwm =>
    simp only [Option.pure_def, Option.bind_eq_some_iff] at h
    obtain ⟨readHumidity, hhumidity, readTemperature, htemperature, _, -, _, -, ht⟩ := h
    cases ht
    obtain ⟨humidityList, rfl, hhumidityList⟩ := Shape.exists_of_required hhumidity
    obtain ⟨temperatureList, rfl, htemperatureList⟩ := Shape.exists_of_required htemperature
    obtain ⟨humidityItems, rfl, hhumidityItems⟩ := Shape.forall₂_of_list? hhumidityList
    obtain ⟨temperatureItems, rfl, htemperatureItems⟩ := Shape.forall₂_of_list? htemperatureList
    rw [numbers, hfields, readings, List.map_eq_flatMap]
    apply List.rel_append
    · exact List.rel_flatMap hhumidityItems fun _ _ => HumidityReading.forall₂_numbers
    · exact List.rel_flatMap htemperatureItems fun _ _ => TemperatureReading.forall₂_numbers
  · cases h

theorem readings_isFinite_iff {d : Document} {t : Telemetry} (h : ofDocument? d = some t) :
    (∀ x ∈ t.readings, x.IsFinite) ↔ ∀ number ∈ numbers d, ¬number.IsBeyondSingles := by
  have hall := forall₂_numbers h
  generalize t.readings = readings at hall ⊢
  generalize numbers d = numbers at hall ⊢
  induction hall with
  | nil => simp
  | cons hread hrest ih =>
    rw [List.forall_mem_cons, List.forall_mem_cons]
    exact and_congr (Reading.isFinite_iff_of_ofDocument? hread) ih

end Telemetry

private theorem Reading.ofDocument?_toDocument_eq_none {x : Reading} (h : ¬x.IsFinite) :
    ofDocument? x.toDocument = none := by
  cases x with
  | finite s => exact absurd ⟨s, rfl⟩ h
  | infinite negative => rfl
  | invalid => rfl

private theorem Shape.list?_eq_none {α : Type} {read : Document → Option α} {items : List Document} {d : Document}
    (hd : d ∈ items) (h : read d = none) : Shape.list? read (.array items) = none := by
  rw [Shape.list?]
  induction items with
  | nil => cases hd
  | cons item items ih =>
    rw [List.mapM_cons]
    rcases List.mem_cons.mp hd with rfl | hrest
    · rw [h]
      rfl
    · rw [ih hrest]
      cases read item <;> rfl

private theorem HumidityReading.ofDocument?_toDocument_eq_none {r : HumidityReading}
    (h : ¬r.temperature.IsFinite ∨ ¬r.humidity.IsFinite) : ofDocument? r.toDocument = none := by
  rcases h with htemperature | hhumidity
  · simp [ofDocument?, fields?_toDocument, Shape.required, Document.text?,
      Reading.ofDocument?_toDocument_eq_none htemperature]
  · cases htemperature : Reading.ofDocument? r.temperature.toDocument with
    | none => simp [ofDocument?, fields?_toDocument, Shape.required, Document.text?, htemperature]
    | some temperature =>
      simp [ofDocument?, fields?_toDocument, Shape.required, Document.text?, htemperature,
        Reading.ofDocument?_toDocument_eq_none hhumidity]

private theorem TemperatureReading.ofDocument?_toDocument_eq_none {r : TemperatureReading}
    (h : ¬r.temperature.IsFinite) : ofDocument? r.toDocument = none := by
  simp [ofDocument?, fields?_toDocument, Shape.required, RomCode.ofDocument?_toDocument,
    Reading.ofDocument?_toDocument_eq_none h]

namespace Telemetry

private theorem ofDocument?_toDocument_eq_none {t : Telemetry} (h : ¬∀ x ∈ t.readings, x.IsFinite) :
    ofDocument? t.toDocument = none := by
  push Not at h
  obtain ⟨x, hx, hinfinite⟩ := h
  rcases List.mem_append.mp hx with hhumidity | htemperature
  · obtain ⟨r, hr, hin⟩ := List.mem_flatMap.mp hhumidity
    have hnone : Shape.list? HumidityReading.ofDocument? (.array (t.humidity.map (·.toDocument))) = none := by
      apply Shape.list?_eq_none (List.mem_map_of_mem hr)
      apply HumidityReading.ofDocument?_toDocument_eq_none
      rcases List.mem_pair.mp hin with rfl | rfl
      · exact .inl hinfinite
      · exact .inr hinfinite
    simp -implicitDefEqProofs [ofDocument?, fields?_toDocument, Shape.required, hnone]
  · obtain ⟨r, hr, rfl⟩ := List.mem_map.mp htemperature
    have hnone : Shape.list? TemperatureReading.ofDocument? (.array (t.temperature.map (·.toDocument))) = none :=
      Shape.list?_eq_none (List.mem_map_of_mem hr) (TemperatureReading.ofDocument?_toDocument_eq_none hinfinite)
    cases hhumidity : Shape.list? HumidityReading.ofDocument? (.array (t.humidity.map (·.toDocument))) with
    | none => simp -implicitDefEqProofs [ofDocument?, fields?_toDocument, Shape.required, hhumidity]
    | some humidity => simp -implicitDefEqProofs [ofDocument?, fields?_toDocument, Shape.required, hhumidity, hnone]

/-- Telemetry that was accepted, from a document of whatever shape, has no more readings than it may have and is
written again. If no number in the place of a reading is beyond the range of singles, what is written is accepted again,
with what each reading arrives as; otherwise there is a null in it, and it is refused. -/
theorem relay_of_accepted {d : Document} {t : Telemetry} (h : Payload.ofDocument Telemetry d = .ok t) :
    t.humidity.length ≤ 2 ∧ t.temperature.length ≤ 4 ∧ ∃ written, Payload.toDocument t = .ok written ∧
      ((∀ number ∈ numbers d, ¬number.IsBeyondSingles) → Payload.ofDocument Telemetry written = .ok t.delivered) ∧
      ((∃ number ∈ numbers d, number.IsBeyondSingles) →
        Payload.ofDocument Telemetry written = .error (.invalidPayload .telemetry .shape)) := by
  obtain ⟨hshape, hfault⟩ := Payload.ofDocument_eq_ok_iff.mp h
  obtain ⟨hhumidity, htemperature⟩ := t.fault?_eq_none_iff.mp hfault
  have hfinite := readings_isFinite_iff hshape
  refine ⟨hhumidity, htemperature, _, Payload.toDocument_of_fault? hfault, fun hwithin => ?_, fun hbeyond => ?_⟩
  · have hback : t.delivered.fault? = none := by
      rw [fault?_delivered]
      exact hfault
    exact Payload.ofDocument_eq_ok_iff.mpr ⟨ofDocument?_toDocument (hfinite.mpr hwithin), hback⟩
  · obtain ⟨number, hmem, hnumber⟩ := hbeyond
    have hinfinite : ¬∀ x ∈ t.readings, x.IsFinite := fun hall => hfinite.mp hall number hmem hnumber
    exact Payload.ofDocument_of_shape?_eq_none (ofDocument?_toDocument_eq_none hinfinite)

/-- One humidity sensor, as arrays without names, and a whole number for its temperature. -/
theorem relay_of_accepted_positional :
    let ports : PortBanks := ⟨⟨1, 2⟩, ⟨3, 4⟩⟩
    let pwm : PwmState := ⟨1000, .replicate 16 2048⟩
    let d : Document := .array [.array [.array [.text "mux0", .integer ⟨21, by decide, by decide⟩,
      .float ⟨false, 0x4046C00000000000, by decide⟩, .bool true]], .array [], ports.toDocument, pwm.toDocument]
    let t : Telemetry := {
      humidity := [⟨"mux0", .finite ⟨false, 0x41A80000, by decide⟩, .finite ⟨false, 0x42360000, by decide⟩, true⟩]
      temperature := [], ports, pwm }
    Payload.ofDocument Telemetry d = .ok t ∧
      ∃ written, Payload.toDocument t = .ok written ∧ Payload.ofDocument Telemetry written = .ok t := by
  intro ports pwm d t
  have htemperature : Reading.ofDocument? (.integer ⟨21, by decide, by decide⟩) =
      some (.finite ⟨false, 0x41A80000, by decide⟩) := by decide +kernel
  have hhumidity : Reading.ofDocument? (.float ⟨false, 0x4046C00000000000, by decide⟩) =
      some (.finite ⟨false, 0x42360000, by decide⟩) := by decide +kernel
  have hsensor : HumidityReading.ofDocument? (.array [.text "mux0", .integer ⟨21, by decide, by decide⟩,
      .float ⟨false, 0x4046C00000000000, by decide⟩, .bool true]) = t.humidity[0]? := by
    simp [HumidityReading.ofDocument?, Shape.fields?, Shape.required, Document.text?, Document.bool?, htemperature,
      hhumidity, t]
  have hread : Payload.ofDocument Telemetry d = .ok t := by
    refine Payload.ofDocument_eq_ok_iff.mpr ⟨?_, rfl⟩
    change ofDocument? d = some t
    simp -implicitDefEqProofs [ofDocument?, d, Shape.fields?, Shape.required, Shape.list?, hsensor,
      PortBanks.ofDocument?_toDocument, PwmState.ofDocument?_toDocument, t]
  obtain ⟨-, -, written, hwritten, haccepted, -⟩ := relay_of_accepted hread
  have hwithin : ∀ number ∈ numbers d, ¬number.IsBeyondSingles := by
    have hnumbers : numbers d = [.integer ⟨21, by decide, by decide⟩, .float ⟨false, 0x4046C00000000000, by decide⟩] :=
      rfl
    simp [hnumbers, Document.IsBeyondSingles, FloatFormat.beyondSingles]
  have hreadings : t.readings = [.finite ⟨false, 0x41A80000, by decide⟩, .finite ⟨false, 0x42360000, by decide⟩] := rfl
  have hkept : ∀ x ∈ t.readings, ¬x.IsMisread := by
    simp [hreadings, Reading.IsMisread, FloatFormat.misreadSingle]
  have hagain := haccepted hwithin
  rw [t.delivered_eq_self_iff.mpr hkept] at hagain
  exact ⟨hread, written, hwritten, hagain⟩

/-- The number `1e39` is accepted as a reading and comes out as null. -/
theorem infinite_reading_is_refused :
    let ports : PortBanks := ⟨⟨1, 2⟩, ⟨3, 4⟩⟩
    let pwm : PwmState := ⟨1000, .replicate 16 2048⟩
    let probe : Document :=
      .object [("rom", .text "28FF641E8A3B045C"), ("t", .float ⟨false, 0x48078287F49C4A1D, by decide⟩)]
    let d : Document := .object [("sht20", .array []), ("ds18b20", .array [probe]), ("gpio", ports.toDocument),
      ("pwm", pwm.toDocument)]
    ∃ t written, Payload.ofDocument Telemetry d = .ok t ∧ Payload.toDocument t = .ok written ∧
      Payload.ofDocument Telemetry written = .error (.invalidPayload .telemetry .shape) := by
  intro ports pwm probe d
  have hreading : Reading.ofDocument? (.float ⟨false, 0x48078287F49C4A1D, by decide⟩) = some (.infinite false) := by
    decide +kernel
  let rom : RomCode := ⟨#[0x28, 0xFF, 0x64, 0x1E, 0x8A, 0x3B, 0x04, 0x5C], rfl⟩
  let t : Telemetry := { humidity := [], temperature := [⟨rom, .infinite false⟩], ports, pwm }
  have hrom : RomCode.ofDocument? (.text "28FF641E8A3B045C") = some rom := by decide +kernel
  have hprobeFields : Shape.fields? ["rom", "t"] probe = some [some (.text "28FF641E8A3B045C"),
      some (.float ⟨false, 0x48078287F49C4A1D, by decide⟩)] := rfl
  have hprobe : TemperatureReading.ofDocument? probe = some ⟨rom, .infinite false⟩ := by
    simp [TemperatureReading.ofDocument?, hprobeFields, Shape.required, hrom, hreading]
  have hfields : Shape.fields? ["sht20", "ds18b20", "gpio", "pwm"] d = some [some (.array []),
      some (.array [probe]), some ports.toDocument, some pwm.toDocument] := rfl
  have hread : ofDocument? d = some t := by
    simp -implicitDefEqProofs [ofDocument?, hfields, Shape.required, Shape.list?, hprobe,
      PortBanks.ofDocument?_toDocument, PwmState.ofDocument?_toDocument, t]
  have hfault : t.fault? = none := rfl
  refine ⟨t, _, Payload.ofDocument_eq_ok_iff.mpr ⟨hread, hfault⟩, Payload.toDocument_of_fault? hfault, ?_⟩
  have hinfinite : ¬∀ x ∈ t.readings, x.IsFinite := by
    intro hall
    obtain ⟨s, ⟨⟩⟩ := hall (.infinite false) List.mem_cons_self
  exact Payload.ofDocument_of_shape?_eq_none (ofDocument?_toDocument_eq_none hinfinite)

end Telemetry

end FieldLink
