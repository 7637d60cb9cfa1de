import FieldLink.Proofs.DoubleRounding
import FieldLink.Proofs.PayloadDelivery
import FieldLink.Proofs.SignedCommands

/-!
# Telemetry from one end to the other

All of it arrives as it was sent but one single, of either sign, which every reading that holds it exchanges for
its neighbour.
-/

namespace FieldLink

namespace Reading

/-- A reading that holds the single whose digits are read as the next one. -/
def IsMisread (x : Reading) : Prop := ∃ s, x = .finite s ∧ s.index = FloatFormat.misreadSingle

/-- What a reading arrives as. -/
def delivered : Reading → Reading
  | .finite s =>
    if s.index = FloatFormat.misreadSingle then .ofIndex .single s.negative (FloatFormat.misreadSingle + 1)
    else .finite s
  | x => x

private theorem convert_shortestDecimal_eq_delivered (x : Reading) :
    FloatValue.convert .single (shortestDecimal x) = x.delivered := by
  cases x with
  | finite s =>
    by_cases hs : s.index = FloatFormat.misreadSingle
    · rw [convert_shortestDecimal_misread hs, delivered, if_pos hs]
    · rw [convert_shortestDecimal hs, delivered, if_neg hs]
  | infinite negative => rfl
  | invalid => rfl

theorem delivered_eq_self_iff (x : Reading) : x.delivered = x ↔ ¬x.IsMisread := by
  cases x with
  | finite s =>
    rw [delivered]
    split
    · next hs =>
      refine iff_of_false (fun heq => ?_) (fun hkept => hkept ⟨s, rfl, hs⟩)
      have hnext := FloatValue.index_of_ofIndex heq
      omega
    · next hs =>
      refine iff_of_true rfl ?_
      rintro ⟨other, heq, hother⟩
      cases heq
      exact hs hother
  | infinite negative => exact iff_of_true rfl (by rintro ⟨s, ⟨⟩, -⟩)
  | invalid => exact iff_of_true rfl (by rintro ⟨s, ⟨⟩, -⟩)

/-- A reading that is neither infinite nor invalid. -/
def IsFinite (x : Reading) : Prop := ∃ s, x = .finite s

theorem ofDocument?_toDocument {x : Reading} (h : x.IsFinite) : ofDocument? x.toDocument = some x.delivered := by
  obtain ⟨s, rfl⟩ := h
  obtain ⟨y, hy⟩ := exists_shortestDecimal s
  have hdelivered := convert_shortestDecimal_eq_delivered (.finite s)
  rw [hy] at hdelivered
  rw [toDocument, hy, ← hdelivered]
  rfl

theorem isShallow_toDocument (x : Reading) : x.toDocument.IsShallow 0 := by
  rw [toDocument]
  cases shortestDecimal x with
  | finite y => exact ⟨Nat.le_refl 0, trivial⟩
  | infinite negative => exact ⟨Nat.le_refl 0, trivial⟩
  | invalid => exact ⟨Nat.le_refl 0, trivial⟩

end Reading

private theorem Shape.list?_map {α β : Type} {read : Document → Option β} {render : α → Document} {back : α → β}
    {xs : List α} (h : ∀ x ∈ xs, read (render x) = some (back x)) :
    Shape.list? read (.array (xs.map render)) = some (xs.map back) := by
  rw [Shape.list?]
  induction xs with
  | nil => rfl
  | cons x xs ih =>
    have hrest := ih fun other hother => h other (List.mem_cons_of_mem x hother)
    rw [List.map_cons, List.mapM_cons, h x List.mem_cons_self, hrest]
    rfl

namespace Document

private theorem isShallow_array {depth : Nat} {items : List Document} (hlength : items.length < 2 ^ 64)
    (h : ∀ d ∈ items, d.IsShallow depth) : (array items).IsShallow (depth + 1) := by
  have hall : itemsDepth items ≤ depth ∧ ItemsFit items := by
    clear hlength
    induction items with
    | nil => exact ⟨Nat.zero_le _, trivial⟩
    | cons item items ih =>
      obtain ⟨hdepth, hfits⟩ := h item List.mem_cons_self
      obtain ⟨hdepths, hall⟩ := ih fun d hd => h d (List.mem_cons_of_mem item hd)
      exact ⟨Nat.max_le.mpr ⟨hdepth, hdepths⟩, hfits, hall⟩
  exact ⟨Nat.succ_le_succ hall.1, hlength, hall.2⟩

private theorem isShallow_object {depth : Nat} {members : List (String × Document)} (hlength : members.length < 2 ^ 64)
    (h : ∀ member ∈ members, FitsMemory member.1 ∧ member.2.IsShallow depth) :
    (object members).IsShallow (depth + 1) := by
  have hall : AreShallow depth members := by
    clear hlength
    induction members with
    | nil => exact ⟨Nat.zero_le _, trivial⟩
    | cons member members ih =>
      obtain ⟨hname, hdepth, hfits⟩ := h member List.mem_cons_self
      obtain ⟨hdepths, hall⟩ := ih fun d hd => h d (List.mem_cons_of_mem member hd)
      exact ⟨Nat.max_le.mpr ⟨hdepth, hdepths⟩, hname, hfits, hall⟩
  exact ⟨Nat.succ_le_succ hall.depth_le, hlength, hall.fits⟩

end Document

namespace HumidityReading

def delivered (r : HumidityReading) : HumidityReading :=
  { r with temperature := r.temperature.delivered, humidity := r.humidity.delivered }

theorem fields?_toDocument (r : HumidityReading) : Shape.fields? ["id", "t", "rh", "ok"] r.toDocument =
    some [some (.text r.id), some r.temperature.toDocument, some r.humidity.toDocument, some (.bool r.valid)] := rfl

theorem ofDocument?_toDocument {r : HumidityReading} (htemperature : r.temperature.IsFinite)
    (hhumidity : r.humidity.IsFinite) : ofDocument? r.toDocument = some r.delivered := by
  simp [ofDocument?, fields?_toDocument, Shape.required, Document.text?, Document.bool?,
    Reading.ofDocument?_toDocument htemperature, Reading.ofDocument?_toDocument hhumidity, delivered]

theorem delivered_eq_self_iff (r : HumidityReading) :
    r.delivered = r ↔ ¬r.temperature.IsMisread ∧ ¬r.humidity.IsMisread := by
  rw [← Reading.delivered_eq_self_iff, ← Reading.delivered_eq_self_iff]
  cases r
  simp [delivered]

theorem isShallow_toDocument {r : HumidityReading} (hid : FitsMemory r.id) : r.toDocument.IsShallow 1 := by
  refine Document.isShallow_object (by simp) ?_
  simp only [List.forall_mem_cons]
  exact ⟨⟨by decide, Nat.le_refl 0, hid⟩, ⟨by decide, r.temperature.isShallow_toDocument⟩,
    ⟨by decide, r.humidity.isShallow_toDocument⟩, ⟨by decide, Nat.le_refl 0, trivial⟩, by simp⟩

end HumidityReading

theorem RomCode.ofDocument?_toDocument (rom : RomCode) : ofDocument? rom.toDocument = some rom := by
  simp [ofDocument?, toDocument, Document.text?, Vector.toArray_toList]

namespace TemperatureReading

def delivered (r : TemperatureReading) : TemperatureReading := { r with temperature := r.temperature.delivered }

theorem fields?_toDocument (r : TemperatureReading) :
    Shape.fields? ["rom", "t"] r.toDocument = some [some r.rom.toDocument, some r.temperature.toDocument] := rfl

theorem ofDocument?_toDocument {r : TemperatureReading} (h : r.temperature.IsFinite) :
    ofDocument? r.toDocument = some r.delivered := by
  simp [ofDocument?, fields?_toDocument, Shape.required, RomCode.ofDocument?_toDocument,
    Reading.ofDocument?_toDocument h, delivered]

theorem delivered_eq_self_iff (r : TemperatureReading) : r.delivered = r ↔ ¬r.temperature.IsMisread := by
  rw [← Reading.delivered_eq_self_iff]
  cases r
  simp [delivered]

theorem isShallow_toDocument (r : TemperatureReading) : r.toDocument.IsShallow 1 := by
  have hrom : FitsMemory (Hexadecimal.encodeUpper r.rom.toList) := by
    apply Hexadecimal.fitsMemory_write
    rw [Vector.length_toList]
    decide
  refine Document.isShallow_object (by simp) ?_
  simp only [List.forall_mem_cons]
  exact ⟨⟨by decide, Nat.le_refl 0, hrom⟩, ⟨by decide, r.temperature.isShallow_toDocument⟩, by simp⟩

end TemperatureReading

theorem Ports.ofDocument?_toDocument (p : Ports) : ofDocument? p.toDocument = some p := by
  have hfields : Shape.fields? ["A", "B"] p.toDocument = some [some (.ofUInt16 p.a), some (.ofUInt16 p.b)] := rfl
  simp -implicitDefEqProofs [ofDocument?, hfields, Shape.required]

theorem PortBanks.ofDocument?_toDocument (b : PortBanks) : ofDocument? b.toDocument = some b := by
  have hfields : Shape.fields? ["mcp0", "mcp1"] b.toDocument =
      some [some b.first.toDocument, some b.second.toDocument] := rfl
  simp -implicitDefEqProofs [ofDocument?, hfields, Shape.required, Ports.ofDocument?_toDocument]

theorem Ports.isShallow_toDocument (p : Ports) : p.toDocument.IsShallow 1 :=
  ⟨show 1 ≤ 1 by decide, show 2 < 2 ^ 64 by decide, show FitsMemory "A" by decide, trivial,
    show FitsMemory "B" by decide, trivial, trivial⟩

theorem PortBanks.isShallow_toDocument (b : PortBanks) : b.toDocument.IsShallow 2 := by
  refine Document.isShallow_object (by simp) ?_
  simp only [List.forall_mem_cons]
  exact ⟨⟨by decide, b.first.isShallow_toDocument⟩, ⟨by decide, b.second.isShallow_toDocument⟩, by simp⟩

namespace PwmState

private theorem duty?_map (duty : Vector UInt16 channelCount) :
    duty? (.array (duty.toList.map .ofUInt16)) = some duty := by
  have hlist : Shape.list? Document.uint16? (.array (duty.toList.map .ofUInt16)) = some (duty.toList.map id) :=
    Shape.list?_map fun n _ => Document.uint16?_ofUInt16 n
  rw [List.map_id] at hlist
  simp [duty?, hlist, Vector.toArray_toList]

private theorem controller?_object (s : PwmState) :
    controller? (.object [("freq", .ofUInt16 s.frequency), ("duty", .array (s.duty.toList.map .ofUInt16))]) =
      some s := by
  have hfields : Shape.fields? ["freq", "duty"]
      (.object [("freq", .ofUInt16 s.frequency), ("duty", .array (s.duty.toList.map .ofUInt16))]) =
      some [some (.ofUInt16 s.frequency), some (.array (s.duty.toList.map .ofUInt16))] := rfl
  simp -implicitDefEqProofs [controller?, hfields, Shape.required, duty?_map]

theorem ofDocument?_toDocument (s : PwmState) : ofDocument? s.toDocument = some s := by
  have hfields : Shape.fields? ["pca9685"] s.toDocument = some [some
      (.object [("freq", .ofUInt16 s.frequency), ("duty", .array (s.duty.toList.map .ofUInt16))])] := rfl
  simp -implicitDefEqProofs [ofDocument?, hfields, Shape.required, controller?_object]

theorem isShallow_toDocument (s : PwmState) : s.toDocument.IsShallow 3 := by
  have hnumber (n : UInt16) : (Document.ofUInt16 n).IsShallow 0 := ⟨Nat.le_refl 0, trivial⟩
  have hduty : (Document.array (s.duty.toList.map .ofUInt16)).IsShallow 1 := by
    apply Document.isShallow_array
    · rw [List.length_map, Vector.length_toList]
      decide
    · intro d hd
      obtain ⟨n, -, rfl⟩ := List.mem_map.mp hd
      exact hnumber n
  refine Document.isShallow_object (by simp) ?_
  simp only [List.forall_mem_cons]
  refine ⟨⟨by decide, Document.isShallow_object (by simp) ?_⟩, by simp⟩
  simp only [List.forall_mem_cons]
  exact ⟨⟨by decide, (hnumber _).mono (Nat.zero_le _)⟩, ⟨by decide, hduty⟩, by simp⟩

end PwmState

namespace Telemetry

def delivered (t : Telemetry) : Telemetry :=
  { t with humidity := t.humidity.map (·.delivered), temperature := t.temperature.map (·.delivered) }

/-- All readings in the order in which they are written. -/
def readings (t : Telemetry) : List Reading :=
  t.humidity.flatMap (fun r => [r.temperature, r.humidity]) ++ t.temperature.map (·.temperature)

theorem fields?_toDocument (t : Telemetry) : Shape.fields? ["sht20", "ds18b20", "gpio", "pwm"] t.toDocument =
    some [some (.array (t.humidity.map (·.toDocument))), some (.array (t.temperature.map (·.toDocument))),
      some t.ports.toDocument, some t.pwm.toDocument] := rfl

theorem ofDocument?_toDocument {t : Telemetry} (h : ∀ x ∈ t.readings, x.IsFinite) :
    ofDocument? t.toDocument = some t.delivered := by
  have hhumidity : Shape.list? HumidityReading.ofDocument? (.array (t.humidity.map (·.toDocument))) =
      some (t.humidity.map (·.delivered)) := by
    apply Shape.list?_map
    intro r hr
    apply HumidityReading.ofDocument?_toDocument
    · exact h _ (List.mem_append_left _ (List.mem_flatMap.mpr ⟨r, hr, by simp⟩))
    · exact h _ (List.mem_append_left _ (List.mem_flatMap.mpr ⟨r, hr, by simp⟩))
  have htemperature : Shape.list? TemperatureReading.ofDocument? (.array (t.temperature.map (·.toDocument))) =
      some (t.temperature.map (·.delivered)) := by
    apply Shape.list?_map
    intro r hr
    exact TemperatureReading.ofDocument?_toDocument
      (h _ (List.mem_append_right _ (List.mem_map_of_mem (f := (·.temperature)) hr)))
  simp -implicitDefEqProofs [ofDocument?, fields?_toDocument, Shape.required, hhumidity, htemperature,
    PortBanks.ofDocument?_toDocument, PwmState.ofDocument?_toDocument, delivered]

theorem delivered_eq_self_iff (t : Telemetry) : t.delivered = t ↔ ∀ x ∈ t.readings, ¬x.IsMisread := by
  have hmap {α : Type} (f : α → α) (xs : List α) : xs.map f = xs ↔ ∀ x ∈ xs, f x = x := by
    rw [← List.map_id xs, List.map_map, List.map_inj_left]
    simp
  obtain ⟨humidity, temperature, ports, pwm⟩ := t
  simp only [delivered, mk.injEq, hmap, HumidityReading.delivered_eq_self_iff,
    TemperatureReading.delivered_eq_self_iff, and_true, readings, List.mem_append, List.mem_flatMap, List.mem_map]
  constructor
  · rintro ⟨hhumidity, htemperature⟩ x (⟨r, hr, hx⟩ | ⟨r, hr, rfl⟩)
    · rcases List.mem_pair.mp hx with rfl | rfl
      · exact (hhumidity r hr).1
      · exact (hhumidity r hr).2
    · exact htemperature r hr
  · intro h
    refine ⟨fun r hr => ⟨?_, ?_⟩, fun r hr => h _ (.inr ⟨r, hr, rfl⟩)⟩
    · exact h _ (.inl ⟨r, hr, List.mem_cons_self⟩)
    · exact h _ (.inl ⟨r, hr, List.mem_cons_of_mem _ List.mem_cons_self⟩)

theorem fault?_eq_none_iff (t : Telemetry) :
    t.fault? = none ↔ t.humidity.length ≤ 2 ∧ t.temperature.length ≤ 4 := by
  rw [fault?]
  split
  · next hmany => exact iff_of_false (by simp) fun hcount => Nat.not_lt.mpr hcount.1 hmany
  · next hhumidity =>
    split
    · next hmany => exact iff_of_false (by simp) fun hcount => Nat.not_lt.mpr hcount.2 hmany
    · next htemperature => exact iff_of_true rfl ⟨Nat.not_lt.mp hhumidity, Nat.not_lt.mp htemperature⟩

theorem fault?_delivered (t : Telemetry) : t.delivered.fault? = t.fault? := by
  simp [fault?, delivered]

theorem isShallow_toDocument {t : Telemetry} (hcount : t.fault? = none) (hids : ∀ r ∈ t.humidity, FitsMemory r.id) :
    t.toDocument.IsShallow 4 := by
  obtain ⟨hhumidity, htemperature⟩ := t.fault?_eq_none_iff.mp hcount
  have hhumidities : (Document.array (t.humidity.map (·.toDocument))).IsShallow 2 := by
    apply Document.isShallow_array
    · rw [List.length_map]
      omega
    · intro d hd
      obtain ⟨r, hr, rfl⟩ := List.mem_map.mp hd
      exact HumidityReading.isShallow_toDocument (hids r hr)
  have htemperatures : (Document.array (t.temperature.map (·.toDocument))).IsShallow 2 := by
    apply Document.isShallow_array
    · rw [List.length_map]
      omega
    · intro d hd
      obtain ⟨r, -, rfl⟩ := List.mem_map.mp hd
      exact r.isShallow_toDocument
  refine Document.isShallow_object (by simp) ?_
  simp only [List.forall_mem_cons]
  exact ⟨⟨by decide, hhumidities.mono (by decide)⟩, ⟨by decide, htemperatures.mono (by decide)⟩,
    ⟨by decide, t.ports.isShallow_toDocument.mono (by decide)⟩, ⟨by decide, t.pwm.isShallow_toDocument⟩, by simp⟩

/-- Telemetry with finite readings arrives, with what each of its readings arrives as. -/
theorem arrivesAs_delivered {t : Telemetry} (hcount : t.fault? = none) (hfinite : ∀ x ∈ t.readings, x.IsFinite)
    (hids : ∀ r ∈ t.humidity, FitsMemory r.id) (preferCbor : Bool) (timestamp : UInt64) (sequence : UInt32) :
    Payload.ArrivesAs preferCbor timestamp sequence t t.delivered := by
  have hshallow : (Payload.render t).IsShallow 126 := (isShallow_toDocument hcount hids).mono (by decide)
  have hback : t.delivered.fault? = none := by rw [fault?_delivered, hcount]
  exact Payload.arrivesAs_of_shape? hcount hshallow (ofDocument?_toDocument hfinite) hback ..

/-- Telemetry with no more readings than it may have, all of them finite, is encoded in either format, is found whole
at the other end, and is read there as it was in every place but one: a reading with the bits `0x15AE43FD`, of either
sign, is read as the next one. So it arrives bit for bit if and only if it has no such reading. -/
theorem arrives_bit_for_bit_iff {t : Telemetry} (hhumidity : t.humidity.length ≤ 2)
    (htemperature : t.temperature.length ≤ 4) (hfinite : ∀ x ∈ t.readings, x.IsFinite)
    (hids : ∀ r ∈ t.humidity, FitsMemory r.id) (preferCbor : Bool) (timestamp : UInt64) (sequence : UInt32) :
    Payload.ArrivesAs preferCbor timestamp sequence t t.delivered ∧
      (t.delivered = t ↔ ∀ x ∈ t.readings, ¬x.IsMisread) :=
  ⟨arrivesAs_delivered (t.fault?_eq_none_iff.mpr ⟨hhumidity, htemperature⟩) hfinite hids .., t.delivered_eq_self_iff⟩

/-- One humidity sensor, at 21.37 degrees and 45.5 percent. -/
theorem arrives_bit_for_bit_iff_humidity :
    let t : Telemetry := {
      humidity := [⟨"mux0", .finite ⟨false, 0x41AAF5C3, by decide⟩, .finite ⟨false, 0x42360000, by decide⟩, true⟩]
      temperature := [], ports := ⟨⟨1, 2⟩, ⟨3, 4⟩⟩, pwm := ⟨1000, .replicate 16 2048⟩ }
    t.humidity.length ≤ 2 ∧ t.temperature.length ≤ 4 ∧ (∀ x ∈ t.readings, x.IsFinite) ∧
      (∀ r ∈ t.humidity, FitsMemory r.id) ∧ Payload.ArrivesAs true 1700000000000 7 t t := by
  intro t
  have hreadings : t.readings = [.finite ⟨false, 0x41AAF5C3, by decide⟩, .finite ⟨false, 0x42360000, by decide⟩] := rfl
  have hfinite : ∀ x ∈ t.readings, x.IsFinite := by
    simp [hreadings, Reading.IsFinite]
  have hids : ∀ r ∈ t.humidity, FitsMemory r.id := by
    rintro r (_ | ⟨_, ⟨⟩⟩)
    decide
  have hkept : ∀ x ∈ t.readings, ¬x.IsMisread := by
    simp [hreadings, Reading.IsMisread, FloatFormat.misreadSingle]
  obtain ⟨harrives, hback⟩ := arrives_bit_for_bit_iff (by decide) (by decide) hfinite hids true 1700000000000 7
  rw [hback.mpr hkept] at harrives
  exact ⟨by decide, by decide, hfinite, hids, harrives⟩

/-- The reading `7.038531e-26` of one probe: its decimal is read as the midpoint between its bits and the next. -/
theorem misread_reading_does_not_arrive :
    let t (x : Reading) : Telemetry := {
      humidity := [], temperature := [⟨⟨#[0x28, 0xFF, 0x64, 0x1E, 0x8A, 0x3B, 0x04, 0x5C], rfl⟩, x⟩]
      ports := ⟨⟨1, 2⟩, ⟨3, 4⟩⟩, pwm := ⟨1000, .replicate 16 2048⟩ }
    let sent := t (.finite ⟨false, 0x15AE43FD, by decide⟩)
    let back := t (.finite ⟨false, 0x15AE43FE, by decide⟩)
    sent.humidity.length ≤ 2 ∧ sent.temperature.length ≤ 4 ∧ (∀ x ∈ sent.readings, x.IsFinite) ∧ back ≠ sent ∧
      ∀ (preferCbor : Bool) (timestamp : UInt64) (sequence : UInt32),
        Payload.ArrivesAs preferCbor timestamp sequence sent back ∧
          ¬Payload.ArrivesAs preferCbor timestamp sequence sent sent := by
  intro t sent back
  have hreadings : sent.readings = [.finite ⟨false, 0x15AE43FD, by decide⟩] := rfl
  have hfinite : ∀ x ∈ sent.readings, x.IsFinite := by
    simp [hreadings, Reading.IsFinite]
  have hids : ∀ r ∈ sent.humidity, FitsMemory r.id := by
    rintro r ⟨⟩
  have hback : sent.delivered = back := by decide +kernel
  have hne : back ≠ sent := by decide +kernel
  refine ⟨by decide, by decide, hfinite, hne, fun preferCbor timestamp sequence => ?_⟩
  have harrives := arrivesAs_delivered (t := sent) rfl hfinite hids preferCbor timestamp sequence
  rw [hback] at harrives
  exact ⟨harrives, fun hkept => hne (harrives.unique hkept)⟩

end Telemetry

end FieldLink
