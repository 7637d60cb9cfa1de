import FieldLink.Payload

/-!
# Telemetry

Humidity and temperature readings, the ports of two expanders and the outputs of a PWM controller. Readings are
singles and travel as their shortest decimals.
-/

namespace FieldLink

abbrev Reading := FloatValue .single

/-- A reading as a document; one that is not finite has none but null. -/
def Reading.toDocument (x : Reading) : Document := .ofFloat? (shortestDecimal x)

def Reading.ofDocument? (d : Document) : Option Reading := d.float? .single

/-- One SHT20 sensor. -/
structure HumidityReading where
  id : String
  temperature : Reading
  humidity : Reading
  valid : Bool
deriving DecidableEq

namespace HumidityReading

def toDocument (r : HumidityReading) : Document :=
  .object [("id", .text r.id), ("t", r.temperature.toDocument), ("rh", r.humidity.toDocument),
    ("ok", .bool r.valid)]

def ofDocument? (d : Document) : Option HumidityReading := do
  match ← Shape.fields? ["id", "t", "rh", "ok"] d with
  | [id, temperature, humidity, valid] =>
    return {
      id := ← Shape.required Document.text? id
      temperature := ← Shape.required Reading.ofDocument? temperature
      humidity := ← Shape.required Reading.ofDocument? humidity
      valid := ← Shape.required Document.bool? valid }
  | _ => none

end HumidityReading

abbrev RomCode := Vector UInt8 8

namespace RomCode

def toDocument (rom : RomCode) : Document := .text (Hexadecimal.encodeUpper rom.toList)

def ofDocument? (d : Document) : Option RomCode := do
  let octets ← Hexadecimal.decode? (← d.text?)
  if h : octets.toArray.size = 8 then some ⟨octets.toArray, h⟩ else none

end RomCode

/-- One DS18B20 probe. -/
structure TemperatureReading where
  rom : RomCode
  temperature : Reading
deriving DecidableEq

namespace TemperatureReading

def toDocument (r : TemperatureReading) : Document :=
  .object [("rom", r.rom.toDocument), ("t", r.temperature.toDocument)]

def ofDocument? (d : Document) : Option TemperatureReading := do
  match ← Shape.fields? ["rom", "t"] d with
  | [rom, temperature] =>
    return {
      rom := ← Shape.required RomCode.ofDocument? rom
      temperature := ← Shape.required Reading.ofDocument? temperature }
  | _ => none

end TemperatureReading

/-- The two ports of an expander. -/
structure Ports where
  a : UInt16
  b : UInt16
deriving DecidableEq

namespace Ports

def toDocument (p : Ports) : Document := .object [("A", .ofUInt16 p.a), ("B", .ofUInt16 p.b)]

def ofDocument? (d : Document) : Option Ports := do
  match ← Shape.fields? ["A", "B"] d with
  | [a, b] =>
    return ⟨← Shape.required Document.uint16? a, ← Shape.required Document.uint16? b⟩
  | _ => none

end Ports

/-- Both expanders. -/
structure PortBanks where
  first : Ports
  second : Ports
deriving DecidableEq

namespace PortBanks

def toDocument (b : PortBanks) : Document :=
  .object [("mcp0", b.first.toDocument), ("mcp1", b.second.toDocument)]

def ofDocument? (d : Document) : Option PortBanks := do
  match ← Shape.fields? ["mcp0", "mcp1"] d with
  | [first, second] =>
    return ⟨← Shape.required Ports.ofDocument? first, ← Shape.required Ports.ofDocument? second⟩
  | _ => none

end PortBanks

abbrev channelCount : Nat := 16

/-- Frequency and duty cycles of the PWM controller. -/
structure PwmState where
  frequency : UInt16
  duty : Vector UInt16 channelCount
deriving DecidableEq

namespace PwmState

def toDocument (s : PwmState) : Document :=
  .object [("pca9685",
    .object [("freq", .ofUInt16 s.frequency), ("duty", .array (s.duty.toList.map .ofUInt16))])]

def duty? (d : Document) : Option (Vector UInt16 channelCount) := do
  let duty ← Shape.list? Document.uint16? d
  if h : duty.toArray.size = channelCount then some ⟨duty.toArray, h⟩ else none

def controller? (d : Document) : Option PwmState := do
  match ← Shape.fields? ["freq", "duty"] d with
  | [frequency, duty] =>
    return ⟨← Shape.required Document.uint16? frequency, ← Shape.required duty? duty⟩
  | _ => none

def ofDocument? (d : Document) : Option PwmState := do
  match ← Shape.fields? ["pca9685"] d with
  | [controller] => Shape.required controller? controller
  | _ => none

end PwmState

/-- The state that a sensor node reports. -/
structure Telemetry where
  humidity : List HumidityReading
  temperature : List TemperatureReading
  ports : PortBanks
  pwm : PwmState
deriving DecidableEq

namespace Telemetry

def maxHumidityReadings : Nat := 2
def maxTemperatureReadings : Nat := 4

def fault? (t : Telemetry) : Option PayloadFault :=
  if maxHumidityReadings < t.humidity.length then some (.humidityReadings t.humidity.length)
  else if maxTemperatureReadings < t.temperature.length then
    some (.temperatureReadings t.temperature.length)
  else none

def toDocument (t : Telemetry) : Document :=
  .object [("sht20", .array (t.humidity.map (·.toDocument))),
    ("ds18b20", .array (t.temperature.map (·.toDocument))),
    ("gpio", t.ports.toDocument), ("pwm", t.pwm.toDocument)]

def ofDocument? (d : Document) : Option Telemetry := do
  match ← Shape.fields? ["sht20", "ds18b20", "gpio", "pwm"] d with
  | [humidity, temperature, ports, pwm] =>
    return {
      humidity := ← Shape.required (Shape.list? HumidityReading.ofDocument?) humidity
      temperature := ← Shape.required (Shape.list? TemperatureReading.ofDocument?) temperature
      ports := ← Shape.required PortBanks.ofDocument? ports
      pwm := ← Shape.required PwmState.ofDocument? pwm }
  | _ => none

instance : Payload Telemetry where
  kind := .telemetry
  fault? := fault?
  render := toDocument
  shape? := ofDocument?

end Telemetry
end FieldLink
