import FieldLink.Proofs.ArgumentSyntax
import FieldLink.Proofs.NumberSpelling
import FieldLink.Proofs.ToolCommands

/-!
# From options to actions

The duty cycle takes two options, which are refused apart; the frequency takes one; writing a port takes four,
of which only the expander calls for the others. A port without an expander is no error, and nothing is written.
-/

namespace FieldLink

open Arguments

namespace ToolRequest

variable {environment : String → Option String} {arguments : List String} {request : ToolRequest}

def commandValues : List String :=
  ["key-hex", "pwm-channel", "pwm-duty", "pwm-freq", "gpio-device", "gpio-port", "gpio-mask", "gpio-value",
    "timestamp-ms", "seq"]

def commandFlags : List String := ["cbor"]

theorem areNames_command : AreNames commandValues commandFlags where
  named := by decide
  disjoint := by decide

structure Grouped (o : Options) : Prop where
  duty : o.has "pwm-channel" = o.has "pwm-duty"
  port : o.has "gpio-device" = true → o.has "gpio-port" = true ∧ o.has "gpio-mask" = true ∧ o.has "gpio-value" = true

theorem isComplete_iff {o : Options} : isComplete o = true ↔ Grouped o := by
  have hsplit : isComplete o = true ↔ (o.has "pwm-channel" = true → o.has "pwm-duty" = true) ∧
      (o.has "pwm-duty" = true → o.has "pwm-channel" = true) ∧ (o.has "gpio-device" = true →
        o.has "gpio-port" = true ∧ o.has "gpio-mask" = true ∧ o.has "gpio-value" = true) := by
    simp [isComplete, companions, imp_iff_not_or]
  rw [hsplit]
  exact ⟨fun ⟨hduty, hchannel, hport⟩ => ⟨Bool.eq_iff_iff.mpr ⟨hduty, hchannel⟩, hport⟩,
    fun h => ⟨(Bool.eq_iff_iff.mp h.duty).mp, (Bool.eq_iff_iff.mp h.duty).mpr, h.port⟩⟩

/-- What a request to build a command takes from the options, and its key perhaps from the environment. -/
structure TakenFrom (environment : String → Option String) (given : Options) (r : CommandRequest) : Prop where
  key : (given.orElse "key-hex" (environment keyVariable)).lookup "key-hex" = some r.key
  channel : given.optional "pwm-channel" uint8? = some r.channel
  duty : given.optional "pwm-duty" uint16? = some r.duty
  frequency : given.optional "pwm-freq" uint16? = some r.frequency
  expander : given.optional "gpio-device" Expander.ofName? = some r.expander
  port : given.optional "gpio-port" port? = some r.port
  mask : given.optional "gpio-mask" uint16? = some r.mask
  value : given.optional "gpio-value" uint16? = some r.value
  timestamp : given.optional "timestamp-ms" uint64? = some r.timestamp
  sequence : given.withDefault "seq" 1 uint32? = some r.sequence
  preferCbor : given.has "cbor" = r.preferCbor

private theorem isComplete_orElse (given : Options) (fallback : Option String) :
    isComplete (given.orElse "key-hex" fallback) = true ↔ Grouped given := by
  have hhas (name : String) (hname : name ≠ "key-hex") := Options.has_orElse (o := given) hname fallback
  rw [isComplete_iff]
  constructor
  · rintro ⟨hduty, hport⟩
    simp (disch := decide) only [hhas] at hduty hport
    exact ⟨hduty, hport⟩
  · rintro ⟨hduty, hport⟩
    constructor
    · simpa (disch := decide) only [hhas]
    · simpa (disch := decide) only [hhas]

theorem command?_eq_some_iff :
    command? environment arguments = some request ↔
      ∃ given, Written commandValues commandFlags given arguments ∧ (given.map Prod.fst).Nodup ∧ Grouped given ∧
        ∃ r, request = .command r ∧ TakenFrom environment given r := by
  constructor
  · intro h
    obtain ⟨given, hgiven, h⟩ := Option.bind_eq_some_iff.mp h
    obtain ⟨hwritten, hnodup⟩ := (read?_eq_some_iff areNames_command).mp hgiven
    obtain ⟨hcomplete, h⟩ := Option.ite_none_right_eq_some.mp h
    refine ⟨given, hwritten, hnodup, (isComplete_orElse _ _).mp hcomplete, ?_⟩
    simp only [Option.bind_eq_bind, Option.bind_eq_some_iff] at h
    simp (disch := decide) only [Options.optional_orElse, Options.withDefault_orElse, Options.has_orElse] at h
    obtain ⟨key, hkey, channel, hchannel, duty, hduty, frequency, hfrequency, expander, hexpander, port, hport, mask,
      hmask, value, hvalue, timestamp, htimestamp, sequence, hsequence, h⟩ := h
    cases h
    exact ⟨_, rfl, hkey, hchannel, hduty, hfrequency, hexpander, hport, hmask, hvalue, htimestamp, hsequence, rfl⟩
  · rintro ⟨given, hwritten, hnodup, hgrouped, r, rfl, htaken⟩
    have hgiven : read? commandValues commandFlags arguments = some given :=
      (read?_eq_some_iff areNames_command).mpr ⟨hwritten, hnodup⟩
    refine Option.bind_eq_some_iff.mpr ⟨given, hgiven, ?_⟩
    refine (if_pos ((isComplete_orElse _ _).mpr hgrouped)).trans ?_
    obtain ⟨hkey, hchannel, hduty, hfrequency, hexpander, hport, hmask, hvalue, htimestamp, hsequence, hcbor⟩ := htaken
    simp only [Option.bind_eq_bind, Option.bind_eq_some_iff]
    simp (disch := decide) only [Options.optional_orElse, Options.withDefault_orElse, Options.has_orElse]
    exact ⟨_, hkey, _, hchannel, _, hduty, _, hfrequency, _, hexpander, _, hport, _, hmask, _, hvalue, _, htimestamp, _,
      hsequence, by rw [hcbor]; rfl⟩

def Gives (given : Options) (name : String) (n : Nat) : Prop :=
  ∃ text, given.lookup name = some text ∧ NumberText.Spells text.toList n

/-- The actions in a payload are those that options ask for, with the values that are given. Whether a port is written
depends on the expander alone. -/
structure KeepsActions (given : Options) (members : List (String × Document)) : Prop where
  names : (members.map Prod.fst).Sublist ["set_pwm", "pwm_freq", "write_gpio"]
  duty : given.has "pwm-channel" = true → ∃ (channel : UInt8) (duty : UInt16),
    Gives given "pwm-channel" channel.toNat ∧ Gives given "pwm-duty" duty.toNat ∧
      members.lookup "set_pwm" = some (.object [("ch", .ofUInt8 channel), ("duty", .ofUInt16 duty)])
  noDuty : given.has "pwm-channel" = false → members.lookup "set_pwm" = none
  frequency : given.has "pwm-freq" = true → ∃ frequency : UInt16, Gives given "pwm-freq" frequency.toNat ∧
    members.lookup "pwm_freq" = some (.object [("freq", .ofUInt16 frequency)])
  noFrequency : given.has "pwm-freq" = false → members.lookup "pwm_freq" = none
  port : given.has "gpio-device" = true → ∃ (expander : Expander) (port : Port) (mask value : UInt16),
    given.lookup "gpio-device" = some expander.name ∧
      (∃ text, given.lookup "gpio-port" = some text ∧ text.toUpper = port.name) ∧
      Gives given "gpio-mask" mask.toNat ∧ Gives given "gpio-value" value.toNat ∧
      members.lookup "write_gpio" = some (.object [("dev", .text expander.name), ("port", .text port.name),
        ("mask", .ofUInt16 mask), ("value", .ofUInt16 value)])
  noPort : given.has "gpio-device" = false → members.lookup "write_gpio" = none

section Taken

variable {given : Options} {r : CommandRequest} {members : List (String × Document)}

private theorem exists_gives_uint16 {name : String} {x : Option UInt16} (h : given.optional name uint16? = some x)
    (hgiven : given.has name = true) : ∃ n : UInt16, x = some n ∧ Gives given name n.toNat := by
  obtain ⟨text, n, hlookup, hread, heq⟩ := Options.exists_of_optional h hgiven
  exact ⟨n, heq, text, hlookup, uint16?_eq_some_iff.mp hread⟩

private theorem keepsActions_of_takenFrom (hgrouped : Grouped given) (htaken : TakenFrom environment given r)
    (hmembers : r.toCommand.toDocument = .object members) : KeepsActions given members := by
  obtain ⟨hnames, hduty, hfrequency, hport⟩ := Command.members_of_toDocument hmembers
  constructor
  case names => exact hnames
  case duty =>
    intro hgiven
    obtain ⟨text, channel, hlookup, hread, hchannel⟩ := Options.exists_of_optional htaken.channel hgiven
    obtain ⟨duty, hsome, hgives⟩ := exists_gives_uint16 htaken.duty (hgrouped.duty ▸ hgiven)
    refine ⟨channel, duty, ⟨text, hlookup, uint8?_eq_some_iff.mp hread⟩, hgives, ?_⟩
    rw [hduty, CommandRequest.toCommand, hchannel, hsome]
    rfl
  case noDuty =>
    intro hmissing
    rw [hduty, CommandRequest.toCommand, Options.eq_none_of_optional htaken.channel hmissing]
    rfl
  case frequency =>
    intro hgiven
    obtain ⟨frequency, hsome, hgives⟩ := exists_gives_uint16 htaken.frequency hgiven
    refine ⟨frequency, hgives, ?_⟩
    rw [hfrequency, CommandRequest.toCommand, hsome]
    rfl
  case noFrequency =>
    intro hmissing
    rw [hfrequency, CommandRequest.toCommand, Options.eq_none_of_optional htaken.frequency hmissing]
    rfl
  case port =>
    intro hgiven
    obtain ⟨hgivenPort, hgivenMask, hgivenValue⟩ := hgrouped.port hgiven
    obtain ⟨device, expander, hdevice, hreadDevice, hexpander⟩ := Options.exists_of_optional htaken.expander hgiven
    obtain ⟨text, port, htext, hreadPort, hsomePort⟩ := Options.exists_of_optional htaken.port hgivenPort
    obtain ⟨mask, hmask, hgivesMask⟩ := exists_gives_uint16 htaken.mask hgivenMask
    obtain ⟨value, hvalue, hgivesValue⟩ := exists_gives_uint16 htaken.value hgivenValue
    obtain rfl := Expander.ofName?_eq_some_iff.mp hreadDevice
    refine ⟨expander, port, mask, value, hdevice, ⟨text, htext, Port.ofName?_eq_some_iff.mp hreadPort⟩, hgivesMask,
      hgivesValue, ?_⟩
    rw [hport, CommandRequest.toCommand, hexpander, hsomePort, hmask, hvalue]
    rfl
  case noPort =>
    intro hmissing
    rw [hport, CommandRequest.toCommand, Options.eq_none_of_optional htaken.expander hmissing]
    rfl

end Taken

theorem ofArguments?_command : ofArguments? environment ("command" :: arguments) = command? environment arguments := by
  simp [ofArguments?]

/-- Arguments with which a command is built give every option once, and the options of the duty cycle and those of an
expander together. The envelope that is printed then has the actions of these options. -/
theorem command_keeps_actions (h : ofArguments? environment ("command" :: arguments) = some request) :
    ∃ given, (∀ other, Written commandValues commandFlags other arguments ↔ other = given) ∧
      (given.map Prod.fst).Nodup ∧ Grouped given ∧
      ∀ clock source output, Tool.run clock source request = .ok output →
        ∃ octets e members, Hexadecimal.decode? output = some octets ∧ Envelope.decode octets = .ok e ∧
          e.payload = .object members ∧ KeepsActions given members := by
  rw [ofArguments?_command] at h
  obtain ⟨given, hwritten, hnodup, hgrouped, r, rfl, htaken⟩ := command?_eq_some_iff.mp h
  refine ⟨given, fun _ => hwritten.iff_eq areNames_command, hnodup, hgrouped, fun clock source output hrun => ?_⟩
  obtain ⟨key, octets, e, -, hoctets, hdecode, hcarries⟩ := Tool.exists_decode_of_run_command hrun
  exact ⟨octets, e, _, hoctets, hdecode, hcarries.payload, keepsActions_of_takenFrom hgrouped htaken rfl⟩

def allActions : CommandRequest where
  key := "1111111111111111111111111111111111111111111111111111111111111111"
  channel := some 3
  duty := some 1024
  frequency := some 200
  expander := some .second
  port := some .b
  mask := some 15
  value := some 5
  timestamp := none
  sequence := 1
  preferCbor := true

/-- Values attached or apart, with a sign or with zeros in front, and the port in a small letter. -/
def allArguments : List String :=
  ["--pwm-channel", "3", "--pwm-duty=+1024", "--pwm-freq", "0200", "--gpio-device", "mcp1", "--gpio-port", "b",
    "--gpio-mask=15", "--gpio-value", "5", "--cbor", "--key-hex", allActions.key]

theorem command_keeps_actions_all :
    ofArguments? (fun _ => none) ("command" :: allArguments) = some (.command allActions) ∧
    ∀ clock source, ∃ output octets e members, Tool.run clock source (.command allActions) = .ok output ∧
      Hexadecimal.decode? output = some octets ∧ Envelope.decode octets = .ok e ∧ e.payload = .object members ∧
      (∃ d, members.lookup "set_pwm" = some d) ∧ (∃ d, members.lookup "pwm_freq" = some d) ∧
      ∃ d, members.lookup "write_gpio" = some d := by
  have haccepted : ofArguments? (fun _ => none) ("command" :: allArguments) = some (.command allActions) := by
    decide +kernel
  refine ⟨haccepted, fun clock source => ?_⟩
  obtain ⟨given, hgiven, -, -, hkept⟩ := command_keeps_actions haccepted
  obtain rfl := (hgiven [("pwm-channel", "3"), ("pwm-duty", "+1024"), ("pwm-freq", "0200"), ("gpio-device", "mcp1"),
    ("gpio-port", "b"), ("gpio-mask", "15"), ("gpio-value", "5"), ("cbor", ""), ("key-hex", allActions.key)]).mp
      (written_of_scan? (by decide +kernel))
  obtain ⟨output, hrun⟩ := Tool.exists_run_command (r := allActions) ⟨List.replicate 32 0x11, rfl⟩
    (by decide +kernel) (by decide) clock source
  obtain ⟨octets, e, members, hoctets, hdecode, hpayload, hactions⟩ := hkept clock source output hrun
  obtain ⟨_, _, -, -, hduty⟩ := hactions.duty rfl
  obtain ⟨_, -, hfrequency⟩ := hactions.frequency rfl
  obtain ⟨_, _, _, _, -, -, -, -, hport⟩ := hactions.port rfl
  exact ⟨output, octets, e, members, hrun, hoctets, hdecode, hpayload, ⟨_, hduty⟩, ⟨_, hfrequency⟩, ⟨_, hport⟩⟩

def portOfNoExpander : CommandRequest where
  key := "1111111111111111111111111111111111111111111111111111111111111111"
  channel := none
  duty := none
  frequency := some 1000
  expander := none
  port := some .b
  mask := some 15
  value := some 5
  timestamp := some 5000
  sequence := 1
  preferCbor := false

/-- A port, a mask and a value without an expander are taken and forgotten. -/
theorem port_without_expander_is_lost :
    ofArguments? (fun _ => none) ["command", "--key-hex",
      "1111111111111111111111111111111111111111111111111111111111111111", "--timestamp-ms", "5000", "--gpio-port", "B",
      "--gpio-mask", "15", "--gpio-value", "5", "--pwm-freq", "1000"] = some (.command portOfNoExpander) ∧
    ∀ clock source, ∃ output octets e, Tool.run clock source (.command portOfNoExpander) = .ok output ∧
      Hexadecimal.decode? output = some octets ∧ Envelope.decode octets = .ok e ∧
      e.payload = .object [("pwm_freq", .object [("freq", .ofUInt16 1000)])] := by
  refine ⟨by decide +kernel, fun clock source => ?_⟩
  obtain ⟨output, hrun⟩ := Tool.exists_run_command (r := portOfNoExpander) ⟨List.replicate 32 0x11, rfl⟩
    (by decide +kernel) (by decide) clock source
  obtain ⟨key, octets, e, -, hoctets, hdecode, hcarries⟩ := Tool.exists_decode_of_run_command hrun
  exact ⟨output, octets, e, hrun, hoctets, hdecode, hcarries.payload⟩

end ToolRequest
end FieldLink
