import FieldLink.Proofs.CommandOptions

/-!
# Arguments for every command

Where the values of a request that come together are there together, an option for each of them is taken as the
request; so that there is no command, time stamp, sequence number or format that cannot be asked for.
-/

namespace FieldLink

namespace Arguments

variable {values flags : List String}

def given (table : List (String × Option String)) : Options := table.filterMap fun row => row.2.map (row.1, ·)

/-- An option as one argument: a flag on its own, and any other with its value attached. -/
def form (flags : List String) (option : String × String) : String :=
  longForm option.1 (if option.1 ∈ flags then none else some option.2)

private theorem names_given_sublist (table : List (String × Option String)) :
    ((given table).map Prod.fst).Sublist (table.map Prod.fst) := by
  induction table with
  | nil => exact List.Sublist.refl []
  | cons row table ih =>
    obtain ⟨name, value⟩ := row
    cases value with
    | none => exact ih.cons name
    | some value => exact ih.cons_cons name

private theorem lookup_given {table : List (String × Option String)} (h : (table.map Prod.fst).Nodup) (name : String) :
    (given table).lookup name = (table.lookup name).join := by
  induction table with
  | nil => rfl
  | cons row table ih =>
    obtain ⟨other, value⟩ := row
    obtain ⟨hnew, hrest⟩ := List.nodup_cons.mp h
    by_cases hname : name = other
    · subst hname
      rw [List.lookup_cons_self, Option.join_some]
      cases value with
      | none =>
        refine List.lookup_eq_none_iff.mpr fun option hoption => bne_iff_ne.mpr fun hsame => ?_
        have hin : option.1 ∈ (given table).map Prod.fst := List.mem_map_of_mem hoption
        exact hnew (hsame ▸ (names_given_sublist table).mem hin)
      | some value => exact List.lookup_cons_self
    · have hskip : (given ((other, value) :: table)).lookup name = (given table).lookup name := by
        cases value with
        | none => rfl
        | some value => simp [given, List.lookup_cons, beq_false_of_ne hname]
      rw [hskip, ih hrest, List.lookup_cons, beq_false_of_ne hname]

private theorem written_map_form (hnames : AreNames values flags) {o : Options}
    (h : ∀ option ∈ o, option.1 ∈ values ∨ option.1 ∈ flags ∧ option.2 = "") :
    Written values flags o (o.map (form flags)) := by
  induction o with
  | nil => exact .nil
  | cons option o ih =>
    obtain ⟨name, value⟩ := option
    obtain ⟨hfirst, hrest⟩ := List.forall_mem_cons.mp h
    rw [List.map_cons, form]
    rcases hfirst with hvalue | ⟨hflag, hempty⟩
    · rw [if_neg (hnames.disjoint name hvalue)]
      exact .attached hvalue (ih hrest)
    · cases hempty
      rw [if_pos hflag]
      exact .flag hflag (ih hrest)

namespace Options

variable {α : Type} {o : Options} {name : String} {read : String → Option α} {print : α → String} {x : Option α}

private theorem optional_of_lookup (hlookup : o.lookup name = x.map print) (hread : ∀ a, read (print a) = some a) :
    o.optional name read = some x := by
  rw [optional, hlookup]
  cases x with
  | none => rfl
  | some a => simp [hread]

private theorem orElse_of_lookup {value : String} (h : o.lookup name = some value) (fallback : Option String) :
    o.orElse name fallback = o := by
  simp [orElse, h]

end Options
end Arguments

open Arguments

namespace NumberText

def decimal (n : Nat) : String := .ofList (Nat.toDigits 10 n)

private theorem isDecimal_decimal (n : Nat) : IsDecimal (decimal n).toList n := by
  rw [decimal, String.toList_ofList]
  exact ⟨Nat.toDigits_ne_nil, fun c hc => Nat.isDigit_of_mem_toDigits (by decide) (by decide) hc,
    Nat.ofDigitChars_toDigits (by decide) (by decide)⟩

private theorem spells_decimal (n : Nat) : Spells (decimal n).toList n := ⟨_, isDecimal_decimal n, .inl rfl⟩

private theorem read?_decimal {bound n : Nat} (h : n < bound) : read? bound (decimal n).toList = some n :=
  read?_eq_some_iff.mpr ⟨h, _, isDecimal_decimal n, .inl rfl⟩

end NumberText

namespace ToolRequest

open NumberText

private theorem uint8?_decimal (n : UInt8) :
    uint8? (decimal n.toNat) = some n :=
  uint8?_eq_some_iff.mpr (spells_decimal _)

private theorem uint16?_decimal (n : UInt16) :
    uint16? (decimal n.toNat) = some n :=
  uint16?_eq_some_iff.mpr (spells_decimal _)

private theorem uint32?_decimal (n : UInt32) :
    uint32? (decimal n.toNat) = some n :=
  uint32?_eq_some_iff.mpr (spells_decimal _)

private theorem uint64?_decimal (n : UInt64) : uint64? (decimal n.toNat) = some n := by
  rw [uint64?, read?_decimal n.toNat_lt, Option.map_some, UInt64.ofNat_toNat]

private theorem port?_name (p : Port) : port? p.name = some p := by
  cases p <;> decide +kernel

end ToolRequest

namespace CommandRequest

open NumberText ToolRequest

/-- A request whose duty cycle has a channel and whose channel has a duty cycle, and which says all about a port of which
it names the expander. -/
structure IsComplete (r : CommandRequest) : Prop where
  duty : r.channel.isSome = r.duty.isSome
  port : r.expander.isSome = true → r.port.isSome = true ∧ r.mask.isSome = true ∧ r.value.isSome = true

def fields (r : CommandRequest) : List (String × Option String) :=
  [("key-hex", some r.key), ("pwm-channel", r.channel.map fun n => decimal n.toNat),
    ("pwm-duty", r.duty.map fun n => decimal n.toNat), ("pwm-freq", r.frequency.map fun n => decimal n.toNat),
    ("gpio-device", r.expander.map Expander.name), ("gpio-port", r.port.map Port.name),
    ("gpio-mask", r.mask.map fun n => decimal n.toNat), ("gpio-value", r.value.map fun n => decimal n.toNat),
    ("timestamp-ms", r.timestamp.map fun n => decimal n.toNat), ("seq", some (decimal r.sequence.toNat))]

def table (r : CommandRequest) : List (String × Option String) :=
  r.fields ++ [("cbor", if r.preferCbor then some "" else none)]

def arguments (r : CommandRequest) : List String := (given r.table).map (form commandFlags)

variable {r : CommandRequest}

private theorem nodup_table (r : CommandRequest) : (r.table.map Prod.fst).Nodup := by
  rw [show r.table.map Prod.fst = commandValues ++ commandFlags from rfl]
  decide

private theorem lookup_table {name : String} {value : Option String} (h : r.table.lookup name = some value) :
    (given r.table).lookup name = value := by
  rw [lookup_given r.nodup_table, h, Option.join_some]

private theorem has_table {name : String} {value : Option String} (h : r.table.lookup name = some value) :
    (given r.table).has name = value.isSome := by
  rw [Options.has, lookup_table h]

theorem written_arguments (r : CommandRequest) : Written commandValues commandFlags (given r.table) r.arguments := by
  refine written_map_form areNames_command fun option hoption => ?_
  obtain ⟨row, hrow, hvalue⟩ := List.mem_filterMap.mp hoption
  obtain ⟨value, hsome, rfl⟩ := Option.map_eq_some_iff.mp hvalue
  rcases List.mem_append.mp hrow with hfield | hflag
  · exact .inl (show row.1 ∈ r.fields.map Prod.fst from List.mem_map_of_mem hfield)
  · obtain rfl := List.mem_singleton.mp hflag
    obtain ⟨-, hempty⟩ := Option.ite_none_right_eq_some.mp hsome
    cases hempty
    exact .inr ⟨List.mem_cons_self, rfl⟩

theorem grouped_table (h : r.IsComplete) : Grouped (given r.table) := by
  have hchannel : (given r.table).has "pwm-channel" = _ := has_table rfl
  have hduty : (given r.table).has "pwm-duty" = _ := has_table rfl
  have hexpander : (given r.table).has "gpio-device" = _ := has_table rfl
  have hport : (given r.table).has "gpio-port" = _ := has_table rfl
  have hmask : (given r.table).has "gpio-mask" = _ := has_table rfl
  have hvalue : (given r.table).has "gpio-value" = _ := has_table rfl
  simp only [Option.isSome_map] at hchannel hduty hexpander hport hmask hvalue
  constructor
  case duty => rw [hchannel, hduty, h.duty]
  case port =>
    rw [hexpander, hport, hmask, hvalue]
    exact h.port

theorem takenFrom_table (r : CommandRequest) (environment : String → Option String) :
    TakenFrom environment (given r.table) r := by
  have hkey : (given r.table).lookup "key-hex" = some r.key := lookup_table rfl
  constructor
  case key => rw [Options.orElse_of_lookup hkey, hkey]
  case channel => exact Options.optional_of_lookup (lookup_table rfl) uint8?_decimal
  case duty => exact Options.optional_of_lookup (lookup_table rfl) uint16?_decimal
  case frequency => exact Options.optional_of_lookup (lookup_table rfl) uint16?_decimal
  case expander => exact Options.optional_of_lookup (lookup_table rfl) fun _ => Expander.ofName?_eq_some_iff.mpr rfl
  case port => exact Options.optional_of_lookup (lookup_table rfl) port?_name
  case mask => exact Options.optional_of_lookup (lookup_table rfl) uint16?_decimal
  case value => exact Options.optional_of_lookup (lookup_table rfl) uint16?_decimal
  case timestamp => exact Options.optional_of_lookup (lookup_table rfl) uint64?_decimal
  case sequence =>
    have hread : (given r.table).optional "seq" uint32? = some (some r.sequence) :=
      Options.optional_of_lookup (lookup_table rfl) uint32?_decimal
    rw [Options.withDefault, hread]
    rfl
  case preferCbor =>
    rw [has_table rfl]
    cases r.preferCbor <;> rfl

/-- A complete request is taken from its arguments. -/
theorem ofArguments?_arguments (h : r.IsComplete) (environment : String → Option String) :
    ofArguments? environment ("command" :: r.arguments) = some (.command r) := by
  rw [ofArguments?_command, command?_eq_some_iff]
  refine ⟨_, r.written_arguments, ?_, grouped_table h, r, rfl, r.takenFrom_table environment⟩
  exact r.nodup_table.sublist (names_given_sublist r.table)

def ofCommand (key : Key) (c : Command) (timestamp : UInt64) (sequence : UInt32) (preferCbor : Bool) :
    CommandRequest where
  key := Hexadecimal.encode key.octets
  channel := c.duty.map (·.channel)
  duty := c.duty.map (·.duty)
  frequency := c.frequency.map (·.frequency)
  expander := c.port.map (·.expander)
  port := c.port.map (·.port)
  mask := c.port.map (·.mask)
  value := c.port.map (·.value)
  timestamp := some timestamp
  sequence
  preferCbor

section Asking

variable (key : Key) (c : Command) (timestamp : UInt64) (sequence : UInt32) (preferCbor : Bool)

theorem isComplete_ofCommand : (ofCommand key c timestamp sequence preferCbor).IsComplete where
  duty := by simp [ofCommand]
  port := by simp [ofCommand]

/-- Every command can be asked for. -/
theorem toCommand_ofCommand : (ofCommand key c timestamp sequence preferCbor).toCommand = c := by
  obtain ⟨duty, frequency, port⟩ := c
  cases duty <;> cases frequency <;> cases port <;> rfl

end Asking

end CommandRequest

end FieldLink
