/-!
# Command-line options in their long form

The value of an option is attached to it by an equals sign or is the next argument; in the second case it does
not look like an option itself.
-/

namespace FieldLink.Arguments

/-- Names and values of options; a flag has the empty value. -/
abbrev Options := List (String × String)

def long? (argument : String) : Option (String × Option String) :=
  match argument.toList with
  | '-' :: '-' :: text =>
    let name := String.ofList (text.takeWhile (· ≠ '='))
    match text.dropWhile (· ≠ '=') with
    | _ :: value => some (name, some (.ofList value))
    | [] => some (name, none)
  | _ => none

/-- Whether an argument looks like an option: a hyphen stands in front of something. -/
def isOption (argument : String) : Bool :=
  match argument.toList with
  | '-' :: _ :: _ => true
  | _ => false

/-- The options among arguments, in their order. Nothing else may stand there, but for a mark of the end
of all options. -/
def scan? (values flags : List String) : List String → Option Options
  | [] => some []
  | argument :: rest =>
    if argument = "--" then if rest.isEmpty then some [] else none
    else
      match long? argument with
      | none => none
      | some (name, some value) =>
        if name ∈ values then (scan? values flags rest).map ((name, value) :: ·) else none
      | some (name, none) =>
        if name ∈ flags then (scan? values flags rest).map ((name, "") :: ·)
        else if name ∈ values then
          match rest with
          | [] => none
          | value :: rest =>
            if isOption value then none else (scan? values flags rest).map ((name, value) :: ·)
        else none

def read? (values flags : List String) (arguments : List String) : Option Options := do
  let options ← scan? values flags arguments
  if (options.map (·.1)).Nodup then some options else none

namespace Options

/-- The options with one more, where it is missing and a variable of the environment has a value for it. -/
def orElse (o : Options) (name : String) (fallback : Option String) : Options :=
  match o.lookup name, fallback with
  | none, some value => o ++ [(name, value)]
  | _, _ => o

def has (o : Options) (name : String) : Bool := (o.lookup name).isSome

def optional {α : Type} (o : Options) (name : String) (read : String → Option α) :
    Option (Option α) :=
  match o.lookup name with
  | none => some none
  | some value => (read value).map some

def withDefault {α : Type} (o : Options) (name : String) (default : α) (read : String → Option α) :
    Option α :=
  (o.optional name read).map (·.getD default)

end Options
end FieldLink.Arguments
