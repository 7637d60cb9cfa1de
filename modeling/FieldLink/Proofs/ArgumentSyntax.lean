import FieldLink.ToolRequest
import Mathlib.Data.List.TakeWhile

/-!
# How options are written as arguments

Reading takes exactly the arguments in which options are written, and gives those options back. And what is read
from options that may be missing.
-/

namespace FieldLink.Arguments

variable {values flags : List String} {argument name : String} {attached : Option String}

def longForm (name : String) (attached : Option String) : String :=
  "--" ++ name ++ (attached.map ("=" ++ ·)).getD ""

private theorem toList_longForm (name : String) (attached : Option String) : (longForm name attached).toList =
    '-' :: '-' :: (name.toList ++ (attached.map fun value => '=' :: value.toList).getD []) := by
  cases attached <;> simp [longForm]

private theorem long?_longForm (hname : '=' ∉ name.toList) :
    long? (longForm name attached) = some (name, attached) := by
  have hfront : ∀ c ∈ name.toList, decide (c ≠ '=') = true := by
    rintro c hc
    exact decide_eq_true (fun heq => hname (heq ▸ hc))
  rw [long?, toList_longForm]
  simp only [List.takeWhile_append_of_pos hfront, List.dropWhile_append_of_pos hfront]
  cases attached with
  | none => simp
  | some value => simp

theorem long?_eq_some_iff :
    long? argument = some (name, attached) ↔ '=' ∉ name.toList ∧ argument = longForm name attached := by
  constructor
  · intro h
    rw [long?] at h
    split at h
    · next text htext =>
      have hwhole : text.takeWhile (· ≠ '=') ++ text.dropWhile (· ≠ '=') = text := List.takeWhile_append_dropWhile
      have hfront : '=' ∉ text.takeWhile (· ≠ '=') := fun hmem => by simpa using List.mem_takeWhile_imp hmem
      have hstop := List.head?_dropWhile_not (· ≠ '=') text
      generalize text.takeWhile (· ≠ '=') = front at h hwhole hfront
      generalize text.dropWhile (· ≠ '=') = rest at h hwhole hstop
      have hwritten (attached : Option String)
          (hrest : rest = (attached.map fun value => '=' :: value.toList).getD []) :
          argument = longForm (String.ofList front) attached := by
        rw [← String.toList_inj, htext, toList_longForm, String.toList_ofList, ← hwhole, hrest]
      cases rest with
      | nil =>
        cases h
        exact ⟨by rwa [String.toList_ofList], hwritten none rfl⟩
      | cons c value =>
        obtain rfl : c = '=' := by simpa using hstop
        cases h
        exact ⟨by rwa [String.toList_ofList], hwritten _ (by simp)⟩
    · cases h
  · rintro ⟨hname, rfl⟩
    exact long?_longForm hname

/-- Options and the arguments in which they are written. A value is attached to its option or is the next argument, and
in the second case does not look like an option; a flag has no value; a mark may end it all. -/
inductive Written (values flags : List String) : Options → List String → Prop where
  | nil : Written values flags [] []
  | mark : Written values flags [] ["--"]
  | attached {name value : String} {options : Options} {rest : List String} (hname : name ∈ values)
      (h : Written values flags options rest) :
      Written values flags ((name, value) :: options) (longForm name (some value) :: rest)
  | apart {name value : String} {options : Options} {rest : List String} (hname : name ∈ values)
      (hvalue : isOption value = false) (h : Written values flags options rest) :
      Written values flags ((name, value) :: options) (longForm name none :: value :: rest)
  | flag {name : String} {options : Options} {rest : List String} (hname : name ∈ flags)
      (h : Written values flags options rest) :
      Written values flags ((name, "") :: options) (longForm name none :: rest)

theorem written_of_scan? {options : Options} {arguments : List String}
    (h : scan? values flags arguments = some options) : Written values flags options arguments := by
  fun_induction scan? values flags arguments generalizing options with
  | case1 =>
    cases h
    exact .nil
  | case2 rest hrest =>
    cases h
    rw [List.isEmpty_iff.mp hrest]
    exact .mark
  | case5 argument rest _ name value hlong hname ih =>
    obtain ⟨others, hothers, rfl⟩ := Option.map_eq_some_iff.mp h
    obtain ⟨-, rfl⟩ := long?_eq_some_iff.mp hlong
    exact .attached hname (ih hothers)
  | case7 argument rest _ name hlong hname ih =>
    obtain ⟨others, hothers, rfl⟩ := Option.map_eq_some_iff.mp h
    obtain ⟨-, rfl⟩ := long?_eq_some_iff.mp hlong
    exact .flag hname (ih hothers)
  | case10 argument _ name hlong _ hname value rest hvalue ih =>
    obtain ⟨others, hothers, rfl⟩ := Option.map_eq_some_iff.mp h
    obtain ⟨-, rfl⟩ := long?_eq_some_iff.mp hlong
    exact .apart hname ((Bool.not_eq_true _).mp hvalue) (ih hothers)
  | _ => cases h

/-- No option is named by nothing or by a text with an equals sign, and none is a flag and has a value. -/
structure AreNames (values flags : List String) : Prop where
  named : ∀ name ∈ values ++ flags, name ≠ "" ∧ '=' ∉ name.toList
  disjoint : ∀ name ∈ values, name ∉ flags

private theorem longForm_ne_mark (hname : name ≠ "") (attached : Option String) : longForm name attached ≠ "--" := by
  intro h
  rw [← String.toList_inj, toList_longForm] at h
  simp_all

private theorem scan?_of_written (hnames : AreNames values flags) {options : Options} {arguments : List String}
    (h : Written values flags options arguments) : scan? values flags arguments = some options := by
  induction h with
  | nil => rw [scan?]
  | mark => simp [scan?]
  | attached hname _ ih =>
    obtain ⟨hne, heq⟩ := hnames.named _ (List.mem_append_left flags hname)
    rw [scan?, if_neg (longForm_ne_mark hne _), long?_longForm heq]
    simp only [if_pos hname, ih, Option.map_some]
  | apart hname hvalue _ ih =>
    obtain ⟨hne, heq⟩ := hnames.named _ (List.mem_append_left flags hname)
    rw [scan?, if_neg (longForm_ne_mark hne _), long?_longForm heq]
    simp only [if_neg (hnames.disjoint _ hname), if_pos hname, hvalue, Bool.false_eq_true, if_false, ih, Option.map_some]
  | flag hname _ ih =>
    obtain ⟨hne, heq⟩ := hnames.named _ (List.mem_append_right values hname)
    rw [scan?, if_neg (longForm_ne_mark hne _), long?_longForm heq]
    simp only [if_pos hname, ih, Option.map_some]

/-- Arguments are read as the options that are written in them. -/
theorem scan?_eq_some_iff (hnames : AreNames values flags) {options : Options} {arguments : List String} :
    scan? values flags arguments = some options ↔ Written values flags options arguments :=
  ⟨written_of_scan?, scan?_of_written hnames⟩

theorem Written.iff_eq (hnames : AreNames values flags) {options other : Options} {arguments : List String}
    (h : Written values flags options arguments) : Written values flags other arguments ↔ other = options := by
  rw [← scan?_eq_some_iff hnames, scan?_of_written hnames h, Option.some.injEq, eq_comm]

theorem read?_eq_some_iff (hnames : AreNames values flags) {options : Options} {arguments : List String} :
    read? values flags arguments = some options ↔
      Written values flags options arguments ∧ (options.map Prod.fst).Nodup := by
  simp only [read?, Option.bind_eq_bind, Option.bind_eq_some_iff, scan?_eq_some_iff hnames]
  constructor
  · rintro ⟨found, hfound, h⟩
    obtain ⟨hnodup, heq⟩ := Option.ite_none_right_eq_some.mp h
    cases heq
    exact ⟨hfound, hnodup⟩
  · rintro ⟨hwritten, hnodup⟩
    exact ⟨options, hwritten, if_pos hnodup⟩

namespace Options

variable {o : Options}

theorem lookup_orElse {other : String} (hother : other ≠ name) (fallback : Option String) :
    (o.orElse name fallback).lookup other = o.lookup other := by
  unfold orElse
  split
  · next value _ =>
    have hmissing : List.lookup other [(name, value)] = none := by simp [hother]
    rw [List.lookup_append, hmissing, Option.or_none]
  · rfl

theorem has_orElse {other : String} (hother : other ≠ name) (fallback : Option String) :
    (o.orElse name fallback).has other = o.has other := by
  rw [has, has, lookup_orElse hother]

theorem has_eq_true_iff : o.has name = true ↔ ∃ text, o.lookup name = some text :=
  Option.isSome_iff_exists

theorem has_eq_false_iff : o.has name = false ↔ o.lookup name = none :=
  Option.isSome_eq_false_iff.trans Option.isNone_iff_eq_none

variable {α : Type} {read : String → Option α} {x : Option α}

theorem optional_orElse {other : String} (hother : other ≠ name) (fallback : Option String) :
    (o.orElse name fallback).optional other read = o.optional other read := by
  rw [optional, optional, lookup_orElse hother]

theorem withDefault_orElse {other : String} (hother : other ≠ name) (fallback : Option String) (default : α) :
    (o.orElse name fallback).withDefault other default read = o.withDefault other default read := by
  rw [withDefault, withDefault, optional_orElse hother]

theorem eq_none_of_optional (h : o.optional name read = some x) (hmissing : o.has name = false) : x = none := by
  rw [optional, has_eq_false_iff.mp hmissing] at h
  exact (Option.some.inj h).symm

theorem exists_of_optional (h : o.optional name read = some x) (hgiven : o.has name = true) :
    ∃ text value, o.lookup name = some text ∧ read text = some value ∧ x = some value := by
  obtain ⟨text, htext⟩ := has_eq_true_iff.mp hgiven
  rw [optional, htext] at h
  obtain ⟨value, hvalue, heq⟩ := Option.map_eq_some_iff.mp h
  exact ⟨text, value, htext, hvalue, heq.symm⟩

end Options

end FieldLink.Arguments
