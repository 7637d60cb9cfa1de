import FieldLink.Proofs.JsonUniqueness

/-!
# Brackets in JSON texts

No octet string in front of one JSON text makes the text of an object of it. A scanner that keeps apart what
stands in strings and what does not counts the brackets that are open. Two scanners that begin on either side of
a quotation mark never agree again; so the shorter text begins outside of strings of the longer one, inside of
its outer braces, and cannot close them.
-/

namespace FieldLink

/-- Where a scanner stands: outside of strings, in a string, or behind a backslash in one. -/
inductive StringPlace where
  | outside
  | inside
  | escaped

/-- A place in a text, and how many brackets and braces are open there. -/
structure Cursor where
  place : StringPlace
  level : Nat

namespace Cursor

/-- Reads one octet. Outside of strings no backslash stands, and nothing is closed that is not open. -/
def step (s : Cursor) (octet : UInt8) : Option Cursor :=
  match s.place with
  | .outside =>
    if octet = 0x22 then some ⟨.inside, s.level⟩
    else if octet = 0x5C then none
    else if octet = 0x5B ∨ octet = 0x7B then some ⟨.outside, s.level + 1⟩
    else if octet = 0x5D ∨ octet = 0x7D then
      match s.level with
      | 0 => none
      | level + 1 => some ⟨.outside, level⟩
    else some ⟨.outside, s.level⟩
  | .inside =>
    if octet = 0x22 then some ⟨.outside, s.level⟩
    else if octet = 0x5C then some ⟨.escaped, s.level⟩
    else some ⟨.inside, s.level⟩
  | .escaped => some ⟨.inside, s.level⟩

def run (s : Cursor) (octets : Octets) : Option Cursor := octets.foldlM step s

private theorem run_cons (s : Cursor) (octet : UInt8) (octets : Octets) :
    s.run (octet :: octets) = (s.step octet).bind fun s => s.run octets := rfl

theorem run_append (s : Cursor) (front rest : Octets) :
    s.run (front ++ rest) = (s.run front).bind fun s => s.run rest :=
  List.foldlM_append

private theorem run_append_of_eq {s t : Cursor} {front : Octets} (h : s.run front = some t) (rest : Octets) :
    s.run (front ++ rest) = t.run rest := by
  rw [run_append, h, Option.bind_some]

private theorem run_still {s : Cursor} {octets : Octets} (h : ∀ octet ∈ octets, s.step octet = some s) :
    s.run octets = some s := by
  induction octets with
  | nil => rfl
  | cons octet octets ih =>
    rw [run_cons, h octet List.mem_cons_self, Option.bind_some]
    exact ih fun octet hmem => h octet (List.mem_cons_of_mem _ hmem)

private theorem step_raise {p q : StringPlace} {n m : Nat} {octet : UInt8} (h : step ⟨p, n⟩ octet = some ⟨q, m⟩) :
    step ⟨p, n + 1⟩ octet = some ⟨q, m + 1⟩ := by
  cases p with
  | outside =>
    simp only [step] at h ⊢
    by_cases hquote : octet = 0x22
    · rw [if_pos hquote] at h ⊢
      cases h
      rfl
    by_cases hslash : octet = 0x5C
    · rw [if_neg hquote, if_pos hslash] at h
      cases h
    rw [if_neg hquote, if_neg hslash] at h ⊢
    by_cases hopen : octet = 0x5B ∨ octet = 0x7B
    · rw [if_pos hopen] at h ⊢
      cases h
      rfl
    rw [if_neg hopen] at h ⊢
    by_cases hclose : octet = 0x5D ∨ octet = 0x7D
    · rw [if_pos hclose] at h ⊢
      cases n with
      | zero => cases h
      | succ n =>
        cases h
        rfl
    · rw [if_neg hclose] at h ⊢
      cases h
      rfl
  | inside =>
    simp only [step] at h ⊢
    by_cases hquote : octet = 0x22
    · rw [if_pos hquote] at h ⊢
      cases h
      rfl
    rw [if_neg hquote] at h ⊢
    by_cases hslash : octet = 0x5C
    · rw [if_pos hslash] at h ⊢
      cases h
      rfl
    · rw [if_neg hslash] at h ⊢
      cases h
      rfl
  | escaped =>
    cases h
    rfl

private theorem run_raise {p q : StringPlace} {n m : Nat} {octets : Octets} (h : run ⟨p, n⟩ octets = some ⟨q, m⟩) :
    run ⟨p, n + 1⟩ octets = some ⟨q, m + 1⟩ := by
  induction octets generalizing p n with
  | nil =>
    cases h
    rfl
  | cons octet octets ih =>
    rw [run_cons, Option.bind_eq_some_iff] at h
    obtain ⟨⟨place, level⟩, hstep, hrest⟩ := h
    rw [run_cons, step_raise hstep, Option.bind_some]
    exact ih hrest

def Opposite (p q : StringPlace) : Prop := p = .outside ∧ q = .inside ∨ p = .inside ∧ q = .outside

theorem Opposite.symm {p q : StringPlace} (h : Opposite p q) : Opposite q p :=
  Or.imp And.symm And.symm (Or.symm h)

private theorem step_opposite {octet : UInt8} {n m : Nat} {s t : Cursor}
    (hs : step ⟨.outside, n⟩ octet = some s) (ht : step ⟨.inside, m⟩ octet = some t) :
    Opposite s.place t.place := by
  simp only [step] at hs ht
  split at hs
  · next hquote =>
    rw [if_pos hquote] at ht
    cases hs
    cases ht
    exact .inr ⟨rfl, rfl⟩
  · next hquote =>
    split at hs
    · cases hs
    · next hslash =>
      rw [if_neg hquote, if_neg hslash] at ht
      cases ht
      refine .inl ⟨?_, rfl⟩
      split at hs
      · cases hs
        rfl
      · split at hs
        · cases n with
          | zero => cases hs
          | succ n =>
            cases hs
            rfl
        · cases hs
          rfl

/-- Scanners on either side of a quotation mark stay there, as long as both go on. -/
theorem run_opposite {octets : Octets} {s t s' t' : Cursor} (h : Opposite s.place t.place)
    (hs : s.run octets = some s') (ht : t.run octets = some t') : Opposite s'.place t'.place := by
  induction octets generalizing s t with
  | nil =>
    cases hs
    cases ht
    exact h
  | cons octet octets ih =>
    rw [run_cons, Option.bind_eq_some_iff] at hs ht
    obtain ⟨u, hu, hs⟩ := hs
    obtain ⟨v, hv, ht⟩ := ht
    refine ih ?_ hs ht
    obtain ⟨p, n⟩ := s
    obtain ⟨q, m⟩ := t
    rcases h with ⟨rfl, rfl⟩ | ⟨rfl, rfl⟩
    · exact step_opposite hu hv
    · exact (step_opposite hv hu).symm

end Cursor

namespace Utf8

private theorem mem_encodeChar {c : Char} {octet : UInt8} (h : octet ∈ encodeChar c) :
    octet.toNat = c.toNat ∨ 0x80 ≤ octet.toNat := by
  have hmax := toNat_char_lt c
  unfold encodeChar at h
  simp only at h
  split at h
  · rw [List.mem_singleton.1 h, UInt8.toNat_ofNat']
    omega
  · split at h
    · simp only [List.mem_cons, List.not_mem_nil, or_false] at h
      rcases h with rfl | rfl
      all_goals
        rw [UInt8.toNat_ofNat']
        omega
    · split at h
      · simp only [List.mem_cons, List.not_mem_nil, or_false] at h
        rcases h with rfl | rfl | rfl
        all_goals
          rw [UInt8.toNat_ofNat']
          omega
      · simp only [List.mem_cons, List.not_mem_nil, or_false] at h
        rcases h with rfl | rfl | rfl | rfl
        all_goals
          rw [UInt8.toNat_ofNat']
          omega

private theorem ne_of_mem_encodeChar {c : Char} {octet : UInt8} (h : octet ∈ encodeChar c) (code : UInt8)
    (hascii : code.toNat < 0x80) (hne : c.toNat ≠ code.toNat) : octet ≠ code := by
  rintro rfl
  rcases mem_encodeChar h with heq | hhigh
  · exact hne heq.symm
  · omega

end Utf8

namespace Cursor

open JsonReader

def IsNumberChar (c : Char) : Prop := isDigit c = true ∨ c = '-' ∨ c = '+' ∨ c = '.' ∨ c = 'e'

private theorem step_outside_number {c : Char} {octet : UInt8} (hc : IsNumberChar c)
    (h : octet ∈ Utf8.encodeChar c) (n : Nat) : step ⟨.outside, n⟩ octet = some ⟨.outside, n⟩ := by
  have hcode : 43 ≤ c.toNat ∧ c.toNat ≤ 57 ∨ c.toNat = 101 := by
    rcases hc with hdigit | rfl | rfl | rfl | rfl
    · simp only [isDigit, decide_eq_true_eq] at hdigit
      omega
    all_goals decide
  have hne (code : UInt8) (hascii : code.toNat < 0x80)
      (hother : ¬(43 ≤ code.toNat ∧ code.toNat ≤ 57 ∨ code.toNat = 101)) : octet ≠ code :=
    Utf8.ne_of_mem_encodeChar h code hascii (by omega)
  simp only [step, hne 0x22 (by decide) (by decide), hne 0x5C (by decide) (by decide),
    hne 0x5B (by decide) (by decide), hne 0x7B (by decide) (by decide), hne 0x5D (by decide) (by decide),
    hne 0x7D (by decide) (by decide), or_self, if_false]

private theorem run_number {text : List Char} (h : ∀ c ∈ text, IsNumberChar c) (n : Nat) :
    run ⟨.outside, n⟩ (Utf8.encode text) = some ⟨.outside, n⟩ := by
  apply run_still
  intro octet hoctet
  obtain ⟨c, hc, hmem⟩ := List.mem_flatMap.1 hoctet
  exact step_outside_number (h c hc) hmem n

private theorem isNumberChar_of_mem_sign {negative : Bool} {c : Char} (h : c ∈ signText negative) :
    IsNumberChar c := by
  cases negative with
  | true => exact .inr (.inl (List.mem_singleton.1 h))
  | false => cases h

private theorem isNumberChar_of_allDigits {digits : List Char} (hdigits : AllDigits digits) :
    ∀ c ∈ digits, IsNumberChar c := fun c hc => .inl (hdigits c hc)

private theorem isNumberChar_of_mem_integerText (k : Int) :
    ∀ c ∈ Document.integerText k, IsNumberChar c := by
  intro c hc
  rcases List.mem_append.1 hc with hc | hc
  · exact isNumberChar_of_mem_sign hc
  · exact isNumberChar_of_allDigits (allDigits_decimalDigits _) c hc

private theorem isNumberChar_of_mem_written {p : WrittenNumber} {c : Char} (h : c ∈ p.text) : IsNumberChar c := by
  rw [WrittenNumber.text, List.mem_append, List.mem_append] at h
  rcases h with h | h | h
  · exact isNumberChar_of_allDigits p.whole_digit c h
  · unfold fractionText at h
    split at h
    · cases h
    · rcases List.mem_cons.1 h with rfl | h
      · exact .inr (.inr (.inr (.inl rfl)))
      · exact isNumberChar_of_allDigits p.fraction_digit c h
  · cases hexponent : p.exponent with
    | none =>
      rw [hexponent] at h
      cases h
    | some e =>
      rw [hexponent, exponentText, List.mem_cons, List.mem_cons] at h
      rcases h with rfl | rfl | h
      · exact .inr (.inr (.inr (.inr rfl)))
      · split
        · exact .inr (.inl rfl)
        · exact .inr (.inr (.inl rfl))
      · exact isNumberChar_of_allDigits (allDigits_decimalDigits _) c h

private theorem isNumberChar_of_mem_documentText (x : Double) : ∀ c ∈ x.documentText, IsNumberChar c := by
  obtain ⟨p, htext, -, -⟩ := exists_documentText x
  rw [htext]
  intro c hc
  rcases List.mem_append.1 hc with hc | hc
  · exact isNumberChar_of_mem_sign hc
  · exact isNumberChar_of_mem_written hc

private theorem run_inside_char {c : Char} (hquote : c ≠ '"') (hslash : c ≠ '\\') (n : Nat) :
    run ⟨.inside, n⟩ (Utf8.encodeChar c) = some ⟨.inside, n⟩ := by
  apply run_still
  intro octet hoctet
  have hne22 : octet ≠ 0x22 :=
    Utf8.ne_of_mem_encodeChar hoctet 0x22 (by decide) fun h => hquote (Char.toNat_inj.1 h)
  have hne5C : octet ≠ 0x5C :=
    Utf8.ne_of_mem_encodeChar hoctet 0x5C (by decide) fun h => hslash (Char.toNat_inj.1 h)
  simp only [step, if_neg hne22, if_neg hne5C]

private theorem lowerDigit_plain : ∀ n < 16, Hexadecimal.lowerDigit n ≠ '"' ∧ Hexadecimal.lowerDigit n ≠ '\\' := by
  decide

private theorem run_quotedChar (c : Char) (n : Nat) :
    run ⟨.inside, n⟩ (Utf8.encode (Document.quotedChar c)) = some ⟨.inside, n⟩ := by
  unfold Document.quotedChar
  split
  · rfl
  next hquote =>
  split
  · rfl
  next hslash =>
  iterate 5
    split
    · rfl
  split
  · next hcontrol =>
    have hhigh := lowerDigit_plain (c.toNat / 16) (by omega)
    have hlow := lowerDigit_plain (c.toNat % 16) (by omega)
    have hcode : run ⟨.inside, n⟩ (Utf8.encode ['\\', 'u', '0', '0']) = some ⟨.inside, n⟩ := rfl
    rw [show ∀ a b : Char, ['\\', 'u', '0', '0', a, b] = ['\\', 'u', '0', '0'] ++ [a, b] from fun _ _ => rfl,
      Utf8.encode_append, run_append_of_eq hcode, Utf8.encode_cons,
      run_append_of_eq (run_inside_char hhigh.1 hhigh.2 n), Utf8.encode_cons,
      run_append_of_eq (run_inside_char hlow.1 hlow.2 n)]
    rfl
  · rw [Utf8.encode_cons, run_append_of_eq (run_inside_char hquote hslash n)]
    rfl

private theorem run_quotedChars (text : List Char) (n : Nat) :
    run ⟨.inside, n⟩ (Utf8.encode (text.flatMap Document.quotedChar)) = some ⟨.inside, n⟩ := by
  induction text with
  | nil => rfl
  | cons c text ih => rw [List.flatMap_cons, Utf8.encode_append, run_append_of_eq (run_quotedChar c n), ih]

private theorem run_quotedText (s : String) (n : Nat) :
    run ⟨.outside, n⟩ (Utf8.encode (Document.quotedText s)) = some ⟨.outside, n⟩ := by
  have hopen : run ⟨.outside, n⟩ (Utf8.encodeChar '"') = some ⟨.inside, n⟩ := rfl
  rw [Document.quotedText, List.cons_append, Utf8.encode_cons, run_append_of_eq hopen, Utf8.encode_append,
    run_append_of_eq (run_quotedChars s.toList n)]
  rfl

/-- A text that leaves the scanner outside of strings, on the level where it began. -/
def Balanced (text : List Char) : Prop :=
  ∀ n, run ⟨.outside, n⟩ (Utf8.encode text) = some ⟨.outside, n⟩

theorem Balanced.append {a b : List Char} (ha : Balanced a) (hb : Balanced b) : Balanced (a ++ b) := by
  intro n
  rw [Utf8.encode_append, run_append_of_eq (ha n), hb n]

theorem Balanced.cons {c : Char} {text : List Char} (hc : Balanced [c]) (h : Balanced text) :
    Balanced (c :: text) := hc.append h

private theorem Balanced.brackets {body : List Char} (h : Balanced body) : Balanced ('[' :: (body ++ [']'])) := by
  intro n
  have hopen : run ⟨.outside, n⟩ (Utf8.encodeChar '[') = some ⟨.outside, n + 1⟩ := rfl
  rw [Utf8.encode_cons, run_append_of_eq hopen, Utf8.encode_append, run_append_of_eq (h (n + 1))]
  rfl

private theorem Balanced.braces {body : List Char} (h : Balanced body) :
    Balanced ('\x7b' :: (body ++ ['\x7d'])) := by
  intro n
  have hopen : run ⟨.outside, n⟩ (Utf8.encodeChar '\x7b') = some ⟨.outside, n + 1⟩ := rfl
  rw [Utf8.encode_cons, run_append_of_eq hopen, Utf8.encode_append, run_append_of_eq (h (n + 1))]
  rfl

private theorem balanced_nil : Balanced [] := fun _ => rfl

private theorem balanced_comma : Balanced [','] := fun _ => rfl

private theorem balanced_colon : Balanced [':'] := fun _ => rfl

mutual

private theorem balanced_jsonText (d : Document) : Balanced d.jsonText := by
  cases d with
  | null => exact fun _ => rfl
  | bool value =>
    cases value with
    | true => exact fun _ => rfl
    | false => exact fun _ => rfl
  | integer k => exact run_number (isNumberChar_of_mem_integerText k.val)
  | float x => exact run_number (isNumberChar_of_mem_documentText x)
  | text s => exact run_quotedText s
  | array items =>
    obtain ⟨body, hbody, hbalanced⟩ := exists_jsonText_array items
    rw [hbody]
    exact hbalanced.brackets
  | object members =>
    obtain ⟨body, hbody, hbalanced⟩ := exists_jsonText_object members
    rw [hbody]
    exact hbalanced.braces

theorem exists_jsonText_array (items : List Document) :
    ∃ body, (Document.array items).jsonText = '[' :: (body ++ [']']) ∧ Balanced body := by
  cases items with
  | nil => exact ⟨[], rfl, balanced_nil⟩
  | cons item items =>
    obtain ⟨body, hbody, hbalanced⟩ := exists_itemsText items
    refine ⟨item.jsonText ++ body, ?_, (balanced_jsonText item).append hbalanced⟩
    rw [Document.jsonText, hbody]
    simp only [List.cons_append, List.append_assoc]

theorem exists_jsonText_object (members : List (String × Document)) :
    ∃ body, (Document.object members).jsonText = '\x7b' :: (body ++ ['\x7d']) ∧ Balanced body := by
  cases members with
  | nil => exact ⟨[], rfl, balanced_nil⟩
  | cons member members =>
    obtain ⟨name, value⟩ := member
    obtain ⟨body, hbody, hbalanced⟩ := exists_membersText members
    refine ⟨Document.quotedText name ++ ':' :: (value.jsonText ++ body), ?_, ?_⟩
    · rw [Document.jsonText, hbody]
      simp only [List.cons_append, List.append_assoc]
    · have hvalue := balanced_colon.cons ((balanced_jsonText value).append hbalanced)
      exact Balanced.append (run_quotedText name) hvalue

private theorem exists_itemsText (items : List Document) :
    ∃ body, Document.itemsText items = body ++ [']'] ∧ Balanced body := by
  cases items with
  | nil => exact ⟨[], rfl, balanced_nil⟩
  | cons item items =>
    obtain ⟨body, hbody, hbalanced⟩ := exists_itemsText items
    refine ⟨',' :: (item.jsonText ++ body), ?_, ?_⟩
    · rw [Document.itemsText, hbody]
      simp only [List.cons_append, List.append_assoc]
    · exact balanced_comma.cons ((balanced_jsonText item).append hbalanced)

private theorem exists_membersText (members : List (String × Document)) :
    ∃ body, Document.membersText members = body ++ ['\x7d'] ∧ Balanced body := by
  cases members with
  | nil => exact ⟨[], rfl, balanced_nil⟩
  | cons member members =>
    obtain ⟨name, value⟩ := member
    obtain ⟨body, hbody, hbalanced⟩ := exists_membersText members
    refine ⟨',' :: (Document.quotedText name ++ ':' :: (value.jsonText ++ body)), ?_, ?_⟩
    · rw [Document.membersText, hbody]
      simp only [List.cons_append, List.append_assoc]
    · have hvalue := balanced_colon.cons ((balanced_jsonText value).append hbalanced)
      exact balanced_comma.cons (Balanced.append (run_quotedText name) hvalue)

end

end Cursor

namespace Document

open Cursor JsonReader

private theorem exists_writeJson_object (members : List (String × Document)) :
    ∃ body, (object members).writeJson = 0x7B :: (body ++ [0x7D]) ∧
      run ⟨.outside, 0⟩ body = some ⟨.outside, 0⟩ := by
  obtain ⟨body, hbody, hbalanced⟩ := Cursor.exists_jsonText_object members
  refine ⟨Utf8.encode body, ?_, hbalanced 0⟩
  rw [writeJson, hbody, Utf8.encode_cons, Utf8.encode_append]
  rfl

private theorem not_mem_encode_number {text : List Char} (h : ∀ c ∈ text, IsNumberChar c) :
    0x7D ∉ Utf8.encode text := by
  intro hmem
  obtain ⟨c, hc, hoctet⟩ := List.mem_flatMap.1 hmem
  have hstep := step_outside_number (h c hc) hoctet 0
  cases hstep

/-- Only an object ends with a closing brace. -/
theorem exists_object_of_writeJson {d : Document} {front : Octets} (h : d.writeJson = front ++ [0x7D]) :
    ∃ members, d = .object members := by
  have hlast (text : List Char) (c : Char) (octet : UInt8) (hc : Utf8.encodeChar c = [octet])
      (hne : octet ≠ 0x7D) (htext : d.jsonText = text ++ [c]) : False := by
    rw [writeJson, htext, Utf8.encode_append, Utf8.encode_cons, hc] at h
    have hoctet := congrArg List.getLast? h
    simp only [Utf8.encode, List.flatMap_nil, List.append_nil, List.getLast?_append, List.getLast?_singleton,
      Option.some_or, Option.some.injEq] at hoctet
    exact hne hoctet
  have hmem : 0x7D ∈ Utf8.encode d.jsonText := by
    rw [← writeJson, h]
    simp
  cases d with
  | null => exact (hlast ['n', 'u', 'l'] 'l' 0x6C rfl (by decide) rfl).elim
  | bool value =>
    cases value with
    | true => exact (hlast ['t', 'r', 'u'] 'e' 0x65 rfl (by decide) rfl).elim
    | false => exact (hlast ['f', 'a', 'l', 's'] 'e' 0x65 rfl (by decide) rfl).elim
  | integer k => exact absurd hmem (not_mem_encode_number (isNumberChar_of_mem_integerText k.val))
  | float x => exact absurd hmem (not_mem_encode_number (isNumberChar_of_mem_documentText x))
  | text s => exact (hlast _ '"' 0x22 rfl (by decide) rfl).elim
  | array items =>
    obtain ⟨body, hbody, -⟩ := Cursor.exists_jsonText_array items
    exact (hlast ('[' :: body) ']' 0x5D rfl (by decide) hbody).elim
  | object members => exact ⟨members, rfl⟩

private theorem writeJson_ne_nil (d : Document) : d.writeJson ≠ [] := by
  intro hnil
  obtain ⟨c, tail, htext, -⟩ := head_jsonText d
  have hdecode := Utf8.decode?_encode d.jsonText
  rw [← writeJson, hnil, htext] at hdecode
  simp [Utf8.decode?] at hdecode

/-- Nothing stands in front of one text in the text of an object. -/
theorem eq_nil_of_writeJson_append {members : List (String × Document)} {d : Document} {front : Octets}
    (h : (object members).writeJson = front ++ d.writeJson) : front = [] := by
  obtain ⟨body, hbody, hrun⟩ := exists_writeJson_object members
  cases front with
  | nil => rfl
  | cons first front =>
    rw [hbody, List.cons_append, List.cons.injEq] at h
    -- The shorter text is the end of the body with the closing brace, so it is an object too.
    obtain ⟨inner, last, hd⟩ := (List.eq_nil_or_concat d.writeJson).resolve_left d.writeJson_ne_nil
    rw [List.concat_eq_append] at hd
    rw [hd, ← List.append_assoc] at h
    obtain ⟨rfl, hlast⟩ := List.append_inj' h.2 rfl
    cases hlast
    obtain ⟨members', rfl⟩ := exists_object_of_writeJson hd
    obtain ⟨body', hbody', -⟩ := exists_writeJson_object members'
    rw [run_append, Option.bind_eq_some_iff] at hrun
    obtain ⟨⟨place, level⟩, -, hinner⟩ := hrun
    have hopen : run ⟨place, level + 1⟩ (object members').writeJson = some ⟨.outside, 0⟩ := by
      rw [hd, run_append_of_eq (run_raise hinner)]
      rfl
    have hfresh : run ⟨.outside, level + 1⟩ (object members').writeJson = some ⟨.outside, level + 1⟩ :=
      balanced_jsonText _ _
    cases place with
    | outside =>
      rw [hopen] at hfresh
      cases hfresh
    | inside =>
      rcases run_opposite (.inl ⟨rfl, rfl⟩) hfresh hopen with ⟨-, hplace⟩ | ⟨hplace, -⟩
      all_goals cases hplace
    | escaped =>
      -- The brace is what the backslash escapes; behind it the scanner is in the string.
      rw [hbody', run_cons] at hopen hfresh
      rcases run_opposite (.inl ⟨rfl, rfl⟩) hfresh hopen with ⟨-, hplace⟩ | ⟨hplace, -⟩
      all_goals cases hplace

/-- Octets that stand in front of the text of an object are told apart from it. -/
theorem append_writeJson_inj {members : List (String × Document)} {d : Document} {front front' : Octets}
    (h : front ++ (object members).writeJson = front' ++ d.writeJson) :
    front = front' ∧ object members = d := by
  rcases List.append_eq_append_iff.1 h with ⟨gap, rfl, hgap⟩ | ⟨gap, rfl, hgap⟩
  · obtain rfl := eq_nil_of_writeJson_append hgap
    exact ⟨by rw [List.append_nil], writeJson_inj hgap⟩
  · obtain ⟨body, hbody, -⟩ := exists_writeJson_object members
    have hend : d.writeJson = (gap ++ 0x7B :: body) ++ [0x7D] := by
      rw [hgap, hbody, List.append_assoc, List.cons_append]
    obtain ⟨members', rfl⟩ := exists_object_of_writeJson hend
    obtain rfl := eq_nil_of_writeJson_append hgap
    exact ⟨by rw [List.append_nil], (writeJson_inj hgap).symm⟩

end Document
end FieldLink
