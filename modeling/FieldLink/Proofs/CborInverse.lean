import FieldLink.CborReader
import FieldLink.Proofs.DocumentShape
import FieldLink.Proofs.FloatRounding
import FieldLink.Proofs.Utf8Text

/-!
# CBOR items read back from their octets

A CBOR item is read back from its shortest octets, whatever follows them. The induction is over the item; a
reader that may take two steps for each octet always gets to its end.
-/

namespace FieldLink

namespace Cbor

mutual

/-- How many arrays, maps and tags stand inside one another. -/
def depth : Cbor → Nat
  | .array items => itemsDepth items + 1
  | .map entries => entriesDepth entries + 1
  | .tagged _ item => depth item + 1
  | _ => 0

def itemsDepth : List Cbor → Nat
  | [] => 0
  | item :: rest => max (depth item) (itemsDepth rest)

def entriesDepth : List (Cbor × Cbor) → Nat
  | [] => 0
  | (key, value) :: rest => max (max (depth key) (depth value)) (entriesDepth rest)

end

mutual

/-- The items that have octets of their own: lengths, tags and integers fit their heads, and no tag is one
of the two that make a string a big number. -/
def Encodable : Cbor → Prop
  | .null => True
  | .bool _ => True
  | .integer n => -2 ^ 64 ≤ n ∧ n < 2 ^ 64
  | .float _ => True
  | .text s => FitsMemory s
  | .bytes octets => octets.length < 2 ^ 64
  | .array items => items.length < 2 ^ 64 ∧ ItemsEncodable items
  | .map entries => entries.length < 2 ^ 64 ∧ EntriesEncodable entries
  | .tagged tag item => tag < 2 ^ 64 ∧ tag ≠ 2 ∧ tag ≠ 3 ∧ Encodable item

def ItemsEncodable : List Cbor → Prop
  | [] => True
  | item :: rest => Encodable item ∧ ItemsEncodable rest

def EntriesEncodable : List (Cbor × Cbor) → Prop
  | [] => True
  | (key, value) :: rest => Encodable key ∧ Encodable value ∧ EntriesEncodable rest

end

theorem exists_head (major n : Nat) :
    ∃ info rest, info < 32 ∧ head major n = UInt8.ofNat (32 * major + info) :: rest := by
  unfold head
  simp only
  split
  · exact ⟨n, [], by omega, rfl⟩
  · split
    · exact ⟨24, _, by decide, rfl⟩
    · split
      · exact ⟨25, _, by decide, rfl⟩
      · split
        · exact ⟨26, _, by decide, rfl⟩
        · exact ⟨27, _, by decide, rfl⟩

private theorem length_head_pos (major n : Nat) : 0 < (head major n).length := by
  obtain ⟨info, rest, -, hhead⟩ := exists_head major n
  rw [hhead]
  exact Nat.succ_pos _

private theorem length_writeFinite_pos (x : Double) : 0 < (writeFinite x).length := by
  rw [writeFinite]
  cases x.exactly? .half with
  | some h => exact Nat.succ_pos _
  | none =>
    cases x.exactly? .single with
    | some s => exact Nat.succ_pos _
    | none => exact Nat.succ_pos _

theorem length_write_pos (item : Cbor) : 0 < item.write.length := by
  cases item with
  | null => exact Nat.one_pos
  | bool value => cases value <;> exact Nat.one_pos
  | integer n =>
    rw [write, writeInteger]
    split
    all_goals exact length_head_pos _ _
  | float x =>
    cases x with
    | finite x => exact length_writeFinite_pos x
    | infinite negative => exact Nat.succ_pos _
    | invalid => exact Nat.succ_pos _
  | text s =>
    rw [write, writeText, List.length_append]
    exact Nat.add_pos_left (length_head_pos _ _) _
  | bytes octets | array items | map entries | tagged tag item =>
    rw [write, List.length_append]
    exact Nat.add_pos_left (length_head_pos _ _) _

end Cbor

namespace CborReader

private theorem toNat_first {major info : Nat} (hmajor : major < 8) (hinfo : info < 32) :
    (UInt8.ofNat (32 * major + info)).toNat = 32 * major + info := by
  rw [UInt8.toNat_ofNat']
  omega

private theorem readHead_wide (major info width : Nat) {n : Nat} (hmajor : major < 8)
    (hwidth : info = 24 ∧ width = 1 ∨ info = 25 ∧ width = 2 ∨ info = 26 ∧ width = 4 ∨ info = 27 ∧ width = 8)
    (hn : n < 256 ^ width) (rest : Octets) :
    readHead (UInt8.ofNat (32 * major + info) :: (Octets.bigEndian width n ++ rest)) =
      some (⟨major, info, some n⟩, rest) := by
  have hfirst := toNat_first hmajor (show info < 32 by omega)
  have hmajors : (32 * major + info) / 32 = major := by omega
  have hinfos : (32 * major + info) % 32 = info := by omega
  have hsplit : Octets.split? width (Octets.bigEndian width n ++ rest) =
      some (Octets.bigEndian width n, rest) := by
    have h := Octets.split?_append (Octets.bigEndian width n) rest
    rw [Octets.length_bigEndian] at h
    exact h
  simp only [readHead, hfirst, hmajors, hinfos]
  rcases hwidth with ⟨rfl, rfl⟩ | ⟨rfl, rfl⟩ | ⟨rfl, rfl⟩ | ⟨rfl, rfl⟩
  all_goals
    simp only [hsplit, Option.map_some, Octets.toNat_bigEndian _ _ hn]
    rfl

theorem readHead_head {major n : Nat} (hmajor : major < 8) (hn : n < 2 ^ 64) (rest : Octets) :
    ∃ info, readHead (Cbor.head major n ++ rest) = some (⟨major, info, some n⟩, rest) := by
  unfold Cbor.head
  simp only
  split
  · next hshort =>
    refine ⟨n, ?_⟩
    have hfirst := toNat_first hmajor (show n < 32 by omega)
    have hmajors : (32 * major + n) / 32 = major := by omega
    have hinfos : (32 * major + n) % 32 = n := by omega
    simp only [List.singleton_append, readHead, hfirst, hmajors, hinfos, if_pos hshort]
  · split
    · next h => exact ⟨24, readHead_wide major 24 1 hmajor (by omega) h rest⟩
    · split
      · next h => exact ⟨25, readHead_wide major 25 2 hmajor (by omega) h rest⟩
      · split
        · next h => exact ⟨26, readHead_wide major 26 4 hmajor (by omega) h rest⟩
        · next h => exact ⟨27, readHead_wide major 27 8 hmajor (by omega) hn rest⟩

private theorem readItem_simple {octets rest : Octets} {info n : Nat} {item : Cbor}
    (hread : readHead octets = some (⟨7, info, some n⟩, rest)) (hvalue : simple? info n = some item)
    (fuel depth : Nat) : readItem (fuel + 1) depth octets = some (item, rest) := by
  rw [readItem, hread]
  simp only [Option.bind_eq_bind, Option.bind_some, hvalue, Option.map_some]

private theorem readItem_writeHalf {bits : Nat} (hbits : bits < 256 ^ 2) (fuel depth : Nat) (rest : Octets) :
    readItem (fuel + 1) depth (Cbor.writeHalf bits ++ rest) =
      some (.float (.convert .double (.ofBits .half bits)), rest) :=
  readItem_simple (readHead_wide 7 25 2 (by decide) (by decide) hbits rest) rfl fuel depth

private theorem readItem_writeSingle {bits : Nat} (hbits : bits < 256 ^ 4) (fuel depth : Nat) (rest : Octets) :
    readItem (fuel + 1) depth (Cbor.writeSingle bits ++ rest) =
      some (.float (.convert .double (.ofBits .single bits)), rest) :=
  readItem_simple (readHead_wide 7 26 4 (by decide) (by decide) hbits rest) rfl fuel depth

private theorem readItem_writeDouble {bits : Nat} (hbits : bits < 256 ^ 8) (fuel depth : Nat) (rest : Octets) :
    readItem (fuel + 1) depth (Cbor.writeDouble bits ++ rest) =
      some (.float (.ofBits .double bits), rest) :=
  readItem_simple (readHead_wide 7 27 8 (by decide) (by decide) hbits rest) rfl fuel depth

private theorem readItem_writeFloat (x : FloatValue .double) (fuel depth : Nat) (rest : Octets) :
    readItem (fuel + 1) depth (Cbor.writeFloat x ++ rest) = some (.float x, rest) := by
  cases x with
  | finite x =>
    rw [Cbor.writeFloat, Cbor.writeFinite]
    cases hhalf : x.exactly? .half with
    | some h =>
      rw [Option.elim_some, readItem_writeHalf h.toBits_lt, FloatValue.ofBits_toBits, FiniteFloat.convert_of_exactly? hhalf]
    | none =>
      cases hsingle : x.exactly? .single with
      | some s =>
        rw [Option.elim_none, Option.elim_some, readItem_writeSingle s.toBits_lt, FloatValue.ofBits_toBits,
          FiniteFloat.convert_of_exactly? hsingle]
      | none =>
        rw [Option.elim_none, Option.elim_none, readItem_writeDouble x.toBits_lt, FloatValue.ofBits_toBits]
  | infinite negative =>
    cases negative with
    | true => exact readItem_writeHalf (by decide) fuel depth rest
    | false => exact readItem_writeHalf (by decide) fuel depth rest
  | invalid => exact readItem_writeHalf (by decide) fuel depth rest

mutual

/-- An item is read back from its octets. -/
theorem readItem_write (item : Cbor) (depth fuel : Nat) (rest : Octets) (hitem : item.Encodable)
    (hdepth : item.depth ≤ depth) (hfuel : 2 * item.write.length ≤ fuel) :
    readItem fuel depth (item.write ++ rest) = some (item, rest) := by
  -- The recursion is on the fuel: what is nested has two steps less, and octets fewer by a head.
  obtain ⟨steps, rfl⟩ : ∃ steps, fuel = steps + 1 := by
    have := item.length_write_pos
    exact ⟨fuel - 1, by omega⟩
  cases item with
  | null => exact readItem_simple (show readHead (0xF6 :: rest) = some (⟨7, 22, some 22⟩, rest) from rfl) rfl steps depth
  | bool value =>
    cases value with
    | true => exact readItem_simple (show readHead (0xF5 :: rest) = some (⟨7, 21, some 21⟩, rest) from rfl) rfl steps depth
    | false => exact readItem_simple (show readHead (0xF4 :: rest) = some (⟨7, 20, some 20⟩, rest) from rfl) rfl steps depth
  | integer n =>
    rw [Cbor.Encodable] at hitem
    rw [Cbor.write, Cbor.writeInteger]
    split
    · next hneg =>
      obtain ⟨info, hread⟩ := readHead_head (show 1 < 8 by decide) (show (-1 - n).toNat < 2 ^ 64 by omega) rest
      rw [readItem, hread]
      simp only [Option.bind_eq_bind, Option.bind_some]
      congr 3
      omega
    · next hneg =>
      obtain ⟨info, hread⟩ := readHead_head (show 0 < 8 by decide) (show n.toNat < 2 ^ 64 by omega) rest
      rw [readItem, hread]
      simp only [Option.bind_eq_bind, Option.bind_some]
      congr 3
      omega
  | float x => exact readItem_writeFloat x steps depth rest
  | text s =>
    obtain ⟨info, hread⟩ := readHead_head (show 3 < 8 by decide) hitem (Utf8.encode s.toList ++ rest)
    rw [Cbor.write, Cbor.writeText, List.append_assoc, readItem, hread]
    simp only [Option.bind_eq_bind, Option.bind_some, readString, Octets.split?_append, Option.map_some,
      textOf?, List.mapM_cons, List.mapM_nil, Utf8.decode?_encode, Option.pure_def, List.flatten_cons,
      List.flatten_nil, List.append_nil, String.ofList_toList]
  | bytes octets =>
    obtain ⟨info, hread⟩ := readHead_head (show 2 < 8 by decide) hitem (octets ++ rest)
    rw [Cbor.write, List.append_assoc, readItem, hread]
    simp only [Option.bind_eq_bind, Option.bind_some, readString, Octets.split?_append, Option.map_some,
      List.flatten_cons, List.flatten_nil, List.append_nil]
  | array items =>
    rw [Cbor.Encodable] at hitem
    rw [Cbor.depth] at hdepth
    obtain ⟨below, rfl⟩ : ∃ below, depth = below + 1 := ⟨depth - 1, by omega⟩
    have hhead := Cbor.length_head_pos 4 items.length
    rw [Cbor.write, List.length_append] at hfuel
    obtain ⟨info, hread⟩ := readHead_head (show 4 < 8 by decide) hitem.1 (Cbor.writeItems items ++ rest)
    rw [Cbor.write, List.append_assoc, readItem, hread]
    simp only [Option.bind_eq_bind, Option.bind_some,
      readItems_writeItems items below steps rest hitem.2 (by omega) (by omega), Option.map_some]
  | map entries =>
    rw [Cbor.Encodable] at hitem
    rw [Cbor.depth] at hdepth
    obtain ⟨below, rfl⟩ : ∃ below, depth = below + 1 := ⟨depth - 1, by omega⟩
    have hhead := Cbor.length_head_pos 5 entries.length
    rw [Cbor.write, List.length_append] at hfuel
    obtain ⟨info, hread⟩ := readHead_head (show 5 < 8 by decide) hitem.1 (Cbor.writeEntries entries ++ rest)
    rw [Cbor.write, List.append_assoc, readItem, hread]
    simp only [Option.bind_eq_bind, Option.bind_some,
      readEntries_writeEntries entries below steps rest hitem.2 (by omega) (by omega), Option.map_some]
  | tagged tag inner =>
    rw [Cbor.Encodable] at hitem
    rw [Cbor.depth] at hdepth
    obtain ⟨below, rfl⟩ : ∃ below, depth = below + 1 := ⟨depth - 1, by omega⟩
    have hhead := Cbor.length_head_pos 6 tag
    rw [Cbor.write, List.length_append] at hfuel
    have hbig : readBigNumber tag (inner.write ++ rest) = none := by
      rw [readBigNumber, if_neg (not_or.mpr ⟨hitem.2.1, hitem.2.2.1⟩)]
    obtain ⟨info, hread⟩ := readHead_head (show 6 < 8 by decide) hitem.1 (inner.write ++ rest)
    rw [Cbor.write, List.append_assoc, readItem, hread]
    simp only [Option.bind_eq_bind, Option.bind_some, hbig,
      readItem_write inner below steps rest hitem.2.2.2 (by omega) (by omega), Option.map_some]
termination_by fuel

private theorem readItems_writeItems (items : List Cbor) (depth fuel : Nat) (rest : Octets)
    (hitems : Cbor.ItemsEncodable items) (hdepth : Cbor.itemsDepth items ≤ depth)
    (hfuel : 2 * (Cbor.writeItems items).length < fuel) :
    readItems fuel depth items.length (Cbor.writeItems items ++ rest) = some (items, rest) := by
  obtain ⟨steps, rfl⟩ : ∃ steps, fuel = steps + 1 := ⟨fuel - 1, by omega⟩
  cases items with
  | nil => rw [Cbor.writeItems, List.nil_append, List.length_nil, readItems]
  | cons item items =>
    rw [Cbor.ItemsEncodable] at hitems
    rw [Cbor.itemsDepth] at hdepth
    have hpos := item.length_write_pos
    rw [Cbor.writeItems, List.length_append] at hfuel
    rw [Cbor.writeItems, List.append_assoc, List.length_cons, readItems,
      readItem_write item depth steps _ hitems.1 (by omega) (by omega)]
    simp only [Option.bind_eq_bind, Option.bind_some,
      readItems_writeItems items depth steps rest hitems.2 (by omega) (by omega), Option.pure_def]
termination_by fuel

private theorem readEntries_writeEntries (entries : List (Cbor × Cbor)) (depth fuel : Nat) (rest : Octets)
    (hentries : Cbor.EntriesEncodable entries) (hdepth : Cbor.entriesDepth entries ≤ depth)
    (hfuel : 2 * (Cbor.writeEntries entries).length < fuel) :
    readEntries fuel depth entries.length (Cbor.writeEntries entries ++ rest) = some (entries, rest) := by
  obtain ⟨steps, rfl⟩ : ∃ steps, fuel = steps + 1 := ⟨fuel - 1, by omega⟩
  cases entries with
  | nil => rw [Cbor.writeEntries, List.nil_append, List.length_nil, readEntries]
  | cons entry entries =>
    obtain ⟨key, value⟩ := entry
    rw [Cbor.EntriesEncodable] at hentries
    rw [Cbor.entriesDepth] at hdepth
    have hpos := key.length_write_pos
    rw [Cbor.writeEntries, List.length_append, List.length_append] at hfuel
    rw [Cbor.writeEntries, List.append_assoc, List.append_assoc, List.length_cons, readEntries,
      readItem_write key depth steps _ hentries.1 (by omega) (by omega)]
    simp only [Option.bind_eq_bind, Option.bind_some,
      readItem_write value depth steps _ hentries.2.1 (by omega) (by omega),
      readEntries_writeEntries entries depth steps rest hentries.2.2 (by omega) (by omega), Option.pure_def]
termination_by fuel

end

/-- An item that takes up its octets alone is what they are read as. -/
theorem read?_write {item : Cbor} (hitem : item.Encodable) (hdepth : item.depth ≤ maxDepth) :
    read? item.write = some (item, []) := by
  have hread := readItem_write item maxDepth (2 * item.write.length + 2) [] hitem hdepth (by omega)
  rw [List.append_nil] at hread
  exact hread

end CborReader
end FieldLink
