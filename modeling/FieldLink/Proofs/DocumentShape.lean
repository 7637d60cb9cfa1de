import FieldLink.Document
import FieldLink.Utf8
import Mathlib.Data.List.Induction
import Mathlib.Data.List.Nodup

/-!
# The documents that travel unchanged

How deep they are, that no name stands twice in an object, and that every length in them can be told in 64 bits.
-/

namespace FieldLink

/-- A text whose octets can be counted in 64 bits. -/
def FitsMemory (s : String) : Prop := (Utf8.encode s.toList).length < 2 ^ 64

instance (s : String) : Decidable (FitsMemory s) := inferInstanceAs (Decidable (_ < _))

namespace Document

mutual

/-- How many arrays and objects stand inside one another. -/
def depth : Document → Nat
  | .array items => itemsDepth items + 1
  | .object members => membersDepth members + 1
  | _ => 0

def itemsDepth : List Document → Nat
  | [] => 0
  | item :: rest => max (depth item) (itemsDepth rest)

def membersDepth : List (String × Document) → Nat
  | [] => 0
  | (_, value) :: rest => max (depth value) (membersDepth rest)

end

mutual

/-- No object inside has a name twice. -/
def HasDistinctNames : Document → Prop
  | .array items => ItemsHaveDistinctNames items
  | .object members => (members.map Prod.fst).Nodup ∧ MembersHaveDistinctNames members
  | _ => True

def ItemsHaveDistinctNames : List Document → Prop
  | [] => True
  | item :: rest => HasDistinctNames item ∧ ItemsHaveDistinctNames rest

def MembersHaveDistinctNames : List (String × Document) → Prop
  | [] => True
  | (_, value) :: rest => HasDistinctNames value ∧ MembersHaveDistinctNames rest

end

mutual

/-- Every text, array and object inside has a length that fits 64 bits. -/
def Fits : Document → Prop
  | .text s => FitsMemory s
  | .array items => items.length < 2 ^ 64 ∧ ItemsFit items
  | .object members => members.length < 2 ^ 64 ∧ MembersFit members
  | _ => True

def ItemsFit : List Document → Prop
  | [] => True
  | item :: rest => Fits item ∧ ItemsFit rest

def MembersFit : List (String × Document) → Prop
  | [] => True
  | (name, value) :: rest => FitsMemory name ∧ Fits value ∧ MembersFit rest

end

end Document

private theorem setMember_of_new {α : Type} {name : String} {members : List (String × α)}
    (h : name ∉ members.map Prod.fst) (value : α) :
    setMember name value members = members ++ [(name, value)] := by
  induction members with
  | nil => rfl
  | cons member members ih =>
    obtain ⟨other, old⟩ := member
    simp only [List.map_cons, List.mem_cons, not_or] at h
    rw [setMember, if_neg (Ne.symm h.1), ih h.2, List.cons_append]

theorem mergeMembers_of_nodup {α : Type} {members : List (String × α)}
    (h : (members.map Prod.fst).Nodup) : mergeMembers members = members := by
  have hmerge (merged : List (String × α)) (hall : ((merged ++ members).map Prod.fst).Nodup) :
      members.foldl (fun merged member => setMember member.1 member.2 merged) merged = merged ++ members := by
    induction members generalizing merged with
    | nil => rw [List.foldl_nil, List.append_nil]
    | cons member members ih =>
      have hnew : member.1 ∉ merged.map Prod.fst := by
        intro hmem
        rw [List.map_append, List.nodup_append] at hall
        exact hall.2.2 member.1 hmem member.1 List.mem_cons_self rfl
      have hsplit : merged ++ member :: members = merged ++ [member] ++ members := by
        rw [List.append_assoc, List.singleton_append]
      rw [List.foldl_cons, setMember_of_new hnew, hsplit]
      rw [hsplit] at hall
      exact ih (List.nodup_cons.mp h).2 _ hall
  exact hmerge [] h

section Merging

variable {α : Type} (name : String) (value : α) {members : List (String × α)}

private theorem names_setMember_of_mem {name : String} (h : name ∈ members.map Prod.fst) :
    (setMember name value members).map Prod.fst = members.map Prod.fst := by
  induction members with
  | nil => cases h
  | cons first rest ih =>
    obtain ⟨other, old⟩ := first
    rw [setMember]
    split
    · rfl
    · next hne =>
      rcases List.mem_cons.mp h with heq | hrest
      · exact absurd heq.symm hne
      · rw [List.map_cons, ih hrest, List.map_cons]

private theorem mem_of_mem_setMember {member : String × α} (h : member ∈ setMember name value members) :
    member = (name, value) ∨ member ∈ members := by
  induction members with
  | nil => exact .inl (List.mem_singleton.mp h)
  | cons first rest ih =>
    obtain ⟨other, old⟩ := first
    rw [setMember] at h
    split at h
    · next heq =>
      rcases List.mem_cons.mp h with rfl | hrest
      · exact .inl (by rw [heq])
      · exact .inr (List.mem_cons_of_mem _ hrest)
    · rcases List.mem_cons.mp h with rfl | hrest
      · exact .inr List.mem_cons_self
      · rcases ih hrest with hnew | hold
        · exact .inl hnew
        · exact .inr (List.mem_cons_of_mem _ hold)

private theorem nodup_setMember (h : (members.map Prod.fst).Nodup) :
    ((setMember name value members).map Prod.fst).Nodup ∧
      (setMember name value members).length ≤ members.length + 1 := by
  by_cases hmem : name ∈ members.map Prod.fst
  · have hnames := names_setMember_of_mem value hmem
    have hlength := congrArg List.length hnames
    rw [List.length_map, List.length_map] at hlength
    rw [hnames]
    exact ⟨h, by omega⟩
  · rw [setMember_of_new hmem, List.map_append, List.length_append, List.map_singleton]
    refine ⟨List.nodup_append.mpr ⟨h, List.nodup_singleton _, ?_⟩, Nat.le_refl _⟩
    rintro other hother new hnew rfl
    rw [List.mem_singleton.mp hnew] at hother
    exact hmem hother

private theorem mergeMembers_concat (members : List (String × α)) (member : String × α) :
    mergeMembers (members ++ [member]) = setMember member.1 member.2 (mergeMembers members) :=
  List.foldl_append

theorem nodup_mergeMembers (members : List (String × α)) :
    ((mergeMembers members).map Prod.fst).Nodup ∧ (mergeMembers members).length ≤ members.length := by
  induction members using List.reverseRecOn with
  | nil => exact ⟨List.nodup_nil, Nat.le_refl _⟩
  | append_singleton members member ih =>
    obtain ⟨hnodup, hlength⟩ := nodup_setMember member.1 member.2 ih.1
    rw [mergeMembers_concat, List.length_append, List.length_singleton]
    exact ⟨hnodup, Nat.le_trans hlength (Nat.succ_le_succ ih.2)⟩

theorem mem_of_mem_mergeMembers {member : String × α} (h : member ∈ mergeMembers members) : member ∈ members := by
  induction members using List.reverseRecOn with
  | nil => exact h
  | append_singleton members last ih =>
    rw [mergeMembers_concat] at h
    rcases mem_of_mem_setMember _ _ h with rfl | hold
    · exact List.mem_append_right _ List.mem_cons_self
    · exact List.mem_append_left _ (ih hold)

end Merging

end FieldLink
