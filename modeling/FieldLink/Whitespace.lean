/-! # The Unicode property White_Space, and texts without it at their ends -/

namespace FieldLink

def isSpace (c : Char) : Bool :=
  let n := c.toNat
  (9 ≤ n ∧ n ≤ 13) ∨ n = 0x20 ∨ n = 0x85 ∨ n = 0xA0 ∨ n = 0x1680 ∨ (0x2000 ≤ n ∧ n ≤ 0x200A) ∨
    n = 0x2028 ∨ n = 0x2029 ∨ n = 0x202F ∨ n = 0x205F ∨ n = 0x3000

def trimEnd (text : List Char) : List Char := (text.reverse.dropWhile isSpace).reverse

def trim (text : List Char) : List Char := trimEnd (text.dropWhile isSpace)

/-- Trimming takes away the spaces at both ends of a text without any inside. -/
theorem trim_append {front text back : List Char} (hfront : ∀ c ∈ front, isSpace c = true)
    (htext : ∀ c ∈ text, isSpace c = false) (hback : ∀ c ∈ back, isSpace c = true) :
    trim (front ++ text ++ back) = text := by
  have hdrop (spaces rest : List Char) (hspaces : ∀ c ∈ spaces, isSpace c = true) :
      (spaces ++ rest).dropWhile isSpace = rest.dropWhile isSpace := List.dropWhile_append_of_pos hspaces
  have hkeep (kept rest : List Char) (hkept : ∀ c ∈ kept, isSpace c = false) (hne : kept ≠ []) :
      (kept ++ rest).dropWhile isSpace = kept ++ rest := by
    cases kept with
    | nil => exact absurd rfl hne
    | cons c kept => rw [List.cons_append, List.dropWhile_cons_of_neg (by simp [hkept c List.mem_cons_self])]
  rw [trim, List.append_assoc, hdrop front _ hfront]
  by_cases hempty : text = []
  · have hall := hdrop back [] hback
    rw [List.append_nil] at hall
    rw [hempty, List.nil_append, hall]
    rfl
  · have hreverse := hkeep text.reverse [] (fun c hc => htext c (List.mem_reverse.mp hc)) (by simpa using hempty)
    rw [List.append_nil] at hreverse
    rw [hkeep text back htext hempty, trimEnd, List.reverse_append,
      hdrop back.reverse _ (fun c hc => hback c (List.mem_reverse.mp hc)), hreverse, List.reverse_reverse]

end FieldLink
