/-!
# Blank characters

The characters of the Unicode property `White_Space`, and trimming by them. A trimmed text
neither starts nor ends with a blank, and trimming keeps any text that already has neither
(`trim_eq_self`). Blanks put in front or at the end make no difference (`trim_append_left`,
`trim_append_right`).
-/

namespace RangeUnion.Text

/-- The blank characters: tab to carriage return, the spaces, and the line and paragraph
separators. -/
def isBlank (c : Char) : Bool :=
  let n := c.toNat
  (0x09 ≤ n && n ≤ 0x0D) || n == 0x20 || n == 0x85 || n == 0xA0 || n == 0x1680 ||
    (0x2000 ≤ n && n ≤ 0x200A) || n == 0x2028 || n == 0x2029 || n == 0x202F || n == 0x205F ||
    n == 0x3000

/-- Drop the blanks in front. -/
def trimLeft (cs : List Char) : List Char := cs.dropWhile isBlank

/-- Drop the blanks at both ends. -/
def trim (cs : List Char) : List Char := (trimLeft (trimLeft cs).reverse).reverse

theorem trimLeft_eq_self {cs : List Char} (h : ∀ c ∈ cs.head?, isBlank c = false) :
    trimLeft cs = cs := by
  cases cs with
  | nil => rfl
  | cons c rest =>
    have hc : isBlank c = false := h c rfl
    simp [trimLeft, hc]

/-- A text without a blank at either end is kept. -/
theorem trim_eq_self {cs : List Char} (front : ∀ c ∈ cs.head?, isBlank c = false)
    (back : ∀ c ∈ cs.getLast?, isBlank c = false) : trim cs = cs := by
  unfold trim
  rw [trimLeft_eq_self front, trimLeft_eq_self, List.reverse_reverse]
  rwa [List.head?_reverse]

theorem trimLeft_append {front : List Char} (h : ∀ c ∈ front, isBlank c = true)
    (cs : List Char) : trimLeft (front ++ cs) = trimLeft cs :=
  List.dropWhile_append_of_pos h

/-- Blanks in front are dropped. -/
theorem trim_append_left {front : List Char} (h : ∀ c ∈ front, isBlank c = true)
    (cs : List Char) : trim (front ++ cs) = trim cs := by
  unfold trim
  rw [trimLeft_append h]

/-- Blanks at the end are dropped. -/
theorem trim_append_right {back : List Char} (h : ∀ c ∈ back, isBlank c = true)
    (cs : List Char) : trim (cs ++ back) = trim cs := by
  have hback : trimLeft back = [] := by
    rw [← List.append_nil back, trimLeft_append h]
    rfl
  have happend : trimLeft (cs ++ back) =
      if (trimLeft cs).isEmpty then trimLeft back else trimLeft cs ++ back :=
    List.dropWhile_append
  have hreverse : ∀ c ∈ back.reverse, isBlank c = true :=
    fun c hc => h c (List.mem_reverse.1 hc)
  unfold trim
  rw [happend]
  split
  · next hempty => rw [hback, List.isEmpty_iff.1 hempty]
  · rw [List.reverse_append, trimLeft_append hreverse]

end RangeUnion.Text
