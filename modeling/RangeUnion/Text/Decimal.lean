/-!
# Decimal numerals

The numeral of an integer is its digits without leading zeros, after a minus sign if it is
negative. Reading also takes a plus sign and leading zeros, which do not count (`read?_padded`).
-/

namespace RangeUnion.Text.Decimal

/-- The numeral of a natural number. -/
def digits (n : Nat) : List Char := Nat.toDigits 10 n

/-- The number that a non-empty string of digits stands for. -/
def readDigits? (cs : List Char) : Option Nat :=
  if cs ≠ [] ∧ cs.all Char.isDigit then some (Nat.ofDigitChars 10 cs 0) else none

/-- The numeral of an integer. -/
def numeral (z : Int) : List Char :=
  if z < 0 then '-' :: digits z.natAbs else digits z.natAbs

/-- The integer that an optional sign and a string of digits stand for. -/
def read? : List Char → Option Int
  | '-' :: cs => (readDigits? cs).map fun (n : Nat) => -(n : Int)
  | '+' :: cs => (readDigits? cs).map Int.ofNat
  | cs => (readDigits? cs).map Int.ofNat

theorem digits_ne_nil (n : Nat) : digits n ≠ [] := Nat.toDigits_ne_nil

theorem isDigit_of_mem_digits {n : Nat} {c : Char} (h : c ∈ digits n) : c.isDigit = true :=
  Nat.isDigit_of_mem_toDigits (by decide) (by decide) h

theorem isDigit_of_mem_padded {zeros n : Nat} {c : Char}
    (h : c ∈ List.replicate zeros '0' ++ digits n) : c.isDigit = true := by
  rcases List.mem_append.1 h with h | h
  · rw [List.eq_of_mem_replicate h]
    rfl
  · exact isDigit_of_mem_digits h

/-- Zeros in front do not count. -/
theorem readDigits?_padded (zeros n : Nat) :
    readDigits? (List.replicate zeros '0' ++ digits n) = some n := by
  have hread : Nat.ofDigitChars 10 (List.replicate zeros '0' ++ digits n) 0 = n := by
    induction zeros with
    | zero => exact Nat.ofDigitChars_ten_toDigits
    | succ zeros ih =>
      rw [List.replicate_succ, List.cons_append, Nat.ofDigitChars_cons]
      exact ih
  rw [readDigits?, if_pos, hread]
  refine ⟨?_, List.all_eq_true.2 fun _ => isDigit_of_mem_padded⟩
  exact List.append_ne_nil_of_right_ne_nil _ (digits_ne_nil n)

theorem read?_of_isDigit {c : Char} {cs : List Char} (h : c.isDigit = true) :
    read? (c :: cs) = (readDigits? (c :: cs)).map Int.ofNat := by
  unfold read?
  split
  · next heq => cases heq; exact absurd h (by decide)
  · next heq => cases heq; exact absurd h (by decide)
  · rfl

theorem read?_padded (zeros n : Nat) :
    read? (List.replicate zeros '0' ++ digits n) = some (n : Int) := by
  have hread := readDigits?_padded zeros n
  cases hcs : List.replicate zeros '0' ++ digits n with
  | nil =>
    rw [hcs] at hread
    cases hread
  | cons c cs =>
    have hmem : c ∈ List.replicate zeros '0' ++ digits n := hcs ▸ List.mem_cons_self
    rw [read?_of_isDigit (isDigit_of_mem_padded hmem), ← hcs, hread]
    rfl

end RangeUnion.Text.Decimal
