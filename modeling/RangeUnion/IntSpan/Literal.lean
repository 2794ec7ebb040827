import RangeUnion.IntSpan.Basic
import RangeUnion.Text.Blank
import RangeUnion.Text.Decimal

/-!
# The literal of an interval

The literal of an interval is the word `empty`, or a bracket, two bounds with a comma between
them and a bracket: `[` and `]` include their bound, `(` and `)` exclude it, and an infinite
bound is left out. Reading ignores blanks around the literal and around a bound, the case of
the word, and quotation marks and backslashes in a bound. What is written is the half-open form.
-/

namespace RangeUnion.IntSpan

open Text

/-- The word for the empty interval. -/
def emptyWord : List Char := "empty".toList

/-- The digits of a bound; an infinite bound has none. -/
def boundText : Option Int32 → List Char
  | none => []
  | some v => Decimal.numeral v.toInt

/-- The characters of an interval's literal. -/
def literal : IntSpan → List Char
  | .empty => emptyWord
  | .between l u =>
    (if l.isSome then '[' else '(') :: boundText l ++ ',' :: boundText u ++ [')']

/-- The literal of an interval. -/
def toText (s : IntSpan) : String := String.ofList s.literal

/-! ## Reading -/

/-- The 32-bit integer that a numeral stands for. -/
def readInt32? (cs : List Char) : Option Int32 :=
  match Decimal.read? cs with
  | some z =>
    if Int32.minValue.toInt ≤ z ∧ z ≤ Int32.maxValue.toInt then some (Int32.ofInt z) else none
  | none => none

/-- A bound's characters without quotation marks and backslashes. -/
def unquote (cs : List Char) : List Char := cs.filter fun c => c ≠ '"' ∧ c ≠ '\\'

/-- The bound that a part of the literal `input` stands for. -/
def readBound (input : String) (part : List Char) : Except Error (Option Int32) :=
  match trim (unquote part) with
  | [] => .ok none
  | c :: cs =>
    match readInt32? (c :: cs) with
    | some v => .ok (some v)
    | none => .error (.invalidInterval (.notAnInteger (String.ofList (c :: cs)) input))

/-- The bracket in front, read as whether the lower bound is included. -/
def lowerBracket? : Char → Option Bool
  | '[' => some true
  | '(' => some false
  | _ => none

/-- The bracket at the end, read as whether the upper bound is included. -/
def upperBracket? : Char → Option Bool
  | ']' => some true
  | ')' => some false
  | _ => none

/-- The literal `input` is not of the form bracket, bound, comma, bound, bracket. -/
def malformed {β : Type} (input : String) (fault : RangeFault) : Except Error β :=
  .error (.invalidInterval (.malformed input fault))

/-- The parts of a bracketed literal: whether each bound is included, and its characters. -/
structure Parts where
  lowerIncluded : Bool
  lower : List Char
  upper : List Char
  upperIncluded : Bool
  deriving DecidableEq, Repr

/-- Cut a bracketed literal without outer blanks into its parts. -/
def cut : List Char → Except RangeFault Parts
  | [] => .error .missingLeft
  | c :: cs =>
    match lowerBracket? c with
    | none => .error .missingLeft
    | some lowerIncluded =>
      match cs.getLast?.bind upperBracket? with
      | none => .error .missingRight
      | some upperIncluded =>
        match cs.dropLast.span (· ≠ ',') with
        | (_, []) => .error .missingComma
        | (lower, _ :: upper) =>
          if ',' ∈ upper then .error .tooManyCommas
          else .ok ⟨lowerIncluded, lower, upper, upperIncluded⟩

/-- The interval that a literal stands for. -/
def parse (input : String) : Except Error IntSpan :=
  let cs := trim input.toList
  if cs.map Char.toLower = emptyWord then .ok .empty
  else match cut cs with
    | .error fault => malformed input fault
    | .ok parts => do
      let l ← readBound input parts.lower
      let u ← readBound input parts.upper
      ofBounds l parts.lowerIncluded u parts.upperIncluded

end RangeUnion.IntSpan
