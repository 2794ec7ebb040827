import RangeUnion.Text.Unprintable

/-!
# Quoted texts

A diagnostic text shows a string between quotation marks. Quotation marks and backslashes in it
take a backslash in front, a few control characters have names of one letter, and every other
unprintable character is shown by its number.
-/

namespace RangeUnion.Text.Quoted

/-- The number of a character, in hexadecimal digits and braces. -/
def byNumber (c : Char) : List Char :=
  ['\\', 'u', '\x7b'] ++ Nat.toDigits 16 c.toNat ++ ['\x7d']

/-- How a character is shown between quotation marks. -/
def escape (c : Char) : List Char :=
  if c = '"' then ['\\', '"']
  else if c = '\\' then ['\\', '\\']
  else if c = '\t' then ['\\', 't']
  else if c = '\n' then ['\\', 'n']
  else if c = '\r' then ['\\', 'r']
  else if c = '\x00' then ['\\', '0']
  else if isUnprintable c then byNumber c
  else [c]

/-- The text between quotation marks. -/
def quote (s : String) : String := String.ofList ('"' :: s.toList.flatMap escape ++ ['"'])

end RangeUnion.Text.Quoted
