import RangeUnion.Multirange.Basic
import RangeUnion.Text.Quoted

/-!
# Multiranges in data formats

A general data format carries a multirange as its stored bytes, or as a sequence of integers
where it has no bytes. Any other value is refused. The items of a sequence are checked one by
one before the bytes are looked at.
-/

namespace RangeUnion

/-- Why a value of a data format is no multirange. -/
inductive DecodeError where
  /-- An item of a sequence is no byte. -/
  | notAByte (item : Int)
  /-- The value is a text. -/
  | unexpectedText (text : String)
  /-- The value is an integer. -/
  | unexpectedInteger (value : Int)
  /-- The bytes are no stored multirange. -/
  | rejected (error : Error)
  deriving DecidableEq, Repr

namespace DecodeError

/-- The wording of a refusal. -/
def message : DecodeError → String
  | .notAByte item => s!"invalid value: integer `{item}`, expected u8"
  | .unexpectedText text =>
    s!"invalid type: string {Text.Quoted.quote text}, expected packed multirange"
  | .unexpectedInteger value => s!"invalid type: integer `{value}`, expected packed multirange"
  | .rejected error => error.message

end DecodeError

namespace Multirange

variable {α : Type} [Interval α]

/-- The bytes that a sequence of integers stands for. -/
def bytesOfItems : List Int → Except DecodeError Bytes
  | [] => .ok []
  | item :: items =>
    if 0 ≤ item ∧ item < 256 then
      (bytesOfItems items).map (UInt8.ofNat item.toNat :: ·)
    else .error (.notAByte item)

/-- The multirange that a format carries as bytes. -/
def decodeBytes (data : Bytes) : Except DecodeError (Multirange α) :=
  (adopt data).mapError .rejected

/-- The multirange that a format carries as a sequence of integers. -/
def decodeItems (items : List Int) : Except DecodeError (Multirange α) :=
  bytesOfItems items >>= decodeBytes

/-- No text is a multirange. -/
def decodeText (text : String) : Except DecodeError (Multirange α) :=
  .error (.unexpectedText text)

/-- No integer is a multirange. -/
def decodeInteger (value : Int) : Except DecodeError (Multirange α) :=
  .error (.unexpectedInteger value)

omit [Interval α] in
/-- The sequence of integers that carries a multirange. -/
def encodeItems (mr : Multirange α) : List Int := mr.data.map fun b => (b.toNat : Int)

end Multirange

end RangeUnion
