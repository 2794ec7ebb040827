import RangeUnion.Interval
import RangeUnion.IntSpan.Hash
import RangeUnion.IntSpan.Packed

/-!
# Intervals of integers as an interval type

Comparing the bounds of two intervals of integers spends no depth, and the length of their
stored form is known before it is written.
-/

namespace RangeUnion

namespace IntSpan

/-- The diagnostic text of a bound. -/
def describeBound : Option Int32 → String
  | none => "None"
  | some v => s!"Some({v.toInt})"

/-- The diagnostic text of an interval. -/
def describe : IntSpan → String
  | .empty => "Empty"
  | .between l u =>
    "Span \x7b lower: " ++ describeBound l ++ ", upper: " ++ describeBound u ++ " \x7d"

instance : Interval IntSpan where
  isEmpty s := s == .empty
  order := order
  overlaps := overlaps
  adjacent := adjacent
  hull := hull
  hash32 := hash32
  hash64 := hash64
  pack := pack
  unpack := unpack
  packedSize := packedSize
  describe := describe

end IntSpan

end RangeUnion
