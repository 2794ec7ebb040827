import RangeUnion.IntSpan.Interval

/-!
# Metered intervals

An interval of integers that behaves as if its bounds were themselves ranges: each comparison of
two intervals spends one level of the depth budget that it is given. Metered intervals are
stored as plain ones are, but do not say beforehand how many bytes that takes.
-/

namespace RangeUnion

/-- An interval of integers whose comparison spends depth. -/
structure Metered where
  span : IntSpan
  deriving DecidableEq, Repr, Inhabited

namespace Metered

instance : Interval Metered where
  isEmpty x := Interval.isEmpty x.span
  order x y := x.span.order y.span
  orderWithin depth x y := do
    discard depth.enter
    return x.span.order y.span
  overlaps x y := x.span.overlaps y.span
  adjacent x y := x.span.adjacent y.span
  hull x y := ⟨x.span.hull y.span⟩
  hash32 x := x.span.hash32
  hash64 seed x := x.span.hash64 seed
  pack x := x.span.pack
  unpack bytes := (IntSpan.unpack bytes).map Metered.mk
  packedSize _ := 0
  describe x := s!"Nested({x.span.describe})"

end Metered

end RangeUnion
