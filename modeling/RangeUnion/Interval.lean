import RangeUnion.Bytes.Word
import RangeUnion.Depth

/-!
# Interval types

What a multirange asks of the intervals that it holds. The list algorithms order, merge, store
and hash intervals through this interface alone and never look inside one.
-/

namespace RangeUnion

/-- A type of intervals over an ordered domain, the empty interval among them. -/
class Interval (α : Type) where
  isEmpty : α → Bool
  /-- Order by lower bound, then by upper bound. -/
  order : α → α → Ordering
  /-- The same order where comparing bounds may itself spend depth. -/
  orderWithin : Depth → α → α → Except Error Ordering := fun _ a b => .ok (order a b)
  /-- The two intervals share a point. -/
  overlaps : α → α → Bool
  /-- The two intervals share no point and leave none between them. -/
  adjacent : α → α → Bool
  /-- The least interval that covers both. -/
  hull : α → α → α
  hash32 : α → UInt32
  hash64 : UInt64 → α → UInt64
  /-- The stored bytes of an interval. -/
  pack : α → Bytes
  /-- The interval that the whole of `bytes` stores. -/
  unpack : (bytes : Bytes) → Except Error α
  /-- How many bytes the stored form is expected to take. -/
  packedSize : α → Nat
  /-- A diagnostic text. -/
  describe : α → String

namespace Interval

variable {α : Type} [Interval α]

/-- The bounds agree. -/
def same (a b : α) : Bool := order a b == .eq

/-- The bounds agree, where comparing them may spend depth. -/
def sameWithin (depth : Depth) (a b : α) : Except Error Bool :=
  (orderWithin depth a b).map (· == .eq)

/-- The two intervals overlap or are adjacent, so that their union is their hull. -/
def touches (a b : α) : Bool := overlaps a b || adjacent a b

end Interval

end RangeUnion
