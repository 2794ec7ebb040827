import RangeUnion.Multirange.Basic

/-!
# Comparing multiranges

Two multiranges of one type are compared interval by interval; the first difference decides,
and a proper prefix comes first. A comparison spends one level of the depth budget and hands
the rest to the comparisons of intervals. Multiranges of two types are neither equal nor
ordered, which is a failure of the call.

The operators compare under a fresh budget. Where a comparison fails they say no: `==` is
false, and so is every order.
-/

namespace RangeUnion.Multirange

variable {α : Type} [Interval α]

/-- Multiranges of two types are not compared. -/
def sameType (a b : Multirange α) : Except Error Unit :=
  if a.tag = b.tag then .ok () else .error (.typeMismatch a.tag b.tag)

/-- All intervals agree, pair by pair, as far as both lists go. -/
def sameItems (depth : Depth) : (as bs : List (Except Error α)) → Except Error Bool
  | a :: as, b :: bs => do
    let a ← a
    let b ← b
    if ← Interval.sameWithin depth a b then sameItems depth as bs else return false
  | _, _ => .ok true

/-- Both multiranges hold the same intervals. -/
def tryEq (a b : Multirange α) (depth : Depth) : Except Error Bool := do
  let depth ← depth.enter
  sameType a b
  if a.length ≠ b.length then return false
  sameItems depth a.items b.items

/-- The first pair of intervals that differ, as far as both lists go. -/
def orderItems (depth : Depth) : (as bs : List (Except Error α)) → Except Error Ordering
  | a :: as, b :: bs => do
    let a ← a
    let b ← b
    match ← Interval.orderWithin depth a b with
    | .eq => orderItems depth as bs
    | o => return o
  | _, _ => .ok .eq

/-- The order of two multiranges of one type. -/
def tryCompare (a b : Multirange α) (depth : Depth) : Except Error Ordering := do
  let depth ← depth.enter
  sameType a b
  let o ← orderItems depth a.items b.items
  return o.then (compare a.length b.length)

/-! ## Operators -/

instance : BEq (Multirange α) where
  beq a b := match tryEq a b .initial with
    | .ok answer => answer
    | .error _ => false

/-- The order of two multiranges, if they have one. -/
def partialCompare (a b : Multirange α) : Option Ordering := (tryCompare a b .initial).toOption

/-- `a` comes before `b`. -/
def lt (a b : Multirange α) : Bool := partialCompare a b == some .lt

/-- `a` comes before `b` or is equal to it. -/
def le (a b : Multirange α) : Bool := (partialCompare a b).any Ordering.isLE

/-- `a` comes after `b`. -/
def gt (a b : Multirange α) : Bool := partialCompare a b == some .gt

/-- `a` comes after `b` or is equal to it. -/
def ge (a b : Multirange α) : Bool := (partialCompare a b).any Ordering.isGE

end RangeUnion.Multirange
