import RangeUnion.Multirange.Basic

/-!
# Diagnostic texts of multiranges

A multirange with fewer than sixteen intervals is shown with all of them, a longer one, or one
that cannot be read, with its number of intervals and its size.
-/

namespace RangeUnion.Multirange

variable {α : Type} [Interval α]

/-- From this number of intervals on, a diagnostic text does not list them. -/
def listingLimit : Nat := 16

/-- The text that lists all intervals. -/
def describeList (tag : Tag) (xs : List α) : String :=
  s!"Multirange<{tag.text} [" ++ ", ".intercalate (xs.map Interval.describe) ++ "]>"

/-- The text that sums the intervals up. -/
def describeSize (mr : Multirange α) : String :=
  s!"Multirange<{mr.tag.text} {mr.length} intervals in {mr.data.length} bytes>"

/-- The diagnostic text of a multirange. -/
def describe (mr : Multirange α) : String :=
  match mr.toList with
  | .ok xs => if xs.length < listingLimit then describeList mr.tag xs else mr.describeSize
  | .error _ => mr.describeSize

end RangeUnion.Multirange
