/-!
# Type tags

Every range type and every multirange type is known by a 32-bit number. A multirange carries
the tag of its own type, and two multiranges are comparable only if their tags agree.
-/

namespace RangeUnion

/-- The number of a registered range or multirange type. -/
structure Tag where
  code : UInt32
  deriving DecidableEq, Repr, Inhabited

namespace Tag

/-- The decimal text of a tag. -/
def text (tag : Tag) : String := toString tag.code.toNat

end Tag

end RangeUnion
