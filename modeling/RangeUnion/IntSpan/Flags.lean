import RangeUnion.IntSpan.Basic

/-!
# The flags byte of an interval

The stored form, the message form and the hashes of an interval all start from one byte that
says which bounds are finite. A non-empty interval never has the flag of the empty one
(`not_has_isEmpty_between`), and the two infinity flags say what they are named for.
-/

namespace RangeUnion

namespace Flag

/-- The interval is empty. -/
def isEmpty : UInt8 := 0x01

/-- The lower bound belongs to the interval. -/
def lowerIncluded : UInt8 := 0x02

/-- The upper bound belongs to the interval. -/
def upperIncluded : UInt8 := 0x04

/-- The lower bound is infinite. -/
def lowerInfinite : UInt8 := 0x08

/-- The upper bound is infinite. -/
def upperInfinite : UInt8 := 0x10

/-- `flag` is set in `flags`. -/
def has (flags flag : UInt8) : Bool := flags &&& flag != 0

end Flag

namespace IntSpan

/-- The flags of a half-open interval: a finite lower bound is included, no upper bound is. -/
def flags : IntSpan → UInt8
  | .empty => Flag.isEmpty
  | .between (some _) (some _) => Flag.lowerIncluded
  | .between (some _) none => Flag.lowerIncluded ||| Flag.upperInfinite
  | .between none (some _) => Flag.lowerInfinite
  | .between none none => Flag.lowerInfinite ||| Flag.upperInfinite

@[simp] theorem has_isEmpty_empty : Flag.has (flags .empty) Flag.isEmpty = true := rfl

@[simp] theorem not_has_isEmpty_between (l u : Option Int32) :
    Flag.has (flags (.between l u)) Flag.isEmpty = false := by
  cases l <;> cases u <;> simp only [flags] <;> decide

@[simp] theorem has_lowerInfinite_between (l u : Option Int32) :
    Flag.has (flags (.between l u)) Flag.lowerInfinite = l.isNone := by
  cases l <;> cases u <;> simp only [flags, Option.isNone_none, Option.isNone_some] <;> decide

@[simp] theorem has_upperInfinite_between (l u : Option Int32) :
    Flag.has (flags (.between l u)) Flag.upperInfinite = u.isNone := by
  cases l <;> cases u <;> simp only [flags, Option.isNone_none, Option.isNone_some] <;> decide

@[simp] theorem has_lowerIncluded_between (l u : Option Int32) :
    Flag.has (flags (.between l u)) Flag.lowerIncluded = l.isSome := by
  cases l <;> cases u <;> simp only [flags, Option.isSome_none, Option.isSome_some] <;> decide

@[simp] theorem has_upperIncluded_between (l u : Option Int32) :
    Flag.has (flags (.between l u)) Flag.upperIncluded = false := by
  cases l <;> cases u <;> simp only [flags] <;> decide

end IntSpan

end RangeUnion
