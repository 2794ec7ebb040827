import RangeUnion.Multirange.Basic

/-!
# Hashes of a multirange

The hash of a multirange depends on the intervals that its slots hold and on nothing else in
its bytes. It takes in the hash of each interval after multiplying by 31, and starts at 1.
-/

namespace RangeUnion.Multirange

variable {α : Type} [Interval α]

/-- The 32-bit hash of a list of intervals. -/
def hashList32 (xs : List α) : UInt32 := xs.foldl (fun h x => h * 31 + Interval.hash32 x) 1

/-- The 64-bit hash of a list of intervals, in the family that `seed` selects. -/
def hashList64 (seed : UInt64) (xs : List α) : UInt64 :=
  xs.foldl (fun h x => h * 31 + Interval.hash64 seed x) 1

/-- The 32-bit hash. -/
def hash32 (m : Multirange α) : Except Error UInt32 := m.toList.map hashList32

/-- The 64-bit hash, in the family that `seed` selects. -/
def hash64 (m : Multirange α) (seed : UInt64) : Except Error UInt64 :=
  m.toList.map (hashList64 seed)

@[simp] theorem hash32_empty (tag : Tag) : (empty tag : Multirange α).hash32 = .ok 1 := rfl

@[simp] theorem hash64_empty (tag : Tag) (seed : UInt64) :
    (empty tag : Multirange α).hash64 seed = .ok 1 := rfl

end RangeUnion.Multirange
