/-!
# Arrays with nulls

An array has any number of dimensions and holds values or nulls, the last index running
fastest. An array without elements has no dimension unless it is given some.

Dimensions and numbers of elements are words of 64 bits. The dimensions of an array are multiplied
one after the other, and a product that does not fit into a word either wraps around or stops the
program, as the program was built for.
-/

namespace RangeUnion

/-- What becomes of a product that does not fit into a word. -/
inductive Overflow where
  | wraps
  | stops
  deriving DecidableEq, Repr

/-- The product of two words, if the program goes on. -/
def Overflow.mul? (overflow : Overflow) (a b : UInt64) : Option UInt64 :=
  match overflow with
  | .wraps => some (a * b)
  | .stops => if a.toNat * b.toNat < UInt64.size then some (a * b) else none

/-- The number of elements of an array with these dimensions; without dimensions there are
none. -/
def volume? (overflow : Overflow) : List UInt64 → Option UInt64
  | [] => some 0
  | dims => dims.foldlM overflow.mul? 1

theorem Overflow.stops_mul?_eq_some_iff {a b c : UInt64} :
    stops.mul? a b = some c ↔ a.toNat * b.toNat < UInt64.size ∧ a * b = c :=
  Option.ite_none_right_eq_some.trans (and_congr_right fun _ => Option.some_inj)

theorem Overflow.eq_mul_of_mul? {overflow : Overflow} {a b c : UInt64}
    (h : overflow.mul? a b = some c) : a * b = c := by
  cases overflow with
  | wraps => exact Option.some.inj h
  | stops => exact (stops_mul?_eq_some_iff.1 h).2

theorem foldlM_wraps {overflow : Overflow} {dims : List UInt64} {a b : UInt64}
    (h : dims.foldlM overflow.mul? a = some b) : dims.foldlM Overflow.wraps.mul? a = some b := by
  induction dims generalizing a with
  | nil => exact h
  | cons dim dims ih =>
    rw [List.foldlM_cons, Option.bind_eq_bind, Option.bind_eq_some_iff] at h
    obtain ⟨c, hc, hrest⟩ := h
    rw [← Overflow.eq_mul_of_mul? hc] at hrest
    exact ih hrest

/-- Where no product stops the program, wrapping around gives the same. -/
theorem volume?_wraps {overflow : Overflow} {dims : List UInt64} {n : UInt64}
    (h : volume? overflow dims = some n) : volume? .wraps dims = some n := by
  cases dims with
  | nil => exact h
  | cons dim dims => exact foldlM_wraps h

/-- An array of values and nulls. -/
structure NullableArray (α : Type) where
  dims : List UInt64
  elements : List (Option α)
  volume_eq : volume? .wraps dims = some (UInt64.ofNat elements.length)

namespace NullableArray

variable {α : Type}

/-- The array with the given dimensions, if they fit the number of elements. -/
def ofDims? (overflow : Overflow) (dims : List UInt64) (elements : List (Option α)) :
    Option (NullableArray α) :=
  if h : volume? overflow dims = some (UInt64.ofNat elements.length) then
    some ⟨dims, elements, volume?_wraps h⟩
  else none

/-- The flat array of the given values and nulls. -/
def ofOptions (elements : List (Option α)) : NullableArray α where
  dims := if elements.isEmpty then [] else [UInt64.ofNat elements.length]
  elements := elements
  volume_eq := by
    cases elements with
    | nil => rfl
    | cons element elements => exact congrArg some (UInt64.one_mul _)

/-- The flat array of the given values. -/
def ofList (values : List α) : NullableArray α := ofOptions (values.map some)

/-- The number of dimensions. -/
def rank (array : NullableArray α) : Nat := array.dims.length

/-- All elements, if none of them is null. -/
def values? (array : NullableArray α) : Option (List α) := array.elements.mapM id

theorem mapM_id_eq_some_iff {elements : List (Option α)} {values : List α} :
    elements.mapM id = some values ↔ elements = values.map some := by
  induction elements generalizing values with
  | nil => cases values <;> simp
  | cons element elements ih =>
    simp only [List.mapM_cons, Option.bind_eq_bind, Option.bind_eq_some_iff, ih, id]
    constructor
    · rintro ⟨x, rfl, xs, rfl, heq⟩
      cases heq
      rfl
    · intro h
      cases values with
      | nil => cases h
      | cons y values =>
        cases h
        exact ⟨y, rfl, values, rfl, rfl⟩

/-- The elements are values if and only if they are these values, each of them present. -/
theorem values?_eq_some_iff {array : NullableArray α} {values : List α} :
    array.values? = some values ↔ array.elements = values.map some := mapM_id_eq_some_iff

end NullableArray

end RangeUnion
