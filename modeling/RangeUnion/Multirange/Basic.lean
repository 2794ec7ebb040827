import RangeUnion.Canonical
import RangeUnion.Layout.Walk
import RangeUnion.NullableArray

/-!
# Multiranges

A multirange is a finite union of intervals, kept as one immutable stored value: its bytes in
the layout of `RangeUnion.Layout`, and the places of its slots. There are two ways to make one.
`ofList` brings any list of intervals into canonical form and stores it. `adopt` takes bytes
that claim to be a stored value, and checks their frame, every slot and the canonical form.

`items` is the view of a multirange: what each slot holds, or the failure of reading it.
`toList` is the list of its intervals if every slot can be read.
-/

namespace RangeUnion

/-- A stored union of intervals of type `α`. -/
structure Multirange (α : Type) where
  data : Bytes
  starts : List Nat
  deriving Repr

namespace Multirange

variable {α : Type}

theorem ext {a b : Multirange α} (data : a.data = b.data) (starts : a.starts = b.starts) :
    a = b := by
  cases a; cases b; simp_all

/-! ## The stored value -/

/-- The tag of the multirange's own type. -/
def tag (m : Multirange α) : Tag := Layout.tagOf m.data

/-- The number of intervals. -/
def length (m : Multirange α) : Nat := m.starts.length

/-- The multirange holds no interval. -/
def isEmpty (m : Multirange α) : Bool := m.starts.isEmpty

/-- The bytes in each slot. -/
def payloads (m : Multirange α) : List Bytes := m.starts.map (Layout.payload m.data)

@[simp] theorem length_payloads (m : Multirange α) : m.payloads.length = m.length := by
  simp [payloads, length]

/-- The multirange of type `tag` without intervals. -/
def empty (tag : Tag) : Multirange α := ⟨Layout.image tag [], []⟩

@[simp] theorem tag_empty (tag : Tag) : (empty tag : Multirange α).tag = tag :=
  Layout.tagOf_image tag []

variable [Interval α]

/-! ## Reading -/

/-- What each slot holds. -/
def items (m : Multirange α) : List (Except Error α) := m.payloads.map Interval.unpack

/-- All intervals in ascending order, or the failure of the first slot that cannot be read. -/
def toList (m : Multirange α) : Except Error (List α) := m.items.mapM id

/-- What the slot number `index` holds. -/
def get? (m : Multirange α) (index : Nat) : Option (Except Error α) :=
  m.payloads[index]?.map Interval.unpack

/-- What the first slot holds. -/
def first? (m : Multirange α) : Option (Except Error α) := m.get? 0

/-- What the last slot holds. -/
def last? (m : Multirange α) : Option (Except Error α) :=
  if m.length = 0 then none else m.get? (m.length - 1)

@[simp] theorem length_items (m : Multirange α) : m.items.length = m.length := by
  simp [items]

theorem get?_eq (m : Multirange α) (index : Nat) : m.get? index = m.items[index]? := by
  simp [get?, items]

theorem get?_eq_none_iff (m : Multirange α) (index : Nat) :
    m.get? index = none ↔ m.length ≤ index := by
  rw [get?_eq, List.getElem?_eq_none_iff, length_items]

/-! ## Making -/

/-- Store a list of intervals as it is. -/
def store (tag : Tag) (xs : List α) : Except Error (Multirange α) :=
  (Layout.build tag (xs.map Interval.pack)).map fun image => ⟨image.data, image.starts⟩

/-- The union of the intervals in `xs`. -/
def ofList (tag : Tag) (xs : List α) : Except Error (Multirange α) := store tag (canonicalize xs)

/-- The multirange of one interval. -/
def ofInterval (tag : Tag) (x : α) : Except Error (Multirange α) := ofList tag [x]

/-- The union of the intervals in an array, which must be flat and hold no null. -/
def ofArray (tag : Tag) (array : NullableArray α) : Except Error (Multirange α) :=
  if 1 < array.rank then .error (.multiDimensional array.rank)
  else match array.values? with
    | none => .error .nullElement
    | some xs => ofList tag xs

/-- The multirange whose stored value is `data`. -/
def adopt (data : Bytes) : Except Error (Multirange α) := do
  let (_, starts) ← Layout.walk data
  let m : Multirange α := ⟨data, starts⟩
  let xs ← m.toList
  if Canonical xs then .ok m else .error (.corruptValue .notCanonical)

theorem store_nil (tag : Tag) : store tag ([] : List α) = .ok (empty tag) := rfl

theorem ofList_nil (tag : Tag) : ofList tag ([] : List α) = .ok (empty tag) := by
  rw [ofList, canonicalize_nil, store_nil]

end Multirange

end RangeUnion
