import RangeUnion.Layout.Basic

/-!
# Walking a stored multirange

A stored value may come from anywhere, so nothing in it is trusted. A walk goes from slot to
slot by their declared lengths, checks each one against the bytes that are there, and ends
where the value ends. It gives the type tag and the places of the slots; what the slots hold is
not looked at.
-/

namespace RangeUnion.Layout

/-- The three words of a header. -/
structure Header where
  size : UInt32
  tag : Tag
  count : UInt32
  deriving DecidableEq, Repr

/-- The header in front of `data`. -/
def readHeader? (data : Bytes) : Option Header := do
  let (size, data) ← Word.readLE? data
  let (tag, data) ← Word.readLE? data
  let (count, _) ← Word.readLE? data
  return ⟨size, ⟨tag⟩, count⟩

/-- The type tag in the header of `data`. -/
def tagOf (data : Bytes) : Tag := ((readHeader? data).map Header.tag).getD ⟨0⟩

/-- What the slot that begins at `start` holds. -/
def payload (data : Bytes) (start : Nat) : Bytes :=
  match Word.readLE? (data.drop start) with
  | some (length, rest) => rest.take (length.toNat - slotHeaderSize)
  | none => []

/-- Go over `count` slots, of which the first has the number `index` and begins at `offset`.
The answer holds their places and the place where the last one ends. -/
def walkSlots (data : Bytes) : (count index offset : Nat) → Except Error (List Nat × Nat)
  | 0, _, offset => .ok ([], offset)
  | count + 1, index, offset =>
    match Word.readLE? (data.drop offset) with
    | none => .error (.corruptValue (.slotPastEnd index))
    | some (length, _) =>
      if length.toNat < slotHeaderSize ∨ data.length - offset < length.toNat then
        .error (.corruptValue (.slotLength index length.toNat))
      else do
        let (starts, stop) ← walkSlots data count (index + 1) (offset + align length.toNat)
        return (offset :: starts, stop)

/-- Check the frame of a stored value and find its slots. -/
def walk (data : Bytes) : Except Error (Tag × List Nat) :=
  match readHeader? data with
  | none => .error (.corruptValue (.headerTruncated data.length))
  | some header =>
    if header.size.toNat ≠ data.length then
      .error (.corruptValue (.lengthMismatch header.size.toNat data.length))
    else do
      let (starts, stop) ← walkSlots data header.count.toNat 0 firstStart
      if stop ≠ data.length then .error (.corruptValue (.unusedBytes (data.length - stop)))
      else return (header.tag, starts)

theorem readHeader?_header (size : Nat) (tag : Tag) (count : Nat) (rest : Bytes) :
    readHeader? (header size tag count ++ rest) =
      some ⟨UInt32.ofNat size, tag, UInt32.ofNat count⟩ := by
  simp [readHeader?, header, pad, word, List.append_assoc]

@[simp] theorem tagOf_image (tag : Tag) (payloads : List Bytes) :
    tagOf (image tag payloads) = tag := by
  rw [tagOf, image, readHeader?_header]
  rfl

end RangeUnion.Layout
