import RangeUnion.Proofs.Layout.Frame

/-!
# Writing a stored value into a growing buffer

A stored value can be put together in one buffer that grows. Each slot is opened with a word of
zeros, its payload is written behind that word, and only then does the word get the length that was
written; the header is written over zeros when all slots are there. `assemble?` works in this way
and answers `none` where it would write outside of the buffer. It never does, and gives the image
that the payloads determine, or the failure of the same check (`assemble?_eq`).
-/

namespace RangeUnion.Layout

/-- `data` with `bytes` written over what begins at `start`, if all of that is there. -/
def overwrite? (data : Bytes) (start : Nat) (bytes : Bytes) : Option Bytes :=
  if start + bytes.length ≤ data.length then
    some (data.take start ++ bytes ++ data.drop (start + bytes.length))
  else none

/-- `data`, cut off or filled up with zeros to `size` bytes. -/
def resize (data : Bytes) (size : Nat) : Bytes :=
  data.take size ++ List.replicate (size - data.length) 0

/-- Open a slot at the end of the buffer, write the payload, and then the length of the slot. -/
def appendSlot? (buffer : Image) (payload : Bytes) : Option (Except Error Image) :=
  let start := buffer.data.length
  let data := buffer.data ++ List.replicate slotHeaderSize 0 ++ payload
  if wordLimit ≤ data.length - start then some (.error (.corruptValue .intervalTooLarge))
  else do
    let data ← overwrite? data start (word (data.length - start))
    return .ok ⟨resize data (align data.length), buffer.starts ++ [start]⟩

/-- Append one slot after the other. -/
def appendSlots? : (payloads : List Bytes) → (buffer : Image) → Option (Except Error Image)
  | [], buffer => some (.ok buffer)
  | payload :: payloads, buffer => do
    match ← appendSlot? buffer payload with
    | .error e => return .error e
    | .ok buffer => appendSlots? payloads buffer

/-- Leave room for the header, append the slots, and write the header. -/
def assemble? (tag : Tag) (payloads : List Bytes) : Option (Except Error Image) :=
  if wordLimit ≤ payloads.length then some (.error (.corruptValue .tooManyIntervals))
  else do
    match ← appendSlots? payloads ⟨resize [] (align headerSize), []⟩ with
    | .error e => return .error e
    | .ok ⟨data, starts⟩ =>
      if wordLimit ≤ data.length then
        return .error (.corruptValue (.valueTooLarge data.length))
      else
        let data ← overwrite? data 0
          (word data.length ++ Word.littleEndian tag.code ++ word payloads.length)
        return .ok ⟨data, starts⟩

variable {data payload rest : Bytes} {payloads : List Bytes} {offsets : List Nat}

/-! ## The buffer -/

theorem overwrite?_append (data rest : Bytes) {old new : Bytes} (h : new.length = old.length) :
    overwrite? (data ++ old ++ rest) data.length new = some (data ++ new ++ rest) := by
  have hroom : data.length + new.length ≤ (data ++ old ++ rest).length := by
    simp only [List.length_append]
    omega
  rw [overwrite?, if_pos hroom, List.append_assoc data, List.take_left, ← List.append_assoc data, h,
    ← List.length_append, List.drop_left]

theorem resize_of_le {size : Nat} (h : data.length ≤ size) :
    resize data size = data ++ List.replicate (size - data.length) 0 := by
  rw [resize, List.take_of_length_le h]

theorem align_add {n : Nat} (h : n % 8 = 0) (k : Nat) : align (n + k) = n + align k := by
  rw [align_eq, align_eq]
  omega

/-- Filling up behind an aligned place is padding what stands there. -/
theorem resize_append (h : data.length % 8 = 0) :
    resize (data ++ rest) (align (data ++ rest).length) = data ++ pad rest := by
  rw [resize_of_le (le_align _), List.length_append, align_add h, Nat.add_sub_add_left,
    List.append_assoc]
  rfl

/-! ## The slots -/

/-- What appending a slot at an aligned place does. -/
theorem appendSlot?_eq (h : data.length % 8 = 0) : appendSlot? ⟨data, offsets⟩ payload =
    some (if wordLimit ≤ slotHeaderSize + payload.length then
      .error (.corruptValue .intervalTooLarge)
    else .ok ⟨data ++ slot payload, offsets ++ [data.length]⟩) := by
  have hlength : (data ++ List.replicate slotHeaderSize 0 ++ payload).length - data.length =
      slotHeaderSize + payload.length := by
    simp only [List.length_append, List.length_replicate]
    omega
  unfold appendSlot?
  simp only [hlength]
  split
  · rfl
  · have hword : overwrite? (data ++ List.replicate slotHeaderSize 0 ++ payload) data.length
        (word (slotHeaderSize + payload.length)) =
        some (data ++ (word (slotHeaderSize + payload.length) ++ payload)) := by
      have hwidth : (word (slotHeaderSize + payload.length)).length =
          (List.replicate slotHeaderSize (0 : UInt8)).length := rfl
      rw [overwrite?_append _ _ hwidth, List.append_assoc]
    rw [hword, Option.bind_eq_bind, Option.bind_some, resize_append h]
    rfl

/-- Appending slots gives the slots, unless one of them is too large. What carries the induction is
that every slot ends at an aligned place. -/
theorem appendSlots?_eq (h : data.length % 8 = 0) : appendSlots? payloads ⟨data, offsets⟩ =
    some (if ∃ payload ∈ payloads, wordLimit ≤ slotHeaderSize + payload.length then
      .error (.corruptValue .intervalTooLarge)
    else .ok ⟨data ++ slots payloads, offsets ++ startsFrom data.length payloads⟩) := by
  induction payloads generalizing data offsets with
  | nil =>
    rw [if_neg (by simp), appendSlots?, slots, List.flatMap_nil, startsFrom, List.append_nil,
      List.append_nil]
  | cons payload payloads ih =>
    rw [appendSlots?, appendSlot?_eq h, Option.bind_eq_bind, Option.bind_some]
    by_cases hlarge : wordLimit ≤ slotHeaderSize + payload.length
    · rw [if_pos hlarge, if_pos ⟨payload, List.mem_cons_self, hlarge⟩]
      rfl
    · have hnext : (data ++ slot payload).length % 8 = 0 := by
        have hslot := length_slot_mod payload
        rw [List.length_append]
        omega
      have hiff : (∃ p ∈ payload :: payloads, wordLimit ≤ slotHeaderSize + p.length) ↔
          ∃ p ∈ payloads, wordLimit ≤ slotHeaderSize + p.length := by
        simp only [List.mem_cons, exists_eq_or_imp, hlarge, false_or]
      rw [if_neg hlarge]
      show appendSlots? payloads ⟨data ++ slot payload, offsets ++ [data.length]⟩ = _
      simp only [ih hnext, hiff, slots, List.flatMap_cons, startsFrom, List.length_append,
        List.append_assoc, List.singleton_append]

/-! ## The header -/

/-- Assembling a stored value in a buffer stays within the buffer and builds the value. -/
theorem assemble?_eq (tag : Tag) (payloads : List Bytes) :
    assemble? tag payloads = some (build tag payloads) := by
  have hroom : resize [] (align headerSize) = List.replicate 12 0 ++ List.replicate 4 0 := rfl
  have hsize : (resize [] (align headerSize) ++ slots payloads).length = imageSize payloads :=
    List.length_append
  have hheader : overwrite? (resize [] (align headerSize) ++ slots payloads) 0
      (word (imageSize payloads) ++ Word.littleEndian tag.code ++ word payloads.length) =
      some (image tag payloads) := by
    have hwidth : (word (imageSize payloads) ++ Word.littleEndian tag.code ++
        word payloads.length).length = (List.replicate 12 (0 : UInt8)).length := rfl
    rw [hroom, List.append_assoc]
    refine (overwrite?_append [] (List.replicate 4 0 ++ slots payloads) hwidth).trans ?_
    rw [List.nil_append, image, header, pad, List.append_assoc _ (List.replicate _ 0), hwidth]
    rfl
  unfold assemble? build
  rw [appendSlots?_eq rfl, Option.bind_eq_bind, Option.bind_some]
  by_cases hcount : wordLimit ≤ payloads.length
  · rw [if_pos hcount, if_pos hcount]
  · rw [if_neg hcount, if_neg hcount]
    by_cases hlarge : ∃ payload ∈ payloads, wordLimit ≤ slotHeaderSize + payload.length
    · rw [if_pos hlarge, if_pos hlarge]
      rfl
    · rw [if_neg hlarge, if_neg hlarge]
      simp only [hsize, hheader]
      split <;> rfl

end RangeUnion.Layout
