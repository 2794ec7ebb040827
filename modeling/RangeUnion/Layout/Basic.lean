import RangeUnion.Bytes.Word
import RangeUnion.Error

/-!
# The layout of a stored multirange

A stored multirange is a header and one slot for each interval, each of them padded with zeros
to a multiple of eight bytes. The header holds three words: the length of the whole in bytes,
the type tag and the number of slots. A slot holds its own length without the padding, in one
word, and the stored bytes of its interval. All words have the least significant byte first.

The layout depends on the bytes that each slot is to hold and on nothing else: `image` writes
it, and `starts` says where each slot begins. Every slot begins at a multiple of eight
(`aligned_of_mem_starts`), and the length that the header declares is the length of the image
(`length_image`).
-/

namespace RangeUnion.Layout

/-- The header and every slot begin at a multiple of this number of bytes. -/
def alignment : Nat := 8

/-- The header's length without its padding. -/
def headerSize : Nat := 12

/-- The length of a slot's own length word. -/
def slotHeaderSize : Nat := 4

/-- One more than the greatest number that a word can hold. -/
def wordLimit : Nat := UInt32.size

/-- The least multiple of the alignment that is at least `n`. -/
def align (n : Nat) : Nat := (n + (alignment - 1)) / alignment * alignment

/-- `bytes` followed by zeros up to the next multiple of the alignment. -/
def pad (bytes : Bytes) : Bytes :=
  bytes ++ List.replicate (align bytes.length - bytes.length) 0

/-- The word that holds `n`. -/
def word (n : Nat) : Bytes := Word.littleEndian (UInt32.ofNat n)

/-! ## Writing -/

/-- The slot that holds `payload`. -/
def slot (payload : Bytes) : Bytes := pad (word (slotHeaderSize + payload.length) ++ payload)

/-- All slots, one after the other. -/
def slots (payloads : List Bytes) : Bytes := payloads.flatMap slot

/-- The header of a value of `size` bytes. -/
def header (size : Nat) (tag : Tag) (count : Nat) : Bytes :=
  pad (word size ++ Word.littleEndian tag.code ++ word count)

/-- Where the slots begin. -/
def firstStart : Nat := align headerSize

/-- The length of a stored value. -/
def imageSize (payloads : List Bytes) : Nat := firstStart + (slots payloads).length

/-- The stored value with one slot for each payload. -/
def image (tag : Tag) (payloads : List Bytes) : Bytes :=
  header (imageSize payloads) tag payloads.length ++ slots payloads

/-- Where each slot begins, the first one at `offset`. -/
def startsFrom (offset : Nat) : List Bytes → List Nat
  | [] => []
  | payload :: payloads => offset :: startsFrom (offset + (slot payload).length) payloads

/-- Where each slot of the stored value begins. -/
def starts (payloads : List Bytes) : List Nat := startsFrom firstStart payloads

/-- A stored value and the places of its slots. -/
structure Image where
  data : Bytes
  starts : List Nat
  deriving DecidableEq, Repr

/-- The stored value with one slot for each payload, if its words can hold its lengths. -/
def build (tag : Tag) (payloads : List Bytes) : Except Error Image :=
  if wordLimit ≤ payloads.length then .error (.corruptValue .tooManyIntervals)
  else if ∃ payload ∈ payloads, wordLimit ≤ slotHeaderSize + payload.length then
    .error (.corruptValue .intervalTooLarge)
  else if wordLimit ≤ imageSize payloads then
    .error (.corruptValue (.valueTooLarge (imageSize payloads)))
  else .ok ⟨image tag payloads, starts payloads⟩

/-! ## Alignment -/

theorem align_eq (n : Nat) : align n = (n + 7) / 8 * 8 := rfl

theorem le_align (n : Nat) : n ≤ align n := by rw [align_eq]; omega

theorem align_lt (n : Nat) : align n < n + 8 := by rw [align_eq]; omega

theorem align_mod (n : Nat) : align n % 8 = 0 := by rw [align_eq]; omega

@[simp] theorem length_pad (bytes : Bytes) : (pad bytes).length = align bytes.length := by
  have := le_align bytes.length
  simp only [pad, List.length_append, List.length_replicate]
  omega

@[simp] theorem length_word (n : Nat) : (word n).length = 4 := rfl

@[simp] theorem firstStart_eq : firstStart = 16 := rfl

@[simp] theorem length_header (size : Nat) (tag : Tag) (count : Nat) :
    (header size tag count).length = 16 := by
  simp only [header, length_pad, List.length_append, length_word, Word.length_littleEndian]
  rfl

theorem length_slot (payload : Bytes) :
    (slot payload).length = align (slotHeaderSize + payload.length) := by
  simp [slot, slotHeaderSize, Nat.add_comm]

theorem length_slot_mod (payload : Bytes) : (slot payload).length % 8 = 0 := by
  rw [length_slot]
  exact align_mod _

/-- The declared length is the length of the stored value. -/
theorem length_image (tag : Tag) (payloads : List Bytes) :
    (image tag payloads).length = imageSize payloads := by
  simp [image, imageSize]

theorem aligned_of_mem_startsFrom {offset : Nat} (h : offset % 8 = 0) {payloads : List Bytes}
    {start : Nat} (hs : start ∈ startsFrom offset payloads) : start % 8 = 0 := by
  induction payloads generalizing offset with
  | nil => simp [startsFrom] at hs
  | cons payload payloads ih =>
    rcases List.mem_cons.1 hs with rfl | hs
    · exact h
    · have := length_slot_mod payload
      exact ih (by omega) hs

/-- Every slot begins at a multiple of eight. -/
theorem aligned_of_mem_starts {payloads : List Bytes} {start : Nat}
    (h : start ∈ starts payloads) : start % 8 = 0 :=
  aligned_of_mem_startsFrom (by decide) h

@[simp] theorem length_startsFrom (offset : Nat) (payloads : List Bytes) :
    (startsFrom offset payloads).length = payloads.length := by
  induction payloads generalizing offset with
  | nil => rfl
  | cons payload payloads ih => simp [startsFrom, ih]

end RangeUnion.Layout
