import RangeUnion.Bytes.Word
import RangeUnion.IntSpan.Flags

/-!
# The stored form of an interval

The flags byte, then each finite bound as a word, least significant byte first. Reading looks
at the flags of emptiness and infinity only, takes all of the bytes, and accepts no bounds that
do not ascend. Main statement: reading gives back every well-formed interval (`unpack_pack`).
-/

namespace RangeUnion.IntSpan

/-- The stored bytes of a bound. -/
def packBound (v : Int32) : Bytes := Word.littleEndian v.toUInt32

/-- The stored bytes of an interval. -/
def pack (s : IntSpan) : Bytes := s.flags :: s.finiteBounds.flatMap packBound

/-- The number of stored bytes. -/
def packedSize (s : IntSpan) : Nat := 1 + 4 * s.finiteBounds.length

/-- A bound, unless it is infinite, and the bytes after it. -/
def unpackBound (infinite : Bool) (bytes : Bytes) : Except Error (Option Int32 × Bytes) :=
  if infinite then .ok (none, bytes)
  else match Word.readLE? bytes with
    | some (w, rest) => .ok (some w.toInt32, rest)
    | none => .error (.corruptValue .payloadTruncated)

/-- The interval that the whole of `bytes` stores. -/
def unpack : Bytes → Except Error IntSpan
  | [] => .error (.corruptValue .payloadTruncated)
  | flags :: bytes =>
    if Flag.has flags Flag.isEmpty then
      if bytes.isEmpty then .ok .empty else .error (.corruptValue .payloadTrailing)
    else do
      let (l, bytes) ← unpackBound (Flag.has flags Flag.lowerInfinite) bytes
      let (u, bytes) ← unpackBound (Flag.has flags Flag.upperInfinite) bytes
      if !below l u then .error (.corruptValue .payloadOutOfOrder)
      else if !bytes.isEmpty then .error (.corruptValue .payloadTrailing)
      else .ok (.between l u)

@[simp] theorem length_packBound (v : Int32) : (packBound v).length = 4 := rfl

theorem length_pack (s : IntSpan) : s.pack.length = s.packedSize := by
  have h (vs : List Int32) : (vs.flatMap packBound).length = 4 * vs.length := by
    induction vs with
    | nil => rfl
    | cons v vs ih => simp only [List.flatMap_cons, List.length_append, length_packBound, ih,
        List.length_cons]; omega
  simp [pack, packedSize, h, Nat.add_comm]

theorem unpackBound_append (b : Option Int32) (rest : Bytes) :
    unpackBound b.isNone (b.toList.flatMap packBound ++ rest) = .ok (b, rest) := by
  cases b with
  | none => simp [unpackBound]
  | some v => simp [unpackBound, packBound]

/-- Reading what is stored gives back a well-formed interval and no other one. -/
theorem unpack_pack_eq (s : IntSpan) :
    unpack (pack s) =
      if s.WellFormed then .ok s else .error (.corruptValue .payloadOutOfOrder) := by
  cases s with
  | empty => rfl
  | between l u =>
    have hl := unpackBound_append l (u.toList.flatMap packBound)
    have hu := unpackBound_append u []
    rw [List.append_nil] at hu
    simp only [pack, unpack, finiteBounds, lower, upper, List.flatMap_append,
      not_has_isEmpty_between, has_lowerInfinite_between, has_upperInfinite_between,
      Bool.false_eq_true, if_false, hl, hu, bind, Except.bind, List.isEmpty_nil, Bool.not_true]
    by_cases h : below l u = true
    · rw [if_pos (show (between l u).WellFormed from h), h]
      rfl
    · rw [if_neg (show ¬(between l u).WellFormed from h), Bool.eq_false_iff.2 h]
      rfl

/-- Reading gives back every well-formed interval. -/
theorem unpack_pack {s : IntSpan} (h : s.WellFormed) : unpack (pack s) = .ok s := by
  rw [unpack_pack_eq, if_pos h]

end RangeUnion.IntSpan
