import RangeUnion.Bytes.Word
import RangeUnion.Error

/-!
# Sinks

A sink takes the bytes of an encoding. It may have room for a limited number of bytes in all; a
write that does not fit is taken as far as there is room, and fails.
-/

namespace RangeUnion

/-- The bytes taken so far, and how many more there is room for, if that is limited. -/
structure Sink where
  taken : Bytes
  room : Option Nat
  deriving DecidableEq, Repr

namespace Sink

/-- A sink that has room for everything. -/
def unlimited : Sink := ⟨[], none⟩

/-- A sink that has room for `room` bytes. -/
def ofRoom (room : Nat) : Sink := ⟨[], some room⟩

/-- Write `bytes`. -/
def write (bytes : Bytes) (sink : Sink) : Except Error Unit × Sink :=
  match sink.room with
  | none => (.ok (), { sink with taken := sink.taken ++ bytes })
  | some room =>
    if bytes.length ≤ room then
      (.ok (), ⟨sink.taken ++ bytes, some (room - bytes.length)⟩)
    else (.error .sinkFull, ⟨sink.taken ++ bytes.take room, some 0⟩)

@[simp] theorem write_unlimited (bytes taken : Bytes) :
    write bytes ⟨taken, none⟩ = (.ok (), ⟨taken ++ bytes, none⟩) := rfl

/-- A sink with room for the bytes takes all of them. -/
theorem write_of_le {bytes taken : Bytes} {room : Nat} (h : bytes.length ≤ room) :
    write bytes ⟨taken, some room⟩ = (.ok (), ⟨taken ++ bytes, some (room - bytes.length)⟩) :=
  if_pos h

/-- A sink without room for the bytes takes as many of them as it can, and is full. -/
theorem write_of_lt {bytes taken : Bytes} {room : Nat} (h : room < bytes.length) :
    write bytes ⟨taken, some room⟩ = (.error .sinkFull, ⟨taken ++ bytes.take room, some 0⟩) :=
  if_neg (Nat.not_le.2 h)

end Sink

end RangeUnion
