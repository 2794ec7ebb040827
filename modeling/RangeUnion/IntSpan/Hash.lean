import RangeUnion.IntSpan.Flags

/-!
# Hashes of an interval

A hash starts from the flags and takes in each finite bound by turning the hash one bit to the
left. Every word is scrambled first, by steps that can each be undone.
-/

namespace RangeUnion

namespace Scramble

/-- Scramble a 32-bit word. -/
def word32 (w : UInt32) : UInt32 :=
  let w := (w ^^^ (w >>> 16)) * 0x85ebca6b
  let w := (w ^^^ (w >>> 13)) * 0xc2b2ae35
  w ^^^ (w >>> 16)

/-- Scramble a 64-bit word. -/
def word64 (w : UInt64) : UInt64 :=
  let w := (w ^^^ (w >>> 33)) * 0xff51afd7ed558ccd
  let w := (w ^^^ (w >>> 33)) * 0xc4ceb9fe1a85ec53
  w ^^^ (w >>> 33)

/-- Turn a 32-bit word one bit to the left. -/
def turn32 (w : UInt32) : UInt32 := (w <<< 1) ||| (w >>> 31)

/-- Turn a 64-bit word one bit to the left. -/
def turn64 (w : UInt64) : UInt64 := (w <<< 1) ||| (w >>> 63)

end Scramble

namespace IntSpan

open Scramble

/-- The 32-bit hash of an interval. -/
def hash32 (s : IntSpan) : UInt32 :=
  s.finiteBounds.foldl (fun h v => turn32 h ^^^ word32 v.toUInt32) (word32 s.flags.toUInt32)

/-- The 64-bit hash of an interval, in the family that `seed` selects. -/
def hash64 (seed : UInt64) (s : IntSpan) : UInt64 :=
  s.finiteBounds.foldl (fun h v => turn64 h ^^^ word64 (v.toUInt32.toUInt64 ^^^ seed))
    (word64 (s.flags.toUInt64 ^^^ seed))

end IntSpan

end RangeUnion
