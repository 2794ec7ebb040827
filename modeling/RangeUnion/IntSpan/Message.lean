import RangeUnion.Bytes.Word
import RangeUnion.IntSpan.Flags

/-!
# The message form of an interval

The flags byte, then each finite bound as its length in bytes and its value, both words with
the most significant byte first. A message may mark its bounds as included or excluded; what is
received is the half-open form.
-/

namespace RangeUnion.IntSpan

/-- The message bytes of a bound. -/
def sendBound (v : Int32) : Bytes := Word.bigEndian 4 ++ Word.bigEndian v.toUInt32

/-- The message of an interval. -/
def send (s : IntSpan) : Bytes := s.flags :: s.finiteBounds.flatMap sendBound

/-- A bound, unless it is infinite, and the bytes after it. -/
def receiveBound (infinite : Bool) (bytes : Bytes) : Except Error (Option Int32 × Bytes) :=
  if infinite then .ok (none, bytes)
  else match Word.readBE? bytes with
    | none => .error .insufficientData
    | some (length, bytes) =>
      if length ≠ 4 then .error (.invalidInterval (.boundLength length.toNat))
      else match Word.readBE? bytes with
        | none => .error .insufficientData
        | some (w, rest) => .ok (some w.toInt32, rest)

/-- The interval whose message is the whole of `bytes`. -/
def receive : Bytes → Except Error IntSpan
  | [] => .error .insufficientData
  | flags :: bytes =>
    if Flag.has flags Flag.isEmpty then
      if bytes.isEmpty then .ok .empty else .error (.trailingData bytes.length)
    else do
      let (l, bytes) ← receiveBound (Flag.has flags Flag.lowerInfinite) bytes
      let (u, bytes) ← receiveBound (Flag.has flags Flag.upperInfinite) bytes
      if !bytes.isEmpty then .error (.trailingData bytes.length)
      else ofBounds l (Flag.has flags Flag.lowerIncluded) u (Flag.has flags Flag.upperIncluded)

theorem receiveBound_append (b : Option Int32) (rest : Bytes) :
    receiveBound b.isNone (b.toList.flatMap sendBound ++ rest) = .ok (b, rest) := by
  cases b with
  | none => simp [receiveBound]
  | some v => simp [receiveBound, sendBound]

end RangeUnion.IntSpan
