/-!
# Four-byte words

A 32-bit word takes four bytes: least significant first in a stored value, most significant
first in a message. Reading gives back the word written before any rest
(`readLE?_append`, `readBE?_append`), and a word is read only where its own bytes stand
(`eq_append_of_readLE?`, `eq_append_of_readBE?`).
-/

namespace RangeUnion

/-- A string of bytes. -/
abbrev Bytes := List UInt8

namespace Word

/-- The word whose bytes are given, least significant first. -/
def join (b₀ b₁ b₂ b₃ : UInt8) : UInt32 :=
  b₀.toUInt32 + b₁.toUInt32 * 256 + b₂.toUInt32 * 65536 + b₃.toUInt32 * 16777216

/-- The bytes of `w`, least significant first. -/
def littleEndian (w : UInt32) : Bytes :=
  [w.toUInt8, (w >>> 8).toUInt8, (w >>> 16).toUInt8, (w >>> 24).toUInt8]

/-- The bytes of `w`, most significant first. -/
def bigEndian (w : UInt32) : Bytes :=
  [(w >>> 24).toUInt8, (w >>> 16).toUInt8, (w >>> 8).toUInt8, w.toUInt8]

/-- A word, least significant byte first, and the bytes after it. -/
def readLE? : Bytes → Option (UInt32 × Bytes)
  | b₀ :: b₁ :: b₂ :: b₃ :: rest => some (join b₀ b₁ b₂ b₃, rest)
  | _ => none

/-- A word, most significant byte first, and the bytes after it. -/
def readBE? : Bytes → Option (UInt32 × Bytes)
  | b₃ :: b₂ :: b₁ :: b₀ :: rest => some (join b₀ b₁ b₂ b₃, rest)
  | _ => none

@[simp] theorem length_littleEndian (w : UInt32) : (littleEndian w).length = 4 := rfl

@[simp] theorem length_bigEndian (w : UInt32) : (bigEndian w).length = 4 := rfl

/-! ## A word and its bytes -/

theorem toNat_join (b₀ b₁ b₂ b₃ : UInt8) :
    (join b₀ b₁ b₂ b₃).toNat =
      b₀.toNat + b₁.toNat * 256 + b₂.toNat * 65536 + b₃.toNat * 16777216 := by
  have h₀ := b₀.toNat_lt
  have h₁ := b₁.toNat_lt
  have h₂ := b₂.toNat_lt
  have h₃ := b₃.toNat_lt
  simp only [join, UInt32.toNat_add, UInt32.toNat_mul, UInt8.toNat_toUInt32, UInt32.toNat_ofNat]
  simp only [Nat.reduceMod, Nat.reducePow] at *
  omega

/-- The bytes of a word make up the word. -/
theorem join_bytes (w : UInt32) :
    join w.toUInt8 (w >>> 8).toUInt8 (w >>> 16).toUInt8 (w >>> 24).toUInt8 = w := by
  rw [← UInt32.toNat_inj, toNat_join]
  have hw := w.toNat_lt
  simp only [UInt32.toNat_toUInt8, UInt32.toNat_shiftRight, UInt32.toNat_ofNat,
    Nat.shiftRight_eq_div_pow]
  simp only [Nat.reduceMod, Nat.reducePow] at *
  omega

theorem littleEndian_join (b₀ b₁ b₂ b₃ : UInt8) :
    littleEndian (join b₀ b₁ b₂ b₃) = [b₀, b₁, b₂, b₃] := by
  have h₀ := b₀.toNat_lt
  have h₁ := b₁.toNat_lt
  have h₂ := b₂.toNat_lt
  have h₃ := b₃.toNat_lt
  simp only [littleEndian, List.cons.injEq, and_true, ← UInt8.toNat_inj, UInt32.toNat_toUInt8,
    UInt32.toNat_shiftRight, UInt32.toNat_ofNat, Nat.shiftRight_eq_div_pow, toNat_join]
  simp only [Nat.reduceMod, Nat.reducePow] at *
  omega

/-! ## Reading inverts writing -/

@[simp] theorem readLE?_append (w : UInt32) (rest : Bytes) :
    readLE? (littleEndian w ++ rest) = some (w, rest) := by
  simp [readLE?, littleEndian, join_bytes]

theorem eq_append_of_readLE? {bs rest : Bytes} {w : UInt32}
    (h : readLE? bs = some (w, rest)) : bs = littleEndian w ++ rest := by
  unfold readLE? at h
  split at h
  · simp only [Option.some.injEq, Prod.mk.injEq] at h
    obtain ⟨rfl, rfl⟩ := h
    rw [littleEndian_join]
    rfl
  · simp at h

theorem readLE?_eq_none_iff {bs : Bytes} : readLE? bs = none ↔ bs.length < 4 := by
  unfold readLE?
  split
  · simp
  · next h =>
    match bs, h with
    | [], _ | [_], _ | [_, _], _ | [_, _, _], _ => simp
    | _ :: _ :: _ :: _ :: _, h => exact absurd rfl (h _ _ _ _ _)

/-! ## The other order -/

/-- The first four bytes turned around. -/
def turn : Bytes → Bytes
  | b₀ :: b₁ :: b₂ :: b₃ :: rest => b₃ :: b₂ :: b₁ :: b₀ :: rest
  | bs => bs

theorem turn_turn (bs : Bytes) : turn (turn bs) = bs := by
  match bs with
  | [] | [_] | [_, _] | [_, _, _] | _ :: _ :: _ :: _ :: _ => rfl

theorem length_turn (bs : Bytes) : (turn bs).length = bs.length := by
  match bs with
  | [] | [_] | [_, _] | [_, _, _] | _ :: _ :: _ :: _ :: _ => rfl

theorem readLE?_turn (bs : Bytes) : readLE? (turn bs) = readBE? bs := by
  match bs with
  | [] | [_] | [_, _] | [_, _, _] | _ :: _ :: _ :: _ :: _ => rfl

@[simp] theorem readBE?_append (w : UInt32) (rest : Bytes) :
    readBE? (bigEndian w ++ rest) = some (w, rest) := by
  rw [← readLE?_turn]
  exact readLE?_append w rest

theorem eq_append_of_readBE? {bs rest : Bytes} {w : UInt32}
    (h : readBE? bs = some (w, rest)) : bs = bigEndian w ++ rest := by
  rw [← readLE?_turn] at h
  rw [← turn_turn bs, eq_append_of_readLE? h]
  rfl

theorem readBE?_eq_none_iff {bs : Bytes} : readBE? bs = none ↔ bs.length < 4 := by
  rw [← readLE?_turn, readLE?_eq_none_iff, length_turn]

end Word

end RangeUnion
