import RangeUnion.Bytes.Word

/-!
# Texts and their bytes

Literals are scanned as the bytes of their UTF-8 encoding and cut into parts, each of which is
a text again. Reading the bytes of a text gives it back (`ofBytes_toBytes`).
-/

namespace RangeUnion.Text

/-- The UTF-8 encoding of a text. -/
def toBytes (s : String) : Bytes := s.toUTF8.data.toList

/-- The text whose UTF-8 encoding is `bytes`, if it is one. -/
def ofBytes? (bytes : Bytes) : Option String := String.fromUTF8? ⟨bytes.toArray⟩

/-- The text whose UTF-8 encoding is `bytes`. Bytes that are no encoding have an empty text. -/
def ofBytes (bytes : Bytes) : String := (ofBytes? bytes).getD ""

theorem ofBytes?_toBytes (s : String) : ofBytes? (toBytes s) = some s := by
  exact dif_pos s.isValidUTF8

@[simp] theorem ofBytes_toBytes (s : String) : ofBytes (toBytes s) = s := by
  rw [ofBytes, ofBytes?_toBytes]
  rfl

end RangeUnion.Text
