import RangeUnion.Text.Encoding

/-!
# Cutting texts at bytes

A byte below 128 is the whole encoding of a character. So if the encoding of a text is cut right
before such a byte, or right behind it, then the text is cut (`exists_part`), and bytes that are
all below 128 encode one character each (`encode_of_lt`, `eq_map_of_encode`).
-/

namespace RangeUnion.Text

/-- The UTF-8 encoding of some characters. -/
def encode (cs : List Char) : Bytes := cs.flatMap String.utf8EncodeChar

theorem toBytes_ofList (cs : List Char) : toBytes (String.ofList cs) = encode cs := by
  unfold toBytes encode
  rw [String.toUTF8_eq_toByteArray, String.toByteArray_ofList, List.utf8Encode]
  exact List.toList_data_toByteArray

theorem exists_toBytes_eq (s : String) : ∃ cs, s = String.ofList cs ∧ toBytes s = encode cs := by
  refine ⟨s.toList, String.ofList_toList.symm, ?_⟩
  rw [← toBytes_ofList, String.ofList_toList]

theorem le_or (x m : UInt8) : m ≤ x ||| m := by
  rw [UInt8.le_iff_toNat_le, UInt8.toNat_or]
  exact Nat.right_le_or

/-- A byte below 128 is the whole encoding of a character. -/
theorem utf8EncodeChar_eq_of_mem {c : Char} {b : UInt8} (hb : b < 0x80)
    (h : b ∈ String.utf8EncodeChar c) : String.utf8EncodeChar c = [b] := by
  have hlarge (x m : UInt8) (hm : 0x80 ≤ m) : ¬ x ||| m < 0x80 :=
    UInt8.not_lt.2 (UInt8.le_trans hm (le_or x m))
  rcases c.utf8Size_eq with hsize | hsize | hsize | hsize
  · rw [String.utf8EncodeChar_eq_singleton hsize] at h ⊢
    rw [List.mem_singleton.1 h]
  · rw [String.utf8EncodeChar_eq_cons_cons hsize] at h
    simp only [List.mem_cons, List.not_mem_nil, or_false] at h
    rcases h with rfl | rfl <;> exact absurd hb (hlarge _ _ (by decide))
  · rw [String.utf8EncodeChar_eq_cons_cons_cons hsize] at h
    simp only [List.mem_cons, List.not_mem_nil, or_false] at h
    rcases h with rfl | rfl | rfl <;> exact absurd hb (hlarge _ _ (by decide))
  · rw [String.utf8EncodeChar_eq_cons_cons_cons_cons hsize] at h
    simp only [List.mem_cons, List.not_mem_nil, or_false] at h
    rcases h with rfl | rfl | rfl | rfl <;> exact absurd hb (hlarge _ _ (by decide))

theorem encode_cons (c : Char) (cs : List Char) :
    encode (c :: cs) = String.utf8EncodeChar c ++ encode cs := List.flatMap_cons

theorem encode_append (cs ds : List Char) : encode (cs ++ ds) = encode cs ++ encode ds :=
  List.flatMap_append

/-- Characters are cut before and behind a byte below 128. -/
theorem exists_char_of_encode {cs : List Char} {front back : Bytes} {b : UInt8} (hb : b < 0x80)
    (h : encode cs = front ++ b :: back) : ∃ cs₁ c cs₂, cs = cs₁ ++ c :: cs₂ ∧
      encode cs₁ = front ∧ String.utf8EncodeChar c = [b] ∧ encode cs₂ = back := by
  induction cs generalizing front with
  | nil => exact absurd h.symm (List.append_ne_nil_of_right_ne_nil front (List.cons_ne_nil b back))
  | cons c cs ih =>
    rw [encode_cons, List.append_eq_append_iff] at h
    rcases h with ⟨front', rfl, hcs⟩ | ⟨rest, hc, hback⟩
    · obtain ⟨cs₁, d, cs₂, rfl, rfl, hd, rfl⟩ := ih hcs
      exact ⟨c :: cs₁, d, cs₂, rfl, encode_cons c cs₁, hd, rfl⟩
    · cases rest with
      | nil =>
        rw [List.append_nil] at hc
        obtain ⟨cs₁, d, cs₂, rfl, hnil, hd, rfl⟩ := @ih [] hback.symm
        refine ⟨c :: cs₁, d, cs₂, rfl, ?_, hd, rfl⟩
        rw [encode_cons, hnil, List.append_nil, hc]
      | cons b' rest =>
        obtain rfl : b = b' := List.head_eq_of_cons_eq hback
        have hmem : b ∈ String.utf8EncodeChar c := by
          rw [hc]
          exact List.mem_append_right front List.mem_cons_self
        have hsingle := utf8EncodeChar_eq_of_mem hb hmem
        rw [hsingle] at hc
        obtain ⟨rfl, hrest⟩ : front = [] ∧ rest = [] := by
          cases front with
          | nil => exact ⟨rfl, (List.tail_eq_of_cons_eq hc).symm⟩
          | cons d front =>
            have htail := List.tail_eq_of_cons_eq hc
            exact absurd htail.symm
              (List.append_ne_nil_of_right_ne_nil front (List.cons_ne_nil b rest))
        refine ⟨[], c, cs, rfl, rfl, hsingle, ?_⟩
        rw [List.tail_eq_of_cons_eq hback, hrest]
        rfl

/-! ## Texts of characters below 128 -/

theorem encode_of_lt {cs : List Char} (h : ∀ c ∈ cs, c.toNat < 0x80) :
    encode cs = cs.map Char.toUInt8 := by
  induction cs with
  | nil => rfl
  | cons c cs ih =>
    have hc : c.val ≤ 127 := by
      have hlt : c.val.toNat < 0x80 := h c List.mem_cons_self
      rw [UInt32.le_iff_toNat_le]
      exact Nat.le_of_lt_succ hlt
    rw [encode_cons, ih fun d hd => h d (List.mem_cons_of_mem c hd),
      String.utf8EncodeChar_eq_singleton (Char.utf8Size_eq_one_iff.2 hc)]
    rfl

theorem eq_ofUInt8_of_utf8EncodeChar {c : Char} {b : UInt8} (h : String.utf8EncodeChar c = [b]) :
    c = Char.ofUInt8 b := by
  have hsize : c.utf8Size = 1 := by
    rw [← String.length_utf8EncodeChar, h]
    rfl
  have hval := UInt32.le_iff_toNat_le.1 (Char.utf8Size_eq_one_iff.1 hsize)
  have hbound : (127 : UInt32).toNat = 127 := rfl
  rw [String.utf8EncodeChar_eq_singleton hsize] at h
  apply Char.ext
  show c.val = b.toUInt32
  rw [← List.head_eq_of_cons_eq h, ← UInt32.toNat_inj, UInt8.toNat_toUInt32,
    UInt32.toNat_toUInt8, Nat.mod_eq_of_lt (by omega)]

theorem utf8EncodeChar_ofUInt8 {b : UInt8} (hb : b < 0x80) :
    String.utf8EncodeChar (Char.ofUInt8 b) = [b] := by
  have hval : (Char.ofUInt8 b).val = b.toUInt32 := rfl
  have hsize : (Char.ofUInt8 b).utf8Size = 1 := by
    rw [Char.utf8Size_eq_one_iff, hval, UInt32.le_iff_toNat_le, UInt8.toNat_toUInt32]
    exact Nat.le_of_lt_succ (UInt8.lt_iff_toNat_lt.1 hb)
  rw [String.utf8EncodeChar_eq_singleton hsize, hval, UInt8.toUInt8_toUInt32]

/-- A byte below 128 occurs only in the character that it encodes. -/
theorem eq_iff_of_mem_utf8EncodeChar {c : Char} {b b' : UInt8} (hb' : b' < 0x80)
    (h : b ∈ String.utf8EncodeChar c) : b = b' ↔ c = Char.ofUInt8 b' := by
  constructor
  · rintro rfl
    exact eq_ofUInt8_of_utf8EncodeChar (utf8EncodeChar_eq_of_mem hb' h)
  · rintro rfl
    rw [utf8EncodeChar_ofUInt8 hb'] at h
    exact List.mem_singleton.1 h

theorem eq_map_of_encode {cs : List Char} {bytes : Bytes} (h : encode cs = bytes)
    (hbytes : ∀ b ∈ bytes, b < 0x80) : cs = bytes.map Char.ofUInt8 := by
  induction bytes generalizing cs with
  | nil =>
    cases cs with
    | nil => rfl
    | cons c cs => exact absurd (List.append_eq_nil_iff.1 h).1 String.utf8EncodeChar_ne_nil
  | cons b bytes ih =>
    obtain ⟨cs₁, c, cs₂, rfl, hnil, hc, hrest⟩ :=
      @exists_char_of_encode cs [] bytes b (hbytes b List.mem_cons_self) h
    have hcs₁ : cs₁ = [] := by
      cases cs₁ with
      | nil => rfl
      | cons d ds => exact absurd (List.append_eq_nil_iff.1 hnil).1 String.utf8EncodeChar_ne_nil
    have hrest := ih hrest fun d hd => hbytes d (List.mem_cons_of_mem b hd)
    rw [hcs₁, List.nil_append, List.map_cons, ← hrest, eq_ofUInt8_of_utf8EncodeChar hc]

/-! ## Parts of texts -/

theorem toBytes_append (s t : String) : toBytes (s ++ t) = toBytes s ++ toBytes t := by
  unfold toBytes
  rw [String.toUTF8_eq_toByteArray, String.toByteArray_append]
  simp

/-- The part of a text from one byte below 128 up to another one is a text. -/
theorem exists_part {text : String} {front part back : Bytes} {b b' : UInt8} (hb : b < 0x80)
    (hb' : b' < 0x80) (h : toBytes text = front ++ (b :: (part ++ [b']) ++ back)) :
    ∃ before literal after : String, text = before ++ literal ++ after ∧
      toBytes before = front ∧ toBytes literal = b :: (part ++ [b']) ∧ toBytes after = back := by
  obtain ⟨cs, rfl, hcs⟩ := exists_toBytes_eq text
  rw [h] at hcs
  have hfirst : encode cs = front ++ b :: (part ++ b' :: back) := by
    rw [← hcs]
    simp
  obtain ⟨cs₁, c, cs₂, rfl, hfront, hc, hrest⟩ := exists_char_of_encode hb hfirst
  obtain ⟨cs₃, c', cs₄, rfl, hpart, hc', hback⟩ := exists_char_of_encode hb' hrest
  refine ⟨String.ofList cs₁, String.ofList (c :: (cs₃ ++ [c'])), String.ofList cs₄, ?_, ?_, ?_, ?_⟩
  · rw [← String.ofList_append, ← String.ofList_append]
    simp
  · rw [toBytes_ofList, hfront]
  · rw [toBytes_ofList, encode_cons, encode_append, encode_cons, hc, hc', hpart]
    rfl
  · rw [toBytes_ofList, hback]

end RangeUnion.Text
