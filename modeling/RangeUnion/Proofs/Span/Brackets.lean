import Mathlib.Data.List.Basic
import RangeUnion.IntSpan.Literal
import RangeUnion.Proofs.Text.Slices

/-!
# The brackets of a literal as bytes

Reading an interval's literal, one can look at the first and the last byte instead of the first and
the last character, and take the slice between them. Since brackets are below 128, a byte is a
bracket only if it is a whole character (`bracketByte?_eq`). So the slice is there whenever it is
taken (`isBoundary_of_brackets`), and what is read is the same (`parse?_eq`).
-/

namespace RangeUnion.IntSpan

open Text

/-- A bracket read as whether the bound is included. -/
def bracketByte? (including excluding b : UInt8) : Option Bool :=
  if b = including then some true else if b = excluding then some false else none

/-- The first byte, read as a bracket. -/
def firstBracket? (bytes : Bytes) : Option Bool := bytes.head?.bind (bracketByte? 0x5B 0x28)

/-- The last byte, read as a bracket, if it is not the first one. -/
def lastBracket? (bytes : Bytes) : Option Bool :=
  if 1 < bytes.length then bytes.getLast?.bind (bracketByte? 0x5D 0x29) else none

/-- Cut what stands between the brackets. -/
def cutBounds (lowerIncluded upperIncluded : Bool) (inner : List Char) :
    Except RangeFault Parts :=
  match inner.span (· ≠ ',') with
  | (_, []) => .error .missingComma
  | (lower, _ :: upper) =>
    if ',' ∈ upper then .error .tooManyCommas
    else .ok ⟨lowerIncluded, lower, upper, upperIncluded⟩

/-- Cut a literal without outer blanks at its first and last byte. There is no outcome if the slice
between them cannot be taken. -/
def cut? (text : String) : Option (Except RangeFault Parts) :=
  match firstBracket? (toBytes text), lastBracket? (toBytes text) with
  | none, _ => some (.error .missingLeft)
  | some _, none => some (.error .missingRight)
  | some lowerIncluded, some upperIncluded =>
    (slice? text 1 ((toBytes text).length - 1)).map fun inner =>
      cutBounds lowerIncluded upperIncluded inner.toList

/-- The interval of the parts of a literal. -/
def readParts (input : String) (parts : Except RangeFault Parts) : Except Error IntSpan :=
  match parts with
  | .error fault => malformed input fault
  | .ok parts => do
    let l ← readBound input parts.lower
    let u ← readBound input parts.upper
    ofBounds l parts.lowerIncluded u parts.upperIncluded

/-- The interval that a literal stands for, read at the first and last byte. -/
def parse? (input : String) : Option (Except Error IntSpan) :=
  let text := String.ofList (trim input.toList)
  if text.toList.map Char.toLower = emptyWord then some (.ok .empty)
  else (cut? text).map (readParts input)

variable {text : String} {c : Char} {cs : List Char} {b : UInt8}

/-! ## Brackets are whole characters -/

/-- Any byte of a character is a bracket exactly if the character is. -/
theorem bracketByte?_eq {including excluding : UInt8} (hincluding : including < 0x80)
    (hexcluding : excluding < 0x80) (h : b ∈ String.utf8EncodeChar c) :
    bracketByte? including excluding b =
      if c = Char.ofUInt8 including then some true
      else if c = Char.ofUInt8 excluding then some false else none := by
  unfold bracketByte?
  simp only [eq_iff_of_mem_utf8EncodeChar hincluding h, eq_iff_of_mem_utf8EncodeChar hexcluding h]

theorem lowerBracket?_eq (h : b ∈ String.utf8EncodeChar c) :
    lowerBracket? c = bracketByte? 0x5B 0x28 b := by
  have hincluding : Char.ofUInt8 0x5B = '[' := rfl
  have hexcluding : Char.ofUInt8 0x28 = '(' := rfl
  rw [bracketByte?_eq (by decide) (by decide) h, hincluding, hexcluding]
  unfold lowerBracket?
  split
  · rfl
  · rfl
  · next hclosed hopen => rw [if_neg hclosed, if_neg hopen]

theorem upperBracket?_eq (h : b ∈ String.utf8EncodeChar c) :
    upperBracket? c = bracketByte? 0x5D 0x29 b := by
  have hincluding : Char.ofUInt8 0x5D = ']' := rfl
  have hexcluding : Char.ofUInt8 0x29 = ')' := rfl
  rw [bracketByte?_eq (by decide) (by decide) h, hincluding, hexcluding]
  unfold upperBracket?
  split
  · rfl
  · rfl
  · next hclosed hopen => rw [if_neg hclosed, if_neg hopen]

theorem length_of_lowerBracket? {included : Bool} (h : lowerBracket? c = some included) :
    (String.utf8EncodeChar c).length = 1 := by
  unfold lowerBracket? at h
  split at h
  · rfl
  · rfl
  · cases h

theorem length_of_upperBracket? {included : Bool} (h : upperBracket? c = some included) :
    (String.utf8EncodeChar c).length = 1 := by
  unfold upperBracket? at h
  split at h
  · rfl
  · rfl
  · cases h

theorem firstBracket?_cons (c : Char) (cs : List Char) :
    firstBracket? (encode (c :: cs)) = lowerBracket? c := by
  obtain ⟨b, bytes, hc⟩ := List.exists_cons_of_ne_nil (@String.utf8EncodeChar_ne_nil c)
  have hb : b ∈ String.utf8EncodeChar c := by
    rw [hc]
    exact List.mem_cons_self
  rw [lowerBracket?_eq hb, encode_cons, hc]
  rfl

theorem encode_singleton (c : Char) : encode [c] = String.utf8EncodeChar c := by
  rw [encode_cons]
  exact List.append_nil _

theorem lastBracket?_concat (h : cs ≠ []) (c : Char) :
    lastBracket? (encode (cs ++ [c])) = upperBracket? c := by
  obtain ⟨bytes, b, hc⟩ : ∃ bytes b, String.utf8EncodeChar c = bytes ++ [b] :=
    (List.eq_nil_or_concat' _).resolve_left String.utf8EncodeChar_ne_nil
  have hb : b ∈ String.utf8EncodeChar c := by
    rw [hc]
    exact List.mem_concat_self
  have hlength : 1 < (encode cs ++ (bytes ++ [b])).length := by
    obtain ⟨d, ds, rfl⟩ := List.exists_cons_of_ne_nil h
    have hd := List.length_pos_iff.2 (@String.utf8EncodeChar_ne_nil d)
    rw [encode_cons, List.length_append, List.length_append, List.length_append,
      List.length_singleton]
    omega
  rw [upperBracket?_eq hb, encode_append, encode_singleton, hc, lastBracket?, if_pos hlength,
    ← List.append_assoc, List.getLast?_concat]
  rfl

theorem lastBracket?_singleton {included : Bool} (h : lowerBracket? c = some included) :
    lastBracket? (encode [c]) = none := by
  unfold lastBracket?
  rw [encode_singleton, length_of_lowerBracket? h]
  rfl

/-! ## Cutting at bytes -/

theorem slice?_brackets {d : Char} (hc : (String.utf8EncodeChar c).length = 1)
    (hd : (String.utf8EncodeChar d).length = 1) :
    slice? (String.ofList (c :: (cs ++ [d]))) 1
      ((toBytes (String.ofList (c :: (cs ++ [d])))).length - 1) = some (String.ofList cs) := by
  have htext : String.ofList (c :: (cs ++ [d])) =
      String.ofList [c] ++ String.ofList cs ++ String.ofList [d] := by
    rw [← String.ofList_append, ← String.ofList_append]
    rfl
  have hslice := slice?_append (String.ofList [c]) (String.ofList cs) (String.ofList [d])
  rw [htext, toBytes_append _ (String.ofList [d]), List.length_append, toBytes_ofList [d],
    encode_singleton, hd, Nat.add_sub_cancel]
  rwa [toBytes_ofList [c], encode_singleton, hc] at hslice

/-- Cutting at the first and last byte is cutting at the first and last character. -/
theorem cut?_eq (cs : List Char) : cut? (String.ofList cs) = some (cut cs) := by
  cases cs with
  | nil => rfl
  | cons c cs =>
    unfold cut?
    rw [toBytes_ofList, firstBracket?_cons, cut]
    cases hlower : lowerBracket? c with
    | none => rfl
    | some lowerIncluded =>
      rcases List.eq_nil_or_concat' cs with rfl | ⟨inner, d, rfl⟩
      · rw [lastBracket?_singleton hlower]
        rfl
      · have hne : c :: inner ≠ [] := List.cons_ne_nil c inner
        rw [← List.cons_append, lastBracket?_concat hne]
        simp only [List.getLast?_concat, List.dropLast_concat, Option.bind_some]
        cases hupper : upperBracket? d with
        | none => rfl
        | some upperIncluded =>
          have hslice := @slice?_brackets c inner d (length_of_lowerBracket? hlower)
            (length_of_upperBracket? hupper)
          rw [toBytes_ofList] at hslice
          simp only [List.cons_append]
          rw [hslice, Option.map_some, String.toList_ofList]
          rfl

/-- Reading at bytes is reading at characters, and the slice is never missing. -/
theorem parse?_eq (input : String) : parse? input = some (parse input) := by
  unfold parse? parse
  simp only [String.toList_ofList, cut?_eq, Option.map_some]
  split
  · rfl
  · cases cut (trim input.toList) <;> rfl

/-! ## The slice between the brackets -/

theorem lt_of_bracketByte? {including excluding : UInt8} {included : Bool}
    (hincluding : including < 0x80) (hexcluding : excluding < 0x80)
    (h : bracketByte? including excluding b = some included) : b < 0x80 := by
  unfold bracketByte? at h
  split at h
  · next hb => exact hb ▸ hincluding
  split at h
  · next hb => exact hb ▸ hexcluding
  · cases h

/-- Between brackets at both ends there is a slice. -/
theorem isBoundary_of_brackets {lowerIncluded upperIncluded : Bool}
    (hfirst : firstBracket? (toBytes text) = some lowerIncluded)
    (hlast : lastBracket? (toBytes text) = some upperIncluded) :
    1 ≤ (toBytes text).length - 1 ∧ IsBoundary text 1 ∧
      IsBoundary text ((toBytes text).length - 1) := by
  obtain ⟨b, hb, hbracket⟩ := Option.bind_eq_some_iff.1 hfirst
  unfold lastBracket? at hlast
  split at hlast
  · next hlength =>
    obtain ⟨b', hb', hbracket'⟩ := Option.bind_eq_some_iff.1 hlast
    rw [List.head?_eq_getElem?] at hb
    rw [List.getLast?_eq_getElem?] at hb'
    exact ⟨Nat.le_sub_one_of_lt hlength,
      (isBoundary_of_lt (lt_of_bracketByte? (by decide) (by decide) hbracket) hb).2,
      (isBoundary_of_lt (lt_of_bracketByte? (by decide) (by decide) hbracket') hb').1⟩
  · cases hlast

end RangeUnion.IntSpan
