import RangeUnion.Proofs.Text.Encoding

/-!
# Slices of texts

A text can be cut before a byte only if a character starts there or the text ends there. So there is
no slice between two places if one of them lies within a character or beyond the end, or if they are
in the wrong order. Otherwise the slice is the part of the text between them
(`slice?_eq_some_iff`). A byte below 128 is a whole character, and a text can be cut before and
behind it (`isBoundary_of_lt`).
-/

namespace RangeUnion.Text

variable {text part : String} {lo hi i : Nat}

/-- A character of `text` starts before its byte `i`, or the text ends there. -/
def IsBoundary (text : String) (i : Nat) : Prop := String.Pos.Raw.IsValid text ⟨i⟩

instance (text : String) (i : Nat) : Decidable (IsBoundary text i) :=
  inferInstanceAs (Decidable (String.Pos.Raw.IsValid text ⟨i⟩))

/-- The slice of `text` from its byte `lo` up to its byte `hi`, which is left out. -/
def slice? (text : String) (lo hi : Nat) : Option String :=
  if lo ≤ hi ∧ IsBoundary text lo ∧ IsBoundary text hi then
    some (ofBytes (((toBytes text).take hi).drop lo))
  else none

theorem isBoundary_iff : IsBoundary text i ↔
    ∃ before after : String, text = before ++ after ∧ (toBytes before).length = i := by
  unfold IsBoundary
  rw [String.Pos.Raw.isValid_iff_exists_append]
  constructor
  · rintro ⟨before, after, htext, hi⟩
    exact ⟨before, after, htext, (congrArg String.Pos.Raw.byteIdx hi).symm⟩
  · rintro ⟨before, after, htext, rfl⟩
    exact ⟨before, after, htext, rfl⟩

theorem isBoundary_length_append (before after : String) :
    IsBoundary (before ++ after) (toBytes before).length :=
  isBoundary_iff.2 ⟨before, after, rfl, rfl⟩

/-- A text can be cut before and behind a byte below 128. -/
theorem isBoundary_of_lt {b : UInt8} (hb : b < 0x80) (h : (toBytes text)[i]? = some b) :
    IsBoundary text i ∧ IsBoundary text (i + 1) := by
  obtain ⟨hi, rfl⟩ := List.getElem?_eq_some_iff.1 h
  obtain ⟨cs, rfl, hcs⟩ := exists_toBytes_eq text
  have hsplit : toBytes (String.ofList cs) = (toBytes (String.ofList cs)).take i ++
      (toBytes (String.ofList cs))[i] :: (toBytes (String.ofList cs)).drop (i + 1) := by
    rw [List.getElem_cons_drop, List.take_append_drop]
  obtain ⟨cs₁, c, cs₂, rfl, hfront, hc, _⟩ := exists_char_of_encode hb (hcs.symm.trans hsplit)
  have hlength : (toBytes (String.ofList cs₁)).length = i := by
    rw [toBytes_ofList, hfront, List.length_take_of_le (Nat.le_of_lt hi)]
  constructor
  · refine isBoundary_iff.2 ⟨String.ofList cs₁, String.ofList (c :: cs₂), ?_, hlength⟩
    rw [← String.ofList_append]
  · refine isBoundary_iff.2 ⟨String.ofList (cs₁ ++ [c]), String.ofList cs₂, ?_, ?_⟩
    · rw [← String.ofList_append, List.append_assoc, List.singleton_append]
    · rw [String.ofList_append, toBytes_append, List.length_append, hlength, toBytes_ofList,
        encode_cons, hc]
      rfl

/-- The slice of a text is its part between two places. -/
theorem slice?_append (before part after : String) :
    slice? (before ++ part ++ after) (toBytes before).length (toBytes (before ++ part)).length =
      some part := by
  have hle : (toBytes before).length ≤ (toBytes (before ++ part)).length := by
    rw [toBytes_append, List.length_append]
    exact Nat.le_add_right _ _
  have hlo : IsBoundary (before ++ part ++ after) (toBytes before).length := by
    rw [String.append_assoc]
    exact isBoundary_length_append before (part ++ after)
  have hhi := isBoundary_length_append (before ++ part) after
  unfold slice?
  rw [if_pos ⟨hle, hlo, hhi⟩, toBytes_append (before ++ part), List.take_left' rfl,
    toBytes_append before, List.drop_left' rfl, ofBytes_toBytes]

/-- Between two boundaries stands a part of the text. -/
theorem exists_part_of_isBoundary (hle : lo ≤ hi) (hlo : IsBoundary text lo)
    (hhi : IsBoundary text hi) : ∃ before part after : String, text = before ++ part ++ after ∧
      (toBytes before).length = lo ∧ (toBytes (before ++ part)).length = hi := by
  obtain ⟨before, after, rfl, rfl⟩ := isBoundary_iff.1 hlo
  obtain ⟨before', after', htext, rfl⟩ := isBoundary_iff.1 hhi
  have hlists : before.toList ++ after.toList = before'.toList ++ after'.toList := by
    rw [← String.toList_append, htext, String.toList_append]
  rcases List.append_eq_append_iff.1 hlists with ⟨cs, hbefore, _⟩ | ⟨cs, hbefore, hafter⟩
  · have happend : before' = before ++ String.ofList cs :=
      String.toList_injective (by rw [hbefore, String.toList_append, String.toList_ofList])
    exact ⟨before, String.ofList cs, after', by rw [htext, happend], rfl, by rw [happend]⟩
  · -- the two places are in the right order, so nothing stands between them
    have happend : before = before' ++ String.ofList cs :=
      String.toList_injective (by rw [hbefore, String.toList_append, String.toList_ofList])
    rw [happend, toBytes_append, List.length_append] at hle
    have hempty : (toBytes (String.ofList cs)).length = 0 := by omega
    have hlength : (toBytes (before ++ "")).length = (toBytes before').length := by
      rw [String.append_empty, happend, toBytes_append, List.length_append, hempty]
      rfl
    exact ⟨before, "", after, by rw [String.append_empty], rfl, hlength⟩

theorem slice?_eq_some_iff : slice? text lo hi = some part ↔
    ∃ before after : String, text = before ++ part ++ after ∧
      (toBytes before).length = lo ∧ (toBytes (before ++ part)).length = hi := by
  constructor
  · intro h
    have hplaces : lo ≤ hi ∧ IsBoundary text lo ∧ IsBoundary text hi := by
      unfold slice? at h
      split at h
      · next hplaces => exact hplaces
      · cases h
    obtain ⟨before, part', after, rfl, rfl, rfl⟩ :=
      exists_part_of_isBoundary hplaces.1 hplaces.2.1 hplaces.2.2
    rw [slice?_append, Option.some.injEq] at h
    exact ⟨before, after, by rw [h], rfl, by rw [h]⟩
  · rintro ⟨before, after, rfl, rfl, rfl⟩
    exact slice?_append before part after

end RangeUnion.Text
