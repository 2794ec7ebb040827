import RangeUnion.Proofs.Span.Message
import RangeUnion.Proofs.Span.Spelling

/-!
# Intervals read back

A well-formed interval is read back from its message (`receive_send`) and from its literal
(`parse_toText`). Both write the half-open form, and bounds that ascend are left as they are when
they are brought into that form again (`ofBounds_halfOpen`).
-/

namespace RangeUnion.IntSpan

open Text

variable {s : IntSpan} {l u : Option Int32}

theorem shift_false (b : Option Int32) : shift false b = .ok b := by cases b <;> rfl

theorem shift_not_isSome (b : Option Int32) : shift (!b.isSome) b = .ok b := by cases b <;> rfl

theorem reversed_of_below (h : below l u = true) : reversed l u = false := by
  cases l with
  | none => rfl
  | some l =>
    cases u with
    | none => rfl
    | some u =>
      rw [below_some_some, Int32.lt_iff_toInt_lt] at h
      simp only [reversed, decide_eq_false_iff_not, Int32.lt_iff_toInt_lt]
      omega

/-- Bounds that are marked as half-open are not moved. -/
theorem ofBounds_isSome (l u : Option Int32) : ofBounds l l.isSome u false =
    if reversed l u then .error (.invalidInterval .reversed) else .ok (bounded l u) := by
  rw [ofBounds, shift_not_isSome, shift_false]
  rfl

/-- Bounds that ascend and are marked as half-open stay what they are. -/
theorem ofBounds_halfOpen (h : below l u = true) :
    ofBounds l l.isSome u false = .ok (between l u) := by
  rw [ofBounds_isSome, reversed_of_below h, if_neg Bool.false_ne_true, bounded, if_pos h]

/-! ## Messages -/

/-- A message is read as its bounds, whether or not they ascend. -/
theorem receive_send_between (l u : Option Int32) :
    receive (send (between l u)) = ofBounds l l.isSome u false := by
  have hreceive := receive_flatMap_sendBound (not_has_isEmpty_between l u)
    (has_lowerInfinite_between l u) (has_upperInfinite_between l u)
  rwa [has_lowerIncluded_between, has_upperIncluded_between] at hreceive

/-- A well-formed interval is read back from its message. -/
theorem receive_send (h : s.WellFormed) : receive (send s) = .ok s := by
  cases s with
  | empty => rfl
  | between l u => rw [receive_send_between, ofBounds_halfOpen h]

/-! ## Literals -/

/-- What the literal of a bound is made of. -/
def IsBoundChar (c : Char) : Prop := c.isDigit = true ∨ c = '-'

theorem isBoundChar_of_mem {b : Option Int32} {c : Char} (h : c ∈ boundText b) :
    IsBoundChar c := by
  cases b with
  | none => cases h
  | some v =>
    change c ∈ (if v.toInt < 0 then _ else _) at h
    split at h
    · rcases List.mem_cons.1 h with rfl | h
      · exact .inr rfl
      · exact .inl (Decimal.isDigit_of_mem_digits h)
    · exact .inl (Decimal.isDigit_of_mem_digits h)

theorem IsBoundChar.toNat_lt {c : Char} (h : IsBoundChar c) : 0x2C < c.toNat ∧ c.toNat < 0x3A := by
  rcases h with h | rfl
  · rw [Char.isDigit_iff_toNat] at h
    have hzero : '0'.toNat = 0x30 := rfl
    have hnine : '9'.toNat = 0x39 := rfl
    omega
  · decide

theorem spellsInt_numeral (z : Int) : SpellsInt z (Decimal.numeral z) := by
  unfold Decimal.numeral
  split
  · have hz : z = -(z.natAbs : Int) := by omega
    conv => lhs; rw [hz]
    exact .minus 0 z.natAbs
  · have hz : z = (z.natAbs : Int) := by omega
    conv => lhs; rw [hz]
    exact .unsigned 0 z.natAbs

/-- The literal of a bound spells the bound. -/
theorem spellsBound_boundText (b : Option Int32) : SpellsBound b (boundText b) := by
  have hbare : SpellsBare b (boundText b) := by
    cases b with
    | none => exact .infinite
    | some v => exact .finite (spellsInt_numeral v.toInt)
  have hspells := SpellsBound.plain hbare .nil .nil
  rwa [List.nil_append, List.append_nil] at hspells

/-- The opening bracket of a literal. -/
def openingBracket (l : Option Int32) : Char := if l.isSome then '[' else '('

theorem openingBracket_eq (l : Option Int32) : openingBracket l = '[' ∨ openingBracket l = '(' := by
  cases l with
  | none => exact .inr rfl
  | some v => exact .inl rfl

theorem literal_between (l u : Option Int32) : (between l u).literal =
    openingBracket l :: (boundText l ++ ',' :: boundText u ++ [')']) := rfl

/-- The literal of an interval spells its bounds. -/
theorem spells_toText (l u : Option Int32) : Spells l l.isSome u false (between l u).toText := by
  refine ⟨[], boundText l, boundText u, [], .nil, spellsBound_boundText l,
    spellsBound_boundText u, .nil, ?_⟩
  rw [toText, String.toList_ofList, List.nil_append, List.append_nil]
  rfl

/-- A literal is read as its bounds, whether or not they ascend. -/
theorem parse_toText_between (l u : Option Int32) :
    parse (between l u).toText = ofBounds l l.isSome u false :=
  parse_of_spells (spells_toText l u)

/-- A well-formed interval is read back from its literal. -/
theorem parse_toText (h : s.WellFormed) : parse s.toText = .ok s := by
  cases s with
  | empty => rfl
  | between l u => rw [parse_toText_between, ofBounds_halfOpen h]

end RangeUnion.IntSpan
