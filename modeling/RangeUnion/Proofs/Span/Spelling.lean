import Mathlib.Data.List.TakeDrop
import RangeUnion.IntSpan.Literal
import RangeUnion.Proofs.Outcome

/-!
# Spellings of an interval's literal

An interval has many literals. A finite bound is spelled by any numeral of it, with a sign and
with zeros in front; there may be blanks around a bound, or a pair of quotation marks, and blanks
around the whole literal. Whatever is spelled in one of these ways is read as the bounds and the
brackets in it say (`parse_of_spells`).
-/

namespace RangeUnion.IntSpan

open Text

/-- All of `cs` is blank. -/
def Blanks (cs : List Char) : Prop := ∀ c ∈ cs, isBlank c = true

/-- `cs` is a numeral of `z`. -/
inductive SpellsInt : Int → List Char → Prop where
  | unsigned (zeros n : Nat) : SpellsInt n (List.replicate zeros '0' ++ Decimal.digits n)
  | plus (zeros n : Nat) : SpellsInt n ('+' :: (List.replicate zeros '0' ++ Decimal.digits n))
  | minus (zeros n : Nat) :
    SpellsInt (-n) ('-' :: (List.replicate zeros '0' ++ Decimal.digits n))

/-- `cs` is a numeral of a finite bound, or nothing for an infinite one. -/
inductive SpellsBare : Option Int32 → List Char → Prop where
  | infinite : SpellsBare none []
  | finite {v : Int32} {cs : List Char} (h : SpellsInt v.toInt cs) : SpellsBare (some v) cs

/-- `cs` is a bound with blanks around it and, if `quoted`, a pair of quotation marks. -/
inductive SpellsBound : Option Int32 → List Char → Prop where
  | plain {b : Option Int32} {front cs back : List Char} (h : SpellsBare b cs)
    (hfront : Blanks front) (hback : Blanks back) : SpellsBound b (front ++ cs ++ back)
  | quoted {b : Option Int32} {front front' cs back' back : List Char} (h : SpellsBare b cs)
    (hfront : Blanks front) (hfront' : Blanks front') (hback' : Blanks back')
    (hback : Blanks back) :
    SpellsBound b (front ++ '"' :: (front' ++ cs ++ back') ++ '"' :: back)

/-- The bracket in front of a bound. -/
def leftBracket (included : Bool) : Char := if included then '[' else '('

/-- The bracket behind a bound. -/
def rightBracket (included : Bool) : Char := if included then ']' else ')'

/-- `text` is a literal of the bounds `l` and `u`, included or excluded as marked. -/
def Spells (l : Option Int32) (lowerIncluded : Bool) (u : Option Int32) (upperIncluded : Bool)
    (text : String) : Prop :=
  ∃ front lower upper back, Blanks front ∧ SpellsBound l lower ∧ SpellsBound u upper ∧
    Blanks back ∧ text.toList =
      front ++ leftBracket lowerIncluded :: (lower ++ ',' :: upper ++ [rightBracket upperIncluded])
        ++ back

variable {b l u : Option Int32} {lowerIncluded upperIncluded : Bool} {cs : List Char} {z : Int}

/-! ## The characters of a bound -/

/-- A character that reading a bound keeps. -/
def Kept (c : Char) : Prop := isBlank c = false ∧ c ≠ '"' ∧ c ≠ '\\' ∧ c ≠ ','

instance : DecidablePred Kept := fun c => by unfold Kept; infer_instance

theorem kept_of_isDigit {c : Char} (h : c.isDigit = true) : Kept c := by
  rw [Char.isDigit_iff_toNat] at h
  have hzero : '0'.toNat = 0x30 := rfl
  have hnine : '9'.toNat = 0x39 := rfl
  refine ⟨?_, ?_, ?_, ?_⟩
  · simp only [isBlank, Bool.or_eq_false_iff, Bool.and_eq_false_iff, decide_eq_false_iff_not,
      beq_eq_false_iff_ne]
    omega
  all_goals
    rintro rfl
    exact absurd h (by decide)

theorem SpellsInt.kept (h : SpellsInt z cs) : ∀ c ∈ cs, Kept c := by
  have hdigits (zeros n : Nat) : ∀ c ∈ List.replicate zeros '0' ++ Decimal.digits n, Kept c :=
    fun c hc => kept_of_isDigit (Decimal.isDigit_of_mem_padded hc)
  cases h with
  | unsigned zeros n => exact hdigits zeros n
  | plus zeros n => exact List.forall_mem_cons.2 ⟨by decide, hdigits zeros n⟩
  | minus zeros n => exact List.forall_mem_cons.2 ⟨by decide, hdigits zeros n⟩

theorem SpellsBare.kept (h : SpellsBare b cs) : ∀ c ∈ cs, Kept c := by
  cases h with
  | infinite => exact fun c hc => absurd hc List.not_mem_nil
  | finite h => exact h.kept

theorem Blanks.nil : Blanks [] := fun _ hc => absurd hc List.not_mem_nil

theorem Blanks.append {ds : List Char} (h : Blanks cs) (hd : Blanks ds) : Blanks (cs ++ ds) :=
  List.forall_mem_append.2 ⟨h, hd⟩

theorem Blanks.comma_not_mem (h : Blanks cs) : ',' ∉ cs := fun hc => absurd (h _ hc) (by decide)

theorem SpellsBound.comma_not_mem (h : SpellsBound b cs) : ',' ∉ cs := by
  have hbare {core : List Char} (hcore : SpellsBare b core) : ',' ∉ core :=
    fun hc => absurd (hcore.kept _ hc) (by decide)
  cases h with
  | plain hcore hfront hback =>
    simp [hfront.comma_not_mem, hback.comma_not_mem, hbare hcore]
  | quoted hcore hfront hfront' hback' hback =>
    simp [hfront.comma_not_mem, hfront'.comma_not_mem, hback'.comma_not_mem, hback.comma_not_mem,
      hbare hcore]

/-! ## Reading a bound -/

theorem SpellsInt.read?_eq (h : SpellsInt z cs) : Decimal.read? cs = some z := by
  cases h with
  | unsigned zeros n => exact Decimal.read?_padded zeros n
  | plus zeros n => rw [Decimal.read?, Decimal.readDigits?_padded]; rfl
  | minus zeros n => rw [Decimal.read?, Decimal.readDigits?_padded]; rfl

theorem readInt32?_of_spells {v : Int32} (h : SpellsInt v.toInt cs) : readInt32? cs = some v := by
  have hrange : Int32.minValue.toInt ≤ v.toInt ∧ v.toInt ≤ Int32.maxValue.toInt :=
    ⟨v.minValue_le_toInt, v.toInt_le⟩
  rw [readInt32?, h.read?_eq]
  simp only [hrange, and_self, if_true, Int32.ofInt_toInt]

theorem Blanks.unquote_eq (h : Blanks cs) : unquote cs = cs := by
  refine List.filter_eq_self.2 fun c hc => ?_
  rw [decide_eq_true_eq]
  constructor
  · rintro rfl
    exact absurd (h _ hc) (by decide)
  · rintro rfl
    exact absurd (h _ hc) (by decide)

theorem SpellsBare.unquote_eq (h : SpellsBare b cs) : unquote cs = cs := by
  refine List.filter_eq_self.2 fun c hc => ?_
  obtain ⟨_, hquote, hbackslash, _⟩ := h.kept c hc
  rw [decide_eq_true_eq]
  exact ⟨hquote, hbackslash⟩

theorem SpellsBare.trim_eq (h : SpellsBare b cs) : trim cs = cs := by
  apply trim_eq_self
  · exact fun c hc => (h.kept c (List.mem_of_mem_head? hc)).1
  · exact fun c hc => (h.kept c (List.mem_of_mem_getLast? hc)).1

theorem unquote_append (cs ds : List Char) : unquote (cs ++ ds) = unquote cs ++ unquote ds :=
  List.filter_append ..

theorem unquote_quote (cs : List Char) : unquote ('"' :: cs) = unquote cs := rfl

/-- Without quotation marks a bound's spelling has blanks at most at its ends. -/
theorem SpellsBound.exists_unquote_eq (h : SpellsBound b cs) :
    ∃ front core back, Blanks front ∧ SpellsBare b core ∧ Blanks back ∧
      unquote cs = front ++ core ++ back := by
  cases h with
  | @plain front core back hcore hfront hback =>
    refine ⟨front, core, back, hfront, hcore, hback, ?_⟩
    rw [unquote_append, unquote_append, hfront.unquote_eq, hcore.unquote_eq, hback.unquote_eq]
  | @quoted front front' core back' back hcore hfront hfront' hback' hback =>
    refine ⟨front ++ front', core, back' ++ back, hfront.append hfront', hcore,
      hback'.append hback, ?_⟩
    simp only [unquote_append, unquote_quote, hfront.unquote_eq, hfront'.unquote_eq,
      hcore.unquote_eq, hback'.unquote_eq, hback.unquote_eq, List.append_assoc]

/-- A bound is read from any of its spellings. -/
theorem readBound_of_spells (input : String) (h : SpellsBound b cs) :
    readBound input cs = .ok b := by
  obtain ⟨front, core, back, hfront, hcore, hback, hunquote⟩ := h.exists_unquote_eq
  unfold readBound
  rw [hunquote, trim_append_right hback, trim_append_left hfront, hcore.trim_eq]
  cases hcore with
  | infinite => rfl
  | @finite v core hint =>
    have hread := readInt32?_of_spells hint
    cases core with
    | nil => cases hread
    | cons c cs => simp only [hread]

/-! ## Cutting a literal -/

/-- A literal is cut at its brackets and its comma. -/
theorem cut_bracketed {lower upper : List Char} (hlower : ',' ∉ lower) (hupper : ',' ∉ upper) :
    cut (leftBracket lowerIncluded :: (lower ++ ',' :: upper ++ [rightBracket upperIncluded])) =
      .ok ⟨lowerIncluded, lower, upper, upperIncluded⟩ := by
  have hspan : (lower ++ ',' :: upper).span (· ≠ ',') = (lower, ',' :: upper) := by
    have hne : ∀ c ∈ lower, decide (c ≠ ',') = true := by
      intro c hc
      rw [decide_eq_true_eq]
      rintro rfl
      exact hlower hc
    rw [List.span_eq_takeWhile_dropWhile, List.takeWhile_append_of_pos hne,
      List.dropWhile_append_of_pos hne]
    simp
  have hleft : lowerBracket? (leftBracket lowerIncluded) = some lowerIncluded := by
    cases lowerIncluded <;> rfl
  have hright : upperBracket? (rightBracket upperIncluded) = some upperIncluded := by
    cases upperIncluded <;> rfl
  rw [cut, hleft]
  simp only [List.getLast?_concat, List.dropLast_concat, Option.bind_some, hright, hspan]
  rw [if_neg hupper]

/-- Any literal of two bounds is read as these bounds. -/
theorem parse_of_spells {text : String} (h : Spells l lowerIncluded u upperIncluded text) :
    parse text = ofBounds l lowerIncluded u upperIncluded := by
  obtain ⟨front, lower, upper, back, hfront, hl, hu, hback, htext⟩ := h
  let inner := leftBracket lowerIncluded :: (lower ++ ',' :: upper ++ [rightBracket upperIncluded])
  have htrim : trim text.toList = inner := by
    rw [htext, trim_append_right hback, trim_append_left hfront]
    apply trim_eq_self
    · intro c hc
      cases hc
      cases lowerIncluded <;> decide
    · intro c hc
      rw [← List.cons_append, List.getLast?_concat] at hc
      cases hc
      cases upperIncluded <;> decide
  have hword : inner.map Char.toLower ≠ emptyWord := by
    intro heq
    have hhead : (leftBracket lowerIncluded).toLower = 'e' := List.head_eq_of_cons_eq heq
    cases lowerIncluded <;> exact absurd hhead (by decide)
  rw [parse, htrim, if_neg hword, cut_bracketed hl.comma_not_mem hu.comma_not_mem]
  show (do
    let l ← readBound text lower
    let u ← readBound text upper
    ofBounds l lowerIncluded u upperIncluded) = _
  rw [readBound_of_spells text hl, readBound_of_spells text hu]
  rfl

end RangeUnion.IntSpan
