import RangeUnion.Proofs.Span.Ends
import RangeUnion.Proofs.Span.RoundTrip

/-!
# Bounds in half-open form

The bounds of an interval come from a literal or from a message, each one infinite or a 32-bit
integer, included or excluded. Both readers bring them into half-open form by moving a bound one
up, and that is exact: no integer is gained or lost, what remains of bounds with nothing between
them is the empty interval, and bounds are refused only if they are reversed or would have to move
past the last integer (`exact_ofBounds`). So the two readers agree on all bounds, however these are
spelled (`decoders_exact`).
-/

namespace RangeUnion.IntSpan

variable {b l u l' u' : Option Int32} {move lowerIncluded upperIncluded : Bool} {z : ℤ}
  {s : IntSpan}

/-! ## What bounds mean -/

/-- `z` lies above the lower bound `l`. -/
def Above (l : Option Int32) (included : Bool) (z : ℤ) : Prop :=
  ∀ a ∈ l, if included then a.toInt ≤ z else a.toInt < z

/-- `z` lies under the upper bound `u`. -/
def Under (u : Option Int32) (included : Bool) (z : ℤ) : Prop :=
  ∀ a ∈ u, if included then z ≤ a.toInt else z < a.toInt

/-- `z` lies between the bounds `l` and `u`. -/
def Within (l : Option Int32) (lowerIncluded : Bool) (u : Option Int32) (upperIncluded : Bool)
    (z : ℤ) : Prop :=
  Above l lowerIncluded z ∧ Under u upperIncluded z

/-- The bounds are reversed, or the integer after one of them is needed and too large. -/
def Refused (l : Option Int32) (lowerIncluded : Bool) (u : Option Int32) (upperIncluded : Bool) :
    Prop :=
  (∃ a ∈ l, ∃ c ∈ u, c.toInt < a.toInt) ∨
    (l = some Int32.maxValue ∧ lowerIncluded = false) ∨
    (u = some Int32.maxValue ∧ upperIncluded = true)

/-- `outcome` is a failure if the bounds are refused, and else the interval of the integers
between them. -/
structure Exact (l : Option Int32) (lowerIncluded : Bool) (u : Option Int32)
    (upperIncluded : Bool) (outcome : Except Error IntSpan) : Prop where
  invalid_iff : (∃ fault, outcome = .error (.invalidInterval fault)) ↔
    Refused l lowerIncluded u upperIncluded
  denotes : ¬Refused l lowerIncluded u upperIncluded → ∃ s, outcome = .ok s ∧ s.WellFormed ∧
    (∀ z, z ∈ s ↔ Within l lowerIncluded u upperIncluded z) ∧
    (s = .empty ↔ ∀ z, ¬Within l lowerIncluded u upperIncluded z)

/-! ## Moving a bound -/

theorem shift_eq_error_iff {e : Error} : shift move b = .error e ↔
    b = some Int32.maxValue ∧ move = true ∧ e = .invalidInterval .outOfRange := by
  cases b with
  | none => simp [shift]
  | some v =>
    cases move with
    | false => simp [shift]
    | true =>
      by_cases hv : v = Int32.maxValue
      · simp [shift, successor?, hv, eq_comm]
      · simp [shift, successor?, hv]

/-- A bound moves by one or not at all. -/
theorem map_toInt_of_shift (h : shift move b = .ok l') :
    l'.map Int32.toInt = b.map fun v => v.toInt + if move then 1 else 0 := by
  cases b with
  | none =>
    cases h
    rfl
  | some v =>
    cases move with
    | false =>
      cases h
      simp
    | true =>
      rw [shift, if_pos rfl] at h
      split at h
      · next w hw =>
        cases h
        simp [toInt_successor? hw]
      · cases h

theorem above_iff (h : shift (!lowerIncluded) l = .ok l') :
    (∀ a ∈ l', a.toInt ≤ z) ↔ Above l lowerIncluded z := by
  have hmap := map_toInt_of_shift h
  have hleft : (∀ a ∈ l', a.toInt ≤ z) ↔ ∀ y ∈ l'.map Int32.toInt, y ≤ z := by simp
  rw [hleft, hmap]
  cases lowerIncluded <;> simp [Above]

theorem under_iff (h : shift upperIncluded u = .ok u') :
    (∀ a ∈ u', z < a.toInt) ↔ Under u upperIncluded z := by
  have hmap := map_toInt_of_shift h
  have hleft : (∀ a ∈ u', z < a.toInt) ↔ ∀ y ∈ u'.map Int32.toInt, z < y := by simp
  rw [hleft, hmap]
  cases upperIncluded <;> simp [Under]

/-! ## Both bounds -/

theorem reversed_eq_true_iff :
    reversed l u = true ↔ ∃ a ∈ l, ∃ c ∈ u, c.toInt < a.toInt := by
  cases l with
  | none => simp [reversed]
  | some a => cases u <;> simp [reversed, Int32.lt_iff_toInt_lt]

/-- A well-formed interval is empty exactly if no integer lies in it. -/
theorem eq_empty_iff (h : s.WellFormed) : s = .empty ↔ ∀ z : ℤ, z ∉ s := by
  constructor
  · rintro rfl z
    exact not_mem_empty z
  · intro hnone
    by_contra hne
    have hproper : s.Proper := ⟨h, hne⟩
    obtain ⟨z, hstart, hstop⟩ := exists_onLine_of_lt hproper.start_lt_stop
    exact hnone z (hproper.mem_iff.2 ⟨hstart, hstop⟩)

theorem exact_error {fault : BoundFault} (h : Refused l lowerIncluded u upperIncluded) :
    Exact l lowerIncluded u upperIncluded (.error (.invalidInterval fault)) where
  invalid_iff := iff_of_true ⟨fault, rfl⟩ h
  denotes hnot := absurd h hnot

/-- Bringing bounds into half-open form is exact. -/
theorem exact_ofBounds (l : Option Int32) (lowerIncluded : Bool) (u : Option Int32)
    (upperIncluded : Bool) :
    Exact l lowerIncluded u upperIncluded (ofBounds l lowerIncluded u upperIncluded) := by
  unfold ofBounds
  split
  · next hreversed => exact exact_error (.inl (reversed_eq_true_iff.1 hreversed))
  · next hreversed =>
    cases hl : shift (!lowerIncluded) l with
    | error e =>
      obtain ⟨hmax, hmove, rfl⟩ := shift_eq_error_iff.1 hl
      exact exact_error (.inr (.inl ⟨hmax, by simpa using hmove⟩))
    | ok l' =>
      cases hu : shift upperIncluded u with
      | error e =>
        obtain ⟨hmax, hmove, rfl⟩ := shift_eq_error_iff.1 hu
        exact exact_error (.inr (.inr ⟨hmax, hmove⟩))
      | ok u' =>
        have hmem (z : ℤ) : z ∈ bounded l' u' ↔ Within l lowerIncluded u upperIncluded z := by
          rw [mem_bounded, above_iff hl, under_iff hu]
          rfl
        have hempty := eq_empty_iff (wellFormed_bounded l' u')
        simp only [hmem] at hempty
        have haccepted : ¬Refused l lowerIncluded u upperIncluded := by
          rintro (h | ⟨rfl, rfl⟩ | ⟨rfl, rfl⟩)
          · exact hreversed (reversed_eq_true_iff.2 h)
          · cases hl
          · cases hu
        exact ⟨iff_of_false (fun ⟨_, h⟩ => nomatch h) haccepted,
          fun _ => ⟨bounded l' u', rfl, wellFormed_bounded l' u', hmem, hempty⟩⟩

/-! ## Reading bounds -/

/-- `flags` says of the bounds `l` and `u` whether they are infinite and whether they are included.
The bits that no flag names are free. -/
structure Marks (flags : UInt8) (l : Option Int32) (lowerIncluded : Bool) (u : Option Int32)
    (upperIncluded : Bool) : Prop where
  not_isEmpty : Flag.has flags Flag.isEmpty = false
  lowerIncluded_eq : Flag.has flags Flag.lowerIncluded = lowerIncluded
  upperIncluded_eq : Flag.has flags Flag.upperIncluded = upperIncluded
  lowerInfinite_eq : Flag.has flags Flag.lowerInfinite = l.isNone
  upperInfinite_eq : Flag.has flags Flag.upperInfinite = u.isNone

theorem receive_of_marks {flags : UInt8} (h : Marks flags l lowerIncluded u upperIncluded) :
    receive (flags :: (l.toList ++ u.toList).flatMap sendBound) =
      ofBounds l lowerIncluded u upperIncluded := by
  rw [receive_flatMap_sendBound h.not_isEmpty h.lowerInfinite_eq h.upperInfinite_eq,
    h.lowerIncluded_eq, h.upperIncluded_eq]

/-- All literals and all messages of two bounds are read alike, and exactly. -/
theorem decoders_exact (l : Option Int32) (lowerIncluded : Bool) (u : Option Int32)
    (upperIncluded : Bool) :
    ∃ outcome, (∀ text, Spells l lowerIncluded u upperIncluded text → parse text = outcome) ∧
      (∀ flags, Marks flags l lowerIncluded u upperIncluded →
        receive (flags :: (l.toList ++ u.toList).flatMap sendBound) = outcome) ∧
      Exact l lowerIncluded u upperIncluded outcome :=
  ⟨ofBounds l lowerIncluded u upperIncluded, fun _ => parse_of_spells, fun _ => receive_of_marks,
    exact_ofBounds l lowerIncluded u upperIncluded⟩

/-- Excluded and included bounds with signs, zeros, blanks and quotation marks, and a message of
the same bounds with the free bits set. -/
theorem decoders_exact_quoted :
    Spells (some (-5)) false (some 7) true " (\" -005\" ,+7]\t" ∧
    Marks 0xE4 (some (-5)) false (some 7) true ∧
    parse " (\" -005\" ,+7]\t" =
      receive [0xE4, 0, 0, 0, 4, 0xFF, 0xFF, 0xFF, 0xFB, 0, 0, 0, 4, 0, 0, 0, 7] ∧
    Exact (some (-5)) false (some 7) true (parse " (\" -005\" ,+7]\t") := by
  have hspace : Blanks [' '] := List.forall_mem_singleton.2 rfl
  have htab : Blanks ['\t'] := List.forall_mem_singleton.2 rfl
  have hminus : SpellsInt (-5 : Int32).toInt "-005".toList := .minus 2 5
  have hplus : SpellsInt (7 : Int32).toInt "+7".toList := .plus 0 7
  have hlower : SpellsBound (some (-5)) "\" -005\" ".toList :=
    .quoted (.finite hminus) .nil hspace .nil hspace
  have hupper : SpellsBound (some 7) "+7".toList := .plain (.finite hplus) .nil .nil
  have htext : Spells (some (-5)) false (some 7) true " (\" -005\" ,+7]\t" :=
    ⟨_, _, _, _, hspace, hlower, hupper, htab, rfl⟩
  have hflags : Marks 0xE4 (some (-5)) false (some 7) true := by
    constructor <;> decide
  obtain ⟨outcome, hparse, hreceive, hexact⟩ := decoders_exact (some (-5)) false (some 7) true
  refine ⟨htext, hflags, ?_, ?_⟩
  · rw [hparse _ htext]
    exact (hreceive _ hflags).symm
  · rw [hparse _ htext]
    exact hexact

end RangeUnion.IntSpan
