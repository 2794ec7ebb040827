import Mathlib.Order.CompleteLattice.Defs
import Mathlib.Data.Int.ConditionallyCompleteOrder
import Mathlib.Data.Int.SuccPred
import Mathlib.Order.WithBot
import Mathlib.Tactic.Order
import RangeUnion.IntSpan.Interval

/-!
# The ends of an interval on the line

The bounds of intervals are placed on one line: the integers with a point before all of them,
where an infinite lower bound lies, and a point behind all of them, where an infinite upper bound
lies. On that line an interval that is not empty is the part from its `start` up to its `stop`,
and what the list algorithms ask of intervals turns into comparisons: the order by bounds
(`order_eq`), touching (`touches_iff`) and the hull (`start_hull`, `stop_hull`).
-/

namespace RangeUnion.IntSpan

/-- The integers with a point before and a point behind them. -/
abbrev Line : Type := WithBot (WithTop ℤ)

/-- The integer `z` on the line. -/
def onLine (z : ℤ) : Line := ((z : WithTop ℤ) : WithBot (WithTop ℤ))

@[simp] theorem onLine_le {a b : ℤ} : onLine a ≤ onLine b ↔ a ≤ b := by simp [onLine]

@[simp] theorem onLine_lt {a b : ℤ} : onLine a < onLine b ↔ a < b := by simp [onLine]

@[simp] theorem onLine_inj {a b : ℤ} : onLine a = onLine b ↔ a = b := by simp [onLine]

@[simp] theorem bot_lt_onLine (z : ℤ) : ⊥ < onLine z := WithBot.bot_lt_coe _

@[simp] theorem onLine_lt_top (z : ℤ) : onLine z < ⊤ := by
  have h : (z : WithTop ℤ) < ⊤ := WithTop.coe_lt_top z
  exact WithBot.coe_lt_coe.2 h

theorem bot_lt_top_line : (⊥ : Line) < ⊤ := (bot_lt_onLine 0).trans (onLine_lt_top 0)

/-- A place on the line is one of its two ends or an integer. -/
theorem line_cases (p : Line) : p = ⊥ ∨ p = ⊤ ∨ ∃ z, p = onLine z := by
  induction p using WithBot.recBotCoe with
  | bot => exact .inl rfl
  | coe p =>
    induction p using WithTop.recTopCoe with
    | top => exact .inr (.inl rfl)
    | coe z => exact .inr (.inr ⟨z, rfl⟩)

/-- From one place up to a later one there is an integer. -/
theorem exists_onLine_of_lt {a b : Line} (h : a < b) : ∃ z, a ≤ onLine z ∧ onLine z < b := by
  rcases line_cases a with rfl | rfl | ⟨z, rfl⟩
  · rcases line_cases b with rfl | rfl | ⟨w, rfl⟩
    · exact absurd h (lt_irrefl _)
    · exact ⟨0, bot_le, onLine_lt_top 0⟩
    · exact ⟨w - 1, bot_le, onLine_lt.2 (by omega)⟩
  · exact absurd h not_top_lt
  · exact ⟨z, le_rfl, h⟩

/-- A place between two others is an integer. -/
theorem exists_eq_onLine {a b p : Line} (ha : a < p) (hb : p < b) : ∃ z, p = onLine z := by
  rcases line_cases p with rfl | rfl | h
  · exact absurd ha not_lt_bot
  · exact absurd hb not_top_lt
  · exact h

/-! ## Bounds on the line -/

/-- Where a lower bound lies. -/
def lowerEnd : Option Int32 → Line
  | none => ⊥
  | some v => onLine v.toInt

/-- Where an upper bound lies. -/
def upperEnd : Option Int32 → Line
  | none => ⊤
  | some v => onLine v.toInt

@[simp] theorem lowerEnd_lt_top (b : Option Int32) : lowerEnd b < ⊤ := by
  cases b with
  | none => exact bot_lt_top_line
  | some v => exact onLine_lt_top _

theorem lowerEnd_inj {a b : Option Int32} : lowerEnd a = lowerEnd b ↔ a = b := by
  cases a with
  | none =>
    cases b with
    | none => simp
    | some b => simpa [lowerEnd] using (bot_lt_onLine b.toInt).ne
  | some a =>
    cases b with
    | none => simpa [lowerEnd] using (bot_lt_onLine a.toInt).ne'
    | some b => simp [lowerEnd, Int32.toInt_inj]

theorem upperEnd_inj {a b : Option Int32} : upperEnd a = upperEnd b ↔ a = b := by
  cases a with
  | none =>
    cases b with
    | none => simp
    | some b => simpa [upperEnd] using (onLine_lt_top b.toInt).ne'
  | some a =>
    cases b with
    | none => simpa [upperEnd] using (onLine_lt_top a.toInt).ne
    | some b => simp [upperEnd, Int32.toInt_inj]

theorem lowerEnd_le_onLine {b : Option Int32} {z : ℤ} :
    lowerEnd b ≤ onLine z ↔ ∀ a ∈ b, a.toInt ≤ z := by
  cases b <;> simp [lowerEnd]

theorem onLine_lt_upperEnd {b : Option Int32} {z : ℤ} :
    onLine z < upperEnd b ↔ ∀ a ∈ b, z < a.toInt := by
  cases b <;> simp [upperEnd]

theorem below_iff {l u : Option Int32} : below l u = true ↔ lowerEnd l < upperEnd u := by
  cases l <;> cases u <;>
    simp [lowerEnd, upperEnd, Int32.lt_iff_toInt_lt]

theorem compare_toInt (a b : Int32) : compare a b = compare (onLine a.toInt) (onLine b.toInt) := by
  rcases lt_trichotomy a.toInt b.toInt with h | h | h
  · rw [compare_lt_iff_lt.2 (onLine_lt.2 h)]
    exact Std.compare_eq_lt.2 (Int32.lt_iff_toInt_lt.2 h)
  · rw [compare_eq_iff_eq.2 (onLine_inj.2 h), Int32.toInt_inj.1 h]
    exact Std.ReflOrd.compare_self
  · rw [compare_gt_iff_gt.2 (onLine_lt.2 h)]
    exact Std.compare_eq_gt.2 (Int32.lt_iff_toInt_lt.2 h)

theorem lowerOrder_eq (a b : Option Int32) :
    lowerOrder a b = compare (lowerEnd a) (lowerEnd b) := by
  cases a with
  | none =>
    cases b with
    | none => exact (compare_eq_iff_eq.2 rfl).symm
    | some b => exact (compare_lt_iff_lt.2 (bot_lt_onLine _)).symm
  | some a =>
    cases b with
    | none => exact (compare_gt_iff_gt.2 (bot_lt_onLine _)).symm
    | some b => exact compare_toInt a b

theorem upperOrder_eq (a b : Option Int32) :
    upperOrder a b = compare (upperEnd a) (upperEnd b) := by
  cases a with
  | none =>
    cases b with
    | none => exact (compare_eq_iff_eq.2 rfl).symm
    | some b => exact (compare_gt_iff_gt.2 (onLine_lt_top _)).symm
  | some a =>
    cases b with
    | none => exact (compare_lt_iff_lt.2 (onLine_lt_top _)).symm
    | some b => exact compare_toInt a b

/-! ## Intervals on the line -/

/-- Where an interval begins. -/
def start (s : IntSpan) : Line := lowerEnd s.lower

/-- Where an interval ends. -/
def stop (s : IntSpan) : Line := upperEnd s.upper

/-- The interval is well formed and not empty. -/
def Proper (s : IntSpan) : Prop := s.WellFormed ∧ s ≠ .empty

instance : DecidablePred Proper := fun s => by unfold Proper; infer_instance

variable {s t : IntSpan}

theorem exists_eq_between (h : s ≠ .empty) : ∃ l u, s = .between l u := by
  cases s with
  | empty => exact absurd rfl h
  | between l u => exact ⟨l, u, rfl⟩

theorem proper_iff_start_lt_stop (h : s ≠ .empty) : s.Proper ↔ s.start < s.stop := by
  obtain ⟨l, u, rfl⟩ := exists_eq_between h
  unfold Proper
  rw [and_iff_left h]
  exact below_iff

theorem Proper.start_lt_stop (h : s.Proper) : s.start < s.stop :=
  (proper_iff_start_lt_stop h.2).1 h

theorem mem_iff_of_ne_empty (h : s ≠ .empty) {z : ℤ} :
    z ∈ s ↔ s.start ≤ onLine z ∧ onLine z < s.stop := by
  obtain ⟨l, u, rfl⟩ := exists_eq_between h
  rw [mem_between, ← lowerEnd_le_onLine, ← onLine_lt_upperEnd]
  rfl

theorem Proper.mem_iff (h : s.Proper) {z : ℤ} :
    z ∈ s ↔ s.start ≤ onLine z ∧ onLine z < s.stop := mem_iff_of_ne_empty h.2

/-- An interval that is not empty is known by where it begins and ends. -/
theorem eq_of_ends_eq (hs : s ≠ .empty) (ht : t ≠ .empty) (hstart : s.start = t.start)
    (hstop : s.stop = t.stop) : s = t := by
  obtain ⟨l, u, rfl⟩ := exists_eq_between hs
  obtain ⟨l', u', rfl⟩ := exists_eq_between ht
  rw [show l = l' from lowerEnd_inj.1 hstart, show u = u' from upperEnd_inj.1 hstop]

theorem order_eq (hs : s ≠ .empty) (ht : t ≠ .empty) :
    s.order t = (compare s.start t.start).then (compare s.stop t.stop) := by
  obtain ⟨l, u, rfl⟩ := exists_eq_between hs
  obtain ⟨l', u', rfl⟩ := exists_eq_between ht
  rw [order, lowerOrder_eq, upperOrder_eq]
  rfl

theorem upperEnd_eq_lowerEnd {u l : Option Int32} :
    upperEnd u = lowerEnd l ↔ u.isSome ∧ u = l := by
  cases u with
  | none => simpa [upperEnd] using (lowerEnd_lt_top l).ne'
  | some u =>
    cases l with
    | none => simpa [upperEnd, lowerEnd] using (bot_lt_onLine u.toInt).ne'
    | some l => simp [upperEnd, lowerEnd, Int32.toInt_inj]

theorem overlaps_iff (hs : s ≠ .empty) (ht : t ≠ .empty) :
    s.overlaps t = true ↔ s.start < t.stop ∧ t.start < s.stop := by
  obtain ⟨l, u, rfl⟩ := exists_eq_between hs
  obtain ⟨l', u', rfl⟩ := exists_eq_between ht
  unfold overlaps
  rw [Bool.and_eq_true, below_iff, below_iff]
  rfl

theorem adjacent_iff (hs : s ≠ .empty) (ht : t ≠ .empty) :
    s.adjacent t = true ↔ s.stop = t.start ∨ t.stop = s.start := by
  obtain ⟨l, u, rfl⟩ := exists_eq_between hs
  obtain ⟨l', u', rfl⟩ := exists_eq_between ht
  simp only [adjacent, Bool.or_eq_true, Bool.and_eq_true, beq_iff_eq, start, stop, lower,
    upper, upperEnd_eq_lowerEnd]

/-- Two proper intervals touch if neither ends before the other one begins. -/
theorem touches_iff (hs : s.Proper) (ht : t.Proper) :
    Interval.touches s t = true ↔ s.start ≤ t.stop ∧ t.start ≤ s.stop := by
  have hs' := hs.start_lt_stop
  have ht' := ht.start_lt_stop
  unfold Interval.touches
  rw [Bool.or_eq_true]
  rw [show Interval.overlaps s t = s.overlaps t from rfl,
    show Interval.adjacent s t = s.adjacent t from rfl, overlaps_iff hs.2 ht.2,
    adjacent_iff hs.2 ht.2]
  constructor
  · rintro (⟨h₁, h₂⟩ | h | h)
    · exact ⟨h₁.le, h₂.le⟩
    · exact ⟨(hs'.trans (h.trans_lt ht')).le, h.ge⟩
    · exact ⟨h.ge, (ht'.trans (h.trans_lt hs')).le⟩
  · rintro ⟨h₁, h₂⟩
    rcases h₁.lt_or_eq with h₁ | h₁
    · rcases h₂.lt_or_eq with h₂ | h₂
      · exact .inl ⟨h₁, h₂⟩
      · exact .inr (.inl h₂.symm)
    · exact .inr (.inr h₁.symm)

/-! ## The hull -/

theorem hull_ne_empty (hs : s ≠ .empty) : s.hull t ≠ .empty := by
  cases s with
  | empty => exact absurd rfl hs
  | between l u =>
    cases t with
    | empty => exact hs
    | between l' u' => exact IntSpan.noConfusion

theorem start_hull (hs : s ≠ .empty) (ht : t ≠ .empty) :
    (s.hull t).start = min s.start t.start := by
  obtain ⟨l, u, rfl⟩ := exists_eq_between hs
  obtain ⟨l', u', rfl⟩ := exists_eq_between ht
  show lowerEnd (if (lowerOrder l l').isLE then l else l') = min (lowerEnd l) (lowerEnd l')
  rw [lowerOrder_eq, apply_ite lowerEnd, min_def]
  simp only [Ordering.isLE_iff_ne_gt, ← ne_eq, compare_le_iff_le]

theorem stop_hull (hs : s ≠ .empty) (ht : t ≠ .empty) :
    (s.hull t).stop = max s.stop t.stop := by
  obtain ⟨l, u, rfl⟩ := exists_eq_between hs
  obtain ⟨l', u', rfl⟩ := exists_eq_between ht
  show upperEnd (if (upperOrder u u').isGE then u else u') = max (upperEnd u) (upperEnd u')
  rw [upperOrder_eq, apply_ite upperEnd, max_comm, max_def]
  simp only [Ordering.isGE_iff_ne_lt, ← ne_eq, compare_ge_iff_ge]

theorem proper_hull (hs : s.Proper) (ht : t.Proper) : (s.hull t).Proper := by
  have hne : s.hull t ≠ .empty := hull_ne_empty hs.2
  rw [proper_iff_start_lt_stop hne, start_hull hs.2 ht.2, stop_hull hs.2 ht.2]
  exact (min_le_left _ _).trans_lt (hs.start_lt_stop.trans_le (le_max_left _ _))

/-- The hull of two intervals that touch holds the points of both and no others. -/
theorem mem_hull_iff (hs : s.Proper) (ht : t.Proper) (h : Interval.touches s t = true) {z : ℤ} :
    z ∈ s.hull t ↔ z ∈ s ∨ z ∈ t := by
  obtain ⟨hst, hts⟩ := (touches_iff hs ht).1 h
  rw [mem_iff_of_ne_empty (hull_ne_empty hs.2), start_hull hs.2 ht.2, stop_hull hs.2 ht.2,
    hs.mem_iff, ht.mem_iff, min_le_iff, lt_max_iff]
  constructor
  · rintro ⟨hstart, hstop⟩
    rcases lt_or_ge (onLine z) s.start with hz | hz
    · have hzt : t.start ≤ onLine z := hstart.resolve_left hz.not_ge
      exact .inr ⟨hzt, hz.trans_le hst⟩
    · rcases lt_or_ge (onLine z) s.stop with hz' | hz'
      · exact .inl ⟨hz, hz'⟩
      · exact .inr ⟨hts.trans hz', hstop.resolve_left hz'.not_gt⟩
  · rintro (⟨h₁, h₂⟩ | ⟨h₁, h₂⟩)
    · exact ⟨.inl h₁, .inl h₂⟩
    · exact ⟨.inr h₁, .inr h₂⟩

end RangeUnion.IntSpan
