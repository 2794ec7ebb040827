import Mathlib.Order.Interval.Set.OrdConnected
import RangeUnion.Proofs.Span.Bounds
import RangeUnion.Proofs.Span.Spaced

/-!
# The operations on intervals as operations on sets

What the list algorithms ask of two intervals is answered by comparing bounds, and each answer is
one about the sets of integers that the intervals denote (`operations_denote`). Two intervals
overlap if they share an integer. They are adjacent if they share none and their union is an
interval again. Their hull is the least interval that covers both.

One fact carries the second half of this: between intervals that do not touch there is an integer
(`exists_between_of_stop_lt`). It keeps the union from being an interval, and so the hull from
being the union.
-/

namespace RangeUnion.IntSpan

/-- The integers of an interval, as a set. -/
def toSet (s : IntSpan) : Set ℤ := {z | z ∈ s}

variable {s t : IntSpan} {z : ℤ}

@[simp] theorem mem_toSet : z ∈ s.toSet ↔ z ∈ s := Iff.rfl

@[simp] theorem toSet_empty : toSet .empty = ∅ := rfl

theorem toSet_nonempty_iff (h : s.WellFormed) : s.toSet.Nonempty ↔ s ≠ .empty := by
  rw [Set.nonempty_iff_ne_empty, ne_eq, Set.eq_empty_iff_forall_notMem, ne_eq, eq_empty_iff h]
  rfl

theorem onLine_mono : Monotone onLine := fun _ _ h => onLine_le.2 h

/-- On the line an interval is one piece. -/
theorem toSet_eq_preimage (h : s ≠ .empty) :
    s.toSet = Set.preimage onLine (Set.Ico s.start s.stop) := by
  ext z
  exact mem_iff_of_ne_empty h

theorem ordConnected_toSet (s : IntSpan) : s.toSet.OrdConnected := by
  by_cases h : s = .empty
  · rw [h]
    exact Set.ordConnected_empty
  · rw [toSet_eq_preimage h]
    exact Set.ordConnected_Ico.preimage_mono onLine_mono

/-! ## Integers around an interval -/

theorem exists_mem_le (hs : s.Proper) (h : s.start ≤ onLine z) : ∃ x ∈ s, x ≤ z := by
  have hnext : s.start < onLine (z + 1) := h.trans_lt (onLine_lt.2 (lt_add_one z))
  obtain ⟨x, hx, hx'⟩ := exists_onLine_of_lt (lt_min hs.start_lt_stop hnext)
  rw [lt_min_iff] at hx'
  exact ⟨x, hs.mem_iff.2 ⟨hx, hx'.1⟩, Int.lt_add_one_iff.1 (onLine_lt.1 hx'.2)⟩

theorem exists_mem_ge (hs : s.Proper) (h : onLine z < s.stop) : ∃ y ∈ s, z ≤ y := by
  obtain ⟨y, hy, hy'⟩ := exists_onLine_of_lt (max_lt hs.start_lt_stop h)
  rw [max_le_iff] at hy
  exact ⟨y, hs.mem_iff.2 ⟨hy.1, hy'⟩, onLine_le.1 hy.2⟩

/-- Where an interval ends before another one begins, an integer lies between the two. -/
theorem exists_between_of_stop_lt (hs : s.Proper) (ht : t ≠ .empty) (h : s.stop < t.start) :
    ∃ z, (∀ x ∈ s, x < z) ∧ ∀ y ∈ t, z < y := by
  obtain ⟨z, hz⟩ := exists_eq_onLine hs.start_lt_stop h
  refine ⟨z, fun x hx => ?_, fun y hy => ?_⟩
  · rw [← onLine_lt, ← hz]
    exact (hs.mem_iff.1 hx).2
  · rw [← onLine_lt, ← hz]
    exact h.trans_le ((mem_iff_of_ne_empty ht).1 hy).1

/-! ## Overlapping and touching -/

theorem Proper.overlaps_iff_nonempty_inter (hs : s.Proper) (ht : t.Proper) :
    s.overlaps t = true ↔ (s.toSet ∩ t.toSet).Nonempty := by
  rw [overlaps_iff hs.2 ht.2]
  constructor
  · rintro ⟨hst, hts⟩
    have hlt : max s.start t.start < min s.stop t.stop :=
      max_lt (lt_min hs.start_lt_stop hst) (lt_min hts ht.start_lt_stop)
    obtain ⟨z, hz, hz'⟩ := exists_onLine_of_lt hlt
    rw [max_le_iff] at hz
    rw [lt_min_iff] at hz'
    exact ⟨z, hs.mem_iff.2 ⟨hz.1, hz'.1⟩, ht.mem_iff.2 ⟨hz.2, hz'.2⟩⟩
  · rintro ⟨z, hzs, hzt⟩
    obtain ⟨hs₁, hs₂⟩ := hs.mem_iff.1 hzs
    obtain ⟨ht₁, ht₂⟩ := ht.mem_iff.1 hzt
    exact ⟨hs₁.trans_lt ht₂, ht₁.trans_lt hs₂⟩

theorem not_ordConnected_union (hs : s.toSet.Nonempty) (ht : t.toSet.Nonempty)
    (h : ∃ z, (∀ x ∈ s, x < z) ∧ ∀ y ∈ t, z < y) : ¬ (s.toSet ∪ t.toSet).OrdConnected := by
  rintro ⟨hconnected⟩
  obtain ⟨x, hx⟩ := hs
  obtain ⟨y, hy⟩ := ht
  obtain ⟨z, hbehind, hbefore⟩ := h
  have hz : z ∈ s.toSet ∪ t.toSet :=
    hconnected (.inl hx) (.inr hy) ⟨(hbehind x hx).le, (hbefore y hy).le⟩
  rcases hz with hz | hz
  · exact lt_irrefl z (hbehind z hz)
  · exact lt_irrefl z (hbefore z hz)

/-- Two intervals touch if their union is an interval. -/
theorem Proper.touches_iff_ordConnected (hs : s.Proper) (ht : t.Proper) :
    Interval.touches s t = true ↔ (s.toSet ∪ t.toSet).OrdConnected := by
  have hs' := (toSet_nonempty_iff hs.1).2 hs.2
  have ht' := (toSet_nonempty_iff ht.1).2 ht.2
  constructor
  · intro htouch
    have hunion : s.toSet ∪ t.toSet = (s.hull t).toSet := by
      ext z
      exact (mem_hull_iff hs ht htouch).symm
    rw [hunion]
    exact ordConnected_toSet _
  · intro hconnected
    by_contra hapart
    rw [touches_iff hs ht, not_and_or, not_le, not_le] at hapart
    rcases hapart with hlt | hlt
    · rw [Set.union_comm] at hconnected
      exact not_ordConnected_union ht' hs' (exists_between_of_stop_lt ht hs.2 hlt) hconnected
    · exact not_ordConnected_union hs' ht' (exists_between_of_stop_lt hs ht.2 hlt) hconnected

theorem touches_iff_overlaps_or_adjacent :
    Interval.touches s t = true ↔ s.overlaps t = true ∨ s.adjacent t = true :=
  Iff.of_eq (Bool.or_eq_true _ _)

/-- Proper intervals that are adjacent do not overlap. -/
theorem Proper.overlaps_eq_false_of_adjacent (hs : s.Proper) (ht : t.Proper)
    (h : s.adjacent t = true) : s.overlaps t = false := by
  rw [← Bool.not_eq_true, overlaps_iff hs.2 ht.2]
  rintro ⟨hst, hts⟩
  rcases (adjacent_iff hs.2 ht.2).1 h with heq | heq
  · exact hts.ne heq.symm
  · exact hst.ne heq.symm

theorem Proper.adjacent_iff_ordConnected (hs : s.Proper) (ht : t.Proper) :
    s.adjacent t = true ↔ s.toSet ∩ t.toSet = ∅ ∧ (s.toSet ∪ t.toSet).OrdConnected := by
  rw [← Set.not_nonempty_iff_eq_empty, ← hs.overlaps_iff_nonempty_inter ht,
    ← hs.touches_iff_ordConnected ht, touches_iff_overlaps_or_adjacent]
  constructor
  · intro h
    exact ⟨by simp [hs.overlaps_eq_false_of_adjacent ht h], .inr h⟩
  · rintro ⟨hoverlaps, htouch⟩
    exact htouch.resolve_left hoverlaps

/-! ## The hull -/

@[simp] theorem hull_empty_left (s : IntSpan) : hull .empty s = s := rfl

@[simp] theorem hull_empty_right (s : IntSpan) : s.hull .empty = s := by cases s <;> rfl

theorem wellFormed_hull (hs : s.WellFormed) (ht : t.WellFormed) : (s.hull t).WellFormed := by
  by_cases hs' : s = .empty
  · rw [hs', hull_empty_left]
    exact ht
  · by_cases ht' : t = .empty
    · rw [ht', hull_empty_right]
      exact hs
    · exact (proper_hull ⟨hs, hs'⟩ ⟨ht, ht'⟩).1

theorem Proper.isLeast_hull (hs : s.Proper) (ht : t.Proper) :
    IsLeast {S : Set ℤ | S.OrdConnected ∧ s.toSet ∪ t.toSet ⊆ S} (s.hull t).toSet := by
  have hmem (z : ℤ) : z ∈ (s.hull t).toSet ↔
      (s.start ≤ onLine z ∨ t.start ≤ onLine z) ∧ (onLine z < s.stop ∨ onLine z < t.stop) := by
    rw [mem_toSet, mem_iff_of_ne_empty (hull_ne_empty hs.2), start_hull hs.2 ht.2,
      stop_hull hs.2 ht.2, min_le_iff, lt_max_iff]
  constructor
  · refine ⟨ordConnected_toSet _, ?_⟩
    rintro z (hz | hz)
    · obtain ⟨hstart, hstop⟩ := hs.mem_iff.1 hz
      exact (hmem z).2 ⟨.inl hstart, .inl hstop⟩
    · obtain ⟨hstart, hstop⟩ := ht.mem_iff.1 hz
      exact (hmem z).2 ⟨.inr hstart, .inr hstop⟩
  · rintro S ⟨⟨hconnected⟩, hcovers⟩ z hz
    obtain ⟨hstart, hstop⟩ := (hmem z).1 hz
    -- one of the two intervals reaches down to `z`, and one reaches up to it
    obtain ⟨x, hx, hxz⟩ : ∃ x ∈ s.toSet ∪ t.toSet, x ≤ z := by
      rcases hstart with h | h
      · obtain ⟨x, hx, hxz⟩ := exists_mem_le hs h
        exact ⟨x, .inl hx, hxz⟩
      · obtain ⟨x, hx, hxz⟩ := exists_mem_le ht h
        exact ⟨x, .inr hx, hxz⟩
    obtain ⟨y, hy, hzy⟩ : ∃ y ∈ s.toSet ∪ t.toSet, z ≤ y := by
      rcases hstop with h | h
      · obtain ⟨y, hy, hzy⟩ := exists_mem_ge hs h
        exact ⟨y, .inl hy, hzy⟩
      · obtain ⟨y, hy, hzy⟩ := exists_mem_ge ht h
        exact ⟨y, .inr hy, hzy⟩
    exact hconnected (hcovers hx) (hcovers hy) ⟨hxz, hzy⟩

theorem isLeast_toSet (s : IntSpan) : IsLeast {S : Set ℤ | S.OrdConnected ∧ s.toSet ⊆ S} s.toSet :=
  ⟨⟨ordConnected_toSet s, subset_rfl⟩, fun _ h => h.2⟩

/-- The hull is the least interval that covers both. -/
theorem isLeast_hull (hs : s.WellFormed) (ht : t.WellFormed) :
    IsLeast {S : Set ℤ | S.OrdConnected ∧ s.toSet ∪ t.toSet ⊆ S} (s.hull t).toSet := by
  by_cases hs' : s = .empty
  · rw [hs', hull_empty_left, toSet_empty, Set.empty_union]
    exact isLeast_toSet t
  · by_cases ht' : t = .empty
    · rw [ht', hull_empty_right, toSet_empty, Set.union_empty]
      exact isLeast_toSet s
    · exact Proper.isLeast_hull ⟨hs, hs'⟩ ⟨ht, ht'⟩

/-- The hull of proper intervals adds nothing to their union exactly if they touch. -/
theorem Proper.hull_eq_union_iff (hs : s.Proper) (ht : t.Proper) :
    (s.hull t).toSet = s.toSet ∪ t.toSet ↔ Interval.touches s t = true := by
  constructor
  · intro h
    rw [hs.touches_iff_ordConnected ht, ← h]
    exact ordConnected_toSet _
  · intro htouch
    ext z
    exact mem_hull_iff hs ht htouch

/-! ## All pairs of intervals -/

theorem overlaps_iff_nonempty_inter (hs : s.WellFormed) (ht : t.WellFormed) :
    s.overlaps t = true ↔ (s.toSet ∩ t.toSet).Nonempty := by
  by_cases hs' : s = .empty
  · subst hs'
    simp [overlaps]
  · by_cases ht' : t = .empty
    · subst ht'
      simp [overlaps]
    · exact Proper.overlaps_iff_nonempty_inter ⟨hs, hs'⟩ ⟨ht, ht'⟩

theorem adjacent_iff_ordConnected (hs : s.WellFormed) (ht : t.WellFormed) :
    s.adjacent t = true ↔ s.toSet.Nonempty ∧ t.toSet.Nonempty ∧ s.toSet ∩ t.toSet = ∅ ∧
      (s.toSet ∪ t.toSet).OrdConnected := by
  rw [toSet_nonempty_iff hs, toSet_nonempty_iff ht]
  by_cases hs' : s = .empty
  · subst hs'
    simp [adjacent]
  · by_cases ht' : t = .empty
    · subst ht'
      simp [adjacent]
    · rw [Proper.adjacent_iff_ordConnected ⟨hs, hs'⟩ ⟨ht, ht'⟩, and_iff_right hs',
        and_iff_right ht']

theorem hull_eq_union_iff (hs : s.WellFormed) (ht : t.WellFormed) :
    (s.hull t).toSet = s.toSet ∪ t.toSet ↔
      s.overlaps t = true ∨ s.adjacent t = true ∨ s = .empty ∨ t = .empty := by
  by_cases hs' : s = .empty
  · subst hs'
    simp
  · by_cases ht' : t = .empty
    · subst ht'
      simp
    · rw [Proper.hull_eq_union_iff ⟨hs, hs'⟩ ⟨ht, ht'⟩, touches_iff_overlaps_or_adjacent]
      simp [hs', ht']

theorem points_singleton (s : IntSpan) : points [s] = s.toSet := by
  ext z
  simp

/-- A well-formed interval is determined by its integers. -/
theorem toSet_inj (hs : s.WellFormed) (ht : t.WellFormed) : s.toSet = t.toSet ↔ s = t := by
  refine ⟨fun h => ?_, congrArg toSet⟩
  have hempty : s = .empty ↔ t = .empty := by
    rw [← not_iff_not, ← ne_eq, ← ne_eq, ← toSet_nonempty_iff hs, ← toSet_nonempty_iff ht, h]
  by_cases hs' : s = .empty
  · rw [hs', hempty.1 hs']
  · have hspaced (r : IntSpan) (hr : r.Proper) : Spaced [r] :=
      ⟨List.forall_mem_singleton.2 hr, trivial⟩
    rw [← points_singleton, ← points_singleton] at h
    exact List.singleton_inj.1 (eq_of_points_eq (hspaced s ⟨hs, hs'⟩)
      (hspaced t ⟨ht, fun ht' => hs' (hempty.2 ht')⟩) h)

/-- Where an interval comes before another one and the two do not touch, an integer lies between
them. -/
theorem exists_between_of_order_lt (hs : s.Proper) (ht : t.Proper) (horder : s.order t = .lt)
    (hoverlaps : s.overlaps t = false) (hadjacent : s.adjacent t = false) :
    ∃ z, z ∉ s ∧ z ∉ t ∧ (∀ x ∈ s, x < z) ∧ ∀ y ∈ t, z < y := by
  have hapart : Interval.touches s t = false := Bool.or_eq_false_iff.2 ⟨hoverlaps, hadjacent⟩
  have hgap : Gap s t := (separate_iff hs ht).1 ⟨horder, hapart⟩
  obtain ⟨z, hbehind, hbefore⟩ := exists_between_of_stop_lt hs ht.2 (gap_iff.1 hgap)
  exact ⟨z, fun hz => lt_irrefl z (hbehind z hz), fun hz => lt_irrefl z (hbefore z hz),
    hbehind, hbefore⟩

/-! ## Symmetry -/

theorem overlaps_comm (s t : IntSpan) : s.overlaps t = t.overlaps s := by
  cases s <;> cases t <;> simp [overlaps, Bool.and_comm]

theorem adjacent_comm (s t : IntSpan) : s.adjacent t = t.adjacent s := by
  cases s <;> cases t <;> simp [adjacent, Bool.or_comm]

theorem hull_comm (s t : IntSpan) : s.hull t = t.hull s := by
  by_cases hs : s = .empty
  · rw [hs, hull_empty_left, hull_empty_right]
  · by_cases ht : t = .empty
    · rw [ht, hull_empty_left, hull_empty_right]
    · apply eq_of_ends_eq (hull_ne_empty hs) (hull_ne_empty ht)
      · rw [start_hull hs ht, start_hull ht hs, min_comm]
      · rw [stop_hull hs ht, stop_hull ht hs, max_comm]

/-! ## What the operations say -/

/-- What the operations say of `s` and `t` is true of the sets of their integers. -/
structure Faithful (s t : IntSpan) : Prop where
  overlaps_iff : s.overlaps t = true ↔ (s.toSet ∩ t.toSet).Nonempty
  adjacent_iff : s.adjacent t = true ↔ s.toSet.Nonempty ∧ t.toSet.Nonempty ∧
    s.toSet ∩ t.toSet = ∅ ∧ (s.toSet ∪ t.toSet).OrdConnected
  wellFormed_hull : (s.hull t).WellFormed
  isLeast_hull : IsLeast {S : Set ℤ | S.OrdConnected ∧ s.toSet ∪ t.toSet ⊆ S} (s.hull t).toSet
  hull_eq_union_iff : (s.hull t).toSet = s.toSet ∪ t.toSet ↔
    s.overlaps t = true ∨ s.adjacent t = true ∨ s = .empty ∨ t = .empty
  eq_iff : s = t ↔ s.toSet = t.toSet
  exists_between : s.order t = .lt → s ≠ .empty → t ≠ .empty → s.overlaps t = false →
    s.adjacent t = false → ∃ z, z ∉ s ∧ z ∉ t ∧ (∀ x ∈ s, x < z) ∧ ∀ y ∈ t, z < y

/-- On well-formed intervals the operations are those on sets of integers. On all intervals, those
with reversed bounds included, they are symmetric, and testing a number is testing membership. -/
theorem operations_denote :
    (∀ s t : IntSpan, s.WellFormed → t.WellFormed → Faithful s t) ∧
    (∀ s t : IntSpan, s.overlaps t = t.overlaps s ∧ s.adjacent t = t.adjacent s ∧
      s.hull t = t.hull s) ∧
    (∀ (s : IntSpan) (v : Int32), s.contains v = true ↔ v.toInt ∈ s.toSet) := by
  refine ⟨fun s t hs ht => ?_, fun s t => ?_, fun s v => ?_⟩
  · exact {
      overlaps_iff := overlaps_iff_nonempty_inter hs ht
      adjacent_iff := adjacent_iff_ordConnected hs ht
      wellFormed_hull := wellFormed_hull hs ht
      isLeast_hull := isLeast_hull hs ht
      hull_eq_union_iff := hull_eq_union_iff hs ht
      eq_iff := (toSet_inj hs ht).symm
      exists_between := fun horder hs' ht' =>
        exists_between_of_order_lt ⟨hs, hs'⟩ ⟨ht, ht'⟩ horder }
  · exact ⟨overlaps_comm s t, adjacent_comm s t, hull_comm s t⟩
  · exact contains_iff s v

/-- A half-line up to the least integer, and one from the integer after it on. -/
theorem operations_denote_halfLines :
    ∃ s t : IntSpan, s = between none (some Int32.minValue) ∧
      t = between (some (Int32.minValue + 1)) none ∧ s.WellFormed ∧ t.WellFormed ∧ Faithful s t ∧
      ∃ z, z ∉ s ∧ z ∉ t ∧ (∀ x ∈ s, x < z) ∧ ∀ y ∈ t, z < y := by
  have hs : (between none (some Int32.minValue)).WellFormed := by decide
  have ht : (between (some (Int32.minValue + 1)) none).WellFormed := by decide
  have hfaithful := operations_denote.1 _ _ hs ht
  refine ⟨_, _, rfl, rfl, hs, ht, hfaithful, ?_⟩
  exact hfaithful.exists_between (by decide) (by decide) (by decide) (by decide) (by decide)

end RangeUnion.IntSpan
