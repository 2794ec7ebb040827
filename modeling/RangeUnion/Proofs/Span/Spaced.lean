import Mathlib.Data.Set.Basic
import RangeUnion.Proofs.Span.Consecutive
import RangeUnion.Proofs.Span.Order

/-!
# Spaced lists of intervals

A list of intervals denotes the set of the integers that lie in one of them (`points`). A list is
spaced if its intervals are proper and each one ends before the next one begins. These are the
canonical lists of well-formed intervals (`spaced_iff`), and the set determines the list
(`eq_of_points_eq`): the head begins at the least point and ends at the first gap after it, and
the rest of the list denotes what lies behind.
-/

namespace RangeUnion.IntSpan

/-- The integers that lie in one of the intervals. -/
def points (xs : List IntSpan) : Set ℤ := {z | ∃ s ∈ xs, z ∈ s}

/-- `s` ends before `t` begins, and both of these bounds are finite. -/
def Gap (s t : IntSpan) : Prop := ∃ u l, s.upper = some u ∧ t.lower = some l ∧ u < l

/-- The intervals are proper, and each one ends before the next one begins. -/
def Spaced (xs : List IntSpan) : Prop := (∀ s ∈ xs, s.Proper) ∧ Consecutive Gap xs

variable {s t : IntSpan} {xs ys : List IntSpan} {z : ℤ}

theorem mem_points : z ∈ points xs ↔ ∃ s ∈ xs, z ∈ s := Iff.rfl

@[simp] theorem points_nil : points [] = ∅ := by
  ext z
  simp [mem_points]

@[simp] theorem mem_points_cons : z ∈ points (s :: xs) ↔ z ∈ s ∨ z ∈ points xs := by
  simp [mem_points]

theorem points_perm (h : xs.Perm ys) : points xs = points ys := by
  ext z
  simp only [mem_points, h.mem_iff]

/-! ## Gaps -/

theorem gap_iff : Gap s t ↔ s.stop < t.start := by
  constructor
  · rintro ⟨u, l, hu, hl, h⟩
    unfold stop start
    rw [hu, hl]
    exact onLine_lt.2 (Int32.lt_iff_toInt_lt.1 h)
  · intro h
    cases hu : s.upper with
    | none =>
      unfold stop at h
      rw [hu] at h
      exact absurd h not_top_lt
    | some u =>
      cases hl : t.lower with
      | none =>
        unfold start at h
        rw [hl] at h
        exact absurd h not_lt_bot
      | some l =>
        unfold stop start at h
        rw [hu, hl] at h
        exact ⟨u, l, hu, hl, Int32.lt_iff_toInt_lt.2 (onLine_lt.1 h)⟩

/-- Of two proper intervals in order, those that do not touch have a gap between them. -/
theorem gap_of_not_touches (hs : s.Proper) (ht : t.Proper) (hst : s.start ≤ t.start)
    (h : Interval.touches s t = false) : Gap s t := by
  have h' : ¬ (s.start ≤ t.stop ∧ t.start ≤ s.stop) := by
    rw [← touches_iff hs ht, h]
    exact Bool.false_ne_true
  rw [gap_iff, ← not_le]
  intro hle
  exact h' ⟨(hst.trans_lt ht.start_lt_stop).le, hle⟩

theorem separate_iff (hs : s.Proper) (ht : t.Proper) : Separate s t ↔ Gap s t := by
  constructor
  · rintro ⟨horder, htouch⟩
    have hrank : s.rank ≤ t.rank := (order_eq_lt_iff.1 horder).le
    exact gap_of_not_touches hs ht (start_le_of_rank_le hs.2 ht.2 hrank) htouch
  · intro h
    have hgap := gap_iff.1 h
    constructor
    · show s.order t = .lt
      rw [order_eq hs.2 ht.2, compare_lt_iff_lt.2 (hs.start_lt_stop.trans hgap)]
      rfl
    · rw [← Bool.not_eq_true, touches_iff hs ht]
      rintro ⟨_, hle⟩
      exact absurd hle hgap.not_ge

/-! ## Spaced lists -/

@[simp] theorem spaced_nil : Spaced [] := ⟨by simp, trivial⟩

theorem Spaced.proper (h : Spaced (s :: xs)) : s.Proper := h.1 s List.mem_cons_self

theorem Spaced.tail (h : Spaced (s :: xs)) : Spaced xs := by
  refine ⟨fun t ht => h.1 t (List.mem_cons_of_mem s ht), ?_⟩
  cases xs with
  | nil => trivial
  | cons t xs => exact h.2.2

theorem spaced_cons_cons :
    Spaced (s :: t :: xs) ↔ s.Proper ∧ Gap s t ∧ Spaced (t :: xs) := by
  constructor
  · intro h
    exact ⟨h.proper, h.2.1, h.tail⟩
  · rintro ⟨hs, hgap, h⟩
    refine ⟨?_, hgap, h.2⟩
    intro r hr
    rcases List.mem_cons.1 hr with rfl | hr
    · exact hs
    · exact h.1 r hr

/-- Each interval of a spaced list ends before all later ones begin. -/
theorem Spaced.stop_lt_start (h : Spaced (s :: xs)) (ht : t ∈ xs) : s.stop < t.start := by
  induction xs generalizing s with
  | nil => simp at ht
  | cons r xs ih =>
    have hsr : s.stop < r.start := gap_iff.1 h.2.1
    rcases List.mem_cons.1 ht with rfl | ht
    · exact hsr
    · exact hsr.trans (h.tail.proper.start_lt_stop.trans (ih h.tail ht))

theorem isEmpty_eq_false_iff : Interval.isEmpty s = false ↔ s ≠ .empty := beq_eq_false_iff_ne

/-- The spaced lists are the canonical lists of well-formed intervals. -/
theorem spaced_iff : Spaced xs ↔ (∀ s ∈ xs, s.WellFormed) ∧ Canonical xs := by
  constructor
  · rintro ⟨hproper, hgap⟩
    refine ⟨fun s hs => (hproper s hs).1, fun s hs => isEmpty_eq_false_iff.2 (hproper s hs).2, ?_⟩
    exact (consecutive_congr fun s hs t ht => separate_iff (hproper s hs) (hproper t ht)).2 hgap
  · rintro ⟨hwf, hne, hsep⟩
    have hproper : ∀ s ∈ xs, s.Proper := fun s hs => ⟨hwf s hs, isEmpty_eq_false_iff.1 (hne s hs)⟩
    refine ⟨hproper, ?_⟩
    exact (consecutive_congr fun s hs t ht => separate_iff (hproper s hs) (hproper t ht)).1 hsep

/-- A spaced list ascends. -/
theorem Spaced.pairwise (h : Spaced xs) : xs.Pairwise fun s t => s.rank ≤ t.rank := by
  induction xs with
  | nil => exact List.Pairwise.nil
  | cons s xs ih =>
    refine List.pairwise_cons.2 ⟨fun t ht => ?_, ih h.tail⟩
    have hs := h.proper
    have ht' := h.tail.1 t ht
    apply le_of_lt
    rw [← order_eq_lt_iff, order_eq hs.2 ht'.2,
      compare_lt_iff_lt.2 (hs.start_lt_stop.trans (h.stop_lt_start ht))]
    rfl

/-! ## The set determines the list -/

theorem Spaced.stop_lt_of_mem_points (h : Spaced (s :: xs)) (hz : z ∈ points xs) :
    s.stop < onLine z := by
  obtain ⟨t, ht, hz⟩ := mem_points.1 hz
  have hstart := ((h.tail.1 t ht).mem_iff.1 hz).1
  exact (h.stop_lt_start ht).trans_le hstart

theorem Spaced.start_le_of_mem_points (h : Spaced (s :: xs)) (hz : z ∈ points (s :: xs)) :
    s.start ≤ onLine z := by
  rcases mem_points_cons.1 hz with hz | hz
  · exact (h.proper.mem_iff.1 hz).1
  · exact (h.proper.start_lt_stop.trans (h.stop_lt_of_mem_points hz)).le

/-- The points behind the head are those of the tail. -/
theorem Spaced.mem_points_tail_iff (h : Spaced (s :: xs)) :
    z ∈ points xs ↔ z ∈ points (s :: xs) ∧ s.stop < onLine z := by
  constructor
  · intro hz
    exact ⟨mem_points_cons.2 (.inr hz), h.stop_lt_of_mem_points hz⟩
  · rintro ⟨hz, hstop⟩
    rcases mem_points_cons.1 hz with hz | hz
    · exact absurd (h.proper.mem_iff.1 hz).2 hstop.not_gt
    · exact hz

/-- Of two spaced lists, the one with more points does not begin later. -/
theorem start_le_of_points_subset (hs : Spaced (s :: xs)) (ht : Spaced (t :: ys))
    (h : points (s :: xs) ⊆ points (t :: ys)) : t.start ≤ s.start := by
  by_contra hlt
  rw [not_le] at hlt
  -- an integer in `s` before `t` begins
  obtain ⟨z, hz, hz'⟩ := exists_onLine_of_lt (lt_min hs.proper.start_lt_stop hlt)
  have hmem : z ∈ s := hs.proper.mem_iff.2 ⟨hz, hz'.trans_le (min_le_left _ _)⟩
  have hle := ht.start_le_of_mem_points (h (mem_points_cons.2 (.inl hmem)))
  exact absurd hle (hz'.trans_le (min_le_right _ _)).not_ge

/-- If two heads begin together, the one in the list with more points does not end earlier. -/
theorem stop_le_of_points_subset (hs : Spaced (s :: xs)) (ht : Spaced (t :: ys))
    (hstart : s.start = t.start) (h : points (s :: xs) ⊆ points (t :: ys)) : s.stop ≤ t.stop := by
  by_contra hlt
  rw [not_le] at hlt
  -- the integer at which `t` ends lies in `s`, but in no interval of the other list
  obtain ⟨z, hz⟩ := exists_eq_onLine ht.proper.start_lt_stop hlt
  have hmem : z ∈ s := by
    rw [hs.proper.mem_iff, ← hz, hstart]
    exact ⟨ht.proper.start_lt_stop.le, hlt⟩
  rcases mem_points_cons.1 (h (mem_points_cons.2 (.inl hmem))) with hz' | hz'
  · have := (ht.proper.mem_iff.1 hz').2
    exact absurd hz this.ne'
  · have := ht.stop_lt_of_mem_points hz'
    exact absurd hz this.ne

theorem Spaced.points_nonempty (h : Spaced (s :: xs)) : (points (s :: xs)).Nonempty := by
  obtain ⟨z, hz⟩ := exists_onLine_of_lt h.proper.start_lt_stop
  exact ⟨z, mem_points_cons.2 (.inl (h.proper.mem_iff.2 hz))⟩

/-- Spaced lists that denote the same set are equal. -/
theorem eq_of_points_eq (hx : Spaced xs) (hy : Spaced ys) (h : points xs = points ys) :
    xs = ys := by
  induction xs generalizing ys with
  | nil =>
    cases ys with
    | nil => rfl
    | cons t ys =>
      rw [points_nil] at h
      exact absurd h.symm hy.points_nonempty.ne_empty
  | cons s xs ih =>
    cases ys with
    | nil =>
      rw [points_nil] at h
      exact absurd h hx.points_nonempty.ne_empty
    | cons t ys =>
      have hstart : s.start = t.start := le_antisymm
        (start_le_of_points_subset hy hx h.ge) (start_le_of_points_subset hx hy h.le)
      have hstop : s.stop = t.stop := le_antisymm
        (stop_le_of_points_subset hx hy hstart h.le)
        (stop_le_of_points_subset hy hx hstart.symm h.ge)
      obtain rfl : s = t := eq_of_ends_eq hx.proper.2 hy.proper.2 hstart hstop
      congr 1
      apply ih hx.tail hy.tail
      ext z
      rw [hx.mem_points_tail_iff, hy.mem_points_tail_iff, h]

end RangeUnion.IntSpan
