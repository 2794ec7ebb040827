import RangeUnion.Proofs.Span.Spaced

/-!
# Canonicalization of intervals

Merging goes over an ascending list of proper intervals. The interval that it widens always
begins where it began at first, so the list that is left stays ascending behind it
(`ascending_hull`), and where the next interval does not touch it there is a gap. So the result
is spaced (`spaced_canonicalize`) and denotes what the list denotes (`points_canonicalize`), and a
spaced list is its own canonical list (`canonicalize_of_spaced`).
-/

namespace RangeUnion.IntSpan

/-- The intervals are proper, and none begins before an earlier one. -/
def Ascending (xs : List IntSpan) : Prop :=
  (∀ s ∈ xs, s.Proper) ∧ xs.Pairwise fun s t => s.start ≤ t.start

variable {s t : IntSpan} {xs ys : List IntSpan} {z : ℤ}

theorem Ascending.tail (h : Ascending (s :: xs)) : Ascending xs :=
  ⟨fun t ht => h.1 t (List.mem_cons_of_mem s ht), h.2.tail⟩

theorem Ascending.head (h : Ascending (s :: xs)) : s.Proper := h.1 s List.mem_cons_self

theorem Ascending.second (h : Ascending (s :: t :: xs)) : t.Proper := h.tail.head

theorem Ascending.start_le (h : Ascending (s :: t :: xs)) : s.start ≤ t.start :=
  List.rel_of_pairwise_cons h.2 List.mem_cons_self

/-- The hull with a later interval begins where the first one does. -/
theorem Ascending.start_hull_eq (h : Ascending (s :: t :: xs)) : (s.hull t).start = s.start := by
  rw [start_hull h.head.2 h.second.2, min_eq_left h.start_le]

theorem ascending_hull (h : Ascending (s :: t :: xs)) : Ascending (s.hull t :: xs) := by
  constructor
  · intro r hr
    rcases List.mem_cons.1 hr with rfl | hr
    · exact proper_hull h.head h.second
    · exact h.tail.tail.1 r hr
  · refine List.pairwise_cons.2 ⟨?_, h.tail.tail.2⟩
    intro r hr
    rw [h.start_hull_eq]
    exact List.rel_of_pairwise_cons h.2 (List.mem_cons_of_mem t hr)

/-! ## Merging -/

/-- What is merged begins where the first interval begins. -/
theorem exists_mergeFrom_eq (h : Ascending (s :: xs)) :
    ∃ t ys, mergeFrom s xs = t :: ys ∧ t.start = s.start := by
  induction xs generalizing s with
  | nil => exact ⟨s, [], rfl, rfl⟩
  | cons r xs ih =>
    cases htouch : Interval.touches s r with
    | true =>
      obtain ⟨t, ys, heq, hstart⟩ := ih (ascending_hull h)
      rw [mergeFrom_touching htouch]
      exact ⟨t, ys, heq, hstart.trans h.start_hull_eq⟩
    | false =>
      rw [mergeFrom_apart htouch]
      exact ⟨s, mergeFrom r xs, rfl, rfl⟩

theorem spaced_mergeFrom (h : Ascending (s :: xs)) : Spaced (mergeFrom s xs) := by
  induction xs generalizing s with
  | nil =>
    refine ⟨?_, trivial⟩
    intro r hr
    rw [List.mem_singleton.1 hr]
    exact h.head
  | cons r xs ih =>
    cases htouch : Interval.touches s r with
    | true =>
      rw [mergeFrom_touching htouch]
      exact ih (ascending_hull h)
    | false =>
      have hrest := ih h.tail
      obtain ⟨t, ys, heq, hstart⟩ := exists_mergeFrom_eq h.tail
      have hgap : Gap s t := by
        rw [gap_iff, hstart]
        exact gap_iff.1 (gap_of_not_touches h.head h.second h.start_le htouch)
      rw [mergeFrom_apart htouch, heq, spaced_cons_cons, ← heq]
      exact ⟨h.head, hgap, hrest⟩

theorem points_mergeFrom (h : Ascending (s :: xs)) :
    points (mergeFrom s xs) = points (s :: xs) := by
  induction xs generalizing s with
  | nil => rfl
  | cons r xs ih =>
    ext z
    cases htouch : Interval.touches s r with
    | true =>
      rw [mergeFrom_touching htouch]
      show z ∈ points (mergeFrom (s.hull r) xs) ↔ _
      rw [ih (ascending_hull h), mem_points_cons, mem_points_cons, mem_points_cons,
        mem_hull_iff h.head h.second htouch, or_assoc]
    | false =>
      rw [mergeFrom_apart htouch, mem_points_cons, mem_points_cons, ih h.tail, mem_points_cons]

theorem spaced_merge (h : Ascending xs) : Spaced (merge xs) := by
  cases xs with
  | nil => exact spaced_nil
  | cons s xs => exact spaced_mergeFrom h

theorem points_merge (h : Ascending xs) : points (merge xs) = points xs := by
  cases xs with
  | nil => rfl
  | cons s xs => exact points_mergeFrom h

/-! ## Canonical lists -/

theorem mem_nonempty_iff : s ∈ nonempty xs ↔ s ∈ xs ∧ s ≠ .empty := by
  unfold nonempty
  rw [List.mem_filter, Bool.not_eq_true', isEmpty_eq_false_iff]

theorem nonempty_nonempty (xs : List IntSpan) : nonempty (nonempty xs) = nonempty xs := by
  unfold nonempty
  rw [List.filter_filter]
  simp only [Bool.and_self]

/-- It makes no difference whether empty intervals are dropped before or after sorting. -/
theorem sort_nonempty (xs : List IntSpan) : sort (nonempty xs) = nonempty (sort xs) := by
  refine (eq_sort_iff.2 ⟨(sort_perm xs).filter _, ?_⟩).symm
  exact (pairwise_sort xs).sublist List.filter_sublist

theorem canonicalize_nonempty (xs : List IntSpan) :
    canonicalize (nonempty xs) = canonicalize xs := by
  unfold canonicalize
  rw [sort_nonempty, nonempty_nonempty]

/-- The order in which the intervals are given makes no difference. -/
theorem canonicalize_eq_of_perm (h : xs.Perm ys) : canonicalize xs = canonicalize ys := by
  have hsort : sort xs = sort ys :=
    eq_sort_iff.2 ⟨(sort_perm xs).trans h, pairwise_sort xs⟩
  rw [canonicalize, hsort, canonicalize]

theorem points_nonempty (xs : List IntSpan) : points (nonempty xs) = points xs := by
  ext z
  simp only [mem_points, mem_nonempty_iff]
  constructor
  · rintro ⟨s, ⟨hs, _⟩, hz⟩
    exact ⟨s, hs, hz⟩
  · rintro ⟨s, hs, hz⟩
    refine ⟨s, ⟨hs, ?_⟩, hz⟩
    rintro rfl
    exact not_mem_empty z hz

/-- Sorting well-formed intervals and dropping the empty ones leaves an ascending list. -/
theorem ascending_nonempty_sort (h : ∀ s ∈ xs, s.WellFormed) : Ascending (nonempty (sort xs)) := by
  have hproper : ∀ s ∈ nonempty (sort xs), s.Proper := by
    intro s hs
    obtain ⟨hs, hne⟩ := mem_nonempty_iff.1 hs
    exact ⟨h s (mem_sort.1 hs), hne⟩
  have hrank : (nonempty (sort xs)).Pairwise fun s t => s.rank ≤ t.rank :=
    (pairwise_sort xs).sublist List.filter_sublist
  refine ⟨hproper, hrank.imp_of_mem ?_⟩
  intro s t hs ht hle
  exact start_le_of_rank_le (hproper s hs).2 (hproper t ht).2 hle

/-- The canonical list of well-formed intervals is spaced. -/
theorem spaced_canonicalize (h : ∀ s ∈ xs, s.WellFormed) : Spaced (canonicalize xs) :=
  spaced_merge (ascending_nonempty_sort h)

/-- The canonical list denotes what the list denotes. -/
theorem points_canonicalize (h : ∀ s ∈ xs, s.WellFormed) :
    points (canonicalize xs) = points xs := by
  unfold canonicalize
  rw [points_merge (ascending_nonempty_sort h), points_nonempty, points_perm (sort_perm xs)]

/-- A spaced list is its own canonical list. -/
theorem canonicalize_of_spaced (h : Spaced xs) : canonicalize xs = xs := by
  have hcanonical : Canonical xs := (spaced_iff.1 h).2
  unfold canonicalize
  rw [sort_eq_self h.pairwise, nonempty_of_canonical hcanonical, merge_of_separate hcanonical.2]

/-- Two lists of well-formed intervals have the same canonical list if and only if they denote
the same set. -/
theorem canonicalize_eq_iff (hx : ∀ s ∈ xs, s.WellFormed) (hy : ∀ s ∈ ys, s.WellFormed) :
    canonicalize xs = canonicalize ys ↔ points xs = points ys := by
  rw [← points_canonicalize hx, ← points_canonicalize hy]
  constructor
  · intro h
    rw [h]
  · exact eq_of_points_eq (spaced_canonicalize hx) (spaced_canonicalize hy)

end RangeUnion.IntSpan
