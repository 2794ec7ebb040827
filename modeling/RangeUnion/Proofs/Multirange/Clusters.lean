import RangeUnion.Proofs.Multirange.Union
import RangeUnion.Proofs.Span.Clusters

/-!
# What the intervals of a multirange stand for

No list of intervals with the same union is shorter than the list that a multirange holds, since
canonicalization never adds an interval and ends at the same list for all of them
(`length_canonicalize_le_of_points_eq`). And what a multirange holds are the hulls of the clusters
of the intervals that it was built from, each of them once (`ofList_clusters`).
-/

namespace RangeUnion.Multirange

open IntSpan

variable {xs ys : List IntSpan}

/-- No list with the same union has fewer intervals that are not empty. -/
theorem length_canonicalize_le_of_points_eq (hxs : ∀ s ∈ xs, s.WellFormed)
    (hys : ∀ s ∈ ys, s.WellFormed) (h : points ys = points xs) :
    (canonicalize xs).length ≤ (nonempty ys).length := by
  rw [(canonicalize_eq_iff hxs hys).2 h.symm, ← canonicalize_nonempty]
  exact length_canonicalize_le (nonempty ys)

/-- A multirange holds as few intervals as its union allows. They correspond one to one to the
clusters of the intervals that it was built from, each being the hull of its cluster, so that an
interval that touches no other one is held as it is. -/
theorem ofList_clusters (tag : Tag) (hxs : ∀ s ∈ xs, s.WellFormed) (hfits : Fits xs) :
    ∃ m zs, ofList tag xs = .ok m ∧ m.toList = .ok zs ∧ m.length = zs.length ∧
      (∀ ys : List IntSpan, (∀ s ∈ ys, s.WellFormed) → points ys = points xs →
        m.length ≤ (nonempty ys).length) ∧
      zs.Nodup ∧ Set.BijOn (groupOf xs) {z | z ∈ zs} (clusters xs) ∧
      (∀ z ∈ zs, HullOf (groupOf xs z) z) ∧
      (∀ s ∈ nonempty xs, (∀ t ∈ xs, Interval.touches s t = true → t = s) → s ∈ zs) := by
  obtain ⟨m, hm⟩ := exists_ofList_eq_ok tag hfits
  have hlist : m.toList = .ok (canonicalize xs) := toList_of_ofList hxs hm
  have hlength : m.length = (canonicalize xs).length := by
    rw [← length_items, toList_eq_ok_iff.1 hlist, List.length_map]
  refine ⟨m, canonicalize xs, hm, hlist, hlength, ?_, (spaced_canonicalize hxs).nodup,
    bijOn_groupOf hxs, fun _ => hull_of_mem hxs, fun _ => mem_canonicalize_of_alone hxs⟩
  intro ys hys hpoints
  rw [hlength]
  exact length_canonicalize_le_of_points_eq hxs hys hpoints

/-- Two intervals that touch only through a long one, which hides a short one between them. -/
theorem ofList_clusters_chained :
    ∃ xs : List IntSpan,
      xs = [between (some 10) (some 12), between (some 5) (some 6), .empty,
        between (some 1) (some 10), between (some 20) none, between none (some 1)] ∧
      (∀ s ∈ xs, s.WellFormed) ∧ Fits xs ∧
      ∃ m zs, ofList ⟨4451⟩ xs = .ok m ∧ m.toList = .ok zs ∧ m.length = zs.length ∧
        (∀ ys : List IntSpan, (∀ s ∈ ys, s.WellFormed) → points ys = points xs →
          m.length ≤ (nonempty ys).length) ∧
        zs.Nodup ∧ Set.BijOn (groupOf xs) {z | z ∈ zs} (clusters xs) ∧
        (∀ z ∈ zs, HullOf (groupOf xs z) z) ∧
        (∀ s ∈ nonempty xs, (∀ t ∈ xs, Interval.touches s t = true → t = s) → s ∈ zs) := by
  have hfits : Fits [between (some 10) (some 12), between (some 5) (some 6), .empty,
      between (some 1) (some 10), between (some 20) none, between none (some 1)] :=
    fits_of_length_lt (by decide)
  exact ⟨_, rfl, by decide, hfits, ofList_clusters ⟨4451⟩ (by decide) hfits⟩

end RangeUnion.Multirange
