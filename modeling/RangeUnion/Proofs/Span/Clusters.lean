import Mathlib.Data.Set.Finite.Lemmas
import Mathlib.Data.Set.Finite.List
import Mathlib.Logic.Relation
import RangeUnion.Proofs.Span.Canonicalize

/-!
# Clusters of intervals

The intervals of a list fall into clusters: the classes of the transitive closure of touching. The
canonical list knows nothing of them. It comes from a single pass that compares each interval with
what has been merged so far. Yet its intervals are in one-to-one correspondence with the clusters,
and each of them is the hull of its cluster (`bijOn_groupOf`, `hull_of_mem`).

Three facts carry this. Each interval of the list lies within one interval of the canonical list
(`exists_inside`). Intervals that touch lie within the same one (`Linked.inside`), since those of
the canonical list have gaps in between. And intervals within the same one are linked
(`linked_of_inside`), since otherwise the integer at which a cluster ends would be in none.
-/

namespace RangeUnion.IntSpan

open Relation

/-! ## Linked intervals -/

/-- Two intervals of the list, neither of them empty, overlap or are adjacent. -/
def Meets (xs : List IntSpan) (s t : IntSpan) : Prop :=
  s ∈ nonempty xs ∧ t ∈ nonempty xs ∧ Interval.touches s t = true

/-- A chain of intervals of the list leads from one to the other, each touching the next. -/
def Linked (xs : List IntSpan) : IntSpan → IntSpan → Prop := TransGen (Meets xs)

/-- The intervals of the list that are linked with `s`. -/
def clusterOf (xs : List IntSpan) (s : IntSpan) : Set IntSpan := {t | Linked xs s t}

/-- The classes into which the intervals of the list that are not empty fall. -/
def clusters (xs : List IntSpan) : Set (Set IntSpan) := clusterOf xs '' {s | s ∈ nonempty xs}

/-- `z` begins where the first interval of the cluster begins, and ends where the last one ends. -/
structure HullOf (cluster : Set IntSpan) (z : IntSpan) : Prop where
  ne_empty : z ≠ .empty
  isLeast_start : IsLeast (start '' cluster) z.start
  isGreatest_stop : IsGreatest (stop '' cluster) z.stop

variable {xs : List IntSpan} {r s t z z' : IntSpan}

theorem touches_symm (hs : s.Proper) (ht : t.Proper) (h : Interval.touches s t = true) :
    Interval.touches t s = true := by
  rw [touches_iff ht hs]
  exact ((touches_iff hs ht).1 h).symm

theorem touches_self (hs : s.Proper) : Interval.touches s s = true :=
  (touches_iff hs hs).2 ⟨hs.start_lt_stop.le, hs.start_lt_stop.le⟩

theorem proper_of_mem_nonempty (h : ∀ s ∈ xs, s.WellFormed) (hs : s ∈ nonempty xs) : s.Proper :=
  ⟨h s (mem_nonempty_iff.1 hs).1, (mem_nonempty_iff.1 hs).2⟩

theorem Linked.right_mem (h : Linked xs s t) : t ∈ nonempty xs := by
  obtain ⟨_, _, hmeets⟩ := TransGen.tail'_iff.1 h
  exact hmeets.2.1

theorem linked_self (hwf : ∀ s ∈ xs, s.WellFormed) (hs : s ∈ nonempty xs) : Linked xs s s :=
  .single ⟨hs, hs, touches_self (proper_of_mem_nonempty hwf hs)⟩

theorem Meets.symm (hwf : ∀ s ∈ xs, s.WellFormed) (h : Meets xs s t) : Meets xs t s := by
  obtain ⟨hs, ht, htouch⟩ := h
  exact ⟨ht, hs,
    touches_symm (proper_of_mem_nonempty hwf hs) (proper_of_mem_nonempty hwf ht) htouch⟩

theorem Linked.symm (hwf : ∀ s ∈ xs, s.WellFormed) (h : Linked xs s t) : Linked xs t s := by
  induction h with
  | single hmeets => exact .single (hmeets.symm hwf)
  | tail _ hmeets ih => exact ih.head (hmeets.symm hwf)

/-! ## Intervals within others -/

/-- All of `s` lies in `z`. -/
def Inside (s z : IntSpan) : Prop := z.start ≤ s.start ∧ s.stop ≤ z.stop

theorem Inside.refl (s : IntSpan) : Inside s s := ⟨le_rfl, le_rfl⟩

theorem Inside.trans (hrs : Inside r s) (hst : Inside s t) : Inside r t :=
  ⟨hst.1.trans hrs.1, hrs.2.trans hst.2⟩

theorem inside_hull_left (hs : s ≠ .empty) (ht : t ≠ .empty) : Inside s (s.hull t) := by
  rw [Inside, start_hull hs ht, stop_hull hs ht]
  exact ⟨min_le_left _ _, le_max_left _ _⟩

theorem inside_hull_right (hs : s ≠ .empty) (ht : t ≠ .empty) : Inside t (s.hull t) := by
  rw [Inside, start_hull hs ht, stop_hull hs ht]
  exact ⟨min_le_right _ _, le_max_right _ _⟩

/-- Nothing is lost by merging. -/
theorem exists_inside_mergeFrom {xs : List IntSpan} (h : Ascending (s :: xs)) :
    ∀ r ∈ s :: xs, ∃ z ∈ mergeFrom s xs, Inside r z := by
  induction xs generalizing s with
  | nil =>
    intro r hr
    exact ⟨r, hr, .refl r⟩
  | cons t xs ih =>
    intro r hr
    cases htouch : Interval.touches s t with
    | true =>
      rw [mergeFrom_touching htouch]
      obtain ⟨z, hz, hinside⟩ := ih (ascending_hull h) (s.hull t) List.mem_cons_self
      rcases List.mem_cons.1 hr with rfl | hr
      · exact ⟨z, hz, (inside_hull_left h.head.2 h.second.2).trans hinside⟩
      · rcases List.mem_cons.1 hr with rfl | hr
        · exact ⟨z, hz, (inside_hull_right h.head.2 h.second.2).trans hinside⟩
        · exact ih (ascending_hull h) r (List.mem_cons_of_mem _ hr)
    | false =>
      rw [mergeFrom_apart htouch]
      rcases List.mem_cons.1 hr with rfl | hr
      · exact ⟨r, List.mem_cons_self, .refl r⟩
      · obtain ⟨z, hz, hinside⟩ := ih h.tail r hr
        exact ⟨z, List.mem_cons_of_mem _ hz, hinside⟩

/-- Each interval of the list lies within one of the canonical list. -/
theorem exists_inside (hwf : ∀ s ∈ xs, s.WellFormed) (hs : s ∈ nonempty xs) :
    ∃ z ∈ canonicalize xs, Inside s z := by
  have hmem : s ∈ nonempty (sort xs) := by
    rw [mem_nonempty_iff, mem_sort]
    exact mem_nonempty_iff.1 hs
  have hascending := ascending_nonempty_sort hwf
  unfold canonicalize
  cases hsorted : nonempty (sort xs) with
  | nil =>
    rw [hsorted] at hmem
    exact absurd hmem List.not_mem_nil
  | cons r rest =>
    rw [hsorted] at hmem hascending
    exact exists_inside_mergeFrom hascending s hmem

/-! ## Gaps keep clusters apart -/

/-- Intervals of a spaced list that touch are the same one. -/
theorem Spaced.eq_of_touches {zs : List IntSpan} (h : Spaced zs) (hz : z ∈ zs) (hz' : z' ∈ zs)
    (hle : z.start ≤ z'.stop) (hle' : z'.start ≤ z.stop) : z = z' := by
  induction zs with
  | nil => exact absurd hz List.not_mem_nil
  | cons r zs ih =>
    rcases List.mem_cons.1 hz with rfl | htail
    · rcases List.mem_cons.1 hz' with rfl | htail'
      · rfl
      · exact absurd hle' (h.stop_lt_start htail').not_ge
    · rcases List.mem_cons.1 hz' with rfl | htail'
      · exact absurd hle (h.stop_lt_start htail).not_ge
      · exact ih h.tail htail htail'

/-- Intervals that touch lie within the same interval of the canonical list. -/
theorem Meets.inside (hwf : ∀ s ∈ xs, s.WellFormed) (h : Meets xs s t)
    (hz : z ∈ canonicalize xs) (hs : Inside s z) : Inside t z := by
  obtain ⟨hmem, hmem', htouch⟩ := h
  obtain ⟨z', hz', ht⟩ := exists_inside hwf hmem'
  obtain ⟨hle, hle'⟩ := (touches_iff (proper_of_mem_nonempty hwf hmem)
    (proper_of_mem_nonempty hwf hmem')).1 htouch
  have heq : z = z' := (spaced_canonicalize hwf).eq_of_touches hz hz'
    (hs.1.trans (hle.trans ht.2)) (ht.1.trans (hle'.trans hs.2))
  exact heq ▸ ht

theorem Linked.inside (hwf : ∀ s ∈ xs, s.WellFormed) (h : Linked xs s t)
    (hz : z ∈ canonicalize xs) (hs : Inside s z) : Inside t z := by
  induction h with
  | single hmeets => exact hmeets.inside hwf hz hs
  | tail _ hmeets ih => exact hmeets.inside hwf hz ih

/-! ## Clusters leave no gap -/

/-- An integer of the canonical list lies in an interval of the list, and this one within the same
interval of the canonical list. -/
theorem exists_mem_inside (hwf : ∀ s ∈ xs, s.WellFormed) (hz : z ∈ canonicalize xs) {p : ℤ}
    (hp : z.start ≤ onLine p) (hp' : onLine p < z.stop) :
    ∃ s ∈ nonempty xs, Inside s z ∧ s.start ≤ onLine p ∧ onLine p < s.stop := by
  have hspaced := spaced_canonicalize hwf
  have hmem : p ∈ points xs := by
    rw [← points_canonicalize hwf]
    exact mem_points.2 ⟨z, hz, (hspaced.1 z hz).mem_iff.2 ⟨hp, hp'⟩⟩
  rw [← points_nonempty] at hmem
  obtain ⟨s, hs, hps⟩ := mem_points.1 hmem
  obtain ⟨hstart, hstop⟩ := (proper_of_mem_nonempty hwf hs).mem_iff.1 hps
  obtain ⟨z', hz', hinside⟩ := exists_inside hwf hs
  have heq : z = z' := hspaced.eq_of_touches hz hz'
    (hp.trans (hstop.trans_le hinside.2).le) ((hinside.1.trans hstart).trans hp'.le)
  exact ⟨s, hs, heq ▸ hinside, hstart, hstop⟩

theorem finite_of_subset_nonempty {ts : Set IntSpan} (h : ∀ t ∈ ts, t ∈ nonempty xs) :
    ts.Finite := (List.finite_toSet (nonempty xs)).subset h

/-- An interval that ends before the one it lies within meets another one, which reaches farther. -/
theorem exists_meets_farther (hwf : ∀ s ∈ xs, s.WellFormed) (hz : z ∈ canonicalize xs)
    (hr : r ∈ nonempty xs) (hrz : Inside r z) (hlt : r.stop < z.stop) :
    ∃ u, Meets xs r u ∧ u.start ≤ r.stop ∧ r.stop < u.stop := by
  have hproper := proper_of_mem_nonempty hwf hr
  obtain ⟨p, hp⟩ := exists_eq_onLine hproper.start_lt_stop hlt
  have hbegin : z.start ≤ r.stop := hrz.1.trans hproper.start_lt_stop.le
  obtain ⟨u, hu, _, hpu, hpu'⟩ := exists_mem_inside hwf hz (hp ▸ hbegin) (hp ▸ hlt)
  rw [← hp] at hpu hpu'
  have htouch : Interval.touches r u = true :=
    (touches_iff hproper (proper_of_mem_nonempty hwf hu)).2
      ⟨(hproper.start_lt_stop.trans hpu').le, hpu⟩
  exact ⟨u, ⟨hr, hu, htouch⟩, hpu, hpu'⟩

/-- Of two intervals within the same one, the later is linked with the earlier. -/
theorem linked_of_start_le (hwf : ∀ s ∈ xs, s.WellFormed) (hz : z ∈ canonicalize xs)
    (hs : s ∈ nonempty xs) (ht : t ∈ nonempty xs) (hsz : Inside s z) (htz : Inside t z)
    (hle : s.start ≤ t.start) : Linked xs s t := by
  have hproper := proper_of_mem_nonempty hwf ht
  -- the interval that reaches farthest among those linked with `s` that do not begin after `t`
  obtain ⟨r, ⟨hr, hrt⟩, hmax⟩ := Set.exists_max_image {r | Linked xs s r ∧ r.start ≤ t.start} stop
    (finite_of_subset_nonempty fun r hr => hr.1.right_mem) ⟨s, linked_self hwf hs, hle⟩
  rcases le_or_gt t.start r.stop with hreach | hshort
  · have htouch : Interval.touches r t = true :=
      (touches_iff (proper_of_mem_nonempty hwf hr.right_mem) hproper).2
        ⟨(hrt.trans_lt hproper.start_lt_stop).le, hreach⟩
    exact hr.tail ⟨hr.right_mem, ht, htouch⟩
  · have hend : r.stop < z.stop := hshort.trans (hproper.start_lt_stop.trans_le htz.2)
    obtain ⟨u, hmeets, hstart, hstop⟩ :=
      exists_meets_farther hwf hz hr.right_mem (hr.inside hwf hz hsz) hend
    exact absurd (hmax u ⟨hr.tail hmeets, (hstart.trans_lt hshort).le⟩) hstop.not_ge

/-- Intervals within the same interval of the canonical list are linked. -/
theorem linked_of_inside (hwf : ∀ s ∈ xs, s.WellFormed) (hz : z ∈ canonicalize xs)
    (hs : s ∈ nonempty xs) (ht : t ∈ nonempty xs) (hsz : Inside s z) (htz : Inside t z) :
    Linked xs s t := by
  rcases le_total s.start t.start with hle | hle
  · exact linked_of_start_le hwf hz hs ht hsz htz hle
  · exact (linked_of_start_le hwf hz ht hs htz hsz hle).symm hwf

/-! ## The correspondence -/

/-- The intervals of the list that lie within `z`. -/
def groupOf (xs : List IntSpan) (z : IntSpan) : Set IntSpan := {s | s ∈ nonempty xs ∧ Inside s z}

/-- What lies within one interval of the canonical list is one cluster. -/
theorem groupOf_eq_clusterOf (hwf : ∀ s ∈ xs, s.WellFormed) (hz : z ∈ canonicalize xs)
    (hs : s ∈ nonempty xs) (hsz : Inside s z) : groupOf xs z = clusterOf xs s := by
  ext t
  constructor
  · rintro ⟨ht, htz⟩
    exact linked_of_inside hwf hz hs ht hsz htz
  · intro h
    exact ⟨Linked.right_mem h, Linked.inside hwf h hz hsz⟩

theorem groupOf_nonempty (hwf : ∀ s ∈ xs, s.WellFormed) (hz : z ∈ canonicalize xs) :
    (groupOf xs z).Nonempty := by
  obtain ⟨p, hp, hp'⟩ := exists_onLine_of_lt ((spaced_canonicalize hwf).1 z hz).start_lt_stop
  obtain ⟨s, hs, hsz, _⟩ := exists_mem_inside hwf hz hp hp'
  exact ⟨s, hs, hsz⟩

/-- An interval of the canonical list is the hull of what lies within it. -/
theorem hull_of_mem (hwf : ∀ s ∈ xs, s.WellFormed) (hz : z ∈ canonicalize xs) :
    HullOf (groupOf xs z) z := by
  have hfinite : (groupOf xs z).Finite := finite_of_subset_nonempty fun s hs => hs.1
  have hnonempty := groupOf_nonempty hwf hz
  refine ⟨((spaced_canonicalize hwf).1 z hz).2, ⟨?_, ?_⟩, ⟨?_, ?_⟩⟩
  · obtain ⟨s, hs, hmin⟩ := Set.exists_min_image (groupOf xs z) start hfinite hnonempty
    refine ⟨s, hs, le_antisymm (le_of_not_gt fun hlt => ?_) hs.2.1⟩
    -- an integer before the first of them lies in another one
    obtain ⟨p, hp, hp'⟩ := exists_onLine_of_lt hlt
    have hend := hp'.trans ((proper_of_mem_nonempty hwf hs.1).start_lt_stop.trans_le hs.2.2)
    obtain ⟨u, hu, huz, hpu, _⟩ := exists_mem_inside hwf hz hp hend
    exact absurd (hmin u ⟨hu, huz⟩) (hpu.trans_lt hp').not_ge
  · rintro _ ⟨s, hs, rfl⟩
    exact hs.2.1
  · obtain ⟨s, hs, hmax⟩ := Set.exists_max_image (groupOf xs z) stop hfinite hnonempty
    refine ⟨s, hs, le_antisymm hs.2.2 (le_of_not_gt fun hlt => ?_)⟩
    obtain ⟨p, hp, hp'⟩ := exists_onLine_of_lt hlt
    have hbegin := hs.2.1.trans ((proper_of_mem_nonempty hwf hs.1).start_lt_stop.le.trans hp)
    obtain ⟨u, hu, huz, _, hpu⟩ := exists_mem_inside hwf hz hbegin hp'
    exact absurd (hmax u ⟨hu, huz⟩) (hp.trans_lt hpu).not_ge
  · rintro _ ⟨s, hs, rfl⟩
    exact hs.2.2

/-- The intervals of the canonical list and the clusters are in one-to-one correspondence. -/
theorem bijOn_groupOf (hwf : ∀ s ∈ xs, s.WellFormed) :
    Set.BijOn (groupOf xs) {z | z ∈ canonicalize xs} (clusters xs) := by
  refine ⟨?_, ?_, ?_⟩
  · intro z hz
    obtain ⟨s, hs, hsz⟩ := groupOf_nonempty hwf hz
    exact ⟨s, hs, (groupOf_eq_clusterOf hwf hz hs hsz).symm⟩
  · intro z hz z' hz' heq
    obtain ⟨s, hs⟩ := groupOf_nonempty hwf hz
    have hs' : s ∈ groupOf xs z' := heq ▸ hs
    have hlt := (proper_of_mem_nonempty hwf hs.1).start_lt_stop
    exact (spaced_canonicalize hwf).eq_of_touches hz hz' (hs.2.1.trans (hlt.le.trans hs'.2.2))
      (hs'.2.1.trans (hlt.le.trans hs.2.2))
  · rintro _ ⟨s, hs, rfl⟩
    obtain ⟨z, hz, hsz⟩ := exists_inside hwf hs
    exact ⟨z, hz, groupOf_eq_clusterOf hwf hz hs hsz⟩

theorem Spaced.nodup {zs : List IntSpan} (h : Spaced zs) : zs.Nodup := by
  induction zs with
  | nil => exact List.nodup_nil
  | cons z zs ih =>
    refine List.nodup_cons.2 ⟨fun hz => ?_, ih h.tail⟩
    exact absurd (h.stop_lt_start hz) h.proper.start_lt_stop.not_gt

/-- An interval that touches no other one is kept as it is. -/
theorem mem_canonicalize_of_alone (hwf : ∀ s ∈ xs, s.WellFormed) (hs : s ∈ nonempty xs)
    (halone : ∀ t ∈ xs, Interval.touches s t = true → t = s) : s ∈ canonicalize xs := by
  have hlinked : ∀ t, Linked xs s t → t = s := by
    intro t h
    induction h with
    | single hmeets => exact halone _ (mem_nonempty_iff.1 hmeets.2.1).1 hmeets.2.2
    | tail _ hmeets ih =>
      subst ih
      exact halone _ (mem_nonempty_iff.1 hmeets.2.1).1 hmeets.2.2
  obtain ⟨z, hz, hsz⟩ := exists_inside hwf hs
  have hgroup : ∀ t ∈ groupOf xs z, t = s := by
    intro t ht
    rw [groupOf_eq_clusterOf hwf hz hs hsz] at ht
    exact hlinked t ht
  obtain ⟨hne, ⟨⟨t, ht, hstart⟩, _⟩, ⟨⟨t', ht', hstop⟩, _⟩⟩ := hull_of_mem hwf hz
  rw [hgroup t ht] at hstart
  rw [hgroup t' ht'] at hstop
  rw [eq_of_ends_eq (mem_nonempty_iff.1 hs).2 hne hstart hstop]
  exact hz

end RangeUnion.IntSpan
