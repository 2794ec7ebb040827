import Mathlib.Data.Prod.Lex
import RangeUnion.Canonical
import RangeUnion.Proofs.Span.Ends

/-!
# The order of intervals

The order by bounds is the lexicographic order of the ends, with the empty interval before all
others (`order_eq_compare_rank`). So it is a linear order on the intervals, those with reversed
bounds included, and sorting gives the one arrangement of a list that ascends in it (`eq_sort_iff`).
-/

namespace RangeUnion.IntSpan

/-- The place of an interval in the order: where it begins, then where it ends. -/
def rank : IntSpan → WithBot (Line ×ₗ Line)
  | .empty => ⊥
  | .between l u => ((toLex (lowerEnd l, upperEnd u) : Line ×ₗ Line) : WithBot (Line ×ₗ Line))

variable {s t : IntSpan}

theorem rank_of_ne_empty (h : s ≠ .empty) :
    s.rank = ((toLex (s.start, s.stop) : Line ×ₗ Line) : WithBot (Line ×ₗ Line)) := by
  obtain ⟨l, u, rfl⟩ := exists_eq_between h
  rfl

theorem rank_injective : Function.Injective rank := by
  intro s t h
  cases s with
  | empty =>
    cases t with
    | empty => rfl
    | between l u => exact absurd h.symm (WithBot.coe_ne_bot)
  | between l u =>
    cases t with
    | empty => exact absurd h (WithBot.coe_ne_bot)
    | between l' u' =>
      have h' := toLex.injective (WithBot.coe_injective h)
      rw [Prod.mk.injEq, lowerEnd_inj, upperEnd_inj] at h'
      rw [h'.1, h'.2]

theorem compare_coe {α : Type} [LinearOrder α] (a b : α) :
    compare (a : WithBot α) (b : WithBot α) = compare a b := by
  rcases lt_trichotomy a b with h | rfl | h
  · rw [compare_lt_iff_lt.2 h, compare_lt_iff_lt.2 (WithBot.coe_lt_coe.2 h)]
  · rw [compare_eq_iff_eq.2 rfl, compare_eq_iff_eq.2 rfl]
  · rw [compare_gt_iff_gt.2 h, compare_gt_iff_gt.2 (WithBot.coe_lt_coe.2 h)]

theorem order_eq_compare_rank (s t : IntSpan) : s.order t = compare s.rank t.rank := by
  by_cases hs : s = .empty
  · subst hs
    cases t with
    | empty => exact (compare_eq_iff_eq.2 rfl).symm
    | between l u => exact (compare_lt_iff_lt.2 (WithBot.bot_lt_coe _)).symm
  · by_cases ht : t = .empty
    · subst ht
      obtain ⟨l, u, rfl⟩ := exists_eq_between hs
      exact (compare_gt_iff_gt.2 (WithBot.bot_lt_coe _)).symm
    · rw [order_eq hs ht, rank_of_ne_empty hs, rank_of_ne_empty ht, compare_coe]
      rfl

theorem order_isLE_iff : (s.order t).isLE = true ↔ s.rank ≤ t.rank := by
  rw [order_eq_compare_rank, Ordering.isLE_iff_ne_gt, ← ne_eq, compare_le_iff_le]

theorem order_eq_lt_iff : s.order t = .lt ↔ s.rank < t.rank := by
  rw [order_eq_compare_rank, compare_lt_iff_lt]

instance : Std.TransCmp order where
  eq_swap {s t} := by
    rw [order_eq_compare_rank, order_eq_compare_rank]
    exact Std.OrientedCmp.eq_swap
  isLE_trans {r s t} hrs hst :=
    order_isLE_iff.2 ((order_isLE_iff.1 hrs).trans (order_isLE_iff.1 hst))

instance : Std.LawfulEqCmp order where
  compare_self {s} := by
    rw [order_eq_compare_rank]
    exact compare_eq_iff_eq.2 rfl
  eq_of_compare {s t} h := by
    rw [order_eq_compare_rank, compare_eq_iff_eq] at h
    exact rank_injective h

/-- An interval that comes earlier does not begin later. -/
theorem start_le_of_rank_le (hs : s ≠ .empty) (ht : t ≠ .empty) (h : s.rank ≤ t.rank) :
    s.start ≤ t.start := by
  rw [rank_of_ne_empty hs, rank_of_ne_empty ht, WithBot.coe_le_coe, Prod.Lex.toLex_le_toLex] at h
  rcases h with h | ⟨h, _⟩
  · exact h.le
  · exact h.le

/-! ## Sorted lists -/

/-- A sorted list ascends. -/
theorem pairwise_sort (xs : List IntSpan) : (sort xs).Pairwise fun s t => s.rank ≤ t.rank := by
  have h : (sort xs).Pairwise fun s t => (s.order t).isLE := by
    apply List.pairwise_mergeSort
    · intro a b c hab hbc
      exact Std.TransCmp.isLE_trans hab hbc
    · intro a b
      rw [Bool.or_eq_true]
      exact (le_total a.rank b.rank).imp order_isLE_iff.2 order_isLE_iff.2
  exact h.imp order_isLE_iff.1

/-- Sorting gives the one arrangement of a list that ascends. -/
theorem eq_sort_iff {xs ys : List IntSpan} :
    ys = sort xs ↔ ys.Perm xs ∧ ys.Pairwise fun s t => s.rank ≤ t.rank := by
  constructor
  · rintro rfl
    exact ⟨sort_perm xs, pairwise_sort xs⟩
  · rintro ⟨hperm, hpairwise⟩
    refine (hperm.trans (sort_perm xs).symm).eq_of_pairwise ?_ hpairwise (pairwise_sort xs)
    intro s t _ _ hst hts
    exact rank_injective (le_antisymm hst hts)

/-- A list that ascends is left alone by sorting. -/
theorem sort_eq_self {xs : List IntSpan} (h : xs.Pairwise fun s t => s.rank ≤ t.rank) :
    sort xs = xs :=
  List.mergeSort_of_pairwise (h.imp order_isLE_iff.2)

end RangeUnion.IntSpan
