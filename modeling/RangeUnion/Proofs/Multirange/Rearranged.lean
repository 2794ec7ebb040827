import RangeUnion.Proofs.Compaction
import RangeUnion.Proofs.Multirange.Union

/-!
# The order in which intervals are given

The stored value of a union depends neither on the order in which the intervals are given nor on
the empty intervals among them (`ofList_rearranged`). This holds of all intervals, those with
reversed bounds included, although merging such intervals is no union of sets: the order by bounds
tells any two of them apart, so there is one ascending arrangement, and the scan over it in place
never comes back to a cell that it has skipped or merged.
-/

namespace RangeUnion

/-- The second list is the first one with empty intervals put in at any places. -/
inductive Padded {α : Type} [Interval α] : List α → List α → Prop
  | nil : Padded [] []
  | keep {ys zs : List α} (y : α) (h : Padded ys zs) : Padded (y :: ys) (y :: zs)
  | insert {ys zs : List α} {e : α} (he : Interval.isEmpty e = true) (h : Padded ys zs) :
    Padded ys (e :: zs)

theorem Padded.nonempty_eq {α : Type} [Interval α] {ys zs : List α} (h : Padded ys zs) :
    nonempty zs = nonempty ys := by
  induction h with
  | nil => rfl
  | keep y _ ih =>
    cases hempty : Interval.isEmpty y with
    | true => rw [nonempty_cons_of_isEmpty hempty, nonempty_cons_of_isEmpty hempty, ih]
    | false => rw [nonempty_cons_of_not_isEmpty hempty, nonempty_cons_of_not_isEmpty hempty, ih]
  | insert he _ ih => rw [nonempty_cons_of_isEmpty he, ih]

namespace Multirange

open IntSpan

variable {xs ys zs : List IntSpan}

theorem canonicalize_eq_of_padded (h : Padded ys zs) : canonicalize zs = canonicalize ys := by
  rw [← canonicalize_nonempty, h.nonempty_eq, canonicalize_nonempty]

/-- Intervals in another order, with empty ones in between, are merged in place into the same list
and stored as the same value. -/
theorem ofList_rearranged (tag : Tag) (hperm : xs.Perm ys) (hpadded : Padded ys zs) :
    compact? (sort xs) = some (canonicalize xs) ∧ compact? (sort zs) = some (canonicalize xs) ∧
      ofList tag ys = ofList tag xs ∧ ofList tag zs = ofList tag xs ∧
      (Fits xs → ∃ m, ofList tag xs = .ok m ∧ ofList tag ys = .ok m ∧ ofList tag zs = .ok m) := by
  have hys : canonicalize ys = canonicalize xs := canonicalize_eq_of_perm hperm.symm
  have hzs : canonicalize zs = canonicalize xs := (canonicalize_eq_of_padded hpadded).trans hys
  have hstoreY : ofList tag ys = ofList tag xs := by rw [ofList, hys, ofList]
  have hstoreZ : ofList tag zs = ofList tag xs := by rw [ofList, hzs, ofList]
  refine ⟨compact?_sort xs, hzs ▸ compact?_sort zs, hstoreY, hstoreZ, fun hfits => ?_⟩
  obtain ⟨m, hm⟩ := exists_ofList_eq_ok tag hfits
  exact ⟨m, hm, hstoreY.trans hm, hstoreZ.trans hm⟩

/-- Intervals with reversed bounds, read backwards and with empty ones in between. -/
theorem ofList_rearranged_backwards :
    ∃ (xs ys zs : List IntSpan) (m : Multirange IntSpan),
      xs = [between (some 9) (some 5), between (some 1) (some 1), between none (some 4),
        between (some 5) (some 2)] ∧
      ys = xs.reverse ∧ zs = .empty :: ys ++ [.empty] ∧ xs.Perm ys ∧ Padded ys zs ∧ Fits xs ∧
      ofList ⟨4451⟩ xs = .ok m ∧ ofList ⟨4451⟩ ys = .ok m ∧ ofList ⟨4451⟩ zs = .ok m := by
  have hfits : Fits [between (some 9) (some 5), between (some 1) (some 1), between none (some 4),
      between (some 5) (some 2)] := fits_of_length_lt (by decide)
  have hperm : [between (some 9) (some 5), between (some 1) (some 1), between none (some 4),
      between (some 5) (some 2)].Perm [between (some 5) (some 2), between none (some 4),
      between (some 1) (some 1), between (some 9) (some 5)] := (List.reverse_perm _).symm
  have hpadded : Padded [between (some 5) (some 2), between none (some 4),
      between (some 1) (some 1), between (some 9) (some 5)]
      [.empty, between (some 5) (some 2), between none (some 4), between (some 1) (some 1),
        between (some 9) (some 5), .empty] :=
    .insert rfl (.keep _ (.keep _ (.keep _ (.keep _ (.insert rfl .nil)))))
  obtain ⟨_, _, _, _, hbuild⟩ := ofList_rearranged ⟨4451⟩ hperm hpadded
  obtain ⟨m, hx, hy, hz⟩ := hbuild hfits
  exact ⟨_, _, _, m, rfl, rfl, rfl, hperm, hpadded, hfits, hx, hy, hz⟩

end Multirange

end RangeUnion
