import RangeUnion.Proofs.Multirange.Reachable

/-!
# Intervals with reversed bounds

An interval whose bounds do not ascend can be written down, and building a multirange does not look
for it. It may be merged into a neighbour, or hide one neighbour from another, or be stored as it
is; and what is stored reads back only if its bounds ascend. So a multirange that is built is valid
if and only if the list that merging leaves is spaced (`constructors_valid_iff`). That holds if all
intervals are well formed, and an interval on its own has to be. Two lists for which it does not
hold: one that cannot be read back, and one that reads back out of canonical form
(`constructors_not_valid`).
-/

namespace RangeUnion.Multirange

open IntSpan

variable {tag : Tag} {s t : IntSpan} {xs ys : List IntSpan} {m : Multirange IntSpan}

/-- The intervals of `m` can be read and make up a canonical list, and its bytes are adopted. -/
structure Valid (m : Multirange IntSpan) : Prop where
  exists_toList : ∃ ys, m.toList = .ok ys ∧ Canonical ys
  exists_adopt : ∃ n : Multirange IntSpan, adopt m.data = .ok n

/-! ## Reading what is stored -/

theorem unpack_pack_eq_ok_iff : unpack (pack s) = .ok t ↔ s.WellFormed ∧ s = t := by
  rw [unpack_pack_eq]
  split
  · next h => simp [h]
  · next h => simp [h]

theorem map_unpack_map_pack_eq_iff :
    (xs.map Interval.pack).map Interval.unpack = (ys.map .ok : List (Except Error IntSpan)) ↔
      (∀ s ∈ xs, s.WellFormed) ∧ xs = ys := by
  induction xs generalizing ys with
  | nil => cases ys <;> simp
  | cons s xs ih =>
    cases ys with
    | nil => simp
    | cons t ys =>
      have hhead : (Interval.unpack (Interval.pack s) : Except Error IntSpan) = .ok t ↔
          s.WellFormed ∧ s = t := unpack_pack_eq_ok_iff
      simp only [List.map_cons, List.cons.injEq, hhead, ih, List.forall_mem_cons]
      constructor
      · rintro ⟨⟨hs, rfl⟩, hxs, rfl⟩
        exact ⟨⟨hs, hxs⟩, rfl, rfl⟩
      · rintro ⟨⟨hs, hxs⟩, rfl, rfl⟩
        exact ⟨⟨hs, rfl⟩, hxs, rfl⟩

/-- A multirange that is built can be read if no reversed interval is left after merging. -/
theorem toList_eq_ok_iff_of_ofList (hm : ofList tag xs = .ok m) :
    m.toList = .ok ys ↔ (∀ s ∈ canonicalize xs, s.WellFormed) ∧ canonicalize xs = ys := by
  rw [toList_eq_ok_iff, items_of_ofList hm, map_unpack_map_pack_eq_iff]

/-- A multirange that is built is valid if and only if merging leaves a spaced list. -/
theorem valid_iff (hm : ofList tag xs = .ok m) : Valid m ↔ Spaced (canonicalize xs) := by
  constructor
  · rintro ⟨⟨ys, htoList, hcanonical⟩, _⟩
    obtain ⟨hwellFormed, rfl⟩ := (toList_eq_ok_iff_of_ofList hm).1 htoList
    exact spaced_iff.2 ⟨hwellFormed, hcanonical⟩
  · intro hspaced
    obtain ⟨hwellFormed, hcanonical⟩ := spaced_iff.1 hspaced
    have hadopt : adopt m.data = .ok m := by
      refine adopt_of_spaced ?_ hm
      have hid : (canonicalize xs).map Spanned.span = canonicalize xs := List.map_id _
      rw [hid]
      exact hspaced
    exact ⟨⟨_, (toList_eq_ok_iff_of_ofList hm).2 ⟨hwellFormed, rfl⟩, hcanonical⟩, m, hadopt⟩

/-! ## The constructors -/

theorem ifOk_ofList_iff :
    IfOk Valid (ofList tag xs) ↔ (Fits xs → Spaced (canonicalize xs)) := by
  constructor
  · intro h hfits
    obtain ⟨m, hm⟩ := exists_ofList_eq_ok tag hfits
    exact (valid_iff hm).1 (h m hm)
  · intro h m hm
    exact (valid_iff hm).2 (h (ofList_eq_ok_iff.1 hm).1)

theorem canonicalize_singleton (s : IntSpan) : canonicalize [s] = nonempty [s] := by
  have hsort : sort [s] = [s] := List.mergeSort_singleton s
  rw [canonicalize, hsort]
  cases s <;> rfl

theorem spaced_canonicalize_singleton_iff : Spaced (canonicalize [s]) ↔ s.WellFormed := by
  rw [canonicalize_singleton]
  constructor
  · intro h
    by_cases hs : s = .empty
    · rw [hs]
      trivial
    · exact (h.1 s (mem_nonempty_iff.2 ⟨List.mem_singleton_self s, hs⟩)).1
  · intro h
    rw [← canonicalize_singleton]
    exact spaced_canonicalize fun t ht => List.mem_singleton.1 ht ▸ h

theorem ifOk_ofInterval_iff : IfOk Valid (ofInterval tag s) ↔ s.WellFormed := by
  have hfits : Fits [s] := fits_of_length_lt (by simp)
  unfold ofInterval
  rw [ifOk_ofList_iff, spaced_canonicalize_singleton_iff]
  exact ⟨fun h => h hfits, fun h _ => h⟩

theorem ifOk_ofArray_iff {array : NullableArray IntSpan} :
    IfOk Valid (ofArray tag array) ↔ (array.rank ≤ 1 → ∀ xs, array.values? = some xs →
      Fits xs → Spaced (canonicalize xs)) := by
  unfold ofArray
  split
  · next hrank => exact iff_of_true ifOk_error fun hle => absurd hrank (Nat.not_lt.2 hle)
  · next hrank =>
    have hle : array.rank ≤ 1 := Nat.le_of_not_lt hrank
    split
    · next hnone =>
      refine iff_of_true ifOk_error fun _ xs hsome => ?_
      rw [hnone] at hsome
      cases hsome
    · next xs hsome =>
      rw [ifOk_ofList_iff, hsome]
      constructor
      · rintro h _ _ ⟨⟩
        exact h
      · intro h
        exact h hle xs rfl

/-- What a constructor makes is valid exactly if the intervals that it stores are. -/
theorem constructors_valid_iff (tag : Tag) :
    (∀ xs : List IntSpan, IfOk Valid (ofList tag xs) ↔ (Fits xs → Spaced (canonicalize xs))) ∧
    (∀ xs : List IntSpan, (∀ s ∈ xs, s.WellFormed) → IfOk Valid (ofList tag xs)) ∧
    (∀ s : IntSpan, IfOk Valid (ofInterval tag s) ↔ s.WellFormed) ∧
    (∀ array : NullableArray IntSpan, IfOk Valid (ofArray tag array) ↔
      (array.rank ≤ 1 → ∀ xs, array.values? = some xs → Fits xs → Spaced (canonicalize xs))) :=
  ⟨fun _ => ifOk_ofList_iff, fun _ h => ifOk_ofList_iff.2 fun _ => spaced_canonicalize h,
    fun _ => ifOk_ofInterval_iff, fun _ => ifOk_ofArray_iff⟩

/-- An interval without integers is merged into the one that begins where it does. -/
theorem constructors_valid_absorbed :
    ∃ m : Multirange IntSpan,
      ofList ⟨4451⟩ [between (some 5) (some 5), between (some 5) (some 8)] = .ok m ∧ Valid m := by
  have hsort : sort [between (some 5) (some 5), between (some 5) (some 8)] =
      [between (some 5) (some 5), between (some 5) (some 8)] :=
    List.mergeSort_of_pairwise (by decide)
  have hspaced : Spaced (canonicalize [between (some 5) (some 5), between (some 5) (some 8)]) := by
    rw [canonicalize, hsort]
    exact spaced_iff.2 (by decide)
  have hfits : Fits [between (some 5) (some 5), between (some 5) (some 8)] :=
    fits_of_length_lt (by decide)
  obtain ⟨m, hm⟩ := exists_ofList_eq_ok ⟨4451⟩ hfits
  exact ⟨m, hm, ((constructors_valid_iff ⟨4451⟩).1 _).2 (fun _ => hspaced) m hm⟩

/-- A reversed interval is stored and cannot be read back. Two others come between intervals that
overlap, so that these are not merged. -/
theorem constructors_not_valid :
    (∃ m : Multirange IntSpan, ofInterval ⟨4451⟩ (between (some 5) (some 3)) = .ok m ∧
      m.toList = .error (.corruptValue .payloadOutOfOrder) ∧
      (adopt m.data : Except Error (Multirange IntSpan)) =
        .error (.corruptValue .payloadOutOfOrder)) ∧
    (∃ m : Multirange IntSpan, ofList ⟨4451⟩ [between (some 0) (some 10),
        between (some 5) (some (-5)), between (some 5) (some 5), between (some 5) (some 8)] =
          .ok m ∧
      m.toList = .ok [between (some 0) (some 10), between (some 5) (some 8)] ∧
      ¬ Canonical [between (some 0) (some 10), between (some 5) (some 8)] ∧
      (adopt m.data : Except Error (Multirange IntSpan)) =
        .error (.corruptValue .notCanonical)) := by
  constructor
  · rw [ofInterval, ofList, canonicalize_singleton]
    exact ⟨_, rfl, rfl, rfl⟩
  · have hsort : sort [between (some 0) (some 10), between (some 5) (some (-5)),
        between (some 5) (some 5), between (some 5) (some 8)] =
        [between (some 0) (some 10), between (some 5) (some (-5)),
          between (some 5) (some 5), between (some 5) (some 8)] :=
      List.mergeSort_of_pairwise (by decide)
    rw [ofList, canonicalize, hsort]
    exact ⟨_, rfl, rfl, by decide, rfl⟩

end RangeUnion.Multirange
