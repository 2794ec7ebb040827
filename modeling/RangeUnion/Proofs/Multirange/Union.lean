import RangeUnion.Proofs.Multirange.Store
import RangeUnion.Proofs.Span.Spanned

/-!
# The union of a list of intervals

A multirange that is built from well-formed intervals holds their canonical list
(`toList_of_ofList`), so it denotes the union of what they denote. Since that set determines the
canonical list, and the stored value is determined by the list and determines it, the stored
values of two unions are equal exactly if the unions are (`ofList_denotes`). All this holds while
the words of the stored value can hold its lengths, and so for any list of fewer than `2 ^ 28 - 1`
intervals (`fits_of_length_lt`).
-/

namespace RangeUnion.Multirange

open IntSpan

variable {α : Type} [Interval α] [Spanned α] {tag : Tag} {xs : List α} {m n : Multirange α}

/-- The canonical list of well-formed intervals is well formed. -/
theorem wellFormed_canonicalize (h : ∀ x ∈ xs, (Spanned.span x).WellFormed) :
    ∀ x ∈ canonicalize xs, (Spanned.span x).WellFormed := by
  intro x hx
  have hspaced : Spaced (canonicalize (xs.map Spanned.span)) :=
    spaced_canonicalize (List.forall_mem_map.2 h)
  rw [← Spanned.map_span_canonicalize] at hspaced
  exact (hspaced.1 _ (List.mem_map_of_mem hx)).1

/-- What is built holds the canonical list. -/
theorem toList_of_ofList (h : ∀ x ∈ xs, (Spanned.span x).WellFormed) (hm : ofList tag xs = .ok m) :
    m.toList = .ok (canonicalize xs) := by
  rw [toList_eq_ok_iff, items_of_ofList hm]
  exact Spanned.map_unpack_map_pack (wellFormed_canonicalize h)

/-- What is built from lists of well-formed intervals has the same bytes if and only if the
canonical lists agree. -/
theorem data_eq_iff_of_ofList {ys : List α} (hx : ∀ x ∈ xs, (Spanned.span x).WellFormed)
    (hy : ∀ y ∈ ys, (Spanned.span y).WellFormed) (hm : ofList tag xs = .ok m)
    (hn : ofList tag ys = .ok n) : m.data = n.data ↔ canonicalize xs = canonicalize ys := by
  constructor
  · intro h
    have hstored := (stored_of_ofList hm).1
    rw [h] at hstored
    have hpack := (hstored.unique (stored_of_ofList hn).1).2
    have hread := congrArg (List.map (Interval.unpack : Bytes → Except Error α)) hpack
    rw [Spanned.map_unpack_map_pack (wellFormed_canonicalize hx),
      Spanned.map_unpack_map_pack (wellFormed_canonicalize hy)] at hread
    exact (List.map_inj_right fun _ _ heq => Except.ok.inj heq).1 hread
  · intro h
    obtain ⟨_, rfl⟩ := ofList_eq_ok_iff.1 hm
    obtain ⟨_, rfl⟩ := ofList_eq_ok_iff.1 hn
    rw [h]

/-! ## The size of a union -/

omit [Spanned α] in
theorem length_mergeFrom_le (x : α) (xs : List α) : (mergeFrom x xs).length ≤ xs.length + 1 := by
  induction xs generalizing x with
  | nil => exact Nat.le_refl 1
  | cons y ys ih =>
    unfold mergeFrom
    split
    · exact Nat.le_succ_of_le (ih (Interval.hull x y))
    · exact Nat.succ_le_succ (ih y)

omit [Spanned α] in
/-- Canonicalization never adds intervals. -/
theorem length_canonicalize_le (xs : List α) : (canonicalize xs).length ≤ xs.length := by
  have hfilter : (nonempty (sort xs)).length ≤ xs.length :=
    (List.length_filter_le _ _).trans_eq (sort_perm xs).length_eq
  unfold canonicalize
  cases hsort : nonempty (sort xs) with
  | nil => exact Nat.zero_le _
  | cons y ys =>
    rw [hsort] at hfilter
    exact (length_mergeFrom_le y ys).trans hfilter

theorem length_slot_pack_le (s : IntSpan) : (Layout.slot s.pack).length ≤ 16 := by
  have hbounds : s.finiteBounds.length ≤ 2 := by
    simp only [finiteBounds, List.length_append]
    cases s.lower <;> cases s.upper <;> simp
  rw [Layout.length_slot, length_pack, packedSize, Layout.slotHeaderSize, Layout.align_eq]
  omega

theorem imageSize_map_pack_le (ss : List IntSpan) :
    Layout.imageSize (ss.map IntSpan.pack) ≤ 16 * (ss.length + 1) := by
  have hslots : (Layout.slots (ss.map IntSpan.pack)).length ≤ 16 * ss.length := by
    induction ss with
    | nil => exact Nat.le_refl 0
    | cons s ss ih =>
      have hslot := length_slot_pack_le s
      show (Layout.slot s.pack ++ Layout.slots (ss.map IntSpan.pack)).length ≤ _
      rw [List.length_append, List.length_cons]
      omega
  unfold Layout.imageSize
  rw [Layout.firstStart_eq]
  omega

/-- The words of a stored value can hold the lengths of any list that is not too long. -/
theorem fits_of_length_lt {ss : List IntSpan} (h : ss.length < 2 ^ 28 - 1) : Fits ss := by
  have hlength := length_canonicalize_le ss
  have hsize := imageSize_map_pack_le (canonicalize ss)
  show Layout.imageSize ((canonicalize ss).map IntSpan.pack) < 2 ^ 32
  omega

/-! ## Denotation -/

/-- Building a multirange from well-formed intervals succeeds as long as its words can hold its
lengths. The intervals that it holds denote the union, and the union determines the bytes. -/
theorem ofList_denotes (tag : Tag) :
    (∀ xs : List IntSpan, (∀ s ∈ xs, s.WellFormed) → Fits xs →
      ∃ m ys, ofList tag xs = .ok m ∧ m.toList = .ok ys ∧ points ys = points xs) ∧
    (∀ xs ys : List IntSpan, (∀ s ∈ xs, s.WellFormed) → (∀ s ∈ ys, s.WellFormed) →
      Fits xs → Fits ys → ∃ m n, ofList tag xs = .ok m ∧ ofList tag ys = .ok n ∧
        (m.data = n.data ↔ points xs = points ys)) := by
  constructor
  · intro xs hxs hfits
    obtain ⟨m, hm⟩ := exists_ofList_eq_ok tag hfits
    exact ⟨m, canonicalize xs, hm, toList_of_ofList hxs hm, points_canonicalize hxs⟩
  · intro xs ys hxs hys hfitsX hfitsY
    obtain ⟨m, hm⟩ := exists_ofList_eq_ok tag hfitsX
    obtain ⟨n, hn⟩ := exists_ofList_eq_ok tag hfitsY
    refine ⟨m, n, hm, hn, ?_⟩
    rw [data_eq_iff_of_ofList hxs hys hm hn]
    exact canonicalize_eq_iff hxs hys

/-- Two different lists with the same union have the same stored value. -/
theorem ofList_denotes_merged :
    ∃ xs ys : List IntSpan,
      xs = [between (some 3) (some 5), .empty, between none (some 3), between (some 1) (some 4)] ∧
      ys = [between none (some 5)] ∧
      (∀ s ∈ xs, s.WellFormed) ∧ (∀ s ∈ ys, s.WellFormed) ∧ Fits xs ∧ Fits ys ∧
      (∃ m zs, ofList ⟨4451⟩ xs = .ok m ∧ m.toList = .ok zs ∧ points zs = points xs) ∧
      ∃ m n, ofList ⟨4451⟩ xs = .ok m ∧ ofList ⟨4451⟩ ys = .ok n ∧
        (m.data = n.data ↔ points xs = points ys) := by
  have hx : Fits [between (some 3) (some 5), .empty, between none (some 3),
      between (some 1) (some 4)] := fits_of_length_lt (by decide)
  have hy : Fits [between none (some 5)] := fits_of_length_lt (by decide)
  exact ⟨_, _, rfl, rfl, by decide, by decide, hx, hy,
    (ofList_denotes _).1 _ (by decide) hx,
    (ofList_denotes _).2 _ _ (by decide) (by decide) hx hy⟩

end RangeUnion.Multirange
