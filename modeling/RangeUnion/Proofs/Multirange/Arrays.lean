import Mathlib.Algebra.BigOperators.Ring.List
import RangeUnion.Proofs.Multirange.Agreement

/-!
# Arrays of intervals

An array is built from its dimensions and its elements, or from its elements alone, which makes it
flat. What is to come of it is said by `Contract`: an array without elements gives the empty
multirange, one of several dimensions is refused, a null is refused, and all other arrays give the
union of their elements. The number of dimensions is looked at before the elements are, so an array
of several dimensions is refused also if it has no elements. These arrays are the only ones that the
contract does not hold of (`ofArray_contract_iff`). One of their dimensions is 0, or the product of
all wraps around to 0.
-/

namespace RangeUnion

/-- A product that does not stop the program is the product of the numbers. -/
theorem toNat_of_foldlM_stops {dims : List UInt64} {a b : UInt64}
    (h : dims.foldlM Overflow.stops.mul? a = some b) :
    b.toNat = a.toNat * (dims.map UInt64.toNat).prod := by
  induction dims generalizing a with
  | nil =>
    cases h
    simp
  | cons dim dims ih =>
    rw [List.foldlM_cons, Option.bind_eq_bind, Option.bind_eq_some_iff] at h
    obtain ⟨c, hc, hrest⟩ := h
    obtain ⟨hsmall, rfl⟩ := Overflow.stops_mul?_eq_some_iff.1 hc
    rw [ih hrest, UInt64.toNat_mul, Nat.mod_eq_of_lt hsmall, List.map_cons, List.prod_cons,
      Nat.mul_assoc]

/-- If overflowing stops the program, dimensions without a 0 have a volume. -/
theorem zero_mem_of_volume?_stops {dims : List UInt64} (h : volume? .stops dims = some 0) :
    dims = [] ∨ 0 ∈ dims := by
  cases dims with
  | nil => exact .inl rfl
  | cons dim dims =>
    have hprod : (0 : UInt64).toNat = UInt64.toNat 1 * ((dim :: dims).map UInt64.toNat).prod :=
      toNat_of_foldlM_stops h
    have hzero : ((dim :: dims).map UInt64.toNat).prod = 0 := by simpa using hprod.symm
    obtain ⟨d, hd, hd0⟩ := List.mem_map.1 (List.prod_eq_zero_iff.1 hzero)
    have hd0' : d = 0 := UInt64.toNat_inj.1 hd0
    exact .inr (hd0' ▸ hd)

namespace NullableArray

variable {α : Type} {array : NullableArray α} {overflow : Overflow} {dims : List UInt64}
  {elements : List (Option α)}

theorem ofDims?_eq_some_iff : ofDims? overflow dims elements = some array ↔
    volume? overflow dims = some (UInt64.ofNat elements.length) ∧ array.dims = dims ∧
      array.elements = elements := by
  obtain ⟨dims', elements', hvolume⟩ := array
  unfold ofDims?
  constructor
  · intro h
    split at h
    · next hdims =>
      cases h
      exact ⟨hdims, rfl, rfl⟩
    · cases h
  · rintro ⟨hdims, rfl, rfl⟩
    rw [dif_pos hdims]

theorem rank_ofOptions_le (elements : List (Option α)) : (ofOptions elements).rank ≤ 1 := by
  cases elements with
  | nil => exact Nat.zero_le 1
  | cons x elements => exact Nat.le_refl 1

theorem values?_eq_none_of_mem (h : none ∈ array.elements) : array.values? = none := by
  cases hvalues : array.values? with
  | none => rfl
  | some xs =>
    rw [values?_eq_some_iff.1 hvalues] at h
    obtain ⟨x, _, hx⟩ := List.mem_map.1 h
    cases hx

end NullableArray

namespace Multirange

open NullableArray

variable {α : Type} [Interval α] {tag : Tag} {array : NullableArray α} {xs : List α}

/-! ## What becomes of an array -/

theorem ofArray_of_lt (h : 1 < array.rank) :
    ofArray tag array = .error (.multiDimensional array.rank) := if_pos h

theorem ofArray_of_null (hrank : array.rank ≤ 1) (h : none ∈ array.elements) :
    ofArray tag array = .error .nullElement := by
  unfold ofArray
  rw [if_neg (Nat.not_lt.2 hrank), values?_eq_none_of_mem h]

theorem ofArray_of_values (hrank : array.rank ≤ 1) (h : array.elements = xs.map some) :
    ofArray tag array = ofList tag xs := by
  unfold ofArray
  rw [if_neg (Nat.not_lt.2 hrank), values?_eq_some_iff.2 h]

/-- What is to come of an array. -/
structure Contract (tag : Tag) (array : NullableArray α)
    (outcome : Except Error (Multirange α)) : Prop where
  no_elements : array.elements = [] → outcome = .ok (empty tag)
  multiDimensional : array.elements ≠ [] → 1 < array.rank →
    outcome = .error (.multiDimensional array.rank)
  null : array.elements ≠ [] → array.rank ≤ 1 → none ∈ array.elements →
    outcome = .error .nullElement
  values : array.elements ≠ [] → array.rank ≤ 1 → ∀ xs, array.elements = xs.map some →
    outcome = ofList tag xs

theorem contract_ofArray (h : array.elements = [] → array.rank ≤ 1) :
    Contract tag array (ofArray tag array) where
  no_elements hnil := by
    have hvalues : array.elements = ([] : List α).map some := hnil
    rw [ofArray_of_values (h hnil) hvalues, ofList_nil]
  multiDimensional _ := ofArray_of_lt
  null _ := ofArray_of_null
  values _ hrank _ := ofArray_of_values hrank

theorem not_contract_ofArray (hrank : 1 < array.rank) (h : array.elements = []) :
    ¬ Contract tag array (ofArray tag array) := by
  intro hcontract
  have hempty := hcontract.no_elements h
  rw [ofArray_of_lt hrank] at hempty
  cases hempty

/-- The contract holds of all arrays but those of several dimensions that have no elements, and
these are refused for their dimensions; a dimension of theirs is 0, unless products may wrap around.
So it holds of all arrays that are built from their elements alone. Flat arrays of the same elements
give the same, and succeed if the elements fit. -/
theorem ofArray_contract_iff (tag : Tag) :
    (∀ (overflow : Overflow) (dims : List UInt64) (elements : List (Option α))
      (array : NullableArray α), ofDims? overflow dims elements = some array →
      (Contract tag array (ofArray tag array) ↔ ¬ (1 < dims.length ∧ elements = [])) ∧
      (1 < dims.length → ofArray tag array = .error (.multiDimensional dims.length)) ∧
      (overflow = .stops → 1 < dims.length → elements = [] → 0 ∈ dims)) ∧
    (∀ elements : List (Option α),
      Contract tag (ofOptions elements) (ofArray tag (ofOptions elements))) ∧
    (∀ (xs : List α) (m : Multirange α), Multirange.ofList tag xs = .ok m →
      ofArray tag (ofOptions (xs.map some)) = .ok m ∧
      ofArray tag (NullableArray.ofList xs) = .ok m ∧
      ∀ (overflow : Overflow) (dims : List UInt64) (array : NullableArray α), dims.length ≤ 1 →
        ofDims? overflow dims (xs.map some) = some array → ofArray tag array = .ok m) := by
  refine ⟨?_, ?_, ?_⟩
  · intro overflow dims elements array harray
    obtain ⟨hvolume, rfl, rfl⟩ := ofDims?_eq_some_iff.1 harray
    refine ⟨⟨?_, ?_⟩, ofArray_of_lt, ?_⟩
    · rintro hcontract ⟨hrank, hnil⟩
      exact not_contract_ofArray hrank hnil hcontract
    · intro hshape
      apply contract_ofArray
      intro hnil
      by_contra hrank
      rw [not_le] at hrank
      exact hshape ⟨hrank, hnil⟩
    · rintro rfl hrank hnil
      rw [hnil] at hvolume
      refine (zero_mem_of_volume?_stops hvolume).resolve_left fun hdims => ?_
      rw [hdims] at hrank
      exact absurd hrank (by decide)
  · exact fun elements => contract_ofArray fun _ => rank_ofOptions_le elements
  · intro xs m hm
    have hflat : ofArray tag (ofOptions (xs.map some)) = .ok m :=
      (ofArray_of_values (rank_ofOptions_le _) rfl).trans hm
    refine ⟨hflat, hflat, fun overflow dims array hrank harray => ?_⟩
    obtain ⟨_, rfl, helements⟩ := ofDims?_eq_some_iff.1 harray
    exact (ofArray_of_values hrank helements).trans hm

/-- A flat array of two intervals in descending order, built in all three ways. -/
theorem ofArray_contract_flat :
    ∃ (array : NullableArray IntSpan) (m : Multirange IntSpan),
      ofDims? .stops [2] [some (.between (some 3) (some 5)), some (.between (some 1) (some 3))] =
        some array ∧
      Multirange.ofList ⟨4451⟩ [.between (some 3) (some 5), .between (some 1) (some 3)] = .ok m ∧
      Contract ⟨4451⟩ array (ofArray ⟨4451⟩ array) ∧ ofArray ⟨4451⟩ array = .ok m ∧
      ofArray ⟨4451⟩ (NullableArray.ofList [.between (some 3) (some 5),
        .between (some 1) (some 3)]) = .ok m := by
  have hfits : Fits [IntSpan.between (some 3) (some 5), .between (some 1) (some 3)] :=
    fits_of_length_lt (by decide)
  obtain ⟨m, hm⟩ := exists_ofList_eq_ok ⟨4451⟩ hfits
  obtain ⟨hdims, _, hways⟩ := ofArray_contract_iff (α := IntSpan) ⟨4451⟩
  obtain ⟨_, hlist, harray⟩ := hways _ m hm
  have hcontract := (hdims .stops [2] [some (.between (some 3) (some 5)),
    some (.between (some 1) (some 3))] _ rfl).1
  exact ⟨_, m, rfl, hm, hcontract.2 (by decide), harray .stops [2] _ (by decide) rfl, hlist⟩

/-- An array of 0 times 3 elements is refused for its dimensions. So is one of 2 ^ 63 times 2
elements, which there is if the product wraps around. -/
theorem ofArray_no_elements_refused :
    (∃ array : NullableArray IntSpan, ofDims? .wraps [0, 3] [] = some array ∧
      ofDims? .stops [0, 3] [] = some array ∧ array.elements = [] ∧
      ofArray ⟨4451⟩ array = .error (.multiDimensional 2) ∧
      ofArray ⟨4451⟩ array ≠ .ok (empty ⟨4451⟩) ∧
      ¬ Contract ⟨4451⟩ array (ofArray ⟨4451⟩ array)) ∧
    ∃ array : NullableArray IntSpan, ofDims? .wraps [0x8000000000000000, 2] [] = some array ∧
      ofArray ⟨4451⟩ array = .error (.multiDimensional 2) ∧
      ¬ Contract ⟨4451⟩ array (ofArray ⟨4451⟩ array) := by
  refine ⟨⟨⟨[0, 3], [], rfl⟩, rfl, rfl, rfl, rfl, ?_, ?_⟩,
    ⟨[0x8000000000000000, 2], [], rfl⟩, rfl, rfl, ?_⟩
  · intro h
    cases h
  · exact not_contract_ofArray (by decide) rfl
  · exact not_contract_ofArray (by decide) rfl

end Multirange

end RangeUnion
