import RangeUnion.Metered
import RangeUnion.Proofs.Span.Canonicalize
import RangeUnion.Proofs.Span.Packed

/-!
# Interval types made of intervals of integers

Metered intervals are ordered, merged and stored as the intervals of integers in them are. The
class `Spanned` says so of an interval type, and what is known of lists of intervals of integers
carries over: a list and the list of its spans have matching canonical lists
(`map_span_canonicalize`), and the canonical list of well-formed intervals reads back from its
stored bytes (`map_unpack_map_pack`).
-/

namespace RangeUnion

/-- An interval type whose intervals are handled as the intervals of integers in them. -/
class Spanned (α : Type) [Interval α] where
  span : α → IntSpan
  ofSpan : IntSpan → α
  ofSpan_span (x : α) : ofSpan (span x) = x
  span_ofSpan (s : IntSpan) : span (ofSpan s) = s
  isEmpty_eq (x : α) : Interval.isEmpty x = Interval.isEmpty (span x)
  order_eq (x y : α) : Interval.order x y = (span x).order (span y)
  touches_eq (x y : α) : Interval.touches x y = Interval.touches (span x) (span y)
  span_hull (x y : α) : span (Interval.hull x y) = (span x).hull (span y)
  pack_eq (x : α) : Interval.pack x = (span x).pack
  unpack_eq (bytes : Bytes) : Interval.unpack bytes = (IntSpan.unpack bytes).map ofSpan

instance : Spanned IntSpan where
  span := id
  ofSpan := id
  ofSpan_span _ := rfl
  span_ofSpan _ := rfl
  isEmpty_eq _ := rfl
  order_eq _ _ := rfl
  touches_eq _ _ := rfl
  span_hull _ _ := rfl
  pack_eq _ := rfl
  unpack_eq bytes := by
    show IntSpan.unpack bytes = _
    cases IntSpan.unpack bytes <;> rfl

instance : Spanned Metered where
  span := Metered.span
  ofSpan := Metered.mk
  ofSpan_span _ := rfl
  span_ofSpan _ := rfl
  isEmpty_eq _ := rfl
  order_eq _ _ := rfl
  touches_eq _ _ := rfl
  span_hull _ _ := rfl
  pack_eq _ := rfl
  unpack_eq _ := rfl

namespace Spanned

open RangeUnion.Interval

variable {α : Type} [Interval α] [Spanned α] {x : α} {xs : List α} {bytes : Bytes}

/-! ## Canonical lists -/

theorem map_span_sort (xs : List α) : (sort xs).map span = sort (xs.map span) := by
  apply List.map_mergeSort
  intro a _ b _
  rw [order_eq]
  rfl

theorem map_span_nonempty (xs : List α) : (nonempty xs).map span = nonempty (xs.map span) := by
  unfold nonempty
  rw [List.filter_map]
  congr 1
  apply List.filter_congr
  intro x _
  rw [isEmpty_eq]
  rfl

theorem map_span_mergeFrom (x : α) (xs : List α) :
    (mergeFrom x xs).map span = mergeFrom (span x) (xs.map span) := by
  induction xs generalizing x with
  | nil => rfl
  | cons y ys ih =>
    rw [List.map_cons]
    cases htouch : touches x y with
    | true =>
      rw [mergeFrom_touching htouch, mergeFrom_touching (touches_eq x y ▸ htouch), ih, span_hull]
      rfl
    | false =>
      rw [mergeFrom_apart htouch, mergeFrom_apart (touches_eq x y ▸ htouch), List.map_cons, ih]

/-- The canonical list of the spans is the list of the spans of the canonical list. -/
theorem map_span_canonicalize (xs : List α) :
    (canonicalize xs).map span = canonicalize (xs.map span) := by
  unfold canonicalize
  rw [← map_span_sort, ← map_span_nonempty]
  cases nonempty (sort xs) with
  | nil => rfl
  | cons x xs => exact map_span_mergeFrom x xs

theorem canonical_map_span : Canonical (xs.map span) ↔ Canonical xs := by
  unfold Canonical
  rw [consecutive_map, List.forall_mem_map]
  have hempty : (∀ x ∈ xs, isEmpty (span x) = false) ↔ ∀ x ∈ xs, isEmpty x = false :=
    forall₂_congr fun x _ => by rw [isEmpty_eq x]
  have hseparate : Consecutive (fun a b : α => Separate (span a) (span b)) xs ↔
      Consecutive Separate xs := by
    apply consecutive_congr
    intro a _ b _
    unfold Separate
    rw [order_eq a b, touches_eq a b]
    rfl
  rw [hempty, hseparate]

/-! ## Stored bytes -/

theorem unpack_eq_ok_iff : (unpack bytes : Except Error α) = .ok x ↔
    IntSpan.unpack bytes = .ok (span x) := by
  rw [unpack_eq, map_eq_ok_iff]
  constructor
  · rintro ⟨s, hread, rfl⟩
    rw [span_ofSpan]
    exact hread
  · intro hread
    exact ⟨span x, hread, ofSpan_span x⟩

/-- Whatever is read is well formed. -/
theorem wellFormed_of_map_unpack {payloads : List Bytes} (h : payloads.map unpack = xs.map .ok) :
    ∀ x ∈ xs, (span x).WellFormed := by
  intro x hx
  have hmem : (Except.ok x : Except Error α) ∈ payloads.map unpack := by
    rw [h]
    exact List.mem_map_of_mem hx
  obtain ⟨payload, _, hread⟩ := List.mem_map.1 hmem
  exact IntSpan.wellFormed_of_unpack (unpack_eq_ok_iff.1 hread)

theorem isCorrupt_unpack (bytes : Bytes) :
    IfError Error.IsCorrupt (unpack bytes : Except Error α) := by
  rw [unpack_eq]
  exact ifError_map (IntSpan.isCorrupt_unpack bytes)

/-- Well-formed intervals read back from their stored bytes. -/
theorem map_unpack_map_pack (h : ∀ x ∈ xs, (span x).WellFormed) :
    (xs.map pack).map unpack = (xs.map .ok : List (Except Error α)) := by
  rw [List.map_map]
  apply List.map_congr_left
  intro x hx
  show unpack (pack x) = .ok x
  rw [unpack_eq_ok_iff, pack_eq]
  exact IntSpan.unpack_pack (h x hx)

end Spanned

end RangeUnion
