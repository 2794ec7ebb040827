import RangeUnion.Proofs.Layout.Assembly
import RangeUnion.Proofs.Layout.Places
import RangeUnion.Proofs.Multirange.Union

/-!
# The stored value of a union

The bytes of a union follow from its tag and from the stored bytes of the intervals in its canonical
list, whatever type the intervals are of and however long they said these bytes would be
(`exists_ofList_eq_ok_of_pack`). They can be put together in one growing buffer, and every byte of
them is accounted for (`ofList_laidOut`).
-/

namespace RangeUnion

/-- The intervals of the canonical list are stored as their spans are. -/
theorem Spanned.map_pack_canonicalize {α : Type} [Interval α] [Spanned α] (xs : List α) :
    (canonicalize xs).map Interval.pack =
      (canonicalize (xs.map Spanned.span)).map Interval.pack := by
  rw [← Spanned.map_span_canonicalize, List.map_map]
  exact List.map_congr_left fun x _ => Spanned.pack_eq x

namespace Multirange

open IntSpan

variable {α β : Type} [Interval α] [Interval β] {tag : Tag}

/-- Lists of intervals of any types whose canonical lists are stored as the same bytes have the same
stored value. -/
theorem exists_ofList_eq_ok_of_pack {xs : List α} {ys : List β} {m : Multirange α}
    (h : (canonicalize ys).map Interval.pack = (canonicalize xs).map Interval.pack)
    (hm : ofList tag xs = .ok m) :
    ∃ n : Multirange β, ofList tag ys = .ok n ∧ n.data = m.data ∧ n.starts = m.starts := by
  obtain ⟨hfits, rfl⟩ := ofList_eq_ok_iff.1 hm
  have hfits' : Fits ys := by
    unfold Fits
    rw [h]
    exact hfits
  refine ⟨_, ofList_eq_ok_iff.2 ⟨hfits', rfl⟩, ?_, ?_⟩
  · rw [h]
  · rw [h]

/-- The stored value of a union has the layout that its tag and the stored bytes of its canonical
intervals demand, and is the only value that has it. It is assembled in one buffer. Intervals of
another type that are stored as the same bytes give the same value, among them those that do not say
how long they are in store. -/
theorem ofList_laidOut (tag : Tag) {xs : List IntSpan} (h : Fits xs) :
    ∃ m, ofList tag xs = .ok m ∧
      Layout.LaidOut m.data m.starts tag ((canonicalize xs).map Interval.pack) ∧
      (∀ data starts, Layout.LaidOut data starts tag ((canonicalize xs).map Interval.pack) →
        data = m.data ∧ starts = m.starts) ∧
      Layout.assemble? tag ((canonicalize xs).map Interval.pack) = some (.ok ⟨m.data, m.starts⟩) ∧
      (∀ {β : Type} [Interval β] (ys : List β),
        (canonicalize ys).map Interval.pack = (canonicalize xs).map Interval.pack →
        ∃ n : Multirange β, ofList tag ys = .ok n ∧ n.data = m.data ∧ n.starts = m.starts) ∧
      ∃ n : Multirange Metered, ofList tag (xs.map Metered.mk) = .ok n ∧
        n.data = m.data ∧ n.starts = m.starts := by
  obtain ⟨m, hm⟩ := exists_ofList_eq_ok tag h
  have hmetered : (canonicalize (xs.map Metered.mk)).map Interval.pack =
      (canonicalize xs).map Interval.pack := by
    have hspans : (xs.map Metered.mk).map Spanned.span = xs := by
      rw [List.map_map]
      exact List.map_id xs
    rw [Spanned.map_pack_canonicalize, hspans]
  obtain ⟨_, hdata⟩ := ofList_eq_ok_iff.1 hm
  have hlaidOut :
      Layout.LaidOut m.data m.starts tag ((canonicalize xs).map Interval.pack) := by
    rw [hdata]
    exact Layout.laidOut_image tag h
  refine ⟨m, hm, hlaidOut, fun data starts hother => hother.unique hlaidOut, ?_,
    fun ys hys => exists_ofList_eq_ok_of_pack hys hm, exists_ofList_eq_ok_of_pack hmetered hm⟩
  rw [Layout.assemble?_eq, build_eq_ok_iff.2 ⟨h, rfl⟩, hdata]

/-- Intervals in no order, one of them with reversed bounds and one of them empty. -/
theorem ofList_laidOut_unordered :
    ∃ (xs : List IntSpan) (m : Multirange IntSpan) (n : Multirange Metered),
      xs = [between (some 20) none, between (some 9) (some 5), .empty, between none (some 2)] ∧
      Fits xs ∧ ofList ⟨4451⟩ xs = .ok m ∧
      Layout.LaidOut m.data m.starts ⟨4451⟩ ((canonicalize xs).map Interval.pack) ∧
      ofList ⟨4451⟩ (xs.map Metered.mk) = .ok n ∧ n.data = m.data := by
  have hfits : Fits [between (some 20) none, between (some 9) (some 5), .empty,
      between none (some 2)] := fits_of_length_lt (by decide)
  obtain ⟨m, hm, hlaidOut, _, _, _, n, hn, hdata, _⟩ := ofList_laidOut ⟨4451⟩ hfits
  exact ⟨_, m, n, rfl, hfits, hm, hlaidOut, hn, hdata⟩

end Multirange

end RangeUnion
