import RangeUnion.Multirange.Basic
import RangeUnion.Proofs.Layout.Frame
import RangeUnion.Proofs.Outcome

/-!
# Stored multiranges

Storing a list of intervals succeeds if the stored value is short enough for the words in it, and
gives the image of their stored bytes (`store_eq_ok_iff`). A value is adopted if it is a stored
value whose payloads all hold intervals, which make up a canonical list (`adopt_eq_ok_iff`).
-/

namespace RangeUnion.Multirange

variable {α : Type} [Interval α] {tag : Tag} {xs : List α} {m : Multirange α} {data : Bytes}

/-- The union of `xs` takes less than the bytes that a word can count. -/
def Fits (xs : List α) : Prop :=
  Layout.imageSize ((canonicalize xs).map Interval.pack) < Layout.wordLimit

/-! ## Building -/

theorem slot_length_le_imageSize {payload : Bytes} {payloads : List Bytes}
    (h : payload ∈ payloads) : (Layout.slot payload).length ≤ Layout.imageSize payloads := by
  have hle : (Layout.slot payload).length ≤ (Layout.slots payloads).length := by
    unfold Layout.slots
    rw [List.flatMap_def]
    exact (List.sublist_flatten_of_mem (List.mem_map_of_mem h)).length_le
  exact Nat.le_trans hle (Nat.le_add_left _ _)

theorem build_eq_ok_iff {payloads : List Bytes} {image : Layout.Image} :
    Layout.build tag payloads = .ok image ↔ Layout.imageSize payloads < Layout.wordLimit ∧
      image = ⟨Layout.image tag payloads, Layout.starts payloads⟩ := by
  unfold Layout.build
  constructor
  · intro h
    split at h
    · simp at h
    · split at h
      · simp at h
      · split at h
        · simp at h
        · next hsize =>
          cases h
          exact ⟨Nat.lt_of_not_le hsize, rfl⟩
  · rintro ⟨hsize, rfl⟩
    have hcount := (Layout.framed_slots payloads).eight_mul_length_le
    have hslots : (Layout.slots payloads).length ≤ Layout.imageSize payloads := Nat.le_add_left _ _
    rw [if_neg (by omega), if_neg, if_neg (by omega)]
    rintro ⟨payload, hmem, hlarge⟩
    have hslot := slot_length_le_imageSize hmem
    have hle := Layout.le_align (Layout.slotHeaderSize + payload.length)
    rw [Layout.length_slot] at hslot
    omega

theorem store_eq_ok_iff : store tag xs = .ok m ↔
    Layout.imageSize (xs.map Interval.pack) < Layout.wordLimit ∧
      m = ⟨Layout.image tag (xs.map Interval.pack), Layout.starts (xs.map Interval.pack)⟩ := by
  unfold store
  rw [map_eq_ok_iff]
  constructor
  · rintro ⟨image, hbuild, rfl⟩
    obtain ⟨hsize, rfl⟩ := build_eq_ok_iff.1 hbuild
    exact ⟨hsize, rfl⟩
  · rintro ⟨hsize, rfl⟩
    exact ⟨_, build_eq_ok_iff.2 ⟨hsize, rfl⟩, rfl⟩

theorem ofList_eq_ok_iff : ofList tag xs = .ok m ↔ Fits xs ∧
    m = ⟨Layout.image tag ((canonicalize xs).map Interval.pack),
      Layout.starts ((canonicalize xs).map Interval.pack)⟩ := store_eq_ok_iff

theorem exists_ofList_eq_ok (tag : Tag) (h : Fits xs) : ∃ m, ofList tag xs = .ok m :=
  ⟨_, ofList_eq_ok_iff.2 ⟨h, rfl⟩⟩

/-- A union that is not built is too large for the words in its stored value. -/
theorem isCorrupt_ofList (tag : Tag) (xs : List α) : IfError Error.IsCorrupt (ofList tag xs) := by
  refine ifError_map ?_
  unfold Layout.build
  split
  · exact ifError_corruptValue _
  · split
    · exact ifError_corruptValue _
    · split
      · exact ifError_corruptValue _
      · exact ifError_ok

/-! ## Reading -/

theorem toList_eq_ok_iff : m.toList = .ok xs ↔ m.items = xs.map .ok := mapM_id_eq_ok_iff

/-- The multirange of a stored value holds what its payloads hold. -/
theorem items_of_stored {payloads : List Bytes} (h : Layout.Stored data tag payloads) :
    (⟨data, Layout.starts payloads⟩ : Multirange α).items = payloads.map Interval.unpack := by
  show ((Layout.starts payloads).map (Layout.payload data)).map Interval.unpack = _
  rw [h.map_payload_starts]

/-- What is built is a stored value. -/
theorem stored_of_ofList (h : ofList tag xs = .ok m) :
    Layout.Stored m.data tag ((canonicalize xs).map Interval.pack) ∧
      m.starts = Layout.starts ((canonicalize xs).map Interval.pack) := by
  obtain ⟨hfits, rfl⟩ := ofList_eq_ok_iff.1 h
  exact ⟨Layout.stored_image tag _ hfits, rfl⟩

theorem tag_of_ofList (h : ofList tag xs = .ok m) : m.tag = tag := (stored_of_ofList h).1.tagOf_eq

theorem walk_of_ofList (h : ofList tag xs = .ok m) : Layout.walk m.data = .ok (tag, m.starts) := by
  obtain ⟨hstored, hstarts⟩ := stored_of_ofList h
  rw [hstarts]
  exact hstored.walk_eq

/-- What is built holds what its canonical intervals are read back as. -/
theorem items_of_ofList (h : ofList tag xs = .ok m) :
    m.items = ((canonicalize xs).map Interval.pack).map Interval.unpack := by
  obtain ⟨hfits, rfl⟩ := ofList_eq_ok_iff.1 h
  exact items_of_stored (Layout.stored_image tag _ hfits)

theorem length_of_ofList (h : ofList tag xs = .ok m) : m.length = (canonicalize xs).length := by
  rw [← length_items, items_of_ofList h, List.length_map, List.length_map]

/-! ## Adopting -/

theorem adopt_eq_ok : adopt data = .ok m ↔ ∃ tag starts xs, Layout.walk data = .ok (tag, starts) ∧
    (⟨data, starts⟩ : Multirange α).toList = .ok xs ∧ Canonical xs ∧ m = ⟨data, starts⟩ := by
  unfold adopt
  simp only [bind_eq_ok_iff]
  constructor
  · rintro ⟨⟨tag, starts⟩, hwalk, xs, hread, h⟩
    split at h
    · next hcanonical =>
      cases h
      exact ⟨tag, starts, xs, hwalk, hread, hcanonical, rfl⟩
    · cases h
  · rintro ⟨tag, starts, xs, hwalk, hread, hcanonical, rfl⟩
    exact ⟨(tag, starts), hwalk, xs, hread, if_pos hcanonical⟩

/-- A value is adopted if it is stored and its payloads hold the intervals of a canonical list. -/
theorem adopt_eq_ok_iff : adopt data = .ok m ↔
    ∃ tag payloads xs, Layout.Stored data tag payloads ∧
      payloads.map Interval.unpack = xs.map .ok ∧ Canonical (xs : List α) ∧
      m = ⟨data, Layout.starts payloads⟩ := by
  rw [adopt_eq_ok]
  constructor
  · rintro ⟨tag, starts, xs, hwalk, hread, hcanonical, rfl⟩
    obtain ⟨payloads, hstored, rfl⟩ := Layout.walk_eq_ok_iff.1 hwalk
    rw [toList_eq_ok_iff, items_of_stored hstored] at hread
    exact ⟨tag, payloads, xs, hstored, hread, hcanonical, rfl⟩
  · rintro ⟨tag, payloads, xs, hstored, hread, hcanonical, rfl⟩
    refine ⟨tag, Layout.starts payloads, xs, hstored.walk_eq, ?_, hcanonical, rfl⟩
    rw [toList_eq_ok_iff, items_of_stored hstored]
    exact hread

theorem data_of_adopt (h : adopt data = .ok m) : m.data = data := by
  obtain ⟨_, _, _, _, _, _, rfl⟩ := adopt_eq_ok.1 h
  rfl

end RangeUnion.Multirange
