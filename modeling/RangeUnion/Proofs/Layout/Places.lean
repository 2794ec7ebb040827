import RangeUnion.Proofs.Layout.Bounds

/-!
# What stands where in a stored value

`LaidOut` says of a stored value, byte by byte, what its tag and its payloads demand: the three
words of its header, the place of each slot, the length and the payload in it, and zeros wherever
nothing was written. The image of the payloads is laid out in this way (`laidOut_image`), and no
other value is (`LaidOut.unique`).
-/

namespace RangeUnion.Layout

/-- The bytes that slots take, each one rounded up to a multiple of eight. -/
def roundedSize : (payloads : List Bytes) → Nat
  | [] => 0
  | payload :: payloads => (4 + payload.length + 7) / 8 * 8 + roundedSize payloads

/-- `data` is the value of type `tag` whose slots begin at `starts` and hold `payloads`. -/
structure LaidOut (data : Bytes) (starts : List Nat) (tag : Tag) (payloads : List Bytes) :
    Prop where
  length_eq : data.length = 16 + roundedSize payloads
  size_eq : (wordAt? data 0).map UInt32.toNat = some data.length
  tag_eq : wordAt? data 4 = some tag.code
  count_eq : (wordAt? data 8).map UInt32.toNat = some payloads.length
  length_starts : starts.length = payloads.length
  start_eq : ∀ i < payloads.length, starts[i]? = some (16 + roundedSize (payloads.take i))
  start_mod : ∀ start ∈ starts, start % 8 = 0
  slot_eq : ∀ (i start : Nat) (payload : Bytes), starts[i]? = some start →
    payloads[i]? = some payload →
      (wordAt? data start).map UInt32.toNat = some (4 + payload.length) ∧
      slice? data (start + 4) (start + 4 + payload.length) = some payload
  zero : ∀ k < data.length, 12 ≤ k →
    (∀ (i start : Nat) (payload : Bytes), starts[i]? = some start → payloads[i]? = some payload →
      k < start ∨ start + 4 + payload.length ≤ k) → data[k]? = some 0
  walk_eq : walk data = .ok (tag, starts)

variable {payload : Bytes} {payloads : List Bytes} {tag : Tag} {offset i j : Nat}

/-! ## Places -/

theorem length_slots (payloads : List Bytes) :
    (slots payloads).length = roundedSize payloads := by
  induction payloads with
  | nil => rfl
  | cons payload payloads ih =>
    show (slot payload ++ slots payloads).length = (4 + payload.length + 7) / 8 * 8 + _
    rw [List.length_append, length_slot, ih]
    rfl

theorem imageSize_eq (payloads : List Bytes) :
    imageSize payloads = 16 + roundedSize payloads := by
  rw [imageSize, length_slots, firstStart_eq]

theorem getElem?_startsFrom (h : i < payloads.length) :
    (startsFrom offset payloads)[i]? = some (offset + roundedSize (payloads.take i)) := by
  induction payloads generalizing offset i with
  | nil => exact absurd h (Nat.not_lt_zero i)
  | cons payload payloads ih =>
    cases i with
    | zero => rfl
    | succ i =>
      have hslot : (slot payload).length = (4 + payload.length + 7) / 8 * 8 := length_slot payload
      rw [startsFrom, List.getElem?_cons_succ, ih (Nat.lt_of_succ_lt_succ h), hslot, Nat.add_assoc]
      rfl

/-- Behind the slots before it, a slot stands in front of those after it. -/
theorem drop_image (h : payloads[i]? = some payload) :
    (image tag payloads).drop (16 + roundedSize (payloads.take i)) =
      slot payload ++ slots (payloads.drop (i + 1)) := by
  obtain ⟨hi, rfl⟩ := List.getElem?_eq_some_iff.1 h
  have hsplit : slots payloads =
      slots (payloads.take i) ++ (slot payloads[i] ++ slots (payloads.drop (i + 1))) := by
    calc slots payloads = slots (payloads.take i ++ payloads[i] :: payloads.drop (i + 1)) := by
          rw [← List.drop_eq_getElem_cons hi, List.take_append_drop]
      _ = _ := by
          simp only [slots, List.flatMap_append, List.flatMap_cons]
  have hlength : (header (imageSize payloads) tag payloads.length ++
      slots (payloads.take i)).length = 16 + roundedSize (payloads.take i) := by
    rw [List.length_append, length_header, length_slots]
  rw [image, hsplit, ← List.append_assoc, ← hlength, List.drop_left]

/-! ## Zeros -/

theorem getElem?_slot_eq_zero (hwritten : 4 + payload.length ≤ j)
    (hslot : j < (slot payload).length) : (slot payload)[j]? = some 0 := by
  have hlength : (word (slotHeaderSize + payload.length) ++ payload).length ≤ j := by
    rw [List.length_append, length_word]
    exact hwritten
  unfold slot pad at hslot ⊢
  rw [List.length_append, List.length_replicate] at hslot
  rw [List.getElem?_append_right hlength, List.getElem?_replicate, if_pos (by omega)]

/-- A byte of the slots in which neither a length nor a payload was written is zero. -/
theorem getElem?_slots_eq_zero (hj : j < (slots payloads).length)
    (h : ∀ (i start : Nat) (payload : Bytes), (startsFrom offset payloads)[i]? = some start →
      payloads[i]? = some payload → offset + j < start ∨ start + 4 + payload.length ≤ offset + j) :
    (slots payloads)[j]? = some 0 := by
  induction payloads generalizing offset j with
  | nil => exact absurd hj (Nat.not_lt_zero j)
  | cons payload payloads ih =>
    have hslots : slots (payload :: payloads) = slot payload ++ slots payloads := rfl
    rw [hslots] at hj ⊢
    rcases Nat.lt_or_ge j (slot payload).length with hlt | hge
    · have hfirst := h 0 offset payload rfl rfl
      rw [List.getElem?_append_left hlt]
      exact getElem?_slot_eq_zero (by omega) hlt
    · rw [List.length_append] at hj
      rw [List.getElem?_append_right hge]
      refine @ih (offset + (slot payload).length) _ (by omega) fun i start stored hs hp => ?_
      have hlater := h (i + 1) start stored hs hp
      omega

theorem getElem?_image_eq_zero {k : Nat} (hk : k < (image tag payloads).length) (hheader : 12 ≤ k)
    (h : ∀ (i start : Nat) (payload : Bytes), (starts payloads)[i]? = some start →
      payloads[i]? = some payload → k < start ∨ start + 4 + payload.length ≤ k) :
    (image tag payloads)[k]? = some 0 := by
  unfold image at hk ⊢
  rw [List.length_append, length_header] at hk
  rcases Nat.lt_or_ge k 16 with hlt | hge
  · have hwidth : (word (imageSize payloads) ++ Word.littleEndian tag.code ++
        word payloads.length).length = 12 := rfl
    rw [List.getElem?_append_left (by rw [length_header]; exact hlt), header, pad,
      List.getElem?_append_right (by rw [hwidth]; exact hheader), hwidth, List.getElem?_replicate]
    have hroom : align 12 - 12 = 4 := rfl
    rw [hroom, if_pos (by omega)]
  · rw [List.getElem?_append_right (by rw [length_header]; exact hge), length_header]
    refine @getElem?_slots_eq_zero payloads 16 (k - 16) (by omega) ?_
    rw [Nat.add_sub_cancel' hge]
    exact h

/-! ## The whole value -/

/-- The image of payloads is laid out as they demand. -/
theorem laidOut_image (tag : Tag) (h : imageSize payloads < wordLimit) :
    LaidOut (image tag payloads) (starts payloads) tag payloads := by
  have hstored := stored_image tag payloads h
  obtain ⟨padding, rest, hdata, _⟩ := id hstored
  exact {
    length_eq := (length_image tag payloads).trans (imageSize_eq payloads)
    size_eq := by
      have hdrop : (image tag payloads).drop 0 = _ := hdata
      rw [wordAt?_eq (by decide) hdrop, Option.map_some, toNat_ofNat_of_lt hstored.length_lt]
    tag_eq := wordAt?_eq (by decide) (by rw [hdata]; rfl)
    count_eq := by
      have hdrop : (image tag payloads).drop 8 = word payloads.length ++ (padding ++ rest) := by
        rw [hdata]
        rfl
      rw [wordAt?_eq (by decide) hdrop, Option.map_some, toNat_ofNat_of_lt hstored.count_lt]
    length_starts := length_startsFrom _ payloads
    start_eq := fun i hi => getElem?_startsFrom hi
    start_mod := fun start hstart => aligned_of_mem_starts hstart
    slot_eq := by
      intro i start payload hs hp
      have hi := (List.getElem?_eq_some_iff.1 hp).1
      rw [starts, getElem?_startsFrom hi, Option.some.injEq] at hs
      have hdrop := @drop_image payload payloads tag i hp
      rw [← firstStart_eq, hs, slot, pad, List.append_assoc, List.append_assoc] at hdrop
      obtain ⟨hlength, _, hslice⟩ := slot_at hstored.length_lt hdrop
      rw [← Nat.add_assoc] at hslice
      exact ⟨hlength, hslice⟩
    zero := fun k => getElem?_image_eq_zero
    walk_eq := hstored.walk_eq }

/-! ## No other value -/

/-- A word is read where its own bytes stand. -/
theorem getElem?_of_wordAt? {data : Bytes} {start : Nat} {w : UInt32}
    (h : wordAt? data start = some w) (hj : j < 4) :
    data[start + j]? = (Word.littleEndian w)[j]? := by
  unfold wordAt? address? at h
  split at h
  · rw [Option.bind_eq_bind, Option.bind_some, slice?_bind_readLE?] at h
    cases hread : Word.readLE? (data.drop start) with
    | none =>
      rw [hread] at h
      cases h
    | some read =>
      rw [hread] at h
      cases h
      rw [← List.getElem?_drop, Word.eq_append_of_readLE? hread, List.getElem?_append_left hj]
  · cases h

theorem getElem?_of_slice? {data bytes : Bytes} {start stop : Nat}
    (h : slice? data start stop = some bytes) (hj : j < bytes.length) :
    data[start + j]? = bytes[j]? := by
  unfold slice? at h
  split at h
  · cases h
    rw [List.length_take] at hj
    rw [List.getElem?_take_of_lt (by omega), List.getElem?_drop]
  · cases h

namespace LaidOut

variable {a b : Bytes} {as bs : List Nat}

/-- Words that are read alike are made of the same bytes. -/
theorem getElem?_eq_of_wordAt? {start k n : Nat} (ha : (wordAt? a start).map UInt32.toNat = some n)
    (hb : (wordAt? b start).map UInt32.toNat = some n) (hk : start ≤ k) (hk' : k < start + 4) :
    a[k]? = b[k]? := by
  obtain ⟨v, hv, rfl⟩ := Option.map_eq_some_iff.1 ha
  obtain ⟨w, hw, heq⟩ := Option.map_eq_some_iff.1 hb
  rw [UInt32.toNat_inj.1 heq] at hw
  obtain ⟨j, rfl⟩ := Nat.exists_eq_add_of_le hk
  rw [getElem?_of_wordAt? hv (by omega), getElem?_of_wordAt? hw (by omega)]

theorem starts_unique (ha : LaidOut a as tag payloads) (hb : LaidOut b bs tag payloads) :
    as = bs := by
  apply List.ext_getElem?
  intro i
  rcases Nat.lt_or_ge i payloads.length with hlt | hge
  · rw [ha.start_eq i hlt, hb.start_eq i hlt]
  · rw [List.getElem?_eq_none (ha.length_starts ▸ hge),
      List.getElem?_eq_none (hb.length_starts ▸ hge)]

theorem getElem?_header_eq (ha : LaidOut a as tag payloads) (hb : LaidOut b bs tag payloads)
    (hlength : a.length = b.length) {k : Nat} (hk : k < 12) : a[k]? = b[k]? := by
  have hsize := ha.size_eq
  rw [hlength] at hsize
  rcases Nat.lt_or_ge k 4 with h | h
  · exact getElem?_eq_of_wordAt? hsize hb.size_eq (Nat.zero_le k) h
  · rcases Nat.lt_or_ge k 8 with h' | h'
    · refine getElem?_eq_of_wordAt? (n := tag.code.toNat) ?_ ?_ h h'
      · rw [ha.tag_eq, Option.map_some]
      · rw [hb.tag_eq, Option.map_some]
    · exact getElem?_eq_of_wordAt? ha.count_eq hb.count_eq h' hk

theorem getElem?_slot_eq (ha : LaidOut a as tag payloads) (hb : LaidOut b as tag payloads)
    {start k : Nat} (hs : as[i]? = some start) (hp : payloads[i]? = some payload)
    (hlow : start ≤ k) (hhigh : k < start + 4 + payload.length) : a[k]? = b[k]? := by
  obtain ⟨hword, hslice⟩ := ha.slot_eq i start payload hs hp
  obtain ⟨hword', hslice'⟩ := hb.slot_eq i start payload hs hp
  rcases Nat.lt_or_ge k (start + 4) with h | h
  · exact getElem?_eq_of_wordAt? hword hword' hlow h
  · obtain ⟨j, rfl⟩ := Nat.exists_eq_add_of_le h
    rw [getElem?_of_slice? hslice (by omega), getElem?_of_slice? hslice' (by omega)]

/-- The tag and the payloads leave no byte open. -/
theorem unique (ha : LaidOut a as tag payloads) (hb : LaidOut b bs tag payloads) :
    a = b ∧ as = bs := by
  obtain rfl := starts_unique ha hb
  have hlength : a.length = b.length := ha.length_eq.trans hb.length_eq.symm
  refine ⟨List.ext_getElem? fun k => ?_, rfl⟩
  rcases Nat.lt_or_ge k a.length with hk | hk
  · rcases Nat.lt_or_ge k 12 with hheader | hheader
    · exact ha.getElem?_header_eq hb hlength hheader
    · by_cases hslot : ∃ (i start : Nat) (payload : Bytes), as[i]? = some start ∧
          payloads[i]? = some payload ∧ start ≤ k ∧ k < start + 4 + payload.length
      · obtain ⟨i, start, payload, hs, hp, hlow, hhigh⟩ := hslot
        exact ha.getElem?_slot_eq hb hs hp hlow hhigh
      · have hfree (i start : Nat) (payload : Bytes) (hs : as[i]? = some start)
            (hp : payloads[i]? = some payload) : k < start ∨ start + 4 + payload.length ≤ k := by
          rcases Nat.lt_or_ge k start with hlow | hlow
          · exact .inl hlow
          · exact .inr (Nat.le_of_not_lt fun hhigh =>
              hslot ⟨i, start, payload, hs, hp, hlow, hhigh⟩)
        rw [ha.zero k hk hheader hfree, hb.zero k (hlength ▸ hk) hheader hfree]
  · rw [List.getElem?_eq_none hk, List.getElem?_eq_none (hlength ▸ hk)]

end LaidOut

end RangeUnion.Layout
