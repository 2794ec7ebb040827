import RangeUnion.Layout.Walk
import RangeUnion.Proofs.Outcome

/-!
# Stored values and their frames

`Stored data tag payloads` says what a stored value is, whatever its padding: a header that
declares the length of the value, its tag and the number of its slots, and behind it one slot for
each payload, up to the end of the value. A walk succeeds exactly on the stored values and then
finds the tag and the places of the slots (`walk_eq_ok_iff`), at which the payloads stand
(`map_payload_starts`). All other values are corrupt (`isCorrupt_walk`). The layout's own images
are stored values (`stored_image`).
-/

namespace RangeUnion.Layout

/-- `bytes` are slots that hold `payloads`, each with any padding behind it. -/
inductive Framed : (payloads : List Bytes) → (bytes : Bytes) → Prop where
  | nil : Framed [] []
  | cons {payload padding rest : Bytes} {payloads : List Bytes}
    (length_padding : slotHeaderSize + payload.length + padding.length =
      align (slotHeaderSize + payload.length))
    (tail : Framed payloads rest) :
    Framed (payload :: payloads)
      (word (slotHeaderSize + payload.length) ++ (payload ++ (padding ++ rest)))

/-- `data` is a stored value of type `tag` whose slots hold `payloads`, with any padding. -/
def Stored (data : Bytes) (tag : Tag) (payloads : List Bytes) : Prop :=
  ∃ padding slots, data = word data.length ++ (Word.littleEndian tag.code ++
      (word payloads.length ++ (padding ++ slots))) ∧
    padding.length = firstStart - headerSize ∧ Framed payloads slots ∧ data.length < wordLimit

variable {data bytes : Bytes} {payloads : List Bytes} {tag : Tag} {starts : List Nat}

theorem toNat_ofNat_of_lt {n : Nat} (h : n < wordLimit) : (UInt32.ofNat n).toNat = n :=
  UInt32.toNat_ofNat_of_lt' h

/-- A word is read back as the number that was written. -/
theorem readLE?_word (n : Nat) (rest : Bytes) :
    Word.readLE? (word n ++ rest) = some (UInt32.ofNat n, rest) := Word.readLE?_append _ _

/-! ## Lengths -/

theorem Framed.length_eq (h : Framed payloads bytes) : bytes.length = (slots payloads).length := by
  induction h with
  | nil => rfl
  | @cons payload padding rest payloads hpad _ ih =>
    simp only [slots, List.flatMap_cons, List.length_append, length_word, length_slot] at ih ⊢
    unfold slotHeaderSize at hpad ⊢
    omega

theorem Framed.eight_mul_length_le (h : Framed payloads bytes) :
    8 * payloads.length ≤ bytes.length := by
  induction h with
  | nil => simp
  | @cons payload padding rest payloads hpad _ ih =>
    have hmod := align_mod (slotHeaderSize + payload.length)
    have hle := le_align (slotHeaderSize + payload.length)
    simp only [List.length_cons, List.length_append, length_word, slotHeaderSize] at *
    omega

theorem Stored.length_eq (h : Stored data tag payloads) : data.length = imageSize payloads := by
  obtain ⟨padding, slots, hdata, hpad, hframed, _⟩ := h
  have hlength := congrArg List.length hdata
  simp only [List.length_append, length_word, Word.length_littleEndian] at hlength
  unfold imageSize
  rw [← hframed.length_eq, hlength, hpad, firstStart_eq, headerSize]
  omega

theorem framed_slots (payloads : List Bytes) : Framed payloads (slots payloads) := by
  induction payloads with
  | nil => exact Framed.nil
  | cons payload payloads ih =>
    have hle := le_align (slotHeaderSize + payload.length)
    have hcons := @Framed.cons payload (List.replicate (align (slotHeaderSize + payload.length) -
      (slotHeaderSize + payload.length)) 0) _ _ (by rw [List.length_replicate]; omega) ih
    simpa [slots, slot, pad, slotHeaderSize, Nat.add_comm] using hcons

/-- An image is a stored value if its words can hold its lengths. -/
theorem stored_image (tag : Tag) (payloads : List Bytes) (h : imageSize payloads < wordLimit) :
    Stored (image tag payloads) tag payloads := by
  refine ⟨List.replicate 4 0, slots payloads, ?_, rfl, framed_slots payloads, ?_⟩
  · rw [length_image]
    simp only [image, header, pad, List.append_assoc, List.length_append, length_word,
      Word.length_littleEndian]
    rfl
  · rw [length_image]
    exact h

/-! ## Walking over slots -/

theorem drop_slot {offset : Nat} {payload padding rest : Bytes}
    (h : data.drop offset =
      word (slotHeaderSize + payload.length) ++ (payload ++ (padding ++ rest)))
    (hpad : slotHeaderSize + payload.length + padding.length =
      align (slotHeaderSize + payload.length)) :
    data.drop (offset + (slot payload).length) = rest := by
  rw [← List.drop_drop, h, ← List.append_assoc, ← List.append_assoc]
  apply List.drop_left'
  rw [length_slot, ← hpad]
  simp only [List.length_append, length_word, slotHeaderSize]

/-- Where framed payloads stand, the first of them stands in a slot and the others stand behind
that slot. -/
theorem Framed.exists_of_drop {offset : Nat} {payload : Bytes}
    (h : Framed (payload :: payloads) (data.drop offset)) :
    ∃ rest, data.drop offset = word (slotHeaderSize + payload.length) ++ (payload ++ rest) ∧
      offset + (slot payload).length ≤ data.length ∧
      Framed payloads (data.drop (offset + (slot payload).length)) := by
  generalize hbytes : data.drop offset = bytes at h
  cases h with
  | @cons _ padding rest _ hpad htail =>
    have hlength := congrArg List.length hbytes
    simp only [List.length_drop, List.length_append, length_word] at hlength
    refine ⟨padding ++ rest, rfl, ?_, ?_⟩
    · rw [length_slot, ← hpad]
      unfold slotHeaderSize
      omega
    · rw [drop_slot hbytes hpad]
      exact htail

/-- What a walk over at least one slot finds. -/
theorem walkSlots_succ_eq_ok {count index offset stop : Nat} :
    walkSlots data (count + 1) index offset = .ok (starts, stop) ↔
      ∃ length rest tail, Word.readLE? (data.drop offset) = some (length, rest) ∧
        slotHeaderSize ≤ length.toNat ∧ length.toNat ≤ data.length - offset ∧
        walkSlots data count (index + 1) (offset + align length.toNat) = .ok (tail, stop) ∧
        starts = offset :: tail := by
  rw [walkSlots]
  constructor
  · intro h
    split at h
    · simp at h
    · next length rest hread =>
      split at h
      · simp at h
      · next hlength =>
        rw [not_or, Nat.not_lt, Nat.not_lt] at hlength
        obtain ⟨found, htail, heq⟩ := bind_eq_ok_iff.1 h
        cases heq
        exact ⟨length, rest, found.1, hread, hlength.1, hlength.2, htail, rfl⟩
  · rintro ⟨length, rest, tail, hread, hlow, hhigh, htail, rfl⟩
    rw [hread]
    simp only
    rw [if_neg (by omega), htail]
    rfl

/-- A walk goes over framed payloads and ends where the value ends. -/
theorem walkSlots_of_framed (hdata : data.length < wordLimit) {index offset : Nat}
    (hoffset : offset ≤ data.length) (h : Framed payloads (data.drop offset)) :
    walkSlots data payloads.length index offset =
      .ok (startsFrom offset payloads, data.length) := by
  induction payloads generalizing index offset with
  | nil =>
    generalize hbytes : data.drop offset = bytes at h
    cases h
    have hle := List.drop_eq_nil_iff.1 hbytes
    rw [show offset = data.length by omega]
    rfl
  | cons payload payloads ih =>
    obtain ⟨rest, hbytes, hstop, htail⟩ := h.exists_of_drop
    have hslot := length_slot payload
    have hle := le_align (slotHeaderSize + payload.length)
    have hword : (UInt32.ofNat (slotHeaderSize + payload.length)).toNat =
        slotHeaderSize + payload.length := toNat_ofNat_of_lt (by omega)
    rw [List.length_cons, walkSlots_succ_eq_ok]
    refine ⟨UInt32.ofNat (slotHeaderSize + payload.length), payload ++ rest,
      startsFrom (offset + (slot payload).length) payloads, ?_, ?_, ?_, ?_, rfl⟩
    · rw [hbytes]
      exact readLE?_word _ _
    · rw [hword]
      exact Nat.le_add_right _ _
    · rw [hword]
      omega
    · rw [hword, ← hslot]
      exact ih hstop htail

/-- A walk that ends where the value ends went over framed payloads. -/
theorem framed_of_walkSlots {count index offset : Nat}
    (h : walkSlots data count index offset = .ok (starts, data.length)) :
    ∃ payloads, payloads.length = count ∧ starts = startsFrom offset payloads ∧
      Framed payloads (data.drop offset) ∧ offset ≤ data.length := by
  induction count generalizing index offset starts with
  | zero =>
    cases h
    refine ⟨[], rfl, rfl, ?_, Nat.le_refl _⟩
    rw [List.drop_length]
    exact Framed.nil
  | succ count ih =>
    obtain ⟨length, rest, tail, hread, hlow, hhigh, htail, rfl⟩ := walkSlots_succ_eq_ok.1 h
    obtain ⟨payloads, hcount, htail, hframed, hstop⟩ := ih htail
    have hbytes := Word.eq_append_of_readLE? hread
    have hlength := congrArg List.length hbytes
    simp only [List.length_drop, List.length_append, Word.length_littleEndian] at hlength
    have hle := le_align length.toNat
    -- the payload, the padding behind it and the slots after that
    generalize hpayload : rest.take (length.toNat - slotHeaderSize) = payload
    generalize hpadding :
      (rest.drop (length.toNat - slotHeaderSize)).take (align length.toNat - length.toNat) = padding
    have hsize : slotHeaderSize + payload.length = length.toNat := by
      rw [← hpayload, List.length_take]
      unfold slotHeaderSize at *
      omega
    have hslots : data.drop (offset + align length.toNat) =
        (rest.drop (length.toNat - slotHeaderSize)).drop (align length.toNat - length.toNat) := by
      unfold slotHeaderSize at *
      rw [← List.drop_drop, hbytes, List.drop_drop, List.drop_append, List.drop_eq_nil_of_le]
      · rw [List.nil_append, Word.length_littleEndian]
        congr 1
        omega
      · rw [Word.length_littleEndian]
        omega
    have hrest : rest = payload ++ (padding ++ data.drop (offset + align length.toNat)) := by
      rw [hslots, ← hpayload, ← hpadding, List.take_append_drop, List.take_append_drop]
    have hword : Word.littleEndian length = word (slotHeaderSize + payload.length) := by
      rw [hsize, word, UInt32.ofNat_toNat]
    refine ⟨payload :: payloads, by rw [List.length_cons, hcount], ?_, ?_, by omega⟩
    · rw [htail, startsFrom, length_slot, hsize]
    · rw [hbytes, hword, hrest]
      refine Framed.cons ?_ hframed
      rw [hsize, ← hpadding, List.length_take, List.length_drop]
      unfold slotHeaderSize at *
      omega

/-! ## Payloads -/

theorem payload_eq {start : Nat} {stored rest : Bytes}
    (h : data.drop start = word (slotHeaderSize + stored.length) ++ (stored ++ rest))
    (hlength : slotHeaderSize + stored.length < wordLimit) : payload data start = stored := by
  unfold payload
  rw [h, readLE?_word]
  simp only
  rw [toNat_ofNat_of_lt hlength, Nat.add_sub_cancel_left, List.take_left]

theorem map_payload_startsFrom (hdata : data.length < wordLimit) {offset : Nat}
    (h : Framed payloads (data.drop offset)) :
    (startsFrom offset payloads).map (payload data) = payloads := by
  induction payloads generalizing offset with
  | nil => rfl
  | cons stored payloads ih =>
    obtain ⟨rest, hbytes, hstop, htail⟩ := h.exists_of_drop
    have hstored : payload data offset = stored := by
      have hslot := length_slot stored
      have hle := le_align (slotHeaderSize + stored.length)
      exact payload_eq hbytes (by omega)
    unfold startsFrom
    rw [List.map_cons, hstored, ih htail]

theorem Stored.framed_drop (h : Stored data tag payloads) :
    Framed payloads (data.drop firstStart) := by
  obtain ⟨padding, slots, hdata, hpad, hframed, _⟩ := h
  have hdrop : data.drop firstStart = slots := by
    rw [hdata, ← List.append_assoc, ← List.append_assoc, ← List.append_assoc]
    apply List.drop_left'
    simp only [List.length_append, Word.length_littleEndian, length_word, hpad, firstStart_eq,
      headerSize]
  rw [hdrop]
  exact hframed

theorem Stored.length_lt (h : Stored data tag payloads) : data.length < wordLimit := by
  obtain ⟨_, _, _, _, _, hlimit⟩ := h
  exact hlimit

/-- The number of payloads fits into a word. -/
theorem Stored.count_lt (h : Stored data tag payloads) : payloads.length < wordLimit := by
  have hlimit := h.length_lt
  have hcount := h.framed_drop.eight_mul_length_le
  rw [List.length_drop] at hcount
  omega

/-- The payloads of a stored value stand where the layout places them. -/
theorem Stored.map_payload_starts (h : Stored data tag payloads) :
    (Layout.starts payloads).map (payload data) = payloads :=
  map_payload_startsFrom h.length_lt h.framed_drop

/-! ## Walking over a stored value -/

theorem readHeader?_eq_some {header : Header} :
    readHeader? data = some header ↔ ∃ rest, data = Word.littleEndian header.size ++
      (Word.littleEndian header.tag.code ++ (Word.littleEndian header.count ++ rest)) := by
  constructor
  · intro h
    cases h₁ : Word.readLE? data with
    | none => simp [readHeader?, h₁] at h
    | some size =>
      cases h₂ : Word.readLE? size.2 with
      | none => simp [readHeader?, h₁, h₂] at h
      | some tag =>
        cases h₃ : Word.readLE? tag.2 with
        | none => simp [readHeader?, h₁, h₂, h₃] at h
        | some count =>
          simp only [readHeader?, h₁, h₂, h₃, Option.pure_def, Option.bind_eq_bind,
            Option.bind_some, Option.some.injEq] at h
          cases h
          refine ⟨count.2, ?_⟩
          rw [← Word.eq_append_of_readLE? h₃, ← Word.eq_append_of_readLE? h₂,
            ← Word.eq_append_of_readLE? h₁]
  · rintro ⟨rest, rfl⟩
    simp [readHeader?]

theorem Stored.readHeader?_eq (h : Stored data tag payloads) : readHeader? data =
    some ⟨UInt32.ofNat data.length, tag, UInt32.ofNat payloads.length⟩ := by
  obtain ⟨padding, slots, hdata, _⟩ := h
  exact readHeader?_eq_some.2 ⟨padding ++ slots, hdata⟩

theorem walk_eq_ok : walk data = .ok (tag, starts) ↔
    ∃ header, readHeader? data = some header ∧ header.size.toNat = data.length ∧
      header.tag = tag ∧
      walkSlots data header.count.toNat 0 firstStart = .ok (starts, data.length) := by
  unfold walk
  cases readHeader? data with
  | none => simp
  | some header =>
    simp only [Option.some.injEq, exists_eq_left']
    by_cases hsize : header.size.toNat = data.length
    · rw [if_neg (not_not_intro hsize), bind_eq_ok_iff]
      constructor
      · rintro ⟨⟨found, stop⟩, hslots, h⟩
        replace h : (if stop ≠ data.length then _ else _) = _ := h
        by_cases hstop : stop = data.length
        · rw [if_neg (not_not_intro hstop)] at h
          cases h
          exact ⟨hsize, rfl, hstop ▸ hslots⟩
        · rw [if_pos hstop] at h
          cases h
      · rintro ⟨_, rfl, hslots⟩
        exact ⟨_, hslots, if_neg (not_not_intro rfl)⟩
    · rw [if_pos hsize]
      simp [hsize]

/-- A walk succeeds exactly on the stored values. -/
theorem walk_eq_ok_iff : walk data = .ok (tag, starts) ↔
    ∃ payloads, Stored data tag payloads ∧ starts = Layout.starts payloads := by
  rw [walk_eq_ok]
  constructor
  · rintro ⟨header, hread, hsize, rfl, hslots⟩
    obtain ⟨rest, hdata⟩ := readHeader?_eq_some.1 hread
    obtain ⟨payloads, hcount, hstarts, hframed, hfirst⟩ := framed_of_walkSlots hslots
    have hlength := congrArg List.length hdata
    simp only [List.length_append, Word.length_littleEndian] at hlength
    have hdrop : data.drop firstStart = rest.drop 4 := by
      rw [hdata]
      rfl
    have hsizeWord : Word.littleEndian header.size = word data.length := by
      rw [← hsize, word, UInt32.ofNat_toNat]
    have hcountWord : Word.littleEndian header.count = word payloads.length := by
      rw [hcount, word, UInt32.ofNat_toNat]
    refine ⟨payloads, ⟨rest.take 4, rest.drop 4, ?_, ?_, ?_, ?_⟩, hstarts⟩
    · rw [← hsizeWord, ← hcountWord, List.take_append_drop]
      exact hdata
    · rw [List.length_take]
      simp only [firstStart_eq, headerSize] at *
      omega
    · rw [← hdrop]
      exact hframed
    · rw [← hsize]
      exact header.size.toNat_lt
  · rintro ⟨payloads, hstored, rfl⟩
    have hframed := hstored.framed_drop
    have hlimit := hstored.length_lt
    have hlength := hstored.length_eq
    have hcount := hframed.eight_mul_length_le
    rw [List.length_drop] at hcount
    refine ⟨_, hstored.readHeader?_eq, ?_, rfl, ?_⟩
    · exact toNat_ofNat_of_lt hlimit
    · show walkSlots data (UInt32.ofNat payloads.length).toNat 0 firstStart = _
      rw [toNat_ofNat_of_lt (by omega)]
      apply walkSlots_of_framed hlimit ?_ hframed
      rw [hlength, imageSize]
      exact Nat.le_add_right _ _

theorem Stored.walk_eq (h : Stored data tag payloads) :
    walk data = .ok (tag, Layout.starts payloads) := walk_eq_ok_iff.2 ⟨payloads, h, rfl⟩

theorem Stored.tagOf_eq (h : Stored data tag payloads) : tagOf data = tag := by
  unfold tagOf
  rw [h.readHeader?_eq]
  rfl

theorem isCorrupt_walkSlots (data : Bytes) (count index offset : Nat) :
    IfError Error.IsCorrupt (walkSlots data count index offset) := by
  induction count generalizing index offset with
  | zero => exact ifError_ok
  | succ count ih =>
    unfold walkSlots
    split
    · exact ifError_corruptValue _
    · next length rest _ =>
      split
      · exact ifError_corruptValue _
      · exact ifError_bind (ih _ _) fun _ => ifError_ok

/-- What cannot be walked over is corrupt. -/
theorem isCorrupt_walk (data : Bytes) : IfError Error.IsCorrupt (walk data) := by
  unfold walk
  split
  · exact ifError_corruptValue _
  · next header _ =>
    split
    · exact ifError_corruptValue _
    · refine ifError_bind (isCorrupt_walkSlots data _ _ _) ?_
      rintro ⟨starts, stop⟩
      show IfError _ (if stop ≠ data.length then _ else _)
      split
      · exact ifError_corruptValue _
      · exact ifError_ok

/-- A stored value has one tag and one list of payloads. -/
theorem Stored.unique {tag' : Tag} {payloads' : List Bytes} (h : Stored data tag payloads)
    (h' : Stored data tag' payloads') : tag = tag' ∧ payloads = payloads' := by
  have hwalk := h.walk_eq.symm.trans h'.walk_eq
  simp only [Except.ok.injEq, Prod.mk.injEq] at hwalk
  refine ⟨hwalk.1, ?_⟩
  rw [← h.map_payload_starts, hwalk.2, h'.map_payload_starts]

end RangeUnion.Layout
