import RangeUnion.Proofs.Layout.Bounds
import RangeUnion.Proofs.Multirange.Store
import RangeUnion.Proofs.Span.Spanned

/-!
# Which bytes are adopted

Bytes are adopted if they are the stored value of a canonical list of well-formed intervals, up to
bits that no reader looks at (`Matches`). Those bits are the padding behind the header and behind
each slot, and the bits of a flags byte that say nothing. All other bytes are corrupt, and no
access goes out of bounds on the way (`adopt_exact`).
-/

namespace RangeUnion.Multirange

open IntSpan Layout

/-- The bits of a slot that no reader looks at: those of the interval, and the padding. -/
def slotSlack (s : IntSpan) : Bytes :=
  List.replicate slotHeaderSize 0 ++ (s.slack ++ List.replicate
    (align (slotHeaderSize + s.pack.length) - (slotHeaderSize + s.pack.length)) 0xFF)

/-- The bits of a stored value that no reader looks at. -/
def slack (xs : List IntSpan) : Bytes :=
  List.replicate headerSize 0 ++
    (List.replicate (firstStart - headerSize) 0xFF ++ xs.flatMap slotSlack)

variable {data bytes : Bytes} {tag : Tag} {s : IntSpan} {xs : List IntSpan}

@[simp] theorem length_slotSlack (s : IntSpan) :
    (slotSlack s).length = (slot s.pack).length := by
  have hle := le_align (slotHeaderSize + s.pack.length)
  rw [length_slot]
  simp only [slotSlack, List.length_append, List.length_replicate, IntSpan.length_slack]
  omega

theorem agree_slot_iff : Agree (slotSlack s) bytes (slot s.pack) ↔
    ∃ payload padding, bytes = word (slotHeaderSize + payload.length) ++ (payload ++ padding) ∧
      slotHeaderSize + payload.length + padding.length = align (slotHeaderSize + payload.length) ∧
      Agree s.slack payload s.pack := by
  have hle := le_align (slotHeaderSize + s.pack.length)
  have hslot : slot s.pack = word (slotHeaderSize + s.pack.length) ++ (s.pack ++ List.replicate
      (align (slotHeaderSize + s.pack.length) - (slotHeaderSize + s.pack.length)) 0) := by
    simp [slot, pad, slotHeaderSize]
  have hword : (word (slotHeaderSize + s.pack.length)).length = slotHeaderSize := length_word _
  rw [hslot, slotSlack, agree_zero_append hword]
  simp only [agree_append (length_slack s).symm, agree_free (List.length_replicate ..)]
  constructor
  · rintro ⟨_, rfl, payload, padding, rfl, hpayload, hpadding⟩
    have hlength := hpayload.length_eq
    refine ⟨payload, padding, ?_, ?_, hpayload⟩
    · rw [hlength]
    · rw [hlength, hpadding]
      omega
  · rintro ⟨payload, padding, rfl, hpadding, hpayload⟩
    have hlength := hpayload.length_eq
    rw [hlength] at hpadding ⊢
    exact ⟨_, rfl, payload, padding, rfl, hpayload, by omega⟩

/-- The slots of proper intervals, up to slack, are the slots that hold them. -/
theorem agree_slots_iff (h : ∀ s ∈ xs, s.Proper) :
    Agree (xs.flatMap slotSlack) bytes (slots (xs.map IntSpan.pack)) ↔
      ∃ payloads, Framed payloads bytes ∧
        payloads.map IntSpan.unpack = xs.map .ok := by
  induction xs generalizing bytes with
  | nil =>
    show Agree [] bytes [] ↔ _
    rw [agree_nil_left]
    constructor
    · rintro ⟨rfl, _⟩
      exact ⟨[], Framed.nil, rfl⟩
    · rintro ⟨payloads, hframed, hread⟩
      obtain rfl := List.map_eq_nil_iff.1 hread
      cases hframed
      exact ⟨rfl, rfl⟩
  | cons s xs ih =>
    have hs : s.Proper := h s List.mem_cons_self
    have hxs : ∀ t ∈ xs, t.Proper := fun t ht => h t (List.mem_cons_of_mem s ht)
    show Agree (slotSlack s ++ xs.flatMap slotSlack) bytes
      (slot s.pack ++ slots (xs.map IntSpan.pack)) ↔ _
    rw [agree_append (length_slotSlack s).symm]
    simp only [agree_slot_iff, ih hxs]
    constructor
    · rintro ⟨_, rest, rfl, ⟨payload, padding, rfl, hpadding, hagree⟩, payloads, hframed, hread⟩
      refine ⟨payload :: payloads, ?_, ?_⟩
      · rw [List.append_assoc, List.append_assoc]
        exact Framed.cons hpadding hframed
      · rw [List.map_cons, List.map_cons, hread, (unpack_eq_ok_iff hs.2).2 ⟨hs.1, hagree⟩]
    · rintro ⟨payloads, hframed, hread⟩
      cases hframed with
      | nil => simp at hread
      | @cons payload padding rest payloads hpadding hframed =>
        rw [List.map_cons, List.map_cons, List.cons.injEq] at hread
        refine ⟨word (slotHeaderSize + payload.length) ++ (payload ++ padding), rest, ?_,
          ⟨payload, padding, rfl, hpadding, ?_⟩, payloads, hframed, hread.2⟩
        · rw [List.append_assoc, List.append_assoc]
        · exact ((unpack_eq_ok_iff hs.2).1 hread.1).2

theorem agree_frame_iff : Agree (slack xs) data (image tag (xs.map IntSpan.pack)) ↔
    ∃ padding bytes, data = word (imageSize (xs.map IntSpan.pack)) ++
        (Word.littleEndian tag.code ++ (word xs.length ++ (padding ++ bytes))) ∧
      padding.length = firstStart - headerSize ∧
      Agree (xs.flatMap slotSlack) bytes (slots (xs.map IntSpan.pack)) := by
  have himage : image tag (xs.map IntSpan.pack) =
      (word (imageSize (xs.map IntSpan.pack)) ++ (Word.littleEndian tag.code ++ word xs.length)) ++
        (List.replicate (firstStart - headerSize) 0 ++ slots (xs.map IntSpan.pack)) := by
    simp only [image, header, pad, List.append_assoc, List.length_append, length_word,
      Word.length_littleEndian, List.length_map]
    rfl
  have hlength : (word (imageSize (xs.map IntSpan.pack)) ++
      (Word.littleEndian tag.code ++ word xs.length)).length = headerSize := rfl
  rw [himage, slack, agree_zero_append hlength]
  simp only [agree_append (List.length_replicate.trans List.length_replicate.symm),
    agree_free List.length_replicate]
  constructor
  · rintro ⟨_, rfl, padding, bytes, rfl, hpadding, hslots⟩
    refine ⟨padding, bytes, ?_, hpadding, hslots⟩
    simp only [List.append_assoc]
  · rintro ⟨padding, bytes, rfl, hpadding, hslots⟩
    refine ⟨padding ++ bytes, ?_, padding, bytes, rfl, hpadding, hslots⟩
    simp only [List.append_assoc]

/-- The image of proper intervals, up to slack, is a stored value that holds them. -/
theorem agree_image_iff (h : ∀ s ∈ xs, s.Proper) :
    imageSize (xs.map IntSpan.pack) < wordLimit ∧
        Agree (slack xs) data (image tag (xs.map IntSpan.pack)) ↔
      ∃ payloads, Stored data tag payloads ∧ payloads.map IntSpan.unpack = xs.map .ok := by
  have hcount {payloads : List Bytes}
      (hread : payloads.map IntSpan.unpack = xs.map .ok) : payloads.length = xs.length := by
    simpa using congrArg List.length hread
  constructor
  · rintro ⟨hlimit, hagree⟩
    have hsize : data.length = imageSize (xs.map IntSpan.pack) := by
      rw [hagree.length_eq, length_image]
    obtain ⟨padding, bytes, hdata, hpadding, hslots⟩ := agree_frame_iff.1 hagree
    obtain ⟨payloads, hframed, hread⟩ := (agree_slots_iff h).1 hslots
    refine ⟨payloads, ⟨padding, bytes, ?_, hpadding, hframed, hsize ▸ hlimit⟩, hread⟩
    rw [hsize, hcount hread]
    exact hdata
  · rintro ⟨payloads, hstored, hread⟩
    obtain ⟨padding, bytes, hdata, hpadding, hframed, hlimit⟩ := id hstored
    have hslots : Agree (xs.flatMap slotSlack) bytes (slots (xs.map IntSpan.pack)) :=
      (agree_slots_iff h).2 ⟨payloads, hframed, hread⟩
    have hsize : data.length = imageSize (xs.map IntSpan.pack) := by
      rw [hstored.length_eq, imageSize, imageSize, ← hframed.length_eq, hslots.length_eq]
    refine ⟨hsize ▸ hlimit, agree_frame_iff.2 ⟨padding, bytes, ?_, hpadding, hslots⟩⟩
    rw [← hsize, ← hcount hread]
    exact hdata

/-! ## Adopting within bounds -/

section

variable {α : Type} [Interval α]

/-- `adopt` with checked accesses. -/
def adopt? (data : Bytes) : Option (Except Error (Multirange α)) := do
  match ← walk? data with
  | .error e => return .error e
  | .ok (_, starts) =>
    let payloads ← starts.mapM (payload? data)
    return do
      let xs ← (payloads.map Interval.unpack).mapM id
      if Canonical (xs : List α) then .ok ⟨data, starts⟩
      else .error (.corruptValue .notCanonical)

/-- Adopting stays within bounds. -/
theorem adopt?_eq (h : ¬ CutShort data) :
    adopt? data = some (adopt data : Except Error (Multirange α)) := by
  unfold adopt? adopt
  rw [walk?_eq h, Option.bind_eq_bind, Option.bind_some]
  cases hwalk : walk data with
  | error e => rfl
  | ok found =>
    obtain ⟨tag, starts⟩ := found
    obtain ⟨payloads, hstored, rfl⟩ := walk_eq_ok_iff.1 hwalk
    have hitems := items_of_stored (α := α) hstored
    show ((Layout.starts payloads).mapM (payload? data)).bind _ = _
    rw [hstored.mapM_payload?, Option.bind_some, ← hitems]
    rfl

/-- Bytes that are not adopted are corrupt. -/
theorem isCorrupt_adopt [Spanned α] (data : Bytes) :
    IfError Error.IsCorrupt (adopt data : Except Error (Multirange α)) := by
  unfold adopt
  refine ifError_bind (isCorrupt_walk data) ?_
  rintro ⟨tag, starts⟩
  have hread : IfError Error.IsCorrupt (⟨data, starts⟩ : Multirange α).toList :=
    ifError_mapM_id <| List.forall_mem_map.2 fun payload _ => Spanned.isCorrupt_unpack payload
  refine ifError_bind hread fun xs => ?_
  show IfError _ (if Canonical xs then _ else _)
  split
  · exact ifError_ok
  · exact ifError_corruptValue _

end

/-! ## The stored form, exactly -/

/-- `data` is the stored value of the canonical list `xs` of well-formed intervals, none of them
empty, up to the bits that no reader looks at. -/
structure Matches (data : Bytes) (tag : Tag) (xs : List IntSpan) : Prop where
  canonical : Canonical xs
  wellFormed : ∀ s ∈ xs, s.WellFormed
  nonempty : ∀ s ∈ xs, s ≠ .empty
  agree : ∃ m, ofList tag xs = .ok m ∧ Agree (slack xs) data m.data

/-- The bytes that match a canonical list are the stored values that hold it. -/
theorem matches_iff : Matches data tag xs ↔ Canonical xs ∧
    ∃ payloads, Stored data tag payloads ∧ payloads.map IntSpan.unpack = xs.map .ok := by
  constructor
  · rintro ⟨hcanonical, hwellFormed, hnonempty, m, hm, hagree⟩
    have hspaced : Spaced xs := spaced_iff.2 ⟨hwellFormed, hcanonical⟩
    obtain ⟨hfits, rfl⟩ := ofList_eq_ok_iff.1 hm
    unfold Fits at hfits
    rw [canonicalize_of_spaced hspaced] at hfits hagree
    exact ⟨hcanonical, (agree_image_iff hspaced.1).1 ⟨hfits, hagree⟩⟩
  · rintro ⟨hcanonical, payloads, hstored, hread⟩
    have hwellFormed : ∀ s ∈ xs, s.WellFormed := Spanned.wellFormed_of_map_unpack hread
    have hspaced : Spaced xs := spaced_iff.2 ⟨hwellFormed, hcanonical⟩
    obtain ⟨hfits, hagree⟩ := (agree_image_iff hspaced.1).2 ⟨payloads, hstored, hread⟩
    refine ⟨hcanonical, hwellFormed, fun s hs => (hspaced.1 s hs).2, _,
      ofList_eq_ok_iff.2 ⟨?_, rfl⟩, ?_⟩
    · unfold Fits
      rw [canonicalize_of_spaced hspaced]
      exact hfits
    · rw [canonicalize_of_spaced hspaced]
      exact hagree

/-- Bytes that match a canonical list are adopted as its multirange. -/
theorem Matches.adopt_eq (h : Matches data tag xs) :
    ∃ m, adopt data = .ok m ∧ m.tag = tag ∧ m.toList = .ok xs ∧ m.data = data := by
  obtain ⟨hcanonical, payloads, hstored, hread⟩ := matches_iff.1 h
  refine ⟨⟨data, Layout.starts payloads⟩,
    adopt_eq_ok_iff.2 ⟨tag, payloads, xs, hstored, hread, hcanonical, rfl⟩,
    hstored.tagOf_eq, ?_, rfl⟩
  rw [toList_eq_ok_iff, items_of_stored hstored]
  exact hread

theorem exists_matches_of_adopt {m : Multirange IntSpan} (h : adopt data = .ok m) :
    ∃ tag xs, Matches data tag xs := by
  obtain ⟨tag, payloads, xs, hstored, hread, hcanonical, _⟩ := adopt_eq_ok_iff.1 h
  exact ⟨tag, xs, matches_iff.2 ⟨hcanonical, payloads, hstored, hread⟩⟩

/-- Bytes match at most one list of intervals. -/
theorem Matches.unique {tag' : Tag} {xs' : List IntSpan} (h : Matches data tag xs)
    (h' : Matches data tag' xs') : tag' = tag ∧ xs' = xs := by
  obtain ⟨m, hm, htag, hread, _⟩ := h.adopt_eq
  obtain ⟨m', hm', htag', hread', _⟩ := h'.adopt_eq
  rw [hm, Except.ok.injEq] at hm'
  subst hm'
  rw [hread, Except.ok.injEq] at hread'
  exact ⟨htag'.symm.trans htag, hread'.symm⟩

/-- Unless they are cut short, bytes are read within bounds and adopted if and only if they are
the stored value of a canonical list, up to bits that no reader looks at. There is one such list
and one tag. All other bytes are corrupt. -/
theorem adopt_exact (data : Bytes) (h : ¬ CutShort data) :
    adopt? data = some (adopt data : Except Error (Multirange IntSpan)) ∧
    ((∃ m : Multirange IntSpan, adopt data = .ok m) ↔ ∃ tag xs, Matches data tag xs) ∧
    (∀ tag xs, Matches data tag xs →
      (∃ m, adopt data = .ok m ∧ m.tag = tag ∧ m.toList = .ok xs ∧ m.data = data) ∧
      ∀ tag' xs', Matches data tag' xs' → tag' = tag ∧ xs' = xs) ∧
    ((¬ ∃ tag xs, Matches data tag xs) → ∃ cause,
      (adopt data : Except Error (Multirange IntSpan)) = .error (.corruptValue cause)) := by
  refine ⟨adopt?_eq h, ⟨?_, ?_⟩, ?_, ?_⟩
  · rintro ⟨m, hm⟩
    exact exists_matches_of_adopt hm
  · rintro ⟨tag, xs, hmatches⟩
    obtain ⟨m, hm, _⟩ := hmatches.adopt_eq
    exact ⟨m, hm⟩
  · intro tag xs hmatches
    exact ⟨hmatches.adopt_eq, fun tag' xs' h' => hmatches.unique h'⟩
  · intro hnone
    cases hadopt : (adopt data : Except Error (Multirange IntSpan)) with
    | ok m => exact absurd (exists_matches_of_adopt hadopt) hnone
    | error e =>
      obtain ⟨cause, rfl⟩ := isCorrupt_adopt data e hadopt
      exact ⟨cause, rfl⟩

/-- A stored value with other padding and other bits in its flags is adopted. -/
theorem adopt_exact_altered :
    ∃ data xs, data = [48, 0, 0, 0, 99, 17, 0, 0, 2, 0, 0, 0, 1, 2, 3, 4,
        9, 0, 0, 0, 0xEE, 3, 0, 0, 0, 5, 6, 7, 8, 9, 10, 11,
        13, 0, 0, 0, 0xA0, 5, 0, 0, 0, 7, 0, 0, 0, 9, 9, 9] ∧
      xs = [between none (some 3), between (some 5) (some 7)] ∧
      ¬ CutShort data ∧ Matches data ⟨4451⟩ xs ∧
      ∃ m, adopt data = .ok m ∧ m.tag = ⟨4451⟩ ∧ m.toList = .ok xs ∧ m.data = data := by
  refine ⟨_, _, rfl, rfl, by decide, ?_⟩
  have hspaced : Spaced [between none (some 3), between (some 5) (some 7)] :=
    spaced_iff.2 ⟨by decide, by decide⟩
  have hstored : ofList ⟨4451⟩ [between none (some 3), between (some 5) (some 7)] =
      .ok ⟨[48, 0, 0, 0, 99, 17, 0, 0, 2, 0, 0, 0, 0, 0, 0, 0,
        9, 0, 0, 0, 8, 3, 0, 0, 0, 0, 0, 0, 0, 0, 0, 0,
        13, 0, 0, 0, 2, 5, 0, 0, 0, 7, 0, 0, 0, 0, 0, 0], [16, 32]⟩ := by
    rw [ofList_eq_ok_iff, Fits, canonicalize_of_spaced hspaced]
    exact ⟨by decide, rfl⟩
  refine (and_iff_left_of_imp fun hmatches => ?_).2 ?_
  · exact ((adopt_exact _ (by decide)).2.2.1 _ _ hmatches).1
  · exact ⟨by decide, by decide, by decide, _, hstored, by decide⟩

end RangeUnion.Multirange
