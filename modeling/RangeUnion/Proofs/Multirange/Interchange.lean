import RangeUnion.Proofs.Multirange.Operators

/-!
# Data formats carry multiranges unchanged

A sequence is read with a loop: a byte is asked for, and the first one that cannot be had ends the
reading, whatever stands behind it (`gather_of_failure`). If all of them can be had, the loop has
the bytes that the sequence stands for, and goes on as if these had been handed over at once. So
both ways to carry bytes come to the same, and to what adopting them comes to (`Same`), and what is
written out in either way is read back as it was (`Survives`). Both are put together in
`interchange_faithful`.
-/

namespace RangeUnion

/-- The number is a byte. -/
def IsByte (item : Int) : Prop := 0 ≤ item ∧ item < 256

instance : DecidablePred IsByte :=
  fun item => inferInstanceAs (Decidable (0 ≤ item ∧ item < 256))

/-- The first item that is no byte. -/
def firstNonByte? (items : List Int) : Option Int := items.find? fun item => ¬ IsByte item

theorem firstNonByte?_cons_of_isByte {item : Int} (h : IsByte item) (items : List Int) :
    firstNonByte? (item :: items) = firstNonByte? items :=
  List.find?_cons_of_neg (by simpa using h)

theorem firstNonByte?_cons_of_not_isByte {item : Int} (h : ¬ IsByte item) (items : List Int) :
    firstNonByte? (item :: items) = some item :=
  List.find?_cons_of_pos (by simpa using h)

theorem exists_firstNonByte? {items : List Int} (h : ∃ item ∈ items, ¬ IsByte item) :
    ∃ item, firstNonByte? items = some item := by
  rw [← Option.isSome_iff_exists, firstNonByte?, List.find?_isSome]
  simpa using h

theorem isByte_toNat (b : UInt8) : IsByte (b.toNat : Int) :=
  ⟨Int.natCast_nonneg _, by have := b.toNat_lt; omega⟩

namespace Multirange

/-! ## Reading a sequence -/

/-- The byte that an item of a sequence stands for. -/
def byteOfItem (item : Int) : Except DecodeError UInt8 :=
  if IsByte item then .ok (UInt8.ofNat item.toNat) else .error (.notAByte item)

/-- The bytes of a sequence, added one by one to those that are taken already, until one of them
cannot be had. -/
def gather (taken : Bytes) : List (Except DecodeError UInt8) → Except DecodeError Bytes
  | [] => .ok taken
  | .ok b :: readings => gather (taken ++ [b]) readings
  | .error e :: _ => .error e

theorem gather_append (taken front : Bytes) (readings : List (Except DecodeError UInt8)) :
    gather taken (front.map .ok ++ readings) = gather (taken ++ front) readings := by
  induction front generalizing taken with
  | nil => rw [List.map_nil, List.nil_append, List.append_nil]
  | cons b front ih =>
    rw [List.map_cons, List.cons_append, gather, ih, List.append_assoc, List.singleton_append]

theorem gather_of_failure (front : Bytes) (e : DecodeError)
    (readings : List (Except DecodeError UInt8)) :
    gather [] (front.map .ok ++ .error e :: readings) = .error e := by
  rw [gather_append, gather]

theorem bytesOfItems_cons (item : Int) (items : List Int) :
    bytesOfItems (item :: items) =
      byteOfItem item >>= fun b => (bytesOfItems items).map (b :: ·) := by
  unfold byteOfItem
  by_cases hbyte : IsByte item
  · rw [if_pos hbyte]
    exact if_pos hbyte
  · rw [if_neg hbyte]
    exact if_neg hbyte

theorem gather_map (taken : Bytes) (items : List Int) :
    gather taken (items.map byteOfItem) = (bytesOfItems items).map (taken ++ ·) := by
  induction items generalizing taken with
  | nil => exact congrArg Except.ok (List.append_nil taken).symm
  | cons item items ih =>
    rw [List.map_cons, bytesOfItems_cons]
    cases byteOfItem item with
    | error e => rfl
    | ok b =>
      show gather (taken ++ [b]) (items.map byteOfItem) =
        ((bytesOfItems items).map (b :: ·)).map (taken ++ ·)
      rw [ih]
      cases bytesOfItems items with
      | error e => rfl
      | ok data => exact congrArg Except.ok (List.append_assoc taken [b] data)

theorem bytesOfItems_eq_gather (items : List Int) :
    bytesOfItems items = gather [] (items.map byteOfItem) := by
  rw [gather_map]
  cases bytesOfItems items <;> rfl

theorem byteOfItem_toNat (b : UInt8) : byteOfItem (b.toNat : Int) = .ok b := by
  rw [byteOfItem, if_pos (isByte_toNat b), Int.toNat_natCast, UInt8.ofNat_toNat]

theorem bytesOfItems_toNat (data : Bytes) :
    bytesOfItems (data.map fun b => (b.toNat : Int)) = .ok data := by
  induction data with
  | nil => rfl
  | cons b data ih =>
    rw [List.map_cons, bytesOfItems_cons, byteOfItem_toNat, ih]
    rfl

/-- Reading a sequence fails at its first item that is no byte. -/
theorem bytesOfItems_eq_error_iff {items : List Int} {e : DecodeError} :
    bytesOfItems items = .error e ↔
      ∃ item, firstNonByte? items = some item ∧ e = .notAByte item := by
  induction items with
  | nil => simp [bytesOfItems, firstNonByte?]
  | cons item items ih =>
    rw [bytesOfItems_cons, byteOfItem]
    by_cases hbyte : IsByte item
    · rw [if_pos hbyte, firstNonByte?_cons_of_isByte hbyte, ← ih]
      cases bytesOfItems items <;> simp [Except.map, bind, Except.bind]
    · rw [if_neg hbyte, firstNonByte?_cons_of_not_isByte hbyte]
      simp [eq_comm, bind, Except.bind]

/-! ## Adopting what is read -/

section

variable {α : Type} [Interval α] {m n : Multirange α} {depth : Depth}

theorem decodeItems_toNat (data : Bytes) :
    decodeItems (data.map fun b => (b.toNat : Int)) =
      (decodeBytes data : Except _ (Multirange α)) := by
  unfold decodeItems
  rw [bytesOfItems_toNat]
  rfl

/-- The outcome is what adopting `data` comes to. -/
structure Same (data : Bytes) (outcome : Except DecodeError (Multirange α)) : Prop where
  succeeds_iff : ∀ m, outcome = .ok m ↔ adopt data = .ok m
  data_eq : ∀ m, outcome = .ok m → m.data = data
  fails : ∀ e, (adopt data : Except Error (Multirange α)) = .error e →
    ∃ e', outcome = .error e' ∧ e'.message = e.message

theorem same_decodeBytes (data : Bytes) : Same (α := α) data (decodeBytes data) := by
  unfold decodeBytes
  constructor
  · intro m
    cases (adopt data : Except Error (Multirange α)) <;> simp [Except.mapError]
  · intro m h
    exact data_of_adopt (adopt_of_decodeBytes h)
  · intro e h
    rw [h]
    exact ⟨.rejected e, rfl, rfl⟩

/-- Items that are no bytes are reported before the bytes are looked at. -/
theorem decodeItems_eq_notAByte_iff {items : List Int} {item : Int} :
    (decodeItems items : Except _ (Multirange α)) = .error (.notAByte item) ↔
      firstNonByte? items = some item := by
  unfold decodeItems decodeBytes
  cases hbytes : bytesOfItems items with
  | error e =>
    obtain ⟨item', hfind, rfl⟩ := bytesOfItems_eq_error_iff.1 hbytes
    rw [hfind]
    simp [bind, Except.bind]
  | ok data =>
    have hnone : firstNonByte? items ≠ some item := by
      intro hfind
      have herror := bytesOfItems_eq_error_iff.2 ⟨item, hfind, rfl⟩
      rw [hbytes] at herror
      cases herror
    show (adopt data).mapError DecodeError.rejected = _ ↔ _
    cases (adopt data : Except Error (Multirange α)) <;> simp [Except.mapError, hnone]

/-! ## Writing out and reading back -/

theorem orderItems_self (hdecides : Interval.Decides α depth) (xs : List α) :
    orderItems depth (xs.map .ok) (xs.map .ok) = .ok .eq := by
  induction xs with
  | nil => rfl
  | cons x xs ih =>
    obtain ⟨o, ho, heq⟩ := hdecides x x
    obtain rfl := heq.2 rfl
    simp only [List.map_cons, orderItems, bind, Except.bind, ho]
    exact ih

theorem beq_self (hdecides : ∀ depth : Depth, 0 < depth.remaining → Interval.Decides α depth)
    {xs : List α} (h : m.items = xs.map .ok) : (m == m) = true := by
  have henter : Depth.initial.enter = .ok ⟨1, 100⟩ := rfl
  refine beq_eq_true_iff.2 (tryCompare_eq_ok_iff.2 ⟨_, henter, rfl, .eq, ?_, ?_⟩)
  · rw [h]
    exact orderItems_self (hdecides _ (by decide)) xs
  · exact Nat.compare_eq_eq.2 rfl

/-- `m` is written out and read back, in both ways, as it was. -/
structure Survives (m : Multirange α) : Prop where
  of_bytes : decodeBytes m.data = .ok m
  of_items : decodeItems m.encodeItems = .ok m
  equal : ∀ n : Multirange α, decodeBytes m.data = .ok n ∨ decodeItems m.encodeItems = .ok n →
    n.data = m.data ∧ (n == m) = true ∧ HashAlike n m

variable [Spanned α]

theorem Reachable.survives
    (hdecides : ∀ depth : Depth, 0 < depth.remaining → Interval.Decides α depth)
    (h : Reachable m) : Survives m := by
  have hbytes : Multirange.decodeBytes m.data = .ok m :=
    ((same_decodeBytes m.data).succeeds_iff m).2 h.adopt_eq
  have hitems : Multirange.decodeItems m.encodeItems = .ok m :=
    (decodeItems_toNat m.data).trans hbytes
  refine ⟨hbytes, hitems, ?_⟩
  intro n hn
  obtain rfl : m = n := by
    rcases hn with hn | hn
    · exact Except.ok.inj (hbytes.symm.trans hn)
    · exact Except.ok.inj (hitems.symm.trans hn)
  obtain ⟨xs, hxs⟩ := h.exists_sound
  exact ⟨rfl, beq_self hdecides hxs.items_eq, hashAlike_of_toList hxs.toList_eq hxs.toList_eq⟩

end

/-- What data formats make of bytes, of sequences and of the multiranges of an interval type. -/
structure Interchanged (α : Type) [Interval α] [Spanned α] : Prop where
  bytes : ∀ data, Same (α := α) data (decodeBytes data)
  items : ∀ data, Same (α := α) data (decodeItems (data.map fun b => (b.toNat : Int)))
  loop : ∀ items : List Int, (decodeItems items : Except _ (Multirange α)) =
    gather [] (items.map byteOfItem) >>= decodeBytes
  stops : ∀ (front : Bytes) e readings, gather [] (front.map .ok ++ .error e :: readings) = .error e
  first_failure : ∀ items : List Int, (∃ item ∈ items, ¬ IsByte item) →
    ∃ item e, firstNonByte? items = some item ∧
      (decodeItems items : Except _ (Multirange α)) = .error e ∧
      e.message = "invalid value: integer `" ++ toString item ++ "`, expected u8"
  survives : ∀ m : Multirange α, Reachable m → Survives m

theorem interchanged {α : Type} [Interval α] [Spanned α]
    (hdecides : ∀ depth : Depth, 0 < depth.remaining → Interval.Decides α depth) :
    Interchanged α where
  bytes := same_decodeBytes
  items data := by
    rw [decodeItems_toNat]
    exact same_decodeBytes data
  loop items := by
    rw [← bytesOfItems_eq_gather]
    rfl
  stops := gather_of_failure
  first_failure items h := by
    obtain ⟨item, hfind⟩ := exists_firstNonByte? h
    exact ⟨item, _, hfind, decodeItems_eq_notAByte_iff.2 hfind, rfl⟩
  survives _ := Reachable.survives hdecides

/-- Bytes, sequences of bytes and written multiranges are read as adopting reads them, and a
sequence with an item that is no byte is refused for the first such item. -/
theorem interchange_faithful : Interchanged IntSpan ∧ Interchanged Metered :=
  ⟨interchanged fun depth _ => IntSpan.decides depth, interchanged fun _ => Metered.decides⟩

/-- An adopted value with altered bits is read back with them, and of two items that are no bytes
the first one is reported. -/
theorem interchange_faithful_altered :
    (∃ m : Multirange Metered, adopt [32, 0, 0, 0, 99, 17, 0, 0, 1, 0, 0, 0, 7, 0, 0, 0,
        9, 0, 0, 0, 0xEE, 3, 0, 0, 0, 5, 6, 7, 8, 9, 10, 11] = .ok m ∧ Survives m) ∧
    (∃ e, (decodeItems [16, 300, -1, 0] : Except _ (Multirange IntSpan)) = .error e ∧
      e.message = "invalid value: integer `300`, expected u8") := by
  constructor
  · obtain ⟨m, hm⟩ : ∃ m : Multirange Metered, adopt [32, 0, 0, 0, 99, 17, 0, 0, 1, 0, 0, 0,
        7, 0, 0, 0, 9, 0, 0, 0, 0xEE, 3, 0, 0, 0, 5, 6, 7, 8, 9, 10, 11] = .ok m := ⟨_, rfl⟩
    exact ⟨m, hm, interchange_faithful.2.survives m (.adopt hm)⟩
  · obtain ⟨item, e, hfirst, herror, hmessage⟩ :=
      interchange_faithful.1.first_failure [16, 300, -1, 0] ⟨300, by decide, by decide⟩
    obtain rfl : item = 300 := Option.some.inj (hfirst.symm.trans rfl)
    exact ⟨e, herror, hmessage⟩

end Multirange

end RangeUnion
