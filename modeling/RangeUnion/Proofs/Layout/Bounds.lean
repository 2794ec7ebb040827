import RangeUnion.Proofs.Layout.Frame

/-!
# Walking within bounds

The walk takes bytes out of a list, where a place past the end gives no bytes and a difference
below zero is zero. An address space is less lenient. Here every access asks whether the bytes are
there, every difference whether it is one, and every sum whether it still is an address; an answer
of `none` is a violation of one of these. The walk commits none (`walk?_eq`), unless the value
ends before the padding of its header or of its last slot does (`CutShort`). Nor does the reading
of the slots of a stored value (`mapM_payload?`).
-/

namespace RangeUnion.Layout

/-! ## Accesses -/

/-- One more than the greatest address. -/
def addressLimit : Nat := UInt64.size

/-- `n`, if it is an address. -/
def address? (n : Nat) : Option Nat := if n < addressLimit then some n else none

/-- The difference of `a` and `b`, if it is not negative. -/
def difference? (a b : Nat) : Option Nat := if b ≤ a then some (a - b) else none

/-- The bytes from `start` to `stop`, if they are all there. -/
def slice? (data : Bytes) (start stop : Nat) : Option Bytes :=
  if start ≤ stop ∧ stop ≤ data.length then some ((data.drop start).take (stop - start)) else none

/-- The word that begins at `start`, if its bytes are all there. -/
def wordAt? (data : Bytes) (start : Nat) : Option UInt32 := do
  let stop ← address? (start + slotHeaderSize)
  let (w, _) ← (slice? data start stop).bind Word.readLE?
  return w

/-! ## The walk and the reading of a slot -/

/-- `walkSlots` with checked accesses. -/
def walkSlots? (data : Bytes) :
    (count index offset : Nat) → Option (Except Error (List Nat × Nat))
  | 0, _, offset => some (.ok ([], offset))
  | count + 1, index, offset => do
    let stop ← address? (offset + slotHeaderSize)
    match (slice? data offset stop).bind Word.readLE? with
    | none => return .error (.corruptValue (.slotPastEnd index))
    | some (length, _) =>
      let room ← difference? data.length offset
      if length.toNat < slotHeaderSize ∨ room < length.toNat then
        return .error (.corruptValue (.slotLength index length.toNat))
      else
        let next ← address? (offset + align length.toNat)
        let found ← walkSlots? data count (index + 1) next
        return found.map fun (starts, stop) => (offset :: starts, stop)

/-- `walk` with checked accesses. -/
def walk? (data : Bytes) : Option (Except Error (Tag × List Nat)) :=
  if data.length < headerSize then
    some (.error (.corruptValue (.headerTruncated data.length)))
  else do
    let head ← slice? data 0 headerSize
    let header ← readHeader? head
    if header.size.toNat ≠ data.length then
      return .error (.corruptValue (.lengthMismatch header.size.toNat data.length))
    else
      match ← walkSlots? data header.count.toNat 0 firstStart with
      | .error e => return .error e
      | .ok (starts, stop) =>
        if stop ≠ data.length then do
          let unused ← difference? data.length stop
          return .error (.corruptValue (.unusedBytes unused))
        else return .ok (header.tag, starts)

/-- `payload` with checked accesses. -/
def payload? (data : Bytes) (start : Nat) : Option Bytes := do
  let length ← wordAt? data start
  let stop ← address? (start + length.toNat)
  slice? data (start + slotHeaderSize) stop

/-- Where the last slot of `data` ends with its padding, if `data` has the length that it declares
and all its slots are there. -/
def stop? (data : Bytes) : Option Nat := do
  let header ← readHeader? data
  if header.size.toNat = data.length then
    (walkSlots data header.count.toNat 0 firstStart).toOption.map Prod.snd
  else none

/-- `data` ends before the padding of its header or of its last slot does. -/
def CutShort (data : Bytes) : Prop := ∃ stop ∈ stop? data, data.length < stop

instance (data : Bytes) : Decidable (CutShort data) :=
  inferInstanceAs (Decidable (∃ stop ∈ stop? data, data.length < stop))

variable {data bytes rest : Bytes} {payloads : List Bytes} {tag : Tag}

/-! ## No violation -/

theorem address?_eq {n : Nat} (h : n < addressLimit) : address? n = some n := if_pos h

theorem difference?_eq {a b : Nat} (h : b ≤ a) : difference? a b = some (a - b) := if_pos h

theorem slice?_eq {start stop : Nat} (hstart : start ≤ stop) (hstop : stop ≤ data.length) :
    slice? data start stop = some ((data.drop start).take (stop - start)) :=
  if_pos ⟨hstart, hstop⟩

/-- The word at `start` is what `readLE?` finds there. -/
theorem slice?_bind_readLE? (start : Nat) :
    (slice? data start (start + slotHeaderSize)).bind Word.readLE? =
      (Word.readLE? (data.drop start)).map fun read => (read.1, []) := by
  cases hread : Word.readLE? (data.drop start) with
  | none =>
    have hshort := Word.readLE?_eq_none_iff.1 hread
    rw [List.length_drop] at hshort
    have hslice : slice? data start (start + slotHeaderSize) = none := by
      apply if_neg
      unfold slotHeaderSize
      omega
    rw [hslice]
    rfl
  | some read =>
    have hbytes := Word.eq_append_of_readLE? hread
    have hlength := congrArg List.length hbytes
    simp only [List.length_drop, List.length_append, Word.length_littleEndian] at hlength
    have htake : (Word.littleEndian read.1 ++ read.2).take slotHeaderSize =
        Word.littleEndian read.1 ++ [] := by
      rw [List.append_nil]
      exact List.take_left' rfl
    rw [slice?_eq (Nat.le_add_right _ _) (by simp only [slotHeaderSize]; omega), hbytes,
      Nat.add_sub_cancel_left, htake, Option.bind_some, Word.readLE?_append]
    rfl

/-- The word that stands at `start` is read there. -/
theorem wordAt?_eq {start : Nat} {w : UInt32} (hstart : start + slotHeaderSize < addressLimit)
    (h : data.drop start = Word.littleEndian w ++ rest) : wordAt? data start = some w := by
  unfold wordAt?
  rw [address?_eq hstart, Option.bind_eq_bind, Option.bind_some, slice?_bind_readLE?, h,
    Word.readLE?_append]
  rfl

/-- The walk over the slots stays within bounds. What carries the induction is that no slot begins
more than a padding behind the end. -/
theorem walkSlots?_eq (hdata : data.length < wordLimit) {count index offset : Nat}
    (hoffset : offset < data.length + alignment) :
    walkSlots? data count index offset = some (walkSlots data count index offset) := by
  have hlimit : data.length + 2 * alignment < addressLimit := by
    have hword : wordLimit + 2 * alignment < addressLimit := by decide
    omega
  induction count generalizing index offset with
  | zero => rfl
  | succ count ih =>
    have hstop : offset + slotHeaderSize < addressLimit := by
      unfold slotHeaderSize alignment at *
      omega
    unfold walkSlots? walkSlots
    rw [address?_eq hstop]
    simp only [Option.bind_eq_bind, Option.bind_some, slice?_bind_readLE?]
    cases hread : Word.readLE? (data.drop offset) with
    | none => rfl
    | some read =>
      have hfits := congrArg List.length (Word.eq_append_of_readLE? hread)
      simp only [List.length_drop, List.length_append, Word.length_littleEndian] at hfits
      have hroom : offset ≤ data.length := by omega
      simp only [Option.map_some, difference?_eq hroom, Option.bind_some]
      by_cases hlength : read.1.toNat < slotHeaderSize ∨ data.length - offset < read.1.toNat
      · rw [if_pos hlength, if_pos hlength]
        rfl
      · rw [if_neg hlength, if_neg hlength]
        have hnext : offset + align read.1.toNat < data.length + alignment := by
          have hlt := align_lt read.1.toNat
          unfold alignment
          omega
        rw [address?_eq (by omega), Option.bind_some, ih hnext, Option.bind_some]
        cases walkSlots data count (index + 1) (offset + align read.1.toNat) <;> rfl

theorem exists_readLE? (h : 4 ≤ data.length) :
    ∃ w rest, Word.readLE? data = some (w, rest) ∧ data.length = rest.length + 4 := by
  cases hread : Word.readLE? data with
  | none => exact absurd (Word.readLE?_eq_none_iff.1 hread) (Nat.not_lt.2 h)
  | some read =>
    refine ⟨read.1, read.2, rfl, ?_⟩
    rw [Word.eq_append_of_readLE? hread, List.length_append, Word.length_littleEndian,
      Nat.add_comm]

/-- A header is there if its bytes are, and nothing behind them matters. -/
theorem exists_readHeader? (h : headerSize ≤ data.length) :
    ∃ header, readHeader? data = some header ∧
      readHeader? (data.take headerSize) = some header := by
  unfold headerSize at h
  obtain ⟨size, data₁, hsize, hlength₁⟩ := @exists_readLE? data (by omega)
  obtain ⟨code, data₂, hcode, hlength₂⟩ := @exists_readLE? data₁ (by omega)
  obtain ⟨count, data₃, hcount, _⟩ := @exists_readLE? data₂ (by omega)
  have hdata : data = Word.littleEndian size ++ (Word.littleEndian code ++
      (Word.littleEndian count ++ data₃)) := by
    rw [← Word.eq_append_of_readLE? hcount, ← Word.eq_append_of_readLE? hcode,
      ← Word.eq_append_of_readLE? hsize]
  refine ⟨⟨size, ⟨code⟩, count⟩, readHeader?_eq_some.2 ⟨data₃, hdata⟩,
    readHeader?_eq_some.2 ⟨[], ?_⟩⟩
  rw [hdata]
  rfl

theorem readHeader?_eq_none (h : data.length < headerSize) : readHeader? data = none := by
  cases hread : readHeader? data with
  | none => rfl
  | some header =>
    obtain ⟨rest, hdata⟩ := readHeader?_eq_some.1 hread
    have hlength := congrArg List.length hdata
    simp only [List.length_append, Word.length_littleEndian, headerSize] at hlength h
    omega

theorem stop?_eq {header : Header} {starts : List Nat} {stop : Nat}
    (hread : readHeader? data = some header) (hsize : header.size.toNat = data.length)
    (hslots : walkSlots data header.count.toNat 0 firstStart = .ok (starts, stop)) :
    stop? data = some stop := by
  unfold stop?
  rw [hread, Option.bind_eq_bind, Option.bind_some, if_pos hsize, hslots]
  rfl

/-- The walk stays within bounds, unless the value ends within the padding of its header or of
its last slot. -/
theorem walk?_eq (h : ¬ CutShort data) : walk? data = some (walk data) := by
  unfold walk? walk
  by_cases hlength : data.length < headerSize
  · rw [if_pos hlength, readHeader?_eq_none hlength]
  · obtain ⟨header, hread, htake⟩ := exists_readHeader? (Nat.le_of_not_lt hlength)
    have hhead : slice? data 0 headerSize = some (data.take headerSize) :=
      slice?_eq (Nat.zero_le _) (Nat.le_of_not_lt hlength)
    rw [if_neg hlength, hhead, hread]
    simp only [Option.bind_eq_bind, Option.bind_some, htake]
    by_cases hsize : header.size.toNat = data.length
    · rw [if_neg (not_not_intro hsize), if_neg (not_not_intro hsize)]
      have hlimit : data.length < wordLimit := hsize ▸ header.size.toNat_lt
      have hfirst : firstStart < data.length + alignment := by
        simp only [firstStart_eq, headerSize, alignment] at *
        omega
      rw [walkSlots?_eq hlimit hfirst, Option.bind_some]
      cases hslots : walkSlots data header.count.toNat 0 firstStart with
      | error e => rfl
      | ok found =>
        obtain ⟨starts, stop⟩ := found
        show (if stop ≠ data.length then _ else _) = some (if stop ≠ data.length then _ else _)
        by_cases hstop : stop = data.length
        · rw [if_neg (not_not_intro hstop), if_neg (not_not_intro hstop)]
          rfl
        · have hend : stop ≤ data.length :=
            Nat.le_of_not_lt fun hcut => h ⟨stop, stop?_eq hread hsize hslots, hcut⟩
          rw [if_pos hstop, if_pos hstop, difference?_eq hend]
          rfl
    · rw [if_pos hsize, if_pos hsize]
      rfl

/-! ## The slots of a stored value -/

/-- The length and the payload of a slot that stands at `start` are read there. -/
theorem slot_at {start : Nat} {stored : Bytes} (hdata : data.length < wordLimit)
    (h : data.drop start = word (slotHeaderSize + stored.length) ++ (stored ++ rest)) :
    (wordAt? data start).map UInt32.toNat = some (slotHeaderSize + stored.length) ∧
      start + (slotHeaderSize + stored.length) ≤ data.length ∧
      slice? data (start + slotHeaderSize) (start + (slotHeaderSize + stored.length)) =
        some stored := by
  have hlength := congrArg List.length h
  simp only [List.length_drop, List.length_append, length_word] at hlength
  have hlimit : wordLimit < addressLimit := by decide
  have hstart : start + slotHeaderSize < addressLimit := by
    unfold slotHeaderSize
    omega
  have hword : (UInt32.ofNat (slotHeaderSize + stored.length)).toNat =
      slotHeaderSize + stored.length := by
    apply toNat_ofNat_of_lt
    unfold slotHeaderSize
    omega
  have hstop : start + (slotHeaderSize + stored.length) ≤ data.length := by
    unfold slotHeaderSize
    omega
  have hdrop : data.drop (start + slotHeaderSize) = stored ++ rest := by
    rw [← List.drop_drop, h]
    exact List.drop_left' rfl
  refine ⟨?_, hstop, ?_⟩
  · rw [wordAt?_eq hstart h, Option.map_some, hword]
  · rw [slice?_eq (by omega) hstop, hdrop]
    apply congrArg some
    apply List.take_left'
    omega

theorem payload?_eq {start : Nat} {stored : Bytes} (hdata : data.length < wordLimit)
    (h : data.drop start = word (slotHeaderSize + stored.length) ++ (stored ++ rest)) :
    payload? data start = some stored := by
  have hlimit : wordLimit < addressLimit := by decide
  obtain ⟨hlength, hstop, hslice⟩ := slot_at hdata h
  obtain ⟨w, hread, hword⟩ := Option.map_eq_some_iff.1 hlength
  rw [payload?, hread, Option.bind_eq_bind, Option.bind_some, hword, address?_eq (by omega),
    Option.bind_eq_bind, Option.bind_some, hslice]

/-- Reading the slots of a stored value stays within bounds. -/
theorem mapM_payload?_startsFrom (hdata : data.length < wordLimit) {offset : Nat}
    (h : Framed payloads (data.drop offset)) :
    (startsFrom offset payloads).mapM (payload? data) = some payloads := by
  induction payloads generalizing offset with
  | nil => rfl
  | cons stored payloads ih =>
    obtain ⟨rest, hbytes, _, htail⟩ := h.exists_of_drop
    unfold startsFrom
    rw [List.mapM_cons, payload?_eq hdata hbytes, ih htail]
    rfl

theorem Stored.mapM_payload? (h : Stored data tag payloads) :
    (starts payloads).mapM (payload? data) = some payloads :=
  mapM_payload?_startsFrom h.length_lt h.framed_drop

end RangeUnion.Layout
