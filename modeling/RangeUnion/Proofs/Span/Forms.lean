import RangeUnion.Proofs.Span.Packed
import RangeUnion.Proofs.Span.RoundTrip

/-!
# The three forms of an interval

An interval is written as a literal, as a message or in its stored form, whether or not its bounds
ascend. The literal and the message give bounds, which are read as all bounds are: reversed ones are
refused, and between equal ones there is nothing. The stored form gives an interval, so there bounds
that do not ascend are corrupt.

Every well-formed interval is read back from each of its forms, and the bytes that are read as it
are its stored bytes, up to bits that the flags byte has to spare (`forms_exact`).
-/

namespace RangeUnion.IntSpan

open Layout

variable {bytes : Bytes} {flags : UInt8} {l u : Int32}

/-! ## Writing the stored form -/

/-- Write the stored bytes of an interval at the end of `out`, one part after the other. -/
def packOnto (out : Bytes) (s : IntSpan) : Bytes :=
  s.finiteBounds.foldl (fun out v => out ++ packBound v) (out ++ [s.flags])

theorem foldl_packBound (out : Bytes) (vs : List Int32) :
    vs.foldl (fun out v => out ++ packBound v) out = out ++ vs.flatMap packBound := by
  induction vs generalizing out with
  | nil => rw [List.foldl_nil, List.flatMap_nil, List.append_nil]
  | cons v vs ih => rw [List.foldl_cons, ih, List.flatMap_cons, List.append_assoc]

/-- What was in `out` stays, and the stored bytes follow it. -/
theorem packOnto_eq (out : Bytes) (s : IntSpan) : s.packOnto out = out ++ s.pack := by
  rw [packOnto, foldl_packBound, pack, List.append_assoc, List.singleton_append]

/-! ## What each form is read as -/

/-- The literal and the message of `s` are read as `bounds` says, its stored bytes as `stored`
says. -/
structure Reads (s : IntSpan) (bounds stored : Except Error IntSpan) : Prop where
  parse_eq : parse s.toText = bounds
  receive_eq : receive s.send = bounds
  unpack_eq : unpack s.pack = stored

theorem reads_of_wellFormed {s : IntSpan} (h : s.WellFormed) : Reads s (.ok s) (.ok s) :=
  ⟨parse_toText h, receive_send h, unpack_pack h⟩

theorem not_wellFormed_of_le (h : u ≤ l) : ¬ (between (some l) (some u)).WellFormed := by
  rw [Int32.le_iff_toInt_le] at h
  rw [WellFormed, below_some_some, Int32.lt_iff_toInt_lt]
  omega

/-- Finite bounds that do not ascend are written and not read back. -/
theorem reads_of_le (h : u ≤ l) : Reads (between (some l) (some u))
    (if u < l then .error (.invalidInterval .reversed) else .ok .empty)
    (.error (.corruptValue .payloadOutOfOrder)) := by
  have hbelow : ¬ below (some l) (some u) = true := not_wellFormed_of_le h
  have hbounds : ofBounds (some l) true (some u) false =
      if u < l then .error (.invalidInterval .reversed) else .ok .empty := by
    refine (ofBounds_isSome (some l) (some u)).trans ?_
    rw [bounded, if_neg hbelow]
    simp only [reversed, decide_eq_true_eq]
  exact {
    parse_eq := (parse_toText_between _ _).trans hbounds
    receive_eq := (receive_send_between _ _).trans hbounds
    unpack_eq := by rw [unpack_pack_eq, if_neg (not_wellFormed_of_le h)] }

/-! ## What is read from stored bytes -/

/-- The bits of the flags byte that reading does not look at. Of the empty interval it looks at one
bit only. -/
def spareFlags : IntSpan → UInt8
  | .empty => ~~~Flag.isEmpty
  | .between _ _ => ignoredFlags

/-- The bits of the stored bytes that reading does not look at. -/
def spare (s : IntSpan) : Bytes := s.spareFlags :: List.replicate (s.packedSize - 1) 0

theorem or_not_isEmpty_eq_iff : flags ||| ~~~Flag.isEmpty = Flag.isEmpty ||| ~~~Flag.isEmpty ↔
    Flag.has flags Flag.isEmpty = true := by
  revert flags
  apply forall_byte
  decide +kernel

theorem unpack_eq_empty_iff : unpack bytes = .ok .empty ↔
    ∃ flags, bytes = [flags] ∧ Flag.has flags Flag.isEmpty = true := by
  cases bytes with
  | nil => simp [unpack]
  | cons flags bytes =>
    cases hempty : Flag.has flags Flag.isEmpty with
    | true =>
      rw [unpack_cons_of_isEmpty hempty]
      cases bytes <;> simp [hempty]
    | false =>
      rw [unpack_cons_eq_ok hempty]
      constructor
      · rintro ⟨l, u, _, heq, _⟩
        cases heq
      · rintro ⟨_, heq, hflags⟩
        cases heq
        rw [hempty] at hflags
        cases hflags

/-- The bytes that are read as an interval are its stored bytes, up to spare bits. -/
theorem unpack_eq_ok_iff_agree {s : IntSpan} :
    unpack bytes = .ok s ↔ s.WellFormed ∧ Agree s.spare bytes s.pack := by
  cases s with
  | empty =>
    have hspare : spare .empty = [~~~Flag.isEmpty] := rfl
    have hpack : pack .empty = [Flag.isEmpty] := rfl
    rw [unpack_eq_empty_iff, hspare, hpack, agree_cons_right]
    simp only [agree_nil_left, or_not_isEmpty_eq_iff]
    constructor
    · rintro ⟨flags, rfl, hflags⟩
      exact ⟨trivial, flags, [], rfl, hflags, rfl, trivial⟩
    · rintro ⟨_, flags, _, rfl, hflags, rfl, _⟩
      exact ⟨flags, rfl, hflags⟩
  | between l u =>
    apply unpack_eq_ok_iff
    rintro ⟨⟩

/-! ## All values of the type -/

/-- Well-formed intervals are read back from all their forms, and others from none. The stored bytes
are as many as they are said to be, and these alone, up to spare bits, are read as the interval. -/
theorem forms_exact :
    (∀ s : IntSpan, s.WellFormed → Reads s (.ok s) (.ok s)) ∧
    (∀ l u : Int32, u < l → Reads (between (some l) (some u))
      (.error (.invalidInterval .reversed)) (.error (.corruptValue .payloadOutOfOrder))) ∧
    (∀ v : Int32, Reads (between (some v) (some v))
      (.ok .empty) (.error (.corruptValue .payloadOutOfOrder))) ∧
    (∀ (s : IntSpan) (out : Bytes),
      s.packOnto out = out ++ s.pack ∧ s.pack.length = s.packedSize) ∧
    ∀ (bytes : Bytes) (s : IntSpan),
      unpack bytes = .ok s ↔ s.WellFormed ∧ Agree s.spare bytes s.pack := by
  refine ⟨fun s => reads_of_wellFormed, fun l u h => ?_, fun v => ?_, fun s out => ?_,
    fun bytes s => unpack_eq_ok_iff_agree⟩
  · have hreads := reads_of_le (Int32.le_of_lt h)
    rwa [if_pos h] at hreads
  · have hreads := reads_of_le (Int32.le_refl v)
    rwa [if_neg Int32.lt_irrefl] at hreads
  · exact ⟨packOnto_eq out s, length_pack s⟩

/-- The least integer as a bound, reversed bounds and equal ones, and the empty interval with all
spare bits set. -/
theorem forms_exact_raw :
    (between (some Int32.minValue) none).WellFormed ∧
    parse "[-2147483648,)" = .ok (between (some Int32.minValue) none) ∧
    (3 : Int32) < 5 ∧ parse "[5,3)" = .error (.invalidInterval .reversed) ∧
    receive [0x02, 0, 0, 0, 4, 0, 0, 0, 5, 0, 0, 0, 4, 0, 0, 0, 3] =
      .error (.invalidInterval .reversed) ∧
    parse "[5,5)" = .ok .empty ∧
    unpack [0x02, 5, 0, 0, 0, 5, 0, 0, 0] = .error (.corruptValue .payloadOutOfOrder) ∧
    Agree (spare .empty) [0xFF] (pack .empty) ∧ unpack [0xFF] = .ok .empty := by
  obtain ⟨hwellFormed, hreversed, hequal, _, hstored⟩ := forms_exact
  have hhalfLine : (between (some Int32.minValue) none).WellFormed := by decide
  have hlt : (3 : Int32) < 5 := by decide
  have hagree : Agree (spare .empty) [0xFF] (pack .empty) := by decide
  exact ⟨hhalfLine, (hwellFormed _ hhalfLine).parse_eq, hlt, (hreversed 5 3 hlt).parse_eq,
    (hreversed 5 3 hlt).receive_eq, (hequal 5).parse_eq, (hequal 5).unpack_eq, hagree,
    (hstored _ _).2 ⟨trivial, hagree⟩⟩

end RangeUnion.IntSpan
