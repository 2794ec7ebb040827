import RangeUnion.IntSpan.Packed
import RangeUnion.Proofs.Layout.Slack
import RangeUnion.Proofs.Outcome

/-!
# What reading a stored interval accepts

Of a flags byte, reading looks at three bits. So the stored forms of an interval that is not
empty are its stored bytes up to the other bits of the first one (`unpack_eq_ok_iff`), whatever
is read is well formed (`wellFormed_of_unpack`), and all else is corrupt (`isCorrupt_unpack`).
-/

namespace RangeUnion.IntSpan

open Layout

/-- The bits of the flags byte that reading does not look at unless the interval is empty. -/
def ignoredFlags : UInt8 := 0x02 ||| 0x04 ||| 0x20 ||| 0x40 ||| 0x80

/-- The bits of the stored bytes that reading does not look at. -/
def slack (s : IntSpan) : Bytes := ignoredFlags :: List.replicate (s.packedSize - 1) 0

variable {bytes rest : Bytes} {s : IntSpan} {l u : Option Int32} {flags : UInt8}

@[simp] theorem length_slack (s : IntSpan) : s.slack.length = s.pack.length := by
  rw [length_pack, slack, List.length_cons, List.length_replicate, packedSize]
  omega

/-! ## Flags -/

theorem forall_byte {p : UInt8 → Prop} (h : ∀ n : Fin 256, p ⟨⟨n⟩⟩) (b : UInt8) : p b :=
  h b.toBitVec.toFin

/-- The flags of a non-empty interval, up to the bits that are not looked at. -/
theorem or_ignoredFlags_eq_iff : flags ||| ignoredFlags = (between l u).flags ||| ignoredFlags ↔
    Flag.has flags Flag.isEmpty = false ∧ Flag.has flags Flag.lowerInfinite = l.isNone ∧
      Flag.has flags Flag.upperInfinite = u.isNone := by
  revert flags
  apply forall_byte
  cases l <;> cases u <;> simp only [IntSpan.flags, Option.isNone_none, Option.isNone_some] <;>
    decide +kernel

/-! ## Bounds -/

theorem unpackBound_eq_ok_iff {infinite : Bool} {b : Option Int32} :
    unpackBound infinite bytes = .ok (b, rest) ↔
      b.isNone = infinite ∧ bytes = b.toList.flatMap packBound ++ rest := by
  constructor
  · intro h
    unfold unpackBound at h
    split at h
    · next hinf =>
      cases h
      exact ⟨hinf.symm, rfl⟩
    · next hinf =>
      split at h
      · next w tail hread =>
        cases h
        refine ⟨(Bool.not_eq_true _ ▸ hinf).symm, ?_⟩
        rw [Word.eq_append_of_readLE? hread]
        simp [packBound]
      · cases h
  · rintro ⟨rfl, rfl⟩
    exact unpackBound_append b rest

/-! ## Intervals -/

theorem unpack_cons_of_isEmpty (h : Flag.has flags Flag.isEmpty = true) :
    unpack (flags :: bytes) =
      if bytes.isEmpty then .ok .empty else .error (.corruptValue .payloadTrailing) := by
  rw [unpack, if_pos h]

/-- Reading both bounds and then nothing more. -/
theorem unpack_cons_eq_ok (h : Flag.has flags Flag.isEmpty = false) :
    unpack (flags :: bytes) = .ok s ↔ ∃ l u tail, s = between l u ∧ below l u = true ∧
      unpackBound (Flag.has flags Flag.lowerInfinite) bytes = .ok (l, tail) ∧
      unpackBound (Flag.has flags Flag.upperInfinite) tail = .ok (u, []) := by
  rw [unpack, if_neg (by rw [h]; exact Bool.false_ne_true)]
  constructor
  · intro hread
    obtain ⟨⟨l, tail⟩, hl, hread⟩ := bind_eq_ok_iff.1 hread
    obtain ⟨⟨u, rest⟩, hu, hread⟩ := bind_eq_ok_iff.1 hread
    replace hread : (if !below l u then _ else if !rest.isEmpty then _ else _) = _ := hread
    split at hread
    · cases hread
    · next hbelow =>
      split at hread
      · cases hread
      · next hrest =>
        cases hread
        obtain rfl : rest = [] := by simpa using hrest
        exact ⟨l, u, tail, rfl, by simpa using hbelow, hl, hu⟩
  · rintro ⟨l, u, tail, rfl, hbelow, hl, hu⟩
    simp [hl, hu, bind, Except.bind, hbelow]

theorem unpack_between_iff : unpack bytes = .ok (between l u) ↔ below l u = true ∧
    ∃ flags, bytes = flags :: (between l u).finiteBounds.flatMap packBound ∧
      flags ||| ignoredFlags = (between l u).flags ||| ignoredFlags := by
  simp only [or_ignoredFlags_eq_iff]
  cases bytes with
  | nil => simp [unpack]
  | cons flags bytes =>
    cases hempty : Flag.has flags Flag.isEmpty with
    | true =>
      rw [unpack_cons_of_isEmpty hempty]
      constructor
      · intro h
        split at h <;> cases h
      · rintro ⟨_, _, heq, hflags, _⟩
        cases heq
        rw [hempty] at hflags
        cases hflags
    | false =>
      rw [unpack_cons_eq_ok hempty]
      simp only [unpackBound_eq_ok_iff]
      constructor
      · rintro ⟨_, _, tail, heq, hbelow, ⟨hl, rfl⟩, hu, rfl⟩
        cases heq
        refine ⟨hbelow, flags, ?_, hempty, hl.symm, hu.symm⟩
        simp [finiteBounds, lower, upper]
      · rintro ⟨hbelow, _, heq, _, hl, hu⟩
        cases heq
        refine ⟨l, u, u.toList.flatMap packBound, rfl, hbelow, ⟨hl.symm, ?_⟩, hu.symm, ?_⟩
        · simp [finiteBounds, lower, upper]
        · rw [List.append_nil]

/-- The stored forms of a non-empty interval are its stored bytes, up to bits that are not
looked at. -/
theorem unpack_eq_ok_iff (h : s ≠ .empty) :
    unpack bytes = .ok s ↔ s.WellFormed ∧ Agree s.slack bytes s.pack := by
  cases s with
  | empty => exact absurd rfl h
  | between l u =>
    have hlength : (between l u).packedSize - 1 =
        ((between l u).finiteBounds.flatMap packBound).length := by
      rw [← length_pack, pack, List.length_cons, Nat.add_sub_cancel]
    rw [unpack_between_iff, slack, pack, hlength, agree_cons_right]
    simp only [agree_zero]
    constructor
    · rintro ⟨hbelow, flags, rfl, hflags⟩
      exact ⟨hbelow, flags, _, rfl, hflags, rfl⟩
    · rintro ⟨hbelow, flags, _, rfl, hflags, rfl⟩
      exact ⟨hbelow, flags, rfl, hflags⟩

/-- Whatever is read is well formed. -/
theorem wellFormed_of_unpack (h : unpack bytes = .ok s) : s.WellFormed := by
  cases s with
  | empty => trivial
  | between l u => exact (unpack_between_iff.1 h).1

theorem isCorrupt_unpackBound (infinite : Bool) (bytes : Bytes) :
    IfError Error.IsCorrupt (unpackBound infinite bytes) := by
  unfold unpackBound
  split
  · exact ifError_ok
  · split
    · exact ifError_ok
    · exact ifError_corruptValue _

/-- What cannot be read is corrupt. -/
theorem isCorrupt_unpack (bytes : Bytes) : IfError Error.IsCorrupt (unpack bytes) := by
  unfold unpack
  split
  · exact ifError_corruptValue _
  · next flags bytes =>
    split
    · split
      · exact ifError_ok
      · exact ifError_corruptValue _
    · refine ifError_bind (isCorrupt_unpackBound _ _) fun lower => ?_
      refine ifError_bind (isCorrupt_unpackBound _ _) fun upper => ?_
      show IfError _ (if !below lower.1 upper.1 then _ else if !upper.2.isEmpty then _ else _)
      split
      · exact ifError_corruptValue _
      · split
        · exact ifError_corruptValue _
        · exact ifError_ok

end RangeUnion.IntSpan
