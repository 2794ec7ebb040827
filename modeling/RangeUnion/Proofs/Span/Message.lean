import RangeUnion.IntSpan.Message
import RangeUnion.Proofs.Outcome

/-!
# What reading a message accepts

The message of an empty interval is a byte with the flag of emptiness. All other messages are flags
and then the bounds that these announce, each of them behind its length. Nothing else is accepted,
and the bounds are read as the flags say (`receive_eq_ok_iff`). So a message that is accepted is
short (`length_le_of_receive`), and its length always fits into a word.
-/

namespace RangeUnion.IntSpan

variable {bytes rest : Bytes} {s : IntSpan} {l u : Option Int32} {flags : UInt8}

/-! ## Bounds -/

theorem length_sendBound (v : Int32) : (sendBound v).length = 8 := rfl

theorem receiveBound_eq_ok_iff {infinite : Bool} {b : Option Int32} :
    receiveBound infinite bytes = .ok (b, rest) ↔
      b.isNone = infinite ∧ bytes = b.toList.flatMap sendBound ++ rest := by
  constructor
  · intro h
    unfold receiveBound at h
    split at h
    · next hinfinite =>
      cases h
      exact ⟨hinfinite.symm, rfl⟩
    · next hinfinite =>
      split at h
      · cases h
      · next length tail hlength =>
        split at h
        · cases h
        · next hfour =>
          split at h
          · cases h
          · next w tail' hvalue =>
            cases h
            refine ⟨(Bool.not_eq_true _ ▸ hinfinite).symm, ?_⟩
            rw [Word.eq_append_of_readBE? hlength, Word.eq_append_of_readBE? hvalue,
              Decidable.of_not_not hfour]
            simp [sendBound]
  · rintro ⟨rfl, rfl⟩
    exact receiveBound_append b rest

/-! ## Intervals -/

theorem receive_cons_of_isEmpty (h : Flag.has flags Flag.isEmpty = true) (bytes : Bytes) :
    receive (flags :: bytes) =
      if bytes.isEmpty then .ok .empty else .error (.trailingData bytes.length) := by
  rw [receive, if_pos h]

/-- Two bounds are read as the flags say. -/
theorem receive_flatMap_sendBound (h : Flag.has flags Flag.isEmpty = false)
    (hl : Flag.has flags Flag.lowerInfinite = l.isNone)
    (hu : Flag.has flags Flag.upperInfinite = u.isNone) :
    receive (flags :: (l.toList ++ u.toList).flatMap sendBound) =
      ofBounds l (Flag.has flags Flag.lowerIncluded) u (Flag.has flags Flag.upperIncluded) := by
  have hlower := receiveBound_append l (u.toList.flatMap sendBound)
  have hupper := receiveBound_append u []
  rw [List.append_nil] at hupper
  simp only [receive, List.flatMap_append, h, hl, hu, Bool.false_eq_true, if_false, hlower, hupper,
    bind, Except.bind, List.isEmpty_nil, Bool.not_true]

/-- A message that does not say that it is empty has the bounds that its flags announce. -/
theorem receive_cons_eq_ok (h : Flag.has flags Flag.isEmpty = false) :
    receive (flags :: bytes) = .ok s ↔ ∃ l u, Flag.has flags Flag.lowerInfinite = l.isNone ∧
      Flag.has flags Flag.upperInfinite = u.isNone ∧
      bytes = (l.toList ++ u.toList).flatMap sendBound ∧
      ofBounds l (Flag.has flags Flag.lowerIncluded) u (Flag.has flags Flag.upperIncluded) =
        .ok s := by
  constructor
  · intro hread
    rw [receive, if_neg (by rw [h]; exact Bool.false_ne_true)] at hread
    obtain ⟨⟨l, tail⟩, hlower, hrest⟩ := bind_eq_ok_iff.1 hread
    obtain ⟨⟨u, tail'⟩, hupper, hend⟩ := bind_eq_ok_iff.1 hrest
    obtain ⟨hl, rfl⟩ := receiveBound_eq_ok_iff.1 hlower
    obtain ⟨hu, rfl⟩ := receiveBound_eq_ok_iff.1 hupper
    replace hend : (if !tail'.isEmpty then _ else _) = _ := hend
    split at hend
    · cases hend
    · next hnil =>
      obtain rfl : tail' = [] := by simpa using hnil
      refine ⟨l, u, hl.symm, hu.symm, ?_, hend⟩
      rw [List.flatMap_append, List.append_nil]
  · rintro ⟨l, u, hl, hu, rfl, hbounds⟩
    rw [receive_flatMap_sendBound h hl hu, hbounds]

/-- What the messages of an interval are. -/
theorem receive_eq_ok_iff : receive bytes = .ok s ↔
    (∃ flags, Flag.has flags Flag.isEmpty = true ∧ bytes = [flags] ∧ s = .empty) ∨
    ∃ flags l u, Flag.has flags Flag.isEmpty = false ∧
      Flag.has flags Flag.lowerInfinite = l.isNone ∧
      Flag.has flags Flag.upperInfinite = u.isNone ∧
      bytes = flags :: (l.toList ++ u.toList).flatMap sendBound ∧
      ofBounds l (Flag.has flags Flag.lowerIncluded) u (Flag.has flags Flag.upperIncluded) =
        .ok s := by
  constructor
  · intro h
    cases bytes with
    | nil => cases h
    | cons flags bytes =>
      cases hempty : Flag.has flags Flag.isEmpty with
      | true =>
        rw [receive_cons_of_isEmpty hempty] at h
        cases bytes with
        | nil =>
          cases h
          exact .inl ⟨flags, hempty, rfl, rfl⟩
        | cons b bytes => cases h
      | false =>
        obtain ⟨l, u, hl, hu, rfl, hbounds⟩ := (receive_cons_eq_ok hempty).1 h
        exact .inr ⟨flags, l, u, hempty, hl, hu, rfl, hbounds⟩
  · rintro (⟨flags, hempty, rfl, rfl⟩ | ⟨flags, l, u, hempty, hl, hu, rfl, hbounds⟩)
    · rw [receive_cons_of_isEmpty hempty]
      rfl
    · rw [receive_flatMap_sendBound hempty hl hu, hbounds]

/-! ## Lengths -/

theorem length_flatMap_sendBound_le (l u : Option Int32) :
    ((l.toList ++ u.toList).flatMap sendBound).length ≤ 16 := by
  cases l <;> cases u <;> simp [length_sendBound]

/-- A message that is accepted has at most a flags byte and two bounds. -/
theorem length_le_of_receive (h : receive bytes = .ok s) : bytes.length ≤ 17 := by
  rcases receive_eq_ok_iff.1 h with ⟨flags, _, rfl, _⟩ | ⟨flags, l, u, _, _, _, rfl, _⟩
  · rw [List.length_singleton]
    omega
  · have hbounds := length_flatMap_sendBound_le l u
    rw [List.length_cons]
    omega

theorem length_send_le (s : IntSpan) : s.send.length ≤ 17 := by
  have hbounds := length_flatMap_sendBound_le s.lower s.upper
  rw [send, finiteBounds, List.length_cons]
  omega

end RangeUnion.IntSpan
