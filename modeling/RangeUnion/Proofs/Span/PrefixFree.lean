import RangeUnion.Proofs.Span.Message

/-!
# Messages that end where they end

A decoder is prefix-free if a message that it accepts says by itself where it ends: cut short
anywhere it lacks data, and whatever is put behind it is left over. `Takes` is the same for a reader
of one part, which gives back the bytes after it. What each part of an interval's message takes is
decided by the flags, and so the decoder of intervals is prefix-free (`IntSpan.receive_prefixFree`).
-/

namespace RangeUnion

variable {β γ : Type}

/-- An accepted message is refused if it is cut short, and if anything is put behind it. -/
structure PrefixFree (decode : Bytes → Except Error β) : Prop where
  take : ∀ {bytes x}, decode bytes = .ok x → ∀ cut < bytes.length,
    decode (bytes.take cut) = .error .insufficientData
  append : ∀ {bytes x}, decode bytes = .ok x → ∀ tail, tail ≠ [] →
    decode (bytes ++ tail) = .error (.trailingData tail.length)

/-- `read` takes just `used` off the front, which is `x`, and nothing shorter will do. -/
structure Takes (read : Bytes → Except Error (β × Bytes)) (used : Bytes) (x : β) : Prop where
  append : ∀ rest, read (used ++ rest) = .ok (x, rest)
  take : ∀ cut < used.length, read (used.take cut) = .error .insufficientData

/-- Read two parts one after the other. -/
def readBoth (first : Bytes → Except Error (β × Bytes)) (second : Bytes → Except Error (γ × Bytes))
    (bytes : Bytes) : Except Error ((β × γ) × Bytes) := do
  let (x, bytes) ← first bytes
  let (y, bytes) ← second bytes
  return ((x, y), bytes)

/-- What two parts take is what one takes and then what the other does. -/
theorem Takes.both {first : Bytes → Except Error (β × Bytes)}
    {second : Bytes → Except Error (γ × Bytes)} {used used' : Bytes} {x : β} {y : γ}
    (hfirst : Takes first used x) (hsecond : Takes second used' y) :
    Takes (readBoth first second) (used ++ used') (x, y) where
  append rest := by
    rw [readBoth, List.append_assoc, hfirst.append]
    show (second (used' ++ rest) >>= _) = _
    rw [hsecond.append]
    rfl
  take cut hcut := by
    rw [readBoth]
    rcases Nat.lt_or_ge cut used.length with hshort | hlong
    · rw [List.take_append_of_le_length (Nat.le_of_lt hshort), hfirst.take cut hshort]
      rfl
    · have hcut' : cut - used.length < used'.length := by
        rw [List.length_append] at hcut
        omega
      rw [List.take_append, List.take_of_length_le hlong, hfirst.append]
      show (second (used'.take _) >>= _) = _
      rw [hsecond.take _ hcut']
      rfl

namespace Word

variable {bytes : Bytes} {cut : Nat}

theorem readBE?_take (h : cut < 4) (bytes : Bytes) : readBE? (bytes.take cut) = none := by
  rw [readBE?_eq_none_iff, List.length_take]
  omega

/-- What is cut behind its first word. -/
theorem take_bigEndian_append (w : UInt32) (h : 4 ≤ cut) :
    (bigEndian w ++ bytes).take cut = bigEndian w ++ bytes.take (cut - 4) := by
  rw [List.take_append, length_bigEndian, List.take_of_length_le h]

end Word

namespace IntSpan

variable {flags : UInt8} {l u : Option Int32}

theorem takes_infinite : Takes (receiveBound true) [] none where
  append _ := rfl
  take cut hcut := absurd hcut (Nat.not_lt_zero cut)

theorem takes_finite (v : Int32) : Takes (receiveBound false) (sendBound v) (some v) where
  append rest := by
    have happend := receiveBound_append (some v) rest
    rwa [Option.toList_some, List.flatMap_singleton] at happend
  take cut hcut := by
    rw [receiveBound, sendBound]
    rcases Nat.lt_or_ge cut 4 with hword | hword
    · rw [Word.readBE?_take hword]
      rfl
    · -- the length is there, and the value behind it is cut
      have hvalue : cut - 4 < 4 := by
        rw [length_sendBound] at hcut
        omega
      rw [Word.take_bigEndian_append 4 hword, Word.readBE?_append]
      simp [Word.readBE?_take hvalue]

theorem takes_receiveBound (b : Option Int32) :
    Takes (receiveBound b.isNone) (b.toList.flatMap sendBound) b := by
  cases b with
  | none => exact takes_infinite
  | some v =>
    rw [Option.toList_some, List.flatMap_singleton]
    exact takes_finite v

/-- The two bounds that the flags announce, and the bytes after them. -/
def receiveBounds (flags : UInt8) (bytes : Bytes) :
    Except Error ((Option Int32 × Option Int32) × Bytes) :=
  readBoth (receiveBound (Flag.has flags Flag.lowerInfinite))
    (receiveBound (Flag.has flags Flag.upperInfinite)) bytes

theorem takes_receiveBounds (hl : Flag.has flags Flag.lowerInfinite = l.isNone)
    (hu : Flag.has flags Flag.upperInfinite = u.isNone) :
    Takes (receiveBounds flags) ((l.toList ++ u.toList).flatMap sendBound) (l, u) := by
  unfold receiveBounds
  rw [hl, hu, List.flatMap_append]
  exact (takes_receiveBound l).both (takes_receiveBound u)

theorem receive_cons_of_not_isEmpty (h : Flag.has flags Flag.isEmpty = false) (bytes : Bytes) :
    receive (flags :: bytes) =
      (receiveBounds flags bytes).bind fun ((l, u), rest) =>
        if rest.isEmpty then
          ofBounds l (Flag.has flags Flag.lowerIncluded) u (Flag.has flags Flag.upperIncluded)
        else .error (.trailingData rest.length) := by
  rw [receive, if_neg (by rw [h]; exact Bool.false_ne_true)]
  unfold receiveBounds readBoth
  cases receiveBound (Flag.has flags Flag.lowerInfinite) bytes with
  | error e => rfl
  | ok lower =>
    obtain ⟨l, bytes⟩ := lower
    show (receiveBound _ bytes >>= _) = (receiveBound _ bytes >>= _).bind _
    cases receiveBound (Flag.has flags Flag.upperInfinite) bytes with
    | error e => rfl
    | ok upper =>
      obtain ⟨u, rest⟩ := upper
      cases rest <;> rfl

/-- The message of an interval says by itself where it ends. -/
theorem receive_prefixFree : PrefixFree receive where
  take := by
    intro bytes s h cut hcut
    cases cut with
    | zero => rfl
    | succ cut =>
      rcases receive_eq_ok_iff.1 h with
        ⟨flags, _, rfl, _⟩ | ⟨flags, l, u, hempty, hl, hu, rfl, _⟩
      · exact absurd (Nat.lt_of_succ_lt_succ hcut) (Nat.not_lt_zero cut)
      · rw [List.take_succ_cons, receive_cons_of_not_isEmpty hempty,
          (takes_receiveBounds hl hu).take cut (Nat.lt_of_succ_lt_succ hcut)]
        rfl
  append := by
    intro bytes s h tail htail
    obtain ⟨b, tail, rfl⟩ := List.exists_cons_of_ne_nil htail
    rcases receive_eq_ok_iff.1 h with
      ⟨flags, hempty, rfl, _⟩ | ⟨flags, l, u, hempty, hl, hu, rfl, _⟩
    · rw [List.singleton_append, receive_cons_of_isEmpty hempty]
      rfl
    · rw [List.cons_append, receive_cons_of_not_isEmpty hempty,
        (takes_receiveBounds hl hu).append]
      rfl

end IntSpan

end RangeUnion
