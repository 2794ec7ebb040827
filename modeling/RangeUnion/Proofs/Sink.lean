import RangeUnion.Sink

/-!
# Writing piece by piece

It makes no difference whether bytes are written at once or piece by piece
(`write_append_of_ok`, `write_append_of_error`). `writeThen bytes result` is what a writer does
that writes `bytes` in all and then ends with `result`: a sink with limited room cuts off the bytes
that do not fit, and the result with them (`writeThen_ofRoom`).
-/

namespace RangeUnion.Sink

variable {front bytes : Bytes} {sink sink' : Sink}

@[simp] theorem write_nil (sink : Sink) : sink.write [] = (.ok (), sink) := by
  obtain ⟨taken, room⟩ := sink
  cases room with
  | none => rw [write_unlimited, List.append_nil]
  | some room =>
    rw [write_of_le (Nat.zero_le room), List.append_nil]
    rfl

/-- A sink takes bytes or is full. -/
theorem write_cases (bytes : Bytes) (sink : Sink) : ∃ sink',
    sink.write bytes = (.ok (), sink') ∨ sink.write bytes = (.error .sinkFull, sink') := by
  obtain ⟨taken, room⟩ := sink
  cases room with
  | none => exact ⟨_, .inl rfl⟩
  | some room =>
    rcases Nat.lt_or_ge room bytes.length with hlt | hle
    · exact ⟨_, .inr (write_of_lt hlt)⟩
    · exact ⟨_, .inl (write_of_le hle)⟩

/-- What is written after something that the sink has taken goes behind it. -/
theorem write_append_of_ok (h : sink.write front = (.ok (), sink')) (bytes : Bytes) :
    sink.write (front ++ bytes) = sink'.write bytes := by
  obtain ⟨taken, room⟩ := sink
  cases room with
  | none =>
    rw [write_unlimited] at h
    cases h
    rw [write_unlimited, write_unlimited, List.append_assoc]
  | some room =>
    rcases Nat.lt_or_ge room front.length with hlt | hle
    · rw [write_of_lt hlt] at h
      cases h
    rw [write_of_le hle] at h
    cases h
    rcases Nat.lt_or_ge (room - front.length) bytes.length with hlt | hle'
    · have hlt' : room < (front ++ bytes).length := by
        rw [List.length_append]
        omega
      rw [write_of_lt hlt, write_of_lt hlt', List.take_append, List.take_of_length_le hle,
        List.append_assoc]
    · have hle'' : (front ++ bytes).length ≤ room := by
        rw [List.length_append]
        omega
      rw [write_of_le hle', write_of_le hle'', List.append_assoc, List.length_append, Nat.sub_sub]

/-- What does not fit does not fit with more behind it. -/
theorem write_append_of_error {e : Error} (h : sink.write front = (.error e, sink'))
    (bytes : Bytes) : sink.write (front ++ bytes) = (.error e, sink') := by
  obtain ⟨taken, room⟩ := sink
  cases room with
  | none =>
    rw [write_unlimited] at h
    cases h
  | some room =>
    rcases Nat.lt_or_ge room front.length with hlt | hle
    · have hlt' : room < (front ++ bytes).length := by
        rw [List.length_append]
        omega
      rw [write_of_lt hlt] at h
      rw [write_of_lt hlt', List.take_append_of_le_length (Nat.le_of_lt hlt), h]
    · rw [write_of_le hle] at h
      cases h

/-- Write `bytes`, and then end with `result`. -/
def writeThen (bytes : Bytes) (result : Except Error Unit) (sink : Sink) :
    Except Error Unit × Sink :=
  match sink.write bytes with
  | (.error e, sink) => (.error e, sink)
  | (.ok (), sink) => (result, sink)

theorem writeThen_unlimited (bytes : Bytes) (result : Except Error Unit) :
    unlimited.writeThen bytes result = (result, ⟨bytes, none⟩) := rfl

theorem writeThen_ofRoom (room : Nat) (bytes : Bytes) (result : Except Error Unit) :
    (ofRoom room).writeThen bytes result =
      (if room < bytes.length then .error .sinkFull else result,
        ⟨bytes.take room, some (room - bytes.length)⟩) := by
  unfold writeThen ofRoom
  rcases Nat.lt_or_ge room bytes.length with hlt | hle
  · rw [write_of_lt hlt, if_pos hlt, Nat.sub_eq_zero_of_le (Nat.le_of_lt hlt)]
    rfl
  · rw [write_of_le hle, if_neg (Nat.not_lt.2 hle), List.take_of_length_le hle]
    rfl

/-- A sink takes all bytes if and only if it has room for them. -/
theorem write_ofRoom_eq_ok_iff {room : Nat} :
    ((ofRoom room).write bytes).1 = .ok () ↔ bytes.length ≤ room := by
  unfold ofRoom
  rcases Nat.lt_or_ge room bytes.length with hlt | hle
  · rw [write_of_lt hlt]
    exact iff_of_false (fun h => nomatch h) (Nat.not_le.2 hlt)
  · rw [write_of_le hle]
    exact iff_of_true rfl hle

end RangeUnion.Sink
