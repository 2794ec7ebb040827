import RangeUnion.Multirange.Message

/-!
# Messages in frames

`Message.ofRecords` writes messages as a multirange's message holds them: their number, then each
one after its length. Reading gives them back, as long as these numbers fit into words
(`records_ofRecords`), and sending what the slots hold to a sink with room for everything writes
just these bytes, up to the first slot that cannot be read (`sendItems_unlimited`).
-/

namespace RangeUnion

namespace Message

/-- A message after its length. -/
def frame (message : Bytes) : Bytes :=
  Word.bigEndian (UInt32.ofNat message.length) ++ message

/-- The number of some messages, and each of them after its length. -/
def ofRecords (messages : List Bytes) : Bytes :=
  Word.bigEndian (UInt32.ofNat messages.length) ++ messages.flatMap frame

variable {message taken : Bytes} {messages : List Bytes}

/-- A frame is read as it was written. -/
theorem frames_frame (h : message.length < UInt32.size) (count : Nat) (rest : Bytes) :
    frames (count + 1) (frame message ++ rest) =
      ⟨message :: (frames count rest).elements, (frames count rest).failure⟩ := by
  have hlength : (UInt32.ofNat message.length).toNat = message.length :=
    UInt32.toNat_ofNat_of_lt' h
  rw [frame, List.append_assoc, frames, Word.readBE?_append]
  simp only [hlength, List.length_append, Nat.not_lt.2 (Nat.le_add_right _ _), if_false,
    List.take_left, List.drop_left]

/-- Frames are read as they were written, and then what follows them. -/
theorem frames_flatMap_frame (h : ∀ message ∈ messages, message.length < UInt32.size)
    (count : Nat) (rest : Bytes) :
    frames (messages.length + count) (messages.flatMap frame ++ rest) =
      ⟨messages ++ (frames count rest).elements, (frames count rest).failure⟩ := by
  induction messages with
  | nil =>
    rw [List.length_nil, Nat.zero_add]
    rfl
  | cons message messages ih =>
    have hrest := ih fun other hother => h other (List.mem_cons_of_mem message hother)
    rw [List.length_cons, Nat.add_right_comm, List.flatMap_cons, List.append_assoc,
      frames_frame (h message List.mem_cons_self), hrest]
    rfl

/-- The number of some messages, and then their frames, are read back, and then what follows. -/
theorem records_append (hcount : messages.length < UInt32.size)
    (h : ∀ message ∈ messages, message.length < UInt32.size) (rest : Bytes) :
    records (ofRecords messages ++ rest) = ⟨messages, (frames 0 rest).failure⟩ := by
  unfold records ofRecords
  rw [List.append_assoc, Word.readBE?_append]
  show frames (UInt32.ofNat messages.length).toNat _ = _
  rw [UInt32.toNat_ofNat_of_lt' hcount]
  refine (frames_flatMap_frame h 0 rest).trans ?_
  rw [frames, List.append_nil]

/-- The messages are read back. -/
theorem records_ofRecords (hcount : messages.length < UInt32.size)
    (h : ∀ message ∈ messages, message.length < UInt32.size) :
    records (ofRecords messages) = ⟨messages, none⟩ := by
  have hread := records_append hcount h []
  rwa [List.append_nil] at hread

/-- No frame stands in front. -/
def Frameless (bytes : Bytes) : Prop :=
  ∀ message rest : Bytes, message.length < UInt32.size → bytes ≠ frame message ++ rest

/-- Where a frame is missing, the data are insufficient. -/
theorem frames_of_frameless {bytes : Bytes} (h : Frameless bytes) (count : Nat) :
    frames (count + 1) bytes = ⟨[], some .insufficientData⟩ := by
  rw [frames]
  split
  · rfl
  · next length rest hread =>
    refine if_pos (Nat.lt_of_not_le fun hlong => ?_)
    have hlength : (rest.take length.toNat).length = length.toNat := List.length_take_of_le hlong
    have hword : (rest.take length.toNat).length < UInt32.size := by
      rw [hlength]
      exact length.toNat_lt
    refine h _ (rest.drop length.toNat) hword ?_
    rw [frame, hlength, UInt32.ofNat_toNat, List.append_assoc, List.take_append_drop]
    exact Word.eq_append_of_readBE? hread

/-- Up to `count` frames stand in front, and if there are less then no other one follows. -/
theorem exists_rest_of_frames (count : Nat) (bytes : Bytes) :
    ∃ (messages : List Bytes) (rest : Bytes),
    bytes = messages.flatMap frame ++ rest ∧
    (∀ message ∈ messages, message.length < UInt32.size) ∧
    (messages.length < count ∧ Frameless rest ∨ messages.length = count) := by
  induction count generalizing bytes with
  | zero => exact ⟨[], bytes, rfl, List.forall_mem_nil _, .inr rfl⟩
  | succ count ih =>
    by_cases hframe : ∃ message rest : Bytes,
        message.length < UInt32.size ∧ bytes = frame message ++ rest
    · obtain ⟨message, bytes, hmessage, rfl⟩ := hframe
      obtain ⟨messages, rest, rfl, hlengths, hend⟩ := ih bytes
      refine ⟨message :: messages, rest, ?_, List.forall_mem_cons.2 ⟨hmessage, hlengths⟩, ?_⟩
      · rw [List.flatMap_cons, List.append_assoc]
      · exact hend.imp (And.imp_left Nat.succ_lt_succ) (congrArg Nat.succ)
    · refine ⟨[], bytes, rfl, List.forall_mem_nil _, .inl ⟨Nat.succ_pos count, ?_⟩⟩
      exact fun message rest hmessage heq => hframe ⟨message, rest, hmessage, heq⟩

theorem writeFrame_unlimited (h : message.length < UInt32.size) :
    writeFrame message ⟨taken, none⟩ = (.ok (), ⟨taken ++ frame message, none⟩) := by
  unfold writeFrame
  rw [if_neg (Nat.not_le.2 h), frame, ← List.append_assoc]
  rfl

end Message

namespace Multirange

open Message

/-- What the slots hold is written frame by frame, up to the first slot that cannot be read. -/
theorem sendItems_unlimited {m : Type → Type} [Monad m] [LawfulMonad m] {α : Type}
    {encode : α → Bytes} (h : ∀ x, (encode x).length < UInt32.size) (items : List (Except Error α))
    (taken : Bytes) :
    sendItems (fun x => (pure (.ok (encode x)) : m (Except Error Bytes))) items ⟨taken, none⟩ =
      pure ((items.mapM id).map fun _ => (),
        ⟨taken ++ ((Feed.ofReadings items).elements.map encode).flatMap frame, none⟩) := by
  induction items generalizing taken with
  | nil =>
    rw [Feed.ofReadings, List.map_nil, List.flatMap_nil, List.append_nil]
    rfl
  | cons item items ih =>
    rw [sendItems.eq_def, List.mapM_cons]
    cases item with
    | error e =>
      rw [Feed.ofReadings, List.map_nil, List.flatMap_nil, List.append_nil]
      rfl
    | ok x =>
      simp only [pure_bind, writeFrame_unlimited (h x)]
      rw [ih, Feed.ofReadings, List.map_cons, List.flatMap_cons, List.append_assoc]
      cases items.mapM id <;> rfl

end Multirange

end RangeUnion
