import RangeUnion.Proofs.Catalog.Serves
import RangeUnion.Proofs.Feed
import RangeUnion.Proofs.Multirange.Frames
import RangeUnion.Proofs.Multirange.Reachable
import RangeUnion.Proofs.Multirange.Spelling

/-!
# Input and output where the type is served

In a context that serves the type of a multirange, each of the four entry points has one answer,
whatever the state of the catalog. Writing gives the joined literals or the framed messages of the
intervals if all slots can be read, and otherwise the failure of the first one that cannot
(`gives_toText`, `gives_send`). Reading gives the union of the intervals that the elements of a
spelling, or the messages in the frames, are read as (`answers_parse`, `answers_receive`).
-/

namespace RangeUnion.Multirange

open IntSpan

variable {σ : Type} {ctx : Context (StateM σ) IntSpan} {tag : Tag} {xs : List IntSpan}
  {m : Multirange IntSpan}

/-- Any spelling of intervals is read as their union. -/
theorem answers_parse (hctx : ctx.Serves tag) {text : String} {elements : List String}
    (htext : BracedList.Spells text elements) (hread : elements.map IntSpan.parse = xs.map .ok)
    (hm : ofList tag (nonempty xs) = .ok m) (typmod : Int32) :
    Context.Answers tag m (parse text tag typmod ctx) := by
  obtain ⟨handed, hliterals, hhanded⟩ := BracedList.parse_literals htext
  unfold parse
  have hpick (type : RangeType (StateM σ) IntSpan) (hcodec : type.codec = codec) :
      (Except.ok type.codec.input : Except Error _) = .ok codec.input := by rw [hcodec]
  refine (hctx.ensures_acquire hpick).bind ?_
  rintro ⟨acquired, ctx'⟩ ⟨rfl, hctx'⟩
  have hcollect : (BracedList.literals text).collect
      (fun literal => (pure (IntSpan.parse literal) : StateM σ _)) = pure (.ok xs) := by
    rw [hliterals]
    exact Feed.collect_of_map_eq (hhanded.trans hread)
  show Ensures ((BracedList.literals text).collect
    (fun literal => (pure (IntSpan.parse literal) : StateM σ _)) >>= _) _
  rw [hcollect, pure_bind]
  exact ensures_pure ⟨hm, hctx'⟩

/-- Writing gives the literals of all intervals, or the failure of reading them. -/
theorem gives_toText (hctx : ctx.Serves m.tag) :
    Context.Gives m.tag (m.toList.map fun xs => BracedList.join (xs.map IntSpan.toText))
      (m.toText ctx) := by
  unfold toText
  have hpick (type : RangeType (StateM σ) IntSpan) (hcodec : type.codec = codec) :
      (Except.ok type.codec.output : Except Error _) = .ok codec.output := by rw [hcodec]
  refine (hctx.ensures_acquire hpick).bind ?_
  rintro ⟨acquired, ctx'⟩ ⟨rfl, hctx'⟩
  show Ensures ((Feed.ofReadings m.items).collect
    (fun s => (pure (.ok s.toText) : StateM σ _)) >>= _) _
  rw [Feed.collect_pure, Feed.close_ofReadings, pure_bind]
  refine ensures_pure ⟨?_, hctx'⟩
  show (m.toList.map (List.map IntSpan.toText)).map BracedList.join = _
  cases m.toList <;> rfl

/-- The literal of a multirange is made of the literals of its intervals. -/
theorem Sound.answers_toText (hm : Sound m xs) (htag : m.tag = tag) (hctx : ctx.Serves tag) :
    Context.Answers tag (BracedList.join (xs.map IntSpan.toText)) (m.toText ctx) := by
  subst htag
  have hgives := gives_toText hctx
  rw [hm.toList_eq] at hgives
  exact hgives

theorem receiveFunction_of_codec {type : RangeType (StateM σ) IntSpan}
    (hcodec : type.codec = IntSpan.codec) : type.receiveFunction =
      .ok fun message _ _ => pure (IntSpan.receive message) := by
  unfold RangeType.receiveFunction
  rw [hcodec]
  rfl

theorem sendFunction_of_codec {type : RangeType (StateM σ) IntSpan}
    (hcodec : type.codec = IntSpan.codec) : type.sendFunction =
      .ok fun s _ => pure (.ok s.send) := by
  unfold RangeType.sendFunction
  rw [hcodec]
  rfl

/-- Messages in frames are received as the union of the intervals. -/
theorem answers_receive (hctx : ctx.Serves tag) {messages : List Bytes}
    (hread : messages.map IntSpan.receive = xs.map .ok) (hcount : messages.length < UInt32.size)
    (hm : ofList tag xs = .ok m) (typmod : Int32) :
    Context.Answers tag m (receive (Message.ofRecords messages) tag typmod ctx) := by
  have hlength : ∀ message ∈ messages, message.length < UInt32.size := by
    intro message hmessage
    have hmem : IntSpan.receive message ∈ (xs.map .ok : List (Except Error IntSpan)) := by
      rw [← hread]
      exact List.mem_map_of_mem hmessage
    obtain ⟨s, _, hs⟩ := List.mem_map.1 hmem
    exact (length_le_of_receive hs.symm).trans_lt (by decide)
  unfold receive
  refine (hctx.ensures_acquire fun _ => receiveFunction_of_codec).bind ?_
  rintro ⟨acquired, ctx'⟩ ⟨rfl, hctx'⟩
  rw [Message.records_ofRecords hcount hlength]
  show Ensures ((⟨messages, none⟩ : Feed Bytes).collect
    (fun message => (pure (IntSpan.receive message) : StateM σ _)) >>= _) _
  rw [Feed.collect_of_map_eq hread, pure_bind]
  exact ensures_pure ⟨hm, hctx'⟩

/-- A sink with room for everything takes the number of intervals and their messages, up to the
first slot that cannot be read. -/
theorem ensures_sendInto (hctx : ctx.Serves m.tag) :
    Ensures (m.sendInto .unlimited ctx) fun sent =>
      sent.1 = (m.toList.map fun _ => (), ⟨Word.bigEndian (UInt32.ofNat m.length) ++
        ((Feed.ofReadings m.items).elements.map IntSpan.send).flatMap Message.frame, none⟩) ∧
        sent.2.Serves m.tag := by
  unfold sendInto
  refine (hctx.ensures_acquire fun _ => sendFunction_of_codec).bind ?_
  rintro ⟨acquired, ctx'⟩ ⟨rfl, hctx'⟩
  show Ensures (sendItems (fun s => (pure (.ok s.send) : StateM σ _)) m.items
    ⟨Word.bigEndian (UInt32.ofNat m.length), none⟩ >>= _) _
  rw [sendItems_unlimited fun s => (length_send_le s).trans_lt (by decide), pure_bind]
  exact ensures_pure ⟨rfl, hctx'⟩

/-- Sending gives the messages of all intervals, or the failure of reading them. -/
theorem gives_send (hctx : ctx.Serves m.tag) :
    Context.Gives m.tag (m.toList.map fun xs => Message.ofRecords (xs.map IntSpan.send))
      (m.send ctx) := by
  unfold send
  refine (ensures_sendInto hctx).bind ?_
  rintro ⟨⟨sent, sink⟩, ctx'⟩ ⟨heq, hctx'⟩
  cases heq
  refine ensures_pure ⟨?_, hctx'⟩
  show (m.toList.map fun _ => ()).map _ = _
  cases htoList : m.toList with
  | error e => rfl
  | ok xs =>
    have hitems : m.items = xs.map .ok := toList_eq_ok_iff.1 htoList
    have hlength : m.length = xs.length := by rw [← length_items, hitems, List.length_map]
    rw [hitems, Feed.ofReadings_map_ok, hlength]
    show Except.ok _ = Except.ok (Message.ofRecords _)
    rw [Message.ofRecords, List.length_map]

/-- The message of a multirange is made of the messages of its intervals. -/
theorem Sound.answers_send (hm : Sound m xs) (htag : m.tag = tag) (hctx : ctx.Serves tag) :
    Context.Answers tag (Message.ofRecords (xs.map IntSpan.send)) (m.send ctx) := by
  subst htag
  have hgives := gives_send hctx
  rw [hm.toList_eq] at hgives
  exact hgives

end RangeUnion.Multirange
