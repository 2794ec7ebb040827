import RangeUnion.IntSpan.Interval
import RangeUnion.Proofs.Feed
import RangeUnion.Proofs.Multirange.Frames
import RangeUnion.Proofs.Multirange.Union
import RangeUnion.Proofs.Span.PrefixFree

/-!
# Framing that is exact

A multirange's message is read to its end if and only if it is `Message.Framed`: a number and just
as many frames. All other bytes are read up to a place where something is missing or too much
(`Message.Stops`), and these two are all that there is (`records_eq_iff_offers`). Cut short it is
read up to the frame that the cut falls into, and with more bytes behind it, up to where they begin
(`Framed.records_take`, `Framed.records_append`). Since the messages in the frames are decoded as
they come up, and accepted ones stay accepted, receiving multiranges is prefix-free as receiving
intervals is (`receive_exact`).

Reading never trusts the number in front. `Message.receiveWithin` is the same loop with a limit on
the frames that it begins; a quarter of the message's length, and one more, is limit enough
(`receiveWithin_eq`).
-/

namespace RangeUnion

variable {m : Type → Type} {σ α β γ : Type}

/-- What is acquired once the range type is found. -/
theorem Context.run_acquire {ctx ctx' : Context (StateM σ) α} {type : RangeType (StateM σ) α}
    {tag : Tag} {depth : Depth} {s s' : σ} (hdepth : ctx.depth.enter = .ok depth)
    (hfound : (ctx.rangeType tag).run s = ((.ok type, ctx'), s'))
    (pick : RangeType (StateM σ) α → Except Error γ) :
    (ctx.acquire tag pick).run s = (((pick type).map (·, depth), ctx'), s') := by
  unfold acquire
  rw [hdepth]
  show StateT.run (ctx.rangeType tag >>= _) s = _
  rw [StateT.run_bind, hfound]
  rfl

namespace Message

variable {bytes : Bytes} {messages : List Bytes} {message : Bytes} {cut : Nat}

/-- `bytes` are the number of `messages` and then each of them after its length, where all of these
are numbers that a word can be. -/
structure Framed (bytes : Bytes) (messages : List Bytes) : Prop where
  eq : bytes = ofRecords messages
  count : messages.length < UInt32.size
  lengths : ∀ message ∈ messages, message.length < UInt32.size

/-! ## Too short and too long -/

/-- A cut frame lacks data. -/
theorem frames_take_frame (h : message.length < UInt32.size) (hcut : cut < (frame message).length)
    (count : Nat) : frames (count + 1) ((frame message).take cut) =
      ⟨[], some .insufficientData⟩ := by
  rw [frames]
  rcases Nat.lt_or_ge cut 4 with hword | hword
  · rw [Word.readBE?_take hword]
  · have hshort : (message.take (cut - 4)).length < message.length := by
      rw [frame, List.length_append, Word.length_bigEndian] at hcut
      rw [List.length_take]
      omega
    rw [frame, Word.take_bigEndian_append _ hword, Word.readBE?_append]
    simp only [UInt32.toNat_ofNat_of_lt' h, if_pos hshort]

/-- A cut through frames falls into one of them. -/
theorem exists_take_flatMap_frame (hcut : cut < (messages.flatMap frame).length) :
    ∃ front message back cut', messages = front ++ message :: back ∧
      cut' < (frame message).length ∧
      (messages.flatMap frame).take cut = front.flatMap frame ++ (frame message).take cut' := by
  induction messages generalizing cut with
  | nil => exact absurd hcut (Nat.not_lt_zero cut)
  | cons message messages ih =>
    rw [List.flatMap_cons, List.length_append] at hcut
    rw [List.flatMap_cons]
    rcases Nat.lt_or_ge cut (frame message).length with hfirst | hlater
    · exact ⟨[], message, messages, cut, rfl, hfirst,
        List.take_append_of_le_length (Nat.le_of_lt hfirst)⟩
    · obtain ⟨front, other, back, cut', rfl, hcut', htake⟩ :=
        @ih (cut - (frame message).length) (by omega)
      refine ⟨message :: front, other, back, cut', rfl, hcut', ?_⟩
      rw [List.take_append, List.take_of_length_le hlater, htake, List.flatMap_cons,
        List.append_assoc]

/-- A message that is cut short is read up to the frame that is cut. -/
theorem Framed.records_take (h : Framed bytes messages) (hcut : cut < bytes.length) :
    ∃ front, front <+: messages ∧ records (bytes.take cut) = ⟨front, some .insufficientData⟩ := by
  obtain ⟨rfl, hcount, hlengths⟩ := h
  unfold records
  rcases Nat.lt_or_ge cut 4 with hword | hword
  · rw [Word.readBE?_take hword]
    exact ⟨[], List.nil_prefix, rfl⟩
  · rw [ofRecords, List.length_append, Word.length_bigEndian] at hcut
    obtain ⟨front, message, back, cut', rfl, hcut', htake⟩ :=
      @exists_take_flatMap_frame messages (cut - 4) (by omega)
    refine ⟨front, List.prefix_append _ _, ?_⟩
    rw [ofRecords, Word.take_bigEndian_append _ hword, Word.readBE?_append, htake]
    show frames (UInt32.ofNat _).toNat _ = _
    rw [UInt32.toNat_ofNat_of_lt' hcount, List.length_append, List.length_cons,
      frames_flatMap_frame fun other hother => hlengths other (List.mem_append_left _ hother),
      frames_take_frame (hlengths message (by simp)) hcut', List.append_nil]

/-- A message with more bytes behind it is read up to them. -/
theorem Framed.records_append (h : Framed bytes messages) {tail : Bytes} (htail : tail ≠ []) :
    records (bytes ++ tail) = ⟨messages, some (.trailingData tail.length)⟩ := by
  obtain ⟨b, tail, rfl⟩ := List.exists_cons_of_ne_nil htail
  obtain ⟨rfl, hcount, hlengths⟩ := h
  exact Message.records_append hcount hlengths _

/-! ## Exactness -/

/-- The bytes are not framed: behind these messages, this is why. -/
inductive Stops : List Bytes → Error → Bytes → Prop where
  /-- The number is cut off. -/
  | countless {bytes : Bytes} (hshort : bytes.length < 4) : Stops [] .insufficientData bytes
  /-- There are less frames than the number says. -/
  | frameless {count : UInt32} {messages : List Bytes} {rest : Bytes}
    (hcount : messages.length < count.toNat)
    (hlengths : ∀ message ∈ messages, message.length < UInt32.size) (h : Frameless rest) :
    Stops messages .insufficientData (Word.bigEndian count ++ (messages.flatMap frame ++ rest))
  /-- The last frame is followed by more bytes. -/
  | trailing {bytes tail : Bytes} {messages : List Bytes} (h : Framed bytes messages)
    (htail : tail ≠ []) : Stops messages (.trailingData tail.length) (bytes ++ tail)

/-- The messages in frames, or those before the place where the framing breaks off. -/
def Offers (messages : List Bytes) (failure : Option Error) (bytes : Bytes) : Prop :=
  match failure with
  | none => Framed bytes messages
  | some e => Stops messages e bytes

theorem stops_or_framed (bytes : Bytes) :
    (∃ messages e, Stops messages e bytes) ∨ ∃ messages, Framed bytes messages := by
  cases hread : Word.readBE? bytes with
  | none => exact .inl ⟨_, _, .countless (Word.readBE?_eq_none_iff.1 hread)⟩
  | some found =>
    obtain ⟨count, bytes'⟩ := found
    rw [Word.eq_append_of_readBE? hread]
    obtain ⟨messages, rest, rfl, hlengths, ⟨hcount, hrest⟩ | hcount⟩ :=
      exists_rest_of_frames count.toNat bytes'
    · exact .inl ⟨_, _, .frameless hcount hlengths hrest⟩
    · have hframed : Framed (Word.bigEndian count ++ messages.flatMap frame) messages := by
        refine ⟨?_, hcount ▸ count.toNat_lt, hlengths⟩
        rw [ofRecords, hcount, UInt32.ofNat_toNat]
      by_cases hrest : rest = []
      · rw [hrest, List.append_nil]
        exact .inr ⟨_, hframed⟩
      · rw [← List.append_assoc]
        exact .inl ⟨_, _, .trailing hframed hrest⟩

theorem records_of_stops {e : Error} (h : Stops messages e bytes) :
    records bytes = ⟨messages, some e⟩ := by
  cases h with
  | countless hshort =>
    unfold records
    rw [Word.readBE?_eq_none_iff.2 hshort]
  | @frameless count messages rest hcount hlengths h =>
    obtain ⟨missing, hmissing⟩ := Nat.exists_eq_add_of_lt hcount
    unfold records
    rw [Word.readBE?_append]
    show frames count.toNat _ = _
    rw [hmissing, Nat.add_assoc, frames_flatMap_frame hlengths, frames_of_frameless h,
      List.append_nil]
  | trailing h htail => exact h.records_append htail

theorem records_of_offers {failure : Option Error} (h : Offers messages failure bytes) :
    records bytes = ⟨messages, failure⟩ := by
  cases failure with
  | none =>
    obtain ⟨rfl, hcount, hlengths⟩ := h
    exact records_ofRecords hcount hlengths
  | some e => exact records_of_stops h

/-- What is read from a message is just what it offers. -/
theorem records_eq_iff_offers {failure : Option Error} :
    records bytes = ⟨messages, failure⟩ ↔ Offers messages failure bytes := by
  refine ⟨fun h => ?_, records_of_offers⟩
  obtain ⟨messages', failure', hoffers⟩ : ∃ messages failure, Offers messages failure bytes := by
    rcases stops_or_framed bytes with ⟨messages, e, h⟩ | ⟨messages, h⟩
    · exact ⟨messages, some e, h⟩
    · exact ⟨messages, none, h⟩
  rw [records_of_offers hoffers, Feed.mk.injEq] at h
  obtain ⟨rfl, rfl⟩ := h
  exact hoffers

/-- A message is read to its end if and only if it is a number and as many frames. -/
theorem records_eq_iff : records bytes = ⟨messages, none⟩ ↔ Framed bytes messages :=
  records_eq_iff_offers

/-! ## The number of frames that are begun -/

section

variable [Monad m]

/-- Read `count` frames up to the end of `bytes` and decode each message as soon as it is read.
There is no answer if that takes more than `turns` frames. -/
def framesWithin (decode : Bytes → m (Except Error α)) :
    (turns count : Nat) → (bytes : Bytes) → m (Option (Except Error (List α)))
  | _, 0, bytes =>
    return some (if bytes.isEmpty then .ok [] else .error (.trailingData bytes.length))
  | 0, _ + 1, _ => return none
  | turns + 1, count + 1, bytes =>
    match Word.readBE? bytes with
    | none => return some (.error .insufficientData)
    | some (length, bytes) =>
      if bytes.length < length.toNat then return some (.error .insufficientData)
      else do
        match ← decode (bytes.take length.toNat) with
        | .error e => return some (.error e)
        | .ok x =>
          return (← framesWithin decode turns count (bytes.drop length.toNat)).map (·.map (x :: ·))

/-- Decode a multirange's message frame by frame, with at most `turns` frames begun. -/
def receiveWithin (decode : Bytes → m (Except Error α)) (turns : Nat) (bytes : Bytes) :
    m (Option (Except Error (List α))) :=
  match Word.readBE? bytes with
  | none => return some (.error .insufficientData)
  | some (count, bytes) => framesWithin decode turns count.toNat bytes

variable [LawfulMonad m] {decode : Bytes → m (Except Error α)} {turns : Nat}

/-- Every frame that is begun but the last takes four bytes or more. -/
theorem framesWithin_eq (h : bytes.length < 4 * turns) (count : Nat) :
    framesWithin decode turns count bytes = some <$> (frames count bytes).collect decode := by
  induction turns generalizing count bytes with
  | zero => exact absurd h (Nat.not_lt_zero _)
  | succ turns ih =>
    cases count with
    | zero =>
      rw [framesWithin, frames]
      rw [Feed.collect_nil, map_pure]
      cases bytes <;> rfl
    | succ count =>
      rw [framesWithin, frames]
      cases hread : Word.readBE? bytes with
      | none =>
        rw [Feed.collect_nil, map_pure]
        rfl
      | some read =>
        obtain ⟨length, rest⟩ := read
        have hbytes := congrArg List.length (Word.eq_append_of_readBE? hread)
        rw [List.length_append, Word.length_bigEndian] at hbytes
        by_cases hshort : rest.length < length.toNat
        · simp only [if_pos hshort, Feed.collect_nil, map_pure]
          rfl
        · have hrest : (rest.drop length.toNat).length < 4 * turns := by
            rw [List.length_drop]
            omega
          simp only [if_neg hshort, Feed.collect_cons, ih hrest, map_bind]
          refine bind_congr fun answer => ?_
          cases answer with
          | error e => rw [map_pure]
          | ok x => simp only [← bind_pure_comp, bind_assoc, pure_bind, Option.map_some]

/-- However many frames a message declares, no more are begun than a quarter of its length, and
one. -/
theorem receiveWithin_eq (bytes : Bytes) : receiveWithin decode (1 + bytes.length / 4) bytes =
    some <$> (records bytes).collect decode := by
  unfold receiveWithin records
  cases hread : Word.readBE? bytes with
  | none =>
    rw [Feed.collect_nil, map_pure]
    rfl
  | some read =>
    obtain ⟨count, rest⟩ := read
    have hbytes := congrArg List.length (Word.eq_append_of_readBE? hread)
    rw [List.length_append, Word.length_bigEndian] at hbytes
    exact framesWithin_eq (by omega) count.toNat

end

end Message

namespace Multirange

open Message

section

variable [Interval α] {ctx ctx' : Context (StateM σ) α} {type : RangeType (StateM σ) α} {tag : Tag}
  {depth : Depth} {decode : Bytes → Int32 → Depth → StateM σ (Except Error α)} {s s' : σ}

/-- Once the range type is found, receiving decodes the messages in the frames. -/
theorem run_receive (hdepth : ctx.depth.enter = .ok depth)
    (hfound : (ctx.rangeType tag).run s = ((.ok type, ctx'), s'))
    (hdecode : type.codec.receive = some decode) (bytes : Bytes) (typmod : Int32) :
    (receive bytes tag typmod ctx).run s =
      let read := ((records bytes).collect fun record => decode record typmod depth).run s'
      ((read.1.bind (ofList tag), ctx'), read.2) := by
  unfold receive
  rw [StateT.run_bind, Context.run_acquire hdepth hfound,
    RangeType.receiveFunction_eq_ok_iff.2 hdecode]
  rfl

section

variable (hdepth : ctx.depth.enter = .ok depth)
  (hfound : (ctx.rangeType tag).run s = ((.ok type, ctx'), s'))
  (hdecode : type.codec.receive = some decode) (typmod : Int32)

include hdepth hfound hdecode

/-- What comes of the messages in the frames decides the answer. -/
theorem receive_of_handed {bytes : Bytes} {feed : Feed Bytes} {payloads : List Bytes}
    {outcome : Except Error (List α)} {s'' : σ} (hread : records bytes = feed)
    (h : Feed.Handed (fun payload => (decode payload typmod depth).run) feed s' payloads outcome
      s'') : (receive bytes tag typmod ctx).run s = ((outcome.bind (ofList tag), ctx'), s'') := by
  rw [run_receive hdepth hfound hdecode, hread, h.run_collect]

theorem receive_eq_ok_iff {bytes : Bytes} {m : Multirange α} :
    ((receive bytes tag typmod ctx).run s).1.1 = .ok m ↔ ∃ payloads xs s'', Framed bytes payloads ∧
      Feed.Accepts (fun payload => (decode payload typmod depth).run) payloads s' xs s'' ∧
      ofList tag xs = .ok m := by
  constructor
  · intro h
    obtain ⟨payloads, outcome, s'', hhanded⟩ :=
      Feed.exists_handed (fun payload => (decode payload typmod depth).run) (records bytes) s'
    rw [receive_of_handed hdepth hfound hdecode typmod rfl hhanded] at h
    cases hhanded with
    | stopped => cases h
    | @all xs _ hall =>
      cases hend : (records bytes).failure with
      | some e =>
        rw [hend] at h
        cases h
      | none =>
        rw [hend] at h
        refine ⟨_, xs, s'', records_eq_iff.1 ?_, hall, h⟩
        rw [← hend]
  · rintro ⟨payloads, xs, s'', hframed, hall, hbuilt⟩
    rw [receive_of_handed hdepth hfound hdecode typmod (records_eq_iff.2 hframed) (.all hall)]
    exact hbuilt

theorem receive_prefixFree :
    PrefixFree fun bytes => ((receive bytes tag typmod ctx).run s).1.1 := by
  refine ⟨?_, ?_⟩
  · intro bytes m h cut hcut
    obtain ⟨payloads, xs, s'', hframed, hxs, _⟩ :=
      (receive_eq_ok_iff hdepth hfound hdecode typmod).1 h
    obtain ⟨front, hfront, hread⟩ := hframed.records_take hcut
    obtain ⟨ys, s₁, hys⟩ := hxs.of_prefix hfront
    simp only [receive_of_handed hdepth hfound hdecode typmod hread (.all hys)]
    rfl
  · intro bytes m h tail htail
    obtain ⟨payloads, xs, s'', hframed, hxs, _⟩ :=
      (receive_eq_ok_iff hdepth hfound hdecode typmod).1 h
    simp only [receive_of_handed hdepth hfound hdecode typmod (hframed.records_append htail)
      (.all hxs)]
    rfl

end

/-- A multirange is received if and only if its message is just what is framed, and each interval in
it is accepted. An accepted message says by itself where it ends, and so does that of an interval.
However many frames are declared, no more of them are begun than a quarter of the length, and
one. -/
theorem receive_exact (hdepth : ctx.depth.enter = .ok depth)
    (hfound : (ctx.rangeType tag).run s = ((.ok type, ctx'), s'))
    (hdecode : type.codec.receive = some decode) (typmod : Int32) :
    let received (bytes : Bytes) := ((receive bytes tag typmod ctx).run s).1.1
    let decoded (payload : Bytes) := decode payload typmod depth
    (∀ bytes m, received bytes = .ok m ↔ ∃ payloads xs s'', Framed bytes payloads ∧
      Feed.Accepts (fun payload => (decoded payload).run) payloads s' xs s'' ∧
      ofList tag xs = .ok m) ∧
    (∀ bytes payloads xs s'', Framed bytes payloads →
      Feed.Accepts (fun payload => (decoded payload).run) payloads s' xs s'' → Fits xs →
      ∃ m, received bytes = .ok m ∧ ofList tag xs = .ok m) ∧
    PrefixFree received ∧
    PrefixFree IntSpan.receive ∧
    ∀ bytes, ∃ read s'', (receiveWithin decoded (1 + bytes.length / 4) bytes).run s' =
        (some read, s'') ∧
      (receive bytes tag typmod ctx).run s = ((read.bind (ofList tag), ctx'), s'') := by
  intro received decoded
  refine ⟨fun bytes m => receive_eq_ok_iff hdepth hfound hdecode typmod, ?_,
    receive_prefixFree hdepth hfound hdecode typmod, IntSpan.receive_prefixFree, ?_⟩
  · intro bytes payloads xs s'' hframed hxs hfits
    obtain ⟨m, hbuilt⟩ := exists_ofList_eq_ok tag hfits
    exact ⟨m, (receive_eq_ok_iff hdepth hfound hdecode typmod).2
      ⟨payloads, xs, s'', hframed, hxs, hbuilt⟩, hbuilt⟩
  · intro bytes
    refine ⟨_, _, ?_, run_receive hdepth hfound hdecode bytes typmod⟩
    rw [receiveWithin_eq, StateT.run_map]
    rfl

end

/-- A payload may be empty, if the interval type says so. A message with one is refused at once if
it is cut after its second length, or has a byte behind it. -/
theorem receive_exact_empty_payload :
    ∃ (ctx ctx' : Context (StateM Nat) IntSpan) (type : RangeType (StateM Nat) IntSpan)
      (decode : Bytes → Int32 → Depth → StateM Nat (Except Error IntSpan)) (depth : Depth),
      ctx.depth.enter = .ok depth ∧
      (ctx.rangeType IntSpan.multirangeTag).run 0 = ((.ok type, ctx'), 0) ∧
      type.codec.receive = some decode ∧
      Framed [0, 0, 0, 2, 0, 0, 0, 0, 0, 0, 0, 1, 1] [[], [1]] ∧
      Feed.Accepts (fun payload => (decode payload (-1) depth).run) [[], [1]] 0 [.empty, .empty] 2 ∧
      (∃ m, ((receive [0, 0, 0, 2, 0, 0, 0, 0, 0, 0, 0, 1, 1] IntSpan.multirangeTag (-1) ctx).run
        0).1.1 = .ok m) ∧
      ((receive [0, 0, 0, 2, 0, 0, 0, 0, 0, 0, 0, 1] IntSpan.multirangeTag (-1) ctx).run 0).1.1 =
        .error .insufficientData ∧
      ((receive [0, 0, 0, 2, 0, 0, 0, 0, 0, 0, 0, 1, 1, 9] IntSpan.multirangeTag (-1) ctx).run
        0).1.1 = .error (.trailingData 1) := by
  obtain ⟨decode, hdecode⟩ : ∃ decode : Bytes → Int32 → Depth → StateM Nat (Except Error IntSpan),
      decode = fun payload _ _ => do
        modify (· + 1)
        return if payload.isEmpty then .ok .empty else IntSpan.receive payload := ⟨_, rfl⟩
  obtain ⟨ctx, ctx', type, hdepth, hfound, hreceive⟩ :
      ∃ (ctx ctx' : Context (StateM Nat) IntSpan) (type : RangeType (StateM Nat) IntSpan),
      ctx.depth.enter = .ok ⟨1, 100⟩ ∧
      (ctx.rangeType IntSpan.multirangeTag).run 0 = ((.ok type, ctx'), 0) ∧
      type.codec.receive = some decode :=
    ⟨.new (fun _ => pure (some ⟨IntSpan.rangeTag, "int4range",
      { IntSpan.codec with receive := some decode }⟩)) .initial, _, _, rfl, rfl, rfl⟩
  have hframed : Framed [0, 0, 0, 2, 0, 0, 0, 0, 0, 0, 0, 1, 1] [[], [1]] :=
    ⟨by decide, by decide, by decide⟩
  have haccepts : Feed.Accepts (fun payload => (decode payload (-1) ⟨1, 100⟩).run) [[], [1]] 0
      [.empty, .empty] 2 := by
    rw [hdecode]
    exact .cons rfl (.cons rfl .nil)
  obtain ⟨_, hbuilt, hprefixFree, _, _⟩ := receive_exact hdepth hfound hreceive (-1)
  obtain ⟨m, hm, _⟩ := hbuilt _ _ _ _ hframed haccepts (fits_of_length_lt (by decide))
  exact ⟨ctx, ctx', type, decode, _, hdepth, hfound, hreceive, hframed, haccepts, ⟨m, hm⟩,
    hprefixFree.take hm 12 (by decide), hprefixFree.append hm [9] (by decide)⟩

end Multirange

end RangeUnion
