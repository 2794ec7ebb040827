import RangeUnion.Proofs.Multirange.EntryPoint
import RangeUnion.Proofs.Multirange.Frames
import RangeUnion.Proofs.Sink

/-!
# Messages cut off by the sink

What is sent does not depend on the sink: there are bytes and a result such that every sink is
written these bytes, as far as it takes them, and the result is given if it takes them all
(`Streams`). Sending a multirange is of this kind, wherever a slot or a send function fails, so a
sink with limited room holds the front part of what a sink without limits holds
(`sendInto_ofRoom`).
-/

namespace RangeUnion

variable {σ α ε : Type} {s s' s₁ : σ} {bytes : Bytes} {result : Except Error Unit}

theorem Message.writeFrame_eq_write {message : Bytes} (h : message.length < UInt32.size)
    (sink : Sink) : writeFrame message sink = sink.write (frame message) := by
  unfold writeFrame frame
  rw [if_neg (Nat.not_le.2 h)]
  obtain ⟨sink', hwrite | hwrite⟩ :=
    sink.write_cases (Word.bigEndian (UInt32.ofNat message.length))
  · rw [hwrite, Sink.write_append_of_ok hwrite]
  · rw [hwrite, Sink.write_append_of_error hwrite]

/-- From the state `s`, `act` writes `bytes` and then ends with `result`, in the state `s'` unless
the sink is full before. -/
def Streams (act : Sink → StateM σ (Except Error Unit × Sink)) (s : σ) (bytes : Bytes)
    (result : Except Error Unit) (s' : σ) : Prop :=
  ∀ sink : Sink, ∃ s'', (act sink).run s = (sink.writeThen bytes result, s'') ∧
    ((sink.write bytes).1 = .ok () → s'' = s')

namespace Streams

theorem pure (result : Except Error Unit) (s : σ) :
    Streams (fun sink => Pure.pure (result, sink)) s [] result s := by
  intro sink
  refine ⟨s, ?_, fun _ => rfl⟩
  unfold Sink.writeThen
  rw [Sink.write_nil]
  rfl

/-- Something else may come first, if it does not touch the sink. -/
theorem bind {first : StateM σ ε} {next : ε → Sink → StateM σ (Except Error Unit × Sink)} {x : ε}
    (hfirst : first.run s = (x, s₁)) (h : Streams (next x) s₁ bytes result s') :
    Streams (fun sink => first >>= fun x => next x sink) s bytes result s' := by
  intro sink
  rw [StateT.run_bind, hfirst]
  exact h sink

/-- Bytes may be written first, if what follows is left out when they are not taken. -/
theorem write_bind {act : Sink → StateM σ (Except Error Unit × Sink)}
    (h : Streams act s bytes result s') (front : Bytes) :
    Streams (fun sink => match sink.write front with
      | (.error e, sink) => Pure.pure (.error e, sink)
      | (.ok (), sink) => act sink) s (front ++ bytes) result s' := by
  intro sink
  obtain ⟨sink', hwrite | hwrite⟩ := sink.write_cases front
  · obtain ⟨s'', hrun, hstate⟩ := h sink'
    unfold Sink.writeThen at hrun ⊢
    dsimp only
    rw [hwrite, Sink.write_append_of_ok hwrite]
    exact ⟨s'', hrun, hstate⟩
  · unfold Sink.writeThen
    dsimp only
    rw [hwrite, Sink.write_append_of_error hwrite]
    exact ⟨s, rfl, fun h => nomatch h⟩

end Streams

namespace Multirange

open Message

/-- Sending items writes frames up to the first item that fails, if one does. The induction is on
the items, from any state; the sink does not matter by what `Streams` says. -/
theorem exists_streams_sendItems (send : α → StateM σ (Except Error Bytes))
    (items : List (Except Error α)) (s : σ) :
    ∃ bytes result s', Streams (sendItems send items) s bytes result s' := by
  induction items generalizing s with
  | nil => exact ⟨[], .ok (), s, .pure _ s⟩
  | cons item items ih =>
    cases item with
    | error e => exact ⟨[], .error e, s, .pure _ s⟩
    | ok x =>
      generalize hsend : (send x).run s = sent
      obtain ⟨sent, s₁⟩ := sent
      cases sent with
      | error e => exact ⟨[], .error e, s₁, .bind hsend (.pure _ s₁)⟩
      | ok message =>
        rcases Nat.lt_or_ge message.length UInt32.size with hlt | hle
        · obtain ⟨bytes, result, s', h⟩ := ih s₁
          refine ⟨frame message ++ bytes, result, s', .bind hsend ?_⟩
          simp only [writeFrame_eq_write hlt]
          exact h.write_bind (frame message)
        · refine ⟨[], .error (.invalidInterval .encodingTooLarge), s₁, .bind hsend ?_⟩
          simp only [writeFrame, if_pos hle]
          exact .pure _ s₁

variable [Interval α]

/-- Sending a multirange writes its number of intervals and then its items. -/
theorem exists_streams_sendWith (mr : Multirange α)
    (send : α → Depth → StateM σ (Except Error Bytes)) (depth : Depth) (s : σ) :
    ∃ bytes result s', Streams (fun sink => mr.sendWith sink send depth) s bytes result s' := by
  obtain ⟨bytes, result, s', h⟩ := exists_streams_sendItems (send · depth) mr.items s
  exact ⟨_, result, s', h.write_bind (Word.bigEndian (UInt32.ofNat mr.length))⟩

/-- A refusal of the context writes nothing, and what is sent otherwise does not depend on the
sink. -/
theorem exists_streams_sendInto (mr : Multirange α) (ctx : Context (StateM σ) α) (s : σ) :
    ∃ bytes result ctx' s', ∀ sink : Sink, ∃ s'',
      (mr.sendInto sink ctx).run s = ((sink.writeThen bytes result, ctx'), s'') ∧
      ((sink.write bytes).1 = .ok () → s'' = s') := by
  simp only [← EntryPoint.perform_sendInto]
  generalize hacquire : (ctx.acquire mr.tag RangeType.sendFunction).run s = acquired
  obtain ⟨⟨e | ⟨send, depth⟩, ctx'⟩, s₁⟩ := acquired
  · refine ⟨[], .error e, ctx', s₁, fun sink => ⟨s₁, ?_, fun _ => rfl⟩⟩
    unfold Sink.writeThen
    rw [Sink.write_nil]
    show (ctx.acquire mr.tag RangeType.sendFunction >>= _).run s = _
    rw [StateT.run_bind, hacquire]
    rfl
  · obtain ⟨bytes, result, s', h⟩ := exists_streams_sendWith mr send depth s₁
    refine ⟨bytes, result, ctx', s', fun sink => ?_⟩
    obtain ⟨s'', hrun, hstate⟩ := h sink
    refine ⟨s'', ?_, hstate⟩
    show (ctx.acquire mr.tag RangeType.sendFunction >>= _).run s = _
    rw [StateT.run_bind, hacquire]
    show ((EntryPoint.sendInto mr sink).reply send depth >>= _).run s₁ = _
    rw [EntryPoint.reply_sendInto, StateT.run_bind, hrun]
    rfl

/-- Let `bytes` and `result` be what a sink that takes everything holds in the end, and the result
of sending into it. A sink with limited room holds those of the bytes that it has room for, and the
result is the same if these are all of them; otherwise it is that the sink is full. What is sent
without a sink is `bytes`, unless `result` is an error; then it is that error. -/
theorem sendInto_ofRoom (mr : Multirange α) (ctx : Context (StateM σ) α) (s : σ) :
    ∃ bytes result ctx' s',
      (mr.sendInto .unlimited ctx).run s = (((result, ⟨bytes, none⟩), ctx'), s') ∧
      (∀ room : Nat, ∃ s'', (mr.sendInto (.ofRoom room) ctx).run s =
        (((if room < bytes.length then .error .sinkFull else result,
          ⟨bytes.take room, some (room - bytes.length)⟩), ctx'), s'') ∧
        (bytes.length ≤ room → s'' = s')) ∧
      (mr.send ctx).run s = ((result.map fun _ => bytes, ctx'), s') := by
  obtain ⟨bytes, result, ctx', s', h⟩ := exists_streams_sendInto mr ctx s
  have hunlimited : (mr.sendInto .unlimited ctx).run s = (((result, ⟨bytes, none⟩), ctx'), s') := by
    obtain ⟨s'', hrun, hstate⟩ := h .unlimited
    rw [hrun, hstate rfl, Sink.writeThen_unlimited]
  refine ⟨bytes, result, ctx', s', hunlimited, fun room => ?_, ?_⟩
  · obtain ⟨s'', hrun, hstate⟩ := h (.ofRoom room)
    refine ⟨s'', ?_, fun hroom => hstate (Sink.write_ofRoom_eq_ok_iff.2 hroom)⟩
    rw [hrun, Sink.writeThen_ofRoom]
  · unfold Multirange.send
    rw [StateT.run_bind, hunlimited]
    rfl

end Multirange

end RangeUnion
