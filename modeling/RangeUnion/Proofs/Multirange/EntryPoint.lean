import RangeUnion.Multirange.Literal
import RangeUnion.Multirange.Message
import RangeUnion.Proofs.Catalog.Acquire
import RangeUnion.Proofs.Feed

/-!
# The entry points of input and output

All entry points have one shape: they acquire a function from a range type, hand a feed to it, keep
what it gives and make an answer of that. `EntryPoint` is what they differ in, and
`EntryPoint.perform` what they have in common. Each of the five is such a performance
(`perform_parse`, `perform_toText`, `perform_sendInto`, `perform_send`, `perform_receive`), so what
holds of all performances is proved once.
-/

namespace RangeUnion

/-- What an entry point is made of. -/
structure EntryPoint (α β γ ε τ δ : Type) where
  /-- The multirange type that is looked up. -/
  tag : Tag
  /-- The function that is taken from its range type. -/
  pick : {m : Type → Type} → RangeType m α → Except Error (β → Depth → m (Except Error γ))
  /-- What a call of that function is. -/
  call : β → Depth → Call α
  /-- What that function is called on. -/
  feed : Feed β
  /-- How what it gives is kept. -/
  keep : γ → τ → Except Error ε × τ
  /-- What is kept before the function is there. -/
  given : τ
  /-- What is kept before the function is called. -/
  ready : τ
  /-- The answer that is made in the end. -/
  answer : Except Error (List ε) → τ → δ

/-- Send a multirange into a sink by means of `send`. -/
def Multirange.sendWith {m : Type → Type} [Monad m] {α : Type} [Interval α] (mr : Multirange α)
    (sink : Sink) (send : α → Depth → m (Except Error Bytes)) (depth : Depth) :
    m (Except Error Unit × Sink) :=
  match sink.write (Word.bigEndian (UInt32.ofNat mr.length)) with
  | (.error e, sink) => return (.error e, sink)
  | (.ok (), sink) => sendItems (fun x => send x depth) mr.items sink

namespace EntryPoint

variable {m : Type → Type} {α β γ ε τ δ δ' : Type}

/-- The answer if nothing was acquired. -/
def refuse (entry : EntryPoint α β γ ε τ δ) (e : Error) : δ := entry.answer (.error e) entry.given

/-- The entry point with another answer. -/
def map (f : δ → δ') (entry : EntryPoint α β γ ε τ δ) : EntryPoint α β γ ε τ δ' where
  tag := entry.tag
  pick := entry.pick
  call := entry.call
  feed := entry.feed
  keep := entry.keep
  given := entry.given
  ready := entry.ready
  answer kept t := f (entry.answer kept t)

section

variable [Monad m]

/-- The answer by means of the function that was acquired. -/
def reply (entry : EntryPoint α β γ ε τ δ) (f : β → Depth → m (Except Error γ)) (depth : Depth) :
    m δ := do
  let (kept, t) ←
    Feed.hand (fun x => f x depth) entry.keep entry.feed.failure entry.feed.elements entry.ready
  return entry.answer kept t

/-- Do what the entry point does. -/
def perform (entry : EntryPoint α β γ ε τ δ) : Context m α → m (δ × Context m α) :=
  Context.acquiring entry.tag entry.pick entry.refuse entry.reply

theorem onlyAcquires {entry : EntryPoint α β γ ε τ δ} {act : Context m α → m (δ × Context m α)}
    (h : ∀ ctx, entry.perform ctx = act ctx) :
    Context.OnlyAcquires entry.tag entry.pick entry.refuse act :=
  ⟨entry.reply, fun ctx => (h ctx).symm⟩

theorem perform_map [LawfulMonad m] (f : δ → δ') (entry : EntryPoint α β γ ε τ δ)
    (ctx : Context m α) : (entry.map f).perform ctx = do
      let (answer, ctx) ← entry.perform ctx
      return (f answer, ctx) := by
  unfold perform Context.acquiring
  rw [bind_assoc]
  refine bind_congr ?_
  rintro ⟨e | ⟨picked, depth⟩, ctx⟩
  · rw [pure_bind]
    rfl
  · simp only [reply, bind_assoc, pure_bind]
    rfl

end

section

variable {σ : Type} {entry : EntryPoint α β γ ε τ δ} {ctx : Context (StateM σ) α}

/-- Without a level to spend an entry point does nothing. -/
theorem run_perform_of_le (hdepth : ctx.depth.limit ≤ ctx.depth.level) (s : σ) :
    (entry.perform ctx).run s =
      ((entry.refuse (.stackDepthExceeded ctx.depth.limit), ctx), s) := by
  unfold perform
  rw [Context.acquiring_eq_refuse hdepth]
  rfl

/-- With a level to spend, what an entry point finds decides all the rest. -/
theorem run_perform (hdepth : ctx.depth.level < ctx.depth.limit) {s s' : σ}
    {found : Option (RangeType (StateM σ) α)}
    (hfound : (ctx.cache.consult ctx.catalog entry.tag).run s = (found, s')) :
    (entry.perform ctx).run s =
      let answer := (found.elim (pure (entry.refuse (.notAMultirange entry.tag)))
        (Context.replyWith entry.pick entry.refuse entry.reply
          ⟨ctx.depth.level + 1, ctx.depth.limit⟩)).run s'
      ((answer.1, ctx.having entry.tag found), answer.2) := by
  obtain ⟨catalog, cache, depth⟩ := ctx
  unfold perform
  rw [Context.acquiring_eq hdepth, StateT.run_bind, hfound]
  rfl

theorem run_reply {f : β → Depth → StateM σ (Except Error γ)} {depth : Depth} {s s' : σ} {t : τ}
    {handed : List β} {outcome : Except Error (List ε)}
    (h : Feed.Handed (Feed.keeping (fun x => f x depth) entry.keep) entry.feed (s, entry.ready)
      handed outcome (s', t)) : (entry.reply f depth).run s = (entry.answer outcome t, s') := by
  unfold reply
  rw [StateT.run_bind, h.run_hand]
  rfl

end

/-! ## The five entry points -/

open Multirange

variable [Interval α]

/-- Reading a literal. -/
def parse (text : String) (tag : Tag) (typmod : Int32) :
    EntryPoint α String α α Unit (Except Error (Multirange α)) where
  tag
  pick type := .ok fun literal depth => type.codec.input literal typmod depth
  call literal depth := .input literal typmod depth
  feed := BracedList.literals text
  keep x t := (.ok x, t)
  given := ()
  ready := ()
  answer read _ := read.bind fun xs => ofList tag (nonempty xs)

/-- Writing a literal. -/
def toText (mr : Multirange α) : EntryPoint α α String String Unit (Except Error String) where
  tag := mr.tag
  pick type := .ok type.codec.output
  call := .output
  feed := .ofReadings mr.items
  keep literal t := (.ok literal, t)
  given := ()
  ready := ()
  answer written _ := written.map BracedList.join

/-- Sending into a sink. The number of intervals is written before the first of them is encoded, and
if there is no room for it, none is. -/
def sendInto (mr : Multirange α) (sink : Sink) :
    EntryPoint α α Bytes Unit Sink (Except Error Unit × Sink) where
  tag := mr.tag
  pick := RangeType.sendFunction
  call := .send
  feed := match (sink.write (Word.bigEndian (UInt32.ofNat mr.length))).1 with
    | .error e => ⟨[], some e⟩
    | .ok () => .ofReadings mr.items
  keep := Message.writeFrame
  given := sink
  ready := (sink.write (Word.bigEndian (UInt32.ofNat mr.length))).2
  answer sent sink := (sent.map fun _ => (), sink)

/-- Sending. -/
def send (mr : Multirange α) : EntryPoint α α Bytes Unit Sink (Except Error Bytes) :=
  (sendInto mr .unlimited).map fun (sent, sink) => sent.map fun _ => sink.taken

/-- Receiving. -/
def receive (message : Bytes) (tag : Tag) (typmod : Int32) :
    EntryPoint α Bytes α α Unit (Except Error (Multirange α)) where
  tag
  pick type := (RangeType.receiveFunction type).map fun receive record depth =>
    receive record typmod depth
  call record depth := .receive record typmod depth
  feed := Message.records message
  keep x t := (.ok x, t)
  given := ()
  ready := ()
  answer read _ := read.bind (ofList tag)

variable [Monad m] [LawfulMonad m]

theorem perform_parse (text : String) (tag : Tag) (typmod : Int32) (ctx : Context m α) :
    (parse text tag typmod).perform ctx = Multirange.parse text tag typmod ctx := by
  show Context.acquiring tag (fun type => (Except.ok type.codec.input).map
    fun input literal depth => input literal typmod depth) _ _ ctx = _
  rw [Context.acquiring_map]
  refine bind_congr ?_
  rintro ⟨e | ⟨input, depth⟩, ctx⟩
  · rfl
  · simp only [reply, parse, Feed.hand_eq_collect, ← bind_pure_comp, bind_assoc, pure_bind]

theorem perform_toText (mr : Multirange α) (ctx : Context m α) :
    (toText mr).perform ctx = mr.toText ctx := by
  refine bind_congr ?_
  rintro ⟨e | ⟨output, depth⟩, ctx⟩
  · rfl
  · simp only [reply, toText, Feed.hand_eq_collect, ← bind_pure_comp, bind_assoc, pure_bind]

theorem perform_receive (message : Bytes) (tag : Tag) (typmod : Int32) (ctx : Context m α) :
    (receive message tag typmod).perform ctx = Multirange.receive message tag typmod ctx := by
  show Context.acquiring tag (fun type => (RangeType.receiveFunction type).map
    fun receive record depth => receive record typmod depth) _ _ ctx = _
  rw [Context.acquiring_map]
  refine bind_congr ?_
  rintro ⟨e | ⟨receive', depth⟩, ctx⟩
  · rfl
  · simp only [reply, receive, Feed.hand_eq_collect, ← bind_pure_comp, bind_assoc, pure_bind]

omit [Interval α] in
/-- Sending item by item is handing the items over and writing each message that is given. -/
theorem sendItems_eq (send : α → m (Except Error Bytes)) (items : List (Except Error α))
    (sink : Sink) : sendItems send items sink = do
      let (sent, sink) ← Feed.hand send Message.writeFrame (Feed.ofReadings items).failure
        (Feed.ofReadings items).elements sink
      return (sent.map fun _ => (), sink) := by
  induction items generalizing sink with
  | nil =>
    rw [sendItems, Feed.ofReadings, Feed.hand, pure_bind]
    rfl
  | cons item items ih =>
    cases item with
    | error e =>
      rw [sendItems, Feed.ofReadings, Feed.hand, pure_bind]
      rfl
    | ok x =>
      rw [sendItems, Feed.ofReadings, Feed.hand, bind_assoc]
      refine bind_congr fun encoded => ?_
      cases encoded with
      | error e => rw [pure_bind]; rfl
      | ok message =>
        rcases hwrite : Message.writeFrame message sink with ⟨e | _, sink'⟩
        · simp only [hwrite, pure_bind]
          rfl
        · simp only [hwrite, ih, bind_assoc, pure_bind]
          refine bind_congr ?_
          rintro ⟨e | sent, sink''⟩ <;> rfl

theorem reply_sendInto (mr : Multirange α) (sink : Sink)
    (send : α → Depth → m (Except Error Bytes)) (depth : Depth) :
    (sendInto mr sink).reply send depth = mr.sendWith sink send depth := by
  unfold reply sendInto sendWith
  rcases sink.write (Word.bigEndian (UInt32.ofNat mr.length)) with ⟨e | _, sink'⟩
  · exact pure_bind _ _
  · exact (sendItems_eq _ _ _).symm

theorem perform_sendInto (mr : Multirange α) (sink : Sink) (ctx : Context m α) :
    (sendInto mr sink).perform ctx = mr.sendInto sink ctx := by
  refine bind_congr ?_
  rintro ⟨e | ⟨send, depth⟩, ctx⟩
  · rfl
  · simp only [reply_sendInto, sendWith]
    rcases sink.write (Word.bigEndian (UInt32.ofNat mr.length)) with ⟨e | _, sink'⟩
    · simp only [pure_bind]
    · rfl

theorem perform_send (mr : Multirange α) (ctx : Context m α) :
    (send mr).perform ctx = mr.send ctx := by
  unfold send
  rw [perform_map, perform_sendInto]
  rfl

end EntryPoint

end RangeUnion
