import RangeUnion.Catalog.Context
import RangeUnion.Feed
import RangeUnion.Multirange.Basic
import RangeUnion.Sink

/-!
# The message of a multirange

A message is the number of intervals, then for each interval the length of its own message and
that message. Numbers are words with the most significant byte first. A received message must
end where its last interval does; its intervals come in any order and are brought into canonical
form.

Sending writes piece by piece, so a sink that runs full holds the front part of the message.
-/

namespace RangeUnion

namespace Message

/-- Write a message after its length. -/
def writeFrame (message : Bytes) (sink : Sink) : Except Error Unit × Sink :=
  if UInt32.size ≤ message.length then (.error (.invalidInterval .encodingTooLarge), sink)
  else
    match sink.write (Word.bigEndian (UInt32.ofNat message.length)) with
    | (.error e, sink) => (.error e, sink)
    | (.ok (), sink) => sink.write message

/-- The messages that `count` frames hold, up to the end of `bytes`. -/
def frames : (count : Nat) → (bytes : Bytes) → Feed Bytes
  | 0, bytes => ⟨[], if bytes.isEmpty then none else some (.trailingData bytes.length)⟩
  | count + 1, bytes =>
    match Word.readBE? bytes with
    | none => ⟨[], some .insufficientData⟩
    | some (length, bytes) =>
      if bytes.length < length.toNat then ⟨[], some .insufficientData⟩
      else
        let rest := frames count (bytes.drop length.toNat)
        { rest with elements := bytes.take length.toNat :: rest.elements }

/-- The messages of the intervals in a multirange's message. -/
def records (bytes : Bytes) : Feed Bytes :=
  match Word.readBE? bytes with
  | none => ⟨[], some .insufficientData⟩
  | some (count, bytes) => frames count.toNat bytes

end Message

namespace Multirange

variable {m : Type → Type} [Monad m] {α : Type}

/-- Send what the slots hold, one after the other. -/
def sendItems (send : α → m (Except Error Bytes)) :
    List (Except Error α) → Sink → m (Except Error Unit × Sink)
  | [], sink => return (.ok (), sink)
  | .error e :: _, sink => return (.error e, sink)
  | .ok x :: rest, sink => do
    match ← send x with
    | .error e => return (.error e, sink)
    | .ok message =>
      match Message.writeFrame message sink with
      | (.error e, sink) => return (.error e, sink)
      | (.ok (), sink) => sendItems send rest sink

variable [Interval α]

/-- Send a multirange into a sink. -/
def sendInto (mr : Multirange α) (sink : Sink) (ctx : Context m α) :
    m ((Except Error Unit × Sink) × Context m α) := do
  let (acquired, ctx) ← ctx.acquire mr.tag RangeType.sendFunction
  match acquired with
  | .error e => return ((.error e, sink), ctx)
  | .ok (send, depth) =>
    match sink.write (Word.bigEndian (UInt32.ofNat mr.length)) with
    | (.error e, sink) => return ((.error e, sink), ctx)
    | (.ok (), sink) =>
      return (← sendItems (fun x => send x depth) mr.items sink, ctx)

/-- The message of a multirange. -/
def send (mr : Multirange α) (ctx : Context m α) : m (Except Error Bytes × Context m α) := do
  let ((sent, sink), ctx) ← mr.sendInto .unlimited ctx
  return (sent.map fun _ => sink.taken, ctx)

/-- The multirange of type `tag` whose message is the whole of `message`. -/
def receive (message : Bytes) (tag : Tag) (typmod : Int32) (ctx : Context m α) :
    m (Except Error (Multirange α) × Context m α) := do
  let (acquired, ctx) ← ctx.acquire tag RangeType.receiveFunction
  match acquired with
  | .error e => return (.error e, ctx)
  | .ok (receive, depth) =>
    let read ← (Message.records message).collect fun record => receive record typmod depth
    return (read.bind (ofList tag), ctx)

end Multirange

end RangeUnion
