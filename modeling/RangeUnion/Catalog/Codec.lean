import RangeUnion.Bytes.Word
import RangeUnion.Depth
import RangeUnion.IntSpan.Literal
import RangeUnion.IntSpan.Message

/-!
# Codecs of interval types

The list formats never read or write an interval themselves: they call the functions that the
interval type brings along, in whatever monad these run in. Text functions are there for every
type, binary ones need not be. Reading functions are also given the type modifier of the call.
-/

namespace RangeUnion

/-- The input and output functions of an interval type. -/
structure Codec (m : Type → Type) (α : Type) where
  /-- Read the literal of an interval. -/
  input : (literal : String) → (typmod : Int32) → Depth → m (Except Error α)
  /-- Write the literal of an interval. -/
  output : α → Depth → m (Except Error String)
  /-- Encode an interval as a message. -/
  send : Option (α → Depth → m (Except Error Bytes))
  /-- Decode the message of an interval. -/
  receive : Option ((message : Bytes) → (typmod : Int32) → Depth → m (Except Error α))

/-- A call of a codec's function. -/
inductive Call (α : Type) where
  | input (literal : String) (typmod : Int32) (depth : Depth)
  | output (x : α) (depth : Depth)
  | send (x : α) (depth : Depth)
  | receive (message : Bytes) (typmod : Int32) (depth : Depth)
  deriving Repr

/-- The codec of the intervals of integers. It uses neither type modifiers nor depth. -/
def IntSpan.codec {m : Type → Type} [Monad m] : Codec m IntSpan where
  input literal _ _ := return IntSpan.parse literal
  output s _ := return .ok s.toText
  send := some fun s _ => return .ok s.send
  receive := some fun message _ _ => return IntSpan.receive message

namespace Codec

variable {m : Type → Type} [Monad m] {α β : Type}

/-- Do `act` only if a level of `depth` is left to be spent. -/
def spending (depth : Depth) (act : m (Except Error β)) : m (Except Error β) :=
  match depth.enter with
  | .error e => return .error e
  | .ok _ => act

/-- The codec whose functions each spend a level before they do anything. -/
def deep (codec : Codec m α) : Codec m α where
  input literal typmod depth := spending depth (codec.input literal typmod depth)
  output x depth := spending depth (codec.output x depth)
  send := codec.send.map fun send x depth => spending depth (send x depth)
  receive := codec.receive.map fun receive message typmod depth =>
    spending depth (receive message typmod depth)

end Codec

end RangeUnion
