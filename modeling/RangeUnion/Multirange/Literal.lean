import RangeUnion.Catalog.Context
import RangeUnion.Feed
import RangeUnion.Multirange.Basic
import RangeUnion.Text.BracedList

/-!
# The literal of a multirange

A multirange is written as the list of its intervals in braces, each in its type's own literal
form and without blanks. Reading takes any list in braces: each element goes verbatim to the
input function of the range type, empty intervals are dropped, and the rest is brought into
canonical form.
-/

namespace RangeUnion

namespace BracedList

/-- The failure of reading `text` that a scan's failure makes. -/
def Failure.error (text : String) (failure : Failure) : Error :=
  .malformedLiteral text failure.fault

/-- The literals of the elements of `text`. -/
def literals (text : String) : Feed String :=
  let scan := scan (Text.toBytes text)
  ⟨scan.elements.map Element.literal, scan.failure.map (Failure.error text)⟩

/-- The list in braces of some literals. -/
def join (literals : List String) : String :=
  "\x7b" ++ ",".intercalate literals ++ "\x7d"

end BracedList

namespace Multirange

variable {m : Type → Type} [Monad m] {α : Type} [Interval α]

/-- The number of intervals that reading a literal makes room for at first. -/
def initialCapacity : Nat := 8

/-- The multirange of type `tag` that `text` stands for. -/
def parse (text : String) (tag : Tag) (typmod : Int32) (ctx : Context m α) :
    m (Except Error (Multirange α) × Context m α) := do
  let (acquired, ctx) ← ctx.acquire tag fun type => .ok type.codec.input
  match acquired with
  | .error e => return (.error e, ctx)
  | .ok (input, depth) =>
    let read ← (BracedList.literals text).collect fun literal => input literal typmod depth
    return (read.bind fun xs => ofList tag (nonempty xs), ctx)

/-- The literal of a multirange. -/
def toText (mr : Multirange α) (ctx : Context m α) : m (Except Error String × Context m α) := do
  let (acquired, ctx) ← ctx.acquire mr.tag fun type => .ok type.codec.output
  match acquired with
  | .error e => return (.error e, ctx)
  | .ok (output, depth) =>
    let written ← (Feed.ofReadings mr.items).collect fun x => output x depth
    return (written.map BracedList.join, ctx)

end Multirange

end RangeUnion
