import RangeUnion.Tag

/-!
# What can go wrong

Each failure is a cause with the data that identifies it; the wording of a cause is fixed here,
in one `message` for each kind. A failure is final: an operation gives a value or one of these.

* `ListFault`: the braces, commas and elements of a multirange literal.
* `BoundFault`: the text, message or bounds of one interval.
* `Corruption`: the bytes of a stored multirange.
* `Error`: all failures of the library.
-/

namespace RangeUnion

/-- What a multirange literal lacks where it fails. -/
inductive ListFault where
  | missingLeftBrace
  | unexpectedEnd
  | expectedRangeStart
  | expectedCommaOrEnd
  | junkAfterRightBrace
  deriving DecidableEq, Repr

/-- The wording of a list fault. -/
def ListFault.message : ListFault → String
  | .missingLeftBrace => "Missing left bracket."
  | .unexpectedEnd => "Unexpected end of input."
  | .expectedRangeStart => "Expected range start."
  | .expectedCommaOrEnd => "Expected comma or end of multirange."
  | .junkAfterRightBrace => "Junk after right bracket."

/-- What the literal of one interval lacks. -/
inductive RangeFault where
  | missingLeft
  | missingRight
  | missingComma
  | tooManyCommas
  deriving DecidableEq, Repr

/-- The wording of a fault in the literal of one interval. -/
def RangeFault.message : RangeFault → String
  | .missingLeft => "Missing left parenthesis or bracket."
  | .missingRight => "Missing right parenthesis or bracket."
  | .missingComma => "Missing comma after lower bound."
  | .tooManyCommas => "Too many commas."

/-- Why an element is no interval. -/
inductive BoundFault where
  /-- The literal is not of the form bracket, bound, comma, bound, bracket. -/
  | malformed (literal : String) (fault : RangeFault)
  /-- A bound of the literal is no integer of the bound type. -/
  | notAnInteger (bound literal : String)
  /-- The lower bound lies above the upper bound. -/
  | reversed
  /-- Moving a bound to the half-open form leaves the bound type. -/
  | outOfRange
  /-- A message declares a bound of another width than four bytes. -/
  | boundLength (length : Nat)
  /-- The encoding of an interval is longer than its length word can say. -/
  | encodingTooLarge
  deriving DecidableEq, Repr

/-- The wording of a fault of one interval. -/
def BoundFault.message : BoundFault → String
  | .malformed literal fault => s!"malformed range literal: \"{literal}\": {fault.message}"
  | .notAnInteger bound literal =>
    s!"invalid input syntax for type integer: \"{bound}\" in \"{literal}\""
  | .reversed => "range lower bound must be less than or equal to range upper bound"
  | .outOfRange => "integer out of range"
  | .boundLength length => s!"invalid bound length {length}"
  | .encodingTooLarge => "encoded interval too large"

/-- Which structural check a stored value fails. -/
inductive Corruption where
  /-- The value ends before its header does. -/
  | headerTruncated (size : Nat)
  /-- The header declares another length than the value has. -/
  | lengthMismatch (declared size : Nat)
  /-- The header of a slot does not fit into the value. -/
  | slotPastEnd (index : Nat)
  /-- A slot declares a length that is shorter than its header or longer than the value. -/
  | slotLength (index length : Nat)
  /-- Bytes follow the last slot. -/
  | unusedBytes (count : Nat)
  /-- The slots hold intervals that are empty, out of order or touching. -/
  | notCanonical
  /-- The intervals are more than the header's count can say. -/
  | tooManyIntervals
  /-- A slot is longer than its length word can say. -/
  | intervalTooLarge
  /-- The value is longer than the header's length word can say. -/
  | valueTooLarge (size : Nat)
  /-- A slot ends before the interval in it does. -/
  | payloadTruncated
  /-- The bounds of a stored interval are finite and not in ascending order. -/
  | payloadOutOfOrder
  /-- Bytes follow the interval in a slot. -/
  | payloadTrailing
  deriving DecidableEq, Repr

/-- The wording of a failed structural check. -/
def Corruption.message : Corruption → String
  | .headerTruncated size => s!"{size} bytes is shorter than the header"
  | .lengthMismatch declared size =>
    s!"declared length {declared} does not match buffer length {size}"
  | .slotPastEnd index => s!"interval {index} starts past the end"
  | .slotLength index length => s!"interval {index} has invalid length {length}"
  | .unusedBytes count => s!"{count} unused bytes after the last interval"
  | .notCanonical => "intervals are not in canonical form"
  | .tooManyIntervals => "too many intervals"
  | .intervalTooLarge => "interval too large"
  | .valueTooLarge size => s!"multirange too large: {size} bytes"
  | .payloadTruncated => "truncated int4range payload"
  | .payloadOutOfOrder => "int4range payload bounds out of order"
  | .payloadTrailing => "trailing bytes in int4range payload"

/-- The two halves of a binary codec. -/
inductive Direction where
  | input
  | output
  deriving DecidableEq, Repr

/-- The name of a half of a binary codec. -/
def Direction.text : Direction → String
  | .input => "input"
  | .output => "output"

/-- The failures of multirange construction, input, output and comparison. -/
inductive Error where
  /-- The literal is not a list in braces. -/
  | malformedLiteral (input : String) (fault : ListFault)
  /-- An element is no interval. -/
  | invalidInterval (fault : BoundFault)
  /-- A message ends before the data that it declares. -/
  | insufficientData
  /-- A message goes on after the data that it declares. -/
  | trailingData (count : Nat)
  /-- A stored value fails a structural check. -/
  | corruptValue (cause : Corruption)
  /-- A null stands where an interval is required. -/
  | nullElement
  /-- Multiranges of two types are compared. -/
  | typeMismatch (left right : Tag)
  /-- An array of several dimensions stands where a list is required. -/
  | multiDimensional (dimensions : Nat)
  /-- The catalog knows no multirange type of this tag. -/
  | notAMultirange (tag : Tag)
  /-- No level of the depth budget is left. -/
  | stackDepthExceeded (limit : Nat)
  /-- The range type has no binary function of this direction. -/
  | noBinaryFunction (typeName : String) (direction : Direction)
  /-- The sink of an encoding takes no further byte. -/
  | sinkFull
  deriving DecidableEq, Repr

namespace Error

/-- The wording of a failure. -/
def message : Error → String
  | .malformedLiteral input fault =>
    s!"malformed multirange literal: \"{input}\": {fault.message}"
  | .invalidInterval fault => s!"invalid interval: {fault.message}"
  | .insufficientData => "insufficient data left in message"
  | .trailingData count => s!"incorrect binary data format: {count} trailing bytes"
  | .corruptValue cause => s!"corrupt multirange value: {cause.message}"
  | .nullElement => "multirange values cannot contain null members"
  | .typeMismatch left right =>
    s!"type mismatch: multirange of type {left.text} used with multirange of type {right.text}"
  | .multiDimensional dimensions =>
    s!"wrong number of array dimensions: expected 1, got {dimensions}"
  | .notAMultirange tag => s!"type {tag.text} is not a multirange type"
  | .stackDepthExceeded limit => s!"stack depth limit exceeded (limit {limit})"
  | .noBinaryFunction typeName direction =>
    s!"no binary {direction.text} function available for type {typeName}"
  | .sinkFull => "I/O error: sink full"

/-- A failure that lies in the call and not in the data. -/
def isUsage : Error → Bool
  | .nullElement | .typeMismatch .. | .multiDimensional _ | .notAMultirange _ => true
  | _ => false

end Error

end RangeUnion
