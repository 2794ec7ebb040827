import RangeUnion.Error
import RangeUnion.Text.Encoding

/-!
# Lists in braces

The literal of a multirange is a list of elements in braces, with commas between them and
blanks anywhere around them. An element is the word `empty`, in any case, or a bracketed part
that starts with `[` or `(` and ends with the first `]` or `)` that is neither escaped nor
quoted. A backslash escapes the next byte; quotation marks enclose a quoted run, in which a
doubled mark stands for itself. Bracketed parts are cut out verbatim, and what they mean is for
the interval type to say.

A scan works on bytes and goes strictly forward. It gives the elements that it cuts, in order,
and the failure that stops it, if one does, together with the bytes from there on.
-/

namespace RangeUnion.BracedList

/-! ## The bytes that matter -/

def leftBrace : UInt8 := 0x7B
def rightBrace : UInt8 := 0x7D
def comma : UInt8 := 0x2C
def quote : UInt8 := 0x22
def backslash : UInt8 := 0x5C

/-- Space, tab, line feed, form feed and carriage return. -/
def isBlank (b : UInt8) : Bool := b == 0x20 || b == 0x09 || b == 0x0A || b == 0x0C || b == 0x0D

/-- `[` and `(`. -/
def isOpening (b : UInt8) : Bool := b == 0x5B || b == 0x28

/-- `]` and `)`. -/
def isClosing (b : UInt8) : Bool := b == 0x5D || b == 0x29

/-- A capital letter as a small one, any other byte as it is. -/
def lowerCase (b : UInt8) : UInt8 := if 0x41 ≤ b ∧ b ≤ 0x5A then b + 0x20 else b

/-- The word for an empty element. -/
def emptyWord : Bytes := [0x65, 0x6D, 0x70, 0x74, 0x79]

/-- The bytes after the blanks in front. -/
def skipBlanks (bytes : Bytes) : Bytes := bytes.dropWhile isBlank

theorem length_skipBlanks_le (bytes : Bytes) : (skipBlanks bytes).length ≤ bytes.length :=
  (List.dropWhile_sublist _).length_le

/-! ## Elements -/

/-- An element of a list. -/
inductive Element where
  /-- The word for an empty element, whatever its case. -/
  | word
  /-- A bracketed part, from bracket to bracket. -/
  | bracketed (bytes : Bytes)
  deriving DecidableEq, Repr

/-- The literal that an element hands on. -/
def Element.literal : Element → String
  | .word => "empty"
  | .bracketed bytes => Text.ofBytes bytes

/-- What stops a scan, and the bytes from there on. -/
structure Failure where
  fault : ListFault
  unread : Bytes
  deriving DecidableEq, Repr

/-- The elements that a scan cuts, and what stops it. -/
structure Scan where
  elements : List Element
  failure : Option Failure
  deriving DecidableEq, Repr

/-- The scan that cuts `element` first. -/
def Scan.cons (element : Element) (scan : Scan) : Scan :=
  { scan with elements := element :: scan.elements }

/-- Put the bytes `front` before a part that was cut. -/
def prepend (front : Bytes) (cut : Option (Bytes × Bytes)) : Option (Bytes × Bytes) :=
  cut.map fun (part, rest) => (front ++ part, rest)

/-- Cut a bracketed part after its opening bracket: the bytes up to the bracket that closes it,
and the bytes after it. `quoted` says whether a quoted run is open. -/
def cutTail : (quoted : Bool) → Bytes → Option (Bytes × Bytes)
  | _, [] => none
  | quoted, b :: bytes =>
    if b = backslash then
      match bytes with
      | [] => none
      | c :: bytes => prepend [b, c] (cutTail quoted bytes)
    else if b = quote then
      match quoted, bytes with
      | true, c :: bytes =>
        if c = quote then prepend [b, c] (cutTail true bytes)
        else prepend [b] (cutTail false (c :: bytes))
      | true, [] => none
      | false, bytes => prepend [b] (cutTail true bytes)
    else if isClosing b && !quoted then some ([b], bytes)
    else prepend [b] (cutTail quoted bytes)

/-- The bytes after the word for an empty element, if it stands in front. -/
def dropWord? (bytes : Bytes) : Option Bytes :=
  if (bytes.take emptyWord.length).map lowerCase = emptyWord then
    some (bytes.drop emptyWord.length)
  else none

/-- Cut the element that stands in front. -/
def cutElement : Bytes → Except Failure (Element × Bytes)
  | [] => .error ⟨.unexpectedEnd, []⟩
  | b :: bytes =>
    if isOpening b then
      match cutTail false bytes with
      | none => .error ⟨.unexpectedEnd, []⟩
      | some (tail, rest) => .ok (.bracketed (b :: tail), rest)
    else
      match dropWord? (b :: bytes) with
      | none => .error ⟨.expectedRangeStart, b :: bytes⟩
      | some rest => .ok (.word, rest)

/-! ## A cut goes forward -/

theorem prepend_eq_some {front part rest : Bytes} {cut : Option (Bytes × Bytes)}
    (h : prepend front cut = some (part, rest)) :
    ∃ tail, cut = some (tail, rest) ∧ part = front ++ tail := by
  cases cut with
  | none => simp [prepend] at h
  | some c =>
    simp only [prepend, Option.map_some, Option.some.injEq, Prod.mk.injEq] at h
    exact ⟨c.1, by rw [← h.2], h.1.symm⟩

theorem append_of_prepend {front bytes part rest : Bytes} {cut : Option (Bytes × Bytes)}
    (h : prepend front cut = some (part, rest))
    (ih : ∀ {tail rest}, cut = some (tail, rest) → bytes = tail ++ rest) :
    front ++ bytes = part ++ rest := by
  obtain ⟨tail, ht, rfl⟩ := prepend_eq_some h
  rw [ih ht, List.append_assoc]

/-- Nothing is lost between what is cut and the rest. -/
theorem append_of_cutTail {quoted : Bool} {bytes tail rest : Bytes}
    (h : cutTail quoted bytes = some (tail, rest)) : bytes = tail ++ rest := by
  fun_induction cutTail quoted bytes generalizing tail rest with
  | case1 => simp at h
  | case2 => simp at h
  | case3 _ _ _ ih => exact append_of_prepend h ih
  | case4 _ _ ih => exact append_of_prepend h ih
  | case5 _ _ _ _ ih => exact append_of_prepend h ih
  | case6 => simp at h
  | case7 _ _ ih => exact append_of_prepend h ih
  | case8 =>
    simp only [Option.some.injEq, Prod.mk.injEq] at h
    rw [← h.1, ← h.2]
    rfl
  | case9 _ _ _ _ _ _ ih => exact append_of_prepend h ih

theorem length_of_dropWord? {bytes rest : Bytes} (h : dropWord? bytes = some rest) :
    rest.length + 5 = bytes.length := by
  unfold dropWord? at h
  split at h
  · next hw =>
    have hl := congrArg List.length hw
    simp only [List.length_map, List.length_take, emptyWord, List.length_cons,
      List.length_nil] at hl
    cases h
    simp only [List.length_drop, emptyWord, List.length_cons, List.length_nil]
    omega
  · simp at h

theorem length_lt_of_cutElement {bytes rest : Bytes} {element : Element}
    (h : cutElement bytes = .ok (element, rest)) : rest.length < bytes.length := by
  unfold cutElement at h
  split at h
  · simp at h
  · split at h
    · split at h
      · simp at h
      · next hc =>
        simp only [Except.ok.injEq, Prod.mk.injEq] at h
        have := congrArg List.length (append_of_cutTail hc)
        simp only [List.length_append] at this
        rw [← h.2, List.length_cons]
        omega
    · split at h
      · simp at h
      · next hd =>
        simp only [Except.ok.injEq, Prod.mk.injEq] at h
        have := length_of_dropWord? hd
        rw [← h.2]
        omega

/-! ## Scanning -/

/-- What stops the scan after the closing brace: anything but blanks. -/
def ending (bytes : Bytes) : Option Failure :=
  match skipBlanks bytes with
  | [] => none
  | unread => some ⟨.junkAfterRightBrace, unread⟩

set_option linter.unusedVariables false in
/-- Scan from an element on. -/
def scanElements (bytes : Bytes) : Scan :=
  match h : cutElement (skipBlanks bytes) with
  | .error failure => ⟨[], some failure⟩
  | .ok (element, rest) =>
    match h' : skipBlanks rest with
    | [] => ⟨[element], some ⟨.unexpectedEnd, []⟩⟩
    | b :: after =>
      if b = comma then (scanElements after).cons element
      else if b = rightBrace then ⟨[element], ending after⟩
      else ⟨[element], some ⟨.expectedCommaOrEnd, b :: after⟩⟩
termination_by bytes.length
decreasing_by
  have h₁ := length_skipBlanks_le bytes
  have h₂ := length_lt_of_cutElement h
  have h₃ := length_skipBlanks_le rest
  rw [h', List.length_cons] at h₃
  omega

/-- Scan after the opening brace. -/
def scanBody (bytes : Bytes) : Scan :=
  match skipBlanks bytes with
  | b :: after => if b = rightBrace then ⟨[], ending after⟩ else scanElements (b :: after)
  | [] => ⟨[], some ⟨.unexpectedEnd, []⟩⟩

/-- Scan a list in braces. -/
def scan (bytes : Bytes) : Scan :=
  match skipBlanks bytes with
  | b :: after =>
    if b = leftBrace then scanBody after else ⟨[], some ⟨.missingLeftBrace, b :: after⟩⟩
  | [] => ⟨[], some ⟨.missingLeftBrace, []⟩⟩

end RangeUnion.BracedList
