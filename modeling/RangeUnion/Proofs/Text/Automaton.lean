import RangeUnion.Proofs.Text.Grammar
import RangeUnion.Proofs.Text.Slices

/-!
# Scanning by positions

A scan can also be seen as an automaton that goes over the bytes of a text and takes slices of it.
Between two turns it stands at a `Place`: what it is in the middle of, the next byte to be read, and
the byte that opened the bracketed part. A turn reads one byte and may jump over some more: over one
that doubles a mark, or over the rest of the word. There is no turn if a slice cannot be taken.

An escape takes one byte, and so may stop within a character. What counts is that brackets are bytes
below 128, so the text can be cut before and behind them wherever they stand. The invariant
(`Place.Fits`) keeps that a bracketed part was opened by a bracket, and at a closing bracket it
gives that the slice exists. So there is always a turn (`exists_safe_turn`, `Reached.fits`). Turns
go forward, so there are not more of them than bytes (`Reached.turns_lt`).
-/

namespace RangeUnion.BracedList

open Text

/-! ## Turns -/

/-- What a scan is in the middle of. -/
inductive Mode where
  | beforeRange
  | inRange
  | inRangeEscaped
  | inRangeQuoted
  | inRangeQuotedEscaped
  | afterRange
  | finished
  deriving DecidableEq, Repr

/-- The mode lies within a bracketed part. -/
def Mode.isInside : Mode → Bool
  | .inRange | .inRangeEscaped | .inRangeQuoted | .inRangeQuotedEscaped => true
  | .beforeRange | .afterRange | .finished => false

/-- Where a scan stands between two turns. -/
structure Place where
  mode : Mode
  /-- The byte to be read next. -/
  pos : Nat
  /-- The byte that opened the last bracketed part. -/
  start : Nat
  /-- How many elements were handed on. -/
  seen : Nat
  deriving DecidableEq, Repr

/-- What a turn makes of the byte that it reads. -/
structure Turn where
  mode : Mode
  start : Nat
  /-- How many bytes are jumped over behind the one that is read. -/
  skipped : Nat
  /-- The literal that is handed on. -/
  handed : Option String
  deriving DecidableEq, Repr

/-- A turn that does nothing but change the mode. -/
def Place.turning (place : Place) (mode : Mode) : Turn := ⟨mode, place.start, 0, none⟩

/-- The place that a turn leads to. -/
def Place.next (place : Place) (turn : Turn) : Place where
  mode := turn.mode
  pos := place.pos + turn.skipped + 1
  start := turn.start
  seen := if turn.handed.isSome then place.seen + 1 else place.seen

/-- The bytes from `i` on. -/
def from? (bytes : Bytes) (i : Nat) : Option Bytes :=
  if i ≤ bytes.length then some (bytes.drop i) else none

/-- The bytes up to `i`. -/
def upTo? (bytes : Bytes) (i : Nat) : Option Bytes :=
  if i ≤ bytes.length then some (bytes.take i) else none

/-- Whether the word for an empty element stands in front, in any case. -/
def startsWithWord? (rest : Bytes) : Option Bool :=
  if emptyWord.length ≤ rest.length then
    (upTo? rest emptyWord.length).map fun letters => letters.map lowerCase = emptyWord
  else some false

/-- Go past the word if it was found. -/
def turnWord (place : Place) (found : Bool) : Except ListFault Turn :=
  if found then
    .ok { place.turning .afterRange with
      skipped := emptyWord.length - 1, handed := some Element.word.literal }
  else .error .expectedRangeStart

/-- Read `b` where an element may start. -/
def turnBefore? (bytes : Bytes) (place : Place) (b : UInt8) : Option (Except ListFault Turn) :=
  if isBlank b then some (.ok (place.turning .beforeRange))
  else if isOpening b then some (.ok { place.turning .inRange with start := place.pos })
  else if b = rightBrace ∧ place.seen = 0 then some (.ok (place.turning .finished))
  else ((from? bytes place.pos).bind startsWithWord?).map (turnWord place)

/-- Read `b` in a bracketed part. -/
def turnInRange? (text : String) (place : Place) (b : UInt8) : Option Turn :=
  if b = quote then some (place.turning .inRangeQuoted)
  else if b = backslash then some (place.turning .inRangeEscaped)
  else if isClosing b then
    (slice? text place.start (place.pos + 1)).map fun literal =>
      { place.turning .afterRange with handed := some literal }
  else some (place.turning .inRange)

/-- Read `b` in a quoted run. -/
def turnInQuotes (bytes : Bytes) (place : Place) (b : UInt8) : Turn :=
  if b = quote then
    if bytes[place.pos + 1]? = some quote then { place.turning .inRangeQuoted with skipped := 1 }
    else place.turning .inRange
  else if b = backslash then place.turning .inRangeQuotedEscaped
  else place.turning .inRangeQuoted

/-- Read `b` behind an element. -/
def turnAfter (place : Place) (b : UInt8) : Except ListFault Turn :=
  if isBlank b then .ok (place.turning .afterRange)
  else if b = comma then .ok (place.turning .beforeRange)
  else if b = rightBrace then .ok (place.turning .finished)
  else .error .expectedCommaOrEnd

/-- One turn. There is none at a finished place, nor if a slice cannot be taken. -/
def turn? (text : String) (place : Place) : Option (Except ListFault Turn) :=
  match (toBytes text)[place.pos]? with
  | none => some (.error .unexpectedEnd)
  | some b =>
    match place.mode with
    | .beforeRange => turnBefore? (toBytes text) place b
    | .inRange => (turnInRange? text place b).map .ok
    | .inRangeEscaped => some (.ok (place.turning .inRange))
    | .inRangeQuoted => some (.ok (turnInQuotes (toBytes text) place b))
    | .inRangeQuotedEscaped => some (.ok (place.turning .inRangeQuoted))
    | .afterRange => some (turnAfter place b)
    | .finished => none

/-- The first byte from `pos` on that is no blank. -/
def skipFrom (bytes : Bytes) (pos : Nat) : Nat :=
  if h : pos < bytes.length then
    if isBlank bytes[pos] then skipFrom bytes (pos + 1) else pos
  else pos
termination_by bytes.length - pos

/-- The place behind the left brace. -/
def opening (text : String) : Except ListFault Place :=
  if (toBytes text)[skipFrom (toBytes text) 0]? = some leftBrace then
    .ok ⟨.beforeRange, skipFrom (toBytes text) 0 + 1, skipFrom (toBytes text) 0 + 1, 0⟩
  else .error .missingLeftBrace

/-- The places that a scan of `text` may come to after some turns, whatever becomes of the
literals. -/
inductive Reached (text : String) : (turns : Nat) → Place → Prop where
  | opening {place : Place} (h : opening text = .ok place) : Reached text 0 place
  | next {turns : Nat} {place : Place} {turn : Turn} (h : Reached text turns place)
    (hmode : place.mode ≠ .finished) (hturn : turn? text place = some (.ok turn)) :
    Reached text (turns + 1) (place.next turn)

variable {text literal : String} {bytes : Bytes} {b : UInt8} {place : Place} {turn : Turn}
  {pos : Nat}

/-! ## Reading a byte -/

theorem drop_of_getElem? (h : bytes[pos]? = some b) :
    bytes.drop pos = b :: bytes.drop (pos + 1) := by
  obtain ⟨hpos, rfl⟩ := List.getElem?_eq_some_iff.1 h
  exact List.drop_eq_getElem_cons hpos

theorem lt_of_getElem? (h : bytes[pos]? = some b) : pos < bytes.length :=
  (List.getElem?_eq_some_iff.1 h).1

theorem drop_skipFrom (bytes : Bytes) (pos : Nat) :
    bytes.drop (skipFrom bytes pos) = skipBlanks (bytes.drop pos) := by
  fun_induction skipFrom bytes pos with
  | case1 pos hpos hblank ih =>
    rw [ih, List.drop_eq_getElem_cons hpos]
    exact (List.dropWhile_cons_of_pos hblank).symm
  | case2 pos hpos hblank =>
    rw [List.drop_eq_getElem_cons hpos]
    exact (List.dropWhile_cons_of_neg hblank).symm
  | case3 pos hpos =>
    rw [List.drop_eq_nil_of_le (Nat.le_of_not_lt hpos)]
    rfl

theorem skipFrom_le (h : pos ≤ bytes.length) : skipFrom bytes pos ≤ bytes.length := by
  fun_induction skipFrom bytes pos with
  | case1 pos hpos _ ih => exact ih hpos
  | case2 pos _ _ => exact h
  | case3 pos _ => exact h

theorem startsWithWord?_eq (rest : Bytes) :
    startsWithWord? rest = some (dropWord? rest).isSome := by
  unfold startsWithWord? upTo? dropWord?
  split
  · next hlength =>
    rw [Option.map_some]
    split
    · next hword => rw [decide_eq_true hword, Option.isSome_some]
    · next hword => rw [decide_eq_false hword, Option.isSome_none]
  · next hlength =>
    rw [if_neg]
    · rfl
    · intro hword
      have hlength' := length_of_isWord hword
      rw [List.length_take] at hlength'
      omega

/-- Where an element may start, the slices can be taken, and the word is looked for. -/
theorem from?_bind_startsWithWord? (h : bytes[pos]? = some b) :
    (from? bytes pos).bind startsWithWord? = some (dropWord? (bytes.drop pos)).isSome := by
  unfold from?
  rw [if_pos (Nat.le_of_lt (lt_of_getElem? h)), Option.bind_some, startsWithWord?_eq]

/-! ## The invariant -/

/-- A bracketed part was opened at `start`, before `pos`. -/
structure Opened (text : String) (start pos : Nat) : Prop where
  start_pos : 0 < start
  start_lt : start < pos
  bracket : ∃ b, (toBytes text)[start]? = some b ∧ isOpening b = true

theorem Opened.mono {start pos' : Nat} (h : Opened text start pos) (hle : pos ≤ pos') :
    Opened text start pos' :=
  ⟨h.start_pos, Nat.lt_of_lt_of_le h.start_lt hle, h.bracket⟩

/-- What holds of all places of a scan. -/
structure Place.Fits (text : String) (place : Place) : Prop where
  pos_pos : 0 < place.pos
  pos_le : place.pos ≤ (toBytes text).length
  opened : place.mode.isInside = true → Opened text place.start place.pos
  counted : place.mode = .afterRange → 0 < place.seen

/-- The literal is what stands in the text from the byte that opened the bracketed part up to the
byte that is read, and this is a slice of the text. -/
structure CutsOut (text : String) (place : Place) (literal : String) : Prop where
  start_pos : 0 < place.start
  start_lt : place.start < place.pos
  pos_lt : place.pos < (toBytes text).length
  isBoundary_start : IsBoundary text place.start
  isBoundary_end : IsBoundary text (place.pos + 1)
  slice?_eq : slice? text place.start (place.pos + 1) = some literal

/-- The turn leads to a place of a scan, and hands on nothing but slices and the word. -/
structure Turn.Safe (text : String) (place : Place) (turn : Turn) : Prop where
  fits : (place.next turn).Fits text
  handed : ∀ literal, turn.handed = some literal →
    place.mode = .beforeRange ∧ literal = Element.word.literal ∨
      place.mode = .inRange ∧ CutsOut text place literal

/-- If the answer is a turn and no fault, the turn is safe. -/
def AnswersSafely (text : String) (place : Place) (answer : Except ListFault Turn) : Prop :=
  ∀ turn, answer = .ok turn → turn.Safe text place

theorem answersSafely_ok (h : turn.Safe text place) : AnswersSafely text place (.ok turn) := by
  rintro _ ⟨⟩
  exact h

theorem answersSafely_error {fault : ListFault} : AnswersSafely text place (.error fault) :=
  fun _ h => nomatch h

/-- A closing bracket ends a slice. -/
theorem exists_cutsOut (hopened : Opened text place.start place.pos)
    (hb : (toBytes text)[place.pos]? = some b) (hclosing : isClosing b = true) :
    ∃ literal, CutsOut text place literal := by
  obtain ⟨b', hb', hopening⟩ := hopened.bracket
  have hstart := (isBoundary_of_lt (lt_of_isOpening hopening) hb').1
  have hend := (isBoundary_of_lt (lt_of_isClosing hclosing) hb).2
  have hle : place.start ≤ place.pos + 1 :=
    Nat.le_of_lt (Nat.lt_succ_of_lt hopened.start_lt)
  exact ⟨_, hopened.start_pos, hopened.start_lt, lt_of_getElem? hb, hstart, hend,
    if_pos ⟨hle, hstart, hend⟩⟩

/-! ## Turns keep the invariant -/

/-- The word is not longer than the bytes that it was found in. -/
theorem answersSafely_turnWord (hb : (toBytes text)[place.pos]? = some b)
    (hmode : place.mode = .beforeRange) : AnswersSafely text place
      (turnWord place (dropWord? ((toBytes text).drop place.pos)).isSome) := by
  unfold turnWord
  split
  · next hfound =>
    obtain ⟨rest, hrest⟩ := Option.isSome_iff_exists.1 hfound
    have hlength := length_of_dropWord? hrest
    rw [List.length_drop] at hlength
    refine answersSafely_ok ⟨?_, ?_⟩
    · exact {
        pos_pos := Nat.succ_pos _
        pos_le := by
          have hpos := lt_of_getElem? hb
          show place.pos + (5 - 1) + 1 ≤ _
          omega
        opened := fun h => nomatch h
        counted := fun _ => Nat.succ_pos _ }
    · rintro literal ⟨⟩
      exact .inl ⟨hmode, rfl⟩
  · exact answersSafely_error

section

variable (hfits : place.Fits text) (hb : (toBytes text)[place.pos]? = some b)

include hfits hb

/-- A turn that only changes the mode is safe if it does not enter a bracketed part. -/
theorem safe_turning {mode : Mode}
    (hinside : mode.isInside = true → place.mode.isInside = true)
    (hafter : mode = .afterRange → place.mode = .afterRange) :
    (place.turning mode).Safe text place where
  fits := {
    pos_pos := Nat.succ_pos _
    pos_le := lt_of_getElem? hb
    opened := fun h => (hfits.opened (hinside h)).mono (Nat.le_succ _)
    counted := fun h => hfits.counted (hafter h) }
  handed _ h := nomatch h

theorem exists_safe_turnBefore? (hmode : place.mode = .beforeRange) :
    ∃ answer, turnBefore? (toBytes text) place b = some answer ∧
      AnswersSafely text place answer := by
  unfold turnBefore?
  split
  · exact ⟨_, rfl, answersSafely_ok
      (safe_turning hfits hb (fun h => nomatch h) (fun h => nomatch h))⟩
  split
  · next hopening =>
    refine ⟨_, rfl, answersSafely_ok ⟨?_, fun literal h => nomatch h⟩⟩
    exact {
      pos_pos := Nat.succ_pos _
      pos_le := lt_of_getElem? hb
      opened := fun _ => ⟨hfits.pos_pos, Nat.lt_succ_self _, b, hb, hopening⟩
      counted := fun h => nomatch h }
  split
  · exact ⟨_, rfl, answersSafely_ok
      (safe_turning hfits hb (fun h => nomatch h) (fun h => nomatch h))⟩
  · rw [from?_bind_startsWithWord? hb]
    exact ⟨_, rfl, answersSafely_turnWord hb hmode⟩

theorem exists_safe_turnInRange? (hmode : place.mode = .inRange) :
    ∃ turn, turnInRange? text place b = some turn ∧ turn.Safe text place := by
  have hinside : place.mode.isInside = true := by rw [hmode]; rfl
  unfold turnInRange?
  split
  · exact ⟨_, rfl, safe_turning hfits hb (fun _ => hinside) (fun h => nomatch h)⟩
  split
  · exact ⟨_, rfl, safe_turning hfits hb (fun _ => hinside) (fun h => nomatch h)⟩
  split
  · next hclosing =>
    obtain ⟨literal, hcut⟩ := exists_cutsOut (hfits.opened hinside) hb hclosing
    rw [hcut.slice?_eq]
    refine ⟨_, rfl, ?_, ?_⟩
    · exact {
        pos_pos := Nat.succ_pos _
        pos_le := lt_of_getElem? hb
        opened := fun h => nomatch h
        counted := fun _ => Nat.succ_pos _ }
    · rintro _ ⟨⟩
      exact .inr ⟨hmode, hcut⟩
  · exact ⟨_, rfl, safe_turning hfits hb (fun _ => hinside) (fun h => nomatch h)⟩

theorem safe_turnInQuotes (hmode : place.mode = .inRangeQuoted) :
    (turnInQuotes (toBytes text) place b).Safe text place := by
  have hinside : place.mode.isInside = true := by rw [hmode]; rfl
  unfold turnInQuotes
  split
  · split
    · next hquote =>
      refine ⟨?_, fun literal h => nomatch h⟩
      exact {
        pos_pos := Nat.succ_pos _
        pos_le := lt_of_getElem? hquote
        opened := fun _ => (hfits.opened hinside).mono (Nat.le_add_right _ 2)
        counted := fun h => nomatch h }
    · exact safe_turning hfits hb (fun _ => hinside) (fun h => nomatch h)
  split
  · exact safe_turning hfits hb (fun _ => hinside) (fun h => nomatch h)
  · exact safe_turning hfits hb (fun _ => hinside) (fun h => nomatch h)

theorem answersSafely_turnAfter (hmode : place.mode = .afterRange) :
    AnswersSafely text place (turnAfter place b) := by
  unfold turnAfter
  split
  · exact answersSafely_ok (safe_turning hfits hb (fun h => nomatch h) (fun _ => hmode))
  split
  · exact answersSafely_ok (safe_turning hfits hb (fun h => nomatch h) (fun h => nomatch h))
  split
  · exact answersSafely_ok (safe_turning hfits hb (fun h => nomatch h) (fun h => nomatch h))
  · exact answersSafely_error

end

/-- At a place of a scan that is not finished there is a turn, and it is safe. -/
theorem exists_safe_turn (hfits : place.Fits text) (hmode : place.mode ≠ .finished) :
    ∃ answer, turn? text place = some answer ∧ AnswersSafely text place answer := by
  unfold turn?
  split
  · exact ⟨_, rfl, answersSafely_error⟩
  · next b hb =>
    cases h : place.mode with
    | beforeRange => exact exists_safe_turnBefore? hfits hb h
    | inRange =>
      obtain ⟨turn, hturn, hsafe⟩ := exists_safe_turnInRange? hfits hb h
      exact ⟨.ok turn, Option.map_eq_some_iff.2 ⟨turn, hturn, rfl⟩, answersSafely_ok hsafe⟩
    | inRangeEscaped =>
      exact ⟨_, rfl, answersSafely_ok
        (safe_turning hfits hb (fun _ => by rw [h]; rfl) (fun h => nomatch h))⟩
    | inRangeQuoted => exact ⟨_, rfl, answersSafely_ok (safe_turnInQuotes hfits hb h)⟩
    | inRangeQuotedEscaped =>
      exact ⟨_, rfl, answersSafely_ok
        (safe_turning hfits hb (fun _ => by rw [h]; rfl) (fun h => nomatch h))⟩
    | afterRange => exact ⟨_, rfl, answersSafely_turnAfter hfits hb h⟩
    | finished => exact absurd h hmode

/-! ## Whole scans -/

theorem fits_opening (h : opening text = .ok place) : place.Fits text := by
  unfold opening at h
  split at h
  · next hbrace =>
    cases h
    exact {
      pos_pos := Nat.succ_pos _
      pos_le := lt_of_getElem? hbrace
      opened := fun h => nomatch h
      counted := fun h => nomatch h }
  · cases h

theorem fits_next (hfits : place.Fits text) (hmode : place.mode ≠ .finished)
    (hturn : turn? text place = some (.ok turn)) : (place.next turn).Fits text := by
  obtain ⟨answer, hanswer, hsafe⟩ := exists_safe_turn hfits hmode
  rw [hturn] at hanswer
  cases hanswer
  exact (hsafe turn rfl).fits

theorem Reached.fits {turns : Nat} (h : Reached text turns place) : place.Fits text := by
  induction h with
  | opening h => exact fits_opening h
  | next _ hmode hturn ih => exact fits_next ih hmode hturn

theorem pos_lt_pos_next (place : Place) (turn : Turn) : place.pos < (place.next turn).pos :=
  Nat.lt_succ_of_le (Nat.le_add_right _ _)

/-- Since all turns go forward, there are no more of them than bytes. -/
theorem Reached.turns_lt {turns : Nat} (h : Reached text turns place) : turns < place.pos := by
  induction h with
  | opening h => exact (fits_opening h).pos_pos
  | next _ _ _ ih => exact Nat.lt_of_le_of_lt ih (pos_lt_pos_next _ _)

end RangeUnion.BracedList
