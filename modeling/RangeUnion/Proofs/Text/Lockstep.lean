import RangeUnion.Multirange.Literal
import RangeUnion.Proofs.Feed
import RangeUnion.Proofs.Text.Automaton
import RangeUnion.Proofs.Text.Completion

/-!
# The automaton in step with the scan

What a scan still feeds at a place is determined by the bytes from there on, and by what was taken
of a bracketed part (`Place.feed`). One turn of the automaton hands on the first of it, or nothing,
and leaves the rest (`Place.Follows`, `follows`). So the automaton, run to its end with whatever is
done with the literals, comes to the same as the scan, and no slice is missing (`drive?_eq`,
`scanText?_eq`).
-/

namespace RangeUnion

/-- The feed with some elements before it. -/
def Feed.prepend {β : Type} (front : List β) (feed : Feed β) : Feed β :=
  { feed with elements := front ++ feed.elements }

namespace BracedList

open Text

variable {text : String} {bytes rest tail taken : Bytes} {b : UInt8} {place : Place} {turn : Turn}
  {element : Element} {seen : Nat} {quoted : Bool}

/-! ## What is left of a scan -/

/-- The scan of a list that ends too soon. -/
def tooShort : Scan := ⟨[], some ⟨.unexpectedEnd, []⟩⟩

/-- Scan where an element may start, when `seen` elements were cut before. -/
def before (seen : Nat) (bytes : Bytes) : Scan :=
  if seen = 0 then scanBody bytes else scanElements bytes

/-- Scan in a bracketed part of which `taken` was read. -/
def inside (quoted : Bool) (taken bytes : Bytes) : Scan :=
  match cutTail quoted bytes with
  | none => tooShort
  | some (tail, rest) => (behind rest).cons (.bracketed (taken ++ tail))

/-- Scan in a bracketed part from an escaped byte on. -/
def escaped (quoted : Bool) (taken : Bytes) : Bytes → Scan
  | [] => tooShort
  | b :: bytes => inside quoted (taken ++ [b]) bytes

theorem skipBlanks_cons_of_isBlank (h : isBlank b = true) :
    skipBlanks (b :: bytes) = skipBlanks bytes := List.dropWhile_cons_of_pos h

theorem skipBlanks_cons_of_not_isBlank (h : isBlank b = false) :
    skipBlanks (b :: bytes) = b :: bytes := skipBlanks_of_solid (solid_cons h)

theorem behind_of_isBlank (h : isBlank b = true) : behind (b :: bytes) = behind bytes := by
  unfold behind
  rw [skipBlanks_cons_of_isBlank h]

theorem behind_of_not_isBlank (h : isBlank b = false) : behind (b :: bytes) =
    if b = comma then scanElements bytes
    else if b = rightBrace then ⟨[], ending bytes⟩
    else ⟨[], some ⟨.expectedCommaOrEnd, b :: bytes⟩⟩ := by
  unfold behind
  rw [skipBlanks_cons_of_not_isBlank h]

theorem before_of_isBlank (h : isBlank b = true) :
    before seen (b :: bytes) = before seen bytes := by
  unfold before scanBody
  rw [scanElements_congr (skipBlanks_cons_of_isBlank h), skipBlanks_cons_of_isBlank h]

theorem before_rightBrace (bytes : Bytes) :
    before 0 (rightBrace :: bytes) = ⟨[], ending bytes⟩ := rfl

theorem before_of_solid (hblank : isBlank b = false) (h : ¬ (b = rightBrace ∧ seen = 0)) :
    before seen (b :: bytes) = scanElements (b :: bytes) := by
  unfold before
  split
  · next hseen =>
    rw [scanBody_of_cons (skipBlanks_cons_of_not_isBlank hblank),
      if_neg fun hbrace => h ⟨hbrace, hseen⟩]
  · rfl

theorem scanElements_opening (h : isOpening b = true) :
    scanElements (b :: bytes) = inside false [b] bytes := by
  have hskip : skipBlanks (b :: bytes) = b :: bytes :=
    skipBlanks_cons_of_not_isBlank (isBlank_of_isOpening h).1
  unfold inside
  cases hcut : cutTail false bytes with
  | none =>
    refine scanElements_of_error ?_
    rw [hskip]
    exact cutElement_unclosed h hcut
  | some found =>
    refine scanElements_of_element ?_
    rw [hskip]
    exact cutElement_closed h hcut

theorem scanElements_word (hblank : isBlank b = false) (hopening : isOpening b = false)
    (h : dropWord? (b :: bytes) = some rest) :
    scanElements (b :: bytes) = (behind rest).cons .word := by
  refine scanElements_of_element ?_
  rw [skipBlanks_cons_of_not_isBlank hblank]
  exact cutElement_word hopening h

theorem scanElements_neither (hblank : isBlank b = false) (hopening : isOpening b = false)
    (h : dropWord? (b :: bytes) = none) :
    scanElements (b :: bytes) = ⟨[], some ⟨.expectedRangeStart, b :: bytes⟩⟩ := by
  refine scanElements_of_error ?_
  rw [skipBlanks_cons_of_not_isBlank hblank]
  exact cutElement_neither hopening h

theorem eq_drop_of_dropWord? (h : dropWord? bytes = some rest) :
    rest = bytes.drop emptyWord.length := by
  unfold dropWord? at h
  split at h
  · cases h
    rfl
  · cases h

theorem inside_of_prepend {quoted' : Bool} {front : Bytes}
    (h : cutTail quoted bytes = prepend front (cutTail quoted' rest)) :
    inside quoted taken bytes = inside quoted' (taken ++ front) rest := by
  unfold inside
  rw [h]
  cases cutTail quoted' rest with
  | none => rfl
  | some found =>
    show (behind found.2).cons (.bracketed (taken ++ (front ++ found.1))) = _
    rw [← List.append_assoc]

theorem inside_backslash : inside quoted taken (backslash :: bytes) =
    escaped quoted (taken ++ [backslash]) bytes := by
  cases bytes with
  | nil => cases quoted <;> rfl
  | cons b bytes =>
    rw [inside_of_prepend (cutTail_escaped quoted), List.append_cons]
    rfl

theorem inside_closing (h : isClosing b = true) :
    inside false taken (b :: bytes) = (behind bytes).cons (.bracketed (taken ++ [b])) := by
  unfold inside
  rw [cutTail_closing h]

/-- Scan on in some mode. -/
def scanFrom (mode : Mode) (seen : Nat) (taken bytes : Bytes) : Scan :=
  match mode with
  | .beforeRange => before seen bytes
  | .inRange => inside false taken bytes
  | .inRangeEscaped => escaped false taken bytes
  | .inRangeQuoted => inside true taken bytes
  | .inRangeQuotedEscaped => escaped true taken bytes
  | .afterRange => behind bytes
  | .finished => ⟨[], ending bytes⟩

theorem scanFrom_nil {mode : Mode} (h : mode ≠ .finished) :
    scanFrom mode seen taken [] = tooShort := by
  have hcut : cutElement (skipBlanks []) = .error ⟨.unexpectedEnd, []⟩ := rfl
  cases mode with
  | beforeRange =>
    show before seen [] = tooShort
    unfold before
    split
    · rfl
    · exact scanElements_of_error hcut
  | inRange => rfl
  | inRangeEscaped => rfl
  | inRangeQuoted => rfl
  | inRangeQuotedEscaped => rfl
  | afterRange => rfl
  | finished => exact absurd rfl h

/-- The bytes of the bracketed part that were read. -/
def Place.part (bytes : Bytes) (place : Place) : Bytes := (bytes.take place.pos).drop place.start

/-- What the scan still makes of the bytes, at a place. -/
def Place.remaining (bytes : Bytes) (place : Place) : Scan :=
  scanFrom place.mode place.seen (place.part bytes) (bytes.drop place.pos)

/-- The literals that a scan of `text` feeds. -/
def Scan.feed (text : String) (scan : Scan) : Feed String :=
  ⟨scan.elements.map Element.literal, scan.failure.map (Failure.error text)⟩

/-- What is still fed at a place. -/
def Place.feed (text : String) (place : Place) : Feed String :=
  (place.remaining (toBytes text)).feed text

/-! ## One turn -/

/-- What a turn comes to is the first of what is fed at the place. -/
def Place.Follows (text : String) (place : Place) : Except ListFault Turn → Prop
  | .error fault => place.feed text = ⟨[], some (.malformedLiteral text fault)⟩
  | .ok turn => place.feed text = ((place.next turn).feed text).prepend turn.handed.toList

theorem follows_of_remaining (hhanded : turn.handed = none)
    (h : place.remaining (toBytes text) = (place.next turn).remaining (toBytes text)) :
    place.Follows text (.ok turn) := by
  show place.feed text = ((place.next turn).feed text).prepend turn.handed.toList
  rw [hhanded, Place.feed, h]
  rfl

theorem follows_of_element (hhanded : turn.handed = some element.literal)
    (h : place.remaining (toBytes text) =
      ((place.next turn).remaining (toBytes text)).cons element) :
    place.Follows text (.ok turn) := by
  show place.feed text = ((place.next turn).feed text).prepend turn.handed.toList
  rw [hhanded, Place.feed, h]
  rfl

theorem follows_of_failure {fault : ListFault} {unread : Bytes}
    (h : place.remaining (toBytes text) = ⟨[], some ⟨fault, unread⟩⟩) :
    place.Follows text (.error fault) := by
  show place.feed text = ⟨[], some (.malformedLiteral text fault)⟩
  rw [Place.feed, h]
  rfl

theorem drop_take_succ {start pos : Nat} (hb : bytes[pos]? = some b) (h : start ≤ pos) :
    (bytes.take (pos + 1)).drop start = (bytes.take pos).drop start ++ [b] := by
  have hpos := lt_of_getElem? hb
  rw [List.take_add_one, hb, Option.toList_some, List.drop_append_of_le_length]
  rwa [List.length_take_of_le (Nat.le_of_lt hpos)]

theorem Place.remaining_eq (hb : bytes[place.pos]? = some b) : place.remaining bytes =
    scanFrom place.mode place.seen (place.part bytes) (b :: bytes.drop (place.pos + 1)) := by
  rw [Place.remaining, drop_of_getElem? hb]

/-- A turn that only changes the mode takes the byte that it reads. -/
theorem follows_turning {mode : Mode} (hb : (toBytes text)[place.pos]? = some b)
    (hstart : place.start ≤ place.pos)
    (h : place.remaining (toBytes text) = scanFrom mode place.seen
      (place.part (toBytes text) ++ [b]) ((toBytes text).drop (place.pos + 1))) :
    place.Follows text (.ok (place.turning mode)) := by
  refine follows_of_remaining rfl (h.trans ?_)
  rw [Place.part, ← drop_take_succ hb hstart]
  rfl

section

variable (hb : (toBytes text)[place.pos]? = some b)

include hb

theorem follows_turnBefore? (hmode : place.mode = .beforeRange) {answer : Except ListFault Turn}
    (hanswer : turnBefore? (toBytes text) place b = some answer) : place.Follows text answer := by
  have hplace := place.remaining_eq hb
  rw [hmode] at hplace
  unfold turnBefore? at hanswer
  split at hanswer
  · next hblank =>
    cases hanswer
    exact follows_of_remaining rfl (hplace.trans (before_of_isBlank hblank))
  next hblank =>
  rw [Bool.not_eq_true] at hblank
  split at hanswer
  · next hopening =>
    cases hanswer
    have hpart : ((toBytes text).take (place.pos + 1)).drop place.pos = [b] := by
      rw [drop_take_succ hb (Nat.le_refl _), List.drop_eq_nil_of_le (List.length_take_le _ _)]
      rfl
    refine follows_of_remaining rfl (hplace.trans ?_)
    show before _ _ = inside false (((toBytes text).take (place.pos + 1)).drop place.pos) _
    rw [hpart, before_of_solid hblank fun h => (isBlank_of_isOpening hopening).2 h.1]
    exact scanElements_opening hopening
  next hopening =>
  rw [Bool.not_eq_true] at hopening
  split at hanswer
  · next hbrace =>
    cases hanswer
    rw [hbrace.1, hbrace.2] at hplace
    exact follows_of_remaining rfl (hplace.trans (before_rightBrace _))
  next hbrace =>
  have hplace := hplace.trans (before_of_solid hblank hbrace)
  rw [from?_bind_startsWithWord? hb, Option.map_some, drop_of_getElem? hb] at hanswer
  unfold turnWord at hanswer
  cases hword : dropWord? (b :: (toBytes text).drop (place.pos + 1)) with
  | none =>
    rw [hword] at hanswer
    cases hanswer
    exact follows_of_failure (hplace.trans (scanElements_neither hblank hopening hword))
  | some rest =>
    rw [hword] at hanswer
    cases hanswer
    refine @follows_of_element _ _ _ .word rfl ?_
    rw [hplace, scanElements_word hblank hopening hword, eq_drop_of_dropWord? hword,
      ← drop_of_getElem? hb, List.drop_drop]
    rfl

theorem follows_turnAfter (hcounted : 0 < place.seen) (hmode : place.mode = .afterRange) :
    place.Follows text (turnAfter place b) := by
  have hplace := place.remaining_eq hb
  rw [hmode] at hplace
  unfold turnAfter
  split
  · next hblank => exact follows_of_remaining rfl (hplace.trans (behind_of_isBlank hblank))
  next hblank =>
  rw [Bool.not_eq_true] at hblank
  have hplace := hplace.trans (behind_of_not_isBlank hblank)
  split
  · next hcomma =>
    rw [if_pos hcomma] at hplace
    exact follows_of_remaining rfl (hplace.trans (if_neg (Nat.ne_of_gt hcounted)).symm)
  next hcomma =>
  rw [if_neg hcomma] at hplace
  split
  · next hbrace =>
    rw [if_pos hbrace] at hplace
    exact follows_of_remaining rfl hplace
  · next hbrace =>
    rw [if_neg hbrace] at hplace
    exact follows_of_failure hplace

theorem follows_turnInRange? (hstart : place.start ≤ place.pos) (hmode : place.mode = .inRange)
    (hturn : turnInRange? text place b = some turn) : place.Follows text (.ok turn) := by
  have hplace := place.remaining_eq hb
  rw [hmode] at hplace
  unfold turnInRange? at hturn
  split at hturn
  · next hquote =>
    cases hturn
    subst hquote
    exact follows_turning hb hstart (hplace.trans (inside_of_prepend cutTail_opening_quote))
  next hquote =>
  split at hturn
  · next hbackslash =>
    cases hturn
    subst hbackslash
    exact follows_turning hb hstart (hplace.trans inside_backslash)
  next hbackslash =>
  split at hturn
  · next hclosing =>
    obtain ⟨literal, hslice, rfl⟩ := Option.map_eq_some_iff.1 hturn
    have hliteral : literal = ofBytes (place.part (toBytes text) ++ [b]) := by
      rw [Place.part, ← drop_take_succ hb hstart]
      unfold slice? at hslice
      split at hslice
      · exact (Option.some.inj hslice).symm
      · cases hslice
    rw [hliteral]
    exact @follows_of_element _ _ _ (.bracketed (place.part (toBytes text) ++ [b])) rfl
      (hplace.trans (inside_closing hclosing))
  · next hclosing =>
    cases hturn
    rw [Bool.not_eq_true] at hclosing
    exact follows_turning hb hstart
      (hplace.trans (inside_of_prepend (cutTail_plain hquote hbackslash (.inr hclosing))))

theorem follows_turnInQuotes (hstart : place.start ≤ place.pos)
    (hmode : place.mode = .inRangeQuoted) :
    place.Follows text (.ok (turnInQuotes (toBytes text) place b)) := by
  have hplace := place.remaining_eq hb
  rw [hmode] at hplace
  unfold turnInQuotes
  split
  · next hquote =>
    subst hquote
    split
    · next hdoubled =>
      have hpart : ((toBytes text).take (place.pos + 2)).drop place.start =
          place.part (toBytes text) ++ [quote, quote] := by
        rw [drop_take_succ hdoubled (Nat.le_succ_of_le hstart), drop_take_succ hb hstart,
          List.append_assoc]
        rfl
      rw [drop_of_getElem? hdoubled] at hplace
      refine follows_of_remaining rfl (hplace.trans ?_)
      show _ = inside true (((toBytes text).take (place.pos + 2)).drop place.start) _
      rw [hpart]
      exact inside_of_prepend cutTail_doubled
    · next hsingle =>
      rw [← List.head?_drop] at hsingle
      exact follows_turning hb hstart
        (hplace.trans (inside_of_prepend (cutTail_closing_quote hsingle)))
  next hquote =>
  split
  · next hbackslash =>
    subst hbackslash
    exact follows_turning hb hstart (hplace.trans inside_backslash)
  · next hbackslash =>
    exact follows_turning hb hstart
      (hplace.trans (inside_of_prepend (cutTail_plain hquote hbackslash (.inl rfl))))

end

/-- What a turn hands on, and where it leads to, is what the scan makes of the bytes. -/
theorem follows (hfits : place.Fits text) (hmode : place.mode ≠ .finished)
    {answer : Except ListFault Turn} (hturn : turn? text place = some answer) :
    place.Follows text answer := by
  unfold turn? at hturn
  split at hturn
  · next hend =>
    cases hturn
    refine @follows_of_failure _ _ _ [] ?_
    rw [Place.remaining, List.drop_eq_nil_of_le (List.getElem?_eq_none_iff.1 hend)]
    exact scanFrom_nil hmode
  · next b hb =>
    have hstart (h : place.mode.isInside = true) : place.start ≤ place.pos :=
      Nat.le_of_lt (hfits.opened h).start_lt
    have hplace := place.remaining_eq hb
    cases h : place.mode with
    | beforeRange =>
      rw [h] at hturn
      exact follows_turnBefore? hb h hturn
    | inRange =>
      rw [h] at hturn
      obtain ⟨turn, hinside, rfl⟩ := Option.map_eq_some_iff.1 hturn
      exact follows_turnInRange? hb (hstart (h ▸ rfl)) h hinside
    | inRangeEscaped =>
      rw [h] at hturn hplace
      cases hturn
      exact follows_turning hb (hstart (h ▸ rfl)) hplace
    | inRangeQuoted =>
      rw [h] at hturn
      cases hturn
      exact follows_turnInQuotes hb (hstart (h ▸ rfl)) h
    | inRangeQuotedEscaped =>
      rw [h] at hturn hplace
      cases hturn
      exact follows_turning hb (hstart (h ▸ rfl)) hplace
    | afterRange =>
      rw [h] at hturn
      cases hturn
      exact follows_turnAfter hb (hfits.counted h) h
    | finished => exact absurd h hmode

/-! ## The ends of a scan -/

theorem skipBlanks_toBytes (text : String) :
    skipBlanks (toBytes text) = (toBytes text).drop (skipFrom (toBytes text) 0) := by
  rw [drop_skipFrom, List.drop_zero]

theorem literals_of_opening_ok (h : opening text = .ok place) :
    literals text = place.feed text := by
  unfold opening at h
  split at h
  · next hbrace =>
    cases h
    have hskip := skipBlanks_toBytes text
    rw [drop_of_getElem? hbrace] at hskip
    show (scan (toBytes text)).feed text = _
    rw [scan_of_cons hskip, if_pos rfl]
    rfl
  · cases h

theorem literals_of_opening_error {fault : ListFault} (h : opening text = .error fault) :
    literals text = ⟨[], some (.malformedLiteral text fault)⟩ := by
  unfold opening at h
  split at h
  · cases h
  · next hbrace =>
    cases h
    show (scan (toBytes text)).feed text = _
    rw [← List.head?_drop, ← skipBlanks_toBytes] at hbrace
    cases hskip : skipBlanks (toBytes text) with
    | nil =>
      unfold scan
      rw [hskip]
      rfl
    | cons b after =>
      rw [hskip] at hbrace
      have hb : b ≠ leftBrace := fun hb => hbrace (congrArg some hb)
      rw [scan_of_cons hskip, if_neg hb]
      rfl

theorem feed_finished (hmode : place.mode = .finished) (hfits : place.Fits text) :
    place.feed text = ⟨[], if skipFrom (toBytes text) place.pos = (toBytes text).length then none
      else some (.malformedLiteral text .junkAfterRightBrace)⟩ := by
  have hplace : place.remaining (toBytes text) =
      ⟨[], ending ((toBytes text).drop place.pos)⟩ := by
    rw [Place.remaining, hmode]
    rfl
  rw [Place.feed, hplace, ending, ← drop_skipFrom]
  by_cases hskip : skipFrom (toBytes text) place.pos = (toBytes text).length
  · rw [if_pos hskip, hskip, List.drop_length]
    rfl
  · have hlt := Nat.lt_of_le_of_ne (skipFrom_le hfits.pos_le) hskip
    rw [if_neg hskip, List.drop_eq_getElem_cons hlt]
    rfl

theorem pos_lt_of_turn? (h : turn? text place = some (.ok turn)) :
    place.pos < (toBytes text).length := by
  unfold turn? at h
  split at h
  · cases h
  · next hb => exact lt_of_getElem? hb

/-! ## Whole scans -/

variable {γ : Type} {m : Type → Type} [Monad m]

set_option linter.unusedVariables false in
/-- Run the automaton from a place on. Each literal is given to `f`, and the first one that is not
accepted ends the run. There is no outcome if a slice is missing. -/
def drive? (text : String) (f : String → m (Except Error γ)) (place : Place) :
    m (Option (Except Error (List γ))) :=
  if place.mode = .finished then
    if skipFrom (toBytes text) place.pos = (toBytes text).length then return some (.ok [])
    else return some (.error (.malformedLiteral text .junkAfterRightBrace))
  else
    match h : turn? text place with
    | none => return none
    | some (.error fault) => return some (.error (.malformedLiteral text fault))
    | some (.ok turn) =>
      match turn.handed with
      | none => drive? text f (place.next turn)
      | some literal => do
        match ← f literal with
        | .error e => return some (.error e)
        | .ok y => return (← drive? text f (place.next turn)).map (Except.map (y :: ·))
termination_by (toBytes text).length - place.pos
decreasing_by
  all_goals
    have hpos := pos_lt_of_turn? h
    show _ - (place.pos + turn.skipped + 1) < _
    omega

/-- Run the automaton over a whole text. -/
def scanText? (text : String) (f : String → m (Except Error γ)) :
    m (Option (Except Error (List γ))) :=
  match opening text with
  | .error fault => return some (.error (.malformedLiteral text fault))
  | .ok place => drive? text f place

variable [LawfulMonad m]

/-- By induction along the run. Each turn hands on the first of what is fed at the place. -/
theorem drive?_eq (f : String → m (Except Error γ)) (hfits : place.Fits text) :
    drive? text f place = some <$> (place.feed text).collect f := by
  fun_induction drive? text f place with
  | case1 place hmode hskip =>
    rw [feed_finished hmode hfits, if_pos hskip, Feed.collect_nil, map_pure]
    rfl
  | case2 place hmode hskip =>
    rw [feed_finished hmode hfits, if_neg hskip, Feed.collect_nil, map_pure]
    rfl
  | case3 place hmode hnone =>
    obtain ⟨answer, hturn, _⟩ := exists_safe_turn hfits hmode
    rw [hnone] at hturn
    cases hturn
  | case4 place hmode fault hturn =>
    have hfollows : place.feed text = _ := follows hfits hmode hturn
    rw [hfollows, Feed.collect_nil, map_pure]
    rfl
  | case5 place hmode turn hturn hhanded ih =>
    have hfollows : place.feed text = _ := follows hfits hmode hturn
    rw [ih (fits_next hfits hmode hturn), hfollows, hhanded]
    rfl
  | case6 place hmode turn hturn literal hhanded ih =>
    have hfollows : place.feed text =
        ⟨literal :: ((place.next turn).feed text).elements,
          ((place.next turn).feed text).failure⟩ := by
      have hfollows : place.feed text = _ := follows hfits hmode hturn
      rw [hfollows, hhanded]
      rfl
    rw [hfollows, Feed.collect_cons, map_bind]
    refine bind_congr fun answer => ?_
    cases answer with
    | error e => rw [map_pure]
    | ok y =>
      rw [ih (fits_next hfits hmode hturn)]
      simp only [← bind_pure_comp, bind_assoc, pure_bind]
      rfl

/-- The automaton, run over a whole text, does as the scan, and no slice is missing. -/
theorem scanText?_eq (text : String) (f : String → m (Except Error γ)) :
    scanText? text f = some <$> (literals text).collect f := by
  unfold scanText?
  cases h : opening text with
  | error fault =>
    rw [literals_of_opening_error h, Feed.collect_nil, map_pure]
    rfl
  | ok place => rw [literals_of_opening_ok h, ← drive?_eq f (fits_opening h)]

end BracedList

end RangeUnion
