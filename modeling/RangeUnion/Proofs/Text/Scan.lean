import Mathlib.Data.List.TakeWhile
import RangeUnion.Proofs.Text.Grammar

/-!
# Scanning is deriving

A scan of bytes that the grammar derives cuts the elements of the derivation (`scan_tree`), and a
scan of bytes that stop being a list cuts the phrases in front of the place where they do, and
reports that place (`scan_of_stops`). Since all bytes are of one kind or the other
(`stops_or_tree`), this is all that a scan may come to (`scan_eq_iff`). Each cut has two lemmas:
written out, what a derivation holds is cut off, and what is cut off is what some derivation holds.
-/

namespace RangeUnion.BracedList

variable {bytes rest tail : Bytes} {b : UInt8} {phrases : List Phrase} {failure : Failure}

/-! ## One step of cutting -/

theorem prepend_prepend (front front' : Bytes) (cut : Option (Bytes × Bytes)) :
    prepend front (prepend front' cut) = prepend (front ++ front') cut := by
  cases cut with
  | none => rfl
  | some found => simp [prepend]

theorem cutTail_cons (quoted : Bool) (b : UInt8) (bytes : Bytes) : cutTail quoted (b :: bytes) =
    if b = backslash then
      match bytes with
      | [] => none
      | c :: bytes => prepend [b, c] (cutTail quoted bytes)
    else if b = quote then
      match quoted, bytes with
      | true, c :: bytes =>
        if c = quote then prepend [b, c] (cutTail true bytes)
        else prepend [b] (cutTail false (c :: bytes))
      | true, [] => none
      | false, bytes => prepend [b] (cutTail true bytes)
    else if isClosing b && !quoted then some ([b], bytes)
    else prepend [b] (cutTail quoted bytes) := cutTail.eq_def quoted (b :: bytes)

theorem cutTail_plain {quoted : Bool} (hquote : b ≠ quote) (hbackslash : b ≠ backslash)
    (h : quoted = true ∨ isClosing b = false) :
    cutTail quoted (b :: bytes) = prepend [b] (cutTail quoted bytes) := by
  rw [cutTail_cons, if_neg hbackslash, if_neg hquote, if_neg]
  rcases h with rfl | h
  · simp
  · simp [h]

theorem cutTail_escaped (quoted : Bool) : cutTail quoted (backslash :: b :: bytes) =
    prepend [backslash, b] (cutTail quoted bytes) := by
  rw [cutTail_cons, if_pos rfl]

theorem cutTail_opening_quote :
    cutTail false (quote :: bytes) = prepend [quote] (cutTail true bytes) := by
  rw [cutTail_cons, if_neg (by decide), if_pos rfl]

theorem cutTail_doubled : cutTail true (quote :: quote :: bytes) =
    prepend [quote, quote] (cutTail true bytes) := by
  rw [cutTail_cons, if_neg (by decide), if_pos rfl]
  exact if_pos rfl

theorem cutTail_closing_quote (h : bytes.head? ≠ some quote) :
    cutTail true (quote :: bytes) = prepend [quote] (cutTail false bytes) := by
  rw [cutTail_cons, if_neg (by decide), if_pos rfl]
  cases bytes with
  | nil => rfl
  | cons c bytes =>
    apply if_neg
    rintro rfl
    exact h rfl

theorem cutTail_closing (h : isClosing b = true) :
    cutTail false (b :: bytes) = some ([b], bytes) := by
  have hb : b = 0x5D ∨ b = 0x29 := by simpa [isClosing] using h
  rw [cutTail_cons, if_neg, if_neg, if_pos]
  · simp [h]
  · rcases hb with rfl | rfl <;> decide
  · rcases hb with rfl | rfl <;> decide

/-! ## Cutting what is derived -/

theorem cutTail_parts (parts : List QuotedPart) :
    cutTail true (parts.flatMap QuotedPart.bytes ++ bytes) =
      prepend (parts.flatMap QuotedPart.bytes) (cutTail true bytes) := by
  induction parts with
  | nil => cases h : cutTail true bytes <;> simp [prepend, h]
  | cons part parts ih =>
    rw [List.flatMap_cons, List.append_assoc]
    cases part with
    | plain b hquote hbackslash =>
      show cutTail true (b :: (parts.flatMap QuotedPart.bytes ++ bytes)) = _
      rw [cutTail_plain hquote hbackslash (.inl rfl), ih, prepend_prepend]
      rfl
    | escaped b =>
      show cutTail true (backslash :: b :: (parts.flatMap QuotedPart.bytes ++ bytes)) = _
      rw [cutTail_escaped, ih, prepend_prepend]
      rfl
    | doubled =>
      show cutTail true (quote :: quote :: (parts.flatMap QuotedPart.bytes ++ bytes)) = _
      rw [cutTail_doubled, ih, prepend_prepend]
      rfl

theorem cutTail_item (item : Item) (h : item.Before bytes) :
    cutTail false (item.bytes ++ bytes) = prepend item.bytes (cutTail false bytes) := by
  cases item with
  | plain b hquote hbackslash hclosing =>
    exact cutTail_plain hquote hbackslash (.inr hclosing)
  | escaped b => exact cutTail_escaped false
  | quoted parts =>
    rw [Item.quoted_bytes_append, cutTail_opening_quote, cutTail_parts, cutTail_closing_quote h,
      prepend_prepend, prepend_prepend]
    rfl

/-- Items and a closing bracket are cut off. -/
theorem cutTail_items {items : List Item} {closing : UInt8} (hitems : Apart items)
    (hclosing : isClosing closing = true) :
    cutTail false (items.flatMap Item.bytes ++ closing :: rest) =
      some (items.flatMap Item.bytes ++ [closing], rest) := by
  induction items with
  | nil => exact cutTail_closing hclosing
  | cons item items ih =>
    have hbefore : item.Before (items.flatMap Item.bytes ++ closing :: rest) :=
      item.before_of_apart hitems hclosing
    rw [List.flatMap_cons, List.append_assoc, cutTail_item item hbefore, ih hitems.tail, prepend,
      Option.map_some, List.append_assoc]

/-! ## Deriving what is cut -/

/-- `tail` is derived from the place where a bracketed phrase is open, and a quoted run with it
if `quoted` says so. -/
def DerivesTail (quoted : Bool) (tail : Bytes) : Prop :=
  match quoted with
  | false => ∃ (items : List Item) (closing : UInt8), Apart items ∧ isClosing closing = true ∧
      tail = items.flatMap Item.bytes ++ [closing]
  | true => ∃ (parts : List QuotedPart) (items : List Item) (closing : UInt8), Apart items ∧
      ¬ StartsQuoted items ∧ isClosing closing = true ∧
      tail = parts.flatMap QuotedPart.bytes ++
        quote :: (items.flatMap Item.bytes ++ [closing])

theorem derivesTail_plain {quoted : Bool} (hquote : b ≠ quote) (hbackslash : b ≠ backslash)
    (hclosing : quoted = true ∨ isClosing b = false) (h : DerivesTail quoted tail) :
    DerivesTail quoted (b :: tail) := by
  cases quoted with
  | false =>
    obtain ⟨items, closing, hitems, hcloses, rfl⟩ := h
    have hopen : isClosing b = false := by simpa using hclosing
    exact ⟨.plain b hquote hbackslash hopen :: items, closing, hitems, hcloses, rfl⟩
  | true =>
    obtain ⟨parts, items, closing, hitems, hstart, hcloses, rfl⟩ := h
    exact ⟨.plain b hquote hbackslash :: parts, items, closing, hitems, hstart, hcloses, rfl⟩

theorem derivesTail_escaped {quoted : Bool} (b : UInt8) (h : DerivesTail quoted tail) :
    DerivesTail quoted (backslash :: b :: tail) := by
  cases quoted with
  | false =>
    obtain ⟨items, closing, hitems, hcloses, rfl⟩ := h
    exact ⟨.escaped b :: items, closing, hitems, hcloses, rfl⟩
  | true =>
    obtain ⟨parts, items, closing, hitems, hstart, hcloses, rfl⟩ := h
    exact ⟨.escaped b :: parts, items, closing, hitems, hstart, hcloses, rfl⟩

theorem derivesTail_doubled (h : DerivesTail true tail) :
    DerivesTail true (quote :: quote :: tail) := by
  obtain ⟨parts, items, closing, hitems, hstart, hcloses, rfl⟩ := h
  exact ⟨.doubled :: parts, items, closing, hitems, hstart, hcloses, rfl⟩

theorem derivesTail_opening_quote (h : DerivesTail true tail) :
    DerivesTail false (quote :: tail) := by
  obtain ⟨parts, items, closing, hitems, hstart, hcloses, rfl⟩ := h
  refine ⟨.quoted parts :: items, closing, ⟨hstart, hitems⟩, hcloses, ?_⟩
  rw [List.flatMap_cons, List.append_assoc, Item.quoted_bytes_append]

theorem derivesTail_closing_quote (h : DerivesTail false tail) (hhead : tail.head? ≠ some quote) :
    DerivesTail true (quote :: tail) := by
  obtain ⟨items, closing, hitems, hcloses, rfl⟩ := h
  refine ⟨[], items, closing, hitems, ?_, hcloses, rfl⟩
  intro hstart
  cases items with
  | nil => exact hstart
  | cons item items =>
    cases item with
    | plain b _ _ _ => exact hstart
    | escaped b => exact hstart
    | quoted parts => exact hhead rfl

/-- What is cut off is derived. -/
theorem derivesTail_of_cutTail {quoted : Bool} (h : cutTail quoted bytes = some (tail, rest)) :
    DerivesTail quoted tail := by
  fun_induction cutTail quoted bytes generalizing tail rest with
  | case1 => cases h
  | case2 => cases h
  | case3 quoted c bytes ih =>
    obtain ⟨tail, hcut, rfl⟩ := prepend_eq_some h
    exact derivesTail_escaped c (ih hcut)
  | case4 bytes _ ih =>
    obtain ⟨tail, hcut, rfl⟩ := prepend_eq_some h
    exact derivesTail_doubled (ih hcut)
  | case5 c bytes hc _ ih =>
    obtain ⟨tail, hcut, rfl⟩ := prepend_eq_some h
    apply derivesTail_closing_quote (ih hcut)
    intro hhead
    cases tail with
    | nil => cases hhead
    | cons d tail =>
      cases hhead
      exact hc (List.head_eq_of_cons_eq (append_of_cutTail hcut))
  | case6 => cases h
  | case7 bytes _ ih =>
    obtain ⟨tail, hcut, rfl⟩ := prepend_eq_some h
    exact derivesTail_opening_quote (ih hcut)
  | case8 quoted b bytes _ _ hclosing =>
    rw [Bool.and_eq_true, Bool.not_eq_true'] at hclosing
    obtain ⟨hcloses, rfl⟩ := hclosing
    cases h
    exact ⟨[], b, trivial, hcloses, rfl⟩
  | case9 quoted b bytes hbackslash hquote hclosing ih =>
    obtain ⟨tail, hcut, rfl⟩ := prepend_eq_some h
    apply derivesTail_plain hquote hbackslash ?_ (ih hcut)
    cases quoted with
    | true => exact .inl rfl
    | false => exact .inr (by simpa using hclosing)

/-! ## Elements -/

theorem dropWord?_eq_some_iff : dropWord? bytes = some rest ↔
    ∃ letters, letters.map lowerCase = emptyWord ∧ bytes = letters ++ rest := by
  unfold dropWord?
  constructor
  · intro h
    split at h
    · next hword =>
      cases h
      exact ⟨_, hword, (List.take_append_drop _ _).symm⟩
    · cases h
  · rintro ⟨letters, hword, rfl⟩
    have hlength := length_of_isWord hword
    rw [List.take_left' hlength, List.drop_left' hlength, if_pos hword]

theorem cutElement_closed (hopening : isOpening b = true)
    (hcut : cutTail false bytes = some (tail, rest)) :
    cutElement (b :: bytes) = .ok (.bracketed (b :: tail), rest) := by
  rw [cutElement, if_pos hopening, hcut]

theorem cutElement_unclosed (hopening : isOpening b = true) (hcut : cutTail false bytes = none) :
    cutElement (b :: bytes) = .error ⟨.unexpectedEnd, []⟩ := by
  rw [cutElement, if_pos hopening, hcut]

theorem cutElement_word (hopening : isOpening b = false)
    (hword : dropWord? (b :: bytes) = some rest) :
    cutElement (b :: bytes) = .ok (.word, rest) := by
  rw [cutElement, hopening, if_neg Bool.false_ne_true, hword]

theorem cutElement_neither (hopening : isOpening b = false)
    (hword : dropWord? (b :: bytes) = none) :
    cutElement (b :: bytes) = .error ⟨.expectedRangeStart, b :: bytes⟩ := by
  rw [cutElement, hopening, if_neg Bool.false_ne_true, hword]

/-- What cutting the element in front comes to. -/
inductive Cuts : Bytes → Except Failure (Element × Bytes) → Prop where
  | nil : Cuts [] (.error ⟨.unexpectedEnd, []⟩)
  | closed {b : UInt8} {bytes tail rest : Bytes} (hopening : isOpening b = true)
    (hcut : cutTail false bytes = some (tail, rest)) :
    Cuts (b :: bytes) (.ok (.bracketed (b :: tail), rest))
  | unclosed {b : UInt8} {bytes : Bytes} (hopening : isOpening b = true)
    (hcut : cutTail false bytes = none) : Cuts (b :: bytes) (.error ⟨.unexpectedEnd, []⟩)
  | word {b : UInt8} {bytes rest : Bytes} (hopening : isOpening b = false)
    (hword : dropWord? (b :: bytes) = some rest) : Cuts (b :: bytes) (.ok (.word, rest))
  | neither {b : UInt8} {bytes : Bytes} (hopening : isOpening b = false)
    (hword : dropWord? (b :: bytes) = none) :
    Cuts (b :: bytes) (.error ⟨.expectedRangeStart, b :: bytes⟩)

theorem cuts_cutElement (bytes : Bytes) : Cuts bytes (cutElement bytes) := by
  cases bytes with
  | nil => exact .nil
  | cons b bytes =>
    cases hopening : isOpening b with
    | true =>
      cases hcut : cutTail false bytes with
      | none =>
        rw [cutElement_unclosed hopening hcut]
        exact .unclosed hopening hcut
      | some found =>
        rw [cutElement_closed hopening hcut]
        exact .closed hopening hcut
    | false =>
      cases hword : dropWord? (b :: bytes) with
      | none =>
        rw [cutElement_neither hopening hword]
        exact .neither hopening hword
      | some rest =>
        rw [cutElement_word hopening hword]
        exact .word hopening hword

/-- What is cut off is the element of a phrase. -/
theorem exists_phrase_of_cutElement {element : Element}
    (h : cutElement bytes = .ok (element, rest)) :
    ∃ phrase : Phrase, bytes = phrase.bytes ++ rest ∧ element = phrase.element := by
  have hcuts := cuts_cutElement bytes
  rw [h] at hcuts
  cases hcuts with
  | closed hopening hcut =>
    obtain ⟨items, closing, hitems, hcloses, rfl⟩ := derivesTail_of_cutTail hcut
    refine ⟨.bracketed _ items closing hopening hitems hcloses, ?_, rfl⟩
    rw [append_of_cutTail hcut]
    rfl
  | word hopening hword =>
    obtain ⟨letters, hletters, hbytes⟩ := dropWord?_eq_some_iff.1 hword
    exact ⟨.word letters hletters, hbytes, rfl⟩

/-- The element of a phrase in front is cut off. -/
theorem cutElement_phrase (phrase : Phrase) (rest : Bytes) :
    cutElement (phrase.bytes ++ rest) = .ok (phrase.element, rest) := by
  cases phrase with
  | word letters isWord =>
    have hdrop : dropWord? (letters ++ rest) = some rest :=
      dropWord?_eq_some_iff.2 ⟨letters, isWord, rfl⟩
    obtain ⟨b, bs, rfl, _, hopening, _⟩ := head_of_isWord isWord
    exact cutElement_word hopening hdrop
  | bracketed opening items closing opens apart closes =>
    have htail : cutTail false ((items.flatMap Item.bytes ++ [closing]) ++ rest) =
        some (items.flatMap Item.bytes ++ [closing], rest) := by
      rw [List.append_assoc, List.singleton_append]
      exact cutTail_items apart closes
    exact cutElement_closed opens htail

/-! ## Lists -/

theorem Blanks.exists_append_skipBlanks (bytes : Bytes) :
    ∃ blanks : Blanks, bytes = blanks.bytes ++ skipBlanks bytes := by
  refine ⟨⟨bytes.takeWhile isBlank, ?_⟩, List.takeWhile_append_dropWhile.symm⟩
  intro b hb
  exact List.mem_takeWhile_imp hb

theorem solid_skipBlanks (bytes : Bytes) : Solid (skipBlanks bytes) := by
  intro b hb
  have hhead := List.head?_dropWhile_not isBlank bytes
  unfold skipBlanks at hb
  rw [Option.mem_def.1 hb] at hhead
  exact hhead

/-- Behind a list there may be blanks, and whatever else is reported. -/
theorem ending_append (blanks : Blanks) (h : Solid rest) : ending (blanks.bytes ++ rest) =
    if rest = [] then none else some ⟨.junkAfterRightBrace, rest⟩ := by
  unfold ending
  rw [blanks.skipBlanks_append h]
  cases rest with
  | nil => rfl
  | cons b rest => rfl

theorem ending_blanks (blanks : Blanks) : ending blanks.bytes = none := by
  have hending := ending_append blanks solid_nil
  rwa [List.append_nil] at hending

/-! ### From an element on -/

/-- What is left of a scan behind an element. -/
def behind (bytes : Bytes) : Scan :=
  match skipBlanks bytes with
  | [] => ⟨[], some ⟨.unexpectedEnd, []⟩⟩
  | b :: after =>
    if b = comma then scanElements after
    else if b = rightBrace then ⟨[], ending after⟩
    else ⟨[], some ⟨.expectedCommaOrEnd, b :: after⟩⟩

theorem scanElements_of_error {failure : Failure}
    (hcut : cutElement (skipBlanks bytes) = .error failure) :
    scanElements bytes = ⟨[], some failure⟩ := by
  rw [scanElements]
  split
  · next failure' hcut' =>
    rw [hcut] at hcut'
    cases hcut'
    rfl
  · next hcut' =>
    rw [hcut] at hcut'
    cases hcut'

/-- Once an element is cut, the scan goes on behind it. -/
theorem scanElements_of_element {element : Element}
    (hcut : cutElement (skipBlanks bytes) = .ok (element, rest)) :
    scanElements bytes = (behind rest).cons element := by
  rw [scanElements]
  split
  · next hcut' =>
    rw [hcut] at hcut'
    cases hcut'
  · next hcut' =>
    rw [hcut] at hcut'
    cases hcut'
    unfold behind
    split
    · next hskip =>
      rw [hskip]
      rfl
    · next b after hskip =>
      rw [hskip]
      by_cases hcomma : b = comma
      · simp only [if_pos hcomma]
      · by_cases hbrace : b = rightBrace
        · simp only [if_neg hcomma, if_pos hbrace]
          rfl
        · simp only [if_neg hcomma, if_neg hbrace]
          rfl

/-- The blanks in front make no difference. -/
theorem scanElements_congr {bytes' : Bytes} (h : skipBlanks bytes = skipBlanks bytes') :
    scanElements bytes = scanElements bytes' := by
  cases hcut : cutElement (skipBlanks bytes) with
  | error failure => rw [scanElements_of_error hcut, scanElements_of_error (h ▸ hcut)]
  | ok found => rw [scanElements_of_element hcut, scanElements_of_element (h ▸ hcut)]

/-- What follows on an element that is cut. -/
theorem scanElements_of_cut {element : Element} {after : Bytes}
    (hcut : cutElement (skipBlanks bytes) = .ok (element, rest))
    (hskip : skipBlanks rest = b :: after) :
    scanElements bytes =
      if b = comma then (scanElements after).cons element
      else if b = rightBrace then ⟨[element], ending after⟩
      else ⟨[element], some ⟨.expectedCommaOrEnd, b :: after⟩⟩ := by
  rw [scanElements_of_element hcut, behind, hskip]
  simp only [apply_ite (Scan.cons element)]
  rfl

theorem scanElements_entry (entry : Entry) (h : Solid rest) :
    scanElements (entry.bytes ++ rest) = (behind rest).cons entry.phrase.element := by
  have hcut : cutElement (skipBlanks (entry.bytes ++ rest)) =
      .ok (entry.phrase.element, entry.after.bytes ++ rest) := by
    rw [Entry.bytes_append, entry.before.skipBlanks_append entry.phrase.solid_bytes_append]
    exact cutElement_phrase entry.phrase _
  have hskip : skipBlanks (entry.after.bytes ++ rest) = skipBlanks rest := by
    rw [entry.after.skipBlanks_append h, skipBlanks_of_solid h]
  rw [scanElements_of_element hcut, behind, hskip]
  rfl

/-- Entries up to a right brace are cut one by one. -/
theorem scanElements_entries (first : Entry) (entries : List Entry) :
    scanElements (first.bytes ++ (followers entries ++ rightBrace :: rest)) =
      ⟨first.phrase.element :: entries.map fun entry => entry.phrase.element, ending rest⟩ := by
  rw [scanElements_entry first (solid_entries entries)]
  induction entries generalizing first with
  | nil => rfl
  | cons entry entries ih =>
    rw [followers_cons_append]
    show (scanElements _).cons _ = _
    rw [scanElements_entry entry (solid_entries entries), ih entry]
    rfl

theorem cutElement_of_phraseless (h : Phraseless bytes) :
    cutElement bytes = .error (missingPhrase bytes) := by
  cases hcut : cutElement bytes with
  | ok found =>
    obtain ⟨phrase, hbytes, _⟩ := exists_phrase_of_cutElement hcut
    exact absurd hbytes (h phrase found.2)
  | error failure =>
    have hcuts := cuts_cutElement bytes
    rw [hcut] at hcuts
    cases hcuts with
    | nil => rfl
    | unclosed hopening _ => rw [missingPhrase, if_pos hopening]
    | neither hopening _ => rw [missingPhrase, hopening, if_neg Bool.false_ne_true]

theorem scanElements_of_unfinished (h : Unfinished phrases failure bytes) :
    scanElements bytes = ⟨phrases.map Phrase.element, some failure⟩ := by
  induction h with
  | phraseless blanks hsolid hphrase =>
    refine scanElements_of_error ?_
    rw [blanks.skipBlanks_append hsolid]
    exact cutElement_of_phraseless hphrase
  | @commaless entry unread hsolid hcomma hbrace =>
    rw [scanElements_entry entry hsolid, behind, skipBlanks_of_solid hsolid]
    cases unread with
    | nil => rfl
    | cons b unread =>
      have hb : b ≠ comma := fun heq => hcomma (congrArg some heq)
      have hb' : b ≠ rightBrace := fun heq => hbrace (congrArg some heq)
      simp only [if_neg hb, if_neg hb']
      rfl
  | next entry _ ih =>
    rw [scanElements_entry entry (solid_cons rfl)]
    show (scanElements _).cons _ = _
    rw [ih]
    rfl

/-- An element that is cut, and the blanks around it, are those of an entry. -/
theorem exists_entry_of_cut {element : Element} {after : Bytes}
    (hcut : cutElement (skipBlanks bytes) = .ok (element, rest)) (hskip : skipBlanks rest = after) :
    ∃ entry : Entry, bytes = entry.bytes ++ after := by
  obtain ⟨phrase, hphrase, _⟩ := exists_phrase_of_cutElement hcut
  obtain ⟨before, hbefore⟩ := Blanks.exists_append_skipBlanks bytes
  obtain ⟨blanks, hafter⟩ := Blanks.exists_append_skipBlanks rest
  refine ⟨⟨before, phrase, blanks⟩, ?_⟩
  rw [Entry.bytes_append, ← hskip, ← hafter, ← hphrase]
  exact hbefore

theorem phraseless_of_error (h : cutElement bytes = .error failure) : Phraseless bytes := by
  rintro phrase rest rfl
  rw [cutElement_phrase] at h
  cases h

/-- Entries go on up to a right brace, or they are unfinished. By induction along the scan. -/
theorem unfinished_or_entries (bytes : Bytes) :
    (∃ phrases failure, Unfinished phrases failure bytes) ∨
    ∃ (first : Entry) (entries : List Entry) (after : Bytes),
      bytes = first.bytes ++ (followers entries ++ rightBrace :: after) := by
  fun_induction scanElements bytes with
  | case1 bytes failure hcut =>
    obtain ⟨blanks, hbytes⟩ := Blanks.exists_append_skipBlanks bytes
    rw [hbytes]
    exact .inl ⟨_, _, .phraseless blanks (solid_skipBlanks bytes) (phraseless_of_error hcut)⟩
  | case2 bytes element rest hcut hskip =>
    obtain ⟨entry, rfl⟩ := exists_entry_of_cut hcut hskip
    exact .inl ⟨_, _, .commaless entry solid_nil nofun nofun⟩
  | case3 bytes element rest hcut after hskip ih =>
    obtain ⟨entry, rfl⟩ := exists_entry_of_cut hcut hskip
    rcases ih with ⟨phrases, failure, h⟩ | ⟨second, entries, after', rfl⟩
    · exact .inl ⟨_, _, .next entry h⟩
    · refine .inr ⟨entry, second :: entries, after', ?_⟩
      rw [followers_cons_append]
  | case4 bytes element rest hcut after hskip _ =>
    obtain ⟨entry, rfl⟩ := exists_entry_of_cut hcut hskip
    exact .inr ⟨entry, [], after, rfl⟩
  | case5 bytes element rest hcut b after hskip hcomma hbrace =>
    obtain ⟨entry, rfl⟩ := exists_entry_of_cut hcut hskip
    have hsolid : Solid (b :: after) := hskip ▸ solid_skipBlanks rest
    exact .inl ⟨_, _, .commaless entry hsolid (fun h => hcomma (Option.some.inj h))
      fun h => hbrace (Option.some.inj h)⟩

/-! ### From the left brace on -/

/-- A right brace in front ends the list, and all else begins an element. -/
theorem scanBody_of_ne
    (h : ∀ (blanks : Blanks) after, bytes ≠ blanks.bytes ++ rightBrace :: after) :
    scanBody bytes = scanElements bytes := by
  obtain ⟨blanks, hbytes⟩ := Blanks.exists_append_skipBlanks bytes
  unfold scanBody
  cases hskip : skipBlanks bytes with
  | nil =>
    symm
    refine scanElements_of_error ?_
    rw [hskip]
    rfl
  | cons b after =>
    have hbrace : b ≠ rightBrace := by
      rintro rfl
      rw [hskip] at hbytes
      exact h blanks after hbytes
    refine (if_neg hbrace).trans (scanElements_congr ?_)
    rw [← hskip, skipBlanks_of_solid (solid_skipBlanks bytes)]

theorem scanBody_body (body : Body) : scanBody (body.bytes ++ rightBrace :: rest) =
    ⟨body.phrases.map Phrase.element, ending rest⟩ := by
  cases body with
  | blank blanks =>
    unfold scanBody Body.bytes
    rw [blanks.skipBlanks_append (solid_cons rfl)]
    exact if_pos rfl
  | entries first entries =>
    rw [scanBody_of_ne fun blanks after heq =>
        Body.blank_bytes_append_ne blanks first entries heq.symm,
      Body.entries_bytes_append, scanElements_entries]
    unfold Body.phrases
    rw [List.map_cons, List.map_map]
    rfl

theorem unfinished_or_body (bytes : Bytes) :
    (∃ phrases failure, Unfinished phrases failure bytes ∧
      ∀ (blanks : Blanks) after, bytes ≠ blanks.bytes ++ rightBrace :: after) ∨
    ∃ (body : Body) (after : Bytes), bytes = body.bytes ++ rightBrace :: after := by
  by_cases hbrace : ∃ (blanks : Blanks) (after : Bytes), bytes = blanks.bytes ++ rightBrace :: after
  · obtain ⟨blanks, after, hbytes⟩ := hbrace
    exact .inr ⟨.blank blanks, after, hbytes⟩
  · rcases unfinished_or_entries bytes with ⟨phrases, failure, h⟩ | ⟨first, entries, after, hbytes⟩
    · exact .inl ⟨phrases, failure, h, fun blanks after hbytes => hbrace ⟨blanks, after, hbytes⟩⟩
    · rw [← Body.entries_bytes_append] at hbytes
      exact .inr ⟨_, after, hbytes⟩

/-! ### Whole texts -/

theorem scan_brace (before : Blanks) (bytes : Bytes) :
    scan (before.bytes ++ leftBrace :: bytes) = scanBody bytes := by
  unfold scan
  rw [before.skipBlanks_append (solid_cons rfl)]
  exact if_pos rfl

theorem Tree.bytes_append (tree : Tree) (rest : Bytes) : tree.bytes ++ rest = tree.before.bytes ++
    leftBrace :: (tree.body.bytes ++ rightBrace :: (tree.after.bytes ++ rest)) := by
  simp [Tree.bytes]

/-- A scan cuts the elements of a derivation that stands in front. -/
theorem scan_tree_append (tree : Tree) (rest : Bytes) :
    scan (tree.bytes ++ rest) = ⟨tree.elements, ending (tree.after.bytes ++ rest)⟩ := by
  rw [tree.bytes_append, scan_brace, scanBody_body]
  rfl

/-- A scan of what is derived cuts the elements of the derivation. -/
theorem scan_tree (tree : Tree) : scan tree.bytes = ⟨tree.elements, none⟩ := by
  have hscan := scan_tree_append tree []
  rwa [List.append_nil, List.append_nil, ending_blanks] at hscan

/-- A scan of bytes that stop being a list cuts the phrases before, and reports the place. -/
theorem scan_of_stops (h : Stops phrases failure bytes) :
    scan bytes = ⟨phrases.map Phrase.element, some failure⟩ := by
  cases h with
  | @braceless before unread hsolid hbrace =>
    unfold scan
    rw [before.skipBlanks_append hsolid]
    cases unread with
    | nil => rfl
    | cons b unread => exact if_neg fun heq => hbrace (congrArg some heq)
  | unfinished before h hbrace =>
    rw [scan_brace, scanBody_of_ne hbrace, scanElements_of_unfinished h]
  | junk tree hsolid hne =>
    rw [scan_tree_append, ending_append _ hsolid, if_neg hne]
    rfl

theorem stops_or_tree (bytes : Bytes) :
    (∃ phrases failure, Stops phrases failure bytes) ∨ ∃ tree : Tree, tree.bytes = bytes := by
  obtain ⟨before, hbytes⟩ := Blanks.exists_append_skipBlanks bytes
  by_cases hbrace : (skipBlanks bytes).head? = some leftBrace
  · obtain ⟨inner, hinner⟩ := List.head?_eq_some_iff.1 hbrace
    rw [hinner] at hbytes
    rw [hbytes]
    rcases unfinished_or_body inner with ⟨phrases, failure, h, hne⟩ | ⟨body, after, rfl⟩
    · exact .inl ⟨_, _, .unfinished before h hne⟩
    · obtain ⟨blanks, hafter⟩ := Blanks.exists_append_skipBlanks after
      have htree := (Tree.mk before body blanks).bytes_append (skipBlanks after)
      rw [← hafter] at htree
      rw [← htree]
      by_cases hjunk : skipBlanks after = []
      · refine .inr ⟨⟨before, body, blanks⟩, ?_⟩
        rw [hjunk, List.append_nil]
      · exact .inl ⟨_, _, .junk _ (solid_skipBlanks after) hjunk⟩
  · rw [hbytes]
    exact .inl ⟨_, _, .braceless before (solid_skipBlanks bytes) hbrace⟩

theorem exists_offers (bytes : Bytes) : ∃ phrases failure, Offers phrases failure bytes := by
  rcases stops_or_tree bytes with ⟨phrases, failure, h⟩ | ⟨tree, htree⟩
  · exact ⟨phrases, some failure, h⟩
  · exact ⟨_, none, tree, htree, rfl⟩

theorem scan_of_offers {failure : Option Failure} (h : Offers phrases failure bytes) :
    scan bytes = ⟨phrases.map Phrase.element, failure⟩ := by
  cases failure with
  | none =>
    obtain ⟨tree, rfl, rfl⟩ := h
    exact scan_tree tree
  | some failure => exact scan_of_stops h

/-- A scan cuts just the phrases that the bytes offer, and fails as they do. -/
theorem scan_eq_iff {elements : List Element} {failure : Option Failure} :
    scan bytes = ⟨elements, failure⟩ ↔
      ∃ phrases, Offers phrases failure bytes ∧ phrases.map Phrase.element = elements := by
  constructor
  · intro h
    obtain ⟨phrases, failure', hoffers⟩ := exists_offers bytes
    rw [scan_of_offers hoffers, Scan.mk.injEq] at h
    obtain ⟨rfl, rfl⟩ := h
    exact ⟨phrases, hoffers, rfl⟩
  · rintro ⟨phrases, hoffers, rfl⟩
    exact scan_of_offers hoffers

/-- A scan succeeds if and only if a derivation has the bytes. -/
theorem scan_succeeds_iff : (scan bytes).failure = none ↔ ∃ tree : Tree, tree.bytes = bytes := by
  constructor
  · intro h
    have hscan : scan bytes = ⟨(scan bytes).elements, none⟩ := by rw [← h]
    obtain ⟨_, ⟨tree, htree, _⟩, _⟩ := scan_eq_iff.1 hscan
    exact ⟨tree, htree⟩
  · rintro ⟨tree, rfl⟩
    rw [scan_tree]

end RangeUnion.BracedList
