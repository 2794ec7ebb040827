import RangeUnion.Proofs.Multirange.Literal
import RangeUnion.Proofs.Span.Packed
import RangeUnion.Proofs.Span.RoundTrip

/-!
# Spellings of a list of intervals

A list in braces spells its elements, with any blanks around them. Scanning hands on a bracketed
element as it stands, and the word `empty` for an element that is this word in any case; either
way the interval type reads the same interval (`parse_literals`). Literals of intervals joined by
commas in braces are one such spelling (`spells_join`).
-/

namespace RangeUnion.BracedList

open IntSpan

/-- `text` is a list in braces of `elements`, with blanks anywhere around them. -/
def Spells (text : String) (elements : List String) : Prop :=
  ∃ tree : Tree, tree.bytes = Text.toBytes text ∧
    tree.phrases.map Phrase.bytes = elements.map Text.toBytes

variable {text element : String} {elements : List String} {phrase : Phrase}

/-! ## Reading the elements -/

/-- The letters of the word, small or capital. -/
theorem letter_of_lowerCase_mem {b : UInt8} (h : lowerCase b ∈ emptyWord) :
    b < 0x80 ∧ Text.isBlank (Char.ofUInt8 b) = false ∧
      (Char.ofUInt8 b).toLower = Char.ofUInt8 (lowerCase b) := by
  revert b
  apply forall_byte
  decide +kernel

/-- The word is read in any case. -/
theorem parse_of_isWord (h : (Text.toBytes element).map lowerCase = emptyWord) :
    parse element = .ok .empty := by
  obtain ⟨cs, rfl, hcs⟩ := Text.exists_toBytes_eq element
  rw [hcs] at h
  have hletter : ∀ b ∈ Text.encode cs, lowerCase b ∈ emptyWord := by
    intro b hb
    rw [← h]
    exact List.mem_map_of_mem hb
  have hchars := Text.eq_map_of_encode rfl fun b hb => (letter_of_lowerCase_mem (hletter b hb)).1
  have hblank : ∀ c ∈ cs, Text.isBlank c = false := by
    intro c hc
    rw [hchars] at hc
    obtain ⟨b, hb, rfl⟩ := List.mem_map.1 hc
    exact (letter_of_lowerCase_mem (hletter b hb)).2.1
  have hlower : cs.map Char.toLower = IntSpan.emptyWord := by
    have hmap : cs.map Char.toLower = ((Text.encode cs).map lowerCase).map Char.ofUInt8 := by
      conv_lhs => rw [hchars]
      rw [List.map_map, List.map_map]
      exact List.map_congr_left fun b hb => (letter_of_lowerCase_mem (hletter b hb)).2.2
    rw [hmap, h]
    rfl
  have htrim : Text.trim cs = cs := Text.trim_eq_self
    (fun c hc => hblank c (List.mem_of_mem_head? hc))
    (fun c hc => hblank c (List.mem_of_mem_getLast? hc))
  rw [parse, String.toList_ofList, htrim, if_pos hlower]

/-- What a phrase hands on is read as the phrase is. -/
theorem parse_literal (h : phrase.bytes = Text.toBytes element) :
    parse phrase.literal = parse element := by
  cases phrase with
  | word letters isWord =>
    have hword : (Text.toBytes element).map lowerCase = emptyWord := by
      rw [← h]
      exact isWord
    rw [parse_of_isWord hword]
    exact @parse_of_isWord "empty" rfl
  | bracketed opening items closing opens apart closes =>
    show parse (Text.ofBytes (Phrase.bracketed opening items closing opens apart closes).bytes) = _
    rw [h, Text.ofBytes_toBytes]

theorem map_parse_literal {phrases : List Phrase}
    (h : phrases.map Phrase.bytes = elements.map Text.toBytes) :
    (phrases.map Phrase.literal).map parse = elements.map parse := by
  induction phrases generalizing elements with
  | nil =>
    rw [List.map_eq_nil_iff.1 h.symm]
    rfl
  | cons phrase phrases ih =>
    cases elements with
    | nil => cases h
    | cons element elements =>
      simp only [List.map_cons, List.cons.injEq] at h ⊢
      exact ⟨parse_literal h.1, ih h.2⟩

/-- Scanning a spelling hands on literals that are read as its elements are. -/
theorem parse_literals (h : Spells text elements) :
    ∃ handed, literals text = ⟨handed, none⟩ ∧ handed.map parse = elements.map parse := by
  obtain ⟨tree, htree, hphrases⟩ := h
  exact ⟨tree.literals, literals_of_tree htree, map_parse_literal hphrases⟩

/-! ## Joined literals -/

/-- A phrase without blanks around it. -/
def Entry.bare (phrase : Phrase) : Entry := ⟨Blanks.none, phrase, Blanks.none⟩

/-- The derivation of phrases without any blanks. -/
def Tree.bare : List Phrase → Tree
  | [] => ⟨Blanks.none, .blank Blanks.none, Blanks.none⟩
  | phrase :: phrases =>
    ⟨Blanks.none, .entries (Entry.bare phrase) (phrases.map Entry.bare), Blanks.none⟩

theorem Entry.bytes_bare (phrase : Phrase) : (Entry.bare phrase).bytes = phrase.bytes :=
  List.append_nil _

theorem Tree.phrases_bare (phrases : List Phrase) : (Tree.bare phrases).phrases = phrases := by
  cases phrases with
  | nil => rfl
  | cons phrase phrases =>
    show phrase :: (phrases.map Entry.bare).map Entry.phrase = _
    rw [List.map_map]
    exact congrArg (phrase :: ·) (List.map_id phrases)

theorem followers_bare (phrases : List Phrase) : followers (phrases.map Entry.bare) =
    (phrases.map Phrase.bytes).flatMap (comma :: ·) := by
  unfold followers
  rw [List.flatMap_map, List.flatMap_map]
  simp only [Entry.bytes_bare]

theorem intercalate_comma (part : Bytes) (parts : List Bytes) :
    [comma].intercalate (part :: parts) = part ++ parts.flatMap (comma :: ·) := by
  induction parts generalizing part with
  | nil => simp
  | cons next parts ih =>
    rw [List.intercalate_cons_cons, ih, List.flatMap_cons, List.append_assoc]
    rfl

theorem Tree.bytes_bare (phrases : List Phrase) : (Tree.bare phrases).bytes =
    leftBrace :: ([comma].intercalate (phrases.map Phrase.bytes) ++ [rightBrace]) := by
  cases phrases with
  | nil => rfl
  | cons phrase phrases =>
    rw [List.map_cons, intercalate_comma, ← followers_bare, ← Entry.bytes_bare]
    rfl

theorem toBytes_intercalate (elements : List String) :
    Text.toBytes (",".intercalate elements) = [comma].intercalate (elements.map Text.toBytes) := by
  induction elements with
  | nil => rfl
  | cons element elements ih =>
    cases elements with
    | nil => simp
    | cons next elements =>
      rw [String.intercalate_cons_of_ne_nil (List.cons_ne_nil _ _), Text.toBytes_append,
        Text.toBytes_append, ih, List.map_cons, List.map_cons, List.map_cons,
        List.intercalate_cons_cons]
      rfl

theorem toBytes_join (elements : List String) : Text.toBytes (join elements) =
    leftBrace :: ([comma].intercalate (elements.map Text.toBytes) ++ [rightBrace]) := by
  unfold join
  rw [Text.toBytes_append, Text.toBytes_append, toBytes_intercalate]
  rfl

theorem exists_phrases (h : ∀ element ∈ elements, ∃ phrase : Phrase,
    phrase.bytes = Text.toBytes element) :
    ∃ phrases : List Phrase, phrases.map Phrase.bytes = elements.map Text.toBytes := by
  induction elements with
  | nil => exact ⟨[], rfl⟩
  | cons element elements ih =>
    obtain ⟨phrase, hphrase⟩ := h element List.mem_cons_self
    obtain ⟨phrases, hphrases⟩ := ih fun e he => h e (List.mem_cons_of_mem element he)
    exact ⟨phrase :: phrases, by rw [List.map_cons, List.map_cons, hphrase, hphrases]⟩

/-- Elements that are phrases, joined by commas in braces, are spelled. -/
theorem spells_join (h : ∀ element ∈ elements, ∃ phrase : Phrase,
    phrase.bytes = Text.toBytes element) : Spells (join elements) elements := by
  obtain ⟨phrases, hphrases⟩ := exists_phrases h
  refine ⟨Tree.bare phrases, ?_, ?_⟩
  · rw [Tree.bytes_bare, toBytes_join, hphrases]
  · rw [Tree.phrases_bare, hphrases]

/-! ## The literal of an interval is a phrase -/

/-- A byte that stands for itself in a bracketed phrase. -/
def IsPlain (b : UInt8) : Prop := b ≠ quote ∧ b ≠ backslash ∧ isClosing b = false

/-- Bytes that stand for themselves make up items. -/
theorem exists_items {bytes : Bytes} (h : ∀ b ∈ bytes, IsPlain b) :
    ∃ items : List Item, Apart items ∧ items.flatMap Item.bytes = bytes := by
  induction bytes with
  | nil => exact ⟨[], trivial, rfl⟩
  | cons b bytes ih =>
    obtain ⟨hquote, hbackslash, hclosing⟩ := h b List.mem_cons_self
    obtain ⟨items, hitems, rfl⟩ := ih fun c hc => h c (List.mem_cons_of_mem b hc)
    exact ⟨.plain b hquote hbackslash hclosing :: items, hitems, rfl⟩

theorem isPlain_of_toNat {b : UInt8} (h : 0x2C ≤ b.toNat ∧ b.toNat < 0x3A) : IsPlain b := by
  revert b
  apply forall_byte
  unfold IsPlain
  decide +kernel

theorem toNat_toUInt8 {c : Char} (h : c.toNat < 0x100) : c.toUInt8.toNat = c.toNat :=
  Nat.mod_eq_of_lt h

/-- The literal of an interval is a phrase. -/
theorem exists_phrase_toText (s : IntSpan) :
    ∃ phrase : Phrase, phrase.bytes = Text.toBytes s.toText := by
  cases s with
  | empty => exact ⟨.word emptyWord rfl, rfl⟩
  | between l u =>
    have hbody : ∀ c ∈ boundText l ++ ',' :: boundText u, 0x2C ≤ c.toNat ∧ c.toNat < 0x3A := by
      intro c hc
      rcases List.mem_append.1 hc with hc | hc
      · have := (isBoundChar_of_mem hc).toNat_lt
        omega
      · rcases List.mem_cons.1 hc with rfl | hc
        · decide
        · have := (isBoundChar_of_mem hc).toNat_lt
          omega
    have hplain : ∀ b ∈ (boundText l ++ ',' :: boundText u).map Char.toUInt8, IsPlain b := by
      refine List.forall_mem_map.2 fun c hc => isPlain_of_toNat ?_
      have hlt := hbody c hc
      rw [toNat_toUInt8 (by omega)]
      exact hlt
    obtain ⟨items, hitems, hbytes⟩ := exists_items hplain
    have hopening : (openingBracket l).toNat < 0x80 ∧
        isOpening (openingBracket l).toUInt8 = true := by
      rcases openingBracket_eq l with hl | hl <;> rw [hl] <;> decide
    refine ⟨.bracketed (openingBracket l).toUInt8 items 0x29 hopening.2 hitems rfl, ?_⟩
    rw [toText, Text.toBytes_ofList, literal_between, Text.encode_of_lt]
    · rw [List.map_cons, List.map_append, ← hbytes]
      rfl
    · intro c hc
      rcases List.mem_cons.1 hc with rfl | hc
      · exact hopening.1
      · rcases List.mem_append.1 hc with hc | hc
        · have := hbody c hc
          omega
        · rw [List.mem_singleton.1 hc]
          decide

end RangeUnion.BracedList
