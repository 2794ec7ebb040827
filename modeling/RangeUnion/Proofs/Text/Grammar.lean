import RangeUnion.Text.BracedList

/-!
# The grammar of lists in braces

A list is blanks, a left brace, entries with commas between them, a right brace, and blanks. An
entry is a phrase with blanks around it: the word `empty` in any case, or a bracketed phrase of
items. An item is an ordinary byte, an escaped one, or a quoted run. Since a doubled quotation
mark goes on with a run, no run stands directly behind another.

`Tree` is the type of the derivations, each of them well formed by its type, and `Tree.bytes`
writes one out. The grammar is unambiguous: no two derivations have the same bytes
(`Tree.bytes_injective`).

All other bytes stop being a list at some place. `Stops` says which phrases stand before that place,
and what is found there.
-/

namespace RangeUnion.BracedList

/-! ## Derivations -/

/-- Some blanks, or none. -/
structure Blanks where
  bytes : Bytes
  isBlank_of_mem : ∀ b ∈ bytes, isBlank b = true

def Blanks.none : Blanks := ⟨[], fun _ h => nomatch h⟩

/-- What a quoted run is made of. -/
inductive QuotedPart where
  | plain (b : UInt8) (ne_quote : b ≠ quote) (ne_backslash : b ≠ backslash)
  | escaped (b : UInt8)
  | doubled

/-- What a bracketed phrase is made of. -/
inductive Item where
  | plain (b : UInt8) (ne_quote : b ≠ quote) (ne_backslash : b ≠ backslash)
    (not_closing : isClosing b = false)
  | escaped (b : UInt8)
  | quoted (parts : List QuotedPart)

/-- The first item is a quoted run. -/
def StartsQuoted : List Item → Prop
  | .quoted _ :: _ => True
  | _ => False

/-- No quoted run stands directly behind another. -/
def Apart : List Item → Prop
  | [] => True
  | .quoted _ :: items => ¬ StartsQuoted items ∧ Apart items
  | _ :: items => Apart items

/-- What stands between two commas, apart from blanks. -/
inductive Phrase where
  | word (letters : Bytes) (isWord : letters.map lowerCase = emptyWord)
  | bracketed (opening : UInt8) (items : List Item) (closing : UInt8)
    (opens : isOpening opening = true) (apart : Apart items) (closes : isClosing closing = true)

/-- A phrase and the blanks around it. -/
structure Entry where
  before : Blanks
  phrase : Phrase
  after : Blanks

/-- What stands between the braces. -/
inductive Body where
  | blank (blanks : Blanks)
  | entries (first : Entry) (rest : List Entry)

/-- A derivation of a list in braces. -/
structure Tree where
  before : Blanks
  body : Body
  after : Blanks

/-! ## The bytes of a derivation -/

def QuotedPart.bytes : QuotedPart → Bytes
  | .plain b _ _ => [b]
  | .escaped b => [backslash, b]
  | .doubled => [quote, quote]

def Item.bytes : Item → Bytes
  | .plain b _ _ _ => [b]
  | .escaped b => [backslash, b]
  | .quoted parts => quote :: (parts.flatMap QuotedPart.bytes ++ [quote])

def Phrase.bytes : Phrase → Bytes
  | .word letters _ => letters
  | .bracketed opening items closing _ _ _ =>
    opening :: (items.flatMap Item.bytes ++ [closing])

def Entry.bytes (entry : Entry) : Bytes :=
  entry.before.bytes ++ (entry.phrase.bytes ++ entry.after.bytes)

/-- The bytes of entries that each stand behind a comma. -/
def followers (entries : List Entry) : Bytes := entries.flatMap fun entry => comma :: entry.bytes

def Body.bytes : Body → Bytes
  | .blank blanks => blanks.bytes
  | .entries first rest => first.bytes ++ followers rest

/-- The bytes that are derived. -/
def Tree.bytes (tree : Tree) : Bytes :=
  tree.before.bytes ++ leftBrace :: (tree.body.bytes ++ rightBrace :: tree.after.bytes)

/-! ## The elements of a derivation -/

/-- The element that a phrase stands for: a bracketed one is kept byte by byte. -/
def Phrase.element : Phrase → Element
  | .word _ _ => .word
  | phrase => .bracketed phrase.bytes

def Body.phrases : Body → List Phrase
  | .blank _ => []
  | .entries first rest => first.phrase :: rest.map Entry.phrase

/-- The phrases between the braces, in order. -/
def Tree.phrases (tree : Tree) : List Phrase := tree.body.phrases

/-- The elements that the phrases stand for. -/
def Tree.elements (tree : Tree) : List Element := tree.phrases.map Phrase.element

/-! ## Quoted runs -/

variable {bytes bytes' rest rest' : Bytes}

theorem QuotedPart.bytes_unique {part part' : QuotedPart}
    (h : part.bytes ++ bytes = part'.bytes ++ bytes') : part = part' ∧ bytes = bytes' := by
  cases part with
  | plain b hquote hbackslash =>
    cases part' with
    | plain b' _ _ =>
      cases h
      exact ⟨rfl, rfl⟩
    | escaped b' => exact absurd (List.head_eq_of_cons_eq h) hbackslash
    | doubled => exact absurd (List.head_eq_of_cons_eq h) hquote
  | escaped b =>
    cases part' with
    | plain b' _ hbackslash => exact absurd (List.head_eq_of_cons_eq h).symm hbackslash
    | escaped b' =>
      cases h
      exact ⟨rfl, rfl⟩
    | doubled => exact absurd (List.head_eq_of_cons_eq h) (by decide)
  | doubled =>
    cases part' with
    | plain b' hquote _ => exact absurd (List.head_eq_of_cons_eq h).symm hquote
    | escaped b' => exact absurd (List.head_eq_of_cons_eq h) (by decide)
    | doubled =>
      cases h
      exact ⟨rfl, rfl⟩

/-- A quotation mark that is not doubled begins no part of a quoted run. -/
theorem QuotedPart.bytes_append_ne (part : QuotedPart) (h : bytes'.head? ≠ some quote) :
    part.bytes ++ bytes ≠ quote :: bytes' := by
  intro heq
  cases part with
  | plain b hquote _ => exact hquote (List.head_eq_of_cons_eq heq)
  | escaped b => exact absurd (List.head_eq_of_cons_eq heq) (by decide)
  | doubled =>
    have htail : quote :: bytes = bytes' := List.tail_eq_of_cons_eq heq
    rw [← htail] at h
    exact h rfl

/-- A quoted run ends at the first mark that is neither escaped nor doubled. -/
theorem parts_unique {parts parts' : List QuotedPart}
    (h : parts.flatMap QuotedPart.bytes ++ quote :: bytes =
      parts'.flatMap QuotedPart.bytes ++ quote :: bytes')
    (hbytes : bytes.head? ≠ some quote) (hbytes' : bytes'.head? ≠ some quote) :
    parts = parts' ∧ bytes = bytes' := by
  induction parts generalizing parts' with
  | nil =>
    cases parts' with
    | nil => exact ⟨rfl, List.tail_eq_of_cons_eq h⟩
    | cons part' parts' =>
      rw [List.flatMap_cons, List.append_assoc] at h
      exact absurd h.symm (part'.bytes_append_ne hbytes)
  | cons part parts ih =>
    rw [List.flatMap_cons, List.append_assoc] at h
    cases parts' with
    | nil => exact absurd h (part.bytes_append_ne hbytes')
    | cons part' parts' =>
      rw [List.flatMap_cons, List.append_assoc] at h
      obtain ⟨rfl, htail⟩ := QuotedPart.bytes_unique h
      obtain ⟨rfl, hrest⟩ := ih htail
      exact ⟨rfl, hrest⟩

/-! ## Items -/

/-- What stands behind a quoted run does not begin with a quotation mark. -/
def Item.Before (item : Item) (bytes : Bytes) : Prop :=
  match item with
  | .quoted _ => bytes.head? ≠ some quote
  | _ => True

theorem head?_items_ne_quote {items : List Item} {closing : UInt8}
    (hitems : ¬ StartsQuoted items) (hclosing : isClosing closing = true) :
    (items.flatMap Item.bytes ++ closing :: rest).head? ≠ some quote := by
  cases items with
  | nil =>
    intro h
    cases h
    exact absurd hclosing (by decide)
  | cons item items =>
    cases item with
    | plain b hquote _ _ => exact fun h => hquote (Option.some.inj h)
    | escaped b => exact fun h => absurd (Option.some.inj h) (by decide)
    | quoted parts => exact absurd trivial hitems

theorem Item.before_of_apart {item : Item} {items : List Item} {closing : UInt8}
    (h : Apart (item :: items)) (hclosing : isClosing closing = true) :
    item.Before (items.flatMap Item.bytes ++ closing :: rest) := by
  cases item with
  | plain b _ _ _ => trivial
  | escaped b => trivial
  | quoted parts => exact head?_items_ne_quote h.1 hclosing

theorem Apart.tail {item : Item} {items : List Item} (h : Apart (item :: items)) :
    Apart items := by
  cases item with
  | plain b _ _ _ => exact h
  | escaped b => exact h
  | quoted parts => exact h.2

theorem Item.quoted_bytes_append (parts : List QuotedPart) : (Item.quoted parts).bytes ++ bytes =
    quote :: (parts.flatMap QuotedPart.bytes ++ quote :: bytes) := by
  simp [Item.bytes]

theorem Item.bytes_unique {item item' : Item} (h : item.bytes ++ bytes = item'.bytes ++ bytes')
    (hbytes : item.Before bytes) (hbytes' : item'.Before bytes') :
    item = item' ∧ bytes = bytes' := by
  cases item with
  | plain b hquote hbackslash _ =>
    cases item' with
    | plain b' _ _ _ =>
      cases h
      exact ⟨rfl, rfl⟩
    | escaped b' => exact absurd (List.head_eq_of_cons_eq h) hbackslash
    | quoted parts' => exact absurd (List.head_eq_of_cons_eq h) hquote
  | escaped b =>
    cases item' with
    | plain b' _ hbackslash _ => exact absurd (List.head_eq_of_cons_eq h).symm hbackslash
    | escaped b' =>
      cases h
      exact ⟨rfl, rfl⟩
    | quoted parts' => exact absurd (List.head_eq_of_cons_eq h) (by decide)
  | quoted parts =>
    cases item' with
    | plain b' hquote _ _ => exact absurd (List.head_eq_of_cons_eq h).symm hquote
    | escaped b' => exact absurd (List.head_eq_of_cons_eq h) (by decide)
    | quoted parts' =>
      rw [Item.quoted_bytes_append, Item.quoted_bytes_append] at h
      obtain ⟨rfl, hrest⟩ := parts_unique (List.tail_eq_of_cons_eq h) hbytes hbytes'
      exact ⟨rfl, hrest⟩

theorem Item.bytes_append_ne (item : Item) {closing : UInt8} (h : isClosing closing = true) :
    item.bytes ++ bytes ≠ closing :: bytes' := by
  intro heq
  cases item with
  | plain b _ _ hopen =>
    rw [List.head_eq_of_cons_eq heq, h] at hopen
    cases hopen
  | escaped b =>
    rw [← List.head_eq_of_cons_eq heq] at h
    exact absurd h (by decide)
  | quoted parts =>
    rw [← List.head_eq_of_cons_eq heq] at h
    exact absurd h (by decide)

/-- A bracketed phrase ends at the first closing bracket outside of an item. -/
theorem items_unique {items items' : List Item} {closing closing' : UInt8}
    (h : items.flatMap Item.bytes ++ closing :: rest =
      items'.flatMap Item.bytes ++ closing' :: rest')
    (hitems : Apart items) (hitems' : Apart items') (hclosing : isClosing closing = true)
    (hclosing' : isClosing closing' = true) :
    items = items' ∧ closing = closing' ∧ rest = rest' := by
  induction items generalizing items' with
  | nil =>
    cases items' with
    | nil =>
      cases h
      exact ⟨rfl, rfl, rfl⟩
    | cons item' items' =>
      rw [List.flatMap_cons, List.append_assoc] at h
      exact absurd h.symm (item'.bytes_append_ne hclosing)
  | cons item items ih =>
    rw [List.flatMap_cons, List.append_assoc] at h
    cases items' with
    | nil => exact absurd h (item.bytes_append_ne hclosing')
    | cons item' items' =>
      rw [List.flatMap_cons, List.append_assoc] at h
      obtain ⟨rfl, htail⟩ := Item.bytes_unique h (item.before_of_apart hitems hclosing)
        (item'.before_of_apart hitems' hclosing')
      obtain ⟨rfl, hrest⟩ := ih htail hitems.tail hitems'.tail
      exact ⟨rfl, hrest⟩

/-! ## Blanks -/

/-- `bytes` do not begin with a blank. -/
def Solid (bytes : Bytes) : Prop := ∀ b ∈ bytes.head?, isBlank b = false

theorem solid_nil : Solid [] := fun _ h => nomatch h

theorem solid_cons {b : UInt8} (h : isBlank b = false) : Solid (b :: bytes) := by
  intro c hc
  cases hc
  exact h

theorem skipBlanks_of_solid (h : Solid bytes) : skipBlanks bytes = bytes := by
  cases bytes with
  | nil => rfl
  | cons b bytes =>
    unfold skipBlanks
    rw [List.dropWhile_cons_of_neg]
    rw [h b rfl]
    exact Bool.false_ne_true

theorem Blanks.ext {blanks blanks' : Blanks} (h : blanks.bytes = blanks'.bytes) :
    blanks = blanks' := by
  cases blanks
  cases blanks'
  cases h
  rfl

theorem Blanks.skipBlanks_append (blanks : Blanks) (h : Solid bytes) :
    skipBlanks (blanks.bytes ++ bytes) = bytes := by
  unfold skipBlanks
  rw [List.dropWhile_append_of_pos blanks.isBlank_of_mem]
  exact skipBlanks_of_solid h

/-- Blanks end at the first byte that is none. -/
theorem Blanks.bytes_unique {blanks blanks' : Blanks}
    (h : blanks.bytes ++ bytes = blanks'.bytes ++ bytes') (hbytes : Solid bytes)
    (hbytes' : Solid bytes') : blanks = blanks' ∧ bytes = bytes' := by
  have hskip := congrArg skipBlanks h
  rw [blanks.skipBlanks_append hbytes, blanks'.skipBlanks_append hbytes'] at hskip
  subst hskip
  exact ⟨Blanks.ext (List.append_cancel_right h), rfl⟩

/-! ## Phrases -/

theorem length_of_isWord {letters : Bytes} (h : letters.map lowerCase = emptyWord) :
    letters.length = emptyWord.length := by
  rw [← h, List.length_map]

/-- The word begins neither with a blank nor with a bracket. -/
theorem head_of_isWord {letters : Bytes} (h : letters.map lowerCase = emptyWord) :
    ∃ b bs, letters = b :: bs ∧ isBlank b = false ∧ isOpening b = false ∧ b ≠ rightBrace := by
  cases letters with
  | nil => cases h
  | cons b bs =>
    have hb : lowerCase b = 0x65 := List.head_eq_of_cons_eq h
    refine ⟨b, bs, rfl, ?_, ?_, ?_⟩
    · rw [Bool.eq_false_iff]
      intro hblank
      simp only [isBlank, Bool.or_eq_true, beq_iff_eq] at hblank
      rcases hblank with (((rfl | rfl) | rfl) | rfl) | rfl <;> exact absurd hb (by decide)
    · rw [Bool.eq_false_iff]
      intro hopening
      simp only [isOpening, Bool.or_eq_true, beq_iff_eq] at hopening
      rcases hopening with rfl | rfl <;> exact absurd hb (by decide)
    · rintro rfl
      exact absurd hb (by decide)

theorem isBlank_of_isOpening {b : UInt8} (h : isOpening b = true) :
    isBlank b = false ∧ b ≠ rightBrace := by
  simp only [isOpening, Bool.or_eq_true, beq_iff_eq] at h
  rcases h with rfl | rfl <;> decide

theorem lt_of_isOpening {b : UInt8} (h : isOpening b = true) : b < 0x80 := by
  simp only [isOpening, Bool.or_eq_true, beq_iff_eq] at h
  rcases h with rfl | rfl <;> decide

theorem lt_of_isClosing {b : UInt8} (h : isClosing b = true) : b < 0x80 := by
  simp only [isClosing, Bool.or_eq_true, beq_iff_eq] at h
  rcases h with rfl | rfl <;> decide

/-- A phrase begins with a byte that is no blank and no right brace. -/
theorem Phrase.exists_bytes_eq (phrase : Phrase) :
    ∃ b bs, phrase.bytes = b :: bs ∧ isBlank b = false ∧ b ≠ rightBrace := by
  cases phrase with
  | word letters isWord =>
    obtain ⟨b, bs, hletters, hblank, _, hbrace⟩ := head_of_isWord isWord
    exact ⟨b, bs, hletters, hblank, hbrace⟩
  | bracketed opening items closing opens _ _ =>
    exact ⟨opening, _, rfl, isBlank_of_isOpening opens⟩

theorem Phrase.solid_bytes_append (phrase : Phrase) : Solid (phrase.bytes ++ bytes) := by
  obtain ⟨b, bs, hbytes, hblank, _⟩ := phrase.exists_bytes_eq
  rw [hbytes]
  exact solid_cons hblank

theorem Phrase.bytes_unique {phrase phrase' : Phrase}
    (h : phrase.bytes ++ bytes = phrase'.bytes ++ bytes') :
    phrase = phrase' ∧ bytes = bytes' := by
  cases phrase with
  | word letters isWord =>
    cases phrase' with
    | word letters' isWord' =>
      have hlength : letters.length = letters'.length := by
        rw [length_of_isWord isWord, length_of_isWord isWord']
      obtain ⟨rfl, hbytes⟩ := List.append_inj h hlength
      exact ⟨rfl, hbytes⟩
    | bracketed opening items closing opens _ _ =>
      obtain ⟨b, bs, rfl, _, hopening, _⟩ := head_of_isWord isWord
      rw [List.head_eq_of_cons_eq h, opens] at hopening
      cases hopening
  | bracketed opening items closing opens apart closes =>
    cases phrase' with
    | word letters' isWord' =>
      obtain ⟨b, bs, rfl, _, hopening, _⟩ := head_of_isWord isWord'
      rw [← List.head_eq_of_cons_eq h, opens] at hopening
      cases hopening
    | bracketed opening' items' closing' opens' apart' closes' =>
      have htail : (items.flatMap Item.bytes ++ [closing]) ++ bytes =
          (items'.flatMap Item.bytes ++ [closing']) ++ bytes' := List.tail_eq_of_cons_eq h
      rw [List.append_assoc, List.append_assoc] at htail
      obtain ⟨rfl, rfl, hbytes⟩ := items_unique htail apart apart' closes closes'
      obtain rfl := List.head_eq_of_cons_eq h
      exact ⟨rfl, hbytes⟩

/-! ## Entries -/

theorem Entry.bytes_append (entry : Entry) : entry.bytes ++ bytes =
    entry.before.bytes ++ (entry.phrase.bytes ++ (entry.after.bytes ++ bytes)) := by
  unfold Entry.bytes
  rw [List.append_assoc, List.append_assoc]

theorem Entry.bytes_unique {entry entry' : Entry}
    (h : entry.bytes ++ bytes = entry'.bytes ++ bytes') (hbytes : Solid bytes)
    (hbytes' : Solid bytes') : entry = entry' ∧ bytes = bytes' := by
  rw [Entry.bytes_append, Entry.bytes_append] at h
  obtain ⟨hbefore, hphrase⟩ := Blanks.bytes_unique h entry.phrase.solid_bytes_append
    entry'.phrase.solid_bytes_append
  obtain ⟨hphrase, hafter⟩ := Phrase.bytes_unique hphrase
  obtain ⟨hafter, hrest⟩ := Blanks.bytes_unique hafter hbytes hbytes'
  cases entry
  cases entry'
  cases hbefore
  cases hphrase
  cases hafter
  exact ⟨rfl, hrest⟩

theorem followers_cons_append (entry : Entry) (entries : List Entry) :
    followers (entry :: entries) ++ bytes =
      comma :: (entry.bytes ++ (followers entries ++ bytes)) := by
  unfold followers
  rw [List.flatMap_cons, List.append_assoc]
  rfl

/-- What stands behind an entry begins with a comma or a right brace. -/
theorem solid_entries (entries : List Entry) :
    Solid (followers entries ++ rightBrace :: rest) := by
  cases entries with
  | nil => exact solid_cons rfl
  | cons entry entries => exact solid_cons rfl

theorem entries_unique {entries entries' : List Entry}
    (h : followers entries ++ rightBrace :: rest =
      followers entries' ++ rightBrace :: rest') :
    entries = entries' ∧ rest = rest' := by
  induction entries generalizing entries' with
  | nil =>
    cases entries' with
    | nil => exact ⟨rfl, List.tail_eq_of_cons_eq h⟩
    | cons entry' entries' => exact absurd (List.head_eq_of_cons_eq h) (by decide)
  | cons entry entries ih =>
    cases entries' with
    | nil => exact absurd (List.head_eq_of_cons_eq h) (by decide)
    | cons entry' entries' =>
      rw [followers_cons_append, followers_cons_append] at h
      obtain ⟨rfl, htail⟩ := Entry.bytes_unique (List.tail_eq_of_cons_eq h)
        (solid_entries entries) (solid_entries entries')
      obtain ⟨rfl, hrest⟩ := ih htail
      exact ⟨rfl, hrest⟩

/-! ## Lists -/

theorem Body.entries_bytes_append (first : Entry) (entries : List Entry) :
    (Body.entries first entries).bytes ++ rightBrace :: rest = first.bytes ++
      (followers entries ++ rightBrace :: rest) := by
  unfold Body.bytes
  rw [List.append_assoc]

/-- Blanks before a right brace do not derive from an entry. -/
theorem Body.blank_bytes_append_ne (blanks : Blanks) (first : Entry) (entries : List Entry) :
    blanks.bytes ++ rightBrace :: rest ≠
      (Body.entries first entries).bytes ++ rightBrace :: rest' := by
  intro h
  rw [Body.entries_bytes_append, Entry.bytes_append] at h
  obtain ⟨_, hphrase⟩ := Blanks.bytes_unique h (solid_cons rfl) first.phrase.solid_bytes_append
  obtain ⟨b, bs, hbytes, _, hbrace⟩ := first.phrase.exists_bytes_eq
  rw [hbytes] at hphrase
  exact hbrace (List.head_eq_of_cons_eq hphrase).symm

theorem Body.bytes_unique {body body' : Body}
    (h : body.bytes ++ rightBrace :: rest = body'.bytes ++ rightBrace :: rest') :
    body = body' ∧ rest = rest' := by
  cases body with
  | blank blanks =>
    cases body' with
    | blank blanks' =>
      obtain ⟨rfl, hrest⟩ := Blanks.bytes_unique h (solid_cons rfl) (solid_cons rfl)
      exact ⟨rfl, List.tail_eq_of_cons_eq hrest⟩
    | entries first' entries' => exact absurd h (Body.blank_bytes_append_ne _ _ _)
  | entries first entries =>
    cases body' with
    | blank blanks' => exact absurd h.symm (Body.blank_bytes_append_ne _ _ _)
    | entries first' entries' =>
      rw [Body.entries_bytes_append, Body.entries_bytes_append] at h
      obtain ⟨rfl, htail⟩ := Entry.bytes_unique h (solid_entries entries) (solid_entries entries')
      obtain ⟨rfl, hrest⟩ := entries_unique htail
      exact ⟨rfl, hrest⟩

/-- The grammar is unambiguous. -/
theorem Tree.bytes_injective : Function.Injective Tree.bytes := by
  intro tree tree' h
  obtain ⟨hbefore, hbrace⟩ := Blanks.bytes_unique h (solid_cons rfl) (solid_cons rfl)
  obtain ⟨hbody, hafter⟩ := Body.bytes_unique (List.tail_eq_of_cons_eq hbrace)
  cases tree
  cases tree'
  cases hbefore
  cases hbody
  cases Blanks.ext hafter
  rfl

/-! ## Bytes that stop being a list -/

/-- No phrase stands in front. -/
def Phraseless (bytes : Bytes) : Prop :=
  ∀ (phrase : Phrase) (rest : Bytes), bytes ≠ phrase.bytes ++ rest

/-- The failure where a phrase is missing: at the end of the text, also if that falls into a
bracketed phrase, or at what stands in its place. -/
def missingPhrase : Bytes → Failure
  | [] => ⟨.unexpectedEnd, []⟩
  | b :: bytes =>
    if isOpening b then ⟨.unexpectedEnd, []⟩ else ⟨.expectedRangeStart, b :: bytes⟩

/-- The failure where an entry is followed by neither a comma nor a right brace. -/
def missingComma : Bytes → Failure
  | [] => ⟨.unexpectedEnd, []⟩
  | unread => ⟨.expectedCommaOrEnd, unread⟩

/-- Entries with commas behind them, up to a place where a phrase is missing, or a comma is. -/
inductive Unfinished : List Phrase → Failure → Bytes → Prop where
  | phraseless (blanks : Blanks) {rest : Bytes} (hsolid : Solid rest) (h : Phraseless rest) :
    Unfinished [] (missingPhrase rest) (blanks.bytes ++ rest)
  | commaless (entry : Entry) {unread : Bytes} (hsolid : Solid unread)
    (hcomma : unread.head? ≠ some comma) (hbrace : unread.head? ≠ some rightBrace) :
    Unfinished [entry.phrase] (missingComma unread) (entry.bytes ++ unread)
  | next (entry : Entry) {phrases : List Phrase} {failure : Failure} {rest : Bytes}
    (h : Unfinished phrases failure rest) :
    Unfinished (entry.phrase :: phrases) failure (entry.bytes ++ comma :: rest)

/-- The bytes are no list: behind these phrases, this is why. -/
inductive Stops : List Phrase → Failure → Bytes → Prop where
  /-- There is no left brace. -/
  | braceless (before : Blanks) {unread : Bytes} (hsolid : Solid unread)
    (hbrace : unread.head? ≠ some leftBrace) :
    Stops [] ⟨.missingLeftBrace, unread⟩ (before.bytes ++ unread)
  /-- The entries do not come to an end. -/
  | unfinished (before : Blanks) {phrases : List Phrase} {failure : Failure} {rest : Bytes}
    (h : Unfinished phrases failure rest)
    (hbrace : ∀ (blanks : Blanks) after, rest ≠ blanks.bytes ++ rightBrace :: after) :
    Stops phrases failure (before.bytes ++ leftBrace :: rest)
  /-- A list is followed by something else than blanks. -/
  | junk (tree : Tree) {unread : Bytes} (hsolid : Solid unread) (hne : unread ≠ []) :
    Stops tree.phrases ⟨.junkAfterRightBrace, unread⟩ (tree.bytes ++ unread)

/-- The phrases of a list, or those before the place where bytes stop being one. -/
def Offers (phrases : List Phrase) (failure : Option Failure) (bytes : Bytes) : Prop :=
  match failure with
  | none => ∃ tree : Tree, tree.bytes = bytes ∧ tree.phrases = phrases
  | some failure => Stops phrases failure bytes

end RangeUnion.BracedList
