import RangeUnion.Proofs.Text.Encoding
import RangeUnion.Proofs.Text.Scan

/-!
# What more text can mend

A scan that fails tells whether the text is the front part of a list in braces. If it is, the
failure is `Mendable`: the text ended too soon, or in the middle of the word `empty`, or before the
left brace. Then there is a text that completes the list. If it is not, the scan fails in the same
way at the same place whatever stands behind the text (`tells_scan`).
-/

namespace RangeUnion.BracedList

variable {bytes bytes' rest more : Bytes} {b : UInt8} {element : Element} {failure : Failure}

/-- A front part of the word `empty`, in any case, that is neither nothing nor the whole word. -/
def BeginsWord (bytes : Bytes) : Prop :=
  bytes ≠ [] ∧ bytes.map lowerCase <+: emptyWord ∧ bytes.map lowerCase ≠ emptyWord

/-- More text can mend the failure. -/
def Failure.Mendable (failure : Failure) : Prop :=
  match failure.fault with
  | .missingLeftBrace => failure.unread = []
  | .unexpectedEnd => True
  | .expectedRangeStart => BeginsWord failure.unread
  | .expectedCommaOrEnd | .junkAfterRightBrace => False

/-- The same failure with more bytes behind it. -/
def Failure.before (failure : Failure) (more : Bytes) : Failure :=
  { failure with unread := failure.unread ++ more }

/-- The failure of `act` on `bytes` stands at some place in them, and tells whether more text mends
it. If not, it stays what it is. -/
structure Tells (act : Bytes → Option Failure) (bytes : Bytes) (failure : Failure) : Prop where
  suffix : failure.unread <:+ bytes
  mended : failure.Mendable → ∃ text : String, act (bytes ++ Text.toBytes text) = none
  kept : ¬ failure.Mendable → ∀ more, act (bytes ++ more) = some (failure.before more)

namespace Tells

variable {act act' : Bytes → Option Failure}

/-- What goes on as `act` does from some place on fails as `act` does. -/
theorem trans (h : Tells act bytes failure) (hsuffix : bytes <:+ bytes')
    (hact : ∀ more, act' (bytes' ++ more) = act (bytes ++ more)) : Tells act' bytes' failure where
  suffix := h.suffix.trans hsuffix
  mended hmendable := by
    obtain ⟨text, htext⟩ := h.mended hmendable
    exact ⟨text, (hact _).trans htext⟩
  kept hfinal more := (hact more).trans (h.kept hfinal more)

theorem exists_mended_iff (h : Tells act bytes failure) :
    (∃ text : String, act (bytes ++ Text.toBytes text) = none) ↔ failure.Mendable := by
  refine ⟨?_, h.mended⟩
  rintro ⟨text, htext⟩
  by_contra hfinal
  rw [h.kept hfinal] at htext
  cases htext

end Tells

/-! ## Blanks -/

theorem skipBlanks_suffix (bytes : Bytes) : skipBlanks bytes <:+ bytes := List.dropWhile_suffix _

theorem skipBlanks_append (h : Solid (skipBlanks bytes ++ more)) :
    skipBlanks (bytes ++ more) = skipBlanks bytes ++ more := by
  obtain ⟨blanks, hbytes⟩ := Blanks.exists_append_skipBlanks bytes
  have hskip := blanks.skipBlanks_append h
  rwa [← List.append_assoc, ← hbytes] at hskip

/-- The first byte that is no blank stays the first one. -/
theorem skipBlanks_append_of_cons (h : skipBlanks bytes = b :: rest) (more : Bytes) :
    skipBlanks (bytes ++ more) = b :: (rest ++ more) := by
  have hfirst := solid_skipBlanks bytes
  have hsolid : Solid (skipBlanks bytes ++ more) := by
    rw [h] at hfirst ⊢
    exact solid_cons (hfirst b rfl)
  rw [skipBlanks_append hsolid, h]
  rfl

theorem skipBlanks_append_of_nil (h : skipBlanks bytes = []) (hmore : Solid more) :
    skipBlanks (bytes ++ more) = more := by
  have hsolid : Solid (skipBlanks bytes ++ more) := by
    rw [h]
    exact hmore
  rw [skipBlanks_append hsolid, h]
  rfl

/-! ## Elements -/

/-- There is a text that closes the bracketed part that is open behind `bytes`, and does nothing
more. -/
def Closable (quoted : Bool) (bytes : Bytes) : Prop :=
  ∃ (text : String) (tail : Bytes), cutTail quoted (bytes ++ Text.toBytes text) = some (tail, [])

theorem Closable.of_step {quoted quoted' : Bool} {front : Bytes} (h : Closable quoted' bytes')
    (hstep : ∀ more,
      cutTail quoted (bytes ++ more) = prepend front (cutTail quoted' (bytes' ++ more))) :
    Closable quoted bytes := by
  obtain ⟨text, tail, hcut⟩ := h
  refine ⟨text, front ++ tail, ?_⟩
  rw [hstep, hcut]
  rfl

/-- A bracketed part that does not end in `bytes` can be closed. -/
theorem closable_of_cutTail {quoted : Bool} (h : cutTail quoted bytes = none) :
    Closable quoted bytes := by
  fun_induction cutTail quoted bytes with
  | case1 quoted =>
    cases quoted with
    | false => exact ⟨"]", [0x5D], by decide⟩
    | true => exact ⟨"\"]", [quote, 0x5D], by decide⟩
  | case2 quoted =>
    -- the escape takes the next byte, whatever it is
    cases quoted with
    | false => exact ⟨"a]", [backslash, 0x61, 0x5D], by decide⟩
    | true => exact ⟨"a\"]", [backslash, 0x61, quote, 0x5D], by decide⟩
  | case3 quoted c bytes ih =>
    exact (ih (Option.map_eq_none_iff.1 h)).of_step fun _ => cutTail_escaped quoted
  | case4 bytes _ ih => exact (ih (Option.map_eq_none_iff.1 h)).of_step fun _ => cutTail_doubled
  | case5 c bytes hc _ ih =>
    refine (ih (Option.map_eq_none_iff.1 h)).of_step fun _ => cutTail_closing_quote ?_
    exact fun hquote => hc (Option.some.inj hquote)
  | case6 =>
    -- the mark at the end closes the run, as long as no other mark comes next
    exact ⟨"]", [quote, 0x5D], by decide⟩
  | case7 bytes _ ih =>
    exact (ih (Option.map_eq_none_iff.1 h)).of_step fun _ => cutTail_opening_quote
  | case8 => cases h
  | case9 quoted b bytes hbackslash hquote hclosing ih =>
    refine (ih (Option.map_eq_none_iff.1 h)).of_step fun _ => cutTail_plain hquote hbackslash ?_
    cases quoted with
    | true => exact .inl rfl
    | false => exact .inr (by simpa using hclosing)

/-- A front part of the word can be completed. -/
theorem exists_word_rest (h : bytes.map lowerCase <+: emptyWord) :
    ∃ text : String, (bytes ++ Text.toBytes text).map lowerCase = emptyWord := by
  have hrest : Text.toBytes (String.ofList (['e', 'm', 'p', 't', 'y'].drop bytes.length)) =
      emptyWord.drop bytes.length := by
    rw [Text.toBytes_ofList, Text.encode_of_lt, List.map_drop]
    · rfl
    · intro c hc
      have hletters : ∀ c ∈ ['e', 'm', 'p', 't', 'y'], c.toNat < 0x80 := by simp
      exact hletters c (List.mem_of_mem_drop hc)
  have hlower : emptyWord.map lowerCase = emptyWord := by decide
  refine ⟨String.ofList (['e', 'm', 'p', 't', 'y'].drop bytes.length), ?_⟩
  rw [hrest, List.map_append, List.map_drop, hlower]
  have happend := List.prefix_iff_eq_append.1 h
  rwa [List.length_map] at happend

/-- What is neither the word nor begins it does not become the word. -/
theorem dropWord?_append_eq_none (h : dropWord? bytes = none) (hbegins : ¬ BeginsWord bytes)
    (hne : bytes ≠ []) (more : Bytes) : dropWord? (bytes ++ more) = none := by
  rw [Option.eq_none_iff_forall_ne_some]
  intro rest hrest
  obtain ⟨letters, hletters, happend⟩ := dropWord?_eq_some_iff.1 hrest
  rcases List.append_eq_append_iff.1 happend with ⟨letters', rfl, _⟩ | ⟨rest', rfl, _⟩
  · refine hbegins ⟨hne, ?_, ?_⟩
    · rw [← hletters, List.map_append]
      exact List.prefix_append _ _
    · intro hword
      rw [dropWord?_eq_some_iff.2 ⟨bytes, hword, (List.append_nil bytes).symm⟩] at h
      cases h
  · rw [dropWord?_eq_some_iff.2 ⟨letters, hletters, rfl⟩] at h
    cases h

/-- What is cut is cut the same with more bytes behind it. -/
theorem cutElement_append (h : cutElement bytes = .ok (element, rest)) (more : Bytes) :
    cutElement (bytes ++ more) = .ok (element, rest ++ more) := by
  obtain ⟨phrase, rfl, rfl⟩ := exists_phrase_of_cutElement h
  rw [List.append_assoc]
  exact cutElement_phrase phrase (rest ++ more)

theorem solid_of_cutElement (h : cutElement bytes = .ok (element, rest)) : Solid bytes := by
  obtain ⟨phrase, rfl, _⟩ := exists_phrase_of_cutElement h
  exact phrase.solid_bytes_append

theorem suffix_of_cutElement (h : cutElement bytes = .ok (element, rest)) : rest <:+ bytes := by
  obtain ⟨phrase, rfl, _⟩ := exists_phrase_of_cutElement h
  exact List.suffix_append _ _

/-- Cutting an element fails if the bytes end too soon, which can be mended, or if neither a
bracket nor the word stands in front. -/
theorem cutElement_failure (h : cutElement bytes = .error failure) :
    (failure = ⟨.unexpectedEnd, []⟩ ∧ ∃ (text : String) (element : Element),
      cutElement (bytes ++ Text.toBytes text) = .ok (element, [])) ∨
    (failure = ⟨.expectedRangeStart, bytes⟩ ∧ ∃ b bs, bytes = b :: bs ∧ isOpening b = false ∧
      dropWord? (b :: bs) = none) := by
  have hcuts := cuts_cutElement bytes
  rw [h] at hcuts
  cases hcuts with
  | nil => exact .inl ⟨rfl, "empty", .word, by decide⟩
  | unclosed hopening hcut =>
    obtain ⟨text, tail, htail⟩ := closable_of_cutTail hcut
    exact .inl ⟨rfl, text, _, cutElement_closed hopening htail⟩
  | neither hopening hword => exact .inr ⟨rfl, _, _, rfl, hopening, hword⟩

theorem suffix_of_cutElement_error (h : cutElement bytes = .error failure) :
    failure.unread <:+ bytes := by
  rcases cutElement_failure h with ⟨rfl, _⟩ | ⟨rfl, _⟩
  · exact List.nil_suffix
  · exact List.suffix_rfl

/-- An element that cannot be cut can be completed if the failure says so. -/
theorem exists_completed (h : cutElement bytes = .error failure) (hmendable : failure.Mendable) :
    ∃ (text : String) (element : Element),
      cutElement (bytes ++ Text.toBytes text) = .ok (element, []) := by
  rcases cutElement_failure h with ⟨_, hcompleted⟩ | ⟨rfl, _⟩
  · exact hcompleted
  · obtain ⟨_, hbegins, _⟩ : BeginsWord bytes := hmendable
    obtain ⟨text, hword⟩ := exists_word_rest hbegins
    refine ⟨text, .word, ?_⟩
    have hcut := cutElement_phrase (.word _ hword) []
    rwa [List.append_nil] at hcut

theorem ne_nil_of_final (h : cutElement bytes = .error failure) (hfinal : ¬ failure.Mendable) :
    bytes ≠ [] := by
  rintro rfl
  cases h
  exact hfinal trivial

/-- Otherwise cutting it fails in the same way whatever stands behind. -/
theorem cutElement_append_of_final (h : cutElement bytes = .error failure)
    (hfinal : ¬ failure.Mendable) (more : Bytes) :
    cutElement (bytes ++ more) = .error (failure.before more) := by
  rcases cutElement_failure h with ⟨rfl, _⟩ | ⟨rfl, b, bs, rfl, hopening, hword⟩
  · exact absurd trivial hfinal
  · have hword' := dropWord?_append_eq_none hword hfinal (List.cons_ne_nil b bs) more
    exact cutElement_neither hopening hword'

/-! ## Lists -/

/-- The junk behind a list stays junk. -/
theorem tells_ending (h : ending bytes = some failure) : Tells ending bytes failure := by
  unfold ending at h
  cases hskip : skipBlanks bytes with
  | nil =>
    rw [hskip] at h
    cases h
  | cons b after =>
    rw [hskip] at h
    cases h
    refine ⟨hskip ▸ skipBlanks_suffix bytes, False.elim, fun _ more => ?_⟩
    unfold ending
    rw [skipBlanks_append_of_cons hskip]
    rfl

/-- What is cut behind blanks is cut the same with more bytes behind it. -/
theorem cutElement_skipBlanks_append (h : cutElement (skipBlanks bytes) = .ok (element, rest))
    (more : Bytes) : cutElement (skipBlanks (bytes ++ more)) = .ok (element, rest ++ more) := by
  have happend := cutElement_append h more
  rwa [skipBlanks_append (solid_of_cutElement happend)]

theorem suffix_of_cut (h : cutElement (skipBlanks bytes) = .ok (element, rest)) :
    skipBlanks rest <:+ bytes :=
  (skipBlanks_suffix rest).trans ((suffix_of_cutElement h).trans (skipBlanks_suffix bytes))

/-- A right brace ends a list behind an element. -/
theorem scanElements_brace (hcut : cutElement (skipBlanks bytes) = .ok (element, rest))
    (hskip : skipBlanks rest = []) :
    (scanElements (bytes ++ Text.toBytes "\x7d")).failure = none := by
  have hcut' := cutElement_skipBlanks_append hcut (Text.toBytes "\x7d")
  have hskip' := skipBlanks_append_of_nil hskip (@solid_cons [] rightBrace rfl)
  rw [scanElements_of_cut hcut' hskip', if_neg (by decide), if_pos rfl]
  rfl

/-- By induction along the scan. What is cut in front stays the same with more text behind it, so
the failure stands or is mended in the rest. -/
theorem tells_scanElements (h : (scanElements bytes).failure = some failure) :
    Tells (fun bytes => (scanElements bytes).failure) bytes failure := by
  fun_induction scanElements bytes with
  | case1 bytes failure' hcut =>
    cases h
    refine ⟨(suffix_of_cutElement_error hcut).trans (skipBlanks_suffix bytes), ?_, ?_⟩
    · intro hmendable
      obtain ⟨text, element, hcompleted⟩ := exists_completed hcut hmendable
      have hcut' : cutElement (skipBlanks (bytes ++ Text.toBytes text)) = .ok (element, []) := by
        rwa [skipBlanks_append (solid_of_cutElement hcompleted)]
      refine ⟨text ++ "\x7d", ?_⟩
      rw [Text.toBytes_append, ← List.append_assoc]
      exact scanElements_brace hcut' rfl
    · intro hfinal more
      have hcut' := cutElement_append_of_final hcut hfinal more
      obtain ⟨b, after, hskip⟩ := List.exists_cons_of_ne_nil (ne_nil_of_final hcut hfinal)
      rw [hskip, List.cons_append, ← skipBlanks_append_of_cons hskip] at hcut'
      exact congrArg Scan.failure (scanElements_of_error hcut')
  | case2 bytes element rest hcut hskip =>
    cases h
    exact ⟨List.nil_suffix, fun _ => ⟨"\x7d", scanElements_brace hcut hskip⟩,
      fun hfinal => absurd trivial hfinal⟩
  | case3 bytes element rest hcut after hskip ih =>
    refine (ih h).trans ((List.suffix_cons comma after).trans (hskip ▸ suffix_of_cut hcut)) ?_
    intro more
    rw [scanElements_of_cut (cutElement_skipBlanks_append hcut more)
      (skipBlanks_append_of_cons hskip more), if_pos rfl]
    rfl
  | case4 bytes element rest hcut after hskip _ =>
    refine (tells_ending h).trans
      ((List.suffix_cons rightBrace after).trans (hskip ▸ suffix_of_cut hcut)) ?_
    intro more
    rw [scanElements_of_cut (cutElement_skipBlanks_append hcut more)
      (skipBlanks_append_of_cons hskip more), if_neg (by decide), if_pos rfl]
  | case5 bytes element rest hcut b after hskip hcomma hbrace =>
    cases h
    refine ⟨hskip ▸ suffix_of_cut hcut, False.elim, fun _ more => ?_⟩
    rw [scanElements_of_cut (cutElement_skipBlanks_append hcut more)
      (skipBlanks_append_of_cons hskip more), if_neg hcomma, if_neg hbrace]
    rfl

theorem scanBody_of_cons (h : skipBlanks bytes = b :: rest) : scanBody bytes =
    if b = rightBrace then ⟨[], ending rest⟩ else scanElements (b :: rest) := by
  unfold scanBody
  rw [h]

theorem scan_of_cons (h : skipBlanks bytes = b :: rest) : scan bytes =
    if b = leftBrace then scanBody rest else ⟨[], some ⟨.missingLeftBrace, b :: rest⟩⟩ := by
  unfold scan
  rw [h]

theorem tells_scanBody (h : (scanBody bytes).failure = some failure) :
    Tells (fun bytes => (scanBody bytes).failure) bytes failure := by
  cases hskip : skipBlanks bytes with
  | nil =>
    unfold scanBody at h
    rw [hskip] at h
    cases h
    have hskip' := skipBlanks_append_of_nil hskip (@solid_cons [] rightBrace rfl)
    exact ⟨List.nil_suffix,
      fun _ => ⟨"\x7d", congrArg Scan.failure (scanBody_of_cons hskip')⟩,
      fun hfinal => absurd trivial hfinal⟩
  | cons b after =>
    rw [scanBody_of_cons hskip] at h
    have hsuffix : b :: after <:+ bytes := hskip ▸ skipBlanks_suffix bytes
    split at h
    · next hbrace =>
      refine (tells_ending h).trans ((List.suffix_cons b after).trans hsuffix) fun more => ?_
      rw [scanBody_of_cons (skipBlanks_append_of_cons hskip more), if_pos hbrace]
    · next hbrace =>
      refine (tells_scanElements h).trans hsuffix fun more => ?_
      rw [scanBody_of_cons (skipBlanks_append_of_cons hskip more), if_neg hbrace]
      rfl

/-- A scan that fails tells whether more text can mend that. -/
theorem tells_scan (h : (scan bytes).failure = some failure) :
    Tells (fun bytes => (scan bytes).failure) bytes failure := by
  cases hskip : skipBlanks bytes with
  | nil =>
    unfold scan at h
    rw [hskip] at h
    cases h
    have hskip' := skipBlanks_append_of_nil hskip (@solid_cons [rightBrace] leftBrace rfl)
    exact ⟨List.nil_suffix,
      fun _ => ⟨"\x7b\x7d", congrArg Scan.failure (scan_of_cons hskip')⟩,
      fun hfinal => absurd rfl hfinal⟩
  | cons b after =>
    rw [scan_of_cons hskip] at h
    have hsuffix : b :: after <:+ bytes := hskip ▸ skipBlanks_suffix bytes
    split at h
    · next hbrace =>
      refine (tells_scanBody h).trans ((List.suffix_cons b after).trans hsuffix) fun more => ?_
      rw [scan_of_cons (skipBlanks_append_of_cons hskip more), if_pos hbrace]
    · next hbrace =>
      cases h
      refine ⟨hsuffix, fun hmendable => absurd hmendable (List.cons_ne_nil b after),
        fun _ more => ?_⟩
      rw [scan_of_cons (skipBlanks_append_of_cons hskip more), if_neg hbrace]
      rfl

/-! ## What a failure says of a text -/

theorem fault_of_ending (h : ending bytes = some failure) :
    failure.fault = .junkAfterRightBrace := by
  unfold ending at h
  split at h
  · cases h
  · cases h
    rfl

/-- Behind the left brace it is not missed. -/
theorem fault_ne_of_scanElements (h : (scanElements bytes).failure = some failure) :
    failure.fault ≠ .missingLeftBrace := by
  intro hfault
  fun_induction scanElements bytes with
  | case1 bytes failure' hcut =>
    cases h
    rcases cutElement_failure hcut with ⟨rfl, _⟩ | ⟨rfl, _⟩ <;> cases hfault
  | case2 =>
    cases h
    cases hfault
  | case3 bytes element rest hcut after hskip ih => exact ih h
  | case4 bytes element rest hcut after hskip _ =>
    rw [fault_of_ending h] at hfault
    cases hfault
  | case5 =>
    cases h
    cases hfault

theorem fault_ne_of_scanBody (h : (scanBody bytes).failure = some failure) :
    failure.fault ≠ .missingLeftBrace := by
  intro hfault
  unfold scanBody at h
  split at h
  · split at h
    · rw [fault_of_ending h] at hfault
      cases hfault
    · exact fault_ne_of_scanElements h hfault
  · cases h
    cases hfault

/-- The left brace is missed at the first byte that is no blank. -/
theorem unread_of_missingLeftBrace (h : (scan bytes).failure = some failure)
    (hfault : failure.fault = .missingLeftBrace) : failure.unread = skipBlanks bytes := by
  cases hskip : skipBlanks bytes with
  | nil =>
    unfold scan at h
    rw [hskip] at h
    cases h
    rfl
  | cons b after =>
    rw [scan_of_cons hskip] at h
    split at h
    · exact absurd hfault (fault_ne_of_scanBody h)
    · cases h
      rfl

/-- The text is a list in braces. -/
def Accepted (text : String) : Prop := (scan (Text.toBytes text)).failure = none

/-- What the fault says about the texts that begin with `text` is true. -/
def Failure.Truthful (text : String) (failure : Failure) : Prop :=
  match failure.fault with
  | .missingLeftBrace => (∃ more : String, Accepted (text ++ more)) ↔
      ∀ b ∈ Text.toBytes text, isBlank b = true
  | .unexpectedEnd => ∃ more : String, Accepted (text ++ more)
  | .expectedRangeStart => (∃ more : String, Accepted (text ++ more)) ↔ BeginsWord failure.unread
  | .expectedCommaOrEnd | .junkAfterRightBrace => ¬ ∃ more : String, Accepted (text ++ more)

variable {text : String}

theorem exists_accepted_iff (h : (scan (Text.toBytes text)).failure = some failure) :
    (∃ more : String, Accepted (text ++ more)) ↔ failure.Mendable := by
  simp only [Accepted, Text.toBytes_append]
  exact (tells_scan h).exists_mended_iff

/-- Whatever stops a scan, its fault says the truth. -/
theorem truthful_of_scan (h : (scan (Text.toBytes text)).failure = some failure) :
    failure.Truthful text := by
  have hmended := exists_accepted_iff h
  obtain ⟨fault, unread⟩ := failure
  cases fault with
  | missingLeftBrace =>
    refine hmended.trans ?_
    show unread = [] ↔ _
    rw [show unread = _ from unread_of_missingLeftBrace h rfl]
    exact List.dropWhile_eq_nil_iff
  | unexpectedEnd => exact hmended.2 trivial
  | expectedRangeStart => exact hmended
  | expectedCommaOrEnd => exact hmended.1
  | junkAfterRightBrace => exact hmended.1

end RangeUnion.BracedList
