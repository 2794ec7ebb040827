import RangeUnion.IntSpan.Interval
import RangeUnion.Multirange.Literal
import RangeUnion.Proofs.Text.Encoding
import RangeUnion.Proofs.Text.Scan

/-!
# Reading a literal by the grammar

If the input function of the range type accepts all that it is given, reading a literal succeeds
or fails with the grammar of lists in braces alone. What the input function is given are then the
phrases of the derivation, in order: the word `empty`, or the part of the text from bracket to
bracket as it stands there (`parse_grammar`).
-/

namespace RangeUnion.BracedList

variable {text : String} {phrase : Phrase} {phrases : List Phrase} {tree : Tree} {bytes : Bytes}
  {failure : Failure}

/-- The literal that a phrase hands on. -/
def Phrase.literal (phrase : Phrase) : String := phrase.element.literal

/-- The phrase is the word `empty`, in any case. -/
def Phrase.IsWord (phrase : Phrase) : Prop := phrase.element = .word

/-- The literals that a derivation hands on, in order. -/
def Tree.literals (tree : Tree) : List String := tree.phrases.map Phrase.literal

/-! ## The literals of a derivation -/

/-- What is fed from a text are the literals of the phrases that it offers, and then the failure
where it stops being a list. -/
theorem literals_of_offers {failure : Option Failure}
    (h : Offers phrases failure (Text.toBytes text)) : literals text =
      ⟨phrases.map Phrase.literal,
        failure.map fun failure => .malformedLiteral text failure.fault⟩ := by
  unfold literals
  rw [scan_of_offers h]
  show (⟨(phrases.map Phrase.element).map Element.literal, _⟩ : Feed String) = _
  rw [List.map_map]
  rfl

theorem literals_of_tree (h : tree.bytes = Text.toBytes text) :
    literals text = ⟨tree.literals, none⟩ := by
  have hoffers : Offers tree.phrases none (Text.toBytes text) := ⟨tree, h, rfl⟩
  exact literals_of_offers hoffers

theorem Entry.phrase_infix (entry : Entry) : entry.phrase.bytes <:+: entry.bytes := by
  unfold Entry.bytes
  rw [← List.append_assoc]
  exact List.infix_append _ _ _

theorem Body.phrase_infix {body : Body} (h : phrase ∈ body.phrases) :
    phrase.bytes <:+: body.bytes := by
  cases body with
  | blank blanks => cases h
  | entries first entries =>
    rcases List.mem_cons.1 h with rfl | h
    · exact first.phrase_infix.trans (List.prefix_append _ _).isInfix
    · obtain ⟨entry, hentry, rfl⟩ := List.mem_map.1 h
      have hfollowers : comma :: entry.bytes <:+: followers entries := by
        unfold followers
        rw [List.flatMap_def]
        exact List.infix_of_mem_flatten (List.mem_map_of_mem hentry)
      have hentry : entry.bytes <:+: followers entries :=
        (List.suffix_cons comma entry.bytes).isInfix.trans hfollowers
      exact entry.phrase_infix.trans (hentry.trans (List.suffix_append _ _).isInfix)

theorem Tree.phrase_infix (h : phrase ∈ tree.phrases) : phrase.bytes <:+: tree.bytes := by
  have hbody : tree.body.bytes <:+: tree.bytes :=
    ⟨tree.before.bytes ++ [leftBrace], rightBrace :: tree.after.bytes, by simp [Tree.bytes]⟩
  exact (Body.phrase_infix h).trans hbody

theorem Unfinished.phrase_infix (h : Unfinished phrases failure bytes) (hmem : phrase ∈ phrases) :
    phrase.bytes <:+: bytes := by
  induction h with
  | phraseless => cases hmem
  | commaless entry _ _ _ =>
    rw [List.mem_singleton.1 hmem]
    exact entry.phrase_infix.trans (List.prefix_append _ _).isInfix
  | @next entry phrases failure rest _ ih =>
    rcases List.mem_cons.1 hmem with rfl | hmem
    · exact entry.phrase_infix.trans (List.prefix_append _ _).isInfix
    · have hrest : rest <:+ entry.bytes ++ comma :: rest :=
        (List.suffix_cons comma rest).trans (List.suffix_append _ _)
      exact (ih hmem).trans hrest.isInfix

theorem Stops.phrase_infix (h : Stops phrases failure bytes) (hmem : phrase ∈ phrases) :
    phrase.bytes <:+: bytes := by
  cases h with
  | braceless => cases hmem
  | @unfinished before phrases failure rest h _ =>
    have hrest : rest <:+ before.bytes ++ leftBrace :: rest :=
      (List.suffix_cons leftBrace rest).trans (List.suffix_append _ _)
    exact (h.phrase_infix hmem).trans hrest.isInfix
  | junk tree _ _ => exact (tree.phrase_infix hmem).trans (List.prefix_append _ _).isInfix

theorem Offers.phrase_infix {failure : Option Failure} (h : Offers phrases failure bytes)
    (hmem : phrase ∈ phrases) : phrase.bytes <:+: bytes := by
  cases failure with
  | none =>
    obtain ⟨tree, rfl, rfl⟩ := h
    exact tree.phrase_infix hmem
  | some failure => exact Stops.phrase_infix h hmem

theorem Phrase.literal_of_isWord (hword : phrase.IsWord) : phrase.literal = "empty" := by
  unfold literal
  rw [hword]
  rfl

/-- A bracketed phrase that stands in the text is handed on as it is. -/
theorem Phrase.verbatim_of_part (hpart : phrase.bytes <:+: Text.toBytes text)
    (hphrase : ¬ phrase.IsWord) : Text.toBytes phrase.literal = phrase.bytes ∧
      ∃ before after, text = before ++ phrase.literal ++ after := by
  obtain ⟨front, back, hbytes⟩ := hpart
  cases phrase with
  | word letters isWord => exact absurd rfl hphrase
  | bracketed opening items closing opens apart closes =>
    have htext : Text.toBytes text =
        front ++ (opening :: (items.flatMap Item.bytes ++ [closing]) ++ back) := by
      rw [← hbytes, List.append_assoc]
      rfl
    obtain ⟨before, literal, after, rfl, _, hliteral, _⟩ :=
      Text.exists_part (lt_of_isOpening opens) (lt_of_isClosing closes) htext
    have heq : (Phrase.bracketed opening items closing opens apart closes).literal = literal := by
      show Text.ofBytes (opening :: (items.flatMap Item.bytes ++ [closing])) = literal
      rw [← hliteral, Text.ofBytes_toBytes]
    rw [heq]
    exact ⟨hliteral, before, after, rfl⟩

theorem literal_verbatim (htree : tree.bytes = Text.toBytes text) (hmem : phrase ∈ tree.phrases)
    (hphrase : ¬ phrase.IsWord) : Text.toBytes phrase.literal = phrase.bytes ∧
      ∃ before after, text = before ++ phrase.literal ++ after :=
  phrase.verbatim_of_part (htree ▸ tree.phrase_infix hmem) hphrase

end RangeUnion.BracedList

namespace RangeUnion.Multirange

open BracedList

variable {σ α : Type}

/-- An input function that accepts all literals and keeps a log of them. What they stand for is
said by `read`, which may have a state of its own. -/
def logged (read : String → Int32 → Depth → StateM σ α) (literal : String) (typmod : Int32)
    (depth : Depth) : StateM (σ × List String) (Except Error α) := fun (s, log) =>
  let (x, s) := (read literal typmod depth).run s
  (.ok x, (s, log ++ [literal]))

variable {read : String → Int32 → Depth → StateM σ α} {typmod : Int32} {depth : Depth}

theorem run_logged (literal : String) (s : σ) (log : List String) :
    (logged read literal typmod depth).run (s, log) =
      (.ok ((read literal typmod depth).run s).1,
        (((read literal typmod depth).run s).2, log ++ [literal])) := rfl

/-- Literals that are all accepted are logged in order. -/
theorem run_inOrder_logged (literals : List String) (s : σ) (log : List String) :
    (Feed.inOrder (fun literal => logged read literal typmod depth) literals).run (s, log) =
      (.ok ((literals.mapM fun literal => read literal typmod depth).run s).1,
        (((literals.mapM fun literal => read literal typmod depth).run s).2, log ++ literals)) := by
  induction literals generalizing s log with
  | nil =>
    rw [List.append_nil]
    rfl
  | cons literal literals ih =>
    have hrest := ih ((read literal typmod depth).run s).2 (log ++ [literal])
    rw [List.append_assoc, List.singleton_append] at hrest
    unfold Feed.inOrder
    rw [StateT.run_bind, run_logged, List.mapM_cons]
    show StateT.run (do return (← Feed.inOrder _ literals).map _) _ = _
    rw [StateT.run_bind, hrest]
    rfl

/-- A feed that ends well hands over all of its elements. -/
theorem run_collect_logged {feed : Feed String} (h : feed.failure = none) (s : σ) :
    (feed.collect fun literal => logged read literal typmod depth).run (s, []) =
      (.ok ((feed.elements.mapM fun literal => read literal typmod depth).run s).1,
        (((feed.elements.mapM fun literal => read literal typmod depth).run s).2,
          feed.elements)) := by
  unfold Feed.collect
  rw [StateT.run_bind, run_inOrder_logged, h]
  rfl

/-- Whatever is handed over before, a feed's own failure is reported if nothing else fails. -/
theorem run_collect_logged_of_failure {feed : Feed String} {e : Error} (h : feed.failure = some e)
    (s : σ) : ∃ s' log, (feed.collect fun literal =>
      logged read literal typmod depth).run (s, []) = (.error e, (s', log)) := by
  unfold Feed.collect
  rw [StateT.run_bind, run_inOrder_logged, h]
  exact ⟨_, _, rfl⟩

section

variable [Interval α] {ctx ctx' : Context (StateM (σ × List String)) α}
  {type : RangeType (StateM (σ × List String)) α} {tag : Tag}

/-- Once the range type is found, reading hands the literals to its input function. -/
theorem parse_eq (hdepth : ctx.depth.enter = .ok depth)
    (hfound : ctx.rangeType tag = pure (.ok type, ctx')) (hinput : type.codec.input = logged read)
    (text : String) (typmod : Int32) :
    parse text tag typmod ctx = do
      let xs ← (literals text).collect fun literal => logged read literal typmod depth
      return (xs.bind fun xs => ofList tag (nonempty xs), ctx') := by
  unfold parse Context.acquire
  rw [hdepth]
  simp only [hfound, pure_bind]
  rw [← hinput]
  rfl

/-- With an input function that accepts every literal, reading succeeds on the lists that the
grammar derives, up to the length of what is to be stored. There is one derivation, and its
literals are the ones handed to the input function, in order. All other texts are malformed. -/
theorem parse_grammar (hdepth : ctx.depth.enter = .ok depth)
    (hfound : ctx.rangeType tag = pure (.ok type, ctx')) (hinput : type.codec.input = logged read)
    (text : String) (typmod : Int32) (s : σ) :
    ((scan (Text.toBytes text)).failure = none ↔ ∃ tree : Tree, tree.bytes = Text.toBytes text) ∧
    (∀ tree : Tree, tree.bytes = Text.toBytes text →
      (∀ tree' : Tree, tree'.bytes = Text.toBytes text → tree' = tree) ∧
      (∀ phrase ∈ tree.phrases, phrase.IsWord → phrase.literal = "empty") ∧
      (∀ phrase ∈ tree.phrases, ¬ phrase.IsWord → Text.toBytes phrase.literal = phrase.bytes ∧
        ∃ before after, text = before ++ phrase.literal ++ after) ∧
      (parse text tag typmod ctx).run (s, []) =
        ((ofList tag (nonempty ((tree.literals.mapM fun literal =>
            read literal typmod depth).run s).1), ctx'),
          (((tree.literals.mapM fun literal => read literal typmod depth).run s).2,
            tree.literals))) ∧
    ((¬ ∃ tree : Tree, tree.bytes = Text.toBytes text) → ∃ fault s' log,
      (parse text tag typmod ctx).run (s, []) =
        ((.error (.malformedLiteral text fault), ctx'), (s', log))) := by
  refine ⟨scan_succeeds_iff, ?_, ?_⟩
  · intro tree htree
    refine ⟨?_, ?_, ?_, ?_⟩
    · intro tree' htree'
      exact Tree.bytes_injective (htree'.trans htree.symm)
    · intro phrase _ hword
      unfold Phrase.literal
      rw [hword]
      rfl
    · intro phrase hmem hword
      exact literal_verbatim htree hmem hword
    · rw [parse_eq hdepth hfound hinput, literals_of_tree htree, StateT.run_bind,
        run_collect_logged rfl]
      rfl
  · intro hnone
    cases hfailure : (scan (Text.toBytes text)).failure with
    | none => exact absurd (scan_succeeds_iff.1 hfailure) hnone
    | some failure =>
      have hfeed : (literals text).failure = some (.malformedLiteral text failure.fault) := by
        show (scan (Text.toBytes text)).failure.map _ = _
        rw [hfailure]
        rfl
      obtain ⟨s', log, hrun⟩ := run_collect_logged_of_failure hfeed s
      refine ⟨failure.fault, s', log, ?_⟩
      rw [parse_eq hdepth hfound hinput, StateT.run_bind, hrun]
      rfl

end

/-- A quoted bracket closes nothing, and the case of the word does not matter. -/
theorem parse_grammar_quoted :
    ∃ (ctx ctx' : Context (StateM (Unit × List String)) IntSpan)
      (type : RangeType (StateM (Unit × List String)) IntSpan) (depth : Depth) (tree : Tree),
      ctx.depth.enter = .ok depth ∧
      ctx.rangeType IntSpan.multirangeTag = pure (.ok type, ctx') ∧
      type.codec.input = logged (fun _ _ _ => pure .empty) ∧
      tree.bytes = Text.toBytes "\x7b[\"]\"\"\"), eMpty \x7d" ∧
      (parse "\x7b[\"]\"\"\"), eMpty \x7d" IntSpan.multirangeTag (-1) ctx).run ((), []) =
        ((ofList IntSpan.multirangeTag [], ctx'), ((), ["[\"]\"\"\")", "empty"])) := by
  obtain ⟨tree, htree, hliterals⟩ : ∃ tree : Tree,
      tree.bytes = Text.toBytes "\x7b[\"]\"\"\"), eMpty \x7d" ∧
      tree.literals = ["[\"]\"\"\")", "empty"] :=
    ⟨⟨Blanks.none, .entries
      ⟨Blanks.none, .bracketed 0x5B [.quoted [.plain 0x5D (by decide) (by decide), .doubled]] 0x29
        rfl ⟨id, trivial⟩ rfl, Blanks.none⟩
      [⟨⟨[0x20], List.forall_mem_singleton.2 rfl⟩, .word [0x65, 0x4D, 0x70, 0x74, 0x79] rfl,
        ⟨[0x20], List.forall_mem_singleton.2 rfl⟩⟩], Blanks.none⟩, by decide, by decide⟩
  obtain ⟨type, hinput⟩ : ∃ type : RangeType (StateM (Unit × List String)) IntSpan,
      type.codec.input = logged fun _ _ _ => pure .empty :=
    ⟨⟨IntSpan.rangeTag, "int4range",
      { IntSpan.codec with input := logged fun _ _ _ => pure .empty }⟩, rfl⟩
  obtain ⟨ctx, ctx', hdepth, hfound⟩ : ∃ ctx ctx' : Context (StateM (Unit × List String)) IntSpan,
      ctx.depth.enter = .ok ⟨1, 100⟩ ∧
      ctx.rangeType IntSpan.multirangeTag = pure (.ok type, ctx') :=
    ⟨.new (fun _ => pure (some type)) .initial, _, rfl, rfl⟩
  have hrun := ((parse_grammar hdepth hfound hinput _ (-1) ()).2.1 tree htree).2.2.2
  rw [hliterals] at hrun
  exact ⟨ctx, ctx', type, _, tree, hdepth, hfound, hinput, htree, hrun⟩

end RangeUnion.Multirange
