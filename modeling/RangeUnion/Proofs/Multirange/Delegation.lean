import RangeUnion.Proofs.Catalog.Trace
import RangeUnion.Proofs.Multirange.EntryPoint
import RangeUnion.Proofs.Multirange.Framing
import RangeUnion.Proofs.Multirange.Literal

/-!
# What the entry points delegate

An entry point first spends a level of depth, then looks its range type up, then takes the function
that it needs from it, and only then calls that function, element by element. `Delegates` says what
is done outside of the entry point in each of the four cases, and what the answer is. It follows
from the shape that all entry points have (`EntryPoint.delegates`), whatever the catalog and the
functions do.

What is handed to the functions are the phrases that a text offers, the intervals in the slots, or
the messages that the frames offer, in their order. Either this is all of a well-formed input, or it
goes up to the place where the input fails, and then it is said what is wrong there and which error
comes of it (`entryPoints_delegate`).
-/

namespace RangeUnion

variable {σ α β γ ε τ δ : Type}

/-! ## Runs and their traces -/

/-- From the state `s` on, `act` gives `answer` and leaves the context `ctx'` and the state `s'`. It
does the same if it is traced, and then `done` is what it has done outside of it. -/
def Does (act : {ρ : Type} → Context (StateM ρ) α → StateM ρ (δ × Context (StateM ρ) α))
    (ctx : Context (StateM σ) α) (s : σ) (done : Trace α) (answer : δ)
    (ctx' : Context (StateM σ) α) (s' : σ) : Prop :=
  (act ctx).run s = ((answer, ctx'), s') ∧
    ∀ trace, (act ctx.traced).run (s, trace) = ((answer, ctx'.traced), (s', trace ++ done))

/-- All that `act` does outside of it, and how its answer comes about. -/
structure Delegates (entry : EntryPoint α β γ ε τ δ)
    (act : {ρ : Type} → Context (StateM ρ) α → StateM ρ (δ × Context (StateM ρ) α)) : Prop where
  /-- No level of depth is left. -/
  exhausted : ∀ {σ : Type} (ctx : Context (StateM σ) α) (s : σ),
    ctx.depth.limit ≤ ctx.depth.level →
    Does act ctx s [] (entry.refuse (.stackDepthExceeded ctx.depth.limit)) ctx s
  /-- The multirange type is not known. -/
  unknown : ∀ {σ : Type} (ctx : Context (StateM σ) α) (s s' : σ),
    ctx.depth.level < ctx.depth.limit →
    (ctx.cache.consult ctx.catalog entry.tag).run s = (none, s') →
    Does act ctx s (ctx.cache.consultations entry.tag) (entry.refuse (.notAMultirange entry.tag))
      (ctx.having entry.tag none) s'
  /-- The range type lacks the function. -/
  lacking : ∀ {σ : Type} (ctx : Context (StateM σ) α) (s s' : σ) (type : RangeType (StateM σ) α)
    (e : Error), ctx.depth.level < ctx.depth.limit →
    (ctx.cache.consult ctx.catalog entry.tag).run s = (some type, s') → entry.pick type = .error e →
    Does act ctx s (ctx.cache.consultations entry.tag) (entry.refuse e)
      (ctx.having entry.tag (some type)) s'
  /-- The function is there, and it is called on what is handed over, with one level less. -/
  delegated : ∀ {σ : Type} (ctx : Context (StateM σ) α) (s s' : σ) (type : RangeType (StateM σ) α)
    (f : β → Depth → StateM σ (Except Error γ)), ctx.depth.level < ctx.depth.limit →
    (ctx.cache.consult ctx.catalog entry.tag).run s = (some type, s') → entry.pick type = .ok f →
    let deeper : Depth := ⟨ctx.depth.level + 1, ctx.depth.limit⟩
    ∃ handed outcome s'' t,
      Feed.Handed (Feed.keeping (fun x => f x deeper) entry.keep) entry.feed (s', entry.ready)
        handed outcome (s'', t) ∧
      Does act ctx s
        (ctx.cache.consultations entry.tag ++ handed.map fun x => .call (entry.call x deeper))
        (entry.answer outcome t) (ctx.having entry.tag (some type)) s''

theorem Context.traced_having (ctx : Context (StateM σ) α) (tag : Tag)
    (found : Option (RangeType (StateM σ) α)) :
    (ctx.having tag found).traced = ctx.traced.having tag (found.map RangeType.traced) := by
  unfold having traced
  rw [Cache.traced_keeping]

namespace EntryPoint

open Context

variable {entry : EntryPoint α β γ ε τ δ}

/-- What the entry point picks from a range type whose calls are noted notes them as its calls. -/
def Notes (entry : EntryPoint α β γ ε τ δ) : Prop :=
  ∀ {σ : Type} (type : RangeType (StateM σ) α), entry.pick type.traced =
    (entry.pick type).map fun f x depth => noting (.call (entry.call x depth)) (f x depth)

section

variable {f : β → Depth → StateM σ (Except Error γ)} {depth : Depth} {s s' : σ} {t : τ}
  {handed : List β} {outcome : Except Error (List ε)}

theorem keeping_noting (deed : β → Deed α) (f : β → StateM σ (Except Error γ))
    (keep : γ → τ → Except Error ε × τ) (x : β) (s : σ) (trace : Trace α) (t : τ) :
    Feed.keeping (fun x => noting (deed x) (f x)) keep x ((s, trace), t) =
      let kept := Feed.keeping f keep x (s, t)
      (kept.1, ((kept.2.1, trace ++ [deed x]), kept.2.2)) := by
  simp only [Feed.keeping, run_noting]
  rcases (f x).run s with ⟨e | y, s'⟩ <;> rfl

/-- If the calls are noted, they are those of the elements that are handed over. -/
theorem run_reply_noting (h : Feed.Handed (Feed.keeping (fun x => f x depth) entry.keep) entry.feed
      (s, entry.ready) handed outcome (s', t)) (trace : Trace α) :
    (entry.reply (fun x depth => noting (.call (entry.call x depth)) (f x depth)) depth).run
      (s, trace) =
      (entry.answer outcome t, (s', trace ++ handed.map fun x => .call (entry.call x depth))) := by
  -- the calls so far stand behind the trace
  let place (r : σ × τ) (log : List β) : (σ × Trace α) × τ :=
    ((r.1, trace ++ log.map fun x => .call (entry.call x depth)), r.2)
  have hstep (x : β) (r : σ × τ) (log : List β) :
      Feed.keeping (fun x => noting (.call (entry.call x depth)) (f x depth)) entry.keep x
        (place r log) =
      ((Feed.keeping (fun x => f x depth) entry.keep x r).1,
        place (Feed.keeping (fun x => f x depth) entry.keep x r).2 (log ++ [x])) := by
    refine (keeping_noting (fun x => .call (entry.call x depth)) _ _ _ _ _ _).trans ?_
    simp only [place, List.map_append, List.append_assoc]
    rfl
  have hembed := h.embed place hstep []
  have hplace : place (s, entry.ready) [] = ((s, trace), entry.ready) := by
    simp only [place, List.map_nil, List.append_nil]
  rw [hplace] at hembed
  exact run_reply hembed

end

/-! ## The four cases -/

/-- If what comes after the look-up is noted, all is. -/
theorem does_of_found {ctx : Context (StateM σ) α} {s s' s'' : σ}
    {found : Option (RangeType (StateM σ) α)} {done : Trace α} {answer : δ}
    (hdepth : ctx.depth.level < ctx.depth.limit)
    (hfound : (ctx.cache.consult ctx.catalog entry.tag).run s = (found, s'))
    (hplain : (found.elim (pure (entry.refuse (.notAMultirange entry.tag)))
      (replyWith entry.pick entry.refuse entry.reply ⟨ctx.depth.level + 1, ctx.depth.limit⟩)).run
        s' = (answer, s''))
    (htraced : ∀ trace, ((found.map RangeType.traced).elim
      (pure (entry.refuse (.notAMultirange entry.tag)))
      (replyWith entry.pick entry.refuse entry.reply ⟨ctx.depth.level + 1, ctx.depth.limit⟩)).run
        (s', trace) = (answer, (s'', trace ++ done))) :
    Does entry.perform ctx s (ctx.cache.consultations entry.tag ++ done) answer
      (ctx.having entry.tag found) s'' := by
  constructor
  · refine (run_perform hdepth hfound).trans ?_
    rw [hplain]
  · intro trace
    have hfound' := Cache.run_consult_traced ctx.cache ctx.catalog entry.tag s trace
    rw [hfound] at hfound'
    have hdepth' : ctx.traced.depth.level < ctx.traced.depth.limit := hdepth
    refine (run_perform hdepth' hfound').trans ?_
    rw [traced_having, ← List.append_assoc]
    exact congrArg (fun answer => ((answer.1, ctx.traced.having _ (found.map RangeType.traced)),
      answer.2)) (htraced (trace ++ ctx.cache.consultations entry.tag))

theorem delegates_perform (hnotes : entry.Notes) : Delegates entry entry.perform where
  exhausted := by
    intro σ ctx s hdepth
    constructor
    · exact run_perform_of_le hdepth s
    · intro trace
      have hdepth' : ctx.traced.depth.limit ≤ ctx.traced.depth.level := hdepth
      rw [List.append_nil]
      exact run_perform_of_le hdepth' (s, trace)
  unknown := by
    intro σ ctx s s' hdepth hfound
    rw [← List.append_nil (ctx.cache.consultations entry.tag)]
    refine does_of_found hdepth hfound rfl fun trace => ?_
    rw [List.append_nil]
    rfl
  lacking := by
    intro σ ctx s s' type e hdepth hfound hpick
    rw [← List.append_nil (ctx.cache.consultations entry.tag)]
    refine does_of_found hdepth hfound ?_ fun trace => ?_
    · show (replyWith entry.pick _ _ _ type).run s' = _
      rw [replyWith_of_error hpick]
      rfl
    · have hpick' : entry.pick type.traced = .error e := by
        rw [hnotes, hpick]
        rfl
      show (replyWith entry.pick _ _ _ type.traced).run (s', trace) = _
      rw [replyWith_of_error hpick', List.append_nil]
      rfl
  delegated := by
    intro σ ctx s s' type f hdepth hfound hpick deeper
    obtain ⟨handed, outcome, ⟨s'', t⟩, hhanded⟩ := Feed.exists_handed
      (Feed.keeping (fun x => f x deeper) entry.keep) entry.feed (s', entry.ready)
    refine ⟨handed, outcome, s'', t, hhanded, does_of_found hdepth hfound ?_ fun trace => ?_⟩
    · show (replyWith entry.pick _ _ _ type).run s' = _
      rw [replyWith_of_ok hpick]
      exact run_reply hhanded
    · have hpick' : entry.pick type.traced =
          .ok fun x depth => noting (.call (entry.call x depth)) (f x depth) := by
        rw [hnotes, hpick]
        rfl
      show (replyWith entry.pick _ _ _ type.traced).run (s', trace) = _
      rw [replyWith_of_ok hpick']
      exact run_reply_noting hhanded trace

/-- What is performed as an entry point delegates as its shape has it. -/
theorem delegates {act : {ρ : Type} → Context (StateM ρ) α → StateM ρ (δ × Context (StateM ρ) α)}
    (hact : ∀ {ρ : Type} (ctx : Context (StateM ρ) α), entry.perform ctx = act ctx)
    (hnotes : entry.Notes) : Delegates entry act := by
  obtain rfl : (fun {ρ : Type} => entry.perform (m := StateM ρ)) = @act := by
    funext ρ ctx
    exact hact ctx
  exact delegates_perform hnotes

/-! ## The five entry points -/

section

variable [Interval α]

theorem parse_notes (text : String) (tag : Tag) (typmod : Int32) :
    (parse text tag typmod : EntryPoint α _ _ _ _ _).Notes := fun _ => rfl

theorem toText_notes (mr : Multirange α) : (toText mr).Notes := fun _ => rfl

theorem sendInto_notes (mr : Multirange α) (sink : Sink) : (sendInto mr sink).Notes := by
  rintro σ ⟨id, name, ⟨input, output, send, receive⟩⟩
  cases send <;> rfl

theorem send_notes (mr : Multirange α) : (send mr).Notes := sendInto_notes mr .unlimited

theorem receive_notes (message : Bytes) (tag : Tag) (typmod : Int32) :
    (receive message tag typmod : EntryPoint α _ _ _ _ _).Notes := by
  rintro σ ⟨id, name, ⟨input, output, send, receive⟩⟩
  cases receive <;> rfl

end

end EntryPoint

/-! ## The feeds -/

/-- A text is fed as the phrases that it offers: the word in small letters, and a bracketed phrase
as it stands there. -/
theorem BracedList.exists_offers_literals (text : String) : ∃ phrases failure,
    Offers phrases failure (Text.toBytes text) ∧
    literals text = ⟨phrases.map Phrase.literal,
      failure.map fun failure => .malformedLiteral text failure.fault⟩ ∧
    ∀ phrase ∈ phrases, (phrase.IsWord → phrase.literal = "empty") ∧
      (¬phrase.IsWord → Text.toBytes phrase.literal = phrase.bytes ∧
        ∃ before after, text = before ++ phrase.literal ++ after) := by
  obtain ⟨phrases, failure, hoffers⟩ := exists_offers (Text.toBytes text)
  refine ⟨phrases, failure, hoffers, literals_of_offers hoffers, fun phrase hmem => ⟨?_, ?_⟩⟩
  · exact phrase.literal_of_isWord
  · exact phrase.verbatim_of_part (hoffers.phrase_infix hmem)

namespace Multirange

open BracedList

/-- Each entry point does nothing without a level of depth, consults the catalog at most once and
before it calls any function, and then calls the function that it has taken from the range type on
the elements of its feed, in order, with one level less, up to the first failure. These elements,
and the failure behind them, are all that the text offers, or the slots, or the message. -/
theorem entryPoints_delegate [Interval α] :
    (∀ text tag typmod, Delegates (EntryPoint.parse text tag typmod)
      (parse (α := α) text tag typmod)) ∧
    (∀ mr : Multirange α, Delegates (EntryPoint.toText mr) mr.toText) ∧
    (∀ mr : Multirange α, Delegates (EntryPoint.send mr) mr.send) ∧
    (∀ (mr : Multirange α) sink, Delegates (EntryPoint.sendInto mr sink) (mr.sendInto sink)) ∧
    (∀ message tag typmod, Delegates (EntryPoint.receive message tag typmod)
      (receive (α := α) message tag typmod)) ∧
    (∀ text, ∃ phrases failure, BracedList.Offers phrases failure (Text.toBytes text) ∧
      literals text = ⟨phrases.map Phrase.literal,
        failure.map fun failure => .malformedLiteral text failure.fault⟩ ∧
      ∀ phrase ∈ phrases, (phrase.IsWord → phrase.literal = "empty") ∧
        (¬phrase.IsWord → Text.toBytes phrase.literal = phrase.bytes ∧
          ∃ before after, text = before ++ phrase.literal ++ after)) ∧
    (∀ mr : Multirange α, ∃ rest, mr.items = (Feed.ofReadings mr.items).elements.map .ok ++ rest ∧
      ((Feed.ofReadings mr.items).failure = none ∧ rest = [] ∨
        ∃ e rest', (Feed.ofReadings mr.items).failure = some e ∧ rest = .error e :: rest')) ∧
    (∀ message payloads failure, Message.records message = ⟨payloads, failure⟩ ↔
      Message.Offers payloads failure message) :=
  ⟨fun text tag typmod => EntryPoint.delegates (EntryPoint.perform_parse text tag typmod)
      (EntryPoint.parse_notes text tag typmod),
    fun mr => EntryPoint.delegates (EntryPoint.perform_toText mr) (EntryPoint.toText_notes mr),
    fun mr => EntryPoint.delegates (EntryPoint.perform_send mr) (EntryPoint.send_notes mr),
    fun mr sink => EntryPoint.delegates (EntryPoint.perform_sendInto mr sink)
      (EntryPoint.sendInto_notes mr sink),
    fun message tag typmod => EntryPoint.delegates (EntryPoint.perform_receive message tag typmod)
      (EntryPoint.receive_notes message tag typmod),
    exists_offers_literals, fun mr => Feed.exists_rest_of_ofReadings mr.items,
    fun _ _ _ => Message.records_eq_iff_offers⟩

/-- The word for an empty interval is handed over in small letters, whatever the text has. -/
theorem parse_word_not_verbatim :
    (∃ ctx', (parse "\x7bEMPTY\x7d" IntSpan.multirangeTag (-1)
        (Context.new (IntSpan.registry : Registry (StateM Unit) IntSpan).catalog
          .initial).traced).run ((), []) =
        ((.ok (.empty IntSpan.multirangeTag), ctx'),
          ((), [.consult IntSpan.multirangeTag, .call (.input "empty" (-1) ⟨1, 100⟩)]))) ∧
    ¬ ∃ before after, "\x7bEMPTY\x7d" = before ++ "empty" ++ after := by
  constructor
  · obtain ⟨tree, htree, hliterals⟩ : ∃ tree : Tree,
        tree.bytes = Text.toBytes "\x7bEMPTY\x7d" ∧ tree.literals = ["empty"] :=
      ⟨⟨Blanks.none, .entries ⟨Blanks.none, .word [0x45, 0x4D, 0x50, 0x54, 0x59] rfl, Blanks.none⟩
        [], Blanks.none⟩, by decide, by decide⟩
    unfold parse
    rw [literals_of_tree htree, hliterals, ← ofList_nil]
    exact ⟨_, rfl⟩
  · rintro ⟨before, after, h⟩
    have hmem : 'e' ∈ "\x7bEMPTY\x7d".toList := by
      rw [h]
      simp
    exact absurd hmem (by decide)

end Multirange

end RangeUnion
