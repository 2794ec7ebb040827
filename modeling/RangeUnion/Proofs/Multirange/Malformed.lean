import RangeUnion.IntSpan.Interval
import RangeUnion.Multirange.Literal
import RangeUnion.Proofs.Feed
import RangeUnion.Proofs.Text.Completion

/-!
# Malformed literals

If the input function of the range type accepts all that it is given, nothing but the list in braces
around the elements makes reading a literal fail. The error then repeats the literal and names the
fault at which the scan stopped, and what this says about the literal and all texts that begin with
it is true (`parse_malformed`).
-/

namespace RangeUnion

variable {σ α β γ : Type}

/-- `f` accepts all that it is given, in every state. -/
def Accepting (f : β → StateM σ (Except Error γ)) : Prop :=
  ∀ x s, ∃ y s', (f x).run s = (.ok y, s')

/-- A feed that is handed to a function that accepts everything fails by itself or not at all. -/
theorem Accepting.run_collect {f : β → StateM σ (Except Error γ)} (h : Accepting f)
    (feed : Feed β) (s : σ) :
    ∃ ys s', (feed.collect f).run s = (Feed.close feed.failure ys, s') := by
  obtain ⟨handed, outcome, s', hhanded⟩ := Feed.exists_handed (fun x => (f x).run) feed s
  have hrun := hhanded.run_collect
  cases hhanded with
  | all _ => exact ⟨_, s', hrun⟩
  | @stopped front back x ys r r' e _ _ hx =>
    obtain ⟨y, s'', hy⟩ := h x r
    rw [hy] at hx
    cases hx

namespace Multirange

open BracedList

variable [Interval α] {ctx ctx' : Context (StateM σ) α} {type : RangeType (StateM σ) α} {tag : Tag}
  {depth : Depth} {s s₁ : σ}

/-- Once the range type is found, reading hands the literals of the elements to its input
function. -/
theorem run_parse (hdepth : ctx.depth.enter = .ok depth)
    (hfound : (ctx.rangeType tag).run s = ((.ok type, ctx'), s₁)) (text : String)
    (typmod : Int32) : (parse text tag typmod ctx).run s =
      let read := ((literals text).collect fun literal =>
        type.codec.input literal typmod depth).run s₁
      ((read.1.bind fun xs => ofList tag (nonempty xs), ctx'), read.2) := by
  unfold parse Context.acquire
  rw [hdepth]
  simp only [bind_assoc]
  rw [StateT.run_bind, hfound]
  rfl

/-- With an input function that accepts every literal, reading succeeds on the lists in braces, up
to the length of what is to be stored. The error for any other text repeats the text, and the fault
that it names tells the truth: whether there is a text behind it with which it is a list. -/
theorem parse_malformed (hdepth : ctx.depth.enter = .ok depth)
    (hfound : (ctx.rangeType tag).run s = ((.ok type, ctx'), s₁))
    (hinput : ∀ typmod depth, Accepting fun literal => type.codec.input literal typmod depth)
    (text : String) (typmod : Int32) :
    (Accepted text → ∃ xs s', (parse text tag typmod ctx).run s =
      ((ofList tag (nonempty xs), ctx'), s')) ∧
    (¬ Accepted text → ∃ failure s',
      (scan (Text.toBytes text)).failure = some failure ∧
      (parse text tag typmod ctx).run s =
        ((.error (.malformedLiteral text failure.fault), ctx'), s') ∧
      failure.unread <:+ Text.toBytes text ∧ failure.Truthful text) := by
  obtain ⟨xs, s', hcollect⟩ := (hinput typmod depth).run_collect (literals text) s₁
  have hrun := run_parse hdepth hfound text typmod
  rw [hcollect] at hrun
  have hliterals : (literals text).failure =
      (scan (Text.toBytes text)).failure.map (Failure.error text) := rfl
  rw [hliterals] at hrun
  constructor
  · intro haccepted
    rw [haccepted] at hrun
    exact ⟨xs, s', hrun⟩
  · intro hrejected
    obtain ⟨failure, hfailure⟩ := Option.ne_none_iff_exists'.1 hrejected
    rw [hfailure] at hrun
    exact ⟨failure, s', hfailure, hrun, (tells_scan hfailure).suffix,
      truthful_of_scan hfailure⟩

/-- A list that ends in the middle of the word can be completed. -/
theorem parse_malformed_word :
    ∃ (ctx ctx' : Context (StateM Unit) IntSpan) (type : RangeType (StateM Unit) IntSpan)
      (depth : Depth), ctx.depth.enter = .ok depth ∧
      (ctx.rangeType IntSpan.multirangeTag).run () = ((.ok type, ctx'), ()) ∧
      (∀ typmod depth, Accepting fun literal => type.codec.input literal typmod depth) ∧
      (parse "\x7b eM" IntSpan.multirangeTag (-1) ctx).run () =
        ((.error (.malformedLiteral "\x7b eM" .expectedRangeStart), ctx'), ()) ∧
      ∃ more : String, Accepted ("\x7b eM" ++ more) := by
  have hscan : (scan (Text.toBytes "\x7b eM")).failure =
      some ⟨.expectedRangeStart, [0x65, 0x4D]⟩ := by
    have hbrace : skipBlanks (Text.toBytes "\x7b eM") = leftBrace :: [0x20, 0x65, 0x4D] := by decide
    have hword : skipBlanks [0x20, 0x65, 0x4D] = 0x65 :: [0x4D] := by decide
    have hcut : cutElement (skipBlanks [0x65, 0x4D]) =
        .error ⟨.expectedRangeStart, [0x65, 0x4D]⟩ := by decide
    rw [scan_of_cons hbrace, if_pos rfl, scanBody_of_cons hword, if_neg (by decide),
      scanElements_of_error hcut]
  obtain ⟨type, hinput⟩ : ∃ type : RangeType (StateM Unit) IntSpan,
      ∀ typmod depth, Accepting fun literal => type.codec.input literal typmod depth :=
    ⟨⟨IntSpan.rangeTag, "int4range",
      { IntSpan.codec with input := fun _ _ _ => pure (.ok .empty) }⟩, fun _ _ _ _ => ⟨_, _, rfl⟩⟩
  obtain ⟨ctx, ctx', hdepth, hfound⟩ : ∃ ctx ctx' : Context (StateM Unit) IntSpan,
      ctx.depth.enter = .ok ⟨1, 100⟩ ∧
      (ctx.rangeType IntSpan.multirangeTag).run () = ((.ok type, ctx'), ()) :=
    ⟨.new (fun _ => pure (some type)) .initial, _, rfl, rfl⟩
  have hrejected : ¬ Accepted "\x7b eM" := by
    unfold Accepted
    rw [hscan]
    exact Option.some_ne_none _
  obtain ⟨failure, s', hfailure, hrun, _, htruth⟩ :=
    (parse_malformed hdepth hfound hinput "\x7b eM" (-1)).2 hrejected
  rw [hscan, Option.some_inj] at hfailure
  subst hfailure
  have hbegins : BeginsWord [0x65, 0x4D] := ⟨by decide, by decide, by decide⟩
  exact ⟨ctx, ctx', type, _, hdepth, hfound, hinput, hrun, htruth.2 hbegins⟩

end Multirange

end RangeUnion
