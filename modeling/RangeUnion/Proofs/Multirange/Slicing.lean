import RangeUnion.Proofs.Span.Brackets
import RangeUnion.Proofs.Text.Lockstep

/-!
# No slice is missing

Reading the literal of a multirange takes slices of its text, and reading the literal of an interval
takes one. Written with slices that may be missing, both give an outcome for every text, and the one
that they give without (`parse?_eq`, `IntSpan.parse?_eq`). So the positions of a scan may lie within
a character, but the slices that it takes never begin or end there (`slicing_safe`).
-/

namespace RangeUnion

namespace BracedList

/-- A scan of `text` goes forward, ends before its turns outnumber the bytes, and takes slices that
exist. -/
structure Scannable (text : String) : Prop where
  turns_lt : ∀ n place, Reached text n place →
    n < place.pos ∧ place.pos ≤ (Text.toBytes text).length
  exists_turn : ∀ n place, Reached text n place → place.mode ≠ .finished →
    ∃ answer, turn? text place = some answer
  forward : ∀ n place turn, Reached text n place → place.mode ≠ .finished →
    turn? text place = some (.ok turn) →
    Reached text (n + 1) (place.next turn) ∧ place.pos < (place.next turn).pos
  handed : ∀ n place turn literal, Reached text n place → place.mode ≠ .finished →
    turn? text place = some (.ok turn) → turn.handed = some literal →
    place.mode = .beforeRange ∧ literal = "empty" ∨
      place.mode = .inRange ∧ CutsOut text place literal ∧
        ∃ before after : String, text = before ++ literal ++ after ∧
          (Text.toBytes before).length = place.start ∧
          (Text.toBytes (before ++ literal)).length = place.pos + 1

theorem scannable (text : String) : Scannable text where
  turns_lt _ _ h := ⟨h.turns_lt, h.fits.pos_le⟩
  exists_turn _ _ h hmode := by
    obtain ⟨answer, hanswer, _⟩ := exists_safe_turn h.fits hmode
    exact ⟨answer, hanswer⟩
  forward _ place turn h hmode hturn := ⟨.next h hmode hturn, pos_lt_pos_next place turn⟩
  handed _ place turn literal h hmode hturn hhanded := by
    obtain ⟨answer, hanswer, hsafe⟩ := exists_safe_turn h.fits hmode
    rw [hturn] at hanswer
    cases hanswer
    rcases (hsafe turn rfl).handed literal hhanded with hword | ⟨hin, hcut⟩
    · exact .inl hword
    · exact .inr ⟨hin, hcut, Text.slice?_eq_some_iff.1 hcut.slice?_eq⟩

end BracedList

namespace Multirange

open BracedList Text

variable {m : Type → Type} [Monad m] {α : Type} [Interval α]

/-- The multirange of type `tag` that `text` stands for, read with slices that may be missing. -/
def parse? (text : String) (tag : Tag) (typmod : Int32) (ctx : Context m α) :
    m (Option (Except Error (Multirange α)) × Context m α) := do
  let (acquired, ctx) ← ctx.acquire tag fun type => .ok type.codec.input
  match acquired with
  | .error e => return (some (.error e), ctx)
  | .ok (input, depth) =>
    let read ← scanText? text fun literal => input literal typmod depth
    return (read.map fun read => read.bind fun xs => ofList tag (nonempty xs), ctx)

/-- Reading with slices is reading, and no slice is missing. -/
theorem parse?_eq [LawfulMonad m] (text : String) (tag : Tag) (typmod : Int32)
    (ctx : Context m α) : parse? text tag typmod ctx =
      (fun answer => (some answer.1, answer.2)) <$> parse text tag typmod ctx := by
  unfold parse? parse
  rw [map_bind]
  refine bind_congr fun found => ?_
  obtain ⟨acquired, ctx'⟩ := found
  cases acquired with
  | error e => rw [map_pure]
  | ok found =>
    simp only [scanText?_eq, map_bind, map_pure, bind_map_left, Option.map_some]

/-- Whatever the text is, and whatever the input function of the range type does with the literals,
a scan goes forward to its end and all slices exist. The same is true of the slice between the
brackets of an interval. -/
theorem slicing_safe :
    (∀ text, Scannable text) ∧
    (∀ (m : Type → Type) [Monad m] [LawfulMonad m] (α : Type) [Interval α] (text : String)
      (tag : Tag) (typmod : Int32) (ctx : Context m α), parse? text tag typmod ctx =
        (fun answer => (some answer.1, answer.2)) <$> parse text tag typmod ctx) ∧
    (∀ (text : String) (lowerIncluded upperIncluded : Bool),
      IntSpan.firstBracket? (toBytes text) = some lowerIncluded →
      IntSpan.lastBracket? (toBytes text) = some upperIncluded →
      1 ≤ (toBytes text).length - 1 ∧ IsBoundary text 1 ∧
        IsBoundary text ((toBytes text).length - 1)) ∧
    (∀ input, IntSpan.parse? input = some (IntSpan.parse input)) := by
  refine ⟨scannable, ?_, ?_, IntSpan.parse?_eq⟩
  · intro m _ _ α _ text tag typmod ctx
    exact parse?_eq text tag typmod ctx
  · intro text lowerIncluded upperIncluded hfirst hlast
    exact IntSpan.isBoundary_of_brackets hfirst hlast

/-- An escape ends within a character, where no slice may begin or end, and a quoted run holds
another such character. The bracketed part around both is a slice all the same. -/
theorem slicing_safe_within_character :
    ∃ (text : String) (inner last : Place), text = "\x7b[\\é,\"é\"]\x7d" ∧
      Reached text 3 inner ∧ ¬ IsBoundary text inner.pos ∧
      Reached text 9 last ∧ CutsOut text last "[\\é,\"é\"]" := by
  have hscan := slicing_safe.1 "\x7b[\\é,\"é\"]\x7d"
  have hskip : skipFrom (toBytes "\x7b[\\é,\"é\"]\x7d") 0 = 0 := by
    rw [skipFrom]
    rfl
  have hopening : opening "\x7b[\\é,\"é\"]\x7d" = .ok ⟨.beforeRange, 1, 1, 0⟩ := by
    unfold opening
    rw [hskip]
    rfl
  have h₀ := Reached.opening hopening
  have h₁ := (hscan.forward _ _ _ h₀ (by decide) rfl).1
  have h₂ := (hscan.forward _ _ _ h₁ (by decide) rfl).1
  have h₃ := (hscan.forward _ _ _ h₂ (by decide) rfl).1
  have h₄ := (hscan.forward _ _ _ h₃ (by decide) rfl).1
  have h₅ := (hscan.forward _ _ _ h₄ (by decide) rfl).1
  have h₆ := (hscan.forward _ _ _ h₅ (by decide) rfl).1
  have h₇ := (hscan.forward _ _ _ h₆ (by decide) rfl).1
  have h₈ := (hscan.forward _ _ _ h₇ (by decide) rfl).1
  have h₉ := (hscan.forward _ _ _ h₈ (by decide) rfl).1
  refine ⟨_, _, _, rfl, h₃, by decide, h₉, ?_⟩
  rcases hscan.handed _ _ _ _ h₉ (by decide) rfl rfl with ⟨hmode, _⟩ | ⟨_, hcut, _⟩
  · cases hmode
  · exact hcut

end Multirange

end RangeUnion
