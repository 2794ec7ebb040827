import RangeUnion.Catalog.Context
import RangeUnion.Feed
import RangeUnion.Proofs.Span.Message

/-!
# What the functions of a codec yield

The input functions of a codec are not part of the formats, and may read and change a state that
nothing else is known of. `Ensures act p` says that `act` gives an answer with `p`, whatever the
state. If all intervals that the codecs of a context yield have a property, then so have all that
are read with it (`Yields.ensures_acquire`, `ensures_collect`), and the context stays that way.
The codec of the intervals of integers yields well-formed ones (`IntSpan.codec_yields`), and so
does the context that it is registered in (`IntSpan.registry_yields`).
-/

namespace RangeUnion

variable {σ α β γ : Type}

/-- In every state, `act` gives an answer with `p`. -/
def Ensures (act : StateM σ β) (p : β → Prop) : Prop := ∀ s, p (act.run s).1

theorem ensures_pure {p : β → Prop} {x : β} (h : p x) : Ensures (pure x : StateM σ β) p :=
  fun _ => h

theorem Ensures.bind {act : StateM σ β} {next : β → StateM σ γ} {p : β → Prop} {q : γ → Prop}
    (h : Ensures act p) (hnext : ∀ x, p x → Ensures (next x) q) : Ensures (act >>= next) q :=
  fun s => hnext _ (h s) _

/-! ## Feeds -/

theorem ensures_inOrder {f : β → StateM σ (Except Error γ)} {p : γ → Prop}
    (h : ∀ x, Ensures (f x) (IfOk p)) (xs : List β) :
    Ensures (Feed.inOrder f xs) (IfOk fun ys => ∀ y ∈ ys, p y) := by
  induction xs with
  | nil => exact ensures_pure (ifOk_ok.2 fun _ hy => nomatch hy)
  | cons x xs ih =>
    unfold Feed.inOrder
    refine (h x).bind ?_
    rintro (e | y) hy
    · exact ensures_pure ifOk_error
    · refine ih.bind ?_
      rintro (e | ys) hys
      · exact ensures_pure ifOk_error
      · refine ensures_pure (ifOk_ok.2 ?_)
        intro z hz
        rcases List.mem_cons.1 hz with rfl | hz
        · exact ifOk_ok.1 hy
        · exact ifOk_ok.1 hys z hz

theorem ensures_collect {f : β → StateM σ (Except Error γ)} {p : γ → Prop}
    (h : ∀ x, Ensures (f x) (IfOk p)) (feed : Feed β) :
    Ensures (feed.collect f) (IfOk fun ys => ∀ y ∈ ys, p y) := by
  unfold Feed.collect
  refine (ensures_inOrder h feed.elements).bind ?_
  rintro (e | ys) hys
  · exact ensures_pure ifOk_error
  · cases feed.failure with
    | none => exact ensures_pure hys
    | some e => exact ensures_pure ifOk_error

/-! ## Codecs and contexts -/

variable {p : α → Prop} {tag : Tag}

/-- All intervals that are read by the functions of `codec` have `p`. -/
structure Codec.Yields (p : α → Prop) (codec : Codec (StateM σ) α) : Prop where
  input : ∀ literal typmod depth, Ensures (codec.input literal typmod depth) (IfOk p)
  receive : ∀ receive ∈ codec.receive, ∀ message typmod depth,
    Ensures (receive message typmod depth) (IfOk p)

/-- All codecs that the catalog gives or the cache keeps yield intervals with `p`. -/
structure Context.Yields (p : α → Prop) (ctx : Context (StateM σ) α) : Prop where
  catalog : ∀ tag, Ensures (ctx.catalog tag) fun found => ∀ type ∈ found, type.codec.Yields p
  cache : ∀ tag type, ctx.cache.kept = some (tag, type) → type.codec.Yields p

namespace Context

variable {ctx : Context (StateM σ) α}

theorem yields_new {catalog : Catalog (StateM σ) α} (depth : Depth)
    (h : ∀ tag, Ensures (catalog tag) fun found => ∀ type ∈ found, type.codec.Yields p) :
    (Context.new catalog depth).Yields p :=
  ⟨h, fun _ _ hkept => nomatch hkept⟩

theorem Yields.of_find? (h : ctx.Yields p) {type : RangeType (StateM σ) α}
    (hfind : ctx.cache.find? tag = some type) : type.codec.Yields p := by
  unfold Cache.find? at hfind
  cases hkept : ctx.cache.kept with
  | none =>
    rw [hkept] at hfind
    cases hfind
  | some kept =>
    obtain ⟨keptTag, keptType⟩ := kept
    simp only [hkept] at hfind
    by_cases htag : keptTag = tag
    · rw [if_pos htag] at hfind
      cases hfind
      exact h.cache _ _ hkept
    · rw [if_neg htag] at hfind
      cases hfind

/-- A look-up finds range types that yield intervals with `p`, and the context stays one whose
codecs do. -/
theorem Yields.ensures_rangeType (h : ctx.Yields p) :
    Ensures (ctx.rangeType tag) fun found =>
      IfOk (fun type => type.codec.Yields p) found.1 ∧ found.2.Yields p := by
  unfold Context.rangeType Cache.lookup
  cases hfind : ctx.cache.find? tag with
  | some type => exact ensures_pure ⟨ifOk_ok.2 (h.of_find? hfind), h⟩
  | none =>
    simp only [bind_assoc]
    refine (h.catalog tag).bind ?_
    rintro (_ | type) htype
    · exact ensures_pure ⟨ifOk_error, h.catalog, fun _ _ hkept => nomatch hkept⟩
    · refine ensures_pure ⟨ifOk_ok.2 (htype type rfl), h.catalog, fun _ _ hkept => ?_⟩
      cases hkept
      exact htype type rfl

/-- What is acquired was picked from a range type that yields intervals with `p`. -/
theorem Yields.ensures_acquire (h : ctx.Yields p)
    {pick : RangeType (StateM σ) α → Except Error γ} {q : γ → Prop}
    (hpick : ∀ type, type.codec.Yields p → IfOk q (pick type)) :
    Ensures (ctx.acquire tag pick) fun acquired =>
      IfOk (fun picked => q picked.1) acquired.1 ∧ acquired.2.Yields p := by
  unfold Context.acquire
  cases ctx.depth.enter with
  | error e => exact ensures_pure ⟨ifOk_error, h⟩
  | ok depth =>
    refine h.ensures_rangeType.bind ?_
    rintro ⟨found, ctx'⟩ ⟨hfound, hctx⟩
    refine ensures_pure ⟨?_, hctx⟩
    cases found with
    | error e => exact ifOk_error
    | ok type =>
      have hq := hpick type (hfound type rfl)
      show IfOk _ ((pick type).map _)
      cases hpicked : pick type with
      | error e => exact ifOk_error
      | ok picked => exact ifOk_ok.2 (hq picked hpicked)

/-- What is built from the intervals that `read` gives has `q`, if all that is built from
intervals with `p` has. -/
theorem Yields.ensures_build {δ : Type} (h : ctx.Yields p) {read : β → StateM σ (Except Error α)}
    (hread : ∀ x, Ensures (read x) (IfOk p)) (feed : Feed β) {build : List α → Except Error δ}
    {q : δ → Prop} (hbuild : ∀ xs, (∀ x ∈ xs, p x) → IfOk q (build xs)) :
    Ensures (do
      let xs ← feed.collect read
      return (xs.bind build, ctx)) fun answer => IfOk q answer.1 ∧ answer.2.Yields p := by
  refine (ensures_collect hread feed).bind ?_
  rintro (e | xs) hxs
  · exact ensures_pure ⟨ifOk_error, h⟩
  · exact ensures_pure ⟨hbuild xs (ifOk_ok.1 hxs), h⟩

end Context

/-! ## The codec of the intervals of integers -/

namespace IntSpan

theorem wellFormed_of_ofBounds {l u : Option Int32} {lowerIncluded upperIncluded : Bool} :
    IfOk WellFormed (ofBounds l lowerIncluded u upperIncluded) := by
  unfold ofBounds
  by_cases hreversed : reversed l u
  · rw [if_pos hreversed]
    exact ifOk_error
  · rw [if_neg hreversed]
    refine ifOk_bind fun lower => ifOk_bind fun upper => ?_
    exact ifOk_ok.2 (wellFormed_bounded lower upper)

/-- What a literal stands for is well formed. -/
theorem wellFormed_of_parse (input : String) : IfOk WellFormed (parse input) := by
  unfold parse
  by_cases hempty : (Text.trim input.toList).map Char.toLower = emptyWord
  · rw [if_pos hempty]
    exact ifOk_ok.2 trivial
  · rw [if_neg hempty]
    cases cut (Text.trim input.toList) with
    | error fault => exact ifOk_error
    | ok parts => exact ifOk_bind fun l => ifOk_bind fun u => wellFormed_of_ofBounds

/-- What a message stands for is well formed. -/
theorem wellFormed_of_receive (message : Bytes) : IfOk WellFormed (receive message) := by
  intro s h
  rcases receive_eq_ok_iff.1 h with ⟨_, _, _, rfl⟩ | ⟨_, _, _, _, _, _, _, hbounds⟩
  · trivial
  · exact wellFormed_of_ofBounds s hbounds

/-- The codec of the intervals of integers yields well-formed ones. -/
theorem codec_yields : (codec : Codec (StateM σ) IntSpan).Yields WellFormed := by
  constructor
  · intro literal typmod depth
    exact ensures_pure (wellFormed_of_parse literal)
  · intro receive hreceive message typmod depth
    cases hreceive
    exact ensures_pure (wellFormed_of_receive message)

/-- All that is read with the registered range type of integers is well formed. -/
theorem registry_yields (depth : Depth) :
    (Context.new (registry : Registry (StateM σ) IntSpan).catalog depth).Yields WellFormed := by
  refine Context.yields_new depth fun tag => ensures_pure ?_
  intro type htype
  by_cases htag : tag = multirangeTag
  · subst htag
    unfold registry at htype
    rw [Registry.find?_register_self, Option.mem_some_iff] at htype
    subst htype
    exact codec_yields
  · unfold registry at htype
    rw [Registry.find?_register_of_ne _ htag, Registry.find?_empty] at htype
    cases htype

end IntSpan

end RangeUnion
