import RangeUnion.Proofs.Catalog.Yields

/-!
# Contexts that serve a type

A context serves a multirange type if a level of its budget is left and the type is registered
with the functions of the intervals of integers, whatever state the catalog is in. `Answers` says
of an entry point that it gives a certain answer in every state, and leaves a context that serves
the type again, so that entry points can follow one another; `Gives` says the same of an outcome
that may be a failure. Acquiring what an entry point needs always succeeds there
(`Serves.ensures_acquire`).
-/

namespace RangeUnion

variable {σ β γ : Type} {tag : Tag}

namespace Context

variable {ctx : Context (StateM σ) IntSpan}

/-- A level is left, and `tag` is registered with the functions of the intervals of integers. -/
structure Serves (ctx : Context (StateM σ) IntSpan) (tag : Tag) : Prop where
  level : 0 < ctx.depth.remaining
  catalog : Ensures (ctx.catalog tag) fun found =>
    ∃ type, found = some type ∧ type.codec = IntSpan.codec
  cache : ∀ type ∈ ctx.cache.find? tag, type.codec = IntSpan.codec

/-- In every state, `act` gives the answer `y` and leaves a context that serves `tag`. -/
def Answers (tag : Tag) (y : β)
    (act : StateM σ (Except Error β × Context (StateM σ) IntSpan)) : Prop :=
  Ensures act fun answer => answer.1 = .ok y ∧ answer.2.Serves tag

/-- In every state, `act` has the outcome `outcome` and leaves a context that serves `tag`. -/
def Gives (tag : Tag) (outcome : Except Error β)
    (act : StateM σ (Except Error β × Context (StateM σ) IntSpan)) : Prop :=
  Ensures act fun answer => answer.1 = outcome ∧ answer.2.Serves tag

/-- A new context serves what its catalog has registered. -/
theorem serves_new {catalog : Catalog (StateM σ) IntSpan} {depth : Depth}
    (hdepth : 0 < depth.remaining) (h : Ensures (catalog tag) fun found =>
      ∃ type, found = some type ∧ type.codec = IntSpan.codec) :
    (Context.new catalog depth).Serves tag :=
  ⟨hdepth, h, fun _ hfind => nomatch hfind⟩

/-- A look-up finds the functions of the intervals of integers, and the context serves on. -/
theorem Serves.ensures_rangeType (h : ctx.Serves tag) :
    Ensures (ctx.rangeType tag) fun found =>
      (∃ type, found.1 = .ok type ∧ type.codec = IntSpan.codec) ∧ found.2.Serves tag := by
  unfold Context.rangeType Cache.lookup
  cases hfind : ctx.cache.find? tag with
  | some type => exact ensures_pure ⟨⟨type, rfl, h.cache type hfind⟩, h⟩
  | none =>
    simp only [bind_assoc]
    refine h.catalog.bind ?_
    rintro _ ⟨type, rfl, hcodec⟩
    refine ensures_pure ⟨⟨type, rfl, hcodec⟩, h.level, h.catalog, fun kept hkept => ?_⟩
    rw [show (⟨some (tag, type)⟩ : Cache (StateM σ) IntSpan).find? tag = some type from
      Cache.find?_kept tag type] at hkept
    cases hkept
    exact hcodec

/-- What an entry point picks from the functions of the intervals of integers is acquired, with
the budget after one level is spent. -/
theorem Serves.ensures_acquire (h : ctx.Serves tag)
    {pick : RangeType (StateM σ) IntSpan → Except Error γ} {picked : γ}
    (hpick : ∀ type : RangeType (StateM σ) IntSpan, type.codec = IntSpan.codec →
      pick type = .ok picked) :
    Ensures (ctx.acquire tag pick) fun acquired =>
      acquired.1 = .ok (picked, ⟨ctx.depth.level + 1, ctx.depth.limit⟩) ∧
        acquired.2.Serves tag := by
  unfold Context.acquire
  rw [Depth.enter_eq_ok_iff.2 ⟨h.level, rfl⟩]
  refine h.ensures_rangeType.bind ?_
  rintro ⟨found, ctx'⟩ ⟨⟨type, rfl, hcodec⟩, hserves⟩
  refine ensures_pure ⟨?_, hserves⟩
  show ((pick type).map _) = _
  rw [hpick type hcodec]
  rfl

end Context

/-- The registry of the intervals of integers serves their multiranges. -/
theorem IntSpan.registry_serves {depth : Depth} (h : 0 < depth.remaining) :
    (Context.new (registry : Registry (StateM σ) IntSpan).catalog depth).Serves multirangeTag := by
  refine Context.serves_new h (ensures_pure ⟨rangeType, ?_, rfl⟩)
  exact Registry.find?_register_self Registry.empty multirangeTag rangeType

end RangeUnion
