import RangeUnion.Proofs.Catalog.History

/-!
# Acquiring a function and replying with it

A program that starts by `acquire` and then leaves the context alone is `acquiring`. Without a level
of depth left it does nothing (`acquiring_eq_refuse`); otherwise one multirange type is looked up,
and what is found decides all the rest (`acquiring_eq`).
-/

namespace RangeUnion.Context

variable {m : Type → Type} {α β γ δ : Type} [Monad m]

/-- Under the budget `depth`, `act` looks `tag` up and fails if that fails. For the rest it neither
reads nor changes the context. -/
def OnlyLooksUp (tag : Tag) (refuse : Error → β) (depth : Depth)
    (act : Context m α → m (β × Context m α)) : Prop :=
  ∃ reply : RangeType m α → m β, ∀ catalog cache, act ⟨catalog, cache, depth⟩ = do
    let found ← cache.consult catalog tag
    let answer ← found.elim (pure (refuse (.notAMultirange tag))) reply
    return (answer, ⟨catalog, .keeping tag found, depth⟩)

/-- After it has acquired what it needs, `act` neither reads nor changes the context. -/
def OnlyAcquires (tag : Tag) (pick : RangeType m α → Except Error γ) (refuse : Error → β)
    (act : Context m α → m (β × Context m α)) : Prop :=
  ∃ reply : γ → Depth → m β, ∀ ctx, act ctx = do
    let (acquired, ctx) ← ctx.acquire tag pick
    match acquired with
    | .error e => return (refuse e, ctx)
    | .ok (picked, depth) => return (← reply picked depth, ctx)

/-- The context after a look-up of `tag` that found `found`. -/
def having {m : Type → Type} {α : Type} (ctx : Context m α) (tag : Tag)
    (found : Option (RangeType m α)) : Context m α := ⟨ctx.catalog, .keeping tag found, ctx.depth⟩

/-- Acquire what `pick` takes from the range type of `tag`, and reply with it. -/
def acquiring (tag : Tag) (pick : RangeType m α → Except Error γ) (refuse : Error → β)
    (reply : γ → Depth → m β) (ctx : Context m α) : m (β × Context m α) := do
  let (acquired, ctx) ← ctx.acquire tag pick
  match acquired with
  | .error e => return (refuse e, ctx)
  | .ok (picked, depth) => return (← reply picked depth, ctx)

/-- The answer once a range type is found: `reply` to what `pick` takes from it, if it does. -/
def replyWith (pick : RangeType m α → Except Error γ) (refuse : Error → β)
    (reply : γ → Depth → m β) (depth : Depth) (type : RangeType m α) : m β :=
  match pick type with
  | .error e => return refuse e
  | .ok picked => reply picked depth

variable {tag : Tag} {pick : RangeType m α → Except Error γ} {refuse : Error → β}
  {reply : γ → Depth → m β} {depth : Depth} {act : Context m α → m (β × Context m α)}

theorem replyWith_of_error {type : RangeType m α} {e : Error} (h : pick type = .error e) :
    replyWith pick refuse reply depth type = return refuse e := by
  rw [replyWith, h]

theorem replyWith_of_ok {type : RangeType m α} {picked : γ} (h : pick type = .ok picked) :
    replyWith pick refuse reply depth type = reply picked depth := by
  rw [replyWith, h]

variable [LawfulMonad m]

/-- With a level left, what is found decides the answer, and it is kept. -/
theorem acquiring_eq (hdepth : depth.level < depth.limit) (catalog : Catalog m α)
    (cache : Cache m α) : acquiring tag pick refuse reply ⟨catalog, cache, depth⟩ = do
      let found ← cache.consult catalog tag
      let answer ← found.elim (pure (refuse (.notAMultirange tag)))
        (replyWith pick refuse reply ⟨depth.level + 1, depth.limit⟩)
      return (answer, ⟨catalog, .keeping tag found, depth⟩) := by
  unfold acquiring acquire rangeType
  simp only [Depth.enter_of_lt hdepth, Cache.lookup_eq, bind_assoc, pure_bind]
  refine bind_congr fun found => ?_
  cases found with
  | none =>
    simp only [Option.elim_none, pure_bind]
    rfl
  | some type =>
    have hbind : (Cache.answer tag (some type)).bind pick = pick type := rfl
    simp only [hbind, Option.elim_some, replyWith]
    cases pick type with
    | error e =>
      simp only [pure_bind]
      rfl
    | ok picked => rfl

/-- Without a level left nothing is done. -/
theorem acquiring_eq_refuse {ctx : Context m α} (hdepth : ctx.depth.limit ≤ ctx.depth.level) :
    acquiring tag pick refuse reply ctx =
      return (refuse (.stackDepthExceeded ctx.depth.limit), ctx) := by
  rw [acquiring, acquire_of_le hdepth, pure_bind]

/-- What is made of what is picked can be made when it is picked. -/
theorem acquiring_map (f : γ → δ) (reply : δ → Depth → m β) (ctx : Context m α) :
    acquiring tag (fun type => (pick type).map f) refuse reply ctx =
      acquiring tag pick refuse (fun picked => reply (f picked)) ctx := by
  unfold acquiring acquire
  cases ctx.depth.enter with
  | error e => simp only [pure_bind]
  | ok depth =>
    simp only [bind_assoc, pure_bind]
    refine bind_congr ?_
    rintro ⟨e | type, ctx⟩
    · rfl
    · show (match ((pick type).map f).map (·, depth) with
        | .error e => _
        | .ok (picked, depth) => _) = match (pick type).map (·, depth) with
        | .error e => _
        | .ok (picked, depth) => _
      cases pick type <;> rfl

theorem OnlyAcquires.onlyLooksUp (h : OnlyAcquires tag pick refuse act)
    (hdepth : depth.level < depth.limit) : OnlyLooksUp tag refuse depth act := by
  obtain ⟨reply, hact⟩ := h
  exact ⟨replyWith pick refuse reply ⟨depth.level + 1, depth.limit⟩, fun catalog cache =>
    (hact _).trans (acquiring_eq hdepth catalog cache)⟩

theorem OnlyAcquires.eq_refuse (h : OnlyAcquires tag pick refuse act)
    (hdepth : depth.limit ≤ depth.level) (catalog : Catalog m α) (cache : Cache m α) :
    act ⟨catalog, cache, depth⟩ =
      return (refuse (.stackDepthExceeded depth.limit), ⟨catalog, cache, depth⟩) := by
  obtain ⟨reply, hact⟩ := h
  exact (hact _).trans (acquiring_eq_refuse hdepth)

theorem rangeType_onlyLooksUp (tag : Tag) (depth : Depth) :
    OnlyLooksUp (m := m) (α := α) tag .error depth (fun ctx => ctx.rangeType tag) := by
  refine ⟨fun type => pure (.ok type), fun catalog cache => ?_⟩
  unfold rangeType
  simp only [Cache.lookup_eq, bind_assoc, pure_bind]
  refine bind_congr fun found => ?_
  cases found <;> simp only [Option.elim_none, Option.elim_some, pure_bind] <;> rfl

end RangeUnion.Context
