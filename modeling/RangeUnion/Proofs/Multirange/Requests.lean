import RangeUnion.IntSpan.Interval
import RangeUnion.Proofs.Multirange.EntryPoint

/-!
# Contexts over whole runs

Each operation of a context either finds no level of depth left and does nothing, or looks one
multirange type up (`perform_eq_refuse`, `perform_onlyLooksUp`). For the rest it neither reads nor
changes the context, so its answer is decided by what the look-up has found (`perform_eq`). So the
runs of a context are what the history of its look-ups accounts for (`Context.run_eq_account`).
With a catalog that does not change, the cache cannot be told from none
(`Context.perform_after`).
-/

namespace RangeUnion

variable {m : Type → Type} {α : Type}

/-- What a context is used for. -/
inductive Operation (α : Type) where
  | rangeType (tag : Tag)
  | parse (text : String) (tag : Tag) (typmod : Int32)
  | toText (mr : Multirange α)
  | send (mr : Multirange α)
  | sendInto (mr : Multirange α) (sink : Sink)
  | receive (message : Bytes) (tag : Tag) (typmod : Int32)

namespace Operation

/-- What an operation gives. -/
def Answer (m : Type → Type) : Operation α → Type
  | .rangeType _ => Except Error (RangeType m α)
  | .parse .. => Except Error (Multirange α)
  | .toText _ => Except Error String
  | .send _ => Except Error Bytes
  | .sendInto .. => Except Error Unit × Sink
  | .receive .. => Except Error (Multirange α)

/-- The answer of an operation that has failed before it did anything. -/
def refuse (m : Type → Type) : (op : Operation α) → Error → op.Answer m
  | .rangeType _, e => .error e
  | .parse .., e => .error e
  | .toText _, e => .error e
  | .send _, e => .error e
  | .sendInto _ sink, e => (.error e, sink)
  | .receive .., e => .error e

/-- The multirange type that an operation is about. -/
def tag : Operation α → Tag
  | .rangeType tag => tag
  | .parse _ tag _ => tag
  | .toText mr => mr.tag
  | .send mr => mr.tag
  | .sendInto mr _ => mr.tag
  | .receive _ tag _ => tag

/-- The operation gets as far as its look-up: it is nothing else, or there is a level to spend. -/
def LooksUp (depth : Depth) : Operation α → Prop
  | .rangeType _ => True
  | _ => depth.level < depth.limit

instance (depth : Depth) : DecidablePred (LooksUp depth : Operation α → Prop) := fun op => by
  cases op <;> unfold LooksUp <;> infer_instance

variable [Monad m] [Interval α]

/-- Do what the operation says. -/
def perform : (op : Operation α) → Context m α → m (op.Answer m × Context m α)
  | .rangeType tag, ctx => ctx.rangeType tag
  | .parse text tag typmod, ctx => Multirange.parse text tag typmod ctx
  | .toText mr, ctx => mr.toText ctx
  | .send mr, ctx => mr.send ctx
  | .sendInto mr sink, ctx => mr.sendInto sink ctx
  | .receive message tag typmod, ctx => Multirange.receive message tag typmod ctx

/-- The answer of an operation whose look-up finds `found`. -/
def answerWith (depth : Depth) (op : Operation α) : Option (RangeType m α) → m (op.Answer m)
  | some type => Prod.fst <$> op.perform (.new (fun _ => return some type) depth)
  | none => return op.refuse m (.notAMultirange op.tag)

end Operation

namespace Operation

open Context EntryPoint

variable [Monad m] [LawfulMonad m] [Interval α] {depth : Depth}

/-- An operation that gets as far as its look-up uses the context for nothing else. -/
theorem perform_onlyLooksUp (op : Operation α) (h : op.LooksUp depth) :
    OnlyLooksUp op.tag (op.refuse m) depth op.perform := by
  cases op with
  | rangeType tag => exact rangeType_onlyLooksUp tag depth
  | parse text tag typmod => exact (onlyAcquires (perform_parse text tag typmod)).onlyLooksUp h
  | toText mr => exact (onlyAcquires (perform_toText mr)).onlyLooksUp h
  | send mr => exact (onlyAcquires (perform_send mr)).onlyLooksUp h
  | sendInto mr sink => exact (onlyAcquires (perform_sendInto mr sink)).onlyLooksUp h
  | receive message tag typmod =>
    exact (onlyAcquires (perform_receive message tag typmod)).onlyLooksUp h

/-- An operation without a level left does nothing. -/
theorem perform_eq_refuse (op : Operation α) (h : ¬op.LooksUp depth) (catalog : Catalog m α)
    (cache : Cache m α) : op.perform ⟨catalog, cache, depth⟩ =
      pure (op.refuse m (.stackDepthExceeded depth.limit), ⟨catalog, cache, depth⟩) := by
  cases op with
  | rangeType tag => exact absurd trivial h
  | parse text tag typmod =>
    exact (onlyAcquires (perform_parse text tag typmod)).eq_refuse (Nat.le_of_not_lt h) catalog
      cache
  | toText mr =>
    exact (onlyAcquires (perform_toText mr)).eq_refuse (Nat.le_of_not_lt h) catalog cache
  | send mr => exact (onlyAcquires (perform_send mr)).eq_refuse (Nat.le_of_not_lt h) catalog cache
  | sendInto mr sink =>
    exact (onlyAcquires (perform_sendInto mr sink)).eq_refuse (Nat.le_of_not_lt h) catalog cache
  | receive message tag typmod =>
    exact (onlyAcquires (perform_receive message tag typmod)).eq_refuse (Nat.le_of_not_lt h)
      catalog cache

/-- The answer of an operation and the context after it are decided by what its look-up finds. -/
theorem perform_eq (op : Operation α) (h : op.LooksUp depth) (catalog : Catalog m α)
    (cache : Cache m α) : op.perform ⟨catalog, cache, depth⟩ = do
      let found ← cache.consult catalog op.tag
      let answer ← op.answerWith depth found
      return (answer, ⟨catalog, .keeping op.tag found, depth⟩) := by
  obtain ⟨reply, hact⟩ := op.perform_onlyLooksUp (m := m) h
  rw [hact]
  refine bind_congr fun found => ?_
  cases found with
  | none => rfl
  | some type =>
    -- in a new context whose catalog has `type`, the look-up finds what it has found here
    have hreply : op.answerWith depth (some type) = reply type := by
      have hconsult : (Cache.empty : Cache m α).consult (fun _ => pure (some type)) op.tag =
        pure (some type) := rfl
      show Prod.fst <$> op.perform ⟨fun _ => pure (some type), .empty, depth⟩ = _
      rw [hact, hconsult, pure_bind]
      simp only [Option.elim_some, ← bind_pure_comp, bind_assoc, pure_bind, bind_pure]
    rw [hreply]
    rfl

end Operation

namespace Context

open History

/-! ## Runs -/

/-- What can be asked of a context and of the registry behind it. -/
inductive Request (m : Type → Type) (α : Type) where
  | perform (op : Operation α)
  | register (tag : Tag) (type : RangeType m α)

variable [Monad m] [Interval α]

/-- Do all that is asked, one after the other. The operations have answers. -/
def run (watch : Tag → m Unit) : List (Request m α) → Registry m α → Context m α →
    m (List ((op : Operation α) × op.Answer m))
  | [], _, _ => return []
  | .perform op :: requests, registry, ctx => do
    let (answer, ctx) ← op.perform ctx
    return ⟨op, answer⟩ :: (← run watch requests registry ctx)
  | .register tag type :: requests, registry, ctx =>
    let registry := registry.register tag type
    run watch requests registry { ctx with catalog := registry.watched watch }

/-- The answers and the consultations that the history of the look-ups accounts for. -/
def account (watch : Tag → m Unit) (registry : Registry m α) (depth : Depth) :
    List (Request m α) → History m α → m (List ((op : Operation α) × op.Answer m))
  | [], _ => return []
  | .perform op :: requests, history =>
    if op.LooksUp depth then do
      history.consultation watch op.tag
      let found := history.source registry op.tag
      let answer ← op.answerWith depth found
      return ⟨op, answer⟩ :: (← account watch registry depth requests
        (.lookup op.tag found.isSome :: history))
    else return ⟨op, op.refuse m (.stackDepthExceeded depth.limit)⟩ ::
      (← account watch registry depth requests history)
  | .register tag type :: requests, history =>
    account watch registry depth requests (.register tag type :: history)

variable [LawfulMonad m] {depth : Depth}

/-- Runs are what the history of the look-ups accounts for. -/
theorem run_eq_account {watch : Tag → m Unit} {registry : Registry m α} {history : History m α}
    {cache : Cache m α} (h : Follows registry history cache) (requests : List (Request m α)) :
    run watch requests (history.registered registry)
        ⟨(history.registered registry).watched watch, cache, depth⟩ =
      account watch registry depth requests history := by
  induction requests generalizing history cache with
  | nil => rfl
  | cons request requests ih =>
    cases request with
    | perform op =>
      rw [run, account]
      by_cases hlooks : op.LooksUp depth
      · rw [if_pos hlooks, op.perform_eq hlooks, Cache.consult_watched h]
        simp only [bind_assoc, pure_bind]
        refine bind_congr fun _ => bind_congr fun answer => ?_
        -- all that is left of the context is what the look-up keeps
        rw [← ih (follows_lookup registry history op.tag)]
        rfl
      · rw [if_neg hlooks, op.perform_eq_refuse hlooks, pure_bind]
        simp only [ih h]
    | register tag type => exact ih (h.register tag type)

/-! ## Catalogs that do not change -/

/-- The context after some operations. -/
def after : List (Operation α) → Context m α → m (Context m α)
  | [], ctx => return ctx
  | op :: ops, ctx => do
    let (_, ctx) ← op.perform ctx
    after ops ctx

end Context

/-- The catalog that holds the same whenever it is consulted. -/
def Catalog.constant [Monad m] (held : Tag → Option (RangeType m α)) : Catalog m α :=
  fun tag => return held tag

/-- All that the cache keeps is what the catalog holds. -/
def Cache.Coherent (held : Tag → Option (RangeType m α)) (cache : Cache m α) : Prop :=
  ∀ tag type, cache.find? tag = some type → held tag = some type

namespace Cache

variable {held : Tag → Option (RangeType m α)} {cache : Cache m α}

theorem coherent_empty (held : Tag → Option (RangeType m α)) : Coherent held .empty :=
  fun _ _ h => nomatch h

theorem coherent_keeping (held : Tag → Option (RangeType m α)) (tag : Tag) :
    Coherent held (keeping tag (held tag)) := by
  intro other type h
  rw [find?_keeping] at h
  by_cases htag : tag = other
  · rwa [if_pos htag, htag] at h
  · rw [if_neg htag] at h
    cases h

theorem Coherent.consult_eq [Monad m] (h : Coherent held cache) (tag : Tag) :
    cache.consult (.constant held) tag = pure (held tag) := by
  unfold consult
  cases hfind : cache.find? tag with
  | some type => rw [h tag type hfind]
  | none => rfl

end Cache

namespace Context

open Cache

variable [Monad m] [LawfulMonad m] [Interval α] {held : Tag → Option (RangeType m α)}
  {cache : Cache m α}

/-- A coherent cache makes no difference to an operation, and is followed by a coherent one. -/
theorem exists_perform_eq (h : Coherent held cache) (depth : Depth) (op : Operation α) :
    ∃ cache', Coherent held cache' ∧ op.perform ⟨.constant held, cache, depth⟩ = do
      let answer ← Prod.fst <$> op.perform (.new (.constant held) depth)
      return (answer, ⟨.constant held, cache', depth⟩) := by
  by_cases hlooks : op.LooksUp depth
  · refine ⟨keeping op.tag (held op.tag), coherent_keeping held op.tag, ?_⟩
    unfold new
    rw [op.perform_eq hlooks, op.perform_eq hlooks, h.consult_eq,
      (coherent_empty held).consult_eq]
    simp only [← bind_pure_comp, bind_assoc, pure_bind]
  · refine ⟨cache, h, ?_⟩
    unfold new
    rw [op.perform_eq_refuse hlooks, op.perform_eq_refuse hlooks]
    simp only [← bind_pure_comp, pure_bind]

/-- After any operations, an operation answers as it would in a new context. -/
theorem perform_after (h : Coherent held cache) (depth : Depth) (ops : List (Operation α))
    (op : Operation α) :
    (do
      let ctx ← after ops ⟨.constant held, cache, depth⟩
      Prod.fst <$> op.perform ctx) = (do
      let _ ← after ops ⟨.constant held, cache, depth⟩
      Prod.fst <$> op.perform (.new (.constant held) depth)) := by
  induction ops generalizing cache with
  | nil =>
    obtain ⟨cache', _, hperform⟩ := exists_perform_eq h depth op
    simp only [after, pure_bind, hperform, ← bind_pure_comp, bind_assoc]
  | cons first ops ih =>
    obtain ⟨cache', hcache', hperform⟩ := exists_perform_eq h depth first
    simp only [after, hperform, bind_assoc, pure_bind]
    exact bind_congr fun _ => ih hcache'

end Context

/-- Caches and contexts consult the registry where the history of their look-ups calls for it and
nowhere else, and give what was found there. With a catalog that does not change, no operation can
tell a context from a new one. -/
theorem history_accounts_for_runs [Monad m] [LawfulMonad m] [Interval α] (watch : Tag → m Unit)
    (registry : Registry m α) :
    (∀ requests : List (Cache.Request m α),
      Cache.run watch requests registry .empty = Cache.account watch registry requests []) ∧
    (∀ (depth : Depth) (requests : List (Context.Request m α)),
      Context.run watch requests registry (.new (registry.watched watch) depth) =
        Context.account watch registry depth requests []) ∧
    (∀ (held : Tag → Option (RangeType m α)) (depth : Depth) (ops : List (Operation α))
      (op : Operation α),
      (do
        let ctx ← Context.after ops (.new (.constant held) depth)
        Prod.fst <$> op.perform ctx) = (do
        let _ ← Context.after ops (.new (.constant held) depth)
        Prod.fst <$> op.perform (.new (.constant held) depth))) :=
  ⟨Cache.run_eq_account (History.follows_nil registry),
    fun _ => Context.run_eq_account (History.follows_nil registry),
    fun held => Context.perform_after (Cache.coherent_empty held)⟩

/-- A look-up fails, finds what was registered after it, does not see what was registered since,
and sees it once another type has been asked for. A context with one level to spend fares alike. -/
theorem history_accounts_for_runs_noted :
    ∃ (note : Tag → StateM (List Tag) Unit) (old new : RangeType (StateM (List Tag)) IntSpan)
      (asked : List (Cache.Request (StateM (List Tag)) IntSpan))
      (used : List (Context.Request (StateM (List Tag)) IntSpan)),
      (∀ tag log, (note tag).run log = ((), log ++ [tag])) ∧
      old = IntSpan.rangeType ∧ new = ⟨⟨7⟩, "other", IntSpan.codec⟩ ∧
      asked = [.lookup ⟨1⟩, .register ⟨1⟩ old, .lookup ⟨1⟩, .register ⟨1⟩ new, .lookup ⟨1⟩,
        .lookup ⟨2⟩, .lookup ⟨1⟩] ∧
      used = [.perform (.toText (.empty ⟨1⟩)), .register ⟨1⟩ old, .perform (.parse "" ⟨1⟩ (-1)),
        .perform (.toText (.empty ⟨1⟩))] ∧
      Cache.run note asked .empty .empty = Cache.account note .empty asked [] ∧
      (Cache.run note asked .empty .empty).run [] =
        ([.error (.notAMultirange ⟨1⟩), .ok old, .ok old, .error (.notAMultirange ⟨2⟩), .ok new],
          [⟨1⟩, ⟨1⟩, ⟨2⟩, ⟨1⟩]) ∧
      Context.run note used .empty (.new (Registry.empty.watched note) ⟨0, 1⟩) =
        Context.account note .empty ⟨0, 1⟩ used [] ∧
      ((Context.run note used .empty (.new (Registry.empty.watched note) ⟨0, 1⟩)).run []).2 =
        [⟨1⟩, ⟨1⟩] := by
  let note (tag : Tag) : StateM (List Tag) Unit := fun log => ((), log ++ [tag])
  have hruns := history_accounts_for_runs (α := IntSpan) note .empty
  exact ⟨note, _, _, _, _, fun _ _ => rfl, rfl, rfl, rfl, rfl, hruns.1 _, rfl,
    hruns.2.1 ⟨0, 1⟩ _, rfl⟩

end RangeUnion
