import RangeUnion.Catalog.Context

/-!
# The history of a cache

What a cache keeps is to be read off from what happened to it. It remembers a multirange type if
the last look-up since it was created or invalidated was a successful one of that type
(`remembers`), and then it gives what the registry held when it was consulted last, whatever has
been registered since (`source`). `Follows` says that a cache keeps just what its history says.
Each look-up, invalidation and registration carries that on, so that whole runs do too
(`Cache.run_eq_account`): the registry is consulted by the look-ups of what is not remembered and
by no others.
-/

namespace RangeUnion

variable {m : Type → Type} {α : Type}

/-- The catalog of all that is registered, where each consultation is seen by `watch`. -/
def Registry.watched [Monad m] (watch : Tag → m Unit) (registry : Registry m α) : Catalog m α :=
  fun tag => do
    watch tag
    return registry.find? tag

/-- What can happen to a cache and to the registry that it consults. -/
inductive Event (m : Type → Type) (α : Type) where
  | lookup (tag : Tag) (succeeded : Bool)
  | invalidate
  | register (tag : Tag) (type : RangeType m α)

/-- What happened so far, the latest event first. -/
abbrev History (m : Type → Type) (α : Type) := List (Event m α)

namespace History

/-- The last look-up since the cache was created or invalidated was one of `tag` and succeeded. -/
def remembers (tag : Tag) : History m α → Bool
  | [] => false
  | .lookup last succeeded :: _ => succeeded && decide (last = tag)
  | .invalidate :: _ => false
  | .register _ _ :: before => remembers tag before

/-- What is registered by now, of what was registered at first and since. -/
def registered (registry : Registry m α) : History m α → Registry m α
  | [] => registry
  | .register tag type :: before => (registered registry before).register tag type
  | _ :: before => registered registry before

/-- What the registry held for `tag` when it was consulted last, which is now if `tag` is not
remembered. -/
def source (registry : Registry m α) (tag : Tag) : History m α → Option (RangeType m α)
  | [] => registry.find? tag
  | event :: before =>
    if remembers tag (event :: before) then source registry tag before
    else (registered registry (event :: before)).find? tag

/-- The consultation that comes with a look-up of `tag`: none if `tag` is remembered. -/
def consultation [Monad m] (watch : Tag → m Unit) (history : History m α) (tag : Tag) : m Unit :=
  if history.remembers tag then pure () else watch tag

variable {registry : Registry m α} {history : History m α} {tag : Tag}

theorem source_of_not_remembers (h : history.remembers tag = false) :
    history.source registry tag = (history.registered registry).find? tag := by
  cases history with
  | nil => rfl
  | cons event before => rw [source, h, if_neg Bool.false_ne_true]

theorem source_cons_of_remembers {event : Event m α}
    (h : remembers tag (event :: history) = true) :
    source registry tag (event :: history) = history.source registry tag := by
  rw [source, if_pos h]

/-- The cache keeps what the history says that it remembers, and nothing else. -/
def Follows (registry : Registry m α) (history : History m α) (cache : Cache m α) : Prop :=
  ∀ tag, if history.remembers tag then
      ∃ type, history.source registry tag = some type ∧ cache.find? tag = some type
    else cache.find? tag = none

end History

namespace Cache

open History

/-! ## One look-up -/

/-- The answer to a look-up of `tag` that has found a range type or none. -/
def answer (tag : Tag) : Option (RangeType m α) → Except Error (RangeType m α)
  | some type => .ok type
  | none => .error (.notAMultirange tag)

/-- The cache after a look-up of `tag`. -/
def keeping (tag : Tag) (found : Option (RangeType m α)) : Cache m α := ⟨found.map (tag, ·)⟩

theorem eq_keeping_of_find? {cache : Cache m α} {tag : Tag} {type : RangeType m α}
    (h : cache.find? tag = some type) : cache = keeping tag (some type) := by
  obtain ⟨kept⟩ := cache
  unfold find? at h
  cases kept with
  | none => cases h
  | some kept =>
    obtain ⟨keptTag, keptType⟩ := kept
    by_cases htag : keptTag = tag
    · simp only [if_pos htag] at h
      cases h
      rw [htag]
      rfl
    · simp only [if_neg htag] at h
      cases h

theorem find?_keeping (tag other : Tag) (found : Option (RangeType m α)) :
    (keeping tag found).find? other = if tag = other then found else none := by
  cases found with
  | none => exact (ite_self none).symm
  | some type => rfl

variable [Monad m]

/-- What a look-up of `tag` finds: the range type kept, or else the catalog's. -/
def consult (cache : Cache m α) (catalog : Catalog m α) (tag : Tag) :
    m (Option (RangeType m α)) :=
  match cache.find? tag with
  | some type => return some type
  | none => catalog tag

variable [LawfulMonad m] {registry : Registry m α} {history : History m α} {cache : Cache m α}

/-- What a look-up finds decides its answer and all that is kept after it. -/
theorem lookup_eq (cache : Cache m α) (catalog : Catalog m α) (tag : Tag) :
    cache.lookup catalog tag = do
      let found ← cache.consult catalog tag
      return (answer tag found, keeping tag found) := by
  unfold consult
  cases hfind : cache.find? tag with
  | some type =>
    rw [lookup_of_find? hfind, pure_bind, ← eq_keeping_of_find? hfind]
    rfl
  | none =>
    unfold lookup
    rw [hfind]
    refine bind_congr fun found => ?_
    cases found <;> rfl

/-- A cache that follows its history consults the registry only for what is not remembered. -/
theorem consult_watched (h : Follows registry history cache) (watch : Tag → m Unit) (tag : Tag) :
    cache.consult ((history.registered registry).watched watch) tag = do
      history.consultation watch tag
      return history.source registry tag := by
  have hkeeps := h tag
  unfold consult consultation
  cases hremembers : history.remembers tag with
  | true =>
    rw [hremembers, if_pos rfl] at hkeeps
    obtain ⟨type, hsource, hfind⟩ := hkeeps
    rw [hfind, hsource, if_pos rfl, pure_bind]
  | false =>
    rw [hremembers, if_neg Bool.false_ne_true] at hkeeps
    rw [hkeeps, if_neg Bool.false_ne_true, source_of_not_remembers hremembers]
    rfl

end Cache

namespace History

variable {registry : Registry m α} {history : History m α} {cache : Cache m α}

/-! ## Following a history -/

theorem follows_nil (registry : Registry m α) : Follows registry [] (.empty : Cache m α) :=
  fun _ => rfl

theorem follows_invalidate (registry : Registry m α) (history : History m α) (cache : Cache m α) :
    Follows registry (.invalidate :: history) cache.invalidate := fun _ => rfl

theorem Follows.register (h : Follows registry history cache) (tag : Tag) (type : RangeType m α) :
    Follows registry (.register tag type :: history) cache := by
  intro other
  have hother := h other
  show if history.remembers other then _ else _
  cases hremembers : history.remembers other with
  | true =>
    rw [hremembers, if_pos rfl] at hother
    have hsource : source registry other (.register tag type :: history) =
        history.source registry other := source_cons_of_remembers hremembers
    rw [if_pos rfl, hsource]
    exact hother
  | false =>
    rw [hremembers] at hother
    exact hother

/-- What a look-up keeps is what it was told by the source. -/
theorem follows_lookup (registry : Registry m α) (history : History m α) (tag : Tag) :
    Follows registry (.lookup tag (history.source registry tag).isSome :: history)
      (Cache.keeping tag (history.source registry tag)) := by
  intro other
  rw [Cache.find?_keeping]
  by_cases htag : tag = other
  · subst htag
    rw [if_pos rfl]
    cases hsource : history.source registry tag with
    | none => rfl
    | some type =>
      have hremembers : remembers tag (.lookup tag (some type).isSome :: history) = true := by
        simp [remembers]
      rw [if_pos hremembers, source_cons_of_remembers hremembers]
      exact ⟨type, hsource, rfl⟩
  · have hremembers : remembers other
        (.lookup tag (history.source registry tag).isSome :: history) = false := by
      simp [remembers, htag]
    rw [if_neg htag, hremembers, if_neg Bool.false_ne_true]

end History

namespace Cache

open History

/-! ## Runs -/

/-- What can be asked of a cache and of its registry. -/
inductive Request (m : Type → Type) (α : Type) where
  | lookup (tag : Tag)
  | invalidate
  | register (tag : Tag) (type : RangeType m α)

variable [Monad m]

/-- Do all that is asked, one after the other. The look-ups have answers. -/
def run (watch : Tag → m Unit) :
    List (Request m α) → Registry m α → Cache m α → m (List (Except Error (RangeType m α)))
  | [], _, _ => return []
  | .lookup tag :: requests, registry, cache => do
    let (answer, cache) ← cache.lookup (registry.watched watch) tag
    return answer :: (← run watch requests registry cache)
  | .invalidate :: requests, registry, cache => run watch requests registry cache.invalidate
  | .register tag type :: requests, registry, cache =>
    run watch requests (registry.register tag type) cache

/-- The answers and the consultations that the history accounts for. -/
def account (watch : Tag → m Unit) (registry : Registry m α) :
    List (Request m α) → History m α → m (List (Except Error (RangeType m α)))
  | [], _ => return []
  | .lookup tag :: requests, history => do
    history.consultation watch tag
    let found := history.source registry tag
    return answer tag found :: (← account watch registry requests
      (.lookup tag found.isSome :: history))
  | .invalidate :: requests, history => account watch registry requests (.invalidate :: history)
  | .register tag type :: requests, history =>
    account watch registry requests (.register tag type :: history)

/-- Runs are what the history accounts for. -/
theorem run_eq_account [LawfulMonad m] {watch : Tag → m Unit} {registry : Registry m α}
    {history : History m α} {cache : Cache m α} (h : Follows registry history cache)
    (requests : List (Request m α)) :
    run watch requests (history.registered registry) cache =
      account watch registry requests history := by
  induction requests generalizing history cache with
  | nil => rfl
  | cons request requests ih =>
    cases request with
    | lookup tag =>
      rw [run, account, lookup_eq, consult_watched h]
      simp only [bind_assoc, pure_bind]
      refine bind_congr fun _ => ?_
      have hrest := ih (follows_lookup registry history tag)
      rw [← hrest]
      rfl
    | invalidate => exact ih (follows_invalidate registry history cache)
    | register tag type => exact ih (h.register tag type)

end Cache

end RangeUnion
