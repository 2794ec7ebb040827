import RangeUnion.Catalog.Registry

/-!
# Contexts of input and output

A cache keeps the range type that was looked up last. It consults the catalog only if another
multirange type is asked for than the one it keeps, and after a failed look-up it keeps none.

A context holds what the entry points of input and output have in common: a catalog, a cache
and a depth budget. Each of them starts by `acquire`: it spends a level, looks the range type
up, and picks the function that it needs. Nothing else is done if one of these fails.
-/

namespace RangeUnion

/-- The range type that was looked up last, if it was found. -/
structure Cache (m : Type → Type) (α : Type) where
  kept : Option (Tag × RangeType m α)

namespace Cache

variable {m : Type → Type} {α : Type}

/-- The cache that keeps nothing. -/
def empty : Cache m α := ⟨none⟩

/-- Keep nothing any more. -/
def invalidate (_ : Cache m α) : Cache m α := empty

/-- The range type kept for `tag`. -/
def find? (cache : Cache m α) (tag : Tag) : Option (RangeType m α) :=
  match cache.kept with
  | some (kept, type) => if kept = tag then some type else none
  | none => none

variable [Monad m]

/-- The range type of the multirange type `tag`: the one kept, or else the catalog's, which is
kept from then on. -/
def lookup (cache : Cache m α) (catalog : Catalog m α) (tag : Tag) :
    m (Except Error (RangeType m α) × Cache m α) :=
  match cache.find? tag with
  | some type => return (.ok type, cache)
  | none => do
    match ← catalog tag with
    | some type => return (.ok type, ⟨some (tag, type)⟩)
    | none => return (.error (.notAMultirange tag), empty)

/-- What is kept is given without consulting the catalog. -/
theorem lookup_of_find? {cache : Cache m α} {catalog : Catalog m α} {tag : Tag}
    {type : RangeType m α} (h : cache.find? tag = some type) :
    cache.lookup catalog tag = pure (.ok type, cache) := by
  unfold lookup
  rw [h]

omit [Monad m] in
@[simp] theorem find?_empty (tag : Tag) : (empty : Cache m α).find? tag = none := rfl

omit [Monad m] in
theorem find?_kept (tag : Tag) (type : RangeType m α) :
    (⟨some (tag, type)⟩ : Cache m α).find? tag = some type := if_pos rfl

end Cache

/-- What input and output work with. -/
structure Context (m : Type → Type) (α : Type) where
  catalog : Catalog m α
  cache : Cache m α
  depth : Depth

namespace Context

variable {m : Type → Type} {α γ : Type}

/-- A context with an empty cache. -/
def new (catalog : Catalog m α) (depth : Depth) : Context m α := ⟨catalog, .empty, depth⟩

variable [Monad m]

/-- The range type of the multirange type `tag`. -/
def rangeType (ctx : Context m α) (tag : Tag) :
    m (Except Error (RangeType m α) × Context m α) := do
  let (found, cache) ← ctx.cache.lookup ctx.catalog tag
  return (found, { ctx with cache })

/-- Enter the context for the multirange type `tag`: what `pick` takes from its range type, and
the depth budget that is left. -/
def acquire (ctx : Context m α) (tag : Tag) (pick : RangeType m α → Except Error γ) :
    m (Except Error (γ × Depth) × Context m α) :=
  match ctx.depth.enter with
  | .error e => return (.error e, ctx)
  | .ok depth => do
    let (found, ctx) ← ctx.rangeType tag
    return ((found.bind pick).map (·, depth), ctx)

/-- Without a level left nothing is looked up, and the context stays as it is. -/
theorem acquire_of_le {ctx : Context m α} (h : ctx.depth.limit ≤ ctx.depth.level) (tag : Tag)
    (pick : RangeType m α → Except Error γ) :
    ctx.acquire tag pick = pure (.error (.stackDepthExceeded ctx.depth.limit), ctx) := by
  unfold acquire
  rw [Depth.enter_of_le h]

end Context

end RangeUnion
