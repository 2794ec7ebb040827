import RangeUnion.Proofs.Catalog.History

/-!
# Traces

An entry point hands work on: it consults the catalog, and it calls functions of a codec. In a
context that is `traced`, each of these deeds is noted when it is done, and for the rest it is the
context that it was. What is not in the trace was not done.

A look-up notes a consultation if the cache does not keep what is asked for, and nothing otherwise
(`Cache.run_consult_traced`).
-/

namespace RangeUnion

variable {σ α β : Type}

/-- What is done for an entry point outside of it. -/
inductive Deed (α : Type) where
  | consult (tag : Tag)
  | call (call : Call α)

/-- All that was done, in order. -/
abbrev Trace (α : Type) := List (Deed α)

/-- Do `act` and note it as `deed`. -/
def noting (deed : Deed α) (act : StateM σ β) : StateM (σ × Trace α) β := fun (s, trace) =>
  let (x, s) := act.run s
  (x, (s, trace ++ [deed]))

theorem run_noting (deed : Deed α) (act : StateM σ β) (s : σ) (trace : Trace α) :
    (noting deed act).run (s, trace) = ((act.run s).1, ((act.run s).2, trace ++ [deed])) := rfl

/-- The codec whose calls are noted. -/
def Codec.traced (codec : Codec (StateM σ) α) : Codec (StateM (σ × Trace α)) α where
  input literal typmod depth :=
    noting (.call (.input literal typmod depth)) (codec.input literal typmod depth)
  output x depth := noting (.call (.output x depth)) (codec.output x depth)
  send := codec.send.map fun send x depth => noting (.call (.send x depth)) (send x depth)
  receive := codec.receive.map fun receive message typmod depth =>
    noting (.call (.receive message typmod depth)) (receive message typmod depth)

/-- The range type whose calls are noted. -/
def RangeType.traced (type : RangeType (StateM σ) α) : RangeType (StateM (σ × Trace α)) α :=
  ⟨type.id, type.name, type.codec.traced⟩

/-- The catalog whose consultations are noted. -/
def Catalog.traced (catalog : Catalog (StateM σ) α) : Catalog (StateM (σ × Trace α)) α := fun tag =>
  noting (.consult tag) (Option.map RangeType.traced <$> catalog tag)

namespace Cache

/-- The cache that keeps a range type whose calls are noted. -/
def traced (cache : Cache (StateM σ) α) : Cache (StateM (σ × Trace α)) α :=
  ⟨cache.kept.map fun (tag, type) => (tag, type.traced)⟩

/-- What a look-up of `tag` notes: nothing, if it is kept. -/
def consultations (cache : Cache (StateM σ) α) (tag : Tag) : Trace α :=
  if (cache.find? tag).isSome then [] else [.consult tag]

theorem traced_keeping (tag : Tag) (found : Option (RangeType (StateM σ) α)) :
    (keeping tag found).traced = keeping tag (found.map RangeType.traced) := by
  cases found <;> rfl

theorem find?_traced (cache : Cache (StateM σ) α) (tag : Tag) :
    cache.traced.find? tag = (cache.find? tag).map RangeType.traced := by
  obtain ⟨kept⟩ := cache
  cases kept with
  | none => rfl
  | some kept =>
    show (if kept.1 = tag then some kept.2.traced else none) =
      (if kept.1 = tag then some kept.2 else none).map RangeType.traced
    split <;> rfl

/-- A look-up finds the same if it is noted. -/
theorem run_consult_traced (cache : Cache (StateM σ) α) (catalog : Catalog (StateM σ) α) (tag : Tag)
    (s : σ) (trace : Trace α) :
    (cache.traced.consult (Catalog.traced catalog) tag).run (s, trace) =
      let found := (cache.consult catalog tag).run s
      (found.1.map RangeType.traced, (found.2, trace ++ cache.consultations tag)) := by
  unfold consult consultations
  rw [find?_traced]
  cases cache.find? tag with
  | none => rfl
  | some type =>
    rw [Option.isSome_some, if_pos rfl, List.append_nil]
    rfl

end Cache

/-- The context whose catalog and whose functions note what they are asked for. -/
def Context.traced (ctx : Context (StateM σ) α) : Context (StateM (σ × Trace α)) α :=
  ⟨Catalog.traced ctx.catalog, ctx.cache.traced, ctx.depth⟩

end RangeUnion
