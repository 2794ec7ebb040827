import RangeUnion.Catalog.Codec
import RangeUnion.Text.Quoted

/-!
# Range types and registries

A range type has a tag of its own, a name and a codec. A catalog says which range type a
multirange type is made of; a registry is a catalog that is filled entry by entry, the last
entry of a tag counting.
-/

namespace RangeUnion

/-- The type of the intervals that a multirange type is made of. -/
structure RangeType (m : Type → Type) (α : Type) where
  id : Tag
  name : String
  codec : Codec m α

namespace RangeType

variable {m : Type → Type} {α : Type}

/-- The function that encodes an interval. -/
def sendFunction (type : RangeType m α) : Except Error (α → Depth → m (Except Error Bytes)) :=
  match type.codec.send with
  | some send => .ok send
  | none => .error (.noBinaryFunction type.name .output)

/-- The function that decodes an interval. -/
def receiveFunction (type : RangeType m α) :
    Except Error (Bytes → Int32 → Depth → m (Except Error α)) :=
  match type.codec.receive with
  | some receive => .ok receive
  | none => .error (.noBinaryFunction type.name .input)

theorem sendFunction_eq_ok_iff {type : RangeType m α} {send : α → Depth → m (Except Error Bytes)} :
    type.sendFunction = .ok send ↔ type.codec.send = some send := by
  unfold sendFunction
  cases type.codec.send <;> simp

theorem receiveFunction_eq_ok_iff {type : RangeType m α}
    {receive : Bytes → Int32 → Depth → m (Except Error α)} :
    type.receiveFunction = .ok receive ↔ type.codec.receive = some receive := by
  unfold receiveFunction
  cases type.codec.receive <;> simp

/-- A diagnostic text. -/
def describe (type : RangeType m α) : String :=
  "RangeTypeEntry \x7b type_id: TypeTag(" ++ type.id.text ++ "), name: " ++
    Text.Quoted.quote type.name ++ ", io: RangeIoFunctions \x7b send: " ++
    toString type.codec.send.isSome ++ ", receive: " ++ toString type.codec.receive.isSome ++
    ", .. \x7d \x7d"

end RangeType

/-- What is known about multirange types. -/
abbrev Catalog (m : Type → Type) (α : Type) := Tag → m (Option (RangeType m α))

/-- The range types that are registered, the latest first. -/
structure Registry (m : Type → Type) (α : Type) where
  entries : List (Tag × RangeType m α)

namespace Registry

variable {m : Type → Type} {α : Type}

/-- The registry without entries. -/
def empty : Registry m α := ⟨[]⟩

/-- The range type registered for a multirange type. -/
def find? (registry : Registry m α) (tag : Tag) : Option (RangeType m α) :=
  registry.entries.lookup tag

/-- Register a range type for a multirange type, in place of the one registered before. -/
def register (registry : Registry m α) (tag : Tag) (type : RangeType m α) : Registry m α :=
  ⟨(tag, type) :: registry.entries⟩

/-- The catalog of all that is registered. -/
def catalog [Monad m] (registry : Registry m α) : Catalog m α := fun tag =>
  return registry.find? tag

@[simp] theorem find?_empty (tag : Tag) : (empty : Registry m α).find? tag = none := rfl

theorem find?_register_self (registry : Registry m α) (tag : Tag) (type : RangeType m α) :
    (registry.register tag type).find? tag = some type := by
  simp [find?, register]

theorem find?_register_of_ne (registry : Registry m α) {tag other : Tag} (h : other ≠ tag)
    (type : RangeType m α) : (registry.register tag type).find? other = registry.find? other := by
  have h' : (other == tag) = false := by simp [h]
  simp only [find?, register, List.lookup_cons, h']

end Registry

namespace IntSpan

/-- The tag of the range type of integers. -/
def rangeTag : Tag := ⟨3904⟩

/-- The tag of the multirange type of integers. -/
def multirangeTag : Tag := ⟨4451⟩

/-- The range type of integers. -/
def rangeType {m : Type → Type} [Monad m] : RangeType m IntSpan := ⟨rangeTag, "int4range", codec⟩

/-- The registry that holds the range type of integers. -/
def registry {m : Type → Type} [Monad m] : Registry m IntSpan :=
  Registry.empty.register multirangeTag rangeType

end IntSpan

end RangeUnion
