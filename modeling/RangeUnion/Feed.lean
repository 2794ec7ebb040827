import RangeUnion.Error

/-!
# Feeds

A feed is what reading an input brings up before it ends or fails: elements in order, and then
the failure if there is one. Handing a feed to a function that may itself fail hands over its
elements in order up to the first one that fails; only if none does, the feed's own failure
counts. So of all failures the first in input order is reported.
-/

namespace RangeUnion

/-- Elements in order, and the failure that ends them early. -/
structure Feed (β : Type) where
  elements : List β
  failure : Option Error

namespace Feed

variable {β γ : Type} {m : Type → Type} [Monad m]

/-- The feed of a list of readings: those before the first failure, and that failure. -/
def ofReadings : List (Except Error β) → Feed β
  | [] => ⟨[], none⟩
  | .ok x :: rest => ⟨x :: (ofReadings rest).elements, (ofReadings rest).failure⟩
  | .error e :: _ => ⟨[], some e⟩

/-- Hand over elements in order, up to the first one that fails. -/
def inOrder (f : β → m (Except Error γ)) : List β → m (Except Error (List γ))
  | [] => return .ok []
  | x :: xs => do
    match ← f x with
    | .error e => return .error e
    | .ok y => return (← inOrder f xs).map (y :: ·)

/-- Hand over a feed: its elements in order up to the first one that fails, then its own
failure. -/
def collect (f : β → m (Except Error γ)) (feed : Feed β) : m (Except Error (List γ)) := do
  match ← inOrder f feed.elements, feed.failure with
  | .error e, _ => return .error e
  | .ok _, some e => return .error e
  | .ok ys, none => return .ok ys

omit [Monad m] in
/-- Readings that all succeed make a feed without a failure. -/
theorem ofReadings_map_ok (xs : List β) : ofReadings (xs.map Except.ok) = ⟨xs, none⟩ := by
  induction xs with
  | nil => rfl
  | cons x xs ih => simp only [List.map_cons, ofReadings, ih]

/-- Elements that are all accepted give their answers in order. -/
theorem inOrder_pure [LawfulMonad m] (f : β → γ) (xs : List β) :
    inOrder (m := m) (fun x => pure (.ok (f x))) xs = pure (.ok (xs.map f)) := by
  induction xs with
  | nil => rfl
  | cons x xs ih =>
    rw [inOrder, pure_bind]
    simp only [ih, pure_bind, List.map_cons]
    rfl

end Feed

end RangeUnion
