import RangeUnion.Interval

/-!
# Canonical lists of intervals

A list is canonical if it holds no empty interval and each interval comes before its successor
without touching it. `canonicalize` sorts a list, drops the empty intervals and merges each
interval into the one before it as long as the two touch; intervals that touch nothing are kept
as they are (`merge_of_separate`).
-/

namespace RangeUnion

variable {α : Type} [Interval α]

open RangeUnion.Interval

/-- `r` holds between each element and the next one. -/
def Consecutive {β : Type} (r : β → β → Prop) : List β → Prop
  | x :: y :: rest => r x y ∧ Consecutive r (y :: rest)
  | _ => True

instance Consecutive.decidable {β : Type} (r : β → β → Prop) [∀ x y, Decidable (r x y)] :
    ∀ xs : List β, Decidable (Consecutive r xs)
  | [] => isTrue trivial
  | [_] => isTrue trivial
  | x :: y :: rest =>
    have := Consecutive.decidable r (y :: rest)
    inferInstanceAs (Decidable (r x y ∧ Consecutive r (y :: rest)))

@[simp] theorem consecutive_nil {β : Type} (r : β → β → Prop) : Consecutive r [] := trivial

@[simp] theorem consecutive_singleton {β : Type} (r : β → β → Prop) (x : β) :
    Consecutive r [x] := trivial

@[simp] theorem consecutive_cons_cons {β : Type} (r : β → β → Prop) (x y : β) (rest : List β) :
    Consecutive r (x :: y :: rest) ↔ r x y ∧ Consecutive r (y :: rest) := Iff.rfl

/-- `a` comes before `b`, and the two do not touch. -/
def Separate (a b : α) : Prop := order a b = .lt ∧ touches a b = false

instance (a b : α) : Decidable (Separate a b) := by unfold Separate; infer_instance

/-- No interval is empty, and neighbours are separate. -/
def Canonical (xs : List α) : Prop :=
  (∀ x ∈ xs, isEmpty x = false) ∧ Consecutive Separate xs

instance (xs : List α) : Decidable (Canonical xs) := by unfold Canonical; infer_instance

/-! ## Bringing a list into canonical form -/

/-- The intervals in ascending order. Equal ones keep their places. -/
def sort (xs : List α) : List α := xs.mergeSort fun a b => (order a b).isLE

/-- The intervals that are not empty. -/
def nonempty (xs : List α) : List α := xs.filter fun x => !isEmpty x

/-- Widen `current` by the intervals that touch it, until one does not and takes its place. -/
def mergeFrom (current : α) : List α → List α
  | [] => [current]
  | x :: xs =>
    if touches current x then mergeFrom (hull current x) xs else current :: mergeFrom x xs

/-- Merge the neighbours of an ascending list as long as they touch. -/
def merge : List α → List α
  | [] => []
  | x :: xs => mergeFrom x xs

/-- The canonical list of the intervals of `xs`. -/
def canonicalize (xs : List α) : List α := merge (nonempty (sort xs))

@[simp] theorem mergeFrom_nil (x : α) : mergeFrom x [] = [x] := rfl

theorem mergeFrom_touching {x y : α} {xs : List α} (h : touches x y = true) :
    mergeFrom x (y :: xs) = mergeFrom (hull x y) xs := by rw [mergeFrom, if_pos h]

theorem mergeFrom_apart {x y : α} {xs : List α} (h : touches x y = false) :
    mergeFrom x (y :: xs) = x :: mergeFrom y xs := by rw [mergeFrom, if_neg (by simp [h])]

theorem mergeFrom_of_separate {x : α} {xs : List α} (h : Consecutive Separate (x :: xs)) :
    mergeFrom x xs = x :: xs := by
  induction xs generalizing x with
  | nil => rfl
  | cons y ys ih => rw [mergeFrom_apart h.1.2, ih h.2]

/-- A list whose neighbours are separate is left alone. -/
theorem merge_of_separate {xs : List α} (h : Consecutive Separate xs) : merge xs = xs := by
  cases xs with
  | nil => rfl
  | cons x xs => exact mergeFrom_of_separate h

theorem nonempty_of_canonical {xs : List α} (h : Canonical xs) : nonempty xs = xs :=
  List.filter_eq_self.2 fun x hx => by simp [h.1 x hx]

theorem nonempty_cons_of_isEmpty {x : α} {xs : List α} (h : isEmpty x = true) :
    nonempty (x :: xs) = nonempty xs := List.filter_cons_of_neg (by simp [h])

theorem nonempty_cons_of_not_isEmpty {x : α} {xs : List α} (h : isEmpty x = false) :
    nonempty (x :: xs) = x :: nonempty xs := List.filter_cons_of_pos (by simp [h])

theorem mem_sort {x : α} {xs : List α} : x ∈ sort xs ↔ x ∈ xs := List.mem_mergeSort

theorem sort_perm (xs : List α) : (sort xs).Perm xs := List.mergeSort_perm _ _

@[simp] theorem canonicalize_nil : canonicalize ([] : List α) = [] := by
  simp [canonicalize, sort, nonempty, merge]

end RangeUnion
