import RangeUnion.Canonical

/-!
# Relations between neighbours

`Consecutive r xs` says that `r` holds between each element of `xs` and the next one. Such a
relation carries over along maps, and says something of all elements but the first or the last.
-/

namespace RangeUnion

variable {β γ : Type} {r r' : β → β → Prop} {p : β → Prop} {xs : List β}

/-- Relations that agree on the elements of a list hold between the same neighbours. -/
theorem consecutive_congr (h : ∀ x ∈ xs, ∀ y ∈ xs, r x y ↔ r' x y) :
    Consecutive r xs ↔ Consecutive r' xs := by
  induction xs with
  | nil => exact Iff.rfl
  | cons x xs ih =>
    cases xs with
    | nil => exact Iff.rfl
    | cons y xs =>
      rw [consecutive_cons_cons, consecutive_cons_cons, h x (by simp) y (by simp),
        ih fun a ha b hb => h a (List.mem_cons_of_mem x ha) b (List.mem_cons_of_mem x hb)]

theorem consecutive_map (f : γ → β) (ys : List γ) :
    Consecutive r (ys.map f) ↔ Consecutive (fun a b => r (f a) (f b)) ys := by
  induction ys with
  | nil => exact Iff.rfl
  | cons x ys ih =>
    cases ys with
    | nil => exact Iff.rfl
    | cons y ys =>
      simp only [List.map_cons, consecutive_cons_cons] at ih ⊢
      rw [ih]

theorem forall_mem_tail_of_consecutive (hr : ∀ x y, r x y → p y) (h : Consecutive r xs) :
    ∀ x ∈ xs.tail, p x := by
  induction xs with
  | nil => exact fun _ hx => nomatch hx
  | cons x xs ih =>
    cases xs with
    | nil => exact fun _ hx => nomatch hx
    | cons y ys =>
      rw [List.tail_cons, List.forall_mem_cons]
      exact ⟨hr x y h.1, ih h.2⟩

theorem forall_mem_dropLast_of_consecutive (hr : ∀ x y, r x y → p x) (h : Consecutive r xs) :
    ∀ x ∈ xs.dropLast, p x := by
  induction xs with
  | nil => exact fun _ hx => nomatch hx
  | cons x xs ih =>
    cases xs with
    | nil => exact fun _ hx => nomatch hx
    | cons y ys =>
      rw [List.dropLast_cons_cons, List.forall_mem_cons]
      exact ⟨hr x y h.1, ih h.2⟩

end RangeUnion
