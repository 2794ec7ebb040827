import RangeUnion.Multirange.Basic

/-!
# Cursors

A cursor goes over the slots of a multirange from both ends at once. The slots that it has not
given yet are those from `front` up to `back`, and `remaining` is the list of what they hold.
-/

namespace RangeUnion

/-- A place in a multirange: the slots from `front` up to `back` are still to be given. -/
structure Cursor (α : Type) where
  source : Multirange α
  front : Nat
  back : Nat

namespace Cursor

variable {α : Type}

/-- The cursor that is still to give every slot. -/
def ofMultirange (m : Multirange α) : Cursor α := ⟨m, 0, m.length⟩

/-- How many slots are still to be given. -/
def length (c : Cursor α) : Nat := c.back - c.front

/-- A lower bound and an upper bound for the slots still to be given. -/
def sizeHint (c : Cursor α) : Nat × Nat := (c.length, c.length)

@[simp] theorem length_ofMultirange (m : Multirange α) : (ofMultirange m).length = m.length := rfl

variable [Interval α]

/-- What the slots still to be given hold, front to back. -/
def remaining (c : Cursor α) : List (Except Error α) :=
  (c.source.items.take c.back).drop c.front

/-- Give the slot at the front. -/
def next (c : Cursor α) : Option (Except Error α) × Cursor α :=
  if c.front < c.back then (c.source.get? c.front, { c with front := c.front + 1 })
  else (none, c)

/-- Give the slot at the back. -/
def nextBack (c : Cursor α) : Option (Except Error α) × Cursor α :=
  if c.front < c.back then (c.source.get? (c.back - 1), { c with back := c.back - 1 })
  else (none, c)

/-- Give one slot after the other by `step`, at most `fuel` of them. -/
def drain (step : Cursor α → Option (Except Error α) × Cursor α) :
    Nat → Cursor α → List (Except Error α) × Cursor α
  | 0, c => ([], c)
  | fuel + 1, c =>
    match step c with
    | (none, c) => ([], c)
    | (some item, c) =>
      let (items, c) := drain step fuel c
      (item :: items, c)

/-- Give all slots that are left, front to back. -/
def collect (c : Cursor α) : List (Except Error α) × Cursor α := drain next c.length c

/-- Give all slots that are left, back to front. -/
def collectBack (c : Cursor α) : List (Except Error α) × Cursor α := drain nextBack c.length c

@[simp] theorem remaining_ofMultirange (m : Multirange α) :
    (ofMultirange m).remaining = m.items := by
  rw [remaining, ofMultirange, List.drop_zero, List.take_of_length_le]
  exact Nat.le_of_eq m.length_items

/-- A finished cursor gives nothing and stays as it is. -/
theorem next_of_le {c : Cursor α} (h : c.back ≤ c.front) : c.next = (none, c) :=
  if_neg (Nat.not_lt.2 h)

theorem nextBack_of_le {c : Cursor α} (h : c.back ≤ c.front) : c.nextBack = (none, c) :=
  if_neg (Nat.not_lt.2 h)

/-- The slot at the front is the first of those that remain. -/
theorem remaining_next {c : Cursor α} (h : c.front < c.back) (hb : c.back ≤ c.source.length) :
    ∃ item, c.next = (some item, { c with front := c.front + 1 }) ∧
      c.remaining = item :: ({ c with front := c.front + 1 } : Cursor α).remaining := by
  have hl : c.front < c.source.items.length := by rw [Multirange.length_items]; omega
  refine ⟨c.source.items[c.front], ?_, ?_⟩
  · rw [next, if_pos h, Multirange.get?_eq, List.getElem?_eq_getElem hl]
  · unfold remaining
    have ht : c.front < (c.source.items.take c.back).length := by
      rw [List.length_take]
      omega
    rw [List.drop_eq_getElem_cons ht, List.getElem_take]

end Cursor

end RangeUnion
