import RangeUnion.Canonical

/-!
# Compacting in place

The intervals in an ascending array can be merged in place, by one scan over its cells. The first
`kept` cells hold the output, and the last one of these holds the interval that is widened. Then
come the cells that were skipped or merged, and then those that are still to be looked at. No step
depends on what the skipped cells hold, and none leaves the array (`Shows.exists_step_eq`), so a
whole scan leaves what `merge` makes of the intervals that are not empty (`compact?_eq`).
-/

namespace RangeUnion

open RangeUnion.Interval

variable {α : Type}

/-- An array in the middle of a scan: its cells, and how many of them hold output. -/
structure Scan (α : Type) where
  cells : List α
  kept : Nat

namespace Scan

/-- Exchange what two cells hold. -/
def swap? (cells : List α) (i j : Nat) : Option (List α) := do
  let x ← cells[i]?
  let y ← cells[j]?
  return (cells.set i y).set j x

/-- Move the cell number `i` behind the output. -/
def keep (s : Scan α) (i : Nat) : Option (Scan α) := do
  let cells ← swap? s.cells s.kept i
  return ⟨cells, s.kept + 1⟩

variable [Interval α]

/-- Look at the cell number `i`. -/
def step (s : Scan α) (i : Nat) : Option (Scan α) := do
  let current ← s.cells[i]?
  if isEmpty current then return s
  else if s.kept = 0 then s.keep i
  else
    let last ← s.cells[s.kept - 1]?
    if touches last current then
      return { s with cells := s.cells.set (s.kept - 1) (hull last current) }
    else s.keep i

/-- The output after one more interval. -/
def absorb (output : List α) (x : α) : List α :=
  if isEmpty x then output
  else match output.getLast? with
    | none => [x]
    | some last =>
      if touches last x then output.dropLast ++ [hull last x] else output ++ [x]

/-- `s` has put out `output`, with `rest` still to be looked at from the cell number `i` on. -/
def Shows (s : Scan α) (i : Nat) (output rest : List α) : Prop :=
  ∃ skipped, s.cells = output ++ (skipped ++ rest) ∧ s.kept = output.length ∧
    i = output.length + skipped.length

end Scan

/-- Merge the neighbours in an ascending array in place, and cut off what is not output. -/
def compact? [Interval α] (cells : List α) : Option (List α) := do
  let s ← (List.range cells.length).foldlM Scan.step ⟨cells, 0⟩
  return s.cells.take s.kept

namespace Scan

variable {s : Scan α} {i : Nat} {output front rest : List α} {last x : α}

/-! ## Moving cells -/

theorem exists_swap?_eq (output skipped rest : List α) (x : α) :
    ∃ skipped', skipped'.length = skipped.length ∧
      swap? (output ++ (skipped ++ x :: rest)) output.length (output.length + skipped.length) =
        some (output ++ x :: (skipped' ++ rest)) := by
  cases skipped with
  | nil =>
    refine ⟨[], rfl, ?_⟩
    simp [swap?]
  | cons y skipped =>
    refine ⟨skipped ++ [y], by simp, ?_⟩
    simp [swap?]

theorem Shows.getElem?_eq (h : s.Shows i output (x :: rest)) : s.cells[i]? = some x := by
  obtain ⟨skipped, hcells, _, rfl⟩ := h
  rw [hcells, ← List.append_assoc, ← List.length_append,
    List.getElem?_append_right (Nat.le_refl _), Nat.sub_self]
  rfl

theorem Shows.skip (h : s.Shows i output (x :: rest)) : s.Shows (i + 1) output rest := by
  obtain ⟨skipped, hcells, hkept, rfl⟩ := h
  refine ⟨skipped ++ [x], ?_, hkept, ?_⟩
  · rw [hcells, List.append_assoc skipped, List.singleton_append]
  · rw [List.length_append, List.length_singleton, Nat.add_assoc]

theorem Shows.exists_keep_eq (h : s.Shows i output (x :: rest)) :
    ∃ s', s.keep i = some s' ∧ s'.Shows (i + 1) (output ++ [x]) rest := by
  obtain ⟨skipped, hcells, hkept, rfl⟩ := h
  obtain ⟨skipped', hlength, hswap⟩ := exists_swap?_eq output skipped rest x
  refine ⟨⟨output ++ x :: (skipped' ++ rest), output.length + 1⟩, ?_, skipped', ?_, ?_, ?_⟩
  · rw [keep, hcells, hkept, hswap]
    rfl
  · rw [List.append_assoc, List.singleton_append]
  · rw [List.length_append, List.length_singleton]
  · rw [List.length_append, List.length_singleton, hlength]
    omega

/-- The last cell of the output can be read and written. -/
theorem Shows.last_cell (h : s.Shows i (front ++ [last]) rest) (y : α) :
    s.kept ≠ 0 ∧ s.cells[s.kept - 1]? = some last ∧
      ({ s with cells := s.cells.set (s.kept - 1) y } : Scan α).Shows i (front ++ [y]) rest := by
  obtain ⟨skipped, hcells, hkept, rfl⟩ := h
  rw [List.length_append, List.length_singleton] at hkept
  refine ⟨by omega, ?_, skipped, ?_, ?_, ?_⟩
  · rw [hcells, hkept]
    simp
  · rw [hcells, hkept]
    simp
  · rw [hkept, List.length_append, List.length_singleton]
  · rw [List.length_append, List.length_append, List.length_singleton, List.length_singleton]

variable [Interval α]

/-! ## One interval -/

theorem absorb_of_isEmpty (h : isEmpty x = true) : absorb output x = output := if_pos h

theorem absorb_nil (h : isEmpty x = false) : absorb [] x = [x] := by
  rw [absorb, h]
  rfl

theorem absorb_touching (h : isEmpty x = false) (htouch : touches last x = true) :
    absorb (front ++ [last]) x = front ++ [hull last x] := by
  rw [absorb, if_neg (by simp [h]), List.getLast?_concat, List.dropLast_concat]
  exact if_pos htouch

theorem absorb_apart (h : isEmpty x = false) (htouch : touches last x = false) :
    absorb (front ++ [last]) x = front ++ [last] ++ [x] := by
  rw [absorb, if_neg (by simp [h]), List.getLast?_concat]
  exact if_neg (by simp [htouch])

/-- Looking at a cell adds its interval to the output, whatever the skipped cells hold. -/
theorem Shows.exists_step_eq (h : s.Shows i output (x :: rest)) :
    ∃ s', s.step i = some s' ∧ s'.Shows (i + 1) (absorb output x) rest := by
  unfold step
  rw [h.getElem?_eq, Option.bind_eq_bind, Option.bind_some]
  cases hempty : isEmpty x with
  | true =>
    rw [absorb_of_isEmpty hempty]
    exact ⟨s, rfl, h.skip⟩
  | false =>
    rw [if_neg Bool.false_ne_true]
    rcases List.eq_nil_or_concat output with rfl | ⟨front, last, rfl⟩
    · have hkept : s.kept = 0 := h.choose_spec.2.1
      rw [if_pos hkept, absorb_nil hempty]
      exact h.exists_keep_eq
    · rw [List.concat_eq_append] at h ⊢
      obtain ⟨hkept, hlast, hwidened⟩ := h.last_cell (hull last x)
      rw [if_neg hkept, hlast, Option.bind_some]
      cases htouch : touches last x with
      | true =>
        rw [absorb_touching hempty htouch]
        exact ⟨_, rfl, hwidened.skip⟩
      | false =>
        rw [absorb_apart hempty htouch]
        exact h.exists_keep_eq

/-! ## All intervals -/

/-- The induction is on the cells that are left; a scan shows the same of each of them. -/
theorem Shows.exists_foldlM_eq (h : s.Shows i output rest) :
    ∃ s', (List.range' i rest.length).foldlM step s = some s' ∧
      s'.Shows (i + rest.length) (rest.foldl absorb output) [] := by
  induction rest generalizing s i output with
  | nil => exact ⟨s, rfl, h⟩
  | cons x rest ih =>
    obtain ⟨s', hstep, hshows⟩ := h.exists_step_eq
    obtain ⟨s'', hrest, hend⟩ := ih hshows
    refine ⟨s'', ?_, ?_⟩
    · rw [List.length_cons, List.range'_succ, List.foldlM_cons, hstep]
      exact hrest
    · rw [List.length_cons, Nat.add_comm rest.length 1, ← Nat.add_assoc]
      exact hend

theorem foldl_absorb_concat (front : List α) (last : α) (xs : List α) :
    xs.foldl absorb (front ++ [last]) = front ++ mergeFrom last (nonempty xs) := by
  induction xs generalizing front last with
  | nil => rfl
  | cons x xs ih =>
    rw [List.foldl_cons]
    cases hempty : isEmpty x with
    | true => rw [absorb_of_isEmpty hempty, nonempty_cons_of_isEmpty hempty, ih]
    | false =>
      rw [nonempty_cons_of_not_isEmpty hempty]
      cases htouch : touches last x with
      | true => rw [absorb_touching hempty htouch, mergeFrom_touching htouch, ih]
      | false =>
        rw [absorb_apart hempty htouch, mergeFrom_apart htouch, ih, List.append_assoc]
        rfl

theorem foldl_absorb_nil (xs : List α) : xs.foldl absorb [] = merge (nonempty xs) := by
  induction xs with
  | nil => rfl
  | cons x xs ih =>
    rw [List.foldl_cons]
    cases hempty : isEmpty x with
    | true => rw [absorb_of_isEmpty hempty, nonempty_cons_of_isEmpty hempty, ih]
    | false =>
      rw [absorb_nil hempty, nonempty_cons_of_not_isEmpty hempty]
      exact foldl_absorb_concat [] x xs

end Scan

/-- Compacting in place gives what merging the intervals that are not empty gives. -/
theorem compact?_eq [Interval α] (cells : List α) :
    compact? cells = some (merge (nonempty cells)) := by
  have hstart : (⟨cells, 0⟩ : Scan α).Shows 0 [] cells := ⟨[], rfl, rfl, rfl⟩
  obtain ⟨s, hscan, skipped, hcells, hkept, _⟩ := hstart.exists_foldlM_eq
  rw [compact?, List.range_eq_range', hscan]
  show some (s.cells.take s.kept) = _
  rw [hcells, hkept, List.take_left, Scan.foldl_absorb_nil]

/-- The canonical list is what compacting the sorted list gives. -/
theorem compact?_sort [Interval α] (xs : List α) :
    compact? (sort xs) = some (canonicalize xs) := compact?_eq (sort xs)

end RangeUnion
