import RangeUnion.Error

/-!
# Intervals of 32-bit integers

An interval of integers is empty or lies between two bounds, the lower one included and the
upper one not. A missing bound is infinite. An interval is well formed if its bounds, where
both are finite, ascend; then it denotes a non-empty set of integers (`IntSpan.Mem`) unless it
is `empty`.

`ofBounds` brings bounds that are included or excluded as marked into the half-open form.
-/

namespace RangeUnion

/-- An interval of integers in half-open form. -/
inductive IntSpan where
  | empty
  | between (lower upper : Option Int32)
  deriving DecidableEq, Repr, Inhabited

namespace IntSpan

/-! ## Bounds -/

/-- The lower bound lies below the upper bound; an infinite bound lies beyond every other. -/
def below : Option Int32 → Option Int32 → Bool
  | some l, some u => l < u
  | _, _ => true

/-- Lower bounds in ascending order; the infinite one comes first. -/
def lowerOrder : Option Int32 → Option Int32 → Ordering
  | none, none => .eq
  | none, some _ => .lt
  | some _, none => .gt
  | some a, some b => compare a b

/-- Upper bounds in ascending order; the infinite one comes last. -/
def upperOrder : Option Int32 → Option Int32 → Ordering
  | none, none => .eq
  | none, some _ => .gt
  | some _, none => .lt
  | some a, some b => compare a b

/-- The lower bound, if it is finite. -/
def lower : IntSpan → Option Int32
  | .empty => none
  | .between l _ => l

/-- The upper bound, if it is finite. -/
def upper : IntSpan → Option Int32
  | .empty => none
  | .between _ u => u

/-- The finite bounds, the lower one first. -/
def finiteBounds (s : IntSpan) : List Int32 := s.lower.toList ++ s.upper.toList

@[simp] theorem below_none_left (u : Option Int32) : below none u = true := rfl

@[simp] theorem below_none_right (l : Option Int32) : below l none = true := by cases l <;> rfl

@[simp] theorem below_some_some {l u : Int32} : below (some l) (some u) = true ↔ l < u := by
  simp [below]

/-! ## The integers of an interval -/

/-- `z` lies in `s`. -/
def Mem (s : IntSpan) (z : Int) : Prop :=
  match s with
  | .empty => False
  | .between l u => (∀ a ∈ l, a.toInt ≤ z) ∧ (∀ b ∈ u, z < b.toInt)

instance : Membership Int IntSpan := ⟨Mem⟩

@[simp] theorem not_mem_empty (z : Int) : z ∉ IntSpan.empty := id

theorem mem_between {z : Int} {l u : Option Int32} :
    z ∈ IntSpan.between l u ↔ (∀ a ∈ l, a.toInt ≤ z) ∧ (∀ b ∈ u, z < b.toInt) := Iff.rfl

/-- The bounds ascend if both are finite. -/
def WellFormed : IntSpan → Prop
  | .empty => True
  | .between l u => below l u

instance : DecidablePred WellFormed := fun s => by
  cases s <;> unfold WellFormed <;> infer_instance

/-- The 32-bit integer `v` lies in `s`. -/
def contains (s : IntSpan) (v : Int32) : Bool :=
  match s with
  | .empty => false
  | .between l u => l.all (· ≤ v) && u.all (v < ·)

theorem contains_iff (s : IntSpan) (v : Int32) : s.contains v = true ↔ v.toInt ∈ s := by
  cases s with
  | empty => simp [contains]
  | between l u =>
    cases l <;> cases u <;>
      simp [contains, mem_between, Int32.le_iff_toInt_le, Int32.lt_iff_toInt_lt]

/-! ## Building intervals -/

/-- The interval between two bounds, empty if they are finite and do not ascend. -/
def bounded (l u : Option Int32) : IntSpan := if below l u then .between l u else .empty

theorem wellFormed_bounded (l u : Option Int32) : (bounded l u).WellFormed := by
  unfold bounded
  split
  · assumption
  · trivial

theorem mem_bounded {z : Int} {l u : Option Int32} :
    z ∈ bounded l u ↔ (∀ a ∈ l, a.toInt ≤ z) ∧ (∀ b ∈ u, z < b.toInt) := by
  unfold bounded
  split
  · exact mem_between
  · next h =>
    cases l <;> cases u <;> simp at h
    next a b =>
      rw [Int32.le_iff_toInt_le] at h
      simp only [not_mem_empty, Option.mem_def, Option.some.injEq, forall_eq', false_iff]
      omega

/-- The integer after `v`, if it is a 32-bit integer. -/
def successor? (v : Int32) : Option Int32 := if v = Int32.maxValue then none else some (v + 1)

/-- Move a bound one up if it is so marked. -/
def shift (move : Bool) : Option Int32 → Except Error (Option Int32)
  | some v =>
    if move then
      match successor? v with
      | some w => .ok (some w)
      | none => .error (.invalidInterval .outOfRange)
    else .ok (some v)
  | none => .ok none

/-- Both bounds are finite and the lower one exceeds the upper one. -/
def reversed : Option Int32 → Option Int32 → Bool
  | some l, some u => u < l
  | _, _ => false

/-- The interval between bounds that are included as marked. -/
def ofBounds (lower : Option Int32) (lowerIncluded : Bool) (upper : Option Int32)
    (upperIncluded : Bool) : Except Error IntSpan :=
  if reversed lower upper then .error (.invalidInterval .reversed)
  else do
    let l ← shift (!lowerIncluded) lower
    let u ← shift upperIncluded upper
    return bounded l u

theorem toInt_successor? {v w : Int32} (h : successor? v = some w) :
    w.toInt = v.toInt + 1 := by
  unfold successor? at h
  split at h
  · simp at h
  · next hv =>
    cases h
    have hlt : v.toInt < 2 ^ 31 - 1 := by
      have hle := v.toInt_le
      have hne : v.toInt ≠ Int32.maxValue.toInt := fun he => hv (Int32.toInt_inj.1 he)
      have hmax : Int32.maxValue.toInt = 2 ^ 31 - 1 := by decide
      omega
    have hge := v.le_toInt
    rw [Int32.toInt_add]
    have hone : (1 : Int32).toInt = 1 := by decide
    rw [hone]
    exact Int.bmod_eq_of_le (by omega) (by omega)

/-! ## Order and touching -/

/-- Order by lower bound, then by upper bound; the empty interval comes first. -/
def order : IntSpan → IntSpan → Ordering
  | .empty, .empty => .eq
  | .empty, .between .. => .lt
  | .between .., .empty => .gt
  | .between l₁ u₁, .between l₂ u₂ => (lowerOrder l₁ l₂).then (upperOrder u₁ u₂)

/-- Each interval starts below the end of the other. -/
def overlaps : IntSpan → IntSpan → Bool
  | .between l₁ u₁, .between l₂ u₂ => below l₁ u₂ && below l₂ u₁
  | _, _ => false

/-- One interval ends where the other one starts. -/
def adjacent : IntSpan → IntSpan → Bool
  | .between l₁ u₁, .between l₂ u₂ =>
    (u₁.isSome && u₁ == l₂) || (u₂.isSome && u₂ == l₁)
  | _, _ => false

/-- The interval from the lower of the lower bounds to the upper of the upper bounds. -/
def hull : IntSpan → IntSpan → IntSpan
  | .empty, s => s
  | s, .empty => s
  | .between l₁ u₁, .between l₂ u₂ =>
    .between (if (lowerOrder l₁ l₂).isLE then l₁ else l₂)
      (if (upperOrder u₁ u₂).isGE then u₁ else u₂)

end IntSpan

end RangeUnion
