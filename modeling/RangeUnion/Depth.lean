import RangeUnion.Error

/-!
# The depth budget

The bounds of an interval may themselves be multiranges, so reading, printing and comparing can
nest. Each entry point first spends one level of a budget and hands the rest of the budget to
the interval functions that it calls.
-/

namespace RangeUnion

/-- A budget of nested entry points, of which `level` are spent. -/
structure Depth where
  level : Nat
  limit : Nat
  deriving DecidableEq, Repr

namespace Depth

/-- The number of nested entry points that are allowed where nothing else is said. -/
def defaultLimit : Nat := 100

/-- An unspent budget of `limit` levels. -/
def ofLimit (limit : Nat) : Depth := ⟨0, limit⟩

/-- An unspent budget of the default size. -/
def initial : Depth := ofLimit defaultLimit

/-- The levels still to be spent. -/
def remaining (depth : Depth) : Nat := depth.limit - depth.level

/-- Spend one level, if one is left. -/
def enter (depth : Depth) : Except Error Depth :=
  if depth.level < depth.limit then .ok { depth with level := depth.level + 1 }
  else .error (.stackDepthExceeded depth.limit)

/-- Spend `count` levels. -/
def enterTimes : Nat → Depth → Except Error Depth
  | 0, depth => .ok depth
  | count + 1, depth => depth.enter.bind (enterTimes count)

theorem enter_of_lt {depth : Depth} (h : depth.level < depth.limit) :
    depth.enter = .ok ⟨depth.level + 1, depth.limit⟩ := if_pos h

theorem enter_of_le {depth : Depth} (h : depth.limit ≤ depth.level) :
    depth.enter = .error (.stackDepthExceeded depth.limit) :=
  if_neg (Nat.not_lt.2 h)

/-- Entering succeeds as long as a level is left, and leaves one less. -/
theorem enter_eq_ok_iff {depth deeper : Depth} :
    depth.enter = .ok deeper ↔
      0 < depth.remaining ∧ deeper = ⟨depth.level + 1, depth.limit⟩ := by
  unfold remaining
  rcases Nat.lt_or_ge depth.level depth.limit with h | h
  · rw [enter_of_lt h]
    constructor
    · intro he
      cases he
      exact ⟨by omega, rfl⟩
    · rintro ⟨_, rfl⟩
      rfl
  · rw [enter_of_le h]
    constructor
    · intro he
      cases he
    · rintro ⟨hpos, _⟩
      omega

end Depth

end RangeUnion
