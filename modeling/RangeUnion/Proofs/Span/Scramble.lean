import Mathlib.Logic.Function.Basic
import RangeUnion.IntSpan.Hash

/-!
# What the hash of an interval tells apart

Every step of a hash can be undone. To shift a word and add it to itself bit by bit is linear with
a trivial kernel (`xorShift_injective`), an odd factor has an inverse (`mul_injective`), and a turn
moves every bit to a place of its own (`turn_injective`). All this is said once for words of any
width; the scramblings of 32 and of 64 bits are cases of it.

So the hash of an interval, as it takes its bounds in, is injective in what it had before and in
the bound that it takes in. Two intervals that differ in one finite bound have different hashes
(`hash32_ne`, `hash64_ne`), since a difference that has come in is never lost (`foldl_ne`).
-/

namespace RangeUnion

open Function

/-! ## Folds that keep differences -/

section

variable {β γ : Type} {step : β → γ → β}

theorem foldl_injective (hstep : ∀ x, Injective (step · x)) (xs : List γ) :
    Injective fun b => xs.foldl step b := by
  induction xs with
  | nil => exact injective_id
  | cons x xs ih => exact ih.comp (hstep x)

/-- A difference that is made on the way stays to the end. -/
theorem foldl_ne (hstep : ∀ x, Injective (step · x)) {x y : γ} (hxy : ∀ b, step b x ≠ step b y)
    (front back : List γ) (b : β) :
    (front ++ x :: back).foldl step b ≠ (front ++ y :: back).foldl step b := by
  rw [List.foldl_append, List.foldl_append, List.foldl_cons, List.foldl_cons]
  exact (foldl_injective hstep back).ne (hxy _)

end

namespace Scramble

variable {w : Nat}

/-! ## Steps on words of any width -/

/-- The word with itself, shifted to the right, added bit by bit. -/
def xorShift (k : Nat) (x : BitVec w) : BitVec w := x ^^^ x >>> k

/-- The word turned one bit to the left. -/
def turn (x : BitVec w) : BitVec w := (x <<< 1) ||| (x >>> (w - 1))

/-- The word scrambled by two factors and three shifts. -/
def mix (k₁ k₂ k₃ : Nat) (c₁ c₂ x : BitVec w) : BitVec w :=
  xorShift k₃ (xorShift k₂ (xorShift k₁ x * c₁) * c₂)

theorem xorShift_xor (k : Nat) (x y : BitVec w) :
    xorShift k (x ^^^ y) = xorShift k x ^^^ xorShift k y := by
  unfold xorShift
  rw [BitVec.ushiftRight_xor_distrib]
  ac_rfl

theorem eq_zero_of_xorShift {k : Nat} (hk : 0 < k) {x : BitVec w} (h : xorShift k x = 0#w) :
    x = 0#w := by
  have hshift : x = x >>> k := BitVec.xor_eq_zero_iff.1 h
  have hdiv : x.toNat = x.toNat / 2 ^ k := by
    rw [← Nat.shiftRight_eq_div_pow, ← BitVec.toNat_ushiftRight, ← hshift]
  have hpow : 1 < 2 ^ k := Nat.one_lt_two_pow (by omega)
  rcases Nat.eq_zero_or_pos x.toNat with hzero | hpos
  · exact BitVec.eq_of_toNat_eq hzero
  · exact absurd hdiv (Nat.ne_of_gt (Nat.div_lt_self hpos hpow))

theorem xorShift_injective {k : Nat} (hk : 0 < k) : Injective (xorShift (w := w) k) := by
  intro x y h
  have hzero : xorShift k (x ^^^ y) = 0#w := by
    rw [xorShift_xor, h, BitVec.xor_self]
  exact BitVec.xor_eq_zero_iff.1 (eq_zero_of_xorShift hk hzero)

theorem mul_injective {c d : BitVec w} (h : c * d = 1#w) : Injective fun x => x * c := by
  apply LeftInverse.injective (g := fun x => x * d)
  intro x
  show x * c * d = x
  rw [BitVec.mul_assoc, h, BitVec.mul_one]

theorem turn_injective : Injective (turn (w := w)) := by
  intro x y h
  apply BitVec.eq_of_getLsbD_eq
  intro i hi
  have hbit (j : Nat) : (turn x).getLsbD j = (turn y).getLsbD j := by rw [h]
  simp only [turn, BitVec.getLsbD_or, BitVec.getLsbD_shiftLeft, BitVec.getLsbD_ushiftRight] at hbit
  by_cases hlast : i + 1 = w
  · -- the last bit has gone to the place of the first
    have hw : w - 1 = i := by omega
    simpa [hw] using hbit 0
  · have hover (z : BitVec w) : z.getLsbD (w - 1 + (i + 1)) = false :=
      BitVec.getLsbD_of_ge _ _ (by omega)
    have hlt : i + 1 < w := by omega
    simpa [hover, hlt] using hbit (i + 1)

theorem mix_injective {k₁ k₂ k₃ : Nat} {c₁ c₂ d₁ d₂ : BitVec w} (hk₁ : 0 < k₁) (hk₂ : 0 < k₂)
    (hk₃ : 0 < k₃) (h₁ : c₁ * d₁ = 1#w) (h₂ : c₂ * d₂ = 1#w) :
    Injective (mix k₁ k₂ k₃ c₁ c₂) := by
  have hfirst : Injective fun x => xorShift k₁ x * c₁ :=
    (mul_injective h₁).comp (xorShift_injective hk₁)
  have hsecond : Injective fun x => xorShift k₂ x * c₂ :=
    (mul_injective h₂).comp (xorShift_injective hk₂)
  exact (xorShift_injective hk₃).comp (hsecond.comp hfirst)

/-! ## Words of 32 and of 64 bits -/

theorem toBitVec_word32 (x : UInt32) :
    (word32 x).toBitVec = mix 16 13 16 0x85ebca6b#32 0xc2b2ae35#32 x.toBitVec := rfl

theorem toBitVec_word64 (x : UInt64) :
    (word64 x).toBitVec =
      mix 33 33 33 0xff51afd7ed558ccd#64 0xc4ceb9fe1a85ec53#64 x.toBitVec := rfl

theorem word32_injective : Injective word32 := by
  have hmix : Injective (mix 16 13 16 0x85ebca6b#32 0xc2b2ae35#32) := by
    have h₁ : 0x85ebca6b#32 * 0xa5cb9243#32 = 1#32 := by decide
    have h₂ : 0xc2b2ae35#32 * 0x7ed1b41d#32 = 1#32 := by decide
    exact mix_injective (by decide) (by decide) (by decide) h₁ h₂
  intro x y h
  apply UInt32.toBitVec_inj.1
  apply hmix
  rw [← toBitVec_word32, ← toBitVec_word32, h]

theorem word64_injective : Injective word64 := by
  have hmix : Injective (mix 33 33 33 0xff51afd7ed558ccd#64 0xc4ceb9fe1a85ec53#64) := by
    have h₁ : 0xff51afd7ed558ccd#64 * 0x4f74430c22a54005#64 = 1#64 := by decide
    have h₂ : 0xc4ceb9fe1a85ec53#64 * 0x9cb4b2f8129337db#64 = 1#64 := by decide
    exact mix_injective (by decide) (by decide) (by decide) h₁ h₂
  intro x y h
  apply UInt64.toBitVec_inj.1
  apply hmix
  rw [← toBitVec_word64, ← toBitVec_word64, h]

theorem turn32_injective : Injective turn32 := by
  intro x y h
  exact UInt32.toBitVec_inj.1 (turn_injective (congrArg UInt32.toBitVec h))

theorem turn64_injective : Injective turn64 := by
  intro x y h
  exact UInt64.toBitVec_inj.1 (turn_injective (congrArg UInt64.toBitVec h))

end Scramble

namespace IntSpan

open Scramble

/-! ## Intervals that differ in one bound -/

/-- The intervals have finite bounds in the same places, and differ in one of them. -/
inductive OneBoundApart : IntSpan → IntSpan → Prop where
  | lower {a b : Int32} (u : Option Int32) (h : a ≠ b) :
    OneBoundApart (between (some a) u) (between (some b) u)
  | upper {a b : Int32} (l : Option Int32) (h : a ≠ b) :
    OneBoundApart (between l (some a)) (between l (some b))

variable {s t : IntSpan}

theorem OneBoundApart.flags_eq (h : OneBoundApart s t) : s.flags = t.flags := by
  cases h with
  | lower u h => cases u <;> rfl
  | upper l h => cases l <;> rfl

theorem OneBoundApart.exists_finiteBounds (h : OneBoundApart s t) : ∃ front a b back, a ≠ b ∧
    s.finiteBounds = front ++ a :: back ∧ t.finiteBounds = front ++ b :: back := by
  cases h with
  | @lower a b u h => exact ⟨[], a, b, u.toList, h, rfl, rfl⟩
  | @upper a b l h => exact ⟨l.toList, a, b, [], h, rfl, rfl⟩

/-- A fold over the bounds that loses neither a bound nor what it had before tells the intervals
apart. -/
theorem OneBoundApart.foldl_finiteBounds_ne {β : Type} (h : OneBoundApart s t)
    {step : β → Int32 → β} (hstep : ∀ v, Injective (step · v)) (hbound : ∀ b, Injective (step b))
    (start : UInt8 → β) :
    s.finiteBounds.foldl step (start s.flags) ≠ t.finiteBounds.foldl step (start t.flags) := by
  obtain ⟨front, a, b, back, hab, hs, ht⟩ := h.exists_finiteBounds
  rw [h.flags_eq, hs, ht]
  exact foldl_ne hstep (fun c => (hbound c).ne hab) front back _

theorem toUInt32_injective : Injective Int32.toUInt32 :=
  LeftInverse.injective Int32.toInt32_toUInt32

theorem hash32_ne (h : OneBoundApart s t) : s.hash32 ≠ t.hash32 := by
  refine h.foldl_finiteBounds_ne ?_ ?_ fun flags => word32 flags.toUInt32
  · intro v x y heq
    exact turn32_injective ((UInt32.xor_left_inj _).1 heq)
  · intro x a b heq
    exact toUInt32_injective (word32_injective ((UInt32.xor_right_inj _).1 heq))

theorem hash64_ne (h : OneBoundApart s t) (seed : UInt64) : s.hash64 seed ≠ t.hash64 seed := by
  refine h.foldl_finiteBounds_ne ?_ ?_ fun flags => word64 (flags.toUInt64 ^^^ seed)
  · intro v x y heq
    exact turn64_injective ((UInt64.xor_left_inj _).1 heq)
  · intro x a b heq
    have hword := word64_injective ((UInt64.xor_right_inj _).1 heq)
    exact toUInt32_injective (UInt32.toUInt64_inj.1 ((UInt64.xor_left_inj _).1 hword))

end IntSpan

end RangeUnion
