import RangeUnion.Proofs.Layout.Frame

/-!
# Bytes that agree up to some bits

A stored value has bits that no reader looks at. `Agree slack a b` says that two byte strings
differ in such bits only, which are the ones set in `slack`.
-/

namespace RangeUnion.Layout

/-- `a` and `b` are as long as `slack` and agree but for the bits that are set in it. -/
def Agree : (slack a b : Bytes) → Prop
  | m :: slack, x :: a, y :: b => x ||| m = y ||| m ∧ Agree slack a b
  | [], [], [] => True
  | _, _, _ => False

variable {slack slack' a a' b b' c : Bytes}

instance Agree.decidable : ∀ slack a b : Bytes, Decidable (Agree slack a b)
  | m :: slack, x :: a, y :: b =>
    have := Agree.decidable slack a b
    inferInstanceAs (Decidable (x ||| m = y ||| m ∧ Agree slack a b))
  | [], [], [] => isTrue trivial
  | [], [], _ :: _ | [], _ :: _, _ | _ :: _, [], _ | _ :: _, _ :: _, [] => isFalse id

@[simp] theorem agree_nil_left : Agree [] a b ↔ a = [] ∧ b = [] := by
  cases a <;> cases b <;> simp [Agree]

theorem agree_cons_right {m y : UInt8} : Agree (m :: slack) c (y :: b) ↔
    ∃ x a, c = x :: a ∧ x ||| m = y ||| m ∧ Agree slack a b := by
  cases c with
  | nil => simp [Agree]
  | cons x a =>
    constructor
    · intro h
      exact ⟨x, a, rfl, h.1, h.2⟩
    · rintro ⟨_, _, heq, h⟩
      cases heq
      exact h

theorem Agree.length_eq (h : Agree slack a b) : a.length = b.length := by
  induction slack generalizing a b with
  | nil =>
    obtain ⟨rfl, rfl⟩ := agree_nil_left.1 h
    rfl
  | cons m slack ih =>
    cases b with
    | nil => cases a <;> exact h.elim
    | cons y b =>
      obtain ⟨x, a, rfl, _, h⟩ := agree_cons_right.1 h
      rw [List.length_cons, List.length_cons, ih h]

/-- What agrees with two parts is made of two parts that agree. -/
theorem agree_append (hb : b.length = slack.length) : Agree (slack ++ slack') c (b ++ b') ↔
    ∃ a a', c = a ++ a' ∧ Agree slack a b ∧ Agree slack' a' b' := by
  induction slack generalizing b c with
  | nil =>
    obtain rfl := List.length_eq_zero_iff.1 hb
    constructor
    · intro h
      exact ⟨[], c, rfl, trivial, h⟩
    · rintro ⟨a, a', rfl, ha, ha'⟩
      obtain ⟨rfl, _⟩ := agree_nil_left.1 ha
      exact ha'
  | cons m slack ih =>
    cases b with
    | nil => simp at hb
    | cons y b =>
      have hb' : b.length = slack.length := by simpa using hb
      simp only [List.cons_append, agree_cons_right, ih hb']
      constructor
      · rintro ⟨x, _, rfl, hx, a, a', rfl, ha, ha'⟩
        exact ⟨x :: a, a', rfl, ⟨x, a, rfl, hx, ha⟩, ha'⟩
      · rintro ⟨_, a', rfl, ⟨x, a, rfl, hx, ha⟩, ha'⟩
        exact ⟨x, a ++ a', rfl, hx, a, a', rfl, ha, ha'⟩

/-- Without slack, only equal bytes agree. -/
theorem agree_zero : Agree (List.replicate b.length 0) a b ↔ a = b := by
  induction b generalizing a with
  | nil => simp
  | cons y b ih =>
    rw [List.length_cons, List.replicate_succ, agree_cons_right]
    simp only [ih, UInt8.or_zero]
    constructor
    · rintro ⟨x, a, rfl, rfl, rfl⟩
      rfl
    · rintro rfl
      exact ⟨y, b, rfl, rfl, rfl⟩

theorem agree_zero_append {n : Nat} (h : b.length = n) :
    Agree (List.replicate n 0 ++ slack) c (b ++ b') ↔ ∃ a, c = b ++ a ∧ Agree slack a b' := by
  subst h
  rw [agree_append (List.length_replicate ..).symm]
  simp only [agree_zero]
  constructor
  · rintro ⟨_, a, rfl, rfl, ha⟩
    exact ⟨a, rfl, ha⟩
  · rintro ⟨a, rfl, ha⟩
    exact ⟨b, a, rfl, rfl, ha⟩

/-- With nothing but slack, bytes agree with all others of their length. -/
theorem agree_free {n : Nat} (h : b.length = n) :
    Agree (List.replicate n 0xFF) a b ↔ a.length = n := by
  subst h
  constructor
  · exact Agree.length_eq
  · intro h
    induction b generalizing a with
    | nil =>
      obtain rfl := List.length_eq_zero_iff.1 h
      trivial
    | cons y b ih =>
      cases a with
      | nil => simp at h
      | cons x a =>
        refine agree_cons_right.2 ⟨x, a, rfl, ?_, ih (by simpa using h)⟩
        have hall : ∀ z : UInt8, z ||| 0xFF = 0xFF := fun z => UInt8.or_neg_one
        rw [hall, hall]

end RangeUnion.Layout
