import RangeUnion.Metered
import RangeUnion.Multirange.Hash
import RangeUnion.Multirange.Order
import RangeUnion.Proofs.Multirange.Reachable

/-!
# Hashes of equal multiranges

Many stored values hold the same intervals: padding and some of the flag bits are free. A
comparison that finds two multiranges equal has read every slot of both, and has found the same
intervals in the same places (`exists_toList_eq`). The hashes depend on these intervals alone, so
they exist on both sides and agree (`hashAlike_of_foundEqual`).
-/

namespace RangeUnion

/-- Intervals that compare as equal are the same, whatever depth the comparison has left. -/
def Interval.Separates (α : Type) [Interval α] : Prop :=
  ∀ (depth : Depth) (x y : α), Interval.orderWithin depth x y = .ok .eq → x = y

theorem IntSpan.separates : Interval.Separates IntSpan := by
  intro depth s t h
  have horder : s.order t = .eq := Except.ok.inj h
  exact Std.LawfulEqCmp.eq_of_compare horder

/-- A metered comparison that gives an answer has compared the spans. -/
theorem Metered.separates : Interval.Separates Metered := by
  intro depth x y h
  obtain ⟨_, _, horder⟩ := bind_eq_ok_iff.1 h
  exact congrArg Metered.mk (Std.LawfulEqCmp.eq_of_compare (Except.ok.inj horder))

namespace Multirange

open IntSpan

variable {α : Type} [Interval α] {a b : Multirange α} {depth : Depth}

/-! ## What a comparison has read -/

/-- Testing items for equality is comparing them and forgetting which one comes first. -/
theorem sameItems_eq_map (depth : Depth) (as bs : List (Except Error α)) :
    sameItems depth as bs = (orderItems depth as bs).map (· == .eq) := by
  induction as generalizing bs with
  | nil => rfl
  | cons x as ih =>
    cases bs with
    | nil => rfl
    | cons y bs =>
      simp only [sameItems, orderItems, Interval.sameWithin, ih]
      cases x with
      | error e => rfl
      | ok x =>
        cases y with
        | error e => rfl
        | ok y =>
          simp only [bind, Except.bind]
          cases Interval.orderWithin depth x y with
          | error e => rfl
          | ok o => cases o <;> rfl

/-- Items that compare as equal all the way hold the same intervals. -/
theorem exists_items_eq (hsep : Interval.Separates α) {as bs : List (Except Error α)}
    (hlength : as.length = bs.length) (h : orderItems depth as bs = .ok .eq) :
    ∃ xs : List α, as = xs.map .ok ∧ bs = xs.map .ok := by
  induction as generalizing bs with
  | nil => exact ⟨[], rfl, List.eq_nil_of_length_eq_zero hlength.symm⟩
  | cons item as ih =>
    cases bs with
    | nil => cases hlength
    | cons item' bs =>
      simp only [orderItems, bind_eq_ok_iff] at h
      obtain ⟨x, rfl, y, rfl, o, horder, h⟩ := h
      cases o with
      | lt => cases h
      | gt => cases h
      | eq =>
        -- only here does the comparison go on to the next items
        obtain rfl := hsep depth x y horder
        obtain ⟨xs, rfl, rfl⟩ := ih (Nat.succ.inj hlength) h
        exact ⟨x :: xs, rfl, rfl⟩

/-! ## Ways to find two multiranges equal -/

/-- `a` and `b` are found equal under the budget `depth`, or by the operator. -/
def FoundEqual (a b : Multirange α) (depth : Depth) : Prop :=
  tryEq a b depth = .ok true ∨ (a == b) = true ∨ tryCompare a b depth = .ok .eq

theorem exists_orderItems_of_tryEq (h : tryEq a b depth = .ok true) :
    a.length = b.length ∧ ∃ deeper, orderItems deeper a.items b.items = .ok .eq := by
  obtain ⟨deeper, _, h⟩ := bind_eq_ok_iff.1 h
  obtain ⟨_, _, h⟩ := bind_eq_ok_iff.1 h
  by_cases hlength : a.length = b.length
  · rw [if_neg (not_not.2 hlength)] at h
    have hsame : sameItems deeper a.items b.items = .ok true := h
    rw [sameItems_eq_map] at hsame
    obtain ⟨o, ho, heq⟩ := map_eq_ok_iff.1 hsame
    rw [eq_of_beq heq] at ho
    exact ⟨hlength, deeper, ho⟩
  · rw [if_pos hlength] at h
    cases h

theorem exists_orderItems_of_tryCompare (h : tryCompare a b depth = .ok .eq) :
    a.length = b.length ∧ ∃ deeper, orderItems deeper a.items b.items = .ok .eq := by
  obtain ⟨deeper, _, h⟩ := bind_eq_ok_iff.1 h
  obtain ⟨_, _, h⟩ := bind_eq_ok_iff.1 h
  obtain ⟨o, horder, h⟩ := bind_eq_ok_iff.1 h
  have hthen : o.then (compare a.length b.length) = .eq := Except.ok.inj h
  obtain ⟨rfl, hlength⟩ := Ordering.then_eq_eq.1 hthen
  exact ⟨Nat.compare_eq_eq.1 hlength, deeper, horder⟩

theorem tryEq_of_beq (h : (a == b) = true) : tryEq a b .initial = .ok true := by
  simp only [BEq.beq] at h
  split at h
  · next answer htry => rw [htry, h]
  · cases h

/-- Multiranges that are found equal hold the same intervals. -/
theorem exists_toList_eq (hsep : Interval.Separates α) (h : FoundEqual a b depth) :
    ∃ xs, a.toList = .ok xs ∧ b.toList = .ok xs := by
  have hitems : a.length = b.length ∧
      ∃ deeper, orderItems deeper a.items b.items = .ok .eq := by
    rcases h with h | h | h
    · exact exists_orderItems_of_tryEq h
    · exact exists_orderItems_of_tryEq (tryEq_of_beq h)
    · exact exists_orderItems_of_tryCompare h
  obtain ⟨hlength, deeper, horder⟩ := hitems
  rw [← length_items a, ← length_items b] at hlength
  obtain ⟨xs, ha, hb⟩ := exists_items_eq hsep hlength horder
  exact ⟨xs, toList_eq_ok_iff.2 ha, toList_eq_ok_iff.2 hb⟩

/-! ## Hashes -/

/-- `a` and `b` have hashes, and the same ones. -/
structure HashAlike (a b : Multirange α) : Prop where
  hash32 : ∃ h, a.hash32 = .ok h ∧ b.hash32 = .ok h
  hash64 : ∀ seed, ∃ h, a.hash64 seed = .ok h ∧ b.hash64 seed = .ok h

theorem hashAlike_of_toList {xs : List α} (ha : a.toList = .ok xs) (hb : b.toList = .ok xs) :
    HashAlike a b where
  hash32 := by
    unfold Multirange.hash32
    rw [ha, hb]
    exact ⟨hashList32 xs, rfl, rfl⟩
  hash64 seed := by
    unfold Multirange.hash64
    rw [ha, hb]
    exact ⟨hashList64 seed xs, rfl, rfl⟩

theorem hashAlike_of_separates (hsep : Interval.Separates α) (h : FoundEqual a b depth) :
    HashAlike a b := by
  obtain ⟨xs, ha, hb⟩ := exists_toList_eq hsep h
  exact hashAlike_of_toList ha hb

/-- Multiranges that any comparison finds equal have the same hashes, whatever their bytes. -/
theorem hashAlike_of_foundEqual :
    (∀ (a b : Multirange IntSpan) (depth : Depth), FoundEqual a b depth → HashAlike a b) ∧
    (∀ (a b : Multirange Metered) (depth : Depth), FoundEqual a b depth → HashAlike a b) :=
  ⟨fun _ _ _ => hashAlike_of_separates IntSpan.separates,
    fun _ _ _ => hashAlike_of_separates Metered.separates⟩

/-- An adopted value with altered bits is found equal to a built one by its last level of depth,
and to another adopted one by the operator. -/
theorem hashAlike_adopted_altered :
    (∃ a b : Multirange IntSpan,
      adopt [48, 0, 0, 0, 99, 17, 0, 0, 2, 0, 0, 0, 1, 2, 3, 4,
        9, 0, 0, 0, 0xEE, 3, 0, 0, 0, 5, 6, 7, 8, 9, 10, 11,
        13, 0, 0, 0, 0xA0, 5, 0, 0, 0, 7, 0, 0, 0, 9, 9, 9] = .ok a ∧
      ofList ⟨4451⟩ [between none (some 3), between (some 5) (some 7)] = .ok b ∧
      a.data ≠ b.data ∧ FoundEqual a b ⟨4, 5⟩ ∧ HashAlike a b) ∧
    (∃ a b : Multirange Metered,
      adopt [32, 0, 0, 0, 99, 17, 0, 0, 1, 0, 0, 0, 7, 0, 0, 0,
        9, 0, 0, 0, 0xEE, 3, 0, 0, 0, 5, 6, 7, 8, 9, 10, 11] = .ok a ∧
      adopt [32, 0, 0, 0, 99, 17, 0, 0, 1, 0, 0, 0, 0, 0, 0, 0,
        9, 0, 0, 0, 0x08, 3, 0, 0, 0, 0, 0, 0, 0, 0, 0, 0] = .ok b ∧
      a.data ≠ b.data ∧ FoundEqual a b ⟨0, 0⟩ ∧ HashAlike a b) := by
  constructor
  · have hspaced : Spaced [between none (some 3), between (some 5) (some 7)] :=
      spaced_iff.2 (by decide)
    rw [ofList, canonicalize_of_spaced hspaced]
    refine ⟨_, _, rfl, rfl, by decide, ?_, hashAlike_of_foundEqual.1 _ _ ⟨4, 5⟩ ?_⟩
    all_goals exact .inl rfl
  · refine ⟨_, _, rfl, rfl, by decide, ?_, hashAlike_of_foundEqual.2 _ _ ⟨0, 0⟩ ?_⟩
    all_goals exact .inr (.inl rfl)

end Multirange

end RangeUnion
