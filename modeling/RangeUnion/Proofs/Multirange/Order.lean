import RangeUnion.Multirange.Order
import RangeUnion.Proofs.Multirange.Reachable

/-!
# The order of multiranges

Comparing two multiranges of one type compares the lists of their intervals, the first difference
first, and a proper prefix comes before the list (`tryCompare_eq`). The order of intervals is
linear, so the order of lists is. It tells two multiranges apart exactly if their intervals differ
(`tryEq_eq` says the same of the test for equality), and exactly if the sets that they denote do,
since a canonical list is determined by its set (`tryCompare_linear`).
-/

namespace RangeUnion.Multirange

open IntSpan

variable {a b c m : Multirange IntSpan} {xs ys zs : List IntSpan} {s t : IntSpan} {depth : Depth}

theorem Sound.spaced (h : Sound m xs) : Spaced xs := by
  have hgap : Consecutive Gap (xs.map id) := h.gap
  rw [List.map_id] at hgap
  exact ⟨fun s hs => ⟨h.wellFormed s hs, h.ne_empty s hs⟩, hgap⟩

theorem sound_empty (tag : Tag) : Sound (empty tag : Multirange IntSpan) [] := by
  obtain ⟨xs, h⟩ := (Reachable.empty tag : Reachable (empty tag : Multirange IntSpan)).exists_sound
  have hlength : xs.length = 0 := h.length_eq.symm
  rw [List.eq_nil_of_length_eq_zero hlength] at h
  exact h

/-! ## Comparing item by item -/

theorem sameItems_cons (as bs : List (Except Error IntSpan)) :
    sameItems depth (.ok s :: as) (.ok t :: bs) =
      if s.order t = .eq then sameItems depth as bs else .ok false := by
  show (if s.order t == .eq then sameItems depth as bs else .ok false) = _
  simp only [beq_iff_eq]

theorem orderItems_cons (as bs : List (Except Error IntSpan)) :
    orderItems depth (.ok s :: as) (.ok t :: bs) =
      if s.order t = .eq then orderItems depth as bs else .ok (s.order t) := by
  have hwithin : Interval.orderWithin depth s t = .ok (s.order t) := rfl
  simp only [orderItems, bind, Except.bind, hwithin]
  cases s.order t <;> rfl

theorem sameItems_eq (h : xs.length = ys.length) :
    sameItems depth (xs.map .ok) (ys.map .ok) = .ok (decide (xs = ys)) := by
  induction xs generalizing ys with
  | nil =>
    rw [List.eq_nil_of_length_eq_zero h.symm]
    rfl
  | cons s xs ih =>
    cases ys with
    | nil => cases h
    | cons t ys =>
      rw [List.map_cons, List.map_cons, sameItems_cons, ih (Nat.succ.inj h)]
      by_cases hst : s.order t = .eq
      · rw [if_pos hst, Std.LawfulEqCmp.eq_of_compare hst]
        simp
      · have hne : s ≠ t := fun heq => hst (Std.LawfulEqCmp.compare_eq_iff_eq.2 heq)
        rw [if_neg hst]
        simp [hne]

/-- Comparing item by item, and then by length, is comparing the lists. -/
theorem orderItems_eq (xs ys : List IntSpan) :
    (orderItems depth (xs.map .ok) (ys.map .ok)).map
        (fun o => o.then (compare xs.length ys.length)) = .ok (List.compareLex order xs ys) := by
  induction xs generalizing ys with
  | nil =>
    cases ys with
    | nil => rfl
    | cons t ys =>
      show Except.ok (compare 0 (ys.length + 1)) = _
      rw [List.compareLex_nil_cons, Nat.compare_eq_lt.2 (Nat.succ_pos _)]
  | cons s xs ih =>
    cases ys with
    | nil =>
      show Except.ok (compare (xs.length + 1) 0) = _
      rw [List.compareLex_cons_nil, Nat.compare_eq_gt.2 (Nat.succ_pos _)]
    | cons t ys =>
      rw [List.map_cons, List.map_cons, orderItems_cons, List.compareLex_cons_cons]
      by_cases hst : s.order t = .eq
      · have hlength : compare (s :: xs).length (t :: ys).length = compare xs.length ys.length := by
          simp [Nat.compare_eq_ite_lt]
        rw [if_pos hst, hst, hlength]
        exact ih ys
      · rw [if_neg hst]
        cases horder : s.order t with
        | eq => exact absurd horder hst
        | lt => rfl
        | gt => rfl

theorem tryEq_eq (ha : Sound a xs) (hb : Sound b ys) (htag : a.tag = b.tag)
    (hdepth : 0 < depth.remaining) : tryEq a b depth = .ok (decide (xs = ys)) := by
  unfold tryEq sameType
  rw [Depth.enter_eq_ok_iff.2 ⟨hdepth, rfl⟩, if_pos htag, ha.items_eq, hb.items_eq, ha.length_eq,
    hb.length_eq]
  show (if xs.length ≠ ys.length then .ok false else sameItems _ (xs.map .ok) (ys.map .ok)) = _
  by_cases hlength : xs.length = ys.length
  · rw [if_neg (not_not.2 hlength), sameItems_eq hlength]
  · have hne : xs ≠ ys := fun heq => hlength (congrArg List.length heq)
    rw [if_pos hlength]
    simp [hne]

theorem tryCompare_eq (ha : Sound a xs) (hb : Sound b ys) (htag : a.tag = b.tag)
    (hdepth : 0 < depth.remaining) :
    tryCompare a b depth = .ok (List.compareLex order xs ys) := by
  unfold tryCompare sameType
  rw [Depth.enter_eq_ok_iff.2 ⟨hdepth, rfl⟩, if_pos htag, ha.items_eq, hb.items_eq, ha.length_eq,
    hb.length_eq, ← orderItems_eq]
  rfl

/-! ## The order of lists -/

theorem compareLex_append (front xs ys : List IntSpan) :
    List.compareLex order (front ++ xs) (front ++ ys) = List.compareLex order xs ys := by
  induction front with
  | nil => rfl
  | cons s front ih =>
    have hself : s.order s = .eq := Std.ReflCmp.compare_self
    rw [List.cons_append, List.cons_append, List.compareLex_cons_cons, ih, hself]
    rfl

theorem compareLex_of_prefix (h : xs <+: ys) (hne : xs ≠ ys) :
    List.compareLex order xs ys = .lt := by
  obtain ⟨rest, rfl⟩ := h
  cases rest with
  | nil => exact absurd (List.append_nil xs).symm hne
  | cons s rest =>
    have happend := compareLex_append xs [] (s :: rest)
    rwa [List.append_nil, List.compareLex_nil_cons] at happend

theorem compareLex_of_difference (front : List IntSpan) (h : s ≠ t) :
    List.compareLex order (front ++ s :: xs) (front ++ t :: ys) = s.order t := by
  rw [compareLex_append, List.compareLex_cons_cons]
  cases horder : s.order t with
  | eq => exact absurd (Std.LawfulEqCmp.eq_of_compare horder) h
  | lt => rfl
  | gt => rfl

/-! ## A linear order on sets -/

/-- `o` is the order of `a` with the intervals `xs` and `b` with the intervals `ys`. -/
structure Compares (a b : Multirange IntSpan) (xs ys : List IntSpan) (depth : Depth)
    (o : Ordering) : Prop where
  toList_left : a.toList = .ok xs
  toList_right : b.toList = .ok ys
  tryCompare_eq : tryCompare a b depth = .ok o
  tryCompare_swap : tryCompare b a depth = .ok o.swap
  eq_iff : o = .eq ↔ xs = ys
  eq_iff_points : o = .eq ↔ points xs = points ys
  lt_of_prefix : xs <+: ys → xs ≠ ys → o = .lt
  empty_first : tryCompare (empty a.tag) a depth = .ok (if xs = [] then .eq else .lt)
  first_difference : ∀ front s t xs' ys', xs = front ++ s :: xs' → ys = front ++ t :: ys' →
    s ≠ t → o = (compare s.start t.start).then (compare s.stop t.stop)

theorem Sound.compares (ha : Sound a xs) (hb : Sound b ys) (htag : a.tag = b.tag)
    (hdepth : 0 < depth.remaining) :
    Compares a b xs ys depth (List.compareLex order xs ys) where
  toList_left := ha.toList_eq
  toList_right := hb.toList_eq
  tryCompare_eq := Multirange.tryCompare_eq ha hb htag hdepth
  tryCompare_swap := by
    rw [Multirange.tryCompare_eq hb ha htag.symm hdepth, ← Std.OrientedCmp.eq_swap]
  eq_iff := Std.LawfulEqCmp.compare_eq_iff_eq
  eq_iff_points := by
    rw [Std.LawfulEqCmp.compare_eq_iff_eq]
    constructor
    · intro h
      rw [h]
    · exact eq_of_points_eq ha.spaced hb.spaced
  lt_of_prefix := compareLex_of_prefix
  empty_first := by
    rw [Multirange.tryCompare_eq (sound_empty a.tag) ha (tag_empty a.tag) hdepth]
    cases xs with
    | nil => rfl
    | cons s xs => rfl
  first_difference := by
    rintro front s t xs' ys' rfl rfl hne
    have hs : s ≠ .empty := ha.ne_empty s (by simp)
    have ht : t ≠ .empty := hb.ne_empty t (by simp)
    rw [compareLex_of_difference front hne, order_eq hs ht]

/-- Multiranges of one type are linearly ordered: by the first interval that differs, a prefix
first, the empty one before all others. Two are equal in the order if and only if they denote the
same set. -/
theorem tryCompare_linear (ha : Reachable a) (hb : Reachable b) (hc : Reachable c)
    (hab : a.tag = b.tag) (hbc : b.tag = c.tag) (hdepth : 0 < depth.remaining) :
    ∃ xs ys zs o p q, Compares a b xs ys depth o ∧ Compares b c ys zs depth p ∧
      Compares a c xs zs depth q ∧ (o.isLE → p.isLE → q.isLE ∧ (o = .lt ∨ p = .lt → q = .lt)) := by
  obtain ⟨xs, hxs⟩ := ha.exists_sound
  obtain ⟨ys, hys⟩ := hb.exists_sound
  obtain ⟨zs, hzs⟩ := hc.exists_sound
  refine ⟨xs, ys, zs, _, _, _, hxs.compares hys hab hdepth, hys.compares hzs hbc hdepth,
    hxs.compares hzs (hab.trans hbc) hdepth, fun hle hle' => ⟨?_, ?_⟩⟩
  · exact Std.TransCmp.isLE_trans hle hle'
  · rintro (hlt | hlt)
    · exact Std.TransCmp.lt_of_lt_of_isLE hlt hle'
    · exact Std.TransCmp.lt_of_isLE_of_lt hle hlt

/-- An adopted value with altered bits, a built one with the same intervals and one that goes on
without end are ordered under a budget of one level. -/
theorem tryCompare_linear_adopted :
    ∃ a b c : Multirange IntSpan,
      adopt [48, 0, 0, 0, 99, 17, 0, 0, 2, 0, 0, 0, 1, 2, 3, 4,
        9, 0, 0, 0, 0xEE, 3, 0, 0, 0, 5, 6, 7, 8, 9, 10, 11,
        13, 0, 0, 0, 0xA0, 5, 0, 0, 0, 7, 0, 0, 0, 9, 9, 9] = .ok a ∧
      ofList ⟨4451⟩ [between (some 5) (some 7), between none (some 3)] = .ok b ∧
      ofList ⟨4451⟩ [between none (some 3), between (some 5) none] = .ok c ∧
      Reachable a ∧ Reachable b ∧ Reachable c ∧ a.tag = b.tag ∧ b.tag = c.tag ∧
      0 < (⟨4, 5⟩ : Depth).remaining ∧
      ∃ xs ys zs o p q, Compares a b xs ys ⟨4, 5⟩ o ∧ Compares b c ys zs ⟨4, 5⟩ p ∧
        Compares a c xs zs ⟨4, 5⟩ q ∧
        (o.isLE → p.isLE → q.isLE ∧ (o = .lt ∨ p = .lt → q = .lt)) := by
  obtain ⟨a, ha⟩ : ∃ a : Multirange IntSpan,
      adopt [48, 0, 0, 0, 99, 17, 0, 0, 2, 0, 0, 0, 1, 2, 3, 4,
        9, 0, 0, 0, 0xEE, 3, 0, 0, 0, 5, 6, 7, 8, 9, 10, 11,
        13, 0, 0, 0, 0xA0, 5, 0, 0, 0, 7, 0, 0, 0, 9, 9, 9] = .ok a := ⟨_, rfl⟩
  have hfits : Fits [between (some 5) (some 7), between none (some 3)] :=
    fits_of_length_lt (by decide)
  have hfits' : Fits [between none (some 3), between (some 5) none] :=
    fits_of_length_lt (by decide)
  obtain ⟨b, hb⟩ := exists_ofList_eq_ok ⟨4451⟩ hfits
  obtain ⟨c, hc⟩ := exists_ofList_eq_ok ⟨4451⟩ hfits'
  have hab : a.tag = b.tag := by
    rw [tag_of_ofList hb, tag, data_of_adopt ha]
    rfl
  have hbc : b.tag = c.tag := by rw [tag_of_ofList hb, tag_of_ofList hc]
  have ra : Reachable a := .adopt ha
  have rb : Reachable b := .ofList (by decide) hb
  have rc : Reachable c := .ofList (by decide) hc
  exact ⟨a, b, c, ha, hb, hc, ra, rb, rc, hab, hbc, by decide,
    tryCompare_linear ra rb rc hab hbc (by decide)⟩

end RangeUnion.Multirange
