import RangeUnion.Proofs.Multirange.Hash
import RangeUnion.Proofs.Multirange.Unchecked

/-!
# Comparisons that do not contradict each other

The test for equality reads the slots that the order reads, up to the same difference or failure, so
on multiranges of one length it is the order with less said (`tryEq_of_length_eq`). Only where the
lengths differ does it stop short of the slots, and there the order is never `eq`. So no outcome of
the one contradicts an outcome of the other, failures included, and the operators follow
(`comparisons_consistent`). With a fresh budget a comparison fails only between two types or at a
slot that cannot be read (`tryCompare_initial_eq_error_iff`).
-/

namespace RangeUnion

/-- Under the budget `depth`, any two intervals can be compared, and only equal ones are found
equal. -/
def Interval.Decides (α : Type) [Interval α] (depth : Depth) : Prop :=
  ∀ x y : α, ∃ o, Interval.orderWithin depth x y = .ok o ∧ (o = .eq ↔ x = y)

theorem IntSpan.decides (depth : Depth) : Interval.Decides IntSpan depth :=
  fun s t => ⟨s.order t, rfl, Std.LawfulEqCmp.compare_eq_iff_eq⟩

theorem Metered.decides {depth : Depth} (h : 0 < depth.remaining) :
    Interval.Decides Metered depth := by
  rintro ⟨s⟩ ⟨t⟩
  refine ⟨s.order t, ?_, ?_⟩
  · show (do discard depth.enter; return s.order t : Except Error Ordering) = _
    rw [Depth.enter_eq_ok_iff.2 ⟨h, rfl⟩]
    rfl
  · rw [Metered.mk.injEq]
    exact Std.LawfulEqCmp.compare_eq_iff_eq

namespace Multirange

variable {α : Type} [Interval α] {a b : Multirange α} {depth : Depth} {o : Ordering} {e : Error}

/-! ## Equality and order -/

theorem tryCompare_eq_ok_iff : tryCompare a b depth = .ok o ↔
    ∃ deeper, depth.enter = .ok deeper ∧ a.tag = b.tag ∧
      ∃ p, orderItems deeper a.items b.items = .ok p ∧
        p.then (compare a.length b.length) = o := by
  unfold tryCompare sameType
  simp only [bind_eq_ok_iff]
  constructor
  · rintro ⟨deeper, henter, _, htag, p, horder, heq⟩
    split at htag
    · next hsame => exact ⟨deeper, henter, hsame, p, horder, Except.ok.inj heq⟩
    · cases htag
  · rintro ⟨deeper, henter, hsame, p, horder, rfl⟩
    exact ⟨deeper, henter, (), if_pos hsame, p, horder, rfl⟩

/-- Between multiranges of one length, the test for equality is the order with less said. -/
theorem tryEq_of_length_eq (h : a.length = b.length) :
    tryEq a b depth = (tryCompare a b depth).map (· == .eq) := by
  unfold tryEq tryCompare
  cases depth.enter with
  | error e => rfl
  | ok deeper =>
    cases sameType a b with
    | error e => rfl
    | ok _ =>
      show (if a.length ≠ b.length then .ok false else sameItems deeper a.items b.items) =
        Except.map (· == .eq) (orderItems deeper a.items b.items >>=
          fun o => .ok (o.then (compare a.length b.length)))
      rw [if_neg (not_not.2 h), sameItems_eq_map, Nat.compare_eq_eq.2 h]
      cases orderItems deeper a.items b.items with
      | error e => rfl
      | ok o => cases o <;> rfl

theorem tryEq_of_length_ne (hdepth : 0 < depth.remaining) (htag : a.tag = b.tag)
    (h : a.length ≠ b.length) : tryEq a b depth = .ok false := by
  unfold tryEq sameType
  rw [Depth.enter_eq_ok_iff.2 ⟨hdepth, rfl⟩, if_pos htag]
  exact if_pos h

theorem length_eq_of_tryCompare (h : tryCompare a b depth = .ok .eq) : a.length = b.length :=
  (exists_orderItems_of_tryCompare h).1

theorem tryEq_of_tryCompare (h : tryCompare a b depth = .ok o) :
    tryEq a b depth = .ok (o == .eq) := by
  by_cases hlength : a.length = b.length
  · rw [tryEq_of_length_eq hlength, h]
    rfl
  · obtain ⟨deeper, henter, htag, _⟩ := tryCompare_eq_ok_iff.1 h
    have hne : o ≠ .eq := by
      rintro rfl
      exact hlength (length_eq_of_tryCompare h)
    rw [tryEq_of_length_ne (Depth.enter_eq_ok_iff.1 henter).1 htag hlength,
      beq_eq_false_iff_ne.2 hne]

theorem tryEq_eq_true_iff : tryEq a b depth = .ok true ↔ tryCompare a b depth = .ok .eq := by
  constructor
  · intro h
    have hlength := (exists_orderItems_of_tryEq h).1
    rw [tryEq_of_length_eq hlength, map_eq_ok_iff] at h
    obtain ⟨o, ho, heq⟩ := h
    rw [ho, eq_of_beq heq]
  · exact tryEq_of_tryCompare

theorem tryEq_eq_error_iff (h : a.length = b.length) :
    tryEq a b depth = .error e ↔ tryCompare a b depth = .error e := by
  rw [tryEq_of_length_eq h]
  cases tryCompare a b depth <;> simp [Except.map]

/-! ## Failures under a fresh budget -/

/-- A slot that cannot be read is met, with the failure `e`, before any difference and before
either list ends. -/
inductive Unread : List (Except Error α) → List (Except Error α) → Error → Prop where
  | left {e : Error} {as : List (Except Error α)} {item : Except Error α}
    {bs : List (Except Error α)} : Unread (.error e :: as) (item :: bs) e
  | right {x : α} {as : List (Except Error α)} {e : Error} {bs : List (Except Error α)} :
    Unread (.ok x :: as) (.error e :: bs) e
  | next {x : α} {as bs : List (Except Error α)} {e : Error} (h : Unread as bs e) :
    Unread (.ok x :: as) (.ok x :: bs) e

/-- Why two multiranges have no order: they are of two types, or a slot cannot be read. -/
def Incomparable (a b : Multirange α) (e : Error) : Prop :=
  (a.tag ≠ b.tag ∧ e = .typeMismatch a.tag b.tag) ∨ (a.tag = b.tag ∧ Unread a.items b.items e)

theorem orderItems_eq_error_iff (hdecides : Interval.Decides α depth)
    {as bs : List (Except Error α)} :
    orderItems depth as bs = .error e ↔ Unread as bs e := by
  constructor
  · intro h
    induction as generalizing bs with
    | nil => cases h
    | cons item as ih =>
      cases bs with
      | nil => cases h
      | cons item' bs =>
        cases item with
        | error e' =>
          cases h
          exact .left
        | ok x =>
          cases item' with
          | error e' =>
            cases h
            exact .right
          | ok y =>
            obtain ⟨o, ho, heq⟩ := hdecides x y
            simp only [orderItems, bind, Except.bind, ho] at h
            cases o with
            | lt => cases h
            | gt => cases h
            | eq =>
              -- the two intervals agree, so the failure lies further on
              obtain rfl := heq.1 rfl
              exact .next (ih h)
  · intro h
    induction h with
    | left => rfl
    | right => rfl
    | @next x as bs e _ ih =>
      obtain ⟨o, ho, heq⟩ := hdecides x x
      obtain rfl := heq.2 rfl
      simp only [orderItems, bind, Except.bind, ho]
      exact ih

theorem tryCompare_initial_eq_error_iff (hdecides : ∀ depth : Depth, 0 < depth.remaining →
    Interval.Decides α depth) : tryCompare a b .initial = .error e ↔ Incomparable a b e := by
  have henter : Depth.initial.enter = .ok ⟨1, 100⟩ := rfl
  unfold tryCompare sameType Incomparable
  rw [henter]
  by_cases htag : a.tag = b.tag
  · rw [if_pos htag]
    show (orderItems ⟨1, 100⟩ a.items b.items >>=
      fun o => .ok (o.then (compare a.length b.length))) = .error e ↔ _
    rw [← orderItems_eq_error_iff (hdecides ⟨1, 100⟩ (by decide))]
    cases orderItems ⟨1, 100⟩ a.items b.items <;> simp [bind, Except.bind, htag]
  · rw [if_neg htag]
    simp [bind, Except.bind, htag, eq_comm]

/-! ## Operators -/

theorem beq_eq_true_iff : (a == b) = true ↔ tryCompare a b .initial = .ok .eq := by
  rw [← tryEq_eq_true_iff]
  constructor
  · exact tryEq_of_beq
  · intro h
    simp only [BEq.beq, h]

theorem partialCompare_eq_some_iff : partialCompare a b = some o ↔
    tryCompare a b .initial = .ok o := by
  unfold partialCompare
  cases tryCompare a b .initial <;> simp [Except.toOption]

/-- The answers of `<`, `<=`, `==`, `!=`, `>=` and `>`. -/
def operators (a b : Multirange α) : List Bool :=
  [lt a b, le a b, a == b, a != b, ge a b, gt a b]

theorem beq_of_tryCompare (h : tryCompare a b .initial = .ok o) : (a == b) = (o == .eq) := by
  rw [Bool.eq_iff_iff, beq_eq_true_iff, h]
  simp

theorem operators_of_tryCompare (h : tryCompare a b .initial = .ok o) :
    operators a b = [o == .lt, o.isLE, o == .eq, o != .eq, o.isGE, o == .gt] := by
  have hpartial : partialCompare a b = some o := partialCompare_eq_some_iff.2 h
  unfold operators lt le ge gt
  rw [bne, beq_of_tryCompare h, hpartial]
  cases o <;> rfl

theorem operators_of_failure (h : tryCompare a b .initial = .error e) :
    operators a b = [false, false, false, true, false, false] := by
  have hpartial : partialCompare a b = none := by
    unfold partialCompare
    rw [h]
    rfl
  have hbeq : (a == b) = false := by
    rw [Bool.eq_false_iff, ne_eq, beq_eq_true_iff, h]
    exact fun heq => nomatch heq
  unfold operators lt le ge gt
  rw [bne, hbeq, hpartial]
  rfl

/-! ## Consistency -/

/-- No comparison of `a` with `b` contradicts another one. -/
structure Consistent (a b : Multirange α) : Prop where
  tryEq_of_tryCompare : ∀ depth o, tryCompare a b depth = .ok o →
    tryEq a b depth = .ok (o == .eq)
  tryCompare_of_tryEq : ∀ depth, tryEq a b depth = .ok true → tryCompare a b depth = .ok .eq
  failures_agree : a.length = b.length → ∀ depth e,
    tryEq a b depth = .error e ↔ tryCompare a b depth = .error e
  lengths_differ : a.length ≠ b.length → a.tag = b.tag → ∀ depth : Depth, 0 < depth.remaining →
    tryEq a b depth = .ok false ∧ tryCompare a b depth ≠ .ok .eq
  beq_iff : (a == b) = true ↔ partialCompare a b = some .eq
  one_of_three : ∀ o, tryCompare a b .initial = .ok o →
    [lt a b, a == b, gt a b].count true = 1
  operators_of_order : ∀ o, tryCompare a b .initial = .ok o →
    operators a b = [o == .lt, o.isLE, o == .eq, o != .eq, o.isGE, o == .gt]
  operators_of_failure : ∀ e, tryCompare a b .initial = .error e →
    operators a b = [false, false, false, true, false, false]
  failure_iff : ∀ e, tryCompare a b .initial = .error e ↔ Incomparable a b e

theorem consistent (hdecides : ∀ depth : Depth, 0 < depth.remaining → Interval.Decides α depth)
    (a b : Multirange α) : Consistent a b where
  tryEq_of_tryCompare _ _ := Multirange.tryEq_of_tryCompare
  tryCompare_of_tryEq _ := tryEq_eq_true_iff.1
  failures_agree hlength _ _ := tryEq_eq_error_iff hlength
  lengths_differ hlength htag _ hdepth :=
    ⟨tryEq_of_length_ne hdepth htag hlength, fun h => hlength (length_eq_of_tryCompare h)⟩
  beq_iff := beq_eq_true_iff.trans partialCompare_eq_some_iff.symm
  one_of_three o h := by
    have hpartial : partialCompare a b = some o := partialCompare_eq_some_iff.2 h
    unfold lt gt
    rw [beq_of_tryCompare h, hpartial]
    cases o <;> rfl
  operators_of_order _ := operators_of_tryCompare
  operators_of_failure _ := Multirange.operators_of_failure
  failure_iff _ := tryCompare_initial_eq_error_iff hdecides

/-- Equality, order and operators never contradict each other, whatever the types of the two
multiranges, whatever their slots hold, and whatever depth is left. -/
theorem comparisons_consistent : (∀ a b : Multirange IntSpan, Consistent a b) ∧
    (∀ a b : Multirange Metered, Consistent a b) :=
  ⟨consistent fun depth _ => IntSpan.decides depth, consistent fun _ => Metered.decides⟩

/-- Where a slot that cannot be read is met, both tests fail; where one multirange is empty no slot
is read, and neither fails. -/
theorem comparisons_consistent_unreadable :
    ∃ a b c : Multirange IntSpan,
      ofInterval ⟨4451⟩ (.between (some 5) (some 3)) = .ok a ∧
      ofInterval ⟨4451⟩ (.between (some 5) (some 8)) = .ok b ∧
      c = .empty ⟨4451⟩ ∧
      a.length = b.length ∧ tryCompare a b .initial = .error (.corruptValue .payloadOutOfOrder) ∧
      tryEq a b .initial = .error (.corruptValue .payloadOutOfOrder) ∧
      operators a b = [false, false, false, true, false, false] ∧
      tryCompare c a .initial = .ok .lt ∧ tryEq c a .initial = .ok false ∧
      operators c a = [true, true, false, true, false, false] := by
  obtain ⟨a, ha, hlength, hcompare, hbefore⟩ : ∃ a : Multirange IntSpan,
      ofInterval ⟨4451⟩ (.between (some 5) (some 3)) = .ok a ∧ a.length = 1 ∧
      (∀ b : Multirange IntSpan, ofInterval ⟨4451⟩ (.between (some 5) (some 8)) = .ok b →
        b.length = 1 ∧ tryCompare a b .initial = .error (.corruptValue .payloadOutOfOrder)) ∧
      tryCompare (.empty ⟨4451⟩) a .initial = .ok .lt := by
    simp only [ofInterval, ofList, canonicalize_singleton]
    refine ⟨_, rfl, rfl, ?_, rfl⟩
    rintro b ⟨⟩
    exact ⟨rfl, rfl⟩
  obtain ⟨b, hb⟩ := exists_ofList_eq_ok ⟨4451⟩
    (fits_of_length_lt (by decide) : Fits [IntSpan.between (some 5) (some 8)])
  obtain ⟨hlength', hfails⟩ := hcompare b hb
  have hsame : a.length = b.length := hlength.trans hlength'.symm
  have hab := comparisons_consistent.1 a b
  have hca := comparisons_consistent.1 (.empty ⟨4451⟩) a
  exact ⟨a, b, _, ha, hb, rfl, hsame, hfails,
    (hab.failures_agree hsame .initial _).2 hfails, hab.operators_of_failure _ hfails,
    hbefore, hca.tryEq_of_tryCompare .initial _ hbefore, hca.operators_of_order _ hbefore⟩

end Multirange

end RangeUnion
