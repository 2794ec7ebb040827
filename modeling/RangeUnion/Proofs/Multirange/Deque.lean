import RangeUnion.IntSpan.Interval
import RangeUnion.Multirange.Cursor
import RangeUnion.Proofs.Multirange.Store

/-!
# Cursors as queues with two ends

What is left of a cursor is a list, and the cursor is a queue of it with two ends: `next` takes the
head and `nextBack` the last element, as long as there is one. So after any calls in any order, what
was given at the front, what is left, and what was given at the back, read backwards, make up all
that the slots hold (`remaining_run`). What can be said of the answers of a cursor, at whatever
place of whatever run, follows from this (`Deque`), whether the slots can be read or not
(`reading_deque`).
-/

namespace RangeUnion

namespace Cursor

variable {α : Type}

/-! ## Calls -/

/-- A call on a cursor. -/
inductive Request where
  | next
  | nextBack
  | length
  | sizeHint
  deriving DecidableEq, Repr

/-- What a call answers. -/
inductive Answer (α : Type) where
  | item (given : Option (Except Error α))
  | length (count : Nat)
  | sizeHint (lower upper : Nat)
  deriving Repr

/-- The front has not passed the back, and the back is no farther than the slots go. -/
def Within (c : Cursor α) : Prop := c.front ≤ c.back ∧ c.back ≤ c.source.length

variable [Interval α]

/-- The answer to one call, and the cursor after it. -/
def ask (c : Cursor α) : Request → Answer α × Cursor α
  | .next => (.item c.next.1, c.next.2)
  | .nextBack => (.item c.nextBack.1, c.nextBack.2)
  | .length => (.length c.length, c)
  | .sizeHint => (.sizeHint c.sizeHint.1 c.sizeHint.2, c)

/-- The answers to calls one after the other, each with its call, and the cursor after them. -/
def run (c : Cursor α) : List Request → List (Request × Answer α) × Cursor α
  | [] => ([], c)
  | request :: script =>
    let rest := (c.ask request).2.run script
    ((request, (c.ask request).1) :: rest.1, rest.2)

/-- The items that were given at the front, in order. -/
def givenFront (log : List (Request × Answer α)) : List (Except Error α) :=
  log.filterMap fun
    | (.next, .item given) => given
    | _ => none

/-- The items that were given at the back, in order. -/
def givenBack (log : List (Request × Answer α)) : List (Except Error α) :=
  log.filterMap fun
    | (.nextBack, .item given) => given
    | _ => none

variable {c : Cursor α} {m : Multirange α}

omit [Interval α] in
theorem givenFront_next (given : Option (Except Error α)) (log : List (Request × Answer α)) :
    givenFront ((.next, .item given) :: log) = given.toList ++ givenFront log := by
  cases given <;> rfl

omit [Interval α] in
theorem givenBack_nextBack (given : Option (Except Error α)) (log : List (Request × Answer α)) :
    givenBack ((.nextBack, .item given) :: log) = given.toList ++ givenBack log := by
  cases given <;> rfl

/-! ## One call -/

omit [Interval α] in
theorem within_ofMultirange (m : Multirange α) : (ofMultirange m).Within :=
  ⟨Nat.zero_le _, Nat.le_refl _⟩

theorem length_remaining (h : c.Within) : c.remaining.length = c.length := by
  unfold remaining length
  rw [List.length_drop, List.length_take, Multirange.length_items, Nat.min_eq_left h.2]

theorem remaining_of_le (h : c.back ≤ c.front) : c.remaining = [] := by
  apply List.drop_eq_nil_of_le
  rw [List.length_take]
  omega

/-- The slot at the back is the last of those that remain. -/
theorem remaining_nextBack (h : c.front < c.back) (hb : c.back ≤ c.source.length) :
    ∃ item, c.nextBack = (some item, { c with back := c.back - 1 }) ∧
      c.remaining = ({ c with back := c.back - 1 } : Cursor α).remaining ++ [item] := by
  have hl : c.back - 1 < c.source.items.length := by rw [Multirange.length_items]; omega
  refine ⟨c.source.items[c.back - 1], ?_, ?_⟩
  · rw [nextBack, if_pos h, Multirange.get?_eq, List.getElem?_eq_getElem hl]
  · have htake : c.source.items.take c.back =
        c.source.items.take (c.back - 1) ++ [c.source.items[c.back - 1]] := by
      rw [← List.take_succ_eq_append_getElem hl, Nat.sub_add_cancel (Nat.zero_lt_of_lt h)]
    unfold remaining
    rw [htake, List.drop_append_of_le_length]
    rw [List.length_take]
    omega

/-- A call at the front takes the head of what is left. -/
theorem next_eq (h : c.Within) : c.next.1 = c.remaining.head? ∧
    c.next.2.remaining = c.remaining.tail ∧ c.next.2.Within ∧ c.next.2.source = c.source := by
  rcases Nat.lt_or_ge c.front c.back with hlt | hge
  · obtain ⟨item, hnext, hremaining⟩ := remaining_next hlt h.2
    rw [hnext, hremaining]
    exact ⟨rfl, rfl, ⟨hlt, h.2⟩, rfl⟩
  · have hnil := remaining_of_le hge
    rw [next_of_le hge]
    refine ⟨?_, ?_, h, rfl⟩ <;> rw [hnil] <;> rfl

/-- A call at the back takes the last element of what is left. -/
theorem nextBack_eq (h : c.Within) : c.nextBack.1 = c.remaining.getLast? ∧
    c.nextBack.2.remaining = c.remaining.dropLast ∧ c.nextBack.2.Within ∧
      c.nextBack.2.source = c.source := by
  rcases Nat.lt_or_ge c.front c.back with hlt | hge
  · obtain ⟨item, hnext, hremaining⟩ := remaining_nextBack hlt h.2
    rw [hnext, hremaining, List.getLast?_concat, List.dropLast_concat]
    have hwithin : c.front ≤ c.back - 1 ∧ c.back - 1 ≤ c.source.length := by
      have hback := h.2
      omega
    exact ⟨rfl, rfl, hwithin, rfl⟩
  · have hnil := remaining_of_le hge
    rw [nextBack_of_le hge]
    refine ⟨?_, ?_, h, rfl⟩ <;> rw [hnil] <;> rfl

/-! ## A run -/

/-- What was left is what is given at the front, what is left then, and what is given at the back,
read backwards. The induction is on the calls; it is the step that goes through the two ends. -/
theorem remaining_run (h : c.Within) (script : List Request) :
    c.remaining = givenFront (c.run script).1 ++
        ((c.run script).2.remaining ++ (givenBack (c.run script).1).reverse) ∧
      (c.run script).2.Within ∧ (c.run script).2.source = c.source := by
  induction script generalizing c with
  | nil =>
    refine ⟨?_, h, rfl⟩
    show c.remaining = [] ++ (c.remaining ++ [])
    rw [List.nil_append, List.append_nil]
  | cons request script ih =>
    cases request with
    | next =>
      obtain ⟨hgiven, hleft, hwithin, hsource⟩ := next_eq h
      obtain ⟨hrest, hwithin', hsource'⟩ := ih hwithin
      refine ⟨?_, hwithin', hsource'.trans hsource⟩
      show c.remaining = givenFront ((.next, .item c.next.1) :: (c.next.2.run script).1) ++
        ((c.next.2.run script).2.remaining ++ (givenBack (c.next.2.run script).1).reverse)
      rw [givenFront_next, List.append_assoc, ← hrest, hgiven, hleft]
      cases c.remaining <;> rfl
    | nextBack =>
      obtain ⟨hgiven, hleft, hwithin, hsource⟩ := nextBack_eq h
      obtain ⟨hrest, hwithin', hsource'⟩ := ih hwithin
      refine ⟨?_, hwithin', hsource'.trans hsource⟩
      show c.remaining = givenFront (c.nextBack.2.run script).1 ++
        ((c.nextBack.2.run script).2.remaining ++
          (givenBack ((.nextBack, .item c.nextBack.1) :: (c.nextBack.2.run script).1)).reverse)
      rw [givenBack_nextBack, List.reverse_append,
        ← List.append_assoc _ _ (c.nextBack.1.toList.reverse), ← List.append_assoc, ← hrest,
        hgiven, hleft]
      rcases List.eq_nil_or_concat c.remaining with hnil | ⟨front, item, hconcat⟩
      · rw [hnil]
        rfl
      · rw [hconcat, List.concat_eq_append, List.dropLast_concat, List.getLast?_concat]
        rfl
    | length => exact ih h
    | sizeHint => exact ih h

/-! ## Taking all that is left -/

omit [Interval α] in
/-- Draining by steps that each take the head of a list gives the list. -/
theorem drain_eq {step : Cursor α → Option (Except Error α) × Cursor α}
    (view : Cursor α → List (Except Error α))
    (hstep : ∀ c : Cursor α, c.Within → (step c).1 = (view c).head? ∧
      view (step c).2 = (view c).tail ∧ (step c).2.Within)
    (h : c.Within) {fuel : Nat} (hfuel : (view c).length ≤ fuel) :
    (drain step fuel c).1 = view c := by
  induction fuel generalizing c with
  | zero => exact (List.eq_nil_of_length_eq_zero (Nat.le_zero.1 hfuel)).symm
  | succ fuel ih =>
    obtain ⟨hgiven, hleft, hwithin⟩ := hstep c h
    unfold drain
    generalize step c = stepped at hgiven hleft hwithin ⊢
    obtain ⟨given, c'⟩ := stepped
    cases hview : view c with
    | nil =>
      rw [hview] at hgiven
      rw [show given = none from hgiven]
    | cons item items =>
      rw [hview] at hgiven hleft hfuel
      replace hleft : view c' = items := hleft
      have hrest : (drain step fuel c').1 = view c' :=
        ih hwithin (hleft ▸ Nat.le_of_succ_le_succ hfuel)
      rw [show given = some item from hgiven]
      show item :: (drain step fuel c').1 = item :: items
      rw [hrest, hleft]

theorem collect_eq (h : c.Within) : c.collect.1 = c.remaining := by
  refine drain_eq remaining (fun c h => ?_) h (Nat.le_of_eq (length_remaining h))
  obtain ⟨hgiven, hleft, hwithin, _⟩ := next_eq h
  exact ⟨hgiven, hleft, hwithin⟩

theorem collectBack_eq (h : c.Within) : c.collectBack.1 = c.remaining.reverse := by
  refine drain_eq (fun c => c.remaining.reverse) (fun c h => ?_) h ?_
  · obtain ⟨hgiven, hleft, hwithin, _⟩ := nextBack_eq h
    refine ⟨?_, ?_, hwithin⟩
    · rw [hgiven, List.head?_reverse]
    · show c.nextBack.2.remaining.reverse = c.remaining.reverse.tail
      rw [hleft, List.tail_reverse]
  · exact Nat.le_of_eq (List.length_reverse.trans (length_remaining h))

theorem collect_ofMultirange (m : Multirange α) : (ofMultirange m).collect.1 = m.items := by
  rw [collect_eq (within_ofMultirange m), remaining_ofMultirange]

/-! ## Any place of any run -/

/-- The cursor `c` on `m` has given `front` at its front and `back` at its back, as a queue with two
ends does. -/
structure Deque (m : Multirange α) (front back : List (Except Error α)) (c : Cursor α) : Prop where
  within : c.source = m ∧ c.front ≤ c.back ∧ c.back ≤ m.length
  items_eq : m.items = front ++ (c.remaining ++ back.reverse)
  length_le : front.length + back.length ≤ m.length
  front_eq : front.map some = (List.range front.length).map m.get?
  back_eq : back.map some = (List.range back.length).map fun j => m.get? (m.length - 1 - j)
  length_eq : c.length = m.length - front.length - back.length
  sizeHint_eq : c.sizeHint =
    (m.length - front.length - back.length, m.length - front.length - back.length)
  next_eq : c.next.1 =
    if front.length + back.length < m.length then m.get? front.length else none
  nextBack_eq : c.nextBack.1 =
    if front.length + back.length < m.length then m.get? (m.length - 1 - back.length) else none
  next_eq_none_iff : c.next.1 = none ↔ front.length + back.length = m.length
  nextBack_eq_none_iff : c.nextBack.1 = none ↔ front.length + back.length = m.length
  finished_iff : front.length + back.length = m.length ↔
    ∀ script, givenFront (c.run script).1 = [] ∧ givenBack (c.run script).1 = []
  collect_eq : c.collect.1 = c.remaining
  collectBack_eq : c.collectBack.1 = c.collect.1.reverse

/-- The elements of a front part of a list are those at the first places. -/
theorem map_some_eq_map_range {β : Type} {xs ys : List β} (h : xs <+: ys) :
    xs.map some = (List.range xs.length).map fun i => ys[i]? := by
  obtain ⟨zs, rfl⟩ := h
  apply List.ext_getElem (by simp)
  intro i hi hi'
  simp only [List.length_map] at hi
  simp [List.getElem?_append_left hi]

/-- The head of what stands in the middle of a list has its place behind the front. -/
theorem head?_of_append {β : Type} {xs front rest back : List β}
    (h : xs = front ++ (rest ++ back)) : rest.head? =
      if front.length + back.length < xs.length then xs[front.length]? else none := by
  have hlength : xs.length = front.length + (rest.length + back.length) := by
    rw [h, List.length_append, List.length_append]
  cases rest with
  | nil =>
    rw [if_neg]
    · rfl
    · rw [hlength, List.length_nil]
      omega
  | cons x rest =>
    rw [if_pos, h, List.getElem?_append_right (Nat.le_refl _), Nat.sub_self]
    · rfl
    · rw [hlength, List.length_cons]
      omega

/-- Where nothing is left, nothing is given any more. -/
theorem remaining_eq_nil_iff (h : c.Within) : c.remaining = [] ↔
    ∀ script, givenFront (c.run script).1 = [] ∧ givenBack (c.run script).1 = [] := by
  constructor
  · intro hnil script
    obtain ⟨hrun, _⟩ := remaining_run h script
    rw [hnil, List.nil_eq, List.append_eq_nil_iff, List.append_eq_nil_iff,
      List.reverse_eq_nil_iff] at hrun
    exact ⟨hrun.1, hrun.2.2⟩
  · intro hall
    obtain ⟨hnext, _⟩ := next_eq h
    have hgiven : c.next.1.toList ++ [] = [] := (givenFront_next _ _).symm.trans (hall [.next]).1
    rw [hnext] at hgiven
    cases hremaining : c.remaining with
    | nil => rfl
    | cons item items =>
      rw [hremaining] at hgiven
      cases hgiven

/-- The back of the slots is the front of the slots read backwards. -/
theorem getElem?_reverse_items (m : Multirange α) {j : Nat} (hj : j < m.length) :
    m.items.reverse[j]? = m.get? (m.length - 1 - j) := by
  rw [← Multirange.length_items] at hj
  rw [List.getElem?_reverse hj, Multirange.length_items, Multirange.get?_eq]

theorem deque_of_items_eq {front back : List (Except Error α)} (hsource : c.source = m)
    (h : c.Within) (hitems : m.items = front ++ (c.remaining ++ back.reverse)) :
    Deque m front back c := by
  have hreverse : m.items.reverse = back ++ (c.remaining.reverse ++ front.reverse) := by
    rw [hitems]
    simp only [List.reverse_append, List.reverse_reverse, List.append_assoc]
  have hlength : m.length = front.length + (c.length + back.length) := by
    rw [← Multirange.length_items, hitems, ← length_remaining h]
    simp only [List.length_append, List.length_reverse]
  have hcount : c.length = m.length - front.length - back.length := by omega
  have hnil : c.remaining = [] ↔ front.length + back.length = m.length := by
    rw [← List.length_eq_zero_iff, length_remaining h]
    omega
  have hhead := head?_of_append hitems
  have hlast := head?_of_append hreverse
  rw [Multirange.length_items, List.length_reverse, ← Multirange.get?_eq] at hhead
  rw [List.head?_reverse, List.length_reverse, List.length_reverse, Multirange.length_items,
    Nat.add_comm] at hlast
  obtain ⟨hnext, _⟩ := Cursor.next_eq h
  obtain ⟨hnextBack, _⟩ := Cursor.nextBack_eq h
  exact {
    within := hsource ▸ ⟨rfl, h⟩
    items_eq := hitems
    length_le := by omega
    front_eq := by
      rw [map_some_eq_map_range ⟨_, hitems.symm⟩]
      exact List.map_congr_left fun i _ => (Multirange.get?_eq m i).symm
    back_eq := by
      rw [map_some_eq_map_range ⟨_, hreverse.symm⟩]
      refine List.map_congr_left fun j hj => getElem?_reverse_items m ?_
      have hlt := List.mem_range.1 hj
      omega
    length_eq := hcount
    sizeHint_eq := by rw [← hcount]; rfl
    next_eq := hnext.trans hhead
    nextBack_eq := by
      rw [hnextBack, hlast]
      split
      · exact getElem?_reverse_items m (by omega)
      · rfl
    next_eq_none_iff := by rw [hnext, List.head?_eq_none_iff, hnil]
    nextBack_eq_none_iff := by rw [hnextBack, List.getLast?_eq_none_iff, hnil]
    finished_iff := by rw [← hnil, remaining_eq_nil_iff h]
    collect_eq := Cursor.collect_eq h
    collectBack_eq := by rw [Cursor.collectBack_eq h, Cursor.collect_eq h] }

/-- After any calls, a cursor is a queue with two ends. -/
theorem deque_run (m : Multirange α) (script : List Request) :
    Deque m (givenFront ((ofMultirange m).run script).1)
      (givenBack ((ofMultirange m).run script).1) ((ofMultirange m).run script).2 := by
  obtain ⟨hitems, hwithin, hsource⟩ := remaining_run (within_ofMultirange m) script
  rw [remaining_ofMultirange] at hitems
  exact deque_of_items_eq hsource hwithin hitems

end Cursor

namespace Multirange

variable {α : Type} [Interval α]

/-! ## Reading all slots -/

theorem toList_eq_ok_iff_get? {m : Multirange α} {xs : List α} :
    m.toList = .ok xs ↔ ∀ i, m.get? i = xs[i]?.map .ok := by
  simp only [toList_eq_ok_iff, get?_eq, List.ext_getElem?_iff, List.getElem?_map]

/-- The list of all intervals is missing because of the first slot that cannot be read. -/
theorem toList_eq_error_iff {m : Multirange α} {e : Error} : m.toList = .error e ↔
    ∃ i, m.get? i = some (.error e) ∧ ∀ j < i, ∃ x, m.get? j = some (.ok x) := by
  simp only [get?_eq]
  exact mapM_id_eq_error_iff

theorem last?_eq (m : Multirange α) : m.last? = m.get? (m.length - 1) := by
  unfold last?
  split
  · next hzero =>
    exact ((get?_eq_none_iff m _).2 (by omega)).symm
  · rfl

/-- A multirange is read from both ends as a queue of its slots, whether they can be read or not:
the single slots, the first and the last one, and the list of all intervals agree with it. -/
theorem reading_deque (m : Multirange α) :
    (∀ script, Cursor.Deque m (Cursor.givenFront ((Cursor.ofMultirange m).run script).1)
      (Cursor.givenBack ((Cursor.ofMultirange m).run script).1)
      ((Cursor.ofMultirange m).run script).2) ∧
    (∀ i, m.get? i = none ↔ m.length ≤ i) ∧ m.first? = m.get? 0 ∧
    m.last? = m.get? (m.length - 1) ∧
    m.toList = (Cursor.ofMultirange m).collect.1.mapM id ∧
    (∀ xs, m.toList = .ok xs ↔ ∀ i, m.get? i = xs[i]?.map .ok) ∧
    (∀ e, m.toList = .error e ↔
      ∃ i, m.get? i = some (.error e) ∧ ∀ j < i, ∃ x, m.get? j = some (.ok x)) := by
  refine ⟨Cursor.deque_run m, get?_eq_none_iff m, rfl, last?_eq m, ?_,
    fun _ => toList_eq_ok_iff_get?, fun _ => toList_eq_error_iff⟩
  rw [Cursor.collect_ofMultirange, toList]

/-- Three slots, of which the one in the middle cannot be read, are given from both ends. -/
theorem reading_deque_unreadable :
    ∃ (m : Multirange IntSpan) (c : Cursor IntSpan),
      ofList ⟨4451⟩ [.between none (some 2), .between (some 9) (some 5), .between (some 20) none] =
        .ok m ∧
      ((Cursor.ofMultirange m).run [.next, .length, .nextBack, .next, .nextBack]).2 = c ∧
      Cursor.Deque m [.ok (.between none (some 2)), .error (.corruptValue .payloadOutOfOrder)]
        [.ok (.between (some 20) none)] c := by
  have hsort : sort [IntSpan.between none (some 2), .between (some 9) (some 5),
      .between (some 20) none] =
      [.between none (some 2), .between (some 9) (some 5), .between (some 20) none] :=
    List.mergeSort_of_pairwise (by decide)
  rw [ofList, canonicalize, hsort]
  refine ⟨_, _, rfl, rfl, ?_⟩
  exact (reading_deque _).1 [.next, .length, .nextBack, .next, .nextBack]

end Multirange

end RangeUnion
