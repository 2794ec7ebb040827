import RangeUnion.Proofs.Multirange.Deque
import RangeUnion.Proofs.Multirange.Hash
import RangeUnion.Proofs.Multirange.Served
import RangeUnion.Proofs.Multirange.Unchecked

/-!
# Multiranges with slots that cannot be read

An interval whose bounds do not ascend can be stored and cannot be read back (`Unordered`). A value
with such slots still has a length, a tag and all its other intervals. Whatever reads the whole of a
multirange gives what reading the list of its intervals gives (`readAlike`): loops over the slots,
hashes, the literal and the message. So on a value that was built from any intervals they all fail
in the same way, with the failure of the first slot that cannot be read (`ofList_reads_alike`).
-/

namespace RangeUnion

namespace Cursor

variable {α β : Type} [Interval α]

/-- Go on with `step` from each interval that a cursor gives, up to the first failure. -/
def loop (step : β → α → β) : (fuel : Nat) → β → Cursor α → Except Error β
  | 0, b, _ => .ok b
  | fuel + 1, b, c =>
    match c.next with
    | (none, _) => .ok b
    | (some (.error e), _) => .error e
    | (some (.ok x), c) => loop step fuel (step b x) c

/-- A loop leaves off where reading what a cursor gives does. -/
theorem loop_eq_drain (step : β → α → β) (fuel : Nat) (b : β) (c : Cursor α) :
    loop step fuel b c = ((drain next fuel c).1.mapM id).map (List.foldl step b) := by
  induction fuel generalizing b c with
  | zero => rfl
  | succ fuel ih =>
    unfold loop drain
    generalize c.next = stepped
    obtain ⟨given, c'⟩ := stepped
    cases given with
    | none => rfl
    | some item =>
      show _ = ((item :: (drain next fuel c').1).mapM id).map _
      rw [List.mapM_cons]
      cases item with
      | error e => rfl
      | ok x =>
        show loop step fuel (step b x) c' = _
        rw [ih]
        cases (drain next fuel c').1.mapM id <;> rfl

end Cursor

namespace IntSpan

/-- Both bounds are finite, and the lower one is not below the upper one. -/
def Unordered (s : IntSpan) : Prop := ∃ l u, s = .between (some l) (some u) ∧ u ≤ l

theorem unordered_iff {s : IntSpan} : s.Unordered ↔ ¬ s.WellFormed := by
  constructor
  · rintro ⟨l, u, rfl, hle⟩ hbelow
    exact absurd (below_some_some.1 hbelow) (Int32.not_lt.2 hle)
  · intro h
    cases s with
    | empty => exact absurd trivial h
    | between l u =>
      cases l with
      | none => exact absurd (below_none_left u) h
      | some l =>
        cases u with
        | none => exact absurd (below_none_right _) h
        | some u => exact ⟨l, u, rfl, Int32.not_lt.1 fun hlt => h (below_some_some.2 hlt)⟩

end IntSpan

namespace Multirange

open IntSpan

variable {tag : Tag} {xs : List IntSpan} {m : Multirange IntSpan} {e : Error}

/-! ## Reading the whole of a multirange -/

/-- What reads the whole of `m` has the outcome that reading the list of its intervals has. -/
structure ReadAlike (m : Multirange IntSpan) (outcome : Except Error (List IntSpan)) : Prop where
  toList_eq : m.toList = outcome
  loop_eq {β : Type} (step : β → IntSpan → β) (b : β) :
    Cursor.loop step m.length b (.ofMultirange m) = outcome.map (List.foldl step b)
  hash32_eq : m.hash32 = outcome.map hashList32
  hash64_eq (seed : UInt64) : m.hash64 seed = outcome.map (hashList64 seed)
  toText_eq {σ : Type} {ctx : Context (StateM σ) IntSpan} (hctx : ctx.Serves m.tag) :
    Context.Gives m.tag (outcome.map fun xs => BracedList.join (xs.map IntSpan.toText))
      (m.toText ctx)
  send_eq {σ : Type} {ctx : Context (StateM σ) IntSpan} (hctx : ctx.Serves m.tag) :
    Context.Gives m.tag (outcome.map fun xs => Message.ofRecords (xs.map IntSpan.send))
      (m.send ctx)

theorem readAlike (m : Multirange IntSpan) : ReadAlike m m.toList where
  toList_eq := rfl
  loop_eq step b := by
    rw [Cursor.loop_eq_drain, toList, ← Cursor.collect_ofMultirange]
    rfl
  hash32_eq := rfl
  hash64_eq _ := rfl
  toText_eq hctx := gives_toText hctx
  send_eq hctx := gives_send hctx

/-- A multirange that cannot be read is not found equal to itself. -/
theorem beq_self_eq_false (h : m.toList = .error e) : (m == m) = false := by
  rw [Bool.eq_false_iff]
  intro hbeq
  have hfound : FoundEqual m m .initial := .inr (.inl hbeq)
  obtain ⟨xs, hread, _⟩ := exists_toList_eq IntSpan.separates hfound
  rw [h] at hread
  cases hread

/-- The bytes of a multirange that cannot be read are refused with the failure of reading it. -/
theorem adopt_eq_error (hwalk : Layout.walk m.data = .ok (tag, m.starts))
    (h : m.toList = .error e) : (adopt m.data : Except Error (Multirange IntSpan)) = .error e := by
  unfold adopt
  rw [hwalk]
  show (m.toList >>= _) = _
  rw [h]
  rfl

/-! ## What is built -/

theorem get?_eq_of_ofList (hm : ofList tag xs = .ok m) (i : Nat) :
    m.get? i = (canonicalize xs)[i]?.map fun s =>
      if s.WellFormed then .ok s else .error (.corruptValue .payloadOutOfOrder) := by
  rw [get?_eq, items_of_ofList hm, List.map_map, List.getElem?_map]
  congr 1
  funext s
  exact unpack_pack_eq s

/-- A slot of a multirange that is built gives the canonical interval in its place, if that can be
read back. -/
theorem get?_eq_ok_iff_of_ofList (hm : ofList tag xs = .ok m) {i : Nat} {s : IntSpan} :
    m.get? i = some (.ok s) ↔ (canonicalize xs)[i]? = some s ∧ ¬ s.Unordered := by
  rw [get?_eq_of_ofList hm, Option.map_eq_some_iff, unordered_iff, not_not]
  constructor
  · rintro ⟨t, ht, hread⟩
    split at hread
    · next hwellFormed =>
      cases hread
      exact ⟨ht, hwellFormed⟩
    · cases hread
  · rintro ⟨hs, hwellFormed⟩
    exact ⟨s, hs, if_pos hwellFormed⟩

/-- And it gives a failure, always the same one, if that cannot be read back. -/
theorem get?_eq_error_iff_of_ofList (hm : ofList tag xs = .ok m) {i : Nat} :
    m.get? i = some (.error e) ↔ e = .corruptValue .payloadOutOfOrder ∧
      ∃ s, (canonicalize xs)[i]? = some s ∧ s.Unordered := by
  rw [get?_eq_of_ofList hm, Option.map_eq_some_iff]
  constructor
  · rintro ⟨t, ht, hread⟩
    split at hread
    · cases hread
    · next hread' =>
      cases hread
      exact ⟨rfl, t, ht, unordered_iff.2 hread'⟩
  · rintro ⟨rfl, s, hs, hunordered⟩
    exact ⟨s, hs, if_neg (unordered_iff.1 hunordered)⟩

/-- Building from any intervals that take less than a word can count gives a multirange whose slots
hold the canonical intervals, except for those that cannot be read back. If there are none of these,
all readers succeed; otherwise they all fail as reading the first such slot does. -/
theorem ofList_reads_alike (tag : Tag) (h : Fits xs) :
    ∃ m, ofList tag xs = .ok m ∧ m.tag = tag ∧ m.length = (canonicalize xs).length ∧
      (∀ i s, (canonicalize xs)[i]? = some s →
        (¬ s.Unordered → m.get? i = some (.ok s)) ∧
        (s.Unordered → m.get? i = some (.error (.corruptValue .payloadOutOfOrder)))) ∧
      ((∀ s ∈ canonicalize xs, ¬ s.Unordered) → ReadAlike m (.ok (canonicalize xs))) ∧
      ((∃ s ∈ canonicalize xs, s.Unordered) → ∃ i e,
        (∃ s, (canonicalize xs)[i]? = some s ∧ s.Unordered) ∧
        (∀ j < i, ∀ s, (canonicalize xs)[j]? = some s → ¬ s.Unordered) ∧
        m.get? i = some (.error e) ∧ e.IsCorrupt ∧ ReadAlike m (.error e) ∧
        (m == m) = false ∧ (adopt m.data : Except Error (Multirange IntSpan)) = .error e) := by
  obtain ⟨m, hm⟩ := exists_ofList_eq_ok tag h
  refine ⟨m, hm, tag_of_ofList hm, length_of_ofList hm, ?_, ?_, ?_⟩
  · intro i s hs
    exact ⟨fun hread => (get?_eq_ok_iff_of_ofList hm).2 ⟨hs, hread⟩,
      fun hread => (get?_eq_error_iff_of_ofList hm).2 ⟨rfl, s, hs, hread⟩⟩
  · intro hall
    have hread : m.toList = .ok (canonicalize xs) := by
      refine (toList_eq_ok_iff_of_ofList hm).2 ⟨fun s hs => ?_, rfl⟩
      exact not_not.1 fun hs' => hall s hs (unordered_iff.2 hs')
    rw [← hread]
    exact readAlike m
  · rintro ⟨s, hs, hunordered⟩
    cases hread : m.toList with
    | ok ys =>
      have hwellFormed := ((toList_eq_ok_iff_of_ofList hm).1 hread).1
      exact absurd (hwellFormed s hs) (unordered_iff.1 hunordered)
    | error e =>
      obtain ⟨i, hi, hbefore⟩ := toList_eq_error_iff.1 hread
      obtain ⟨rfl, hfirst⟩ := (get?_eq_error_iff_of_ofList hm).1 hi
      refine ⟨i, _, hfirst, fun j hj t ht => ?_, hi, ⟨_, rfl⟩, hread ▸ readAlike m,
        beq_self_eq_false hread, adopt_eq_error (walk_of_ofList hm) hread⟩
      obtain ⟨x, hx⟩ := hbefore j hj
      obtain ⟨hx, hordered⟩ := (get?_eq_ok_iff_of_ofList hm).1 hx
      rw [ht, Option.some.injEq] at hx
      exact hx ▸ hordered

/-- Of three slots the one in the middle cannot be read. -/
theorem ofList_reads_alike_middle :
    ∃ (xs : List IntSpan) (m : Multirange IntSpan) (ctx : Context (StateM Nat) IntSpan) (e : Error),
      xs = [between none (some 2), between (some 9) (some 5), between (some 20) none] ∧ Fits xs ∧
      (∃ s ∈ canonicalize xs, s.Unordered) ∧ ofList multirangeTag xs = .ok m ∧
      ctx.Serves m.tag ∧ e = .corruptValue .payloadOutOfOrder ∧
      m.get? 0 = some (.ok (between none (some 2))) ∧ m.get? 1 = some (.error e) ∧
      m.get? 2 = some (.ok (between (some 20) none)) ∧ m.toList = .error e ∧
      m.hash32 = .error e ∧ m.hash64 7 = .error e ∧
      Context.Gives m.tag (.error e) (m.toText ctx) ∧ Context.Gives m.tag (.error e) (m.send ctx) ∧
      (m == m) = false ∧ (adopt m.data : Except Error (Multirange IntSpan)) = .error e := by
  have hfits : Fits [between none (some 2), between (some 9) (some 5), between (some 20) none] :=
    fits_of_length_lt (by decide)
  have hcanonical : canonicalize [between none (some 2), between (some 9) (some 5),
      between (some 20) none] =
      [between none (some 2), between (some 9) (some 5), between (some 20) none] := by
    have hsort : sort [between none (some 2), between (some 9) (some 5), between (some 20) none] =
        [between none (some 2), between (some 9) (some 5), between (some 20) none] :=
      List.mergeSort_of_pairwise (by decide)
    rw [canonicalize, hsort]
    rfl
  have hfirst : ¬ (between none (some 2)).Unordered := fun h => unordered_iff.1 h (by decide)
  have hmiddle : (between (some 9) (some 5)).Unordered := unordered_iff.2 (by decide)
  have hlast : ¬ (between (some 20) none).Unordered := fun h => unordered_iff.1 h (by decide)
  have hexists : ∃ s ∈ canonicalize [between none (some 2), between (some 9) (some 5),
      between (some 20) none], s.Unordered := by
    rw [hcanonical]
    exact ⟨_, by decide, hmiddle⟩
  obtain ⟨m, hm, htag, _, hslots, _, hfail⟩ := ofList_reads_alike multirangeTag hfits
  obtain ⟨i, e, ⟨s, hs, hunordered⟩, _, hi, _, halike, hbeq, hadopt⟩ := hfail hexists
  obtain rfl : e = .corruptValue .payloadOutOfOrder := by
    rw [(hslots i s hs).2 hunordered, Option.some.injEq, Except.error.injEq] at hi
    exact hi.symm
  rw [hcanonical] at hslots
  have hctx : (Context.new (registry : Registry (StateM Nat) IntSpan).catalog ⟨99, 100⟩).Serves
      m.tag := htag ▸ registry_serves (by decide)
  exact ⟨_, m, _, _, rfl, hfits, hexists, hm, hctx, rfl, (hslots 0 _ rfl).1 hfirst,
    (hslots 1 _ rfl).2 hmiddle, (hslots 2 _ rfl).1 hlast, halike.toList_eq, halike.hash32_eq,
    halike.hash64_eq 7, halike.toText_eq hctx, halike.send_eq hctx, hbeq, hadopt⟩

end Multirange

end RangeUnion
