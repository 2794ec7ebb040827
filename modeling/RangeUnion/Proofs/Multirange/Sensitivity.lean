import RangeUnion.Multirange.Hash
import RangeUnion.Proofs.Multirange.Reachable
import RangeUnion.Proofs.Span.Scramble

/-!
# Hashes of multiranges that differ in one bound

To multiply by 31 loses nothing, since 31 is odd. So when the hash of a multirange takes in the hash
of an interval, it is injective in what it had before and in what it takes in. This is said once for
words of any width (`foldl_mul_add_ne`), and it follows that if one interval of many is changed in
one of its bounds then both hashes of the multirange change, whatever the seed (`hashes_differ`).
-/

namespace RangeUnion.Multirange

open IntSpan Function

/-! ## Taking in one hash after the other -/

variable {s t : IntSpan}

/-- If the factor has an inverse, a hash that differs in one place makes a difference in the end. -/
theorem foldl_mul_add_ne {w : Nat} {c d : BitVec w} (hfactor : c * d = 1#w)
    {hash : IntSpan → BitVec w} (h : hash s ≠ hash t) (front back : List IntSpan) (b : BitVec w) :
    (front ++ s :: back).foldl (fun b x => b * c + hash x) b ≠
      (front ++ t :: back).foldl (fun b x => b * c + hash x) b := by
  refine foldl_ne (fun x => ?_) (fun b heq => ?_) front back b
  · intro b b' heq
    exact Scramble.mul_injective hfactor ((BitVec.add_left_inj _).1 heq)
  · exact h ((BitVec.add_right_inj _).1 heq)

theorem toBitVec_hashList32 (xs : List IntSpan) : (hashList32 xs).toBitVec =
    xs.foldl (fun b x => b * 31#32 + x.hash32.toBitVec) 1#32 :=
  (List.foldl_hom UInt32.toBitVec fun _ _ => rfl).symm

theorem toBitVec_hashList64 (seed : UInt64) (xs : List IntSpan) : (hashList64 seed xs).toBitVec =
    xs.foldl (fun b x => b * 31#64 + (x.hash64 seed).toBitVec) 1#64 :=
  (List.foldl_hom UInt64.toBitVec fun _ _ => rfl).symm

theorem hashList32_ne (h : OneBoundApart s t) (front back : List IntSpan) :
    hashList32 (front ++ s :: back) ≠ hashList32 (front ++ t :: back) := by
  have hfactor : 31#32 * 0xbdef7bdf#32 = 1#32 := by decide
  rw [ne_eq, ← UInt32.toBitVec_inj, toBitVec_hashList32, toBitVec_hashList32]
  exact foldl_mul_add_ne hfactor (fun heq => hash32_ne h (UInt32.toBitVec_inj.1 heq)) front back _

theorem hashList64_ne (h : OneBoundApart s t) (seed : UInt64) (front back : List IntSpan) :
    hashList64 seed (front ++ s :: back) ≠ hashList64 seed (front ++ t :: back) := by
  have hfactor : 31#64 * 0xef7bdef7bdef7bdf#64 = 1#64 := by decide
  rw [ne_eq, ← UInt64.toBitVec_inj, toBitVec_hashList64, toBitVec_hashList64]
  exact foldl_mul_add_ne hfactor (fun heq => hash64_ne h seed (UInt64.toBitVec_inj.1 heq)) front
    back _

/-! ## Changing one interval -/

/-- Lists that agree but at one place have the same front and the same back. -/
theorem exists_front_back {γ : Type} {xs ys : List γ} {x y : γ} {i : Nat} (hx : xs[i]? = some x)
    (hy : ys[i]? = some y) (hrest : ∀ j, j ≠ i → xs[j]? = ys[j]?) :
    ∃ front back, xs = front ++ x :: back ∧ ys = front ++ y :: back := by
  obtain ⟨hi, rfl⟩ := List.getElem?_eq_some_iff.1 hx
  have hys : ys = xs.set i y := by
    apply List.ext_getElem?
    intro j
    by_cases hj : j = i
    · rw [hj, List.getElem?_set_self hi, hy]
    · rw [List.getElem?_set_ne (Ne.symm hj), hrest j hj]
  refine ⟨xs.take i, xs.drop (i + 1), ?_, ?_⟩
  · rw [← List.drop_eq_getElem_cons hi, List.take_append_drop]
  · rw [hys, List.set_eq_take_append_cons_drop, if_pos hi]

/-- The hashes of `m` and `n` exist and differ. -/
structure HashesDiffer {α : Type} [Interval α] (m n : Multirange α) : Prop where
  hash32 : ∃ h h', m.hash32 = .ok h ∧ n.hash32 = .ok h' ∧ h ≠ h'
  hash64 : ∀ seed, ∃ h h', m.hash64 seed = .ok h ∧ n.hash64 seed = .ok h' ∧ h ≠ h'

theorem hashesDiffer_of_toList {m n : Multirange IntSpan} {front back : List IntSpan}
    (h : OneBoundApart s t) (hm : m.toList = .ok (front ++ s :: back))
    (hn : n.toList = .ok (front ++ t :: back)) : HashesDiffer m n where
  hash32 := by
    unfold Multirange.hash32
    rw [hm, hn]
    exact ⟨_, _, rfl, rfl, hashList32_ne h front back⟩
  hash64 seed := by
    unfold Multirange.hash64
    rw [hm, hn]
    exact ⟨_, _, rfl, rfl, hashList64_ne h seed front back⟩

/-- If one bound of one interval of a multirange is changed, the hashes change, whatever the
seed. -/
theorem hashes_differ {m n : Multirange IntSpan} (hm : Reachable m) (hn : Reachable n) {i : Nat}
    (hs : m.get? i = some (.ok s)) (ht : n.get? i = some (.ok t))
    (hrest : ∀ j, j ≠ i → m.get? j = n.get? j) (h : OneBoundApart s t) : HashesDiffer m n := by
  obtain ⟨xs, hxs⟩ := hm.exists_sound
  obtain ⟨ys, hys⟩ := hn.exists_sound
  simp only [get?_eq, hxs.items_eq, hys.items_eq, List.getElem?_map] at hs ht hrest
  have hinj : Injective (Option.map (Except.ok (ε := Error) (α := IntSpan))) :=
    Option.map_injective fun _ _ => Except.ok.inj
  obtain ⟨front, back, rfl, rfl⟩ :=
    exists_front_back (hinj hs) (hinj ht) fun j hj => hinj (hrest j hj)
  exact hashesDiffer_of_toList h hxs.toList_eq hys.toList_eq

/-- A multirange that is built from a spaced list holds it as it is. -/
theorem get?_of_ofList {tag : Tag} {xs : List IntSpan} {m : Multirange IntSpan} (h : Spaced xs)
    (hm : ofList tag xs = .ok m) (j : Nat) : m.get? j = xs[j]?.map .ok := by
  have hlist := toList_of_ofList (fun s hs => (h.1 s hs).1) hm
  rw [canonicalize_of_spaced h, toList_eq_ok_iff] at hlist
  rw [get?_eq, hlist, List.getElem?_map]

/-- The interval in the middle ends one later, with the bounds next to it infinite on one side. -/
theorem hashes_differ_widened :
    ∃ m n : Multirange IntSpan, Reachable m ∧ Reachable n ∧
      ofList ⟨4451⟩ [between none (some 3), between (some 5) (some 7), between (some 9) none] =
        .ok m ∧
      ofList ⟨4451⟩ [between none (some 3), between (some 5) (some 8), between (some 9) none] =
        .ok n ∧
      m.get? 1 = some (.ok (between (some 5) (some 7))) ∧
      n.get? 1 = some (.ok (between (some 5) (some 8))) ∧
      (∀ j, j ≠ 1 → m.get? j = n.get? j) ∧
      OneBoundApart (between (some 5) (some 7)) (between (some 5) (some 8)) ∧
      HashesDiffer m n := by
  obtain ⟨m, hm⟩ := exists_ofList_eq_ok ⟨4451⟩ (fits_of_length_lt (by decide) :
    Fits [between none (some 3), between (some 5) (some 7), between (some 9) none])
  obtain ⟨n, hn⟩ := exists_ofList_eq_ok ⟨4451⟩ (fits_of_length_lt (by decide) :
    Fits [between none (some 3), between (some 5) (some 8), between (some 9) none])
  have hget := get?_of_ofList (spaced_iff.2 (by decide)) hm
  have hget' := get?_of_ofList (spaced_iff.2 (by decide)) hn
  have hreach : Reachable m := .ofList (by decide) hm
  have hreach' : Reachable n := .ofList (by decide) hn
  have hrest (j : Nat) (hj : j ≠ 1) : m.get? j = n.get? j := by
    rw [hget, hget']
    match j, hj with
    | 0, _ => rfl
    | j + 2, _ => rfl
  have hone : OneBoundApart (between (some 5) (some 7)) (between (some 5) (some 8)) :=
    .upper (some 5) (by decide)
  exact ⟨m, n, hreach, hreach', hm, hn, hget 1, hget' 1, hrest, hone,
    hashes_differ hreach hreach' (hget 1) (hget' 1) hrest hone⟩

end RangeUnion.Multirange
