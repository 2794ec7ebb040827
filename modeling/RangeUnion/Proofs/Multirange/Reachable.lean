import RangeUnion.Multirange.Interchange
import RangeUnion.Multirange.Literal
import RangeUnion.Multirange.Message
import RangeUnion.Proofs.Catalog.Yields
import RangeUnion.Proofs.Multirange.Framing

/-!
# What holds of every multirange

`Reachable` is every multirange that the public functions make, one after the other, as long as
they are given well-formed intervals. Each of them either stores a canonical list or adopts bytes
that it has checked. Both give a value that is adopted again from its own bytes
(`Reachable.adopt_eq`), and from this follows all that readers rely on (`Sound`): the recorded
places are the ones that a walk finds, and the slots hold non-empty intervals with gaps in between.
-/

namespace RangeUnion.Multirange

open IntSpan

section

variable {α : Type} [Interval α]

/-! ## Reading with a context -/

theorem ensures_parse {σ : Type} {ctx : Context (StateM σ) α} {p : α → Prop} (h : ctx.Yields p)
    (text : String) (tag : Tag) (typmod : Int32) :
    Ensures (parse text tag typmod ctx) fun answer =>
      IfOk (fun m => ∃ xs, (∀ x ∈ xs, p x) ∧ ofList tag xs = .ok m) answer.1 ∧
        answer.2.Yields p := by
  unfold parse
  have hpick (type : RangeType (StateM σ) α) (htype : type.codec.Yields p) :
      IfOk (fun input => ∀ literal typmod depth, Ensures (input literal typmod depth) (IfOk p))
        (.ok type.codec.input) := ifOk_ok.2 htype.input
  refine (h.ensures_acquire hpick).bind ?_
  rintro ⟨acquired, ctx'⟩ ⟨hinput, hctx⟩
  cases acquired with
  | error e => exact ensures_pure ⟨ifOk_error, hctx⟩
  | ok found =>
    refine hctx.ensures_build (fun literal => hinput found rfl literal typmod found.2) _ ?_
    intro xs hxs m hm
    exact ⟨nonempty xs, fun x hx => hxs x (List.mem_filter.1 hx).1, hm⟩

theorem ensures_receive {σ : Type} {ctx : Context (StateM σ) α} {p : α → Prop} (h : ctx.Yields p)
    (message : Bytes) (tag : Tag) (typmod : Int32) :
    Ensures (receive message tag typmod ctx) fun answer =>
      IfOk (fun m => ∃ xs, (∀ x ∈ xs, p x) ∧ ofList tag xs = .ok m) answer.1 ∧
        answer.2.Yields p := by
  unfold receive
  have hpick (type : RangeType (StateM σ) α) (htype : type.codec.Yields p) :
      IfOk (fun receive => ∀ message typmod depth,
        Ensures (receive message typmod depth) (IfOk p)) type.receiveFunction := by
    intro receive hreceive
    exact htype.receive receive (RangeType.receiveFunction_eq_ok_iff.1 hreceive)
  refine (h.ensures_acquire hpick).bind ?_
  rintro ⟨acquired, ctx'⟩ ⟨hreceive, hctx⟩
  cases acquired with
  | error e => exact ensures_pure ⟨ifOk_error, hctx⟩
  | ok found =>
    refine hctx.ensures_build (fun record => hreceive found rfl record typmod found.2) _ ?_
    intro xs hxs m hm
    exact ⟨xs, hxs, hm⟩

/-! ## Adopting -/

theorem readopt_eq {data : Bytes} {m : Multirange α}
    (h : adopt data = .ok m) : adopt m.data = .ok m := by
  rw [data_of_adopt h]
  exact h

theorem adopt_of_decodeBytes {data : Bytes} {m : Multirange α} (h : decodeBytes data = .ok m) :
    adopt data = .ok m := by
  unfold decodeBytes at h
  cases hadopt : (adopt data : Except Error (Multirange α)) with
  | error e =>
    rw [hadopt] at h
    cases h
  | ok n =>
    rw [hadopt] at h
    cases h
    rfl

theorem exists_of_decodeItems {items : List Int} {m : Multirange α}
    (h : decodeItems items = .ok m) :
    ∃ data, bytesOfItems items = .ok data ∧ decodeBytes data = .ok m :=
  bind_eq_ok_iff.1 h

/-! ## Runs of the public functions -/

variable [Spanned α]

/-- The multiranges that the public functions make of well-formed intervals and of any bytes. -/
inductive Reachable : Multirange α → Prop where
  | empty (tag : Tag) : Reachable (empty tag)
  | ofList {tag : Tag} {xs : List α} {m : Multirange α}
    (h : ∀ x ∈ xs, (Spanned.span x).WellFormed) (hm : ofList tag xs = .ok m) : Reachable m
  | ofInterval {tag : Tag} {x : α} {m : Multirange α}
    (h : (Spanned.span x).WellFormed) (hm : ofInterval tag x = .ok m) : Reachable m
  | ofArray {tag : Tag} {array : NullableArray α} {m : Multirange α}
    (h : ∀ x, some x ∈ array.elements → (Spanned.span x).WellFormed)
    (hm : ofArray tag array = .ok m) : Reachable m
  | parse {σ : Type} {ctx : Context (StateM σ) α} {text : String} {tag : Tag} {typmod : Int32}
    {s : σ} {m : Multirange α} (h : ctx.Yields fun x => (Spanned.span x).WellFormed)
    (hm : ((parse text tag typmod ctx).run s).1.1 = .ok m) : Reachable m
  | receive {σ : Type} {ctx : Context (StateM σ) α} {message : Bytes} {tag : Tag} {typmod : Int32}
    {s : σ} {m : Multirange α} (h : ctx.Yields fun x => (Spanned.span x).WellFormed)
    (hm : ((receive message tag typmod ctx).run s).1.1 = .ok m) : Reachable m
  | adopt {data : Bytes} {m : Multirange α} (hm : adopt data = .ok m) : Reachable m
  | decodeBytes {data : Bytes} {m : Multirange α} (hm : decodeBytes data = .ok m) : Reachable m
  | decodeItems {items : List Int} {m : Multirange α} (hm : decodeItems items = .ok m) :
    Reachable m
  | copy {m : Multirange α} (h : Reachable m) : Reachable ⟨m.data, m.starts⟩
  | readopt {m n : Multirange α} (h : Reachable m) (hn : Multirange.adopt m.data = .ok n) :
    Reachable n
  | rebuild {m n : Multirange α} {tag : Tag} {xs : List α} (h : Reachable m)
    (hxs : m.toList = .ok xs) (hn : Multirange.ofList tag xs = .ok n) : Reachable n

/-- `m` holds the intervals `xs`, in the way that all readers rely on. -/
structure Sound (m : Multirange α) (xs : List α) : Prop where
  walk_eq : Layout.walk m.data = .ok (m.tag, m.starts)
  items_eq : m.items = xs.map .ok
  toList_eq : m.toList = .ok xs
  length_eq : m.length = xs.length
  wellFormed : ∀ x ∈ xs, (Spanned.span x).WellFormed
  ne_empty : ∀ x ∈ xs, Spanned.span x ≠ .empty
  gap : Consecutive Gap (xs.map Spanned.span)
  lower_ne_none : ∀ x ∈ xs.tail, (Spanned.span x).lower ≠ none
  upper_ne_none : ∀ x ∈ xs.dropLast, (Spanned.span x).upper ≠ none
  adopt_eq : adopt m.data = .ok m

variable {tag : Tag} {xs : List α} {m : Multirange α}

/-! ## Infinite bounds -/

theorem lower_ne_none_of_gap (h : Consecutive Gap (xs.map Spanned.span)) :
    ∀ x ∈ xs.tail, (Spanned.span x).lower ≠ none := by
  refine forall_mem_tail_of_consecutive ?_ ((consecutive_map _ xs).1 h)
  rintro x y ⟨_, l, _, hlower, _⟩
  rw [hlower]
  exact Option.some_ne_none l

theorem upper_ne_none_of_gap (h : Consecutive Gap (xs.map Spanned.span)) :
    ∀ x ∈ xs.dropLast, (Spanned.span x).upper ≠ none := by
  refine forall_mem_dropLast_of_consecutive ?_ ((consecutive_map _ xs).1 h)
  rintro x y ⟨u, _, hupper, _⟩
  rw [hupper]
  exact Option.some_ne_none u

/-! ## The two producers -/

/-- Whatever is adopted is sound. -/
theorem sound_of_adopt (h : adopt m.data = .ok m) : ∃ xs, Sound m xs := by
  obtain ⟨tag, payloads, xs, hstored, hread, hcanonical, hm⟩ := adopt_eq_ok_iff.1 h
  have hitems : m.items = xs.map .ok := by
    rw [hm, items_of_stored hstored, hread]
  have hwellFormed := Spanned.wellFormed_of_map_unpack hread
  have hspaced : Spaced (xs.map Spanned.span) :=
    spaced_iff.2 ⟨List.forall_mem_map.2 hwellFormed, Spanned.canonical_map_span.2 hcanonical⟩
  refine ⟨xs, ?_, hitems, toList_eq_ok_iff.2 hitems, ?_, hwellFormed, ?_, hspaced.2,
    lower_ne_none_of_gap hspaced.2, upper_ne_none_of_gap hspaced.2, h⟩
  · have hstarts : m.starts = Layout.starts payloads := congrArg starts hm
    have htag : m.tag = tag := hstored.tagOf_eq
    rw [hstarts, htag]
    exact hstored.walk_eq
  · rw [← length_items, hitems, List.length_map]
  · exact fun x hx => (hspaced.1 _ (List.mem_map_of_mem hx)).2

/-- Whatever is built is adopted again if its intervals are proper and have gaps in between. -/
theorem adopt_of_spaced (h : Spaced ((canonicalize xs).map Spanned.span))
    (hm : ofList tag xs = .ok m) : adopt m.data = .ok m := by
  obtain ⟨hstored, hstarts⟩ := stored_of_ofList hm
  obtain ⟨hwellFormed, hcanonical⟩ := spaced_iff.1 h
  refine adopt_eq_ok_iff.2 ⟨tag, _, canonicalize xs, hstored,
    Spanned.map_unpack_map_pack (List.forall_mem_map.1 hwellFormed),
    Spanned.canonical_map_span.1 hcanonical, ?_⟩
  exact Multirange.ext rfl hstarts

/-- Whatever is built from well-formed intervals is adopted again. -/
theorem adopt_of_ofList (h : ∀ x ∈ xs, (Spanned.span x).WellFormed) (hm : ofList tag xs = .ok m) :
    adopt m.data = .ok m := by
  have hspaced : Spaced (canonicalize (xs.map Spanned.span)) :=
    spaced_canonicalize (List.forall_mem_map.2 h)
  rw [← Spanned.map_span_canonicalize] at hspaced
  exact adopt_of_spaced hspaced hm

/-! ## Whole runs -/

/-- Every multirange is adopted again from its own bytes. -/
theorem Reachable.adopt_eq (h : Reachable m) : Multirange.adopt m.data = .ok m := by
  induction h with
  | empty tag =>
    exact adopt_of_ofList (fun _ hx => absurd hx List.not_mem_nil) (ofList_nil tag)
  | ofList h hm => exact adopt_of_ofList h hm
  | ofInterval h hm =>
    refine adopt_of_ofList (fun x hx => ?_) hm
    rw [List.mem_singleton.1 hx]
    exact h
  | @ofArray tag array m h hm =>
    unfold Multirange.ofArray at hm
    split at hm
    · cases hm
    · split at hm
      · cases hm
      · next xs hvalues =>
        refine adopt_of_ofList (fun x hx => h x ?_) hm
        rw [NullableArray.values?_eq_some_iff.1 hvalues]
        exact List.mem_map_of_mem hx
  | @parse σ ctx text tag typmod s m h hm =>
    obtain ⟨xs, hxs, hm⟩ := (ensures_parse h text tag typmod s).1 m hm
    exact adopt_of_ofList hxs hm
  | @receive σ ctx message tag typmod s m h hm =>
    obtain ⟨xs, hxs, hm⟩ := (ensures_receive h message tag typmod s).1 m hm
    exact adopt_of_ofList hxs hm
  | adopt hm => exact readopt_eq hm
  | decodeBytes hm => exact readopt_eq (adopt_of_decodeBytes hm)
  | decodeItems hm =>
    obtain ⟨data, _, hdata⟩ := exists_of_decodeItems hm
    exact readopt_eq (adopt_of_decodeBytes hdata)
  | copy _ ih => exact ih
  | readopt _ hn _ => exact readopt_eq hn
  | rebuild _ hxs hn ih =>
    obtain ⟨ys, hys⟩ := sound_of_adopt ih
    rw [hys.toList_eq, Except.ok.injEq] at hxs
    exact adopt_of_ofList (hxs ▸ hys.wellFormed) hn

theorem Reachable.exists_sound (h : Reachable m) : ∃ xs, Sound m xs := sound_of_adopt h.adopt_eq

/-- Every multirange of well-formed intervals, metered or not, is sound. -/
theorem reachable_sound :
    (∀ m : Multirange IntSpan, Reachable m → ∃ xs, Sound m xs) ∧
    (∀ m : Multirange Metered, Reachable m → ∃ xs, Sound m xs) :=
  ⟨fun _ h => sound_of_adopt h.adopt_eq, fun _ h => sound_of_adopt h.adopt_eq⟩

/-- A union of touching intervals is sound, and so is one that is received in the wrong order by
means of the registered functions, and an adopted value with altered bits. -/
theorem reachable_sound_built_received_adopted :
    (∃ m : Multirange IntSpan, Reachable m ∧
      (ofList ⟨4451⟩ [between (some 5) none, .empty, between none (some 3),
        between (some 1) (some 4)] = .ok m) ∧ ∃ xs, Sound m xs) ∧
    (∃ m : Multirange IntSpan, Reachable m ∧
      ((receive [0, 0, 0, 2, 0, 0, 0, 17, 2, 0, 0, 0, 4, 0, 0, 0, 8, 0, 0, 0, 4, 0, 0, 0, 9,
          0, 0, 0, 9, 8, 0, 0, 0, 4, 0, 0, 0, 7] multirangeTag (-1)
        (.new (registry : Registry (StateM Unit) IntSpan).catalog .initial)).run ()).1.1 = .ok m ∧
      ∃ xs, Sound m xs) ∧
    (∃ m : Multirange Metered, Reachable m ∧ m.data = [32, 0, 0, 0, 99, 17, 0, 0, 1, 0, 0, 0,
        7, 0, 0, 0, 9, 0, 0, 0, 0xEE, 3, 0, 0, 0, 5, 6, 7, 8, 9, 10, 11] ∧ ∃ xs, Sound m xs) := by
  refine ⟨?_, ?_, ?_⟩
  · have hfits : Fits [between (some 5) none, .empty, between none (some 3),
        between (some 1) (some 4)] := fits_of_length_lt (by decide)
    obtain ⟨m, hm⟩ := exists_ofList_eq_ok ⟨4451⟩ hfits
    have hreach : Reachable m := .ofList (by decide) hm
    exact ⟨m, hreach, hm, reachable_sound.1 m hreach⟩
  · have hfits : Fits [between (some 8) (some 9), between none (some 7)] :=
      fits_of_length_lt (by decide)
    obtain ⟨m, hm⟩ := exists_ofList_eq_ok multirangeTag hfits
    have hframed : Message.Framed [0, 0, 0, 2, 0, 0, 0, 17, 2, 0, 0, 0, 4, 0, 0, 0, 8, 0, 0, 0, 4,
        0, 0, 0, 9, 0, 0, 0, 9, 8, 0, 0, 0, 4, 0, 0, 0, 7]
        [[2, 0, 0, 0, 4, 0, 0, 0, 8, 0, 0, 0, 4, 0, 0, 0, 9], [8, 0, 0, 0, 4, 0, 0, 0, 7]] :=
      ⟨by decide, by decide, by decide⟩
    have haccepts : Feed.Accepts
        (fun payload => (pure (IntSpan.receive payload) : StateM Unit (Except Error IntSpan)).run)
        [[2, 0, 0, 0, 4, 0, 0, 0, 8, 0, 0, 0, 4, 0, 0, 0, 9], [8, 0, 0, 0, 4, 0, 0, 0, 7]] ()
        [between (some 8) (some 9), between none (some 7)] () := .cons rfl (.cons rfl .nil)
    have hreceived : ((receive _ multirangeTag (-1)
        (.new (registry : Registry (StateM Unit) IntSpan).catalog .initial)).run ()).1.1 = .ok m :=
      (receive_eq_ok_iff rfl rfl rfl (-1)).2 ⟨_, _, (), hframed, haccepts, hm⟩
    have hreach : Reachable m := .receive (registry_yields .initial) hreceived
    exact ⟨m, hreach, hreceived, reachable_sound.1 m hreach⟩
  · obtain ⟨m, hm⟩ : ∃ m : Multirange Metered, adopt [32, 0, 0, 0, 99, 17, 0, 0, 1, 0, 0, 0,
        7, 0, 0, 0, 9, 0, 0, 0, 0xEE, 3, 0, 0, 0, 5, 6, 7, 8, 9, 10, 11] = .ok m := ⟨_, rfl⟩
    have hreach : Reachable m := .adopt hm
    exact ⟨m, hreach, data_of_adopt hm, reachable_sound.2 m hreach⟩

end

end RangeUnion.Multirange
