import RangeUnion.Proofs.Multirange.Adoption
import RangeUnion.Proofs.Multirange.Agreement
import RangeUnion.Proofs.Multirange.Order

/-!
# Multiranges read back

The intervals of a multirange are a canonical list, so the multirange that is built from them holds
the same list (`Reachable.exists_rebuilt`): no comparison tells the two apart, and if the first one
was built and not adopted, they are the same byte by byte. This rebuilt multirange is what is read
back from the literal (`toText_reads_back`) and from the message (`send_reads_back`).
-/

namespace RangeUnion.Multirange

open IntSpan

variable {tag : Tag} {xs ys : List IntSpan} {a b m n : Multirange IntSpan}

/-- The multiranges that are built from well-formed intervals, and not adopted from bytes. -/
inductive Built : Multirange IntSpan → Prop where
  | ofList {tag : Tag} {xs : List IntSpan} {m : Multirange IntSpan}
    (h : ∀ s ∈ xs, s.WellFormed) (hm : ofList tag xs = .ok m) : Built m
  | parse {σ : Type} {ctx : Context (StateM σ) IntSpan} {text : String} {tag : Tag}
    {typmod : Int32} {s : σ} {m : Multirange IntSpan} (h : ctx.Yields WellFormed)
    (hm : ((parse text tag typmod ctx).run s).1.1 = .ok m) : Built m
  | receive {σ : Type} {ctx : Context (StateM σ) IntSpan} {message : Bytes} {tag : Tag}
    {typmod : Int32} {s : σ} {m : Multirange IntSpan} (h : ctx.Yields WellFormed)
    (hm : ((receive message tag typmod ctx).run s).1.1 = .ok m) : Built m

/-- `n` has the type and the intervals of `m`, and no comparison tells the two apart. -/
structure Alike (m n : Multirange IntSpan) : Prop where
  tag_eq : n.tag = m.tag
  toList_eq : ∃ xs, m.toList = .ok xs ∧ n.toList = .ok xs
  tryEq_eq : ∀ depth : Depth, 0 < depth.remaining →
    tryEq m n depth = .ok true ∧ tryEq n m depth = .ok true
  tryCompare_eq : ∀ depth : Depth, 0 < depth.remaining →
    tryCompare m n depth = .ok .eq ∧ tryCompare n m depth = .ok .eq

/-! ## Building again -/

/-- Whatever is built is the union of some well-formed intervals. -/
theorem Built.exists_ofList (h : Built m) :
    ∃ xs : List IntSpan, (∀ s ∈ xs, s.WellFormed) ∧ Multirange.ofList m.tag xs = .ok m := by
  cases h with
  | @ofList tag xs _ h hm =>
    rw [tag_of_ofList hm]
    exact ⟨xs, h, hm⟩
  | @parse σ ctx text tag typmod s _ h hm =>
    obtain ⟨xs, hxs, hm⟩ := (ensures_parse h text tag typmod s).1 m hm
    rw [tag_of_ofList hm]
    exact ⟨xs, hxs, hm⟩
  | @receive σ ctx message tag typmod s _ h hm =>
    obtain ⟨xs, hxs, hm⟩ := (ensures_receive h message tag typmod s).1 m hm
    rw [tag_of_ofList hm]
    exact ⟨xs, hxs, hm⟩

/-- The union of a spaced list holds the list. -/
theorem sound_of_ofList (h : Spaced xs) (hn : ofList tag xs = .ok n) : Sound n xs := by
  have hwellFormed : ∀ s ∈ xs, s.WellFormed := fun s hs => (h.1 s hs).1
  obtain ⟨ys, hys⟩ := (Reachable.ofList hwellFormed hn).exists_sound
  have htoList := toList_of_ofList hwellFormed hn
  rw [hys.toList_eq, canonicalize_of_spaced h, Except.ok.injEq] at htoList
  exact htoList ▸ hys

/-- What holds the canonical list of well-formed intervals is built from it again. -/
theorem Built.ofList_eq (h : Built m) (hm : Sound m xs) : Multirange.ofList m.tag xs = .ok m := by
  obtain ⟨ys, hys, hbuilt⟩ := h.exists_ofList
  have htoList := toList_of_ofList hys hbuilt
  rw [hm.toList_eq, Except.ok.injEq] at htoList
  have hagain : canonicalize xs = canonicalize ys := by
    rw [htoList]
    exact canonicalize_of_spaced (spaced_canonicalize hys)
  have hofList : Multirange.ofList m.tag xs = Multirange.ofList m.tag ys := by
    unfold Multirange.ofList
    rw [hagain]
  exact hofList.trans hbuilt

/-- The bytes of a multirange are those of a canonical list, up to slack, so the multirange of the
list can be built. -/
theorem Reachable.exists_ofList (h : Reachable m) (hm : Sound m xs) :
    ∃ n, Multirange.ofList m.tag xs = .ok n := by
  obtain ⟨tag, ys, hmatches⟩ := exists_matches_of_adopt h.adopt_eq
  obtain ⟨m', hadopt, htag, hread, _⟩ := hmatches.adopt_eq
  rw [h.adopt_eq, Except.ok.injEq] at hadopt
  subst hadopt
  rw [hm.toList_eq, Except.ok.injEq] at hread
  obtain ⟨n, hn, _⟩ := hmatches.agree
  rw [htag, hread]
  exact ⟨n, hn⟩

theorem Sound.alike (hm : Sound m xs) (hn : Sound n xs) (htag : n.tag = m.tag) : Alike m n where
  tag_eq := htag
  toList_eq := ⟨xs, hm.toList_eq, hn.toList_eq⟩
  tryEq_eq depth hdepth := by
    rw [Multirange.tryEq_eq hm hn htag.symm hdepth, Multirange.tryEq_eq hn hm htag hdepth]
    simp
  tryCompare_eq depth hdepth := by
    have hself : List.compareLex order xs xs = .eq := Std.ReflCmp.compare_self
    rw [Multirange.tryCompare_eq hm hn htag.symm hdepth,
      Multirange.tryCompare_eq hn hm htag hdepth, hself]
    exact ⟨rfl, rfl⟩

/-- The multirange that is built from the intervals of another one. -/
theorem Reachable.exists_rebuilt (h : Reachable m) :
    ∃ xs n, Sound m xs ∧ Sound n xs ∧ Multirange.ofList m.tag xs = .ok n ∧ Alike m n ∧
      (Built m → n.data = m.data) := by
  obtain ⟨xs, hm⟩ := h.exists_sound
  obtain ⟨n, hofList⟩ := h.exists_ofList hm
  have hn : Sound n xs := sound_of_ofList hm.spaced hofList
  refine ⟨xs, n, hm, hn, hofList, hm.alike hn (tag_of_ofList hofList), ?_⟩
  intro hbuilt
  rw [hbuilt.ofList_eq hm, Except.ok.injEq] at hofList
  rw [hofList]

/-! ## Literals -/

theorem map_parse_toText (h : ∀ s ∈ xs, s.WellFormed) :
    (xs.map IntSpan.toText).map IntSpan.parse = xs.map .ok := by
  rw [List.map_map]
  exact List.map_congr_left fun s hs => parse_toText (h s hs)

/-- Reading the literal of a multirange gives back a multirange that is alike, and has the same
literal. If the first one was built, the second one has its bytes. -/
theorem toText_reads_back (h : Reachable m) :
    ∃ text n, Alike m n ∧ (Built m → n.data = m.data) ∧
      ∀ {σ : Type} {ctx : Context (StateM σ) IntSpan} (typmod : Int32), ctx.Serves m.tag →
        Context.Answers m.tag text (m.toText ctx) ∧
        Context.Answers m.tag n (parse text m.tag typmod ctx) ∧
        Context.Answers m.tag text (n.toText ctx) := by
  obtain ⟨xs, n, hm, hn, hofList, halike, hbuilt⟩ := h.exists_rebuilt
  refine ⟨BracedList.join (xs.map IntSpan.toText), n, halike, hbuilt, fun typmod hctx => ?_⟩
  have hspells : BracedList.Spells (BracedList.join (xs.map IntSpan.toText))
      (xs.map IntSpan.toText) :=
    BracedList.spells_join <| List.forall_mem_map.2 fun s _ => BracedList.exists_phrase_toText s
  refine ⟨hm.answers_toText rfl hctx, ?_, hn.answers_toText halike.tag_eq hctx⟩
  exact answers_parse hctx hspells (map_parse_toText hm.wellFormed)
    ((ofList_nonempty m.tag xs).trans hofList) typmod

/-- An adopted value with altered bits, and one that is built from the greatest and the least
bounds. -/
theorem toText_reads_back_adopted :
    ∃ (a b : Multirange IntSpan) (ctx : Context (StateM Nat) IntSpan),
      adopt [32, 0, 0, 0, 99, 17, 0, 0, 1, 0, 0, 0, 7, 0, 0, 0,
        9, 0, 0, 0, 0xEE, 3, 0, 0, 0, 5, 6, 7, 8, 9, 10, 11] = .ok a ∧
      ofList ⟨4451⟩ [between (some Int32.maxValue) none, .empty,
        between none (some Int32.minValue)] = .ok b ∧
      Reachable a ∧ Reachable b ∧ ctx.Serves a.tag ∧ ctx.Serves b.tag ∧
      (∃ text n, Alike a n ∧ Context.Answers a.tag text (a.toText ctx) ∧
        Context.Answers a.tag n (parse text a.tag (-1) ctx) ∧
        Context.Answers a.tag text (n.toText ctx)) ∧
      ∃ text n, Alike b n ∧ n.data = b.data ∧ Context.Answers b.tag text (b.toText ctx) ∧
        Context.Answers b.tag n (parse text b.tag (-1) ctx) ∧
        Context.Answers b.tag text (n.toText ctx) := by
  obtain ⟨a, ha⟩ : ∃ a : Multirange IntSpan,
      adopt [32, 0, 0, 0, 99, 17, 0, 0, 1, 0, 0, 0, 7, 0, 0, 0,
        9, 0, 0, 0, 0xEE, 3, 0, 0, 0, 5, 6, 7, 8, 9, 10, 11] = .ok a := ⟨_, rfl⟩
  have hfits : Fits [between (some Int32.maxValue) none, .empty,
      between none (some Int32.minValue)] := fits_of_length_lt (by decide)
  obtain ⟨b, hb⟩ := exists_ofList_eq_ok ⟨4451⟩ hfits
  have hwellFormed : ∀ s ∈ [between (some Int32.maxValue) none, .empty,
      between none (some Int32.minValue)], s.WellFormed := by decide
  have ra : Reachable a := .adopt ha
  have rb : Reachable b := .ofList hwellFormed hb
  have htaga : a.tag = IntSpan.multirangeTag := by
    rw [tag, data_of_adopt ha]
    rfl
  have htagb : b.tag = IntSpan.multirangeTag := tag_of_ofList hb
  have hctx : (Context.new (registry : Registry (StateM Nat) IntSpan).catalog ⟨99, 100⟩).Serves
      IntSpan.multirangeTag := registry_serves (by decide)
  have hctxa := htaga ▸ hctx
  have hctxb := htagb ▸ hctx
  obtain ⟨text, n, halike, _, hanswers⟩ := toText_reads_back ra
  obtain ⟨text', n', halike', hdata, hanswers'⟩ := toText_reads_back rb
  exact ⟨a, b, _, ha, hb, ra, rb, hctxa, hctxb, ⟨text, n, halike, hanswers (-1) hctxa⟩,
    text', n', halike', hdata (.ofList hwellFormed hb), hanswers' (-1) hctxb⟩

/-! ## Messages -/

theorem map_receive_send (h : ∀ s ∈ xs, s.WellFormed) :
    (xs.map IntSpan.send).map IntSpan.receive = xs.map .ok := by
  rw [List.map_map]
  exact List.map_congr_left fun s hs => receive_send (h s hs)

/-- The number of intervals fits into a word. -/
theorem Sound.length_lt (hm : Sound m xs) : xs.length < UInt32.size := by
  obtain ⟨tag, payloads, _, hstored, _, _, heq⟩ := adopt_eq_ok_iff.1 hm.adopt_eq
  have hlength : m.length = payloads.length := by
    rw [heq]
    exact Layout.length_startsFrom _ _
  rw [← hm.length_eq, hlength]
  exact hstored.count_lt

/-- The messages in the message of a multirange are those of its intervals. -/
theorem Sound.records_ofRecords (hm : Sound m xs) :
    Message.records (Message.ofRecords (xs.map IntSpan.send)) = ⟨xs.map IntSpan.send, none⟩ := by
  apply Message.records_ofRecords
  · rw [List.length_map]
    exact hm.length_lt
  · exact List.forall_mem_map.2 fun s _ => (length_send_le s).trans_lt (by decide)

/-- The messages of two multiranges are equal only if their intervals are. -/
theorem eq_of_ofRecords_eq (ha : Sound a xs) (hb : Sound b ys)
    (h : Message.ofRecords (xs.map IntSpan.send) = Message.ofRecords (ys.map IntSpan.send)) :
    xs = ys := by
  have hrecords := ha.records_ofRecords
  rw [h, hb.records_ofRecords, Feed.mk.injEq] at hrecords
  have hread := map_receive_send ha.wellFormed
  rw [← hrecords.1, map_receive_send hb.wellFormed] at hread
  exact ((List.map_inj_right fun _ _ heq => Except.ok.inj heq).1 hread).symm

/-- Receiving the message of a multirange gives back a multirange that is alike, and has the same
message. If the first one was built, the second one has its bytes. So two multiranges of one type
have the same message if and only if they are equal. -/
theorem send_reads_back :
    (∀ m : Multirange IntSpan, Reachable m → ∃ message n, Alike m n ∧ (Built m → n.data = m.data) ∧
      ∀ {σ : Type} {ctx : Context (StateM σ) IntSpan} (typmod : Int32), ctx.Serves m.tag →
        Context.Answers m.tag message (m.send ctx) ∧
        Context.Answers m.tag n (receive message m.tag typmod ctx) ∧
        Context.Answers m.tag message (n.send ctx)) ∧
    (∀ a b : Multirange IntSpan, Reachable a → Reachable b → a.tag = b.tag → ∃ message message',
      (∀ {σ : Type} {ctx : Context (StateM σ) IntSpan}, ctx.Serves a.tag →
        Context.Answers a.tag message (a.send ctx) ∧
        Context.Answers a.tag message' (b.send ctx)) ∧
      ∀ depth : Depth, 0 < depth.remaining →
        (message = message' ↔ tryEq a b depth = .ok true)) := by
  constructor
  · intro m h
    obtain ⟨xs, n, hm, hn, hofList, halike, hbuilt⟩ := h.exists_rebuilt
    refine ⟨Message.ofRecords (xs.map IntSpan.send), n, halike, hbuilt, fun typmod hctx => ?_⟩
    have hcount : (xs.map IntSpan.send).length < UInt32.size := by
      rw [List.length_map]
      exact hm.length_lt
    refine ⟨hm.answers_send rfl hctx, ?_, hn.answers_send halike.tag_eq hctx⟩
    exact answers_receive hctx (map_receive_send hm.wellFormed) hcount hofList typmod
  · intro a b ha hb htag
    obtain ⟨xs, hxs⟩ := ha.exists_sound
    obtain ⟨ys, hys⟩ := hb.exists_sound
    refine ⟨Message.ofRecords (xs.map IntSpan.send), Message.ofRecords (ys.map IntSpan.send),
      fun hctx => ⟨hxs.answers_send rfl hctx, hys.answers_send htag.symm hctx⟩, ?_⟩
    intro depth hdepth
    rw [tryEq_eq hxs hys htag hdepth, Except.ok.injEq, decide_eq_true_eq]
    constructor
    · exact eq_of_ofRecords_eq hxs hys
    · intro heq
      rw [heq]

/-- An adopted value with altered bits and a built one with the same interval, sent and compared
under a budget of one level. -/
theorem send_reads_back_adopted :
    ∃ (a b : Multirange IntSpan) (ctx : Context (StateM Nat) IntSpan),
      adopt [32, 0, 0, 0, 99, 17, 0, 0, 1, 0, 0, 0, 7, 0, 0, 0,
        9, 0, 0, 0, 0xEE, 3, 0, 0, 0, 5, 6, 7, 8, 9, 10, 11] = .ok a ∧
      ofList ⟨4451⟩ [between none (some 3), between (some 1) (some 2)] = .ok b ∧
      Reachable a ∧ Reachable b ∧ a.tag = b.tag ∧ ctx.Serves a.tag ∧ ctx.Serves b.tag ∧
      (∃ message n, Alike b n ∧ n.data = b.data ∧ Context.Answers b.tag message (b.send ctx) ∧
        Context.Answers b.tag n (receive message b.tag (-1) ctx) ∧
        Context.Answers b.tag message (n.send ctx)) ∧
      ∃ message message', Context.Answers a.tag message (a.send ctx) ∧
        Context.Answers a.tag message' (b.send ctx) ∧
        (message = message' ↔ tryEq a b ⟨4, 5⟩ = .ok true) := by
  obtain ⟨a, ha⟩ : ∃ a : Multirange IntSpan,
      adopt [32, 0, 0, 0, 99, 17, 0, 0, 1, 0, 0, 0, 7, 0, 0, 0,
        9, 0, 0, 0, 0xEE, 3, 0, 0, 0, 5, 6, 7, 8, 9, 10, 11] = .ok a := ⟨_, rfl⟩
  have hfits : Fits [between none (some 3), between (some 1) (some 2)] :=
    fits_of_length_lt (by decide)
  obtain ⟨b, hb⟩ := exists_ofList_eq_ok ⟨4451⟩ hfits
  have hwellFormed : ∀ s ∈ [between none (some 3), between (some 1) (some 2)], s.WellFormed := by
    decide
  have ra : Reachable a := .adopt ha
  have rb : Reachable b := .ofList hwellFormed hb
  have htaga : a.tag = IntSpan.multirangeTag := by
    rw [tag, data_of_adopt ha]
    rfl
  have htagb : b.tag = IntSpan.multirangeTag := tag_of_ofList hb
  have hctx : (Context.new (registry : Registry (StateM Nat) IntSpan).catalog ⟨99, 100⟩).Serves
      IntSpan.multirangeTag := registry_serves (by decide)
  have hctxa := htaga ▸ hctx
  have hctxb := htagb ▸ hctx
  have htag : a.tag = b.tag := htaga.trans htagb.symm
  obtain ⟨message, n, halike, hdata, hanswers⟩ := send_reads_back.1 b rb
  obtain ⟨sent, sent', hsent, hiff⟩ := send_reads_back.2 a b ra rb htag
  exact ⟨a, b, _, ha, hb, ra, rb, htag, hctxa, hctxb,
    ⟨message, n, halike, hdata (.ofList hwellFormed hb), hanswers (-1) hctxb⟩,
    sent, sent', (hsent hctxa).1, (hsent hctxa).2, hiff ⟨4, 5⟩ (by decide)⟩

end RangeUnion.Multirange
