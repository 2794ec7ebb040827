import RangeUnion.Proofs.Multirange.Served

/-!
# All ways to give the intervals agree

A list of intervals may come as a list, as an array, as a text that spells it, or as a message
that holds it in frames. In all these cases the multirange is the same, byte by byte
(`constructors_agree`). Reading a text drops the empty intervals before the others are brought into
canonical form, and the other ways drop them only then; that makes no difference
(`ofList_nonempty`).
-/

namespace RangeUnion.Multirange

open IntSpan

variable {tag : Tag} {xs : List IntSpan} {m : Multirange IntSpan}

theorem ofList_nonempty (tag : Tag) (xs : List IntSpan) :
    ofList tag (nonempty xs) = ofList tag xs := by
  unfold ofList
  rw [canonicalize_nonempty]

theorem values?_ofList (xs : List IntSpan) : (NullableArray.ofList xs).values? = some xs :=
  NullableArray.values?_eq_some_iff.2 rfl

/-- The array of some values is flat and holds no null. -/
theorem ofArray_ofList (tag : Tag) (xs : List IntSpan) :
    ofArray tag (.ofList xs) = ofList tag xs := by
  have hrank : ¬ 1 < (NullableArray.ofList xs).rank := by
    cases xs with
    | nil => decide
    | cons s xs => exact Nat.lt_irrefl 1
  unfold ofArray
  rw [if_neg hrank, values?_ofList]

/-- A list of intervals gives one multirange, whether it is given as a list, as an array, as a
text that spells it, or as a message that holds it in frames. -/
theorem constructors_agree (tag : Tag) (xs : List IntSpan) (hfits : Fits xs) :
    ∃ m, ofList tag xs = .ok m ∧ ofArray tag (.ofList xs) = .ok m ∧
      ∀ {σ : Type} {ctx : Context (StateM σ) IntSpan} (typmod : Int32), ctx.Serves tag →
        (∀ text elements, BracedList.Spells text elements →
          elements.map IntSpan.parse = xs.map .ok →
          Context.Answers tag m (parse text tag typmod ctx)) ∧
        (∀ messages, messages.length < UInt32.size → messages.map IntSpan.receive = xs.map .ok →
          Context.Answers tag m (receive (Message.ofRecords messages) tag typmod ctx)) := by
  obtain ⟨m, hm⟩ := exists_ofList_eq_ok tag hfits
  refine ⟨m, hm, (ofArray_ofList tag xs).trans hm, fun typmod hctx => ⟨?_, ?_⟩⟩
  · intro text elements htext hread
    exact answers_parse hctx htext hread ((ofList_nonempty tag xs).trans hm) typmod
  · intro messages hcount hread
    exact answers_receive hctx hread hcount hm typmod

/-- Intervals in no order, one of them empty: as a list, as an array, in a text with blanks and
closed brackets, and in a message whose bounds are marked as included. -/
theorem constructors_agree_unordered :
    ∃ (m : Multirange IntSpan) (ctx : Context (StateM Nat) IntSpan),
      Fits [between (some 5) (some 7), .empty, between none (some 6)] ∧
      ctx.Serves IntSpan.multirangeTag ∧
      BracedList.Spells "\x7b [5,6],eMpTy ,(,6) \x7d" ["[5,6]", "eMpTy", "(,6)"] ∧
      ofList IntSpan.multirangeTag [between (some 5) (some 7), .empty, between none (some 6)] =
        .ok m ∧
      ofArray IntSpan.multirangeTag
        (.ofList [between (some 5) (some 7), .empty, between none (some 6)]) = .ok m ∧
      Context.Answers IntSpan.multirangeTag m
        (parse "\x7b [5,6],eMpTy ,(,6) \x7d" IntSpan.multirangeTag (-1) ctx) ∧
      Context.Answers IntSpan.multirangeTag m
        (receive [0, 0, 0, 3, 0, 0, 0, 17, 0x06, 0, 0, 0, 4, 0, 0, 0, 5, 0, 0, 0, 4, 0, 0, 0, 6,
          0, 0, 0, 1, 0x01, 0, 0, 0, 9, 0x08, 0, 0, 0, 4, 0, 0, 0, 6]
          IntSpan.multirangeTag (-1) ctx) := by
  have hfits : Fits [between (some 5) (some 7), .empty, between none (some 6)] :=
    fits_of_length_lt (by decide)
  have hctx : (Context.new (registry : Registry (StateM Nat) IntSpan).catalog ⟨99, 100⟩).Serves
      IntSpan.multirangeTag := registry_serves (by decide)
  have htext : BracedList.Spells "\x7b [5,6],eMpTy ,(,6) \x7d" ["[5,6]", "eMpTy", "(,6)"] := by
    let blank : BracedList.Blanks := ⟨[0x20], List.forall_mem_singleton.2 rfl⟩
    refine ⟨⟨.none, .entries
      ⟨blank, .bracketed 0x5B
        [.plain 0x35 (by decide) (by decide) rfl, .plain 0x2C (by decide) (by decide) rfl,
          .plain 0x36 (by decide) (by decide) rfl] 0x5D rfl trivial rfl, .none⟩
      [⟨.none, .word [0x65, 0x4D, 0x70, 0x54, 0x79] rfl, blank⟩,
        ⟨.none, .bracketed 0x28
          [.plain 0x2C (by decide) (by decide) rfl, .plain 0x36 (by decide) (by decide) rfl]
          0x29 rfl trivial rfl, blank⟩], .none⟩, ?_, ?_⟩
    · decide
    · decide
  obtain ⟨m, hlist, harray, hread⟩ := constructors_agree IntSpan.multirangeTag _ hfits
  obtain ⟨hparse, hreceive⟩ := hread (-1) hctx
  refine ⟨m, _, hfits, hctx, htext, hlist, harray, hparse _ _ htext rfl, ?_⟩
  exact hreceive [[0x06, 0, 0, 0, 4, 0, 0, 0, 5, 0, 0, 0, 4, 0, 0, 0, 6], [0x01],
    [0x08, 0, 0, 0, 4, 0, 0, 0, 6]] (by decide) rfl

end RangeUnion.Multirange
