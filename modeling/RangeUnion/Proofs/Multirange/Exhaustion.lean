import RangeUnion.Proofs.Catalog.Frugal
import RangeUnion.Proofs.Multirange.EntryPoint
import RangeUnion.Proofs.Multirange.Hash
import RangeUnion.Proofs.Multirange.Unchecked

/-!
# What the depth budget decides

A depth budget decides nothing but whether it is exhausted. Whatever an operation gives with some
levels left, unless it gives that these are spent, it gives with more levels left; and what it
reports as spent is its own budget. For comparisons this is `OnlyExhausts`, which holds of all that
is put together from parts of which it holds. For the entry points it is `Budgeted`, which follows
from the shape that they all have: what they do by themselves speaks of no depth
(`EntryPoint.Frugal`).
-/

namespace RangeUnion

variable {σ α β γ ε τ δ : Type} {d₁ d₂ : Depth} {p : Error → Prop}

/-! ## Comparisons -/

/-- With more levels left, `act` gives the same unless it exhausts its budget, and when it reports a
budget as spent it is its own. -/
structure OnlyExhausts (act : Depth → Except Error β) : Prop where
  agrees : ∀ d₁ d₂ : Depth, d₁.remaining ≤ d₂.remaining → Exhausted (act d₁) ∨ act d₁ = act d₂
  reports : ∀ (depth : Depth) (limit : Nat), act depth = .error (.stackDepthExceeded limit) →
    limit = depth.limit

theorem exhausted_bind {result : Except Error β} (h : Exhausted result)
    (next : β → Except Error γ) : Exhausted (result >>= next) := by
  obtain ⟨limit, rfl⟩ := h
  exact ⟨limit, rfl⟩

namespace OnlyExhausts

theorem const {result : Except Error β} (h : IfError Error.Unbudgeted result) :
    OnlyExhausts fun _ => result where
  agrees _ _ _ := .inr rfl
  reports _ limit hresult := absurd rfl (h _ hresult limit)

theorem bind {act : Depth → Except Error β} {next : β → Depth → Except Error γ}
    (h : OnlyExhausts act) (hnext : ∀ x, OnlyExhausts (next x)) :
    OnlyExhausts fun depth => act depth >>= fun x => next x depth where
  agrees d₁ d₂ hle := by
    rcases h.agrees d₁ d₂ hle with hspent | heq
    · exact .inl (exhausted_bind hspent _)
    · rw [heq]
      cases act d₂ with
      | error e => exact .inr rfl
      | ok x => exact (hnext x).agrees d₁ d₂ hle
  reports depth limit hresult := by
    cases hact : act depth with
    | error e =>
      rw [hact] at hresult
      cases hresult
      exact h.reports depth limit hact
    | ok x =>
      rw [hact] at hresult
      exact (hnext x).reports depth limit hresult

/-- Spending a level first changes nothing about that. -/
theorem enter {act : Depth → Except Error β} (h : OnlyExhausts act) :
    OnlyExhausts fun depth => depth.enter >>= act where
  agrees d₁ d₂ hle := by
    rcases Nat.lt_or_ge d₁.level d₁.limit with hlevel | hlevel
    · rw [Depth.enter_of_lt hlevel,
        Depth.enter_of_lt (Depth.level_lt_of_remaining_le hle hlevel)]
      refine h.agrees _ _ ?_
      unfold Depth.remaining at *
      simp only
      omega
    · rw [Depth.enter_of_le hlevel]
      exact .inl ⟨_, rfl⟩
  reports depth limit hresult := by
    rcases Nat.lt_or_ge depth.level depth.limit with hlevel | hlevel
    · rw [Depth.enter_of_lt hlevel] at hresult
      exact h.reports ⟨depth.level + 1, depth.limit⟩ limit hresult
    · rw [Depth.enter_of_le hlevel] at hresult
      cases hresult
      rfl

end OnlyExhausts

theorem IntSpan.orderWithin_onlyExhausts (x y : IntSpan) :
    OnlyExhausts fun depth => Interval.orderWithin depth x y :=
  .const ifError_ok

theorem Metered.orderWithin_onlyExhausts (x y : Metered) :
    OnlyExhausts fun depth => Interval.orderWithin depth x y := by
  have heq : (fun depth => Interval.orderWithin depth x y) = fun depth : Depth =>
      depth.enter >>= fun _ => (.ok (x.span.order y.span) : Except Error Ordering) := by
    funext depth
    show (do discard depth.enter; return x.span.order y.span : Except Error Ordering) = _
    cases depth.enter <;> rfl
  rw [heq]
  exact .enter (.const ifError_ok)

namespace Multirange

variable [Interval α]

/-- What the slots hold does not speak of depth budgets. -/
theorem unbudgeted_items [Spanned α] (m : Multirange α) :
    ∀ item ∈ m.items, IfError Error.Unbudgeted item := by
  intro item hitem e he
  obtain ⟨payload, _, rfl⟩ := List.mem_map.1 hitem
  exact Error.unbudgeted_of_isCorrupt (Spanned.isCorrupt_unpack payload e he)

omit [Interval α] in
theorem unbudgeted_sameType (a b : Multirange α) : IfError Error.Unbudgeted (sameType a b) := by
  unfold sameType
  split
  · exact ifError_ok
  · exact ifError_error.2 fun _ heq => nomatch heq

variable (horder : ∀ x y : α, OnlyExhausts fun depth => Interval.orderWithin depth x y)

include horder

theorem orderItems_onlyExhausts {as bs : List (Except Error α)}
    (has : ∀ item ∈ as, IfError Error.Unbudgeted item)
    (hbs : ∀ item ∈ bs, IfError Error.Unbudgeted item) :
    OnlyExhausts fun depth => orderItems depth as bs := by
  induction as generalizing bs with
  | nil => exact .const ifError_ok
  | cons a as ih =>
    cases bs with
    | nil => exact .const ifError_ok
    | cons b bs =>
      rw [List.forall_mem_cons] at has hbs
      refine OnlyExhausts.bind (.const has.1) fun x => ?_
      refine OnlyExhausts.bind (.const hbs.1) fun y => ?_
      refine OnlyExhausts.bind (horder x y) fun o => ?_
      cases o with
      | lt => exact .const ifError_ok
      | gt => exact .const ifError_ok
      | eq => exact ih has.2 hbs.2

variable [Spanned α]

theorem tryCompare_onlyExhausts (a b : Multirange α) : OnlyExhausts (tryCompare a b) := by
  refine OnlyExhausts.enter (.bind (.const (unbudgeted_sameType a b)) fun _ => ?_)
  refine OnlyExhausts.bind ?_ fun o => .const ifError_ok
  exact orderItems_onlyExhausts horder (unbudgeted_items a) (unbudgeted_items b)

theorem tryEq_onlyExhausts (a b : Multirange α) : OnlyExhausts (tryEq a b) := by
  refine OnlyExhausts.enter (.bind (.const (unbudgeted_sameType a b)) fun _ => ?_)
  by_cases hlength : a.length ≠ b.length
  · simp only [if_pos hlength]
    exact .const ifError_ok
  · simp only [if_neg hlength, sameItems_eq_map]
    refine OnlyExhausts.bind ?_ fun o => .const ifError_ok
    exact orderItems_onlyExhausts horder (unbudgeted_items a) (unbudgeted_items b)

end Multirange

/-! ## Entry points -/

/-- The same context with another depth budget. -/
def Context.within {m : Type → Type} (ctx : Context m α) (depth : Depth) : Context m α :=
  { ctx with depth }

@[simp] theorem Context.depth_within {m : Type → Type} (ctx : Context m α) (depth : Depth) :
    (ctx.within depth).depth = depth := rfl

/-- With more levels left, `act` gives the same answer and leaves the same behind unless it exhausts
its budget, whatever has the functions of the context fail, as long as they are frugal. What it
reports as spent is its own budget, unless they fail with that themselves. -/
structure Budgeted (p : Error → Prop)
    (act : Context (StateM σ) α → StateM σ (Except Error δ × Context (StateM σ) α)) : Prop where
  agrees : ∀ (ctx : Context (StateM σ) α) (d₁ d₂ : Depth) (s : σ), ctx.Frugal p →
    d₁.remaining ≤ d₂.remaining → Exhausted ((act (ctx.within d₁)).run s).1.1 ∨
      ∃ answer cache s',
        (act (ctx.within d₁)).run s = ((answer, ⟨ctx.catalog, cache, d₁⟩), s') ∧
        (act (ctx.within d₂)).run s = ((answer, ⟨ctx.catalog, cache, d₂⟩), s')
  reports : ∀ (ctx : Context (StateM σ) α) (s : σ) (limit : Nat), ctx.Frugal p →
    ((act ctx).run s).1.1 = .error (.stackDepthExceeded limit) →
    limit = ctx.depth.limit ∨ p (.stackDepthExceeded limit)

namespace EntryPoint

/-- What an entry point does by itself speaks of no depth budget, and what it takes from a codec is
frugal if the codec is. It answers with a failure as it is. -/
structure Frugal (p : Error → Prop) (entry : EntryPoint α β γ ε τ (Except Error δ)) : Prop where
  refused : ∀ {σ : Type} (type : RangeType (StateM σ) α), IfError Error.Unbudgeted (entry.pick type)
  picked : ∀ {σ : Type} (type : RangeType (StateM σ) α) f, type.codec.Frugal p →
    entry.pick type = .ok f → ∀ x, RangeUnion.Frugal p (f x)
  feed : ∀ e, entry.feed.failure = some e → e.Unbudgeted ∨ p e
  keep : ∀ y t, IfError Error.Unbudgeted (entry.keep y t).1
  failed : ∀ e t, entry.answer (.error e) t = .error e
  answered : ∀ ys t, IfError Error.Unbudgeted (entry.answer (.ok ys) t)

namespace Frugal

variable {entry : EntryPoint α β γ ε τ (Except Error δ)}

theorem exhausted_answer (h : entry.Frugal p) {outcome : Except Error (List ε)}
    (hspent : Exhausted outcome) (t : τ) : Exhausted (entry.answer outcome t) := by
  obtain ⟨limit, rfl⟩ := hspent
  exact ⟨limit, h.failed _ t⟩

/-- What is replied with more levels left is the same unless the budget is exhausted. -/
theorem reply_agrees (h : entry.Frugal p) {f : β → Depth → StateM σ (Except Error γ)}
    (hf : ∀ x, RangeUnion.Frugal p (f x)) (hle : d₁.remaining ≤ d₂.remaining) (s : σ) :
    Exhausted ((entry.reply f d₁).run s).1 ∨
      (entry.reply f d₁).run s = (entry.reply f d₂).run s := by
  obtain ⟨handed, outcome, ⟨s', t⟩, hhanded⟩ := Feed.exists_handed
    (Feed.keeping (fun x => f x d₁) entry.keep) entry.feed (s, entry.ready)
  rw [run_reply hhanded]
  rcases hhanded.of_agrees (Feed.keeping_agrees fun x s => (hf x).run_agrees hle s) with
    hspent | hhanded'
  · exact .inl (h.exhausted_answer hspent t)
  · exact .inr (run_reply hhanded').symm

theorem ifError_reply (h : entry.Frugal p) {f : β → Depth → StateM σ (Except Error γ)}
    (hf : ∀ x, RangeUnion.Frugal p (f x)) (depth : Depth) (s : σ) :
    IfError (Error.Reports depth.limit p) ((entry.reply f depth).run s).1 := by
  obtain ⟨handed, outcome, ⟨s', t⟩, hhanded⟩ := Feed.exists_handed
    (Feed.keeping (fun x => f x depth) entry.keep) entry.feed (s, entry.ready)
  rw [run_reply hhanded]
  have houtcome : IfError (Error.Reports depth.limit p) outcome := by
    refine hhanded.ifError (Feed.ifError_keeping (fun x s => (hf x).reports depth s) fun y t => ?_)
      fun e he => ?_
    · exact fun e he => (h.keep y t e he).reports _ _
    · rcases h.feed e he with hfeed | hfeed
      · exact hfeed.reports _ _
      · exact Error.reports_of hfeed _
  cases outcome with
  | error e =>
    rw [h.failed]
    exact ifError_error.2 (ifError_error.1 houtcome)
  | ok ys => exact fun e he => (h.answered ys t e he).reports _ _

theorem perform_agrees (h : entry.Frugal p) {ctx : Context (StateM σ) α} (hctx : ctx.Frugal p)
    (hle : d₁.remaining ≤ d₂.remaining) (s : σ) :
    Exhausted ((entry.perform (ctx.within d₁)).run s).1.1 ∨ ∃ answer cache s',
      (entry.perform (ctx.within d₁)).run s = ((answer, ⟨ctx.catalog, cache, d₁⟩), s') ∧
      (entry.perform (ctx.within d₂)).run s = ((answer, ⟨ctx.catalog, cache, d₂⟩), s') := by
  rcases Nat.lt_or_ge d₁.level d₁.limit with hlevel | hlevel
  · have hlevel' := Depth.level_lt_of_remaining_le hle hlevel
    have hensures := hctx.ensures_consult entry.tag s
    rcases hfound : (ctx.cache.consult ctx.catalog entry.tag).run s with ⟨found, s'⟩
    rw [hfound] at hensures
    have hrun : (entry.perform (ctx.within d₁)).run s = _ := run_perform hlevel hfound
    have hrun' : (entry.perform (ctx.within d₂)).run s = _ := run_perform hlevel' hfound
    simp only [Context.depth_within] at hrun hrun'
    rw [hrun, hrun']
    cases found with
    | none => exact .inr ⟨_, _, _, rfl, rfl⟩
    | some type =>
      simp only [Option.elim_some]
      rcases hpick : entry.pick type with e | f
      · rw [Context.replyWith_of_error hpick, Context.replyWith_of_error hpick]
        exact .inr ⟨_, _, _, rfl, rfl⟩
      · rw [Context.replyWith_of_ok hpick, Context.replyWith_of_ok hpick]
        have hle' : (⟨d₁.level + 1, d₁.limit⟩ : Depth).remaining ≤
            (⟨d₂.level + 1, d₂.limit⟩ : Depth).remaining := by
          unfold Depth.remaining at *
          simp only
          omega
        rcases h.reply_agrees (h.picked type f (hensures type rfl) hpick) hle' s' with hspent | heq
        · exact .inl hspent
        · refine .inr ⟨_, _, _, rfl, ?_⟩
          rw [heq]
          rfl
  · have hrun : (entry.perform (ctx.within d₁)).run s = _ := run_perform_of_le hlevel s
    rw [hrun]
    exact .inl ⟨d₁.limit, h.failed _ _⟩

theorem ifError_perform (h : entry.Frugal p) {ctx : Context (StateM σ) α} (hctx : ctx.Frugal p)
    (s : σ) : IfError (Error.Reports ctx.depth.limit p) ((entry.perform ctx).run s).1.1 := by
  rcases Nat.lt_or_ge ctx.depth.level ctx.depth.limit with hlevel | hlevel
  · have hensures := hctx.ensures_consult entry.tag s
    rcases hfound : (ctx.cache.consult ctx.catalog entry.tag).run s with ⟨found, s'⟩
    rw [hfound] at hensures
    rw [run_perform hlevel hfound]
    have hrefuse {e : Error} (he : e.Unbudgeted) :
        IfError (Error.Reports ctx.depth.limit p) (entry.refuse e) := by
      rw [refuse, h.failed]
      exact ifError_error.2 (he.reports _ _)
    cases found with
    | none => exact hrefuse fun _ heq => nomatch heq
    | some type =>
      simp only [Option.elim_some]
      rcases hpick : entry.pick type with e | f
      · rw [Context.replyWith_of_error hpick]
        exact hrefuse (h.refused type e hpick)
      · rw [Context.replyWith_of_ok hpick]
        exact h.ifError_reply (h.picked type f (hensures type rfl) hpick) _ s'
  · rw [run_perform_of_le hlevel, refuse, h.failed]
    exact ifError_error.2 (Error.reports_self _ _)

/-- What is performed as a frugal entry point is budgeted. -/
theorem budgeted (h : entry.Frugal p)
    {act : Context (StateM σ) α → StateM σ (Except Error δ × Context (StateM σ) α)}
    (hact : ∀ ctx, entry.perform ctx = act ctx) : Budgeted p act where
  agrees ctx d₁ d₂ s hctx hle := by
    rw [← hact, ← hact]
    exact h.perform_agrees hctx hle s
  reports ctx s limit hctx hlimit := by
    rw [← hact] at hlimit
    exact h.ifError_perform hctx s _ hlimit limit rfl

end Frugal

end EntryPoint

/-! ## What fails by itself -/

theorem RangeType.unbudgeted_sendFunction {m : Type → Type} (type : RangeType m α) :
    IfError Error.Unbudgeted type.sendFunction := by
  unfold sendFunction
  split
  · exact ifError_ok
  · exact ifError_error.2 fun _ heq => nomatch heq

theorem RangeType.unbudgeted_receiveFunction {m : Type → Type} (type : RangeType m α) :
    IfError Error.Unbudgeted type.receiveFunction := by
  unfold receiveFunction
  split
  · exact ifError_ok
  · exact ifError_error.2 fun _ heq => nomatch heq

theorem Sink.unbudgeted_write (bytes : Bytes) (sink : Sink) :
    IfError Error.Unbudgeted (sink.write bytes).1 := by
  unfold write
  split
  · exact ifError_ok
  · split
    · exact ifError_ok
    · exact ifError_error.2 fun _ heq => nomatch heq

theorem Message.unbudgeted_writeFrame (message : Bytes) (sink : Sink) :
    IfError Error.Unbudgeted (writeFrame message sink).1 := by
  unfold writeFrame
  split
  · exact ifError_error.2 fun _ heq => nomatch heq
  · have hwrite := Sink.unbudgeted_write (Word.bigEndian (UInt32.ofNat message.length)) sink
    split
    · next heq =>
      rw [heq] at hwrite
      exact ifError_error.2 (ifError_error.1 hwrite)
    · exact Sink.unbudgeted_write _ _

theorem Message.unbudgeted_frames (count : Nat) (bytes : Bytes) :
    ∀ e, (frames count bytes).failure = some e → e.Unbudgeted := by
  fun_induction frames count bytes with
  | case1 bytes =>
    intro e he
    split at he
    · cases he
    · cases he
      exact fun _ heq => nomatch heq
  | case2 =>
    rintro e ⟨⟩
    exact fun _ heq => nomatch heq
  | case3 =>
    rintro e ⟨⟩
    exact fun _ heq => nomatch heq
  | case4 _ _ _ _ _ _ _ ih => exact ih

theorem Message.unbudgeted_records (bytes : Bytes) :
    ∀ e, (records bytes).failure = some e → e.Unbudgeted := by
  unfold records
  split
  · rintro e ⟨⟩
    exact fun _ heq => nomatch heq
  · exact unbudgeted_frames _ _

theorem Multirange.failure_items [Interval α] {e : Error}
    (hslots : ∀ payload, IfError p (Interval.unpack payload : Except Error α)) (mr : Multirange α)
    (he : (Feed.ofReadings mr.items).failure = some e) : p e := by
  obtain ⟨rest, hitems, ⟨hnone, _⟩ | ⟨e', rest', hsome, rfl⟩⟩ :=
    Feed.exists_rest_of_ofReadings mr.items
  · rw [hnone] at he
    cases he
  · rw [hsome] at he
    cases he
    have hmem : Except.error e ∈ mr.items := by
      rw [hitems]
      exact List.mem_append_right _ List.mem_cons_self
    obtain ⟨payload, _, hpayload⟩ := List.mem_map.1 hmem
    exact hslots payload e hpayload

/-! ## The entry points of input and output -/

namespace EntryPoint

open Multirange

variable [Interval α]

theorem parse_frugal (p : Error → Prop) (text : String) (tag : Tag) (typmod : Int32) :
    (parse text tag typmod : EntryPoint α _ _ _ _ _).Frugal p where
  refused _ := ifError_ok
  picked _ f htype hpick x := by
    cases hpick
    exact htype.input x typmod
  feed _ he := by
    obtain ⟨failure, _, rfl⟩ := Option.map_eq_some_iff.1 he
    exact .inl fun _ heq => nomatch heq
  keep _ _ := ifError_ok
  failed _ _ := rfl
  answered xs _ e he := Error.unbudgeted_of_isCorrupt (isCorrupt_ofList tag _ e he)

theorem toText_frugal (hslots : ∀ payload, IfError p (Interval.unpack payload : Except Error α))
    (mr : Multirange α) : (toText mr).Frugal p where
  refused _ := ifError_ok
  picked _ f htype hpick x := by
    cases hpick
    exact htype.output x
  feed _ he := .inr (mr.failure_items hslots he)
  keep _ _ := ifError_ok
  failed _ _ := rfl
  answered _ _ := ifError_ok

theorem send_frugal (hslots : ∀ payload, IfError p (Interval.unpack payload : Except Error α))
    (mr : Multirange α) : (send mr).Frugal p where
  refused := RangeType.unbudgeted_sendFunction
  picked _ f htype hpick x := htype.send f (RangeType.sendFunction_eq_ok_iff.1 hpick) x
  feed _ he := .inr (mr.failure_items hslots he)
  keep := Message.unbudgeted_writeFrame
  failed _ _ := rfl
  answered _ _ := ifError_ok

theorem receive_frugal (p : Error → Prop) (message : Bytes) (tag : Tag) (typmod : Int32) :
    (receive message tag typmod : EntryPoint α _ _ _ _ _).Frugal p where
  refused type := ifError_map type.unbudgeted_receiveFunction
  picked type f htype hpick x := by
    obtain ⟨receive, hreceive, rfl⟩ := map_eq_ok_iff.1 hpick
    exact htype.receive receive (RangeType.receiveFunction_eq_ok_iff.1 hreceive) x typmod
  feed e he := .inl (Message.unbudgeted_records message e he)
  keep _ _ := ifError_ok
  failed _ _ := rfl
  answered xs _ e he := Error.unbudgeted_of_isCorrupt (isCorrupt_ofList tag xs e he)

end EntryPoint

namespace Multirange

/-- An operation depends on its depth budget only in that the budget may be exhausted. With more
levels left it gives what it gives with fewer, unless these do not suffice. What it reports as spent
is the budget that it was given, if neither the functions of its context nor the slots report a
budget of their own, that is, if `p` can be `Error.Unbudgeted`. -/
theorem depth_only_exhausts [Interval α]
    (hslots : ∀ payload, IfError p (Interval.unpack payload : Except Error α)) :
    (∀ text tag typmod, Budgeted (σ := σ) p (parse (α := α) text tag typmod)) ∧
    (∀ mr : Multirange α, Budgeted (σ := σ) p mr.toText) ∧
    (∀ mr : Multirange α, Budgeted (σ := σ) p mr.send) ∧
    (∀ message tag typmod, Budgeted (σ := σ) p (receive (α := α) message tag typmod)) ∧
    (∀ a b : Multirange IntSpan, OnlyExhausts (tryEq a b) ∧ OnlyExhausts (tryCompare a b)) ∧
    (∀ a b : Multirange Metered, OnlyExhausts (tryEq a b) ∧ OnlyExhausts (tryCompare a b)) := by
  refine ⟨fun text tag typmod => ?_, fun mr => ?_, fun mr => ?_, fun message tag typmod => ?_,
    fun a b => ⟨?_, ?_⟩, fun a b => ⟨?_, ?_⟩⟩
  · exact (EntryPoint.parse_frugal p text tag typmod).budgeted
      (EntryPoint.perform_parse text tag typmod)
  · exact (EntryPoint.toText_frugal hslots mr).budgeted (EntryPoint.perform_toText mr)
  · exact (EntryPoint.send_frugal hslots mr).budgeted (EntryPoint.perform_send mr)
  · exact (EntryPoint.receive_frugal p message tag typmod).budgeted
      (EntryPoint.perform_receive message tag typmod)
  · exact tryEq_onlyExhausts IntSpan.orderWithin_onlyExhausts a b
  · exact tryCompare_onlyExhausts IntSpan.orderWithin_onlyExhausts a b
  · exact tryEq_onlyExhausts Metered.orderWithin_onlyExhausts a b
  · exact tryCompare_onlyExhausts Metered.orderWithin_onlyExhausts a b

/-- One level does not suffice to receive an interval with a function that spends one itself. Two
do, and then so do the four that are left of nine. -/
theorem depth_only_exhausts_deep :
    (∀ payload, IfError Error.Unbudgeted (Interval.unpack payload : Except Error IntSpan)) ∧
    ∃ ctx : Context (StateM Unit) IntSpan, ctx.Frugal Error.Unbudgeted ∧
      let received (depth : Depth) :=
        (receive [0, 0, 0, 1, 0, 0, 0, 1, 1] IntSpan.multirangeTag (-1) (ctx.within depth)).run ()
      Exhausted (received ⟨0, 1⟩).1.1 ∧ ∃ cache,
        received ⟨0, 2⟩ =
          ((.ok (.empty IntSpan.multirangeTag), ⟨ctx.catalog, cache, ⟨0, 2⟩⟩), ()) ∧
        received ⟨5, 9⟩ =
          ((.ok (.empty IntSpan.multirangeTag), ⟨ctx.catalog, cache, ⟨5, 9⟩⟩), ()) := by
  have hslots (payload : Bytes) :
      IfError Error.Unbudgeted (Interval.unpack payload : Except Error IntSpan) := fun e he =>
    Error.unbudgeted_of_isCorrupt (IntSpan.isCorrupt_unpack payload e he)
  obtain ⟨ctx, hctx⟩ : ∃ ctx : Context (StateM Unit) IntSpan,
      ctx = .new (fun _ => pure (some ⟨IntSpan.rangeTag, "int4range", IntSpan.codec.deep⟩))
        .initial := ⟨_, rfl⟩
  have hfrugal : ctx.Frugal Error.Unbudgeted := by
    rw [hctx]
    refine ⟨fun tag => ensures_pure ?_, fun tag type h => nomatch h⟩
    rintro type ⟨⟩
    exact IntSpan.codec_deep_frugal
  have hempty : ofList IntSpan.multirangeTag [IntSpan.empty] =
      .ok (.empty IntSpan.multirangeTag) := by
    rw [ofList, canonicalize_singleton]
    rfl
  obtain ⟨cache, hrun⟩ : ∃ cache, (receive [0, 0, 0, 1, 0, 0, 0, 1, 1] IntSpan.multirangeTag (-1)
      (ctx.within ⟨0, 2⟩)).run () =
        ((.ok (.empty IntSpan.multirangeTag), ⟨ctx.catalog, cache, ⟨0, 2⟩⟩), ()) := by
    rw [hctx, ← hempty]
    exact ⟨_, rfl⟩
  refine ⟨hslots, ctx, hfrugal, ⟨1, hctx ▸ rfl⟩, cache, hrun, ?_⟩
  obtain ⟨_, _, _, hreceive, _⟩ := depth_only_exhausts (σ := Unit) hslots
  have hagrees := (hreceive [0, 0, 0, 1, 0, 0, 0, 1, 1] IntSpan.multirangeTag (-1)).agrees ctx
    ⟨0, 2⟩ ⟨5, 9⟩ () hfrugal (by decide)
  rcases hagrees with ⟨limit, hlimit⟩ | ⟨answer, cache', s', hfewer, hmore⟩
  · rw [hrun] at hlimit
    cases hlimit
  · rw [hrun] at hfewer
    cases hfewer
    exact hmore

end Multirange

end RangeUnion
