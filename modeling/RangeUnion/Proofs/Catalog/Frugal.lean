import RangeUnion.IntSpan.Interval
import RangeUnion.Proofs.Catalog.History
import RangeUnion.Proofs.Catalog.Yields
import RangeUnion.Proofs.Feed

/-!
# Functions that spend depth or ignore it

A function of a codec is `Frugal` if it ignores the depth budget that it is given, or first spends a
level of it. Then the budget decides nothing about what it gives but whether it is exhausted
(`Frugal.run_agrees`), and what it reports as spent is its own budget (`Frugal.reports`). Both carry
over to a feed that is handed to it (`Feed.Handed.of_agrees`, `Feed.Handed.ifError`). The functions
of the codec of integers that spends depth are frugal (`IntSpan.codec_deep_frugal`).
-/

namespace RangeUnion

variable {σ α β γ : Type} {d₁ d₂ depth : Depth} {p : Error → Prop}

/-- The outcome is that no level of depth is left. -/
def Exhausted (result : Except Error β) : Prop :=
  ∃ limit, result = .error (.stackDepthExceeded limit)

/-- The error is none that a depth budget makes. -/
def Error.Unbudgeted (e : Error) : Prop := ∀ limit, e ≠ .stackDepthExceeded limit

theorem Error.unbudgeted_of_isCorrupt {e : Error} (h : e.IsCorrupt) : e.Unbudgeted := by
  obtain ⟨cause, rfl⟩ := h
  exact fun _ heq => nomatch heq

theorem Depth.level_lt_of_remaining_le (h : d₁.remaining ≤ d₂.remaining)
    (hlevel : d₁.level < d₁.limit) : d₂.level < d₂.limit := by
  unfold remaining at h
  omega

/-! ## Functions of a codec -/

/-- `g` ignores its depth, or first spends a level of it. What it does for the rest fails only with
`p`. -/
def Frugal (p : Error → Prop) (g : Depth → StateM σ (Except Error β)) : Prop :=
  ∃ act, Ensures act (IfError p) ∧
    ((∀ depth, g depth = act) ∨ ∀ depth, g depth = Codec.spending depth act)

/-- If the error is that a budget is spent, the budget is one of `limit` levels, unless the error
has `p`. -/
def Error.Reports (limit : Nat) (p : Error → Prop) (e : Error) : Prop :=
  ∀ spent, e = .stackDepthExceeded spent → spent = limit ∨ p e

theorem Error.Unbudgeted.reports {e : Error} (h : e.Unbudgeted) (limit : Nat) (p : Error → Prop) :
    e.Reports limit p := fun spent heq => absurd heq (h spent)

theorem Error.reports_of {e : Error} (h : p e) (limit : Nat) : e.Reports limit p :=
  fun _ _ => .inr h

theorem Error.reports_self (limit : Nat) (p : Error → Prop) :
    (Error.stackDepthExceeded limit).Reports limit p := by
  rintro spent ⟨⟩
  exact .inl rfl

namespace Frugal

variable {g : Depth → StateM σ (Except Error β)}

theorem run_agrees (h : Frugal p g) (hle : d₁.remaining ≤ d₂.remaining) (s : σ) :
    Exhausted ((g d₁).run s).1 ∨ (g d₁).run s = (g d₂).run s := by
  obtain ⟨act, _, hg | hg⟩ := h
  · rw [hg, hg]
    exact .inr rfl
  · rw [hg, hg]
    unfold Codec.spending
    rcases Nat.lt_or_ge d₁.level d₁.limit with hlevel | hlevel
    · rw [Depth.enter_of_lt hlevel,
        Depth.enter_of_lt (Depth.level_lt_of_remaining_le hle hlevel)]
      exact .inr rfl
    · rw [Depth.enter_of_le hlevel]
      exact .inl ⟨_, rfl⟩

theorem reports (h : Frugal p g) (depth : Depth) (s : σ) :
    IfError (Error.Reports depth.limit p) ((g depth).run s).1 := by
  obtain ⟨act, hact, hg | hg⟩ := h
  · rw [hg]
    exact fun e he => Error.reports_of (hact s e he) _
  · rw [hg]
    unfold Codec.spending
    rcases Nat.lt_or_ge depth.level depth.limit with hlevel | hlevel
    · rw [Depth.enter_of_lt hlevel]
      exact fun e he => Error.reports_of (hact s e he) _
    · rw [Depth.enter_of_le hlevel]
      exact ifError_error.2 (Error.reports_self _ _)

end Frugal

/-- All functions of the codec are frugal. -/
structure Codec.Frugal (p : Error → Prop) (codec : Codec (StateM σ) α) : Prop where
  input : ∀ literal typmod, RangeUnion.Frugal p (codec.input literal typmod)
  output : ∀ x, RangeUnion.Frugal p (codec.output x)
  send : ∀ send ∈ codec.send, ∀ x, RangeUnion.Frugal p (send x)
  receive : ∀ receive ∈ codec.receive, ∀ message typmod,
    RangeUnion.Frugal p (receive message typmod)

/-- All codecs that the catalog gives or the cache keeps are frugal. -/
structure Context.Frugal (p : Error → Prop) (ctx : Context (StateM σ) α) : Prop where
  catalog : ∀ tag, Ensures (ctx.catalog tag) fun found => ∀ type ∈ found, type.codec.Frugal p
  cache : ∀ tag, ∀ type ∈ ctx.cache.find? tag, type.codec.Frugal p

theorem Context.Frugal.ensures_consult {ctx : Context (StateM σ) α} (h : ctx.Frugal p) (tag : Tag) :
    Ensures (ctx.cache.consult ctx.catalog tag) fun found =>
      ∀ type ∈ found, type.codec.Frugal p := by
  unfold Cache.consult
  cases hfind : ctx.cache.find? tag with
  | none => exact h.catalog tag
  | some type => exact ensures_pure fun other hother => h.cache tag other (hfind ▸ hother)

/-! ## The codec of integers -/

namespace IntSpan

theorem unbudgeted_shift (move : Bool) (bound : Option Int32) :
    IfError Error.Unbudgeted (shift move bound) := by
  unfold shift
  split
  · split
    · split
      · exact ifError_ok
      · exact ifError_error.2 fun _ heq => nomatch heq
    · exact ifError_ok
  · exact ifError_ok

theorem unbudgeted_ofBounds (l : Option Int32) (lowerIncluded : Bool) (u : Option Int32)
    (upperIncluded : Bool) :
    IfError Error.Unbudgeted (ofBounds l lowerIncluded u upperIncluded) := by
  unfold ofBounds
  split
  · exact ifError_error.2 fun _ heq => nomatch heq
  · refine ifError_bind (unbudgeted_shift _ _) fun l => ?_
    exact ifError_bind (unbudgeted_shift _ _) fun u => ifError_ok

theorem unbudgeted_readBound (input : String) (part : List Char) :
    IfError Error.Unbudgeted (readBound input part) := by
  unfold readBound
  split
  · exact ifError_ok
  · split
    · exact ifError_ok
    · exact ifError_error.2 fun _ heq => nomatch heq

theorem unbudgeted_parse (input : String) : IfError Error.Unbudgeted (parse input) := by
  unfold parse
  dsimp only
  split
  · exact ifError_ok
  · split
    · exact ifError_error.2 fun _ heq => nomatch heq
    · refine ifError_bind (unbudgeted_readBound _ _) fun l => ?_
      exact ifError_bind (unbudgeted_readBound _ _) fun u => unbudgeted_ofBounds _ _ _ _

theorem unbudgeted_receiveBound (infinite : Bool) (bytes : Bytes) :
    IfError Error.Unbudgeted (receiveBound infinite bytes) := by
  unfold receiveBound
  split
  · exact ifError_ok
  · split
    · exact ifError_error.2 fun _ heq => nomatch heq
    · split
      · exact ifError_error.2 fun _ heq => nomatch heq
      · split
        · exact ifError_error.2 fun _ heq => nomatch heq
        · exact ifError_ok

theorem unbudgeted_receive (message : Bytes) : IfError Error.Unbudgeted (receive message) := by
  unfold receive
  split
  · exact ifError_error.2 fun _ heq => nomatch heq
  · split
    · split
      · exact ifError_ok
      · exact ifError_error.2 fun _ heq => nomatch heq
    · refine ifError_bind (unbudgeted_receiveBound _ _) fun (l, bytes) => ?_
      refine ifError_bind (unbudgeted_receiveBound _ _) fun (u, bytes) => ?_
      dsimp only
      split
      · exact ifError_error.2 fun _ heq => nomatch heq
      · exact unbudgeted_ofBounds _ _ _ _

/-- The codec of integers is frugal where it spends depth. -/
theorem codec_deep_frugal :
    (codec.deep : Codec (StateM σ) IntSpan).Frugal Error.Unbudgeted where
  input literal _ := ⟨_, ensures_pure (unbudgeted_parse literal), .inr fun _ => rfl⟩
  output _ := ⟨_, ensures_pure ifError_ok, .inr fun _ => rfl⟩
  send := by
    rintro send ⟨⟩ x
    exact ⟨_, ensures_pure ifError_ok, .inr fun _ => rfl⟩
  receive := by
    rintro receive ⟨⟩ message _
    exact ⟨_, ensures_pure (unbudgeted_receive message), .inr fun _ => rfl⟩

end IntSpan

/-! ## Handing over -/

namespace Feed

variable {ρ : Type} {step step' : β → ρ → Except Error γ × ρ} {elements handed : List β}
  {feed : Feed β} {r r' : ρ} {ys : List γ} {outcome : Except Error (List γ)} {q : Error → Prop}

theorem Accepts.of_agrees (h : ∀ x r, Exhausted (step x r).1 ∨ step x r = step' x r)
    (haccepts : Accepts step elements r ys r') : Accepts step' elements r ys r' := by
  induction haccepts with
  | nil => exact .nil
  | @cons x xs y ys r r₁ r₂ hx _ ih =>
    rcases h x r with ⟨limit, hspent⟩ | heq
    · rw [hx] at hspent
      cases hspent
    · exact .cons (heq ▸ hx) ih

/-- Unless a step exhausts its budget, steps that agree are handed the same, with the same
outcome. -/
theorem Handed.of_agrees (h : ∀ x r, Exhausted (step x r).1 ∨ step x r = step' x r)
    (hhanded : Handed step feed r handed outcome r') :
    Exhausted outcome ∨ Handed step' feed r handed outcome r' := by
  cases hhanded with
  | all hall => exact .inr (.all (hall.of_agrees h))
  | @stopped front back x ys r₁ r₂ e helements hfront hx =>
    rcases h x r₁ with ⟨limit, hspent⟩ | heq
    · rw [hx] at hspent
      exact .inl ⟨limit, congrArg Except.error (Except.error.inj hspent)⟩
    · exact .inr (.stopped helements (hfront.of_agrees h) (heq ▸ hx))

/-- What a handing over fails with is the failure of a step, or the feed's own. -/
theorem Handed.ifError (hstep : ∀ x r, IfError q (step x r).1)
    (hfeed : ∀ e, feed.failure = some e → q e) (hhanded : Handed step feed r handed outcome r') :
    IfError q outcome := by
  cases hhanded with
  | all hall =>
    unfold close
    cases hfailure : feed.failure with
    | none => exact ifError_ok
    | some e => exact ifError_error.2 (hfeed e hfailure)
  | @stopped front back x ys r₁ r₂ e helements hfront hx =>
    have he := hstep x r₁
    rw [hx] at he
    exact ifError_error.2 (ifError_error.1 he)

variable {τ ε : Type} {f f' : β → StateM σ (Except Error γ)} {keep : γ → τ → Except Error ε × τ}

theorem keeping_agrees (h : ∀ x s, Exhausted ((f x).run s).1 ∨ (f x).run s = (f' x).run s) (x : β)
    (r : σ × τ) : Exhausted (keeping f keep x r).1 ∨ keeping f keep x r = keeping f' keep x r := by
  obtain ⟨s, t⟩ := r
  rcases h x s with ⟨limit, hspent⟩ | heq
  · have hrun : (f x).run s = (.error (.stackDepthExceeded limit), ((f x).run s).2) :=
      Prod.ext hspent rfl
    rw [keeping_of_error hrun]
    exact .inl ⟨limit, rfl⟩
  · refine .inr ?_
    simp only [keeping, heq]

theorem ifError_keeping (hf : ∀ x s, IfError q ((f x).run s).1)
    (hkeep : ∀ y t, IfError q (keep y t).1) (x : β) (r : σ × τ) :
    IfError q (keeping f keep x r).1 := by
  obtain ⟨s, t⟩ := r
  have hx := hf x s
  rcases hrun : (f x).run s with ⟨e | y, s'⟩
  · rw [hrun] at hx
    rw [keeping_of_error hrun]
    exact ifError_error.2 (ifError_error.1 hx)
  · rw [keeping_of_ok hrun]
    exact hkeep y t

end Feed

end RangeUnion
