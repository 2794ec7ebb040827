import RangeUnion.Feed
import RangeUnion.Proofs.Outcome

/-!
# How a feed is handed over

A feed goes to a function element by element, in a state that the function may change. `Handed` says
what becomes of it without speaking of a program: either all elements are accepted, and then the
feed's own failure counts, or the first one that is not accepted ends it. There is always one way
that it goes (`exists_handed`). Programs go that way: `Feed.collect`, and `hand`, which also keeps
what the function answers (`Handed.run_hand`, `Handed.run_collect`).
-/

namespace RangeUnion.Feed

variable {ρ ρ' σ τ β γ ε : Type} {m : Type → Type}

/-- What is left to say once all elements are accepted. -/
def close (failure : Option Error) (ys : List γ) : Except Error (List γ) :=
  match failure with
  | some e => .error e
  | none => .ok ys

theorem map_close (failure : Option Error) (f : List γ → List ε) (ys : List γ) :
    (close failure ys).map f = close failure (f ys) := by
  cases failure <;> rfl

/-- Readings are fed in their order, up to the first that fails. -/
theorem exists_rest_of_ofReadings (readings : List (Except Error β)) : ∃ rest,
    readings = (ofReadings readings).elements.map .ok ++ rest ∧
    ((ofReadings readings).failure = none ∧ rest = [] ∨
      ∃ e rest', (ofReadings readings).failure = some e ∧ rest = .error e :: rest') := by
  induction readings with
  | nil => exact ⟨[], rfl, .inl ⟨rfl, rfl⟩⟩
  | cons reading readings ih =>
    cases reading with
    | error e => exact ⟨_, rfl, .inr ⟨e, readings, rfl, rfl⟩⟩
    | ok x =>
      obtain ⟨rest, hreadings, hend⟩ := ih
      exact ⟨rest, congrArg (.ok x :: ·) hreadings, hend⟩

/-- Reading a list gives what is fed, unless the feed ends early. -/
theorem close_ofReadings (readings : List (Except Error β)) :
    close (ofReadings readings).failure (ofReadings readings).elements = readings.mapM id := by
  induction readings with
  | nil => rfl
  | cons reading readings ih =>
    rw [List.mapM_cons, ← ih]
    cases reading with
    | error e => rfl
    | ok x =>
      show close (ofReadings readings).failure (x :: (ofReadings readings).elements) = _
      rw [← map_close _ (x :: ·)]
      cases close (ofReadings readings).failure (ofReadings readings).elements <;> rfl

/-! ## Steps -/

variable {step : β → ρ → Except Error γ × ρ} {elements front : List β} {feed : Feed β} {r r' : ρ}
  {ys : List γ}

/-- The elements are all accepted by `step`, one after the other from the state `r` on, and make
`ys`. -/
inductive Accepts (step : β → ρ → Except Error γ × ρ) : List β → ρ → List γ → ρ → Prop where
  | nil {r : ρ} : Accepts step [] r [] r
  | cons {x : β} {xs : List β} {y : γ} {ys : List γ} {r r' r'' : ρ} (hx : step x r = (.ok y, r'))
      (hxs : Accepts step xs r' ys r'') : Accepts step (x :: xs) r (y :: ys) r''

/-- From the state `r` on, `step` is given the elements `handed` of the feed, with `outcome` in the
end. -/
inductive Handed (step : β → ρ → Except Error γ × ρ) (feed : Feed β) (r : ρ) :
    (handed : List β) → (outcome : Except Error (List γ)) → ρ → Prop where
  | all {ys : List γ} {r' : ρ} (h : Accepts step feed.elements r ys r') :
      Handed step feed r feed.elements (close feed.failure ys) r'
  | stopped {front back : List β} {x : β} {ys : List γ} {r' r'' : ρ} {e : Error}
      (helements : feed.elements = front ++ x :: back) (hfront : Accepts step front r ys r')
      (hx : step x r' = (.error e, r'')) : Handed step feed r (front ++ [x]) (.error e) r''

/-- Elements in front are accepted where all are. -/
theorem Accepts.of_prefix (h : Accepts step elements r ys r') (hfront : front <+: elements) :
    ∃ ys' r', Accepts step front r ys' r' := by
  obtain ⟨back, rfl⟩ := hfront
  induction front generalizing r ys with
  | nil => exact ⟨[], r, .nil⟩
  | cons x front ih =>
    cases h with
    | cons hx hxs =>
      obtain ⟨ys', r', hys'⟩ := ih hxs
      exact ⟨_, r', .cons hx hys'⟩

/-- Every feed is handed over in some way. -/
theorem exists_handed (step : β → ρ → Except Error γ × ρ) (feed : Feed β) (r : ρ) :
    ∃ handed outcome r', Handed step feed r handed outcome r' := by
  obtain ⟨elements, failure⟩ := feed
  have h : (∃ ys r', Accepts step elements r ys r') ∨ ∃ front x back ys r' r'' e,
      elements = front ++ x :: back ∧ Accepts step front r ys r' ∧
        step x r' = (.error e, r'') := by
    induction elements generalizing r with
    | nil => exact .inl ⟨[], r, .nil⟩
    | cons x xs ih =>
      rcases hx : step x r with ⟨e | y, r₁⟩
      · exact .inr ⟨[], x, xs, [], r, r₁, e, rfl, .nil, hx⟩
      · rcases ih r₁ with ⟨ys, r', hxs⟩ | ⟨front, x', back, ys, r', r'', e, rfl, hfront, hx'⟩
        · exact .inl ⟨y :: ys, r', .cons hx hxs⟩
        · exact .inr ⟨x :: front, x', back, y :: ys, r', r'', e, rfl, .cons hx hfront, hx'⟩
  rcases h with ⟨ys, r', hall⟩ | ⟨front, x, back, ys, r', r'', e, helements, hfront, hx⟩
  · exact ⟨_, _, _, .all hall⟩
  · exact ⟨_, _, _, .stopped helements hfront hx⟩

section

variable {step' : β → ρ' → Except Error γ × ρ'} (place : ρ → List β → ρ')

theorem Accepts.embed (hstep : ∀ x r log,
      step' x (place r log) = ((step x r).1, place (step x r).2 (log ++ [x])))
    (h : Accepts step elements r ys r') (log : List β) :
    Accepts step' elements (place r log) ys (place r' (log ++ elements)) := by
  induction h generalizing log with
  | nil =>
    rw [List.append_nil]
    exact .nil
  | @cons x xs y ys r r₁ r₂ hx _ ih =>
    have hx' := hstep x r log
    rw [hx] at hx'
    rw [List.append_cons]
    exact .cons hx' (ih (log ++ [x]))

/-- A step that does as `step` does, in a state that may log the elements, is handed the same. -/
theorem Handed.embed (hstep : ∀ x r log,
      step' x (place r log) = ((step x r).1, place (step x r).2 (log ++ [x])))
    {handed : List β} {outcome : Except Error (List γ)} (h : Handed step feed r handed outcome r')
    (log : List β) : Handed step' feed (place r log) handed outcome (place r' (log ++ handed)) := by
  cases h with
  | all hall => exact .all (hall.embed place hstep log)
  | @stopped front back x ys r₁ r₂ e helements hfront hx =>
    have hx' := hstep x r₁ (log ++ front)
    rw [hx] at hx'
    rw [← List.append_assoc]
    exact .stopped helements (hfront.embed place hstep log) hx'

end

/-! ## Keeping what is answered -/

/-- Hand over elements in order and keep what is answered, up to the first failure. -/
def hand [Monad m] (f : β → m (Except Error γ)) (keep : γ → τ → Except Error ε × τ)
    (failure : Option Error) : List β → τ → m (Except Error (List ε) × τ)
  | [], t => return (close failure [], t)
  | x :: xs, t => do
    match ← f x with
    | .error e => return (.error e, t)
    | .ok y =>
      match keep y t with
      | (.error e, t) => return (.error e, t)
      | (.ok z, t) => do
        let (zs, t) ← hand f keep failure xs t
        return (zs.map (z :: ·), t)

/-- Call `f` on an element and keep what it answers. -/
def keeping (f : β → StateM σ (Except Error γ)) (keep : γ → τ → Except Error ε × τ) (x : β) :
    σ × τ → Except Error ε × (σ × τ) := fun (s, t) =>
  match (f x).run s with
  | (.error e, s) => (.error e, (s, t))
  | (.ok y, s) => ((keep y t).1, (s, (keep y t).2))

variable {f : β → StateM σ (Except Error γ)} {keep : γ → τ → Except Error ε × τ} {s s' : σ}
  {t t' : τ}

theorem keeping_of_error {x : β} {e : Error} (h : (f x).run s = (.error e, s')) :
    keeping f keep x (s, t) = (.error e, (s', t)) := by
  simp only [keeping, h]

theorem keeping_of_ok {x : β} {y : γ} (h : (f x).run s = (.ok y, s')) :
    keeping f keep x (s, t) = ((keep y t).1, (s', (keep y t).2)) := by
  simp only [keeping, h]

theorem run_hand_cons (failure : Option Error) (x : β) (xs : List β) (s : σ) (t : τ) :
    (hand f keep failure (x :: xs) t).run s =
      match keeping f keep x (s, t) with
      | (.error e, (s, t)) => ((.error e, t), s)
      | (.ok z, (s, t)) =>
        let rest := (hand f keep failure xs t).run s
        ((rest.1.1.map (z :: ·), rest.1.2), rest.2) := by
  rw [hand, StateT.run_bind, keeping]
  rcases (f x).run s with ⟨e | y, s'⟩
  · rfl
  · show StateT.run (match keep y t with
      | (.error e, t) => pure (.error e, t)
      | (.ok z, t) => do
        let (zs, t) ← hand f keep failure xs t
        return (zs.map (z :: ·), t)) s' = _
    rcases hkeep : keep y t with ⟨e | z, t'⟩
    · simp only [hkeep]
      rfl
    · simp only [hkeep]
      rfl

/-- What is accepted in front goes before what is made of the rest. -/
theorem Accepts.run_hand {zs : List ε}
    (h : Accepts (keeping f keep) front (s, t) zs (s', t')) (failure : Option Error)
    (back : List β) : (hand f keep failure (front ++ back) t).run s =
      let rest := (hand f keep failure back t').run s'
      ((rest.1.1.map (zs ++ ·), rest.1.2), rest.2) := by
  generalize hr : (s, t) = r at h
  generalize hr' : (s', t') = r' at h
  induction h generalizing s t with
  | nil =>
    cases hr
    cases hr'
    rw [List.nil_append]
    rcases (hand f keep failure back t').run s' with ⟨⟨e | ys, t''⟩, s''⟩ <;> rfl
  | @cons x xs z zs r r₁ r₂ hx _ ih =>
    subst hr
    obtain ⟨s₁, t₁⟩ := r₁
    rw [List.cons_append, run_hand_cons, hx]
    simp only [ih rfl hr']
    rcases (hand f keep failure back t').run s' with ⟨⟨e | ys, t''⟩, s''⟩ <;> rfl

/-- A feed that is handed over by a program goes the way that is said. -/
theorem Handed.run_hand {handed : List β} {outcome : Except Error (List ε)}
    (h : Handed (keeping f keep) feed (s, t) handed outcome (s', t')) :
    (hand f keep feed.failure feed.elements t).run s = ((outcome, t'), s') := by
  generalize hr' : (s', t') = r' at h
  cases h with
  | @all zs r' hall =>
    subst hr'
    have hrun := hall.run_hand feed.failure []
    rw [List.append_nil] at hrun
    rw [hrun]
    show (((close feed.failure []).map (zs ++ ·), t'), s') = _
    rw [map_close, List.append_nil]
  | @stopped front back x zs r₁ r₂ e helements hfront hx =>
    subst hr'
    rw [helements, hfront.run_hand, run_hand_cons, hx]
    rfl

/-! ## Collecting -/

variable [Monad m] [LawfulMonad m]

theorem collect_nil (f : β → m (Except Error γ)) (failure : Option Error) :
    (⟨[], failure⟩ : Feed β).collect f = pure (close failure []) := by
  rw [collect, inOrder, pure_bind]
  cases failure <;> rfl

theorem inOrder_of_map_eq {read : β → Except Error γ} {elements : List β}
    {xs : List γ} (h : elements.map read = xs.map .ok) :
    inOrder (fun x => (pure (read x) : m (Except Error γ))) elements = pure (.ok xs) := by
  induction elements generalizing xs with
  | nil =>
    rw [List.map_eq_nil_iff.1 h.symm]
    rfl
  | cons element elements ih =>
    cases xs with
    | nil => cases h
    | cons x xs =>
      rw [List.map_cons, List.map_cons, List.cons.injEq] at h
      rw [inOrder, h.1, pure_bind]
      simp only [ih h.2, pure_bind]
      rfl

/-- Elements that are all read well give what they are read as. -/
theorem collect_of_map_eq {read : β → Except Error γ} {elements : List β}
    {xs : List γ} (h : elements.map read = xs.map .ok) :
    (⟨elements, none⟩ : Feed β).collect (fun x => (pure (read x) : m (Except Error γ))) =
      pure (.ok xs) := by
  unfold collect
  rw [inOrder_of_map_eq h, pure_bind]

/-- A function that accepts everything lets the feed's own failure count. -/
theorem collect_pure (f : β → γ) (feed : Feed β) :
    feed.collect (fun x => (pure (.ok (f x)) : m (Except Error γ))) =
      pure ((close feed.failure feed.elements).map (List.map f)) := by
  rw [collect, inOrder_pure, pure_bind, map_close]
  cases feed.failure <;> rfl

theorem collect_cons (f : β → m (Except Error γ)) (x : β) (xs : List β)
    (failure : Option Error) : (⟨x :: xs, failure⟩ : Feed β).collect f = do
      match ← f x with
      | .error e => return .error e
      | .ok y => return (← (⟨xs, failure⟩ : Feed β).collect f).map (y :: ·) := by
  rw [collect, inOrder, bind_assoc]
  refine bind_congr fun answer => ?_
  cases answer with
  | error e => rw [pure_bind]
  | ok y =>
    simp only [collect, bind_assoc, pure_bind]
    refine bind_congr fun answers => ?_
    cases answers with
    | error e => rw [pure_bind]; rfl
    | ok ys => cases failure <;> rw [pure_bind] <;> rfl

/-- Collecting is handing over where all that is answered is kept as it is. -/
theorem hand_eq_collect (f : β → m (Except Error γ)) (feed : Feed β) (t : τ) :
    hand f (fun y t => (.ok y, t)) feed.failure feed.elements t = (·, t) <$> feed.collect f := by
  obtain ⟨elements, failure⟩ := feed
  induction elements with
  | nil =>
    rw [collect_nil, map_pure]
    rfl
  | cons x xs ih =>
    rw [hand, collect_cons, map_bind]
    refine bind_congr fun answer => ?_
    cases answer with
    | error e => rw [map_pure]
    | ok y =>
      simp only [ih]
      simp only [← bind_pure_comp, bind_assoc, pure_bind]

/-- Collecting hands a feed over. -/
theorem Handed.run_collect {handed : List β} {outcome : Except Error (List γ)}
    (h : Handed (fun x => (f x).run) feed s handed outcome s') :
    (feed.collect f).run s = (outcome, s') := by
  have hstep (x : β) (s : σ) (log : List β) : keeping f (fun y (t : Unit) => (.ok y, t)) x (s, ()) =
      (((f x).run s).1, (((f x).run s).2, ())) := by
    rw [keeping]
    rcases (f x).run s with ⟨e | y, s'⟩ <;> rfl
  have hrun := (h.embed (fun s _ => (s, ())) hstep []).run_hand
  rw [hand_eq_collect, StateT.run_map] at hrun
  have houtcome := congrArg (fun run : (Except Error (List γ) × Unit) × σ => (run.1.1, run.2)) hrun
  exact houtcome

end RangeUnion.Feed
