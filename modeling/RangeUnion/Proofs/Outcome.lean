import RangeUnion.Error

/-!
# Answers and failures

A sequence of steps that may fail gives an answer if all of its steps do (`bind_eq_ok_iff`).
`IfOk p` says of an outcome that it has `p` unless it is a failure, and `IfError p` that its error
has `p` unless it is an answer. Both hold of a sequence if they hold of its steps.
-/

namespace RangeUnion

variable {ε β γ : Type}

theorem bind_eq_ok_iff {result : Except ε β} {next : β → Except ε γ} {y : γ} :
    result >>= next = .ok y ↔ ∃ x, result = .ok x ∧ next x = .ok y := by
  cases result with
  | error e => simp [bind, Except.bind]
  | ok x => simp [bind, Except.bind]

theorem map_eq_ok_iff {result : Except ε β} {f : β → γ} {y : γ} :
    result.map f = .ok y ↔ ∃ x, result = .ok x ∧ f x = y := by
  cases result with
  | error e => simp [Except.map]
  | ok x => simp [Except.map]

/-! ## What holds of answers -/

variable {result : Except Error β}

/-- If `result` is an answer and no failure, it has `p`. -/
def IfOk (p : β → Prop) (result : Except Error β) : Prop := ∀ x, result = .ok x → p x

theorem ifOk_ok {p : β → Prop} {x : β} : IfOk p (.ok x) ↔ p x := by
  constructor
  · intro h
    exact h x rfl
  · intro h y hy
    cases hy
    exact h

theorem ifOk_error {p : β → Prop} {e : Error} : IfOk p (.error e) := fun _ h => nomatch h

theorem ifOk_bind {next : β → Except Error γ} {p : γ → Prop} (h : ∀ x, IfOk p (next x)) :
    IfOk p (result >>= next) := by
  intro y hy
  obtain ⟨x, _, hnext⟩ := bind_eq_ok_iff.1 hy
  exact h x y hnext

/-! ## What holds of errors -/

/-- If `result` is a failure and no answer, its error has `p`. -/
def IfError (p : Error → Prop) (result : Except Error β) : Prop := ∀ e, result = .error e → p e

theorem ifError_ok {p : Error → Prop} {x : β} : IfError p (.ok x) := fun _ h => nomatch h

theorem ifError_error {p : Error → Prop} {e : Error} :
    IfError p (.error e : Except Error β) ↔ p e := by
  constructor
  · intro h
    exact h e rfl
  · intro h e' he'
    cases he'
    exact h

theorem ifError_bind {next : β → Except Error γ} {p : Error → Prop} (h : IfError p result)
    (hnext : ∀ x, IfError p (next x)) : IfError p (result >>= next) := by
  cases result with
  | error e => exact ifError_error.2 (ifError_error.1 h)
  | ok x => exact hnext x

theorem ifError_map {f : β → γ} {p : Error → Prop} (h : IfError p result) :
    IfError p (result.map f) := by
  cases result with
  | error e => exact ifError_error.2 (ifError_error.1 h)
  | ok x => exact ifError_ok

/-- The error says that a stored value is corrupt. -/
def Error.IsCorrupt (e : Error) : Prop := ∃ cause, e = .corruptValue cause

theorem ifError_corruptValue (cause : Corruption) :
    IfError Error.IsCorrupt (.error (.corruptValue cause) : Except Error β) :=
  ifError_error.2 ⟨cause, rfl⟩

/-! ## Lists of outcomes -/

theorem mapM_id_eq_ok_iff {results : List (Except ε β)} {ys : List β} :
    results.mapM id = .ok ys ↔ results = ys.map .ok := by
  induction results generalizing ys with
  | nil => cases ys <;> simp [pure, Except.pure]
  | cons result results ih =>
    rw [List.mapM_cons, bind_eq_ok_iff]
    simp only [bind_eq_ok_iff, ih, id]
    constructor
    · rintro ⟨x, rfl, xs, rfl, heq⟩
      cases heq
      rfl
    · intro h
      cases ys with
      | nil => cases h
      | cons y ys =>
        cases h
        exact ⟨y, rfl, ys, rfl, rfl⟩

/-- Reading a list of results gives the first failure, if there is one. -/
theorem mapM_id_eq_error_iff {results : List (Except ε β)} {e : ε} :
    results.mapM id = .error e ↔
      ∃ i : Nat, results[i]? = some (.error e) ∧ ∀ j < i, ∃ x, results[j]? = some (.ok x) := by
  induction results with
  | nil =>
    constructor
    · intro h
      cases h
    · rintro ⟨i, hi, _⟩
      cases hi
  | cons result results ih =>
    rw [List.mapM_cons]
    cases result with
    | error e' =>
      constructor
      · rintro ⟨⟩
        exact ⟨0, rfl, fun j hj => absurd hj (Nat.not_lt_zero j)⟩
      · rintro ⟨i, hi, hbefore⟩
        cases i with
        | zero =>
          cases hi
          rfl
        | succ i =>
          obtain ⟨x, hx⟩ := hbefore 0 (Nat.zero_lt_succ i)
          cases hx
    | ok x =>
      have hrest : (Except.ok x >>= fun y => results.mapM id >>= fun ys => pure (y :: ys)) =
          .error e ↔ results.mapM id = .error e := by
        show (results.mapM id >>= fun ys => .ok (x :: ys)) = .error e ↔ _
        cases results.mapM id <;> simp [bind, Except.bind]
      rw [id, hrest, ih]
      constructor
      · rintro ⟨i, hi, hbefore⟩
        refine ⟨i + 1, hi, fun j hj => ?_⟩
        cases j with
        | zero => exact ⟨x, rfl⟩
        | succ j => exact hbefore j (Nat.lt_of_succ_lt_succ hj)
      · rintro ⟨i, hi, hbefore⟩
        cases i with
        | zero => cases hi
        | succ i => exact ⟨i, hi, fun j hj => hbefore (j + 1) (Nat.succ_lt_succ hj)⟩

theorem ifError_mapM_id {results : List (Except Error β)} {p : Error → Prop}
    (h : ∀ result ∈ results, IfError p result) : IfError p (results.mapM id) := by
  induction results with
  | nil => exact ifError_ok
  | cons result results ih =>
    rw [List.mapM_cons]
    refine ifError_bind (h result List.mem_cons_self) fun x => ?_
    refine ifError_bind (ih fun r hr => h r (List.mem_cons_of_mem _ hr)) fun xs => ?_
    exact ifError_ok

end RangeUnion
