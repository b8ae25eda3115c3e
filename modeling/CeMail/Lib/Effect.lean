import Mathlib

/-!
# Programs that may fail and change a state

A program takes a state to a result, or to an error, and in either case to a new state: a
failure undoes nothing. Three things are said of one. It runs from a state to a result in
another state, which is how a run that went well is taken apart. It keeps a property of
the state, whether it fails or not. And while a property of the state is kept it ensures
something of its result, failing nowhere the property holds.
-/

namespace Effect

variable {σ ε α β : Type} {x : ExceptT ε (StateM σ) α} {f : α → ExceptT ε (StateM σ) β}

/-- From `s` the program returns `a` and leaves `t`. -/
def Runs (x : ExceptT ε (StateM σ) α) (s : σ) (a : α) (t : σ) : Prop :=
  x.run.run s = (.ok a, t)

/-- A result that was computed without the state. -/
def lift (e : Except ε α) : ExceptT ε (StateM σ) α := ExceptT.mk (pure e)

/-- A program given by what it does to a state. -/
def act (f : σ → Except ε α × σ) : ExceptT ε (StateM σ) α := ExceptT.mk f

/-! ## Taking a run apart -/

theorem runs_pure {a b : α} {s t : σ} :
    Runs (pure a : ExceptT ε (StateM σ) α) s b t ↔ b = a ∧ t = s := by
  refine ⟨?_, ?_⟩
  · intro h
    cases h
    exact ⟨rfl, rfl⟩
  · intro h
    rcases h with ⟨rfl, rfl⟩
    rfl

theorem runs_lift {e : Except ε α} {a : α} {s t : σ} : Runs (lift e) s a t ↔ e = .ok a ∧ t = s := by
  refine ⟨?_, ?_⟩
  · intro h
    cases h
    exact ⟨rfl, rfl⟩
  · intro h
    rcases h with ⟨rfl, rfl⟩
    rfl

theorem runs_act {f : σ → Except ε α × σ} {a : α} {s t : σ} :
    Runs (act f) s a t ↔ f s = (.ok a, t) := Iff.rfl

theorem not_runs_throw {e : ε} {a : α} {s t : σ} :
    ¬Runs (throw e : ExceptT ε (StateM σ) α) s a t := fun h => by cases h

/-- One program after another: the second starts where the first returned, if it did. -/
theorem run_bind (s : σ) :
    (x >>= f).run.run s = match x.run.run s with
      | (.ok a, t) => (f a).run.run t
      | (.error e, t) => (.error e, t) := by
  show (ExceptT.bindCont f (x.run.run s).1).run (x.run.run s).2 = _
  rcases x.run.run s with ⟨_ | _, t⟩ <;> rfl

/-- The second program starts where the first returned. -/
theorem run_bind_of_runs {s t : σ} {a : α} (h : Runs x s a t) :
    (x >>= f).run.run s = (f a).run.run t := by
  rw [run_bind, h]

/-- Where the first program fails the second does not run. -/
theorem run_bind_of_error {s t : σ} {e : ε} (h : x.run.run s = (.error e, t)) :
    (x >>= f).run.run s = (.error e, t) := by
  rw [run_bind, h]

/-- A second program that leaves the state leaves it as the first did. -/
theorem state_bind (hf : ∀ a t, ((f a).run.run t).2 = t) (s : σ) :
    ((x >>= f).run.run s).2 = (x.run.run s).2 := by
  rw [run_bind]
  rcases x.run.run s with ⟨e | a, t⟩
  · rfl
  · exact hf a t

theorem run_lift_of_error {e : Except ε α} {err : ε} (h : e = .error err) (s : σ) :
    (lift e).run.run s = (.error err, s) := by
  subst h
  rfl

theorem runs_bind {s u : σ} {b : β} :
    Runs (x >>= f) s b u ↔ ∃ a t, Runs x s a t ∧ Runs (f a) t b u := by
  unfold Runs
  rw [run_bind]
  refine ⟨?_, ?_⟩
  · intro h
    split at h
    · rename_i a t hx
      exact ⟨a, t, hx, h⟩
    · cases h
  · intro h
    rcases h with ⟨a, t, hx, hf⟩
    rw [hx]
    exact hf

/-- Two runs from one state are the same. -/
theorem Runs.unique {s t t' : σ} {a a' : α} (h : Runs x s a t) (h' : Runs x s a' t') :
    a = a' ∧ t = t' := by
  have heq := h.symm.trans h'
  cases heq
  exact ⟨rfl, rfl⟩

/-! ## Keeping a property of the state -/

/-- The program keeps `P`, whether it returns or fails. -/
def Keeps (P : σ → Prop) (x : ExceptT ε (StateM σ) α) : Prop := ∀ s, P s → P (x.run.run s).2

variable {P : σ → Prop}

theorem Keeps.runs (h : Keeps P x) {s t : σ} {a : α} (hrun : Runs x s a t) (hs : P s) : P t := by
  have ht := h s hs
  rw [hrun] at ht
  exact ht

theorem keeps_pure (a : α) : Keeps P (pure a : ExceptT ε (StateM σ) α) := fun _ hs => hs

theorem keeps_lift (e : Except ε α) : Keeps P (lift e) := fun _ hs => hs

theorem keeps_throw (e : ε) : Keeps P (throw e : ExceptT ε (StateM σ) α) := fun _ hs => hs

theorem keeps_act {f : σ → Except ε α × σ} (h : ∀ s, P s → P (f s).2) : Keeps P (act f) := h

theorem Keeps.bind (hx : Keeps P x) (hf : ∀ a, Keeps P (f a)) : Keeps P (x >>= f) := by
  intro s hs
  have ht := hx s hs
  rw [run_bind]
  rcases hrun : x.run.run s with ⟨e | a, t⟩
  · rw [hrun] at ht
    exact ht
  · rw [hrun] at ht
    exact hf a t ht

/-! ## What can be said of a result -/

/-- Whatever the state, a result of the program has `Q`. -/
def Yields (x : ExceptT ε (StateM σ) α) (Q : α → Prop) : Prop := ∀ s a t, Runs x s a t → Q a

theorem yields_pure {Q : α → Prop} {a : α} (h : Q a) :
    Yields (pure a : ExceptT ε (StateM σ) α) Q := by
  intro s b t hrun
  rw [(runs_pure.mp hrun).1]
  exact h

theorem yields_throw {Q : α → Prop} (e : ε) : Yields (throw e : ExceptT ε (StateM σ) α) Q :=
  fun _ _ _ hrun => absurd hrun not_runs_throw

theorem yields_lift {Q : α → Prop} {e : Except ε α} (h : ∀ a, e = .ok a → Q a) :
    Yields (lift e : ExceptT ε (StateM σ) α) Q :=
  fun _ a _ hrun => h a (runs_lift.mp hrun).1

theorem Yields.bind {Q : α → Prop} {R : β → Prop} (hx : Yields x Q)
    (hf : ∀ a, Q a → Yields (f a) R) : Yields (x >>= f) R := by
  intro s b u hrun
  obtain ⟨a, t, hfirst, hrest⟩ := runs_bind.mp hrun
  exact hf a (hx s a t hfirst) t b u hrest

/-! ## Ensuring a property of the result -/

/-- While the state has `P`, which the program keeps, it returns, with a result that has `Q`. -/
def Ensures (P : σ → Prop) (x : ExceptT ε (StateM σ) α) (Q : α → Prop) : Prop :=
  ∀ s, P s → ∃ a t, Runs x s a t ∧ P t ∧ Q a

variable {Q : α → Prop} {R : β → Prop}

theorem ensures_pure {a : α} (h : Q a) : Ensures P (pure a : ExceptT ε (StateM σ) α) Q :=
  fun s hs => ⟨a, s, rfl, hs, h⟩

theorem ensures_lift {e : Except ε α} {a : α} (he : e = .ok a) (h : Q a) :
    Ensures P (lift e : ExceptT ε (StateM σ) α) Q :=
  fun s hs => ⟨a, s, runs_lift.mpr ⟨he, rfl⟩, hs, h⟩

theorem Ensures.bind (hx : Ensures P x Q) (hf : ∀ a, Q a → Ensures P (f a) R) :
    Ensures P (x >>= f) R := by
  intro s hs
  obtain ⟨a, t, hrun, ht, ha⟩ := hx s hs
  obtain ⟨b, u, hrun', hu, hb⟩ := hf a ha t ht
  exact ⟨b, u, runs_bind.mpr ⟨a, t, hrun, hrun'⟩, hu, hb⟩

/-- What an ensured result is, from any run. -/
theorem Ensures.runs (h : Ensures P x Q) {s t : σ} {a : α} (hs : P s) (hrun : Runs x s a t) :
    Q a := by
  obtain ⟨a', t', hrun', _, ha'⟩ := h s hs
  rw [(hrun.unique hrun').1]
  exact ha'

/-! ### A default for a failure -/

/-- The result, or a default where the program fails. -/
def orElse (x : ExceptT ε (StateM σ) α) (a : α) : ExceptT ε (StateM σ) α :=
  tryCatch x fun _ => pure a

theorem run_orElse (a : α) (s : σ) :
    (orElse x a).run.run s = match x.run.run s with
      | (.ok b, t) => (.ok b, t)
      | (.error _, t) => (.ok a, t) := by
  show (match (x.run.run s).1 with
    | .ok b => ((pure (.ok b) : StateM σ (Except ε α)))
    | .error e => (pure a : ExceptT ε (StateM σ) α).run) (x.run.run s).2 = _
  rcases x.run.run s with ⟨_ | _, t⟩ <;> rfl

/-- With a default there is always a result. -/
theorem runs_orElse (a : α) (s : σ) :
    Runs (orElse x a) s ((x.run.run s).1.toOption.getD a) (x.run.run s).2 := by
  unfold Runs
  rw [run_orElse]
  rcases x.run.run s with ⟨_ | _, t⟩ <;> rfl

/-- A default for a failure changes nothing about the state. -/
theorem keeps_orElse (h : Keeps P x) (a : α) : Keeps P (orElse x a) := by
  intro s hs
  have ht := h s hs
  rw [run_orElse]
  rcases hrun : x.run.run s with ⟨_ | _, t⟩
  · rw [hrun] at ht
    exact ht
  · rw [hrun] at ht
    exact ht

theorem Ensures.orElse (h : Ensures P x Q) (a : α) : Ensures P (Effect.orElse x a) Q := by
  intro s hs
  obtain ⟨b, t, hrun, ht, hb⟩ := h s hs
  refine ⟨b, t, ?_, ht, hb⟩
  unfold Runs at hrun ⊢
  rw [run_orElse, hrun]

theorem Keeps.orElse (h : Keeps P x) (a : α) :
    Ensures P (Effect.orElse x a) fun _ => True :=
  fun s hs => ⟨_, _, runs_orElse a s, h s hs, trivial⟩

end Effect
