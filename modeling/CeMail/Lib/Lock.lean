import CeMail.Lib.Machine

/-!
# An object behind a lock

Threads call an object, and a call works on it in a critical section under a lock. A section
takes many steps, and other threads run in between. It can panic: then the lock is poisoned
with the object as it was left, and whoever takes the lock after that is only told so.

Such an object is linearizable if each section, run alone, does what its call is meant to
do: the calls can be put in one order, in which each takes effect at one moment between
its start and its return, and called one by one in that order they give the same results.
-/

namespace Lock

variable {σ ι κ ε ρ τ : Type*}

/-! ## Calls one by one -/

/-- An object, and whether a call has panicked on it. -/
structure Guarded (σ : Type*) where
  obj : σ
  poisoned : Bool

/-- A call of the whole, when `f` is what calls do and `told` what is told of a poisoned lock. -/
def Guarded.call (f : ι → σ → Except ε (σ × ρ)) (told : ι → ρ) (g : Guarded σ) (i : ι) :
    Guarded σ × Except ε ρ :=
  if g.poisoned then (g, .ok (told i))
  else match f i g.obj with
    | .ok (obj, result) => (⟨obj, false⟩, .ok result)
    | .error fault => (⟨g.obj, true⟩, .error fault)

/-! ## Sections step by step -/

/-- Critical sections: where the one of a call starts, and what one step does to the object. -/
structure Program (σ ι κ ε ρ : Type*) where
  start : ι → κ
  /-- The section goes on from another place, or ends with a result or a panic. -/
  step : κ → σ → σ × (κ ⊕ Except ε ρ)

/-- From a place on, and with nobody else at the object, a section ends like this. -/
inductive Program.Ends (p : Program σ ι κ ε ρ) : κ → σ → Except ε ρ → σ → Prop
  | last {k s r t} : p.step k s = (t, .inr r) → p.Ends k s r t
  | more {k s k' s' r t} : p.step k s = (s', .inl k') → p.Ends k' s' r t → p.Ends k s r t

/-- From a place on, what is left of a section does what `f` does to `s₀`, but for the
object that a panic leaves. -/
def Program.Completes (p : Program σ ι κ ε ρ) (f : ι → σ → Except ε (σ × ρ)) (i : ι) (s₀ : σ)
    (k : κ) (s : σ) : Prop :=
  match f i s₀ with
  | .ok (t, result) => p.Ends k s (.ok result) t
  | .error fault => ∃ t, p.Ends k s (.error fault) t

/-- Run alone, each section does what its call is meant to do. -/
def Program.Computes (p : Program σ ι κ ε ρ) (f : ι → σ → Except ε (σ × ρ)) : Prop :=
  ∀ i s, p.Completes f i s (p.start i) s

section Completes

variable {p : Program σ ι κ ε ρ} {f : ι → σ → Except ε (σ × ρ)} {i : ι} {s₀ s s' : σ} {k k' : κ}
  {r : Except ε ρ}

/-- A step that goes on leaves the same to be done. -/
theorem Program.Completes.more (h : p.Completes f i s₀ k s) (hstep : p.step k s = (s', .inl k')) :
    p.Completes f i s₀ k' s' := by
  have hends : ∀ {r t}, p.Ends k s r t → p.Ends k' s' r t := by
    intro r t h
    cases h with
    | last hlast =>
        rw [hstep] at hlast
        cases hlast
    | more hmore hends =>
        rw [hstep] at hmore
        obtain ⟨rfl, hk⟩ := Prod.mk.inj hmore
        obtain rfl := Sum.inl.inj hk
        exact hends
  unfold Program.Completes at h ⊢
  split at h
  · exact hends h
  · obtain ⟨t, ht⟩ := h
    exact ⟨t, hends ht⟩

/-- A step that ends the section ends it the way the call is meant to. -/
theorem Program.Completes.last (h : p.Completes f i s₀ k s) (hstep : p.step k s = (s', .inr r)) :
    (∃ result, f i s₀ = .ok (s', result) ∧ r = .ok result)
      ∨ ∃ fault, f i s₀ = .error fault ∧ r = .error fault := by
  have hends : ∀ {r' t}, p.Ends k s r' t → r' = r ∧ t = s' := by
    intro r' t h
    cases h with
    | last hlast =>
        rw [hstep] at hlast
        obtain ⟨rfl, hr⟩ := Prod.mk.inj hlast
        exact ⟨(Sum.inr.inj hr).symm, rfl⟩
    | more hmore _ =>
        rw [hstep] at hmore
        cases hmore
  unfold Program.Completes at h
  split at h
  · obtain ⟨hr, rfl⟩ := hends h
    exact Or.inl ⟨_, by assumption, hr.symm⟩
  · obtain ⟨t, ht⟩ := h
    exact Or.inr ⟨_, by assumption, (hends ht).1.symm⟩

end Completes

/-- Sections of one step. -/
def Program.whole (f : ι → σ → Except ε (σ × ρ)) : Program σ ι ι ε ρ where
  start := id
  step i s :=
    match f i s with
    | .ok (t, result) => (t, .inr (.ok result))
    | .error fault => (s, .inr (.error fault))

theorem Program.computes_whole (f : ι → σ → Except ε (σ × ρ)) : (Program.whole f).Computes f := by
  intro i s
  unfold Program.Completes
  split
  · rename_i t result hf
    refine .last ?_
    simp only [Program.whole, id_eq, hf]
  · rename_i fault hf
    refine ⟨s, .last ?_⟩
    simp only [Program.whole, id_eq, hf]

/-! ## Threads -/

/-- Where a thread is in its call. -/
inductive Stage (ι κ ε ρ : Type*) where
  | idle
  | waiting (i : ι)
  | inside (i : ι) (k : κ)
  | leaving (r : Except ε ρ)

/-- The object, its lock, and the threads. -/
structure System (σ ι κ ε ρ τ : Type*) where
  obj : σ
  poisoned : Bool
  holder : Option τ
  stage : τ → Stage ι κ ε ρ

/-- What a thread does next. -/
inductive Act (ι : Type*) where
  | call (i : ι)
  | acquire
  /-- A step of its section. The last one drops the guard. -/
  | work
  | leave

/-- What is seen of the threads: a call is started, or returns or panics. -/
inductive Mark (ι ε ρ τ : Type*) where
  | called (t : τ) (i : ι)
  | returned (t : τ) (r : Except ε ρ)

section System

variable [DecidableEq τ]

/-- A thread moves on. -/
def System.move (s : System σ ι κ ε ρ τ) (t : τ) (stage : Stage ι κ ε ρ) : System σ ι κ ε ρ τ :=
  { s with stage := Function.update s.stage t stage }

/-- What does not fit where a thread is does nothing, as does a thread that waits for the lock. -/
def System.step (p : Program σ ι κ ε ρ) (told : ι → ρ) (s : System σ ι κ ε ρ τ) (e : τ × Act ι) :
    System σ ι κ ε ρ τ × Option (Mark ι ε ρ τ) :=
  match s.stage e.1, e.2 with
  | .idle, .call i => (s.move e.1 (.waiting i), some (.called e.1 i))
  | .waiting i, .acquire =>
      if s.holder.isSome then (s, none)
      else if s.poisoned then (s.move e.1 (.leaving (.ok (told i))), none)
      else ({ s with holder := some e.1 }.move e.1 (.inside i (p.start i)), none)
  | .inside i k, .work =>
      match p.step k s.obj with
      | (obj, .inl k) => ({ s with obj := obj }.move e.1 (.inside i k), none)
      | (obj, .inr (.ok result)) =>
          ({ s with obj := obj, holder := none }.move e.1 (.leaving (.ok result)), none)
      | (obj, .inr (.error fault)) =>
          ({ s with obj := obj, holder := none, poisoned := true }.move e.1
            (.leaving (.error fault)), none)
  | .leaving r, .leave => (s.move e.1 .idle, some (.returned e.1 r))
  | _, _ => (s, none)

end System

/-- An object nobody has called. -/
def System.start (s : σ) : System σ ι κ ε ρ τ := ⟨s, false, none, fun _ => .idle⟩

/-! ## Linearizability -/

/-- A mark, or the moment at which a call takes effect, with what it will return. -/
inductive Entry (ι ε ρ τ : Type*) where
  | called (t : τ) (i : ι)
  | effect (t : τ) (i : ι) (r : Except ε ρ)
  | returned (t : τ) (r : Except ε ρ)

def Entry.thread : Entry ι ε ρ τ → τ
  | .called t _ => t
  | .effect t _ _ => t
  | .returned t _ => t

def Entry.mark : Entry ι ε ρ τ → Option (Mark ι ε ρ τ)
  | .called t i => some (.called t i)
  | .effect _ _ _ => none
  | .returned t r => some (.returned t r)

def Entry.taken : Entry ι ε ρ τ → Option (ι × Except ε ρ)
  | .effect _ i r => some (i, r)
  | _ => none

/-- How far a thread has come in its call. -/
inductive Phase (ι ε ρ : Type*) where
  | idle
  | pending (i : ι)
  | done (r : Except ε ρ)

/-- A thread calls, its call takes effect, and it returns what the call gave, over and over. -/
inductive Comes (t : τ) : List (Entry ι ε ρ τ) → Phase ι ε ρ → Prop
  | nil : Comes t [] .idle
  | called {es i} : Comes t es .idle → Comes t (es ++ [.called t i]) (.pending i)
  | effect {es i r} : Comes t es (.pending i) → Comes t (es ++ [.effect t i r]) (.done r)
  | returned {es r} : Comes t es (.done r) → Comes t (es ++ [.returned t r]) .idle
  | other {es e phase} : e.thread ≠ t → Comes t es phase → Comes t (es ++ [e]) phase

/-- `es` is the history with an effect for each call that returned, and perhaps for some that
have not yet, and one by one in this order the calls have the same results. -/
structure Linearizes {S : Type*} (call : S → ι → S × Except ε ρ) (s : S)
    (history : List (Mark ι ε ρ τ)) (es : List (Entry ι ε ρ τ)) : Prop where
  marks : es.filterMap Entry.mark = history
  threads : ∀ t, ∃ phase, Comes t es phase
  results : Machine.outputs call s ((es.filterMap Entry.taken).map Prod.fst)
    = (es.filterMap Entry.taken).map Prod.snd

/-! ## The lock makes it so -/

section Invariant

variable [DecidableEq τ] {p : Program σ ι κ ε ρ} {f : ι → σ → Except ε (σ × ρ)} {told : ι → ρ}
  {s₀ : σ}

/-- How far a thread's call has come by where the thread is. -/
def Stage.phase : Stage ι κ ε ρ → Phase ι ε ρ
  | .idle => .idle
  | .waiting i => .pending i
  | .inside i _ => .pending i
  | .leaving r => .done r

/-- The object as the calls that have taken effect leave it, one by one. -/
def after (f : ι → σ → Except ε (σ × ρ)) (told : ι → ρ) (s₀ : σ) (es : List (Entry ι ε ρ τ)) :
    Guarded σ :=
  Machine.final (Guarded.call f told) ⟨s₀, false⟩ ((es.filterMap Entry.taken).map Prod.fst)

/-- What holds between the system and the calls that have taken effect. -/
structure Inv (p : Program σ ι κ ε ρ) (f : ι → σ → Except ε (σ × ρ)) (told : ι → ρ) (s₀ : σ)
    (es : List (Entry ι ε ρ τ)) (s : System σ ι κ ε ρ τ) : Prop where
  threads : ∀ t, Comes t es (s.stage t).phase
  results : Machine.outputs (Guarded.call f told) ⟨s₀, false⟩
    ((es.filterMap Entry.taken).map Prod.fst) = (es.filterMap Entry.taken).map Prod.snd
  poisoned : s.poisoned = (after f told s₀ es).poisoned
  /-- While nobody is inside the object is what the calls have made it. -/
  obj : s.holder = none → s.poisoned = false → s.obj = (after f told s₀ es).obj
  /-- Who is inside holds the lock and is on the way to what the call is meant to do. -/
  inside : ∀ t i k, s.stage t = .inside i k → s.holder = some t ∧ s.poisoned = false
    ∧ p.Completes f i (after f told s₀ es).obj k s.obj

omit [DecidableEq τ] in
theorem inv_start (s₀ : σ) : Inv p f told s₀ [] (System.start (τ := τ) s₀) where
  threads _ := .nil
  results := rfl
  poisoned := rfl
  obj _ _ := rfl
  inside := by
    intro t i k h
    cases h

variable {es : List (Entry ι ε ρ τ)} {s : System σ ι κ ε ρ τ} {t : τ}

/-- The threads after one of them has moved on with an entry. -/
theorem comes_move (h : ∀ u, Comes u es (s.stage u).phase) {e : Entry ι ε ρ τ}
    (he : e.thread = t) {stage : Stage ι κ ε ρ} (hself : Comes t (es ++ [e]) stage.phase) :
    ∀ u, Comes u (es ++ [e]) (Function.update s.stage t stage u).phase :=
  (Function.forall_update_iff s.stage fun u stage => Comes u (es ++ [e]) stage.phase).mpr
    ⟨hself, fun u hu => .other (fun heq => hu (heq.symm.trans he)) (h u)⟩

/-- The threads after one of them has moved on unseen. -/
theorem comes_stay (h : ∀ u, Comes u es (s.stage u).phase) {stage : Stage ι κ ε ρ}
    (hself : Comes t es stage.phase) : ∀ u, Comes u es (Function.update s.stage t stage u).phase :=
  (Function.forall_update_iff s.stage fun u stage => Comes u es stage.phase).mpr
    ⟨hself, fun u _ => h u⟩

/-- Who is inside after a thread has moved on. -/
theorem inside_move {P : τ → ι → κ → Prop} {stage : Stage ι κ ε ρ}
    (hself : ∀ i k, stage = .inside i k → P t i k)
    (hothers : ∀ u, u ≠ t → ∀ i k, s.stage u = .inside i k → P u i k) :
    ∀ u i k, Function.update s.stage t stage u = .inside i k → P u i k :=
  (Function.forall_update_iff s.stage fun u stage => ∀ i k, stage = .inside i k → P u i k).mpr
    ⟨hself, hothers⟩

omit [DecidableEq τ] in
/-- An entry that takes no effect leaves the object as the calls have made it. -/
theorem after_concat_of_none {e : Entry ι ε ρ τ} (he : e.taken = none) :
    after f told s₀ (es ++ [e]) = after f told s₀ es := by
  unfold after
  rw [List.filterMap_append, List.filterMap_cons_none he]
  simp

/-- What a thread does under no lock, with an entry that takes no effect. -/
theorem Inv.outside (h : Inv p f told s₀ es s) {e : Entry ι ε ρ τ} (he : e.thread = t)
    (htaken : e.taken = none) {stage : Stage ι κ ε ρ} (hcomes : Comes t (es ++ [e]) stage.phase)
    (hstage : ∀ i k, stage ≠ .inside i k) : Inv p f told s₀ (es ++ [e]) (s.move t stage) := by
  have hafter : after f told s₀ (es ++ [e]) = after f told s₀ es := after_concat_of_none htaken
  refine ⟨comes_move h.threads he hcomes, ?_, ?_, ?_, ?_⟩
  · rw [List.filterMap_append, List.filterMap_cons_none htaken, List.filterMap_nil,
      List.append_nil]
    exact h.results
  · rw [hafter]
    exact h.poisoned
  · rw [hafter]
    exact h.obj
  · rw [hafter]
    exact inside_move (fun i k heq => absurd heq (hstage i k)) fun u _ => h.inside u

omit [DecidableEq τ] in
/-- The moment at which a call takes effect. -/
theorem results_effect (h : Inv p f told s₀ es s) {i : ι} {r : Except ε ρ}
    (hr : ((after f told s₀ es).call f told i).2 = r) :
    Machine.outputs (Guarded.call f told) ⟨s₀, false⟩
        (((es ++ [Entry.effect t i r]).filterMap Entry.taken).map Prod.fst)
      = ((es ++ [Entry.effect t i r]).filterMap Entry.taken).map Prod.snd := by
  have htaken : (es ++ [Entry.effect t i r]).filterMap Entry.taken
      = es.filterMap Entry.taken ++ [(i, r)] := List.filterMap_append
  rw [htaken, List.map_append, List.map_append, Machine.outputs_append, h.results, ← hr]
  rfl

omit [DecidableEq τ] in
theorem after_effect {i : ι} {r : Except ε ρ} :
    after f told s₀ (es ++ [.effect t i r]) = ((after f told s₀ es).call f told i).1 := by
  have htaken : (es ++ [Entry.effect t i r]).filterMap Entry.taken
      = es.filterMap Entry.taken ++ [(i, r)] := List.filterMap_append
  unfold after
  rw [htaken, List.map_append]
  exact Machine.final_concat _ i

omit [DecidableEq τ] in
/-- Only one thread is inside. -/
theorem Inv.inside_unique (h : Inv p f told s₀ es s) {u : τ} {i j : ι} {k l : κ}
    (ht : s.stage t = .inside i k) (hu : s.stage u = .inside j l) : u = t :=
  Option.some.inj ((h.inside u j l hu).1.symm.trans (h.inside t i k ht).1)

/-- A thread that finds the lock poisoned. -/
theorem Inv.refused (h : Inv p f told s₀ es s) {i : ι} (hstage : s.stage t = .waiting i)
    (hpoisoned : s.poisoned = true) :
    Inv p f told s₀ (es ++ [.effect t i (.ok (told i))]) (s.move t (.leaving (.ok (told i)))) := by
  have hcall : (after f told s₀ es).call f told i = (after f told s₀ es, .ok (told i)) := by
    unfold Guarded.call
    rw [← h.poisoned, hpoisoned, if_pos rfl]
  have hcomes := h.threads t
  rw [hstage] at hcomes
  refine ⟨comes_move h.threads rfl (.effect hcomes), results_effect h (congrArg Prod.snd hcall),
    ?_, ?_, ?_⟩
  · rw [after_effect, hcall]
    exact h.poisoned
  · intro _ hnot
    exact absurd (hpoisoned.symm.trans hnot) (by decide)
  · refine inside_move (fun j l heq => by cases heq) fun u _ j l hu => ?_
    exact absurd (hpoisoned.symm.trans (h.inside u j l hu).2.1) (by decide)

/-- A thread that takes the lock. -/
theorem Inv.acquired (hp : p.Computes f) (h : Inv p f told s₀ es s) {i : ι}
    (hstage : s.stage t = .waiting i) (hfree : s.holder = none) (hsound : s.poisoned = false) :
    Inv p f told s₀ es ({ s with holder := some t }.move t (.inside i (p.start i))) := by
  have hcomes := h.threads t
  rw [hstage] at hcomes
  refine ⟨comes_stay h.threads hcomes, h.results, h.poisoned, fun hnone => (by cases hnone), ?_⟩
  refine inside_move ?_ fun u _ j l hu => ?_
  · intro j l heq
    obtain ⟨rfl, rfl⟩ := Stage.inside.inj heq
    refine ⟨rfl, hsound, ?_⟩
    rw [← h.obj hfree hsound]
    exact hp i s.obj
  · exact absurd (hfree.symm.trans (h.inside u j l hu).1) (by simp)

/-- A step inside that is not the last. -/
theorem Inv.worked (h : Inv p f told s₀ es s) {i : ι} {k k' : κ} {obj : σ}
    (hstage : s.stage t = .inside i k) (hstep : p.step k s.obj = (obj, .inl k')) :
    Inv p f told s₀ es ({ s with obj := obj }.move t (.inside i k')) := by
  obtain ⟨hholder, hsound, hleft⟩ := h.inside t i k hstage
  have hcomes := h.threads t
  rw [hstage] at hcomes
  refine ⟨comes_stay h.threads hcomes, h.results, h.poisoned, ?_, ?_⟩
  · intro hnone
    exact absurd (hholder.symm.trans hnone) (by simp)
  · refine inside_move ?_ fun u hne j l hu => absurd (h.inside_unique hstage hu) hne
    intro j l heq
    obtain ⟨rfl, rfl⟩ := Stage.inside.inj heq
    exact ⟨hholder, hsound, hleft.more hstep⟩

/-- The last step inside, at which the call takes effect. -/
theorem Inv.released (h : Inv p f told s₀ es s) {i : ι} {k : κ} {obj : σ} {r : Except ε ρ}
    (hstage : s.stage t = .inside i k) (hstep : p.step k s.obj = (obj, .inr r)) :
    Inv p f told s₀ (es ++ [.effect t i r])
      ({ s with obj := obj, holder := none, poisoned := !r.isOk }.move t (.leaving r)) := by
  obtain ⟨-, hsound, hleft⟩ := h.inside t i k hstage
  have hwhole : (after f told s₀ es).poisoned = false := h.poisoned ▸ hsound
  have hcomes := h.threads t
  rw [hstage] at hcomes
  have hothers : ∀ u j l, Function.update s.stage t (.leaving r) u ≠ .inside j l :=
    (Function.forall_update_iff s.stage fun _ stage => ∀ j l, stage ≠ .inside j l).mpr
      ⟨fun _ _ heq => (by cases heq), fun u hne j l hu => hne (h.inside_unique hstage hu)⟩
  have hmoved : ∀ g, (after f told s₀ es).call f told i = (g, r) → (!r.isOk) = g.poisoned →
      (g.poisoned = false → obj = g.obj) → Inv p f told s₀ (es ++ [.effect t i r])
        ({ s with obj := obj, holder := none, poisoned := !r.isOk }.move t (.leaving r)) := by
    intro g hcall hpoisoned hobj
    refine ⟨comes_move h.threads rfl (.effect hcomes), results_effect h (congrArg Prod.snd hcall),
      ?_, ?_, fun u j l hu => absurd hu (hothers u j l)⟩
    · rw [after_effect, hcall]
      exact hpoisoned
    · intro _ hok
      rw [after_effect, hcall]
      exact hobj (hpoisoned.symm.trans hok)
  rcases hleft.last hstep with ⟨result, hf, rfl⟩ | ⟨fault, hf, rfl⟩
  · refine hmoved ⟨obj, false⟩ ?_ rfl (fun _ => rfl)
    unfold Guarded.call
    rw [hwhole, hf]
    rfl
  · refine hmoved ⟨(after f told s₀ es).obj, true⟩ ?_ rfl (fun hnot => by cases hnot)
    unfold Guarded.call
    rw [hwhole, hf]
    rfl

/-- **One step of a thread** adds at most one entry, which shows what the step shows. -/
theorem Inv.step (hp : p.Computes f) (h : Inv p f told s₀ es s) (e : τ × Act ι) :
    ∃ more, Inv p f told s₀ (es ++ more) (s.step p told e).1
      ∧ more.filterMap Entry.mark = (s.step p told e).2.toList := by
  obtain ⟨t, act⟩ := e
  have hcomes := h.threads t
  have hstay : ∃ more, Inv p f told s₀ (es ++ more) s ∧ more.filterMap Entry.mark = [] :=
    ⟨[], (List.append_nil es).symm ▸ h, rfl⟩
  unfold System.step
  split
  · -- a call is started
    rename_i i hstage hact
    obtain rfl : act = .call i := hact
    rw [hstage] at hcomes
    exact ⟨[.called t i], h.outside rfl rfl (.called hcomes) (by simp), rfl⟩
  · rename_i i hstage hact
    split
    · exact hstay
    · rename_i hfree
      split
      · rename_i hpoisoned
        exact ⟨_, h.refused hstage hpoisoned, rfl⟩
      · rename_i hsound
        refine ⟨[], ?_, rfl⟩
        rw [List.append_nil]
        exact h.acquired hp hstage (by simpa using hfree) (by simpa using hsound)
  · rename_i i k hstage hact
    split
    · rename_i obj k' hstep
      refine ⟨[], ?_, rfl⟩
      rw [List.append_nil]
      exact h.worked hstage hstep
    · rename_i obj result hstep
      have hreleased := h.released hstage hstep
      rw [show (!(Except.ok result : Except ε ρ).isOk) = s.poisoned
        from (h.inside t i k hstage).2.1.symm] at hreleased
      exact ⟨[.effect t i (.ok result)], hreleased, rfl⟩
    · rename_i obj fault hstep
      exact ⟨_, h.released hstage hstep, rfl⟩
  · rename_i r hstage hact
    rw [hstage] at hcomes
    exact ⟨[.returned t r], h.outside rfl rfl (.returned hcomes) (by simp), rfl⟩
  · exact hstay

/--
**A locked object is linearizable**, whatever steps its sections take and however the threads
take turns. While nobody is inside a sound lock, the object is as the calls left it.
-/
theorem linearizable (hp : p.Computes f) (told : ι → ρ) (s₀ : σ) (events : List (τ × Act ι)) :
    ∃ es, Linearizes (Guarded.call f told) ⟨s₀, false⟩
        (Machine.outputs (System.step p told) (System.start s₀) events).reduceOption es
      ∧ Inv p f told s₀ es (Machine.final (System.step p told) (System.start s₀) events) := by
  induction events using List.reverseRecOn with
  | nil => exact ⟨[], ⟨rfl, fun t => ⟨_, .nil⟩, rfl⟩, inv_start s₀⟩
  | append_singleton events e ih =>
    obtain ⟨es, hlin, hinv⟩ := ih
    obtain ⟨more, hinv', hmarks⟩ := hinv.step hp e
    refine ⟨es ++ more, ⟨?_, fun t => ⟨_, hinv'.threads t⟩, hinv'.results⟩, ?_⟩
    · rw [List.filterMap_append, hlin.marks, hmarks, Machine.outputs_append,
        List.reduceOption_append]
      show _ = _ ++ [_].reduceOption
      rw [← List.reduceOption_singleton]
    · rw [Machine.final_concat]
      exact hinv'

end Invariant

end Lock
