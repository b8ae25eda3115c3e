import Mathlib

/-!
# Runs of a deterministic machine

A machine is a function `step : σ → ι → σ × ο`: a state and an input give the next
state and an output. A run is a list of inputs, and because the inputs may come
from any number of parties, a list of inputs is also an interleaving of them.

Everything a statement says about the past of a run is read off `visits`, the
inputs paired with the state each one met. A ghost quantity (a count, a log) is a
map over the visits, so no model has to carry one in its state.
-/

namespace Machine

variable {σ τ ι ο : Type*}

/-- The state a run ends in. -/
def final (step : σ → ι → σ × ο) (s : σ) : List ι → σ
  | [] => s
  | i :: is => final step (step s i).1 is

/-- The outputs of a run, one for each input. -/
def outputs (step : σ → ι → σ × ο) (s : σ) : List ι → List ο
  | [] => []
  | i :: is => (step s i).2 :: outputs step (step s i).1 is

/-- The inputs of a run, each with the state it met. -/
def visits (step : σ → ι → σ × ο) (s : σ) : List ι → List (σ × ι)
  | [] => []
  | i :: is => (s, i) :: visits step (step s i).1 is

variable {step : σ → ι → σ × ο} {s : σ}

@[simp] theorem final_nil : final step s [] = s := rfl

@[simp] theorem outputs_nil : outputs step s [] = [] := rfl

@[simp] theorem visits_nil : visits step s [] = [] := rfl

/-! ## Runs compose -/

theorem final_append (is js : List ι) :
    final step s (is ++ js) = final step (final step s is) js := by
  induction is generalizing s with
  | nil => rfl
  | cons i is ih => exact ih

theorem visits_append (is js : List ι) :
    visits step s (is ++ js) = visits step s is ++ visits step (final step s is) js := by
  induction is generalizing s with
  | nil => rfl
  | cons i is ih => exact congrArg _ ih

theorem outputs_append (is js : List ι) :
    outputs step s (is ++ js) = outputs step s is ++ outputs step (final step s is) js := by
  induction is generalizing s with
  | nil => rfl
  | cons i is ih => exact congrArg _ ih

theorem length_outputs (is : List ι) : (outputs step s is).length = is.length := by
  induction is generalizing s with
  | nil => rfl
  | cons i is ih => exact congrArg Nat.succ ih

@[simp] theorem final_concat (is : List ι) (i : ι) :
    final step s (is ++ [i]) = (step (final step s is) i).1 := final_append is [i]

@[simp] theorem visits_concat (is : List ι) (i : ι) :
    visits step s (is ++ [i]) = visits step s is ++ [(final step s is, i)] :=
  visits_append is [i]

/-- A visit is a place where the run can be cut. -/
theorem mem_visits {is : List ι} {v : σ × ι} :
    v ∈ visits step s is ↔
      ∃ before after, is = before ++ v.2 :: after ∧ v.1 = final step s before := by
  induction is generalizing s with
  | nil => simp
  | cons i is ih =>
    rw [visits, List.mem_cons, ih]
    refine ⟨?_, ?_⟩
    · intro h
      rcases h with rfl | ⟨before, after, rfl, hv⟩
      · exact ⟨[], is, rfl, rfl⟩
      · exact ⟨i :: before, after, rfl, hv⟩
    · intro h
      rcases h with ⟨before, after, hcut, hv⟩
      cases before with
      | nil =>
          obtain ⟨rfl, -⟩ := List.cons.inj hcut
          exact Or.inl (Prod.ext hv rfl)
      | cons b before =>
          obtain ⟨rfl, htail⟩ := List.cons.inj hcut
          exact Or.inr ⟨before, after, htail, hv⟩

theorem mem_visits_cut (before after : List ι) (i : ι) :
    (final step s before, i) ∈ visits step s (before ++ i :: after) :=
  mem_visits.mpr ⟨before, after, rfl, rfl⟩

/-- Every input of a run meets some state. -/
theorem exists_visit_of_mem {is : List ι} {i : ι} (h : i ∈ is) :
    ∃ s', (s', i) ∈ visits step s is := by
  obtain ⟨before, after, rfl⟩ := List.append_of_mem h
  exact ⟨_, mem_visits_cut before after i⟩

/-! ## Properties of every point of a run -/

theorem forall_cut_nil {P : List ι → ι → Prop} :
    ∀ before i rest, [] = before ++ i :: rest → P before i := by
  intro before i rest hcut
  simp at hcut

/-- The cuts of a run are the one at its first input and those of the rest. -/
theorem forall_cut_cons {P : List ι → ι → Prop} {j : ι} {is : List ι} :
    (∀ before i rest, j :: is = before ++ i :: rest → P before i) ↔
      P [] j ∧ ∀ before i rest, is = before ++ i :: rest → P (j :: before) i := by
  refine ⟨?_, ?_⟩
  · intro h
    refine ⟨h [] j is rfl, fun before i rest hcut => h (j :: before) i rest ?_⟩
    rw [hcut]
    rfl
  · intro h before i rest hcut
    rcases h with ⟨hfirst, hrest⟩
    cases before with
    | nil =>
        obtain ⟨rfl, -⟩ := List.cons.inj hcut
        exact hfirst
    | cons b before =>
        obtain ⟨rfl, htail⟩ := List.cons.inj hcut
        exact hrest before i rest htail

/-- What holds at every cut of a run holds at every cut of a start of it. -/
theorem forall_cut_start {P : List ι → ι → Prop} {is js : List ι}
    (h : ∀ before i rest, is ++ js = before ++ i :: rest → P before i) :
    ∀ before i rest, is = before ++ i :: rest → P before i := by
  intro before i rest hcut
  refine h before i (rest ++ js) ?_
  rw [hcut, List.append_assoc, List.cons_append]

/-- What holds at every cut of a run holds at every cut of its start and at its last input. -/
theorem forall_cut_concat {P : List ι → ι → Prop} {is : List ι} {j : ι} :
    (∀ before i rest, is ++ [j] = before ++ i :: rest → P before i) ↔
      (∀ before i rest, is = before ++ i :: rest → P before i) ∧ P is j := by
  refine ⟨?_, ?_⟩
  · intro h
    exact ⟨forall_cut_start h, h is j [] rfl⟩
  · intro h before i rest hcut
    rcases h with ⟨hstart, hlast⟩
    rcases rest.eq_nil_or_concat with rfl | ⟨rest, i', rfl⟩
    · obtain ⟨rfl, hi⟩ := List.append_inj' hcut rfl
      obtain rfl : j = i := List.head_eq_of_cons_eq hi
      exact hlast
    · have hcut' : is ++ [j] = (before ++ i :: rest) ++ [i'] := by rw [hcut]; simp
      exact hstart before i rest (List.append_inj' hcut' rfl).1

/-- What holds of every start of a run holds of every start of its start and of the whole. -/
theorem forall_prefix_concat {P : List ι → Prop} {is : List ι} {j : ι} :
    (∀ before, before <+: is ++ [j] → P before) ↔
      (∀ before, before <+: is → P before) ∧ P (is ++ [j]) := by
  simp only [List.prefix_concat_iff, or_imp, forall_and, forall_eq]
  exact And.comm

/-- A run with a property has a shortest start with it. -/
theorem exists_shortest_prefix {P : List ι → Prop} {is : List ι} (h : P is) :
    ∃ js, js <+: is ∧ P js ∧ ∀ ks, ks <+: js → ks ≠ js → ¬P ks := by
  induction hn : is.length using Nat.strongRecOn generalizing is with
  | ind n ih =>
    by_cases hmin : ∀ ks, ks <+: is → ks ≠ is → ¬P ks
    · exact ⟨is, List.prefix_rfl, h, hmin⟩
    -- a shorter start has the property, and a shortest one of it by induction
    · push Not at hmin
      obtain ⟨ks, hks, hne, hP⟩ := hmin
      have hlt : ks.length < n := by
        rw [← hn]
        exact Nat.lt_of_le_of_ne hks.length_le fun heq => hne (hks.eq_of_length heq)
      obtain ⟨js, hjs, hrest⟩ := ih _ hlt hP rfl
      exact ⟨js, hjs.trans hks, hrest⟩

/-! ## Invariants -/

/--
**The invariant rule.** What holds of the empty run and survives one more input
holds of every run. The property may speak of the inputs so far, hence of the
visits, as well as of the state.
-/
theorem run_induction {P : List ι → σ → Prop} (hinit : P [] s)
    (hstep : ∀ is i, P is (final step s is) → P (is ++ [i]) (step (final step s is) i).1) :
    ∀ is, P is (final step s is) := by
  intro is
  induction is using List.reverseRecOn with
  | nil => exact hinit
  | append_singleton is i ih => rw [final_concat]; exact hstep is i ih

/-- The invariant rule for a property of the state alone. -/
theorem invariant {P : σ → Prop} (hinit : P s) (hstep : ∀ s i, P s → P (step s i).1)
    (is : List ι) : P (final step s is) :=
  run_induction (P := fun _ s => P s) hinit (fun _ i h => hstep _ i h) is

/-- The invariant rule for runs of inputs of one kind. -/
theorem invariant_on {P : σ → Prop} {I : ι → Prop} (hinit : P s)
    (hstep : ∀ s i, I i → P s → P (step s i).1) {is : List ι} (his : ∀ i ∈ is, I i) :
    P (final step s is) := by
  induction is generalizing s with
  | nil => exact hinit
  | cons i is ih =>
    obtain ⟨hi, his⟩ := List.forall_mem_cons.mp his
    exact ih (hstep s i hi hinit) his

/-- **What a run loses it loses at some step.** -/
theorem exists_cut_of_lost {P : σ → Prop} (h : P s) {is : List ι} (hgone : ¬P (final step s is)) :
    ∃ before i after, is = before ++ i :: after ∧ P (final step s before)
      ∧ ¬P (step (final step s before) i).1 := by
  induction is generalizing s with
  | nil => exact absurd h hgone
  | cons i is ih =>
    by_cases hnext : P (step s i).1
    · obtain ⟨before, j, after, rfl, hheld, hlost⟩ := ih hnext hgone
      exact ⟨i :: before, j, after, rfl, hheld, hlost⟩
    · exact ⟨[], i, is, rfl, h, hnext⟩

/-! ## A machine that drives another -/

section Sent

variable {κ ω : Type*} {step' : τ → κ → τ × ω} {calls : σ → ι → List κ}

/-- What a run sends to the machine below, when one input in a state sends `calls`. -/
def sent (step : σ → ι → σ × ο) (calls : σ → ι → List κ) (s : σ) (is : List ι) : List κ :=
  (visits step s is).flatMap fun v => calls v.1 v.2

@[simp] theorem sent_nil : sent step calls s [] = [] := rfl

theorem sent_append (is js : List ι) :
    sent step calls s (is ++ js)
      = sent step calls s is ++ sent step calls (final step s is) js := by
  rw [sent, visits_append, List.flatMap_append]
  rfl

@[simp] theorem sent_concat (is : List ι) (i : ι) :
    sent step calls s (is ++ [i]) = sent step calls s is ++ calls (final step s is) i := by
  rw [sent_append]
  exact congrArg _ (List.append_nil _)

/--
**The simulation rule.** If each step moves the part below the way the calls it
sends do, then so does a whole run.
-/
theorem final_sent (abs : σ → τ)
    (hstep : ∀ s i, abs (step s i).1 = final step' (abs s) (calls s i)) (s : σ) (is : List ι) :
    abs (final step s is) = final step' (abs s) (sent step calls s is) := by
  induction is generalizing s with
  | nil => rfl
  | cons i is ih =>
    have hcons : sent step calls s (i :: is)
        = calls s i ++ sent step calls (step s i).1 is := rfl
    rw [final, ih, hstep, hcons, final_append]

/--
When an input sends at most one call, every visit of the machine below is the visit of
some input, and what follows it below is what the inputs after that one sent.
-/
theorem exists_cut_of_visits_sent (abs : σ → τ)
    (hstep : ∀ s i, abs (step s i).1 = final step' (abs s) (calls s i))
    (hone : ∀ s i, (calls s i).length ≤ 1) {s : σ} {is : List ι} {vs ws : List (τ × κ)}
    {v : τ × κ} (h : visits step' (abs s) (sent step calls s is) = vs ++ v :: ws) :
    ∃ before i later, is = before ++ i :: later ∧ v.1 = abs (final step s before)
      ∧ v.2 ∈ calls (final step s before) i
      ∧ ws = visits step' (abs (final step s (before ++ [i])))
          (sent step calls (final step s (before ++ [i])) later) := by
  induction is generalizing s vs with
  | nil => simp at h
  | cons i is ih =>
    have hcons : sent step calls s (i :: is)
        = calls s i ++ sent step calls (step s i).1 is := rfl
    rw [hcons, visits_append, ← hstep] at h
    have hlen := hone s i
    cases hcalls : calls s i with
    | nil =>
        -- this input sent nothing, so the visit belongs to a later one
        rw [hcalls] at h
        obtain ⟨before, j, later, rfl, hv, hmem, hws⟩ := ih h
        exact ⟨i :: before, j, later, rfl, hv, hmem, hws⟩
    | cons call rest =>
        rw [hcalls, List.length_cons] at hlen
        obtain rfl : rest = [] := List.length_eq_zero_iff.mp (by omega)
        rw [hcalls] at h
        cases vs with
        | nil =>
            obtain ⟨rfl, rfl⟩ := List.cons.inj h
            exact ⟨[], i, is, rfl, rfl, hcalls ▸ List.mem_singleton_self _, rfl⟩
        | cons u vs =>
            obtain ⟨before, j, later, rfl, hv, hmem, hws⟩ := ih (List.cons.inj h).2
            exact ⟨i :: before, j, later, rfl, hv, hmem, hws⟩

/--
**The simulation rule for related states.** If the calls of a step of one kind lead from a
related state to a related one and bring forth what the step shows, then so do the calls of
a run of such steps.
-/
theorem simulate {α : Type*} {step' : τ → κ → τ × List α} {R : σ → τ → Prop} {I : σ → ι → Prop}
    {shows : ο → List α}
    (hstep : ∀ s t i, I s i → R s t → R (step s i).1 (final step' t (calls s i))
      ∧ (outputs step' t (calls s i)).flatten = shows (step s i).2)
    {t : τ} (h : R s t) {is : List ι} (his : ∀ v ∈ visits step s is, I v.1 v.2) :
    R (final step s is) (final step' t (sent step calls s is))
      ∧ (outputs step' t (sent step calls s is)).flatten = (outputs step s is).flatMap shows := by
  induction is generalizing s t with
  | nil => exact ⟨h, rfl⟩
  | cons i is ih =>
    have hcons : sent step calls s (i :: is)
        = calls s i ++ sent step calls (step s i).1 is := rfl
    obtain ⟨hi, his⟩ := List.forall_mem_cons.mp his
    obtain ⟨hnext, hshown⟩ := hstep s t i hi h
    obtain ⟨hfinal, hrest⟩ := ih hnext his
    rw [hcons, final_append, outputs_append, List.flatten_append, hshown, hrest]
    exact ⟨hfinal, rfl⟩

end Sent

/-! ## A machine that can follow another -/

section Leads

variable {α κ : Type*} {step' : τ → κ → τ × List α}

/-- Some run leads from the first state to the second and brings forth these items. -/
def Leads (step' : τ → κ → τ × List α) (t : τ) (shown : List α) (t' : τ) : Prop :=
  ∃ is, final step' t is = t' ∧ (outputs step' t is).flatten = shown

theorem Leads.refl (t : τ) : Leads step' t [] t := ⟨[], rfl, rfl⟩

theorem leads_step (step' : τ → κ → τ × List α) (t : τ) (i : κ) :
    Leads step' t (step' t i).2 (step' t i).1 :=
  ⟨[i], rfl, List.append_nil _⟩

theorem Leads.trans {t t' t'' : τ} {shown shown' : List α} (h : Leads step' t shown t')
    (h' : Leads step' t' shown' t'') : Leads step' t (shown ++ shown') t'' := by
  obtain ⟨is, rfl, rfl⟩ := h
  obtain ⟨js, rfl, rfl⟩ := h'
  exact ⟨is ++ js, final_append is js, by rw [outputs_append, List.flatten_append]⟩

/--
**The refinement rule.** If for every step of a machine another one has a run that leads from
a related state to a related one and shows what it should, then for every run too.
-/
theorem leads_of_step {R : σ → τ → Prop} {shows : ο → List α → Prop}
    (hstep : ∀ s t i, R s t →
      ∃ t' shown, Leads step' t shown t' ∧ R (step s i).1 t' ∧ shows (step s i).2 shown)
    {t : τ} (h : R s t) (is : List ι) :
    ∃ t' shown, Leads step' t shown.flatten t' ∧ R (final step s is) t'
      ∧ List.Forall₂ shows (outputs step s is) shown := by
  induction is generalizing s t with
  | nil => exact ⟨t, [], .refl t, h, .nil⟩
  | cons i is ih =>
    obtain ⟨t₁, first, hfirst, hnext, hshows⟩ := hstep s t i h
    obtain ⟨t₂, rest, hrest, hfinal, hshown⟩ := ih hnext
    exact ⟨t₂, first :: rest, hfirst.trans hrest, hfinal, .cons hshows hshown⟩

end Leads

/-! ## Two machines that cannot be told apart -/

/--
**The unwinding rule.** If, on inputs of one kind, related states give equal outputs and
related successors, then runs of such inputs from related states give equal outputs and
end in related states.
-/
theorem unwind {step' : τ → ι → τ × ο} {R : σ → τ → Prop} {I : ι → Prop}
    (hstep : ∀ s t i, I i → R s t → (step s i).2 = (step' t i).2 ∧ R (step s i).1 (step' t i).1)
    {t : τ} (h : R s t) {is : List ι} (his : ∀ i ∈ is, I i) :
    outputs step s is = outputs step' t is ∧ R (final step s is) (final step' t is) := by
  induction is generalizing s t with
  | nil => exact ⟨rfl, h⟩
  | cons i is ih =>
    obtain ⟨hi, his⟩ := List.forall_mem_cons.mp his
    obtain ⟨hout, hnext⟩ := hstep s t i hi h
    obtain ⟨houts, hfinal⟩ := ih hnext his
    rw [outputs, outputs, hout, houts]
    exact ⟨rfl, hfinal⟩

/--
**The bisimulation rule.** If related states give equal outputs and related
successors, runs from related states give the same outputs.
-/
theorem outputs_eq_of_bisim {step' : τ → ι → τ × ο} {R : σ → τ → Prop}
    (hstep : ∀ s t i, R s t → (step s i).2 = (step' t i).2 ∧ R (step s i).1 (step' t i).1)
    {t : τ} (h : R s t) (is : List ι) : outputs step s is = outputs step' t is :=
  (unwind (I := fun _ => True) (fun s t i _ => hstep s t i) h fun _ _ => trivial).1

/--
**The projection rule.** Let related states answer an input of one kind alike and stay
related, and let an input of the other kind on the left leave them related. Then a run is
related to the run of its inputs of the first kind alone, which get the same outputs in
both.
-/
theorem project {step' : τ → ι → τ × ο} {R : σ → τ → Prop} {own : ι → Bool}
    (hown : ∀ s t i, own i = true → R s t →
      (step s i).2 = (step' t i).2 ∧ R (step s i).1 (step' t i).1)
    (hother : ∀ s t i, own i = false → R s t → R (step s i).1 t)
    {t : τ} (h : R s t) (is : List ι) :
    R (final step s is) (final step' t (is.filter own))
      ∧ ((is.zip (outputs step s is)).filter fun p => own p.1).map Prod.snd
        = outputs step' t (is.filter own) := by
  induction is generalizing s t with
  | nil => exact ⟨h, rfl⟩
  | cons i is ih =>
    rw [outputs, List.zip_cons_cons]
    cases hi : own i with
    | true =>
        obtain ⟨hout, hnext⟩ := hown s t i hi h
        obtain ⟨hfinal, houts⟩ := ih hnext
        rw [List.filter_cons_of_pos hi,
          List.filter_cons_of_pos (p := fun p : ι × ο => own p.1) (a := (i, (step s i).2)) hi,
          List.map_cons, houts, hout]
        exact ⟨hfinal, rfl⟩
    | false =>
        have hneg : ¬own i = true := by rw [hi]; exact Bool.false_ne_true
        rw [List.filter_cons_of_neg hneg,
          List.filter_cons_of_neg (p := fun p : ι × ο => own p.1) (a := (i, (step s i).2)) hneg]
        exact ih (hother s t i hi h)

end Machine
