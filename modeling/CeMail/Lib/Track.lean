import CeMail.Lib.Effect
import CeMail.Lib.Machine

/-!
# Programs that a machine keeps track of

A program on one state and a machine on another, with what relates the two before and after.
Wherever the program gets to, by a result or by an error, the machine has a run that gets to a
related state. Programs are tracked one after the other.
-/

namespace Effect

variable {σ τ ε α β κ ο : Type}

/--
From states related by `P` the machine has a run that shows some items and ends related to
where the program ends: by `Q` if there is a result, by `stopped` if it failed.
-/
def Tracks (step : τ → κ → τ × List ο) (stopped P : σ → τ → Prop) (x : ExceptT ε (StateM σ) α)
    (Q : α → List ο → σ → τ → Prop) : Prop :=
  ∀ s t, P s t → ∃ t' shown, Machine.Leads step t shown t' ∧
    match (x.run.run s).1 with
    | .ok a => Q a shown (x.run.run s).2 t'
    | .error _ => stopped (x.run.run s).2 t'

variable {step : τ → κ → τ × List ο} {stopped P : σ → τ → Prop} {x : ExceptT ε (StateM σ) α}
  {f : α → ExceptT ε (StateM σ) β} {Q : α → List ο → σ → τ → Prop}
  {R : β → List ο → σ → τ → Prop}

theorem tracks_pure {a : α} (h : ∀ s t, P s t → Q a [] s t) :
    Tracks step stopped P (pure a : ExceptT ε (StateM σ) α) Q :=
  fun s t hP => ⟨t, [], .refl t, h s t hP⟩

/-- An action is tracked by what it results in. -/
theorem tracks_act {g : σ → Except ε α × σ}
    (hok : ∀ s t a, P s t → (g s).1 = .ok a →
      ∃ t' shown, Machine.Leads step t shown t' ∧ Q a shown (g s).2 t')
    (herror : ∀ s t e, P s t → (g s).1 = .error e →
      ∃ t' shown, Machine.Leads step t shown t' ∧ stopped (g s).2 t') :
    Tracks step stopped P (act g) Q := by
  intro s t hP
  show ∃ t' shown, _ ∧ match (g s).1 with
    | .ok a => Q a shown (g s).2 t'
    | .error _ => stopped (g s).2 t'
  cases hresult : (g s).1 with
  | ok a => exact hok s t a hP hresult
  | error e => exact herror s t e hP hresult

/-- A failure is tracked by a run of the machine alone. -/
theorem tracks_throw {e : ε}
    (h : ∀ s t, P s t → ∃ t' shown, Machine.Leads step t shown t' ∧ stopped s t') :
    Tracks step stopped P (throw e : ExceptT ε (StateM σ) α) Q := h

/-- **One program after another**: what they show comes one after the other. -/
theorem Tracks.bind (hx : Tracks step stopped P x Q)
    (hf : ∀ a shown, Tracks step stopped (Q a shown) (f a)
      fun b rest s t => R b (shown ++ rest) s t) :
    Tracks step stopped P (x >>= f) R := by
  intro s t hP
  obtain ⟨t', shown, hleads, hfirst⟩ := hx s t hP
  rw [run_bind]
  rcases hrun : x.run.run s with ⟨e | a, s'⟩ <;> rw [hrun] at hfirst
  · exact ⟨t', shown, hleads, hfirst⟩
  · obtain ⟨t'', rest, hleads', hrest⟩ := hf a shown s' t' hfirst
    exact ⟨t'', shown ++ rest, hleads.trans hleads', hrest⟩

/-! ## What is known before -/

/-- A fact about neither state. -/
theorem tracks_of_fact {p : Prop} (h : p → Tracks step stopped P x Q) :
    Tracks step stopped (fun s t => p ∧ P s t) x Q := fun s t hst => h hst.1 s t hst.2

theorem tracks_of_exists {ι : Type} {I : ι → σ → τ → Prop}
    (h : ∀ i, Tracks step stopped (I i) x Q) :
    Tracks step stopped (fun s t => ∃ i, I i s t) x Q := fun s t hst => hst.elim fun i => h i s t

end Effect
