import Mathlib

/-!
# Loops

The body of a loop either goes on from a new state or breaks with a result. `run` gives it
so many turns and no more. Where each turn that goes on makes a measure smaller, one turn
more than the measure is enough; and what the loop breaks with is then the value of any
function that no turn changes.
-/

namespace Loop

variable {σ β : Type*}

/-- What a loop breaks with in at most `n` turns, if it does. -/
def run (turn : σ → σ ⊕ β) : Nat → σ → Option β
  | 0, _ => none
  | n + 1, s =>
      match turn s with
      | .inl s' => run turn n s'
      | .inr b => some b

/-- `f` is what the loop breaks with, and `fuel` counts turns down. -/
structure Solves (turn : σ → σ ⊕ β) (fuel : σ → Nat) (f : σ → β) : Prop where
  goesOn : ∀ {s s'}, turn s = .inl s' → fuel s' < fuel s ∧ f s' = f s
  breaks : ∀ {s b}, turn s = .inr b → f s = b

/-- **With one turn more than the measure the loop breaks.** -/
theorem Solves.run_eq {turn : σ → σ ⊕ β} {fuel : σ → Nat} {f : σ → β} (h : Solves turn fuel f)
    {n : Nat} {s : σ} (hn : fuel s < n) : run turn n s = some (f s) := by
  induction n generalizing s with
  | zero => exact absurd hn (Nat.not_lt_zero _)
  | succ n ih =>
      rw [run]
      cases hturn : turn s with
      | inl s' =>
          obtain ⟨hlt, heq⟩ := h.goesOn hturn
          show run turn n s' = some (f s)
          rw [ih (by omega), heq]
      | inr b =>
          show some b = some (f s)
          rw [h.breaks hturn]

end Loop
