import Mathlib

/-!
# Following links

Every node has at most one link. Whoever follows the links from a node comes to an end, a
node without a link, or comes to a node a second time and goes round for ever. Two nodes that
come to an end are joined by links, in whatever directions, exactly when they come to the same
one: the ends name the connected components.
-/

namespace Links

variable {α : Type*} (link : α → Option α)

/-- One link. -/
def Step (a b : α) : Prop := link a = some b

/-- Following the links from `a` ends at `r`. -/
structure Ends (a r : α) : Prop where
  reaches : Relation.ReflTransGen (Step link) a r
  unlinked : link r = none

/-- The `n`-th node on the way from `a`. -/
def chain (a : α) : Nat → Option α
  | 0 => some a
  | n + 1 => (chain a n).bind link

/-- `r` is the last node on the way from `a` before the first that comes a second time. -/
def LastNew (a r : α) : Prop :=
  ∃ n, chain link a n = some r ∧ (∀ i j, i < j → j ≤ n → chain link a i ≠ chain link a j)
    ∧ ∃ i ≤ n, ∃ b, chain link a i = some b ∧ Step link r b

/-- Joined by a chain of links, each taken in either direction. -/
def Joined : α → α → Prop := Relation.EqvGen (Step link)

/-- No links go round. -/
def Acyclic : Prop := ∀ a, ¬Relation.TransGen (Step link) a a

variable {link} {a b r r' : α}

theorem Ends.refl (h : link a = none) : Ends link a a := ⟨.refl, h⟩

/-- A link more or less at the start makes no difference. -/
theorem Step.ends_iff (h : Step link a b) : Ends link a r ↔ Ends link b r := by
  refine ⟨?_, ?_⟩
  · intro hends
    rcases Relation.ReflTransGen.cases_head hends.reaches with heq | ⟨c, hc, hreaches⟩
    · have hnone := hends.unlinked
      rw [← heq, h] at hnone
      cases hnone
    · obtain rfl : b = c := Option.some.inj (h.symm.trans hc)
      exact ⟨hreaches, hends.unlinked⟩
  · intro hends
    exact ⟨Relation.ReflTransGen.head h hends.reaches, hends.unlinked⟩

/-- Joined nodes come to the same ends. -/
theorem Joined.ends_iff (h : Joined link a b) : Ends link a r ↔ Ends link b r := by
  induction h with
  | rel a b hstep => exact Step.ends_iff hstep
  | refl a => exact Iff.rfl
  | symm a b _ ih => exact ih.symm
  | trans a b c _ _ hab hbc => exact hab.trans hbc

/-- A node comes to one end at most. -/
theorem Ends.unique (h : Ends link a r) (h' : Ends link a r') : r = r' := by
  obtain ⟨hreaches, hunlinked⟩ := h
  induction hreaches using Relation.ReflTransGen.head_induction_on with
  | refl =>
      rcases Relation.ReflTransGen.cases_head h'.reaches with heq | ⟨c, hc, -⟩
      · exact heq
      · rw [Step, hunlinked] at hc
        cases hc
  | head hstep _ ih => exact ih ((Step.ends_iff hstep).mp h')

theorem Ends.joined (h : Ends link a r) : Joined link a r := by
  obtain ⟨hreaches, -⟩ := h
  induction hreaches with
  | refl => exact .refl a
  | tail _ hstep ih => exact .trans _ _ _ ih (.rel _ _ hstep)

/-- Links that lead to ever smaller nodes do not go round. -/
theorem acyclic_of_lt (rank : α → Nat) (h : ∀ a b, Step link a b → rank b < rank a) :
    Acyclic link := by
  intro a hcycle
  have hlt : ∀ {a b}, Relation.TransGen (Step link) a b → rank b < rank a := by
    intro a b hreaches
    induction hreaches with
    | single hstep => exact h _ _ hstep
    | tail _ hstep ih => exact (h _ _ hstep).trans ih
  exact lt_irrefl _ (hlt hcycle)

/-! ## The way from a node -/

theorem reaches_chain {c : α} {i : Nat} (hb : chain link a i = some b) (k : Nat)
    (hc : chain link a (i + k) = some c) : Relation.ReflTransGen (Step link) b c := by
  induction k generalizing c with
  | zero =>
      obtain rfl := Option.some.inj (hb.symm.trans hc)
      exact .refl
  | succ k ih =>
      obtain ⟨d, hd, hstep⟩ := Option.bind_eq_some_iff.mp hc
      exact (ih hd).tail hstep

theorem exists_chain (h : Relation.ReflTransGen (Step link) a b) :
    ∃ n, chain link a n = some b := by
  induction h with
  | refl => exact ⟨0, rfl⟩
  | tail _ hstep ih =>
      obtain ⟨n, hn⟩ := ih
      exact ⟨n + 1, Option.bind_eq_some_iff.mpr ⟨_, hn, hstep⟩⟩

theorem Ends.of_chain {n : Nat} (h : chain link a n = some r) (hr : link r = none) :
    Ends link a r :=
  ⟨reaches_chain rfl n (by rwa [Nat.zero_add]), hr⟩

/-- The last new node is on a cycle. -/
theorem LastNew.cycle (h : LastNew link a r) : Relation.TransGen (Step link) r r := by
  obtain ⟨n, hr, -, i, hi, b, hb, hstep⟩ := h
  refine Relation.TransGen.head' hstep (reaches_chain hb (n - i) ?_)
  rwa [Nat.add_sub_cancel' hi]

/-- From a cycle no end is reached. -/
theorem not_ends_of_cycle (h : Relation.TransGen (Step link) a a) : ¬Ends link a r := by
  rintro ⟨hreaches, hunlinked⟩
  induction hreaches using Relation.ReflTransGen.head_induction_on with
  | refl =>
      obtain ⟨b, hstep, -⟩ := Relation.TransGen.head'_iff.mp h
      rw [Step, hunlinked] at hstep
      cases hstep
  | head hstep _ ih =>
      obtain ⟨b, hstep', hback⟩ := Relation.TransGen.head'_iff.mp h
      obtain rfl := Option.some.inj (hstep.symm.trans hstep')
      exact ih (Relation.TransGen.tail' hback hstep)

/-- A way that goes round has no end. -/
theorem LastNew.not_ends (h : LastNew link a r) : ¬Ends link a r' := by
  intro hends
  obtain ⟨n, hr, -⟩ := id h
  have hreaches : Relation.ReflTransGen (Step link) a r :=
    reaches_chain rfl n (by rwa [Nat.zero_add])
  have hround : ∀ {b}, Relation.ReflTransGen (Step link) a b → Ends link b r' := by
    intro b hb
    induction hb with
    | refl => exact hends
    | tail _ hstep ih => exact (Step.ends_iff hstep).mp ih
  exact not_ends_of_cycle h.cycle (hround hreaches)

/-- **The ends name the components.** -/
theorem joined_iff (h : Ends link a r) (h' : Ends link b r') : Joined link a b ↔ r = r' := by
  refine ⟨?_, ?_⟩
  · intro hjoined
    exact (hjoined.ends_iff.mp h).unique h'
  · intro heq
    subst heq
    exact .trans _ _ _ h.joined (.symm _ _ h'.joined)

/-! ## More links -/

variable {link' : α → Option α}

theorem Acyclic.of_extends (hacyclic : Acyclic link')
    (hextends : ∀ a b, Step link a b → Step link' a b) : Acyclic link :=
  fun a hcycle => hacyclic a (Relation.TransGen.mono hextends _ _ hcycle)

/-- With more links a node comes to where its old end leads. -/
theorem Ends.extends (h : Ends link a r) (hextends : ∀ a b, Step link a b → Step link' a b)
    (h' : Ends link' r r') : Ends link' a r' :=
  ⟨(Relation.ReflTransGen.mono hextends _ _ h.reaches).trans h'.reaches, h'.unlinked⟩

end Links
