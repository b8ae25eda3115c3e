import CeMail.Lib.Links
import CeMail.Lib.Loop
import CeMail.Model.Thread

/-!
# Where the climb ends

`resolve_root` climbs by whatever links its map holds. It keeps what it has seen, which is the
way it came; so it notices the first id that comes a second time, and returns the one below.
Where none does it returns the end of the links. It climbs only to ids that have an entry and
that it has not seen, and each turn leaves one of those less.
-/

namespace CeMail

variable {parents : Table String String} {target : String}

/-- How many entries have not been seen. -/
def unseen (parents : Table String String) (s : Finset String × String) : Nat :=
  (parents.keys.toFinset \ s.1).card

/-- Every turn leaves fewer, and the loop breaks with what the recursion returns. -/
theorem solves_resolveTurn (parents : Table String String) :
    Loop.Solves (resolveTurn parents) (unseen parents) fun s => resolveFrom parents s.1 s.2 where
  goesOn {s s'} h := by
    obtain ⟨seen, current⟩ := s
    cases hlookup : parents.lookup current with
    | none =>
        simp only [resolveTurn, hlookup] at h
        cases h
    | some parent =>
        simp only [resolveTurn, hlookup] at h
        split_ifs at h with hseen hparent
        obtain rfl := Sum.inl.inj h
        refine ⟨?_, ?_⟩
        · rw [unseen, Finset.sdiff_insert]
          refine Finset.card_erase_lt_of_mem (Finset.mem_sdiff.mpr ⟨?_, hseen⟩)
          exact List.mem_toFinset.mpr hparent
        · show _ = resolveFrom parents seen current
          rw [resolveFrom.eq_def parents seen, hlookup]
          simp only [if_neg hseen, if_pos hparent]
  breaks {s r} h := by
    obtain ⟨seen, current⟩ := s
    show resolveFrom parents seen current = r
    rw [resolveFrom]
    cases hlookup : parents.lookup current with
    | none =>
        simp only [resolveTurn, hlookup] at h
        exact Sum.inr.inj h
    | some parent =>
        simp only [resolveTurn, hlookup] at h
        split_ifs at h with hseen hparent
        · simp only [if_pos hseen]
          exact Sum.inr.inj h
        · simp only [if_neg hseen, if_neg hparent]
          exact Sum.inr.inj h

/-- The `n`-th id on the way from the target: itself, its parent, the parent of that. -/
def wayFrom (parents : Table String String) (target : String) (n : Nat) : Option String :=
  Links.chain (fun a => parents.lookup a) target n

/--
**The climb follows the way from the target**, to its end or to the last id before one comes
again. What carries it is that the ids seen are those on the way so far, all different.
-/
theorem resolveFrom_spec {seen : Finset String} {current : String} {n : Nat}
    (hcurrent : wayFrom parents target n = some current)
    (hseen : ∀ a, a ∈ seen ↔ ∃ i ≤ n, wayFrom parents target i = some a)
    (hnew : ∀ i j, i < j → j ≤ n → wayFrom parents target i ≠ wayFrom parents target j) :
    Links.Ends (fun a => parents.lookup a) target (resolveFrom parents seen current)
      ∨ Links.LastNew (fun a => parents.lookup a) target (resolveFrom parents seen current) := by
  fun_induction resolveFrom parents seen current generalizing n with
  | case1 seen current hnone => exact Or.inl (.of_chain hcurrent hnone)
  | case2 seen current parent hsome hmem =>
      obtain ⟨i, hi, hparent⟩ := (hseen parent).mp hmem
      exact Or.inr ⟨n, hcurrent, hnew, i, hi, parent, hparent, hsome⟩
  | case3 seen current parent hsome hnot hparent ih =>
      have hnext : wayFrom parents target (n + 1) = some parent :=
        Option.bind_eq_some_iff.mpr ⟨current, hcurrent, hsome⟩
      refine ih hnext ?_ ?_
      · intro a
        simp only [Finset.mem_insert, hseen, Nat.le_succ_iff_eq_or_le, or_and_right, exists_or,
          exists_eq_left, hnext, Option.some.injEq]
        exact or_congr_left eq_comm
      · intro i j hij hj heq
        rcases Nat.le_succ_iff_eq_or_le.mp hj with rfl | hj
        · exact hnot ((hseen parent).mpr ⟨i, Nat.lt_succ_iff.mp hij, heq.trans hnext⟩)
        · exact hnew i j hij hj heq
  | case4 seen current parent hsome hnot hparent =>
      have hnext : wayFrom parents target (n + 1) = some parent :=
        Option.bind_eq_some_iff.mpr ⟨current, hcurrent, hsome⟩
      exact Or.inl (.of_chain hnext (AList.lookup_eq_none.mpr hparent))

theorem resolveRoot_ends_or_lastNew (parents : Table String String) (target : String) :
    Links.Ends (fun a => parents.lookup a) target (resolveRoot target parents)
      ∨ Links.LastNew (fun a => parents.lookup a) target (resolveRoot target parents) := by
  refine resolveFrom_spec (n := 0) rfl ?_ ?_
  · intro a
    simp [wayFrom, Links.chain, eq_comm]
  · intro i j hij hj
    omega

/-- On links without a cycle the climb comes to the end. -/
theorem resolveRoot_ends (hacyclic : Links.Acyclic fun a => parents.lookup a) (a : String) :
    Links.Ends (fun a => parents.lookup a) a (resolveRoot a parents) :=
  (resolveRoot_ends_or_lastNew parents a).resolve_right fun hlast => hacyclic _ hlast.cycle

/--
**What `resolve_root` returns**, for any map of parents. The loop ends within one turn more
than the map has entries. If the way from the target comes to an id without an entry, that
is the root; if it does not, the root is the last id before the first that comes again, and
is on the cycle.
-/
theorem resolveRoot_spec (parents : Table String String) (target : String) :
    Loop.run (resolveTurn parents) (parents.entries.length + 1) ({target}, target)
        = some (resolveRoot target parents)
      ∧ (∀ n r, wayFrom parents target n = some r → parents.lookup r = none →
        resolveRoot target parents = r)
      ∧ ((∀ n r, wayFrom parents target n = some r → parents.lookup r ≠ none) →
        Links.LastNew (fun a => parents.lookup a) target (resolveRoot target parents)
          ∧ Relation.TransGen (fun a b => parents.lookup a = some b)
            (resolveRoot target parents) (resolveRoot target parents)) := by
  have hroot := resolveRoot_ends_or_lastNew parents target
  refine ⟨?_, ?_, ?_⟩
  · refine (solves_resolveTurn parents).run_eq (Nat.lt_succ_of_le ?_)
    have hkeys : parents.keys.length = parents.entries.length := List.length_map _
    rw [← hkeys]
    exact (Finset.card_le_card Finset.sdiff_subset).trans (List.toFinset_card_le _)
  · intro n r hr hnone
    have hends := Links.Ends.of_chain hr hnone
    rcases hroot with hroot | hroot
    · exact hroot.unique hends
    · exact absurd hends hroot.not_ends
  · intro hall
    rcases hroot with hroot | hroot
    · obtain ⟨n, hn⟩ := Links.exists_chain hroot.reaches
      exact absurd hroot.unlinked (hall n _ hn)
    · exact ⟨hroot, hroot.cycle⟩

end CeMail
