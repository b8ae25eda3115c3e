import Mathlib

/-!
# Hash maps as association lists

A hash map is a list of entries with distinct keys; the order of the list is the
order a traversal happens to visit them in, and no lookup depends on it. The
carrier and its laws are `AList`; this file adds the three access patterns a
program uses on top of them (read with a default, create on first use, update in
place) and the detour a map takes through a list of pairs when it is written out
and read back.
-/

/-- A hash map from `κ` to `ν`. -/
abbrev Table (κ ν : Type*) := AList fun _ : κ => ν

namespace Table

variable {κ ν : Type*} [DecidableEq κ]

/-! ## Reading and writing one key -/

section Default

variable [Inhabited ν]

/-- The value at a key, or the default where the key is absent. -/
def get (m : Table κ ν) (k : κ) : ν := (m.lookup k).getD default

/-- Create the key with the default value unless it is already there. -/
def touch (m : Table κ ν) (k : κ) : Table κ ν := if k ∈ m then m else m.insert k default

@[simp] theorem get_empty (k : κ) : get (∅ : Table κ ν) k = default := rfl

@[simp] theorem get_insert (m : Table κ ν) (k : κ) (v : ν) : get (m.insert k v) k = v := by
  simp [get]

theorem get_insert_ne {k k' : κ} (h : k' ≠ k) (m : Table κ ν) (v : ν) :
    get (m.insert k v) k' = get m k' := by
  simp [get, AList.lookup_insert_ne h]

@[simp] theorem get_erase (m : Table κ ν) (k : κ) : get (m.erase k) k = default := by
  simp [get]

theorem get_erase_ne {k k' : κ} (h : k' ≠ k) (m : Table κ ν) : get (m.erase k) k' = get m k' := by
  simp [get, AList.lookup_erase_ne h]

/-- Creating a key changes no value. -/
@[simp] theorem get_touch (m : Table κ ν) (k k' : κ) : get (m.touch k) k' = get m k' := by
  unfold touch
  split
  · rfl
  · rename_i hk
    by_cases h : k' = k
    · subst h
      rw [get_insert, get, AList.lookup_eq_none.mpr hk]
      rfl
    · exact get_insert_ne h m _

theorem touch_of_mem {m : Table κ ν} {k : κ} (h : k ∈ m) : m.touch k = m := if_pos h

theorem mem_touch (m : Table κ ν) (k : κ) : k ∈ m.touch k := by
  unfold touch
  split
  · assumption
  · simp

/-- A value other than the default is the value of a key that is there. -/
theorem mem_of_get_ne {m : Table κ ν} {k : κ} (h : get m k ≠ default) : k ∈ m := by
  by_contra hk
  exact h (by rw [get, AList.lookup_eq_none.mpr hk]; rfl)

theorem get_of_notMem {m : Table κ ν} {k : κ} (h : k ∉ m) : get m k = default := by
  rw [get, AList.lookup_eq_none.mpr h]; rfl

end Default

/-- Update the value at a key in place; an absent key stays absent. -/
def modify (m : Table κ ν) (k : κ) (f : ν → ν) : Table κ ν :=
  match m.lookup k with
  | some v => m.insert k (f v)
  | none => m

theorem modify_of_mem [Inhabited ν] {m : Table κ ν} {k : κ} (h : k ∈ m) (f : ν → ν) :
    m.modify k f = m.insert k (f (get m k)) := by
  obtain ⟨v, hv⟩ := Option.isSome_iff_exists.mp (AList.lookup_isSome.mpr h)
  simp only [modify, get, hv, Option.getD_some]

/-- Updating a key that is there changes its value and no other. -/
theorem get_modify [Inhabited ν] {m : Table κ ν} {k : κ} (h : k ∈ m) (f : ν → ν) (k' : κ) :
    get (m.modify k f) k' = if k' = k then f (get m k) else get m k' := by
  rw [modify_of_mem h]
  by_cases hk : k' = k
  · subst hk; rw [if_pos rfl, get_insert]
  · rw [if_neg hk, get_insert_ne hk]

/-! ## Out to a list of pairs and back -/

/-- The entries in traversal order. -/
def pairs (m : Table κ ν) : List (κ × ν) := m.entries.map fun e => (e.1, e.2)

/-- Insert pairs one by one; of two with one key the later stays. -/
def ofPairs (ps : List (κ × ν)) : Table κ ν := ps.foldl (fun m p => m.insert p.1 p.2) ∅

theorem mem_pairs {m : Table κ ν} {k : κ} {v : ν} : (k, v) ∈ m.pairs ↔ m.lookup k = some v := by
  rw [← Option.mem_def, AList.mem_lookup_iff]
  refine ⟨?_, ?_⟩
  · intro h
    obtain ⟨⟨k', v'⟩, he, heq⟩ := List.mem_map.mp h
    cases heq
    exact he
  · exact fun h => List.mem_map.mpr ⟨⟨k, v⟩, h, rfl⟩

omit [DecidableEq κ] in
theorem pairs_fst_nodup (m : Table κ ν) : (m.pairs.map Prod.fst).Nodup := by
  have h : m.pairs.map Prod.fst = m.keys := by
    simp only [pairs, AList.keys, List.keys, List.map_map]
    rfl
  rw [h]
  exact m.keys_nodup

theorem lookup_foldl_insert {ps : List (κ × ν)} (hnd : (ps.map Prod.fst).Nodup)
    (m : Table κ ν) (k : κ) :
    (ps.foldl (fun m p => m.insert p.1 p.2) m).lookup k
      = ((ps.find? fun p => p.1 = k).map Prod.snd).or (m.lookup k) := by
  induction ps generalizing m with
  | nil => rfl
  | cons p ps ih =>
    obtain ⟨hp, hnd⟩ := List.nodup_cons.mp hnd
    rw [List.foldl_cons, ih hnd, List.find?_cons]
    by_cases h : p.1 = k
    · subst h
      have hnone : ps.find? (fun q => q.1 = p.1) = none := by
        refine List.find?_eq_none.mpr fun q hq he => hp ?_
        exact List.mem_map.mpr ⟨q, hq, by simpa using he⟩
      simp [hnone]
    · simp [h, AList.lookup_insert_ne (Ne.symm h)]

/-- **A map survives the detour** in any traversal order: every key reads the same afterwards. -/
theorem lookup_ofPairs_of_perm {m : Table κ ν} {ps : List (κ × ν)} (hps : ps.Perm m.pairs) (k : κ) :
    (ofPairs ps).lookup k = m.lookup k := by
  have hnd : (ps.map Prod.fst).Nodup := (hps.map Prod.fst).nodup_iff.mpr m.pairs_fst_nodup
  have hmem : ∀ {k v}, (k, v) ∈ ps ↔ m.lookup k = some v := hps.mem_iff.trans mem_pairs
  rw [ofPairs, lookup_foldl_insert hnd, AList.lookup_empty, Option.or_none]
  cases hk : m.lookup k with
  | none =>
      have hnone : ps.find? (fun p => p.1 = k) = none := by
        refine List.find?_eq_none.mpr fun p hp he => ?_
        obtain ⟨k', v⟩ := p
        obtain rfl : k' = k := by simpa using he
        simp [hmem.mp hp] at hk
      rw [hnone]; rfl
  | some v =>
      cases hf : ps.find? (fun p => p.1 = k) with
      | none =>
          have := List.find?_eq_none.mp hf (k, v) (hmem.mpr hk)
          simp at this
      | some p =>
          obtain ⟨k', v'⟩ := p
          obtain rfl : k' = k := by simpa using List.find?_some hf
          have := hmem.mp (List.mem_of_find?_eq_some hf)
          rw [hk] at this
          exact this.symm

theorem lookup_ofPairs_pairs (m : Table κ ν) (k : κ) :
    (ofPairs m.pairs).lookup k = m.lookup k := lookup_ofPairs_of_perm (List.Perm.refl _) k

@[simp] theorem get_ofPairs_pairs [Inhabited ν] (m : Table κ ν) (k : κ) :
    get (ofPairs m.pairs) k = get m k := by
  rw [get, lookup_ofPairs_pairs]
  rfl

/-! ## Totals -/

/-- The sum of a measure over the entries. -/
def total (f : κ → ν → Nat) (m : Table κ ν) : Nat := (m.pairs.map fun p => f p.1 p.2).sum

section Total

variable [Inhabited ν] {f g : κ → ν → Nat} {m m' : Table κ ν}

/-- A total is a sum over any keys that include those of the table. -/
theorem total_eq_sum (hf : ∀ k, f k default = 0) {keys : Finset κ} (hkeys : ∀ k ∈ m, k ∈ keys) :
    total f m = ∑ k ∈ keys, f k (get m k) := by
  -- keys beyond those of the table add nothing
  have hsub : m.keys.toFinset ⊆ keys := fun k hk => hkeys k (List.mem_toFinset.mp hk)
  have hentries : total f m = (m.keys.map fun k => f k (get m k)).sum := by
    have hkeys' : m.keys = m.pairs.map Prod.fst := by
      simp only [pairs, AList.keys, List.keys, List.map_map]
      rfl
    rw [total, hkeys', List.map_map]
    refine congrArg List.sum (List.map_congr_left ?_)
    intro p hp
    show f p.1 p.2 = f p.1 (get m p.1)
    rw [get, mem_pairs.mp hp]
    rfl
  rw [hentries, ← List.sum_toFinset _ m.keys_nodup]
  refine Finset.sum_subset hsub ?_
  intro k _ hk
  have hnot : k ∉ m := fun h => hk (List.mem_toFinset.mpr h)
  rw [get_of_notMem hnot, hf]

/-- Tables whose values measure alike have one total. -/
theorem total_congr (hf : ∀ k, f k default = 0) (hg : ∀ k, g k default = 0)
    (h : ∀ k, f k (get m k) = g k (get m' k)) : total f m = total g m' := by
  have hm : ∀ k ∈ m, k ∈ m.keys.toFinset ∪ m'.keys.toFinset :=
    fun k hk => Finset.mem_union_left _ (List.mem_toFinset.mpr hk)
  have hm' : ∀ k ∈ m', k ∈ m.keys.toFinset ∪ m'.keys.toFinset :=
    fun k hk => Finset.mem_union_right _ (List.mem_toFinset.mpr hk)
  rw [total_eq_sum hf hm, total_eq_sum hg hm']
  exact Finset.sum_congr rfl fun k _ => h k

/-- A table with smaller values has a smaller total. -/
theorem total_le_total (hf : ∀ k, f k default = 0) (h : ∀ k, f k (get m' k) ≤ f k (get m k)) :
    total f m' ≤ total f m := by
  have hm : ∀ k ∈ m, k ∈ m.keys.toFinset ∪ m'.keys.toFinset :=
    fun k hk => Finset.mem_union_left _ (List.mem_toFinset.mpr hk)
  have hm' : ∀ k ∈ m', k ∈ m.keys.toFinset ∪ m'.keys.toFinset :=
    fun k hk => Finset.mem_union_right _ (List.mem_toFinset.mpr hk)
  rw [total_eq_sum hf hm, total_eq_sum hf hm']
  exact Finset.sum_le_sum fun k _ => h k

/-- One key apart from the rest, which add up to nothing only when each measures nothing. -/
theorem exists_total_eq_add (hf : ∀ k, f k default = 0) (k : κ)
    (hrest : ∀ k' ≠ k, get m' k' = get m k') :
    ∃ rest, total f m = f k (get m k) + rest ∧ total f m' = f k (get m' k) + rest
      ∧ (rest = 0 ↔ ∀ k' ≠ k, f k' (get m k') = 0) := by
  have hm : ∀ k' ∈ m, k' ∈ insert k (m.keys.toFinset ∪ m'.keys.toFinset) :=
    fun k' hk => Finset.mem_insert_of_mem (Finset.mem_union_left _ (List.mem_toFinset.mpr hk))
  have hm' : ∀ k' ∈ m', k' ∈ insert k (m.keys.toFinset ∪ m'.keys.toFinset) :=
    fun k' hk => Finset.mem_insert_of_mem (Finset.mem_union_right _ (List.mem_toFinset.mpr hk))
  refine ⟨∑ k' ∈ (insert k (m.keys.toFinset ∪ m'.keys.toFinset)).erase k, f k' (get m k'),
    ?_, ?_, ?_⟩
  · rw [total_eq_sum hf hm]
    exact (Finset.add_sum_erase _ _ (Finset.mem_insert_self k _)).symm
  · rw [total_eq_sum hf hm', ← Finset.add_sum_erase _ _ (Finset.mem_insert_self k _)]
    refine congrArg _ (Finset.sum_congr rfl ?_)
    intro k' hk'
    rw [hrest k' (Finset.ne_of_mem_erase hk')]
  · rw [Finset.sum_eq_zero_iff]
    refine ⟨?_, ?_⟩
    · intro h k' hk'
      by_cases hmem : k' ∈ m
      · exact h k' (Finset.mem_erase.mpr ⟨hk', hm k' hmem⟩)
      -- a key that is absent reads as the default
      · rw [get_of_notMem hmem, hf]
    · exact fun h k' hk' => h k' (Finset.ne_of_mem_erase hk')

end Total

end Table
