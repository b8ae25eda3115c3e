import Mathlib

/-!
# Words between blanks

A list is read as words: the maximal parts without a blank, whatever blanks stand between
them and around them. `collapse` writes the words down again with one space between two of
them. What comes out is tidy, which says it without the words: no blank at either end, no
two blanks in a row, and none but the space. A tidy list collapses to itself.
-/

namespace Words

variable {α : Type*} (blank : α → Bool)

/-- Without the blanks at either end. -/
def trim (l : List α) : List α := (l.dropWhile blank).rdropWhile blank

/-- The parts between blanks that are not empty. -/
def words (l : List α) : List (List α) := (l.splitOnP blank).filter fun w => !w.isEmpty

/-- The words with a space between each two. -/
def collapse (space : α) (l : List α) : List α := [space].intercalate (words blank l)

/-- Something, with no blank in it. -/
structure IsWord (w : List α) : Prop where
  ne_nil : w ≠ []
  solid : ∀ c ∈ w, blank c = false

/-- A list reads as some words when they stand in it with blanks between them. -/
inductive Reads : List α → List (List α) → Prop where
  | blanks {l : List α} : (∀ c ∈ l, blank c) → Reads l []
  | word {pad w rest : List α} {ws : List (List α)} : (∀ c ∈ pad, blank c) → IsWord blank w →
      (∀ c ∈ rest.head?, blank c) → Reads rest ws → Reads (pad ++ (w ++ rest)) (w :: ws)

/-- No blank at an end, no two in a row, and none but the space. -/
structure Tidy (space : α) (l : List α) : Prop where
  head : ∀ c ∈ l.head?, blank c = false
  last : ∀ c ∈ l.getLast?, blank c = false
  apart : l.IsChain fun a b => blank a = false ∨ blank b = false
  plain : ∀ c ∈ l, blank c → c = space

variable {blank} {space : α} {l w pad rest : List α} {ws : List (List α)}

/-! ## Cutting -/

/-- An element stands first where what is in front of it does not have it. -/
theorem idxOf?_append_cons [BEq α] [LawfulBEq α] {c : α} (h : c ∉ w) (m : List α) :
    (w ++ c :: m).idxOf? c = some w.length := by
  induction w with
  | nil => simp [List.idxOf?_cons]
  | cons d w ih =>
      rw [List.mem_cons, not_or] at h
      rw [List.cons_append, List.idxOf?_cons, ih h.2, if_neg (by simpa using Ne.symm h.1)]
      rfl

theorem exists_cut_of_idxOf? [BEq α] [LawfulBEq α] {c : α} {i : Nat} (h : l.idxOf? c = some i) :
    ∃ w m, l = w ++ c :: m ∧ c ∉ w ∧ w.length = i := by
  have hmem : c ∈ l := by
    rw [← List.isSome_idxOf?, h]
    rfl
  obtain ⟨w, m, rfl, hnot⟩ := List.eq_append_cons_of_mem hmem
  rw [idxOf?_append_cons hnot] at h
  exact ⟨w, m, rfl, hnot, Option.some.inj h⟩

/-! ## Trimming -/

/-- What is not blank stops the trimming from the end. -/
theorem rdropWhile_append_cons {c : α} (hc : blank c = false) (l m : List α) :
    (l ++ c :: m).rdropWhile blank = l ++ c :: m.rdropWhile blank := by
  rw [List.rdropWhile, List.reverse_append, List.reverse_cons, List.append_assoc,
    List.dropWhile_append, List.rdropWhile]
  split
  · rename_i hnil
    rw [List.isEmpty_iff.mp hnil, List.singleton_append,
      List.dropWhile_cons_of_neg (by simp [hc])]
    simp
  · simp

/-- A list is blank, or some of it is up to what is not. -/
theorem blank_or_cut (blank : α → Bool) (l : List α) :
    (∀ c ∈ l, blank c) ∨ ∃ pad c m, l = pad ++ c :: m ∧ (∀ d ∈ pad, blank d) ∧ blank c = false := by
  cases hdrop : l.dropWhile blank with
  | nil => exact Or.inl (List.dropWhile_eq_nil_iff.mp hdrop)
  | cons c m =>
      refine Or.inr ⟨l.takeWhile blank, c, m, ?_, ?_, ?_⟩
      · rw [← hdrop, List.takeWhile_append_dropWhile]
      · exact fun d hd => List.mem_takeWhile_imp hd
      · have hne : l.dropWhile blank ≠ [] := by simp [hdrop]
        have hhead := List.head_dropWhile_not blank hne
        simpa [hdrop] using hhead

/-- The two ends are trimmed in either order. -/
theorem dropWhile_rdropWhile (l : List α) :
    (l.rdropWhile blank).dropWhile blank = (l.dropWhile blank).rdropWhile blank := by
  rcases blank_or_cut blank l with hall | ⟨pad, c, m, rfl, hpad, hc⟩
  · rw [List.rdropWhile_eq_nil_iff.mpr hall, List.dropWhile_eq_nil_iff.mpr hall]
    rfl
  · have hstop : ∀ m, (c :: m).dropWhile blank = c :: m := fun m =>
      List.dropWhile_cons_of_neg (by simp [hc])
    rw [rdropWhile_append_cons hc, List.dropWhile_append_of_pos hpad,
      List.dropWhile_append_of_pos hpad, hstop, hstop]
    exact (rdropWhile_append_cons hc [] m).symm

/-! ## Reading -/

@[simp] theorem words_nil : words blank [] = [] := by
  simp [words]

/-- Blanks in front of the words make no difference. -/
theorem words_blank_append (h : ∀ c ∈ pad, blank c) (l : List α) :
    words blank (pad ++ l) = words blank l := by
  induction pad with
  | nil => rfl
  | cons c pad ih =>
      obtain ⟨hc, hpad⟩ := List.forall_mem_cons.mp h
      rw [← ih hpad, words, List.cons_append, List.splitOnP_cons_eq_if_modifyHead, if_pos hc]
      rfl

/-- A word is read up to the blank behind it. -/
theorem words_word_append (h : IsWord blank w) (hrest : ∀ c ∈ rest.head?, blank c) :
    words blank (w ++ rest) = w :: words blank rest := by
  have hkeep : ∀ ws : List (List α),
      ((w :: ws).filter fun w => !w.isEmpty) = w :: ws.filter fun w => !w.isEmpty :=
    fun ws => List.filter_cons_of_pos (by simpa using h.ne_nil)
  cases rest with
  | nil =>
      rw [words_nil, List.append_nil, words, List.splitOnP_eq_singleton h.solid, hkeep]
      rfl
  | cons c rest =>
      have hc : blank c := hrest c rfl
      rw [words, List.splitOnP_append_cons_of_forall_mem h.solid c hc, hkeep]
      have hblank : ∀ d ∈ [c], blank d := by simpa using hc
      exact congrArg _ (words_blank_append hblank rest).symm

/-- **Every list reads as its words.** -/
theorem reads_words (blank : α → Bool) (l : List α) : Reads blank l (words blank l) := by
  induction hn : l.length using Nat.strong_induction_on generalizing l with
  | _ n ih =>
  rcases blank_or_cut blank l with hall | ⟨pad, c, m, rfl, hpad, hc⟩
  · have hnone := words_blank_append hall []
    rw [List.append_nil, words_nil] at hnone
    rw [hnone]
    exact .blanks hall
  · -- the word goes on as long as there is no blank
    have hword : IsWord blank (c :: m.takeWhile fun d => !blank d) := by
      refine ⟨List.cons_ne_nil _ _, List.forall_mem_cons.mpr ⟨hc, ?_⟩⟩
      intro d hd
      simpa using List.mem_takeWhile_imp hd
    have hrest : ∀ d ∈ (m.dropWhile fun d => !blank d).head?, blank d := by
      intro d hd
      have := List.head?_dropWhile_not (fun d => !blank d) m
      rw [Option.mem_def.mp hd] at this
      simpa using this
    have hcut : pad ++ c :: m = pad ++ ((c :: m.takeWhile fun d => !blank d)
        ++ m.dropWhile fun d => !blank d) := by
      rw [List.cons_append, List.takeWhile_append_dropWhile]
    rw [hcut, words_blank_append hpad, words_word_append hword hrest]
    refine .word hpad hword hrest (ih _ ?_ _ rfl)
    have hle := List.length_dropWhile_le (fun d => !blank d) m
    simp only [List.length_append, List.length_cons] at hn
    omega

theorem Reads.isWord (h : Reads blank l ws) : ∀ w ∈ ws, IsWord blank w := by
  induction h with
  | blanks _ => exact fun _ hw => absurd hw List.not_mem_nil
  | word _ hword _ _ ih => exact List.forall_mem_cons.mpr ⟨hword, ih⟩

/-! ## Tidy lists -/

theorem tidy_nil : Tidy blank space [] where
  head _ hc := by cases hc
  last _ hc := by cases hc
  apart := .nil
  plain _ hc := absurd hc List.not_mem_nil

theorem IsWord.tidy (h : IsWord blank w) : Tidy blank space w where
  head c hc := h.solid c (List.mem_of_mem_head? hc)
  last c hc := h.solid c (List.mem_of_mem_getLast? hc)
  apart := (List.pairwise_of_forall_mem_list fun a ha _ _ => Or.inl (h.solid a ha)).isChain
  plain c hc hblank := absurd hblank (by simp [h.solid c hc])

/-- A word and a space in front of something tidy. -/
theorem Tidy.word_append (h : Tidy blank space l) (hne : l ≠ []) (hw : IsWord blank w) :
    Tidy blank space (w ++ space :: l) where
  head c hc := by
    rw [List.head?_append_of_ne_nil _ hw.ne_nil] at hc
    exact hw.solid c (List.mem_of_mem_head? hc)
  last c hc := by
    rw [← List.singleton_append, ← List.append_assoc, List.getLast?_append_of_ne_nil _ hne] at hc
    exact h.last c hc
  apart := by
    have hword : Tidy blank space w := hw.tidy
    refine List.isChain_append.mpr ⟨hword.apart, ?_, ?_⟩
    · refine List.isChain_cons.mpr ⟨fun c hc => Or.inr (h.head c hc), h.apart⟩
    · exact fun c hc d _ => Or.inl (hw.solid c (List.mem_of_mem_getLast? hc))
  plain c hc hblank := by
    rcases List.mem_append.mp hc with hc | hc
    · exact absurd hblank (by simp [hw.solid c hc])
    · rcases List.mem_cons.mp hc with heq | hc
      · exact heq
      · exact h.plain c hc hblank

theorem intercalate_ne_nil (h : ∀ w ∈ ws, IsWord blank w) (hne : ws ≠ []) :
    [space].intercalate ws ≠ [] := by
  cases ws with
  | nil => exact absurd rfl hne
  | cons w ws =>
      have hw := (h w List.mem_cons_self).ne_nil
      cases ws with
      | nil => rwa [List.intercalate_singleton]
      | cons w' ws =>
          rw [List.intercalate_cons_cons, List.append_assoc]
          exact List.append_ne_nil_of_left_ne_nil hw _

theorem tidy_intercalate (h : ∀ w ∈ ws, IsWord blank w) :
    Tidy blank space ([space].intercalate ws) := by
  induction ws with
  | nil => exact tidy_nil
  | cons w ws ih =>
      obtain ⟨hw, hws⟩ := List.forall_mem_cons.mp h
      by_cases hne : ws = []
      · subst hne
        rw [List.intercalate_singleton]
        exact hw.tidy
      · rw [List.intercalate_cons_of_ne_nil hne, List.append_assoc, List.singleton_append]
        exact (ih hws).word_append (intercalate_ne_nil hws hne) hw

/-- **What is collapsed is tidy.** -/
theorem tidy_collapse (space : α) (l : List α) : Tidy blank space (collapse blank space l) :=
  tidy_intercalate (reads_words blank l).isWord

/-- A tidy list has nothing to trim. -/
theorem Tidy.dropWhile_eq (h : Tidy blank space l) : l.dropWhile blank = l := by
  cases l with
  | nil => rfl
  | cons c l => exact List.dropWhile_cons_of_neg (by simp [h.head c rfl])

theorem Tidy.trim_eq (h : Tidy blank space l) : trim blank l = l := by
  rw [trim, h.dropWhile_eq, List.rdropWhile_eq_self_iff]
  intro hne
  simp [h.last _ (List.getLast_mem_getLast? hne)]

/-- Behind a word of a tidy list stand one space and something tidy, or nothing. -/
theorem Tidy.of_append {c : α} (h : Tidy blank space (w ++ c :: l)) (hc : blank c) :
    c = space ∧ l ≠ [] ∧ Tidy blank space l := by
  have hne : l ≠ [] := by
    rintro rfl
    have hlast := h.last c (by simp)
    rw [hc] at hlast
    cases hlast
  have hchain := h.apart.right_of_append
  refine ⟨h.plain c (by simp) hc, hne, ?_, ?_, ?_, ?_⟩
  · intro d hd
    exact (hchain.rel_head? hd).resolve_left (by simp [hc])
  · intro d hd
    refine h.last d ?_
    rw [← List.singleton_append, ← List.append_assoc, List.getLast?_append_of_ne_nil _ hne]
    exact hd
  · exact hchain.tail
  · exact fun d hd => h.plain d (List.mem_append_right _ (List.mem_cons_of_mem c hd))

/-- A word is not blank at its front. -/
theorem IsWord.dropWhile_append (h : IsWord blank w) (l : List α) :
    (w ++ l).dropWhile blank = w ++ l := by
  cases w with
  | nil => exact absurd rfl h.ne_nil
  | cons c w => exact List.dropWhile_cons_of_neg (by simp [h.solid c List.mem_cons_self])

/-- The words of a list that is tidy up to the blanks in front of it make up the list. -/
theorem Reads.intercalate_eq (h : Reads blank l ws) (htidy : Tidy blank space (l.dropWhile blank)) :
    [space].intercalate ws = l.dropWhile blank := by
  induction h with
  | blanks hall =>
      rw [List.dropWhile_eq_nil_iff.mpr hall]
      rfl
  | @word pad w rest ws hpad hw hrest hreads ih =>
      rw [List.dropWhile_append_of_pos hpad, hw.dropWhile_append] at htidy ⊢
      cases rest with
      | nil =>
          have hnil : ws = [] := by
            generalize hl : ([] : List α) = l at hreads
            cases hreads with
            | blanks => rfl
            | word _ hw' => simp [hw'.ne_nil] at hl
          rw [hnil, List.intercalate_singleton, List.append_nil]
      | cons c rest =>
          have hc : blank c := hrest c rfl
          obtain ⟨rfl, hne, hrest'⟩ := htidy.of_append hc
          rw [List.dropWhile_cons_of_pos hc, hrest'.dropWhile_eq] at ih
          have hjoin := ih hrest'
          have hws : ws ≠ [] := by
            rintro rfl
            exact hne hjoin.symm
          rw [List.intercalate_cons_of_ne_nil hws, hjoin, List.append_assoc, List.singleton_append]

/-- **A tidy list collapses to itself.** -/
theorem Tidy.collapse_eq (h : Tidy blank space l) : collapse blank space l = l := by
  have hdrop : Tidy blank space (l.dropWhile blank) := h.dropWhile_eq.symm ▸ h
  rw [collapse, (reads_words blank l).intercalate_eq hdrop, h.dropWhile_eq]

/-- What stands at the front of the words without a blank stood at the front of the list. -/
theorem prefix_of_prefix_collapse {t : List α} (hspace : blank space)
    (ht : ∀ c ∈ t, blank c = false) (h : t <+: collapse blank space l) :
    t <+: l.dropWhile blank := by
  have hreads := reads_words blank l
  unfold collapse at h
  generalize words blank l = ws at h hreads
  cases hreads with
  | blanks => exact h.trans List.nil_prefix
  | @word pad w rest ws hpad hw =>
      rw [List.dropWhile_append_of_pos hpad, hw.dropWhile_append]
      refine List.IsPrefix.trans ?_ (List.prefix_append w rest)
      by_cases hnil : ws = []
      · subst hnil
        rwa [List.intercalate_singleton] at h
      · rw [List.intercalate_cons_of_ne_nil hnil, List.append_assoc] at h
        rcases List.prefix_or_prefix_of_prefix h (List.prefix_append w _) with hle | ⟨t', rfl⟩
        · exact hle
        · -- a longer one would have the space in it
          rw [List.prefix_append_right_inj] at h
          cases t' with
          | nil => rw [List.append_nil]
          | cons c t' =>
              obtain ⟨rfl, -⟩ := List.cons_prefix_cons.mp h
              have hc := ht c (by simp)
              rw [hspace] at hc
              cases hc

/-- What maps blanks and the space to themselves keeps a list tidy. -/
theorem Tidy.map {f : α → α} (h : Tidy blank space l) (hf : ∀ c, blank (f c) = blank c)
    (hspace : f space = space) : Tidy blank space (l.map f) where
  head c hc := by
    rw [List.head?_map] at hc
    obtain ⟨d, hd, rfl⟩ := Option.map_eq_some_iff.mp hc
    rw [hf]
    exact h.head d hd
  last c hc := by
    rw [List.getLast?_map] at hc
    obtain ⟨d, hd, rfl⟩ := Option.map_eq_some_iff.mp hc
    rw [hf]
    exact h.last d hd
  apart := by
    rw [List.isChain_map]
    simp only [hf]
    exact h.apart
  plain c hc hblank := by
    obtain ⟨d, hd, rfl⟩ := List.mem_map.mp hc
    rw [hf] at hblank
    rw [h.plain d hd hblank, hspace]

end Words
