import Mathlib

/-!
# Bounded retention of a log

Two descriptions of a queue that keeps the newest items of an unbounded stream.

**The window** is what such a queue is for. Everything ever appended is a log, the
oldest part of the log has been let go, and the contents are the rest. Dropping
from the front moves the base, and a position in the log keeps its meaning for
ever while an index into the contents does not.

**The slot** is how the queue is kept: the contents, and beside them a set of keys
used to recognise an item that was stored before. Appending past the capacity
evicts from the front and forgets the evicted keys, freeing from the front does
not. `Slot.Sound` is the invariant that ties the set to the contents and to the
keys that were freed.
-/

/-! ## The window -/

/-- A log of which the first `base` items have been let go. -/
@[ext]
structure Window (α : Type*) where
  log : List α
  base : Nat
  base_le : base ≤ log.length

namespace Window

variable {α : Type*}

/-- What is still there. -/
def contents (w : Window α) : List α := w.log.drop w.base

/-- The empty log. -/
def empty : Window α := ⟨[], 0, Nat.le_refl 0⟩

/-- Append an item. -/
def push (w : Window α) (x : α) : Window α :=
  ⟨w.log ++ [x], w.base, by rw [List.length_append]; exact Nat.le_add_right_of_le w.base_le⟩

/-- Let go of the `n` oldest items that are still there. -/
def advance (w : Window α) (n : Nat) : Window α :=
  ⟨w.log, min (w.base + n) w.log.length, Nat.min_le_right _ _⟩

@[simp] theorem contents_empty : (empty : Window α).contents = [] := rfl

@[simp] theorem log_push (w : Window α) (x : α) : (w.push x).log = w.log ++ [x] := rfl

@[simp] theorem base_push (w : Window α) (x : α) : (w.push x).base = w.base := rfl

@[simp] theorem log_advance (w : Window α) (n : Nat) : (w.advance n).log = w.log := rfl

theorem length_contents (w : Window α) : w.contents.length = w.log.length - w.base :=
  List.length_drop

theorem contents_push (w : Window α) (x : α) : (w.push x).contents = w.contents ++ [x] :=
  List.drop_append_of_le_length w.base_le

theorem contents_advance (w : Window α) (n : Nat) :
    (w.advance n).contents = w.contents.drop n := by
  have hcut : w.log.drop (w.base + n) = w.contents.drop n := by rw [contents, List.drop_drop]
  show w.log.drop (min (w.base + n) w.log.length) = _
  rcases Nat.le_total (w.base + n) w.log.length with h | h
  · rw [Nat.min_eq_left h, hcut]
  · rw [Nat.min_eq_right h, List.drop_length, ← hcut, List.drop_eq_nil_of_le h]

/-- The base moves by as many items as there were to let go. -/
theorem base_advance (w : Window α) (n : Nat) :
    (w.advance n).base = w.base + min n w.contents.length := by
  have := w.base_le
  show min (w.base + n) w.log.length = _
  rw [length_contents]
  omega

/-- An index into the contents is a position of the log, counted from the base. -/
theorem getElem?_contents (w : Window α) (i : Nat) : w.contents[i]? = w.log[w.base + i]? :=
  List.getElem?_drop

theorem mem_contents {w : Window α} {x : α} :
    x ∈ w.contents ↔ ∃ p, w.base ≤ p ∧ w.log[p]? = some x := by
  rw [List.mem_iff_getElem?]
  refine ⟨?_, ?_⟩
  · intro h
    rcases h with ⟨i, hi⟩
    exact ⟨w.base + i, Nat.le_add_right _ _, by rw [← getElem?_contents]; exact hi⟩
  · intro h
    rcases h with ⟨p, hp, hx⟩
    exact ⟨p - w.base, by rw [getElem?_contents, Nat.add_sub_cancel' hp]; exact hx⟩

/-- The contents from an index on are the log from a position on. -/
theorem mem_drop_contents {w : Window α} {n : Nat} {x : α} :
    x ∈ w.contents.drop n ↔ ∃ p, w.base + n ≤ p ∧ w.log[p]? = some x := by
  rw [contents, List.drop_drop, List.mem_iff_getElem?]
  refine ⟨?_, ?_⟩
  · intro h
    rcases h with ⟨i, hi⟩
    exact ⟨w.base + n + i, Nat.le_add_right _ _, by rw [← List.getElem?_drop]; exact hi⟩
  · intro h
    rcases h with ⟨p, hp, hx⟩
    exact ⟨p - (w.base + n), by rw [List.getElem?_drop, Nat.add_sub_cancel' hp]; exact hx⟩

/-- Items with distinct keys are where they are by their key. -/
theorem position_eq_of_nodup {β : Type*} {f : α → β} {w : Window α} {p q : Nat} {x y : α}
    (hnd : (w.log.map f).Nodup) (hp : w.log[p]? = some x) (hq : w.log[q]? = some y)
    (hxy : f x = f y) : p = q := by
  have hlt := (List.getElem?_eq_some_iff.mp hp).1
  refine (List.getElem?_inj (by rw [List.length_map]; exact hlt) hnd).mp ?_
  rw [List.getElem?_map, List.getElem?_map, hp, hq]
  exact congrArg some hxy

/-! ### A reader that keeps an index

A reader asks for the contents from an index on and keeps the length it found as its
next index. Between two of its reads items are pushed and, past a capacity, others let
go, never more than were pushed.
-/

/--
Where such a reader stands: its index, how many items were let go since its last read,
and what it got so far, all of it from before the end of its last read.
-/
structure Lag (w : Window α) (index gone : Nat) (got : List α) : Prop where
  gone_le : gone ≤ w.base
  replaced : w.base + index ≤ w.log.length
  got_old : ∀ x ∈ got, ∃ p, p < w.base - gone + index ∧ w.log[p]? = some x

/-- The reader got everything that was there when it last read. -/
def CaughtUp (w : Window α) (index gone : Nat) (got : List α) : Prop :=
  ∀ p x, w.base - gone ≤ p → p < w.base - gone + index → w.log[p]? = some x → x ∈ got

section Reader

variable {w : Window α} {index gone : Nat} {got : List α}

theorem lag_empty : Lag (empty : Window α) 0 0 [] :=
  ⟨Nat.le_refl 0, Nat.le_refl 0, fun _ h => by cases h⟩

theorem caughtUp_empty : CaughtUp (empty : Window α) 0 0 [] :=
  fun _ _ _ h => by cases h

/-- A push that lets go of at most one item moves the base by that item. -/
theorem base_push_advance (w : Window α) (x : α) {n : Nat} (hn : n ≤ 1) :
    ((w.push x).advance n).base = w.base + n := by
  have := w.base_le
  rw [base_advance, contents_push, List.length_append, List.length_singleton, base_push]
  omega

theorem Lag.push (h : Lag w index gone got) (x : α) {n : Nat} (hn : n ≤ 1) :
    Lag ((w.push x).advance n) index (gone + n) got := by
  obtain ⟨hgone, hrep, hold⟩ := h
  have hbase := base_push_advance w x hn
  refine ⟨by omega, ?_, ?_⟩
  · rw [hbase, log_advance, log_push, List.length_append, List.length_singleton]
    omega
  · intro y hy
    obtain ⟨p, hp, hget⟩ := hold y hy
    refine ⟨p, by omega, ?_⟩
    rw [log_advance, log_push, List.getElem?_append_left (List.getElem?_eq_some_iff.mp hget).1]
    exact hget

theorem CaughtUp.push (h : CaughtUp w index gone got) (hrep : w.base + index ≤ w.log.length)
    (x : α) {n : Nat} (hn : n ≤ 1) : CaughtUp ((w.push x).advance n) index (gone + n) got := by
  have hbase := base_push_advance w x hn
  intro p y hlow hhigh hget
  refine h p y (by omega) (by omega) ?_
  rw [log_advance, log_push, List.getElem?_append_left (by omega)] at hget
  exact hget

/-- After a read the reader has got nothing newer than the contents. -/
theorem Lag.read (h : Lag w index gone got) :
    Lag w w.contents.length 0 (got ++ w.contents.drop index) := by
  obtain ⟨hgone, hrep, hold⟩ := h
  have hlen := w.length_contents
  have hmark : w.base - 0 + w.contents.length = w.log.length := by omega
  refine ⟨Nat.zero_le _, by omega, fun x hx => ?_⟩
  rw [hmark]
  rcases List.mem_append.mp hx with hx | hx
  · obtain ⟨p, hp, hget⟩ := hold x hx
    exact ⟨p, by omega, hget⟩
  · obtain ⟨p, -, hget⟩ := mem_drop_contents.mp hx
    exact ⟨p, (List.getElem?_eq_some_iff.mp hget).1, hget⟩

/-- **A read in time misses nothing**: nothing was let go since the last one, or that one found
nothing. -/
theorem CaughtUp.read (h : CaughtUp w index gone got) (hin : index = 0 ∨ gone = 0) :
    ∀ x ∈ w.contents, x ∈ got ++ w.contents.drop index := by
  intro x hx
  obtain ⟨p, hp, hget⟩ := mem_contents.mp hx
  rw [List.mem_append, mem_drop_contents]
  rcases Nat.lt_or_ge p (w.base + index) with hlt | hge
  -- before the index: it was there when the reader last read
  · exact Or.inl (h p x (by omega) (by omega) hget)
  · exact Or.inr ⟨p, hge, hget⟩

/-- Having got all the contents is being caught up. -/
theorem caughtUp_of_forall_mem (h : ∀ x ∈ w.contents, x ∈ got) :
    CaughtUp w w.contents.length 0 got :=
  fun p x hlow _ hget => h x (mem_contents.mpr ⟨p, by omega, hget⟩)

/-- **A late read misses an item**, when no item is pushed twice. -/
theorem Lag.exists_missed (h : Lag w index gone got) (hnd : w.log.Nodup) (hindex : index ≠ 0)
    (hgone : gone ≠ 0) : ∃ x ∈ w.contents, x ∉ got ++ w.contents.drop index := by
  obtain ⟨hle, hrep, hold⟩ := h
  -- the first item since the last read that is still there
  have hlt : max (w.base - gone + index) w.base < w.log.length := by omega
  refine ⟨w.log[max (w.base - gone + index) w.base], ?_, ?_⟩
  · exact mem_contents.mpr ⟨_, Nat.le_max_right _ _, List.getElem?_eq_getElem hlt⟩
  · intro hmem
    have hpos : ∃ p, (p < w.base - gone + index ∨ w.base + index ≤ p)
        ∧ w.log[p]? = some w.log[max (w.base - gone + index) w.base] := by
      rcases List.mem_append.mp hmem with hmem | hmem
      · obtain ⟨p, hp, hget⟩ := hold _ hmem
        exact ⟨p, Or.inl hp, hget⟩
      · obtain ⟨p, hp, hget⟩ := mem_drop_contents.mp hmem
        exact ⟨p, Or.inr hp, hget⟩
    obtain ⟨p, hp, hget⟩ := hpos
    obtain ⟨hplt, hget⟩ := List.getElem?_eq_some_iff.mp hget
    have := (hnd.getElem_inj_iff).mp hget
    omega

end Reader

end Window

/-! ## The slot -/

/-- A queue and the keys by which its items are recognised. -/
structure Slot (ι α : Type*) where
  queue : List α
  seen : Finset ι

namespace Slot

variable {ι α : Type*} [DecidableEq ι]

/-- Nothing stored, nothing remembered. -/
def empty : Slot ι α := ⟨[], ∅⟩

/-- The keys of the items in the queue. -/
def keys (key : α → ι) (s : Slot ι α) : Finset ι := (s.queue.map key).toFinset

/--
Store an item unless its key is remembered. Past the capacity the oldest items are
evicted and their keys forgotten. The flag says whether the item was stored.
-/
def deposit (capacity : Nat) (key : α → ι) (s : Slot ι α) (x : α) : Slot ι α × Bool :=
  if key x ∈ s.seen then (s, false)
  else
    let q := s.queue ++ [x]
    let overflow := q.length - capacity
    (⟨q.drop overflow, ((q.take overflow).map key).foldl Finset.erase (insert (key x) s.seen)⟩,
      true)

/-- Free the `n` oldest items; their keys stay remembered. -/
def free (s : Slot ι α) (n : Nat) : Slot ι α := { s with queue := s.queue.drop n }

theorem mem_foldl_erase {l : List ι} {s : Finset ι} {a : ι} :
    a ∈ l.foldl Finset.erase s ↔ a ∈ s ∧ a ∉ l := by
  induction l generalizing s with
  | nil => simp
  | cons b l ih =>
    rw [List.foldl_cons, ih, Finset.mem_erase, List.mem_cons]
    tauto

theorem deposit_of_mem {capacity : Nat} {key : α → ι} {s : Slot ι α} {x : α}
    (h : key x ∈ s.seen) : s.deposit capacity key x = (s, false) := if_pos h

/-- How many items a deposit evicts. -/
def overflow (capacity : Nat) (s : Slot ι α) : Nat := s.queue.length + 1 - capacity

section Fresh

variable {capacity : Nat} {key : α → ι} {s : Slot ι α} {x : α}

theorem deposit_of_notMem (h : key x ∉ s.seen) :
    s.deposit capacity key x =
      (⟨(s.queue ++ [x]).drop (s.overflow capacity),
        (((s.queue ++ [x]).take (s.overflow capacity)).map key).foldl Finset.erase
          (insert (key x) s.seen)⟩, true) := by
  simp only [deposit, if_neg h, overflow, List.length_append, List.length_singleton]

omit [DecidableEq ι] in
theorem overflow_le_length {s : Slot ι α} (hcap : 0 < capacity) :
    s.overflow capacity ≤ s.queue.length := by
  unfold overflow
  omega

/-- With room for one item the newest is never the one evicted. -/
theorem queue_deposit (hcap : 0 < capacity) (h : key x ∉ s.seen) :
    (s.deposit capacity key x).1.queue = s.queue.drop (s.overflow capacity) ++ [x] := by
  rw [deposit_of_notMem h]
  exact List.drop_append_of_le_length (overflow_le_length hcap)

theorem seen_deposit (hcap : 0 < capacity) (h : key x ∉ s.seen) (a : ι) :
    a ∈ (s.deposit capacity key x).1.seen ↔
      (a = key x ∨ a ∈ s.seen) ∧ a ∉ (s.queue.take (s.overflow capacity)).map key := by
  have htake : (s.queue ++ [x]).take (s.overflow capacity)
      = s.queue.take (s.overflow capacity) :=
    List.take_append_of_le_length (overflow_le_length hcap)
  rw [deposit_of_notMem h, htake, mem_foldl_erase, Finset.mem_insert]

end Fresh

/-! ## The invariant -/

/--
What a slot of some capacity satisfies once the keys in `freed` have been freed from
it: the queue is within bounds, no key occurs twice in it, and the keys remembered
are those in the queue together with those freed, which do not overlap.
-/
structure Sound (capacity : Nat) (key : α → ι) (freed : Finset ι) (s : Slot ι α) : Prop where
  bounded : s.queue.length ≤ capacity
  nodup : (s.queue.map key).Nodup
  seen : s.seen = s.keys key ∪ freed
  disjoint : Disjoint (s.keys key) freed

namespace Sound

variable {capacity : Nat} {key : α → ι} {freed : Finset ι} {s : Slot ι α}

theorem init (capacity : Nat) (key : α → ι) : Sound capacity key ∅ (empty : Slot ι α) where
  bounded := Nat.zero_le _
  nodup := List.nodup_nil
  seen := rfl
  disjoint := Finset.disjoint_empty_right _

theorem mem_seen (hs : Sound capacity key freed s) {a : ι} :
    a ∈ s.seen ↔ a ∈ s.queue.map key ∨ a ∈ freed := by
  rw [hs.seen, Finset.mem_union, keys, List.mem_toFinset]

theorem notMem_freed (hs : Sound capacity key freed s) {a : ι} (h : a ∈ s.queue.map key) :
    a ∉ freed :=
  Finset.disjoint_left.mp hs.disjoint (List.mem_toFinset.mpr h)

/-- The set of remembered keys is exactly as large as the queue and the freed keys. -/
theorem card_seen (hs : Sound capacity key freed s) :
    s.seen.card = s.queue.length + freed.card := by
  rw [hs.seen, Finset.card_union_of_disjoint hs.disjoint, keys,
    List.toFinset_card_of_nodup hs.nodup, List.length_map]

/-- A queue within bounds evicts at most one item. -/
theorem overflow_le (hs : Sound capacity key freed s) : s.overflow capacity ≤ 1 := by
  have := hs.bounded
  unfold overflow
  omega

/-- **Storing keeps the invariant**, and frees nothing. -/
theorem deposit (hcap : 0 < capacity) (hs : Sound capacity key freed s) (x : α) :
    Sound capacity key freed (s.deposit capacity key x).1 := by
  by_cases h : key x ∈ s.seen
  · rw [deposit_of_mem h]; exact hs
  have hqueue := queue_deposit hcap h
  have hsplit := List.take_append_drop (s.overflow capacity) s.queue
  -- the new key is neither queued nor freed, because it was not remembered
  have hnew := fun hm => h (hs.mem_seen.mpr hm)
  have hnd : ((s.queue.drop (s.overflow capacity)).map key).Nodup := by
    rw [List.map_drop]; exact hs.nodup.sublist (List.drop_sublist _ _)
  -- an evicted key occurs nowhere else in the queue
  have hevicted : ∀ a, a ∈ (s.queue.take (s.overflow capacity)).map key →
      a ∉ (s.queue.drop (s.overflow capacity)).map key := by
    have hnd' := hs.nodup
    rw [← hsplit, List.map_append] at hnd'
    exact fun a h1 h2 => List.disjoint_of_nodup_append hnd' h1 h2
  have hkeys : ∀ a, a ∈ (s.deposit capacity key x).1.keys key ↔
      a ∈ (s.queue.drop (s.overflow capacity)).map key ∨ a = key x := by
    intro a
    rw [keys, List.mem_toFinset, hqueue, List.map_append, List.mem_append, List.map_singleton,
      List.mem_singleton]
  have hdropsub : ∀ a, a ∈ (s.queue.drop (s.overflow capacity)).map key → a ∈ s.queue.map key :=
    fun a ha => by rw [List.map_drop] at ha; exact List.mem_of_mem_drop ha
  refine ⟨?_, ?_, ?_, ?_⟩
  · rw [hqueue, List.length_append, List.length_drop, List.length_singleton]
    unfold overflow
    omega
  · rw [hqueue, List.map_append, List.map_singleton]
    refine List.nodup_append.mpr ⟨hnd, List.nodup_singleton _, ?_⟩
    intro a ha b hb heq
    subst heq
    obtain rfl := List.mem_singleton.mp hb
    exact hnew (Or.inl (hdropsub _ ha))
  · ext a
    rw [seen_deposit hcap h, Finset.mem_union, hkeys, hs.mem_seen]
    -- what is evicted is in the front of the queue, and neither new nor freed
    refine ⟨?_, ?_⟩
    · intro hleft
      rcases hleft with ⟨rfl | hq | hf, hev⟩
      · exact Or.inl (Or.inr rfl)
      · rw [← hsplit, List.map_append, List.mem_append] at hq
        exact Or.inl (Or.inl (hq.resolve_left hev))
      · exact Or.inr hf
    · intro hright
      rcases hright with (hq | rfl) | hf
      · exact ⟨Or.inr (Or.inl (hdropsub a hq)), fun hev => hevicted a hev hq⟩
      · refine ⟨Or.inl rfl, fun hev => hnew (Or.inl ?_)⟩
        rw [List.map_take] at hev
        exact List.mem_of_mem_take hev
      · refine ⟨Or.inr (Or.inr hf), ?_⟩
        intro hev
        rw [List.map_take] at hev
        exact hs.notMem_freed (List.mem_of_mem_take hev) hf
  · refine Finset.disjoint_left.mpr ?_
    intro a ha hf
    rcases (hkeys a).mp ha with hq | rfl
    · exact hs.notMem_freed (hdropsub a hq) hf
    · exact hnew (Or.inr hf)

/-- **Freeing keeps the invariant**, and moves the freed keys from one side to the other. -/
theorem free (hs : Sound capacity key freed s) (n : Nat) :
    Sound capacity key (freed ∪ ((s.queue.take n).map key).toFinset) (s.free n) := by
  have hsplit := List.take_append_drop n s.queue
  have hnd := hs.nodup
  rw [← hsplit, List.map_append] at hnd
  refine ⟨?_, (List.nodup_append.mp hnd).2.1, ?_, ?_⟩
  · have := hs.bounded
    show (s.queue.drop n).length ≤ capacity
    rw [List.length_drop]
    omega
  · ext a
    show a ∈ s.seen ↔ _
    rw [hs.mem_seen, Finset.mem_union, Finset.mem_union, keys, List.mem_toFinset,
      List.mem_toFinset]
    conv_lhs => rw [← hsplit, List.map_append, List.mem_append]
    show _ ↔ a ∈ (s.queue.drop n).map key ∨ _
    tauto
  · refine Finset.disjoint_left.mpr ?_
    intro a ha hf
    have ha : a ∈ (s.queue.drop n).map key := List.mem_toFinset.mp ha
    rcases Finset.mem_union.mp hf with hf | hf
    · rw [List.map_drop] at ha
      exact hs.notMem_freed (List.mem_of_mem_drop ha) hf
    · exact List.disjoint_of_nodup_append hnd (List.mem_toFinset.mp hf) ha

/-- Freeing frees as many keys as there are items to free, none of them twice. -/
theorem card_freed (hs : Sound capacity key freed s) (n : Nat) :
    (freed ∪ ((s.queue.take n).map key).toFinset).card = freed.card + min n s.queue.length := by
  have hnd : ((s.queue.take n).map key).Nodup := by
    rw [List.map_take]
    exact hs.nodup.sublist (List.take_sublist _ _)
  have hdis : Disjoint freed ((s.queue.take n).map key).toFinset := by
    refine Finset.disjoint_right.mpr fun a ha => hs.notMem_freed ?_
    rw [List.mem_toFinset, List.map_take] at ha
    exact List.mem_of_mem_take ha
  rw [Finset.card_union_of_disjoint hdis, List.toFinset_card_of_nodup hnd, List.length_map,
    List.length_take]

end Sound

/-! ## A slot keeps the newest part of a log -/

/-- The queue of a slot is the contents of a window. -/
def Shows (s : Slot ι α) (w : Window α) : Prop := s.queue = w.contents

/-- **Storing an item appends it to the log** and lets go of what overflows. -/
theorem Shows.deposit {capacity : Nat} {key : α → ι} {s : Slot ι α} {w : Window α} {x : α}
    (hcap : 0 < capacity) (h : key x ∉ s.seen) (hw : s.Shows w) :
    (s.deposit capacity key x).1.Shows ((w.push x).advance (s.overflow capacity)) := by
  have hlen : s.overflow capacity ≤ w.contents.length := by
    rw [← hw]
    exact overflow_le_length hcap
  rw [Shows, queue_deposit hcap h, Window.contents_advance, Window.contents_push, hw,
    List.drop_append_of_le_length hlen]

omit [DecidableEq ι] in
/-- **Freeing items lets go of them** and appends nothing. -/
theorem Shows.free {s : Slot ι α} {w : Window α} (hw : s.Shows w) (n : Nat) :
    (s.free n).Shows (w.advance n) := by
  rw [Shows, Window.contents_advance, ← hw]
  rfl

end Slot
