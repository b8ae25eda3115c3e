import Mathlib

/-!
# A directory on a disk

Files and the names they go by, as a file system keeps them. A process sees every write and
every change of a name at once. A power failure leaves less: of each file what was last
synced and some of the writes since, in their order, and of the directory one of the states
it has had since it was last synced.

A file is known by a number that stays when its name changes, so that a process can write to
a file it has open under a name that the file no longer has.
-/

namespace Disk

/-! ## Files -/

/-- A change to a file, of a byte at most. -/
inductive Write where
  | truncate
  | put (offset : Nat) (byte : UInt8)

/-- What a change makes of some contents. Between their end and a byte behind it are zeros. -/
def Write.apply (bytes : List UInt8) : Write → List UInt8
  | .truncate => []
  | .put offset byte =>
      if offset < bytes.length then bytes.set offset byte
      else bytes ++ .replicate (offset - bytes.length) 0 ++ [byte]

/-- The changes that write some bytes from an offset on. -/
def puts (offset : Nat) : List UInt8 → List Write
  | [] => []
  | byte :: bytes => .put offset byte :: puts (offset + 1) bytes

/-- Bytes written at the end are appended. -/
theorem foldl_puts {bytes : List UInt8} {offset : Nat} (h : bytes.length = offset)
    (more : List UInt8) : (puts offset more).foldl Write.apply bytes = bytes ++ more := by
  induction more generalizing bytes offset with
  | nil => exact (List.append_nil bytes).symm
  | cons byte more ih =>
    have hput : Write.apply bytes (.put offset byte) = bytes ++ [byte] := by
      simp [Write.apply, h]
    have hlen : (bytes ++ [byte]).length = offset + 1 := by
      rw [List.length_append, h, List.length_singleton]
    rw [puts, List.foldl_cons, hput, ih hlen, List.append_assoc, List.singleton_append]

/-- A file: what of it is on the disk, and the changes since, oldest first. -/
structure File where
  synced : List UInt8
  pending : List Write

namespace File

/-- What a process reads. -/
def content (f : File) : List UInt8 := f.pending.foldl Write.apply f.synced

/-- What is left when only the first `k` changes reach the disk. -/
def after (f : File) (k : Nat) : List UInt8 := (f.pending.take k).foldl Write.apply f.synced

def write (f : File) (changes : List Write) : File := ⟨f.synced, f.pending ++ changes⟩

def sync (f : File) : File := ⟨f.content, []⟩

theorem content_write (f : File) (changes : List Write) :
    (f.write changes).content = changes.foldl Write.apply f.content :=
  List.foldl_append

@[simp] theorem content_mk_nil (bytes : List UInt8) : (File.mk bytes []).content = bytes := rfl

@[simp] theorem after_mk_nil (bytes : List UInt8) (k : Nat) :
    (File.mk bytes []).after k = bytes := by
  rw [after, List.take_nil]
  rfl

end File

/-! ## Names -/

/-- The files some names stand for. No file has two names. -/
structure Links (Name : Type*) where
  file : Name → Option Nat
  inj : ∀ {n m i}, file n = some i → file m = some i → n = m

variable {Name : Type*}

namespace Links

def empty : Links Name := ⟨fun _ => none, fun h _ => nomatch h⟩

/-- Let a name stand for a file without one. -/
def add [DecidableEq Name] (l : Links Name) (n : Name) (i : Nat) (h : ∀ m, l.file m ≠ some i) :
    Links Name where
  file m := if m = n then some i else l.file m
  inj {a b j} ha hb := by
    split at ha
    · rename_i hna
      split at hb
      · rename_i hnb
        rw [hna, hnb]
      · rw [← ha] at hb
        exact absurd hb (h b)
    · split at hb
      · rw [← hb] at ha
        exact absurd ha (h a)
      · exact l.inj ha hb

/-- Let `m` stand for what `n` stands for, and `n` for nothing. -/
def move [DecidableEq Name] (l : Links Name) (n m : Name) : Links Name where
  file a := if a = m then l.file n else if a = n then none else l.file a
  inj {a b j} ha hb := by
    grind [l.inj]

@[simp] theorem move_file [DecidableEq Name] (l : Links Name) (n m : Name) :
    (l.move n m).file m = l.file n :=
  if_pos rfl

end Links

/-! ## The directory -/

structure Directory (Name : Type*) where
  files : Nat → File
  /-- The names, as a process sees them. -/
  links : Links Name
  /-- The states in which the names may come back besides this one. -/
  older : List (Links Name)
  /-- The directory is itself on the disk. -/
  kept : Bool
  /-- The number of the next file. -/
  next : Nat
  fresh : ∀ l ∈ links :: older, ∀ n i, l.file n = some i → i < next

namespace Directory

/-- A directory with nothing in it. -/
def empty (kept : Bool) : Directory Name where
  files _ := ⟨[], []⟩
  links := .empty
  older := []
  kept := kept
  next := 0
  fresh l hl n i h := by
    obtain rfl := List.mem_singleton.mp hl
    exact nomatch h

/-- The states in which the names may come back. -/
def states (d : Directory Name) : List (Links Name) := d.links :: d.older

/-- What a process reads under a name. -/
def read (d : Directory Name) (n : Name) : Option (List UInt8) :=
  (d.links.file n).map fun i => (d.files i).content

/-- Change a file. -/
def set (d : Directory Name) (i : Nat) (f : File) : Directory Name :=
  { d with files := Function.update d.files i f }

/-- Write to an open file, from an offset on. -/
def write (d : Directory Name) (i offset : Nat) (bytes : List UInt8) : Directory Name :=
  d.set i ((d.files i).write (puts offset bytes))

/-- Sync an open file. -/
def sync (d : Directory Name) (i : Nat) : Directory Name := d.set i (d.files i).sync

/-- Open a file for writing. One that is there is truncated. -/
def create [DecidableEq Name] (d : Directory Name) (n : Name) : Directory Name × Nat :=
  match d.links.file n with
  | some i => (d.set i ((d.files i).write [.truncate]), i)
  | none =>
      ({ d with
          files := Function.update d.files d.next ⟨[], []⟩
          links := d.links.add n d.next fun m hm =>
            Nat.lt_irrefl _ (d.fresh d.links List.mem_cons_self m _ hm)
          older := d.states
          next := d.next + 1
          fresh := by
            intro l hl m i hm
            rcases List.mem_cons.mp hl with rfl | hl
            · simp only [Links.add] at hm
              split at hm
              · obtain rfl := Option.some.inj hm
                exact Nat.lt_succ_self _
              · exact Nat.lt_succ_of_lt (d.fresh d.links List.mem_cons_self m i hm)
            · exact Nat.lt_succ_of_lt (d.fresh l hl m i hm) },
        d.next)

/-- Give a file another name, over the file that had it. -/
def rename [DecidableEq Name] (d : Directory Name) (n m : Name) : Directory Name :=
  { d with
    links := d.links.move n m
    older := d.states
    fresh := by
      intro l hl a i ha
      rcases List.mem_cons.mp hl with rfl | hl
      · simp only [Links.move] at ha
        split at ha
        · exact d.fresh d.links List.mem_cons_self n i ha
        · split at ha
          · cases ha
          · exact d.fresh d.links List.mem_cons_self a i ha
      · exact d.fresh l hl a i ha }

/-- Sync the names. -/
def syncDir (d : Directory Name) : Directory Name :=
  { d with
    older := []
    fresh := fun l hl => d.fresh l (List.mem_cons.mpr (Or.inl (List.mem_singleton.mp hl))) }

/-- After a power failure, in one of the states and with so many changes to each file. -/
def crash (d : Directory Name) (l : Links Name) (hl : l ∈ d.states) (k : Nat → Nat) :
    Directory Name where
  files i := ⟨(d.files i).after (k i), []⟩
  links := l
  older := []
  kept := true
  next := d.next
  fresh l' hl' := by
    obtain rfl := List.mem_singleton.mp hl'
    exact d.fresh l' hl

/-- What a power failure may leave under a name. -/
def Survives (d : Directory Name) (n : Name) (c : Option (List UInt8)) : Prop :=
  (d.kept = false ∧ c = none) ∨ ∃ l, ∃ hl : l ∈ d.states, ∃ k, (d.crash l hl k).read n = c

variable {d d₀ : Directory Name} {n m : Name} {i : Nat} {f : File} {c : Option (List UInt8)}

/-! ## What a process reads -/

@[simp] theorem files_set_self : (d.set i f).files i = f := by
  show Function.update d.files i f i = f
  exact Function.update_self ..

theorem files_set_of_ne {j : Nat} (h : j ≠ i) : (d.set i f).files j = d.files j := by
  show Function.update d.files i f j = d.files j
  exact Function.update_of_ne h ..

theorem read_set (h : d.links.file n ≠ some i) : (d.set i f).read n = d.read n := by
  unfold read
  cases hn : d.links.file n with
  | none =>
      show (d.links.file n).map _ = none
      rw [hn]
      rfl
  | some j =>
      have hne : j ≠ i := by
        rintro rfl
        exact h hn
      show (d.links.file n).map (fun j => ((d.set i f).files j).content) = _
      rw [hn]
      exact congrArg (some ∘ File.content) (files_set_of_ne hne)

theorem ne_next {l : Links Name} (hl : l ∈ d.states) (h : l.file n = some i) : i ≠ d.next :=
  Nat.ne_of_lt (d.fresh l hl n i h)

/-! ## What survives -/

theorem survives_iff :
    d.Survives n c ↔ (d.kept = false ∧ c = none)
      ∨ ∃ l ∈ d.states, ∃ k, (l.file n).map (fun i => (d.files i).after k) = c := by
  refine or_congr_right ⟨?_, ?_⟩
  · intro h
    obtain ⟨l, hl, k, hc⟩ := h
    refine ⟨l, hl, (l.file n).elim 0 k, ?_⟩
    rw [← hc, read, crash]
    cases l.file n <;> rfl
  · intro h
    obtain ⟨l, hl, k, hc⟩ := h
    refine ⟨l, hl, fun _ => k, ?_⟩
    rw [← hc]
    rfl

/--
What happened between `d₀` and `d` left everything as it was that a name stands for, and
that it may come to stand for after a power failure.
-/
structure Untouched (d₀ d : Directory Name) (n : Name) : Prop where
  kept : d.kept = d₀.kept
  link : d.links.file n = d₀.links.file n
  back : ∀ l ∈ d₀.states, ∃ l' ∈ d.states, l'.file n = l.file n
  forth : ∀ l ∈ d.states, ∃ l₀ ∈ d₀.states, l.file n = l₀.file n
  files : ∀ l ∈ d₀.states, ∀ i, l.file n = some i → d.files i = d₀.files i

namespace Untouched

theorem refl (d : Directory Name) (n : Name) : Untouched d d n where
  kept := rfl
  link := rfl
  back l hl := ⟨l, hl, rfl⟩
  forth l hl := ⟨l, hl, rfl⟩
  files _ _ _ _ := rfl

theorem read_eq (h : Untouched d₀ d n) : d.read n = d₀.read n := by
  unfold read
  rw [h.link]
  cases hn : d₀.links.file n with
  | none => rfl
  | some i => exact congrArg (some ∘ File.content) (h.files _ List.mem_cons_self i hn)

theorem survives_iff (h : Untouched d₀ d n) : d.Survives n c ↔ d₀.Survives n c := by
  have hafter : ∀ l ∈ d₀.states, ∀ k, (l.file n).map (fun i => (d.files i).after k)
      = (l.file n).map (fun i => (d₀.files i).after k) := by
    intro l hl k
    cases hn : l.file n with
    | none => rfl
    | some i => exact congrArg (fun f : File => some (f.after k)) (h.files l hl i hn)
  rw [Directory.survives_iff, Directory.survives_iff, h.kept]
  refine or_congr_right ⟨?_, ?_⟩
  · intro hd
    obtain ⟨l, hl, k, hc⟩ := hd
    obtain ⟨l₀, hl₀, hlink⟩ := h.forth l hl
    refine ⟨l₀, hl₀, k, ?_⟩
    rw [← hafter l₀ hl₀, ← hlink, hc]
  · intro hd
    obtain ⟨l₀, hl₀, k, hc⟩ := hd
    obtain ⟨l, hl, hlink⟩ := h.back l₀ hl₀
    refine ⟨l, hl, k, ?_⟩
    rw [hlink, hafter l₀ hl₀, hc]

/-- A file can be changed that the name does not stand for in any state. -/
theorem set (h : Untouched d₀ d n) (hi : ∀ l ∈ d.states, l.file n ≠ some i) :
    Untouched d₀ (d.set i f) n where
  kept := h.kept
  link := h.link
  back := h.back
  forth := h.forth
  files l hl j hj := by
    have hne : j ≠ i := by
      rintro rfl
      obtain ⟨l', hl', hlink⟩ := h.back l hl
      exact hi l' hl' (hlink.trans hj)
    exact (files_set_of_ne hne).trans (h.files l hl j hj)

end Untouched

/-- The file `m` stands for is none that `n` stands for, in any state. -/
def Apart (d : Directory Name) (m n : Name) : Prop :=
  ∀ i, d.links.file m = some i → ∀ l ∈ d.states, l.file n ≠ some i

/-- Names whose changes are synced are apart. -/
theorem Apart.of_synced (h : m ≠ n) (hd : d.older = []) : d.Apart m n := by
  intro i hm l hl hn
  rw [states, hd] at hl
  obtain rfl := List.mem_singleton.mp hl
  exact h (d.links.inj hm hn)

theorem Apart.syncDir (h : d.Apart m n) : d.syncDir.Apart m n := by
  intro i hm l hl
  exact h i hm l (List.mem_cons.mpr (Or.inl (List.mem_singleton.mp hl)))

/-- Syncing the names takes survivors away only. -/
theorem survives_syncDir (h : d.syncDir.Survives n c) : d.Survives n c := by
  rw [survives_iff] at h ⊢
  refine h.imp_right ?_
  intro hl
  obtain ⟨l, hl, k, hc⟩ := hl
  exact ⟨l, List.mem_cons.mpr (Or.inl (List.mem_singleton.mp hl)), k, hc⟩

/-! ## Opening and renaming -/

variable [DecidableEq Name]

/-- An opened file is empty and goes by its name. -/
theorem create_spec (d : Directory Name) (n : Name) :
    (d.create n).1.links.file n = some (d.create n).2
      ∧ ((d.create n).1.files (d.create n).2).content = [] := by
  unfold create
  cases hn : d.links.file n with
  | some i =>
      refine ⟨hn, ?_⟩
      show ((d.set i _).files i).content = []
      rw [files_set_self, File.content_write]
      rfl
  | none =>
      refine ⟨if_pos rfl, ?_⟩
      show (Function.update d.files d.next ⟨[], []⟩ d.next).content = []
      rw [Function.update_self]
      rfl

/-- A file that is there is truncated, and any other is new. -/
theorem create_cases (d : Directory Name) (m : Name) :
    (∃ i, d.links.file m = some i ∧ d.create m = (d.set i ((d.files i).write [.truncate]), i))
      ∨ (d.create m).2 = d.next
        ∧ (∀ i, i ≠ d.next → (d.create m).1.files i = d.files i)
        ∧ (∀ n, n ≠ m → (d.create m).1.links.file n = d.links.file n)
        ∧ (d.create m).1.older = d.states ∧ (d.create m).1.kept = d.kept := by
  unfold create
  cases hm : d.links.file m with
  | some i => exact Or.inl ⟨i, rfl, rfl⟩
  | none =>
      refine Or.inr ⟨rfl, ?_, ?_, rfl, rfl⟩
      · intro i hi
        exact Function.update_of_ne hi _ _
      · intro n hn
        exact if_neg hn

theorem read_create (h : n ≠ m) : (d.create m).1.read n = d.read n := by
  rcases create_cases d m with ⟨i, hm, heq⟩ | ⟨-, hfiles, hlinks, -, -⟩
  · rw [heq]
    refine read_set ?_
    intro hn
    exact h (d.links.inj hn hm)
  · unfold read
    rw [hlinks n h]
    cases hn : d.links.file n with
    | none => rfl
    | some i => exact congrArg (some ∘ File.content) (hfiles i (ne_next List.mem_cons_self hn))

theorem Apart.create (h : d.Apart m n) (hne : n ≠ m) : (d.create m).1.Apart m n := by
  intro i hm l hl hn
  rcases create_cases d m with ⟨j, hj, heq⟩ | ⟨hnext, hfiles, hlinks, holder, -⟩
  · rw [heq] at hm hl
    exact h i hm l hl hn
  · rw [(create_spec d m).1, hnext] at hm
    obtain rfl := Option.some.inj hm
    rcases List.mem_cons.mp hl with rfl | hl
    · rw [hlinks n hne] at hn
      exact ne_next List.mem_cons_self hn rfl
    · rw [holder] at hl
      exact ne_next hl hn rfl

theorem Untouched.create (h : Untouched d₀ d n) (hapart : d.Apart m n) (hne : n ≠ m) :
    Untouched d₀ (d.create m).1 n := by
  rcases create_cases d m with ⟨j, hj, heq⟩ | ⟨-, hfiles, hlinks, holder, hkept⟩
  · rw [heq]
    exact h.set (hapart j hj)
  · have hstates : (d.create m).1.states = (d.create m).1.links :: d.states := by
      rw [states, holder]
    constructor
    · exact hkept.trans h.kept
    · exact (hlinks n hne).trans h.link
    · intro l hl
      obtain ⟨l', hl', hlink⟩ := h.back l hl
      exact ⟨l', by rw [hstates]; exact List.mem_cons_of_mem _ hl', hlink⟩
    · intro l hl
      rw [hstates] at hl
      rcases List.mem_cons.mp hl with rfl | hl
      · obtain ⟨l₀, hl₀, hlink⟩ := h.forth d.links List.mem_cons_self
        exact ⟨l₀, hl₀, (hlinks n hne).trans hlink⟩
      · exact h.forth l hl
    · intro l hl i hi
      obtain ⟨l', hl', hlink⟩ := h.back l hl
      exact (hfiles i (ne_next hl' (hlink.trans hi))).trans (h.files l hl i hi)

theorem read_rename (d : Directory Name) (n m : Name) : (d.rename n m).read m = d.read n := by
  show ((d.links.move n m).file m).map _ = _
  rw [Links.move_file]
  rfl

/-- A name that has been renamed away stands for nothing. -/
theorem Apart.rename (hne : n ≠ m) : (d.rename m n).Apart m n := by
  intro i hm
  have hnone : (d.links.move m n).file m = none := by
    rw [Links.move]
    dsimp only
    rw [if_neg hne.symm, if_pos rfl]
  exact nomatch hnone.symm.trans hm

/-- **A rename is all or nothing.** It adds what was synced of the file, and nothing else. -/
theorem survives_rename {bytes : List UInt8} (hm : d.links.file m = some i)
    (hi : d.files i = ⟨bytes, []⟩) (h : (d.rename m n).Survives n c) :
    d.Survives n c ∨ c = some bytes := by
  rw [survives_iff] at h ⊢
  rcases h with hlost | ⟨l, hl, k, hc⟩
  · exact Or.inl (Or.inl hlost)
  · rcases List.mem_cons.mp hl with rfl | hl
    · right
      have hlink : ((d.rename m n).links).file n = some i := (Links.move_file _ m n).trans hm
      rw [← hc, hlink, Option.map_some]
      show some ((d.files i).after k) = some bytes
      rw [hi, File.after_mk_nil]
    · exact Or.inl (Or.inr ⟨l, hl, k, hc⟩)

end Directory

end Disk
