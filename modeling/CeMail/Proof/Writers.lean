import CeMail.Proof.Persist

/-!
# Calls that overlap

The calls of one process share a temporary name, since only the pid tells it from another.
As long as no call opens the temporary file while another is between opening it and its
rename, each call has the file to itself and a reader of the target sees the whole of what
one call was given. A second call that opens it truncates what the first is about to rename.
-/

namespace CeMail

open Disk

variable {path : Path} {pid : UInt32} {d₀ : Directory (List UInt8)} {target : List UInt8}

namespace Process

/-- The turn does not open the temporary file while another call is on its way to a rename. -/
def KeepsApart (p : Process) : Turn → Prop
  | .proceed i (.ok _) => ∀ call ∈ p.calls[i]?,
      call.stage = .createTemp → ∀ other ∈ p.calls, ¬other.stage.HoldsTemp
  | _ => True

instance (p : Process) (turn : Turn) : Decidable (p.KeepsApart turn) :=
  match turn with
  | .start _ | .proceed _ (.failed _) => .isTrue trivial
  | .proceed i (.ok _) => inferInstanceAs (Decidable (∀ call ∈ p.calls[i]?,
      call.stage = .createTemp → ∀ other ∈ p.calls, ¬other.stage.HoldsTemp))

/-- What holds at any point of a run in which the calls keep apart. -/
structure Sound (path : Path) (pid : UInt32) (d₀ : Directory (List UInt8))
    (target : List UInt8) (turns : List Turn) (p : Process) : Prop where
  read : p.disk.read target = d₀.read target
    ∨ ∃ bytes, Turn.start bytes ∈ turns ∧ p.disk.read target = some bytes
  calls : ∀ call ∈ p.calls, Turn.start call.bytes ∈ turns
  temp : ∀ call ∈ p.calls, TempHolds p.disk (path.tmpName pid) call.bytes call.stage
  /-- Only one call holds the temporary file. -/
  one : ∀ (i j : Nat) (call other : AtomicWrite), p.calls[i]? = some call →
    p.calls[j]? = some other → call.stage.HoldsTemp → other.stage.HoldsTemp → i = j

end Process

section Request

variable {d d' : Directory (List UInt8)} {bytes : List UInt8} {reply : OsReply}
  {stage stage' : WriteStage}

/-- Only a call that opens the temporary file, or holds it, comes to hold it. -/
theorem holdsTemp_of_request (hreq : Request path pid d bytes stage reply d' stage')
    (h : stage'.HoldsTemp) :
    stage.HoldsTemp ∨ stage = .createTemp ∧ ∃ count, reply = .ok count := by
  cases hreq with
  | opened => exact Or.inr ⟨rfl, _, rfl⟩
  | wrote | complete | flushed | synced => exact Or.inl trivial
  | dirMade | renamed | dirSynced | dirNotSynced | failed | stays => exact h.elim

/-- What a call has in the temporary file stays when a call moves that has nothing there. -/
theorem TempHolds.of_request {theirs : List UInt8} {other : WriteStage}
    (h : TempHolds d (path.tmpName pid) theirs other)
    (hreq : Request path pid d bytes stage reply d' stage')
    (hapart : other.HoldsTemp →
      ¬stage.HoldsTemp ∧ ¬(stage = .createTemp ∧ ∃ count, reply = .ok count)) :
    TempHolds d' (path.tmpName pid) theirs other := by
  by_cases hother : other.HoldsTemp
  · obtain ⟨hholds, hopens⟩ := hapart hother
    cases hreq with
    | opened => exact absurd ⟨rfl, _, rfl⟩ hopens
    | wrote | synced | renamed => exact absurd trivial hholds
    | dirSynced => cases other <;> exact h
    | dirMade | complete | flushed | dirNotSynced | failed | stays => exact h
  · cases other with
    | write | flush | fsync | rename => exact absurd trivial hother
    | createDir | createTemp | fsyncDir | finished => trivial

end Request

namespace Process

theorem sound_nil (d₀ : Directory (List UInt8)) (target : List UInt8) :
    Sound path pid d₀ target [] ⟨d₀, []⟩ where
  read := Or.inl rfl
  calls _ h := absurd h List.not_mem_nil
  temp _ h := absurd h List.not_mem_nil
  one i _ _ _ h := by simp at h

section Step

variable {turns : List Turn} {p : Process}

/-- What has been read can still be read when nothing was done to the target. -/
theorem Sound.read_of_eq {turn : Turn} {d : Directory (List UInt8)}
    (h : Sound path pid d₀ target turns p) (heq : d.read target = p.disk.read target) :
    d.read target = d₀.read target
      ∨ ∃ bytes, Turn.start bytes ∈ turns ++ [turn] ∧ d.read target = some bytes := by
  rw [heq]
  refine h.read.imp_right ?_
  intro hread
  obtain ⟨bytes, hmem, hbytes⟩ := hread
  exact ⟨bytes, List.mem_append_left _ hmem, hbytes⟩

/-- A call begins. -/
theorem Sound.start (h : Sound path pid d₀ target turns p) (bytes : List UInt8) :
    Sound path pid d₀ target (turns ++ [.start bytes]) (p.step path pid (.start bytes)).1 where
  read := h.read_of_eq rfl
  calls call hcall := by
    rcases List.mem_append.mp hcall with hcall | hcall
    · exact List.mem_append_left _ (h.calls call hcall)
    · obtain rfl := List.mem_singleton.mp hcall
      exact List.mem_append_right _ (List.mem_singleton_self _)
  temp call hcall := by
    rcases List.mem_append.mp hcall with hcall | hcall
    · exact h.temp call hcall
    · obtain rfl := List.mem_singleton.mp hcall
      trivial
  one i j call other hi hj hcall hother := by
    -- the new call holds nothing yet, so both are old
    have hold : ∀ {i : Nat} {call : AtomicWrite}, (p.calls ++ [.start bytes])[i]? = some call →
        call.stage.HoldsTemp → p.calls[i]? = some call := by
      intro i call hi hcall
      rw [List.getElem?_append] at hi
      split at hi
      · exact hi
      · obtain rfl := List.mem_singleton.mp (List.mem_of_getElem? hi)
        exact hcall.elim
    exact h.one i j call other (hold hi hcall) (hold hj hother) hcall hother

/-- The calls after one has moved. -/
theorem getElem?_set_cases {calls : List AtomicWrite} {i j : Nat} {call other : AtomicWrite}
    (h : (calls.set i call)[j]? = some other) :
    (j = i ∧ other = call) ∨ (j ≠ i ∧ calls[j]? = some other) := by
  by_cases hji : j = i
  · subst hji
    obtain ⟨hlt, -⟩ := List.getElem?_eq_some_iff.mp h
    rw [List.length_set] at hlt
    rw [List.getElem?_set_self hlt] at h
    exact Or.inl ⟨rfl, (Option.some.inj h).symm⟩
  · rw [List.getElem?_set_ne (Ne.symm hji)] at h
    exact Or.inr ⟨hji, h⟩

/-- A call proceeds. -/
theorem Sound.proceed (hname : path.fileName = some target)
    (h : Sound path pid d₀ target turns p) {i : Nat} {reply : OsReply}
    (hkeeps : p.KeepsApart (.proceed i reply)) :
    Sound path pid d₀ target (turns ++ [.proceed i reply])
      (p.step path pid (.proceed i reply)).1 := by
  cases hi : p.calls[i]? with
  | none =>
      have hstep : (p.step path pid (.proceed i reply)).1 = p := by
        rw [Process.step, hi]
      rw [hstep]
      exact ⟨h.read_of_eq rfl, fun call hcall => List.mem_append_left _ (h.calls call hcall),
        h.temp, h.one⟩
  | some call =>
      have hstep : (p.step path pid (.proceed i reply)).1
          = ⟨(call.step path pid p.disk reply).1,
            p.calls.set i (call.step path pid p.disk reply).2⟩ := by
        rw [Process.step, hi]
      have hmem : call ∈ p.calls := List.mem_of_getElem? hi
      have htemp := h.temp call hmem
      obtain ⟨hbytes, hreq⟩ := request_step path pid p.disk call reply
      rw [hstep]
      generalize call.step path pid p.disk reply = next at hbytes hreq ⊢
      obtain ⟨d, call'⟩ := next
      dsimp only at hbytes hreq ⊢
      -- nobody else has the temporary file when this call has it or opens it
      have halone : ∀ j other, j ≠ i → p.calls[j]? = some other → other.stage.HoldsTemp →
          ¬call.stage.HoldsTemp ∧ ¬(call.stage = .createTemp ∧ ∃ count, reply = .ok count) := by
        intro j other hji hj hother
        refine ⟨fun hcall => hji (h.one j i other call hj hi hother hcall), ?_⟩
        intro hopens
        obtain ⟨hstage, count, rfl⟩ := hopens
        exact hkeeps call hi hstage other (List.mem_of_getElem? hj) hother
      constructor
      · rcases read_of_request hname htemp hreq with heq | heq
        · exact h.read_of_eq heq
        · exact Or.inr ⟨call.bytes, List.mem_append_left _ (h.calls call hmem), heq⟩
      · intro other hother
        rcases List.mem_or_eq_of_mem_set hother with hother | rfl
        · exact List.mem_append_left _ (h.calls other hother)
        · rw [hbytes]
          exact List.mem_append_left _ (h.calls call hmem)
      · intro other hother
        obtain ⟨j, hj⟩ := List.getElem?_of_mem hother
        rcases getElem?_set_cases hj with ⟨-, rfl⟩ | ⟨hji, hj⟩
        · rw [hbytes]
          exact htemp.step hreq
        · exact (h.temp other (List.mem_of_getElem? hj)).of_request hreq (halone j other hji hj)
      · -- a call that has it now had it before or has just opened it
        have hholder : ∀ j other, j ≠ i → p.calls[j]? = some other → other.stage.HoldsTemp →
            ¬call'.stage.HoldsTemp := by
          intro j other hji hj hother hcall
          obtain ⟨hholds, hopens⟩ := halone j other hji hj hother
          exact (holdsTemp_of_request hreq hcall).elim hholds hopens
        intro j k call₁ call₂ hj hk hcall₁ hcall₂
        rcases getElem?_set_cases hj with ⟨rfl, rfl⟩ | ⟨hji, hold⟩
        · rcases getElem?_set_cases hk with ⟨hkj, -⟩ | ⟨hkj, hold⟩
          · exact hkj.symm
          · exact absurd hcall₁ (hholder k call₂ hkj hold hcall₂)
        · rcases getElem?_set_cases hk with ⟨-, rfl⟩ | ⟨-, hold'⟩
          · exact absurd hcall₂ (hholder j call₁ hji hold hcall₁)
          · exact h.one j k call₁ call₂ hold hold' hcall₁ hcall₂

end Step

end Process

/--
**Readers see whole files.** In every run of any number of calls of one process to one path,
in which none opens the temporary file while another is between opening it and its rename, a
read of the path at any point gives what was there in the beginning or the whole of what one
of the calls was given.
-/
theorem reads_whole (path : Path) (pid : UInt32) (target : List UInt8)
    (hname : path.fileName = some target) (d₀ : Directory (List UInt8)) (turns : List Turn)
    (hkeeps : ∀ before turn later, turns = before ++ turn :: later →
      (Machine.final (Process.step path pid) ⟨d₀, []⟩ before).KeepsApart turn) :
    ∀ before, before <+: turns →
      (Machine.final (Process.step path pid) ⟨d₀, []⟩ before).disk.read target = d₀.read target
        ∨ ∃ bytes, Turn.start bytes ∈ before
          ∧ (Machine.final (Process.step path pid) ⟨d₀, []⟩ before).disk.read target
            = some bytes := by
  have hsound : ∀ before, before <+: turns →
      Process.Sound path pid d₀ target before
        (Machine.final (Process.step path pid) ⟨d₀, []⟩ before) := by
    intro before hbefore
    induction before using List.reverseRecOn with
    | nil => exact Process.sound_nil d₀ target
    | append_singleton before turn ih =>
        have hstart := ih ((List.prefix_append before [turn]).trans hbefore)
        obtain ⟨later, rfl⟩ := hbefore
        have hturn := hkeeps before turn later (List.append_assoc before [turn] later)
        rw [Machine.final_concat]
        cases turn with
        | start bytes => exact hstart.start bytes
        | proceed i reply => exact hstart.proceed hname hturn
  intro before hbefore
  exact (hsound before hbefore).read

namespace Sample

/-- A call up to the rename, with its two bytes written at once. -/
def untilRename (i : Nat) : List Turn :=
  [.proceed i (.ok 0), .proceed i (.ok 0), .proceed i (.ok 2), .proceed i (.ok 0),
    .proceed i (.ok 0), .proceed i (.ok 0)]

/-- Two calls, the second of which opens the temporary file when the first has renamed it. -/
def apart : List Turn :=
  .start [4, 5] :: .start [6, 7] :: untilRename 0
    ++ [.proceed 1 (.ok 0), .proceed 0 (.ok 0), .proceed 1 (.ok 0)]

/-- The same two calls, but the second opens the file just before the first renames it. -/
def overlapping : List Turn :=
  .start [4, 5] :: .start [6, 7] :: untilRename 0
    ++ [.proceed 1 (.ok 0), .proceed 1 (.ok 0), .proceed 0 (.ok 0)]

end Sample

/-- What is read after two calls that keep apart. -/
theorem reads_whole_sample :
    (Machine.final (Process.step Sample.storePath Sample.pid) ⟨Sample.dataDir, []⟩
        Sample.apart).disk.read "store.bin".toUTF8.data.toList
          = Sample.dataDir.read "store.bin".toUTF8.data.toList
      ∨ ∃ bytes, Turn.start bytes ∈ Sample.apart
        ∧ (Machine.final (Process.step Sample.storePath Sample.pid) ⟨Sample.dataDir, []⟩
            Sample.apart).disk.read "store.bin".toUTF8.data.toList = some bytes := by
  refine reads_whole Sample.storePath Sample.pid _ rfl Sample.dataDir Sample.apart ?_
    Sample.apart List.prefix_rfl
  intro before turn later hcut
  have hall : ∀ v ∈ Machine.visits (Process.step Sample.storePath Sample.pid)
      ⟨Sample.dataDir, []⟩ Sample.apart, v.1.KeepsApart v.2 := by
    decide +kernel
  rw [hcut] at hall
  exact hall _ (Machine.mem_visits_cut before later turn)

/-- The temporary file was opened again when it was renamed: the target is read as empty. -/
theorem overlapping_calls_tear :
    (Machine.final (Process.step Sample.storePath Sample.pid) ⟨Sample.dataDir, []⟩
        Sample.overlapping).disk.read "store.bin".toUTF8.data.toList = some []
      ∧ Sample.dataDir.read "store.bin".toUTF8.data.toList = some [1, 2, 3]
      ∧ ∀ bytes, Turn.start bytes ∈ Sample.overlapping → bytes = [4, 5] ∨ bytes = [6, 7] := by
  refine ⟨by decide +kernel, by decide +kernel, ?_⟩
  intro bytes hmem
  simpa [Sample.overlapping, Sample.untilRename] using hmem

end CeMail
