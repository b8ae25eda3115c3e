import CeMail.Model.Persist

/-!
# All or nothing

What one request of `atomic_write` can do is said once, in `Request`. While a call is on its
way to the rename, the temporary name stands for a file with as much of the bytes in it as
the call has written, and nothing the target stands for is touched, now or after a power
failure. The rename comes after the sync, so that what it adds to what may survive is the
whole of the new bytes.

Two calls of one process share the temporary name. A call that opens it while another is on
its way truncates the other's file, which is why they must keep apart.
-/

namespace CeMail

open Disk

/-! ## The temporary name -/

/-- The temporary name is never that of the target, whatever bytes a name is made of. -/
theorem Path.tmpName_ne {path : Path} {target : List UInt8} (pid : UInt32)
    (hname : path.fileName = some target) : path.tmpName pid ≠ target := by
  intro heq
  rw [Path.tmpName, hname, Option.map_some, Option.getD_some] at heq
  -- such a name would be text, and longer than itself
  have hlossy := Utf8.lossy_toUTF8 ("." ++ Utf8.lossy target ++ ".tmp." ++ toString pid)
  rw [heq] at hlossy
  have hlen := congrArg String.length hlossy
  rw [String.length_append, String.length_append, String.length_append] at hlen
  have hdot : ".".length = 1 := rfl
  omega

/-! ## What a request does -/

/-- On the way to the rename, with a file under the temporary name. -/
def WriteStage.HoldsTemp : WriteStage → Prop
  | .write _ _ | .flush _ | .fsync _ | .rename => True
  | _ => False

instance (stage : WriteStage) : Decidable stage.HoldsTemp :=
  match stage with
  | .write _ _ | .flush _ | .fsync _ | .rename => .isTrue trivial
  | .createDir | .createTemp | .fsyncDir | .finished _ => .isFalse id

section Request

variable {path : Path} {pid : UInt32} {d₀ d d' : Directory (List UInt8)}
  {bytes target : List UInt8} {reply : OsReply} {stage stage' : WriteStage}

/-- What the next request of a call of some bytes does. -/
inductive Request (path : Path) (pid : UInt32) (d : Directory (List UInt8)) (bytes : List UInt8) :
    WriteStage → OsReply → Directory (List UInt8) → WriteStage → Prop
  | dirMade {reply : OsReply} : Request path pid d bytes .createDir reply d .createTemp
  | opened {count : Nat} : Request path pid d bytes .createTemp (.ok count)
      (d.create (path.tmpName pid)).1 (.write (d.create (path.tmpName pid)).2 0)
  | wrote {file done count : Nat} {reply : OsReply} : done < bytes.length →
      Request path pid d bytes (.write file done) reply
        (d.write file done ((bytes.drop done).take count))
        (.write file (done + ((bytes.drop done).take count).length))
  | complete {file done : Nat} {reply : OsReply} : bytes.length ≤ done →
      Request path pid d bytes (.write file done) reply d (.flush file)
  | flushed {file : Nat} {reply : OsReply} :
      Request path pid d bytes (.flush file) reply d (.fsync file)
  | synced {file : Nat} {reply : OsReply} :
      Request path pid d bytes (.fsync file) reply (d.sync file) .rename
  | renamed {name : List UInt8} {reply : OsReply} : path.fileName = some name →
      Request path pid d bytes .rename reply (d.rename (path.tmpName pid) name) .fsyncDir
  | dirSynced {reply : OsReply} :
      Request path pid d bytes .fsyncDir reply d.syncDir (.finished (.ok ()))
  | dirNotSynced {reply : OsReply} :
      Request path pid d bytes .fsyncDir reply d (.finished (.ok ()))
  | failed {stage : WriteStage} {reply : OsReply} {e : Failure} :
      stage = .createDir ∨ stage = .createTemp ∨ stage.HoldsTemp →
      Request path pid d bytes stage reply d (.finished (.error e))
  | stays {result : Except Failure Unit} {reply : OsReply} :
      Request path pid d bytes (.finished result) reply d (.finished result)

/-- A call keeps its bytes, and does what it can do. -/
theorem request_step (path : Path) (pid : UInt32) (d : Directory (List UInt8))
    (call : AtomicWrite) (reply : OsReply) :
    (call.step path pid d reply).2.bytes = call.bytes
      ∧ Request path pid d call.bytes call.stage reply
        (call.step path pid d reply).1 (call.step path pid d reply).2.stage := by
  obtain ⟨bytes, stage⟩ := call
  cases stage with
  | createDir =>
      cases reply with
      | ok count => exact ⟨rfl, .dirMade⟩
      | failed cause => exact ⟨rfl, .failed (Or.inl rfl)⟩
  | createTemp =>
      cases reply with
      | ok count => exact ⟨rfl, .opened⟩
      | failed cause => exact ⟨rfl, .failed (Or.inr (Or.inl rfl))⟩
  | write file done =>
      by_cases hdone : bytes.length ≤ done
      · have hstep : AtomicWrite.step path pid d ⟨bytes, .write file done⟩ reply
            = (d, ⟨bytes, .flush file⟩) := if_pos hdone
        rw [hstep]
        exact ⟨rfl, .complete hdone⟩
      · have hlt : done < bytes.length := Nat.lt_of_not_le hdone
        cases reply with
        | ok count =>
            cases count with
            | zero =>
                simp only [AtomicWrite.step, if_neg hdone]
                exact ⟨rfl, .failed (Or.inr (Or.inr trivial))⟩
            | succ count =>
                simp only [AtomicWrite.step, if_neg hdone]
                exact ⟨rfl, .wrote hlt⟩
        | failed cause =>
            simp only [AtomicWrite.step, if_neg hdone]
            exact ⟨rfl, .failed (Or.inr (Or.inr trivial))⟩
  | flush file =>
      cases reply with
      | ok count => exact ⟨rfl, .flushed⟩
      | failed cause => exact ⟨rfl, .failed (Or.inr (Or.inr trivial))⟩
  | fsync file =>
      cases reply with
      | ok count => exact ⟨rfl, .synced⟩
      | failed cause => exact ⟨rfl, .failed (Or.inr (Or.inr trivial))⟩
  | rename =>
      cases reply with
      | ok count =>
          simp only [AtomicWrite.step]
          cases hname : path.fileName with
          | none => exact ⟨rfl, .failed (Or.inr (Or.inr trivial))⟩
          | some name =>
              cases d.links.file (path.tmpName pid) with
              | none => exact ⟨rfl, .failed (Or.inr (Or.inr trivial))⟩
              | some file => exact ⟨rfl, .renamed hname⟩
      | failed cause => exact ⟨rfl, .failed (Or.inr (Or.inr trivial))⟩
  | fsyncDir =>
      cases reply with
      | ok count => exact ⟨rfl, .dirSynced⟩
      | failed cause => exact ⟨rfl, .dirNotSynced⟩
  | finished result => exact ⟨rfl, .stays⟩

/-! ## The temporary file -/

/-- The temporary name stands for the file of a call on its way, with what it has written. -/
def TempHolds (d : Directory (List UInt8)) (tmp bytes : List UInt8) : WriteStage → Prop
  | .write file done => done ≤ bytes.length
      ∧ d.links.file tmp = some file ∧ (d.files file).content = bytes.take done
  | .flush file | .fsync file => d.links.file tmp = some file ∧ (d.files file).content = bytes
  | .rename => ∃ file, d.links.file tmp = some file ∧ d.files file = ⟨bytes, []⟩
  | _ => True

theorem TempHolds.step (h : TempHolds d (path.tmpName pid) bytes stage)
    (hreq : Request path pid d bytes stage reply d' stage') :
    TempHolds d' (path.tmpName pid) bytes stage' := by
  cases hreq with
  | opened =>
      obtain ⟨hlink, hempty⟩ := Directory.create_spec d (path.tmpName pid)
      exact ⟨Nat.zero_le _, hlink, hempty⟩
  | @wrote file done count _ hlt =>
      obtain ⟨hdone, hlink, hcontent⟩ := h
      have hlen : (bytes.take done).length = done := List.length_take_of_le hdone
      refine ⟨?_, hlink, ?_⟩
      · rw [List.length_take, List.length_drop]
        omega
      · show ((d.set file _).files file).content = _
        rw [Directory.files_set_self, File.content_write, hcontent, foldl_puts hlen,
          List.take_add, List.length_take, ← List.take_eq_take_min]
  | complete hle =>
      obtain ⟨hdone, hlink, hcontent⟩ := h
      rw [List.take_of_length_le hle] at hcontent
      exact ⟨hlink, hcontent⟩
  | flushed => exact h
  | @synced file =>
      obtain ⟨hlink, hcontent⟩ := h
      refine ⟨file, hlink, ?_⟩
      show (d.set file _).files file = _
      rw [Directory.files_set_self, File.sync, hcontent]
  | dirMade => trivial
  | renamed hname => trivial
  | dirSynced => trivial
  | dirNotSynced => trivial
  | failed hstage => trivial
  | stays => exact h

variable (hname : path.fileName = some target)

include hname

/-- What a reader of the target sees: what it saw, or the whole of the bytes. -/
theorem read_of_request (h : TempHolds d (path.tmpName pid) bytes stage)
    (hreq : Request path pid d bytes stage reply d' stage') :
    d'.read target = d.read target ∨ d'.read target = some bytes := by
  have hne : target ≠ path.tmpName pid := (Path.tmpName_ne pid hname).symm
  have hother : ∀ {file}, d.links.file (path.tmpName pid) = some file →
      d.links.file target ≠ some file := by
    intro file htmp htarget
    exact hne (d.links.inj htarget htmp)
  cases hreq with
  | opened => exact Or.inl (Directory.read_create hne)
  | wrote => exact Or.inl (Directory.read_set (hother h.2.1))
  | synced => exact Or.inl (Directory.read_set (hother h.1))
  | renamed hto =>
      obtain ⟨file, hlink, hfile⟩ := h
      obtain rfl := Option.some.inj (hname.symm.trans hto)
      right
      rw [Directory.read_rename, Directory.read, hlink, Option.map_some, hfile,
        File.content_mk_nil]
  | dirMade => exact Or.inl rfl
  | complete hle => exact Or.inl rfl
  | flushed => exact Or.inl rfl
  | dirSynced => exact Or.inl rfl
  | dirNotSynced => exact Or.inl rfl
  | failed hstage => exact Or.inl rfl
  | stays => exact Or.inl rfl

end Request

/-! ## One call -/

section Progress

variable {path : Path} {pid : UInt32} {d₀ d d' : Directory (List UInt8)}
  {tmp bytes target : List UInt8} {reply : OsReply} {stage stage' : WriteStage}

/-- The target is the new bytes, of which a power failure takes nothing away but the name. -/
structure Replaced (d₀ d : Directory (List UInt8)) (target bytes : List UInt8) : Prop where
  link : ∃ file, d.links.file target = some file ∧ d.files file = ⟨bytes, []⟩
  survives : ∀ c, d.Survives target c → d₀.Survives target c ∨ c = some bytes

/-- How far a call has come that found the directory as `d₀`. -/
def Progress (d₀ d : Directory (List UInt8)) (tmp target bytes : List UInt8) : WriteStage → Prop
  | .fsyncDir | .finished (.ok ()) => Replaced d₀ d target bytes
  | .finished (.error _) => Directory.Untouched d₀ d target
  | stage => Directory.Untouched d₀ d target ∧ TempHolds d tmp bytes stage

/-- Before the rename, nothing that a target stands for has been touched. -/
theorem Progress.untouched (h : Progress d₀ d tmp target bytes stage)
    (hstage : stage = .createDir ∨ stage = .createTemp ∨ stage.HoldsTemp) :
    Directory.Untouched d₀ d target := by
  rcases hstage with rfl | rfl | hstage
  · exact h.1
  · exact h.1
  · cases stage with
    | createDir | createTemp | fsyncDir | finished => exact hstage.elim
    | write | flush | fsync | rename => exact h.1

/-- The temporary name never stands for a file that the target has or may fall back to. -/
theorem apart_of_request (hname : path.fileName = some target)
    (h : d.Apart (path.tmpName pid) target)
    (hreq : Request path pid d bytes stage reply d' stage') :
    d'.Apart (path.tmpName pid) target := by
  have hne : target ≠ path.tmpName pid := (Path.tmpName_ne pid hname).symm
  cases hreq with
  | opened => exact h.create hne
  | renamed hto =>
      obtain rfl := Option.some.inj (hname.symm.trans hto)
      exact Directory.Apart.rename hne
  | dirSynced => exact h.syncDir
  | dirMade | wrote | complete | flushed | synced | dirNotSynced | failed | stays => exact h

/-- **Preserved by every request.** -/
theorem Progress.step (hname : path.fileName = some target)
    (hapart : d.Apart (path.tmpName pid) target)
    (h : Progress d₀ d (path.tmpName pid) target bytes stage)
    (hreq : Request path pid d bytes stage reply d' stage') :
    Progress d₀ d' (path.tmpName pid) target bytes stage' := by
  have hne : target ≠ path.tmpName pid := (Path.tmpName_ne pid hname).symm
  have htemp : TempHolds d (path.tmpName pid) bytes stage →
      TempHolds d' (path.tmpName pid) bytes stage' := fun hholds => hholds.step hreq
  cases hreq with
  | dirMade => exact h
  | opened =>
      obtain ⟨huntouched, hholds⟩ := h
      exact ⟨huntouched.create hapart hne, htemp hholds⟩
  | wrote hlt =>
      obtain ⟨huntouched, hholds⟩ := h
      exact ⟨huntouched.set (hapart _ hholds.2.1), htemp hholds⟩
  | complete hle =>
      obtain ⟨huntouched, hholds⟩ := h
      exact ⟨huntouched, htemp hholds⟩
  | flushed => exact h
  | synced =>
      obtain ⟨huntouched, hholds⟩ := h
      exact ⟨huntouched.set (hapart _ hholds.1), htemp hholds⟩
  | renamed hto =>
      obtain ⟨huntouched, file, hlink, hfile⟩ := h
      obtain rfl := Option.some.inj (hname.symm.trans hto)
      refine ⟨⟨file, (Links.move_file _ _ _).trans hlink, hfile⟩, ?_⟩
      intro c hc
      exact (Directory.survives_rename hlink hfile hc).imp_left huntouched.survives_iff.mp
  | dirSynced => exact ⟨h.link, fun c hc => h.survives c (Directory.survives_syncDir hc)⟩
  | dirNotSynced => exact h
  | failed hstage => exact h.untouched hstage
  | stays => exact h

/-- At any point the target is untouched or replaced. -/
theorem Progress.untouched_or_replaced (h : Progress d₀ d tmp target bytes stage) :
    Directory.Untouched d₀ d target ∨ Replaced d₀ d target bytes := by
  cases stage with
  | createDir | createTemp | write | flush | fsync | rename => exact Or.inl h.1
  | fsyncDir => exact Or.inr h
  | finished result =>
      cases result with
      | ok => exact Or.inr h
      | error e => exact Or.inl h

theorem Replaced.read_eq (h : Replaced d₀ d target bytes) : d.read target = some bytes := by
  obtain ⟨file, hlink, hfile⟩ := h.link
  rw [Directory.read, hlink, Option.map_some, hfile, File.content_mk_nil]

/-- **Preserved by a whole call.** -/
theorem progress_atomicWrite (hname : path.fileName = some target)
    (hapart : d₀.Apart (path.tmpName pid) target) (bytes : List UInt8)
    (replies : List OsReply) :
    (atomicWrite path pid d₀ bytes replies).2.bytes = bytes
      ∧ (atomicWrite path pid d₀ bytes replies).1.Apart (path.tmpName pid) target
      ∧ Progress d₀ (atomicWrite path pid d₀ bytes replies).1 (path.tmpName pid) target bytes
        (atomicWrite path pid d₀ bytes replies).2.stage := by
  induction replies using List.reverseRecOn with
  | nil => exact ⟨rfl, hapart, .refl d₀ target, trivial⟩
  | append_singleton replies reply ih =>
      rw [atomicWrite, List.foldl_concat, ← atomicWrite]
      obtain ⟨hbytes, hapart, hprogress⟩ := ih
      obtain ⟨hkeeps, hreq⟩ := request_step path pid
        (atomicWrite path pid d₀ bytes replies).1 (atomicWrite path pid d₀ bytes replies).2 reply
      rw [hbytes] at hkeeps hreq
      exact ⟨hkeeps, apart_of_request hname hapart hreq, hprogress.step hname hapart hreq⟩

end Progress

/--
**A store is replaced whole or not at all.** At any point of a call, whatever came of each of
its requests, a power failure leaves under the target's name what it could have left before
the call, or exactly the new bytes; and a reader sees what it saw before, or exactly the new
bytes. A call that fails has changed nothing that can be seen or left there, one that
succeeds is seen. The temporary name is another than the target's, and as long as it is no
second name for the target's file before the call, it is none afterwards.
-/
theorem atomicWrite_all_or_nothing (path : Path) (pid : UInt32) (target : List UInt8)
    (hname : path.fileName = some target) (start : Directory (List UInt8))
    (hapart : start.Apart (path.tmpName pid) target) (bytes : List UInt8)
    (replies : List OsReply) :
    path.tmpName pid ≠ target
      ∧ (∀ c, (atomicWrite path pid start bytes replies).1.Survives target c →
          start.Survives target c ∨ c = some bytes)
      ∧ ((atomicWrite path pid start bytes replies).1.read target = start.read target
          ∨ (atomicWrite path pid start bytes replies).1.read target = some bytes)
      ∧ (∀ e, (atomicWrite path pid start bytes replies).2.stage = .finished (.error e) →
          (atomicWrite path pid start bytes replies).1.read target = start.read target
            ∧ ∀ c, (atomicWrite path pid start bytes replies).1.Survives target c
              ↔ start.Survives target c)
      ∧ ((atomicWrite path pid start bytes replies).2.stage = .finished (.ok ()) →
          (atomicWrite path pid start bytes replies).1.read target = some bytes)
      ∧ (atomicWrite path pid start bytes replies).1.Apart (path.tmpName pid) target := by
  obtain ⟨-, hafter, hprogress⟩ := progress_atomicWrite hname hapart bytes replies
  refine ⟨Path.tmpName_ne pid hname, ?_, ?_, ?_, ?_, hafter⟩
  · intro c hc
    rcases hprogress.untouched_or_replaced with huntouched | hreplaced
    · exact Or.inl (huntouched.survives_iff.mp hc)
    · exact hreplaced.survives c hc
  · exact hprogress.untouched_or_replaced.imp Directory.Untouched.read_eq Replaced.read_eq
  · intro e hstage
    rw [hstage] at hprogress
    have huntouched : Directory.Untouched start _ target := hprogress
    exact ⟨huntouched.read_eq, fun c => huntouched.survives_iff⟩
  · intro hstage
    rw [hstage] at hprogress
    have hreplaced : Replaced start _ target bytes := hprogress
    exact hreplaced.read_eq

namespace Sample

/-- The store file of a mailbox, and its process. -/
def storePath : Path where
  bytes := "data/store.bin".toUTF8.data.toList
  parent := some "data".toUTF8.data.toList
  fileName := some "store.bin".toUTF8.data.toList

def pid : UInt32 := 7

/-- Its directory with an older file, all of it on the disk. -/
def dataDir : Directory (List UInt8) :=
  let d := (Directory.empty true).create "store.bin".toUTF8.data.toList
  ((d.1.write d.2 0 [1, 2, 3]).sync d.2).syncDir

theorem apart_dataDir :
    dataDir.Apart (storePath.tmpName pid) "store.bin".toUTF8.data.toList :=
  .of_synced (Path.tmpName_ne pid rfl) rfl

end Sample

/-- A call whose write was cut short: its temporary file holds a part of the bytes. -/
theorem atomicWrite_all_or_nothing_sample :
    (atomicWrite Sample.storePath Sample.pid Sample.dataDir [4, 5] [.ok 0, .ok 0, .ok 1]).1.read
        (Sample.storePath.tmpName Sample.pid) = some [4]
      ∧ ∀ c, (atomicWrite Sample.storePath Sample.pid Sample.dataDir [4, 5]
          [.ok 0, .ok 0, .ok 1]).1.Survives "store.bin".toUTF8.data.toList c →
        Sample.dataDir.Survives "store.bin".toUTF8.data.toList c ∨ c = some [4, 5] :=
  ⟨by decide +kernel, (atomicWrite_all_or_nothing Sample.storePath Sample.pid _ rfl Sample.dataDir
    Sample.apart_dataDir [4, 5] [.ok 0, .ok 0, .ok 1]).2.1⟩

end CeMail
