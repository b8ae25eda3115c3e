import CeMail.Lib.Disk
import CeMail.Lib.Machine
import CeMail.Lib.Utf8

/-!
# Crash-safe persistence

A store is written to a temporary file next to it, which is synced and then renamed over
it. A call proceeds from one request to the operating system to the next, so that a crash,
or another call, can come between any two of them. What the system answers is an argument:
any request can fail, and a write can take fewer bytes than it was offered. (A write that is
interrupted is made again.)

A directory that is yet to be made is one with nothing in it which is not on the disk.
-/

namespace CeMail

open Disk

/-- A path, with the directory and the last component that `std::path` finds in it. -/
structure Path where
  bytes : List UInt8
  parent : Option (List UInt8)
  fileName : Option (List UInt8)

namespace Path

def dir (path : Path) : List UInt8 := path.parent.getD ".".toUTF8.data.toList

/-- `Path::join`, of a relative path. -/
def join (dir name : List UInt8) : List UInt8 :=
  if dir.getLast?.all (· = 0x2F) then dir ++ name else dir ++ 0x2F :: name

/-- A temporary name in the same directory, different from process to process. -/
def tmpName (path : Path) (pid : UInt32) : List UInt8 :=
  let fileName := (path.fileName.map Utf8.lossy).getD "store"
  ("." ++ fileName ++ ".tmp." ++ toString pid).toUTF8.data.toList

def tmp (path : Path) (pid : UInt32) : List UInt8 := join path.dir (path.tmpName pid)

end Path

/-- What the operating system answers to a request. -/
inductive OsReply where
  /-- Done. A write took so many bytes. -/
  | ok (count : Nat)
  | failed (cause : String)

/-- An error with the context it came up in. -/
structure Failure where
  context : String
  cause : String
deriving DecidableEq

/-- What a call of `atomic_write` does next. -/
inductive WriteStage where
  | createDir
  | createTemp
  /-- Within `write_all`, with so many bytes written to the file. -/
  | write (file done : Nat)
  | flush (file : Nat)
  | fsync (file : Nat)
  | rename
  | fsyncDir
  | finished (result : Except Failure Unit)
deriving DecidableEq

/-- A call of `atomic_write`. -/
structure AtomicWrite where
  bytes : List UInt8
  stage : WriteStage
deriving DecidableEq

namespace AtomicWrite

/-- A call as it begins. -/
def start (bytes : List UInt8) : AtomicWrite := ⟨bytes, .createDir⟩

def goto (call : AtomicWrite) (stage : WriteStage) : AtomicWrite := { call with stage := stage }

def fail (call : AtomicWrite) (context cause : String) : AtomicWrite :=
  call.goto (.finished (.error ⟨context, cause⟩))

/-- The next request of a call, with the reply to it. -/
def step (path : Path) (pid : UInt32) (d : Directory (List UInt8)) (call : AtomicWrite)
    (reply : OsReply) : Directory (List UInt8) × AtomicWrite :=
  let tmp := Utf8.lossy (path.tmp pid)
  match call.stage with
  | .createDir =>
      match reply with
      | .ok _ => (d, call.goto .createTemp)
      | .failed cause => (d, call.fail ("create dir " ++ Utf8.lossy path.dir) cause)
  | .createTemp =>
      match reply with
      | .ok _ => ((d.create (path.tmpName pid)).1,
          call.goto (.write (d.create (path.tmpName pid)).2 0))
      | .failed cause => (d, call.fail ("create temp " ++ tmp) cause)
  | .write file done =>
      -- nothing is asked for when nothing is left
      if call.bytes.length ≤ done then (d, call.goto (.flush file))
      else
        match reply with
        | .ok 0 => (d, call.fail ("write temp " ++ tmp) "failed to write whole buffer")
        | .ok count =>
            let taken := (call.bytes.drop done).take count
            (d.write file done taken, call.goto (.write file (done + taken.length)))
        | .failed cause => (d, call.fail ("write temp " ++ tmp) cause)
  | .flush file =>
      match reply with
      | .ok _ => (d, call.goto (.fsync file))
      | .failed cause => (d, call.fail "flush temp" cause)
  | .fsync file =>
      match reply with
      | .ok _ => (d.sync file, call.goto .rename)
      | .failed cause => (d, call.fail ("fsync temp " ++ tmp) cause)
  | .rename =>
      let context := "rename " ++ tmp ++ " -> " ++ Utf8.lossy path.bytes
      match reply with
      | .ok _ =>
          match path.fileName, d.links.file (path.tmpName pid) with
          | some target, some _ => (d.rename (path.tmpName pid) target, call.goto .fsyncDir)
          | some _, none => (d, call.fail context "No such file or directory (os error 2)")
          | none, _ => (d, call.fail context "Is a directory (os error 21)")
      | .failed cause => (d, call.fail context cause)
  | .fsyncDir =>
      -- best effort
      match reply with
      | .ok _ => (d.syncDir, call.goto (.finished (.ok ())))
      | .failed _ => (d, call.goto (.finished (.ok ())))
  | .finished _ => (d, call)

end AtomicWrite

/-- What a call has made of the directory, and where it is, after some replies. -/
def atomicWrite (path : Path) (pid : UInt32) (d : Directory (List UInt8)) (bytes : List UInt8)
    (replies : List OsReply) : Directory (List UInt8) × AtomicWrite :=
  replies.foldl (fun s reply => s.2.step path pid s.1 reply) (d, .start bytes)

/-! ## The calls of one process -/

/-- Threads of one process, which write to one path. -/
structure Process where
  disk : Directory (List UInt8)
  /-- The calls so far, first to last. -/
  calls : List AtomicWrite

/-- What happens next in some thread. -/
inductive Turn where
  /-- A call begins. -/
  | start (bytes : List UInt8)
  /-- A call proceeds. -/
  | proceed (call : Nat) (reply : OsReply)

def Process.step (path : Path) (pid : UInt32) (p : Process) : Turn → Process × Unit
  | .start bytes => ({ p with calls := p.calls ++ [.start bytes] }, ())
  | .proceed i reply =>
      match p.calls[i]? with
      | some call =>
          let (disk, call) := call.step path pid p.disk reply
          (⟨disk, p.calls.set i call⟩, ())
      | none => (p, ())

end CeMail
