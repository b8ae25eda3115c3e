import CeMail.Lib.Utf8
import CeMail.Model.Client
import CeMail.Model.Panics

/-!
# The command line

`ce-mail inbox` and `ce-mail read` over one data directory. A run of `inbox` drains the
mailbox, opens what it got, prints it, saves the snapshot, saves the cursor and, with
`--ack`, acks that cursor. Deliveries can fall between any two of these, and at any of them
the run can die: a write goes through as a whole or not at all, and a message that cannot
be printed ends the run there. `read` looks in the snapshot.

Which bodies can be fetched is up to the network at the time, so each run comes with its
own answers. A recipient's queue holds an id once, so a run opens no envelope twice.
-/

namespace CeMail

/-! ## The snapshot -/

/-- What the snapshot keeps of a message. -/
structure SnapMsg where
  id : String
  «from» : String
  subject : String
  inReplyTo : String
  body : String
deriving DecidableEq

/-- The body as text. -/
def Message.bodyText (m : Message) : String := Utf8.lossy m.body

/--
The files of the command. (`inbox.json` is JSON and `inbox.cursor` a decimal; both are
read back as what was written.)
-/
structure DataDir where
  /-- `inbox.cursor`, where absent or unreadable 0. -/
  cursor : UInt64
  /-- `inbox.json` -/
  snapshot : Option (List SnapMsg)
deriving DecidableEq

/-- `ce-mail read`: the first message of the snapshot whose id is, or starts with, `id`. -/
def DataDir.read (d : DataDir) (id : String) : Except String SnapMsg :=
  match d.snapshot with
  | none => .error "no inbox snapshot — run `ce-mail inbox` first"
  | some msgs =>
      match msgs.find? fun m => m.id = id || id.toList.isPrefixOf m.id.toList with
      | some m => .ok m
      | none => .error s!"no message with id starting {id} in the last inbox snapshot"

section Crypto

variable [Crypto]

/-- The id of the envelope. -/
def Message.id (m : Message) : String := m.envelope.messageId

/-- An entry of `save_snapshot`. -/
def Message.snap (m : Message) : SnapMsg where
  id := m.id
  «from» := m.envelope.body.from
  subject := m.subject
  inReplyTo := m.envelope.body.inReplyTo
  body := m.bodyText

/-! ## Opening what was drained -/

/-- What fetching and decrypting the body of an envelope gives. -/
abbrev Fetch := Envelope → Except String (List UInt8)

/-- `open_content`: the body and the sealed subject, if the body blob is a structured one. -/
def Fetch.openContent (fetch : Fetch) (env : Envelope) :
    Except String (List UInt8 × Option String) :=
  if env.body.bodyCid = "" then .ok ([], none) else do
    let plaintext ← fetch env
    match BodyContent.tryDecode plaintext with
    | some content => .ok (content.body, some content.subject)
    | none => .ok (plaintext, none)

/-- The message an envelope becomes. A body that cannot be opened becomes an empty one. -/
def Fetch.message (fetch : Fetch) (env : Envelope) : Message :=
  match fetch.openContent env with
  | .ok (body, sealedSubject) => ⟨env, body, sealedSubject⟩
  | .error _ => ⟨env, [], none⟩

/-- `compose_messages`: what does not verify is skipped. -/
def Fetch.messages (fetch : Fetch) (envelopes : List Envelope) : List Message :=
  (envelopes.filter fun env => env.verify = .ok ()).map fetch.message

/-! ## Printing -/

/-- `&s[..n]` -/
def sliceTo (s : String) (n : Nat) : Except Fault String :=
  match Utf8.front s.toList n with
  | some cs => .ok (.ofList cs)
  | none => .error .charBoundary

/-- `truncate`: at most `n` bytes of a string, and an ellipsis for the rest. -/
def truncate (s : String) (n : Nat) : Except Fault String :=
  if s.utf8ByteSize ≤ n then .ok s
  else do
    let front ← sliceTo s n
    .ok s!"{front}…"

/-- A line of `print_inbox`. -/
def inboxLine (m : Message) : Except Fault String := do
  let id ← sliceTo m.id (min 16 m.id.utf8ByteSize)
  let sender ← truncate m.envelope.body.from 12
  .ok s!"{id}  {sender}  {m.subject}"

/-- `print_inbox` -/
def printInbox (msgs : List Message) : Except Fault (List String) :=
  if msgs = [] then .ok ["(no new messages)"] else msgs.mapM inboxLine

/-- The messages that `print_inbox` prints: those in front of the first that makes it panic. -/
def listed (msgs : List Message) : List Message := msgs.takeWhile fun m => (inboxLine m).isOk

/-! ## The inbox command -/

/-- A run of `ce-mail inbox`, from the reply to its drain on. -/
structure Session where
  /-- `--ack` -/
  ack : Bool
  start : UInt64
  /-- What the drain returned. -/
  envelopes : List Envelope
  cursor : UInt64
  fetch : Fetch

namespace Session

def msgs (s : Session) : List Message := s.fetch.messages s.envelopes

/-- What the run saves for `read`. -/
def snapshot (s : Session) : List SnapMsg := s.msgs.map Message.snap

/-- The run acks: `--ack` was given and the cursor moved. -/
def acks (s : Session) : Bool := s.ack && s.start < s.cursor

end Session

/-- How far the running command has come. -/
inductive Stage where
  | idle
  | drained (session : Session)
  | snapshotted (session : Session)
  | cursorSaved (session : Session)

/-- The mailbox, the files of the command and the command. -/
structure Desk where
  store : MailboxStore
  dir : DataDir
  stage : Stage

inductive DeskAct where
  | deliver (envelope : Envelope) (now : UInt64)
  /-- Start the command, if it is not running. -/
  | inbox (ack : Bool) (since : Option UInt64) (fetch : Fetch)
  /-- The running command takes its next step. -/
  | next
  /-- The running command dies. -/
  | crash

/-- `drain_inbox` of the recipient `k`, and the run it starts. -/
def Desk.drain (k : String) (d : Desk) (ack : Bool) (since : Option UInt64) (fetch : Fetch) :
    Session where
  ack := ack
  start := since.getD d.dir.cursor
  envelopes := (d.store.readFrom k (since.getD d.dir.cursor)).1.map StoredEnvelope.envelope
  cursor := (d.store.readFrom k (since.getD d.dir.cursor)).2
  fetch := fetch

/-- One step, and what it printed. -/
def Desk.step (k : String) (d : Desk) : DeskAct → Desk × List Message
  | .deliver e now => ({ d with store := (d.store.accept e now).1 }, [])
  | .inbox ack since fetch =>
      match d.stage with
      | .idle => ({ d with stage := .drained (d.drain k ack since fetch) }, [])
      | _ => (d, [])
  | .next =>
      match d.stage with
      | .idle => (d, [])
      | .drained s =>
          -- what was printed before the panic was printed, and nothing is saved
          match printInbox s.msgs with
          | .error _ => ({ d with stage := .idle }, listed s.msgs)
          | .ok _ => ({ d with
              dir := { d.dir with snapshot := some s.snapshot }
              stage := .snapshotted s }, listed s.msgs)
      | .snapshotted s =>
          ({ d with dir := { d.dir with cursor := s.cursor }, stage := .cursorSaved s }, [])
      | .cursorSaved s =>
          if s.acks then ({ d with store := (d.store.ack k s.cursor).1, stage := .idle }, [])
          else ({ d with stage := .idle }, [])
  | .crash => ({ d with stage := .idle }, [])

/-! ## Several mailboxes -/

/-- The commands of one recipient at several mailboxes, over one data directory. -/
structure Desks (ι : Type) where
  stores : ι → MailboxStore
  dir : DataDir
  stages : ι → Stage

/-- One of the mailboxes, with the files and the command there. -/
def Desks.desk {ι : Type} (ds : Desks ι) (i : ι) : Desk := ⟨ds.stores i, ds.dir, ds.stages i⟩

/-- One step at one of the mailboxes, and what it printed. -/
def Desks.step {ι : Type} [DecidableEq ι] (k : String) (ds : Desks ι) (act : ι × DeskAct) :
    Desks ι × List Message :=
  let next := (ds.desk act.1).step k act.2
  (⟨Function.update ds.stores act.1 next.1.store, next.1.dir,
    Function.update ds.stages act.1 next.1.stage⟩, next.2)

end Crypto

end CeMail
