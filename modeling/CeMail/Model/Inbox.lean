import CeMail.Model.Mailbox

/-!
# The clients of one mailbox

Two ways of reading a queue by cursor, each as a step of one recipient's client beside
the deliveries that go on meanwhile.

`Reader` is the protocol the documentation of `read_from` lays out: pass 0 to get
everything, store the returned cursor and pass it next time.

`Client` is `ce-mail inbox`, without `--since`. A run drains the mailbox, prints what it
got, saves the snapshot, saves the cursor and, with `--ack`, acks it; a delivery can fall
between any two of these. A run that panics over what it prints is not one of this client's.
-/

namespace CeMail

section Crypto

variable [Crypto]

/-! ## Reading by cursor -/

/-- A mailbox and the cursor one reader stored. -/
structure Reader where
  store : MailboxStore
  cursor : UInt64

inductive ReaderAct where
  | deliver (envelope : Envelope) (now : UInt64)
  | read
deriving DecidableEq

/-- One step, and what a read returned. -/
def Reader.step (k : String) (r : Reader) : ReaderAct → Reader × List StoredEnvelope
  | .deliver e now => ({ r with store := (r.store.accept e now).1 }, [])
  | .read => ({ r with cursor := (r.store.readFrom k r.cursor).2 }, (r.store.readFrom k r.cursor).1)

/-! ## The inbox command -/

/-- A run of the command, from the reply to its drain on. -/
structure InboxRun where
  /-- `--ack` -/
  ack : Bool
  start : UInt64
  msgs : List Envelope
  cursor : UInt64
deriving DecidableEq

/-- The run acks: `--ack` was given and the cursor moved. -/
def InboxRun.acks (r : InboxRun) : Bool := r.ack && r.start < r.cursor

/-- Where the command stands. -/
inductive Phase where
  | idle
  | drained (run : InboxRun)
  | printed (run : InboxRun)
  | snapshotted (run : InboxRun)
  | cursorSaved (run : InboxRun)
deriving DecidableEq

/-- What was drained and is not printed yet. -/
def Phase.unprinted : Phase → List Envelope
  | .drained r => r.msgs
  | _ => []

/-- The mailbox, the files of the command and where it stands. -/
structure Client where
  store : MailboxStore
  /-- `inbox.cursor`, where absent or unreadable 0. -/
  savedCursor : UInt64
  /-- `inbox.json` -/
  snapshot : List Envelope
  phase : Phase

inductive ClientAct where
  | deliver (envelope : Envelope) (now : UInt64)
  /-- Start the command, if it is not running. -/
  | inbox (ack : Bool)
  /-- The running command takes its next step. -/
  | next
deriving DecidableEq

/-- `compose_messages`: what does not verify is dropped. The bodies are not modelled. -/
def composeMessages (envelopes : List Envelope) : List Envelope :=
  envelopes.filter fun e => e.verify = .ok ()

/-- `drain_inbox` for the recipient `k`, and the run it starts. -/
def drainInbox (s : MailboxStore) (k : String) (ack : Bool) (start : UInt64) : InboxRun where
  ack := ack
  start := start
  msgs := composeMessages ((s.readFrom k start).1.map StoredEnvelope.envelope)
  cursor := (s.readFrom k start).2

/-- One step, and what it printed. -/
def Client.step (k : String) (c : Client) : ClientAct → Client × List Envelope
  | .deliver e now => ({ c with store := (c.store.accept e now).1 }, [])
  | .inbox ack =>
      match c.phase with
      | .idle => ({ c with phase := .drained (drainInbox c.store k ack c.savedCursor) }, [])
      | _ => (c, [])
  | .next =>
      match c.phase with
      | .idle => (c, [])
      | .drained r => ({ c with phase := .printed r }, r.msgs)
      | .printed r => ({ c with snapshot := r.msgs, phase := .snapshotted r }, [])
      | .snapshotted r => ({ c with savedCursor := r.cursor, phase := .cursorSaved r }, [])
      | .cursorSaved r =>
          if r.acks then ({ c with store := (c.store.ack k r.cursor).1, phase := .idle }, [])
          else ({ c with phase := .idle }, [])

end Crypto

end CeMail
