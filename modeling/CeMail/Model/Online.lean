import CeMail.Model.Command

/-!
# The inbox command as a program

`ce-mail inbox` as `main` runs it: a client on a network, and the files of one data
directory. Every step can stop it. A request can fail, a line can be printed that makes the
program panic, and either file may not get written; what was done by then stays done.
-/

namespace CeMail

variable {Net Cap : Type}

/-- What a client does on the network, which leaves the files alone. -/
def online {α : Type} (x : NetM Net α) : NetM (Net × DataDir) α :=
  Effect.act fun s => ((x.run.run s.1).1, ((x.run.run s.1).2, s.2))

/-- `atomic_write` of one of the files: it is written, or the write fails. -/
def saveFile (outcome : Except String Unit) (write : DataDir → DataDir) :
    NetM (Net × DataDir) Unit :=
  Effect.act fun s =>
    match outcome with
    | .ok () => (.ok (), (s.1, write s.2))
    | .error message => (.error message, s)

/-- The arguments of one run of the command, and how its two writes go. -/
structure InboxCall (Cap : Type) where
  since : Option UInt64
  grant : List Cap
  /-- `--ack` -/
  ack : Bool
  saveSnapshot : Except String Unit
  writeCursor : Except String Unit

/-- `Command::Inbox`: the messages that were printed. -/
def MailClient.inbox [Curve] [Sha512] [Crypto] [Aead] [Bincode Cap] (c : MailClient Net)
    (mailbox : String) (call : InboxCall Cap) : NetM (Net × DataDir) (List Message) := do
  let start ← Effect.act fun s => (.ok (call.since.getD s.2.cursor), s)
  let (msgs, cursor) ← online (c.drainInbox mailbox start call.grant)
  match printInbox msgs with
  | .error _ => throw "panicked"
  | .ok _ => do
      -- the snapshot first, so that the cursor is never past mail that `read` cannot see
      saveFile call.saveSnapshot fun dir => { dir with snapshot := some (msgs.map Message.snap) }
      saveFile call.writeCursor fun dir => { dir with cursor := cursor }
      if call.ack && start < cursor then
        let _ ← online (c.ack mailbox cursor call.grant)
      pure msgs

end CeMail
