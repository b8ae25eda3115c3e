import CeMail.Lib.Lock
import CeMail.Model.Panics
import CeMail.Model.StoreFile

/-!
# Threads at one store

`SharedMailbox` hands the calls of any number of threads to one store under a lock. Its
methods one by one, and then as the calls threads make of it. A call that panics poisons the
lock, and all after it are refused.
-/

namespace CeMail

variable [Crypto] (checks : Bool)

namespace SharedMailbox

/-- Accept an envelope under the lock. (The `?` takes the two results for one.) -/
def accept (m : SharedMailbox) (envelope : Envelope) (now : UInt64) :
    SharedMailbox × Except Fault (Except String Accepted) :=
  let (m, result) := m.with fun s => Checked.accept checks s envelope now
  (m, result.map (· >>= id))

omit [Crypto] in
/-- Acknowledge up to a cursor under the lock. -/
def ack (m : SharedMailbox) (recipientHex : String) (upToCursor : UInt64) :
    SharedMailbox × Except Fault (Except String UInt64) :=
  m.with fun s => Checked.ack s recipientHex upToCursor

omit [Crypto] in
/-- Pending envelope count under the lock. -/
def pendingCount (m : SharedMailbox) (recipientHex : String) :
    SharedMailbox × Except Fault (Except String UInt64) :=
  m.with fun s => .ok (s, s.pendingCount recipientHex)

omit [Crypto] in
/-- Snapshot the whole store to bytes under the lock. -/
def toBytes (m : SharedMailbox) : SharedMailbox × Except Fault (Except String (List UInt8)) :=
  let (m, result) := m.with fun s => .ok (s, s.tryToBytes)
  (m, result.map (· >>= id))

end SharedMailbox

/-- A method and its arguments. -/
inductive SharedCall where
  | accept (envelope : Envelope) (now : UInt64)
  | ack (recipientHex : String) (upToCursor : UInt64)
  | readPage (recipientHex : String) (since limit : UInt64)
  | pendingCount (recipientHex : String)
  | toBytes

/-- What a method returns. -/
inductive SharedReply where
  | accepted (result : Except String Accepted)
  | acked (result : Except String UInt64)
  | page (result : Except String (List StoredEnvelope × UInt64 × Bool))
  | count (result : Except String UInt64)
  | bytes (result : Except String (List UInt8))
deriving DecidableEq

/-- Call a method. -/
def SharedMailbox.call (m : SharedMailbox) : SharedCall → SharedMailbox × Except Fault SharedReply
  | .accept envelope now =>
      ((m.accept checks envelope now).1, (m.accept checks envelope now).2.map .accepted)
  | .ack recipientHex upToCursor =>
      ((m.ack recipientHex upToCursor).1, (m.ack recipientHex upToCursor).2.map .acked)
  | .readPage recipientHex since limit =>
      ((m.readPage checks recipientHex since limit).1,
        (m.readPage checks recipientHex since limit).2.map .page)
  | .pendingCount recipientHex =>
      ((m.pendingCount recipientHex).1, (m.pendingCount recipientHex).2.map .count)
  | .toBytes => (m.toBytes.1, m.toBytes.2.map .bytes)

namespace SharedCall

/-- The closure a method runs under the lock, with its result as the method returns it. -/
def run : SharedCall → MailboxStore → Except Fault (MailboxStore × SharedReply)
  | .accept envelope now, s => do
      let (s, result) ← Checked.accept checks s envelope now
      .ok (s, .accepted result)
  | .ack recipientHex upToCursor, s => do
      let (s, removed) ← Checked.ack s recipientHex upToCursor
      .ok (s, .acked (.ok removed))
  | .readPage recipientHex since limit, s => do
      let page ← Checked.readPage checks s recipientHex since limit
      .ok (s, .page (.ok page))
  | .pendingCount recipientHex, s => .ok (s, .count (.ok (s.pendingCount recipientHex)))
  | .toBytes, s => .ok (s, .bytes s.tryToBytes)

omit [Crypto] in
/-- What a method returns when the lock is poisoned. -/
def refused : SharedCall → SharedReply
  | .accept _ _ => .accepted (.error "mailbox lock poisoned")
  | .ack _ _ => .acked (.error "mailbox lock poisoned")
  | .readPage _ _ _ => .page (.error "mailbox lock poisoned")
  | .pendingCount _ => .count (.error "mailbox lock poisoned")
  | .toBytes => .bytes (.error "mailbox lock poisoned")

end SharedCall

end CeMail
