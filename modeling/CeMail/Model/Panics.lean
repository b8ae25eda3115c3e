import CeMail.Lib.Utf8
import CeMail.Model.Service
import CeMail.Model.Subject

/-!
# Where the code can panic

The store, the service and the subjects once more, line by line, with the steps written out
that are not defined for every operand: a `usize` sum or difference, a `clamp`, a slice of a
queue, a `drain` of its front, a slice of a text. Whether arithmetic past the ends of `usize`
panics or wraps depends on how the code was built, which is a parameter here.

Wherever nothing panics these are the functions of the other modules. They write only those
steps down as fallible that can fail where they stand, and this module is where the others
are shown not to.
-/

namespace CeMail

/-- What an operation that panicked was not defined for. -/
inductive Fault where
  /-- `Ord::clamp` with its bounds the wrong way round. -/
  | clampBounds
  /-- A sum past the largest `usize`, or a difference below 0. -/
  | overflow
  /-- A range with its ends the wrong way round, or one that ends past the queue. -/
  | range
  /-- A byte position inside a character, or past the end of a string. -/
  | charBoundary
deriving DecidableEq

namespace Checked

/-- `a + b` on `usize`. -/
def add (checks : Bool) (a b : Nat) : Except Fault Nat :=
  if a + b < 2 ^ 64 then .ok (a + b)
  else if checks then .error .overflow else .ok ((a + b) % 2 ^ 64)

/-- `a - b` on `usize`. -/
def sub (checks : Bool) (a b : Nat) : Except Fault Nat :=
  if b ≤ a then .ok (a - b)
  else if checks then .error .overflow else .ok ((a + 2 ^ 64 - b) % 2 ^ 64)

/-- `Ord::clamp` -/
def clamp (x lo hi : UInt64) : Except Fault UInt64 :=
  if lo ≤ hi then .ok (max lo (min x hi)) else .error .clampBounds

/-- `q[start..stop].to_vec()` -/
def slice {α : Type} (q : List α) (start stop : Nat) : Except Fault (List α) :=
  if start ≤ stop ∧ stop ≤ q.length then .ok ((q.take stop).drop start) else .error .range

/-- `q.drain(0..n)`: what comes out and what stays. -/
def drainFront {α : Type} (q : List α) (n : Nat) : Except Fault (List α × List α) :=
  if n ≤ q.length then .ok (q.take n, q.drop n) else .error .range

/-- The lines `accept` and `put_receipt` have in common. -/
def deposit {α : Type} (checks : Bool) (capacity : UInt64) (key : α → String)
    (queues : Table String (List α)) (seen : Table String (Finset String)) (k : String) (x : α) :
    Except Fault (Deposit α) :=
  let seen := seen.touch k
  if key x ∈ seen.get k then .ok ⟨queues, seen, .duplicate⟩
  else
    let seen := seen.insert k (insert (key x) (seen.get k))
    let q := queues.get k ++ [x]
    if capacity.toNat < q.length then do
      let overflow ← sub checks q.length capacity.toNat
      let (evicted, q) ← drainFront q overflow
      .ok ⟨queues.insert k q, Table.modify seen k ((evicted.map key).foldl Finset.erase ·), .stored⟩
    else .ok ⟨queues.insert k q, seen, .stored⟩

/-- `MailboxStore::accept` -/
def accept [Crypto] (checks : Bool) (s : MailboxStore) (envelope : Envelope) (now : UInt64) :
    Except Fault (MailboxStore × Except String Accepted) :=
  match envelope.verify with
  | .error e => .ok (s, .error ("refusing to store unverifiable envelope: " ++ e))
  | .ok () =>
      if envelope.body.to = "" then .ok (s, .error "envelope has no recipient")
      else do
        let d ← deposit checks s.capacityPerRecipient StoredEnvelope.messageId s.queues s.seen
          envelope.body.to ⟨envelope, now⟩
        .ok ({ s with queues := d.queues, seen := d.seen }, .ok d.accepted)

/-- `MailboxStore::read_from` -/
def readFrom (s : MailboxStore) (recipientHex : String) (since : UInt64) :
    Except Fault (List StoredEnvelope × UInt64) :=
  match s.queues.lookup recipientHex with
  | some q =>
      if since.toNat < q.length then do
        let stored ← slice q since.toNat q.length
        .ok (stored, .ofNat q.length)
      else .ok ([], .ofNat q.length)
  | none => .ok ([], 0)

/-- `MailboxStore::read_page` -/
def readPage (checks : Bool) (s : MailboxStore) (recipientHex : String) (since limit : UInt64) :
    Except Fault (List StoredEnvelope × UInt64 × Bool) :=
  let limit := max limit 1
  match s.queues.lookup recipientHex with
  | some q =>
      if since.toNat < q.length then do
        let sum ← add checks since.toNat limit.toNat
        let stop := min sum q.length
        let page ← slice q since.toNat stop
        .ok (page, .ofNat stop, stop < q.length)
      else .ok ([], .ofNat q.length, false)
  | none => .ok ([], 0, false)

/-- `MailboxStore::put_receipt` -/
def putReceipt [Crypto] (checks : Bool) (s : MailboxStore) (forSenderHex : String)
    (receipt : Receipt) : Except Fault (MailboxStore × Except String Accepted) :=
  match receipt.verify with
  | .error e => .ok (s, .error ("refusing to store unverifiable receipt: " ++ e))
  | .ok () =>
      if forSenderHex = "" then .ok (s, .error "receipt has no target sender")
      else do
        let d ← deposit checks s.capacityPerRecipient Receipt.dedupKey s.receipts s.receiptsSeen
          forSenderHex receipt
        .ok ({ s with receipts := d.queues, receiptsSeen := d.seen }, .ok d.accepted)

/-- `MailboxStore::ack` -/
def ack (s : MailboxStore) (recipientHex : String) (upToCursor : UInt64) :
    Except Fault (MailboxStore × UInt64) :=
  match s.queues.lookup recipientHex with
  | some q => do
      let n := min upToCursor.toNat q.length
      let (_, q) ← drainFront q n
      .ok ({ s with queues := s.queues.insert recipientHex q }, .ofNat n)
  | none => .ok (s, 0)

/-- `Limits::clamp_page` -/
def clampPage (l : Limits) (limit : UInt64) : Except Fault UInt64 := clamp limit 1 l.maxPage

section Service

variable {Cap : Type} [Crypto] (checks : Bool)

/-- What a request does once it has passed the gate. -/
def perform (svc : MailService) (now : UInt64) :
    MailRequest Cap → Except Fault (MailboxStore × MailReply)
  | .deliver envelope _ => do
      let (store, accepted) ← accept checks svc.store envelope now
      .ok (store, .ofAccepted .delivered accepted)
  | .drain recipient since _ => do
      let (stored, cursor) ← readFrom svc.store recipient since
      .ok (svc.store, .drained (stored.map StoredEnvelope.envelope) cursor)
  | .ack recipient cursor _ => do
      let (store, removed) ← ack svc.store recipient cursor
      .ok (store, .acked removed)
  | .drainPage recipient since limit _ => do
      let limit ← clampPage svc.limits limit
      let (stored, cursor, more) ← readPage checks svc.store recipient since limit
      .ok (svc.store, .page (stored.map StoredEnvelope.envelope) cursor more)
  | .putReceipt forSender receipt _ => do
      let (store, accepted) ← putReceipt checks svc.store forSender receipt
      .ok (store, .ofAccepted .receiptAccepted accepted)
  | .collectReceipts sender _ =>
      .ok ((svc.store.collectReceipts sender).1, .receipts (svc.store.collectReceipts sender).2)

/-- `MailService::handle` -/
def handle [Iam Cap] (svc : MailService) (requester : NodeId) (request : MailRequest Cap)
    (now : UInt64) (isRevoked : NodeId → UInt64 → Bool) :
    Except Fault (MailService × MailReply) :=
  match svc.gate requester now isRevoked request with
  | .error message => .ok (svc, .error message)
  | .ok () => do
      let (store, reply) ← perform checks svc now request
      .ok ({ svc with store := store }, reply)

end Service

/-! ## Subjects -/

/-- `s[..n]` -/
def sliceTo (cs : List Char) (n : Nat) : Except Fault (List Char) :=
  match Utf8.front cs n with
  | some ds => .ok ds
  | none => .error .charBoundary

/-- `s[n..]` -/
def sliceFrom (cs : List Char) (n : Nat) : Except Fault (List Char) :=
  match Utf8.back cs n with
  | some ds => .ok ds
  | none => .error .charBoundary

/--
The optional count of `strip_prefix_token`. (`close` is a place in a string, so `close + 1`
is a `usize`.)
-/
def skipCount (rest : List Char) : Except Fault (Option (List Char)) :=
  match ['['].isPrefixOf? rest with
  | some after =>
      match Utf8.find ']' after with
      | some close => do
          let count ← sliceTo after close
          if count.all Char.isDigit then do
            let rest ← sliceFrom after (close + 1)
            .ok (some rest)
          else .ok none
      | none => .ok none
  | none => .ok (some rest)

/-- `strip_prefix_token` -/
def stripPrefixToken (checks : Bool) (lower orig : List Char) (p : String) :
    Except Fault (Option (List Char)) :=
  match p.toList.isPrefixOf? lower with
  | none => .ok none
  | some rest => do
      match ← skipCount rest with
      | none => .ok none
      | some rest =>
          match [':'].isPrefixOf? rest with
          | none => .ok none
          | some rest => do
              let consumed ← sub checks (Utf8.byteLen orig) (Utf8.byteLen rest)
              let rest ← sliceFrom orig consumed
              .ok (some (trimStart rest))

/-- The `for` loop over the prefixes. -/
def stripFirst (checks : Bool) (lower s : List Char) :
    List String → Except Fault (Option (List Char))
  | [] => .ok none
  | p :: ps => do
      match ← stripPrefixToken checks lower s p with
      | some rest => .ok (some rest)
      | none => stripFirst checks lower s ps

/-- One turn of the loop of `normalize_subject`, which a panic ends as a `break` does. -/
def normalizeTurn (checks : Bool) (s : List Char) : List Char ⊕ Except Fault (List Char) :=
  match stripFirst checks (toAsciiLowercase s) s replyPrefixes with
  | .ok (some rest) => .inl rest
  | .ok none => .inr (.ok s)
  | .error fault => .inr (.error fault)

end Checked

/-- A store that threads share. -/
structure SharedMailbox where
  store : MailboxStore
  /-- A call has panicked while it held the lock. -/
  poisoned : Bool

namespace SharedMailbox

/-- Wrap a store for concurrent access. -/
def new (store : MailboxStore) : SharedMailbox := ⟨store, false⟩

/-- Run `f` against the locked store. -/
def «with» {R : Type} (m : SharedMailbox) (f : MailboxStore → Except Fault (MailboxStore × R)) :
    SharedMailbox × Except Fault (Except String R) :=
  if m.poisoned then (m, .ok (.error "mailbox lock poisoned"))
  else
    match f m.store with
    | .ok (store, result) => ({ m with store := store }, .ok (.ok result))
    | .error fault => ({ m with poisoned := true }, .error fault)

/-- Read a page under the lock. -/
def readPage (checks : Bool) (m : SharedMailbox) (recipientHex : String) (since limit : UInt64) :
    SharedMailbox × Except Fault (Except String (List StoredEnvelope × UInt64 × Bool)) :=
  m.with fun s => do
    let page ← Checked.readPage checks s recipientHex since limit
    .ok (s, page)

end SharedMailbox

end CeMail
