import CeMail.Lib.Table
import CeMail.Model.Envelope
import CeMail.Model.Subject

/-!
# Conversations

`groupThreads` turns a flat list of envelopes into conversations, by the ids they say they
reply to. The links are followed one message at a time, so nothing but the lookup of a
parent is asked of the map of parents. The map of groups is traversed once, in no order
the program knows: `conversations` takes the groups in the order they are visited.
-/

namespace CeMail

/-- One conversation: the envelopes that share a thread root, oldest first. -/
structure Conversation where
  /-- The root message id this conversation threads on. -/
  root : String
  messages : List Envelope

/-- The most recent `sentAt` in the conversation, 0 if empty. -/
def Conversation.lastActivity (c : Conversation) : UInt64 :=
  (c.messages.map fun e => e.body.sentAt).max?.getD 0

/-- The normalized subject of the first message, empty if there is none. -/
def Conversation.subject (c : Conversation) : String :=
  (c.messages.head?.map fun e => normalizeSubject e.body.subject).getD ""

/-! ## Following reply links -/

/--
The loop of `resolve_root`: climb while the parent has a parent itself. An id that comes a
second time closes a cycle, and the climb stops below it.
-/
def resolveFrom (parents : Table String String) (seen : Finset String) (current : String) :
    String :=
  match parents.lookup current with
  | none => current
  | some parent =>
      if parent ∈ seen then current
      else if parent ∈ parents then resolveFrom parents (insert parent seen) parent
      else parent
termination_by (parents.keys.toFinset \ seen).card
decreasing_by
  have hsub : parents.keys.toFinset \ insert parent seen ⊆ parents.keys.toFinset \ seen :=
    Finset.sdiff_subset_sdiff subset_rfl (Finset.subset_insert _ _)
  refine Finset.card_lt_card ((Finset.ssubset_iff_of_subset hsub).mpr ⟨parent, ?_, ?_⟩)
  · exact Finset.mem_sdiff.mpr ⟨List.mem_toFinset.mpr ‹_›, ‹_›⟩
  · exact fun h => (Finset.mem_sdiff.mp h).2 (Finset.mem_insert_self _ _)

/-- One turn of that loop, from the ids seen and the current one. -/
def resolveTurn (parents : Table String String) :
    Finset String × String → (Finset String × String) ⊕ String
  | (seen, current) =>
      match parents.lookup current with
      | none => .inr current
      | some parent =>
          if parent ∈ seen then .inr current
          else if parent ∈ parents then .inl (insert parent seen, parent)
          else .inr parent

/-- Resolve the thread root of a message id. -/
def resolveRoot (target : String) (parents : Table String String) : String :=
  resolveFrom parents {target} target

section Crypto

variable [Crypto]

/-- One turn of the loop of `parent_map`. -/
def insertParent (m : Table String String) (e : Envelope) : Table String String :=
  if e.body.inReplyTo = "" then m else m.insert e.messageId e.body.inReplyTo

/-- A lookup from message id to its `in_reply_to` parent. -/
def parentMap (envelopes : List Envelope) : Table String String := envelopes.foldl insertParent ∅

/-- The root message id of one envelope, given the list it lives in. -/
def threadRoot (envelope : Envelope) (envelopes : List Envelope) : String :=
  resolveRoot envelope.messageId (parentMap envelopes)

/-! ## Grouping -/

/-- Keep the first of the envelopes with one message id. -/
def dedupFrom (seen : Finset String) : List Envelope → List Envelope
  | [] => []
  | e :: es =>
      if e.messageId ∈ seen then dedupFrom seen es
      else e :: dedupFrom (insert e.messageId seen) es

/-- The envelopes to group. -/
abbrev dedup (envelopes : List Envelope) : List Envelope := dedupFrom ∅ envelopes

/-- One turn of the grouping loop: add an envelope to the group of its root. -/
def pushByRoot (parents : Table String String) (m : Table String (List Envelope)) (e : Envelope) :
    Table String (List Envelope) :=
  let root := resolveRoot e.messageId parents
  Table.modify (m.touch root) root (· ++ [e])

/-- The envelopes under their thread roots. -/
def byRoot (deduped : List Envelope) : Table String (List Envelope) :=
  deduped.foldl (pushByRoot (parentMap deduped)) ∅

/-- The order within a conversation: by `sentAt`, then by message id. -/
def Envelope.chronological : Envelope → Envelope → Ordering :=
  compareLex (compareOn fun e => e.body.sentAt) (compareOn messageId)

/-- The inbox order: most recent activity first, then by root. -/
def Conversation.byActivity : Conversation → Conversation → Ordering :=
  compareLex (fun a b => compare b.lastActivity a.lastActivity) (compareOn root)

/-- One group as a conversation. -/
def Conversation.ofGroup (group : String × List Envelope) : Conversation :=
  ⟨group.1, group.2.mergeSort fun a b => (a.chronological b).isLE⟩

/-- The groups as conversations in inbox order. -/
def conversations (groups : List (String × List Envelope)) : List Conversation :=
  (groups.map .ofGroup).mergeSort fun a b => (a.byActivity b).isLE

/-- Partition envelopes into conversations by thread root. -/
def groupThreads (envelopes : List Envelope) : List Conversation :=
  conversations (byRoot (dedup envelopes)).pairs

/-- What `group_threads` may return, by the order in which it visits the groups. -/
def GroupsInto (envelopes : List Envelope) (convs : List Conversation) : Prop :=
  ∃ groups, groups.Perm (byRoot (dedup envelopes)).pairs ∧ convs = conversations groups

end Crypto

end CeMail
