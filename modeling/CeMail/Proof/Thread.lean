import CeMail.Proof.Roots
import CeMail.Proof.StoreRun

/-!
# Conversations are the components of the reply links

The program climbs from each message on its own, through a map built from the whole list.
On links without a cycle the climb reaches the end of the links, and the ends name the
connected components; so messages of one conversation are those joined by replies, the
answers to a message that is not in the list among them.
-/

namespace CeMail

/-! ## The climb -/

/-- The climb asks for nothing but lookups. -/
theorem resolveFrom_congr {parents parents' : Table String String}
    (h : ∀ a, parents.lookup a = parents'.lookup a) (seen : Finset String) (current : String) :
    resolveFrom parents seen current = resolveFrom parents' seen current := by
  have hmem : ∀ a, a ∈ parents ↔ a ∈ parents' := by
    intro a
    rw [← AList.lookup_isSome, ← AList.lookup_isSome, h]
  fun_induction resolveFrom parents seen current with
  | case1 seen current hnone =>
      rw [h] at hnone
      rw [resolveFrom, hnone]
  | case2 seen current parent hsome hseen =>
      rw [h] at hsome
      rw [resolveFrom, hsome]
      simp only [if_pos hseen]
  | case3 seen current parent hsome hseen hparent ih =>
      rw [h] at hsome
      rw [resolveFrom.eq_def parents', hsome]
      simp only [if_neg hseen, if_pos ((hmem parent).mp hparent)]
      exact ih
  | case4 seen current parent hsome hseen hparent =>
      rw [h] at hsome
      rw [resolveFrom, hsome]
      simp only [if_neg hseen, if_neg ((hmem parent).not.mp hparent)]

/-! ## Sorting -/

/-- What was sorted is in order. -/
theorem pairwise_isLE_mergeSort {α : Type} {cmp : α → α → Ordering} [Std.TransCmp cmp]
    (l : List α) :
    (l.mergeSort fun a b => (cmp a b).isLE).Pairwise fun a b => (cmp a b).isLE := by
  refine List.pairwise_mergeSort ?_ ?_ l
  · intro a b c
    exact Std.TransCmp.isLE_trans
  · intro a b
    have hswap : cmp b a = (cmp a b).swap := Std.OrientedCmp.eq_swap
    rw [hswap]
    cases cmp a b <;> rfl

/-- Where the order tells elements apart, sorting forgets how they came. -/
theorem eq_of_mergeSort {α : Type} {cmp : α → α → Ordering} [Std.TransCmp cmp] {l l' : List α}
    (heq : ∀ a ∈ l, ∀ b ∈ l, cmp a b = .eq → a = b) (h : l.Perm l') :
    (l.mergeSort fun a b => (cmp a b).isLE) = l'.mergeSort fun a b => (cmp a b).isLE := by
  refine List.Perm.eq_of_pairwise ?_ (pairwise_isLE_mergeSort l) (pairwise_isLE_mergeSort l')
    (((List.mergeSort_perm l _).trans h).trans (List.mergeSort_perm l' _).symm)
  intro a b ha hb hab hba
  refine heq a (List.mem_mergeSort.mp ha) b (h.mem_iff.mpr (List.mem_mergeSort.mp hb)) ?_
  exact Std.OrientedCmp.isLE_antisymm hab hba

section Crypto

variable [Crypto] {es : List Envelope} {e : Envelope} {a r : String}

/-! ## The de-duplicated list -/

/-- The first envelope of a list with an id. -/
def firstWith (es : List Envelope) (id : String) : Option Envelope :=
  es.find? fun e => e.messageId = id

theorem firstWith_cons (e : Envelope) (es : List Envelope) (a : String) :
    firstWith (e :: es) a = if e.messageId = a then some e else firstWith es a := by
  rw [firstWith, List.find?_cons]
  split
  · rename_i h
    rw [if_pos (of_decide_eq_true h)]
  · rename_i h
    rw [if_neg (of_decide_eq_false h)]
    rfl

/-- **De-duplication keeps the first envelope with each id.** -/
theorem firstWith_dedupFrom (seen : Finset String) (es : List Envelope) (a : String) :
    firstWith (dedupFrom seen es) a = if a ∈ seen then none else firstWith es a := by
  induction es generalizing seen with
  | nil => exact (ite_self _).symm
  | cons e es ih =>
      rw [dedupFrom, firstWith_cons]
      by_cases hseen : e.messageId ∈ seen
      · rw [if_pos hseen, ih]
        by_cases ha : e.messageId = a
        · subst ha
          rw [if_pos hseen, if_pos hseen]
        · rw [if_neg ha]
      · rw [if_neg hseen, firstWith_cons, ih]
        by_cases ha : e.messageId = a
        · subst ha
          rw [if_pos rfl, if_pos rfl, if_neg hseen]
        · rw [if_neg ha, if_neg ha]
          simp only [Finset.mem_insert, Ne.symm ha, false_or]

theorem firstWith_dedup (es : List Envelope) (a : String) :
    firstWith (dedup es) a = firstWith es a := by
  rw [firstWith_dedupFrom, if_neg (Finset.notMem_empty a)]

theorem notMem_of_mem_dedupFrom {seen : Finset String} (h : e ∈ dedupFrom seen es) :
    e.messageId ∉ seen := by
  intro hmem
  have hnone : firstWith (dedupFrom seen es) e.messageId = none := by
    rw [firstWith_dedupFrom, if_pos hmem]
  simpa using List.find?_eq_none.mp hnone e h

/-- No id comes twice. -/
theorem nodup_dedupFrom (seen : Finset String) (es : List Envelope) :
    ((dedupFrom seen es).map Envelope.messageId).Nodup := by
  induction es generalizing seen with
  | nil => exact List.nodup_nil
  | cons e es ih =>
      rw [dedupFrom]
      split
      · exact ih seen
      · rw [List.map_cons, List.nodup_cons]
        refine ⟨?_, ih _⟩
        intro hmem
        obtain ⟨e', he', hid⟩ := List.mem_map.mp hmem
        refine notMem_of_mem_dedupFrom he' ?_
        rw [hid]
        exact Finset.mem_insert_self _ _

theorem mem_dedup : e ∈ dedup es ↔ firstWith es e.messageId = some e := by
  rw [← firstWith_dedup]
  refine ⟨?_, List.mem_of_find?_eq_some⟩
  intro h
  cases hfirst : firstWith (dedup es) e.messageId with
  | none => simpa using List.find?_eq_none.mp hfirst e h
  | some e' =>
      have hid : e'.messageId = e.messageId := by simpa using List.find?_some hfirst
      have hmem := List.mem_of_find?_eq_some hfirst
      rw [List.inj_on_of_nodup_map (nodup_dedupFrom ∅ es) hmem h hid]

theorem mem_of_mem_dedup (h : e ∈ dedup es) : e ∈ es :=
  List.mem_of_find?_eq_some (mem_dedup.mp h)

/-- Every id of the list is kept once. -/
theorem exists_mem_dedup (h : e ∈ es) : ∃ d ∈ dedup es, d.messageId = e.messageId := by
  cases hfirst : firstWith es e.messageId with
  | none => simpa using List.find?_eq_none.mp hfirst e h
  | some d =>
      have hid : d.messageId = e.messageId := by simpa using List.find?_some hfirst
      exact ⟨d, mem_dedup.mpr (hid ▸ hfirst), hid⟩

/-! ## The links of a list -/

/-- What an envelope says it replies to. -/
def Envelope.parent (e : Envelope) : Option String :=
  if e.body.inReplyTo = "" then none else some e.body.inReplyTo

/-- The reply link of a message id: the parent its envelope names. -/
def replyLink (es : List Envelope) (id : String) : Option String :=
  (firstWith es id).bind Envelope.parent

theorem replyLink_cons (e : Envelope) (es : List Envelope) (a : String) :
    replyLink (e :: es) a = if e.messageId = a then e.parent else replyLink es a := by
  rw [replyLink, firstWith_cons]
  split <;> rfl

omit [Crypto] in
theorem parent_eq_some {b : String} :
    e.parent = some b ↔ e.body.inReplyTo = b ∧ b ≠ "" := by
  rw [Envelope.parent]
  split
  · rename_i h
    rw [h]
    refine ⟨?_, ?_⟩
    · intro hb
      cases hb
    · intro hb
      exact absurd hb.1.symm hb.2
  · rename_i h
    rw [Option.some.injEq]
    refine ⟨?_, And.left⟩
    intro hb
    subst hb
    exact ⟨rfl, h⟩

/-- Where ids tell bodies apart, the links of a list are those of all its envelopes. -/
theorem step_replyLink
    (hids : ∀ e ∈ es, ∀ d ∈ es, e.messageId = d.messageId → e.body = d.body) {b : String} :
    Links.Step (replyLink es) a b
      ↔ ∃ e ∈ es, e.messageId = a ∧ e.body.inReplyTo = b ∧ b ≠ "" := by
  rw [Links.Step, replyLink, Option.bind_eq_some_iff]
  refine ⟨?_, ?_⟩
  · intro h
    obtain ⟨e, he, hparent⟩ := h
    have hid : e.messageId = a := by simpa using List.find?_some he
    exact ⟨e, List.mem_of_find?_eq_some he, hid, parent_eq_some.mp hparent⟩
  · intro h
    obtain ⟨e, he, rfl, hparent⟩ := h
    obtain ⟨d, hd, hid⟩ := exists_mem_dedup he
    have hbody : d.body = e.body := hids d (mem_of_mem_dedup hd) e he hid
    refine ⟨d, hid ▸ mem_dedup.mp hd, parent_eq_some.mpr ?_⟩
    rw [hbody]
    exact hparent

theorem lookup_insertParent (m : Table String String) (e : Envelope) (a : String) :
    (insertParent m e).lookup a
      = if e.messageId = a then e.parent.or (m.lookup a) else m.lookup a := by
  rw [insertParent, Envelope.parent]
  by_cases hnone : e.body.inReplyTo = ""
  · rw [if_pos hnone, if_pos hnone, Option.none_or, ite_self]
  · rw [if_neg hnone, if_neg hnone, Option.some_or]
    by_cases ha : e.messageId = a
    · subst ha
      rw [if_pos rfl, AList.lookup_insert]
    · rw [if_neg ha, AList.lookup_insert_ne (Ne.symm ha)]

theorem lookup_foldl_insertParent
    (hids : ∀ e ∈ es, ∀ d ∈ es, e.messageId = d.messageId → e.body = d.body)
    (m : Table String String) (a : String) :
    (es.foldl insertParent m).lookup a = (replyLink es a).or (m.lookup a) := by
  induction es generalizing m with
  | nil => rfl
  | cons e es ih =>
      have hrest : ∀ e' ∈ es, ∀ d ∈ es, e'.messageId = d.messageId → e'.body = d.body :=
        fun e' he d hd => hids e' (List.mem_cons_of_mem e he) d (List.mem_cons_of_mem e hd)
      rw [List.foldl_cons, ih hrest, replyLink_cons, lookup_insertParent]
      by_cases ha : e.messageId = a
      · rw [if_pos ha, if_pos ha, replyLink]
        cases hfirst : firstWith es a with
        | none => rfl
        | some d =>
            -- what comes after it with its id names the same parent
            have hid : d.messageId = a := by simpa using List.find?_some hfirst
            have hbody : d.body = e.body :=
              hids d (List.mem_cons_of_mem e (List.mem_of_find?_eq_some hfirst)) e
                List.mem_cons_self (hid.trans ha.symm)
            have hparent : d.parent = e.parent := by
              rw [Envelope.parent, Envelope.parent, hbody]
            rw [Option.bind_some, hparent, ← Option.or_assoc, Option.or_self]
      · rw [if_neg ha, if_neg ha]

/-- **The map of parents holds the links of the list.** -/
theorem lookup_parentMap (es : List Envelope) (a : String) :
    (parentMap (dedup es)).lookup a = replyLink es a := by
  have hids : ∀ e ∈ dedup es, ∀ d ∈ dedup es, e.messageId = d.messageId → e.body = d.body := by
    intro e he d hd hid
    rw [List.inj_on_of_nodup_map (nodup_dedupFrom ∅ es) he hd hid]
  rw [parentMap, lookup_foldl_insertParent hids, AList.lookup_empty, Option.or_none, replyLink,
    firstWith_dedup, replyLink]

/-! ## The groups -/

/-- The root the program finds for an id of the list. -/
def rootIn (es : List Envelope) (id : String) : String := resolveRoot id (parentMap (dedup es))

/-- The messages of the list under a root. -/
def groupOf (es : List Envelope) (r : String) : List Envelope :=
  (dedup es).filter fun e => rootIn es e.messageId = r

theorem get_foldl_pushByRoot (parents : Table String String) (es : List Envelope)
    (m : Table String (List Envelope)) (r : String) :
    (es.foldl (pushByRoot parents) m).get r
      = m.get r ++ es.filter fun e => resolveRoot e.messageId parents = r := by
  induction es generalizing m with
  | nil => exact (List.append_nil _).symm
  | cons e es ih =>
      rw [List.foldl_cons, ih, pushByRoot, Table.get_modify (Table.mem_touch _ _)]
      by_cases hr : resolveRoot e.messageId parents = r
      · rw [if_pos hr.symm, Table.get_touch, List.filter_cons_of_pos (by simpa using hr), hr]
        simp
      · rw [if_neg (Ne.symm hr), Table.get_touch, List.filter_cons_of_neg (by simpa using hr)]

theorem mem_foldl_pushByRoot {parents : Table String String} {m : Table String (List Envelope)} :
    r ∈ es.foldl (pushByRoot parents) m
      ↔ r ∈ m ∨ ∃ e ∈ es, resolveRoot e.messageId parents = r := by
  induction es generalizing m with
  | nil => simp
  | cons e es ih =>
      have htouch : r ∈ pushByRoot parents m e ↔ r ∈ m ∨ resolveRoot e.messageId parents = r := by
        rw [pushByRoot, Table.modify_of_mem (Table.mem_touch _ _), AList.mem_insert, Table.touch]
        split
        · rename_i hmem
          refine ⟨?_, ?_⟩
          · intro h
            rcases h with h | h
            · exact Or.inr h.symm
            · exact Or.inl h
          · intro h
            rcases h with h | h
            · exact Or.inr h
            · exact Or.inl h.symm
        · rw [AList.mem_insert]
          tauto
      rw [List.foldl_cons, ih, htouch, List.exists_mem_cons_iff, or_assoc]

/-- **The map of groups holds under each root its messages in list order**, and no empty group. -/
theorem mem_byRoot {group : String × List Envelope} :
    group ∈ (byRoot (dedup es)).pairs
      ↔ group.2 = groupOf es group.1 ∧ ∃ e ∈ dedup es, rootIn es e.messageId = group.1 := by
  obtain ⟨r, ms⟩ := group
  have hget : (byRoot (dedup es)).get r = groupOf es r := by
    rw [byRoot, get_foldl_pushByRoot, Table.get_empty]
    rfl
  have hmem : r ∈ byRoot (dedup es) ↔ ∃ e ∈ dedup es, rootIn es e.messageId = r := by
    rw [byRoot, mem_foldl_pushByRoot]
    simp [rootIn]
  rw [Table.mem_pairs, ← hget, ← hmem, ← AList.lookup_isSome, Table.get]
  cases (byRoot (dedup es)).lookup r with
  | none => simp
  | some q => simp [eq_comm]

/-! ## The conversations -/

/-- **A conversation is returned exactly when it is a group that is not empty**, in order. -/
theorem mem_of_groupsInto {convs : List Conversation} (h : GroupsInto es convs)
    {c : Conversation} :
    c ∈ convs ↔ c = .ofGroup (c.root, groupOf es c.root)
      ∧ ∃ e ∈ dedup es, rootIn es e.messageId = c.root := by
  obtain ⟨groups, hperm, rfl⟩ := h
  rw [conversations, List.mem_mergeSort, List.mem_map]
  refine ⟨?_, ?_⟩
  · intro hmem
    obtain ⟨group, hgroup, rfl⟩ := hmem
    obtain ⟨hms, hroot⟩ := mem_byRoot.mp (hperm.mem_iff.mp hgroup)
    refine ⟨?_, hroot⟩
    show Conversation.ofGroup group = .ofGroup (group.1, groupOf es group.1)
    rw [← hms]
  · intro hc
    exact ⟨_, hperm.mem_iff.mpr (mem_byRoot.mpr ⟨rfl, hc.2⟩), hc.1.symm⟩

/-- The order of the model's own map is one of them. -/
theorem groupsInto_groupThreads (es : List Envelope) : GroupsInto es (groupThreads es) :=
  ⟨_, List.Perm.refl _, rfl⟩

/-- The messages of a conversation are those of the list with its root. -/
theorem mem_messages {convs : List Conversation} (h : GroupsInto es convs) {c : Conversation}
    (hc : c ∈ convs) : e ∈ c.messages ↔ e ∈ dedup es ∧ rootIn es e.messageId = c.root := by
  rw [((mem_of_groupsInto h).mp hc).1, Conversation.ofGroup]
  simp only [List.mem_mergeSort, groupOf, List.mem_filter, decide_eq_true_eq]

/-- **The root of a message alone is that of its conversation**, where ids tell bodies apart. -/
theorem threadRoot_eq_root (hids : ∀ e ∈ es, ∀ d ∈ es, e.messageId = d.messageId → e.body = d.body)
    {convs : List Conversation} (h : GroupsInto es convs) {c : Conversation} (hc : c ∈ convs)
    (he : e ∈ c.messages) : threadRoot e es = c.root := by
  have hlookup : ∀ a, (parentMap es).lookup a = (parentMap (dedup es)).lookup a := by
    intro a
    rw [lookup_parentMap, parentMap, lookup_foldl_insertParent hids, AList.lookup_empty,
      Option.or_none]
  rw [← ((mem_messages h hc).mp he).2]
  exact resolveFrom_congr hlookup _ _

/-- Some conversation has messages with both ids. -/
def Together (convs : List Conversation) (a b : String) : Prop :=
  ∃ c ∈ convs, a ∈ c.messages.map Envelope.messageId ∧ b ∈ c.messages.map Envelope.messageId

/-- Messages of the list are together when the program finds one root for them. -/
theorem together_iff {convs : List Conversation} (h : GroupsInto es convs) {d : Envelope}
    (he : e ∈ es) (hd : d ∈ es) :
    Together convs e.messageId d.messageId ↔ rootIn es e.messageId = rootIn es d.messageId := by
  refine ⟨?_, ?_⟩
  · intro htogether
    obtain ⟨c, hc, hmem, hmem'⟩ := htogether
    obtain ⟨m, hm, hid⟩ := List.mem_map.mp hmem
    obtain ⟨m', hm', hid'⟩ := List.mem_map.mp hmem'
    rw [← hid, ← hid', ((mem_messages h hc).mp hm).2, ((mem_messages h hc).mp hm').2]
  · intro hroot
    obtain ⟨m, hm, hid⟩ := exists_mem_dedup he
    obtain ⟨m', hm', hid'⟩ := exists_mem_dedup hd
    rw [← hid, ← hid'] at hroot ⊢
    let c : Conversation := .ofGroup (rootIn es m.messageId, groupOf es (rootIn es m.messageId))
    have hc : c ∈ convs := (mem_of_groupsInto h).mpr ⟨rfl, m, hm, rfl⟩
    exact ⟨c, hc, List.mem_map_of_mem ((mem_messages h hc).mpr ⟨hm, rfl⟩),
      List.mem_map_of_mem ((mem_messages h hc).mpr ⟨hm', hroot.symm⟩)⟩

theorem rootIn_ends (hacyclic : Links.Acyclic (replyLink es)) (a : String) :
    Links.Ends (replyLink es) a (rootIn es a) := by
  have hlink : replyLink es = fun a => (parentMap (dedup es)).lookup a :=
    funext fun a => (lookup_parentMap es a).symm
  rw [hlink] at hacyclic ⊢
  exact resolveRoot_ends hacyclic a

/--
**Conversations are the components of the reply links**, whatever order the groups are
visited in: two messages of the list are in one conversation exactly when replies join
them, and the root is where the links end from any message of the conversation. Of two
envelopes with one id the links are the first one's; unless there are such two with
different bodies, they are those of all envelopes.
-/
theorem together_iff_joined (es : List Envelope) (hacyclic : Links.Acyclic (replyLink es))
    (convs : List Conversation) (h : GroupsInto es convs) :
    (∀ e ∈ es, ∀ d ∈ es, Together convs e.messageId d.messageId ↔
        Links.Joined (replyLink es) e.messageId d.messageId)
      ∧ (∀ c ∈ convs, ∀ m ∈ c.messages, Links.Ends (replyLink es) m.messageId c.root)
      ∧ ((∀ e ∈ es, ∀ d ∈ es, e.messageId = d.messageId → e.body = d.body) →
        ∀ a b, Links.Step (replyLink es) a b ↔
          ∃ e ∈ es, e.messageId = a ∧ e.body.inReplyTo = b ∧ b ≠ "") := by
  refine ⟨?_, ?_, fun hids a b => step_replyLink hids⟩
  · intro e he d hd
    rw [together_iff h he hd,
      Links.joined_iff (rootIn_ends hacyclic e.messageId) (rootIn_ends hacyclic d.messageId)]
  · intro c hc m hm
    rw [← ((mem_messages h hc).mp hm).2]
    exact rootIn_ends hacyclic m.messageId

end Crypto

namespace Sample

/-- An answer of `sender` to `first`. -/
def answer (subject : String) (signature : Nat) : Envelope where
  body := { (ping recipient.hex subject signature).body with
    inReplyTo := "60ff8f80b897d5f0adc49214573ad0c98f926b2593e79389cf67f6cd74a95c1d" }
  sig := bytes 64 signature

def answerC : Envelope := answer "c" <|
  0x7a6dd560c1a89e78f524130ca0d7917e3ddca024a0003613ea02a78a4db6baa4 * 2 ^ 256 +
  0x17426224231da19cf74611e0c82833ec45d3512049e94720b59b22188b3df805

def answerD : Envelope := answer "d" <|
  0x5bb5adf44ea7ecfe889f77b57782e5aa805cadcccd4b31b5d6942b9f7b0ac086 * 2 ^ 256 +
  0x4282944cdc8b05ac12c68350f88cebbda4aa64b07a4c46a2025cb9237d550d07

@[reducible] def answersCrypto : Crypto := cryptoOn [
  (answerC, 0x5a83fa18e866a112c36604c555759d94e6b0ad56110c7a9852d9e3995d753063),
  (answerD, 0xe5541f2c89ae2c285131a668222ac2c4de19a408f42bdf3499f8158ae9b3b685)]

theorem messageId_answerC : @Envelope.messageId answersCrypto answerC
    = "5a83fa18e866a112c36604c555759d94e6b0ad56110c7a9852d9e3995d753063" := by
  decide +kernel

theorem messageId_answerD : @Envelope.messageId answersCrypto answerD
    = "e5541f2c89ae2c285131a668222ac2c4de19a408f42bdf3499f8158ae9b3b685" := by
  decide +kernel

theorem replyLink_answers (a : String) :
    @replyLink answersCrypto [answerC, answerD] a
      = if a = "5a83fa18e866a112c36604c555759d94e6b0ad56110c7a9852d9e3995d753063" ∨
          a = "e5541f2c89ae2c285131a668222ac2c4de19a408f42bdf3499f8158ae9b3b685"
        then some "60ff8f80b897d5f0adc49214573ad0c98f926b2593e79389cf67f6cd74a95c1d" else none := by
  rw [@replyLink_cons answersCrypto, @replyLink_cons answersCrypto, messageId_answerC,
    messageId_answerD]
  by_cases hc : "5a83fa18e866a112c36604c555759d94e6b0ad56110c7a9852d9e3995d753063" = a
  · rw [if_pos hc, if_pos (Or.inl hc.symm)]
    rfl
  · by_cases hd : "e5541f2c89ae2c285131a668222ac2c4de19a408f42bdf3499f8158ae9b3b685" = a
    · rw [if_neg hc, if_pos hd, if_pos (Or.inr hd.symm)]
      rfl
    · rw [if_neg hc, if_neg hd, if_neg (not_or.mpr ⟨Ne.symm hc, Ne.symm hd⟩)]
      rfl

end Sample

/-- Two answers to a message that is not there are one conversation. -/
theorem together_iff_joined_sample :
    @Together Sample.answersCrypto
      (@groupThreads Sample.answersCrypto [Sample.answerC, Sample.answerD])
      (@Envelope.messageId Sample.answersCrypto Sample.answerC)
      (@Envelope.messageId Sample.answersCrypto Sample.answerD) := by
  have hstep : ∀ {a b},
      Links.Step (@replyLink Sample.answersCrypto [Sample.answerC, Sample.answerD]) a b →
        b = "60ff8f80b897d5f0adc49214573ad0c98f926b2593e79389cf67f6cd74a95c1d" ∧ a ≠ b := by
    intro a b h
    rw [Links.Step, Sample.replyLink_answers] at h
    split at h
    · rename_i ha
      cases h
      rcases ha with rfl | rfl
      · exact ⟨rfl, by decide⟩
      · exact ⟨rfl, by decide⟩
    · cases h
  have hacyclic :
      Links.Acyclic (@replyLink Sample.answersCrypto [Sample.answerC, Sample.answerD]) := by
    refine Links.acyclic_of_lt (fun a => if a =
      "60ff8f80b897d5f0adc49214573ad0c98f926b2593e79389cf67f6cd74a95c1d" then 0 else 1) ?_
    intro a b h
    obtain ⟨rfl, hne⟩ := hstep h
    simp only [if_neg hne]
    exact Nat.zero_lt_one
  refine ((@together_iff_joined Sample.answersCrypto _ hacyclic _
    (@groupsInto_groupThreads Sample.answersCrypto _)).1 _ List.mem_cons_self _
    (List.mem_cons_of_mem _ List.mem_cons_self)).mpr ?_
  rw [Sample.messageId_answerC, Sample.messageId_answerD]
  refine .trans _ "60ff8f80b897d5f0adc49214573ad0c98f926b2593e79389cf67f6cd74a95c1d" _
    (.rel _ _ ?_) (.symm _ _ (.rel _ _ ?_))
  · rw [Links.Step, Sample.replyLink_answers]
    rfl
  · rw [Links.Step, Sample.replyLink_answers]
    rfl

section Crypto

variable [Crypto] {es : List Envelope} {e : Envelope} {a r : String}

/-! ## Two lists with one set of messages -/

/-- The order within a conversation, on bodies. -/
def EnvelopeBody.chronological : EnvelopeBody → EnvelopeBody → Ordering :=
  compareLex (compareOn sentAt) (compareOn CeMail.messageId)

/-- What the user sees of a conversation: its root and the bodies in order. -/
def Conversation.view (c : Conversation) : String × List EnvelopeBody :=
  (c.root, c.messages.map Envelope.body)

/-- The inbox order, on views. -/
def byActivityOfView : String × List EnvelopeBody → String × List EnvelopeBody → Ordering :=
  compareLex
    (fun a b => compare ((b.2.map EnvelopeBody.sentAt).max?.getD 0)
      ((a.2.map EnvelopeBody.sentAt).max?.getD 0))
    (compareOn Prod.fst)

instance : Std.TransCmp EnvelopeBody.chronological :=
  inferInstanceAs (Std.TransCmp (compareLex _ _))

omit [Crypto] in
instance : Std.TransCmp byActivityOfView :=
  have : Std.TransCmp fun a b : String × List EnvelopeBody =>
      compare ((b.2.map EnvelopeBody.sentAt).max?.getD 0)
        ((a.2.map EnvelopeBody.sentAt).max?.getD 0) :=
    @Std.TransCmp.opposite _ (compareOn fun a : String × List EnvelopeBody =>
      (a.2.map EnvelopeBody.sentAt).max?.getD 0) _
  inferInstanceAs (Std.TransCmp (compareLex _ _))

/-- The bodies of a group in order. -/
def sortBodies (bodies : List EnvelopeBody) : List EnvelopeBody :=
  bodies.mergeSort fun a b => (a.chronological b).isLE

theorem view_ofGroup (group : String × List Envelope) :
    (Conversation.ofGroup group).view = (group.1, sortBodies (group.2.map Envelope.body)) := by
  refine Prod.ext rfl ?_
  exact List.map_mergeSort fun a _ b _ => rfl

omit [Crypto] in
theorem byActivity_eq (c d : Conversation) : c.byActivity d = byActivityOfView c.view d.view := by
  have hlast : ∀ c : Conversation,
      c.lastActivity = (c.view.2.map EnvelopeBody.sentAt).max?.getD 0 := by
    intro c
    rw [Conversation.view, List.map_map]
    rfl
  simp only [Conversation.byActivity, byActivityOfView, compareLex, hlast]
  rfl

/-- The views in inbox order, from the groups alone. -/
theorem view_conversations (groups : List (String × List Envelope)) :
    (conversations groups).map Conversation.view
      = (groups.map fun g => (g.1, sortBodies (g.2.map Envelope.body))).mergeSort
          fun a b => (byActivityOfView a b).isLE := by
  rw [conversations, List.map_mergeSort (s := fun a b => (byActivityOfView a b).isLE),
    List.map_map]
  · congr 1
    exact List.map_congr_left fun g _ => view_ofGroup g
  · intro a _ b _
    rw [byActivity_eq]

/-- Two lists with the same message ids, in which ids tell bodies apart. -/
structure SameMessages (es es' : List Envelope) : Prop where
  tellApart : ∀ e ∈ es ++ es', ∀ d ∈ es ++ es', e.messageId = d.messageId → e.body = d.body
  ids : ∀ id, id ∈ es.map Envelope.messageId ↔ id ∈ es'.map Envelope.messageId

namespace SameMessages

variable {es es' : List Envelope}

theorem symm (h : SameMessages es es') : SameMessages es' es where
  tellApart e he d hd hid := by
    refine h.tellApart e ?_ d ?_ hid
    · exact List.mem_append.mpr (List.mem_append.mp he).symm
    · exact List.mem_append.mpr (List.mem_append.mp hd).symm
  ids id := (h.ids id).symm

/-- Each body of one list is kept of the other. -/
theorem exists_body_eq (h : SameMessages es es') {e : Envelope} (he : e ∈ es) :
    ∃ d ∈ dedup es', d.body = e.body := by
  obtain ⟨d, hd, hid⟩ := List.mem_map.mp ((h.ids _).mp (List.mem_map_of_mem he))
  obtain ⟨d', hd', hid'⟩ := exists_mem_dedup hd
  refine ⟨d', hd', h.tellApart d' ?_ e ?_ (hid'.trans hid)⟩
  · exact List.mem_append_right _ (mem_of_mem_dedup hd')
  · exact List.mem_append_left _ he

theorem step_replyLink (h : SameMessages es es') {a b : String}
    (hstep : Links.Step (replyLink es) a b) : Links.Step (replyLink es') a b := by
  have hids : ∀ e ∈ es, ∀ d ∈ es, e.messageId = d.messageId → e.body = d.body := by
    intro e he d hd
    exact h.tellApart e (List.mem_append_left _ he) d (List.mem_append_left _ hd)
  have hids' : ∀ e ∈ es', ∀ d ∈ es', e.messageId = d.messageId → e.body = d.body := by
    intro e he d hd
    exact h.tellApart e (List.mem_append_right _ he) d (List.mem_append_right _ hd)
  obtain ⟨e, he, hid, hparent⟩ := (CeMail.step_replyLink hids).mp hstep
  obtain ⟨d, hd, hbody⟩ := h.exists_body_eq he
  refine (CeMail.step_replyLink hids').mpr ⟨d, mem_of_mem_dedup hd, ?_, ?_⟩
  · rw [← hid, Envelope.messageId, hbody]
    rfl
  · rw [hbody]
    exact hparent

/-- The program finds one root in both lists. -/
theorem rootIn_eq (h : SameMessages es es') (a : String) : rootIn es a = rootIn es' a := by
  refine resolveFrom_congr ?_ _ _
  intro a
  rw [lookup_parentMap, lookup_parentMap]
  refine Option.ext ?_
  intro b
  exact ⟨h.step_replyLink, h.symm.step_replyLink⟩

theorem nodup_bodies (es : List Envelope) : ((dedup es).map Envelope.body).Nodup := by
  refine List.Nodup.of_map CeMail.messageId ?_
  rw [List.map_map]
  exact nodup_dedupFrom ∅ es

theorem perm_bodies (h : SameMessages es es') :
    ((dedup es).map Envelope.body).Perm ((dedup es').map Envelope.body) := by
  have hsub : ∀ {es es' : List Envelope}, SameMessages es es' → ∀ b,
      b ∈ (dedup es).map Envelope.body → b ∈ (dedup es').map Envelope.body := by
    intro es es' h b hb
    obtain ⟨e, he, rfl⟩ := List.mem_map.mp hb
    obtain ⟨d, hd, hbody⟩ := h.exists_body_eq (mem_of_mem_dedup he)
    exact List.mem_map.mpr ⟨d, hd, hbody⟩
  refine (List.perm_ext_iff_of_nodup (nodup_bodies es) (nodup_bodies es')).mpr ?_
  intro b
  exact ⟨hsub h b, hsub h.symm b⟩

/-- A group has the same bodies in both lists. -/
theorem perm_groupOf (h : SameMessages es es') (r : String) :
    ((groupOf es r).map Envelope.body).Perm ((groupOf es' r).map Envelope.body) := by
  have hfilter : ∀ es : List Envelope, (groupOf es r).map Envelope.body
      = ((dedup es).map Envelope.body).filter fun b => rootIn es (CeMail.messageId b) = r := by
    intro es
    rw [List.filter_map]
    rfl
  rw [hfilter, hfilter, funext h.rootIn_eq]
  exact h.perm_bodies.filter _

theorem sortBodies_groupOf (h : SameMessages es es') (r : String) :
    sortBodies ((groupOf es r).map Envelope.body)
      = sortBodies ((groupOf es' r).map Envelope.body) := by
  refine eq_of_mergeSort ?_ (h.perm_groupOf r)
  intro a ha b hb hab
  obtain ⟨e, he, rfl⟩ := List.mem_map.mp ha
  obtain ⟨d, hd, rfl⟩ := List.mem_map.mp hb
  -- bodies of equal rank have one id
  have hid : e.messageId = d.messageId :=
    Std.LawfulEqCmp.eq_of_compare (compareLex_eq_eq.mp hab).2
  rw [List.inj_on_of_nodup_map (nodup_dedupFrom ∅ es) (List.mem_filter.mp he).1
    (List.mem_filter.mp hd).1 hid]

end SameMessages

/-- A list's groups as views, before they are sorted. -/
def viewsOf (groups : List (String × List Envelope)) : List (String × List EnvelopeBody) :=
  groups.map fun g => (g.1, sortBodies (g.2.map Envelope.body))

theorem nodup_viewsOf {groups : List (String × List Envelope)}
    (h : groups.Perm (byRoot (dedup es)).pairs) : ((viewsOf groups).map Prod.fst).Nodup := by
  have hfst : (viewsOf groups).map Prod.fst = groups.map Prod.fst := by
    rw [viewsOf, List.map_map]
    rfl
  rw [hfst, (h.map Prod.fst).nodup_iff]
  exact Table.pairs_fst_nodup _

theorem mem_viewsOf {groups : List (String × List Envelope)}
    (h : groups.Perm (byRoot (dedup es)).pairs) {v : String × List EnvelopeBody} :
    v ∈ viewsOf groups ↔ v.2 = sortBodies ((groupOf es v.1).map Envelope.body)
      ∧ ∃ b ∈ (dedup es).map Envelope.body, rootIn es (CeMail.messageId b) = v.1 := by
  rw [viewsOf, List.mem_map]
  simp only [h.mem_iff, mem_byRoot]
  refine ⟨?_, ?_⟩
  · intro hv
    obtain ⟨group, ⟨hms, e, he, hroot⟩, rfl⟩ := hv
    rw [hms]
    exact ⟨rfl, e.body, List.mem_map_of_mem he, hroot⟩
  · intro hv
    obtain ⟨hbodies, b, hb, hroot⟩ := hv
    obtain ⟨e, he, rfl⟩ := List.mem_map.mp hb
    exact ⟨(v.1, groupOf es v.1), ⟨rfl, e, he, hroot⟩, Prod.ext rfl hbodies.symm⟩

/--
**Grouping ignores arrival order and duplicates**: lists with one set of message ids give
the same roots in the same order, each with the same bodies in the same order, in
whatever order either run visits its groups.
-/
theorem groupThreads_determined (es es' : List Envelope) (h : SameMessages es es')
    (convs convs' : List Conversation) (hconvs : GroupsInto es convs)
    (hconvs' : GroupsInto es' convs') :
    convs.map Conversation.view = convs'.map Conversation.view := by
  obtain ⟨groups, hperm, rfl⟩ := hconvs
  obtain ⟨groups', hperm', rfl⟩ := hconvs'
  have hviews : (viewsOf groups).Perm (viewsOf groups') := by
    refine (List.perm_ext_iff_of_nodup (nodup_viewsOf hperm).of_map
      (nodup_viewsOf hperm').of_map).mpr ?_
    intro v
    rw [mem_viewsOf hperm, mem_viewsOf hperm', h.sortBodies_groupOf, funext h.rootIn_eq]
    simp only [h.perm_bodies.mem_iff]
  rw [view_conversations, view_conversations]
  refine eq_of_mergeSort ?_ hviews
  intro v hv w hw hvw
  have hroot : v.1 = w.1 := Std.LawfulEqCmp.eq_of_compare (compareLex_eq_eq.mp hvw).2
  exact List.inj_on_of_nodup_map (nodup_viewsOf hperm) hv hw hroot

end Crypto

theorem mem_twice_iff {α : Type} {x c d : α} : x ∈ [c, d, c] ↔ x ∈ [d, c] := by
  simp only [List.mem_cons, List.not_mem_nil]
  tauto

/-- A second copy of an answer and another order change nothing. -/
theorem groupThreads_determined_sample :
    (@groupThreads Sample.answersCrypto [Sample.answerC, Sample.answerD, Sample.answerC]).map
        Conversation.view
      = (@groupThreads Sample.answersCrypto [Sample.answerD, Sample.answerC]).map
        Conversation.view := by
  have hne : @Envelope.messageId Sample.answersCrypto Sample.answerC
      ≠ @Envelope.messageId Sample.answersCrypto Sample.answerD := by
    rw [Sample.messageId_answerC, Sample.messageId_answerD]
    decide
  have hmem : ∀ e ∈ [Sample.answerC, Sample.answerD, Sample.answerC] ++
      [Sample.answerD, Sample.answerC], e = Sample.answerC ∨ e = Sample.answerD := by
    intro e he
    have hpair : e ∈ [Sample.answerD, Sample.answerC] := by
      rcases List.mem_append.mp he with h | h
      · exact mem_twice_iff.mp h
      · exact h
    exact (List.mem_pair.mp hpair).symm
  have hsame : @SameMessages Sample.answersCrypto
      [Sample.answerC, Sample.answerD, Sample.answerC] [Sample.answerD, Sample.answerC] := by
    refine @SameMessages.mk Sample.answersCrypto _ _ ?_ ?_
    · intro e he d hd hid
      rcases hmem e he with rfl | rfl
      · rcases hmem d hd with rfl | rfl
        · rfl
        · exact absurd hid hne
      · rcases hmem d hd with rfl | rfl
        · exact absurd hid.symm hne
        · rfl
    · intro id
      exact mem_twice_iff
  exact @groupThreads_determined Sample.answersCrypto _ _ hsame _ _
    (@groupsInto_groupThreads Sample.answersCrypto _)
    (@groupsInto_groupThreads Sample.answersCrypto _)

end CeMail
