import CeMail.Model.Screening
import CeMail.Proof.StoreRun

/-!
# What a policy lets through

A message is signed by the node its `from` parses to, and the lists of a policy are asked
about the text of `from`, which the sender chose and signed. So a blocked node that spells
itself otherwise than the list is a stranger.

And each message is screened without regard to the others: one receipt pays for as many
messages as carry it.
-/

namespace CeMail

namespace ScreeningPolicy

variable (p : ScreeningPolicy)

/-! ## One message -/

/-- Nothing in the policy speaks for the sender or against it. -/
structure Stranger (env : Envelope) (standing : SenderStanding) : Prop where
  addressed : env.body.to = p.me
  unblocked : p.isBlocked env.body.from = false
  unknown : ¬(env.body.from = p.me ∨ p.isContact env.body.from = true)
  unwaived : ¬(p.waivePostageForEstablished = true ∧ standing = .established)

/-- The verifier takes the receipt for at least the minimum. -/
def Accepts (verifyPostage : String → Option Amount) (receipt : String) : Prop :=
  receipt ≠ "" ∧ ∃ amount, verifyPostage receipt = some amount ∧ p.minPostage ≤ amount

variable {p} {env : Envelope} {standing : SenderStanding} {verifyPostage : String → Option Amount}

theorem screen_elsewhere (h : env.body.to ≠ p.me) :
    p.screen env standing verifyPostage = .rejected := if_pos h

theorem screen_blocked (hto : env.body.to = p.me) (h : p.isBlocked env.body.from = true) :
    p.screen env standing verifyPostage = .rejected := by
  rw [screen, if_neg (not_not.mpr hto), if_pos h]

/-- **A stranger is let in for postage alone.** -/
theorem screen_stranger [Decidable (p.Accepts verifyPostage env.body.postageReceipt)]
    (h : p.Stranger env standing) :
    p.screen env standing verifyPostage
      = if p.Accepts verifyPostage env.body.postageReceipt then .inbox true else p.deny := by
  obtain ⟨hto, hblocked, hknown, hwaived⟩ := h
  rw [screen, if_neg (not_not.mpr hto), hblocked, if_neg Bool.false_ne_true, if_neg hknown,
    if_neg hwaived]
  by_cases hempty : env.body.postageReceipt = ""
  · rw [if_pos hempty, if_neg fun h => h.1 hempty]
  · rw [if_neg hempty]
    cases hverify : verifyPostage env.body.postageReceipt with
    | none =>
        rw [if_neg]
        intro h
        obtain ⟨amount, hamount, -⟩ := h.2
        cases hverify.symm.trans hamount
    | some amount =>
        have haccepts : p.Accepts verifyPostage env.body.postageReceipt
            ↔ p.minPostage ≤ amount := by
          refine ⟨?_, ?_⟩
          · intro h
            obtain ⟨amount', hamount, hle⟩ := h.2
            obtain rfl := Option.some.inj (hverify.symm.trans hamount)
            exact hle
          · exact fun h => ⟨hempty, amount, hverify, h⟩
        simp only [haccepts]

/-- The four ways of a message: elsewhere, blocked, spoken for, and a stranger's. -/
theorem screen_cases (p : ScreeningPolicy) (env : Envelope) (standing : SenderStanding)
    (verifyPostage : String → Option Amount) :
    env.body.to ≠ p.me ∨ (env.body.to = p.me ∧ p.isBlocked env.body.from = true)
      ∨ (p.isBlocked env.body.from = false ∧ env.body.to = p.me
        ∧ p.screen env standing verifyPostage = .inbox false)
      ∨ p.Stranger env standing := by
  by_cases hto : env.body.to = p.me
  · cases hblocked : p.isBlocked env.body.from with
    | true => exact Or.inr (Or.inl ⟨hto, rfl⟩)
    | false =>
        refine Or.inr (Or.inr ?_)
        by_cases hknown : env.body.from = p.me ∨ p.isContact env.body.from = true
        · refine Or.inl ⟨rfl, hto, ?_⟩
          rw [screen, if_neg (not_not.mpr hto), hblocked, if_neg Bool.false_ne_true, if_pos hknown]
        · by_cases hwaived : p.waivePostageForEstablished = true ∧ standing = .established
          · refine Or.inl ⟨rfl, hto, ?_⟩
            rw [screen, if_neg (not_not.mpr hto), hblocked, if_neg Bool.false_ne_true,
              if_neg hknown, if_pos hwaived]
          · exact Or.inr ⟨hto, hblocked, hknown, hwaived⟩
  · exact Or.inl hto

theorem deny_ne_inbox {held : Bool} : p.deny ≠ .inbox held := by
  rw [deny]
  split
  · exact fun h => by cases h
  · exact fun h => by cases h

/-- Postage is held exactly for a stranger who paid. -/
theorem screen_eq_held :
    p.screen env standing verifyPostage = .inbox true
      ↔ p.Stranger env standing ∧ p.Accepts verifyPostage env.body.postageReceipt := by
  classical
  rcases screen_cases p env standing verifyPostage with hto | ⟨hto, hblocked⟩
    | ⟨hblocked, hto, hinbox⟩ | hstranger
  · rw [screen_elsewhere hto]
    exact iff_of_false (fun h => by cases h) fun h => hto h.1.addressed
  · rw [screen_blocked hto hblocked]
    refine iff_of_false (fun h => by cases h) ?_
    intro h
    cases hblocked.symm.trans h.1.unblocked
  · rw [hinbox]
    refine iff_of_false (fun h => by cases h) ?_
    intro h
    rw [screen_stranger h.1, if_pos h.2] at hinbox
    cases hinbox
  · rw [screen_stranger hstranger]
    split
    · rename_i h
      exact iff_of_true rfl ⟨hstranger, h⟩
    · rename_i h
      exact iff_of_false deny_ne_inbox fun hpaid => h hpaid.2

/-- A message is rejected when it is for someone else, from a string on the blocklist, or, under
a strict policy, from a stranger who did not pay. -/
theorem screen_eq_rejected :
    p.screen env standing verifyPostage = .rejected
      ↔ env.body.to ≠ p.me ∨ p.isBlocked env.body.from = true
        ∨ (p.strict = true ∧ p.Stranger env standing
          ∧ ¬p.Accepts verifyPostage env.body.postageReceipt) := by
  classical
  rcases screen_cases p env standing verifyPostage with hto | ⟨hto, hblocked⟩
    | ⟨hblocked, hto, hinbox⟩ | hstranger
  · exact iff_of_true (screen_elsewhere hto) (Or.inl hto)
  · exact iff_of_true (screen_blocked hto hblocked) (Or.inr (Or.inl hblocked))
  · rw [hinbox]
    refine iff_of_false (fun h => by cases h) ?_
    intro h
    rcases h with h | h | ⟨-, hstranger, hunpaid⟩
    · exact h hto
    · cases hblocked.symm.trans h
    · rw [screen_stranger hstranger, if_neg hunpaid] at hinbox
      exact deny_ne_inbox hinbox
  · have hto := hstranger.addressed
    have hblocked := hstranger.unblocked
    rw [screen_stranger hstranger, deny]
    by_cases hpaid : p.Accepts verifyPostage env.body.postageReceipt
    · simp [hpaid, hto, hblocked]
    · simp [hpaid, hto, hblocked, hstranger]

/-! ### A blocked node -/

/-- Some entry of the blocklist names the node that `from` names. -/
def BlocksNode (p : ScreeningPolicy) (env : Envelope) : Prop :=
  ∃ entry ∈ p.blocklist, ∃ node, parseNodeId entry = .ok node
    ∧ parseNodeId env.body.from = .ok node

/-- An authentic message of a blocked node is rejected. -/
def BlockedStaysOut [Crypto] (p : ScreeningPolicy) (env : Envelope) (standing : SenderStanding)
    (verifyPostage : String → Option Amount) : Prop :=
  env.verify = .ok () → p.BlocksNode env → p.screen env standing verifyPostage = .rejected

/--
**A blocked node stays out exactly when it spells itself as the list does**, or its
message would be rejected from anyone: because it is addressed elsewhere, or because the
policy is strict, nothing speaks for the spelling, and no postage was paid.
-/
theorem blockedStaysOut_iff [Crypto] (p : ScreeningPolicy) (env : Envelope)
    (standing : SenderStanding) (verifyPostage : String → Option Amount) :
    p.BlockedStaysOut env standing verifyPostage
      ↔ (env.verify = .ok () → p.BlocksNode env →
        env.body.from ∈ p.blocklist ∨ env.body.to ≠ p.me
          ∨ (p.strict = true ∧ p.Stranger env standing
            ∧ ¬p.Accepts verifyPostage env.body.postageReceipt)) := by
  have hlisted : p.isBlocked env.body.from = true ↔ env.body.from ∈ p.blocklist :=
    decide_eq_true_iff
  refine imp_congr_right fun _ => imp_congr_right fun _ => ?_
  rw [screen_eq_rejected, hlisted]
  exact or_left_comm

end ScreeningPolicy

namespace Sample

/-- The sender's own envelope, its id in capitals. -/
def capital : Envelope where
  body := { first.body with «from» := .ofList (sender.hex.toList.map Char.toUpper) }
  sig := bytes 64 <|
    0x46abb439b64859ad76cdedb25165a71dcdf2e93ae9ebc02035f227fe12efed14 * 2 ^ 256 +
    0x3c97c54f6daf33cb928da4bab7373b22ef650c09935b53275104f18162c0d503

@[reducible] def capitalCrypto : Crypto :=
  cryptoOn [(capital, 0xd1989724edf9c6ad95aebf9718615883339bdc42cc584fe551b79bbb73e723ff)]

end Sample

/-- A blocked sender with some history writes its id in capitals, and is delivered. -/
theorem blocked_sender_delivered :
    ¬@ScreeningPolicy.BlockedStaysOut Sample.capitalCrypto
      (.block (.new Sample.recipient.hex) Sample.sender.hex) Sample.capital .established
      fun _ => none := by
  intro h
  have hverify : @Envelope.verify Sample.capitalCrypto Sample.capital = .ok () := by
    decide +kernel
  have hfrom : parseNodeId Sample.capital.body.from = .ok Sample.sender := by decide +kernel
  have hrejected := h hverify
    ⟨_, Finset.mem_insert_self _ _, Sample.sender, parseNodeId_hex _, hfrom⟩
  revert hrejected
  decide +kernel

/-! ## A batch -/

section Batch

variable {Net : Type} {p : ScreeningPolicy} {standingOf : String → NetM Net SenderStanding}
  {verifyPostage : String → Option Amount}

/-- The receipt a message carries. -/
def Message.postage (m : Message) : String := m.envelope.body.postageReceipt

/-- No two messages that are let in for postage carry one receipt. -/
def PaidApart (screened : List Screened) : Prop :=
  screened.Pairwise fun x y => x.verdict = .inbox true → y.verdict = .inbox true →
    x.message.postage ≠ y.message.postage

/-- No two messages of strangers carry one receipt that the verifier takes. -/
def ReceiptsApart (p : ScreeningPolicy) (verifyPostage : String → Option Amount)
    (arrivals : List (Message × SenderStanding)) : Prop :=
  arrivals.Pairwise fun a b => p.Stranger a.1.envelope a.2 → p.Stranger b.1.envelope b.2 →
    p.Accepts verifyPostage a.1.postage → a.1.postage ≠ b.1.postage

/-- What is screened are the messages that came, each by itself. -/
theorem screenMessages_runs {messages : List Message} {s t : Net} {screened : List Screened}
    (h : Effect.Runs (p.screenMessages standingOf verifyPostage messages) s screened t) :
    screened.map Screened.message = messages ∧ ∀ x ∈ screened,
      x.verdict = p.screen x.message.envelope x.standing verifyPostage := by
  induction messages generalizing s t screened with
  | nil =>
      obtain ⟨rfl, -⟩ := Effect.runs_pure.mp h
      exact ⟨rfl, fun _ hx => by cases hx⟩
  | cons m ms ih =>
      rw [ScreeningPolicy.screenMessages] at h
      obtain ⟨standing, u, -, h⟩ := Effect.runs_bind.mp h
      obtain ⟨rest, u', hrest, h⟩ := Effect.runs_bind.mp h
      obtain ⟨rfl, -⟩ := Effect.runs_pure.mp h
      obtain ⟨hmessages, hverdicts⟩ := ih hrest
      refine ⟨congrArg (List.cons m) hmessages, ?_⟩
      intro x hx
      rcases List.mem_cons.mp hx with rfl | hx
      · rfl
      · exact hverdicts x hx

/--
**Each paid message has a receipt of its own exactly when the strangers do not share any.**
In a run of the screening loop, which screens the messages it was given in order, no two
of those let in for postage carry one receipt exactly when no two messages of strangers
carry one that the verifier takes.
-/
theorem paidApart_iff (p : ScreeningPolicy) (standingOf : String → NetM Net SenderStanding)
    (verifyPostage : String → Option Amount) (messages : List Message) (s t : Net)
    (screened : List Screened)
    (h : Effect.Runs (p.screenMessages standingOf verifyPostage messages) s screened t) :
    screened.map Screened.message = messages
      ∧ (PaidApart screened ↔
        ReceiptsApart p verifyPostage (screened.map fun x => (x.message, x.standing))) := by
  obtain ⟨hmessages, hverdicts⟩ := screenMessages_runs h
  refine ⟨hmessages, ?_⟩
  rw [PaidApart, ReceiptsApart, List.pairwise_map]
  refine List.Pairwise.iff_of_mem ?_
  intro x y hx hy
  rw [hverdicts x hx, hverdicts y hy, ScreeningPolicy.screen_eq_held,
    ScreeningPolicy.screen_eq_held]
  refine ⟨?_, ?_⟩
  · intro hapart hx hy haccepts hsame
    have haccepts' : p.Accepts verifyPostage y.message.postage := by
      rw [← show x.message.postage = y.message.postage from hsame]
      exact haccepts
    exact hapart ⟨hx, haccepts⟩ ⟨hy, haccepts'⟩ hsame
  · intro hapart hx hy
    exact hapart hx.1 hy.1 hx.2

end Batch

namespace Sample

/-- A message of `sender` with postage. -/
def paid (subject : String) (signature : Nat) : Envelope where
  body := { (ping recipient.hex subject signature).body with postageReceipt := "r" }
  sig := bytes 64 signature

def paidA : Envelope := paid "a" <|
  0x1721a22f04aa77367f22733f6c2a445bdf1ef1f1fc5e39c7908e3fe56a1e2510 * 2 ^ 256 +
  0x1750163047494f8fea65af40907793e8a20229dfa799b90416cffec32e5ee502

def paidB : Envelope := paid "b" <|
  0x69046dea182ce8a0a0f6de0a7d2360f909e6efead4e0c61f88b243fe8f1ab088 * 2 ^ 256 +
  0x2d1fdf299f487aba980fc50bf67757ae26fa2e7373af80e53ca9a9b67add8709

@[reducible] def paidCrypto : Crypto := cryptoOn [
  (paidA, 0x6039334c3be4630012c64fb36edee39fa029f2a36f98c02d6c622ff43bac5b51),
  (paidB, 0xe806c7afb5f05e2a0566231a59fe48d6cc7c85df31db5827a4e18267c5a4b327)]

/-- A policy that asks strangers for one unit. -/
def policy : ScreeningPolicy := { ScreeningPolicy.new recipient.hex with minPostage := 1 }

/-- Nobody is known, and the receipt is worth two units. -/
def screenBatch : NetM Unit (List Screened) :=
  policy.screenMessages (fun _ => pure .newcomer) (fun r => if r = "r" then some 2 else none)
    [⟨paidA, [], none⟩, ⟨paidB, [], none⟩]

def screenedBatch : List Screened :=
  [⟨⟨paidA, [], none⟩, .newcomer, .inbox true⟩, ⟨⟨paidB, [], none⟩, .newcomer, .inbox true⟩]

theorem runs_screenBatch : Effect.Runs screenBatch () screenedBatch () := by
  have hverdict : ∀ e, e = paidA ∨ e = paidB → policy.screen e .newcomer
      (fun r => if r = "r" then some 2 else none) = .inbox true := by
    intro e he
    rcases he with rfl | rfl
    · decide +kernel
    · decide +kernel
  refine Effect.runs_bind.mpr ⟨.newcomer, (), rfl, Effect.runs_bind.mpr
    ⟨[⟨⟨paidB, [], none⟩, .newcomer, .inbox true⟩], (), ?_, ?_⟩⟩
  · refine Effect.runs_bind.mpr ⟨.newcomer, (), rfl, Effect.runs_bind.mpr ⟨[], (), rfl, ?_⟩⟩
    rw [hverdict _ (Or.inr rfl)]
    rfl
  · rw [hverdict _ (Or.inl rfl)]
    rfl

end Sample

/-- The theorem for two messages with one receipt. -/
theorem paidApart_iff_sample :
    PaidApart Sample.screenedBatch ↔
      ReceiptsApart Sample.policy (fun r => if r = "r" then some 2 else none)
        (Sample.screenedBatch.map fun x => (x.message, x.standing)) :=
  (paidApart_iff Sample.policy (fun _ => pure .newcomer)
    (fun r => if r = "r" then some 2 else none) [⟨Sample.paidA, [], none⟩, ⟨Sample.paidB, [], none⟩]
    () () Sample.screenedBatch Sample.runs_screenBatch).2

/-- One receipt brings two messages of a stranger into the inbox. -/
theorem one_receipt_pays_twice :
    (∀ e ∈ [Sample.paidA, Sample.paidB], @Envelope.verify Sample.paidCrypto e = .ok ())
      ∧ ([Sample.paidA, Sample.paidB].map (@Envelope.messageId Sample.paidCrypto)).Nodup
      ∧ ¬∀ screened t, Effect.Runs Sample.screenBatch () screened t → PaidApart screened := by
  refine ⟨?_, ?_, ?_⟩
  · intro e he
    rcases List.mem_pair.mp he with rfl | rfl
    · decide +kernel
    · decide +kernel
  · decide +kernel
  · intro h
    have hapart := h _ _ Sample.runs_screenBatch
    exact (List.pairwise_cons.mp hapart).1 _ (List.mem_singleton_self _) rfl rfl rfl

end CeMail
