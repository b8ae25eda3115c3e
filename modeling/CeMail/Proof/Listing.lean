import CeMail.Model.Command
import CeMail.Proof.StoreRun

/-!
# Listing an inbox

What `inbox` prints of a message is cut by bytes: the id after 16 of them and the sender's
string after 12. An id is of one-byte digits, so its cut can always be made. The sender's
string is the sender's to choose as long as it parses: 64 digits, and any white space around
them. Past the white space in front every cut can be made as well. Within it a cut can fall
into a character, since white space takes up to three bytes each.
-/

namespace CeMail

/-! ## What a spelling looks like -/

theorem utf8Size_of_hexVal {c : Char} (h : (hexVal c).isSome) : c.utf8Size = 1 := by
  have hle : c ≤ 'f' := by
    unfold hexVal at h
    split at h
    · rename_i hc
      exact le_trans hc.2 (by decide)
    · split at h
      · rename_i hc
        exact hc.2
      · split at h
        · rename_i hc
          exact le_trans hc.2 (by decide)
        · cases h
  exact Char.utf8Size_eq_one_iff.mpr (UInt32.le_trans hle (by decide))

/-- **What parses is 64 digits behind some white space**, with more white space behind them. -/
theorem spelling_of_parseNodeId {s : String} {id : NodeId} (h : parseNodeId s = .ok id) :
    ∃ digits rest, s.toList = s.toList.takeWhile isWhitespace ++ (digits ++ rest)
      ∧ digits.length = 64 ∧ ∀ c ∈ digits, c.utf8Size = 1 := by
  obtain ⟨hdigits, hall⟩ := digits_of_hexDecode (parseNodeId_eq_ok.mp h)
  obtain ⟨rest, hsplit, -⟩ := exists_trimmed s
  refine ⟨(trim s).toList, rest, hsplit, ?_, ?_⟩
  · rw [hdigits, id.property]
  · exact fun c hc => utf8Size_of_hexVal (hall c hc)

/-! ## Where it can be cut -/

/-- A step that cannot fail makes no difference to whether there is a result. -/
theorem map_answers_iff {α β ε : Type} {x : Except ε α} {f : α → β} :
    (∃ y, (x >>= fun a => .ok (f a)) = .ok y) ↔ ∃ a, x = .ok a := by
  cases x with
  | error e => simp [bind, Except.bind]
  | ok a => simp [bind, Except.bind]

theorem isOk_iff {α ε : Type} {x : Except ε α} : x.isOk = true ↔ ∃ a, x = .ok a := by
  cases x <;> simp [Except.isOk, Except.toBool]

/-- The white space in front ends within `n` bytes, or some of it takes exactly `n`. -/
def PadFits (n : Nat) (s : String) : Prop :=
  Utf8.byteLen (s.toList.takeWhile isWhitespace) ≤ n
    ∨ ∃ i, Utf8.byteLen ((s.toList.takeWhile isWhitespace).take i) = n

theorem sliceTo_answers_iff (s : String) (n : Nat) :
    (∃ t, sliceTo s n = .ok t) ↔ ∃ i, Utf8.byteLen (s.toList.take i) = n := by
  rw [sliceTo]
  refine ⟨?_, ?_⟩
  · intro h
    cases hfront : Utf8.front s.toList n with
    | none =>
        rw [hfront] at h
        obtain ⟨_, h⟩ := h
        cases h
    | some cs =>
        obtain ⟨hstart, hlen⟩ := Utf8.front_eq_some.mp hfront
        exact ⟨cs.length, by rw [← List.prefix_iff_eq_take.mp hstart, hlen]⟩
  · intro h
    obtain ⟨i, hi⟩ := h
    rw [Utf8.front_eq_some.mpr ⟨List.take_prefix i s.toList, hi⟩]
    exact ⟨_, rfl⟩

/-- **A spelling can be cut within its digits**, and where some of its padding ends. -/
theorem truncate_answers_iff {s : String} {id : NodeId} (h : parseNodeId s = .ok id) {n : Nat}
    (hn : n < 64) : (∃ t, truncate s n = .ok t) ↔ PadFits n s := by
  obtain ⟨digits, rest, hs, hdigits, hascii⟩ := spelling_of_parseNodeId h
  unfold PadFits
  generalize s.toList.takeWhile isWhitespace = pad at hs
  -- there are 64 digits, so something is always cut off
  have hlong : ¬s.utf8ByteSize ≤ n := by
    rw [← Utf8.byteLen_toList, hs, Utf8.byteLen_append, Utf8.byteLen_append,
      Utf8.byteLen_of_ascii hascii]
    omega
  rw [truncate, if_neg hlong, map_answers_iff, sliceTo_answers_iff, hs]
  refine ⟨?_, ?_⟩
  · intro h
    obtain ⟨i, hi⟩ := h
    rw [List.take_append, Utf8.byteLen_append] at hi
    by_cases hpad : i ≤ pad.length
    · rw [Nat.sub_eq_zero_of_le hpad, List.take_zero, Utf8.byteLen_nil, Nat.add_zero] at hi
      exact Or.inr ⟨i, hi⟩
    · rw [List.take_of_length_le (by omega)] at hi
      exact Or.inl (by omega)
  · intro h
    rcases h with hle | ⟨i, hi⟩
    · -- the digits behind the padding, as many as are missing
      refine ⟨pad.length + (n - Utf8.byteLen pad), ?_⟩
      have hdrop : (digits ++ rest).take (n - Utf8.byteLen pad)
          = digits.take (n - Utf8.byteLen pad) := by
        rw [List.take_append_of_le_length (by omega)]
      rw [List.take_length_add_append, hdrop, Utf8.byteLen_append,
        Utf8.byteLen_of_ascii fun c hc => hascii c (List.mem_of_mem_take hc), List.length_take]
      omega
    · refine ⟨min i pad.length, ?_⟩
      rw [List.take_append_of_le_length (Nat.min_le_right _ _), ← List.take_eq_take_min, hi]

/-! ## Whole listings -/

section Crypto

variable [Crypto]

/-- An id is cut anywhere. -/
theorem sliceTo_id (m : Message) : ∃ t, sliceTo m.id (min 16 m.id.utf8ByteSize) = .ok t := by
  have hascii : ∀ c ∈ m.id.toList, c.utf8Size = 1 := by
    intro c hc
    rw [Message.id, Envelope.messageId, messageId, hexEncode, String.toList_ofList] at hc
    obtain ⟨b, -, hc⟩ := List.mem_flatMap.mp hc
    have hb := b.toNat_lt
    simp only [hexPair, List.mem_cons, List.not_mem_nil, or_false] at hc
    rcases hc with rfl | rfl
    · exact utf8Size_of_hexVal (by rw [hexVal_hexDigit (by omega)]; rfl)
    · exact utf8Size_of_hexVal (by rw [hexVal_hexDigit (by omega)]; rfl)
  have hlen : min 16 m.id.utf8ByteSize ≤ m.id.toList.length := by
    rw [← Utf8.byteLen_toList, Utf8.byteLen_of_ascii hascii]
    exact Nat.min_le_right _ _
  rw [sliceTo, Utf8.front_of_ascii hascii hlen]
  exact ⟨_, rfl⟩

/-- A line is printed when the sender's string can be cut. -/
theorem inboxLine_answers_iff (m : Message) :
    (∃ line, inboxLine m = .ok line) ↔ ∃ t, truncate m.envelope.body.from 12 = .ok t := by
  obtain ⟨id, hid⟩ := sliceTo_id m
  rw [inboxLine, hid]
  exact map_answers_iff

/-- The sender of a message that verifies is a spelling of its id. -/
theorem inboxLine_of_verify {m : Message} (h : m.envelope.verify = .ok ()) :
    (∃ line, inboxLine m = .ok line) ↔ PadFits 12 m.envelope.body.from := by
  obtain ⟨id, hid⟩ : ∃ id, parseNodeId m.envelope.body.from = .ok id := by
    unfold Envelope.verify at h
    split at h
    · cases h
    · rename_i id hid
      exact ⟨id, hid⟩
  rw [inboxLine_answers_iff, truncate_answers_iff hid (by decide)]

omit [Crypto] in
/-- A list is worked through when each item is. -/
theorem mapM_answers_iff {α β ε : Type} {f : α → Except ε β} {xs : List α} :
    (∃ ys, xs.mapM f = .ok ys) ↔ ∀ x ∈ xs, ∃ y, f x = .ok y := by
  induction xs with
  | nil => exact iff_of_true ⟨[], rfl⟩ fun _ hx => absurd hx List.not_mem_nil
  | cons x xs ih =>
      rw [List.forall_mem_cons, ← ih, List.mapM_cons]
      cases f x with
      | error e => simp [bind, Except.bind]
      | ok y => cases xs.mapM f <;> simp [bind, Except.bind, pure, Except.pure]

/-- A list is printed when each of its lines is. -/
theorem printInbox_answers_iff (msgs : List Message) :
    (∃ lines, printInbox msgs = .ok lines) ↔ ∀ m ∈ msgs, ∃ line, inboxLine m = .ok line := by
  rw [printInbox]
  split
  · rename_i hnil
    subst hnil
    exact iff_of_true ⟨_, rfl⟩ fun _ hm => absurd hm List.not_mem_nil
  · exact mapM_answers_iff

/-- Where no line makes it panic, all is printed. -/
theorem listed_eq_self {msgs : List Message} (h : ∃ lines, printInbox msgs = .ok lines) :
    listed msgs = msgs := by
  refine List.takeWhile_eq_self_iff.mpr ?_
  intro m hm
  exact isOk_iff.mpr ((printInbox_answers_iff msgs).mp h m hm)

/-- What is printed has a line. -/
theorem inboxLine_of_listed {msgs : List Message} {m : Message} (h : m ∈ listed msgs) :
    m ∈ msgs ∧ ∃ line, inboxLine m = .ok line := by
  rw [listed] at h
  have hok := List.mem_takeWhile_imp h
  exact ⟨(List.takeWhile_sublist _).subset h, isOk_iff.mp hok⟩

/--
**Which inboxes can be listed.** Of messages that verify, whatever their senders wrote into
them, `print_inbox` gets through the list exactly when the white space in front of each
`from` ends within 12 bytes or some of it takes exactly 12.
-/
theorem printInbox_completes_iff (msgs : List Message)
    (h : ∀ m ∈ msgs, m.envelope.verify = .ok ()) :
    (∃ lines, printInbox msgs = .ok lines)
      ↔ ∀ m ∈ msgs, PadFits 12 m.envelope.body.from := by
  rw [printInbox_answers_iff]
  exact forall₂_congr fun m hm => inboxLine_of_verify (h m hm)

end Crypto

namespace Sample

/-- The ping of `first`, its sender's id behind a space and four ideographic ones. -/
def padded : Envelope where
  body := { first.body with «from» := " \u3000\u3000\u3000\u3000" ++ sender.hex }
  sig := bytes 64 <|
    0xe0fa4382d7fa559508e928f0297e87f42e5db3ca4218a4f3ef92d9bfdfaadfaa * 2 ^ 256 +
    0xa8b6a7e9c3dc44e9b12691337cd0bb293295b06bb190d67000e74f4c2feb1f01

@[reducible] def paddedCrypto : Crypto :=
  cryptoOn [(padded, 0xfd5126135afcf00a4c84bb82506bfc97d05d3a4f5ee8fbdc329d7e36435081be)]

end Sample

/-- An inbox of one ping is listed. -/
theorem printInbox_completes_iff_sample :
    ∃ lines, @printInbox Sample.crypto [⟨Sample.first, [], none⟩] = .ok lines := by
  refine (@printInbox_completes_iff Sample.crypto [⟨Sample.first, [], none⟩]
    (by decide +kernel)).mpr ?_
  intro m hm
  obtain rfl := List.mem_singleton.mp hm
  exact Or.inl (by decide +kernel)

/-- One padded ping that verifies, and the inbox it is in cannot be listed. -/
theorem padded_sender_panics :
    @Envelope.verify Sample.paddedCrypto Sample.padded = .ok ()
      ∧ (@printInbox Sample.paddedCrypto [⟨Sample.padded, [], none⟩]).map (fun _ => ())
        = .error .charBoundary := by
  decide +kernel

end CeMail
