import CeMail.Lib.Bincode

/-!
# Node ids and their spellings

A node id is a 32-byte public key. On the wire and as a map key it is a string,
and `parseNodeId` accepts more than one string for one id: the digits may be in
either case and Unicode white space around them is trimmed. `NodeId.hex` writes
the one canonical spelling, lower case and without padding.
-/

namespace CeMail

/-- An Ed25519 public key. -/
abbrev NodeId := Bytes 32

/-- An Ed25519 signature. -/
abbrev Signature := Bytes 64

/-! ## Trimming -/

/-- The Unicode property `White_Space`, as `char::is_whitespace` has it. -/
def isWhitespace (c : Char) : Bool :=
  (9 ≤ c.toNat && c.toNat ≤ 13) || c.toNat == 0x20 || c.toNat == 0x85 || c.toNat == 0xA0
    || c.toNat == 0x1680 || (0x2000 ≤ c.toNat && c.toNat ≤ 0x200A) || c.toNat == 0x2028
    || c.toNat == 0x2029 || c.toNat == 0x202F || c.toNat == 0x205F || c.toNat == 0x3000

/-- `str::trim` -/
def trim (s : String) : String :=
  .ofList ((s.toList.dropWhile isWhitespace).reverse.dropWhile isWhitespace).reverse

theorem trim_of_forall_not {s : String} (h : ∀ c ∈ s.toList, isWhitespace c = false) :
    trim s = s := by
  have hkeep : ∀ l : List Char, (∀ c ∈ l, isWhitespace c = false) →
      l.dropWhile isWhitespace = l := by
    intro l hl
    cases l with
    | nil => rfl
    | cons c l => exact List.dropWhile_cons_of_neg (by simp [hl c List.mem_cons_self])
  rw [trim, hkeep _ h, hkeep _ (fun c hc => h c (List.mem_reverse.mp hc)), List.reverse_reverse,
    String.ofList_toList]

/-- What is trimmed off the front and then off the end is white space. -/
theorem exists_trimmed (s : String) :
    ∃ rest, s.toList = s.toList.takeWhile isWhitespace ++ ((trim s).toList ++ rest)
      ∧ ∀ c ∈ rest, isWhitespace c = true := by
  have htrim : (trim s).toList
      = ((s.toList.dropWhile isWhitespace).reverse.dropWhile isWhitespace).reverse := by
    rw [trim, String.toList_ofList]
  refine ⟨((s.toList.dropWhile isWhitespace).reverse.takeWhile isWhitespace).reverse, ?_, ?_⟩
  · rw [htrim, ← List.reverse_append, List.takeWhile_append_dropWhile, List.reverse_reverse,
      List.takeWhile_append_dropWhile]
  · exact fun c hc => List.mem_takeWhile_imp (List.mem_reverse.mp hc)

/-! ## Hexadecimal -/

/-- The digit of a value below 16, in lower case. -/
def hexDigit (n : Nat) : Char := if n < 10 then .ofNat (48 + n) else .ofNat (87 + n)

/-- The value of a digit in either case. -/
def hexVal (c : Char) : Option Nat :=
  if '0' ≤ c ∧ c ≤ '9' then some (c.toNat - 48)
  else if 'a' ≤ c ∧ c ≤ 'f' then some (c.toNat - 87)
  else if 'A' ≤ c ∧ c ≤ 'F' then some (c.toNat - 55)
  else none

/-- The two digits of a byte, high half first. -/
def hexPair (b : UInt8) : List Char := [hexDigit (b.toNat / 16), hexDigit (b.toNat % 16)]

/-- `hex::encode` -/
def hexEncode (bs : List UInt8) : String := .ofList (bs.flatMap hexPair)

/-- `hex::decode` on the characters of a string: an odd count or a foreign digit is refused. -/
def hexDecode : List Char → Option (List UInt8)
  | [] => some []
  | [_] => none
  | a :: b :: cs =>
      (hexVal a).bind fun hi => (hexVal b).bind fun lo =>
        (hexDecode cs).map fun bs => UInt8.ofNat (16 * hi + lo) :: bs

theorem hexVal_hexDigit {n : Nat} (h : n < 16) : hexVal (hexDigit n) = some n := by
  have hall : ∀ k : Fin 16, hexVal (hexDigit k) = some k.val := by decide
  exact hall ⟨n, h⟩

theorem isWhitespace_hexDigit {n : Nat} (h : n < 16) : isWhitespace (hexDigit n) = false := by
  have hall : ∀ k : Fin 16, isWhitespace (hexDigit k) = false := by decide
  exact hall ⟨n, h⟩

/-- Reading back the digits of some bytes gives the bytes. -/
theorem hexDecode_flatMap (bs : List UInt8) : hexDecode (bs.flatMap hexPair) = some bs := by
  induction bs with
  | nil => rfl
  | cons b bs ih =>
    have hhi : b.toNat / 16 < 16 := by have := b.toNat_lt; omega
    have hlo : b.toNat % 16 < 16 := Nat.mod_lt _ (by omega)
    have hb : 16 * (b.toNat / 16) + b.toNat % 16 = b.toNat := Nat.div_add_mod _ _
    rw [List.flatMap_cons, hexPair]
    simp only [List.cons_append, List.nil_append, hexDecode, hexVal_hexDigit hhi,
      hexVal_hexDigit hlo, Option.bind_some, ih, Option.map_some, hb, UInt8.ofNat_toNat]

/-- Digits in pairs, two for each byte. -/
theorem digits_of_hexDecode {cs : List Char} {bs : List UInt8} (h : hexDecode cs = some bs) :
    cs.length = 2 * bs.length ∧ ∀ c ∈ cs, (hexVal c).isSome := by
  induction cs using hexDecode.induct generalizing bs with
  | case1 =>
      obtain rfl := Option.some.inj h
      exact ⟨rfl, fun _ hc => absurd hc List.not_mem_nil⟩
  | case2 c => cases h
  | case3 a b cs ih =>
      rw [hexDecode] at h
      obtain ⟨hi, ha, h⟩ := Option.bind_eq_some_iff.mp h
      obtain ⟨lo, hb, h⟩ := Option.bind_eq_some_iff.mp h
      obtain ⟨bs', hcs, rfl⟩ := Option.map_eq_some_iff.mp h
      obtain ⟨hlen, hall⟩ := ih hcs
      refine ⟨by simp only [List.length_cons, hlen]; omega, ?_⟩
      simp only [List.forall_mem_cons, ha, hb, Option.isSome_some, true_and]
      exact hall

/-! ## Parsing -/

/-- The canonical spelling of a node id, `Identity::node_id_hex`. -/
def NodeId.hex (id : NodeId) : String := hexEncode id.val

/-- Parse a 64-hex NodeId. -/
def parseNodeId (hexStr : String) : Except String NodeId :=
  match hexDecode (trim hexStr).toList with
  | none => .error "node id is not valid hex"
  | some bytes =>
      if h : bytes.length = 32 then .ok ⟨bytes, h⟩
      else .error "node id must be 32 bytes (64 hex chars)"

/-- A string parses when the digits in it are those of an id. -/
theorem parseNodeId_eq_ok {s : String} {id : NodeId} :
    parseNodeId s = .ok id ↔ hexDecode (trim s).toList = some id.val := by
  rw [parseNodeId]
  split
  · rename_i hnone
    simp [hnone]
  · rename_i bytes hbytes
    rw [hbytes, Option.some.injEq]
    split
    · rename_i hlen
      simp [Subtype.ext_iff]
    · rename_i hlen
      refine iff_of_false ?_ ?_
      · intro h
        cases h
      · intro h
        exact hlen (h ▸ id.property)

/-- **The canonical spelling of an id parses to that id.** -/
@[simp] theorem parseNodeId_hex (id : NodeId) : parseNodeId id.hex = .ok id := by
  -- no digit is white space, so there is nothing to trim
  have htrim : trim id.hex = id.hex := by
    refine trim_of_forall_not ?_
    intro c hc
    rw [NodeId.hex, hexEncode, String.toList_ofList] at hc
    obtain ⟨b, -, hc⟩ := List.mem_flatMap.mp hc
    have hb := b.toNat_lt
    simp only [hexPair, List.mem_cons, List.not_mem_nil, or_false] at hc
    rcases hc with rfl | rfl
    · exact isWhitespace_hexDigit (by omega)
    · exact isWhitespace_hexDigit (by omega)
  have hdec : hexDecode (trim id.hex).toList = some id.val := by
    rw [htrim, NodeId.hex, hexEncode, String.toList_ofList, hexDecode_flatMap]
  exact parseNodeId_eq_ok.mpr hdec

end CeMail
