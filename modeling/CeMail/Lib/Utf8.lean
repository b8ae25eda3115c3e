import Mathlib

/-!
# Text out of bytes that may not be text

Bytes are read as UTF-8 with a replacement character for each part that is not. Such a
part is as much of the start of a character as there is before a byte that cannot go on
with it. The bytes are taken one at a time, and what is kept between two of them is the
character begun.

The UTF-8 of a text is read as that text.
-/

namespace Utf8

/-- U+FFFD -/
def replacement : Char := Char.ofNat 0xFFFD

/-- The start of a character. -/
structure Begun where
  /-- The bits so far. -/
  bits : Nat
  /-- How many bytes are to come after the next one. -/
  more : Nat
  /-- The least and the greatest the next byte may be. -/
  low : Nat
  high : Nat
deriving DecidableEq

/--
What a byte is where a character can begin: the whole of one, the start of one, or no
part of any. The bounds keep out what has a shorter encoding, the surrogates, and what is
beyond the last code point.
-/
def first (byte : UInt8) : List Char × Option Begun :=
  let b := byte.toNat
  if b < 0x80 then ([Char.ofNat b], none)
  else if 0xC2 ≤ b ∧ b ≤ 0xDF then ([], some ⟨b - 0xC0, 0, 0x80, 0xBF⟩)
  else if 0xE0 ≤ b ∧ b ≤ 0xEF then
    ([], some ⟨b - 0xE0, 1, if b = 0xE0 then 0xA0 else 0x80, if b = 0xED then 0x9F else 0xBF⟩)
  else if 0xF0 ≤ b ∧ b ≤ 0xF4 then
    ([], some ⟨b - 0xF0, 2, if b = 0xF0 then 0x90 else 0x80, if b = 0xF4 then 0x8F else 0xBF⟩)
  else ([replacement], none)

/-- A byte after what has begun: the characters it completes, and what is begun then. -/
def next (begun : Option Begun) (byte : UInt8) : List Char × Option Begun :=
  match begun with
  | none => first byte
  | some p =>
      if p.low ≤ byte.toNat ∧ byte.toNat ≤ p.high then
        let bits := p.bits * 64 + byte.toNat % 64
        match p.more with
        | 0 => ([Char.ofNat bits], none)
        | n + 1 => ([], some ⟨bits, n, 0x80, 0xBF⟩)
      else (replacement :: (first byte).1, (first byte).2)

def lossyFrom : Option Begun → List UInt8 → List Char
  | none, [] => []
  | some _, [] => [replacement]
  | begun, byte :: bytes => (next begun byte).1 ++ lossyFrom (next begun byte).2 bytes

/-- The text of some bytes, with replacements where there is none. -/
def lossy (bytes : List UInt8) : String := .ofList (lossyFrom none bytes)

-- three bytes of a character that needs four are one part, and a byte that begins none another
example : lossyFrom none [0x61, 0xF0, 0x9F, 0x92, 0xFF, 0x62]
    = ['a', replacement, replacement, 'b'] := by decide

/-! ## Text is read as itself -/

theorem first_ascii : ∀ n < 0x80, first (.ofNat n) = ([Char.ofNat n], none) := by decide

theorem first_two : ∀ n < 0x20, 2 ≤ n →
    first (.ofNat (n + 0xC0)) = ([], some ⟨n, 0, 0x80, 0xBF⟩) := by decide

theorem first_three : ∀ n < 0x10,
    first (.ofNat (n + 0xE0))
      = ([], some ⟨n, 1, if n = 0 then 0xA0 else 0x80, if n = 13 then 0x9F else 0xBF⟩) := by
  decide

theorem first_four : ∀ n < 5,
    first (.ofNat (n + 0xF0))
      = ([], some ⟨n, 2, if n = 0 then 0x90 else 0x80, if n = 4 then 0x8F else 0xBF⟩) := by
  decide

/-- A byte within the bounds goes on with the character. -/
theorem next_some {bits more low high n : Nat} (hn : n < 64) (hlow : low ≤ n + 0x80)
    (hhigh : n + 0x80 ≤ high) :
    next (some ⟨bits, more, low, high⟩) (.ofNat (n + 0x80))
      = match more with
        | 0 => ([Char.ofNat (bits * 64 + n)], none)
        | more + 1 => ([], some ⟨bits * 64 + n, more, 0x80, 0xBF⟩) := by
  have hbyte : (UInt8.ofNat (n + 0x80)).toNat = n + 0x80 := by
    rw [UInt8.toNat_ofNat']
    omega
  have hbits : (n + 0x80) % 64 = n := by omega
  simp only [next, hbyte, hbits, if_pos (And.intro hlow hhigh)]

/-- The encoding of a character is read as that character, whatever comes after it. -/
theorem lossyFrom_utf8EncodeChar (c : Char) (bytes : List UInt8) :
    lossyFrom none (String.utf8EncodeChar c ++ bytes) = c :: lossyFrom none bytes := by
  have hvalid : c.val.toNat < 0xD800 ∨ 0xDFFF < c.val.toNat ∧ c.val.toNat < 0x110000 := c.valid
  have hc : Char.ofNat c.val.toNat = c := Char.ofNat_toNat c
  unfold String.utf8EncodeChar
  generalize c.val.toNat = v at hvalid hc
  -- as many bytes as the code point needs
  dsimp only
  split_ifs with h1 h2 h3
  · rw [List.singleton_append, lossyFrom, next, first_ascii v (by omega), hc]
    rfl
  · have hbits : v / 64 % 0x20 * 64 + v % 0x40 = v := by omega
    simp only [List.cons_append, List.nil_append, lossyFrom]
    rw [next, first_two _ (by omega) (by omega)]
    rw [next_some (by omega) (by omega) (by omega), hbits, hc]
    rfl
  · have hbits : (v / 4096 % 0x10 * 64 + v / 64 % 0x40) * 64 + v % 0x40 = v := by omega
    simp only [List.cons_append, List.nil_append, lossyFrom]
    rw [next, first_three _ (by omega)]
    rw [next_some (by omega) (by split_ifs <;> omega) (by split_ifs <;> omega)]
    rw [next_some (by omega) (by omega) (by omega), hbits, hc]
    rfl
  · have hbits : ((v / 262144 % 0x08 * 64 + v / 4096 % 0x40) * 64 + v / 64 % 0x40) * 64 + v % 0x40
        = v := by omega
    simp only [List.cons_append, List.nil_append, lossyFrom]
    rw [next, first_four _ (by omega)]
    rw [next_some (by omega) (by split_ifs <;> omega) (by split_ifs <;> omega)]
    rw [next_some (by omega) (by omega) (by omega)]
    rw [next_some (by omega) (by omega) (by omega), hbits, hc]
    rfl

theorem lossyFrom_flatMap (cs : List Char) :
    lossyFrom none (cs.flatMap String.utf8EncodeChar) = cs := by
  induction cs with
  | nil => rfl
  | cons c cs ih => rw [List.flatMap_cons, lossyFrom_utf8EncodeChar, ih]

/-- The UTF-8 of a text is that of its characters. -/
theorem toUTF8_toList (s : String) :
    s.toUTF8.data.toList = s.toList.flatMap String.utf8EncodeChar := by
  conv_lhs => rw [← String.ofList_toList (s := s)]
  rw [String.toUTF8_eq_toByteArray, String.toByteArray_ofList]
  exact List.toList_data_toByteArray

/-- **The UTF-8 of a text is read as the text.** -/
theorem lossy_toUTF8 (s : String) : lossy s.toUTF8.data.toList = s := by
  rw [lossy, toUTF8_toList, lossyFrom_flatMap, String.ofList_toList]

/-! ## Cutting at a byte -/

/-- How many bytes some characters take. -/
def byteLen (cs : List Char) : Nat := (cs.map Char.utf8Size).sum

/-- What stands in front of byte `n`, if no character reaches across it. -/
def front : List Char → Nat → Option (List Char)
  | _, 0 => some []
  | [], _ + 1 => none
  | c :: cs, n + 1 =>
      if c.utf8Size ≤ n + 1 then (front cs (n + 1 - c.utf8Size)).map (c :: ·) else none

/-- What stands behind byte `n`, if no character reaches across it. -/
def back (cs : List Char) (n : Nat) : Option (List Char) :=
  (front cs n).map fun ds => cs.drop ds.length

/-- The byte at which a character stands first. -/
def find (c : Char) (cs : List Char) : Option Nat :=
  (cs.idxOf? c).map fun i => byteLen (cs.take i)

@[simp] theorem byteLen_nil : byteLen [] = 0 := rfl

@[simp] theorem byteLen_cons (c : Char) (cs : List Char) :
    byteLen (c :: cs) = c.utf8Size + byteLen cs := by
  simp [byteLen]

theorem byteLen_append (cs ds : List Char) : byteLen (cs ++ ds) = byteLen cs + byteLen ds := by
  simp [byteLen]

theorem byteLen_toList (s : String) : byteLen s.toList = s.utf8ByteSize := by
  have hlen := congrArg List.length (toUTF8_toList s)
  rw [List.length_flatMap] at hlen
  simp only [String.length_utf8EncodeChar] at hlen
  exact hlen.symm

/-- Characters of one byte each. -/
theorem byteLen_of_ascii {cs : List Char} (h : ∀ c ∈ cs, c.utf8Size = 1) :
    byteLen cs = cs.length := by
  rw [byteLen, List.map_congr_left h, List.map_const', List.sum_replicate, smul_eq_mul, mul_one]

theorem byteLen_eq_zero {cs : List Char} : byteLen cs = 0 ↔ cs = [] := by
  cases cs with
  | nil => simp
  | cons c cs => simp [c.utf8Size_pos.ne']

/-- **A text is cut where some of its characters end.** -/
theorem front_eq_some {cs ds : List Char} {n : Nat} :
    front cs n = some ds ↔ ds <+: cs ∧ byteLen ds = n := by
  induction cs generalizing n ds with
  | nil =>
      cases n with
      | zero =>
          simp only [front, Option.some.injEq, byteLen_eq_zero]
          exact ⟨fun h => ⟨h ▸ List.nil_prefix, h.symm⟩, fun h => h.2.symm⟩
      | succ n =>
          simp only [front, reduceCtorEq, List.prefix_nil, false_iff]
          intro h
          obtain ⟨rfl, hlen⟩ := h
          cases hlen
  | cons c cs ih =>
      cases n with
      | zero =>
          simp only [front, Option.some.injEq, byteLen_eq_zero]
          exact ⟨fun h => ⟨h ▸ List.nil_prefix, h.symm⟩, fun h => h.2.symm⟩
      | succ n =>
          rw [front]
          cases ds with
          | nil => simp
          | cons d ds =>
              rw [List.cons_prefix_cons, byteLen_cons, Option.ite_none_right_eq_some,
                Option.map_eq_some_iff]
              refine ⟨?_, ?_⟩
              · intro h
                obtain ⟨hle, ds', hds, heq⟩ := h
                obtain ⟨rfl, rfl⟩ := List.cons.inj heq
                obtain ⟨hstart, hlen⟩ := ih.mp hds
                exact ⟨⟨rfl, hstart⟩, by omega⟩
              · intro h
                obtain ⟨⟨rfl, hstart⟩, hlen⟩ := h
                exact ⟨by omega, ds, ih.mpr ⟨hstart, by omega⟩, rfl⟩

theorem front_append (cs ds : List Char) : front (cs ++ ds) (byteLen cs) = some cs :=
  front_eq_some.mpr ⟨List.prefix_append cs ds, rfl⟩

theorem back_append (cs ds : List Char) : back (cs ++ ds) (byteLen cs) = some ds := by
  rw [back, front_append, Option.map_some, List.drop_left]

/-- Among characters of one byte, every cut within the text can be made. -/
theorem front_of_ascii {cs : List Char} (h : ∀ c ∈ cs, c.utf8Size = 1) {n : Nat}
    (hn : n ≤ cs.length) : front cs n = some (cs.take n) := by
  refine front_eq_some.mpr ⟨List.take_prefix n cs, ?_⟩
  rw [byteLen_of_ascii fun c hc => h c (List.mem_of_mem_take hc), List.length_take,
    Nat.min_eq_left hn]

end Utf8
