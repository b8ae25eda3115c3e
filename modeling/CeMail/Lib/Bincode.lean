import Mathlib

/-!
# The bincode wire format

The default configuration of bincode 1.3: integers are little endian with a fixed
width, a sequence or a string is its length as a `u64` and then its contents, a
tuple or a record is its fields one after the other with nothing between them, and
bytes left over after a value are not an error.

A type with a wire form carries two laws. `dec_enc` says a value is read back from
its own bytes and the rest of the input is left alone; `dec_mono` says that what a
reader makes of some bytes does not depend on the bytes that follow. The first
holds only where every length is representable, which is what `Fits` says. A list
in the model can be of any length, a sequence in memory cannot.
-/

/-- Exactly `n` bytes. -/
abbrev Bytes (n : Nat) := { l : List UInt8 // l.length = n }

/-- A type with a bincode wire form. -/
class Bincode (α : Type) where
  /-- The bytes of a value. -/
  enc : α → List UInt8
  /-- Read a value off the front of some bytes. -/
  dec : List UInt8 → Option (α × List UInt8)
  /-- Every length in the value is a `u64`. -/
  Fits : α → Prop
  dec_enc : ∀ x, Fits x → ∀ rest, dec (enc x ++ rest) = some (x, rest)
  dec_mono : ∀ {bs x rest}, dec bs = some (x, rest) →
    ∀ more, dec (bs ++ more) = some (x, rest ++ more)

namespace Bincode

variable {α β : Type}

/-! ## Fixed-width integers -/

/-- The low `w` bytes of `n`, least significant first. -/
def leBytes : Nat → Nat → List UInt8
  | 0, _ => []
  | w + 1, n => UInt8.ofNat n :: leBytes w (n / 256)

/-- The number some bytes denote, least significant first. -/
def ofLE : List UInt8 → Nat
  | [] => 0
  | b :: bs => b.toNat + 256 * ofLE bs

@[simp] theorem length_leBytes (w n : Nat) : (leBytes w n).length = w := by
  induction w generalizing n with
  | zero => rfl
  | succ w ih => simp [leBytes, ih]

theorem leBytes_add (v w n : Nat) :
    leBytes (v + w) n = leBytes v n ++ leBytes w (n / 256 ^ v) := by
  induction v generalizing n with
  | zero => simp [leBytes]
  | succ v ih =>
    rw [Nat.succ_add, leBytes, leBytes, ih, Nat.div_div_eq_div_mul, ← Nat.pow_succ']
    rfl

theorem ofLE_leBytes (w n : Nat) (h : n < 256 ^ w) : ofLE (leBytes w n) = n := by
  induction w generalizing n with
  | zero => simpa [leBytes, ofLE] using (Nat.lt_one_iff.mp h).symm
  | succ w ih =>
    have hlt : n / 256 < 256 ^ w := Nat.div_lt_of_lt_mul (by rw [← Nat.pow_succ']; exact h)
    rw [leBytes, ofLE, ih _ hlt, UInt8.toNat_ofNat']
    omega

/-- Split off exactly `n` bytes. -/
def takeBytes (n : Nat) (bs : List UInt8) : Option (Bytes n × List UInt8) :=
  if h : n ≤ bs.length then some (⟨bs.take n, List.length_take_of_le h⟩, bs.drop n) else none

theorem takeBytes_append {n : Nat} (l : Bytes n) (rest : List UInt8) :
    takeBytes n (l.val ++ rest) = some (l, rest) := by
  obtain ⟨l, rfl⟩ := l
  simp [takeBytes]

theorem takeBytes_mono {n : Nat} {bs rest : List UInt8} {l : Bytes n}
    (h : takeBytes n bs = some (l, rest)) (more : List UInt8) :
    takeBytes n (bs ++ more) = some (l, rest ++ more) := by
  unfold takeBytes at h
  split at h
  · rename_i hn
    obtain ⟨rfl, rfl⟩ := Prod.mk.inj (Option.some.inj h)
    have happ : bs ++ more = bs.take n ++ (bs.drop n ++ more) := by
      rw [← List.append_assoc, List.take_append_drop]
    rw [happ]
    exact takeBytes_append ⟨bs.take n, List.length_take_of_le hn⟩ _
  · exact absurd h (by simp)

/-- Raw bytes, with no length in front: a fixed-size array. -/
instance instBytes (n : Nat) : Bincode (Bytes n) where
  enc l := l.val
  dec := takeBytes n
  Fits _ := True
  dec_enc l _ rest := takeBytes_append l rest
  dec_mono h more := takeBytes_mono h more

/--
**Transport along an encoding.** `α` is written as the `β` it maps to, and a `β`
that is nobody's image is refused when read.
-/
@[reducible] def via [Bincode β] (f : α → β) (g : β → Option α) (hgf : ∀ x, g (f x) = some x) :
    Bincode α where
  enc x := enc (f x)
  dec bs := (dec bs).bind fun (y, rest) => (g y).map fun x => (x, rest)
  Fits x := Fits (f x)
  dec_enc x hx rest := by simp [dec_enc (f x) hx rest, hgf]
  dec_mono {bs x rest} h more := by
    obtain ⟨⟨y, r⟩, hy, hx⟩ := Option.bind_eq_some_iff.mp h
    obtain ⟨x', hx', heq⟩ := Option.map_eq_some_iff.mp hx
    obtain ⟨rfl, rfl⟩ := Prod.mk.inj heq
    simp [dec_mono hy more, hx']

instance : Bincode UInt8 :=
  via (fun b => (⟨[b], rfl⟩ : Bytes 1)) (fun l => l.val.head?) (fun _ => rfl)

instance : Bincode UInt32 :=
  via (fun n => (⟨leBytes 4 n.toNat, length_leBytes 4 _⟩ : Bytes 4))
    (fun l => some (UInt32.ofNat (ofLE l.val)))
    (fun n => by rw [ofLE_leBytes 4 _ n.toNat_lt, UInt32.ofNat_toNat])

instance : Bincode UInt64 :=
  via (fun n => (⟨leBytes 8 n.toNat, length_leBytes 8 _⟩ : Bytes 8))
    (fun l => some (UInt64.ofNat (ofLE l.val)))
    (fun n => by rw [ofLE_leBytes 8 _ n.toNat_lt, UInt64.ofNat_toNat])

/-! ## Tuples -/

instance [Bincode α] [Bincode β] : Bincode (α × β) where
  enc p := enc p.1 ++ enc p.2
  dec bs := (dec bs).bind fun (x, rest) => (dec rest).map fun (y, rest) => ((x, y), rest)
  Fits p := Fits p.1 ∧ Fits p.2
  dec_enc p hp rest := by
    rw [List.append_assoc, dec_enc p.1 hp.1]
    simp [dec_enc p.2 hp.2]
  dec_mono {bs p rest} h more := by
    obtain ⟨⟨x, r⟩, hx, hy⟩ := Option.bind_eq_some_iff.mp h
    obtain ⟨⟨y, r'⟩, hy', heq⟩ := Option.map_eq_some_iff.mp hy
    obtain ⟨rfl, rfl⟩ := Prod.mk.inj heq
    simp [dec_mono hx more, dec_mono hy' more]

/-! ## Sequences and strings -/

/-- Read `n` values one after the other. -/
def decMany [Bincode α] : Nat → List UInt8 → Option (List α × List UInt8)
  | 0, bs => some ([], bs)
  | n + 1, bs =>
      (dec bs).bind fun (x, rest) => (decMany n rest).map fun (xs, rest) => (x :: xs, rest)

theorem decMany_flatMap [Bincode α] (xs : List α) (hx : ∀ x ∈ xs, Fits x) (rest : List UInt8) :
    decMany xs.length (xs.flatMap enc ++ rest) = some (xs, rest) := by
  induction xs with
  | nil => rfl
  | cons x xs ih =>
    have htail := ih fun y hy => hx y (List.mem_cons_of_mem _ hy)
    rw [List.flatMap_cons, List.append_assoc, List.length_cons, decMany,
      dec_enc x (hx x List.mem_cons_self)]
    simp [htail]

theorem decMany_mono [Bincode α] {n : Nat} {bs rest : List UInt8} {xs : List α}
    (h : decMany n bs = some (xs, rest)) (more : List UInt8) :
    decMany n (bs ++ more) = some (xs, rest ++ more) := by
  induction n generalizing bs xs with
  | zero =>
      obtain ⟨rfl, rfl⟩ := Prod.mk.inj (Option.some.inj h)
      rfl
  | succ n ih =>
      obtain ⟨⟨x, r⟩, hx, htail⟩ := Option.bind_eq_some_iff.mp h
      obtain ⟨⟨ys, r'⟩, hys, heq⟩ := Option.map_eq_some_iff.mp htail
      obtain ⟨rfl, rfl⟩ := Prod.mk.inj heq
      simp [decMany, dec_mono hx more, ih hys]

instance [Bincode α] : Bincode (List α) where
  enc xs := enc (UInt64.ofNat xs.length) ++ xs.flatMap enc
  dec bs := (dec bs).bind fun ((n : UInt64), rest) => decMany n.toNat rest
  Fits xs := xs.length < 2 ^ 64 ∧ ∀ x ∈ xs, Fits x
  dec_enc xs hxs rest := by
    rw [List.append_assoc, dec_enc (UInt64.ofNat xs.length) trivial]
    have hlen : (UInt64.ofNat xs.length).toNat = xs.length := UInt64.toNat_ofNat_of_lt' hxs.1
    simp only [Option.bind_some, hlen]
    exact decMany_flatMap xs hxs.2 rest
  dec_mono {bs xs rest} h more := by
    obtain ⟨⟨n, r⟩, hn, hxs⟩ := Option.bind_eq_some_iff.mp h
    simp only [dec_mono hn more, Option.bind_some]
    exact decMany_mono hxs more

/-- A string is the sequence of its UTF-8 bytes; other bytes are refused. -/
instance : Bincode String :=
  via (fun s => s.toUTF8.data.toList) (fun bs => String.fromUTF8? ⟨bs.toArray⟩) (fun s => by
    have hvalid : s.toUTF8.IsValidUTF8 := s.isValidUTF8
    simp only [String.fromUTF8?, Array.toArray_toList]
    exact dif_pos hvalid)

theorem fits_string {s : String} (h : s.utf8ByteSize < 2 ^ 64) : Fits s :=
  ⟨by rw [Array.length_toList]; exact h, fun _ _ => trivial⟩

/-! ## Variants -/

/-- A flag is one byte, 0 or 1. -/
instance : Bincode Bool :=
  via (fun b => if b then (1 : UInt8) else 0)
    (fun n => if n = 0 then some false else if n = 1 then some true else none)
    (fun b => by cases b <;> rfl)

/-- A value whose type depends on what was written before it: a variant and its fields. -/
instance {F : α → Type} [Bincode α] [∀ i, Bincode (F i)] : Bincode (Σ i, F i) where
  enc p := enc p.1 ++ enc p.2
  dec bs := (dec bs).bind fun (i, rest) => (dec rest).map fun ((x : F i), rest) => (⟨i, x⟩, rest)
  Fits p := Fits p.1 ∧ Fits p.2
  dec_enc p hp rest := by
    rw [List.append_assoc, dec_enc p.1 hp.1]
    simp [dec_enc p.2 hp.2]
  dec_mono {bs p rest} h more := by
    obtain ⟨⟨i, r⟩, hi, hx⟩ := Option.bind_eq_some_iff.mp h
    obtain ⟨⟨x, r'⟩, hx', heq⟩ := Option.map_eq_some_iff.mp hx
    obtain ⟨rfl, rfl⟩ := Prod.mk.inj heq
    simp [dec_mono hi more, dec_mono hx' more]

/-! ## Codes -/

section Code

variable [Bincode α] {x y : α}

theorem dec_enc_self (h : Fits x) : dec (enc x) = some (x, []) := by
  have := dec_enc x h []
  rwa [List.append_nil] at this

/-- **Different values have different bytes.** -/
theorem enc_inj (hx : Fits x) (hy : Fits y) (h : enc x = enc y) : x = y := by
  have hdec := dec_enc_self hx
  rw [h, dec_enc_self hy] at hdec
  exact (Prod.mk.inj (Option.some.inj hdec)).1.symm

/-- **No proper start of a value's bytes is read**, because reading it would leave the rest. -/
theorem dec_proper_start (hx : Fits x) {bs : List UInt8} (h : bs <+: enc x) (hne : bs ≠ enc x) :
    dec (α := α) bs = none := by
  obtain ⟨more, hmore⟩ := h
  cases hdec : dec (α := α) bs with
  | none => rfl
  | some p =>
      exfalso
      have hall := dec_mono hdec more
      rw [hmore, dec_enc_self hx] at hall
      have hrest := (Prod.mk.inj (Option.some.inj hall)).2
      rw [(List.append_eq_nil_iff.mp hrest.symm).2, List.append_nil] at hmore
      exact hne hmore

/-- `bincode::deserialize`: the value at the front. What is left over is not an error. -/
def deserialize (error : String) (bytes : List UInt8) : Except String α :=
  match dec bytes with
  | some (x, _) => .ok x
  | none => .error error

/-- A reader takes back what a writer wrote, followed by anything, and takes no less of it. -/
structure RoundTrips (encode : α → List UInt8) (decode : List UInt8 → Except String α) (x : α) :
    Prop where
  append : ∀ more, decode (encode x ++ more) = .ok x
  start : ∀ bs, bs <+: encode x → bs ≠ encode x → ∃ message, decode bs = .error message

/-- **Every codec round-trips** where every length fits. -/
theorem roundTrips (hx : Fits x) (error : String) : RoundTrips enc (deserialize error) x where
  append more := by rw [deserialize, dec_enc x hx]
  start bs hbs hne := ⟨error, by rw [deserialize, dec_proper_start hx hbs hne]⟩

end Code

/-! ## One wire form -/

/--
A type whose values have one wire form each, of at least a byte: what is read from some
bytes is what those bytes are the encoding of. So what was read is no longer than the
bytes it was read from, and a value with a short encoding has no long parts.
-/
class Canonical (α : Type) [Bincode α] : Prop where
  exact : ∀ {bs rest} {x : α}, dec bs = some (x, rest) → bs = enc x ++ rest
  pos : ∀ x : α, 0 < (enc x).length
  fits : ∀ x : α, (enc x).length < 2 ^ 64 → Fits x

theorem leBytes_ofLE (l : List UInt8) : leBytes l.length (ofLE l) = l := by
  induction l with
  | nil => rfl
  | cons b l ih =>
    have hb := b.toNat_lt
    have hlow : UInt8.ofNat (b.toNat + 256 * ofLE l) = b := by
      refine UInt8.toNat_inj.mp ?_
      rw [UInt8.toNat_ofNat']
      omega
    have hrest : (b.toNat + 256 * ofLE l) / 256 = ofLE l := by omega
    rw [List.length_cons, ofLE, leBytes, hlow, hrest, ih]

theorem ofLE_lt (l : List UInt8) : ofLE l < 256 ^ l.length := by
  induction l with
  | nil => exact Nat.one_pos
  | cons b l ih =>
    have hb := b.toNat_lt
    rw [List.length_cons, Nat.pow_succ', ofLE]
    omega

/-- The last byte is the one that counts most. -/
theorem ofLE_concat (l : List UInt8) (b : UInt8) :
    ofLE (l ++ [b]) = ofLE l + 256 ^ l.length * b.toNat := by
  induction l with
  | nil => simp [ofLE]
  | cons a l ih =>
    rw [List.cons_append, ofLE, ofLE, ih, List.length_cons, Nat.pow_succ']
    ring

instance (n : Nat) [NeZero n] : Canonical (Bytes n) where
  exact {bs rest x} h := by
    change takeBytes n bs = some (x, rest) at h
    unfold takeBytes at h
    split at h
    · obtain ⟨rfl, rfl⟩ := Prod.mk.inj (Option.some.inj h)
      exact (List.take_append_drop n bs).symm
    · exact absurd h (by simp)
  pos x := by
    show 0 < x.val.length
    rw [x.property]
    exact Nat.pos_of_neZero n
  fits _ _ := trivial

/-- Transport, where everything that is read is the image of what it is read as. -/
theorem Canonical.via [Bincode β] [Canonical β] {f : α → β} {g : β → Option α}
    {hgf : ∀ x, g (f x) = some x} (hfg : ∀ y x, g y = some x → f x = y) :
    @Canonical α (Bincode.via f g hgf) := by
  let _ : Bincode α := Bincode.via f g hgf
  refine ⟨fun {bs rest x} h => ?_, fun x => Canonical.pos (f x), fun x => Canonical.fits (f x)⟩
  obtain ⟨⟨y, r⟩, hy, hx⟩ := Option.bind_eq_some_iff.mp h
  obtain ⟨x', hx', heq⟩ := Option.map_eq_some_iff.mp hx
  obtain ⟨rfl, rfl⟩ := Prod.mk.inj heq
  show bs = enc (f x') ++ r
  rw [hfg y x' hx']
  exact Canonical.exact hy

instance : Canonical UInt8 := by
  unfold instUInt8
  refine Canonical.via ?_
  intro y x h
  rcases y with ⟨l, hl⟩
  obtain ⟨b, rfl⟩ := List.length_eq_one_iff.mp hl
  cases h
  rfl

instance : Canonical UInt32 := by
  unfold instUInt32
  refine Canonical.via ?_
  intro y x h
  rcases y with ⟨l, hl⟩
  obtain rfl := Option.some.inj h
  have hlt : ofLE l < 2 ^ 32 := by
    have := ofLE_lt l
    rwa [hl] at this
  refine Subtype.ext ?_
  show leBytes 4 (UInt32.ofNat (ofLE l)).toNat = l
  rw [UInt32.toNat_ofNat_of_lt' hlt, ← hl, leBytes_ofLE]

instance : Canonical UInt64 := by
  unfold instUInt64
  refine Canonical.via ?_
  intro y x h
  rcases y with ⟨l, hl⟩
  obtain rfl := Option.some.inj h
  have hlt : ofLE l < 2 ^ 64 := by
    have := ofLE_lt l
    rwa [hl] at this
  refine Subtype.ext ?_
  show leBytes 8 (UInt64.ofNat (ofLE l)).toNat = l
  rw [UInt64.toNat_ofNat_of_lt' hlt, ← hl, leBytes_ofLE]

instance : Canonical Bool := by
  unfold instBool
  refine Canonical.via ?_
  intro y x h
  by_cases h0 : y = 0
  · subst h0
    cases h
    rfl
  · rw [if_neg h0] at h
    obtain ⟨rfl, hx⟩ := Option.ite_none_right_eq_some.mp h
    cases hx
    rfl

instance [Bincode α] [Bincode β] [Canonical α] [Canonical β] : Canonical (α × β) where
  exact {bs rest p} h := by
    obtain ⟨⟨x, r⟩, hx, hy⟩ := Option.bind_eq_some_iff.mp h
    obtain ⟨⟨y, r'⟩, hy', heq⟩ := Option.map_eq_some_iff.mp hy
    obtain ⟨rfl, rfl⟩ := Prod.mk.inj heq
    rw [Canonical.exact hx, Canonical.exact hy']
    exact (List.append_assoc _ _ _).symm
  pos p := by
    show 0 < (enc p.1 ++ enc p.2).length
    rw [List.length_append]
    exact Nat.add_pos_left (Canonical.pos p.1) _
  fits p h := by
    change (enc p.1 ++ enc p.2).length < 2 ^ 64 at h
    rw [List.length_append] at h
    exact ⟨Canonical.fits p.1 (by omega), Canonical.fits p.2 (by omega)⟩

instance {F : α → Type} [Bincode α] [∀ i, Bincode (F i)] [Canonical α] [∀ i, Canonical (F i)] :
    Canonical (Σ i, F i) where
  exact {bs rest p} h := by
    obtain ⟨⟨i, r⟩, hi, hx⟩ := Option.bind_eq_some_iff.mp h
    obtain ⟨⟨x, r'⟩, hx', heq⟩ := Option.map_eq_some_iff.mp hx
    obtain ⟨rfl, rfl⟩ := Prod.mk.inj heq
    rw [Canonical.exact hi, Canonical.exact hx']
    exact (List.append_assoc _ _ _).symm
  pos p := by
    show 0 < (enc p.1 ++ enc p.2).length
    rw [List.length_append]
    exact Nat.add_pos_left (Canonical.pos p.1) _
  fits p h := by
    change (enc p.1 ++ enc p.2).length < 2 ^ 64 at h
    rw [List.length_append] at h
    exact ⟨Canonical.fits p.1 (by omega), Canonical.fits p.2 (by omega)⟩

theorem exact_decMany [Bincode α] [Canonical α] {n : Nat} {bs rest : List UInt8} {xs : List α}
    (h : decMany n bs = some (xs, rest)) : xs.length = n ∧ bs = xs.flatMap enc ++ rest := by
  induction n generalizing bs xs with
  | zero =>
      obtain ⟨rfl, rfl⟩ := Prod.mk.inj (Option.some.inj h)
      exact ⟨rfl, rfl⟩
  | succ n ih =>
      obtain ⟨⟨x, r⟩, hx, htail⟩ := Option.bind_eq_some_iff.mp h
      obtain ⟨⟨ys, r'⟩, hys, heq⟩ := Option.map_eq_some_iff.mp htail
      obtain ⟨rfl, rfl⟩ := Prod.mk.inj heq
      obtain ⟨hlen, hr⟩ := ih hys
      refine ⟨by rw [List.length_cons, hlen], ?_⟩
      rw [Canonical.exact hx, List.flatMap_cons, List.append_assoc, ← hr]

/-- Every element takes at least a byte. -/
theorem length_le_length_flatMap [Bincode α] [Canonical α] (xs : List α) :
    xs.length ≤ (xs.flatMap enc).length := by
  induction xs with
  | nil => exact Nat.le_refl 0
  | cons x xs ih =>
    have hx := Canonical.pos x
    rw [List.flatMap_cons, List.length_append, List.length_cons]
    omega

theorem length_enc_le_of_mem [Bincode α] {x : α} {xs : List α} (h : x ∈ xs) :
    (enc x).length ≤ (xs.flatMap enc).length := by
  obtain ⟨ys, zs, rfl⟩ := List.append_of_mem h
  rw [List.flatMap_append, List.flatMap_cons, List.length_append, List.length_append]
  omega

theorem enc_list [Bincode α] {xs : List α} (h : xs.length < 2 ^ 64) :
    enc xs = leBytes 8 xs.length ++ xs.flatMap enc := by
  show leBytes 8 (UInt64.ofNat xs.length).toNat ++ xs.flatMap enc = _
  rw [UInt64.toNat_ofNat_of_lt' h]

theorem length_enc_list [Bincode α] (xs : List α) :
    (enc xs).length = 8 + (xs.flatMap enc).length := by
  show (enc (UInt64.ofNat xs.length) ++ xs.flatMap enc).length = _
  rw [List.length_append]
  exact congrArg (· + _) (length_leBytes 8 _)

instance [Bincode α] [Canonical α] : Canonical (List α) where
  exact {bs rest xs} h := by
    obtain ⟨⟨n, r⟩, hn, hxs⟩ := Option.bind_eq_some_iff.mp h
    obtain ⟨hlen, hr⟩ := exact_decMany hxs
    show bs = (enc (UInt64.ofNat xs.length) ++ xs.flatMap enc) ++ rest
    rw [hlen, UInt64.ofNat_toNat, List.append_assoc, ← hr]
    exact Canonical.exact hn
  pos xs := by
    rw [length_enc_list]
    omega
  fits xs h := by
    rw [length_enc_list] at h
    have hlen := length_le_length_flatMap xs
    refine ⟨by omega, fun x hx => Canonical.fits x ?_⟩
    have := length_enc_le_of_mem hx
    omega

instance : Canonical String := by
  unfold instString
  refine Canonical.via ?_
  intro bs s h
  unfold String.fromUTF8? at h
  split at h
  · obtain rfl := Option.some.inj h
    rfl
  · exact absurd h (by simp)

end Bincode
