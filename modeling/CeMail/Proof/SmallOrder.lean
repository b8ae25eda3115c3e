import CeMail.Proof.SealedBox

/-!
# Points of small order

`ecdh` reduces the clamped scalar by the order of the base point, which nobody notices
among the multiples of the base point. The curve has eight times as many points. Clamping
makes the scalar a multiple of eight, so that it takes the small part of any point to the
neutral one, and reducing takes that away again: what is left of the small part is its
multiple by the quotient, and the quotient of a clamped scalar is one of 3 to 7.
-/

namespace CeMail

/-! ## Clamped scalars -/

/-- What the clamp makes of 32 bytes, as a number. -/
theorem ofLE_clamp (h : Bytes 32) :
    ∃ a mid b, mid < 256 ^ 30
      ∧ Bincode.ofLE (clamp h).val
        = (a &&& 248 : UInt8).toNat
          + 256 * (mid + 256 ^ 30 * ((b &&& 127) ||| 64 : UInt8).toNat) := by
  obtain ⟨l, hl⟩ := h
  match l, hl with
  | a :: rest, hl =>
      obtain ⟨mid, b, rfl⟩ : ∃ mid b, rest = mid ++ [b] := by
        refine (List.eq_nil_or_concat' rest).resolve_left ?_
        intro hnil
        rw [hnil, List.length_singleton] at hl
        exact absurd hl (by decide)
      have hmid : mid.length = 30 := by
        simpa using hl
      refine ⟨a, Bincode.ofLE mid, b, ?_, ?_⟩
      · rw [← hmid]
        exact Bincode.ofLE_lt mid
      · have hlast : (mid ++ [b]).modify 30 (fun b => (b &&& 127) ||| 64)
            = mid ++ [(b &&& 127) ||| 64] := by
          rw [List.modify_eq_take_drop, ← hmid, List.take_left, List.drop_left]
          rfl
        show Bincode.ofLE ((a &&& 248) :: (mid ++ [b]).modify 30 _) = _
        rw [hlast, Bincode.ofLE, Bincode.ofLE_concat, hmid]

/-- A clamped scalar is a multiple of the cofactor. -/
theorem eight_dvd_clamp (h : Bytes 32) : 8 ∣ Bincode.ofLE (clamp h).val := by
  obtain ⟨a, mid, b, -, heq⟩ := ofLE_clamp h
  have ha : ∀ a : UInt8, 8 ∣ (a &&& 248).toNat := by decide +kernel
  rw [heq]
  exact Nat.dvd_add (ha a) (Nat.dvd_mul_right_of_dvd (by decide) _)

/-- A clamped scalar has exactly 255 bits. -/
theorem clamp_bounds (h : Bytes 32) :
    2 ^ 254 ≤ Bincode.ofLE (clamp h).val ∧ Bincode.ofLE (clamp h).val < 2 ^ 255 := by
  obtain ⟨a, mid, b, hmid, heq⟩ := ofLE_clamp h
  have ha := (a &&& 248).toNat_lt
  have hbyte : ∀ b : UInt8,
      64 ≤ ((b &&& 127) ||| 64).toNat ∧ ((b &&& 127) ||| 64).toNat ≤ 127 := by
    decide +kernel
  have hb := hbyte b
  rw [heq]
  omega

/-! ## All points of the curve -/

section Curve

variable [Curve]

/-- The curve the scalars are meant for. Its point of order two is `t`. -/
structure IsCurve25519 (t : Curve.Point) : Prop where
  order_eq : Curve.order = 2 ^ 252 + 27742317777372353535851937790883648493
  card_eq : Nat.card Curve.Point = 8 * Curve.order
  two_nsmul : 2 • t = 0
  /-- The neutral point and the point of order two both have the u-coordinate zero. -/
  upToSign : KeyExchange.UpToSign Curve.toMontgomery t

variable {t : Curve.Point}

/-- How often a clamped scalar holds the order of the base point. -/
theorem clamp_div_order (hcurve : IsCurve25519 t) (h : Bytes 32) :
    3 ≤ Bincode.ofLE (clamp h).val / Curve.order
      ∧ Bincode.ofLE (clamp h).val / Curve.order ≤ 7 := by
  have hbounds := clamp_bounds h
  rw [hcurve.order_eq]
  omega

/--
**`ecdh` is X25519 exactly where the quotient does no harm.** For a clamped scalar `s` and
any point `p` of the curve it gives the coordinate of `s • p` if and only if the quotient of
`s` by the order of the base point kills the small part of `p`, or `p` is of small order
itself and the quotient takes it to the point of order two, which shares its coordinate with
the neutral point. The quotient is 3, 4, 5, 6 or 7, so it never kills a part of order eight.
-/
theorem ecdh_clamp_iff (hcurve : IsCurve25519 t) (h : Bytes 32) (p : Curve.Point) :
    (ecdh (clamp h) (Curve.toMontgomery p)
          = Curve.toMontgomery (Bincode.ofLE (clamp h).val • p) ↔
        addOrderOf (Curve.order • p) ∣ Bincode.ofLE (clamp h).val / Curve.order
          ∨ addOrderOf p ∣ Bincode.ofLE (clamp h).val
            ∧ (Bincode.ofLE (clamp h).val / Curve.order) • Curve.order • p = t)
      ∧ 3 ≤ Bincode.ofLE (clamp h).val / Curve.order
      ∧ Bincode.ofLE (clamp h).val / Curve.order ≤ 7 := by
  refine ⟨?_, clamp_div_order hcurve h⟩
  have hodd : Nat.Coprime Curve.order 2 := by
    rw [hcurve.order_eq]
    decide
  have height : Nat.Coprime Curve.order 8 := Nat.Coprime.pow_right 3 hodd
  have hp : (8 * Curve.order) • p = 0 := by
    rw [← hcurve.card_eq]
    exact card_nsmul_eq_zero'
  rw [ecdh, scalarFromBytes, Curve.mulMontgomery_toMontgomery, addOrderOf_dvd_iff_nsmul_eq_zero,
    addOrderOf_dvd_iff_nsmul_eq_zero]
  exact KeyExchange.coord_mod_nsmul_iff hcurve.upToSign hcurve.two_nsmul hodd height hp
    (eight_dvd_clamp h)

end Curve

/-! ## A curve with its points of small order -/

namespace Sample

/-- The order of the whole curve. -/
def wholeOrder : Nat := 8 * order

instance : NeZero wholeOrder := ⟨by decide⟩

theorem val_lt_whole (p : ZMod wholeOrder) : p.val < 2 ^ 256 :=
  Nat.lt_trans (ZMod.val_lt p) (by decide)

/-- The u-coordinates of the points of order eight and four, which number four besides zero. -/
def lowOrder : Equiv.Perm (Bytes 32) := exchange [
  (bytes 32 order,
    bytes 32 0xe0eb7a7c3b41b8ae1656e3faf19fc46ada098deb9c32b1fd866205165f49b800),
  (bytes 32 (3 * order),
    bytes 32 0x5f9c95bca3508c24b1d0b1559c83ef5b04445cc4581c8e86d8224eddd09f1157),
  (bytes 32 (2 * order), bytes 32 (2 ^ 248))]

/-- The point of order two. -/
def two : ZMod wholeOrder := (4 * order : Nat)

theorem val_two : two.val = 4 * order := ZMod.val_natCast_of_lt (by decide)

theorem two_nsmul_two : 2 • two = 0 := by
  rw [two, nsmul_eq_mul, ← Nat.cast_mul]
  exact (ZMod.natCast_eq_zero_iff _ _).mpr (by decide)

/-- The number of a point, up to sign. The point of order two has that of the neutral one. -/
def index (v : Nat) : Nat := if v = 4 * order then 0 else min v (8 * order - v)

theorem index_lt (p : ZMod wholeOrder) : index p.val < 2 ^ 256 := by
  have hp := val_lt_whole p
  unfold index
  split
  · decide
  · exact Nat.lt_of_le_of_lt (Nat.min_le_left _ _) hp

theorem val_neg_whole (p : ZMod wholeOrder) :
    (-p).val = if p.val = 0 then 0 else 8 * order - p.val := by
  rw [ZMod.neg_val]
  simp only [ZMod.val_eq_zero]
  rfl

/-- A u-coordinate does not tell a point from its opposite, nor the two with the value zero. -/
def wholeCoordinate (p : ZMod wholeOrder) : Bytes 32 := lowOrder (bytes 32 (index p.val))

theorem upToSign_wholeCoordinate : KeyExchange.UpToSign wholeCoordinate two := by
  intro p q
  have hindex : wholeCoordinate p = wholeCoordinate q ↔ index p.val = index q.val := by
    unfold wholeCoordinate
    rw [lowOrder.injective.eq_iff]
    exact ⟨bytes_inj (index_lt p) (index_lt q), congrArg (bytes 32)⟩
  have hval : ∀ a b : ZMod wholeOrder, a = b ↔ a.val = b.val := by
    intro a b
    exact (ZMod.val_injective wholeOrder).eq_iff.symm
  have hp : p.val < 8 * order := ZMod.val_lt p
  have hq : q.val < 8 * order := ZMod.val_lt q
  rw [hindex, hval q p, hval q (-p), hval p 0, hval p two, hval q 0, hval q two, val_two,
    ZMod.val_zero, val_neg_whole]
  unfold index
  split_ifs <;> omega

/-- The whole curve, as a cyclic group in which the base point is eight times a generator. -/
@[reducible] noncomputable def wholeCurve : Curve where
  Point := ZMod wholeOrder
  basepoint := ((8 : Nat) : ZMod wholeOrder)
  order := order
  order_nsmul := by
    rw [nsmul_eq_mul, ← Nat.cast_mul]
    exact (ZMod.natCast_eq_zero_iff _ _).mpr (by decide)
  compress p := bytes 32 (ZMod.val p)
  decompress b := some (Bincode.ofLE b.val.reverse : ZMod wholeOrder)
  decompress_compress p := by
    rw [bytes, List.reverse_reverse, Bincode.ofLE_leBytes 32 _ (val_lt_whole p),
      ZMod.natCast_zmod_val]
  toMontgomery := wholeCoordinate
  mulMontgomery := (upToSign_wholeCoordinate.exists_mul two_nsmul_two).choose
  mulMontgomery_toMontgomery := (upToSign_wholeCoordinate.exists_mul two_nsmul_two).choose_spec

theorem isCurve25519_wholeCurve : @IsCurve25519 wholeCurve two :=
  @IsCurve25519.mk wholeCurve two rfl (Nat.card_zmod wholeOrder) two_nsmul_two
    upToSign_wholeCoordinate

/-- What a random number generator may give. -/
def zeros : Bytes 32 := ⟨.replicate 32 0, by decide⟩

/-- A point of order eight. -/
def eighth : ZMod wholeOrder := (order : Nat)

theorem val_nsmul_natCast (n m : Nat) :
    (n • ((m : Nat) : ZMod wholeOrder)).val = n * m % wholeOrder := by
  rw [nsmul_eq_mul, ← Nat.cast_mul, ZMod.val_natCast]

end Sample

/-- The point of order two, where clamping an all-zero draw does no harm. -/
theorem ecdh_clamp_iff_sample :
    @ecdh Sample.wholeCurve (clamp Sample.zeros) (Sample.wholeCoordinate Sample.two)
      = Sample.wholeCoordinate (Bincode.ofLE (clamp Sample.zeros).val • Sample.two) := by
  refine (@ecdh_clamp_iff Sample.wholeCurve Sample.two Sample.isCurve25519_wholeCurve
    Sample.zeros Sample.two).1.mpr (Or.inr ⟨?_, ?_⟩)
  · refine addOrderOf_dvd_of_nsmul_eq_zero ?_
    refine ZMod.val_injective _ ?_
    refine (Sample.val_nsmul_natCast _ _).trans ?_
    decide +kernel
  · refine ZMod.val_injective _ ?_
    show ((_ / Sample.order) • Sample.order • Sample.two).val = Sample.two.val
    rw [smul_smul]
    refine (Sample.val_nsmul_natCast _ _).trans ?_
    rw [Sample.val_two]
    decide +kernel

/--
A point of order eight, for an all-zero draw. Its multiple by the clamped scalar is neutral
and has the u-coordinate zero, but `ecdh` gives back the point's own.
-/
theorem small_order_point_survives :
    @IsCurve25519 Sample.wholeCurve Sample.two
      ∧ 8 • Sample.eighth = 0
      ∧ Sample.wholeCoordinate (Bincode.ofLE (clamp Sample.zeros).val • Sample.eighth)
        = Sample.zeros
      ∧ @ecdh Sample.wholeCurve (clamp Sample.zeros) (Sample.wholeCoordinate Sample.eighth)
        = Sample.wholeCoordinate Sample.eighth
      ∧ Sample.wholeCoordinate Sample.eighth = Sample.bytes 32
        0xe0eb7a7c3b41b8ae1656e3faf19fc46ada098deb9c32b1fd866205165f49b800 := by
  have hval : ∀ n : Nat, (n • Sample.eighth).val = n * Sample.order % Sample.wholeOrder :=
    fun n => Sample.val_nsmul_natCast n Sample.order
  have hone : Sample.eighth.val = Sample.order := ZMod.val_natCast_of_lt (by decide)
  refine ⟨Sample.isCurve25519_wholeCurve, ?_, ?_, ?_, ?_⟩
  · refine ZMod.val_injective _ ?_
    rw [hval, ZMod.val_zero]
    decide +kernel
  · rw [Sample.wholeCoordinate, hval]
    decide +kernel
  · refine (@Curve.mulMontgomery_toMontgomery Sample.wholeCurve _ Sample.eighth).trans ?_
    show Sample.wholeCoordinate ((_ % Sample.order) • Sample.eighth) = _
    rw [Sample.wholeCoordinate, Sample.wholeCoordinate, hval, hone]
    decide +kernel
  · rw [Sample.wholeCoordinate, hone]
    decide +kernel

end CeMail
