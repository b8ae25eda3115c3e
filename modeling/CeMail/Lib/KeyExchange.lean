import Mathlib

/-!
# Key exchange on coordinates

Diffie-Hellman in an abelian group whose points are only ever seen through a coordinate,
one that need not tell a point from its inverse. Multiplying a point by a number gives a
point whose coordinate is determined by the first one's, so multiplication acts on
coordinates, and two parties that know a number each and the coordinate of the other's
multiple of the base point come to one shared coordinate.

The numbers may be reduced by the order of the base point at any place where what they
multiply is itself a multiple of it, and it does not matter who reduces and who does not.
-/

namespace KeyExchange

variable {G X : Type*} [AddCommGroup G]

/--
**Multiplication is well defined on coordinates**, where points with one coordinate have
multiples with one coordinate.
-/
theorem exists_mul_of_congr {coord : G → X}
    (hcongr : ∀ (n : ℕ) p q, coord p = coord q → coord (n • p) = coord (n • q)) :
    ∃ mul : ℕ → X → X, ∀ n p, mul n (coord p) = coord (n • p) := by
  classical
  -- any point with the coordinate will do
  refine ⟨fun n x => if h : ∃ p, coord p = x then coord (n • h.choose) else x, ?_⟩
  intro n p
  have hex : ∃ q, coord q = coord p := ⟨p, rfl⟩
  dsimp only
  rw [dif_pos hex]
  exact hcongr n _ _ hex.choose_spec

/--
**Multiplication is well defined on points up to sign.** If a coordinate confuses a point
with its inverse and with nothing else, then it acts on coordinates.
-/
theorem exists_mul_of_up_to_sign {coord : G → X}
    (hsign : ∀ p q, coord p = coord q ↔ q = p ∨ q = -p) :
    ∃ mul : ℕ → X → X, ∀ n p, mul n (coord p) = coord (n • p) := by
  refine exists_mul_of_congr ?_
  intro n p q h
  refine (hsign _ _).mpr ?_
  rcases (hsign _ _).mp h with rfl | rfl
  · exact Or.inl rfl
  · exact Or.inr (smul_neg n p)

variable {base : G} {order : ℕ}

/-- A factor of a multiple of the base point may be reduced by its order. -/
theorem mod_nsmul (horder : order • base = 0) (n m : ℕ) :
    (n % order) • m • base = n • m • base := by
  have hzero : order • m • base = 0 := by
    rw [smul_comm, horder, smul_zero]
  calc (n % order) • m • base
      = (n / order) • order • m • base + (n % order) • m • base := by
        rw [hzero, smul_zero, zero_add]
    _ = (order * (n / order) + n % order) • m • base := by
        rw [add_smul, mul_comm, mul_smul]
    _ = n • m • base := by rw [Nat.div_add_mod]

/--
**Both sides get one secret.** One side multiplies the other's public coordinate by its
own reduced number, whichever of the public points was made of a reduced number.
-/
theorem shared_eq {coord : G → X} {mul : ℕ → X → X}
    (hmul : ∀ n p, mul n (coord p) = coord (n • p)) (horder : order • base = 0) (a b : ℕ) :
    mul (a % order) (coord (b • base)) = mul (b % order) (coord ((a % order) • base)) := by
  rw [hmul, hmul, mod_nsmul horder b, smul_comm]

/-! ## Points outside the group of the base point

A curve may have a few points more than the multiples of the base point, and a coordinate
may then confuse the neutral point with a point of order two besides. A number reduced by
the order of the base point no longer multiplies all points alike. What is lost is a
multiple of the point's own small part, and whether it shows depends on the quotient.
-/

/-- The coordinate confuses a point with its inverse, and the neutral point with `t`. -/
def UpToSign (coord : G → X) (t : G) : Prop :=
  ∀ p q, coord p = coord q ↔ q = p ∨ q = -p ∨ (p = 0 ∨ p = t) ∧ (q = 0 ∨ q = t)

variable {coord : G → X} {t p : G} {c l s m n : ℕ}

/-- The multiples of a point of order two. -/
theorem nsmul_eq_zero_or_self (ht : 2 • t = 0) (n : ℕ) (hp : p = 0 ∨ p = t) :
    n • p = 0 ∨ n • p = t := by
  rcases hp with rfl | rfl
  · exact Or.inl (smul_zero n)
  · obtain ⟨k, rfl | rfl⟩ := Nat.even_or_odd' n
    · left
      rw [mul_comm, mul_smul, ht, smul_zero]
    · right
      rw [add_smul, mul_comm, mul_smul, ht, smul_zero, zero_add, one_smul]

/-- Multiplication is well defined on such coordinates too. -/
theorem UpToSign.exists_mul (h : UpToSign coord t) (ht : 2 • t = 0) :
    ∃ mul : ℕ → X → X, ∀ n p, mul n (coord p) = coord (n • p) := by
  refine exists_mul_of_congr ?_
  intro n p q hpq
  refine (h _ _).mpr ?_
  rcases (h _ _).mp hpq with rfl | rfl | ⟨hp, hq⟩
  · exact Or.inl rfl
  · exact Or.inr (Or.inl (smul_neg n p))
  · exact Or.inr (Or.inr ⟨nsmul_eq_zero_or_self ht n hp, nsmul_eq_zero_or_self ht n hq⟩)

/-- Only the neutral point is killed by two numbers without a common factor. -/
theorem eq_zero_of_coprime (hmn : Nat.Coprime m n) (hm : m • p = 0) (hn : n • p = 0) : p = 0 := by
  have hdvd : addOrderOf p ∣ Nat.gcd m n :=
    Nat.dvd_gcd (addOrderOf_dvd_of_nsmul_eq_zero hm) (addOrderOf_dvd_of_nsmul_eq_zero hn)
  rw [hmn.gcd_eq_one, Nat.dvd_one] at hdvd
  exact AddMonoid.addOrderOf_eq_one_iff.mp hdvd

/-- What a multiple loses when the number is reduced. -/
theorem mod_nsmul_eq_sub (l s : ℕ) (p : G) : (s % l) • p = s • p - (s / l) • l • p := by
  rw [eq_sub_iff_add_eq, smul_smul, ← add_smul, mul_comm, Nat.mod_add_div]

/--
**Where reducing a number changes the coordinate of a multiple.** In a group whose order is
`c * l`, for a number that `c` divides, it does unless the quotient kills the part of the
point that `l` leaves, or takes it to `t` where the whole multiple should be neutral.
-/
theorem coord_mod_nsmul_iff (h : UpToSign coord t) (ht : 2 • t = 0) (hodd : Nat.Coprime l 2)
    (hlc : Nat.Coprime l c) (hp : (c * l) • p = 0) (hs : c ∣ s) :
    coord ((s % l) • p) = coord (s • p) ↔
      (s / l) • l • p = 0 ∨ s • p = 0 ∧ (s / l) • l • p = t := by
  have hlarge : l • s • p = 0 := by
    obtain ⟨k, rfl⟩ := hs
    rw [smul_smul, mul_comm l, mul_right_comm, mul_comm _ k, mul_smul, hp, smul_zero]
  have hsmall : c • (s / l) • l • p = 0 := by
    rw [smul_comm c, smul_smul c, hp, smul_zero]
  have hneg : -t = t := by
    rwa [two_nsmul, add_eq_zero_iff_neg_eq] at ht
  rw [mod_nsmul_eq_sub]
  generalize s • p = a at hlarge ⊢
  generalize (s / l) • l • p = d at hsmall ⊢
  refine (h _ _).trans ⟨?_, ?_⟩
  · intro hcases
    rcases hcases with heq | heq | ⟨hd, ha⟩
    · left
      exact sub_eq_self.mp heq.symm
    · -- then `d` is twice `a`, so that both numbers kill it
      left
      have hd : d = 2 • a := by
        rw [two_nsmul]
        rw [neg_sub, eq_sub_iff_add_eq] at heq
        exact heq.symm
      refine eq_zero_of_coprime hlc ?_ hsmall
      rw [hd, smul_comm, hlarge, smul_zero]
    · -- an odd number kills nothing of order two
      have hzero : a = 0 := by
        refine eq_zero_of_coprime hodd hlarge ?_
        rcases ha with rfl | rfl
        · exact smul_zero 2
        · exact ht
      rw [hzero, zero_sub] at hd
      rcases hd with hd | hd
      · left
        exact neg_eq_zero.mp hd
      · right
        exact ⟨hzero, by rw [← neg_neg d, hd, hneg]⟩
  · intro hcases
    rcases hcases with rfl | ⟨rfl, rfl⟩
    · left
      exact (sub_zero a).symm
    · right
      right
      rw [zero_sub, hneg]
      exact ⟨Or.inr rfl, Or.inl rfl⟩

end KeyExchange
