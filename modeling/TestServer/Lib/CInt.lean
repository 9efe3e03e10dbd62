import Mathlib.Tactic.Ring

/-! # Conversions between C integer types

    An integer that is converted to a type of `w` bits keeps its value modulo
    `2 ^ w`. What is left is the number of that class in the range of the
    type.

    * `signed w`, `unsigned w`: the value after a conversion to a signed or an
      unsigned type of `w` bits.
    * `signed_of_range`, `unsigned_of_range`: a value the type can represent is
      kept.
    * `signed_of_nonneg`: what happens to the others.
    * `signed_unsigned`: a value that is stored and loaded again.
-/

namespace CInt

/-- The value of `x` in a signed type of `w` bits. -/
def signed (w : Nat) (x : Int) : Int := x.bmod (2 ^ w)

/-- The value of `x` in an unsigned type of `w` bits. -/
def unsigned (w : Nat) (x : Int) : Nat := (x % 2 ^ w).toNat

theorem signed_of_range {w : Nat} {x : Int} (hlow : -2 ^ w ≤ 2 * x) (hhigh : 2 * x < 2 ^ w) :
    signed w x = x := by
  have hcast : ((2 ^ w : Nat) : Int) = 2 ^ w := by norm_cast
  apply Int.bmod_eq_of_le
  · rw [hcast]
    omega
  · rw [hcast]
    omega

/-- A value that is too large for the signed type becomes negative. -/
theorem signed_of_nonneg {w : Nat} {x : Int} (hlow : 0 ≤ x) (hhigh : x < 2 ^ w)
    (h : 0 ≤ signed w x) : signed w x = x := by
  have hcast : ((2 ^ w : Nat) : Int) = 2 ^ w := by norm_cast
  have hmod : x % ((2 ^ w : Nat) : Int) = x := by rw [hcast, Int.emod_eq_of_lt hlow hhigh]
  rw [signed, Int.bmod_def, hmod] at h ⊢
  split
  · rfl
  · next hlarge =>
    rw [if_neg hlarge] at h
    omega

/-- Only the class of a summand matters. -/
@[simp] theorem signed_add_signed (w : Nat) (x y : Int) :
    signed w (signed w x + y) = signed w (x + y) :=
  Int.bmod_add_bmod

theorem unsigned_of_range {w : Nat} {x : Int} (hlow : 0 ≤ x) (hhigh : x < 2 ^ w) :
    unsigned w x = x.toNat := by
  rw [unsigned, Int.emod_eq_of_lt hlow hhigh]

theorem unsigned_lt (w : Nat) (x : Int) : unsigned w x < 2 ^ w := by
  have hcast : ((2 ^ w : Nat) : Int) = 2 ^ w := by norm_cast
  have hpos : 0 < 2 ^ w := Nat.two_pow_pos w
  have hlow : 0 ≤ x % ((2 ^ w : Nat) : Int) := Int.emod_nonneg x (by omega)
  have hhigh : x % ((2 ^ w : Nat) : Int) < ((2 ^ w : Nat) : Int) := Int.emod_lt_of_pos x (by omega)
  rw [unsigned, ← hcast]
  omega

/-- A value of a signed type, stored as an unsigned one of the same width and loaded again. -/
theorem signed_unsigned {w : Nat} {x : Int} (hlow : -2 ^ w ≤ 2 * x) (hhigh : 2 * x < 2 ^ w) :
    signed w (unsigned w x) = x := by
  have hcast : ((2 ^ w : Nat) : Int) = 2 ^ w := by norm_cast
  have hpos : (0 : Int) < 2 ^ w := by omega
  have hmod : ((unsigned w x : Nat) : Int) = x % ((2 ^ w : Nat) : Int) := by
    rw [unsigned, Int.toNat_of_nonneg (Int.emod_nonneg _ (Int.ne_of_gt hpos)), hcast]
  rw [signed, hmod, Int.emod_bmod]
  exact signed_of_range hlow hhigh

end CInt
