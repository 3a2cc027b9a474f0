import Mathlib.Order.WithBot
import Mathlib.Algebra.Order.Group.Unbundled.Int
import Mathlib.Algebra.Order.Ring.Abs
import Mathlib.Data.Int.Order.Basic
import Mathlib.Data.Nat.Log
import Mathlib.Tactic.Positivity
import Mathlib.Tactic.Ring

/-!
# Significant bits

A number of a floating-point format is an integer in units of the least
positive one, of which the last bits are zero: it fits into the significant
ones. Rounding takes an integer to the nearest that fits (`keepBits`). It leaves
what fits as it is, and it is monotone, because between two numbers that lose
unlike many bits there is a power of two, which loses none (`keepBits_mono`).

`Binary64` has no greatest exponent, so nothing overflows, and no zero of its
own below zero.
-/

namespace Lib

/-- `a / d`, rounded to the nearest integer and from the middle to the even
one. -/
def roundDiv (a d : ℤ) : ℤ :=
  let q := a / d
  let r := a % d
  if 2 * r < d ∨ 2 * r = d ∧ q % 2 = 0 then q else q + 1

/-- How many of its last bits a number loses that keeps `p` of them. -/
def lostBits (p : ℕ) (a : ℤ) : ℕ := a.natAbs.log2 + 1 - p

/-- The number to `p` significant bits. -/
def keepBits (p : ℕ) (a : ℤ) : ℤ :=
  roundDiv a (2 ^ lostBits p a) * 2 ^ lostBits p a

variable {a b d n : ℤ} {p : ℕ}

/-! ## The nearest quotient -/

theorem roundDiv_mul (hd : 0 < d) (n : ℤ) : roundDiv (n * d) d = n := by
  rw [roundDiv, Int.mul_ediv_cancel _ hd.ne', Int.mul_emod_left]
  exact if_pos (.inl (by omega))

theorem roundDiv_mono (hd : 0 < d) (h : a ≤ b) :
    roundDiv a d ≤ roundDiv b d := by
  have hq := Int.ediv_le_ediv hd h
  have ha := Int.mul_ediv_add_emod a d
  have hb := Int.mul_ediv_add_emod b d
  simp only [roundDiv]
  rcases hq.eq_or_lt with heq | hlt
  · rw [heq] at ha
    have hr : a % d ≤ b % d := by omega
    rw [heq]
    split
    · split <;> omega
    · next hup =>
        rw [if_neg fun hdown => hup ?_]
        omega
  · split <;> split <;> omega

/-- A multiple of the divisor is a bound of the quotient. -/
theorem roundDiv_le (hd : 0 < d) (h : a ≤ n * d) : roundDiv a d ≤ n :=
  (roundDiv_mono hd h).trans_eq (roundDiv_mul hd n)

theorem le_roundDiv (hd : 0 < d) (h : n * d ≤ a) : n ≤ roundDiv a d :=
  (roundDiv_mul hd n).symm.trans_le (roundDiv_mono hd h)

/-! ## What is kept -/

/-- A number is within what `p` bits can hold, in the unit of its last bit. -/
theorem natAbs_lt (p : ℕ) (a : ℤ) : a.natAbs < 2 ^ p * 2 ^ lostBits p a := by
  rw [← pow_add]
  refine Nat.lt_log2_self.trans_le (Nat.pow_le_pow_right (by omega) ?_)
  rw [lostBits]
  omega

theorem lostBits_le {k : ℕ} (h : a.natAbs < 2 ^ (p + k)) (hp : 0 < p) :
    lostBits p a ≤ k := by
  rw [lostBits]
  by_cases hzero : a.natAbs = 0
  · rw [hzero, Nat.log2_zero]
    omega
  · have hlog := (Nat.log2_lt hzero).mpr h
    omega

/-- The number has `p` significant bits at most. -/
def Fits (p : ℕ) (a : ℤ) : Prop := 2 ^ lostBits p a ∣ a

theorem keepBits_of_fits (h : Fits p a) : keepBits p a = a := by
  obtain ⟨n, hn⟩ := exists_eq_mul_left_of_dvd h
  rw [keepBits]
  generalize hd : (2 : ℤ) ^ lostBits p a = d at hn
  have hpos : 0 < d := by
    rw [← hd]
    positivity
  rw [hn, roundDiv_mul hpos]

theorem fits_mul {k : ℕ} (hp : 0 < p) (h : n.natAbs ≤ 2 ^ p) :
    Fits p (n * 2 ^ k) := by
  have habs : (n * 2 ^ k).natAbs = n.natAbs * 2 ^ k := by
    rw [Int.natAbs_mul, Int.natAbs_pow]
    rfl
  rcases h.eq_or_lt with heq | hlt
  · have hlost : lostBits p (n * 2 ^ k) = k + 1 := by
      rw [lostBits, habs, heq, ← pow_add, Nat.log2_two_pow]
      omega
    have htwo : (2 : ℤ) ∣ n := by
      rw [← Int.natAbs_dvd_natAbs, heq]
      exact dvd_pow_self 2 hp.ne'
    rw [Fits, hlost, pow_succ']
    exact mul_dvd_mul_right htwo _
  · have hlost : lostBits p (n * 2 ^ k) ≤ k := by
      refine lostBits_le ?_ hp
      rw [habs, pow_add]
      exact Nat.mul_lt_mul_of_pos_right hlt (Nat.two_pow_pos k)
    exact (pow_dvd_pow 2 hlost).trans (dvd_mul_left _ _)

theorem fits_keepBits (hp : 0 < p) (a : ℤ) : Fits p (keepBits p a) := by
  have hpos : (0 : ℤ) < 2 ^ lostBits p a := by positivity
  have habs : |a| ≤ 2 ^ p * 2 ^ lostBits p a := by
    rw [Int.abs_eq_natAbs]
    exact_mod_cast (natAbs_lt p a).le
  obtain ⟨hlow, hhigh⟩ := abs_le.mp habs
  rw [← neg_mul] at hlow
  have hle := roundDiv_le hpos hhigh
  have hge := le_roundDiv hpos hlow
  refine fits_mul hp ?_
  have hq : |roundDiv a (2 ^ lostBits p a)| ≤ 2 ^ p := abs_le.mpr ⟨hge, hle⟩
  rw [Int.abs_eq_natAbs] at hq
  exact_mod_cast hq

/-- A number that fits is a bound of what is kept. -/
theorem keepBits_le_pow {k : ℕ} (hk : lostBits p a ≤ k) (h : a ≤ n * 2 ^ k) :
    keepBits p a ≤ n * 2 ^ k := by
  have hpow : n * (2 : ℤ) ^ k =
      n * 2 ^ (k - lostBits p a) * 2 ^ lostBits p a := by
    rw [mul_assoc, ← pow_add, Nat.sub_add_cancel hk]
  rw [hpow] at h ⊢
  rw [keepBits]
  exact mul_le_mul_of_nonneg_right (roundDiv_le (by positivity) h)
    (by positivity)

theorem pow_le_keepBits {k : ℕ} (hk : lostBits p a ≤ k) (h : n * 2 ^ k ≤ a) :
    n * 2 ^ k ≤ keepBits p a := by
  have hpow : n * (2 : ℤ) ^ k =
      n * 2 ^ (k - lostBits p a) * 2 ^ lostBits p a := by
    rw [mul_assoc, ← pow_add, Nat.sub_add_cancel hk]
  rw [hpow] at h ⊢
  rw [keepBits]
  exact mul_le_mul_of_nonneg_right (le_roundDiv (by positivity) h)
    (by positivity)

/-- A number that loses bits has as many and `p` more. -/
theorem pow_le_natAbs (hp : 0 < p) (h : 0 < lostBits p a) :
    2 ^ (p + lostBits p a - 1) ≤ a.natAbs := by
  have hlog : p + lostBits p a - 1 = a.natAbs.log2 := by
    rw [lostBits] at h ⊢
    omega
  rw [hlog]
  refine Nat.log2_self_le fun hzero => ?_
  rw [lostBits, hzero, Nat.log2_zero] at h
  omega

/-- Between a number and one that loses more bits is a power of two that loses
no more than either. -/
theorem pow_between (hp : 0 < p) (h : lostBits p a < lostBits p b) :
    ∃ k, lostBits p a ≤ k ∧ lostBits p b ≤ k ∧ a.natAbs < 2 ^ k ∧
      2 ^ k ≤ b.natAbs := by
  refine ⟨p + lostBits p b - 1, by omega, by omega, ?_,
    pow_le_natAbs hp (by omega)⟩
  refine (natAbs_lt p a).trans_le ?_
  rw [← pow_add]
  exact Nat.pow_le_pow_right (by omega) (by omega)

theorem keepBits_mono (hp : 0 < p) (h : a ≤ b) :
    keepBits p a ≤ keepBits p b := by
  rcases lt_trichotomy (lostBits p a) (lostBits p b) with hlt | heq | hgt
  · obtain ⟨k, hka, hkb, ha, hb⟩ := pow_between hp hlt
    have hcast : ((2 ^ k : ℕ) : ℤ) = 1 * 2 ^ k := by push_cast; ring
    refine (keepBits_le_pow hka (n := 1) ?_).trans
      (pow_le_keepBits hkb (n := 1) ?_)
    · rw [← hcast]
      omega
    · rw [← hcast]
      omega
  · rw [keepBits, keepBits, heq]
    exact mul_le_mul_of_nonneg_right (roundDiv_mono (by positivity) h)
      (by positivity)
  · obtain ⟨k, hkb, hka, hb, ha⟩ := pow_between hp hgt
    have hcast : ((2 ^ k : ℕ) : ℤ) = 1 * 2 ^ k := by push_cast; ring
    refine (keepBits_le_pow hka (n := -1) ?_).trans
      (pow_le_keepBits hkb (n := -1) ?_)
    · rw [neg_mul, ← hcast]
      omega
    · rw [neg_mul, ← hcast]
      omega

/-! ## Doubles -/

/-- A finite number of the format; the unit is two to the power of -1074. -/
structure Binary64 where
  units : ℤ
  fits : Fits 53 units

namespace Binary64

theorem units_injective : Function.Injective units := by
  intro x y h
  cases x
  cases y
  cases h
  rfl

instance : LinearOrder Binary64 := LinearOrder.lift' units units_injective

/-- Rounded to the nearest, and from the middle to the even one. -/
def ofUnits (a : ℤ) : Binary64 := ⟨keepBits 53 a, fits_keepBits (by decide) a⟩

instance : Sub Binary64 := ⟨fun x y => ofUnits (x.units - y.units)⟩

theorem ofUnits_mono {a b : ℤ} (h : a ≤ b) : ofUnits a ≤ ofUnits b :=
  keepBits_mono (by decide) h

theorem ofUnits_units (x : Binary64) : ofUnits x.units = x :=
  units_injective (keepBits_of_fits x.fits)

theorem sub_mono (y : Binary64) : Monotone fun x : Binary64 => x - y :=
  fun _ _ h => ofUnits_mono (Int.sub_le_sub_right h _)

/-- Rounding does not go past a number of the format. -/
theorem sub_le_of_units {x y z : Binary64}
    (h : x.units - y.units ≤ z.units) : x - y ≤ z :=
  (ofUnits_mono h).trans_eq (ofUnits_units z)

theorem sub_le_iff_of_fits {x y z : Binary64} (h : Fits 53 (x.units - y.units)) :
    x - y ≤ z ↔ x.units - y.units ≤ z.units := by
  show keepBits 53 (x.units - y.units) ≤ z.units ↔ _
  rw [keepBits_of_fits h]

end Binary64

end Lib
