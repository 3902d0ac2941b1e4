import Mathlib.Algebra.Ring.Nat
import Mathlib.Order.Bounds.Basic

/-!
# Rounding up in machine arithmetic

`(n + a - 1) / a * a` is the least multiple of `a` that is at least `n`.  A program
that computes it in arithmetic modulo `M` gets this value exactly when `n + a` does
not exceed `M`; otherwise what it gets is too small.
-/

namespace Rounding

/-- The least multiple of `a` that is at least `n`. -/
def IsRoundedUp (n a m : ℕ) : Prop := IsLeast {k | a ∣ k ∧ n ≤ k} m

theorem IsRoundedUp.le {n a m : ℕ} (h : IsRoundedUp n a m) : n ≤ m := h.1.2

theorem IsRoundedUp.unique {n a m m' : ℕ} (h : IsRoundedUp n a m) (h' : IsRoundedUp n a m') :
    m = m' := IsLeast.unique h h'

theorem isRoundedUp {n a : ℕ} (ha : 0 < a) : IsRoundedUp n a ((n + a - 1) / a * a) := by
  constructor
  · have hmod := Nat.mod_lt (n + a - 1) ha
    have hdiv := Nat.div_add_mod' (n + a - 1) a
    exact ⟨Nat.dvd_mul_left _ _, by omega⟩
  · rintro k ⟨⟨q, rfl⟩, hle⟩
    rw [Nat.mul_comm a q]
    apply Nat.mul_le_mul_right
    have hlt : n + a - 1 < (q + 1) * a := by
      calc n + a - 1 < n + a := by omega
        _ ≤ a * q + a := by omega
        _ = (q + 1) * a := by rw [Nat.add_mul, Nat.one_mul, Nat.mul_comm]
    exact Nat.lt_succ_iff.mp ((Nat.div_lt_iff_lt_mul ha).mpr hlt)

theorem IsRoundedUp.lt {n a m : ℕ} (ha : 0 < a) (h : IsRoundedUp n a m) : m < n + a := by
  by_contra hge
  obtain ⟨⟨q, rfl⟩, hle⟩ := h.1
  have hq : 0 < q := Nat.pos_of_ne_zero fun hq => by simp only [hq, Nat.mul_zero] at hge; omega
  have hsmaller : a * (q - 1) = a * q - a := by rw [Nat.mul_sub, Nat.mul_one]
  have hleast := h.2 ⟨Nat.dvd_mul_right a (q - 1), by omega⟩
  have hmul : a * 1 ≤ a * q := Nat.mul_le_mul_left a hq
  omega

/-- Any multiple close enough above `n` is the rounded one. -/
theorem IsRoundedUp.of_lt {n a m : ℕ} (hdvd : a ∣ m) (hle : n ≤ m) (hlt : m < n + a) :
    IsRoundedUp n a m := by
  refine ⟨⟨hdvd, hle⟩, ?_⟩
  rintro k ⟨hk, hnk⟩
  by_contra hkm
  have hgap : a ≤ m - k := Nat.le_of_dvd (by omega) (Nat.dvd_sub hdvd hk)
  omega

/-- Two roundings agree if and only if a common multiple is close enough to `n`. -/
theorem IsRoundedUp.eq_iff {n a b m k : ℕ} (ha : 0 < a) (hb : 0 < b) (hm : IsRoundedUp n a m)
    (hk : IsRoundedUp n b k) :
    m = k ↔ ∃ c, a ∣ c ∧ b ∣ c ∧ n ≤ c ∧ c < n + a ∧ c < n + b := by
  constructor
  · rintro rfl
    exact ⟨m, hm.1.1, hk.1.1, hm.le, hm.lt ha, hk.lt hb⟩
  · rintro ⟨c, hac, hbc, hle, hlta, hltb⟩
    exact (hm.unique (.of_lt hac hle hlta)).trans (IsRoundedUp.unique (.of_lt hbc hle hltb) hk)

/-- `(n + a - 1) / a * a` as it is computed modulo `M`. -/
def roundUpMod (M n a : ℕ) : ℕ := ((n + a) % M + (M - 1)) % M / a * a % M

section Modular

variable {M n a : ℕ}

theorem pred_mod (ha : 0 < a) (hn : n < M) (haM : a < M) :
    ((n + a) % M + (M - 1)) % M = if n + a ≤ M then n + a - 1 else n + a - 1 - M := by
  rcases lt_trichotomy (n + a) M with hlt | heq | hgt
  · rw [if_pos hlt.le, Nat.mod_eq_of_lt hlt,
      show n + a + (M - 1) = n + a - 1 + M by omega, Nat.add_mod_right,
      Nat.mod_eq_of_lt (by omega)]
  · rw [if_pos heq.le, heq, Nat.mod_self, Nat.zero_add, Nat.mod_eq_of_lt (by omega)]
  · have hwrapped : (n + a) % M = n + a - M := by
      rw [Nat.mod_eq_sub_mod hgt.le, Nat.mod_eq_of_lt (by omega)]
    rw [if_neg (by omega), hwrapped, show n + a - M + (M - 1) = n + a - 1 by omega,
      Nat.mod_eq_sub_mod (by omega), Nat.mod_eq_of_lt (by omega)]

theorem roundUpMod_of_le (ha : 0 < a) (hn : n < M) (haM : a < M) (h : n + a ≤ M) :
    roundUpMod M n a = (n + a - 1) / a * a := by
  unfold roundUpMod
  rw [pred_mod ha hn haM, if_pos h, Nat.mod_eq_of_lt]
  exact (Nat.div_mul_le_self _ _).trans_lt (by omega)

/-- The result is large enough if and only if nothing wraps. -/
theorem le_roundUpMod_iff (ha : 0 < a) (hn : n < M) (haM : a < M) :
    n ≤ roundUpMod M n a ↔ n + a ≤ M := by
  constructor
  · intro hle
    by_contra hwraps
    unfold roundUpMod at hle
    rw [pred_mod ha hn haM, if_neg hwraps] at hle
    have hsmall : (n + a - 1 - M) / a * a % M ≤ n + a - 1 - M :=
      (Nat.mod_le _ _).trans (Nat.div_mul_le_self _ _)
    omega
  · intro h
    rw [roundUpMod_of_le ha hn haM h]
    exact (isRoundedUp ha).le

/-- The computation is exact if and only if nothing wraps. -/
theorem isRoundedUp_roundUpMod_iff (ha : 0 < a) (hn : n < M) (haM : a < M) :
    IsRoundedUp n a (roundUpMod M n a) ↔ n + a ≤ M := by
  constructor
  · intro h
    exact (le_roundUpMod_iff ha hn haM).mp h.le
  · intro h
    rw [roundUpMod_of_le ha hn haM h]
    exact isRoundedUp ha

end Modular

/-! ## Rounding by a mask -/

/-- A mask without the last `k` bits rounds down to a multiple of `2 ^ k`. -/
theorem land_mask {n w k : ℕ} (hkw : k ≤ w) (hn : n < 2 ^ w) :
    n &&& (2 ^ w - 2 ^ k) = n / 2 ^ k * 2 ^ k := by
  have hmask : 2 ^ w - 2 ^ k = (2 ^ (w - k) - 1) * 2 ^ k := by
    rw [Nat.sub_mul, Nat.one_mul, ← Nat.pow_add, Nat.sub_add_cancel hkw]
  apply Nat.eq_of_testBit_eq
  intro i
  rw [hmask, Nat.testBit_and, Nat.testBit_mul_two_pow, Nat.testBit_mul_two_pow,
    Nat.testBit_two_pow_sub_one, Nat.testBit_div_two_pow]
  by_cases hk : k ≤ i
  · by_cases hw : i < w
    · simp [hk, show i - k < w - k by omega]
    · have hzero : n.testBit i = false :=
        Nat.testBit_lt_two_pow (lt_of_lt_of_le hn (Nat.pow_le_pow_right (by decide) (by omega)))
      simp [hk, hzero]
  · simp [hk]

/-- Rounding up by adding the mask of the last bits first. -/
theorem isRoundedUp_land_mask {n w k : ℕ} (hkw : k ≤ w) (hn : n + 2 ^ k - 1 < 2 ^ w) :
    IsRoundedUp n (2 ^ k) ((n + 2 ^ k - 1) &&& (2 ^ w - 2 ^ k)) := by
  rw [land_mask hkw hn]
  exact isRoundedUp (Nat.two_pow_pos k)

end Rounding
