import SharingProbe.Share.Model

/-!
# The pattern

The first word of a pattern is its seed, so that a buffer of at least one word holds the
pattern of one seed only, and a cleared buffer that of no seed but 0.  The words of a pattern
differ, since the factor of the index is odd.
-/

namespace SharingProbe.Share

/-- The words of a buffer are those of the pattern. -/
def Holds (words : ℕ → UInt64) (bytes : ℕ) (seed : UInt64) : Prop :=
  ∀ i < bytes / 8, words i = pattern i seed

theorem pattern_zero (seed : UInt64) : pattern 0 seed = seed := by
  simp [pattern]

variable {words : ℕ → UInt64} {bytes : ℕ} {seed seed' : UInt64}

theorem Holds.first (h : Holds words bytes seed) (hbytes : 8 ≤ bytes) : words 0 = seed := by
  have hpos : 0 < bytes / 8 := Nat.div_pos hbytes (by decide)
  calc words 0 = pattern 0 seed := h 0 hpos
    _ = seed := pattern_zero seed

/-- A buffer holds one pattern. -/
theorem Holds.unique (h : Holds words bytes seed) (h' : Holds words bytes seed')
    (hbytes : 8 ≤ bytes) : seed = seed' :=
  (h.first hbytes).symm.trans (h'.first hbytes)

/-- A cleared buffer holds none. -/
theorem not_holds_zero (hseed : seed ≠ 0) (hbytes : 8 ≤ bytes) :
    ¬Holds (fun _ => 0) bytes seed :=
  fun h => hseed (h.first hbytes).symm

/-! ## The words of one pattern -/

/-- The factor of the index has an inverse modulo `2 ^ 64`. -/
theorem factor_mul_inverse : (0x9e3779b97f4a7c15 : UInt64) * 0xf1de83e19937733d = 1 := by decide

/-- No word of a pattern occurs twice. -/
theorem pattern_injective {i j : ℕ} (hi : i < 2 ^ 64) (hj : j < 2 ^ 64)
    (h : pattern i seed = pattern j seed) : i = j := by
  unfold pattern at h
  have hproduct := (UInt64.xor_left_inj seed).mp h
  have hindex : UInt64.ofNat i = UInt64.ofNat j := by
    calc UInt64.ofNat i = UInt64.ofNat i * (0x9e3779b97f4a7c15 * 0xf1de83e19937733d) := by
          rw [factor_mul_inverse, UInt64.mul_one]
      _ = UInt64.ofNat j * (0x9e3779b97f4a7c15 * 0xf1de83e19937733d) := by
          rw [← UInt64.mul_assoc, hproduct, UInt64.mul_assoc]
      _ = UInt64.ofNat j := by rw [factor_mul_inverse, UInt64.mul_one]
  have htoNat := congrArg UInt64.toNat hindex
  rwa [UInt64.toNat_ofNat_of_lt' hi, UInt64.toNat_ofNat_of_lt' hj] at htoNat

end SharingProbe.Share
