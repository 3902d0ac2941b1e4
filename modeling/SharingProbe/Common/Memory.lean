import Mathlib.Algebra.Order.Group.Nat
import SharingProbe.Library.Rounding

/-!
# Sizes and addresses

What the programs of the repository share about memory: the arithmetic of `size_t`,
addresses, and the rounding of an allocation to the alignments of HAL.
-/

namespace SharingProbe

/-- A `size_t` computation, which wraps. -/
def sizeT (n : ℕ) : ℕ := n % 2 ^ 64

/-- `(dataBytes + alignment - 1) / alignment * alignment` in `size_t`. -/
def roundUp (dataBytes alignment : ℕ) : ℕ :=
  sizeT (sizeT (sizeT (dataBytes + alignment) + (2 ^ 64 - 1)) / alignment * alignment)

/-- An address; `0` is `nullptr`. -/
abbrev Ptr := ℕ

/-! ## When a size is exact -/

theorem roundUp_eq (dataBytes alignment : ℕ) :
    roundUp dataBytes alignment = Rounding.roundUpMod (2 ^ 64) dataBytes alignment := rfl

/-- An allocation of `dataBytes` bytes rounded up to the least common multiple of
two alignments fits into `size_t`. -/
structure Fits (dataBytes alignment granularity : ℕ) : Prop where
  lcm : Nat.lcm alignment granularity < 2 ^ 64
  sum : dataBytes + Nat.lcm alignment granularity ≤ 2 ^ 64

/-- The least common multiple and the rounded size are computed exactly. -/
structure ExactStride (dataBytes alignment granularity stride : ℕ) : Prop where
  lcm : sizeT (Nat.lcm alignment granularity) = Nat.lcm alignment granularity
  rounded : Rounding.IsRoundedUp dataBytes (Nat.lcm alignment granularity) stride

/-- The computation of a stride is exact if and only if it fits. -/
theorem exactStride_iff {dataBytes alignment granularity : ℕ} (hbytes : dataBytes < 2 ^ 64)
    (halignment : 0 < alignment) (hgranularity : 0 < granularity) :
    ExactStride dataBytes alignment granularity
        (roundUp dataBytes (sizeT (Nat.lcm alignment granularity))) ↔
      Fits dataBytes alignment granularity := by
  have hpos : 0 < Nat.lcm alignment granularity := Nat.lcm_pos halignment hgranularity
  constructor
  · rintro ⟨hlcm, hrounded⟩
    have hlt : Nat.lcm alignment granularity < 2 ^ 64 := by
      rw [← hlcm]
      exact Nat.mod_lt _ (by decide)
    rw [hlcm, roundUp_eq] at hrounded
    exact ⟨hlt, (Rounding.isRoundedUp_roundUpMod_iff hpos hbytes hlt).mp hrounded⟩
  · rintro ⟨hlt, hsum⟩
    have hlcm : sizeT (Nat.lcm alignment granularity) = Nat.lcm alignment granularity :=
      Nat.mod_eq_of_lt hlt
    refine ⟨hlcm, ?_⟩
    rw [hlcm, roundUp_eq]
    exact (Rounding.isRoundedUp_roundUpMod_iff hpos hbytes hlt).mpr hsum

end SharingProbe
