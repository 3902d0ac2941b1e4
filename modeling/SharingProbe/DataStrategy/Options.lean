import SharingProbe.DataStrategy.Setup

/-!
# The options of the demo

`main` reads six numbers, rejects what would make `Setup` or the address
arithmetic meaningless, and hands the rest to `Setup`.
-/

namespace SharingProbe

open Interaction

/-! ## What `main` passes to `Setup` -/

/-- The options of `main`, before they are checked. -/
structure Options where
  rank : ℕ := 0
  ranks : ℕ := 2
  deviceId : ℕ := 0
  slotSize : ℕ := 8 * 2 ^ 20
  slotsPerRank : ℕ := 256
  timeoutMs : ℕ := 600 * 1000
  deriving DecidableEq, Repr

/-- `std::numeric_limits<size_t>::max()`. -/
def sizeMax : ℕ := 2 ^ 64 - 1

/-- `INT_MAX`. -/
def intMax : ℕ := 2 ^ 31 - 1

/-- The check that makes `main` throw. -/
def Options.rejected (opts : Options) : Bool :=
  opts.ranks = 0 ∨ opts.ranks > 128 ∨ opts.rank ≥ opts.ranks ∨ opts.deviceId > intMax ∨
    opts.slotSize = 0 ∨ opts.slotsPerRank = 0 ∨ opts.slotsPerRank > sizeMax / opts.slotSize ∨
    opts.slotsPerRank > sizeMax / opts.ranks ∨ opts.timeoutMs > intMax

/-- The options that `main` admits. -/
def Options.Admitted (opts : Options) : Prop := opts.rejected = false

instance (opts : Options) : Decidable opts.Admitted := inferInstanceAs (Decidable (_ = _))

/-- The arguments that `main` passes to `Setup`, with `ctrl.SlotCount()` of the
`CtrlLayout` it has built. -/
def Options.setupArgs (opts : Options) : DataStrategy.SetupArgs where
  slotCount := sizeT (opts.ranks * opts.slotsPerRank)
  deviceId := opts.deviceId
  myRank := opts.rank
  slotSize := opts.slotSize
  nSlotsPerRank := opts.slotsPerRank
  timeoutMs := opts.timeoutMs

/-- The check of `main`, read as bounds. -/
structure Options.Bounds (opts : Options) : Prop where
  rank : opts.rank < opts.ranks
  ranks : opts.ranks ≤ 128
  deviceId : opts.deviceId < 2 ^ 31
  slotSize : 0 < opts.slotSize
  slotsPerRank : 0 < opts.slotsPerRank
  dataBytes : opts.slotSize * opts.slotsPerRank < 2 ^ 64
  slotCount : opts.ranks * opts.slotsPerRank < 2 ^ 64
  timeoutMs : opts.timeoutMs < 2 ^ 31

theorem Options.Admitted.bounds {opts : Options} (h : opts.Admitted) : opts.Bounds := by
  unfold Admitted rejected at h
  simp only [decide_eq_false_iff_not, not_or, not_lt, ge_iff_le, not_le, gt_iff_lt] at h
  obtain ⟨hranks, hmax, hrank, hdevice, hsize, hslots, hbytes, hcount, htimeout⟩ := h
  have hsize : 0 < opts.slotSize := Nat.pos_of_ne_zero hsize
  have hbytes : opts.slotsPerRank * opts.slotSize ≤ sizeMax :=
    (Nat.le_div_iff_mul_le hsize).mp hbytes
  have hcount : opts.slotsPerRank * opts.ranks ≤ sizeMax :=
    (Nat.le_div_iff_mul_le (Nat.pos_of_ne_zero hranks)).mp hcount
  rw [Nat.mul_comm] at hbytes hcount
  unfold sizeMax at hbytes hcount
  unfold intMax at hdevice htimeout
  exact ⟨hrank, hmax, by omega, hsize, Nat.pos_of_ne_zero hslots, by omega, by omega, by omega⟩

/-- Dividing the slot count by the slots per rank gives back the ranks. -/
theorem Options.Bounds.nRanks {opts : Options} (h : opts.Bounds) :
    opts.setupArgs.nRanks = opts.ranks := by
  show sizeT (opts.ranks * opts.slotsPerRank) / opts.slotsPerRank = opts.ranks
  unfold sizeT
  rw [Nat.mod_eq_of_lt h.slotCount, Nat.mul_div_cancel _ h.slotsPerRank]

theorem Options.Bounds.valid {opts : Options} (h : opts.Bounds) :
    opts.setupArgs.Valid where
  nSlotsPerRank := h.slotsPerRank
  myRank := h.rank.trans_eq h.nRanks.symm

/-! ## An example -/

/-- The second of two ranks. -/
def twoRanks : Options where
  rank := 1
  slotSize := 4096
  slotsPerRank := 4

/-- The environment of a rank in which `halMemMap` fails with Huge pages and every
other call succeeds.  The share handle of a rank is `7` more than the rank. -/
def hugeFails (myRank : ℕ) (t : List DSEvent) : (call : Call) → call.Reply
  | ⟨_, _, .aclrtSetDevice _⟩ => .ok ()
  | ⟨_, _, .resizeMappings _⟩ => true
  | ⟨_, _, .halMemGetAllocationGranularity _⟩ => .ok (2 ^ 21)
  | ⟨_, _, .halMemAddressReserve _⟩ => .ok (2 ^ 40 + 2 ^ 30 * t.length)
  | ⟨_, _, .halMemCreate _ _⟩ => .ok 1
  | ⟨_, _, .halMemMap _ _ _⟩ => if t.length < 8 then .error ⟨6, by decide⟩ else .ok ()
  | ⟨_, _, .halMemUnmap _⟩ => .ok ()
  | ⟨_, _, .halMemRelease _⟩ => .ok ()
  | ⟨_, _, .halMemAddressFree _⟩ => .ok ()
  | ⟨_, _, .halMemExportToShareableHandle _⟩ => .ok (UInt64.ofNat (7 + myRank))
  | ⟨_, _, .halMemShareHandleSetAttribute _⟩ => .ok ()
  | ⟨_, _, .halMemImportFromShareableHandle token _⟩ => .ok token.toNat
  | ⟨_, _, .setRankDesc _ _⟩ => .ok
  | ⟨_, _, .getRankDesc rank⟩ => .ok (.ok (UInt64.ofNat (7 + rank)))
  | ⟨_, _, .steadyClockNow⟩ => t.length
  | ⟨_, _, .sleepUntil _⟩ => ()

end SharingProbe
