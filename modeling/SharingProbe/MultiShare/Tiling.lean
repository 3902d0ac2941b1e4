import Mathlib
import SharingProbe.MultiShare.Options

/-!
# The slices of a worker

A worker reserves the total of all blocks, rounded up to 1 GiB, and maps the block of
each owner at its own distance from the base.  For accepted options nothing of this
wraps, and the slices tile the front of the reservation.
-/

namespace SharingProbe.MultiShare

/-! ## Tilings -/

section Tiles

variable (base size count : ℕ)

/-- Where a tile begins. -/
def tileStart (i : ℕ) : ℕ := base + i * size

/-- The addresses of a tile. -/
def tile (i : ℕ) : Set ℕ := Set.Ico (tileStart base size i) (tileStart base size (i + 1))

@[simp] theorem tileStart_zero : tileStart base size 0 = base := by simp [tileStart]

theorem tileStart_mono : Monotone (tileStart base size) := fun _ _ hij =>
  Nat.add_le_add_left (Nat.mul_le_mul_right size hij) base

theorem tile_subset {i : ℕ} (hi : i < count) :
    tile base size i ⊆ Set.Ico base (tileStart base size count) := by
  apply Set.Ico_subset_Ico
  · simpa using tileStart_mono base size (Nat.zero_le i)
  · exact tileStart_mono base size hi

theorem tile_disjoint {i j : ℕ} (hij : i ≠ j) : Disjoint (tile base size i) (tile base size j) :=
  (tileStart_mono base size).pairwise_disjoint_on_Ico_succ hij

/-- The induction is on the number of tiles. -/
theorem iUnion_tile :
    ⋃ i < count, tile base size i = Set.Ico base (tileStart base size count) := by
  induction count with
  | zero => simp
  | succ count ih =>
      have hle : base ≤ tileStart base size count := by
        simpa using tileStart_mono base size (Nat.zero_le count)
      rw [Set.biUnion_lt_succ, ih]
      exact Set.Ico_union_Ico_eq_Ico hle (tileStart_mono base size (Nat.le_succ count))

end Tiles

/-! ## The sizes -/

section Sizes

variable {opt : MultiOptions} {rounds hostNumaSide : ℕ}

theorem total_exact (hopt : opt.Fits) :
    (opt.config rounds hostNumaSide).total = opt.bytes * opt.devices.length := by
  have htotal := hopt.total
  have hlt : opt.bytes * opt.devices.length < 2 ^ 64 := by omega
  exact Nat.mod_eq_of_lt hlt

theorem total_room (hopt : opt.Fits) :
    (opt.config rounds hostNumaSide).total + (vaAlignment - 1) < 2 ^ 64 := by
  have htotal := hopt.total
  rw [total_exact hopt]
  unfold vaAlignment
  omega

theorem reserveBytes_rounded (hopt : opt.Fits) :
    Rounding.IsRoundedUp (opt.config rounds hostNumaSide).total vaAlignment
      (opt.config rounds hostNumaSide).reserveBytes := by
  have hroom : (opt.config rounds hostNumaSide).total + (vaAlignment - 1) < 2 ^ 64 :=
    total_room hopt
  unfold Config.reserveBytes
  rw [sizeT, Nat.mod_eq_of_lt hroom]
  unfold vaAlignment at hroom ⊢
  rw [← Nat.add_sub_assoc Nat.one_le_two_pow] at hroom ⊢
  exact Rounding.isRoundedUp_land_mask (by decide) hroom

end Sizes

/-! ## The slices -/

section Slices

variable (cfg : Config) (base : ℕ)

/-- The address of a slice, `static_cast<char*>(base) + owner * opt.bytes`. -/
def Config.slice (owner : ℕ) : ℕ := sizeT (base + sizeT (owner * cfg.bytes))

/-- The addresses of a slice. -/
def Config.sliceSet (owner : ℕ) : Set ℕ :=
  Set.Ico (cfg.slice base owner) (cfg.slice base owner + cfg.bytes)

/-- Nothing wraps, and the slices tile the front of the reservation. -/
structure Config.Tiled : Prop where
  total : cfg.total = cfg.bytes * cfg.count
  room : cfg.total + (vaAlignment - 1) < 2 ^ 64
  reserve : Rounding.IsRoundedUp cfg.total vaAlignment cfg.reserveBytes
  slice : ∀ owner < cfg.count, cfg.slice base owner = base + owner * cfg.bytes
  contiguous : ∀ owner, owner + 1 < cfg.count →
    cfg.slice base (owner + 1) = cfg.slice base owner + cfg.bytes
  aligned : ∀ owner < cfg.count, 2 * 2 ^ 20 ∣ cfg.slice base owner
  disjoint : ∀ owner < cfg.count, ∀ other < cfg.count, owner ≠ other →
    Disjoint (cfg.sliceSet base owner) (cfg.sliceSet base other)
  cover : ⋃ owner < cfg.count, cfg.sliceSet base owner = Set.Ico base (base + cfg.total)
  inside : ∀ owner < cfg.count, cfg.sliceSet base owner ⊆ Set.Ico base (base + cfg.reserveBytes)

end Slices

section Accepted

variable {opt : MultiOptions} {rounds hostNumaSide base : ℕ}

/-- Addresses inside of the address space are computed exactly. -/
theorem slice_exact (hopt : opt.Fits)
    (hspace : base + (opt.config rounds hostNumaSide).total ≤ 2 ^ 64) {owner : ℕ}
    (howner : owner < opt.devices.length) :
    (opt.config rounds hostNumaSide).slice base owner = base + owner * opt.bytes := by
  rw [total_exact hopt] at hspace
  have hpos := hopt.size.pos
  have hle : (owner + 1) * opt.bytes ≤ opt.bytes * opt.devices.length := by
    rw [Nat.mul_comm opt.bytes]
    exact Nat.mul_le_mul_right _ howner
  rw [Nat.add_mul, Nat.one_mul] at hle
  have hproduct : sizeT (owner * opt.bytes) = owner * opt.bytes := Nat.mod_eq_of_lt (by omega)
  calc (opt.config rounds hostNumaSide).slice base owner
      = sizeT (base + sizeT (owner * opt.bytes)) := rfl
    _ = sizeT (base + owner * opt.bytes) := by rw [hproduct]
    _ = base + owner * opt.bytes := Nat.mod_eq_of_lt (by omega)

theorem sliceSet_eq_tile (hopt : opt.Fits)
    (hspace : base + (opt.config rounds hostNumaSide).total ≤ 2 ^ 64) {owner : ℕ}
    (howner : owner < opt.devices.length) :
    (opt.config rounds hostNumaSide).sliceSet base owner = tile base opt.bytes owner := by
  unfold Config.sliceSet tile tileStart
  rw [slice_exact hopt hspace howner, Nat.add_mul, Nat.one_mul, Nat.add_assoc]
  rfl

/-- For the options that `main` accepts and a base that `worker` accepts, the reservation
holds the slices of all owners, one after the other. -/
theorem slices_tiled (hopt : opt.Accepted) (haligned : base % vaAlignment = 0)
    (hspace : base + (opt.config rounds hostNumaSide).reserveBytes ≤ 2 ^ 64) :
    (opt.config rounds hostNumaSide).Tiled base := by
  have hfits := hopt.fits
  have htotal : (opt.config rounds hostNumaSide).total = opt.bytes * opt.devices.length :=
    total_exact hfits
  have hreserve : Rounding.IsRoundedUp (opt.config rounds hostNumaSide).total vaAlignment
      (opt.config rounds hostNumaSide).reserveBytes := reserveBytes_rounded hfits
  have hle := hreserve.le
  have hinside : base + (opt.config rounds hostNumaSide).total ≤ 2 ^ 64 := by omega
  have hend : tileStart base opt.bytes opt.devices.length =
      base + (opt.config rounds hostNumaSide).total := by
    rw [htotal, tileStart, Nat.mul_comm]
  exact {
    total := htotal
    room := total_room hfits
    reserve := hreserve
    slice := fun owner howner => slice_exact hfits hinside howner
    contiguous := fun owner howner => by
      rw [slice_exact hfits hinside howner,
        slice_exact hfits hinside (Nat.lt_of_succ_lt howner), Nat.add_mul, Nat.one_mul,
        Nat.add_assoc]
      rfl
    aligned := fun owner howner => by
      rw [slice_exact hfits hinside howner]
      have hbase : 2 * 2 ^ 20 ∣ base :=
        Nat.dvd_trans (by decide) (Nat.dvd_of_mod_eq_zero haligned)
      exact Nat.dvd_add hbase (Nat.dvd_mul_left_of_dvd hfits.size.dvd owner)
    disjoint := fun owner howner other hother hne => by
      rw [sliceSet_eq_tile hfits hinside howner, sliceSet_eq_tile hfits hinside hother]
      exact tile_disjoint base opt.bytes hne
    cover := by
      rw [← hend, ← iUnion_tile]
      exact Set.iUnion₂_congr fun owner howner => sliceSet_eq_tile hfits hinside howner
    inside := fun owner howner => by
      rw [sliceSet_eq_tile hfits hinside howner]
      apply (tile_subset base opt.bytes opt.devices.length howner).trans
      rw [hend]
      exact Set.Ico_subset_Ico_right (by omega) }

/-- Two devices with 2 MiB each, at the first GiB. -/
theorem slices_tiled_twoDevices :
    (MultiOptions.config { devices := [0, 1], nodes := [0, 0] } 2 0).Tiled (2 ^ 30) :=
  slices_tiled
    { parsed := ⟨["--devices", "0,1", "--numa-nodes", "0,0"], by rfl⟩
      checked := by rfl }
    (by decide) (by decide)

end Accepted

end SharingProbe.MultiShare
