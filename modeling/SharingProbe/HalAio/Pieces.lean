import SharingProbe.HalAio.World

/-!
# The pieces of the buffer

`main` admits only sizes for which the arithmetic of the two engines is exact.  Byte
`o` of the buffer belongs to the file of block `o / (shards * slotBytes)`, at offset
`o % (shards * slotBytes)`.  The psync engine moves a block shard by shard and a shard
tensor by tensor; the AIO engine moves a slot by one request.  Both address the
bytes where the layout has them.
-/

namespace SharingProbe.HalAio

open Storage

/-! ## Options that are accepted -/

/-- The sizes that `main` admits. -/
structure Options.Valid (opt : Options) : Prop where
  blocks : 0 < opt.blocks
  shards : 0 < opt.shards
  slotBytes : 0 < opt.slotBytes
  total : opt.blocks * opt.shards * opt.slotBytes ≤ 2 ^ 40
  tensor : opt.tensorBytes ≠ 0 → opt.tensorBytes ∣ opt.slotBytes

theorem Options.valid_of_accepted {opt : Options} (h : opt.invalid = false) : opt.Valid := by
  unfold Options.invalid at h
  simp only [Bool.or_eq_false_iff, decide_eq_false_iff_not, Bool.and_eq_false_iff] at h
  obtain ⟨⟨⟨⟨⟨⟨⟨⟨⟨⟨⟨⟨⟨-, hblocks⟩, hshards⟩, hslot⟩, -⟩, -⟩, -⟩, -⟩, -⟩, -⟩, htensor⟩, hmax⟩,
    htotal⟩,
    -⟩ := h
  have hshards' : 0 < opt.shards := by omega
  have hslot' : 0 < opt.slotBytes := by omega
  have hcount : opt.blocks * opt.shards ≤ maxBytes :=
    (Nat.le_div_iff_mul_le hshards').mp (by omega)
  have hexact : sizeT (opt.blocks * opt.shards) = opt.blocks * opt.shards :=
    Nat.mod_eq_of_lt (lt_of_le_of_lt hcount (by decide))
  rw [hexact] at htotal
  refine ⟨by omega, hshards', hslot', (Nat.le_div_iff_mul_le hslot').mp (not_lt.mp htotal), ?_⟩
  intro hne
  rcases htensor with hzero | ⟨-, hmod⟩
  · exact absurd hne hzero
  · exact Nat.dvd_of_mod_eq_zero (not_not.mp hmod)

/-- How many bytes the psync engine moves with one call. -/
def Options.unit (opt : Options) : ℕ :=
  if opt.tensorBytes ≠ 0 then opt.tensorBytes else opt.slotBytes

section Sizes

variable {opt : Options}

theorem Options.Valid.unit_pos (hopt : opt.Valid) : 0 < opt.unit := by
  have hslot := hopt.slotBytes
  unfold Options.unit
  split <;> omega

theorem Options.Valid.unit_dvd (hopt : opt.Valid) : opt.unit ∣ opt.slotBytes := by
  unfold Options.unit
  split
  · exact hopt.tensor ‹_›
  · exact Nat.dvd_refl _

/-- The inner loop of the psync engine ends exactly at the end of the slot. -/
theorem Options.Valid.units (hopt : opt.Valid) :
    (opt.slotBytes + opt.unit - 1) / opt.unit * opt.unit = opt.slotBytes := by
  obtain ⟨k, hk⟩ := hopt.unit_dvd
  have hpos := hopt.unit_pos
  have hquotient : (opt.slotBytes + opt.unit - 1) / opt.unit = k := by
    rw [hk, Nat.add_sub_assoc hpos, Nat.mul_add_div hpos, Nat.div_eq_of_lt (by omega), add_zero]
  rw [hquotient, Nat.mul_comm]
  exact hk.symm

/-- A size up to that of the buffer is computed exactly. -/
theorem Options.Valid.exact (hopt : opt.Valid) {n : ℕ}
    (hn : n ≤ opt.blocks * opt.shards * opt.slotBytes) : sizeT n = n :=
  Nat.mod_eq_of_lt (lt_of_le_of_lt (hn.trans hopt.total) (by decide))

theorem Options.Valid.count_eq (hopt : opt.Valid) :
    sizeT (opt.blocks * opt.shards) = opt.blocks * opt.shards :=
  hopt.exact (Nat.le_mul_of_pos_right _ hopt.slotBytes)

theorem Options.Valid.bytes_eq (hopt : opt.Valid) :
    opt.bytes = opt.blocks * opt.shards * opt.slotBytes := by
  unfold Options.bytes
  rw [hopt.count_eq, hopt.exact le_rfl]

/-! ## Where the pieces lie -/

/-- The bytes of one block. -/
def Options.blockBytes (opt : Options) : ℕ := opt.shards * opt.slotBytes

/-- The paths of different blocks differ. -/
def Options.Distinct (opt : Options) (paths : List String) : Prop :=
  ∀ a < opt.blocks, ∀ b < opt.blocks, paths.getD a "" = paths.getD b "" → a = b

/-- The buffer as it is spread over the files. -/
def Options.layout (opt : Options) (hopt : opt.Valid) (paths : List String)
    (hpaths : opt.Distinct paths) : Layout String where
  name b := paths.getD b ""
  files := opt.blocks
  length := opt.blockBytes
  length_pos := Nat.mul_pos hopt.shards hopt.slotBytes
  distinct := hpaths

/-- Where the slot of a shard begins. -/
def Options.slotStart (opt : Options) (block shard : ℕ) : ℕ :=
  (block * opt.shards + shard) * opt.slotBytes

theorem Options.slotStart_eq (block shard : ℕ) :
    opt.slotStart block shard = block * opt.blockBytes + shard * opt.slotBytes := by
  unfold Options.slotStart Options.blockBytes
  rw [Nat.add_mul, Nat.mul_assoc]

variable {paths : List String} {hpaths : opt.Distinct paths} {buffer : Ptr} {dump : Bool}

theorem layout_total (hopt : opt.Valid) :
    (opt.layout hopt paths hpaths).total = opt.blocks * opt.shards * opt.slotBytes := by
  show opt.blocks * (opt.shards * opt.slotBytes) = _
  rw [Nat.mul_assoc]

/-- A place in a block, and where it is in its file. -/
theorem place_of_block (block : ℕ) {rest : ℕ} (hrest : rest < opt.blockBytes) :
    (block * opt.blockBytes + rest) / opt.blockBytes = block ∧
      (block * opt.blockBytes + rest) % opt.blockBytes = rest := by
  have hpos : 0 < opt.blockBytes := by omega
  rw [Nat.mul_comm, Nat.mul_add_div hpos, Nat.mul_add_mod, Nat.div_eq_of_lt hrest,
    Nat.mod_eq_of_lt hrest, add_zero]
  exact ⟨rfl, rfl⟩

/-- A part of a slot lies in its block. -/
theorem within_block {shard pos n : ℕ} (hshard : shard < opt.shards)
    (hpos : pos + n ≤ opt.slotBytes) :
    shard * opt.slotBytes + pos + n ≤ opt.blockBytes := by
  have hnext : (shard + 1) * opt.slotBytes ≤ opt.blockBytes :=
    Nat.mul_le_mul_right _ (by omega)
  rw [Nat.add_mul, Nat.one_mul] at hnext
  omega

theorem block_le {block : ℕ} (hblock : block < opt.blocks) :
    block * opt.blockBytes + opt.blockBytes ≤ opt.blocks * opt.shards * opt.slotBytes := by
  have hnext : (block + 1) * opt.blockBytes ≤ opt.blocks * opt.blockBytes :=
    Nat.mul_le_mul_right _ (by omega)
  rw [Nat.add_mul, Nat.one_mul] at hnext
  rw [Nat.mul_assoc]
  exact hnext

/-- A transfer that addresses a part of a slot as both engines do. -/
theorem aims_of_part (hopt : opt.Valid) (hpaths : opt.Distinct paths) {block shard pos : ℕ}
    {t : Transfer}
    (hblock : block < opt.blocks) (hshard : shard < opt.shards)
    (hpos : pos + t.bytes ≤ opt.slotBytes) (hbytes : 0 < t.bytes)
    (haddr : t.addr = buffer + (opt.slotStart block shard + pos))
    (hoffset : t.offset = shard * opt.slotBytes + pos) :
    (opt.layout hopt paths hpaths).Aims buffer t (opt.slotStart block shard + pos) ∧
      (opt.slotStart block shard + pos) / opt.blockBytes = block := by
  have hwithin := within_block hshard hpos
  have hstart : opt.slotStart block shard + pos =
      block * opt.blockBytes + (shard * opt.slotBytes + pos) := by
    rw [Options.slotStart_eq, add_assoc]
  have hrest : shard * opt.slotBytes + pos < opt.blockBytes := by omega
  obtain ⟨hdiv, hmod⟩ := place_of_block block hrest
  refine ⟨⟨haddr, ?_, ?_, ?_⟩, by rw [hstart, hdiv]⟩
  · show t.offset = (opt.slotStart block shard + pos) % opt.blockBytes
    rw [hoffset, hstart, hmod]
  · show (opt.slotStart block shard + pos) % opt.blockBytes + t.bytes ≤ opt.blockBytes
    rw [hstart, hmod]
    exact hwithin
  · show (opt.slotStart block shard + pos) / opt.blockBytes < opt.blocks
    rw [hstart, hdiv]
    exact hblock

/-- The transfer of turn `k` of the inner loop of the psync engine. -/
def Options.psyncTransfer (opt : Options) (buffer : Ptr) (dump : Bool) (fd block shard k : ℕ) :
    Transfer where
  toFile := dump
  desc := fd
  offset := sizeT (shard * opt.slotBytes + k * opt.unit)
  addr := buffer + sizeT (sizeT (sizeT (block * opt.shards) * opt.slotBytes) +
    sizeT (shard * opt.slotBytes + k * opt.unit))
  bytes := opt.unit

theorem psync_aims (hopt : opt.Valid) (hpaths : opt.Distinct paths) (buffer : Ptr) (dump : Bool)
    (fd : ℕ) {block shard k : ℕ} (hblock : block < opt.blocks) (hshard : shard < opt.shards)
    (hk : k * opt.unit + opt.unit ≤ opt.slotBytes) :
    (opt.layout hopt paths hpaths).Aims buffer (opt.psyncTransfer buffer dump fd block shard k)
        (opt.slotStart block shard + k * opt.unit) ∧
      (opt.slotStart block shard + k * opt.unit) / opt.blockBytes = block := by
  have hwithin := within_block hshard hk
  have hle := block_le hblock
  have hunit := hopt.unit_pos
  have hcount : sizeT (block * opt.shards) = block * opt.shards := by
    refine hopt.exact ((Nat.mul_le_mul_right _ hblock.le).trans ?_)
    exact Nat.le_mul_of_pos_right _ hopt.slotBytes
  have hblockStart : sizeT (block * opt.shards * opt.slotBytes) = block * opt.blockBytes := by
    rw [Nat.mul_assoc]
    exact hopt.exact (by unfold Options.blockBytes at hle; omega)
  have hoffset : sizeT (shard * opt.slotBytes + k * opt.unit) =
      shard * opt.slotBytes + k * opt.unit := hopt.exact (by omega)
  refine aims_of_part hopt hpaths hblock hshard hk hunit ?_ hoffset
  show buffer + sizeT (sizeT (sizeT (block * opt.shards) * opt.slotBytes) +
    sizeT (shard * opt.slotBytes + k * opt.unit)) = _
  rw [hcount, hblockStart, hoffset, hopt.exact (by omega), Options.slotStart_eq, add_assoc]

theorem request_lt (hopt : opt.Valid) {i : ℕ} (hi : i < opt.blocks * opt.shards) :
    i / opt.shards < opt.blocks ∧ i % opt.shards < opt.shards ∧
      opt.slotStart (i / opt.shards) (i % opt.shards) = i * opt.slotBytes := by
  refine ⟨(Nat.div_lt_iff_lt_mul hopt.shards).mpr hi, Nat.mod_lt _ hopt.shards, ?_⟩
  unfold Options.slotStart
  rw [Nat.mul_comm (i / opt.shards), Nat.div_add_mod]

theorem request_aims (hopt : opt.Valid) (hpaths : opt.Distinct paths) (buffer : Ptr) (dump : Bool)
    (fd : ℕ) {i : ℕ} (hi : i < opt.blocks * opt.shards) :
    (opt.layout hopt paths hpaths).Aims buffer (opt.iocb buffer dump fd i).transfer
        (i * opt.slotBytes) ∧
      i * opt.slotBytes / opt.blockBytes = i / opt.shards := by
  obtain ⟨hblock, hshard, hstart⟩ := request_lt hopt hi
  have hle := block_le hblock
  have hwhole : 0 + opt.slotBytes ≤ opt.slotBytes := (Nat.zero_add _).le
  have hwithin := within_block hshard hwhole
  have hslot := opt.slotStart_eq (i / opt.shards) (i % opt.shards)
  rw [hstart] at hslot
  have haddr : buffer + sizeT (i * opt.slotBytes) =
      buffer + (opt.slotStart (i / opt.shards) (i % opt.shards) + 0) := by
    rw [hopt.exact (by omega), hstart, add_zero]
  have hoffset : sizeT (i % opt.shards * opt.slotBytes) = i % opt.shards * opt.slotBytes + 0 :=
    hopt.exact (by omega)
  have haims := aims_of_part (t := (opt.iocb buffer dump fd i).transfer) hopt hpaths
    hblock hshard hwhole hopt.slotBytes haddr hoffset
  rwa [hstart] at haims

end Sizes

end SharingProbe.HalAio
