import SharingProbe.HalAio.Verification

/-!
# The arithmetic of an accepted run

The size test of `main` divides before it multiplies, so that no product wraps while it
is tested; it is the bound `1 ≤ blocks * shards * slotBytes ≤ 2 ^ 40`.  Whatever is
computed from accepted options afterwards is computed exactly.
-/

namespace SharingProbe.HalAio

/-! ## The size test -/

/-- The part of the test of `main` that is about the size of the buffer. -/
def Options.sizeRejected (opt : Options) : Bool :=
  opt.blocks = 0 || opt.shards = 0 || opt.slotBytes = 0 || opt.blocks > maxBytes / opt.shards ||
    sizeT (opt.blocks * opt.shards) > maxBytes / opt.slotBytes

/-- The other tests of `main`. -/
def Options.otherwiseRejected (opt : Options) : Bool :=
  opt.dir = "" || opt.depth = 0 || opt.iterations = 0 || opt.timeoutMs = 0 ||
    opt.depth > 2 ^ 31 - 1 || (opt.engine ≠ "aio" && opt.engine ≠ "psync") ||
    (opt.memoryType ≠ "hal" && opt.memoryType ≠ "malloc") ||
    (opt.tensorBytes ≠ 0 && (opt.engine ≠ "psync" || opt.slotBytes % opt.tensorBytes ≠ 0)) ||
    (opt.pages ≠ "auto" && opt.pages ≠ "normal" && opt.pages ≠ "huge")

theorem Options.invalid_eq (opt : Options) :
    opt.invalid = (opt.sizeRejected || opt.otherwiseRejected) := by
  unfold invalid sizeRejected otherwiseRejected
  ac_rfl

/-- The size of the buffer. -/
def Options.product (opt : Options) : ℕ := opt.blocks * opt.shards * opt.slotBytes

theorem Options.sizeRejected_eq_false_iff (opt : Options) :
    opt.sizeRejected = false ↔ 1 ≤ opt.product ∧ opt.product ≤ 2 ^ 40 := by
  unfold sizeRejected product
  simp only [Bool.or_eq_false_iff, decide_eq_false_iff_not, not_lt]
  constructor
  · rintro ⟨⟨⟨⟨hblocks, hshards⟩, hslot⟩, hmax⟩, htotal⟩
    have hshards' : 0 < opt.shards := Nat.pos_of_ne_zero hshards
    have hslot' : 0 < opt.slotBytes := Nat.pos_of_ne_zero hslot
    have hcount : opt.blocks * opt.shards ≤ maxBytes := (Nat.le_div_iff_mul_le hshards').mp hmax
    have hexact : sizeT (opt.blocks * opt.shards) = opt.blocks * opt.shards :=
      Nat.mod_eq_of_lt (lt_of_le_of_lt hcount (by decide))
    rw [hexact] at htotal
    exact ⟨Nat.mul_pos (Nat.mul_pos (Nat.pos_of_ne_zero hblocks) hshards') hslot',
      (Nat.le_div_iff_mul_le hslot').mp htotal⟩
  · rintro ⟨hpos, hle⟩
    have hslot : 0 < opt.slotBytes := Nat.pos_of_mul_pos_left hpos
    have hcountPos : 0 < opt.blocks * opt.shards := Nat.pos_of_mul_pos_right hpos
    have hcount : opt.blocks * opt.shards ≤ maxBytes :=
      (Nat.le_mul_of_pos_right _ hslot).trans hle
    have hexact : sizeT (opt.blocks * opt.shards) = opt.blocks * opt.shards :=
      Nat.mod_eq_of_lt (lt_of_le_of_lt hcount (by decide))
    have hshards : 0 < opt.shards := Nat.pos_of_mul_pos_left hcountPos
    have hblocks : 0 < opt.blocks := Nat.pos_of_mul_pos_right hcountPos
    rw [hexact]
    exact ⟨⟨⟨⟨by omega, by omega⟩, by omega⟩, (Nat.le_div_iff_mul_le hshards).mpr hcount⟩,
      (Nat.le_div_iff_mul_le hslot).mpr hle⟩

/-! ## What is computed from accepted options -/

/-- `pos` after some turns of the inner loop of the psync engine. -/
def Options.position (opt : Options) (turns : ℕ) : ℕ :=
  (fun pos => sizeT (pos + opt.unit))^[turns] 0

/-- Every size, offset and length is what it is in the integers. -/
structure Options.Exact (opt : Options) : Prop where
  bytes : opt.bytes = opt.product
  request : ∀ (buffer : Ptr) (dump : Bool) (fd i : ℕ), i < sizeT (opt.blocks * opt.shards) →
    (opt.iocb buffer dump fd i).buf = buffer + i * opt.slotBytes ∧ i * opt.slotBytes < 2 ^ 40 ∧
      (opt.iocb buffer dump fd i).offset = i % opt.shards * opt.slotBytes ∧
      i % opt.shards * opt.slotBytes < 2 ^ 40 ∧ i / opt.shards < opt.blocks
  psync : ∀ (buffer : Ptr) (dump : Bool) (fd block shard k : ℕ), block < opt.blocks →
    shard < opt.shards → k * opt.unit < opt.slotBytes →
    (opt.psyncTransfer buffer dump fd block shard k).addr =
        buffer + ((block * opt.shards + shard) * opt.slotBytes + k * opt.unit) ∧
      (block * opt.shards + shard) * opt.slotBytes + k * opt.unit < 2 ^ 40 ∧
      (opt.psyncTransfer buffer dump fd block shard k).offset =
        shard * opt.slotBytes + k * opt.unit ∧
      shard * opt.slotBytes + k * opt.unit < 2 ^ 40
  loop : opt.position ((opt.slotBytes + opt.unit - 1) / opt.unit) = opt.slotBytes ∧
    ∀ k < (opt.slotBytes + opt.unit - 1) / opt.unit,
      opt.position k = k * opt.unit ∧ k * opt.unit < opt.slotBytes
  text : ∀ n < opt.iterations, ∀ offset < opt.bytes,
    (recordText offset n opt).length < 127 ∧ (textRecord offset n opt).isSome = true

section Exact

variable {opt : Options}

theorem Options.Valid.position_eq (hopt : opt.Valid) : ∀ k,
    k * opt.unit ≤ opt.slotBytes → opt.position k = k * opt.unit := by
  have htotal := hopt.total
  have hslot : opt.slotBytes ≤ opt.blocks * opt.shards * opt.slotBytes :=
    Nat.le_mul_of_pos_left _ (Nat.mul_pos hopt.blocks hopt.shards)
  intro k hk
  induction k with
  | zero => exact (Nat.zero_mul _).symm
  | succ k ih =>
      rw [Nat.add_mul, Nat.one_mul] at hk ⊢
      unfold position at ih ⊢
      rw [Function.iterate_succ_apply', ih (by omega)]
      exact hopt.exact (by omega)

theorem Options.Valid.request_exact (hopt : opt.Valid) (buffer : Ptr) (dump : Bool) (fd i : ℕ)
    (hi : i < sizeT (opt.blocks * opt.shards)) :
    (opt.iocb buffer dump fd i).buf = buffer + i * opt.slotBytes ∧ i * opt.slotBytes < 2 ^ 40 ∧
      (opt.iocb buffer dump fd i).offset = i % opt.shards * opt.slotBytes ∧
      i % opt.shards * opt.slotBytes < 2 ^ 40 ∧ i / opt.shards < opt.blocks := by
  rw [hopt.count_eq] at hi
  obtain ⟨hblock, hshard, -⟩ := request_lt hopt hi
  have htotal := hopt.total
  have hend : (i + 1) * opt.slotBytes ≤ opt.blocks * opt.shards * opt.slotBytes :=
    Nat.mul_le_mul_right _ hi
  have hslot := hopt.slotBytes
  have hoffset : i % opt.shards * opt.slotBytes ≤ i * opt.slotBytes :=
    Nat.mul_le_mul_right _ (Nat.mod_le _ _)
  rw [Nat.add_mul, Nat.one_mul] at hend
  refine ⟨?_, by omega, hopt.exact (by omega), by omega, hblock⟩
  show buffer + sizeT (i * opt.slotBytes) = _
  rw [hopt.exact (by omega)]

theorem Options.Valid.psync_exact (hopt : opt.Valid) (buffer : Ptr) (dump : Bool)
    (fd block shard k : ℕ) (hblock : block < opt.blocks) (hshard : shard < opt.shards)
    (hk : k * opt.unit < opt.slotBytes) :
    (opt.psyncTransfer buffer dump fd block shard k).addr =
        buffer + ((block * opt.shards + shard) * opt.slotBytes + k * opt.unit) ∧
      (block * opt.shards + shard) * opt.slotBytes + k * opt.unit < 2 ^ 40 ∧
      (opt.psyncTransfer buffer dump fd block shard k).offset =
        shard * opt.slotBytes + k * opt.unit ∧
      shard * opt.slotBytes + k * opt.unit < 2 ^ 40 := by
  have hunit := hopt.unit_pos
  obtain ⟨q, hq⟩ := hopt.unit_dvd
  have hlast : k * opt.unit + opt.unit ≤ opt.slotBytes := by
    have hlt : k < q := by
      rw [hq, Nat.mul_comm] at hk
      exact Nat.lt_of_mul_lt_mul_left hk
    calc k * opt.unit + opt.unit = (k + 1) * opt.unit := by rw [Nat.add_mul, Nat.one_mul]
      _ ≤ q * opt.unit := Nat.mul_le_mul_right _ hlt
      _ = opt.slotBytes := by rw [hq, Nat.mul_comm]
  have hpaths : opt.Distinct ((List.range opt.blocks).map (archivedPath "")) :=
    distinct_map fun _ _ => archivedPath_injective
  obtain ⟨haims, -⟩ := psync_aims hopt hpaths buffer dump fd hblock hshard hlast
  have hwithin := within_block hshard hlast
  have hle := block_le hblock
  have htotal := hopt.total
  have hstart := opt.slotStart_eq block shard
  have hslot : opt.slotStart block shard = (block * opt.shards + shard) * opt.slotBytes := rfl
  refine ⟨haims.addr, by omega, hopt.exact (by omega), by omega⟩

theorem Options.Accepted.exact (h : opt.Accepted) : opt.Exact where
  bytes := h.valid.bytes_eq
  request := h.valid.request_exact
  psync := h.valid.psync_exact
  loop := by
    have hopt := h.valid
    have hunits := hopt.units
    have hunit := hopt.unit_pos
    constructor
    · rw [hopt.position_eq _ hunits.le, hunits]
    · intro k hk
      have hlt : (k + 1) * opt.unit ≤ opt.slotBytes :=
        (Nat.mul_le_mul_right _ hk).trans hunits.le
      rw [Nat.add_mul, Nat.one_mul] at hlt
      exact ⟨hopt.position_eq k (by omega), by omega⟩
  text := by
    intro n hn offset hoffset
    have hbytes := h.valid.bytes_le
    have hiterations := h.iterations_le
    have hfits : (recordText offset n opt).length ≤ 119 :=
      length_recordText_le (by omega) (by omega)
    rw [textRecord_eq_some opt (by omega) (by omega)]
    exact ⟨by omega, rfl⟩

end Exact

/-- The size test is the bound on the product, and everything after it is exact. -/
theorem arithmetic_exact (opt : Options) :
    (opt.sizeRejected = false ↔ 1 ≤ opt.product ∧ opt.product ≤ 2 ^ 40) ∧
      opt.invalid = (opt.sizeRejected || opt.otherwiseRejected) ∧ (opt.Accepted → opt.Exact) :=
  ⟨opt.sizeRejected_eq_false_iff, opt.invalid_eq, Options.Accepted.exact⟩

/-- As many blocks and iterations as the numbers of the command line can ask for. -/
def extreme : Options :=
  { dir := "/d", blocks := 2 ^ 40, shards := 1, slotBytes := 1, iterations := 2 ^ 40 }

theorem arithmetic_exact_extreme : extreme.Accepted ∧ extreme.Exact := by
  have haccepted : extreme.Accepted := by
    refine ⟨⟨["--dir", "/d", "--blocks", "1099511627776", "--shards", "1", "--slot-bytes", "1",
      "--iterations", "1099511627776"], rfl⟩, by decide⟩
  exact ⟨haccepted, (arithmetic_exact extreme).2.2 haccepted⟩

end SharingProbe.HalAio
