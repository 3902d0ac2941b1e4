import SharingProbe.DataStrategy.Options

/-!
# Slot queries

`HostAccessibleOf` looks at the owner only, `DataAt` and `DeviceDataAt` look at
`mappings_` as well.  That the three agree is a fact about the states that
`Setup` leaves behind: an object is either untouched or every rank is mapped at
a non-null address and the owner is one of them.
-/

namespace SharingProbe

open Interaction

namespace DataStrategy

/-! ## The states between two calls -/

/-- The object that `Setup` with these options leaves when it succeeds. -/
structure Tiled (opts : Options) (data : DataStrategy) : Prop where
  length : data.mappings.length = opts.ranks
  owner : data.owner = opts.rank
  slotSize : data.slotSize = opts.slotSize
  nSlotsPerRank : data.nSlotsPerRank = opts.slotsPerRank
  mapped : ∀ rank < opts.ranks,
    (data.mapping rank).mapped = true ∧ (data.mapping rank).addr ≠ 0

theorem Established.tiled {opts : Options} {before t : List DSEvent} {data : DataStrategy}
    (hopts : opts.Bounds) (h : Established opts.setupArgs before data t) : Tiled opts data := by
  refine ⟨h.ready.length.trans hopts.nRanks, h.owner, h.slotSize, h.nSlotsPerRank, ?_⟩
  intro rank hrank
  by_cases hown : rank = data.owner
  · obtain ⟨handle, addr, pageType, haddr, hentry, -⟩ := h.ready.own
    rw [hown, hentry]
    exact ⟨rfl, haddr⟩
  · rw [← hopts.nRanks] at hrank
    obtain ⟨handle, addr, shareHandle, haddr, hentry, -⟩ := h.ready.peers rank hrank hown
    rw [hentry]
    exact ⟨rfl, haddr⟩

/-- The states that sequences of `Setup` calls reach, with the options of the
call that has succeeded. -/
inductive Reached : DataStrategy → Option Options → Prop
  | init : Reached {} none
  | setup {data data' : DataStrategy} {succeeded : Option Options} {opts : Options} {fuel : ℕ}
      {t : List DSEvent} {status : Status} (hdata : Reached data succeeded)
      (hopts : opts.Admitted)
      (hrun : (DataStrategy.setup fuel opts.setupArgs data).Runs t (.ok status, data')) :
      Reached data' (if status.success then some opts else succeeded)

/-- An untouched object, or one that a `Setup` with admitted options has tiled. -/
def Shape (data : DataStrategy) : Option Options → Prop
  | none => Idle data []
  | some opts => opts.Bounds ∧ Tiled opts data

theorem Reached.shape {data : DataStrategy} {succeeded : Option Options}
    (h : Reached data succeeded) : Shape data succeeded := by
  induction h with
  | init => exact ⟨rfl, rfl, rfl⟩
  | @setup data data' succeeded opts fuel t status _ hopts hrun ih =>
      cases succeeded with
      | none =>
          obtain ⟨status', hstatus', hsuccess, hfail⟩ :=
            Prog.Meets.post_of_runs (setup_meets ih hopts.bounds.valid) hrun
          cases hstatus'
          cases hstatus : status.success with
          | true =>
              rw [if_pos rfl]
              exact ⟨hopts.bounds, (hsuccess hstatus).tiled hopts.bounds⟩
          | false =>
              rw [if_neg (by decide)]
              exact ⟨(hfail hstatus).mappings, (hfail hstatus).nSlotsPerRank, rfl⟩
      | some done =>
          obtain ⟨hdone, htiled⟩ := ih
          have hinit : data.nSlotsPerRank ≠ 0 := by
            rw [htiled.nSlotsPerRank]
            exact hdone.slotsPerRank.ne'
          rw [setup_of_initialized hinit] at hrun
          cases hrun
          exact ⟨hdone, htiled⟩

/-! ## The queries -/

/-- No address inside the data of a mapped rank is null. -/
def NoNullWrap (data : DataStrategy) : Prop :=
  ∀ rank < data.mappings.length, ∀ offset < data.slotSize * data.nSlotsPerRank,
    (data.mapping rank).addr ≠ 0 → ptrAdd (data.mapping rank).addr offset ≠ 0

/-- The byte offset of a slot inside its rank does not wrap and leaves room for
the slot. -/
theorem slotOffset_add_le (slotSize slotIdx : ℕ) {nSlots : ℕ} (hslots : 0 < nSlots) :
    slotIdx % nSlots * slotSize + slotSize ≤ slotSize * nSlots := by
  have hlt : slotIdx % nSlots < nSlots := Nat.mod_lt _ hslots
  calc slotIdx % nSlots * slotSize + slotSize
      = (slotIdx % nSlots + 1) * slotSize := (Nat.succ_mul _ _).symm
    _ ≤ nSlots * slotSize := Nat.mul_le_mul_right _ hlt
    _ = slotSize * nSlots := Nat.mul_comm _ _

theorem Tiled.slotAddr_ne_null {opts : Options} {data : DataStrategy} {slotIdx : ℕ}
    (htiled : Tiled opts data) (hopts : opts.Bounds) (hwrap : NoNullWrap data)
    (hrange : slotIdx / opts.slotsPerRank < opts.ranks) : data.slotAddr slotIdx ≠ 0 := by
  unfold slotAddr
  rw [htiled.nSlotsPerRank, htiled.slotSize]
  have hoffset := slotOffset_add_le opts.slotSize slotIdx hopts.slotsPerRank
  have hbytes := hopts.dataBytes
  have hsize := hopts.slotSize
  refine hwrap _ ?_ _ ?_ (htiled.mapped _ hrange).2
  · rw [htiled.length]
    exact hrange
  · rw [htiled.nSlotsPerRank, htiled.slotSize]
    unfold sizeT
    rw [Nat.mod_eq_of_lt (by omega)]
    omega

section Queries

variable {opts : Options} {data : DataStrategy} {slotIdx : ℕ}

theorem Tiled.hostAccessibleOf_iff (htiled : Tiled opts data) (hopts : opts.Bounds) :
    data.hostAccessibleOf slotIdx = true ↔ slotIdx / opts.slotsPerRank = opts.rank := by
  unfold hostAccessibleOf
  simp [htiled.nSlotsPerRank, htiled.owner, hopts.slotsPerRank.ne']

theorem Tiled.dataAt_of_own (htiled : Tiled opts data) (hopts : opts.Bounds)
    (hown : slotIdx / opts.slotsPerRank = opts.rank) :
    data.dataAt slotIdx = data.slotAddr slotIdx := by
  unfold DataStrategy.dataAt
  simp only [htiled.nSlotsPerRank, htiled.owner, htiled.length]
  rw [if_neg hopts.slotsPerRank.ne', if_neg]
  simp [hown, hopts.rank, (htiled.mapped _ hopts.rank).1]

theorem Tiled.dataAt_of_peer (htiled : Tiled opts data) (hopts : opts.Bounds)
    (hpeer : slotIdx / opts.slotsPerRank ≠ opts.rank) : data.dataAt slotIdx = 0 := by
  unfold DataStrategy.dataAt
  simp only [htiled.nSlotsPerRank, htiled.owner, htiled.length]
  rw [if_neg hopts.slotsPerRank.ne', if_pos (.inl hpeer)]

theorem Tiled.deviceDataAt_of_peer (htiled : Tiled opts data) (hopts : opts.Bounds)
    (hrange : slotIdx / opts.slotsPerRank < opts.ranks)
    (hpeer : slotIdx / opts.slotsPerRank ≠ opts.rank) :
    data.deviceDataAt slotIdx = data.slotAddr slotIdx := by
  unfold DataStrategy.deviceDataAt
  simp only [htiled.nSlotsPerRank, htiled.owner, htiled.length]
  rw [if_neg hopts.slotsPerRank.ne', if_neg]
  simp [hpeer, hrange, (htiled.mapped _ hrange).1]

theorem Tiled.deviceDataAt_of_not_peer (htiled : Tiled opts data) (hopts : opts.Bounds)
    (hnot : slotIdx / opts.slotsPerRank = opts.rank ∨ opts.ranks ≤ slotIdx / opts.slotsPerRank) :
    data.deviceDataAt slotIdx = 0 := by
  unfold DataStrategy.deviceDataAt
  simp only [htiled.nSlotsPerRank, htiled.owner, htiled.length]
  rw [if_neg hopts.slotsPerRank.ne', if_pos]
  rcases hnot with hown | hout
  · exact .inl hown
  · exact .inr (.inl hout)

/-- What the three queries say about a slot. -/
structure Partitions (opts : Options) (data : DataStrategy) (slotIdx : ℕ) : Prop where
  hostAccessible : data.hostAccessibleOf slotIdx = true ↔ slotIdx / opts.slotsPerRank = opts.rank
  dataAt : data.dataAt slotIdx ≠ 0 ↔ data.hostAccessibleOf slotIdx = true
  deviceDataAt : data.deviceDataAt slotIdx ≠ 0 ↔
    slotIdx < opts.ranks * opts.slotsPerRank ∧ slotIdx / opts.slotsPerRank ≠ opts.rank
  inRange : slotIdx < opts.ranks * opts.slotsPerRank →
    (data.dataAt slotIdx ≠ 0 ∧ data.deviceDataAt slotIdx = 0) ∨
      (data.dataAt slotIdx = 0 ∧ data.deviceDataAt slotIdx ≠ 0)
  outOfRange : opts.ranks * opts.slotsPerRank ≤ slotIdx →
    data.dataAt slotIdx = 0 ∧ data.deviceDataAt slotIdx = 0

theorem Tiled.partitions (htiled : Tiled opts data) (hopts : opts.Bounds)
    (hwrap : NoNullWrap data) : Partitions opts data slotIdx := by
  have hhost : data.hostAccessibleOf slotIdx = true ↔ _ := htiled.hostAccessibleOf_iff hopts
  have hrange : slotIdx < opts.ranks * opts.slotsPerRank ↔
      slotIdx / opts.slotsPerRank < opts.ranks := (Nat.div_lt_iff_lt_mul hopts.slotsPerRank).symm
  rcases lt_or_ge (slotIdx / opts.slotsPerRank) opts.ranks with hlt | hge
  · have haddr := htiled.slotAddr_ne_null hopts hwrap hlt
    by_cases hown : slotIdx / opts.slotsPerRank = opts.rank
    · have hdata : data.dataAt slotIdx ≠ 0 := by rw [htiled.dataAt_of_own hopts hown]; exact haddr
      have hdevice := htiled.deviceDataAt_of_not_peer hopts (.inl hown)
      refine ⟨hhost, ⟨fun _ => hhost.mpr hown, fun _ => hdata⟩, ?_, fun _ =>
        .inl ⟨hdata, hdevice⟩, ?_⟩
      · exact ⟨fun h => absurd hdevice h, fun h => absurd hown h.2⟩
      · exact fun h => absurd (hrange.mpr hlt) (not_lt.mpr h)
    · have hdata := htiled.dataAt_of_peer hopts hown
      have hdevice : data.deviceDataAt slotIdx ≠ 0 := by
        rw [htiled.deviceDataAt_of_peer hopts hlt hown]
        exact haddr
      refine ⟨hhost, ⟨fun h => absurd hdata h, fun h => absurd (hhost.mp h) hown⟩, ?_,
        fun _ => .inr ⟨hdata, hdevice⟩, ?_⟩
      · exact ⟨fun _ => ⟨hrange.mpr hlt, hown⟩, fun _ => hdevice⟩
      · exact fun h => absurd (hrange.mpr hlt) (not_lt.mpr h)
  · have hpeer : slotIdx / opts.slotsPerRank ≠ opts.rank := by
      have hrank := hopts.rank
      omega
    have hdata := htiled.dataAt_of_peer hopts hpeer
    have hdevice := htiled.deviceDataAt_of_not_peer hopts (.inr hge)
    have hout : ¬ slotIdx < opts.ranks * opts.slotsPerRank := fun h =>
      absurd (hrange.mp h) (by omega)
    refine ⟨hhost, ⟨fun h => absurd hdata h, fun h => absurd (hhost.mp h) hpeer⟩, ?_,
      fun h => absurd h hout, fun _ => ⟨hdata, hdevice⟩⟩
    exact ⟨fun h => absurd hdevice h, fun h => absurd h.1 hout⟩

end Queries

theorem Idle.queries {data : DataStrategy} {t : List DSEvent} (h : Idle data t) (slotIdx : ℕ) :
    data.hostAccessibleOf slotIdx = false ∧ data.dataAt slotIdx = 0 ∧
      data.deviceDataAt slotIdx = 0 := by
  simp [hostAccessibleOf, DataStrategy.dataAt, DataStrategy.deviceDataAt, h.nSlotsPerRank]

/-- **Slot query partition.**  After any sequence of `Setup` calls, either one
has succeeded and the two addresses split the slots in range by owner, or none
has and every query is negative. -/
theorem slots_partitioned {data : DataStrategy} {succeeded : Option Options}
    (hreached : Reached data succeeded) (hwrap : NoNullWrap data) :
    match succeeded with
    | some opts => ∀ slotIdx < 2 ^ 64, Partitions opts data slotIdx
    | none => ∀ slotIdx < 2 ^ 64, data.hostAccessibleOf slotIdx = false ∧
        data.dataAt slotIdx = 0 ∧ data.deviceDataAt slotIdx = 0 := by
  have hshape := hreached.shape
  cases succeeded with
  | none => exact fun slotIdx _ => Idle.queries hshape slotIdx
  | some opts => exact fun slotIdx _ => hshape.2.partitions hshape.1 hwrap

/-- The object of `twoRanks` after a `Setup` against `hugeFails`. -/
def twoRanksData : DataStrategy where
  slotSize := 4096
  nSlotsPerRank := 4
  mappings := [⟨some 7, 2 ^ 40 + 2 ^ 30 * 19, true⟩, ⟨some 1, 2 ^ 40 + 2 ^ 30 * 10, true⟩]
  owner := 1
  deviceId := 0
  rankStride := 2 ^ 30

/-- Slot `3` belongs to the other rank, slot `4` to this one, slot `8` to none. -/
theorem slots_twoRanks :
    (∀ slotIdx < 2 ^ 64, Partitions twoRanks twoRanksData slotIdx) ∧
      twoRanksData.deviceDataAt 3 ≠ 0 ∧ twoRanksData.dataAt 4 ≠ 0 ∧
      twoRanksData.hostAccessibleOf 8 = false := by
  have hend : (Prog.exec (hugeFails 1) (setup 1 twoRanks.setupArgs {}) []).2 =
      some (.ok .ok, twoRanksData) := by
    decide +kernel
  have hreached : Reached twoRanksData (some twoRanks) :=
    .setup .init (by decide) (Prog.runs_of_exec hend)
  refine ⟨slots_partitioned hreached ?_, by decide +kernel, by decide +kernel, by decide +kernel⟩
  intro rank hrank offset hoffset _
  simp only [twoRanksData] at hoffset
  have haddr : 0 < (twoRanksData.mapping rank).addr ∧
      (twoRanksData.mapping rank).addr ≤ 2 ^ 40 + 2 ^ 30 * 19 := by
    revert rank
    decide +kernel
  have hsum : ∀ addr : ℕ, 0 < addr ∧ addr ≤ 2 ^ 40 + 2 ^ 30 * 19 →
    (addr + offset) % 2 ^ 64 ≠ 0 := by
    omega
  exact hsum _ haddr

end DataStrategy
end SharingProbe
