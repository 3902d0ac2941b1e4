import SharingProbe.Library.Hoare
import SharingProbe.DataStrategy.Slots

/-!
# The stride of a rank

`LocalSetup` rounds the data of a rank up to the least common multiple of 1 GiB and
the granularity that HAL reports, and passes the result, `rankStride_`, to every
call that reserves, creates or maps.  `main` has checked that the data itself fits
into `size_t`; the least common multiple and the sum that the rounding takes may
still wrap.
-/

namespace SharingProbe

open Interaction

/-- The length that is passed to HAL. -/
def Op.length : Op → Option ℕ
  | halMemAddressReserve size => some size
  | halMemCreate size _ => some size
  | halMemMap _ size _ => some size
  | _ => none

/-- The call asks for a granularity. -/
def Op.asksGranularity : Op → Bool
  | halMemGetAllocationGranularity _ => true
  | _ => false

namespace DataStrategy

/-- HAL has reported this granularity. -/
def Granted (granularity : ℕ) (t : List DSEvent) : Prop :=
  ∃ pageType, Saw t 0 (.halMemGetAllocationGranularity pageType) (.ok granularity)

/-- The bytes of every slot that `DataAt` or `DeviceDataAt` hands out lie inside
the first `size` bytes of the mapping of its rank. -/
def SlotsInside (opts : Options) (size : ℕ) : Prop :=
  ∀ data : DataStrategy, data.slotSize = opts.slotSize → data.nSlotsPerRank = opts.slotsPerRank →
    ∀ slotIdx p, p = data.dataAt slotIdx ∨ p = data.deviceDataAt slotIdx → p ≠ 0 →
      ∃ offset, p = ptrAdd (data.mapping (slotIdx / opts.slotsPerRank)).addr offset ∧
        offset + opts.slotSize ≤ size

/-- Whatever HAL does after it has reported the granularity, every length that
`LocalSetup` passes to it is `rankStride_`, is computed without wrapping, and has
room for every slot. -/
def StridesExactly (opts : Options) (granularity : ℕ) : Prop :=
  ∀ pageType data t t₁ e t₂ size,
    (localSetup (sizeT (opts.slotSize * opts.slotsPerRank)) opts.setupArgs.nRanks pageType
      data).Visits t → t = t₁ ++ e :: t₂ → Granted granularity t₁ → e.call.op.length = some size →
        size = e.state.rankStride ∧
          ExactStride (opts.slotSize * opts.slotsPerRank) kAddressAlignment granularity size ∧
            SlotsInside opts size

/-! ## The lengths that are passed to HAL -/

/-- A property of strides that only a granularity query can end. -/
def Lasting (S : List DSEvent → ℕ → Prop) : Prop :=
  ∀ t e stride, e.call.op.asksGranularity = false → S t stride → S (t ++ [e]) stride

/-- The length of a call is `rankStride_` and has the property. -/
def StrideCall (S : List DSEvent → ℕ → Prop) (t : List DSEvent) (data : DataStrategy)
    (call : Call) : Prop :=
  ∀ size, call.op.length = some size → size = data.rankStride ∧ S t size

/-- `rankStride_` is this number and has the property. -/
def HasStride (S : List DSEvent → ℕ → Prop) (stride : ℕ) (data : DataStrategy)
    (t : List DSEvent) : Prop :=
  data.rankStride = stride ∧ S t stride

/-- A procedure that passes no length but `rankStride_` and leaves it alone. -/
abbrev KeepsStride (S : List DSEvent → ℕ → Prop) (stride : ℕ) {α : Type} (m : DS α) : Prop :=
  m.Triple (StrideCall S) (HasStride S stride) (fun _ => HasStride S stride) (HasStride S stride)

section Stride

variable {S : List DSEvent → ℕ → Prop} {stride : ℕ}

theorem pure_keepsStride {α : Type} (a : α) : KeepsStride S stride (pure a : DS α) :=
  Proc.triple_pure fun _ _ hstride => hstride

theorem throw_keepsStride {α : Type} (e : Exn) : KeepsStride S stride (Proc.throw e : DS α) :=
  Proc.triple_throw fun _ _ hstride => hstride

theorem modify_keepsStride {f : DataStrategy → DataStrategy}
    (hf : ∀ data, (f data).rankStride = data.rankStride) :
    KeepsStride S stride (Proc.modify f : DS PUnit) :=
  Proc.triple_modify fun data _ hstride => ⟨(hf data).trans hstride.1, hstride.2⟩

/-- What is done with a state that has been read. -/
theorem get_bind_keepsStride {α : Type} {f : DataStrategy → DS α}
    (hf : ∀ data, data.rankStride = stride → KeepsStride S stride (f data)) :
    KeepsStride S stride (Proc.get >>= f) :=
  fun data t hstride => hf data hstride.1 data t hstride

/-- A call without a length, or one with the stride as its length. -/
theorem hal_keepsStride (hS : Lasting S) {rank : ℕ} {op : Op}
    (hop : op.asksGranularity = false) (hlength : op.length.all (· = stride)) :
    KeepsStride S stride (hal rank op) := by
  apply Proc.triple_ask
  · intro data t hstride size hsize
    rw [hsize, Option.all_some, decide_eq_true_eq] at hlength
    rw [hlength]
    exact ⟨hstride.1.symm, hstride.2⟩
  · intro data t r hstride
    exact ⟨hstride.1, hS t _ _ hop hstride.2⟩

theorem memAddressReserve_keepsStride (hS : Lasting S) (rank : ℕ) :
    KeepsStride S stride (memAddressReserve rank stride) := by
  refine Proc.Triple.bind (hal_keepsStride hS rfl (by simp [Op.length])) fun r => ?_
  cases r with
  | error ret => exact pure_keepsStride _
  | ok addr =>
      exact Proc.Triple.bind (modify_keepsStride fun _ => rfl) fun _ => pure_keepsStride _

theorem reserveRankAddress_keepsStride (hS : Lasting S) (rank : ℕ) :
    KeepsStride S stride (reserveRankAddress rank) := by
  refine get_bind_keepsStride fun data hdata => ?_
  rw [hdata]
  refine Proc.Triple.bind (memAddressReserve_keepsStride hS rank) fun status => ?_
  split
  · exact pure_keepsStride _
  · refine get_bind_keepsStride fun data _ => ?_
    split
    · exact pure_keepsStride _
    · exact pure_keepsStride _

theorem memCreate_keepsStride (hS : Lasting S) (rank : ℕ) (pageType : PageType) :
    KeepsStride S stride (memCreate rank stride pageType) := by
  refine Proc.Triple.bind (hal_keepsStride hS rfl (by simp [Op.length])) fun r => ?_
  cases r with
  | error ret => exact pure_keepsStride _
  | ok handle =>
      exact Proc.Triple.bind (modify_keepsStride fun _ => rfl) fun _ => pure_keepsStride _

theorem memMap_keepsStride (hS : Lasting S) (rank : ℕ) (addr : Ptr) (handle : Option Handle) :
    KeepsStride S stride (memMap rank addr stride handle) :=
  Proc.Triple.bind (hal_keepsStride hS rfl (by simp [Op.length])) fun _ => pure_keepsStride _

theorem setMapped_keepsStride (rank : ℕ) :
    KeepsStride S stride (do
      Proc.modify (updateMapping rank fun m => { m with mapped := true })
      pure .ok : DS Status) :=
  Proc.Triple.bind (modify_keepsStride fun _ => rfl) fun _ => pure_keepsStride _

theorem localGrow_keepsStride (hS : Lasting S) (nRanks : ℕ) (pageType : PageType) :
    KeepsStride S stride (localGrow nRanks pageType) := by
  refine Proc.Triple.bind (hal_keepsStride hS rfl rfl) fun grown => ?_
  cases grown with
  | false => exact throw_keepsStride _
  | true =>
      refine Proc.Triple.bind (modify_keepsStride fun _ => rfl) fun _ => ?_
      refine get_bind_keepsStride fun data hdata => ?_
      refine Proc.Triple.bind (reserveRankAddress_keepsStride hS _) fun status => ?_
      split
      · exact pure_keepsStride _
      rw [hdata]
      refine Proc.Triple.bind (memCreate_keepsStride hS _ _) fun status => ?_
      split
      · exact pure_keepsStride _
      refine get_bind_keepsStride fun data hdata => ?_
      dsimp only
      rw [hdata]
      refine Proc.Triple.bind (memMap_keepsStride hS _ _ _) fun status => ?_
      split
      · exact pure_keepsStride _
      · exact setMapped_keepsStride _

/-- The lengths of `LocalSetup`, when the property holds of the stride that it
computes from the reported granularity. -/
theorem localSetup_strideCall (hS : Lasting S) {before : List DSEvent → Prop}
    {dataBytes nRanks : ℕ} {pageType : PageType}
    (hcomputed : ∀ data t granularity, before t →
      S (t ++ [⟨data, ⟨.setup, 0, .halMemGetAllocationGranularity pageType⟩, .ok granularity⟩])
        (roundUp dataBytes (allocationAlignment granularity))) :
    (localSetup dataBytes nRanks pageType).Triple (StrideCall S) (fun _ t => before t)
      (fun status data t => status.success → S t data.rankStride) (fun _ _ => True) := by
  refine Proc.Triple.bind (Q := fun r data t => ∃ before', before before' ∧
    t = before' ++ [⟨data, ⟨.setup, 0, .halMemGetAllocationGranularity pageType⟩, r⟩])
    (Proc.triple_ask (fun _ _ _ => nofun) fun data t r hbefore => ⟨t, hbefore, rfl⟩) fun r => ?_
  cases r with
  | error ret => exact Proc.triple_pure fun _ _ _ hsuccess => by simp at hsuccess
  | ok granularity =>
      dsimp only
      split
      · exact Proc.triple_pure fun _ _ _ hsuccess => by simp at hsuccess
      let stride := roundUp dataBytes (allocationAlignment granularity)
      apply Proc.Triple.bind (Q := fun _ => HasStride S stride)
      · apply Proc.triple_modify
        rintro data t ⟨before', hbefore, rfl⟩
        exact ⟨rfl, hcomputed data before' granularity hbefore⟩
      · intro _
        exact (localGrow_keepsStride hS nRanks pageType).weaken (fun _ _ hstride => hstride)
          (fun _ _ _ hstride _ => hstride.1 ▸ hstride.2) fun _ _ _ => trivial

end Stride

/-- For every granularity that HAL has reported, the stride is the rounded data. -/
def RoundedFor (dataBytes : ℕ) (t : List DSEvent) (stride : ℕ) : Prop :=
  ∀ granularity, Granted granularity t →
    stride = roundUp dataBytes (allocationAlignment granularity)

theorem roundedFor_lasting (dataBytes : ℕ) : Lasting (RoundedFor dataBytes) := by
  intro t e stride hop hrounded granularity hgranted
  obtain ⟨pageType, data, site, hmem⟩ := hgranted
  rcases List.mem_append.mp hmem with hmem | hmem
  · exact hrounded granularity ⟨pageType, data, site, hmem⟩
  · rw [← List.mem_singleton.mp hmem] at hop
    exact absurd hop (by simp [Op.asksGranularity])

theorem localSetup_rounded (dataBytes nRanks : ℕ) (pageType : PageType) :
    (localSetup dataBytes nRanks pageType).Triple (StrideCall (RoundedFor dataBytes))
      (fun _ t => t = []) (fun status data t => status.success →
        RoundedFor dataBytes t data.rankStride)
      (fun _ _ => True) := by
  apply localSetup_strideCall (roundedFor_lasting dataBytes)
  rintro data t granularity rfl other ⟨pageType', data', site, hmem⟩
  cases List.mem_singleton.mp hmem
  rfl

/-! ## Slots -/

/-- The offset of a slot does not wrap, and the slot ends inside the data. -/
theorem slotsInside_of_le {opts : Options} {size : ℕ} (hopts : opts.Bounds)
    (hsize : opts.slotSize * opts.slotsPerRank ≤ size) : SlotsInside opts size := by
  intro data hslotSize hnSlots slotIdx p hp hne
  have hoffset := slotOffset_add_le opts.slotSize slotIdx hopts.slotsPerRank
  have hbytes := hopts.dataBytes
  have hexact : sizeT (slotIdx % opts.slotsPerRank * opts.slotSize) =
      slotIdx % opts.slotsPerRank * opts.slotSize := Nat.mod_eq_of_lt (by omega)
  refine ⟨sizeT (slotIdx % opts.slotsPerRank * opts.slotSize), ?_, by omega⟩
  have haddr : data.slotAddr slotIdx = ptrAdd (data.mapping (slotIdx / opts.slotsPerRank)).addr
      (sizeT (slotIdx % opts.slotsPerRank * opts.slotSize)) := by
    unfold slotAddr
    rw [hslotSize, hnSlots]
  rw [← haddr]
  rcases hp with rfl | rfl
  · unfold dataAt at hne ⊢
    split at hne
    · exact absurd rfl hne
    · rename_i hset
      rw [if_neg hset]
      dsimp only at hne ⊢
      split at hne
      · exact absurd rfl hne
      · rename_i hmine
        rw [if_neg hmine]
  · unfold deviceDataAt at hne ⊢
    split at hne
    · exact absurd rfl hne
    · rename_i hset
      rw [if_neg hset]
      dsimp only at hne ⊢
      split at hne
      · exact absurd rfl hne
      · rename_i hpeer
        rw [if_neg hpeer]

/-! ## Exactly when the stride is right -/

/-- `LocalSetup` gets as far as reserving addresses for every granularity but
zero. -/
theorem localSetup_reserves (dataBytes nRanks : ℕ) {granularity : ℕ} (hpos : 0 < granularity) :
    ∃ t data r, (localSetup dataBytes nRanks .huge {}).Visits
      (t ++ [⟨data, ⟨.setup, 0, .halMemAddressReserve data.rankStride⟩, r⟩]) ∧
        Granted granularity t ∧
          data.rankStride = roundUp dataBytes (allocationAlignment granularity) := by
  let stride := roundUp dataBytes (allocationAlignment granularity)
  let asked : DSEvent := ⟨{}, ⟨.setup, 0, .halMemGetAllocationGranularity .huge⟩, .ok granularity⟩
  let grown : DSEvent := ⟨{ rankStride := stride }, ⟨.setup, 0, .resizeMappings nRanks⟩, true⟩
  let mappings := (([] : List Mapping) ++ List.replicate nRanks ({} : Mapping)).take nRanks
  refine ⟨[asked, grown], { rankStride := stride, mappings := mappings }, .ok 0, ?_,
    ⟨.huge, {}, .setup, List.mem_cons_self⟩, rfl⟩
  have hnonzero : granularity ≠ 0 := hpos.ne'
  refine Prog.Visits.call ?_
  show Prog.Visits ((if granularity = 0 then _ else _ : DS Status) {}) _
  rw [if_neg hnonzero]
  exact Prog.Visits.call (Prog.Visits.call (.nil _))

/-- **The stride of a rank.**  For the options that `main` admits and every nonzero
granularity, what `LocalSetup` passes to HAL is exact and has room for every slot if
and only if the least common multiple, and its sum with the data of a rank, fit into
`size_t`. -/
theorem stridesExactly_iff {opts : Options} {granularity : ℕ} (hopts : opts.Admitted)
    (hpos : 0 < granularity) :
    StridesExactly opts granularity ↔
      Fits (opts.slotSize * opts.slotsPerRank) kAddressAlignment granularity := by
  have hbounds := hopts.bounds
  have hbytes : sizeT (opts.slotSize * opts.slotsPerRank) = opts.slotSize * opts.slotsPerRank :=
    Nat.mod_eq_of_lt hbounds.dataBytes
  have hiff := exactStride_iff hbounds.dataBytes (show 0 < kAddressAlignment by decide) hpos
  constructor
  · intro hexact
    obtain ⟨t, data, r, hvisits, hgranted, hstride⟩ := localSetup_reserves
      (sizeT (opts.slotSize * opts.slotsPerRank)) opts.setupArgs.nRanks hpos
    have hreserved := (hexact .huge {} _ t _ [] _ hvisits rfl hgranted rfl).2.1
    rw [hstride, hbytes] at hreserved
    exact hiff.mp hreserved
  · intro hfits pageType data t t₁ e t₂ size hvisits hsplit hgranted hlength
    have hcall := Prog.Meets.ok_of_visits (localSetup_rounded _ _ pageType data [] rfl) hvisits
      t₁ e t₂ hsplit
    obtain ⟨hstate, hrounded⟩ := hcall size hlength
    have hsize := hrounded granularity hgranted
    have hstride := hiff.mpr hfits
    rw [hbytes] at hsize
    rw [← hstate, hsize]
    exact ⟨rfl, hstride, slotsInside_of_le hbounds hstride.rounded.le⟩

/-- The default options with the granularity of huge pages. -/
theorem stridesExactly_iff_default : StridesExactly {} (2 ^ 21) ↔
    Fits (8 * 2 ^ 20 * 256) kAddressAlignment (2 ^ 21) :=
  stridesExactly_iff (by decide) (by decide)

/-- One rank with one slot as large as `size_t` allows. -/
def oneHugeSlot : Options where
  ranks := 1
  slotSize := 2 ^ 64 - 1
  slotsPerRank := 1

/-- Its stride wraps for the granularity of normal pages. -/
theorem stride_wraps : oneHugeSlot.Admitted ∧ 0 < 4096 ∧ ¬StridesExactly oneHugeSlot 4096 := by
  refine ⟨by decide, by decide, fun hexact => ?_⟩
  obtain ⟨t, data, r, hvisits, hgranted, hstride⟩ := localSetup_reserves
    (sizeT (oneHugeSlot.slotSize * oneHugeSlot.slotsPerRank)) oneHugeSlot.setupArgs.nRanks
    (show 0 < 4096 by decide)
  have hreserved := (hexact .huge {} _ t _ [] _ hvisits rfl hgranted rfl).2.1
  have hle := hreserved.rounded.le
  rw [hstride] at hle
  exact absurd hle (by decide +kernel)

end DataStrategy
end SharingProbe
