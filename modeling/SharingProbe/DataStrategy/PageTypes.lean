import SharingProbe.DataStrategy.Stride

/-!
# Page types that differ between ranks

Every process decides on its own whether it falls back to normal pages, and the
descriptor that it publishes carries a handle only.  A peer reserves and maps its own
`rankStride_`, which belongs to the page type that the peer ended up with.  So a peer
maps what the owner has allocated if the data of a rank is rounded to the same length
for both page types, and otherwise there are runs in which it does not.
-/

namespace SharingProbe.DataStrategy

open Interaction

/-! ## The lengths of a whole `Setup` -/

/-- A procedure that passes no length to HAL but a `rankStride_` with the property,
wherever it starts. -/
abbrev Strides (S : List DSEvent → ℕ → Prop) {α : Type} (m : DS α) : Prop :=
  m.Triple (StrideCall S) (fun _ _ => True) (fun _ _ _ => True) (fun _ _ => True)

section Setup

variable {S : List DSEvent → ℕ → Prop} {stride : ℕ}

theorem pure_strides {α : Type} (a : α) : Strides S (pure a : DS α) :=
  Proc.triple_pure fun _ _ _ => trivial

theorem modify_strides (f : DataStrategy → DataStrategy) : Strides S (Proc.modify f : DS PUnit) :=
  Proc.triple_modify fun _ _ _ => trivial

theorem ask_strides {call : Call} (hlength : call.op.length = none) :
    Strides S (Proc.ask (R := Call.Reply) call : DS call.Reply) := by
  apply Proc.triple_ask
  · intro data t _ size hsize
    rw [hlength] at hsize
    cases hsize
  · intro _ _ _ _
    trivial

theorem get_bind_strides {α : Type} {f : DataStrategy → DS α} (hf : ∀ data, Strides S (f data)) :
    Strides S (Proc.get >>= f) :=
  fun data t _ => hf data data t trivial

theorem KeepsStride.strides {α : Type} {m : DS α} (hm : KeepsStride S stride m) :
    m.Triple (StrideCall S) (HasStride S stride) (fun _ _ _ => True) (fun _ _ => True) :=
  hm.weaken (fun _ _ hstride => hstride) (fun _ _ _ _ => trivial) fun _ _ _ => trivial

theorem Only.strides {α : Type} {m : DS α} (hm : m.Only fun call => call.op.length = none) :
    Strides S m := by
  refine hm.triple fun t data call hlength size hsize => ?_
  rw [hlength] at hsize
  cases hsize

theorem reset_strides : Strides S reset :=
  Only.strides (reset_only (fun _ _ => rfl) (fun _ _ => rfl) fun _ _ => rfl)

theorem memImportFromShareableHandle_keepsStride (hS : Lasting S) (rank : ℕ) (shareHandle : UInt64)
    (deviceId : ℕ) :
    KeepsStride S stride (memImportFromShareableHandle rank shareHandle deviceId) := by
  refine Proc.Triple.bind (hal_keepsStride hS rfl rfl) fun r => ?_
  cases r with
  | error ret => exact pure_keepsStride _
  | ok handle =>
      exact Proc.Triple.bind (modify_keepsStride fun _ => rfl) fun _ => pure_keepsStride _

theorem importPeer_keepsStride (hS : Lasting S) (rank : ℕ) (peerHandle : UInt64) :
    KeepsStride S stride (importPeer rank peerHandle) := by
  refine get_bind_keepsStride fun data _ => ?_
  refine Proc.Triple.bind (memImportFromShareableHandle_keepsStride hS _ _ _) fun status => ?_
  split
  · exact pure_keepsStride _
  refine Proc.Triple.bind (reserveRankAddress_keepsStride hS _) fun status => ?_
  split
  · exact pure_keepsStride _
  refine get_bind_keepsStride fun data hdata => ?_
  dsimp only
  rw [hdata]
  refine Proc.Triple.bind (memMap_keepsStride hS _ _ _) fun status => ?_
  split
  · exact pure_keepsStride _
  · exact setMapped_keepsStride _

theorem getRankDesc_keepsStride (hS : Lasting S) (rank : ℕ) :
    KeepsStride S stride (getRankDesc rank) := by
  refine Proc.Triple.bind (hal_keepsStride hS rfl rfl) fun r => ?_
  cases r with
  | error e => exact throw_keepsStride _
  | ok peerDesc => exact pure_keepsStride _

theorem pollRankDesc_keepsStride (hS : Lasting S) (rank deadline fuel : ℕ)
    (peerDesc : Except Status UInt64) :
    KeepsStride S stride (pollRankDesc rank deadline fuel peerDesc) := by
  induction fuel generalizing peerDesc with
  | zero =>
      cases peerDesc with
      | ok handle => exact pure_keepsStride _
      | error status => exact Proc.triple_cut
  | succ fuel ih =>
      cases peerDesc with
      | ok handle => exact pure_keepsStride _
      | error status =>
          refine Proc.Triple.bind (hal_keepsStride hS rfl rfl) fun now => ?_
          split
          · exact pure_keepsStride _
          refine Proc.Triple.bind (hal_keepsStride hS rfl rfl) fun _ => ?_
          refine Proc.Triple.bind (hal_keepsStride hS rfl rfl) fun later => ?_
          split
          · exact pure_keepsStride _
          · exact Proc.Triple.bind (getRankDesc_keepsStride hS rank) ih

theorem peerLoop_keepsStride (hS : Lasting S) (fuel deadline timeoutMs : ℕ) (ranks : List ℕ) :
    KeepsStride S stride (peerLoop fuel deadline timeoutMs ranks) := by
  induction ranks with
  | nil => exact pure_keepsStride _
  | cons rank ranks ih =>
      refine get_bind_keepsStride fun data _ => ?_
      split
      · exact ih
      refine Proc.Triple.bind (getRankDesc_keepsStride hS rank) fun first => ?_
      refine Proc.Triple.bind (pollRankDesc_keepsStride hS rank deadline fuel first)
        fun peerDesc => ?_
      cases peerDesc with
      | error error => exact pure_keepsStride _
      | ok peerHandle =>
          refine Proc.Triple.bind (importPeer_keepsStride hS rank peerHandle) fun status => ?_
          split
          · exact pure_keepsStride _
          · exact ih

theorem crossRankSetup_keepsStride (hS : Lasting S) (fuel timeoutMs : ℕ) :
    KeepsStride S stride (crossRankSetup fuel timeoutMs) := by
  refine get_bind_keepsStride fun data _ => ?_
  refine Proc.Triple.bind (hal_keepsStride hS rfl rfl) fun now => ?_
  dsimp only
  refine Proc.Triple.bind (hal_keepsStride hS rfl rfl) fun r => ?_
  cases r with
  | error ret => exact pure_keepsStride _
  | ok shareHandle =>
      refine Proc.Triple.bind (hal_keepsStride hS rfl rfl) fun r => ?_
      split
      · exact pure_keepsStride _
      refine Proc.Triple.bind (hal_keepsStride hS rfl rfl) fun status => ?_
      split
      · exact pure_keepsStride _
      · exact peerLoop_keepsStride hS _ _ _ _

/-- The property holds of the stride that is computed from a granularity that HAL
has just reported. -/
def Computed (S : List DSEvent → ℕ → Prop) (dataBytes : ℕ) : Prop :=
  ∀ data t pageType granularity,
    S (t ++ [⟨data, ⟨.setup, 0, .halMemGetAllocationGranularity pageType⟩, .ok granularity⟩])
      (roundUp dataBytes (allocationAlignment granularity))

/-- On success `rankStride_` has the property. -/
def GrownOn (S : List DSEvent → ℕ → Prop) (status : Status) (data : DataStrategy)
    (t : List DSEvent) : Prop :=
  status.success → S t data.rankStride

theorem allocate_strides (hS : Lasting S) {args : SetupArgs}
    (hcomputed : Computed S (sizeT (args.slotSize * args.nSlotsPerRank))) :
    (allocate args).Triple (StrideCall S) (fun _ _ => True) (GrownOn S) (fun _ _ => True) := by
  have hlocal : ∀ pageType,
      (localSetup (sizeT (args.slotSize * args.nSlotsPerRank)) args.nRanks pageType).Triple
        (StrideCall S) (fun _ _ => True) (GrownOn S) (fun _ _ => True) := fun pageType =>
    localSetup_strideCall hS fun data t granularity _ => hcomputed data t pageType granularity
  refine Proc.Triple.bind (hlocal .huge) fun status => ?_
  split
  · apply Proc.Triple.bind (Q := fun _ _ _ => True)
    · exact reset_strides.weaken (fun _ _ _ => trivial)
        (fun _ _ _ _ => trivial) fun _ _ _ => trivial
    · exact fun _ => hlocal .normal
  · exact Proc.triple_pure fun _ _ hgrown => hgrown

theorem setupBody_strides (hS : Lasting S) (fuel : ℕ) {args : SetupArgs}
    (hcomputed : Computed S (sizeT (args.slotSize * args.nSlotsPerRank))) :
    Strides S (setupBody fuel args) := by
  have hdevice : Strides S (deviceSetup args.deviceId) := by
    unfold deviceSetup
    split
    · exact pure_strides _
    · refine Proc.Triple.bind (ask_strides rfl) fun r => ?_
      cases r with
      | error ret => exact pure_strides _
      | ok _ => exact pure_strides _
  refine Proc.Triple.bind hdevice fun status => ?_
  have hgrown : (if status.success then allocate args else pure status : DS Status).Triple
      (StrideCall S) (fun _ _ => True) (GrownOn S) (fun _ _ => True) := by
    split
    · exact allocate_strides hS hcomputed
    · exact Proc.triple_pure fun _ _ _ hsuccess => absurd hsuccess ‹_›
  refine Proc.Triple.bind hgrown fun status => ?_
  split
  · intro data t hgrown
    exact (crossRankSetup_keepsStride hS fuel args.timeoutMs).strides data t ⟨rfl, hgrown ‹_›⟩
  · exact Proc.triple_pure fun _ _ _ => trivial

/-- Every length that a call of `Setup` passes to HAL is a `rankStride_` with the
property. -/
theorem setup_strides (hS : Lasting S) (fuel : ℕ) {args : SetupArgs}
    (hcomputed : Computed S (sizeT (args.slotSize * args.nSlotsPerRank))) :
    Strides S (setup fuel args) := by
  refine get_bind_strides fun data => ?_
  split
  · exact pure_strides _
  refine Proc.Triple.bind (modify_strides _) fun _ => ?_
  refine Proc.Triple.bind (?_ : Strides S (Proc.tryCatch (setupBody fuel args) _)) fun status => ?_
  · apply Proc.Triple.tryCatch (setupBody_strides hS fuel hcomputed)
    intro e
    cases e with
    | badAlloc => exact pure_strides _
    | error what => exact pure_strides _
  split
  · exact Proc.Triple.bind reset_strides fun _ => pure_strides _
  · exact Proc.Triple.bind (modify_strides _) fun _ => pure_strides _

end Setup

/-! ## The strides of two ranks -/

/-- Every granularity that HAL reports is the one of the page type. -/
def Reports (granularity : PageType → ℕ) (t : List DSEvent) : Prop :=
  ∀ rank pageType g, Saw t rank (.halMemGetAllocationGranularity pageType) (.ok g) →
    g = granularity pageType

/-- The stride of a rank that ends up with pages of this type. -/
def strideFor (opts : Options) (granularity : PageType → ℕ) (pageType : PageType) : ℕ :=
  roundUp (opts.slotSize * opts.slotsPerRank) (allocationAlignment (granularity pageType))

/-- If HAL reports these granularities, the stride belongs to one of the page types. -/
def StrideOfPages (opts : Options) (granularity : PageType → ℕ) (t : List DSEvent)
    (stride : ℕ) : Prop :=
  Reports granularity t → ∃ pageType, stride = strideFor opts granularity pageType

theorem Reports.of_append {granularity : PageType → ℕ} {t u : List DSEvent}
    (h : Reports granularity (t ++ u)) : Reports granularity t := by
  intro rank pageType g hsaw
  exact h rank pageType g (hsaw.mono (List.prefix_append t u))

theorem strideOfPages_lasting (opts : Options) (granularity : PageType → ℕ) :
    Lasting (StrideOfPages opts granularity) :=
  fun _ _ _ _ hstride hreports => hstride hreports.of_append

theorem strideOfPages_computed {opts : Options} (hopts : opts.Bounds)
    (granularity : PageType → ℕ) :
    Computed (StrideOfPages opts granularity) (sizeT (opts.slotSize * opts.slotsPerRank)) := by
  intro data t pageType g hreports
  have hg : g = granularity pageType := hreports 0 pageType g (saw_concat t data .setup 0 _ _)
  have hbytes : sizeT (opts.slotSize * opts.slotsPerRank) = opts.slotSize * opts.slotsPerRank :=
    Nat.mod_eq_of_lt hopts.dataBytes
  refine ⟨pageType, ?_⟩
  rw [hg, hbytes]
  rfl

/-- Every length in a run of `Setup` is the stride of a page type. -/
theorem length_eq_strideFor {opts : Options} (hopts : opts.Admitted)
    {granularity : PageType → ℕ} {fuel : ℕ} {data : DataStrategy} {t t₁ t₂ : List DSEvent}
    {e : DSEvent} {size : ℕ} (hvisits : (setup fuel opts.setupArgs data).Visits t)
    (hreports : Reports granularity t) (ht : t = t₁ ++ e :: t₂)
    (hsize : e.call.op.length = some size) :
    ∃ pageType, size = strideFor opts granularity pageType := by
  have hstrides : Strides (StrideOfPages opts granularity) (setup fuel opts.setupArgs) :=
    setup_strides (strideOfPages_lasting opts granularity) fuel
      (strideOfPages_computed hopts.bounds granularity)
  have hcall := Prog.Meets.ok_of_visits (hstrides data [] trivial) hvisits t₁ e t₂ ht
  subst ht
  exact (hcall size hsize).2 hreports.of_append

theorem not_reported {granularity : PageType → ℕ} {t : List DSEvent}
    (h : ∀ e ∈ t, e.call.op.asksGranularity = false) : Reports granularity t := by
  rintro rank pageType g ⟨data, site, hmem⟩
  exact absurd (h _ hmem) (by simp [Op.asksGranularity])

theorem Reports.append {granularity : PageType → ℕ} {t u : List DSEvent}
    (ht : Reports granularity t)
    (hu : Reports granularity u) : Reports granularity (t ++ u) := by
  rintro rank pageType g ⟨data, site, hmem⟩
  rcases List.mem_append.mp hmem with hmem | hmem
  · exact ht rank pageType g ⟨data, site, hmem⟩
  · exact hu rank pageType g ⟨data, site, hmem⟩

theorem reports_asked (granularity : PageType → ℕ) (data : DataStrategy) (pageType : PageType) :
    Reports granularity [⟨data, ⟨.setup, 0, .halMemGetAllocationGranularity pageType⟩,
      .ok (granularity pageType)⟩] := by
  rintro rank pageType' g ⟨data', site, hmem⟩
  cases List.mem_singleton.mp hmem
  rfl

/-! ## What a peer maps -/

/-- The options of a process that takes part in the same run. -/
structure Agrees (mine opts : Options) : Prop where
  admitted : mine.Admitted
  ranks : mine.ranks = opts.ranks
  slotSize : mine.slotSize = opts.slotSize
  slotsPerRank : mine.slotsPerRank = opts.slotsPerRank

/-- The rank has created an allocation of this size, and no other one since, and
exported it as this token. -/
def Exports (size : ℕ) (token : UInt64) (t : List DSEvent) : Prop :=
  ∃ t₁ t₂ t₃ data data' site site' rank rank' pageType handle,
    t = t₁ ++ ⟨data, ⟨site, rank, .halMemCreate size pageType⟩, .ok handle⟩ :: t₂ ++
      ⟨data', ⟨site', rank', .halMemExportToShareableHandle (some handle)⟩, .ok token⟩ :: t₃ ∧
        ∀ e ∈ t₂, ∀ size pageType, e.call.op ≠ .halMemCreate size pageType

/-- The rank has imported this token for a peer, and reserves or maps this size for it. -/
def MapsPeer (peer size : ℕ) (token : UInt64) (t : List DSEvent) : Prop :=
  ∃ t₁ e t₂ device handle, t = t₁ ++ e :: t₂ ∧ e.call.rank = peer ∧ e.call.op.length = some size ∧
    Saw t₁ peer (.halMemImportFromShareableHandle token device) (.ok handle)

theorem MapsPeer.append_left {peer size : ℕ} {token : UInt64} {t : List DSEvent}
    (h : MapsPeer peer size token t) (s : List DSEvent) : MapsPeer peer size token (s ++ t) := by
  obtain ⟨t₁, e, t₂, device, handle, rfl, hrank, hsize, data, site, hmem⟩ := h
  exact ⟨s ++ t₁, e, t₂, device, handle, (List.append_assoc _ _ _).symm, hrank, hsize, data, site,
    List.mem_append_right s hmem⟩

theorem Exports.append_left {size : ℕ} {token : UInt64} {t : List DSEvent}
    (h : Exports size token t) (s : List DSEvent) : Exports size token (s ++ t) := by
  obtain ⟨t₁, t₂, t₃, data, data', site, site', rank, rank', pageType, handle, rfl, honly⟩ := h
  refine ⟨s ++ t₁, t₂, t₃, data, data', site, site', rank, rank', pageType, handle, ?_, honly⟩
  simp only [List.append_assoc]

/-- Whatever two processes of a run and HAL do, the one reserves and maps for the other
what the other has created, if HAL reports the same granularities to both. -/
def PeersMapWhole (opts : Options) (granularity : PageType → ℕ) : Prop :=
  ∀ mine theirs : Options, Agrees mine opts → Agrees theirs opts → mine.rank ≠ theirs.rank →
    ∀ fuel fuel' data data' t t', (setup fuel mine.setupArgs data).Visits t →
      (setup fuel' theirs.setupArgs data').Visits t' → Reports granularity t →
        Reports granularity t' → ∀ token size size', MapsPeer theirs.rank size token t →
          Exports size' token t' → size = size'

/-! ## Runs with either page type -/

section Runs

variable {data : DataStrategy} {rank : ℕ} {granularity : PageType → ℕ}

/-- A reservation that returns the address `1`. -/
theorem reserveRankAddress_runs (hrank : rank < data.mappings.length) :
    (reserveRankAddress rank data).Runs
      [⟨data, ⟨.setup, rank, .halMemAddressReserve data.rankStride⟩, .ok 1⟩]
      (.ok .ok, updateMapping rank (fun m => { m with addr := 1 }) data) := by
  refine Prog.Runs.call ?_
  show Prog.Runs
    ((if ((updateMapping rank (fun m => { m with addr := 1 }) data).mapping rank).addr = 0
    then _ else _ : DS Status) _) _ _
  rw [mapping_update_self hrank, if_neg (by simp)]
  exact .ret _

theorem localGrow_runs (data : DataStrategy) {nRanks : ℕ} (pageType : PageType)
    (hfresh : data.mappings = []) (howner : data.owner < nRanks) :
    ∃ data₁ data₂ data₃ addr handle grown, (localGrow nRanks pageType data).Runs
      [⟨data, ⟨.setup, 0, .resizeMappings nRanks⟩, true⟩,
        ⟨data₁, ⟨.setup, data.owner, .halMemAddressReserve data.rankStride⟩, .ok 1⟩,
        ⟨data₂, ⟨.setup, data.owner, .halMemCreate data.rankStride pageType⟩, .ok 1⟩,
        ⟨data₃, ⟨.setup, data.owner, .halMemMap addr data.rankStride handle⟩, .ok ()⟩]
      (.ok .ok, grown) ∧ grown.owner = data.owner ∧ grown.rankStride = data.rankStride ∧
        grown.mappings.length = nRanks ∧ (grown.mapping data.owner).handle = some 1 := by
  let grown : DataStrategy :=
    { data with mappings := (data.mappings ++ List.replicate nRanks ({} : Mapping)).take nRanks }
  have hlength : grown.mappings.length = nRanks := by simp [grown, hfresh]
  have hown : data.owner < grown.mappings.length := howner.trans_eq hlength.symm
  let reserved := updateMapping data.owner (fun m => { m with addr := 1 }) grown
  let created := updateMapping data.owner (fun m => { m with handle := some 1 }) reserved
  let mapped := updateMapping data.owner (fun m => { m with mapped := true }) created
  refine ⟨grown, reserved, created, (created.mapping data.owner).addr,
    (created.mapping data.owner).handle, mapped, ?_, rfl, rfl,
    by simp [mapped, created, reserved, hlength], ?_⟩
  · refine Prog.Runs.call ?_
    refine Proc.runs_bind (a := Status.ok) (reserveRankAddress_runs hown) ?_
    refine Prog.Runs.call ?_
    exact Prog.Runs.call (.ret _)
  · rw [mapping_update_self (by simpa [created, reserved] using hown),
      mapping_update_self (by simpa [reserved] using hown)]

theorem localSetup_runs (data : DataStrategy) (dataBytes : ℕ) {nRanks : ℕ} (pageType : PageType)
    (hfresh : data.mappings = []) (howner : data.owner < nRanks) (hpos : 0 < granularity pageType) :
    ∃ t data₁ data₂ addr handle grown, (localSetup dataBytes nRanks pageType data).Runs
      (t ++ [⟨data₁, ⟨.setup, data.owner, .halMemCreate
          (roundUp dataBytes (allocationAlignment (granularity pageType))) pageType⟩, .ok 1⟩,
        ⟨data₂, ⟨.setup, data.owner, .halMemMap addr
          (roundUp dataBytes (allocationAlignment (granularity pageType))) handle⟩, .ok ()⟩])
      (.ok .ok, grown) ∧ Reports granularity t ∧ grown.owner = data.owner ∧
        grown.rankStride = roundUp dataBytes (allocationAlignment (granularity pageType)) ∧
        grown.mappings.length = nRanks ∧ (grown.mapping data.owner).handle = some 1 := by
  let sized : DataStrategy :=
    { data with rankStride := roundUp dataBytes (allocationAlignment (granularity pageType)) }
  obtain ⟨data₁, data₂, data₃, addr, handle, grown, hruns, hgrown⟩ :=
    localGrow_runs sized pageType hfresh howner
  refine ⟨[
    ⟨data, ⟨.setup, 0, .halMemGetAllocationGranularity pageType⟩, .ok (granularity pageType)⟩,
    ⟨sized, ⟨.setup, 0, .resizeMappings nRanks⟩, true⟩,
    ⟨data₁, ⟨.setup, data.owner, .halMemAddressReserve sized.rankStride⟩, .ok 1⟩],
    data₂, data₃, addr, handle, grown, ?_, ?_, hgrown⟩
  · refine Prog.Runs.call ?_
    show Prog.Runs ((if granularity pageType = 0 then _ else _ : DS Status) data) _ _
    rw [if_neg hpos.ne']
    exact hruns
  · exact Reports.append (reports_asked granularity data pageType)
      (not_reported (by simp [Op.asksGranularity]))

/-- A `LocalSetup` whose reservation fails. -/
theorem localSetup_fails (data : DataStrategy) (dataBytes nRanks : ℕ) (pageType : PageType)
    (hfresh : data.mappings = []) (hpos : 0 < granularity pageType) :
    ∃ t data₁ status, (localSetup dataBytes nRanks pageType data).Runs t (.ok status, data₁) ∧
      Reports granularity t ∧ status.failure = true ∧ data₁.owner = data.owner ∧
        data₁.mappings = List.replicate nRanks {} := by
  let sized : DataStrategy :=
    { data with rankStride := roundUp dataBytes (allocationAlignment (granularity pageType)) }
  let grown : DataStrategy := { sized with
    mappings := (sized.mappings ++ List.replicate nRanks ({} : Mapping)).take nRanks }
  refine ⟨[
    ⟨data, ⟨.setup, 0, .halMemGetAllocationGranularity pageType⟩, .ok (granularity pageType)⟩,
    ⟨sized, ⟨.setup, 0, .resizeMappings nRanks⟩, true⟩,
    ⟨grown, ⟨.setup, data.owner, .halMemAddressReserve sized.rankStride⟩, .error ⟨1, by decide⟩⟩],
    grown, fromHalError (α := Ptr) "halMemAddressReserve" (.error ⟨1, by decide⟩), ?_, ?_, rfl, rfl,
    by simp [grown, sized, hfresh]⟩
  · refine Prog.Runs.call ?_
    show Prog.Runs ((if granularity pageType = 0 then _ else _ : DS Status) data) _ _
    rw [if_neg hpos.ne']
    exact .call (.call (.ret _))
  · exact Reports.append (reports_asked granularity data pageType)
      (not_reported (by simp [Op.asksGranularity]))

theorem resetLoop_runs {op? : ℕ → Option Op} (hop? : ∀ rank, op? rank = none) (ranks : List ℕ) :
    (resetLoop op? ranks data).Runs [] (.ok ⟨⟩, data) := by
  induction ranks with
  | nil => exact .ret _
  | cons rank ranks ih =>
      unfold resetLoop
      rw [hop?]
      exact ih

/-- `Reset` makes no call where there is nothing to release. -/
theorem reset_runs (hempty : ∀ rank, data.mapping rank = {}) :
    (reset data).Runs [] (.ok ⟨⟩, { data with mappings := [], rankStride := 0 }) := by
  have hunmap : ∀ rank, data.unmapOp rank = none := fun rank => by simp [unmapOp, hempty]
  have hrelease : ∀ rank, data.releaseOp rank = none := fun rank => by simp [releaseOp, hempty]
  have hfree : ∀ rank, data.freeOp rank = none := fun rank => by simp [freeOp, hempty]
  refine Proc.runs_bind (t := []) (.ret _) ?_
  refine Proc.runs_bind (t := []) (resetLoop_runs hunmap _) ?_
  refine Proc.runs_bind (t := []) (resetLoop_runs hrelease _) ?_
  refine Proc.runs_bind (t := []) (resetLoop_runs hrelease _) ?_
  exact Proc.runs_bind (t := []) (resetLoop_runs hfree _) (.ret _)

theorem deviceSetup_runs {deviceId : ℤ} (hdevice : 0 ≤ deviceId) :
    (deviceSetup deviceId data).Runs [⟨data, ⟨.setup, 0, .aclrtSetDevice deviceId⟩, .ok ()⟩]
      (.ok .ok, data) := by
  unfold deviceSetup
  rw [if_neg (by omega)]
  exact .call (.ret _)

/-- What `Setup` visits in `CrossRankSetup`, after an allocation has succeeded. -/
theorem setup_visits {fuel : ℕ} (args : SetupArgs) (hdevice : 0 ≤ args.deviceId)
    {t u : List DSEvent} {grown : DataStrategy}
    (hallocate : (allocate args { owner := args.myRank, deviceId := args.deviceId }).Runs t
      (.ok .ok, grown))
    (hcross : (crossRankSetup fuel args.timeoutMs grown).Visits u) :
    (setup fuel args {}).Visits
      (⟨{ owner := args.myRank, deviceId := args.deviceId },
        ⟨.setup, 0, .aclrtSetDevice args.deviceId⟩, .ok ()⟩ :: (t ++ u)) := by
  have hbody : (setupBody fuel args { owner := args.myRank, deviceId := args.deviceId }).Visits
      ([⟨{ owner := args.myRank, deviceId := args.deviceId },
        ⟨.setup, 0, .aclrtSetDevice args.deviceId⟩, .ok ()⟩] ++ (t ++ u)) :=
    Proc.visits_bind (deviceSetup_runs hdevice) (Proc.visits_bind hallocate hcross)
  refine Proc.visits_bind (t := []) (.ret _) ?_
  rw [if_neg (by simp)]
  refine Proc.visits_bind (t := []) (.ret _) ?_
  exact Prog.Visits.bind (Prog.Visits.bind hbody)

end Runs

section Pages

variable {opts : Options} {granularity : PageType → ℕ} {data : DataStrategy}

/-- An allocation with huge pages. -/
theorem allocate_huge (data : DataStrategy) (hopts : opts.Bounds)
    (hpos : ∀ pageType, 0 < granularity pageType) (hfresh : data.mappings = [])
    (howner : data.owner = opts.rank) :
    ∃ t grown, (allocate opts.setupArgs data).Runs t (.ok .ok, grown) ∧ Reports granularity t ∧
      grown.owner = opts.rank ∧ grown.rankStride = strideFor opts granularity .huge ∧
        grown.mappings.length = opts.ranks := by
  have hlt : data.owner < opts.setupArgs.nRanks := by
    rw [howner, hopts.nRanks]
    exact hopts.rank
  have hbytes : sizeT (opts.slotSize * opts.slotsPerRank) = opts.slotSize * opts.slotsPerRank :=
    Nat.mod_eq_of_lt hopts.dataBytes
  obtain ⟨t, data₁, data₂, addr, handle, grown, hruns, hreports, hown, hstride, hlength, -⟩ :=
    localSetup_runs data (sizeT (opts.slotSize * opts.slotsPerRank)) .huge hfresh hlt (hpos .huge)
  rw [hbytes] at hstride
  refine ⟨_, grown, Proc.runs_bind hruns (.ret _), ?_, hown.trans howner, hstride,
    hlength.trans hopts.nRanks⟩
  rw [List.append_nil]
  exact Reports.append hreports (not_reported (by simp [Op.asksGranularity]))

/-- An allocation that falls back to normal pages. -/
theorem allocate_normal (data : DataStrategy) (hopts : opts.Bounds)
    (hpos : ∀ pageType, 0 < granularity pageType) (hfresh : data.mappings = [])
    (howner : data.owner = opts.rank) :
    ∃ t data₁ data₂ addr handle grown, (allocate opts.setupArgs data).Runs
      (t ++ [⟨data₁,
        ⟨.setup, opts.rank, .halMemCreate (strideFor opts granularity .normal) .normal⟩,
          .ok 1⟩,
        ⟨data₂, ⟨.setup, opts.rank, .halMemMap addr (strideFor opts granularity .normal) handle⟩,
          .ok ()⟩]) (.ok .ok, grown) ∧
        Reports granularity t ∧ grown.owner = opts.rank ∧
          (grown.mapping opts.rank).handle = some 1 := by
  have hlt : data.owner < opts.setupArgs.nRanks := by
    rw [howner, hopts.nRanks]
    exact hopts.rank
  have hbytes : sizeT (opts.slotSize * opts.slotsPerRank) = opts.slotSize * opts.slotsPerRank :=
    Nat.mod_eq_of_lt hopts.dataBytes
  obtain ⟨t, data₁, status, hfails, hreports, hfailure, howner₁, hmappings⟩ :=
    localSetup_fails data (sizeT (opts.slotSize * opts.slotsPerRank)) opts.setupArgs.nRanks .huge
      hfresh (hpos .huge)
  let cleared : DataStrategy := { data₁ with mappings := [], rankStride := 0 }
  have hcleared : cleared.owner = opts.rank := howner₁.trans howner
  obtain ⟨u, data₂, data₃, addr, handle, grown, hruns, hreports', hown, -, -, hhandle⟩ :=
    localSetup_runs cleared (sizeT (opts.slotSize * opts.slotsPerRank)) .normal rfl
      (show cleared.owner < opts.setupArgs.nRanks from howner₁.trans_lt hlt) (hpos .normal)
  have hstride : roundUp (sizeT (opts.slotSize * opts.slotsPerRank))
      (allocationAlignment (granularity .normal)) = strideFor opts granularity .normal := by
    rw [hbytes]
    rfl
  rw [hcleared, hstride] at hruns
  rw [hcleared] at hhandle
  refine ⟨t ++ u, data₂, data₃, addr, handle, grown, ?_, hreports.append hreports',
    hown.trans hcleared, hhandle⟩
  rw [List.append_assoc]
  refine Proc.runs_bind hfails ?_
  rw [if_pos hfailure]
  exact Proc.runs_bind (t := []) (reset_runs (mapping_of_replicate hmappings)) hruns

/-- What `CrossRankSetup` visits up to the export. -/
theorem crossRankSetup_exports (fuel timeoutMs : ℕ) {handle : Handle}
    (hhandle : (data.mapping data.owner).handle = some handle) :
    (crossRankSetup fuel timeoutMs data).Visits
      [⟨data, ⟨.setup, data.owner, .steadyClockNow⟩, 0⟩,
        ⟨data, ⟨.setup, data.owner, .halMemExportToShareableHandle (some handle)⟩, .ok 7⟩] := by
  rw [← hhandle]
  exact .call (.call (.nil _))

theorem pollRankDesc_ok (rank deadline fuel : ℕ) (handle : UInt64) :
    pollRankDesc rank deadline fuel (.ok handle) = pure (.ok handle) := by
  cases fuel <;> rfl

/-- What the first rank visits up to the reservation for the second one. -/
theorem crossRankSetup_reserves (fuel timeoutMs : ℕ) (howner : data.owner = 0)
    (hlength : 1 < data.mappings.length) :
    ∃ t data' device, (crossRankSetup fuel timeoutMs data).Visits
      (t ++ [⟨data, ⟨.setup, 1, .halMemImportFromShareableHandle 7 device⟩, .ok 1⟩,
        ⟨data', ⟨.setup, 1, .halMemAddressReserve data.rankStride⟩, .ok 1⟩]) ∧
          ∀ e ∈ t, e.call.op.asksGranularity = false := by
  obtain ⟨n, hn⟩ := Nat.exists_eq_add_of_lt hlength
  have hrange : List.range data.mappings.length = 0 :: 1 :: (List.range n).map (· + 2) := by
    rw [hn, show 1 + n + 1 = n + 1 + 1 by omega, List.range_succ_eq_map, List.range_succ_eq_map]
    simp [Function.comp_def]
  have hpeers : (peerLoop fuel (0 + timeoutMs * 1000000) timeoutMs
      (0 :: 1 :: (List.range n).map (· + 2)) data).Visits
        [⟨data, ⟨.setup, 1, .getRankDesc 1⟩, .ok (.ok 7)⟩,
          ⟨data, ⟨.setup, 1,
            .halMemImportFromShareableHandle 7 (data.deviceId % 2 ^ 32).toNat⟩, .ok 1⟩,
          ⟨updateMapping 1 (fun m => { m with handle := some 1 }) data,
            ⟨.setup, 1, .halMemAddressReserve data.rankStride⟩, .ok 1⟩] := by
    refine Proc.visits_bind (t := []) (.ret _) ?_
    rw [if_pos howner.symm]
    refine Proc.visits_bind (t := []) (.ret _) ?_
    rw [if_neg (by omega)]
    have hread : (getRankDesc 1 data).Runs [⟨data, ⟨.setup, 1, .getRankDesc 1⟩, .ok (.ok 7)⟩]
        (.ok (.ok 7), data) := .call (.ret _)
    refine Proc.visits_bind hread ?_
    rw [pollRankDesc_ok]
    exact .call (.call (.nil _))
  refine ⟨[⟨data, ⟨.setup, data.owner, .steadyClockNow⟩, 0⟩,
    ⟨data, ⟨.setup, data.owner, .halMemExportToShareableHandle (data.mapping data.owner).handle⟩,
      .ok 7⟩,
    ⟨data, ⟨.setup, data.owner, .halMemShareHandleSetAttribute 7⟩, .ok ()⟩,
    ⟨data, ⟨.setup, data.owner, .setRankDesc data.owner 7⟩, .ok⟩,
    ⟨data, ⟨.setup, 1, .getRankDesc 1⟩, .ok (.ok 7)⟩],
    updateMapping 1 (fun m => { m with handle := some 1 }) data, (data.deviceId % 2 ^ 32).toNat, ?_,
    by simp [Op.asksGranularity]⟩
  rw [← hrange] at hpeers
  exact .call (.call (.call (.call hpeers)))

/-! ## Exactly when a peer maps the whole allocation -/

/-- The options of one rank of the run. -/
theorem agrees_of_lt (hopts : opts.Admitted) {rank : ℕ} (hrank : rank < opts.ranks) :
    Agrees { opts with rank := rank } opts := by
  refine ⟨?_, rfl, rfl, rfl⟩
  unfold Options.Admitted Options.rejected at hopts ⊢
  simp only [decide_eq_false_iff_not, not_or] at hopts ⊢
  exact ⟨hopts.1, hopts.2.1, by omega, hopts.2.2.2⟩

/-- If the strides of the page types differ, the first rank can reserve less or more
for the second one than that has created. -/
theorem strides_agree (hopts : opts.Admitted) (hpos : ∀ pageType, 0 < granularity pageType)
    (hranks : 1 < opts.ranks) (hwhole : PeersMapWhole opts granularity) :
    strideFor opts granularity .huge = strideFor opts granularity .normal := by
  let mine : Options := { opts with rank := 0 }
  let theirs : Options := { opts with rank := 1 }
  have hmine : Agrees mine opts := agrees_of_lt hopts (by omega)
  have htheirs : Agrees theirs opts := agrees_of_lt hopts hranks
  obtain ⟨t, grown, hruns, hreports, howner, hstride, hlength⟩ :=
    allocate_huge { owner := 0, deviceId := mine.deviceId } hmine.admitted.bounds hpos rfl rfl
  obtain ⟨t', data₁, data₂, addr, handle, grown', hruns', hreports', howner', hhandle⟩ :=
    allocate_normal { owner := 1, deviceId := theirs.deviceId } htheirs.admitted.bounds hpos
      rfl rfl
  obtain ⟨u, data₃, device, hcross, hsilent⟩ := crossRankSetup_reserves 0 mine.timeoutMs howner
    (hranks.trans_eq hlength.symm)
  have hexports := crossRankSetup_exports 0 theirs.timeoutMs (howner'.symm ▸ hhandle)
  have hvisits := setup_visits mine.setupArgs (Int.natCast_nonneg _) hruns hcross
  have hvisits' := setup_visits theirs.setupArgs (Int.natCast_nonneg _) hruns' hexports
  rw [List.append_assoc] at hvisits'
  refine hwhole mine theirs hmine htheirs Nat.zero_ne_one 0 0 {} {} ([_] ++ _) ([_] ++ _) hvisits
    hvisits' ?_ ?_ 7 _ _ ?_ ?_
  · refine (not_reported (by simp [Op.asksGranularity])).append (hreports.append ?_)
    exact (not_reported hsilent).append (not_reported (by simp [Op.asksGranularity]))
  · refine (not_reported (by simp [Op.asksGranularity])).append (hreports'.append ?_)
    exact not_reported (by simp [Op.asksGranularity])
  · refine MapsPeer.append_left (MapsPeer.append_left (MapsPeer.append_left ?_ u) t) _
    exact ⟨[_], _, [], device, 1, rfl, rfl, congrArg some hstride, grown, .setup,
      List.mem_singleton_self _⟩
  · refine Exports.append_left (Exports.append_left ?_ t') _
    exact ⟨[], [_, _], [], data₁, grown', .setup, .setup, 1, grown'.owner, .normal, 1, rfl, by simp⟩

end Pages

/-- **A peer maps what the owner has allocated** in every run, if and only if there is
no peer or the strides of the two page types are equal.  Where nothing wraps they are
equal if and only if some common multiple of the two alignments exceeds the data of a
rank by less than either alignment. -/
theorem peersMapWhole_iff {opts : Options} {granularity : PageType → ℕ} (hopts : opts.Admitted)
    (hpos : ∀ pageType, 0 < granularity pageType) :
    (PeersMapWhole opts granularity ↔
      opts.ranks ≤ 1 ∨ strideFor opts granularity .huge = strideFor opts granularity .normal) ∧
    ((∀ pageType,
        Fits (opts.slotSize * opts.slotsPerRank) kAddressAlignment (granularity pageType)) →
      (strideFor opts granularity .huge = strideFor opts granularity .normal ↔
        ∃ m, ∀ pageType, Nat.lcm kAddressAlignment (granularity pageType) ∣ m ∧
          opts.slotSize * opts.slotsPerRank ≤ m ∧
            m < opts.slotSize * opts.slotsPerRank +
              Nat.lcm kAddressAlignment (granularity pageType))) := by
  refine ⟨⟨fun hwhole => ?_, ?_⟩, fun hfits => ?_⟩
  -- with two ranks, each page type can be that of either side
  · by_cases hranks : opts.ranks ≤ 1
    · exact .inl hranks
    · exact .inr (strides_agree hopts hpos (by omega) hwhole)
  · intro hcases mine theirs hmine htheirs hne fuel fuel' data data' t t' hvisits hvisits' hreports
      hreports' token size size' hmaps hexports
    obtain ⟨t₁, e, t₂, device, handle, ht, -, hsize, -⟩ := hmaps
    obtain ⟨u₁, u₂, u₃, _, _, _, _, _, _, pageType, _, hu, -⟩ := hexports
    -- each side has rounded with the granularity of some page type
    obtain ⟨p, hp⟩ := length_eq_strideFor hmine.admitted hvisits hreports ht hsize
    rw [List.append_assoc] at hu
    obtain ⟨q, hq⟩ := length_eq_strideFor htheirs.admitted hvisits' hreports' hu rfl
    have hmineFor : ∀ p, strideFor mine granularity p = strideFor opts granularity p := fun p => by
      unfold strideFor
      rw [hmine.slotSize, hmine.slotsPerRank]
    have htheirsFor : ∀ p, strideFor theirs granularity p = strideFor opts granularity p :=
      fun p => by
        unfold strideFor
        rw [htheirs.slotSize, htheirs.slotsPerRank]
    rw [hp, hq, hmineFor, htheirsFor]
    rcases hcases with hone | hsame
    · have hmineRank := hmine.admitted.bounds.rank
      have htheirsRank := htheirs.admitted.bounds.rank
      rw [hmine.ranks] at hmineRank
      rw [htheirs.ranks] at htheirsRank
      omega
    · cases p <;> cases q
      · rfl
      · exact hsame.symm
      · exact hsame
      · rfl
  -- both strides are the length rounded up, so they are equal only if one multiple serves both
  · have hrounded : ∀ pageType, Rounding.IsRoundedUp (opts.slotSize * opts.slotsPerRank)
        (Nat.lcm kAddressAlignment (granularity pageType)) (strideFor opts granularity pageType) :=
      fun pageType => ((exactStride_iff hopts.bounds.dataBytes (by decide) (hpos pageType)).mpr
        (hfits pageType)).rounded
    have halign : ∀ pageType, 0 < Nat.lcm kAddressAlignment (granularity pageType) :=
      fun pageType => Nat.lcm_pos (by decide) (hpos pageType)
    rw [(hrounded .huge).eq_iff (halign .huge) (halign .normal) (hrounded .normal)]
    constructor
    · rintro ⟨m, hhuge, hnormal, hle, hlth, hltn⟩
      refine ⟨m, fun pageType => ?_⟩
      cases pageType with
      | normal => exact ⟨hnormal, hle, hltn⟩
      | huge => exact ⟨hhuge, hle, hlth⟩
    · rintro ⟨m, hm⟩
      exact ⟨m, (hm .huge).1, (hm .normal).1, (hm .huge).2.1, (hm .huge).2.2, (hm .normal).2.2⟩

/-- HAL's granularities for 4 KiB and for 2 MiB pages. -/
def usualPages : PageType → ℕ
  | .normal => 2 ^ 12
  | .huge => 2 ^ 21

theorem peersMapWhole_iff_default :
    (PeersMapWhole {} usualPages ↔
      2 ≤ 1 ∨ strideFor {} usualPages .huge = strideFor {} usualPages .normal) ∧
    ((∀ pageType, Fits (8 * 2 ^ 20 * 256) kAddressAlignment (usualPages pageType)) →
      (strideFor {} usualPages .huge = strideFor {} usualPages .normal ↔
        ∃ m, ∀ pageType, Nat.lcm kAddressAlignment (usualPages pageType) ∣ m ∧
          8 * 2 ^ 20 * 256 ≤ m ∧
            m < 8 * 2 ^ 20 * 256 + Nat.lcm kAddressAlignment (usualPages pageType))) :=
  peersMapWhole_iff (by decide) fun pageType => by cases pageType <;> decide

/-- One slot of 1 GiB for each of two ranks. -/
def oneGiBSlots : Options where
  slotSize := 2 ^ 30
  slotsPerRank := 1

/-- HAL's granularity for 2 GiB huge pages. -/
def largePages : PageType → ℕ
  | .normal => 2 ^ 12
  | .huge => 2 ^ 31

/-- A rank with huge pages reserves 2 GiB for a peer that has fallen back to normal
pages and has created 1 GiB. -/
theorem peers_map_too_much : oneGiBSlots.Admitted ∧ (∀ pageType, 0 < largePages pageType) ∧
    ¬PeersMapWhole oneGiBSlots largePages := by
  have hpos : ∀ pageType, 0 < largePages pageType := fun pageType => by cases pageType <;> decide
  refine ⟨by decide, hpos, fun hwhole => ?_⟩
  have hsame := strides_agree (show oneGiBSlots.Admitted by decide) hpos (by decide) hwhole
  exact absurd hsame (by decide +kernel)

end SharingProbe.DataStrategy
