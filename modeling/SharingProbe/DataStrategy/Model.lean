import Mathlib.Data.Int.Notation
import Mathlib.Data.List.Basic
import Mathlib.Algebra.Ring.Int.Defs
import SharingProbe.Common.Memory
import SharingProbe.DataStrategy.Status
import SharingProbe.Library.Interaction

/-!
# The `DataStrategy` object

`data_strategy.cc` with its HAL, its control channel, the clock and the heap as
the environment.  A call of the environment is an `Op`; its reply says whether
the call failed, and a failed call has no effect and writes no out-parameter.

Two things are recorded with every call that the callee does not see: the rank
the call is for, as the log lines of the source print it, and whether `Reset`
issues it.  Together with the object state they make the moment of a call
observable in a trace.

`CrossRankSetup` polls until a deadline.  The clock is free, so nothing bounds
the number of polls and `pollRankDesc` takes it as `fuel`; a run that uses it up
has no result.
-/

namespace SharingProbe

open Interaction

/-! ## Machine integers and pointers -/

/-- `static_cast<std::byte*>(addr) + offset`. -/
def ptrAdd (addr : Ptr) (offset : ℕ) : Ptr := (addr + offset) % 2 ^ 64

/-- A driver handle other than `nullptr`. -/
abbrev Handle := ℕ

/-- `Hal::kAddressAlignment`. -/
def kAddressAlignment : ℕ := 2 ^ 30

/-- `Hal::PageType`. -/
inductive PageType where
  | normal
  | huge
  deriving DecidableEq, Repr

/-- The exceptions that `Setup` catches. -/
inductive Exn where
  | badAlloc
  | error (what : String)
  deriving DecidableEq, Repr

/-! ## Calls of the environment -/

/-- The driver, the control channel, the clock and the heap. -/
inductive Op where
  | aclrtSetDevice (deviceId : ℤ)
  | resizeMappings (size : ℕ)
  | halMemGetAllocationGranularity (pageType : PageType)
  | halMemAddressReserve (size : ℕ)
  | halMemCreate (size : ℕ) (pageType : PageType)
  | halMemMap (addr : Ptr) (size : ℕ) (handle : Option Handle)
  | halMemUnmap (addr : Ptr)
  | halMemRelease (handle : Handle)
  | halMemAddressFree (addr : Ptr)
  | halMemExportToShareableHandle (handle : Option Handle)
  | halMemShareHandleSetAttribute (shareHandle : UInt64)
  | halMemImportFromShareableHandle (shareHandle : UInt64) (deviceId : ℕ)
  | setRankDesc (rank : ℕ) (handle : UInt64)
  | getRankDesc (rank : ℕ)
  | steadyClockNow
  | sleepUntil (time : ℕ)
  deriving DecidableEq, Repr

/-- A successful `halMemCreate` or import returns a handle, a successful
reservation an address that may be null; the clock counts nanoseconds. -/
@[reducible] def Op.Reply : Op → Type
  | aclrtSetDevice _ => Except DrvError Unit
  | resizeMappings _ => Bool
  | halMemGetAllocationGranularity _ => Except DrvError ℕ
  | halMemAddressReserve _ => Except DrvError Ptr
  | halMemCreate _ _ => Except DrvError Handle
  | halMemMap _ _ _ => Except DrvError Unit
  | halMemUnmap _ => Except DrvError Unit
  | halMemRelease _ => Except DrvError Unit
  | halMemAddressFree _ => Except DrvError Unit
  | halMemExportToShareableHandle _ => Except DrvError UInt64
  | halMemShareHandleSetAttribute _ => Except DrvError Unit
  | halMemImportFromShareableHandle _ _ => Except DrvError Handle
  | setRankDesc _ _ => Status
  | getRankDesc _ => Except Exn (Except Status UInt64)
  | steadyClockNow => ℕ
  | sleepUntil _ => Unit

/-- The function that issues a call. -/
inductive Site where
  | setup
  | reset
  deriving DecidableEq, Repr

/-- A call with the rank it is for and the function that issues it. -/
structure Call where
  site : Site
  rank : ℕ
  op : Op
  deriving DecidableEq, Repr

@[reducible] def Call.Reply (call : Call) : Type := call.op.Reply

/-! ## The object -/

/-- `DataStrategy::Mapping`. -/
structure Mapping where
  handle : Option Handle := none
  addr : Ptr := 0
  mapped : Bool := false
  deriving DecidableEq, Repr

/-- The fields of `DataStrategy`. -/
structure DataStrategy where
  slotSize : ℕ := 0
  nSlotsPerRank : ℕ := 0
  mappings : List Mapping := []
  owner : ℕ := 0
  deviceId : ℤ := -1
  rankStride : ℕ := 0
  deriving DecidableEq, Repr

/-- A procedure of the object. -/
abbrev DS : Type → Type := Proc DataStrategy Exn Call Call.Reply

abbrev DSEvent : Type := Event DataStrategy Call Call.Reply

namespace DataStrategy

/-- `mappings_[rank]`. -/
def mapping (self : DataStrategy) (rank : ℕ) : Mapping := self.mappings.getD rank {}

/-- Assign to fields of `mappings_[rank]`. -/
def updateMapping (rank : ℕ) (f : Mapping → Mapping) (self : DataStrategy) : DataStrategy :=
  { self with mappings := self.mappings.modify rank f }

/-- A call of `Setup` and the functions under it. -/
def hal (rank : ℕ) (op : Op) : DS op.Reply := Proc.ask (R := Call.Reply) ⟨.setup, rank, op⟩

/-- `Device::Setup`. -/
def deviceSetup (deviceId : ℤ) : DS Status := do
  if deviceId < 0 then
    pure (.error s!"invalid device id({deviceId})")
  else
    match ← hal 0 (.aclrtSetDevice deviceId) with
    | .ok _ => pure .ok
    | .error ret => pure ⟨ret.val, s!"{ret.val}"⟩

/-- `Hal::MemAddressReserve(&mappings_[rank].addr, size)`. -/
def memAddressReserve (rank size : ℕ) : DS Status := do
  match ← hal rank (.halMemAddressReserve size) with
  | .ok addr =>
      Proc.modify (updateMapping rank fun m => { m with addr := addr })
      pure .ok
  | .error ret => pure (fromHalError (α := Ptr) "halMemAddressReserve" (.error ret))

/-- `Hal::MemCreate(&mappings_[rank].handle, size, pageType)`. -/
def memCreate (rank size : ℕ) (pageType : PageType) : DS Status := do
  match ← hal rank (.halMemCreate size pageType) with
  | .ok handle =>
      Proc.modify (updateMapping rank fun m => { m with handle := some handle })
      pure .ok
  | .error ret => pure (fromHalError (α := Handle) "halMemCreate" (.error ret))

/-- `Hal::MemImportFromShareableHandle(shareHandle, deviceId, &mappings_[rank].handle)`. -/
def memImportFromShareableHandle (rank : ℕ) (shareHandle : UInt64) (deviceId : ℕ) : DS Status := do
  match ← hal rank (.halMemImportFromShareableHandle shareHandle deviceId) with
  | .ok handle =>
      Proc.modify (updateMapping rank fun m => { m with handle := some handle })
      pure .ok
  | .error ret => pure (fromHalError (α := Handle) "halMemImportFromShareableHandle" (.error ret))

/-- `Hal::MemMap`. -/
def memMap (rank : ℕ) (addr : Ptr) (size : ℕ) (handle : Option Handle) : DS Status := do
  pure (fromHalError "halMemMap" (← hal rank (.halMemMap addr size handle)))

/-- `DataStrategy::ReserveRankAddress`. -/
def reserveRankAddress (rank : ℕ) : DS Status := do
  let self ← Proc.get
  let status ← memAddressReserve rank self.rankStride
  if status.failure then
    pure status
  else
    let self ← Proc.get
    if (self.mapping rank).addr = 0 then
      pure (.error "HAL did not return a valid ptr")
    else
      pure .ok

/-! ### Reset -/

/-- A loop of `Reset` over ranks: issue the call, if the rank needs one, and
ignore its result. -/
def resetLoop (op? : ℕ → Option Op) : List ℕ → DS PUnit
  | [] => pure ⟨⟩
  | rank :: ranks => do
      match op? rank with
      | none => resetLoop op? ranks
      | some op =>
          let _ ← Proc.ask (R := Call.Reply) ⟨.reset, rank, op⟩
          resetLoop op? ranks

/-- The `Hal::MemUnmap` of a rank, if it is mapped. -/
def unmapOp (self : DataStrategy) (rank : ℕ) : Option Op :=
  if (self.mapping rank).mapped then some (.halMemUnmap (self.mapping rank).addr) else none

/-- The lambda `release`: the `Hal::MemRelease` of a rank, if it has a handle. -/
def releaseOp (self : DataStrategy) (rank : ℕ) : Option Op :=
  (self.mapping rank).handle.map .halMemRelease

/-- The `Hal::MemAddressFree` of a rank, if it has an address. -/
def freeOp (self : DataStrategy) (rank : ℕ) : Option Op :=
  if (self.mapping rank).addr = 0 then none else some (.halMemAddressFree (self.mapping rank).addr)

/-- `DataStrategy::Reset`. -/
def reset : DS PUnit := do
  let self ← Proc.get
  let ranks := List.range self.mappings.length
  resetLoop self.unmapOp ranks
  -- imported handles first: releasing one only cancels the import
  resetLoop self.releaseOp (ranks.filter fun rank => rank ≠ self.owner)
  -- the owner's handle releases the physical memory
  resetLoop self.releaseOp (if self.owner < self.mappings.length then [self.owner] else [])
  resetLoop self.freeOp ranks
  Proc.modify fun self => { self with mappings := [], rankStride := 0 }

/-! ### Setup -/

/-- `std::lcm(vaAlignment, allocGranularity)` in `size_t`. -/
def allocationAlignment (granularity : ℕ) : ℕ := sizeT (Nat.lcm kAddressAlignment granularity)

/-- The part of `DataStrategy::LocalSetup` that reserves, creates and maps. -/
def localMap (pageType : PageType) : DS Status := do
  let self ← Proc.get
  let status ← reserveRankAddress self.owner
  if status.failure then
    pure status
  else
    let status ← memCreate self.owner self.rankStride pageType
    if status.failure then
      pure status
    else
      let self ← Proc.get
      let mine := self.mapping self.owner
      let status ← memMap self.owner mine.addr self.rankStride mine.handle
      if status.failure then
        pure status
      else
        Proc.modify (updateMapping self.owner fun m => { m with mapped := true })
        pure .ok

/-- `mappings_.resize(nRanks)` and what follows it in `DataStrategy::LocalSetup`. -/
def localGrow (nRanks : ℕ) (pageType : PageType) : DS Status := do
  if ← hal 0 (.resizeMappings nRanks) then
    Proc.modify fun self =>
      { self with mappings := (self.mappings ++ List.replicate nRanks ({} : Mapping)).take nRanks }
    localMap pageType
  else
    Proc.throw .badAlloc

/-- `DataStrategy::LocalSetup`. -/
def localSetup (dataBytes nRanks : ℕ) (pageType : PageType) : DS Status := do
  match ← hal 0 (.halMemGetAllocationGranularity pageType) with
  | .error ret =>
      pure (fromHalError (α := ℕ) "halMemGetAllocationGranularity" (.error ret))
  | .ok granularity =>
      if granularity = 0 then
        pure (.error s!"invalid HAL granularity({granularity}) for data size({dataBytes})")
      else
        Proc.modify fun self =>
          { self with rankStride := roundUp dataBytes (allocationAlignment granularity) }
        localGrow nRanks pageType

/-- `ctrl.GetRankDesc(rank)`. -/
def getRankDesc (rank : ℕ) : DS (Except Status UInt64) := do
  match ← hal rank (.getRankDesc rank) with
  | .ok peerDesc => pure peerDesc
  | .error e => Proc.throw e

/-- The polling loop `while (!peerDesc)` of `CrossRankSetup`. -/
def pollRankDesc (rank deadline : ℕ) : ℕ → Except Status UInt64 → DS (Except Status UInt64)
  | _, .ok handle => pure (.ok handle)
  | 0, .error _ => Proc.cut
  | fuel + 1, .error status => do
      let now ← hal rank .steadyClockNow
      if now ≥ deadline then
        pure (.error status)
      else
        hal rank (.sleepUntil (min deadline (now + 10 * 1000000)))
        let later ← hal rank .steadyClockNow
        if later ≥ deadline then
          pure (.error status)
        else
          let peerDesc ← getRankDesc rank
          pollRankDesc rank deadline fuel peerDesc

/-- The body of the peer loop of `CrossRankSetup` after the descriptor is there. -/
def importPeer (rank : ℕ) (peerHandle : UInt64) : DS Status := do
  let self ← Proc.get
  let status ← memImportFromShareableHandle rank peerHandle (self.deviceId % 2 ^ 32).toNat
  if status.failure then
    pure ⟨status.code, s!"HAL peer import failed: rank={rank} status={status.toString}"⟩
  else
    let status ← reserveRankAddress rank
    if status.failure then
      pure status
    else
      let self ← Proc.get
      let peer := self.mapping rank
      let status ← memMap rank peer.addr self.rankStride peer.handle
      if status.failure then
        pure ⟨status.code, s!"HAL peer map failed: rank={rank} status={status.toString}"⟩
      else
        Proc.modify (updateMapping rank fun m => { m with mapped := true })
        pure .ok

/-- The peer loop of `CrossRankSetup` over the given ranks. -/
def peerLoop (fuel deadline timeoutMs : ℕ) : List ℕ → DS Status
  | [] => pure .ok
  | rank :: ranks => do
      let self ← Proc.get
      if rank = self.owner then
        peerLoop fuel deadline timeoutMs ranks
      else
        let first ← getRankDesc rank
        match ← pollRankDesc rank deadline fuel first with
        | .error error =>
            pure ⟨Status.timeout.code,
              s!"GetRankDesc timed out: owner={self.owner} device={self.deviceId} " ++
              s!"rank={rank} timeout_ms={timeoutMs} status={error.toString}"⟩
        | .ok peerHandle =>
            let status ← importPeer rank peerHandle
            if status.failure then
              pure status
            else
              peerLoop fuel deadline timeoutMs ranks

/-- `DataStrategy::CrossRankSetup`. -/
def crossRankSetup (fuel timeoutMs : ℕ) : DS Status := do
  let self ← Proc.get
  let now ← hal self.owner .steadyClockNow
  let deadline := now + timeoutMs * 1000000
  match ← hal self.owner (.halMemExportToShareableHandle (self.mapping self.owner).handle) with
  | .error ret =>
      pure (fromHalError (α := UInt64) "halMemExportToShareableHandle" (.error ret))
  | .ok shareHandle =>
      let status := fromHalError "halMemShareHandleSetAttribute"
        (← hal self.owner (.halMemShareHandleSetAttribute shareHandle))
      if status.failure then
        pure status
      else
        let status ← hal self.owner (.setRankDesc self.owner shareHandle)
        if status.failure then
          pure ⟨status.code, s!"SetRankDesc failed: owner={self.owner} " ++
            s!"device={self.deviceId} status={status.toString}"⟩
        else
          peerLoop fuel deadline timeoutMs (List.range self.mappings.length)

/-- The parameters of `DataStrategy::Setup`; of `ctrl` it reads `SlotCount()`. -/
structure SetupArgs where
  slotCount : ℕ
  deviceId : ℤ
  myRank : ℕ
  slotSize : ℕ
  nSlotsPerRank : ℕ
  timeoutMs : ℕ
  deriving DecidableEq, Repr

/-- The number of ranks, as `Setup` computes it. -/
def SetupArgs.nRanks (args : SetupArgs) : ℕ := args.slotCount / args.nSlotsPerRank

/-- The allocation in the `try` block of `Setup`: with Huge pages and, if that
fails, with Normal pages. -/
def allocate (args : SetupArgs) : DS Status := do
  let dataBytes := sizeT (args.slotSize * args.nSlotsPerRank)
  let status ← localSetup dataBytes args.nRanks .huge
  if status.failure then
    reset
    localSetup dataBytes args.nRanks .normal
  else
    pure status

/-- The `try` block of `DataStrategy::Setup`. -/
def setupBody (fuel : ℕ) (args : SetupArgs) : DS Status := do
  let status ← deviceSetup args.deviceId
  let status ← (if status.success then allocate args else pure status)
  if status.success then
    crossRankSetup fuel args.timeoutMs
  else
    pure status

/-- `DataStrategy::Setup`. -/
def setup (fuel : ℕ) (args : SetupArgs) : DS Status := do
  let self ← Proc.get
  if self.nSlotsPerRank ≠ 0 then
    pure (.error "cache2 data strategy is already initialized")
  else
    Proc.modify fun self => { self with owner := args.myRank, deviceId := args.deviceId }
    let status ← Proc.tryCatch (setupBody fuel args) fun
      | .badAlloc => pure .outOfMemory
      | .error what => pure (.error what)
    if status.failure then
      reset
      pure status
    else
      Proc.modify fun self =>
        { self with slotSize := args.slotSize, nSlotsPerRank := args.nSlotsPerRank }
      pure .ok

/-! ### Queries -/

/-- `DataStrategy::HostAccessibleOf`. -/
def hostAccessibleOf (self : DataStrategy) (slotIdx : ℕ) : Bool :=
  self.nSlotsPerRank ≠ 0 && slotIdx / self.nSlotsPerRank = self.owner

/-- The address of a slot inside its rank's mapping. -/
def slotAddr (self : DataStrategy) (slotIdx : ℕ) : Ptr :=
  ptrAdd (self.mapping (slotIdx / self.nSlotsPerRank)).addr
    (sizeT (slotIdx % self.nSlotsPerRank * self.slotSize))

/-- `DataStrategy::DataAt`. -/
def dataAt (self : DataStrategy) (slotIdx : ℕ) : Ptr :=
  if self.nSlotsPerRank = 0 then 0
  else
    let rank := slotIdx / self.nSlotsPerRank
    if rank ≠ self.owner ∨ rank ≥ self.mappings.length ∨ ¬ (self.mapping rank).mapped then 0
    else self.slotAddr slotIdx

/-- `DataStrategy::DeviceDataAt`. -/
def deviceDataAt (self : DataStrategy) (slotIdx : ℕ) : Ptr :=
  if self.nSlotsPerRank = 0 then 0
  else
    let rank := slotIdx / self.nSlotsPerRank
    if rank = self.owner ∨ rank ≥ self.mappings.length ∨ ¬ (self.mapping rank).mapped then 0
    else self.slotAddr slotIdx

end DataStrategy
end SharingProbe
