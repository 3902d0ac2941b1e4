import SharingProbe.Share.Model

/-!
# `host_share`

`io_tests`, `worker`, and `launch` from the call of `worker` on, for the process that has
created the allocation.  There is one shared buffer; the only socket has the number 0.
-/

namespace SharingProbe.HostShare

open Interaction Share

/-- `options.aio`. -/
inductive AioMode where
  | both
  | buffered
  | direct
  | none
  deriving DecidableEq, Repr

/-- The options. -/
structure Config where
  bytes : ℕ
  aio : AioMode
  device : ℕ

/-- The shared buffer. -/
def shared : Buffer := .host 0

/-- `CASE_RESULT`. -/
def caseResult (case : Case) (passed : Bool) : SH PUnit :=
  Proc.ask (R := Share.Call.Reply) (.caseResult case passed)

/-- `++failures`, in `io_tests`. -/
def countFailure : SH PUnit := Proc.modify fun p => { p with failures := p.failures + 1 }

/-! ## `io_tests` -/

section IoTests

variable (bytes : ℕ) (seed : UInt64)

/-- One turn of the loop over `d`. -/
def backlog (back : Bool) : SH PUnit := do
  (List.range 32).forM fun _ => do
    let _ ← check (if back then .aclrtMemcpyAsync shared .device 0
      else .aclrtMemcpyAsync .device shared 0) "ACL backlog"
    pure ⟨⟩
  let _ ← check .aclrtRecordEvent "record event"
  let _ ← check .aclrtQueryEventStatus "query event"
  let _ ← check .aclrtSynchronizeEvent "sync event"
  pure ⟨⟩

/-- The copies of ACL. -/
def aclCase : SH PUnit := do
  let device ← check (.aclrtMalloc bytes) "aclrtMalloc"
  Proc.modify fun p => { p with device := device.out }
  let stream ← check .aclrtCreateStream "aclrtCreateStream"
  Proc.modify fun p => { p with stream := stream.out }
  let event ← check .aclrtCreateEvent "aclrtCreateEvent"
  Proc.modify fun p => { p with event := event.out }
  fill shared bytes seed
  let _ ← check (.aclrtMemcpyAsync .device shared 0) "ACL H2D"
  let _ ← check .aclrtSynchronizeStream "sync H2D"
  clear shared
  let _ ← check (.aclrtMemcpyAsync shared .device 0) "ACL D2H"
  let _ ← check .aclrtSynchronizeStream "sync D2H"
  verify shared bytes seed "ACL_ASYNC_ROUNDTRIP"
  [false, true].forM backlog
  verify shared bytes seed "ACL_AFTER_BACKLOG"
  caseResult .acl true

/-- `write_seed`. -/
def writeSeed : UInt64 := seed ^^^ 0xfedcba9876543210

/-- The transfers of one case. -/
def aioTransfers (fd : ℕ) (write : Bool) : SH PUnit := do
  aioOperation fd shared bytes write
  if write = true then do
    let _ ← check (.fdatasync fd) "HAL AIO fdatasync"
    clear .control
    aioOperation fd .control bytes false
    verify .control bytes (writeSeed seed) "HAL_AIO_WRITE_DATA"
  else verify shared bytes seed "HAL_AIO_READ_DATA"

/-- One turn of the loop over `write`. -/
def aioCase (fd : ℕ) (odirect write : Bool) : SH PUnit := do
  fill shared bytes (if write = true then writeSeed seed else 0)
  Proc.tryCatch (do
      aioTransfers bytes seed fd write
      caseResult (.aio odirect write) true) fun error => do
    countFailure
    caseResult (.aio odirect write) false
    let p ← Proc.get
    Proc.onlyIf (p.ctx = 0) (Proc.throw error)

/-- The control buffer first, and then the shared one. -/
def aioCases (fd : ℕ) (odirect : Bool) : SH PUnit := do
  let setup ← check .ioSetup "io_setup"
  Proc.modify fun p => { p with ctx := setup.out }
  aioOperation fd .control bytes true
  let _ ← check (.fdatasync fd) "seed file fdatasync"
  clear .control
  aioOperation fd .control bytes false
  verify .control bytes seed "POSIX_AIO_CONTROL"
  [false, true].forM (aioCase bytes seed fd odirect)

/-- What is done with the file, and what is closed after it. -/
def aioFile (fd : ℕ) (odirect : Bool) : SH PUnit := do
  let unlinked ← direct .unlink
  Proc.onlyIf (unlinked.ret ≠ 0) do
    let _ ← direct (.close fd)
    let _ ← direct .free
    fail "unlink temporary AIO file"
  Proc.modify fun p => { p with ctx := 0 }
  Proc.tryCatch (aioCases bytes seed fd odirect) fun _ => do
    countFailure
    caseResult (.control odirect) false
  let p ← Proc.get
  Proc.onlyIf (p.ctx ≠ 0) (cleanup (.ioDestroy p.ctx) "io_destroy")
  cleanup (.close fd) "close AIO file"

/-- The turn of the loop over `direct` is not left out. -/
def AioMode.wants : AioMode → Bool → Bool
  | .both, _ => true
  | .buffered, odirect => !odirect
  | .direct, odirect => odirect
  | .none, _ => false

/-- One turn of the loop over `direct`. -/
def aioTests (aio : AioMode) (odirect : Bool) : SH PUnit :=
  Proc.onlyIf (aio.wants odirect = true) do
    fill .control bytes seed
    let opened ← direct (.openFile odirect)
    if opened.ret < 0 then do
      caseResult (.file odirect) false
      countFailure
    else aioFile bytes seed opened.ret.toNat odirect

/-- The handler of the copies of ACL. -/
def aclFailed : SH PUnit := do
  countFailure
  caseResult .acl false
  let p ← Proc.get
  Proc.onlyIf (p.stream ≠ 0) do
    let _ ← check .aclrtSynchronizeStream "sync failed ACL before CPU use"
    pure ⟨⟩

/-- The requests, with a control buffer. -/
def aioRequests (aio : AioMode) : SH PUnit := do
  let _ ← check (.posixMemalign bytes) "allocate IO control"
  fill .control bytes seed
  [false, true].forM (aioTests bytes seed aio)
  let _ ← direct .free
  pure ⟨⟩

/-- The block of `io_tests` in which `acl` lives. -/
def ioTestsBody (aio : AioMode) : SH ℕ := do
  Proc.tryCatch (aclCase bytes seed) fun _ => aclFailed
  Proc.onlyIf (aio ≠ .none) (aioRequests bytes seed aio)
  fill shared bytes seed
  let p ← Proc.get
  pure p.failures

/-- `io_tests`. -/
def ioTests (aio : AioMode) : SH ℕ := do
  Proc.modify fun p => { p with failures := 0 }
  withAcl (ioTestsBody bytes seed aio)

end IoTests

/-! ## `worker` -/

section Worker

variable (cfg : Config)

/-- `Allocation::~Allocation`. -/
def destroyAllocation : SH PUnit := Share.destroyAllocation 0 (·.va)

/-- The address range of the allocation. -/
def reserve (what : String) : SH PUnit := do
  let base ← check (.halMemAddressReserve cfg.bytes) what
  Proc.modify fun p => { p with va := base.out }

/-- The mapping, and what is printed about it. -/
def mapHost : SH PUnit := do
  let p ← Proc.get
  let _ ← check (.halMemMap 0 (p.handles 0)) "halMemMap HOST"
  setMapped 0 true
  let _ ← direct .drvMemGetAttribute
  pure ⟨⟩

/-- `failures += n`, in `worker`. -/
def addFailures (n : ℕ) : SH PUnit :=
  Proc.modify fun p => { p with result := (p.result + n) % 2 ^ 32 }

/-- The side that creates the allocation. -/
def creator : SH PUnit := do
  reserve cfg "reserve creator VA"
  let created ← check (.halMemCreate 0 cfg.bytes) "halMemCreate HOST DDR"
  setHandle 0 created.out
  mapHost
  fill shared cfg.bytes 101
  verify shared cfg.bytes 101 "CREATOR_CPU_RW"
  let p ← Proc.get
  let token ← check (.halMemExportToShareableHandle (p.handles 0)) "export handle"
  let _ ← check (.halMemShareHandleSetAttribute (UInt64.ofNat token.out))
    "enable same-server sharing"
  sendWord 0 ⟨.handOver 101, UInt64.ofNat token.out⟩
  let verified ← receiveWord 0 (.handOver 202)
  checkWord verified "importer mapped and verified creator data"
  verify shared cfg.bytes 202 "CREATOR_SEES_IMPORTER_WRITE"
  let failures ← ioTests cfg.bytes 303 cfg.aio
  addFailures failures
  sendWord 0 ⟨.handOver 303, 303⟩
  let peerFailures ← receiveWord 0 (.handOver 404)
  addFailures peerFailures.toNat
  verify shared cfg.bytes 404 "CREATOR_SEES_IMPORTER_AFTER_IO"
  sendWord 0 ⟨.done, 0⟩
  let unmapped ← receiveWord 0 .done
  checkWord unmapped "importer unmapped"

/-- The side that imports it. -/
def importer : SH PUnit := do
  let token ← receiveWord 0 (.handOver 101)
  reserve cfg "reserve importer VA"
  let imported ← check (.halMemImportFromShareableHandle 0 token)
    "halMemImportFromShareableHandle HOST"
  setHandle 0 imported.out
  mapHost
  verify shared cfg.bytes 101 "IMPORTER_SEES_CREATOR_WRITE"
  fill shared cfg.bytes 202
  verify shared cfg.bytes 202 "IMPORTER_CPU_RW"
  sendWord 0 ⟨.handOver 202, 0⟩
  let completed ← receiveWord 0 (.handOver 303)
  Proc.onlyIf (completed ≠ 303) (fail "creator IO completed")
  verify shared cfg.bytes 303 "IMPORTER_SEES_CREATOR_AFTER_IO"
  let failures ← ioTests cfg.bytes 404 cfg.aio
  addFailures failures
  let p ← Proc.get
  sendWord 0 ⟨.handOver 404, UInt64.ofNat p.result⟩
  let verified ← receiveWord 0 .done
  checkWord verified "creator verified final data"
  let _ ← check (.halMemUnmap 0) "importer unmap"
  setMapped 0 false
  let p ← Proc.get
  let _ ← check (.halMemRelease 0 (p.handles 0)) "importer release"
  setHandle 0 0
  let _ ← check (.halMemAddressFree p.va) "importer free VA"
  Proc.modify fun p => { p with va := 0 }
  sendWord 0 ⟨.done, 0⟩

/-- The scope of `Allocation host`: its destructor runs however the body ends. -/
def withAllocation (body : SH PUnit) : SH PUnit := do
  setMapped 0 false
  setHandle 0 0
  Proc.modify fun p => { p with va := 0 }
  Proc.tryCatch body fun error => do
    destroyAllocation
    Proc.throw error
  destroyAllocation

/-- The `try` block of `worker`. -/
def workerBody (reader : Bool) : SH PUnit := do
  let _ ← check .aclInit "aclInit"
  Proc.modify fun p => { p with aclInit := true }
  let _ ← check (.aclrtSetDevice cfg.device) "aclrtSetDevice"
  Proc.modify fun p => { p with deviceSet := true }
  let _ ← check .halGetHostID "halGetHostID"
  withAllocation (if reader = true then importer cfg else creator cfg)

/-- `worker`. -/
def worker (reader : Bool) : SH ℕ := do
  Proc.tryCatch (workerBody cfg reader) fun _ => addFailures 100
  let _ ← direct (.close 0)
  let p ← Proc.get
  Proc.onlyIf (p.deviceSet = true) (cleanup (.aclrtResetDevice cfg.device) "aclrtResetDevice")
  Proc.onlyIf (p.aclInit = true) (cleanup .aclFinalize "aclFinalize")
  let p ← Proc.get
  pure (if p.result ≠ 0 ∨ p.cleanupFailed = true then 1 else 0)

/-- `launch`, once the importer has been started. -/
def launch : SH ℕ := do
  let result ← worker cfg false
  let waited ← direct (.waitpid 0)
  pure (if waited.ret < 0 then 2 else if result ≠ 0 ∨ waited.out ≠ 0 then 1 else 0)

end Worker

end SharingProbe.HostShare
