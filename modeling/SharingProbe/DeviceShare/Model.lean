import SharingProbe.Share.Model

/-!
# `device_share`

`worker` for both processes.  The shared buffer is the mapping of the Host allocation, the
buffer of the device is the HBM of the process, and `staging` is the vector in which a copy
is verified.  The only socket has the number 0, the Host allocation the number 0, and that
in HBM the number 1.
-/

namespace SharingProbe.DeviceShare

open Interaction Share

/-- `device_id`. -/
def deviceId : ℕ := 0

/-- `mapping.va`. -/
def mapping : Buffer := .host 0

/-- `hbm.va`. -/
def hbm : Buffer := .device

/-- `host`, the vector. -/
def host : Buffer := .staging

/-! ## The copies -/

/-- The copies of the creator, and then those of the importer. -/
inductive Copy where
  | hostToHbm
  | hbmToHost
  | sharedToHbm
  | importedToHost
  | patternToHbm
  | hbmToShared
  | sharedToHost
  deriving DecidableEq, Repr

namespace Copy

/-- The text that is checked. -/
def what : Copy → String
  | hostToHbm => "H2D shared HOST source -> HBM destination"
  | hbmToHost => "D2H creator HBM -> verification buffer"
  | sharedToHbm => "D2D imported DEVICE source -> HBM destination"
  | importedToHost => "D2H importer HBM -> verification buffer"
  | patternToHbm => "H2D new pattern -> importer HBM"
  | hbmToShared => "D2D HBM source -> imported DEVICE destination"
  | sharedToHost => "D2H imported DEVICE -> verification buffer"

def dst : Copy → Buffer
  | hostToHbm | sharedToHbm | patternToHbm => hbm
  | hbmToShared => mapping
  | hbmToHost | importedToHost | sharedToHost => host

def src : Copy → Buffer
  | hostToHbm | sharedToHbm | sharedToHost => mapping
  | patternToHbm => host
  | hbmToHost | importedToHost | hbmToShared => hbm

end Copy

/-- `halMemcpy` of the whole buffer. -/
def memcpy (copy : Copy) : SH PUnit := do
  let _ ← check (.halMemcpy copy.dst copy.src) copy.what
  pure ⟨⟩

/-! ## The allocations -/

section Worker

variable (bytes : ℕ)

/-- `allocate_hbm`. -/
def allocateHbm : SH PUnit := do
  let base ← check (.halMemAddressReserve bytes) "reserve HBM VA"
  Proc.modify fun p => { p with hbmVa := base.out }
  let created ← check (.halMemCreate 1 bytes) "halMemCreate DEVICE HBM normal pages"
  setHandle 1 created.out
  let _ ← check (.halMemMap 1 created.out) "map DEVICE HBM"
  setMapped 1 true

/-! ## `worker` -/

/-- The runtime and the device.  The text of the first exception is that of `dlerror`. -/
def setUp : SH PUnit := do
  let library ← direct .dlopen
  Proc.modify fun p => { p with library := library.out }
  Proc.onlyIf (library.out = 0) (fail "dlerror")
  let openTsd ← direct .dlsym
  let closeTsd ← direct .dlsym
  Proc.onlyIf (openTsd.out = 0 ∨ closeTsd.out = 0) (fail "missing TsdOpen/TsdClose")
  let _ ← check (.tsdOpen deviceId) "TsdOpen"
  Proc.modify fun p => { p with tsdOpen := true }
  let _ ← direct .halSetRuntimeApiVer
  let _ ← check (.halDeviceOpen deviceId) "halDeviceOpen"
  Proc.modify fun p => { p with deviceOpen := true }

/-- The side that creates the Host allocation. -/
def creator : SH PUnit := do
  let base ← check (.halMemAddressReserve bytes) "reserve creator VA"
  Proc.modify fun p => { p with va := base.out }
  let created ← check (.halMemCreate 0 bytes) "halMemCreate HOST DDR"
  setHandle 0 created.out
  let _ ← check (.halMemMap 0 created.out) "map creator HOST"
  setMapped 0 true
  fill mapping bytes 101
  allocateHbm bytes
  memcpy .hostToHbm
  memcpy .hbmToHost
  verify host bytes 101 "CREATOR_HOST_TO_HBM"
  let p ← Proc.get
  let token ← check (.halMemExportToShareableHandle (p.handles 0)) "export HOST handle"
  let _ ← check (.halMemShareHandleSetAttribute (UInt64.ofNat token.out))
    "enable same-server sharing"
  sendWord 0 ⟨.handOver 101, UInt64.ofNat token.out⟩
  let wrote ← receiveWord 0 (.handOver 202)
  checkWord wrote "importer verified D2D and wrote shared mapping"
  verify mapping bytes 202 "CREATOR_SEES_IMPORTER_WRITE"
  sendWord 0 ⟨.done, 0⟩
  let released ← receiveWord 0 .done
  checkWord released "importer resources released"

/-- The side that imports it. -/
def importer : SH PUnit := do
  let token ← receiveWord 0 (.handOver 101)
  let base ← check (.halMemAddressReserve bytes) "reserve importer VA"
  Proc.modify fun p => { p with va := base.out }
  let imported ← check (.halMemImportFromShareableHandle 0 token) "import shared handle to DEVICE 0"
  setHandle 0 imported.out
  let _ ← check (.halMemMap 0 imported.out) "map imported DEVICE"
  setMapped 0 true
  allocateHbm bytes
  memcpy .sharedToHbm
  memcpy .importedToHost
  verify host bytes 101 "IMPORTER_SHARED_TO_HBM"
  fill host bytes 202
  memcpy .patternToHbm
  memcpy .hbmToShared
  clear host
  memcpy .sharedToHost
  verify host bytes 202 "IMPORTER_WRITE_READBACK"
  sendWord 0 ⟨.handOver 202, 0⟩
  let verified ← receiveWord 0 .done
  checkWord verified "creator acknowledged verification"
  let _ ← check (.halMemUnmap 0) "unmap importer DEVICE"
  setMapped 0 false
  let p ← Proc.get
  let _ ← check (.halMemRelease 0 (p.handles 0)) "release importer handle"
  setHandle 0 0
  let _ ← check (.halMemAddressFree p.va) "free importer VA"
  Proc.modify fun p => { p with va := 0 }
  sendWord 0 ⟨.done, 0⟩

/-- The destructors of `hbm` and `mapping`. -/
def destroyAllocations : SH PUnit := do
  destroyAllocation 1 (·.hbmVa)
  destroyAllocation 0 (·.va)

/-- The scope of the two allocations, of the vector, and of what follows them: the
destructors run however it ends.  A vector starts out cleared. -/
def withAllocations (body : SH PUnit) : SH PUnit := do
  Proc.modify fun p => { p with
    va := 0, hbmVa := 0, handles := fun _ => 0, mapped := fun _ => false }
  clear host
  Proc.tryCatch body fun error => do
    destroyAllocations
    Proc.throw error
  destroyAllocations

/-- The `try` block of `worker`. -/
def workerBody (reader : Bool) : SH PUnit := do
  setUp
  withAllocations (if reader = true then importer bytes else creator bytes)

/-- `worker`. -/
def worker (reader : Bool) : SH ℕ := do
  Proc.tryCatch (workerBody bytes reader) fun _ => Proc.modify fun p => { p with result := 1 }
  let _ ← direct (.close 0)
  let p ← Proc.get
  Proc.onlyIf (p.deviceOpen = true) (cleanup (.halDeviceClose deviceId) "halDeviceClose")
  Proc.onlyIf (p.tsdOpen = true) (cleanup (.tsdClose deviceId) "TsdClose")
  Proc.onlyIf (p.library ≠ 0) (cleanup (.dlclose p.library) "dlclose TSD")
  let p ← Proc.get
  pure (if p.result ≠ 0 ∨ p.cleanupFailed = true then 1 else 0)

end Worker

end SharingProbe.DeviceShare
