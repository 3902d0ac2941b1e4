import SharingProbe.Share.Model

/-!
# `multi_share`

`worker`, and the coordinator in `main` from the loop that starts the workers.  The number
of read rounds is a parameter.  A worker talks to the coordinator over its only socket,
which has the number 0.

The world are the shared blocks.  An owner writes its block word by word, clears it, or
has the kernel read a file into it; while that transfer is under way, and after the
owner has released the block, the words can be anything.
-/

namespace SharingProbe.MultiShare

open Interaction Network Share

/-- The options of a run, `read_rounds`, and the value of `MEM_HOST_NUMA_SIDE`. -/
structure Config where
  count : ℕ
  rounds : ℕ
  bytes : ℕ
  hostNumaSide : ℕ
  devices : ℕ → ℕ
  nodes : ℕ → ℕ

/-! ## `worker` -/

section Worker

variable (cfg : Config) (rank : ℕ)

/-- `barrier`. -/
def barrier : SH PUnit := do
  sendWord 0 ⟨.barrier, 0⟩
  let word ← receiveWord 0 .barrier
  checkWord word "barrier"

/-- `va_alignment`. -/
def vaAlignment : ℕ := 2 ^ 30

/-- `total`. -/
def Config.total (cfg : Config) : ℕ := sizeT (cfg.bytes * cfg.count)

/-- `reserve_bytes`: a sum in `size_t` under the mask `~(va_alignment - 1)`. -/
def Config.reserveBytes (cfg : Config) : ℕ :=
  sizeT (cfg.total + (vaAlignment - 1)) &&& (2 ^ 64 - vaAlignment)

/-- The runtime and the context. -/
def setUpDevice : SH PUnit := do
  let _ ← check (.bindCpu (cfg.nodes rank)) "bind_cpu"
  let _ ← check .aclInit "aclInit"
  Proc.modify fun p => { p with aclInit := true }
  let _ ← check (.aclrtSetDevice (cfg.devices rank)) "aclrtSetDevice"
  Proc.modify fun p => { p with deviceSet := true }
  let current ← check .aclrtGetCurrentContext "aclrtGetCurrentContext"
  Proc.onlyIf (current.out = 0) (fail "aclrtSetDevice did not establish a current context")
  let device ← check .aclrtGetDevice "aclrtGetDevice"
  Proc.onlyIf (device.out ≠ cfg.devices rank)
    (fail "current ACL device differs from requested device")

/-- The reservation, the own allocation, and its token. -/
def exportOwn : SH PUnit := do
  let base ← check (.halMemAddressReserve cfg.reserveBytes) "reserve independent local VA"
  Proc.modify fun p => { p with va := base.out }
  Proc.onlyIf (base.out = 0 ∨ base.out % vaAlignment ≠ 0)
    (fail "local base is null or not 1 GiB aligned")
  let created ← check (.halMemCreate rank cfg.bytes) "halMemCreate HOST_NUMA"
  Proc.modify fun p => { p with handles := Function.update p.handles rank created.out }
  let query ← direct .dlsym
  Proc.onlyIf (query.out ≠ 0) do
    let actual ← check (.queryProperties created.out) "query allocation properties"
    Proc.onlyIf (actual.more ≠ cfg.hostNumaSide ∨ actual.out ≠ cfg.nodes rank)
      (fail "NUMA allocation properties mismatch")
  let token ← check (.halMemExportToShareableHandle created.out) "export NUMA allocation"
  let _ ← check (.halMemShareHandleSetAttribute (UInt64.ofNat token.out))
    "enable same-server sharing"
  sendWord 0 ⟨.token, UInt64.ofNat token.out⟩

/-- One slice: the token that comes next is that of `owner`. -/
def importSlice (owner : ℕ) : SH PUnit := do
  let token ← receiveWord 0 .token
  Proc.onlyIf (owner ≠ rank) do
    let handle ← check (.halMemImportFromShareableHandle owner token) "import peer as DEVICE"
    Proc.modify fun p => { p with handles := Function.update p.handles owner handle.out }
  let p ← Proc.get
  let _ ← check (.halMemMap owner (p.handles owner)) "map contiguous slice"
  Proc.modify fun p => { p with mapped := Function.update p.mapped owner true }

/-- The transfers of `buffered_aio`. -/
def aioTransfers (fd : ℕ) (seed : UInt64) : SH PUnit := do
  let setup ← check .ioSetup "io_setup"
  Proc.modify fun p => { p with ctx := setup.out }
  aioOperation fd .control cfg.bytes true
  clear (.host rank)
  aioOperation fd (.host rank) cfg.bytes false
  verify (.host rank) cfg.bytes seed "AIO_READ_OWN_HOST"
  let _ ← check (.ftruncate fd) "truncate before AIO write"
  aioOperation fd (.host rank) cfg.bytes true
  clear .control
  aioOperation fd .control cfg.bytes false
  verify .control cfg.bytes seed "AIO_WRITE_OWN_HOST"

/-- `buffered_aio`, on the own block. -/
def bufferedAio (seed : UInt64) : SH PUnit := do
  fill .control cfg.bytes seed
  let opened ← direct (.openFile false)
  let fd := opened.ret.toNat
  Proc.onlyIf (opened.ret < 0) (fail "open buffered AIO file")
  let unlinked ← direct .unlink
  Proc.onlyIf (unlinked.ret ≠ 0) do
    let _ ← direct (.close fd)
    fail "unlink AIO file"
  Proc.modify fun p => { p with ctx := 0 }
  Proc.tryCatch (aioTransfers cfg rank fd seed) fun error => do
    let p ← Proc.get
    Proc.onlyIf (p.ctx ≠ 0) (cleanup (.ioDestroy p.ctx) "io_destroy failed case")
    cleanup (.close fd) "close failed AIO file"
    Proc.throw error
  let p ← Proc.get
  cleanup (.ioDestroy p.ctx) "io_destroy"
  cleanup (.close fd) "close AIO file"

/-- The seed of what the processor writes into the own block. -/
def cpuSeed (rank : ℕ) : UInt64 := UInt64.ofNat (100 + rank)

/-- The seed of what comes into it through the file. -/
def aioSeed (rank : ℕ) : UInt64 := UInt64.ofNat (200 + rank)

/-- The tests of the own block. -/
def testOwn : SH PUnit := do
  fill (.host rank) cfg.bytes (cpuSeed rank)
  verify (.host rank) cfg.bytes (cpuSeed rank) "CPU_OWN_HOST"
  bufferedAio cfg rank (aioSeed rank)

/-- The seed of a block in a round. -/
def Config.seed (cfg : Config) (round owner : ℕ) : UInt64 :=
  UInt64.ofNat (300 + round * cfg.count + owner)

/-- `copy`. -/
def copy (dst src : Buffer) (round : ℕ) (purpose : String) : SH PUnit := do
  let _ ← check (.aclrtMemcpyAsync dst src round) purpose
  let _ ← check .aclrtSynchronizeStream "sync block copy"

/-- `phase`. -/
def readPhase (round owner : ℕ) : String :=
  s!"OWNER_WRITE_READER_VERIFY round={round} owner={owner}"

/-- The block of one owner is read and verified. -/
def readBlock (round owner : ℕ) : SH PUnit := do
  let _ ← check (.aclrtMemset .device) "clear HBM before shared read"
  copy .device (.host owner) round "read owner-written shared block into HBM"
  clear .staging
  copy .staging .device round "HBM readback for CPU verification"
  verify .staging cfg.bytes (cfg.seed round owner) (readPhase round owner)

/-- One round of `read_rounds`. -/
def readRound (round : ℕ) : SH PUnit := do
  fill (.host rank) cfg.bytes (cfg.seed round rank)
  verify (.host rank) cfg.bytes (cfg.seed round rank) "OWNER_CPU_DATA"
  barrier
  (List.range cfg.count).forM (readBlock cfg round)
  verify (.host rank) cfg.bytes (cfg.seed round rank) "OWNER_DATA_UNCHANGED_AFTER_READS"
  barrier

/-- The block of `worker` in which `acl` lives. -/
def readRounds : SH PUnit := withAcl do
  let device ← check (.aclrtMalloc cfg.bytes) "allocate one-block local NPU HBM"
  Proc.modify fun p => { p with device := device.out }
  let attr ← check .drvMemGetAttribute "query local HBM device"
  Proc.onlyIf (attr.out ≠ cfg.devices rank) (fail "ACL/HAL device ID mismatch")
  let stream ← check .aclrtCreateStream "aclrtCreateStream"
  Proc.modify fun p => { p with stream := stream.out }
  (List.range cfg.rounds).forM (readRound cfg rank)

/-- One slice is unmapped. -/
def unmapSlice (i : ℕ) : SH PUnit := do
  let _ ← check (.halMemUnmap i) "unmap slice"
  Proc.modify fun p => { p with mapped := Function.update p.mapped i false }

/-- The `try` block of `worker`. -/
def workerBody : SH PUnit := do
  setUpDevice cfg rank
  exportOwn cfg rank
  (List.range cfg.count).forM (importSlice rank)
  barrier
  testOwn cfg rank
  barrier
  readRounds cfg rank
  barrier
  (List.range cfg.count).forM unmapSlice
  barrier

/-- What the cleanup does about one slice. -/
def cleanupSlice (i : ℕ) : SH PUnit := do
  let p ← Proc.get
  Proc.onlyIf (p.mapped i = true) (cleanup (.halMemUnmap i) "unmap on failure")
  Proc.onlyIf (p.handles i ≠ 0) (cleanup (.halMemRelease i (p.handles i)) "release handle")

/-- What follows the `try` block. -/
def workerCleanup : SH PUnit := do
  (List.range cfg.count).forM cleanupSlice
  let p ← Proc.get
  Proc.onlyIf (p.va ≠ 0) (cleanup (.halMemAddressFree p.va) "free contiguous VA")
  Proc.onlyIf (p.deviceSet = true)
    (cleanup (.aclrtResetDevice (cfg.devices rank)) "aclrtResetDevice")
  Proc.onlyIf (p.aclInit = true) (cleanup .aclFinalize "aclFinalize")
  let _ ← direct (.close 0)
  pure ⟨⟩

/-- `worker`. -/
def worker : SH ℕ := do
  Proc.tryCatch (workerBody cfg rank) fun _ => Proc.modify fun p => { p with result := 1 }
  workerCleanup cfg rank
  let p ← Proc.get
  pure (if p.result ≠ 0 ∨ p.cleanupFailed = true then 1 else 0)

end Worker

/-! ## The coordinator -/

section Coordinator

variable (cfg : Config)

/-- What the child does before `exec`: the descriptors that it closes. -/
def childCloses (p : Process) : List ℕ := p.sockets ++ [p.pair.1]

/-- The two descriptors are closed before an exception. -/
def closePair (pair : ℕ × ℕ) (what : String) : SH PUnit := do
  let _ ← direct (.close pair.1)
  let _ ← direct (.close pair.2)
  fail what

/-- The timeouts of one descriptor. -/
def setTimeout (pair : ℕ × ℕ) (fd : ℕ) : SH PUnit := do
  let receive ← direct (.setsockopt fd true)
  Proc.onlyIf (receive.ret ≠ 0) (closePair pair "socket timeout")
  let send ← direct (.setsockopt fd false)
  Proc.onlyIf (send.ret ≠ 0) (closePair pair "socket timeout")

/-- One turn of the loop that starts the workers.  The child goes on as `childCloses` says. -/
def startWorker : SH PUnit := do
  let made ← direct .socketpair
  Proc.onlyIf (made.ret ≠ 0) (fail "socketpair")
  let pair := (made.out, made.more)
  Proc.modify fun p => { p with pair := pair }
  setTimeout pair pair.1
  setTimeout pair pair.2
  let forked ← direct .fork
  Proc.onlyIf (forked.ret < 0) (closePair pair "fork")
  let _ ← direct (.close pair.2)
  Proc.modify fun p => { p with
    sockets := p.sockets ++ [pair.1]
    children := p.children ++ [forked.out] }

/-- The tokens, in the order of the ranks. -/
def collectTokens (sockets : List ℕ) : SH (List UInt64) :=
  sockets.foldlM (fun tokens fd => do
    let token ← receiveWord fd .token
    pure (tokens ++ [token])) []

/-- One barrier. -/
def relayBarrier (sockets : List ℕ) : SH PUnit := do
  sockets.forM fun fd => do
    let word ← receiveWord fd .barrier
    checkWord word "worker barrier arrived"
  sockets.forM fun fd => sendWord fd ⟨.barrier, 0⟩

/-- `barriers`. -/
def Config.barriers (cfg : Config) : ℕ := 2 * cfg.rounds + 4

/-- `for (int fd : sockets) close(fd)`. -/
def closeSockets (sockets : List ℕ) : SH PUnit :=
  sockets.forM fun fd => do
    let _ ← direct (.close fd)
    pure ⟨⟩

/-- The exit codes of the children.  A wait is repeated while it is interrupted. -/
def waitChildren (children : List ℕ) : SH ℕ :=
  children.foldlM (fun failed child => do
    let status ← direct (.waitpid child)
    pure (if status.ret < 0 ∨ status.out ≠ 0 then 1 else failed)) 0

/-- The rest of the `try` block of `main`, once the workers have been started. -/
def coordinate : SH ℕ := do
  let p ← Proc.get
  let tokens ← collectTokens p.sockets
  p.sockets.forM fun fd => tokens.forM fun token => sendWord fd ⟨.token, token⟩
  (List.range cfg.barriers).forM fun _ => relayBarrier p.sockets
  closeSockets p.sockets
  Proc.modify fun p => { p with sockets := [] }
  waitChildren p.children

/-- The handler of `main`. -/
def abandon : SH ℕ := do
  let p ← Proc.get
  closeSockets p.sockets
  p.children.forM fun child => do
    let _ ← direct (.kill child)
    pure ⟨⟩
  p.children.forM fun child => do
    let _ ← direct (.waitpid child)
    pure ⟨⟩
  pure (if p.children = [] then 2 else 1)

/-- The coordinator, once the workers have been started. -/
def coordinator : SH ℕ := Proc.tryCatch (coordinate cfg) fun _ => abandon

/-- `main`, from the loop that starts the workers. -/
def main : SH ℕ :=
  Proc.tryCatch (do
    (List.range cfg.count).forM fun _ => startWorker
    coordinate cfg) fun _ => abandon

end Coordinator

end SharingProbe.MultiShare
