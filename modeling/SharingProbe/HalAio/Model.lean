import SharingProbe.AioPhase.Model
import SharingProbe.Common.Memory
import SharingProbe.Library.Hoare

/-!
# `cache2_hal_aio`

`main`, `Transfer`, `TextRecord` and `HostMemory`, with the driver, the operating
system and the memory of the buffer as the environment.  A call that is made
through `SDK` or `OS` is an `SdkCall` or an `OsCall`; its reply is what the call
returns and what it stores through an out-parameter, and a call that fails stores
nothing.

A phase of the AIO engine is one call.  Its reply is a run of the phase that the
kernel and the two threads are free to choose.  A phase that has not ended leaves
`main` where it is.

The object state of a procedure are the members of `HostMemory`, the flag
`cleanupFailed`, and `fd`, the local variable of `Transfer`, which a handler reads.
-/

namespace SharingProbe.HalAio

open Interaction

/-! ## Options -/

/-- `struct Options`. -/
structure Options where
  dir : String := ""
  device : ℕ := 0
  blocks : ℕ := 8
  shards : ℕ := 32
  slotBytes : ℕ := 8 * 2 ^ 20
  depth : ℕ := 32
  iterations : ℕ := 2
  timeoutMs : ℕ := 60000
  pages : String := "auto"
  direct : Bool := true
  engine : String := "aio"
  memoryType : String := "hal"
  tensorBytes : ℕ := 0
  sync : Bool := false
  keepFiles : Bool := true

/-- `maxBytes`. -/
def maxBytes : ℕ := 2 ^ 40

/-- The condition under which `main` reports invalid options. -/
def Options.invalid (opt : Options) : Bool :=
  opt.dir = "" || opt.blocks = 0 || opt.shards = 0 || opt.slotBytes = 0 || opt.depth = 0 ||
    opt.iterations = 0 || opt.timeoutMs = 0 || opt.depth > 2 ^ 31 - 1 ||
    (opt.engine ≠ "aio" && opt.engine ≠ "psync") ||
    (opt.memoryType ≠ "hal" && opt.memoryType ≠ "malloc") ||
    (opt.tensorBytes ≠ 0 && (opt.engine ≠ "psync" || opt.slotBytes % opt.tensorBytes ≠ 0)) ||
    opt.blocks > maxBytes / opt.shards ||
    sizeT (opt.blocks * opt.shards) > maxBytes / opt.slotBytes ||
    (opt.pages ≠ "auto" && opt.pages ≠ "normal" && opt.pages ≠ "huge")

/-- `bytes`. -/
def Options.bytes (opt : Options) : ℕ := sizeT (sizeT (opt.blocks * opt.shards) * opt.slotBytes)

/-- The requests of one phase, with the kernel reporting only what it was given. -/
def Options.config (opt : Options) (cbAddr : ℕ → ℕ) : AioPhase.Config where
  count := sizeT (opt.blocks * opt.shards)
  depth := opt.depth
  slotBytes := opt.slotBytes
  cbAddr := cbAddr
  strayEvents := false
  count_lt := Nat.mod_lt _ (by decide)

/-! ## Calls -/

/-- `O_CREAT`, `O_WRONLY` or else `O_RDONLY`, and `O_DIRECT`. -/
structure OpenFlags where
  create : Bool
  write : Bool
  direct : Bool
  deriving DecidableEq, Repr

/-- What is called through `OS`. -/
inductive OsCall where
  | statfs (path : String)
  | openFile (path : String) (flags : OpenFlags)
  | pwrite (fd : ℕ) (addr : Ptr) (bytes offset : ℕ)
  | pread (fd : ℕ) (addr : Ptr) (bytes offset : ℕ)
  | fdatasync (fd : ℕ)
  | close (fd : ℕ)
  | rename (src dst : String)
  | stat (path : String)
  | unlink (path : String)
  | rmdir (path : String)
  deriving DecidableEq, Repr

/-- What is called through `SDK`. -/
inductive SdkCall where
  | aclInit
  | aclrtSetDevice (device : ℕ)
  | halMemGetAllocationGranularity (huge : Bool)
  | halMemAddressReserve (size : ℕ)
  | halMemCreate (size : ℕ) (huge : Bool)
  | halMemMap (addr : Ptr) (size : ℕ) (handle : Ptr)
  | halMemUnmap (addr : Ptr)
  | halMemRelease (handle : Ptr)
  | halMemAddressFree (addr : Ptr)
  | aclrtResetDevice (device : ℕ)
  | aclFinalize
  deriving DecidableEq, Repr

/-- A run of one phase, as far as it has got. -/
structure PhaseRun (opt : Options) where
  cbAddr : ℕ → ℕ
  moves : List (AioPhase.State × AioPhase.Action)
  final : AioPhase.State
  path : Transition.Path (AioPhase.system (opt.config cbAddr)) {} moves final

/-- A call of the environment. -/
inductive Call where
  | os (call : OsCall)
  | sdk (call : SdkCall)
  | mkdtemp (template : String)
  | malloc (bytes : ℕ)
  | free (base : Ptr)
  | memcpy (dst : Ptr) (bytes : List UInt8)
  | memset (dst : Ptr) (byte : UInt8) (bytes : ℕ)
  | readBuffer (src : Ptr) (bytes : ℕ)
  | aioPhase (opt : Options) (paths : List String) (buffer : Ptr) (dump : Bool)

/-- `OS` calls return a `long` and may store `st_size`, `SDK` calls return a status
and may store an address, a handle or a granularity. -/
@[reducible] def Call.Reply : Call → Type
  | os _ => ℤ × ℤ
  | sdk _ => ℤ × ℕ
  | mkdtemp _ => Option String
  | malloc _ => Ptr
  | free _ => Unit
  | memcpy _ _ => Unit
  | memset _ _ _ => Unit
  | readBuffer _ _ => ℕ → UInt8
  | aioPhase opt _ _ _ => PhaseRun opt

/-- `std::exception`. -/
inductive Exn where
  | os (call : OsCall) (ret : ℤ)
  | sdk (call : SdkCall) (ret : ℤ)
  | phase
  | error (what : String)
  deriving DecidableEq, Repr

/-! ## The process -/

/-- `struct HostMemory`. -/
structure HostMemory where
  mallocBase : Ptr := 0
  initialized : Bool := false
  deviceSet : Bool := false
  mapped : Bool := false
  device : ℕ := 0
  addr : Ptr := 0
  handle : Ptr := 0
  deriving DecidableEq, Repr

/-- What a procedure of `main` reads and writes. -/
structure Process where
  memory : HostMemory := {}
  cleanupFailed : Bool := false
  fd : Option ℕ := none
  deriving DecidableEq, Repr

/-- A procedure of the process. -/
abbrev HA : Type → Type := Proc Process Exn Call Call.Reply

abbrev HAEvent : Type := Event Process Call Call.Reply

/-- Assign to members of `HostMemory`. -/
def setMemory (f : HostMemory → HostMemory) : HA PUnit :=
  Proc.modify fun p => { p with memory := f p.memory }

/-- `OS(call)`: the value that is returned and the one that is stored. -/
def os (call : OsCall) : HA (ℤ × ℤ) := do
  let reply ← Proc.ask (R := Call.Reply) (.os call)
  if reply.1 < 0 then Proc.throw (.os call reply.1) else pure reply

/-- `SDK(call)`: the value that is stored. -/
def sdk (call : SdkCall) : HA ℕ := do
  let reply ← Proc.ask (R := Call.Reply) (.sdk call)
  if reply.1 ≠ 0 then Proc.throw (.sdk call reply.1) else pure reply.2

/-- `CLEANUP`. -/
def cleanup {α : Type} (m : HA α) : HA PUnit :=
  Proc.tryCatch (do let _ ← m; pure ⟨⟩) fun _ =>
    Proc.modify fun p => { p with cleanupFailed := true }

/-! ## `HostMemory` -/

/-- `HostMemory::Release`. -/
def release : HA PUnit := do
  let p ← Proc.get
  let memory := p.memory
  if memory.mallocBase ≠ 0 then do
    let _ ← Proc.ask (R := Call.Reply) (.free memory.mallocBase)
    setMemory fun m => { m with mallocBase := 0, addr := 0 }
  else do
    Proc.onlyIf (memory.mapped = true) do
      let _ ← sdk (.halMemUnmap memory.addr)
      setMemory fun m => { m with mapped := false }
    Proc.onlyIf (memory.handle ≠ 0) do
      let _ ← sdk (.halMemRelease memory.handle)
      setMemory fun m => { m with handle := 0 }
    Proc.onlyIf (memory.addr ≠ 0) do
      let _ ← sdk (.halMemAddressFree memory.addr)
      setMemory fun m => { m with addr := 0 }

/-- `HostMemory::~HostMemory`. -/
def destroyMemory : HA PUnit := do
  cleanup release
  let p ← Proc.get
  Proc.onlyIf (p.memory.deviceSet = true) (cleanup (sdk (.aclrtResetDevice p.memory.device)))
  Proc.onlyIf (p.memory.initialized = true) (cleanup (sdk .aclFinalize))

/-- `vaAlignment`. -/
def vaAlignment : ℕ := 2 ^ 30

/-- `rankStride`. -/
def rankStride (bytes allocGranularity : ℕ) : ℕ :=
  roundUp bytes (sizeT (Nat.lcm vaAlignment allocGranularity))

/-- `HostMemory::Allocate`. -/
def allocate (bytes : ℕ) (huge : Bool) : HA PUnit := do
  let allocGranularity ← sdk (.halMemGetAllocationGranularity huge)
  Proc.onlyIf (allocGranularity = 0 ∨ allocGranularity > 2 ^ 40)
    (Proc.throw (.error "invalid allocation granularity"))
  let rankStride := rankStride bytes allocGranularity
  let addr ← sdk (.halMemAddressReserve rankStride)
  setMemory fun m => { m with addr := addr }
  Proc.onlyIf (addr = 0) (Proc.throw (.error "null HAL reservation"))
  let handle ← sdk (.halMemCreate rankStride huge)
  setMemory fun m => { m with handle := handle }
  let _ ← sdk (.halMemMap addr rankStride handle)
  setMemory fun m => { m with mapped := true }

/-- The buffer of `main`: from `malloc`, or from HAL with a second attempt on
normal pages. -/
def acquireMemory (opt : Options) : HA PUnit :=
  if opt.memoryType = "malloc" then do
    let alignment := 4096
    let base ← Proc.ask (R := Call.Reply) (.malloc (sizeT (opt.bytes + alignment - 1)))
    setMemory fun m => { m with mallocBase := base }
    Proc.onlyIf (base = 0) (Proc.throw (.error "malloc failed"))
    setMemory fun m => { m with addr := sizeT (base + alignment - 1) / alignment * alignment }
  else do
    setMemory fun m => { m with device := opt.device }
    let _ ← sdk .aclInit
    setMemory fun m => { m with initialized := true }
    let _ ← sdk (.aclrtSetDevice opt.device)
    setMemory fun m => { m with deviceSet := true }
    Proc.tryCatch (allocate opt.bytes (opt.pages ≠ "normal")) fun error => do
      Proc.onlyIf (opt.pages ≠ "auto") (Proc.throw error)
      release
      allocate opt.bytes false

/-! ## `Transfer` -/

/-- `Transfer` with `AioPhase`. -/
def transferAio (opt : Options) (paths : List String) (buffer : Ptr) (dump : Bool) : HA PUnit := do
  let phase ← Proc.ask (R := Call.Reply) (.aioPhase opt paths buffer dump)
  -- a phase that has not ended has not returned
  Proc.onlyIf (phase.final.main ≠ .finished) Proc.cut
  Proc.modify fun p => { p with cleanupFailed := p.cleanupFailed || phase.final.cleanupFailed }
  Proc.onlyIf (phase.final.threw = true) (Proc.throw .phase)

/-- The descriptor of the block, opened at its first use. -/
def openBlock (path : String) (flags : OpenFlags) : HA ℕ := do
  let p ← Proc.get
  match p.fd with
  | some fd => pure fd
  | none => do
      let reply ← os (.openFile path flags)
      Proc.modify fun p => { p with fd := some reply.1.toNat }
      pure reply.1.toNat

/-- One shard of a block. -/
def transferShard (opt : Options) (path : String) (buffer : Ptr) (dump : Bool) (block shard : ℕ) :
    HA PUnit := do
  let bytes := if opt.tensorBytes ≠ 0 then opt.tensorBytes else opt.slotBytes
  let fd ← openBlock path ⟨dump, dump, opt.direct⟩
  (List.range ((opt.slotBytes + bytes - 1) / bytes)).forM fun k => do
    let offset := sizeT (shard * opt.slotBytes + k * bytes)
    let addr := buffer + sizeT (sizeT (sizeT (block * opt.shards) * opt.slotBytes) + offset)
    let reply ← os (if dump then .pwrite fd addr bytes offset else .pread fd addr bytes offset)
    Proc.onlyIf (reply.1 ≠ bytes) (Proc.throw (.error "short psync I/O"))
  Proc.onlyIf (dump = true ∨ shard + 1 = opt.shards) do
    Proc.modify fun p => { p with fd := none }
    let _ ← os (.close fd)

/-- `if (fd >= 0) { CLEANUP(OS(close(fd))); }`. -/
def closeBlock : HA PUnit := do
  let p ← Proc.get
  match p.fd with
  | some fd => cleanup (os (.close fd))
  | none => pure ⟨⟩

/-- One block. -/
def transferBlock (opt : Options) (path : String) (buffer : Ptr) (dump : Bool) (block : ℕ) :
    HA PUnit := do
  Proc.modify fun p => { p with fd := none }
  Proc.tryCatch ((List.range opt.shards).forM (transferShard opt path buffer dump block))
    fun error => do
      closeBlock
      Proc.throw error

/-- `Transfer`. -/
def transfer (opt : Options) (paths : List String) (buffer : Ptr) (dump : Bool) : HA PUnit :=
  if opt.engine = "aio" then
    transferAio opt paths buffer dump
  else
    (List.range opt.blocks).forM fun block =>
      transferBlock opt (paths.getD block "") buffer dump block

/-! ## `TextRecord` -/

/-- The bytes of a text. -/
def textBytes (text : String) : List UInt8 := text.toList.map fun c => UInt8.ofNat c.toNat

/-- `%012zu`. -/
def paddedDecimal (n : ℕ) : List UInt8 :=
  ((Nat.toDigits 10 n).leftpad 12 '0').map fun c => UInt8.ofNat c.toNat

/-- `TextRecord`, or nothing where it throws. -/
@[irreducible] def textRecord (offset iteration : ℕ) (opt : Options) : Option (List UInt8) :=
  let text :=
    textBytes "UCM iter=" ++ paddedDecimal iteration ++
    textBytes " block=" ++ paddedDecimal (offset / opt.slotBytes / opt.shards) ++
    textBytes " shard=" ++ paddedDecimal (offset / opt.slotBytes % opt.shards) ++
    textBytes " slot_offset=" ++ paddedDecimal (offset % opt.slotBytes) ++
    textBytes " buffer_offset=" ++ paddedDecimal offset ++ textBytes " | "
  if text.length ≥ 128 then none
  else some (text ++ List.replicate (127 - text.length) 46 ++ [10])

/-- A call of `TextRecord`. -/
def record (offset iteration : ℕ) (opt : Options) : HA (List UInt8) :=
  match textRecord offset iteration opt with
  | some bytes => pure bytes
  | none => Proc.throw (.error "text record overflow")

/-! ## `main` -/

/-- The offsets at which a record starts. -/
def recordOffsets (bytes : ℕ) : List ℕ := (List.range ((bytes + 127) / 128)).map (· * 128)

/-- The fill loop. -/
def fillBuffer (opt : Options) (iteration : ℕ) (buffer : Ptr) : HA PUnit :=
  (recordOffsets opt.bytes).forM fun offset => do
    let bytes ← record offset iteration opt
    Proc.ask (R := Call.Reply)
      (.memcpy (buffer + offset) (bytes.take (min 128 (opt.bytes - offset))))

/-- How many bytes differ from those of a record. -/
def countMismatches (actual : ℕ → UInt8) (expected : List UInt8) (length : ℕ) : ℕ :=
  (List.range length).countP fun j => actual j ≠ expected.getD j 0

/-- The verification loop. -/
def verifyBuffer (opt : Options) (iteration : ℕ) (buffer : Ptr) : HA PUnit := do
  let mismatches ← (recordOffsets opt.bytes).foldlM (fun mismatches offset => do
    let bytes ← record offset iteration opt
    let length := min 128 (opt.bytes - offset)
    let actual ← Proc.ask (R := Call.Reply) (.readBuffer (buffer + offset) length)
    pure (mismatches + countMismatches actual bytes length)) 0
  Proc.onlyIf (mismatches ≠ 0) (Proc.throw (.error "data mismatches"))

/-- `archived[block]`. -/
def archivedPath (runDir : String) (block : ℕ) : String := runDir ++ "/block-" ++ toString block

/-- `temporary[block]`. -/
def temporaryPath (runDir : String) (block : ℕ) : String := archivedPath runDir block ++ ".tmp"

/-- What follows DUMP for each block. -/
def commitBlock (opt : Options) (runDir : String) (block : ℕ) : HA PUnit := do
  Proc.onlyIf (opt.sync = true) do
    let reply ← os (.openFile (temporaryPath runDir block) ⟨false, true, false⟩)
    let fd := reply.1.toNat
    Proc.tryCatch (do let _ ← os (.fdatasync fd); pure ⟨⟩) fun error => do
      cleanup (os (.close fd))
      Proc.throw error
    let _ ← os (.close fd)
  let _ ← os (.rename (temporaryPath runDir block) (archivedPath runDir block))
  let reply ← os (.stat (archivedPath runDir block))
  Proc.onlyIf (reply.2 ≠ sizeT (opt.shards * opt.slotBytes))
    (Proc.throw (.error "unexpected file size"))

/-- One iteration of `main`. -/
def iteration (opt : Options) (runDir : String) (buffer : Ptr) (n : ℕ) : HA PUnit := do
  fillBuffer opt n buffer
  transfer opt ((List.range opt.blocks).map (temporaryPath runDir)) buffer true
  (List.range opt.blocks).forM (commitBlock opt runDir)
  Proc.ask (R := Call.Reply) (.memset buffer 255 opt.bytes)
  transfer opt ((List.range opt.blocks).map (archivedPath runDir)) buffer false
  verifyBuffer opt n buffer

/-- The scope of `HostMemory memory`: its destructor runs however the body ends. -/
def withMemory (body : HA PUnit) : HA PUnit := do
  setMemory fun _ => {}
  Proc.tryCatch body fun error => do
    destroyMemory
    Proc.throw error
  destroyMemory

/-- The `try` block of `main` after the options are parsed. -/
def body (opt : Options) : HA PUnit := do
  Proc.onlyIf (opt.invalid = true) (Proc.throw (.error "invalid options; use --help"))
  let dir ← Proc.ask (R := Call.Reply) (.mkdtemp (opt.dir ++ "/cache2-hal-aio-XXXXXX"))
  match dir with
  | none => Proc.throw (.error "mkdtemp")
  | some runDir => do
      let _ ← os (.statfs runDir)
      withMemory do
        acquireMemory opt
        let p ← Proc.get
        (List.range opt.iterations).forM (iteration opt runDir p.memory.addr)
      let p ← Proc.get
      Proc.onlyIf (p.cleanupFailed = true) (Proc.throw (.error "resource cleanup failed"))
      Proc.onlyIf (opt.keepFiles = false) do
        (List.range opt.blocks).forM fun block => do
          let _ ← os (.unlink (archivedPath runDir block))
          pure ⟨⟩
        let _ ← os (.rmdir runDir)
        pure ⟨⟩

/-- `main` after the options are parsed, with its exit code. -/
def main (opt : Options) : HA ℕ :=
  Proc.tryCatch (do body opt; pure 0) fun _ => pure 1

end SharingProbe.HalAio
