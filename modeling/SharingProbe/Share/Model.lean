import SharingProbe.Common.Memory
import SharingProbe.Library.Network

/-!
# What the sharing programs have in common

The words, the checks, the buffers and the asynchronous transfers of `common.hpp` and
`cli.hpp`.  A call that goes through `check` or `cleanup` names the operation and the
text that goes with it; its answer is what it returns and what it stores.  Filling and
verifying a buffer are loops over its 64-bit words, one call for each word.

The state of a procedure are the variables that a handler or a destructor reads.  A word
that is sent carries what it is meant as, and a receive says what it waits for.  The
programs do not look at either.
-/

namespace SharingProbe.Share

open Interaction

/-! ## Words -/

/-- What a word is meant as.  A hand-over passes the shared buffer on, with the seed of
its content. -/
inductive Purpose where
  | token
  | barrier
  | handOver (seed : ℕ)
  | done
  deriving DecidableEq, Repr

/-- A word that is sent. -/
structure Message where
  meant : Purpose
  word : UInt64
  deriving DecidableEq, Repr

/-! ## Calls -/

/-- A buffer: the shared buffer of an owner, the two private ones in host memory, and
that of `AclResources`. -/
inductive Buffer where
  | host (owner : ℕ)
  | control
  | staging
  | device
  deriving DecidableEq, Repr

/-- `iocb`: the transfer of `nbytes` bytes between a file and a buffer. -/
structure Iocb where
  data : ℕ
  write : Bool
  fildes : ℕ
  buffer : Buffer
  start : ℕ
  nbytes : ℕ
  offset : ℕ
  deriving DecidableEq, Repr

/-- `io_event`. -/
structure IoEvent where
  data : ℕ := 0
  res : ℤ := 0
  res2 : ℤ := 0
  deriving DecidableEq, Repr

/-- The operations.  A handle or a slice comes with the rank of its owner, an asynchronous
copy with the round it belongs to. -/
inductive Op where
  | bindCpu (node : ℕ)
  | aclInit
  | aclrtSetDevice (device : ℕ)
  | aclrtGetCurrentContext
  | aclrtGetDevice
  | halGetHostID
  | halMemAddressReserve (bytes : ℕ)
  | halMemCreate (owner bytes : ℕ)
  | dlsym
  | queryProperties (handle : Ptr)
  | halMemExportToShareableHandle (handle : Ptr)
  | halMemShareHandleSetAttribute (token : UInt64)
  | halMemImportFromShareableHandle (owner : ℕ) (token : UInt64)
  | halMemMap (owner : ℕ) (handle : Ptr)
  | drvMemGetAttribute
  | halMemUnmap (owner : ℕ)
  | halMemRelease (owner : ℕ) (handle : Ptr)
  | halMemAddressFree (va : Ptr)
  | aclrtMalloc (bytes : ℕ)
  | aclrtCreateStream
  | aclrtCreateEvent
  | aclrtMemset (buffer : Buffer)
  | aclrtMemcpyAsync (dst src : Buffer) (round : ℕ)
  | aclrtSynchronizeStream
  | aclrtRecordEvent
  | aclrtQueryEventStatus
  | aclrtSynchronizeEvent
  | aclrtDestroyEvent
  | aclrtDestroyStream
  | aclrtFree
  | posixMemalign (bytes : ℕ)
  | free
  | openFile (direct : Bool)
  | unlink
  | ioSetup
  | ioSubmit (ctx : ℕ) (requests : List Iocb)
  | ioGetevents (ctx : ℕ)
  | ioDestroy (ctx : ℕ)
  | fdatasync (fd : ℕ)
  | ftruncate (fd : ℕ)
  | close (fd : ℕ)
  | aclrtResetDevice (device : ℕ)
  | aclFinalize
  | socketpair
  | setsockopt (fd : ℕ) (receive : Bool)
  | fork
  | kill (child : ℕ)
  | waitpid (child : ℕ)
  | dlopen
  | tsdOpen (device : ℕ)
  | halSetRuntimeApiVer
  | halDeviceOpen (device : ℕ)
  | halMemcpy (dst src : Buffer)
  | halDeviceClose (device : ℕ)
  | tsdClose (device : ℕ)
  | dlclose (library : Ptr)
  deriving DecidableEq, Repr

/-- What an operation returns and stores. -/
structure Answer where
  ret : ℤ := 0
  out : ℕ := 0
  more : ℕ := 0
  events : ℕ → IoEvent := fun _ => {}

/-- What a `CASE_RESULT` is about: the copies of ACL, the file of the requests, the control that
comes before them, and the requests themselves. -/
inductive Case where
  | acl
  | file (direct : Bool)
  | control (direct : Bool)
  | aio (direct write : Bool)
  deriving DecidableEq, Repr

/-- A call of the environment. -/
inductive Call where
  | check (op : Op) (name : String)
  | cleanup (op : Op) (name : String)
  | direct (op : Op)
  | store (buffer : Buffer) (i : ℕ) (value : UInt64)
  | compare (buffer : Buffer) (i : ℕ) (expected : UInt64) (phase : String)
  | memset (buffer : Buffer)
  | send (fd : ℕ) (message : Message)
  | receive (fd : ℕ) (expects : Purpose)
  | caseResult (case : Case) (passed : Bool)
  deriving DecidableEq, Repr

/-- A comparison reads the word, a receive fails if the peer has closed or the time is
over. -/
@[reducible] def Call.Reply : Call → Type
  | check _ _ | cleanup _ _ | direct _ => Answer
  | store _ _ _ | memset _ | caseResult _ _ => Unit
  | compare _ _ _ _ => UInt64
  | send _ _ => Bool
  | receive _ _ => Option Message

/-! ## The process -/

/-- The variables of a process: `cleanup_failed`, the members of `AclResources`, the local
variables of `worker` with the members of `Allocation`, those of the I/O tests, those of the
coordinator, and what `device_share` has opened. -/
structure Process where
  cleanupFailed : Bool := false
  device : Ptr := 0
  stream : Ptr := 0
  event : Ptr := 0
  aclInit : Bool := false
  deviceSet : Bool := false
  va : Ptr := 0
  handles : ℕ → Ptr := fun _ => 0
  mapped : ℕ → Bool := fun _ => false
  ctx : ℕ := 0
  failures : ℕ := 0
  result : ℕ := 0
  sockets : List ℕ := []
  children : List ℕ := []
  pair : ℕ × ℕ := (0, 0)
  library : Ptr := 0
  tsdOpen : Bool := false
  deviceOpen : Bool := false
  hbmVa : Ptr := 0

/-- A procedure of a process.  An exception is its text. -/
abbrev SH : Type → Type := Proc Process String Call Call.Reply

abbrev SHEvent : Type := Event Process Call Call.Reply

/-- `throw std::runtime_error(what)`. -/
def fail {α : Type} (what : String) : SH α := Proc.throw what

/-- `check`: what the operation stores. -/
def check (op : Op) (name : String) : SH Answer := do
  let answer ← Proc.ask (R := Call.Reply) (.check op name)
  if answer.ret ≠ 0 then fail name else pure answer

/-- `cleanup`. -/
def cleanup (op : Op) (name : String) : SH PUnit := do
  let answer ← Proc.ask (R := Call.Reply) (.cleanup op name)
  Proc.onlyIf (answer.ret ≠ 0) (Proc.modify fun p => { p with cleanupFailed := true })

/-- A call whose result the caller examines. -/
def direct (op : Op) : SH Answer := Proc.ask (R := Call.Reply) (.direct op)

/-- `check` of a word that was received. -/
def checkWord (word : UInt64) (name : String) : SH PUnit := Proc.onlyIf (word ≠ 0) (fail name)

/-- `send_word`. -/
def sendWord (fd : ℕ) (message : Message) : SH PUnit := do
  let sent ← Proc.ask (R := Call.Reply) (.send fd message)
  Proc.onlyIf (sent = false) (fail "IPC send / peer closed")

/-- `receive_word`. -/
def receiveWord (fd : ℕ) (expects : Purpose) : SH UInt64 := do
  let received ← Proc.ask (R := Call.Reply) (.receive fd expects)
  match received with
  | some message => pure message.word
  | none => fail "IPC receive / peer closed or timed out"

/-! ## Buffers -/

/-- `pattern`. -/
def pattern (i : ℕ) (seed : UInt64) : UInt64 := UInt64.ofNat i * 0x9e3779b97f4a7c15 ^^^ seed

/-- `fill`. -/
def fill (buffer : Buffer) (bytes : ℕ) (seed : UInt64) : SH PUnit :=
  (List.range (bytes / 8)).forM fun i =>
    Proc.ask (R := Call.Reply) (.store buffer i (pattern i seed))

/-- `verify`. -/
def verify (buffer : Buffer) (bytes : ℕ) (seed : UInt64) (phase : String) : SH PUnit :=
  (List.range (bytes / 8)).forM fun i => do
    let actual ← Proc.ask (R := Call.Reply) (.compare buffer i (pattern i seed) phase)
    Proc.onlyIf (actual ≠ pattern i seed) (fail phase)

/-- `memset(ptr, 0, bytes)`. -/
def clear (buffer : Buffer) : SH PUnit := Proc.ask (R := Call.Reply) (.memset buffer)

/-! ## Allocations -/

/-- The handle of an allocation. -/
def setHandle (i : ℕ) (handle : Ptr) : SH PUnit :=
  Proc.modify fun p => { p with handles := Function.update p.handles i handle }

/-- `mapped` of an allocation. -/
def setMapped (i : ℕ) (mapped : Bool) : SH PUnit :=
  Proc.modify fun p => { p with mapped := Function.update p.mapped i mapped }

/-- `Allocation::~Allocation` of an allocation with this address range. -/
def destroyAllocation (i : ℕ) (va : Process → Ptr) : SH PUnit := do
  let p ← Proc.get
  Proc.onlyIf (p.mapped i = true) (cleanup (.halMemUnmap i) "halMemUnmap")
  Proc.onlyIf (p.handles i ≠ 0) (cleanup (.halMemRelease i (p.handles i)) "halMemRelease")
  Proc.onlyIf (va p ≠ 0) (cleanup (.halMemAddressFree (va p)) "halMemAddressFree")

/-! ## `AclResources` -/

/-- `AclResources::~AclResources`. -/
def destroyAcl : SH PUnit := do
  let p ← Proc.get
  Proc.onlyIf (p.stream ≠ 0) (cleanup .aclrtSynchronizeStream "aclrtSynchronizeStream")
  Proc.onlyIf (p.event ≠ 0) (cleanup .aclrtDestroyEvent "aclrtDestroyEvent")
  Proc.onlyIf (p.stream ≠ 0) (cleanup .aclrtDestroyStream "aclrtDestroyStream")
  Proc.onlyIf (p.device ≠ 0) (cleanup .aclrtFree "aclrtFree")

/-- The scope of `AclResources acl`: its destructor runs however the body ends. -/
def withAcl {α : Type} (body : SH α) : SH α := do
  Proc.modify fun p => { p with device := 0, stream := 0, event := 0 }
  let result ← Proc.tryCatch body fun error => do
    destroyAcl
    Proc.throw error
  destroyAcl
  pure result

/-! ## `aio_operation` -/

/-- The four requests. -/
def requests (fd : ℕ) (buffer : Buffer) (bytes : ℕ) (write : Bool) : List Iocb :=
  (List.range 4).map fun i =>
    { data := i, write := write, fildes := fd, buffer := buffer, start := i * (bytes / 4),
      nbytes := bytes / 4, offset := i * (bytes / 4) }

/-- One turn of the loop over the events, on `seen` and `failed`. -/
def examineEvent (chunk : ℕ) (s : UInt32 × Bool) (event : IoEvent) : UInt32 × Bool :=
  let bad := decide (event.data ≥ 4) || decide (s.1 &&& (1 <<< UInt32.ofNat event.data) ≠ 0) ||
    decide (event.res ≠ chunk) || decide (event.res2 ≠ 0)
  (if event.data < 4 then s.1 ||| (1 <<< UInt32.ofNat event.data) else s.1, s.2 || bad)

/-- What the loop over the events leaves in `failed`. -/
def completionFailed (chunk : ℕ) (events : ℕ → IoEvent) : Bool :=
  (((List.range 4).map events).foldl (examineEvent chunk) (0, false)).2

/-- `aio_operation`.  The context is a variable of the caller. -/
def aioOperation (fd : ℕ) (buffer : Buffer) (bytes : ℕ) (write : Bool) : SH PUnit := do
  let chunk := bytes / 4
  let p ← Proc.get
  let submitted ← direct (.ioSubmit p.ctx (requests fd buffer bytes write))
  Proc.onlyIf (submitted.ret ≠ 4) do
    -- quiesce any accepted requests before the caller reuses its buffer
    cleanup (.ioDestroy p.ctx) "io_destroy incomplete submit"
    Proc.modify fun p => { p with ctx := 0 }
    fail "io_submit"
  let completed ← direct (.ioGetevents p.ctx)
  Proc.onlyIf (completed.ret ≠ 4) do
    cleanup (.ioDestroy p.ctx) "io_destroy incomplete completion"
    Proc.modify fun p => { p with ctx := 0 }
    fail "io_getevents"
  Proc.onlyIf (completionFailed chunk completed.events = true) (fail "aio completion")

end SharingProbe.Share
