import SharingProbe.Share.Model

/-!
# `hal_map_probe`

`worker` for both processes.  The program has its own `check`, `send_word`, `receive_word` and
`verify`, and a pattern of its own.  In host mode both sides read and write the allocation, in
device mode only the creator does.

The shared buffer and the only socket have the number 0.  The import names its target where the
other programs name an owner.
-/

namespace SharingProbe.HalMapProbe

open Interaction Share

/-- The arguments of `worker`. -/
structure Config where
  hostMode : Bool
  device : ℕ
  bytes : ℕ
  deriving DecidableEq, Repr

/-- `va`. -/
def mapping : Buffer := .host 0

/-! ## Words and buffers -/

/-- `send_word`. -/
def sendWord (message : Message) : SH PUnit := do
  let sent ← Proc.ask (R := Share.Call.Reply) (.send 0 message)
  Proc.onlyIf (sent = false) (fail "IPC send")

/-- `receive_word`. -/
def receiveWord (expects : Purpose) : SH UInt64 := do
  let received ← Proc.ask (R := Share.Call.Reply) (.receive 0 expects)
  match received with
  | some message => pure message.word
  | none => fail "IPC receive / peer closed"

/-- `check` of a word that is received, and cut down to an `int`. -/
def checkReceived (expects : Purpose) (name : String) : SH PUnit := do
  let word ← receiveWord expects
  Proc.onlyIf (word.toUInt32 ≠ 0) (fail name)

/-- A word of the pattern. -/
def pattern (seed : UInt64) (i : ℕ) : UInt64 := seed ^^^ UInt64.ofNat i

/-- `write_pattern`. -/
def writePattern (bytes : ℕ) (seed : UInt64) : SH PUnit :=
  (List.range (bytes / 8)).forM fun i =>
    Proc.ask (R := Share.Call.Reply) (.store mapping i (pattern seed i))

/-- `verify`. -/
def verify (bytes : ℕ) (seed : UInt64) : SH PUnit :=
  (List.range (bytes / 8)).forM fun i => do
    let actual ← Proc.ask (R := Share.Call.Reply)
      (.compare mapping i (pattern seed i) "CPU shared data mismatch")
    Proc.onlyIf (actual ≠ pattern seed i) (fail "CPU shared data mismatch")

/-- `cleanup`, the function in `worker`. -/
def cleanup (op : Share.Op) (name : String) : SH PUnit := do
  let answer ← Proc.ask (R := Share.Call.Reply) (.cleanup op name)
  Proc.onlyIf (answer.ret ≠ 0) (Proc.modify fun p => { p with result := 1 })

/-! ## `worker` -/

section Worker

variable (cfg : Config)

/-- `opened`. -/
def openDevice : SH PUnit := do
  let _ ← direct .halSetRuntimeApiVer
  let _ ← check (.halDeviceOpen cfg.device) "halDeviceOpen"
  Proc.modify fun p => { p with deviceOpen := true }

/-- `va`. -/
def reserve : SH PUnit := do
  let base ← check (.halMemAddressReserve cfg.bytes) "halMemAddressReserve"
  Proc.modify fun p => { p with va := base.out }

/-- The allocation of the creator. -/
def create : SH PUnit := do
  let created ← check (.halMemCreate 0 cfg.bytes) "halMemCreate HOST DDR"
  setHandle 0 created.out

/-- `target`. -/
def target : SH ℕ :=
  if cfg.hostMode = true then do
    let host ← check .halGetHostID "halGetHostID"
    pure host.out
  else pure cfg.device

/-- The import. -/
def importHandle (token : UInt64) : SH PUnit := do
  let side ← target cfg
  let imported ← check (.halMemImportFromShareableHandle side token)
    "halMemImportFromShareableHandle"
  setHandle 0 imported.out

/-- The mapping. -/
def mapMemory : SH PUnit := do
  let p ← Proc.get
  let _ ← check (.halMemMap 0 (p.handles 0)) "halMemMap"
  setMapped 0 true

/-- The importer gives back its mapping, its handle and its address range. -/
def unmap : SH PUnit := do
  let _ ← check (.halMemUnmap 0) "importer unmap"
  setMapped 0 false

def release : SH PUnit := do
  let p ← Proc.get
  let _ ← check (.halMemRelease 0 (p.handles 0)) "importer release"
  setHandle 0 0

def freeRange : SH PUnit := do
  let p ← Proc.get
  let _ ← check (.halMemAddressFree p.va) "importer free VA"
  Proc.modify fun p => { p with va := 0 }

/-- The side that creates the allocation. -/
def creator : SH PUnit := do
  reserve cfg
  create cfg
  mapMemory
  writePattern cfg.bytes 101
  let p ← Proc.get
  let token ← check (.halMemExportToShareableHandle (p.handles 0)) "export handle"
  let _ ← check (.halMemShareHandleSetAttribute (UInt64.ofNat token.out)) "same-server sharing"
  sendWord ⟨.token, UInt64.ofNat token.out⟩
  checkReceived (.handOver 202) "importer mapped"
  Proc.onlyIf (cfg.hostMode = true) (verify cfg.bytes 202)
  sendWord ⟨.done, 0⟩
  checkReceived .done "importer released mapping"

/-- The side that imports it. -/
def importer : SH PUnit := do
  let token ← receiveWord .token
  reserve cfg
  importHandle cfg token
  mapMemory
  Proc.onlyIf (cfg.hostMode = true) do
    verify cfg.bytes 101
    writePattern cfg.bytes 202
  sendWord ⟨.handOver 202, 0⟩
  checkReceived .done "creator acknowledged"
  unmap
  release
  freeRange
  sendWord ⟨.done, 0⟩

/-- The `try` block of `worker`. -/
def workerBody (reader : Bool) : SH PUnit := do
  openDevice cfg
  if reader = true then importer cfg else creator cfg

/-- What `worker` gives back at the end. -/
def tearDown : SH PUnit := do
  let p ← Proc.get
  Proc.onlyIf (p.mapped 0 = true) (cleanup (.halMemUnmap 0) "halMemUnmap")
  Proc.onlyIf (p.handles 0 ≠ 0) (cleanup (.halMemRelease 0 (p.handles 0)) "halMemRelease")
  Proc.onlyIf (p.va ≠ 0) (cleanup (.halMemAddressFree p.va) "halMemAddressFree")
  Proc.onlyIf (p.deviceOpen = true) (cleanup (.halDeviceClose cfg.device) "halDeviceClose")

/-- `worker`. -/
def worker (reader : Bool) : SH ℕ := do
  Proc.tryCatch (workerBody cfg reader) fun _ => Proc.modify fun p => { p with result := 1 }
  let _ ← direct (.close 0)
  tearDown cfg
  let p ← Proc.get
  pure p.result

/-- `main`, once the importer has been started. -/
def finish : SH ℕ := do
  let result ← worker cfg false
  let waited ← direct (.waitpid 0)
  pure (if waited.ret < 0 then 2 else if result ≠ 0 ∨ waited.out ≠ 0 then 1 else 0)

end Worker

end SharingProbe.HalMapProbe
