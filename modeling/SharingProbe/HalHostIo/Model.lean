import Mathlib.Algebra.Ring.Nat
import SharingProbe.Library.Hoare

/-!
# `hal_host_io`

`test_io` and its `transfer`.  A file is written from the buffer in chunks and read back into
it, and the bytes are compared.  A call that a signal interrupts is made again; the loop that
does so gives up after a number of turns in a row, which is a parameter.
-/

namespace SharingProbe.HalHostIo

open Interaction

/-- `size_t{1} << 30`. -/
def chunkMax : ℕ := 2 ^ 30

/-- `expected`. -/
def expected : UInt8 := 65

/-- `static_cast<off_t>`. -/
def offT (n : ℕ) : ℤ := Int.bmod n (2 ^ 64)

/-- A call of the environment.  `transfer` is `pwrite` or `pread`, from or to the place `start`
of the buffer; `load` reads a byte of the buffer. -/
inductive Call where
  | openFile (path : String)
  | transfer (write : Bool) (fd start bytes : ℕ) (offset : ℤ)
  | memset (value : UInt8) (bytes : ℕ)
  | load (i : ℕ)
  | close (fd : ℕ)
  | unlink (path : String)
  deriving DecidableEq, Repr

/-- What `pwrite` and `pread` return, and whether `errno` is `EINTR`. -/
structure Transferred where
  ret : ℤ
  eintr : Bool
  deriving DecidableEq, Repr

@[reducible] def Call.Reply : Call → Type
  | openFile _ | close _ | unlink _ => ℤ
  | transfer _ _ _ _ _ => Transferred
  | memset _ _ => Unit
  | load _ => UInt8

/-- A procedure.  There are no variables that outlive it, and nothing is thrown. -/
abbrev HH : Type → Type := Proc Unit Empty Call Call.Reply

abbrev HHEvent : Type := Event Unit Call Call.Reply

/-- A signal has interrupted the call. -/
def Transferred.interrupted (r : Transferred) : Bool := decide (r.ret < 0) && r.eintr

section Transfer

variable (limit : ℕ) (write : Bool) (fd size : ℕ)

/-- `std::min(buffer_size - offset, size_t{1} << 30)`. -/
def chunkSize (offset : ℕ) : ℕ := min (size - offset) chunkMax

/-- The loop around `pwrite` and `pread`, for the chunk at `offset`. -/
def attempt (offset : ℕ) : ℕ → HH Transferred
  | 0 => Proc.cut
  | turns + 1 => do
      let transferred ← Proc.ask (R := Call.Reply)
        (.transfer write fd offset (chunkSize size offset) (offT offset))
      if transferred.interrupted then attempt offset turns else pure transferred

/-- The loop of `transfer` from `offset` on. -/
def transferFrom : ℕ → ℕ → HH Bool
  | 0, _ => Proc.cut
  | turns + 1, offset =>
      if offset < size then do
        let transferred ← attempt write fd size offset limit
        if transferred.ret ≠ chunkSize size offset then pure false
        else transferFrom turns (offset + chunkSize size offset)
      else pure true

/-- `transfer`.  Every turn but the last one transfers a byte or more. -/
def transfer : HH Bool := transferFrom limit write fd size (size + 1) 0

end Transfer

/-- The loop over the bytes that were read. -/
def compareBytes : List ℕ → HH Bool
  | [] => pure true
  | i :: rest => do
      let data ← Proc.ask (R := Call.Reply) (.load i)
      if data ≠ expected then pure false else compareBytes rest

/-- What `test_io` does between the write and `close`: if the write was complete, the buffer is
cleared, read and compared. -/
def readBack (limit fd size : ℕ) (written : Bool) : HH Bool :=
  if written = true then do
    let _ ← Proc.ask (R := Call.Reply) (.memset 0 size)
    let passed ← transfer limit false fd size
    if passed = true then compareBytes (List.range size) else pure false
  else pure false

/-- `test_io`. -/
def testIo (limit size : ℕ) (path : String) : HH Bool := do
  let fd ← Proc.ask (R := Call.Reply) (.openFile path)
  if fd < 0 then pure false
  else do
    let _ ← Proc.ask (R := Call.Reply) (.memset expected size)
    let written ← transfer limit true fd.toNat size
    let passed ← readBack limit fd.toNat size written
    let closed ← Proc.ask (R := Call.Reply) (.close fd.toNat)
    let passed := if closed ≠ 0 then false else passed
    let unlinked ← Proc.ask (R := Call.Reply) (.unlink path)
    pure (if unlinked ≠ 0 then false else passed)

end SharingProbe.HalHostIo
