import Mathlib.Init

/-!
# Status codes and driver results

`UC::Status` is a code with a message; code `0` is success and every other code
is a failure.  A driver call returns a code of its own, and the wrappers of
`hal_memory.cc` turn it into a `Status` that keeps the code.
-/

namespace SharingProbe

/-- `UC::Status`. -/
structure Status where
  code : Int
  message : String
  deriving DecidableEq, Repr

namespace Status

/-- `__MakeStatusCode<i>()`. -/
def makeStatusCode (i : Int) : Int := -50000 - i

def ok : Status := ⟨0, ""⟩

def error (message : String) : Status := ⟨-1, message⟩

def invalidParam (message : String) : Status := ⟨makeStatusCode 0, message⟩

def outOfMemory : Status := ⟨makeStatusCode 1, ""⟩

def timeout : Status := ⟨makeStatusCode 10, ""⟩

/-- `Status::Success`. -/
def success (status : Status) : Bool := status.code == 0

/-- `Status::Failure`. -/
def failure (status : Status) : Bool := !status.success

/-- `Status::ToString`, which is also how a status is formatted. -/
def toString (status : Status) : String :=
  if status.message = "" then s!"{status.code}" else s!"{status.code}, {status.message}"

@[simp] theorem success_ok : ok.success = true := rfl

@[simp] theorem success_error (message : String) : (error message).success = false := rfl

@[simp] theorem success_outOfMemory : outOfMemory.success = false := rfl

@[simp] theorem success_invalidParam (message : String) : (invalidParam message).success = false :=
  rfl

@[simp] theorem failure_eq (status : Status) : status.failure = !status.success := rfl

end Status

/-- What `halMem*` and `aclrt*` return on failure: a code other than `0`. -/
abbrev DrvError := { ret : Int // ret ≠ 0 }

/-- `FromHalError`: success is `OK`, a failure keeps the driver's code. -/
def fromHalError {α : Type} (api : String) : Except DrvError α → Status
  | .ok _ => .ok
  | .error ret => ⟨ret.val, s!"{api} failed: ret={ret.val}"⟩

@[simp] theorem success_fromHalError_ok {α : Type} (api : String) (a : α) :
    (fromHalError api (.ok a)).success = true := rfl

@[simp] theorem success_fromHalError_error {α : Type} (api : String) (ret : DrvError) :
    (fromHalError api (.error ret : Except DrvError α)).success = false := by
  simp [fromHalError, Status.success, ret.property]

/-- A status rebuilt from the code of a failed one, with another message, is a
failure as well. -/
@[simp] theorem success_mk (status : Status) (message : String) :
    (Status.mk status.code message).success = status.success := rfl

end SharingProbe
