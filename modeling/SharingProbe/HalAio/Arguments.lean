import SharingProbe.HalAio.Pieces
import SharingProbe.Library.CommandLine

/-!
# The command line

`main` reads its arguments in pairs, from left to right, into the defaults.  A number
is at most `1 << 40`, whichever option it is for, so that every number that `main`
goes on with has at most thirteen digits.
-/

namespace SharingProbe.HalAio

open Fallible

/-! ## The argument loop -/

/-- `std::stoull` on a value that has only digits, with the checks around it. -/
def parseNumber (key value : String) : Except String ℕ :=
  if value = "" ∨ value.toList.any (fun c => !c.isDigit) then
    .error ("expected unsigned decimal for " ++ key)
  else
    let number := Nat.ofDigitChars 10 value.toList 0
    if number ≥ 2 ^ 64 then .error "stoull"
    else if number > 2 ^ 40 then .error "argument too large"
    else .ok number

/-- What one number does to the options. -/
def setNumber (opt : Options) (key : String) (number : ℕ) : Except String Options :=
  if key = "--device" ∧ number ≤ 2 ^ 31 - 1 then .ok { opt with device := number }
  else if key = "--blocks" then .ok { opt with blocks := number }
  else if key = "--shards" then .ok { opt with shards := number }
  else if key = "--slot-bytes" then .ok { opt with slotBytes := number }
  else if key = "--depth" then .ok { opt with depth := number }
  else if key = "--tensor-bytes" ∧ number > 0 then .ok { opt with tensorBytes := number }
  else if key = "--iterations" then .ok { opt with iterations := number }
  else if key = "--timeout-ms" then .ok { opt with timeoutMs := number }
  else if key = "--direct" ∧ number ≤ 1 then .ok { opt with direct := number ≠ 0 }
  else if key = "--sync" ∧ number ≤ 1 then .ok { opt with sync := number ≠ 0 }
  else if key = "--keep-files" ∧ number ≤ 1 then .ok { opt with keepFiles := number ≠ 0 }
  else .error ("unknown option or invalid value: " ++ key)

/-- What one option does. -/
def setOption (opt : Options) (key value : String) : Except String Options :=
  if key = "--memory" then .ok { opt with memoryType := value }
  else if key = "--engine" then .ok { opt with engine := value }
  else if key = "--dir" then .ok { opt with dir := value }
  else if key = "--pages" then .ok { opt with pages := value }
  else parseNumber key value >>= setNumber opt key

/-- The argument loop. -/
def parseArguments (opt : Options) (arguments : List String) :
    Except String (CommandLine.Read Options) :=
  CommandLine.read "--help" (fun key => "missing value for " ++ key) setOption opt arguments

/-- The options that `main` accepts. -/
def Options.Accepted (opt : Options) : Prop :=
  (∃ arguments, parseArguments {} arguments = .ok (.run opt)) ∧ opt.invalid = false

/-! ## Numbers are small -/

theorem parseNumber_le (key value : String) :
    Ensures (fun number => number ≤ maxBytes) (parseNumber key value) := by
  unfold parseNumber
  dsimp only
  refine Ensures.guard fun _ => Ensures.guard fun _ => Ensures.guard fun hsmall => ?_
  exact ensures_ok (not_lt.mp hsmall)

/-- The options ask for few iterations. -/
def FewIterations (opt : Options) : Prop := opt.iterations ≤ maxBytes

theorem fewIterations_setNumber {opt : Options} {key : String} {number : ℕ}
    (hopt : FewIterations opt) (hnumber : number ≤ maxBytes) :
    Ensures FewIterations (setNumber opt key number) := by
  unfold setNumber
  repeat' apply Ensures.ite
  all_goals first
    | exact ensures_ok hopt
    | exact ensures_ok hnumber
    | exact ensures_error _

theorem fewIterations_setOption {opt : Options} {key value : String} (hopt : FewIterations opt) :
    Ensures FewIterations (setOption opt key value) := by
  unfold setOption
  repeat' apply Ensures.ite
  all_goals first
    | exact ensures_ok hopt
    | exact (parseNumber_le key value).bind fun _ hnumber => fewIterations_setNumber hopt hnumber

theorem iterations_le_of_parse {opt opt' : Options} {arguments : List String}
    (hopt : opt.iterations ≤ maxBytes) (h : parseArguments opt arguments = .ok (.run opt')) :
    opt'.iterations ≤ maxBytes :=
  CommandLine.read_invariant (I := FewIterations) (fun _ _ _ => fewIterations_setOption) hopt h

theorem Options.Accepted.valid {opt : Options} (h : opt.Accepted) : opt.Valid :=
  valid_of_accepted h.2

theorem Options.Accepted.iterations_le {opt : Options} (h : opt.Accepted) :
    opt.iterations ≤ maxBytes := by
  obtain ⟨⟨arguments, hparse⟩, -⟩ := h
  exact iterations_le_of_parse (by decide) hparse

end SharingProbe.HalAio
