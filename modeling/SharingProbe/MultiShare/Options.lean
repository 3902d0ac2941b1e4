import SharingProbe.Library.CommandLine
import SharingProbe.MultiShare.Model
import SharingProbe.Share.Text

/-!
# The options of `multi_share`

`main` reads its arguments in pairs and rejects what would make the sizes of `worker`
wrap: a size in MiB that does not fit into 64 bits, a total that does not, and a total
that leaves no room for rounding.
-/

namespace SharingProbe.MultiShare

open Fallible Share

/-- `struct MultiOptions`. -/
structure MultiOptions where
  devices : List ℕ := []
  nodes : List ℕ := []
  bytes : ℕ := 2 * 1024 * 1024
  ioDir : String := "."
  rank : ℤ := -1
  fd : ℤ := -1
  deriving DecidableEq, Repr

/-- `SIZE_MAX`. -/
def sizeMax : ℕ := 2 ^ 64 - 1

/-- `INT_MAX`. -/
def intMax : ℕ := 2 ^ 31 - 1

/-- The loop of `list`. -/
def listItems : List (List Char) → Except String (List ℕ)
  | [] => .ok []
  | part :: parts =>
      number part >>= fun n =>
        if n > intMax then .error "list integer out of range"
        else listItems parts >>= fun out => .ok (n :: out)

/-- `list`. -/
def list (value : String) : Except String (List ℕ) :=
  listItems (getlines ',' [] value.toList) >>= fun out =>
    if out = [] ∨ value.toList.getLast? = some ',' then .error "empty list item" else .ok out

/-- The value of `--size-mib`. -/
def sizeMib (value : String) : Except String ℕ :=
  number value.toList >>= fun mib =>
    if mib = 0 ∨ mib % 2 ≠ 0 ∨ mib > sizeMax / (1024 * 1024) then .error "invalid size MiB"
    else .ok (sizeT (mib * 1024 * 1024))

/-- The value of `--rank` or `--worker-fd`. -/
def workerInteger (value : String) : Except String ℤ :=
  number value.toList >>= fun n =>
    if n > intMax then .error "worker integer out of range" else .ok n

/-- What one option does. -/
def setOption (opt : MultiOptions) (key value : String) : Except String MultiOptions :=
  if key = "--devices" then list value >>= fun devices => .ok { opt with devices := devices }
  else if key = "--numa-nodes" then list value >>= fun nodes => .ok { opt with nodes := nodes }
  else if key = "--io-dir" then .ok { opt with ioDir := value }
  else if key = "--size-mib" then sizeMib value >>= fun bytes => .ok { opt with bytes := bytes }
  else if key = "--rank" then workerInteger value >>= fun n => .ok { opt with rank := n }
  else if key = "--worker-fd" then workerInteger value >>= fun n => .ok { opt with fd := n }
  else .error ("unknown option: " ++ key)

/-- The argument loop. -/
def parseArguments (opt : MultiOptions) (arguments : List String) :
    Except String (CommandLine.Read MultiOptions) :=
  CommandLine.read "--help" (fun _ => "missing option value") setOption opt arguments

/-- The tests of `main` after the argument loop; `visibleDevices` says whether
`ASCEND_RT_VISIBLE_DEVICES` is set. -/
def checkOptions (opt : MultiOptions) (visibleDevices : Bool) : Except String Unit :=
  let count := opt.devices.length
  if count = 0 ∨ opt.nodes.length ≠ count ∨ count > 64 ∨ opt.bytes > sizeMax / count then
    .error "specify 1..64 devices and one NUMA node per device; total size must not overflow"
  else if sizeT (opt.bytes * count) > sizeMax - (vaAlignment - 1) then
    .error "1 GiB aligned reservation size overflows"
  else if ¬opt.devices.Nodup then .error "duplicate device"
  else if visibleDevices then
    .error "unset ASCEND_RT_VISIBLE_DEVICES to avoid device renumbering"
  else .ok ()

/-- The options that `main` accepts. -/
structure MultiOptions.Accepted (opt : MultiOptions) : Prop where
  parsed : ∃ arguments, parseArguments {} arguments = .ok (.run opt)
  checked : checkOptions opt false = .ok ()

/-- The run that the options ask for. -/
def MultiOptions.config (opt : MultiOptions) (rounds hostNumaSide : ℕ) : Config where
  count := opt.devices.length
  rounds := rounds
  bytes := opt.bytes
  hostNumaSide := hostNumaSide
  devices rank := opt.devices.getD rank 0
  nodes rank := opt.nodes.getD rank 0

/-! ## Sizes -/

/-- A positive multiple of 2 MiB that fits into 64 bits. -/
structure SizeOk (bytes : ℕ) : Prop where
  pos : 0 < bytes
  dvd : 2 * 2 ^ 20 ∣ bytes
  lt : bytes < 2 ^ 64

theorem sizeOk_sizeMib (value : String) : Ensures SizeOk (sizeMib value) := by
  refine Ensures.bind (P := fun _ => True) (fun _ _ => trivial) fun mib _ => ?_
  refine Ensures.guard fun hmib => ?_
  simp only [not_or, not_not, not_lt] at hmib
  obtain ⟨hpos, heven, hmax⟩ := hmib
  have hle : mib * (1024 * 1024) ≤ sizeMax := (Nat.le_div_iff_mul_le (by decide)).mp hmax
  unfold sizeMax at hle
  have hexact : sizeT (mib * 1024 * 1024) = mib * 1024 * 1024 := Nat.mod_eq_of_lt (by omega)
  rw [hexact]
  exact ensures_ok ⟨by omega, ⟨mib / 2, by omega⟩, by omega⟩

theorem sizeOk_setOption {opt : MultiOptions} {key value : String} (hopt : SizeOk opt.bytes) :
    Ensures (fun opt => SizeOk opt.bytes) (setOption opt key value) := by
  have hany : ∀ {α : Type} (x : Except String α), Ensures (fun _ => True) x :=
    fun _ _ _ => trivial
  unfold setOption
  repeat' apply Ensures.ite
  · exact (hany _).bind fun _ _ => ensures_ok hopt
  · exact (hany _).bind fun _ _ => ensures_ok hopt
  · exact ensures_ok hopt
  · exact (sizeOk_sizeMib value).bind fun _ hbytes => ensures_ok hbytes
  · exact (hany _).bind fun _ _ => ensures_ok hopt
  · exact (hany _).bind fun _ _ => ensures_ok hopt
  · exact ensures_error _

theorem sizeOk_of_parse {opt opt' : MultiOptions} {arguments : List String}
    (hopt : SizeOk opt.bytes) (h : parseArguments opt arguments = .ok (.run opt')) :
    SizeOk opt'.bytes :=
  CommandLine.read_invariant (I := fun opt => SizeOk opt.bytes)
    (fun _ _ _ => sizeOk_setOption) hopt h

/-- What the tests of `main` say about the sizes. -/
structure MultiOptions.Fits (opt : MultiOptions) : Prop where
  count_pos : 0 < opt.devices.length
  count_le : opt.devices.length ≤ 64
  nodes : opt.nodes.length = opt.devices.length
  size : SizeOk opt.bytes
  total : opt.bytes * opt.devices.length + 2 ^ 30 ≤ 2 ^ 64
  nodup : opt.devices.Nodup

theorem MultiOptions.Accepted.fits {opt : MultiOptions} (h : opt.Accepted) : opt.Fits := by
  obtain ⟨arguments, hparsed⟩ := h.parsed
  have hsize := sizeOk_of_parse ⟨by decide, ⟨1, rfl⟩, by decide⟩ hparsed
  have hchecked := h.checked
  unfold checkOptions at hchecked
  dsimp only at hchecked
  split at hchecked
  · cases hchecked
  · rename_i hcount
    simp only [not_or, not_not, not_lt] at hcount
    obtain ⟨hpos, hnodes, hmax, hproduct⟩ := hcount
    have hpos' : 0 < opt.devices.length := Nat.pos_of_ne_zero hpos
    have hle : opt.bytes * opt.devices.length ≤ sizeMax :=
      (Nat.le_div_iff_mul_le hpos').mp hproduct
    unfold sizeMax at hle
    have hexact : sizeT (opt.bytes * opt.devices.length) = opt.bytes * opt.devices.length :=
      Nat.mod_eq_of_lt (by omega)
    rw [hexact] at hchecked
    split at hchecked
    · cases hchecked
    · rename_i hroom
      split at hchecked
      · cases hchecked
      · rename_i hnodup
        unfold sizeMax vaAlignment at hroom
        exact ⟨hpos', hmax, hnodes, hsize, by omega, not_not.mp hnodup⟩

end SharingProbe.MultiShare
