import SharingProbe.HalAio.Model
import SharingProbe.Library.Evolution
import SharingProbe.Library.Storage

/-!
# What the calls do to the files and the buffer

The environment of `main` was left open so far.  Here its calls get a meaning: an
operating system with files, descriptors and a memory.  A call or a step of a phase
is an `Instant`, and `Effect` says what each instant can do.

A call that fails has done as much or as little of its work as it likes: an `open`
may have created the file, a transfer may have moved any part of its data.  While
requests are in flight, every step of the phase comes after some more of their
data has been moved.

`Logged` keeps, beside the world, the bytes that complete transfers have moved.
-/

namespace SharingProbe.HalAio

open Interaction Evolution Storage

/-- Files by their paths, descriptors and memory. -/
abbrev Disk := World String UInt8

/-! ## The requests of a phase -/

/-- The members of `iocb` that describe the transfer. -/
structure Iocb where
  fildes : ℕ
  pwrite : Bool
  buf : Ptr
  nbytes : ℕ
  offset : ℕ
  deriving DecidableEq, Repr

/-- What `AioPhase::Run` puts into request `i`.  The buffer lies in the address space. -/
def Options.iocb (opt : Options) (buffer : Ptr) (dump : Bool) (fd i : ℕ) : Iocb where
  fildes := fd
  pwrite := dump
  buf := buffer + sizeT (i * opt.slotBytes)
  nbytes := opt.slotBytes
  offset := sizeT (i % opt.shards * opt.slotBytes)

/-- `paths[i / opt.shards]`. -/
def Options.requestPath (opt : Options) (paths : List String) (i : ℕ) : String :=
  paths.getD (i / opt.shards) ""

/-- The transfer that a request asks for. -/
def Iocb.transfer (cb : Iocb) : Transfer := ⟨cb.pwrite, cb.fildes, cb.offset, cb.buf, cb.nbytes⟩

/-! ## Instants -/

/-- The arguments of a phase. -/
structure PhaseCall where
  opt : Options
  paths : List String
  buffer : Ptr
  dump : Bool

/-- A call of `main`, or a step of a phase. -/
inductive Instant where
  | call (e : HAEvent)
  | step (io : PhaseCall) (m : AioPhase.State × AioPhase.Action)

/-- The instants of one call. -/
def instantsOf (e : HAEvent) : List Instant :=
  match e with
  | ⟨_, .aioPhase opt paths buffer dump, phase⟩ =>
      phase.moves.map (.step ⟨opt, paths, buffer, dump⟩)
  | e => [.call e]

/-- The instants of a run. -/
def instants (t : List HAEvent) : List Instant := t.flatMap instantsOf

theorem instants_concat (t : List HAEvent) (e : HAEvent) :
    instants (t ++ [e]) = instants t ++ instantsOf e := by
  simp [instants]

/-! ## Effects -/

/-- A transfer that reports `moved` bytes. -/
def transferEffect (x : Transfer) (moved : ℤ) (w w' : Disk) : Prop :=
  if moved = x.bytes then x.Done w w' else w' = w ∨ ∃ file, x.Begun file w w'

/-- What a call through `OS` does. -/
def OsCall.Effect (c : OsCall) (reply : ℤ × ℤ) (w w' : Disk) : Prop :=
  match c with
  | openFile path flags =>
      if 0 ≤ reply.1 then w.Opens flags.create path reply.1.toNat w'
      else w.OpenFails flags.create path w'
  | pwrite fd addr bytes offset => transferEffect ⟨true, fd, offset, addr, bytes⟩ reply.1 w w'
  | pread fd addr bytes offset => transferEffect ⟨false, fd, offset, addr, bytes⟩ reply.1 w w'
  -- a descriptor is closed, whatever `close` reports
  | close fd => w' = w.close fd
  | rename src dst =>
      if 0 ≤ reply.1 then (w.entry src).isSome ∧ w' = w.rename src dst else w' = w
  | unlink path => if 0 ≤ reply.1 then w' = w.unlink path else w' = w
  | stat path =>
      w' = w ∧ (0 ≤ reply.1 → ∃ x, w.entry path = some x ∧ reply.2 = (w.content x).size)
  | statfs _ | fdatasync _ | rmdir _ => w' = w

/-- What a call does.  `mkdtemp` makes a new directory, and what the memory holds where
it is newly mapped is not known. -/
def Call.Effect (c : Call) (reply : c.Reply) (w w' : Disk) : Prop :=
  match c, reply with
  | os c, reply => c.Effect reply w w'
  | mkdtemp _, dir => w' = w ∧ ∀ runDir, dir = some runDir →
      ∀ name, w.entry (runDir ++ "/" ++ name) = none
  | memcpy dst bytes, _ =>
      w' = w.setMemory fun a =>
        if dst ≤ a ∧ a < dst + bytes.length then bytes.getD (a - dst) 0 else w.memory a
  | memset dst byte bytes, _ =>
      w' = w.setMemory fun a => if dst ≤ a ∧ a < dst + bytes then byte else w.memory a
  | readBuffer src bytes, actual => w' = w ∧ ∀ j < bytes, actual j = w.memory (src + j)
  | sdk _, _ | malloc _, _ | free _, _ => ∃ memory, w' = w.setMemory memory
  -- a phase is judged by its steps
  | aioPhase _ _ _ _, _ => w' = w

/-- The transfer of request `i`, which has a descriptor. -/
def PhaseCall.transfer (io : PhaseCall) (s : AioPhase.State) (i : ℕ) : Option Transfer :=
  (s.fds i).map fun fd => (io.opt.iocb io.buffer io.dump fd i).transfer

/-- The test of the reap loop, passed. -/
def PhaseCall.full (io : PhaseCall) (res res2 : ℤ) : Prop := res = io.opt.slotBytes ∧ res2 = 0

instance (io : PhaseCall) (res res2 : ℤ) : Decidable (io.full res res2) :=
  inferInstanceAs (Decidable (_ ∧ _))

/-- A request in flight has moved a part of its data. -/
def PhaseCall.Progress (io : PhaseCall) (s : AioPhase.State) (w w' : Disk) : Prop :=
  ∃ i ∈ s.inFlight, ∃ x ∈ io.transfer s i, ∃ file, x.Begun file w w'

/-- What the call in a step of the phase does. -/
def PhaseCall.StepEffect (io : PhaseCall) (m : AioPhase.State × AioPhase.Action) (w w' : Disk) :
    Prop :=
  match m.2, m.1.main with
  | .main (.fd fd), .openRequest i => w.Opens io.dump (io.opt.requestPath io.paths i) fd w'
  | .main .failed, .openRequest i => w.OpenFails io.dump (io.opt.requestPath io.paths i) w'
  | .main .ok, .closeRequest i | .main .failed, .closeRequest i
  | .main .ok, .dtorClose i | .main .failed, .dtorClose i =>
      w' = ((m.1.fds i).map w.close).getD w
  | .kernel (.complete i res res2), _ =>
      if io.full res res2 then ∃ x ∈ io.transfer m.1 i, x.Done w w' else w' = w
  | _, _ => w' = w

/-- What an instant does. -/
def Effect (w : Disk) (m : Instant) (w' : Disk) : Prop :=
  match m with
  | .call e => e.call.Effect e.reply w w'
  | .step io m => ∃ w₁, Relation.ReflTransGen (io.Progress m.1) w w₁ ∧ io.StepEffect m w₁ w'

/-! ## The bytes that are moved -/

/-- The transfer that an instant reports complete. -/
def Instant.completes : Instant → Option Transfer
  | .call ⟨_, .os (.pwrite fd addr bytes offset), reply⟩ =>
      if reply.1 = bytes then some ⟨true, fd, offset, addr, bytes⟩ else none
  | .call ⟨_, .os (.pread fd addr bytes offset), reply⟩ =>
      if reply.1 = bytes then some ⟨false, fd, offset, addr, bytes⟩ else none
  | .call _ => none
  | .step io (s, .kernel (.complete i res res2)) =>
      if io.full res res2 then io.transfer s i else none
  | .step _ _ => none

/-- A file, an offset in it, and an address in the memory. -/
abbrev Triple := String × ℕ × ℕ

/-- What a transfer moves. -/
def movedBy (w : Disk) (x : Transfer) : Set Triple :=
  {m | ∃ j < x.bytes, (w.entry m.1).isSome ∧ w.entry m.1 = w.desc x.desc ∧
    m.2.1 = x.offset + j ∧
    m.2.2 = x.addr + j}

/-- What an instant moves. -/
def moved (w : Disk) (m : Instant) : Set Triple :=
  {a | ∃ x ∈ m.completes, a ∈ movedBy w x}

/-- The effect of an instant on the world, with the bytes that have been moved. -/
def Logged (x : Disk × Set Triple) (m : Instant) (y : Disk × Set Triple) : Prop :=
  Effect x.1 m y.1 ∧ y.2 = x.2 ∪ moved x.1 m

/-- The log can be kept along every sequence of instants. -/
theorem exists_logged {w w' : Disk} {ms : List Instant} (h : Along Effect w ms w')
    (log : Set Triple) : ∃ log', Along Logged (w, log) ms (w', log') := by
  induction h with
  | nil => exact ⟨log, .nil⟩
  | snoc _ heffect ih =>
      obtain ⟨log', hlogged⟩ := ih
      exact ⟨_, hlogged.snoc ⟨heffect, rfl⟩⟩

/-! ## An environment in which every instant does all of its work -/

/-- The world after a call through `OS` that succeeds. -/
def OsCall.next (c : OsCall) (reply : ℤ × ℤ) (w : Disk) : Option Disk :=
  match c with
  | openFile path flags =>
      if 0 ≤ reply.1 then w.tryOpen flags.create path reply.1.toNat else none
  | pwrite fd addr bytes offset =>
      if reply.1 = bytes then Transfer.tryPerform ⟨true, fd, offset, addr, bytes⟩ w else none
  | pread fd addr bytes offset =>
      if reply.1 = bytes then Transfer.tryPerform ⟨false, fd, offset, addr, bytes⟩ w else none
  | close fd => some (w.close fd)
  | rename src dst =>
      if 0 ≤ reply.1 ∧ (w.entry src).isSome then some (w.rename src dst) else none
  | unlink path => if 0 ≤ reply.1 then some (w.unlink path) else none
  | stat path =>
      (w.entry path).bind fun x => if reply.2 = (w.content x).size then some w else none
  | statfs _ | fdatasync _ | rmdir _ => some w

/-- The world after an instant. -/
def Instant.next (m : Instant) (w : Disk) : Option Disk :=
  match m with
  | .call ⟨_, .os c, reply⟩ => c.next reply w
  | .call ⟨_, .mkdtemp _, _⟩ => if w.next = 0 then some w else none
  | .call ⟨_, .memcpy dst bytes, _⟩ => some (w.setMemory fun a =>
      if dst ≤ a ∧ a < dst + bytes.length then bytes.getD (a - dst) 0 else w.memory a)
  | .call ⟨_, .memset dst byte bytes, _⟩ => some (w.setMemory fun a =>
      if dst ≤ a ∧ a < dst + bytes then byte else w.memory a)
  | .call ⟨_, .readBuffer src bytes, actual⟩ =>
      if ∀ j < bytes, actual j = w.memory (src + j) then some w else none
  | .call _ => some w
  | .step io (s, .main (.fd fd)) =>
      match s.main with
      | .openRequest i => w.tryOpen io.dump (io.opt.requestPath io.paths i) fd
      | _ => some w
  | .step _ (s, .main .ok) =>
      match s.main with
      | .closeRequest i | .dtorClose i => some (((s.fds i).map w.close).getD w)
      | _ => some w
  | .step _ (_, .main .failed) => none
  | .step io (s, .kernel (.complete i res res2)) =>
      if io.full res res2 then (io.transfer s i).bind (·.tryPerform w) else some w
  | .step _ _ => some w

theorem OsCall.effect_of_next {c : OsCall} {reply : ℤ × ℤ} {w w' : Disk}
    (h : c.next reply w = some w') : c.Effect reply w w' := by
  cases c with
  | openFile path flags =>
      obtain ⟨hr, hopen⟩ := Option.ite_none_right_eq_some.mp h
      exact (if_pos hr).mpr (World.opens_of_tryOpen hopen)
  | pwrite fd addr bytes offset =>
      obtain ⟨hr, hdone⟩ := Option.ite_none_right_eq_some.mp h
      exact (if_pos hr).mpr (Transfer.done_of_tryPerform hdone)
  | pread fd addr bytes offset =>
      obtain ⟨hr, hdone⟩ := Option.ite_none_right_eq_some.mp h
      exact (if_pos hr).mpr (Transfer.done_of_tryPerform hdone)
  | rename src dst =>
      obtain ⟨⟨hr, hsrc⟩, hsame⟩ := Option.ite_none_right_eq_some.mp h
      exact (if_pos hr).mpr ⟨hsrc, (Option.some.inj hsame).symm⟩
  | unlink path =>
      obtain ⟨hr, hsame⟩ := Option.ite_none_right_eq_some.mp h
      exact (if_pos hr).mpr (Option.some.inj hsame).symm
  | stat path =>
      obtain ⟨x, hx, hstat⟩ := Option.bind_eq_some_iff.mp h
      obtain ⟨hsize, hsame⟩ := Option.ite_none_right_eq_some.mp hstat
      exact ⟨(Option.some.inj hsame).symm, fun _ => ⟨x, hx, hsize⟩⟩
  | _ => exact (Option.some.inj h).symm

theorem effect_of_next {m : Instant} {w w' : Disk} (h : m.next w = some w') : Effect w m w' := by
  cases m with
  | call e =>
      obtain ⟨p, c, r⟩ := e
      cases c with
      | os c => exact OsCall.effect_of_next h
      -- nothing is in the new directory, as nothing has used its number
      | mkdtemp template =>
          obtain ⟨hunused, hsame⟩ := Option.ite_none_right_eq_some.mp h
          refine ⟨(Option.some.inj hsame).symm, fun runDir _ name => ?_⟩
          by_contra hentry
          obtain ⟨x, hx⟩ := Option.ne_none_iff_exists'.mp hentry
          have hlt := w.entry_lt hx
          omega
      | readBuffer src bytes =>
          obtain ⟨hread, hsame⟩ := Option.ite_none_right_eq_some.mp h
          exact ⟨(Option.some.inj hsame).symm, hread⟩
      | sdk c => exact ⟨w.memory, (Option.some.inj h).symm⟩
      | malloc bytes => exact ⟨w.memory, (Option.some.inj h).symm⟩
      | free base => exact ⟨w.memory, (Option.some.inj h).symm⟩
      | _ => exact (Option.some.inj h).symm
  | step io m =>
      obtain ⟨s, a⟩ := m
      refine ⟨w, .refl, ?_⟩
      unfold Instant.next at h
      unfold PhaseCall.StepEffect
      cases a with
      | main o =>
          cases o with
          | fd fd => cases hmain : s.main <;> simp only [hmain] at h ⊢ <;>
              first
                | exact World.opens_of_tryOpen h
                | exact (Option.some.inj h).symm
          | ok => cases hmain : s.main <;> simp only [hmain] at h ⊢ <;>
              exact (Option.some.inj h).symm
          | failed => cases h
          | _ => cases s.main <;> exact (Option.some.inj h).symm
      | reaper o => cases s.main <;> exact (Option.some.inj h).symm
      | kernel k =>
          cases k with
          | complete i res res2 =>
              simp only at h ⊢
              by_cases hfull : io.full res res2
              · rw [if_pos hfull] at h ⊢
                obtain ⟨x, hx, hdone⟩ := Option.bind_eq_some_iff.mp h
                exact ⟨x, hx, Transfer.done_of_tryPerform hdone⟩
              · rw [if_neg hfull] at h ⊢
                exact (Option.some.inj h).symm
          | _ => cases s.main <;> exact (Option.some.inj h).symm

/-- Let every instant do all of its work. -/
def play (w : Disk) (ms : List Instant) : Option Disk := ms.foldlM (fun w m => m.next w) w

theorem along_of_play {ms : List Instant} : ∀ {w w' : Disk}, play w ms = some w' →
    Along Effect w ms w' := by
  induction ms with
  | nil =>
      intro w w' h
      exact along_nil.mpr (Option.some.inj h).symm
  | cons m ms ih =>
      intro w w' h
      obtain ⟨w₁, hfirst, hrest⟩ := Option.bind_eq_some_iff.mp h
      exact along_cons.mpr ⟨w₁, effect_of_next hfirst, ih hrest⟩

end SharingProbe.HalAio
