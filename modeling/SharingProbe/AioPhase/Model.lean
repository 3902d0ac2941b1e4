import Mathlib.Data.Int.Notation
import Mathlib.Data.List.Basic
import SharingProbe.Library.Transition

/-!
# One phase of `cache2_hal_aio`

`AioPhase::Run` and `AioPhase::~AioPhase` with the completion thread and the
kernel.  A state has a program point for each thread, the members of `AioPhase`,
the local variable `submitted` of `Run` and the kernel's side: the requests in
flight, the completion ring and the eventfd counter.  An action is one step of
one of the three.

A step is as long as it can be without spanning two accesses to what the threads
share: `failed_`, `completed_`, `stop_` and the kernel.  The outcome of a step
says what the call in it returned, or which way a test of private data went.

The kernel completes a request in two steps.  First the event is on the ring, and
later the eventfd counter goes up; the event may be reaped in between.  Beside
the completions of accepted requests it may put arbitrary events on the ring if
`strayEvents` is set, which is what the checks of the reap loop are for.

Four components of a state are history and are not read by any step: `accepted`,
`reaped`, `counted` and `releaseFailed`.
-/

namespace SharingProbe.AioPhase

/-! ## Parameters and data -/

/-- A file descriptor. -/
abbrev Fd := ℕ

/-- The options of a phase, the addresses of the control blocks, and whether the
kernel may report events of its own. -/
structure Config where
  count : ℕ
  depth : ℕ
  slotBytes : ℕ
  cbAddr : ℕ → ℕ
  strayEvents : Bool
  count_lt : count < 2 ^ 64

/-- `io_event`. -/
structure IoEvent where
  data : ℕ
  obj : ℕ
  res : ℤ
  res2 : ℤ
  deriving DecidableEq, Repr

/-- An event on the ring, and whether the eventfd counter has been raised for it. -/
structure Posted where
  event : IoEvent
  notified : Bool
  deriving DecidableEq, Repr

/-- What the lambda `check` is called for. -/
inductive CheckFor where
  | submit
  | wait
  | final
  deriving DecidableEq, Repr

/-- The program points of the submitting thread, in `Run` and in the destructor. -/
inductive MainPc where
  | ioSetup
  | eventfd
  | epollCreate
  | epollCtl
  | resize
  | openRequest (i : ℕ)
  | spawn
  | submitTest
  | check (purpose : CheckFor)
  | window
  | ioSubmit
  | increment
  | waitTest
  | setStop
  | join
  | pass
  | closeRequest (i : ℕ)
  | dtorStop
  | dtorJoin
  | dtorIoDestroy
  | dtorClose (i : ℕ)
  | dtorEpoll
  | dtorEventfd
  | finished
  deriving DecidableEq, Repr

/-- The program points of the completion thread.  The reap loop carries the rest of
its batch and whether it will ask for more. -/
inductive ReaperPc where
  | absent
  | loopTest
  | epollWait
  | readEventfd
  | getEvents
  | examine (batch : List IoEvent) (more : Bool)
  | markDone (event : IoEvent) (batch : List IoEvent) (more : Bool)
  | fetchAdd (event : IoEvent) (batch : List IoEvent) (more : Bool)
  | exited
  deriving DecidableEq, Repr

/-- A phase, its two threads and the kernel. -/
structure State where
  main : MainPc := .ioSetup
  reaper : ReaperPc := .absent
  threw : Bool := false
  ctx : Bool := false
  eventFd : Option Fd := none
  epollFd : Option Fd := none
  size : ℕ := 0
  fds : ℕ → Option Fd := fun _ => none
  done : ℕ → Bool := fun _ => false
  joinable : Bool := false
  stop : Bool := false
  failed : Bool := false
  completed : ℕ := 0
  submitted : ℕ := 0
  cleanupFailed : Bool := false
  inFlight : List ℕ := []
  ring : List Posted := []
  unnotified : ℕ := 0
  counter : ℕ := 0
  accepted : List ℕ := []
  reaped : List IoEvent := []
  counted : List IoEvent := []
  releaseFailed : Bool := false

/-- What a step meets: success, a descriptor, a call to be repeated, a failure, a
time limit, or the end of a loop. -/
inductive Outcome where
  | ok
  | fd (n : Fd)
  | again
  | failed
  | timedOut
  | leave
  deriving DecidableEq, Repr

/-- What the kernel does. -/
inductive KernelMove where
  | complete (i : ℕ) (res res2 : ℤ)
  | stray (event : IoEvent)
  | notify (k : ℕ)
  | notifyReaped
  deriving DecidableEq, Repr

inductive Action where
  | main (o : Outcome)
  | reaper (o : Outcome)
  | kernel (k : KernelMove)
  deriving DecidableEq, Repr

/-- `f` with the value at `i` replaced. -/
def setAt {α : Type} (f : ℕ → α) (i : ℕ) (a : α) : ℕ → α := fun j => if j = i then a else f j

@[simp] theorem setAt_self {α : Type} (f : ℕ → α) (i : ℕ) (a : α) : setAt f i a i = a := if_pos rfl

@[simp] theorem setAt_of_ne {α : Type} (f : ℕ → α) {i j : ℕ} (a : α) (h : j ≠ i) :
    setAt f i a j = f j := if_neg h

/-- `a - b` in `size_t`. -/
def sizeSub (a b : ℕ) : ℕ := (a + 2 ^ 64 - b % 2 ^ 64) % 2 ^ 64

/-! ## The submitting thread -/

/-- The point after a `check()` that returns. -/
def CheckFor.next : CheckFor → MainPc
  | submit => .window
  | wait => .waitTest
  | final => .setStop

/-- An exception leaves `Run`, and the destructor begins. -/
def State.throw (s : State) : State := { s with main := .dtorStop, threw := true }

/-- A `CLEANUP(OS(..))` that reports a failure. -/
def State.cleanup (s : State) (o : Outcome) : State :=
  if o = .failed then { s with cleanupFailed := true, releaseFailed := true } else s

/-- `AioPhase::Run` and `AioPhase::~AioPhase`. -/
def mainStep (cfg : Config) (s : State) (o : Outcome) : Option State :=
  match s.main, o with
  | .ioSetup, .ok => some { s with ctx := true, main := .eventfd }
  | .ioSetup, .failed => some s.throw
  | .eventfd, .fd n => some { s with eventFd := some n, main := .epollCreate }
  | .eventfd, .failed => some s.throw
  | .epollCreate, .fd n => some { s with epollFd := some n, main := .epollCtl }
  | .epollCreate, .failed => some s.throw
  | .epollCtl, .ok => some { s with main := .resize }
  | .epollCtl, .failed => some s.throw
  | .resize, .ok => some { s with size := cfg.count, main := .openRequest 0 }
  | .resize, .failed => some s.throw
  | .openRequest i, .fd n =>
      if i < cfg.count then
        some { s with fds := setAt s.fds i (some n), main := .openRequest (i + 1) }
      else none
  | .openRequest i, .failed => if i < cfg.count then some s.throw else none
  | .openRequest i, .leave => if i < cfg.count then none else some { s with main := .spawn }
  | .spawn, .ok => some { s with reaper := .loopTest, joinable := true, main := .submitTest }
  | .spawn, .failed => some s.throw
  | .submitTest, .ok =>
      some { s with main := if s.submitted < cfg.count then .check .submit else .waitTest }
  | .check purpose, .ok => if s.failed then none else some { s with main := purpose.next }
  | .check _, .failed => if s.failed then some s.throw else none
  | .check _, .timedOut => if s.failed then none else some s.throw
  | .window, .ok =>
      some { s with
        main := if sizeSub s.submitted s.completed ≥ cfg.depth then .submitTest else .ioSubmit }
  | .ioSubmit, .ok =>
      some { s with
        inFlight := s.inFlight ++ [s.submitted]
        accepted := s.accepted ++ [s.submitted]
        main := .increment }
  -- `EAGAIN`, `EINTR` or nothing accepted
  | .ioSubmit, .again => some { s with main := .submitTest }
  | .ioSubmit, .failed => some s.throw
  | .increment, .ok => some { s with submitted := s.submitted + 1, main := .submitTest }
  | .waitTest, .ok =>
      some { s with main := if s.completed < cfg.count then .check .wait else .check .final }
  | .setStop, .ok => some { s with stop := true, main := .join }
  | .join, .ok =>
      if s.reaper = .exited then some { s with joinable := false, main := .pass } else none
  | .pass, .ok => some { s with main := .closeRequest 0 }
  -- the descriptor is forgotten before it is closed
  | .closeRequest i, .ok =>
      if i < s.size then some { s with fds := setAt s.fds i none, main := .closeRequest (i + 1) }
      else none
  | .closeRequest i, .failed =>
      if i < s.size then some { s.throw with fds := setAt s.fds i none, releaseFailed := true }
      else none
  | .closeRequest i, .leave => if i < s.size then none else some { s with main := .dtorStop }
  | .dtorStop, .ok => some { s with stop := true, main := .dtorJoin }
  | .dtorJoin, .ok =>
      if s.joinable ∧ s.reaper = .exited then
        some { s with joinable := false, main := .dtorIoDestroy }
      else none
  | .dtorJoin, .leave => if s.joinable then none else some { s with main := .dtorIoDestroy }
  -- `io_destroy` returns when nothing is in flight, also when it reports a failure
  | .dtorIoDestroy, .leave => if s.ctx then none else some { s with main := .dtorClose 0 }
  | .dtorIoDestroy, o =>
      if s.ctx ∧ s.inFlight = [] ∧ (o = .ok ∨ o = .failed) then
        some { s.cleanup o with ctx := false, main := .dtorClose 0 }
      else none
  -- a request is looked at once, so its descriptor may as well be forgotten
  | .dtorClose i, .leave =>
      if i < s.size then
        if (s.fds i).isSome then none else some { s with main := .dtorClose (i + 1) }
      else some { s with main := .dtorEpoll }
  | .dtorClose i, o =>
      if i < s.size ∧ (s.fds i).isSome ∧ (o = .ok ∨ o = .failed) then
        some { s.cleanup o with fds := setAt s.fds i none, main := .dtorClose (i + 1) }
      else none
  | .dtorEpoll, .leave => if s.epollFd.isSome then none else some { s with main := .dtorEventfd }
  | .dtorEpoll, o =>
      if s.epollFd.isSome ∧ (o = .ok ∨ o = .failed) then
        some { s.cleanup o with epollFd := none, main := .dtorEventfd }
      else none
  | .dtorEventfd, .leave => if s.eventFd.isSome then none else some { s with main := .finished }
  | .dtorEventfd, o =>
      if s.eventFd.isSome ∧ (o = .ok ∨ o = .failed) then
        some { s.cleanup o with eventFd := none, main := .finished }
      else none
  | _, _ => none

/-! ## The completion thread -/

/-- `failed_ = true; return;`. -/
def State.giveUp (s : State) : State := { s with failed := true, reaper := .exited }

/-- The test for an event that no request is waiting for. -/
def State.invalid (cfg : Config) (s : State) (event : IoEvent) : Bool :=
  event.data ≥ s.size || s.done event.data || event.obj ≠ cfg.cbAddr event.data

/-- The test for a request that was not transferred in full. -/
def IoEvent.unsuccessful (cfg : Config) (event : IoEvent) : Bool :=
  event.res ≠ cfg.slotBytes || event.res2 ≠ 0

/-- The size of the array that `io_getevents` fills. -/
def batchSize : ℕ := 128

/-- The thread that `Run` starts. -/
def reaperStep (cfg : Config) (s : State) (o : Outcome) : Option State :=
  match s.reaper, o with
  | .loopTest, .ok => some { s with reaper := if s.stop then .exited else .epollWait }
  | .epollWait, .ok => if 0 < s.counter then some { s with reaper := .readEventfd } else none
  | .epollWait, .timedOut => some { s with reaper := .loopTest }
  | .epollWait, .again => some { s with reaper := .loopTest }
  | .epollWait, .failed => some s.giveUp
  | .readEventfd, .ok =>
      if 0 < s.counter then some { s with counter := 0, reaper := .getEvents } else none
  | .readEventfd, .again => some { s with reaper := .loopTest }
  | .readEventfd, .failed => some s.giveUp
  | .getEvents, .ok =>
      let taken := s.ring.take batchSize
      some { s with
        ring := s.ring.drop batchSize
        unnotified := s.unnotified + taken.countP (!·.notified)
        reaped := s.reaped ++ taken.map Posted.event
        reaper := .examine (taken.map Posted.event) (taken.length = batchSize) }
  | .getEvents, .again => some { s with reaper := .getEvents }
  | .getEvents, .failed => some s.giveUp
  | .examine [] more, .ok => some { s with reaper := if more then .getEvents else .loopTest }
  | .examine (event :: batch) more, .ok =>
      if s.invalid cfg event then some s.giveUp
      else some { s with
        failed := s.failed || event.unsuccessful cfg
        reaper := .markDone event batch more }
  | .markDone event batch more, .ok =>
      some { s with done := setAt s.done event.data true, reaper := .fetchAdd event batch more }
  | .fetchAdd event batch more, .ok =>
      some { s with
        completed := s.completed + 1
        counted := s.counted ++ [event]
        reaper := .examine batch more }
  | _, _ => none

/-! ## The kernel -/

/-- What happens without the two threads. -/
def kernelStep (cfg : Config) (s : State) : KernelMove → Option State
  | .complete i res res2 =>
      if i ∈ s.inFlight then
        some { s with
          inFlight := s.inFlight.erase i
          ring := s.ring ++ [⟨⟨i, cfg.cbAddr i, res, res2⟩, false⟩] }
      else none
  | .stray event =>
      if cfg.strayEvents then some { s with ring := s.ring ++ [⟨event, false⟩] } else none
  | .notify k =>
      match s.ring[k]? with
      | some ⟨event, false⟩ =>
          some { s with ring := s.ring.set k ⟨event, true⟩, counter := s.counter + 1 }
      | _ => none
  | .notifyReaped =>
      if 0 < s.unnotified then
        some { s with unnotified := s.unnotified - 1, counter := s.counter + 1 }
      else none

/-- One step of one of the three. -/
def step (cfg : Config) (s : State) : Action → Option State
  | .main o => mainStep cfg s o
  | .reaper o => reaperStep cfg s o
  | .kernel k => kernelStep cfg s k

/-- A phase from the construction of the object on. -/
def system (cfg : Config) : Transition.System State Action where
  init := {}
  step := step cfg

/-! ## An example -/

/-- Two requests of 512 bytes, at most two in flight. -/
def twoRequests : Config where
  count := 2
  depth := 2
  slotBytes := 512
  cbAddr i := 4096 + 64 * i
  strayEvents := false
  count_lt := by decide

/-- From the construction to the submission loop. -/
def startRun : List Action :=
  [.main .ok, .main (.fd 5), .main (.fd 6), .main .ok, .main .ok, .main (.fd 7), .main (.fd 8),
    .main .leave, .main .ok]

/-- One turn of the submission loop that submits a request. -/
def submitRun : List Action := [.main .ok, .main .ok, .main .ok, .main .ok, .main .ok]

/-- The completion thread reaps one event and is back at `epoll_wait`. -/
def reapRun : List Action :=
  [.reaper .ok, .reaper .ok, .reaper .ok, .reaper .ok, .reaper .ok, .reaper .ok, .reaper .ok,
    .reaper .ok]

/-- Both requests are submitted, the first is reaped and the second completes. -/
def pendingRun : List Action :=
  startRun ++ submitRun ++ submitRun ++ [.kernel (.complete 0 512 0), .kernel (.notify 0)] ++
    reapRun ++ [.reaper .ok, .kernel (.complete 1 512 0)]

end SharingProbe.AioPhase
