import SharingProbe.AioPhase.Model

/-!
# What a step does and what it leaves alone

Each of the three actors owns part of the state.  These lemmas say, once for each
actor, what its steps do not touch, so that an invariant is checked only against
the steps that matter to it.

`MainStep` says once what the submitting thread can do, with all that it has tested; `Reaps` does
so for the completion thread.  What holds of every step of a thread is a case analysis of these.
-/

namespace SharingProbe.AioPhase

/-- A failed `CLEANUP` sets two flags and nothing else. -/
theorem cleanup_eq (s : State) (o : Outcome) :
    s.cleanup o = { s with
      cleanupFailed := s.cleanupFailed || o = .failed
      releaseFailed := s.releaseFailed || o = .failed } := by
  unfold State.cleanup
  by_cases ho : o = .failed
  · simp [ho]
  · simp [ho]

/-- The points of `Run` at which an exception may leave it before the first `close`. -/
def MainPc.throwing : MainPc → Bool
  | ioSetup | eventfd | epollCreate | epollCtl | resize | openRequest _ | spawn | check _
  | ioSubmit => true
  | _ => false

/-- What the submitting thread can do, with all that it has tested. -/
inductive MainStep (cfg : Config) (s : State) : Outcome → State → Prop
  | throw (o : Outcome) (hmain : s.main.throwing = true) (ho : o = .failed ∨ o = .timedOut) :
      MainStep cfg s o s.throw
  | ioSetup (hmain : s.main = .ioSetup) :
      MainStep cfg s .ok { s with ctx := true, main := .eventfd }
  | eventfd (n : Fd) (hmain : s.main = .eventfd) :
      MainStep cfg s (.fd n) { s with eventFd := some n, main := .epollCreate }
  | epollCreate (n : Fd) (hmain : s.main = .epollCreate) :
      MainStep cfg s (.fd n) { s with epollFd := some n, main := .epollCtl }
  | epollCtl (hmain : s.main = .epollCtl) : MainStep cfg s .ok { s with main := .resize }
  | resize (hmain : s.main = .resize) :
      MainStep cfg s .ok { s with size := cfg.count, main := .openRequest 0 }
  | openRequest (i : ℕ) (n : Fd) (hmain : s.main = .openRequest i) (hlt : i < cfg.count) :
      MainStep cfg s (.fd n)
        { s with fds := setAt s.fds i (some n), main := .openRequest (i + 1) }
  | opened (i : ℕ) (hmain : s.main = .openRequest i) (hend : cfg.count ≤ i) :
      MainStep cfg s .leave { s with main := .spawn }
  | spawn (hmain : s.main = .spawn) :
      MainStep cfg s .ok { s with reaper := .loopTest, joinable := true, main := .submitTest }
  | submitMore (hmain : s.main = .submitTest) (hlt : s.submitted < cfg.count) :
      MainStep cfg s .ok { s with main := .check .submit }
  | submittedAll (hmain : s.main = .submitTest) (hend : cfg.count ≤ s.submitted) :
      MainStep cfg s .ok { s with main := .waitTest }
  | check (purpose : CheckFor) (hmain : s.main = .check purpose) (hfailed : s.failed = false) :
      MainStep cfg s .ok { s with main := purpose.next }
  | windowFull (hmain : s.main = .window)
      (hfull : cfg.depth ≤ sizeSub s.submitted s.completed) :
      MainStep cfg s .ok { s with main := .submitTest }
  | windowOpen (hmain : s.main = .window)
      (hopen : sizeSub s.submitted s.completed < cfg.depth) :
      MainStep cfg s .ok { s with main := .ioSubmit }
  | ioSubmit (hmain : s.main = .ioSubmit) :
      MainStep cfg s .ok { s with
        inFlight := s.inFlight ++ [s.submitted]
        accepted := s.accepted ++ [s.submitted]
        main := .increment }
  | submitAgain (hmain : s.main = .ioSubmit) :
      MainStep cfg s .again { s with main := .submitTest }
  | increment (hmain : s.main = .increment) :
      MainStep cfg s .ok { s with submitted := s.submitted + 1, main := .submitTest }
  | waitMore (hmain : s.main = .waitTest) (hlt : s.completed < cfg.count) :
      MainStep cfg s .ok { s with main := .check .wait }
  | waitedAll (hmain : s.main = .waitTest) (hend : cfg.count ≤ s.completed) :
      MainStep cfg s .ok { s with main := .check .final }
  | setStop (hmain : s.main = .setStop) :
      MainStep cfg s .ok { s with stop := true, main := .join }
  | join (hmain : s.main = .join) (hexited : s.reaper = .exited) :
      MainStep cfg s .ok { s with joinable := false, main := .pass }
  | pass (hmain : s.main = .pass) : MainStep cfg s .ok { s with main := .closeRequest 0 }
  | closeRequest (i : ℕ) (hmain : s.main = .closeRequest i) (hlt : i < s.size) :
      MainStep cfg s .ok { s with fds := setAt s.fds i none, main := .closeRequest (i + 1) }
  | closeFails (i : ℕ) (hmain : s.main = .closeRequest i) (hlt : i < s.size) :
      MainStep cfg s .failed { s with
        fds := setAt s.fds i none
        releaseFailed := true
        threw := true
        main := .dtorStop }
  | closedAll (i : ℕ) (hmain : s.main = .closeRequest i) (hend : s.size ≤ i) :
      MainStep cfg s .leave { s with main := .dtorStop }
  | dtorStop (hmain : s.main = .dtorStop) :
      MainStep cfg s .ok { s with stop := true, main := .dtorJoin }
  | dtorJoin (hmain : s.main = .dtorJoin) (hjoinable : s.joinable = true)
      (hexited : s.reaper = .exited) :
      MainStep cfg s .ok { s with joinable := false, main := .dtorIoDestroy }
  | dtorNoJoin (hmain : s.main = .dtorJoin) (hjoinable : s.joinable = false) :
      MainStep cfg s .leave { s with main := .dtorIoDestroy }
  | dtorNoContext (hmain : s.main = .dtorIoDestroy) (hctx : s.ctx = false) :
      MainStep cfg s .leave { s with main := .dtorClose 0 }
  | dtorIoDestroy (o : Outcome) (hmain : s.main = .dtorIoDestroy) (hctx : s.ctx = true)
      (hempty : s.inFlight = []) (ho : o = .ok ∨ o = .failed) :
      MainStep cfg s o { s.cleanup o with ctx := false, main := .dtorClose 0 }
  | dtorSkip (i : ℕ) (hmain : s.main = .dtorClose i) (hlt : i < s.size) (hnone : s.fds i = none) :
      MainStep cfg s .leave { s with main := .dtorClose (i + 1) }
  | dtorClosed (i : ℕ) (hmain : s.main = .dtorClose i) (hend : s.size ≤ i) :
      MainStep cfg s .leave { s with main := .dtorEpoll }
  | dtorClose (i : ℕ) (o : Outcome) (hmain : s.main = .dtorClose i) (hlt : i < s.size)
      (ho : o = .ok ∨ o = .failed) :
      MainStep cfg s o
        { s.cleanup o with fds := setAt s.fds i none, main := .dtorClose (i + 1) }
  | dtorNoEpoll (hmain : s.main = .dtorEpoll) (hnone : s.epollFd = none) :
      MainStep cfg s .leave { s with main := .dtorEventfd }
  | dtorEpoll (o : Outcome) (hmain : s.main = .dtorEpoll) (ho : o = .ok ∨ o = .failed) :
      MainStep cfg s o { s.cleanup o with epollFd := none, main := .dtorEventfd }
  | dtorNoEventfd (hmain : s.main = .dtorEventfd) (hnone : s.eventFd = none) :
      MainStep cfg s .leave { s with main := .finished }
  | dtorEventfd (o : Outcome) (hmain : s.main = .dtorEventfd) (ho : o = .ok ∨ o = .failed) :
      MainStep cfg s o { s.cleanup o with eventFd := none, main := .finished }

theorem mainStep_cases {cfg : Config} {s s' : State} {o : Outcome}
    (h : mainStep cfg s o = some s') : MainStep cfg s o s' := by
  unfold mainStep at h
  split at h
  all_goals repeat' split at h
  all_goals cases h
  all_goals first
    | exact .throw _ (by simp_all [MainPc.throwing]) (by simp)
    | constructor <;> first | assumption | simp_all

/-- What the submitting thread leaves to the other two. -/
structure MainFrame (s s' : State) : Prop where
  ring : s'.ring = s.ring
  unnotified : s'.unnotified = s.unnotified
  counter : s'.counter = s.counter
  completed : s'.completed = s.completed
  failed : s'.failed = s.failed
  done : s'.done = s.done
  reaped : s'.reaped = s.reaped
  counted : s'.counted = s.counted
  reaper : s'.reaper = s.reaper ∨ s.main = .spawn ∧ s'.reaper = .loopTest

theorem mainStep_frame {cfg : Config} {s s' : State} {o : Outcome}
    (h : mainStep cfg s o = some s') : MainFrame s s' := by
  cases mainStep_cases h with
  | spawn hmain => exact ⟨rfl, rfl, rfl, rfl, rfl, rfl, rfl, rfl, .inr ⟨hmain, rfl⟩⟩
  | dtorIoDestroy | dtorClose | dtorEpoll | dtorEventfd =>
      rw [cleanup_eq]
      exact ⟨rfl, rfl, rfl, rfl, rfl, rfl, rfl, rfl, .inl rfl⟩
  | _ => exact ⟨rfl, rfl, rfl, rfl, rfl, rfl, rfl, rfl, .inl rfl⟩

/-- What the completion thread leaves to the other two. -/
structure ReaperFrame (s s' : State) : Prop where
  main : s'.main = s.main
  threw : s'.threw = s.threw
  ctx : s'.ctx = s.ctx
  eventFd : s'.eventFd = s.eventFd
  epollFd : s'.epollFd = s.epollFd
  size : s'.size = s.size
  fds : s'.fds = s.fds
  joinable : s'.joinable = s.joinable
  stop : s'.stop = s.stop
  submitted : s'.submitted = s.submitted
  cleanupFailed : s'.cleanupFailed = s.cleanupFailed
  releaseFailed : s'.releaseFailed = s.releaseFailed
  inFlight : s'.inFlight = s.inFlight
  accepted : s'.accepted = s.accepted
  failed : s.failed = true → s'.failed = true
  completed : s.completed ≤ s'.completed

theorem reaperStep_frame {cfg : Config} {s s' : State} {o : Outcome}
    (h : reaperStep cfg s o = some s') : ReaperFrame s s' := by
  unfold reaperStep at h
  simp only [State.giveUp] at h
  split at h
  all_goals repeat' split at h
  all_goals cases h
  all_goals
    refine ⟨rfl, rfl, rfl, rfl, rfl, rfl, rfl, rfl, rfl, rfl, rfl, rfl, rfl, rfl, ?_, ?_⟩
    · simp +contextual
    · simp

/-- What the kernel leaves to the two threads. -/
structure KernelFrame (s s' : State) : Prop where
  main : s'.main = s.main
  reaper : s'.reaper = s.reaper
  threw : s'.threw = s.threw
  ctx : s'.ctx = s.ctx
  eventFd : s'.eventFd = s.eventFd
  epollFd : s'.epollFd = s.epollFd
  size : s'.size = s.size
  fds : s'.fds = s.fds
  joinable : s'.joinable = s.joinable
  stop : s'.stop = s.stop
  submitted : s'.submitted = s.submitted
  cleanupFailed : s'.cleanupFailed = s.cleanupFailed
  releaseFailed : s'.releaseFailed = s.releaseFailed
  accepted : s'.accepted = s.accepted
  failed : s'.failed = s.failed
  completed : s'.completed = s.completed
  done : s'.done = s.done
  reaped : s'.reaped = s.reaped
  counted : s'.counted = s.counted

theorem kernelStep_frame {cfg : Config} {s s' : State} {k : KernelMove}
    (h : kernelStep cfg s k = some s') : KernelFrame s s' := by
  unfold kernelStep at h
  split at h
  all_goals split at h
  all_goals cases h
  all_goals exact ⟨rfl, rfl, rfl, rfl, rfl, rfl, rfl, rfl, rfl, rfl, rfl, rfl, rfl, rfl, rfl, rfl,
    rfl, rfl, rfl⟩

/-! ## Before the completion thread exists -/

/-- The points of `Run` up to the start of the completion thread. -/
def MainPc.beforeSpawn : MainPc → Bool
  | ioSetup | eventfd | epollCreate | epollCtl | resize | openRequest _ | spawn => true
  | _ => false

theorem beforeSpawn_next (purpose : CheckFor) : purpose.next.beforeSpawn = false := by
  cases purpose <;> rfl

theorem mainStep_beforeSpawn {cfg : Config} {s s' : State} {o : Outcome}
    (h : mainStep cfg s o = some s') (hbefore : s'.main.beforeSpawn = true) :
    s.main.beforeSpawn = true ∧ s'.reaper = s.reaper := by
  cases mainStep_cases h with
  | check purpose => rw [beforeSpawn_next] at hbefore; cases hbefore
  | ioSetup hmain | eventfd _ hmain | epollCreate _ hmain | epollCtl hmain | resize hmain
  | openRequest _ _ hmain | opened _ hmain => exact ⟨by rw [hmain]; rfl, rfl⟩
  | _ => cases hbefore

theorem reaper_absent {cfg : Config} {s : State} (h : Transition.Reachable (system cfg) s) :
    s.main.beforeSpawn = true → s.reaper = .absent := by
  refine h.invariant (fun s => s.main.beforeSpawn = true → s.reaper = .absent) (fun _ => rfl) ?_
  rintro s a s' - hs hstep hbefore
  cases a with
  | main o =>
      obtain ⟨hbefore', hreaper⟩ := mainStep_beforeSpawn hstep hbefore
      rw [hreaper]
      exact hs hbefore'
  | reaper o =>
      rw [(reaperStep_frame hstep).main] at hbefore
      have habsent := hs hbefore
      change reaperStep cfg s o = some s' at hstep
      unfold reaperStep at hstep
      rw [habsent] at hstep
      cases hstep
  | kernel k =>
      have hframe := kernelStep_frame hstep
      rw [hframe.main] at hbefore
      rw [hframe.reaper]
      exact hs hbefore

/-- The points at which `requests_` has its size and the thread does not exist. -/
def MainPc.opening : MainPc → Bool
  | openRequest _ | spawn => true
  | _ => false

/-- `requests_` is sized before the completion thread starts. -/
structure Sized (cfg : Config) (s : State) : Prop where
  opening : s.main.opening = true → s.size = cfg.count
  running : s.reaper ≠ .absent → s.size = cfg.count

theorem opening_next (purpose : CheckFor) : purpose.next.opening = false := by
  cases purpose <;> rfl

theorem mainStep_sized {cfg : Config} {s s' : State} {o : Outcome}
    (h : mainStep cfg s o = some s') (hs : Sized cfg s)
    (habsent : s.main.beforeSpawn = true → s.reaper = .absent) : Sized cfg s' := by
  obtain ⟨hopening, hrunning⟩ := hs
  cases mainStep_cases h with
  | resize hmain =>
      refine ⟨fun _ => rfl, fun hexists => absurd (habsent ?_) hexists⟩
      rw [hmain]
      rfl
  | openRequest i n hmain | opened i hmain =>
      exact ⟨fun _ => hopening (by rw [hmain]; rfl), hrunning⟩
  | spawn hmain => exact ⟨nofun, fun _ => hopening (by rw [hmain]; rfl)⟩
  | check purpose => exact ⟨by simp [opening_next], hrunning⟩
  | dtorIoDestroy | dtorClose | dtorEpoll | dtorEventfd =>
      rw [cleanup_eq]
      exact ⟨nofun, hrunning⟩
  | _ => exact ⟨nofun, hrunning⟩

theorem sized {cfg : Config} {s : State} (h : Transition.Reachable (system cfg) s) :
    Sized cfg s := by
  refine h.invariant (Sized cfg) ⟨by simp [system, MainPc.opening], by simp [system]⟩ ?_
  intro s a s' hreachable hs hstep
  cases a with
  | main o => exact mainStep_sized hstep hs (reaper_absent hreachable)
  | reaper o =>
      have hframe := reaperStep_frame hstep
      have hexists : s.reaper ≠ .absent := by
        intro habsent
        change reaperStep cfg s o = some s' at hstep
        unfold reaperStep at hstep
        rw [habsent] at hstep
        cases hstep
      have hsize := hs.running hexists
      exact ⟨fun _ => hframe.size.trans hsize, fun _ => hframe.size.trans hsize⟩
  | kernel k =>
      have hframe := kernelStep_frame hstep
      constructor
      · rw [hframe.main, hframe.size]
        exact hs.opening
      · rw [hframe.reaper, hframe.size]
        exact hs.running

/-! ## What a step does -/

/-- The points of the submission loop after its test. -/
def MainPc.submitting : MainPc → Bool
  | check purpose => purpose = .submit
  | window | ioSubmit | increment => true
  | _ => false

/-- What a step of the submitting thread does to the requests: it submits one,
counts one as submitted, or neither. -/
inductive Submits (cfg : Config) (s s' : State) : Prop
  | accept (hmain : s.main = .ioSubmit) (hmain' : s'.main = .increment)
      (hinFlight : s'.inFlight = s.inFlight ++ [s.submitted])
      (haccepted : s'.accepted = s.accepted ++ [s.submitted])
      (hsubmitted : s'.submitted = s.submitted)
  | increment (hmain : s.main = .increment) (hmain' : s'.main = .submitTest)
      (hinFlight : s'.inFlight = s.inFlight) (haccepted : s'.accepted = s.accepted)
      (hsubmitted : s'.submitted = s.submitted + 1)
  | neither (hmain : s.main ≠ .increment) (hmain' : s'.main ≠ .increment)
      (hinFlight : s'.inFlight = s.inFlight) (haccepted : s'.accepted = s.accepted)
      (hsubmitted : s'.submitted = s.submitted)
      (hsubmitting : s'.main.submitting = true → s.main.submitting = true ∨ s.submitted < cfg.count)

theorem next_ne_increment (purpose : CheckFor) : purpose.next ≠ .increment := by
  cases purpose <;> simp [CheckFor.next]

theorem submitting_next (purpose : CheckFor) :
    purpose.next.submitting = (MainPc.check purpose).submitting := by
  cases purpose <;> rfl

theorem mainStep_submits {cfg : Config} {s s' : State} {o : Outcome}
    (h : mainStep cfg s o = some s') : Submits cfg s s' := by
  cases mainStep_cases h with
  | ioSubmit hmain => exact .accept hmain rfl rfl rfl rfl
  | increment hmain => exact .increment hmain rfl rfl rfl rfl
  | throw o hmain =>
      exact .neither (by rintro h; rw [h] at hmain; cases hmain) nofun rfl rfl rfl nofun
  | submitMore hmain hlt =>
      exact .neither (by rw [hmain]; nofun) nofun rfl rfl rfl fun _ => .inr hlt
  | check purpose hmain =>
      refine .neither (by rw [hmain]; nofun) (next_ne_increment purpose) rfl rfl rfl ?_
      rw [submitting_next, hmain]
      exact .inl
  | windowOpen hmain =>
      exact .neither (by rw [hmain]; nofun) nofun rfl rfl rfl fun _ => .inl (by rw [hmain]; rfl)
  | dtorIoDestroy _ hmain | dtorClose _ _ hmain | dtorEpoll _ hmain | dtorEventfd _ hmain =>
      rw [cleanup_eq]
      exact .neither (by rw [hmain]; nofun) nofun rfl rfl rfl nofun
  | _ => exact .neither (by simp [*]) nofun rfl rfl rfl nofun

/-- The events that the completion thread has taken from the ring and not counted. -/
def ReaperPc.pending : ReaperPc → List IoEvent
  | examine batch _ => batch
  | markDone event batch _ | fetchAdd event batch _ => event :: batch
  | _ => []

/-- What a step of the completion thread does: it moves without an event in hand,
gives up, reads the eventfd, takes a batch, or treats the first event of one. -/
inductive Reaps (cfg : Config) (s : State) : State → Prop
  | walk (pc : ReaperPc) (hfrom : s.reaper.pending = []) (hto : pc.pending = [])
      (hpc : pc ≠ .absent) : Reaps cfg s { s with reaper := pc }
  | giveUp (hfrom : s.reaper.pending = []) : Reaps cfg s s.giveUp
  | read (hreaper : s.reaper = .readEventfd) (hcounter : 0 < s.counter) :
      Reaps cfg s { s with counter := 0, reaper := .getEvents }
  | take (hreaper : s.reaper = .getEvents) : Reaps cfg s { s with
        ring := s.ring.drop batchSize
        unnotified := s.unnotified + (s.ring.take batchSize).countP (!·.notified)
        reaped := s.reaped ++ (s.ring.take batchSize).map Posted.event
        reaper := .examine ((s.ring.take batchSize).map Posted.event)
          ((s.ring.take batchSize).length = batchSize) }
  | reject (event : IoEvent) (batch : List IoEvent) (more : Bool)
      (hreaper : s.reaper = .examine (event :: batch) more)
        (hinvalid : s.invalid cfg event = true) :
      Reaps cfg s s.giveUp
  | judge (event : IoEvent) (batch : List IoEvent) (more : Bool)
      (hreaper : s.reaper = .examine (event :: batch) more) (hvalid : s.invalid cfg event = false) :
      Reaps cfg s { s with
        failed := s.failed || event.unsuccessful cfg
        reaper := .markDone event batch more }
  | mark (event : IoEvent) (batch : List IoEvent) (more : Bool)
      (hreaper : s.reaper = .markDone event batch more) :
      Reaps cfg s { s with
        done := setAt s.done event.data true
        reaper := .fetchAdd event batch more }
  | count (event : IoEvent) (batch : List IoEvent) (more : Bool)
      (hreaper : s.reaper = .fetchAdd event batch more) :
      Reaps cfg s { s with
        completed := s.completed + 1
        counted := s.counted ++ [event]
        reaper := .examine batch more }

theorem reaperStep_reaps {cfg : Config} {s s' : State} {o : Outcome}
    (h : reaperStep cfg s o = some s') : s.reaper ≠ .absent ∧ Reaps cfg s s' := by
  unfold reaperStep at h
  split at h
  case h_9 => cases h; exact ⟨by simp_all, .take (by assumption)⟩
  case h_12 =>
    cases h
    refine ⟨by simp_all, .walk _ (by simp_all [ReaperPc.pending]) ?_ ?_⟩ <;> split <;>
      simp [ReaperPc.pending]
  case h_13 =>
    split at h
    · cases h; exact ⟨by simp_all, .reject _ _ _ (by assumption) (by assumption)⟩
    · cases h; exact ⟨by simp_all, .judge _ _ _ (by assumption) (by simp_all)⟩
  case h_14 => cases h; exact ⟨by simp_all, .mark _ _ _ (by assumption)⟩
  case h_15 => cases h; exact ⟨by simp_all, .count _ _ _ (by assumption)⟩
  -- what is left has no event in hand
  all_goals repeat' split at h
  all_goals cases h
  all_goals refine ⟨by simp_all, ?_⟩
  all_goals first
    | (refine .walk _ ?_ ?_ ?_ <;> simp_all [ReaperPc.pending])
    | (refine .giveUp ?_; simp_all [ReaperPc.pending])
    | (refine .read ?_ ?_ <;> assumption)

end SharingProbe.AioPhase
