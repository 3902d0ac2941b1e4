import Mathlib.Algebra.BigOperators.Group.Finset.Basic
import SharingProbe.Library.Ledger
import SharingProbe.AioPhase.Pass

/-!
# The context and the descriptors of a phase

A phase creates an AIO context, an eventfd, an epoll descriptor and one descriptor
for each request.  `Run` closes the descriptors of the requests itself when all
went well; everything else, and everything that is left after an exception, is
for the destructor.

The record of what is open are the members of `AioPhase`.  `recorded_step` says
that every step keeps it exact, whichever call throws, so that a phase that has
ended has released everything once.  `quiet_at` says that nothing is in flight
when a descriptor of a request is closed or the requests are destroyed.
-/

namespace SharingProbe.AioPhase

open Transition

/-! ## What a step creates and releases -/

/-- What the kernel hands out. -/
inductive KernelObject where
  | fd (n : Fd)
  | context
  deriving DecidableEq, Repr

/-- A descriptor member; `-1` owns nothing. -/
def ownedFd : Option Fd → Multiset KernelObject
  | some n => {.fd n}
  | none => 0

@[simp] theorem ownedFd_some (n : Fd) : ownedFd (some n) = {.fd n} := rfl

@[simp] theorem ownedFd_none : ownedFd none = 0 := rfl

/-- What a call of the submitting thread returns. -/
def acquiredAt : MainPc → Outcome → Multiset KernelObject
  | .ioSetup, .ok => {.context}
  | .eventfd, .fd n | .epollCreate, .fd n | .openRequest _, .fd n => {.fd n}
  | _, _ => 0

/-- What is passed to `close` or `io_destroy`. -/
def State.passedAt (s : State) : MainPc → Multiset KernelObject
  | .closeRequest i | .dtorClose i => ownedFd (s.fds i)
  | .dtorIoDestroy => {.context}
  | .dtorEpoll => ownedFd s.epollFd
  | .dtorEventfd => ownedFd s.eventFd
  | _ => 0

/-- A step with the state it is taken in. -/
abbrev Move := State × Action

def Move.acquires (m : Move) : Multiset KernelObject :=
  match m.2 with
  | .main o => acquiredAt m.1.main o
  | _ => 0

/-- A release call counts whether or not it reports success. -/
def Move.releases (m : Move) : Multiset KernelObject :=
  match m.2 with
  | .main .ok | .main .failed => m.1.passedAt m.1.main
  | _ => 0

/-- The members of `AioPhase` as a record of what is open. -/
def State.recorded (cfg : Config) (s : State) : Multiset KernelObject :=
  (if s.ctx then {.context} else 0) + ownedFd s.eventFd + ownedFd s.epollFd +
    ∑ i ∈ Finset.range cfg.count, ownedFd (s.fds i)

/-! ## Which members are set where -/

/-- The value of `ctx_ != 0` where the program point settles it. -/
def MainPc.context : MainPc → Option Bool
  | ioSetup | dtorClose _ | dtorEpoll | dtorEventfd | finished => some false
  | dtorStop | dtorJoin | dtorIoDestroy => none
  | _ => some true

/-- The points at which `eventFd_` is `-1`. -/
def MainPc.noEventFd : MainPc → Bool
  | ioSetup | eventfd | finished => true
  | _ => false

/-- The points at which `epollFd_` is `-1`. -/
def MainPc.noEpollFd : MainPc → Bool
  | ioSetup | eventfd | epollCreate | dtorEventfd | finished => true
  | _ => false

/-- The points at which request `i` has no descriptor. -/
def MainPc.noRequestFd (i : ℕ) : MainPc → Bool
  | ioSetup | eventfd | epollCreate | epollCtl | resize | dtorEpoll | dtorEventfd | finished => true
  | openRequest j => j ≤ i
  | closeRequest j | dtorClose j => i < j
  | _ => false

/-- The members agree with the program point. -/
structure Tidy (cfg : Config) (s : State) : Prop where
  context : ∀ b, s.main.context = some b → s.ctx = b
  eventFd : s.main.noEventFd = true → s.eventFd = none
  epollFd : s.main.noEpollFd = true → s.epollFd = none
  request : ∀ i, s.main.noRequestFd i = true → s.fds i = none
  sized : ∀ i, s.size ≤ i → s.fds i = none
  size : s.size ≤ cfg.count

/-- A `check()` that returns leads to a point that settles nothing new. -/
theorem next_open (purpose : CheckFor) : purpose.next.context = some true ∧
    purpose.next.noEventFd = false ∧ purpose.next.noEpollFd = false ∧
    ∀ i, purpose.next.noRequestFd i = false := by
  cases purpose <;> exact ⟨rfl, rfl, rfl, fun _ => rfl⟩

theorem mainStep_context {cfg : Config} {s s' : State} {o : Outcome}
    (h : mainStep cfg s o = some s') (hs : ∀ b, s.main.context = some b → s.ctx = b) :
    ∀ b, s'.main.context = some b → s'.ctx = b := by
  cases mainStep_cases h with
  | throw => nofun
  | check purpose hmain =>
      intro b hb
      rw [hmain] at hs
      exact hs b ((next_open purpose).1.symm.trans hb ▸ rfl)
  | closeFails => nofun
  | _ => simp_all [MainPc.context, cleanup_eq]

theorem mainStep_eventFd {cfg : Config} {s s' : State} {o : Outcome}
    (h : mainStep cfg s o = some s') (hs : s.main.noEventFd = true → s.eventFd = none) :
    s'.main.noEventFd = true → s'.eventFd = none := by
  cases mainStep_cases h with
  | check purpose =>
      exact fun hnone => absurd ((next_open purpose).2.1.symm.trans hnone) (by decide)
  | ioSetup hmain => exact fun _ => hs (by rw [hmain]; rfl)
  | dtorNoEventfd hmain hnone => exact fun _ => hnone
  | dtorEventfd => exact fun _ => rfl
  | _ => nofun

theorem mainStep_epollFd {cfg : Config} {s s' : State} {o : Outcome}
    (h : mainStep cfg s o = some s') (hs : s.main.noEpollFd = true → s.epollFd = none) :
    s'.main.noEpollFd = true → s'.epollFd = none := by
  cases mainStep_cases h with
  | check purpose =>
      exact fun hnone => absurd ((next_open purpose).2.2.1.symm.trans hnone) (by decide)
  | ioSetup hmain | eventfd _ hmain | dtorNoEventfd hmain =>
      exact fun _ => hs (by rw [hmain]; rfl)
  | dtorNoEpoll hmain hnone => exact fun _ => hnone
  | dtorEpoll => exact fun _ => rfl
  | dtorEventfd _ hmain =>
      rw [cleanup_eq]
      exact fun _ => hs (by rw [hmain]; rfl)
  | _ => nofun

theorem mainStep_request {cfg : Config} {s s' : State} {o : Outcome}
    (h : mainStep cfg s o = some s') (hs : ∀ i, s.main.noRequestFd i = true → s.fds i = none)
    (hsized : ∀ i, s.size ≤ i → s.fds i = none) :
    ∀ i, s'.main.noRequestFd i = true → s'.fds i = none := by
  cases mainStep_cases h with
  | throw | closeFails => nofun
  | check purpose =>
      exact fun i hnone => absurd (((next_open purpose).2.2.2 i).symm.trans hnone) (by decide)
  | _ =>
      simp_all [MainPc.noRequestFd, cleanup_eq]
      try grind [setAt]

theorem mainStep_size {cfg : Config} {s s' : State} {o : Outcome}
    (h : mainStep cfg s o = some s') (hsized : ∀ i, s.size ≤ i → s.fds i = none)
    (hsize : s.size ≤ cfg.count) (hopening : s.main.opening = true → s.size = cfg.count) :
    (∀ i, s'.size ≤ i → s'.fds i = none) ∧ s'.size ≤ cfg.count := by
  have hopened : ∀ i fd, i < s.size → ∀ j, s.size ≤ j → setAt s.fds i fd j = none :=
    fun i fd hlt j hj => (setAt_of_ne _ _ (by omega)).trans (hsized j hj)
  cases mainStep_cases h with
  | resize => exact ⟨fun i hi => hsized i (hsize.trans hi), le_rfl⟩
  | openRequest i n hmain hlt =>
      exact ⟨hopened i (some n) (hopening (by rw [hmain]; rfl) ▸ hlt), hsize⟩
  | closeRequest i _ hlt | closeFails i _ hlt => exact ⟨hopened i none hlt, hsize⟩
  | dtorClose i _ _ hlt =>
      rw [cleanup_eq]
      exact ⟨hopened i none hlt, hsize⟩
  | dtorIoDestroy | dtorEpoll | dtorEventfd =>
      rw [cleanup_eq]
      exact ⟨hsized, hsize⟩
  | _ => exact ⟨hsized, hsize⟩

theorem mainStep_tidy {cfg : Config} {s s' : State} {o : Outcome}
    (h : mainStep cfg s o = some s') (hs : Tidy cfg s)
    (hopening : s.main.opening = true → s.size = cfg.count) : Tidy cfg s' where
  context := mainStep_context h hs.context
  eventFd := mainStep_eventFd h hs.eventFd
  epollFd := mainStep_epollFd h hs.epollFd
  request := mainStep_request h hs.request hs.sized
  sized := (mainStep_size h hs.sized hs.size hopening).1
  size := (mainStep_size h hs.sized hs.size hopening).2

theorem tidy_init (cfg : Config) : Tidy cfg {} where
  context := by simp [MainPc.context]
  eventFd _ := rfl
  epollFd _ := rfl
  request _ _ := rfl
  sized _ _ := rfl
  size := Nat.zero_le _

theorem tidy {cfg : Config} {s : State} (h : Reachable (system cfg) s) : Tidy cfg s := by
  refine h.invariant (Tidy cfg) (tidy_init cfg) ?_
  intro s a s' hreachable hs hstep
  obtain ⟨hcontext, heventFd, hepollFd, hrequest, hsized, hsize⟩ := hs
  cases a with
  | main o =>
      exact mainStep_tidy hstep ⟨hcontext, heventFd, hepollFd, hrequest, hsized, hsize⟩
        (sized hreachable).opening
  | reaper o =>
      have hframe := reaperStep_frame hstep
      constructor
      · rwa [hframe.main, hframe.ctx]
      · rwa [hframe.main, hframe.eventFd]
      · rwa [hframe.main, hframe.epollFd]
      · rwa [hframe.main, hframe.fds]
      · rwa [hframe.size, hframe.fds]
      · rwa [hframe.size]
  | kernel k =>
      have hframe := kernelStep_frame hstep
      constructor
      · rwa [hframe.main, hframe.ctx]
      · rwa [hframe.main, hframe.eventFd]
      · rwa [hframe.main, hframe.epollFd]
      · rwa [hframe.main, hframe.fds]
      · rwa [hframe.size, hframe.fds]
      · rwa [hframe.size]

/-! ## The record is exact -/

/-- A request exchanges one descriptor for another. -/
theorem sum_setAt {n i : ℕ} (hi : i < n) (fds : ℕ → Option Fd) (fd : Option Fd) :
    ∑ j ∈ Finset.range n, ownedFd (setAt fds i fd j) + ownedFd (fds i) =
      ∑ j ∈ Finset.range n, ownedFd (fds j) + ownedFd fd := by
  have hmem : i ∈ Finset.range n := Finset.mem_range.mpr hi
  have hothers : ∑ j ∈ (Finset.range n).erase i, ownedFd (setAt fds i fd j) =
      ∑ j ∈ (Finset.range n).erase i, ownedFd (fds j) := by
    refine Finset.sum_congr rfl ?_
    intro j hj
    rw [setAt_of_ne _ _ (Finset.ne_of_mem_erase hj)]
  rw [← Finset.add_sum_erase _ _ hmem, hothers, setAt_self, ← Finset.add_sum_erase _ _ hmem]
  ac_rfl

theorem releases_of_reports {s : State} {o : Outcome} (ho : o = .ok ∨ o = .failed) :
    Move.releases (s, .main o) = s.passedAt s.main := by
  rcases ho with rfl | rfl <;> rfl

/-- An exception before the first `close` releases nothing. -/
theorem releases_of_throwing {s : State} {o : Outcome} (hmain : s.main.throwing = true)
    (ho : o = .failed ∨ o = .timedOut) :
    Move.releases (s, .main o) = 0 ∧ acquiredAt s.main o = 0 := by
  unfold Move.releases
  rcases ho with rfl | rfl <;> cases hpc : s.main <;> rw [hpc] at hmain <;> first
    | exact ⟨rfl, rfl⟩
    | cases hmain

/-- A step changes the record by what it acquires and releases. -/
theorem mainStep_recorded {cfg : Config} {s s' : State} {o : Outcome}
    (h : mainStep cfg s o = some s') (hs : Tidy cfg s) :
    s'.recorded cfg + Move.releases (s, .main o) = s.recorded cfg + acquiredAt s.main o := by
  cases mainStep_cases h with
  | throw o hmain ho =>
      obtain ⟨hreleases, hacquired⟩ := releases_of_throwing hmain ho
      rw [hreleases, hacquired]
      rfl
  | ioSetup hmain =>
      have hnone : s.ctx = false := hs.context false (by rw [hmain]; rfl)
      simp only [State.recorded, Move.releases, State.passedAt, acquiredAt, hmain, hnone,
        reduceIte, Bool.false_eq_true, zero_add, add_zero]
      ac_rfl
  | eventfd n hmain =>
      have hnone := hs.eventFd (by rw [hmain]; rfl)
      simp only [State.recorded, Move.releases, acquiredAt, hmain, hnone, ownedFd_some,
        ownedFd_none, add_zero]
      ac_rfl
  | epollCreate n hmain =>
      have hnone := hs.epollFd (by rw [hmain]; rfl)
      simp only [State.recorded, Move.releases, acquiredAt, hmain, hnone, ownedFd_some,
        ownedFd_none, add_zero]
      ac_rfl
  | openRequest i n hmain hlt =>
      have hnone := hs.request i (by rw [hmain]; simp [MainPc.noRequestFd])
      have hsum := sum_setAt hlt s.fds (some n)
      rw [hnone, ownedFd_none, add_zero, ownedFd_some] at hsum
      simp only [State.recorded, Move.releases, acquiredAt, hmain, hsum, add_zero]
      ac_rfl
  | closeRequest i hmain hlt | closeFails i hmain hlt =>
      have hsum := sum_setAt (hlt.trans_le hs.size) s.fds none
      simp only [State.recorded, Move.releases, State.passedAt, acquiredAt, hmain]
      rw [add_assoc, hsum, ownedFd_none, add_zero, add_zero]
  | dtorIoDestroy o hmain hctx _ ho =>
      simp only [State.recorded, cleanup_eq, releases_of_reports ho, State.passedAt, acquiredAt,
        hmain, hctx, reduceIte, Bool.false_eq_true, zero_add, add_zero]
      ac_rfl
  | dtorClose i o hmain hlt ho =>
      have hsum := sum_setAt (hlt.trans_le hs.size) s.fds none
      simp only [State.recorded, cleanup_eq, releases_of_reports ho, State.passedAt, acquiredAt,
        hmain]
      rw [add_assoc, hsum, ownedFd_none, add_zero, add_zero]
  | dtorEpoll o hmain ho | dtorEventfd o hmain ho =>
      simp only [State.recorded, cleanup_eq, releases_of_reports ho, State.passedAt, acquiredAt,
        hmain, ownedFd_none, add_zero]
      ac_rfl
  | _ => simp_all [Move.releases, State.passedAt, acquiredAt, State.recorded]

/-- No step both creates and releases. -/
theorem acquires_or_passes (s : State) (pc : MainPc) (o : Outcome) :
    acquiredAt pc o = 0 ∨ s.passedAt pc = 0 := by
  cases pc <;> first
    | exact .inr rfl
    | (cases o <;> exact .inl rfl)

/-- What is passed to a release call is on record. -/
theorem mainStep_releases_le {cfg : Config} {s s' : State} {o : Outcome}
    (h : mainStep cfg s o = some s') (hs : Tidy cfg s) :
    Move.releases (s, .main o) ≤ s.recorded cfg := by
  have hrecorded := mainStep_recorded h hs
  by_cases ho : o = .ok ∨ o = .failed
  · rw [releases_of_reports ho] at hrecorded ⊢
    rcases acquires_or_passes s s.main o with hnone | hnone
    · rw [hnone, add_zero] at hrecorded
      rw [← hrecorded]
      exact Multiset.le_add_left _ _
    · rw [hnone]
      exact Multiset.zero_le _
  · have hnone : Move.releases (s, .main o) = 0 := by
      cases o <;> simp_all [Move.releases]
    rw [hnone]
    exact Multiset.zero_le _

/-- The acquisitions and releases of a phase. -/
def accounts : Ledger.Accounts Move KernelObject where
  acquires := Move.acquires
  releases := Move.releases

/-- Along every path nothing is released that is not open, and the members record
what is open. -/
theorem recorded_exact {cfg : Config} {t : List Move} {s : State}
    (h : Path (system cfg) {} t s) : accounts.Disciplined t ∧ accounts.held t = s.recorded cfg := by
  refine h.invariant (fun t s => accounts.Disciplined t ∧ accounts.held t = s.recorded cfg) ?_ ?_
  · constructor
    · intro t₁ e t₂ hsplit
      exact absurd hsplit (by simp)
    · simp [State.recorded]
  · rintro t s a s' hpath ⟨hdisciplined, hheld⟩ hstep
    have hs := tidy ⟨t, hpath⟩
    rw [Ledger.Accounts.held_concat, hheld]
    cases a with
    | main o =>
        have hle : accounts.releases (s, .main o) ≤ s.recorded cfg := mainStep_releases_le hstep hs
        refine ⟨hdisciplined.concat (hheld ▸ hle), ?_⟩
        calc s.recorded cfg - accounts.releases (s, .main o) + accounts.acquires (s, .main o)
            = s.recorded cfg + acquiredAt s.main o - Move.releases (s, .main o) :=
              tsub_add_eq_add_tsub hle
          _ = s'.recorded cfg + Move.releases (s, .main o) - Move.releases (s, .main o) := by
              rw [mainStep_recorded hstep hs]
          _ = s'.recorded cfg := add_tsub_cancel_right _ _
    | reaper o =>
        have hframe := reaperStep_frame hstep
        refine ⟨hdisciplined.concat (Multiset.zero_le _), ?_⟩
        unfold State.recorded
        rw [hframe.ctx, hframe.eventFd, hframe.epollFd, hframe.fds]
        exact (add_zero _).trans (tsub_zero _)
    | kernel k =>
        have hframe := kernelStep_frame hstep
        refine ⟨hdisciplined.concat (Multiset.zero_le _), ?_⟩
        unfold State.recorded
        rw [hframe.ctx, hframe.eventFd, hframe.epollFd, hframe.fds]
        exact (add_zero _).trans (tsub_zero _)

/-! ## In flight -/

/-- The points at which descriptors of requests are closed, and those after which
the requests are destroyed. -/
def MainPc.quiet : MainPc → Bool
  | closeRequest _ | dtorClose _ | dtorEpoll | dtorEventfd | finished => true
  | _ => false

theorem mainStep_ctx {cfg : Config} {s s' : State} {o : Outcome}
    (h : mainStep cfg s o = some s') (hctx : s'.ctx = false) :
    s.ctx = false ∨ s.inFlight = [] := by
  cases mainStep_cases h with
  | ioSetup => cases hctx
  | dtorIoDestroy _ _ _ hempty => exact .inr hempty
  | dtorClose | dtorEpoll | dtorEventfd =>
      rw [cleanup_eq] at hctx
      exact .inl hctx
  | _ => exact .inl hctx

theorem kernelStep_inFlight {cfg : Config} {s s' : State} {k : KernelMove}
    (h : kernelStep cfg s k = some s') (hempty : s.inFlight = []) : s'.inFlight = [] := by
  unfold kernelStep at h
  split at h
  all_goals split at h
  all_goals cases h
  all_goals simp_all

/-- Requests are in flight only in a context. -/
theorem inFlight_of_no_context {cfg : Config} {s : State} (h : Reachable (system cfg) s) :
    s.ctx = false → s.inFlight = [] := by
  refine h.invariant (fun s => s.ctx = false → s.inFlight = []) (fun _ => rfl) ?_
  intro s a s' hreachable hs hstep hctx
  cases a with
  | main o =>
      have hbefore : s.inFlight = [] := by
        rcases mainStep_ctx hstep hctx with hnone | hempty
        · exact hs hnone
        · exact hempty
      cases mainStep_submits hstep with
      | accept hmain hmain' hinFlight haccepted hsame =>
          have htrue := (tidy (hreachable.step hstep)).context true (by rw [hmain']; rfl)
          rw [hctx] at htrue
          cases htrue
      | increment hmain hmain' hinFlight haccepted hsame => rw [hinFlight, hbefore]
      | neither hmain hmain' hinFlight haccepted hsame hsubmitting => rw [hinFlight, hbefore]
  | reaper o =>
      have hframe := reaperStep_frame hstep
      rw [hframe.inFlight]
      exact hs (hframe.ctx ▸ hctx)
  | kernel k =>
      exact kernelStep_inFlight hstep (hs ((kernelStep_frame hstep).ctx ▸ hctx))

/-- Nothing is in flight when a descriptor of a request is closed, and from then
on. -/
theorem quiet {cfg : Config} {s : State} (hhonest : cfg.strayEvents = false)
    (h : Reachable (system cfg) s) (hquiet : s.main.quiet = true) : s.inFlight = [] := by
  cases hmain : s.main with
  | closeRequest i =>
      have hpassing : s.passing = true := by
        unfold State.passing
        rw [hmain]
        rfl
      exact ((accounted hhonest h).counted_all (waited h (State.waited_of_passing hpassing))).1
  | dtorClose i => exact inFlight_of_no_context h ((tidy h).context false (by rw [hmain]; rfl))
  | dtorEpoll => exact inFlight_of_no_context h ((tidy h).context false (by rw [hmain]; rfl))
  | dtorEventfd => exact inFlight_of_no_context h ((tidy h).context false (by rw [hmain]; rfl))
  | finished => exact inFlight_of_no_context h ((tidy h).context false (by rw [hmain]; rfl))
  | _ => rw [hmain] at hquiet; cases hquiet

/-! ## The end of a phase -/

/-- Nothing is left open. -/
theorem recorded_finished {cfg : Config} {s : State} (h : Reachable (system cfg) s)
    (hfinished : s.main = .finished) : s.recorded cfg = 0 := by
  have hs := tidy h
  have hctx : s.ctx = false := hs.context false (by rw [hfinished]; rfl)
  have hfds : ∀ i, s.fds i = none := fun i => hs.request i (by rw [hfinished]; rfl)
  unfold State.recorded
  rw [hctx, hs.eventFd (by rw [hfinished]; rfl), hs.epollFd (by rw [hfinished]; rfl)]
  simp [hfds]

theorem mainStep_releaseFailed {cfg : Config} {s s' : State} {o : Outcome}
    (h : mainStep cfg s o = some s')
    (hs : s.releaseFailed = true → s.threw = true ∨ s.cleanupFailed = true) :
    s'.releaseFailed = true → s'.threw = true ∨ s'.cleanupFailed = true := by
  cases mainStep_cases h with
  | throw | closeFails => exact fun _ => .inl rfl
  | dtorIoDestroy | dtorClose | dtorEpoll | dtorEventfd =>
      rw [cleanup_eq]
      simp only [Bool.or_eq_true]
      rintro (hset | hfails)
      · exact (hs hset).imp_right .inl
      · exact .inr (.inr hfails)
  | _ => exact hs

/-- A failed release call is not forgotten. -/
theorem releaseFailed_reported {cfg : Config} {s : State} (h : Reachable (system cfg) s) :
    s.releaseFailed = true → s.threw = true ∨ s.cleanupFailed = true := by
  refine h.invariant (fun s => s.releaseFailed = true → s.threw = true ∨ s.cleanupFailed = true)
    nofun ?_
  intro s a s' _ hs hstep
  cases a with
  | main o => exact mainStep_releaseFailed hstep hs
  | reaper o =>
      have hframe := reaperStep_frame hstep
      rwa [hframe.releaseFailed, hframe.threw, hframe.cleanupFailed]
  | kernel k =>
      have hframe := kernelStep_frame hstep
      rwa [hframe.releaseFailed, hframe.threw, hframe.cleanupFailed]

/-- A release call that reports a failure. -/
def Move.releaseFails (m : Move) : Bool :=
  m.2 = .main .failed && (match m.1.main with
    | .closeRequest _ | .dtorIoDestroy | .dtorClose _ | .dtorEpoll | .dtorEventfd => true
    | _ => false)

theorem mainStep_releaseFails {cfg : Config} {s s' : State} {o : Outcome}
    (h : mainStep cfg s o = some s')
    (hfails : s.releaseFailed = true ∨ Move.releaseFails (s, .main o) = true) :
    s'.releaseFailed = true := by
  cases mainStep_cases h with
  | throw o hmain =>
      refine hfails.elim id fun hfails => ?_
      unfold Move.releaseFails at hfails
      cases hpc : s.main <;> simp_all [MainPc.throwing]
  | _ => simp_all [Move.releaseFails, cleanup_eq]

/-- A phase in which a release call fails throws or sets `cleanupFailed`. -/
theorem releaseFails_reported {cfg : Config} {t : List Move} {s : State}
    (h : Path (system cfg) {} t s) :
    ∀ m ∈ t, Move.releaseFails m = true → s.threw = true ∨ s.cleanupFailed = true := by
  have hflag : ∀ m ∈ t, Move.releaseFails m = true → s.releaseFailed = true := by
    refine h.invariant (fun t s => ∀ m ∈ t, Move.releaseFails m = true → s.releaseFailed = true)
      (by simp) ?_
    intro t s a s' _ hs hstep m hm hfails
    rcases List.mem_append.mp hm with hbefore | hnow
    · have hset := hs m hbefore hfails
      cases a with
      | main o => exact mainStep_releaseFails hstep (.inl hset)
      | reaper o => exact (reaperStep_frame hstep).releaseFailed.trans hset
      | kernel k => exact (kernelStep_frame hstep).releaseFailed.trans hset
    · rw [List.mem_singleton.mp hnow] at hfails
      cases a with
      | main o => exact mainStep_releaseFails hstep (.inr hfails)
      | reaper o => simp [Move.releaseFails] at hfails
      | kernel k => simp [Move.releaseFails] at hfails
  intro m hm hfails
  exact releaseFailed_reported ⟨t, h⟩ (hflag m hm hfails)

end SharingProbe.AioPhase
