import Mathlib.Data.List.Nodup
import SharingProbe.AioPhase.Accounting

/-!
# The PASS line

`Run` decides success from `failed_` and `completed_`.  The reap loop sets `failed_`
before it counts an event, and `check()` runs once more after the wait loop.  So
whoever passes the last check has seen all events counted and none of them bad.

Two statements come out of this.  With a kernel that reports only completions of
accepted requests, PASS means that every request was accepted and reaped once, in
full.  With any kernel, a bad event that the reap loop takes up while `completed_`
is below `count` makes `Run` throw.
-/

namespace SharingProbe.AioPhase

open Transition

/-- The points of `Run` after the last `check()`. -/
def MainPc.pastCheck : MainPc → Bool
  | setStop | join | pass | closeRequest _ => true
  | _ => false

/-- The points of the destructor. -/
def MainPc.inDtor : MainPc → Bool
  | dtorStop | dtorJoin | dtorIoDestroy | dtorClose _ | dtorEpoll | dtorEventfd | finished => true
  | _ => false

/-- The last `check()` has returned. -/
def State.passing (s : State) : Bool := s.main.pastCheck || (s.main.inDtor && !s.threw)

/-- The points from the wait loop's exit on. -/
def State.waited (s : State) : Bool := s.main = .check .final || s.passing

/-- How many steps of the submitting thread are left before it throws, once
`failed_` is set. -/
def MainPc.stepsToThrow : MainPc → ℕ
  | check _ => 1
  | waitTest => 2
  | submitTest => 3
  | increment => 4
  | ioSubmit => 5
  | window => 6
  | _ => 0

/-- How a step of the submitting thread gets past the wait loop and the last
check. -/
theorem mainStep_passing {cfg : Config} {s s' : State} {o : Outcome}
    (h : mainStep cfg s o = some s') :
    (s'.waited = true → s.waited = true ∨ cfg.count ≤ s.completed) ∧
      (s'.passing = true → s.passing = true ∨ s.main = .check .final ∧ s.failed = false) := by
  cases mainStep_cases h with
  | throw | closeFails =>
      simp [State.waited, State.passing, State.throw, MainPc.pastCheck, MainPc.inDtor]
  | check purpose =>
      cases purpose <;>
        simp_all [State.waited, State.passing, MainPc.pastCheck, MainPc.inDtor, CheckFor.next]
  | _ => simp_all [State.waited, State.passing, MainPc.pastCheck, MainPc.inDtor, cleanup_eq]

/-- After the wait loop all events are counted. -/
def Waited (cfg : Config) (s : State) : Prop := s.waited = true → cfg.count ≤ s.completed

theorem waited {cfg : Config} {s : State} (h : Reachable (system cfg) s) : Waited cfg s := by
  refine h.invariant (Waited cfg) nofun ?_
  intro s a s' _ hs hstep hwaited
  cases a with
  | main o =>
      rw [(mainStep_frame hstep).completed]
      rcases (mainStep_passing hstep).1 hwaited with hbefore | hcount
      · exact hs hbefore
      · exact hcount
  | reaper o =>
      have hframe := reaperStep_frame hstep
      unfold State.waited State.passing at hwaited
      rw [hframe.main, hframe.threw] at hwaited
      exact (hs hwaited).trans hframe.completed
  | kernel k =>
      have hframe := kernelStep_frame hstep
      unfold State.waited State.passing at hwaited
      rw [hframe.main, hframe.threw] at hwaited
      rw [hframe.completed]
      exact hs hwaited

theorem State.waited_of_passing {s : State} (h : s.passing = true) : s.waited = true := by
  unfold State.waited
  rw [h, Bool.or_true]

/-! ## Bad events -/

/-- `failed_` is set and the last check is still to come, or was never reached. -/
structure Doomed (s : State) : Prop where
  failed : s.failed = true
  before : s.passing = false
  started : s.main.beforeSpawn = false

theorem beforeSpawn_of_mainStep {cfg : Config} {s s' : State} {o : Outcome}
    (h : mainStep cfg s o = some s') (hbefore : s.main.beforeSpawn = false) :
    s'.main.beforeSpawn = false := by
  cases hafter : s'.main.beforeSpawn with
  | false => rfl
  | true => rw [(mainStep_beforeSpawn h hafter).1] at hbefore; cases hbefore

theorem step_doomed {cfg : Config} {s s' : State} {a : Action} (hs : Doomed s)
    (hstep : step cfg s a = some s') : Doomed s' := by
  obtain ⟨hfailed, hbefore, hstarted⟩ := hs
  cases a with
  | main o =>
      refine ⟨(mainStep_frame hstep).failed.trans hfailed, ?_,
        beforeSpawn_of_mainStep hstep hstarted⟩
      cases hpassing : s'.passing with
      | false => rfl
      | true =>
          rcases (mainStep_passing hstep).2 hpassing with h | ⟨-, h⟩
          · rw [hbefore] at h; cases h
          · rw [hfailed] at h; cases h
  | reaper o =>
      have hframe := reaperStep_frame hstep
      refine ⟨hframe.failed hfailed, ?_, hframe.main ▸ hstarted⟩
      unfold State.passing at hbefore ⊢
      rwa [hframe.main, hframe.threw]
  | kernel k =>
      have hframe := kernelStep_frame hstep
      refine ⟨hframe.failed.trans hfailed, ?_, hframe.main ▸ hstarted⟩
      unfold State.passing at hbefore ⊢
      rwa [hframe.main, hframe.threw]

/-- A doomed `Run` has thrown or is a few steps away from it. -/
theorem Doomed.threw_or {s : State} (h : Doomed s) :
    s.threw = true ∨ 0 < s.main.stepsToThrow := by
  have hbefore := h.before
  have hstarted := h.started
  unfold State.passing at hbefore
  cases hmain : s.main <;> rw [hmain] at hbefore hstarted <;>
    simp_all [MainPc.stepsToThrow, MainPc.pastCheck, MainPc.inDtor, MainPc.beforeSpawn]

theorem mainStep_threw {cfg : Config} {s s' : State} {o : Outcome}
    (h : mainStep cfg s o = some s') (hthrew : s.threw = true) : s'.threw = true := by
  cases mainStep_cases h with
  | throw | closeFails => rfl
  | dtorIoDestroy | dtorClose | dtorEpoll | dtorEventfd => rwa [cleanup_eq]
  | _ => exact hthrew

/-- Every step of a doomed `Run` brings it closer to the throw. -/
theorem mainStep_stepsToThrow {cfg : Config} {s s' : State} {o : Outcome}
    (h : mainStep cfg s o = some s') (hfailed : s.failed = true)
    (hpos : 0 < s.main.stepsToThrow) :
    s'.threw = true ∨ s'.main.stepsToThrow < s.main.stepsToThrow := by
  cases mainStep_cases h with
  | throw | closeFails => exact .inl rfl
  | _ => simp_all [MainPc.stepsToThrow]

/-- A doomed `Run` that has not thrown is never blocked. -/
theorem exists_mainStep {cfg : Config} {s : State} (hfailed : s.failed = true)
    (hpos : 0 < s.main.stepsToThrow) : ∃ o s', mainStep cfg s o = some s' := by
  cases hmain : s.main <;> rw [hmain] at hpos <;> simp only [MainPc.stepsToThrow] at hpos
  case check purpose =>
    exact ⟨.failed, s.throw, by unfold mainStep; rw [hmain]; exact if_pos hfailed⟩
  all_goals first
    | exact absurd hpos (by decide)
    | exact ⟨.ok, _, by unfold mainStep; rw [hmain]⟩

/-! ## PASS -/

/-- After the last check every counted event was transferred in full. -/
def Successful (cfg : Config) (s : State) : Prop :=
  s.passing = true → ∀ event ∈ s.counted, event.unsuccessful cfg = false

theorem Accounted.counted_all {cfg : Config} {s : State} (h : Accounted cfg s)
    (hwaited : cfg.count ≤ s.completed) :
    s.inFlight = [] ∧ s.ring = [] ∧ s.reaped = s.counted ∧ s.accepted.length = cfg.count := by
  have hlength := h.requests.length_eq
  have hle := h.accepted_le
  have hcompleted := h.completed
  have hreaped := congrArg List.length h.reaped
  simp only [State.reported, List.length_append, List.length_map] at hlength hreaped
  have hpending : s.reaper.pending = [] := List.length_eq_zero_iff.mp (by omega)
  refine ⟨List.length_eq_zero_iff.mp (by omega), List.length_eq_zero_iff.mp (by omega), ?_,
    by omega⟩
  rw [h.reaped, hpending, List.append_nil]

theorem successful {cfg : Config} {s : State} (hhonest : cfg.strayEvents = false)
    (h : Reachable (system cfg) s) : Successful cfg s := by
  refine h.invariant (Successful cfg) nofun ?_
  intro s a s' hreachable hs hstep hpassing
  have haccounted := accounted hhonest hreachable
  have hreachable' := hreachable.step hstep
  cases a with
  | main o =>
      rw [(mainStep_frame hstep).counted]
      rcases (mainStep_passing hstep).2 hpassing with hbefore | ⟨-, hfailed⟩
      · exact hs hbefore
      · exact fun event hevent =>
          haccounted.successful hfailed event (List.mem_append_left _ hevent)
  | reaper o =>
      have hframe := reaperStep_frame hstep
      have hbefore : s.passing = true := by
        unfold State.passing at hpassing ⊢
        rwa [hframe.main, hframe.threw] at hpassing
      -- nothing is left to be counted
      have hall := haccounted.counted_all (waited hreachable (State.waited_of_passing hbefore))
      have hall' := (accounted hhonest hreachable').counted_all
        (waited hreachable' (State.waited_of_passing hpassing))
      have hreaped : s'.reaped = s.reaped := by
        obtain ⟨-, hreaps⟩ := reaperStep_reaps hstep
        cases hreaps with
        | take hreaper => simp [hall.2.1]
        | _ => rfl
      rw [← hall'.2.2.1, hreaped, hall.2.2.1]
      exact hs hbefore
  | kernel k =>
      have hframe := kernelStep_frame hstep
      have hbefore : s.passing = true := by
        unfold State.passing at hpassing ⊢
        rwa [hframe.main, hframe.threw] at hpassing
      rw [hframe.counted]
      exact hs hbefore

/-- A request was accepted once and reaped once, transferred in full. -/
structure ServedOnce (cfg : Config) (s : State) (i : ℕ) : Prop where
  accepted : s.accepted.count i = 1
  reaped : ∃ event, s.reaped.filter (·.data = i) = [event] ∧ event.obj = cfg.cbAddr i ∧
    event.res = cfg.slotBytes ∧ event.res2 = 0

theorem Accounted.servedOnce {cfg : Config} {s : State} (h : Accounted cfg s)
    (hwaited : cfg.count ≤ s.completed)
    (hsuccessful : ∀ event ∈ s.counted, event.unsuccessful cfg = false) {i : ℕ}
    (hi : i < cfg.count) : ServedOnce cfg s i := by
  obtain ⟨hinFlight, hring, hreaped, hlength⟩ := h.counted_all hwaited
  have horder := h.order
  rw [hlength] at horder
  have hdata : (s.reaped.map IoEvent.data).Perm (List.range cfg.count) := by
    have hrequests := h.requests
    unfold State.reported at hrequests
    rwa [hinFlight, hring, List.map_nil, List.nil_append, List.nil_append, horder] at hrequests
  have hone : (s.reaped.map IoEvent.data).count i = 1 := by
    rw [hdata.count_eq]
    exact List.count_eq_one_of_mem List.nodup_range (List.mem_range.mpr hi)
  constructor
  · rw [horder]
    exact List.count_eq_one_of_mem List.nodup_range (List.mem_range.mpr hi)
  · have hfilter : (s.reaped.filter (·.data = i)).length = 1 := by
      rw [← hone, List.count, List.countP_map, List.countP_eq_length_filter]
      rfl
    obtain ⟨event, hevent⟩ := List.length_eq_one_iff.mp hfilter
    have hmem : event ∈ s.reaped.filter (·.data = i) := by
      rw [hevent]
      exact List.mem_singleton_self _
    obtain ⟨hreported, hid⟩ := List.mem_filter.mp hmem
    have hgood := hsuccessful event (hreaped ▸ hreported)
    have hobj := h.obj event (List.mem_append_right _ hreported)
    simp only [decide_eq_true_eq] at hid
    unfold IoEvent.unsuccessful at hgood
    simp only [ne_eq, Bool.or_eq_false_iff, decide_eq_false_iff_not, not_not] at hgood
    exact ⟨event, hevent, hid ▸ hobj, hgood.1, hgood.2⟩

/-- The steps of the submitting thread along a path. -/
def mainMoves (t : List (State × Action)) : ℕ :=
  t.countP fun move => match move.2 with
    | .main _ => true
    | _ => false

/-- `Run` never gets to its PASS line, is not blocked until it throws, and throws
after at most six steps of its thread. -/
structure Throws (cfg : Config) (t : List (State × Action)) (s : State) : Prop where
  noPass : s.main ≠ .pass
  moves : s.threw = false → ∃ o s', mainStep cfg s o = some s'
  throws : 6 ≤ mainMoves t → s.threw = true

theorem Doomed.throws {cfg : Config} {s s' : State} {t : List (State × Action)} (hs : Doomed s)
    (hpath : Path (system cfg) s t s') : Throws cfg t s' := by
  have hinvariant : Doomed s' ∧
      (s'.threw = true ∨ 0 < s'.main.stepsToThrow ∧ s'.main.stepsToThrow + mainMoves t ≤ 6) := by
    refine hpath.invariant (fun t s' => Doomed s' ∧ (s'.threw = true ∨
      0 < s'.main.stepsToThrow ∧ s'.main.stepsToThrow + mainMoves t ≤ 6)) ⟨hs, ?_⟩ ?_
    · rcases hs.threw_or with hthrew | hpos
      · exact .inl hthrew
      · refine .inr ⟨hpos, ?_⟩
        have hmax : ∀ pc : MainPc, pc.stepsToThrow ≤ 6 := by
          intro pc
          cases pc <;> simp [MainPc.stepsToThrow]
        exact hmax _
    -- a move of `main` brings the exception closer, and no other move takes it further away
    · rintro t s₁ a s₂ - ⟨hdoomed, hclose⟩ hstep
      have hdoomed' := step_doomed hdoomed hstep
      refine ⟨hdoomed', ?_⟩
      cases a with
      | main o =>
          rcases hclose with hthrew | ⟨hpos, hle⟩
          · exact .inl (mainStep_threw hstep hthrew)
          rcases mainStep_stepsToThrow hstep hdoomed.failed hpos with hthrew | hlt
          · exact .inl hthrew
          rcases hdoomed'.threw_or with hthrew | hpos'
          · exact .inl hthrew
          refine .inr ⟨hpos', ?_⟩
          have hmoves : mainMoves (t ++ [(s₁, .main o)]) = mainMoves t + 1 := by
            simp [mainMoves, List.countP_append]
          omega
      | reaper o =>
          have hframe := reaperStep_frame hstep
          have hmoves : mainMoves (t ++ [(s₁, .reaper o)]) = mainMoves t := by
            simp [mainMoves, List.countP_append]
          rwa [hframe.threw, hframe.main, hmoves]
      | kernel k =>
          have hframe := kernelStep_frame hstep
          have hmoves : mainMoves (t ++ [(s₁, .kernel k)]) = mainMoves t := by
            simp [mainMoves, List.countP_append]
          rwa [hframe.threw, hframe.main, hmoves]
  obtain ⟨hdoomed, hclose⟩ := hinvariant
  refine ⟨?_, ?_, ?_⟩
  · intro hpass
    have hbefore := hdoomed.before
    unfold State.passing at hbefore
    rw [hpass] at hbefore
    cases hbefore
  · intro hthrew
    rcases hclose with hthrew' | ⟨hpos, -⟩
    · rw [hthrew] at hthrew'
      cases hthrew'
    · exact exists_mainStep hdoomed.failed hpos
  · intro hmoves
    rcases hclose with hthrew | ⟨hpos, hle⟩
    · exact hthrew
    · omega

/-- **PASS is sound.**  With a kernel that reports completions of accepted requests
only, `Run` is at its PASS line only if every request was accepted once and reaped
once, in full.  With any kernel, when the reap loop takes up an event that is
invalid or unsuccessful while `completed_` is below `count`, `Run` throws. -/
theorem pass_sound (cfg : Config) :
    (cfg.strayEvents = false → ∀ s, Reachable (system cfg) s → s.main = .pass →
      ∀ i < cfg.count, ServedOnce cfg s i) ∧
    (∀ s event batch more s₁, Reachable (system cfg) s →
      s.reaper = .examine (event :: batch) more →
      (s.invalid cfg event = true ∨ event.unsuccessful cfg = true) → s.completed < cfg.count →
      reaperStep cfg s .ok = some s₁ →
      ∀ t s₂, Path (system cfg) s₁ t s₂ → Throws cfg t s₂) := by
  constructor
  · intro hhonest s h hpass i hi
    have hpassing : s.passing = true := by
      unfold State.passing
      rw [hpass]
      rfl
    exact (accounted hhonest h).servedOnce (waited h (State.waited_of_passing hpassing))
      (successful hhonest h hpassing) hi
  · intro s event batch more s₁ h hreaper hbad hbelow hstep t s₂ hpath
    have hframe := reaperStep_frame hstep
    -- fewer have been counted than `main` waits for
    have hbefore : s.passing = false := by
      cases hpassing : s.passing with
      | false => rfl
      | true =>
          have hcount := waited h (State.waited_of_passing hpassing)
          omega
    -- there is a reaper, so `main` has started it
    have hstarted : s.main.beforeSpawn = false := by
      cases hstarted : s.main.beforeSpawn with
      | false => rfl
      | true =>
          have habsent := reaper_absent h hstarted
          rw [hreaper] at habsent
          cases habsent
    -- either check sets `failed`
    have hfailed : s₁.failed = true := by
      unfold reaperStep at hstep
      rw [hreaper] at hstep
      dsimp only at hstep
      split at hstep
      · cases hstep
        rfl
      · rename_i hvalid
        cases hstep
        rcases hbad with hinvalid | hunsuccessful
        · exact absurd hinvalid hvalid
        · simp [hunsuccessful]
    have hdoomed : Doomed s₁ := by
      refine ⟨hfailed, ?_, hframe.main ▸ hstarted⟩
      unfold State.passing at hbefore ⊢
      rwa [hframe.main, hframe.threw]
    exact hdoomed.throws hpath

/-- Both requests complete in full, and `Run` is at its PASS line. -/
def passRun : List Action :=
  pendingRun ++ [.kernel (.notify 0)] ++ reapRun.drop 1 ++
    [.main .ok, .main .ok, .main .ok, .main .ok, .reaper .ok, .main .ok]

/-- The first request fails, and the reap loop is about to take up its event. -/
def failingRun : List Action :=
  startRun ++ submitRun ++ [.kernel (.complete 0 (-5) 0), .kernel (.notify 0)] ++ reapRun.take 4

/-- One run gets to PASS, in another one `Run` throws. -/
theorem pass_sound_twoRequests :
    (∀ i < 2, ServedOnce twoRequests (replay (system twoRequests) passRun) i) ∧
      Throws twoRequests []
        (replay (system twoRequests) (failingRun ++ [.reaper .ok])) := by
  have hpass : (replay (system twoRequests) passRun).main = .pass := by decide
  refine ⟨(pass_sound twoRequests).1 rfl _ (reachable_replay passRun) hpass, ?_⟩
  exact (pass_sound twoRequests).2 (replay (system twoRequests) failingRun)
    ⟨0, 4096, -5, 0⟩ [] false _ (reachable_replay failingRun) (by decide) (.inr (by decide))
    (by decide) rfl [] _ .nil

end SharingProbe.AioPhase
