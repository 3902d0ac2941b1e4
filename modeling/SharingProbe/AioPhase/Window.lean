import SharingProbe.AioPhase.Accounting

/-!
# The submission window

`submitted` is incremented after `io_submit` returns, and the request may be
reaped and counted in between, so `completed_` can be ahead of `submitted`.  At the
window test it is not: there every accepted request has been counted as submitted.
The difference is then exact, and what the test leaves room for is still there when
`io_submit` accepts, since `completed_` only grows.
-/

namespace SharingProbe.AioPhase

open Transition

/-- At most `depth` requests are accepted and not counted, and `io_submit` is
reached only with room for one more. -/
structure Windowed (cfg : Config) (s : State) : Prop where
  room : s.accepted.length ≤ s.completed + cfg.depth
  next : s.main = .ioSubmit → s.submitted < s.completed + cfg.depth

theorem sizeSub_eq {a b : ℕ} (hle : b ≤ a) (hlt : a < 2 ^ 64) : sizeSub a b = a - b := by
  unfold sizeSub
  omega

theorem Accounted.accepted_length {cfg : Config} {s : State} (h : Accounted cfg s)
    (hmain : s.main ≠ .increment) : s.accepted.length = s.submitted := by
  have hsubmitted := h.submitted
  rwa [if_neg hmain] at hsubmitted

theorem mainStep_to_ioSubmit {cfg : Config} {s s' : State} {o : Outcome}
    (h : mainStep cfg s o = some s') (hmain : s'.main = .ioSubmit) :
    s.main = .window ∧ sizeSub s.submitted s.completed < cfg.depth ∧
      s'.submitted = s.submitted := by
  unfold mainStep at h
  simp only [cleanup_eq, State.throw] at h
  split at h
  case h_17 purpose _ =>
    split at h
    · cases h
    · cases h
      cases purpose <;> cases hmain
  case h_20 =>
    cases h
    by_cases hfull : sizeSub s.submitted s.completed ≥ cfg.depth
    · simp [hfull] at hmain
    · exact ⟨by assumption, not_le.mp hfull, rfl⟩
  all_goals repeat' split at h
  all_goals cases h
  all_goals simp_all

theorem mainStep_windowed {cfg : Config} {s s' : State} {o : Outcome}
    (h : mainStep cfg s o = some s') (hs : Windowed cfg s) (haccounted : Accounted cfg s) :
    Windowed cfg s' := by
  have hcompleted := (mainStep_frame h).completed
  have hroom := hs.room
  constructor
  · rw [hcompleted]
    cases mainStep_submits h with
    | accept hmain hmain' hinFlight haccepted hsame =>
        have hlt := hs.next hmain
        have hlength := haccounted.accepted_length (by rw [hmain]; simp)
        rw [haccepted, List.length_append, List.length_singleton, hlength]
        omega
    | increment hmain hmain' hinFlight haccepted hsame => rw [haccepted]; exact hroom
    | neither hmain hmain' hinFlight haccepted hsame hsubmitting => rw [haccepted]; exact hroom
  · intro hmain'
    obtain ⟨hmain, htest, hsame⟩ := mainStep_to_ioSubmit h hmain'
    -- at the test nothing is accepted that is not counted as submitted
    have hlength := haccounted.accepted_length (by rw [hmain]; simp)
    have hle : s.completed ≤ s.submitted := hlength ▸ haccounted.completed_le
    have hlt : s.submitted < 2 ^ 64 := haccounted.limit.trans_lt cfg.count_lt
    rw [sizeSub_eq hle hlt] at htest
    rw [hcompleted, hsame]
    omega

theorem windowed {cfg : Config} {s : State} (hhonest : cfg.strayEvents = false)
    (h : Reachable (system cfg) s) : Windowed cfg s := by
  refine h.invariant (Windowed cfg) ⟨Nat.zero_le _, nofun⟩ ?_
  intro s a s' hreachable hs hstep
  cases a with
  | main o => exact mainStep_windowed hstep hs (accounted hhonest hreachable)
  | reaper o =>
      have hframe := reaperStep_frame hstep
      have hgrows := hframe.completed
      constructor
      · rw [hframe.accepted]
        exact hs.room.trans (by omega)
      · rw [hframe.main, hframe.submitted]
        exact fun hmain => (hs.next hmain).trans_le (by omega)
  | kernel k =>
      have hframe := kernelStep_frame hstep
      constructor
      · rw [hframe.accepted, hframe.completed]
        exact hs.room
      · rw [hframe.main, hframe.submitted, hframe.completed]
        exact hs.next

/-- **The submission window.**  Never more than `depth` accepted requests are not
yet counted in `completed_`; the unsigned difference of the window test does not
wrap; and the requests are accepted in index order, each at most once. -/
theorem window_respected {cfg : Config} {s : State} (hhonest : cfg.strayEvents = false)
    (h : Reachable (system cfg) s) :
    s.completed ≤ s.accepted.length ∧ s.accepted.length - s.completed ≤ cfg.depth ∧
      (s.main = .window →
        s.completed ≤ s.submitted ∧ sizeSub s.submitted s.completed = s.submitted - s.completed) ∧
      s.accepted = List.range s.accepted.length ∧ s.accepted.length ≤ cfg.count := by
  have haccounted := accounted hhonest h
  have hroom := (windowed hhonest h).room
  refine ⟨haccounted.completed_le, by omega, fun hmain => ?_, haccounted.order,
    haccounted.accepted_le⟩
  have hlength := haccounted.accepted_length (by rw [hmain]; simp)
  have hle : s.completed ≤ s.submitted := hlength ▸ haccounted.completed_le
  exact ⟨hle, sizeSub_eq hle (haccounted.limit.trans_lt cfg.count_lt)⟩

/-- A request that is counted before `submitted` is incremented. -/
def earlyRun : List Action :=
  startRun ++ [.main .ok, .main .ok, .main .ok, .main .ok, .kernel (.complete 0 512 0),
    .kernel (.notify 0)] ++ reapRun

/-- `completed_` is ahead of `submitted`, and the window holds. -/
theorem window_respected_early :
    (replay (system twoRequests) earlyRun).submitted <
        (replay (system twoRequests) earlyRun).completed ∧
      (replay (system twoRequests) earlyRun).accepted.length -
        (replay (system twoRequests) earlyRun).completed ≤ twoRequests.depth :=
  ⟨by decide, (window_respected rfl (reachable_replay earlyRun)).2.1⟩

end SharingProbe.AioPhase
