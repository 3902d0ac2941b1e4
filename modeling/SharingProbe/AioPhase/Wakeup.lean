import SharingProbe.AioPhase.Steps

/-!
# No stranded completion

One read of the eventfd swallows any number of notifications, and the reap loop
stops at a short batch.  What makes this safe is that a batch shorter than the
array empties the ring.  So from that batch on, and until the next read of the
eventfd, an event on the ring whose notification has been given was notified
after the last read, and the counter shows it.
-/

namespace SharingProbe.AioPhase

open Transition

/-- The points between a batch that has emptied the ring and the next read of the
eventfd. -/
def ReaperPc.drained : ReaperPc → Bool
  | absent | loopTest | epollWait | readEventfd => true
  | examine _ more | markDone _ _ more | fetchAdd _ _ more => !more
  | getEvents | exited => false

/-- A notified event on the ring has left the counter positive. -/
def Alert (s : State) : Prop := ∀ p ∈ s.ring, p.notified = true → 0 < s.counter

/-- Whenever the ring was emptied after the last read, the counter is right. -/
def WakesUp (s : State) : Prop := s.reaper.drained = true → Alert s

theorem mainStep_wakesUp {cfg : Config} {s s' : State} {o : Outcome}
    (h : mainStep cfg s o = some s') (hs : WakesUp s)
    (habsent : s.main.beforeSpawn = true → s.reaper = .absent) : WakesUp s' := by
  have hframe := mainStep_frame h
  have halert : Alert s → Alert s' := by
    unfold Alert
    rw [hframe.ring, hframe.counter]
    exact id
  intro hdrained
  apply halert
  apply hs
  rcases hframe.reaper with hsame | ⟨hspawn, -⟩
  · rwa [hsame] at hdrained
  · rw [habsent (by rw [hspawn]; rfl)]
    rfl

theorem reaperStep_wakesUp {cfg : Config} {s s' : State} {o : Outcome}
    (h : reaperStep cfg s o = some s') (hs : WakesUp s) : WakesUp s' := by
  unfold reaperStep at h
  simp only [State.giveUp] at h
  split at h
  case h_9 =>
    -- a batch: either it is short and the ring is empty, or the loop asks again
    rename_i hreaper
    cases h
    intro hdrained p hp
    have hshort : ¬ (s.ring.take batchSize).length = batchSize := by
      simpa [ReaperPc.drained] using hdrained
    have hempty : s.ring.drop batchSize = [] := by
      rw [List.length_take] at hshort
      rw [List.drop_eq_nil_iff]
      omega
    rw [hempty] at hp
    cases hp
  all_goals repeat' split at h
  all_goals cases h
  all_goals intro hdrained
  -- the other steps leave the drained points or leave ring and counter alone
  all_goals first
    | (refine hs ?_; simp_all [ReaperPc.drained])
    | simp [ReaperPc.drained] at hdrained

theorem kernelStep_wakesUp {cfg : Config} {s s' : State} {k : KernelMove}
    (h : kernelStep cfg s k = some s') (hs : WakesUp s) : WakesUp s' := by
  intro hdrained p hp hnotified
  rw [(kernelStep_frame h).reaper] at hdrained
  have halert := hs hdrained
  unfold kernelStep at h
  cases k with
  | complete i res res2 =>
      dsimp only at h
      split at h
      · cases h
        rcases List.mem_append.mp hp with hmem | hmem
        · exact halert p hmem hnotified
        · rw [List.mem_singleton] at hmem
          rw [hmem] at hnotified
          cases hnotified
      · cases h
  | stray event =>
      dsimp only at h
      split at h
      · cases h
        rcases List.mem_append.mp hp with hmem | hmem
        · exact halert p hmem hnotified
        · rw [List.mem_singleton] at hmem
          rw [hmem] at hnotified
          cases hnotified
      · cases h
  | notify k =>
      dsimp only at h
      split at h
      · cases h
        exact Nat.succ_pos _
      · cases h
  | notifyReaped =>
      dsimp only at h
      split at h
      · cases h
        exact Nat.succ_pos _
      · cases h

theorem wakesUp {cfg : Config} {s : State} (h : Reachable (system cfg) s) : WakesUp s := by
  refine h.invariant WakesUp (fun _ p hp => ?_) ?_
  · cases hp
  intro s a s' hreachable hs hstep
  cases a with
  | main o => exact mainStep_wakesUp hstep hs (reaper_absent hreachable)
  | reaper o => exact reaperStep_wakesUp hstep hs
  | kernel k => exact kernelStep_wakesUp hstep hs

/-- The completion thread can leave `epoll_wait` with a notification. -/
def CanWake (cfg : Config) (s : State) : Prop := ∃ s', reaperStep cfg s .ok = some s'

/-- **No stranded completion.**  When the completion thread is at its `epoll_wait`
and events are on the ring, the eventfd counter is positive or the increment for
one of these events is still to come.  Either way it is going to be woken: now, or
by that increment. -/
theorem completion_not_stranded {cfg : Config} {s : State} (h : Reachable (system cfg) s)
    (hwaiting : s.reaper = .epollWait) (hring : s.ring ≠ []) :
    (0 < s.counter ∨ ∃ p ∈ s.ring, p.notified = false) ∧
      (CanWake cfg s ∨ ∃ k s', kernelStep cfg s (.notify k) = some s' ∧ CanWake cfg s') := by
  have halert : Alert s := wakesUp h (by rw [hwaiting]; rfl)
  have hwake : ∀ s' : State, s'.reaper = .epollWait → 0 < s'.counter → CanWake cfg s' := by
    intro s' hreaper hcounter
    refine ⟨{ s' with reaper := .readEventfd }, ?_⟩
    unfold reaperStep
    rw [hreaper]
    exact if_pos hcounter
  by_cases hcounter : 0 < s.counter
  · exact ⟨.inl hcounter, .inl (hwake s hwaiting hcounter)⟩
  obtain ⟨p, ring, hp⟩ := List.exists_cons_of_ne_nil hring
  have hpending : p.notified = false := by
    cases hnotified : p.notified with
    | false => rfl
    | true => exact absurd (halert p (by simp [hp]) hnotified) hcounter
  refine ⟨.inr ⟨p, by simp [hp], hpending⟩, .inr ⟨0, ?_⟩⟩
  obtain ⟨event, notified⟩ := p
  cases hpending
  refine ⟨{ s with ring := s.ring.set 0 ⟨event, true⟩, counter := s.counter + 1 }, ?_,
    hwake _ hwaiting (Nat.succ_pos _)⟩
  unfold kernelStep
  rw [hp]
  rfl

/-- The completion thread is back at `epoll_wait` while the second of two
completions is on the ring and not yet notified. -/
theorem completion_not_stranded_pending :
    (replay (system twoRequests) pendingRun).ring ≠ [] ∧
      (CanWake twoRequests (replay (system twoRequests) pendingRun) ∨
        ∃ k s', kernelStep twoRequests (replay (system twoRequests) pendingRun)
        (.notify k) = some s' ∧
          CanWake twoRequests s') := by
  have hring : (replay (system twoRequests) pendingRun).ring ≠ [] := by decide
  have hwaiting : (replay (system twoRequests) pendingRun).reaper = .epollWait := by decide
  exact ⟨hring, (completion_not_stranded (reachable_replay _) hwaiting hring).2⟩

end SharingProbe.AioPhase
