import Mathlib.Data.List.Range
import Mathlib.Data.List.Perm.Basic
import SharingProbe.AioPhase.Steps

/-!
# Where every accepted request is

With a kernel that reports only completions of accepted requests, each of these
requests is in exactly one place: in flight, on the ring, or reaped, and the reaped
ones are counted or still in the hands of the completion thread.  The rest of the
invariant says that the events are genuine, that `done` marks only what was
reaped, and that as long as `failed_` is unset everything judged so far was
transferred in full.
-/

namespace SharingProbe.AioPhase

open Transition

/-- The event that is judged and marked but not yet counted. -/
def ReaperPc.judged : ReaperPc → List IoEvent
  | markDone event _ _ | fetchAdd event _ _ => [event]
  | _ => []

/-- The event whose request is marked as done but not yet counted. -/
def ReaperPc.marked : ReaperPc → List IoEvent
  | fetchAdd event _ _ => [event]
  | _ => []

theorem empty_of_pending_nil {pc : ReaperPc} (h : pc.pending = []) :
    pc.judged = [] ∧ pc.marked = [] := by
  cases pc with
  | markDone event batch more => cases h
  | fetchAdd event batch more => cases h
  | _ => exact ⟨rfl, rfl⟩

/-- The events that have been reported. -/
def State.reported (s : State) : List IoEvent := s.ring.map Posted.event ++ s.reaped

/-- Every accepted request is accounted for. -/
structure Accounted (cfg : Config) (s : State) : Prop where
  completed : s.completed = s.counted.length
  reaped : s.reaped = s.counted ++ s.reaper.pending
  requests : (s.inFlight ++ s.reported.map IoEvent.data).Perm s.accepted
  order : s.accepted = List.range s.accepted.length
  submitted : s.accepted.length = s.submitted + if s.main = .increment then 1 else 0
  limit : s.submitted ≤ cfg.count
  submitting : s.main.submitting = true → s.submitted < cfg.count
  obj : ∀ event ∈ s.reported, event.obj = cfg.cbAddr event.data
  done : ∀ i, s.done i = true → i ∈ (s.counted ++ s.reaper.marked).map IoEvent.data
  successful : s.failed = false → ∀ event ∈ s.counted ++ s.reaper.judged,
    event.unsuccessful cfg = false

section Consequences

variable {cfg : Config} {s : State}

theorem Accounted.accepted_le (h : Accounted cfg s) : s.accepted.length ≤ cfg.count := by
  have hsubmitted := h.submitted
  have hlimit := h.limit
  by_cases hmain : s.main = .increment
  · have hlt := h.submitting (by rw [hmain]; rfl)
    rw [if_pos hmain] at hsubmitted
    omega
  · rw [if_neg hmain] at hsubmitted
    omega

theorem Accounted.completed_le (h : Accounted cfg s) : s.completed ≤ s.accepted.length := by
  have hlength := h.requests.length_eq
  simp only [State.reported, h.reaped, List.length_append, List.length_map] at hlength
  rw [h.completed]
  omega

theorem Accounted.nodup (h : Accounted cfg s) :
    (s.inFlight ++ s.reported.map IoEvent.data).Nodup := by
  refine h.requests.symm.nodup ?_
  rw [h.order]
  exact List.nodup_range

theorem Accounted.reported_lt (h : Accounted cfg s) {event : IoEvent}
    (hevent : event ∈ s.reported) : event.data < s.accepted.length := by
  have hmem : event.data ∈ s.accepted :=
    h.requests.subset (List.mem_append_right _ (List.mem_map_of_mem hevent))
  rw [h.order] at hmem
  exact List.mem_range.mp hmem

/-- The completion thread never meets an event that it rejects. -/
theorem Accounted.valid (h : Accounted cfg s) (hsized : Sized cfg s) {event : IoEvent}
    {batch : List IoEvent} {more : Bool} (hreaper : s.reaper = .examine (event :: batch) more) :
    s.invalid cfg event = false := by
  have hreaped := h.reaped
  rw [hreaper] at hreaped
  have hmem : event ∈ s.reported := by
    unfold State.reported
    rw [hreaped]
    simp [ReaperPc.pending]
  have hsize : s.size = cfg.count := hsized.running (by rw [hreaper]; simp)
  have hlt := h.reported_lt hmem
  have hle := h.accepted_le
  have hdone : s.done event.data = false := by
    cases hmarked : s.done event.data with
    | false => rfl
    | true =>
        -- a second event for the same request would be a second place for it
        have hcounted := h.done _ hmarked
        rw [hreaper] at hcounted
        have hnodup := h.nodup
        unfold State.reported at hnodup
        rw [hreaped, List.map_append, List.map_append] at hnodup
        have htail := (List.nodup_append.mp (List.nodup_append.mp
          (List.nodup_append.mp hnodup).2.1).2.1).2.2
        simp only [ReaperPc.marked, List.append_nil] at hcounted
        exact absurd rfl (htail _ hcounted _ (by simp [ReaperPc.pending]))
  unfold State.invalid
  simp only [hdone, h.obj event hmem, ne_eq, not_true_eq_false, decide_false, Bool.or_false,
    decide_eq_false_iff_not, ge_iff_le, not_le]
  omega

end Consequences

/-! ## The steps -/

theorem accounted_init (cfg : Config) : Accounted cfg {} where
  completed := rfl
  reaped := rfl
  requests := .refl _
  order := rfl
  submitted := rfl
  limit := Nat.zero_le _
  submitting := by simp [MainPc.submitting]
  obj := by simp [State.reported]
  done := by simp
  successful := by simp [ReaperPc.judged]

theorem mainStep_accounted {cfg : Config} {s s' : State} {o : Outcome}
    (h : mainStep cfg s o = some s') (hs : Accounted cfg s)
    (habsent : s.main.beforeSpawn = true → s.reaper = .absent) : Accounted cfg s' := by
  have hframe := mainStep_frame h
  have hreported : s'.reported = s.reported := by
    unfold State.reported
    rw [hframe.ring, hframe.reaped]
  -- the thread may start, without an event in hand
  have hreaper : s'.reaper.pending = s.reaper.pending ∧ s'.reaper.judged = s.reaper.judged ∧
      s'.reaper.marked = s.reaper.marked := by
    rcases hframe.reaper with hsame | ⟨hspawn, hstarted⟩
    · rw [hsame]
      exact ⟨rfl, rfl, rfl⟩
    · rw [hstarted, habsent (by rw [hspawn]; rfl)]
      exact ⟨rfl, rfl, rfl⟩
  have hcompleted : s'.completed = s'.counted.length := by
    rw [hframe.completed, hframe.counted, hs.completed]
  have hreaped : s'.reaped = s'.counted ++ s'.reaper.pending := by
    rw [hframe.reaped, hframe.counted, hreaper.1, hs.reaped]
  have hobj : ∀ event ∈ s'.reported, event.obj = cfg.cbAddr event.data := by
    rw [hreported]
    exact hs.obj
  have hdone : ∀ i, s'.done i = true → i ∈ (s'.counted ++ s'.reaper.marked).map IoEvent.data := by
    rw [hframe.done, hframe.counted, hreaper.2.2]
    exact hs.done
  have hsuccessful : s'.failed = false → ∀ event ∈ s'.counted ++ s'.reaper.judged,
      event.unsuccessful cfg = false := by
    rw [hframe.failed, hframe.counted, hreaper.2.1]
    exact hs.successful
  have hsubmitted := hs.submitted
  have hlimit := hs.limit
  cases mainStep_submits h with
  | accept hmain hmain' hinFlight haccepted hsame =>
      -- the request goes from `main` into the flight
      have hlt := hs.submitting (by rw [hmain]; rfl)
      rw [hmain] at hsubmitted
      have hlength : s.accepted.length = s.submitted := by simpa using hsubmitted
      refine ⟨hcompleted, hreaped, ?_, ?_, ?_, ?_, ?_, hobj, hdone, hsuccessful⟩
      · rw [hinFlight, haccepted, hreported, List.append_assoc]
        refine List.Perm.trans ?_ (hs.requests.append_right [s.submitted])
        rw [List.append_assoc]
        exact List.perm_append_comm.append_left _
      · rw [haccepted, List.length_append, List.length_singleton, List.range_succ, ← hs.order,
          hlength]
      · rw [haccepted, hsame, hmain', List.length_append, hlength]
        rfl
      · rw [hsame]
        exact hlimit
      · rw [hsame]
        exact fun _ => hlt
  | increment hmain hmain' hinFlight haccepted hsame =>
      -- it is counted after it has been accepted
      have hlt := hs.submitting (by rw [hmain]; rfl)
      rw [if_pos hmain] at hsubmitted
      refine ⟨hcompleted, hreaped, ?_, ?_, ?_, ?_, ?_, hobj, hdone, hsuccessful⟩
      · rw [hinFlight, haccepted, hreported]
        exact hs.requests
      · rw [haccepted]
        exact hs.order
      · rw [haccepted, hsame, hmain', hsubmitted]
        rfl
      · rw [hsame]
        exact hlt
      · rw [hmain']
        exact nofun
  | neither hmain hmain' hinFlight haccepted hsame hsubmitting =>
      rw [if_neg hmain] at hsubmitted
      refine ⟨hcompleted, hreaped, ?_, ?_, ?_, ?_, ?_, hobj, hdone, hsuccessful⟩
      · rw [hinFlight, haccepted, hreported]
        exact hs.requests
      · rw [haccepted]
        exact hs.order
      · rw [haccepted, hsame, if_neg hmain', hsubmitted]
      · rw [hsame]
        exact hlimit
      · intro h
        rw [hsame]
        rcases hsubmitting h with hbefore | hlt
        · exact hs.submitting hbefore
        · exact hlt

theorem reaperStep_accounted {cfg : Config} {s s' : State} {o : Outcome}
    (h : reaperStep cfg s o = some s') (hs : Accounted cfg s) (hsized : Sized cfg s) :
    Accounted cfg s' := by
  have hreaped := hs.reaped
  have hdone := hs.done
  have hsuccessful := hs.successful
  -- without an event in hand the move only changes the program point
  have hidle : ∀ pc : ReaperPc, s.reaper.pending = [] → pc.pending = [] →
      s.reaped = s.counted ++ pc.pending ∧
        (∀ i, s.done i = true → i ∈ (s.counted ++ pc.marked).map IoEvent.data) ∧
        (s.failed = false → ∀ event ∈ s.counted ++ pc.judged, event.unsuccessful cfg = false) := by
    intro pc hfrom hto
    rw [hfrom] at hreaped
    rw [(empty_of_pending_nil hfrom).2] at hdone
    rw [(empty_of_pending_nil hfrom).1] at hsuccessful
    rw [hto, (empty_of_pending_nil hto).1, (empty_of_pending_nil hto).2]
    exact ⟨hreaped, hdone, hsuccessful⟩
  obtain ⟨-, hreaps⟩ := reaperStep_reaps h
  cases hreaps with
  | walk pc hfrom hto hpc =>
      obtain ⟨hreaped', hdone', hsuccessful'⟩ := hidle pc hfrom hto
      exact ⟨hs.completed, hreaped', hs.requests, hs.order, hs.submitted, hs.limit, hs.submitting,
        hs.obj, hdone', hsuccessful'⟩
  | giveUp hfrom =>
      obtain ⟨hreaped', hdone', -⟩ := hidle .exited hfrom rfl
      exact ⟨hs.completed, hreaped', hs.requests, hs.order, hs.submitted, hs.limit, hs.submitting,
        hs.obj, hdone', nofun⟩
  | read hreaper hcounter =>
      obtain ⟨hreaped', hdone', hsuccessful'⟩ := hidle .getEvents (by rw [hreaper]; rfl) rfl
      exact ⟨hs.completed, hreaped', hs.requests, hs.order, hs.submitted, hs.limit, hs.submitting,
        hs.obj, hdone', hsuccessful'⟩
  | take hreaper =>
      rw [hreaper] at hreaped hdone hsuccessful
      -- a batch is taken from the front of the ring
      have hsplit : s.ring.map Posted.event =
          (s.ring.take batchSize).map Posted.event ++ (s.ring.drop batchSize).map Posted.event := by
        rw [← List.map_append, List.take_append_drop]
      have hreported : ((s.ring.drop batchSize).map Posted.event ++
          (s.reaped ++ (s.ring.take batchSize).map Posted.event)).Perm s.reported := by
        unfold State.reported
        rw [hsplit]
        refine List.perm_append_comm.trans ?_
        rw [List.append_assoc]
        exact List.perm_append_comm
      refine ⟨hs.completed, ?_, ?_, hs.order, hs.submitted, hs.limit, hs.submitting, ?_, hdone,
        hsuccessful⟩
      · show s.reaped ++ _ = s.counted ++ _
        rw [hreaped]
        simp [ReaperPc.pending]
      · exact ((hreported.map IoEvent.data).append_left s.inFlight).trans hs.requests
      · exact fun event hevent => hs.obj event (hreported.subset hevent)
  | reject event batch more hreaper hinvalid =>
      -- only events of accepted requests arrive, and these are valid
      rw [hs.valid hsized hreaper] at hinvalid
      cases hinvalid
  | judge event batch more hreaper hvalid =>
      rw [hreaper] at hreaped hdone hsuccessful
      refine ⟨hs.completed, hreaped, hs.requests, hs.order, hs.submitted, hs.limit, hs.submitting,
        hs.obj, hdone, ?_⟩
      intro hfailed judged hjudged
      obtain ⟨hfailed, hthis⟩ : s.failed = false ∧ event.unsuccessful cfg = false := by
        simpa using hfailed
      rcases List.mem_append.mp hjudged with hcounted | hhere
      · exact hsuccessful hfailed judged (List.mem_append_left _ hcounted)
      · rw [List.mem_singleton.mp hhere]
        exact hthis
  | mark event batch more hreaper =>
      rw [hreaper] at hreaped hdone hsuccessful
      refine ⟨hs.completed, hreaped, hs.requests, hs.order, hs.submitted, hs.limit, hs.submitting,
        hs.obj, ?_, hsuccessful⟩
      intro i hi
      by_cases hthis : i = event.data
      · simp [hthis, ReaperPc.marked]
      · have hbefore := hdone i (by simpa [setAt, hthis] using hi)
        simp only [ReaperPc.marked, List.append_nil] at hbefore
        rw [List.map_append]
        exact List.mem_append_left _ hbefore
  | count event batch more hreaper =>
      rw [hreaper] at hreaped hdone hsuccessful
      refine ⟨?_, ?_, hs.requests, hs.order, hs.submitted, hs.limit, hs.submitting, hs.obj, ?_, ?_⟩
      · simp [hs.completed]
      · simpa [ReaperPc.pending] using hreaped
      · simpa [ReaperPc.marked] using hdone
      · simpa [ReaperPc.judged] using hsuccessful

/-- Notifying an event does not change it. -/
theorem map_event_set {ring : List Posted} {k : ℕ} {event : IoEvent}
    (hat : ring[k]? = some ⟨event, false⟩) :
    (ring.set k ⟨event, true⟩).map Posted.event = ring.map Posted.event := by
  obtain ⟨hlt, hget⟩ := List.getElem?_eq_some_iff.mp hat
  have hlt' : k < (ring.map Posted.event).length := by simpa using hlt
  have hevent : (ring.map Posted.event)[k] = event := by simp [hget]
  calc (ring.set k ⟨event, true⟩).map Posted.event
      = (ring.map Posted.event).set k (ring.map Posted.event)[k] := by rw [List.map_set, hevent]
    _ = ring.map Posted.event := List.set_getElem_self hlt'

theorem kernelStep_accounted {cfg : Config} {s s' : State} {k : KernelMove}
    (h : kernelStep cfg s k = some s') (hs : Accounted cfg s) (hhonest : cfg.strayEvents = false) :
    Accounted cfg s' := by
  cases k with
  | complete i res res2 =>
      unfold kernelStep at h
      dsimp only at h
      split at h
      · rename_i hmem
        cases h
        refine ⟨hs.completed, hs.reaped, ?_, hs.order, hs.submitted, hs.limit, hs.submitting, ?_,
          hs.done, hs.successful⟩
        -- a completion goes from the flight into the ring
        · refine List.Perm.trans ?_ hs.requests
          simp only [State.reported, List.map_append, List.map_cons, List.map_nil,
            List.append_assoc]
          have hmove := (List.perm_cons_erase hmem).symm
          refine List.Perm.trans ?_ (hmove.append_right _)
          rw [List.cons_append, ← List.append_assoc]
          refine List.perm_middle.trans ?_
          rw [List.append_assoc]
          exact .refl _
        · intro event hevent
          simp only [State.reported, List.map_append, List.map_cons, List.map_nil, List.mem_append,
            List.mem_singleton] at hevent
          rcases hevent with (hring | rfl) | hreaped
          · exact hs.obj event (List.mem_append_left _ hring)
          · rfl
          · exact hs.obj event (List.mem_append_right _ hreaped)
      · cases h
  | stray event =>
      unfold kernelStep at h
      simp [hhonest] at h
  | notify k =>
      unfold kernelStep at h
      dsimp only at h
      split at h
      · rename_i event hat
        cases h
        have hreported : (s.ring.set k ⟨event, true⟩).map Posted.event ++ s.reaped =
          s.reported := by
          unfold State.reported
          rw [map_event_set hat]
        refine ⟨hs.completed, hs.reaped, ?_, hs.order, hs.submitted, hs.limit, hs.submitting, ?_,
          hs.done, hs.successful⟩
        · show (s.inFlight ++ ((s.ring.set k ⟨event, true⟩).map Posted.event ++ s.reaped).map
            IoEvent.data).Perm s.accepted
          rw [hreported]
          exact hs.requests
        · show ∀ other ∈ (s.ring.set k ⟨event, true⟩).map Posted.event ++ s.reaped, _
          rw [hreported]
          exact hs.obj
      · cases h
  | notifyReaped =>
      unfold kernelStep at h
      dsimp only at h
      split at h
      · cases h
        exact ⟨hs.completed, hs.reaped, hs.requests, hs.order, hs.submitted, hs.limit,
          hs.submitting, hs.obj, hs.done, hs.successful⟩
      · cases h

theorem accounted {cfg : Config} {s : State} (hhonest : cfg.strayEvents = false)
    (h : Reachable (system cfg) s) : Accounted cfg s := by
  refine h.invariant (Accounted cfg) (accounted_init cfg) ?_
  intro s a s' hreachable hs hstep
  cases a with
  | main o => exact mainStep_accounted hstep hs (reaper_absent hreachable)
  | reaper o => exact reaperStep_accounted hstep hs (sized hreachable)
  | kernel k => exact kernelStep_accounted hstep hs hhonest

end SharingProbe.AioPhase
