import SharingProbe.AioPhase.Lifetime
import SharingProbe.HalAio.Psync

/-!
# The AIO engine

The requests of a phase move their slots in any order, and more than one may be under
way.  What has been moved are the slots of the completions in full that are on the
ring or have been reaped.  A request in flight moves none of these bytes, because it
has not been reported yet.
-/

namespace SharingProbe.HalAio

open Interaction Evolution Storage

section Phase

open AioPhase

variable {opt : Options} {hopt : opt.Valid} {paths : List String} {hpaths : opt.Distinct paths}
  {buffer : Ptr} {dump : Bool} {w₀ : Disk} {C : Call → Disk → Prop} {I : Set ℕ → LoggedDisk → Prop}
  {cbAddr : ℕ → ℕ}

/-- The bytes of the requests that have completed in full. -/
def arrived (opt : Options) (s : AioPhase.State) : Set ℕ :=
  {o | ∃ event ∈ s.reported, (event.res = opt.slotBytes ∧ event.res2 = 0) ∧
    event.data * opt.slotBytes ≤ o ∧ o < event.data * opt.slotBytes + opt.slotBytes}

/-- The world at a state of the phase: the descriptors of the requests are open, each
refers to the file of its block, and no two are the same. -/
structure InPhase (opt : Options) (paths : List String) (I : Set ℕ → LoggedDisk → Prop)
    (s : AioPhase.State) (x : LoggedDisk) : Prop where
  carried : I (arrived opt s) x
  refers : ∀ i fd, s.fds i = some fd →
    i < opt.blocks * opt.shards ∧ Refers paths (i / opt.shards) fd x.1
  single : ∀ i j fd, s.fds i = some fd → s.fds j = some fd → i = j

theorem arrived_congr {s s' : AioPhase.State}
    (h : ∀ event, event ∈ s'.reported ↔ event ∈ s.reported) :
    arrived opt s' = arrived opt s := by
  unfold arrived
  simp only [h]

/-- The transfer of an open request goes where the layout says. -/
theorem InPhase.aims {s : AioPhase.State} {x : LoggedDisk} {i : ℕ} {t : Transfer}
    (hopt : opt.Valid) (hpaths : opt.Distinct paths) (h : InPhase opt paths I s x)
    (ht : t ∈ PhaseCall.transfer ⟨opt, paths, buffer, dump⟩ s i) :
    (opt.layout hopt paths hpaths).Aims buffer t (i * opt.slotBytes) ∧ t.toFile = dump ∧
      t.bytes = opt.slotBytes ∧ x.1.desc t.desc =
        x.1.entry ((opt.layout hopt paths hpaths).name
          (i * opt.slotBytes / (opt.layout hopt paths hpaths).length)) := by
  obtain ⟨fd, hfd, rfl⟩ := Option.map_eq_some_iff.mp ht
  obtain ⟨hi, hrefers⟩ := h.refers i fd hfd
  obtain ⟨haims, hfile⟩ := request_aims hopt hpaths buffer dump fd hi
  refine ⟨haims, rfl, rfl, ?_⟩
  show x.1.desc fd = x.1.entry (paths.getD (i * opt.slotBytes / opt.blockBytes) "")
  rw [hfile]
  exact hrefers.2

/-- A request in flight moves none of the bytes that have arrived. -/
theorem not_covers_of_inFlight {cfg : Config} {s : AioPhase.State} {i : ℕ} {t : Transfer}
    (haccounted : Accounted cfg s) (hi : i ∈ s.inFlight) (hbytes : t.bytes = opt.slotBytes) :
    ∀ o ∈ arrived opt s, ¬Layout.Covers t (i * opt.slotBytes) o := by
  rintro o ⟨event, hevent, -, hle, hlt⟩ ⟨hle', hlt'⟩
  have hne : i ≠ event.data :=
    (List.nodup_append.mp haccounted.nodup).2.2 i hi _ (List.mem_map_of_mem hevent)
  rw [hbytes] at hlt'
  rcases Nat.lt_or_gt_of_ne hne with hbelow | habove
  · have hnext : (i + 1) * opt.slotBytes ≤ event.data * opt.slotBytes :=
      Nat.mul_le_mul_right _ hbelow
    rw [Nat.add_mul, Nat.one_mul] at hnext
    omega
  · have hnext : (event.data + 1) * opt.slotBytes ≤ i * opt.slotBytes :=
      Nat.mul_le_mul_right _ habove
    rw [Nat.add_mul, Nat.one_mul] at hnext
    omega

/-- Requests in flight make progress. -/
theorem InPhase.progress {cfg : Config} {s : AioPhase.State} {w w' : Disk} {log : Set Triple}
    (hcarries : Carries (opt.layout hopt paths hpaths) buffer dump I) (haccounted : Accounted cfg s)
    (h : InPhase opt paths I s (w, log))
    (hprogress : PhaseCall.Progress ⟨opt, paths, buffer, dump⟩ s w w') :
    InPhase opt paths I s (w', log) := by
  obtain ⟨i, hi, t, ht, file, hbegun⟩ := hprogress
  obtain ⟨haims, hfile, hbytes, hdesc⟩ := h.aims hopt hpaths ht
  refine ⟨?_, fun i fd hfd => ⟨(h.refers i fd hfd).1, (h.refers i fd hfd).2.of_begun hbegun⟩,
    h.single⟩
  exact hcarries.begun h.carried haims hfile hdesc
    (not_covers_of_inFlight haccounted hi hbytes) hbegun

theorem InPhase.progresses {cfg : Config} {s : AioPhase.State} {w w' : Disk} {log : Set Triple}
    (hcarries : Carries (opt.layout hopt paths hpaths) buffer dump I) (haccounted : Accounted cfg s)
    (h : InPhase opt paths I s (w, log))
    (hprogress : Relation.ReflTransGen (PhaseCall.Progress ⟨opt, paths, buffer, dump⟩ s) w w') :
    InPhase opt paths I s (w', log) ∧ w'.entry = w.entry ∧ w'.desc = w.desc := by
  induction hprogress with
  | refl => exact ⟨h, rfl, rfl⟩
  | tail _ hstep ih =>
      obtain ⟨hin, hentry, hdesc⟩ := ih
      obtain ⟨i, hi, t, ht, file, hbegun⟩ := id hstep
      exact ⟨hin.progress hcarries haccounted hstep, hbegun.entry.trans hentry,
        hbegun.desc.trans hdesc⟩

/-- What a step of the submitting thread does to the descriptors of the requests. -/
inductive Handles (io : PhaseCall) (s s' : AioPhase.State) (w w' : Disk) : Prop
  | opens (i fd : ℕ) (hi : i < sizeT (io.opt.blocks * io.opt.shards))
      (hfds : s'.fds = setAt s.fds i (some fd))
      (hopens : w.Opens io.dump (io.opt.requestPath io.paths i) fd w')
  | openFails (i : ℕ) (hi : i < sizeT (io.opt.blocks * io.opt.shards)) (hfds : s'.fds = s.fds)
      (hfails : w.OpenFails io.dump (io.opt.requestPath io.paths i) w')
  | closes (i : ℕ) (hfds : s'.fds = setAt s.fds i none)
      (hcloses : w' = ((s.fds i).map w.close).getD w)
  | neither (hfds : s'.fds = s.fds) (hsame : w' = w)

theorem mainStep_handles {io : PhaseCall} {s s' : AioPhase.State} {o : Outcome} {w w' : Disk}
    (h : mainStep (io.opt.config cbAddr) s o = some s')
    (heffect : io.StepEffect (s, .main o) w w') : Handles io s s' w w' := by
  unfold mainStep at h
  simp only [cleanup_eq, AioPhase.State.throw] at h
  unfold PhaseCall.StepEffect at heffect
  split at h
  all_goals repeat' split at h
  all_goals cases h
  all_goals simp_all only [Options.config]
  all_goals first
    | exact .neither rfl rfl
    | exact .opens _ _ ‹_› rfl heffect
    | exact .openFails _ ‹_› rfl heffect
    | exact .closes _ rfl rfl
    | skip
  -- a call of the destructor, which reports success or a failure
  rename_i hcall
  rcases hcall.2.2 with rfl | rfl
  · exact .closes _ rfl heffect
  · exact .closes _ rfl heffect

theorem Refers.of_adds {block fd : ℕ} {name : String} {w w' : Disk} (h : Refers paths block fd w)
    (hadds : World.Adds name w w') (hdesc : w'.desc fd = w.desc fd) :
    Refers paths block fd w' := by
  obtain ⟨hsome, hrefers⟩ := h
  obtain ⟨x, hx⟩ := Option.isSome_iff_exists.mp hsome
  obtain ⟨hx', -⟩ := hadds.keeps hx
  exact ⟨by rw [hx']; rfl, by rw [hdesc, hrefers, hx, hx']⟩

/-- A step of the submitting thread. -/
theorem InPhase.handles {s s' : AioPhase.State} {w w' : Disk} {log : Set Triple}
    (hcarries : Carries (opt.layout hopt paths hpaths) buffer dump I)
    (h : InPhase opt paths I s (w, log)) (hreported : s'.reported = s.reported)
    (hhandles : Handles ⟨opt, paths, buffer, dump⟩ s s' w w') :
    InPhase opt paths I s' (w', log) := by
  have harrived : arrived opt s' = arrived opt s := arrived_congr fun event => by rw [hreported]
  obtain ⟨hcarried, hrefers, hsingle⟩ := h
  cases hhandles with
  | opens i fd hi hfds hopens =>
      rw [hopt.count_eq] at hi
      have hblock := (request_lt hopt hi).1
      -- the new descriptor was not in use
      have hfresh : ∀ j fd', s.fds j = some fd' → fd' ≠ fd := by
        rintro j fd' hj rfl
        obtain ⟨-, hsome, hdesc⟩ := hrefers j fd' hj
        rw [← hdesc, show w.desc fd' = none from hopens.1] at hsome
        cases hsome
      refine ⟨harrived ▸ hcarries.opens hcarried hblock hopens, ?_, ?_⟩
      · intro j fd' hj
        rw [hfds] at hj
        by_cases hji : j = i
        · subst hji
          rw [setAt_self, Option.some.injEq] at hj
          subst hj
          obtain ⟨hdesc, hsome⟩ := hopens.desc
          exact ⟨hi, hsome, by rw [hdesc, Function.update_self]; rfl⟩
        · rw [setAt_of_ne _ _ hji] at hj
          obtain ⟨hj', hold⟩ := hrefers j fd' hj
          refine ⟨hj', hold.of_adds hopens.adds ?_⟩
          have hkept : w'.desc = Function.update w.desc fd _ := hopens.desc.1
          rw [hkept, Function.update_of_ne (hfresh j fd' hj)]
      · intro j k fd' hj hk
        rw [hfds] at hj hk
        by_cases hji : j = i <;> by_cases hki : k = i
        -- two requests would have one descriptor only if the new one had been in use
        · rw [hji, hki]
        · rw [hji, setAt_self, Option.some.injEq] at hj
          rw [setAt_of_ne _ _ hki] at hk
          exact absurd hj.symm (hfresh k fd' hk)
        · rw [hki, setAt_self, Option.some.injEq] at hk
          rw [setAt_of_ne _ _ hji] at hj
          exact absurd hk.symm (hfresh j fd' hj)
        · rw [setAt_of_ne _ _ hji] at hj
          rw [setAt_of_ne _ _ hki] at hk
          exact hsingle j k fd' hj hk
  | openFails i hi hfds hfails =>
      rw [hopt.count_eq] at hi
      have hdesc : w'.desc = w.desc := by
        rcases hfails with rfl | ⟨-, -, rfl⟩ <;> rfl
      refine ⟨harrived ▸ hcarries.openFails hcarried (request_lt hopt hi).1 hfails, ?_,
        hfds ▸ hsingle⟩
      intro j fd' hj
      obtain ⟨hj', hold⟩ := hrefers j fd' (hfds ▸ hj)
      exact ⟨hj', hold.of_adds hfails.adds (congrFun hdesc fd')⟩
  | closes i hfds hcloses =>
      -- the other requests keep their descriptors
      have hothers : ∀ j fd', s'.fds j = some fd' → j ≠ i ∧ s.fds j = some fd' := by
        intro j fd' hj
        rw [hfds] at hj
        by_cases hji : j = i
        · rw [hji, setAt_self] at hj
          cases hj
        · exact ⟨hji, by rwa [setAt_of_ne _ _ hji] at hj⟩
      cases hfd : s.fds i with
      | none =>
          rw [hfd] at hcloses
          have hsame : w' = w := hcloses
          subst hsame
          exact ⟨harrived ▸ hcarried, fun j fd' hj => hrefers j fd' (hothers j fd' hj).2,
            fun j k fd' hj hk => hsingle j k fd' (hothers j fd' hj).2 (hothers k fd' hk).2⟩
      | some fd =>
          rw [hfd] at hcloses
          have hclosed : w' = w.close fd := hcloses
          subst hclosed
          refine ⟨harrived ▸ hcarries.closes fd hcarried, ?_,
            fun j k fd' hj hk => hsingle j k fd' (hothers j fd' hj).2 (hothers k fd' hk).2⟩
          intro j fd' hj
          obtain ⟨hji, hj⟩ := hothers j fd' hj
          obtain ⟨hj', hsome, hdesc⟩ := hrefers j fd' hj
          -- the descriptor that is closed belonged to no other request
          have hne : fd' ≠ fd := by
            rintro rfl
            exact hji (hsingle j i fd' hj hfd)
          refine ⟨hj', hsome, ?_⟩
          rw [World.close_desc, Function.update_of_ne hne]
          exact hdesc
  | neither hfds hsame =>
      subst hsame
      exact ⟨harrived ▸ hcarried, hfds ▸ hrefers, hfds ▸ hsingle⟩

/-- A completion in full adds the bytes of its request. -/
theorem arrived_full {s s' : AioPhase.State} {event : IoEvent} {t : Transfer}
    (hreported : ∀ e, e ∈ s'.reported ↔ e = event ∨ e ∈ s.reported)
    (hbytes : t.bytes = opt.slotBytes) (hfull : event.res = opt.slotBytes ∧ event.res2 = 0) :
    arrived opt s' = arrived opt s ∪ {o | Layout.Covers t (event.data * opt.slotBytes) o} := by
  ext o
  unfold arrived
  simp only [hreported, Set.mem_ofPred_eq, or_and_right, exists_or, exists_eq_left]
  simp only [hfull, Set.mem_union, Set.mem_ofPred_eq, Layout.Covers, hbytes, true_and, and_self]
  exact or_comm

/-- Any other completion adds nothing. -/
theorem arrived_short {s s' : AioPhase.State} {event : IoEvent}
    (hreported : ∀ e, e ∈ s'.reported ↔ e = event ∨ e ∈ s.reported)
    (hshort : ¬(event.res = opt.slotBytes ∧ event.res2 = 0)) : arrived opt s' = arrived opt s := by
  ext o
  unfold arrived
  simp only [hreported, Set.mem_ofPred_eq, or_and_right, exists_or, exists_eq_left]
  simp only [hshort, false_and, false_or]

/-- A transfer moves the same bytes in two worlds with the same names and descriptors. -/
theorem movedBy_congr {w w' : Disk} (hentry : w'.entry = w.entry) (hdesc : w'.desc = w.desc)
    (t : Transfer) : movedBy w' t = movedBy w t := by
  unfold movedBy
  rw [hentry, hdesc]

/-- A step of the kernel reports one more completion, or nothing new. -/
theorem kernelStep_reported {cfg : Config} {s s' : AioPhase.State} {k : KernelMove}
    (hhonest : cfg.strayEvents = false) (h : kernelStep cfg s k = some s') :
    (∃ i res res2, k = .complete i res res2 ∧ i ∈ s.inFlight ∧
      ∀ e, e ∈ s'.reported ↔ e = ⟨i, cfg.cbAddr i, res, res2⟩ ∨ e ∈ s.reported) ∨
    ((∀ i res res2, k ≠ .complete i res res2) ∧ s'.reported = s.reported) := by
  unfold kernelStep at h
  split at h
  · rename_i i res res2
    split at h
    · rename_i hi
      cases h
      refine .inl ⟨i, res, res2, rfl, hi, fun e => ?_⟩
      simp only [State.reported, List.map_append, List.map_cons, List.map_nil, List.mem_append,
        List.mem_singleton]
      tauto
    · cases h
  · rw [hhonest] at h
    cases h
  · split at h
    · rename_i hat
      cases h
      refine .inr ⟨fun _ _ _ hk => (by cases hk), ?_⟩
      unfold State.reported
      rw [map_event_set hat]
    · cases h
  · split at h
    · cases h
      exact .inr ⟨fun _ _ _ hk => (by cases hk), rfl⟩
    · cases h

/-- One step of a phase. -/
theorem InPhase.step {s s' : AioPhase.State} {a : Action} {x y : LoggedDisk}
    (hcarries : Carries (opt.layout hopt paths hpaths) buffer dump I)
    (h : InPhase opt paths I s x)
    (hreachable : Transition.Reachable (system (opt.config cbAddr)) s)
    (hstep : AioPhase.step (opt.config cbAddr) s a = some s')
    (hlogged : Logged x (.step ⟨opt, paths, buffer, dump⟩ (s, a)) y) :
    InPhase opt paths I s' y := by
  obtain ⟨w, log⟩ := x
  obtain ⟨w', log'⟩ := y
  obtain ⟨⟨w₁, hprogress, heffect⟩, hlog⟩ := hlogged
  have haccounted := accounted rfl hreachable
  obtain ⟨hin, hentry, hdesc⟩ := h.progresses hcarries haccounted hprogress
  simp only at hlog
  cases a with
  | main o =>
      -- no event is reported by a move of `main`
      have hframe := mainStep_frame hstep
      have hreported : s'.reported = s.reported := by
        unfold State.reported
        rw [hframe.ring, hframe.reaped]
      rw [moved_of_none rfl, Set.union_empty] at hlog
      subst hlog
      exact hin.handles hcarries hreported (mainStep_handles hstep heffect)
  | reaper o =>
      -- the reaper only moves events from the ring
      have hframe := reaperStep_frame hstep
      have hreported : ∀ event, event ∈ s'.reported ↔ event ∈ s.reported := by
        intro event
        obtain ⟨-, hreaps⟩ := reaperStep_reaps hstep
        unfold State.reported
        cases hreaps with
        | take hreaper =>
            have hring : event ∈ s.ring.map Posted.event ↔
                event ∈ (s.ring.take batchSize).map Posted.event ∨
                  event ∈ (s.ring.drop batchSize).map Posted.event := by
              rw [← List.mem_append, ← List.map_append, List.take_append_drop]
            simp only [List.mem_append, hring]
            tauto
        | _ => exact Iff.rfl
      rw [moved_of_none rfl, Set.union_empty] at hlog
      have hsame : w' = w₁ := heffect
      subst hlog hsame
      obtain ⟨hcarried, hrefers, hsingle⟩ := hin
      exact ⟨(arrived_congr hreported) ▸ hcarried, hframe.fds ▸ hrefers, hframe.fds ▸ hsingle⟩
  | kernel k =>
      have hframe := kernelStep_frame hstep
      rcases kernelStep_reported rfl hstep with
        ⟨i, res, res2, rfl, hi, hreported⟩ | ⟨hother, hreported⟩
      · by_cases hfull : res = opt.slotBytes ∧ res2 = 0
        -- a full completion: the bytes of this request have moved
        · obtain ⟨t, ht, hdone⟩ := (if_pos hfull).mp heffect
          obtain ⟨haims, hfile, hbytes, hdesc₁⟩ := hin.aims hopt hpaths ht
          have harrived := arrived_full hreported hbytes hfull
          have hmoved : moved w (.step ⟨opt, paths, buffer, dump⟩
              (s, .kernel (.complete i res res2))) = movedBy w₁ t := by
            rw [movedBy_congr hentry hdesc]
            exact moved_of_some ((if_pos hfull).trans ht)
          rw [hmoved] at hlog
          subst hlog
          obtain ⟨file, hbegun⟩ := hdone.begun
          refine ⟨?_, ?_, hframe.fds ▸ hin.single⟩
          · rw [harrived]
            exact hcarries.done hin.carried haims hfile hdesc₁ hdone
          · intro j fd hj
            obtain ⟨hj', hrefers⟩ := hin.refers j fd (hframe.fds ▸ hj)
            exact ⟨hj', hrefers.of_begun hbegun⟩
        -- a completion that is not full moves nothing that is counted
        · have hsame : w' = w₁ := (if_neg hfull).mp heffect
          have hnone : (Instant.step ⟨opt, paths, buffer, dump⟩
              (s, .kernel (.complete i res res2))).completes = none := if_neg hfull
          rw [moved_of_none hnone, Set.union_empty] at hlog
          subst hlog hsame
          have harrived := arrived_short hreported hfull
          exact ⟨harrived ▸ hin.carried, hframe.fds ▸ hin.refers, hframe.fds ▸ hin.single⟩
      · have hquiet : w' = w₁ ∧ log' = log := by
          cases k with
          | complete i res res2 => exact absurd rfl (hother i res res2)
          | _ =>
              refine ⟨heffect, ?_⟩
              rw [hlog, moved_of_none rfl, Set.union_empty]
        obtain ⟨rfl, rfl⟩ := hquiet
        have harrived : arrived opt s' = arrived opt s :=
          arrived_congr fun event => by rw [hreported]
        exact ⟨harrived ▸ hin.carried, hframe.fds ▸ hin.refers, hframe.fds ▸ hin.single⟩

theorem inPhase_init {x : LoggedDisk} (hI : I ∅ x) : InPhase opt paths I {} x := by
  have hnone : arrived opt {} = ∅ := by
    unfold arrived
    simp [State.reported]
  exact ⟨hnone ▸ hI, fun _ _ h => (by cases h), fun _ _ _ h => (by cases h)⟩

/-- Every state of a phase. -/
theorem inPhase_of_path {moves : List (AioPhase.State × Action)} {s : AioPhase.State}
    {x : LoggedDisk} (hcarries : Carries (opt.layout hopt paths hpaths) buffer dump I)
    (hpath : Transition.Path (system (opt.config cbAddr)) {} moves s) (hI : I ∅ x) :
    ∀ y, Along Logged x (moves.map (.step ⟨opt, paths, buffer, dump⟩)) y →
      InPhase opt paths I s y := by
  refine hpath.invariant (fun moves s => ∀ y,
    Along Logged x (moves.map (.step ⟨opt, paths, buffer, dump⟩)) y →
      InPhase opt paths I s y) ?_ ?_
  · intro y hy
    rw [List.map_nil, along_nil] at hy
    exact hy ▸ inPhase_init hI
  · intro moves s a s' hpath ih hstep y hy
    rw [List.map_append, List.map_singleton, along_concat] at hy
    obtain ⟨z, hz, hlogged⟩ := hy
    exact (ih z hz).step hcarries ⟨moves, hpath⟩ hstep hlogged

/-- A phase that ends well has moved everything. -/
theorem arrived_all {s : AioPhase.State} (hopt : opt.Valid)
    (hreachable : Transition.Reachable (system (opt.config cbAddr)) s) (hmain : s.main = .finished)
    (hthrew : s.threw = false) :
    arrived opt s = Set.Iio (opt.blocks * opt.shards * opt.slotBytes) := by
  have hcount : (opt.config cbAddr).count = opt.blocks * opt.shards := hopt.count_eq
  have haccounted := accounted rfl hreachable
  have hpassing : s.passing = true := by
    unfold State.passing
    rw [hmain, hthrew]
    rfl
  have hwaited := waited hreachable (State.waited_of_passing hpassing)
  have hslot := hopt.slotBytes
  ext o
  rw [Set.mem_Iio]
  constructor
  · rintro ⟨event, hevent, -, -, hlt⟩
    have hdata : event.data < opt.blocks * opt.shards := by
      have hreported := haccounted.reported_lt hevent
      have hle := haccounted.accepted_le
      omega
    have hnext : (event.data + 1) * opt.slotBytes ≤ opt.blocks * opt.shards * opt.slotBytes :=
      Nat.mul_le_mul_right _ hdata
    rw [Nat.add_mul, Nat.one_mul] at hnext
    omega
  · intro ho
    have hi : o / opt.slotBytes < opt.blocks * opt.shards := (Nat.div_lt_iff_lt_mul hslot).mpr ho
    obtain ⟨-, event, hevent, -, hres, hres2⟩ :=
      haccounted.servedOnce hwaited (successful rfl hreachable hpassing) (hcount ▸ hi)
    have hmem : event ∈ s.reaped.filter (·.data = o / opt.slotBytes) := by
      rw [hevent]
      exact List.mem_singleton_self _
    obtain ⟨hreaped, hdata⟩ := List.mem_filter.mp hmem
    refine ⟨event, List.mem_append_right _ hreaped, ⟨hres, hres2⟩, ?_⟩
    rw [of_decide_eq_true hdata]
    have hsplit := Nat.div_add_mod' o opt.slotBytes
    have hmod := Nat.mod_lt o hslot
    omega

/-- The AIO engine. -/
theorem carries_aio (hcarries : Carries (opt.layout hopt paths hpaths) buffer dump I)
    (hC : ∀ c : Call, c.throughOs = true → ∀ D x, I D x → C c x.1) :
    (transferAio opt paths buffer dump).Triple (Watched w₀ C)
      (Worlds w₀ fun _ x => I ∅ x)
      (fun _ => Worlds w₀ fun _ x => I (Set.Iio (opt.blocks * opt.shards * opt.slotBytes)) x)
      (Worlds w₀ fun _ x => Somewhere I x) := by
  have hphase : (Proc.ask (R := Call.Reply) (.aioPhase opt paths buffer dump) :
      HA (PhaseRun opt)).Triple (Watched w₀ C) (Worlds w₀ fun _ x => I ∅ x)
      (fun phase => Worlds w₀ fun _ x => I (arrived opt phase.final) x)
      (Worlds w₀ fun _ x => Somewhere I x) := by
    refine Proc.triple_ask ?_ ?_
    · intro p t h phase ms hms y hy
      obtain ⟨moves, ⟨rest, hmoves⟩, rfl⟩ := List.prefix_map_iff.mp hms
      obtain ⟨x, hx, hrest⟩ := along_append.mp hy
      have hpath := phase.path
      rw [← hmoves] at hpath
      obtain ⟨s, hpath⟩ := hpath.take
      exact hC _ rfl _ y (inPhase_of_path hcarries hpath (h x hx) y hrest).carried
    · intro p t phase h y hy
      rw [instants_concat, along_append] at hy
      obtain ⟨x, hx, hrest⟩ := hy
      exact (inPhase_of_path hcarries phase.path (h x hx) y hrest).carried
  apply Proc.Triple.bind hphase
  intro phase
  refine Proc.Triple.bind (Q := fun _ p t => phase.final.main = .finished ∧
    Worlds w₀ (fun _ x => I (arrived opt phase.final) x) p t)
    (Proc.triple_onlyIf (fun _ => Proc.triple_cut) fun hend p t h => ⟨not_not.mp hend, h⟩)
    fun _ => ?_
  refine Proc.Triple.bind (Q := fun _ p t => phase.final.main = .finished ∧
    Worlds w₀ (fun _ x => I (arrived opt phase.final) x) p t)
    (Proc.triple_modify fun p t h => ⟨h.1, h.2.mono fun x hx => hx⟩) fun _ => ?_
  refine Proc.triple_onlyIf (fun _ => ?_) fun hthrew p t h => ?_
  · exact Proc.triple_throw fun p t h => h.2.mono fun x hx => ⟨_, hx⟩
  · have hall := arrived_all hopt ⟨_, phase.path⟩ h.1 (Bool.eq_false_of_not_eq_true hthrew)
    rw [← hall]
    exact h.2

end Phase

/-- **Both engines carry the property.**  It holds at every moment of `Transfer`; when
`Transfer` returns every byte has been moved. -/
theorem carries_transfer {opt : Options} {hopt : opt.Valid} {paths : List String}
    {hpaths : opt.Distinct paths} {buffer : Ptr} {dump : Bool} {w₀ : Disk} {C : Call → Disk → Prop}
    {I : Set ℕ → LoggedDisk → Prop}
    (hcarries : Carries (opt.layout hopt paths hpaths) buffer dump I)
    (hC : ∀ c : Call, c.throughOs = true → ∀ D x, I D x → C c x.1) :
    (transfer opt paths buffer dump).Triple (Watched w₀ C)
      (Worlds w₀ fun _ x => I ∅ x)
      (fun _ => Worlds w₀ fun _ x => I (Set.Iio (opt.blocks * opt.shards * opt.slotBytes)) x)
      (Worlds w₀ fun _ x => Somewhere I x) := by
  unfold transfer
  split
  · exact carries_aio hcarries hC
  · exact carries_psync hcarries hC

end SharingProbe.HalAio
