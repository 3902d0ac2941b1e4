import SharingProbe.AioPhase.Lifetime
import SharingProbe.HalAio.Model

/-!
# The resources of a run of `cache2_hal_aio`

A run of `main` is a sequence of moments: its own calls, and the steps of its
phases in their place.  `accounts` is what each of them opens and releases.

## Strategy

`Good strict h` is what holds between two statements of `main`: the moments so far are
disciplined and leave `h` open, no phase has left a request in flight, and, when `strict` is set,
every release call that failed has set `cleanupFailed`.  An exception drops the last part, and
`main` then exits with `1`; a `CLEANUP` restores it (`cleanup_takes`).

Most procedures leave open what they find open (`Leaves`), and their rules compose as those of
the program logic do.  The exceptions are those that open and close a descriptor:

* `open_takes`, `close_gives`: the two calls themselves;
* `transferShard_takes`, `closeBlock_gives`: a block of the synchronous engine, whose descriptor
  stays open from shard to shard (`InBlock`); `leaves_transferBlock` closes the bracket;
* `leaves_transferAio`: a phase of the other engine, whose own discipline is that of
  `AioPhase.Lifetime`.

`body_ends` is where the exit code comes from: the body returns only with every release call
reported.  `main_ends` is the end of a run, and `disciplined_of_visits` extends the discipline to
every moment of it, also inside of a phase.
-/

namespace SharingProbe.HalAio

open Interaction AioPhase

/-! ## Moments -/

/-- A call of `main` or a step of a phase. -/
inductive Moment where
  | call (e : HAEvent)
  | step (m : Move)

/-- The moments of one call. -/
def momentsOf (e : HAEvent) : List Moment :=
  match e with
  | ⟨_, .aioPhase _ _ _ _, phase⟩ => phase.moves.map .step
  | e => [.call e]

/-- The moments of a run. -/
def moments (t : List HAEvent) : List Moment := t.flatMap momentsOf

/-- The requests that a phase has left in flight. -/
def inFlight (e : HAEvent) : List ℕ :=
  match e with
  | ⟨_, .aioPhase _ _ _ _, phase⟩ => phase.final.inFlight
  | _ => []

def Moment.acquires : Moment → Multiset KernelObject
  | .call ⟨_, .os (.openFile _ _), reply⟩ => if 0 ≤ reply.1 then {.fd reply.1.toNat} else 0
  | .call _ => 0
  | .step m => m.acquires

def Moment.releases : Moment → Multiset KernelObject
  | .call ⟨_, .os (.close fd), _⟩ => {.fd fd}
  | .call _ => 0
  | .step m => m.releases

/-- The HAL and runtime calls of the teardown. -/
def SdkCall.tearsDown : SdkCall → Bool
  | halMemUnmap _ | halMemRelease _ | halMemAddressFree _ | aclrtResetDevice _ | aclFinalize => true
  | _ => false

/-- A release call that reports a failure. -/
def Moment.releaseFails : Moment → Prop
  | .call ⟨_, .os (.close _), reply⟩ => reply.1 < 0
  | .call ⟨_, .sdk c, reply⟩ => c.tearsDown = true ∧ reply.1 ≠ 0
  | .call _ => False
  | .step m => m.releaseFails = true

/-- The acquisitions and releases of a run. -/
def accounts : Ledger.Accounts Moment KernelObject where
  acquires := Moment.acquires
  releases := Moment.releases

@[simp] theorem acquires_step (m : Move) :
    accounts.acquires (.step m) = AioPhase.accounts.acquires m := rfl

@[simp] theorem releases_step (m : Move) :
    accounts.releases (.step m) = AioPhase.accounts.releases m := rfl

/-! ## What holds between two statements -/

/-- The moments so far leave `h` open and nothing in flight. -/
structure Kept (h : Multiset KernelObject) (t : List HAEvent) : Prop where
  disciplined : accounts.Disciplined (moments t)
  held : accounts.held (moments t) = h
  ended : ∀ e ∈ t, inFlight e = []

/-- Every release call that failed has set `cleanupFailed`. -/
def Reported (p : Process) (t : List HAEvent) : Prop :=
  ∀ m ∈ moments t, m.releaseFails → p.cleanupFailed = true

/-- What holds between two statements, or after an exception. -/
structure Good (strict : Bool) (h : Multiset KernelObject) (p : Process)
    (t : List HAEvent) : Prop where
  kept : Kept h t
  reported : strict = true → Reported p t

/-- A call is made with nothing in flight, and it releases only what is open. -/
structure Allowed (t : List HAEvent) (p : Process) (c : Call) : Prop where
  ended : ∀ e ∈ t, inFlight e = []
  disciplined : accounts.Disciplined (moments t)
  releases : ∀ r, (Moment.call ⟨p, c, r⟩).releases ≤ accounts.held (moments t)

variable {strict : Bool} {h h' : Multiset KernelObject} {p p' : Process} {t : List HAEvent}

theorem Good.relax (hgood : Good strict h p t) : Good false h p t := ⟨hgood.kept, nofun⟩

theorem Good.congr (hgood : Good strict h p t) (hflag : p'.cleanupFailed = p.cleanupFailed) :
    Good strict h p' t := by
  refine ⟨hgood.kept, fun hstrict m hm hfails => ?_⟩
  rw [hflag]
  exact hgood.reported hstrict m hm hfails

theorem Good.allowed {c : Call} (hgood : Good strict h p t)
    (hle : ∀ r, (Moment.call ⟨p, c, r⟩).releases ≤ h) : Allowed t p c := by
  refine ⟨hgood.kept.ended, hgood.kept.disciplined, fun r => ?_⟩
  rw [hgood.kept.held]
  exact hle r

theorem moments_concat (t : List HAEvent) (e : HAEvent) :
    moments (t ++ [e]) = moments t ++ momentsOf e := by
  simp [moments]

/-- A call of `main` that releases only what is open. -/
theorem Kept.call {e : HAEvent} (hkept : Kept h t) (hmoments : momentsOf e = [.call e])
    (hinFlight : inFlight e = []) (hle : (Moment.call e).releases ≤ h) :
    Kept (h - (Moment.call e).releases + (Moment.call e).acquires) (t ++ [e]) := by
  constructor
  · rw [moments_concat, hmoments]
    exact hkept.disciplined.concat (hkept.held.symm ▸ hle)
  · rw [moments_concat, hmoments, Ledger.Accounts.held_concat, hkept.held]
    rfl
  · intro e' he'
    rcases List.mem_append.mp he' with hbefore | hnow
    · exact hkept.ended e' hbefore
    · rw [List.mem_singleton.mp hnow]
      exact hinFlight

theorem Reported.call {e : HAEvent} (hreported : Reported p t) (hmoments : momentsOf e = [.call e])
    (hfails : ¬(Moment.call e).releaseFails) : Reported p (t ++ [e]) := by
  intro m hm hmfails
  rw [moments_concat, hmoments] at hm
  rcases List.mem_append.mp hm with hbefore | hnow
  · exact hreported m hbefore hmfails
  · rw [List.mem_singleton.mp hnow] at hmfails
    exact absurd hmfails hfails

/-- A call that neither opens nor releases anything. -/
structure Plain (c : Call) : Prop where
  moments : ∀ p r, momentsOf ⟨p, c, r⟩ = [.call ⟨p, c, r⟩]
  inFlight : ∀ p r, inFlight ⟨p, c, r⟩ = []
  acquires : ∀ p r, (Moment.call ⟨p, c, r⟩).acquires = 0
  releases : ∀ p r, (Moment.call ⟨p, c, r⟩).releases = 0

theorem Good.plain {c : Call} (hgood : Good strict h p t) (hplain : Plain c) (r : c.Reply)
    (hfails : strict = true → ¬(Moment.call ⟨p, c, r⟩).releaseFails) :
    Good strict h p (t ++ [⟨p, c, r⟩]) := by
  constructor
  · have hkept := hgood.kept.call (hplain.moments p r) (hplain.inFlight p r)
      (by rw [hplain.releases]; exact Multiset.zero_le _)
    rwa [hplain.acquires, hplain.releases, add_zero, tsub_zero] at hkept
  · exact fun hstrict => (hgood.reported hstrict).call (hplain.moments p r) (hfails hstrict)

/-! ## Procedures that leave what is open as it is -/

/-- The procedure leaves `h` open, also when it throws; an exception may drop the
part about failed release calls. -/
def Leaves (strict strict' : Bool) (h : Multiset KernelObject) {α : Type} (m : HA α) : Prop :=
  m.Triple Allowed (Good strict h) (fun _ => Good strict h) (Good strict' h)

section Leaves

variable {strict' : Bool} {α β : Type} {m : HA α}

theorem leaves_pure (a : α) : Leaves strict strict' h (pure a : HA α) :=
  Proc.triple_pure fun _ _ hgood => hgood

theorem leaves_get : Leaves strict strict' h (Proc.get : HA Process) :=
  Proc.triple_get fun _ _ hgood => hgood

theorem leaves_modify {f : Process → Process} (hf : ∀ p, (f p).cleanupFailed = p.cleanupFailed) :
    Leaves strict strict' h (Proc.modify f) :=
  Proc.triple_modify fun p _ hgood => hgood.congr (hf p)

theorem leaves_setMemory (f : HostMemory → HostMemory) : Leaves strict strict' h (setMemory f) :=
  leaves_modify fun _ => rfl

theorem leaves_throw (e : Exn) : Leaves strict false h (Proc.throw e : HA α) :=
  Proc.triple_throw fun _ _ hgood => hgood.relax

theorem leaves_throw_strict (e : Exn) : Leaves strict strict h (Proc.throw e : HA α) :=
  Proc.triple_throw fun _ _ hgood => hgood

theorem Leaves.bind {f : α → HA β} (hm : Leaves strict strict' h m)
    (hf : ∀ a, Leaves strict strict' h (f a)) : Leaves strict strict' h (m >>= f) :=
  Proc.Triple.bind hm hf

theorem Leaves.onlyIf {c : Prop} [Decidable c] {m : HA PUnit} (hm : Leaves strict strict' h m) :
    Leaves strict strict' h (Proc.onlyIf c m) :=
  Proc.triple_onlyIf (fun _ => hm) fun _ _ _ hgood => hgood

theorem Leaves.forM {ι : Type} {xs : List ι} {f : ι → HA PUnit}
    (hf : ∀ x ∈ xs, Leaves strict strict' h (f x)) : Leaves strict strict' h (xs.forM f) :=
  Proc.triple_forM hf

/-- A loop of the body is left for the handler. -/
theorem Leaves.tryCatch {strict'' : Bool} {handler : Exn → HA α} (hm : Leaves strict strict'' h m)
    (hhandler : ∀ e, (handler e).Triple Allowed (Good strict'' h) (fun _ => Good strict h)
      (Good strict' h)) : Leaves strict strict' h (Proc.tryCatch m handler) :=
  Proc.Triple.tryCatch hm hhandler

theorem Leaves.relax (hm : Leaves strict strict' h m) : Leaves strict false h m :=
  hm.weaken (fun _ _ hgood => hgood) (fun _ _ _ hgood => hgood) fun _ _ hgood => hgood.relax

end Leaves

/-! ## The calls -/

theorem leaves_ask {strict' : Bool} {c : Call} (hplain : Plain c)
    (hfails : ∀ p r, ¬(Moment.call ⟨p, c, r⟩).releaseFails) :
    Leaves strict strict' h (Proc.ask (R := Call.Reply) c) :=
  Proc.triple_ask
    (fun p _ hgood => hgood.allowed fun r => (hplain.releases p r).trans_le (Multiset.zero_le _))
    fun p _ r hgood => hgood.plain hplain r fun _ => hfails p r

/-- The calls that concern the memory of the process or its run directory. -/
def Call.isLocal : Call → Bool
  | mkdtemp _ | malloc _ | free _ | memcpy _ _ | memset _ _ _ | readBuffer _ _ => true
  | _ => false

theorem leaves_local {strict' : Bool} {c : Call} (hc : c.isLocal = true) :
    Leaves strict strict' h (Proc.ask (R := Call.Reply) c) := by
  cases c with
  | os c => cases hc
  | sdk c => cases hc
  | aioPhase opt paths buffer dump => cases hc
  | _ => exact leaves_ask ⟨fun _ _ => rfl, fun _ _ => rfl, fun _ _ => rfl,
      fun _ _ => rfl⟩ fun _ _ => id

/-- The calls through `OS` that neither open nor close. -/
def OsCall.plain : OsCall → Bool
  | openFile _ _ | close _ => false
  | _ => true

theorem leaves_os {c : OsCall} (hc : c.plain = true) : Leaves strict false h (os c) := by
  have hplain : Plain (.os c) := by
    cases c with
    | openFile path flags => cases hc
    | close fd => cases hc
    | _ => exact ⟨fun _ _ => rfl, fun _ _ => rfl, fun _ _ => rfl, fun _ _ => rfl⟩
  have hfails : ∀ p r, ¬(Moment.call ⟨p, .os c, r⟩).releaseFails := by
    intro p r
    cases c with
    | close fd => cases hc
    | _ => exact id
  apply (leaves_ask hplain hfails).bind
  intro reply
  split
  · exact leaves_throw _
  · exact leaves_pure _

theorem plain_sdk (c : SdkCall) : Plain (.sdk c) :=
  ⟨fun _ _ => rfl, fun _ _ => rfl, fun _ _ => rfl, fun _ _ => rfl⟩

theorem leaves_sdk (c : SdkCall) : Leaves strict false h (sdk c) := by
  have hasked : (Proc.ask (R := Call.Reply) (.sdk c) : HA (ℤ × ℕ)).Triple Allowed (Good strict h)
      (fun reply p t => Kept h t ∧ (strict = true → reply.1 = 0 → Reported p t))
      (Good false h) := by
    refine Proc.triple_ask (fun _ _ hgood => hgood.allowed fun _ => Multiset.zero_le _) ?_
    intro p t reply hgood
    have hkept := (hgood.relax.plain (plain_sdk c) reply nofun).kept
    refine ⟨hkept, fun hstrict hok => (hgood.reported hstrict).call rfl ?_⟩
    exact fun hfails => hfails.2 hok
  apply Proc.Triple.bind hasked
  intro reply
  split
  · exact Proc.triple_throw fun _ _ hasked => ⟨hasked.1, nofun⟩
  · rename_i hok
    exact Proc.triple_pure fun _ _ hasked =>
      ⟨hasked.1, fun hstrict => hasked.2 hstrict (not_not.mp hok)⟩

/-- A call that does not tear down is no reason for a failed exit. -/
theorem leaves_sdk_of_setup {c : SdkCall} (hc : c.tearsDown = false) :
    Leaves strict strict h (sdk c) := by
  have hfails : ∀ p r, ¬(Moment.call ⟨p, .sdk c, r⟩).releaseFails := by
    rintro p r ⟨htears, -⟩
    rw [hc] at htears
    cases htears
  apply (leaves_ask (plain_sdk c) hfails).bind
  intro reply
  split
  · exact leaves_throw_strict _
  · exact leaves_pure _

theorem open_takes (path : String) (flags : OpenFlags) :
    (os (.openFile path flags)).Triple Allowed (Good strict h)
      (fun reply => Good strict (h + {.fd reply.1.toNat})) (Good false h) := by
  have hasked : (Proc.ask (R := Call.Reply) (.os (.openFile path flags)) : HA (ℤ × ℤ)).Triple
      Allowed (Good strict h)
      (fun reply => Good strict (h + if 0 ≤ reply.1 then {.fd reply.1.toNat} else 0))
      (Good false h) := by
    refine Proc.triple_ask (fun _ _ hgood => hgood.allowed fun _ => Multiset.zero_le _) ?_
    intro p t reply hgood
    constructor
    · have hkept := hgood.kept.call (e := ⟨p, .os (.openFile path flags), reply⟩) rfl rfl
        (Multiset.zero_le _)
      have hnone : (Moment.call ⟨p, .os (.openFile path flags), reply⟩).releases = 0 := rfl
      rwa [hnone, tsub_zero] at hkept
    · exact fun hstrict => (hgood.reported hstrict).call rfl id
  apply Proc.Triple.bind hasked
  intro reply
  by_cases hfailed : reply.1 < 0
  · rw [if_pos hfailed, if_neg (by omega), add_zero]
    exact Proc.triple_throw fun _ _ hgood => hgood.relax
  · rw [if_neg hfailed, if_pos (by omega)]
    exact Proc.triple_pure fun _ _ hgood => hgood

/-- A descriptor that is passed to `close` is closed, whatever `close` reports. -/
theorem close_gives (fd : ℕ) :
    (os (.close fd)).Triple Allowed (Good strict (h + {.fd fd})) (fun _ => Good strict h)
      (Good false h) := by
  have hasked : (Proc.ask (R := Call.Reply) (.os (.close fd)) : HA (ℤ × ℤ)).Triple
      Allowed (Good strict (h + {.fd fd}))
      (fun reply p t => Kept h t ∧ (strict = true → ¬reply.1 < 0 → Reported p t))
      (Good false h) := by
    refine Proc.triple_ask (fun _ _ hgood => hgood.allowed fun _ => Multiset.le_add_left _ _) ?_
    intro p t reply hgood
    constructor
    · have hkept := hgood.kept.call (e := ⟨p, .os (.close fd), reply⟩) rfl rfl
        (Multiset.le_add_left _ _)
      have hfd : (Moment.call ⟨p, .os (.close fd), reply⟩).releases = {.fd fd} := rfl
      have hnone : (Moment.call ⟨p, .os (.close fd), reply⟩).acquires = 0 := rfl
      rwa [hfd, hnone, add_zero, add_tsub_cancel_right] at hkept
    · exact fun hstrict hok => (hgood.reported hstrict).call rfl hok
  apply Proc.Triple.bind hasked
  intro reply
  split
  · exact Proc.triple_throw fun _ _ hclosed => ⟨hclosed.1, nofun⟩
  · rename_i hok
    exact Proc.triple_pure fun _ _ hclosed => ⟨hclosed.1, fun hstrict => hclosed.2 hstrict hok⟩

/-- A `CLEANUP` does not throw, and it remembers a failure. -/
theorem cleanup_takes {α : Type} {m : HA α} {h' : Multiset KernelObject}
    (hm : m.Triple Allowed (Good strict h) (fun _ => Good strict h') (Good false h'))
    (E : Process → List HAEvent → Prop) :
    (cleanup m).Triple Allowed (Good strict h) (fun _ => Good strict h') E := by
  refine Proc.Triple.tryCatch (E := Good false h') ?_ fun _ => ?_
  · exact hm.bind fun _ => Proc.triple_pure fun _ _ hgood => hgood
  · exact Proc.triple_modify fun p t hgood => ⟨hgood.kept, fun _ _ _ _ => rfl⟩

/-! ## `HostMemory` -/

theorem leaves_release : Leaves strict false h release := by
  apply leaves_get.bind
  intro p
  dsimp only
  split
  · apply (leaves_local rfl).bind
    intro _
    exact leaves_setMemory _
  · have hcall : ∀ (c : SdkCall) (f : HostMemory → HostMemory),
        Leaves strict false h (do let _ ← sdk c; setMemory f) :=
      fun c f => (leaves_sdk c).bind fun _ => leaves_setMemory f
    apply (hcall _ _).onlyIf.bind
    intro _
    apply (hcall _ _).onlyIf.bind
    intro _
    exact (hcall _ _).onlyIf

/-- The destructor of `HostMemory` does not throw. -/
theorem leaves_destroyMemory (E : Process → List HAEvent → Prop) :
    destroyMemory.Triple Allowed (Good strict h) (fun _ => Good strict h) E := by
  have hcall : ∀ c : SdkCall, (cleanup (sdk c)).Triple Allowed (Good strict h)
      (fun _ => Good strict h) E := fun c => cleanup_takes (leaves_sdk c) E
  apply Proc.Triple.bind (cleanup_takes leaves_release E)
  intro _
  apply Proc.Triple.bind (Proc.triple_get (Q := fun _ => Good strict h) fun _ _ hgood => hgood)
  intro p
  apply Proc.Triple.bind (Proc.triple_onlyIf (fun _ => hcall _) fun _ _ _ hgood => hgood)
  intro _
  exact Proc.triple_onlyIf (fun _ => hcall _) fun _ _ _ hgood => hgood

/-- `Allocate` releases nothing, so that a failed attempt may be followed by
another. -/
theorem leaves_allocate (bytes : ℕ) (huge : Bool) :
    Leaves strict strict h (allocate bytes huge) := by
  have hthrow : ∀ e : Exn, Leaves strict strict h (Proc.throw e : HA PUnit) :=
    leaves_throw_strict
  apply (leaves_sdk_of_setup rfl).bind
  intro allocGranularity
  apply (hthrow _).onlyIf.bind
  intro _
  apply (leaves_sdk_of_setup rfl).bind
  intro addr
  apply (leaves_setMemory _).bind
  intro _
  apply (hthrow _).onlyIf.bind
  intro _
  apply (leaves_sdk_of_setup rfl).bind
  intro handle
  apply (leaves_setMemory _).bind
  intro _
  apply (leaves_sdk_of_setup rfl).bind
  intro _
  exact leaves_setMemory _

theorem leaves_acquireMemory (opt : Options) : Leaves strict false h (acquireMemory opt) := by
  unfold acquireMemory
  split
  · apply (leaves_local rfl).bind
    intro base
    apply (leaves_setMemory _).bind
    intro _
    apply (leaves_throw _).onlyIf.bind
    intro _
    exact leaves_setMemory _
  · apply (leaves_setMemory _).bind
    intro _
    apply (leaves_sdk _).bind
    intro _
    apply (leaves_setMemory _).bind
    intro _
    apply (leaves_sdk _).bind
    intro _
    apply (leaves_setMemory _).bind
    intro _
    apply (leaves_allocate _ _).tryCatch
    intro error
    show Leaves strict false h _
    apply (leaves_throw _).onlyIf.bind
    intro _
    apply leaves_release.bind
    intro _
    exact (leaves_allocate _ _).relax

/-! ## `Transfer` -/

/-- A phase closes what it opens, leaves nothing in flight, and a failed release
call in it is not forgotten. -/
theorem leaves_transferAio (opt : Options) (paths : List String) (buffer : Ptr) (dump : Bool) :
    Leaves strict false h (transferAio opt paths buffer dump) := by
  let Ended (phase : PhaseRun opt) (p : Process) (t : List HAEvent) : Prop :=
    phase.final.main = .finished → Kept h t ∧ (strict = true → ∀ m ∈ moments t, m.releaseFails →
      p.cleanupFailed = true ∨ phase.final.threw = true ∨ phase.final.cleanupFailed = true)
  have hasked : (Proc.ask (R := Call.Reply) (.aioPhase opt paths buffer dump) :
      HA (PhaseRun opt)).Triple Allowed (Good strict h) Ended (Good false h) := by
    refine Proc.triple_ask (fun _ _ hgood => hgood.allowed fun _ => Multiset.zero_le _) ?_
    intro p t phase hgood hfinished
    have hreachable : Transition.Reachable (system (opt.config phase.cbAddr)) phase.final :=
      ⟨_, phase.path⟩
    obtain ⟨hdisciplined, hheld⟩ := recorded_exact phase.path
    have hsteps : accounts.Disciplined (phase.moves.map Moment.step) :=
      hdisciplined.map acquires_step releases_step
    have hsplit := moments_concat t ⟨p, .aioPhase opt paths buffer dump, phase⟩
    -- the phase has been disciplined by itself, and has released all it had acquired
    refine ⟨⟨?_, ?_, ?_⟩, ?_⟩
    · rw [hsplit]
      exact hgood.kept.disciplined.append hsteps
    · have hnone : accounts.held (phase.moves.map Moment.step) = 0 := by
        rw [Ledger.Accounts.held_map acquires_step releases_step, hheld]
        exact recorded_finished hreachable hfinished
      rw [hsplit]
      refine hsteps.held_append.trans ?_
      rw [hnone, add_zero, hgood.kept.held]
    -- it has left nothing in flight
    · intro e he
      rcases List.mem_append.mp he with hbefore | hnow
      · exact hgood.kept.ended e hbefore
      · rw [List.mem_singleton.mp hnow]
        exact quiet rfl hreachable (by rw [hfinished]; rfl)
    · intro hstrict m hm hfails
      rw [hsplit] at hm
      rcases List.mem_append.mp hm with hbefore | hnow
      · exact .inl (hgood.reported hstrict m hbefore hfails)
      · obtain ⟨move, hmove, rfl⟩ := List.mem_map.mp hnow
        exact .inr (releaseFails_reported phase.path move hmove hfails)
  apply Proc.Triple.bind hasked
  intro phase
  apply Proc.Triple.bind (Proc.triple_onlyIf (Q := fun _ p t => Ended phase p t ∧
    phase.final.main = .finished)
    (fun _ => Proc.triple_cut) fun hfinished p t hended => ⟨hended, not_not.mp hfinished⟩)
  intro _
  -- its failures are noted, and an exception of the phase is thrown again
  apply Proc.Triple.bind (Proc.triple_modify (Q := fun _ p t => Kept h t ∧
    (strict = true → phase.final.threw = false → Reported p t)) ?_)
  · intro _
    refine Proc.triple_onlyIf (fun _ => Proc.triple_throw fun p t hended => ⟨hended.1, nofun⟩) ?_
    intro hreturns p t hended
    exact ⟨hended.1, fun hstrict => hended.2 hstrict (Bool.eq_false_of_not_eq_true hreturns)⟩
  · rintro p t ⟨hended, hfinished⟩
    obtain ⟨hkept, hreported⟩ := hended hfinished
    refine ⟨hkept, fun hstrict hreturns m hm hfails => ?_⟩
    have hflags := hreported hstrict m hm hfails
    simp_all

theorem still_os (c : OsCall) : Proc.Still (os c) := by
  intro p t
  unfold os
  rw [Proc.meets_bind, Proc.meets_ask]
  refine ⟨trivial, fun reply => ?_⟩
  dsimp only
  split <;> rfl

/-- What holds inside a block of the synchronous engine: `fd` is open beside `h`. -/
def InBlock (strict : Bool) (h : Multiset KernelObject) (p : Process) (t : List HAEvent) : Prop :=
  Good strict (h + ownedFd p.fd) p t

theorem inBlock_of_none (hfd : p.fd = none) : InBlock strict h p t ↔ Good strict h p t := by
  unfold InBlock
  rw [hfd, ownedFd_none, add_zero]

theorem inBlock_of_some {fd : ℕ} (hfd : p.fd = some fd) :
    InBlock strict h p t ↔ Good strict (h + {.fd fd}) p t := by
  unfold InBlock
  rw [hfd, ownedFd_some]

theorem openBlock_takes (path : String) (flags : OpenFlags) :
    (openBlock path flags).Triple Allowed (InBlock strict h)
      (fun fd p t => p.fd = some fd ∧ Good strict (h + {.fd fd}) p t) (InBlock false h) := by
  apply Proc.triple_get_bind
  intro p
  cases hfd : p.fd with
  | some fd =>
      apply Proc.triple_pure
      rintro p' t ⟨rfl, hgood⟩
      exact ⟨hfd, (inBlock_of_some hfd).mp hgood⟩
  | none =>
      have hopened : (os (.openFile path flags)).Triple Allowed
          (fun p t => p.fd = none ∧ Good strict h p t)
          (fun reply p t => p.fd = none ∧ Good strict (h + {.fd reply.1.toNat}) p t)
          (fun p t => p.fd = none ∧ Good false h p t) :=
        (open_takes path flags).frame (F := fun p => p.fd = none) (still_os _)
      have hassigned : ∀ reply : ℤ × ℤ, (do
          Proc.modify fun p => { p with fd := some reply.1.toNat }
          pure reply.1.toNat : HA ℕ).Triple Allowed
          (fun p t => p.fd = none ∧ Good strict (h + {.fd reply.1.toNat}) p t)
          (fun fd p t => p.fd = some fd ∧ Good strict (h + {.fd fd}) p t)
          (fun p t => p.fd = none ∧ Good false h p t) := by
        intro reply
        refine Proc.Triple.bind (Proc.triple_modify (Q := fun _ p t =>
          p.fd = some reply.1.toNat ∧ Good strict (h + {.fd reply.1.toNat}) p t) ?_) fun _ => ?_
        · exact fun p t hpost => ⟨rfl, hpost.2.congr rfl⟩
        · exact Proc.triple_pure fun _ _ hpost => hpost
      refine (hopened.bind hassigned).weaken ?_ (fun _ _ _ hpost => hpost) ?_
      · rintro p' t ⟨rfl, hgood⟩
        exact ⟨hfd, (inBlock_of_none hfd).mp hgood⟩
      · rintro p' t ⟨hnone, hgood⟩
        exact (inBlock_of_none hnone).mpr hgood

/-- A shard leaves the descriptor of its block open, unless it is the last one. -/
theorem transferShard_takes (opt : Options) (path : String) (buffer : Ptr) (dump : Bool)
    (block shard : ℕ) :
    (transferShard opt path buffer dump block shard).Triple Allowed (InBlock strict h)
      (fun _ p t => InBlock strict h p t ∧ (shard + 1 = opt.shards → p.fd = none))
      (InBlock false h) := by
  apply Proc.Triple.bind (openBlock_takes path _)
  intro fd
  -- one transfer, with the descriptor open beside it
  have hpiece : ∀ c : OsCall, c.plain = true → ∀ bytes : ℕ, (do
      let reply ← os c
      Proc.onlyIf (reply.1 ≠ bytes) (Proc.throw (.error "short psync I/O")) : HA PUnit).Triple
      Allowed (fun p t => p.fd = some fd ∧ Good strict (h + {.fd fd}) p t)
      (fun _ p t => p.fd = some fd ∧ Good strict (h + {.fd fd}) p t) (InBlock false h) := by
    intro c hc bytes
    have hcalled : (os c).Triple Allowed
        (fun p t => p.fd = some fd ∧ Good strict (h + {.fd fd}) p t)
        (fun _ p t => p.fd = some fd ∧ Good strict (h + {.fd fd}) p t)
        (fun p t => p.fd = some fd ∧ Good false (h + {.fd fd}) p t) :=
      Proc.Triple.frame (F := fun p => p.fd = some fd) (leaves_os hc) (still_os c)
    refine Proc.Triple.bind (hcalled.weaken (fun _ _ hpre => hpre) (fun _ _ _ hpost => hpost)
      fun p t hpost => (inBlock_of_some hpost.1).mpr hpost.2) fun reply => ?_
    refine Proc.triple_onlyIf (fun _ => Proc.triple_throw ?_) fun _ _ _ hpost => hpost
    exact fun p t hpost => (inBlock_of_some hpost.1).mpr hpost.2.relax
  -- the last shard closes it
  have hclosed : (do
      Proc.modify fun p => { p with fd := none }
      let _ ← os (.close fd) : HA PUnit).Triple Allowed
      (fun p t => p.fd = some fd ∧ Good strict (h + {.fd fd}) p t)
      (fun _ p t => p.fd = none ∧ Good strict h p t) (InBlock false h) := by
    refine Proc.Triple.bind (Proc.triple_modify (Q := fun _ p t =>
      p.fd = none ∧ Good strict (h + {.fd fd}) p t) ?_) fun _ => ?_
    · exact fun p t hpre => ⟨rfl, hpre.2.congr rfl⟩
    have hgiven : (os (.close fd)).Triple Allowed
        (fun p t => p.fd = none ∧ Good strict (h + {.fd fd}) p t)
        (fun _ p t => p.fd = none ∧ Good strict h p t)
        (fun p t => p.fd = none ∧ Good false h p t) :=
      (close_gives fd).frame (F := fun p => p.fd = none) (still_os _)
    refine Proc.Triple.bind (hgiven.weaken (fun _ _ hpre => hpre) (fun _ _ _ hpost => hpost)
      fun p t hpost => (inBlock_of_none hpost.1).mpr hpost.2) fun _ => ?_
    exact Proc.triple_pure fun _ _ hpost => hpost
  dsimp only
  refine Proc.Triple.bind (Proc.triple_forM fun k _ => ?_) fun _ => ?_
  · cases dump with
    | true => exact hpiece _ rfl _
    | false => exact hpiece _ rfl _
  · refine Proc.triple_onlyIf
      (fun _ => hclosed.weaken (fun _ _ hpre => hpre) ?_ fun _ _ hpost => hpost) ?_
    · exact fun _ p t hpost => ⟨(inBlock_of_none hpost.1).mpr hpost.2, fun _ => hpost.1⟩
    · intro hnot p t hpre
      refine ⟨(inBlock_of_some hpre.1).mpr hpre.2, fun hlast => absurd (.inr hlast) hnot⟩

theorem closeBlock_gives :
    closeBlock.Triple Allowed (InBlock strict h) (fun _ => Good strict h) (Good false h) := by
  apply Proc.triple_get_bind
  intro p
  cases hfd : p.fd with
  | some fd =>
      refine (cleanup_takes (close_gives fd) (Good false h)).weaken ?_ (fun _ _ _ hpost => hpost)
        fun _ _ hpost => hpost
      rintro p' t ⟨rfl, hgood⟩
      exact (inBlock_of_some hfd).mp hgood
  | none =>
      apply Proc.triple_pure
      rintro p' t ⟨rfl, hgood⟩
      exact (inBlock_of_none hfd).mp hgood

/-- A block closes what it opens, however it ends. -/
theorem leaves_transferBlock (opt : Options) (path : String) (buffer : Ptr) (dump : Bool)
    (block : ℕ) : Leaves strict false h (transferBlock opt path buffer dump block) := by
  let Turn (k : ℕ) (p : Process) (t : List HAEvent) : Prop :=
    InBlock strict h p t ∧ (k = 0 ∨ k = opt.shards → p.fd = none)
  refine Proc.Triple.bind (Proc.triple_modify (Q := fun _ => Turn 0) ?_) fun _ => ?_
  · exact fun p t hgood => ⟨(inBlock_of_none rfl).mpr (hgood.congr rfl), fun _ => rfl⟩
  have hshards : ((List.range opt.shards).forM (transferShard opt path buffer dump block)).Triple
      Allowed (Turn 0) (fun _ => Turn opt.shards) (InBlock false h) := by
    refine Proc.triple_forM_range fun shard _ => ?_
    refine (transferShard_takes opt path buffer dump block shard).weaken (fun _ _ hpre => hpre.1)
      (fun _ p t hpost => ⟨hpost.1, fun hend => hpost.2 ?_⟩) fun _ _ hpost => hpost
    omega
  refine Proc.Triple.tryCatch (hshards.weaken (fun _ _ hpre => hpre) ?_ fun _ _ hpost => hpost) ?_
  · exact fun _ p t hpost => (inBlock_of_none (hpost.2 (.inr rfl))).mp hpost.1
  · intro error
    exact closeBlock_gives.bind fun _ => leaves_throw error

theorem leaves_transfer (opt : Options) (paths : List String) (buffer : Ptr) (dump : Bool) :
    Leaves strict false h (transfer opt paths buffer dump) := by
  unfold transfer
  split
  · exact leaves_transferAio opt paths buffer dump
  · exact Leaves.forM fun block _ => leaves_transferBlock opt _ buffer dump block

/-! ## `main` -/

theorem leaves_record (offset iteration : ℕ) (opt : Options) :
    Leaves strict false h (record offset iteration opt) := by
  unfold record
  split
  · exact leaves_pure _
  · exact leaves_throw _

theorem leaves_fillBuffer (opt : Options) (iteration : ℕ) (buffer : Ptr) :
    Leaves strict false h (fillBuffer opt iteration buffer) := by
  unfold fillBuffer
  apply Leaves.forM
  intro offset _
  apply Leaves.bind (leaves_record offset iteration opt)
  intro bytes
  exact leaves_local rfl

theorem leaves_verifyBuffer (opt : Options) (iteration : ℕ) (buffer : Ptr) :
    Leaves strict false h (verifyBuffer opt iteration buffer) := by
  refine Leaves.bind (Proc.triple_foldlM (fun mismatches offset _ => ?_) 0) fun mismatches =>
    (leaves_throw _).onlyIf
  apply Leaves.bind (leaves_record offset iteration opt)
  intro bytes
  apply (leaves_local rfl).bind
  exact fun _ => leaves_pure _

theorem leaves_commitBlock (opt : Options) (runDir : String) (block : ℕ) :
    Leaves strict false h (commitBlock opt runDir block) := by
  have hsync : Leaves strict false h (do
      let reply ← os (.openFile (temporaryPath runDir block) ⟨false, true, false⟩)
      let fd := reply.1.toNat
      Proc.tryCatch (do let _ ← os (.fdatasync fd); pure ⟨⟩) fun error => do
        cleanup (os (.close fd))
        Proc.throw error
      let _ ← os (.close fd)
      : HA PUnit) := by
    apply Proc.Triple.bind (open_takes _ _)
    intro reply
    refine Proc.Triple.bind (Q := fun _ => Good strict (h + {.fd reply.1.toNat})) ?_ fun _ => ?_
    · refine Proc.Triple.tryCatch ((leaves_os rfl).bind fun _ => leaves_pure _) fun error => ?_
      apply Proc.Triple.bind (cleanup_takes (close_gives _) (Good false h))
      exact fun _ => leaves_throw error
    · exact Proc.Triple.bind (close_gives _) fun _ => leaves_pure _
  apply hsync.onlyIf.bind
  intro _
  apply (leaves_os rfl).bind
  intro _
  apply (leaves_os rfl).bind
  exact fun _ => (leaves_throw _).onlyIf

theorem leaves_iteration (opt : Options) (runDir : String) (buffer : Ptr) (n : ℕ) :
    Leaves strict false h (iteration opt runDir buffer n) := by
  apply (leaves_fillBuffer opt n buffer).bind
  intro _
  apply (leaves_transfer opt _ buffer true).bind
  intro _
  apply (Leaves.forM fun block _ => leaves_commitBlock opt runDir block).bind
  intro _
  apply (leaves_local rfl).bind
  intro _
  apply (leaves_transfer opt _ buffer false).bind
  exact fun _ => leaves_verifyBuffer opt n buffer

theorem leaves_withMemory {m : HA PUnit} (hm : Leaves strict false h m) :
    Leaves strict false h (withMemory m) := by
  apply (leaves_setMemory _).bind
  intro _
  refine Leaves.bind (hm.tryCatch fun error => ?_) fun _ => leaves_destroyMemory _
  apply Proc.Triple.bind (leaves_destroyMemory (Good false h))
  exact fun _ => leaves_throw error

/-- The body of `main` returns only if no `CLEANUP` has failed. -/
theorem body_ends (opt : Options) :
    (body opt).Triple Allowed (Good true h)
      (fun _ p t => p.cleanupFailed = false ∧ Good true h p t) (Good false h) := by
  have hos : ∀ c : OsCall, c.plain = true → (do let _ ← os c; pure ⟨⟩ : HA PUnit).Triple Allowed
      (fun p t => p.cleanupFailed = false ∧ Good true h p t)
      (fun _ p t => p.cleanupFailed = false ∧ Good true h p t) (Good false h) := by
    intro c hc
    have hcalled : (os c).Triple Allowed (fun p t => p.cleanupFailed = false ∧ Good true h p t)
        (fun _ p t => p.cleanupFailed = false ∧ Good true h p t)
        (fun p t => p.cleanupFailed = false ∧ Good false h p t) :=
      Proc.Triple.frame (F := fun p => p.cleanupFailed = false) (leaves_os hc) (still_os c)
    refine Proc.Triple.bind (hcalled.weaken (fun _ _ hpre => hpre) (fun _ _ _ hpost => hpost)
      fun _ _ hpost => hpost.2) fun _ => ?_
    exact Proc.triple_pure fun _ _ hpost => hpost
  have hthrow : ∀ e : Exn, Leaves true false h (Proc.throw e : HA PUnit) := leaves_throw
  refine Proc.Triple.bind (hthrow _).onlyIf fun _ => ?_
  apply Proc.Triple.bind (leaves_local rfl)
  intro dir
  cases dir with
  | none => exact Proc.triple_throw fun _ _ hgood => hgood.relax
  | some runDir =>
      apply Proc.Triple.bind (leaves_os rfl)
      intro _
      refine Proc.Triple.bind (leaves_withMemory ?_) fun _ => ?_
      · apply (leaves_acquireMemory opt).bind
        intro _
        apply leaves_get.bind
        exact fun p => Leaves.forM fun n _ => leaves_iteration opt runDir _ n
      apply Proc.triple_get_bind
      intro p
      refine Proc.Triple.bind (Q := fun _ p t => p.cleanupFailed = false ∧ Good true h p t)
        (Proc.triple_onlyIf (fun _ => Proc.triple_throw fun _ _ hpost => hpost.2.relax) ?_)
        fun _ => ?_
      · rintro hclean p' t ⟨rfl, hgood⟩
        exact ⟨Bool.eq_false_of_not_eq_true hclean, hgood⟩
      · refine Proc.triple_onlyIf (fun _ => ?_) fun _ _ _ hpost => hpost
        refine Proc.Triple.bind (Proc.triple_forM fun block _ => hos _ rfl) fun _ => ?_
        exact hos _ rfl

theorem main_ends (opt : Options) :
    (main opt).Triple Allowed (Good true h)
      (fun code _ t => Kept h t ∧
        (code = 0 ∧ (∀ m ∈ moments t, ¬m.releaseFails) ∨ code = 1)) (fun _ _ => False) := by
  refine Proc.Triple.tryCatch ((body_ends opt).bind fun _ => Proc.triple_pure ?_) fun _ =>
    Proc.triple_pure fun _ t hgood => ⟨hgood.kept, .inr rfl⟩
  rintro p t ⟨hclean, hgood⟩
  refine ⟨hgood.kept, .inl ⟨rfl, fun m hm hfails => ?_⟩⟩
  rw [hgood.reported rfl m hm hfails] at hclean
  cases hclean

theorem good_nil : Good true 0 {} [] where
  kept := {
    disciplined := fun t₁ e t₂ hsplit => absurd hsplit (by simp [moments])
    held := rfl
    ended := by simp }
  reported _ m hm := absurd hm (by simp [moments])

/-! ## Every run -/

/-- How far a phase has got. -/
def phaseState (e : HAEvent) : Option State :=
  match e with
  | ⟨_, .aioPhase _ _ _ _, phase⟩ => some phase.final
  | _ => none

/-- No descriptor of a request is closed, and no request is destroyed, while a
request is in flight. -/
def ClosesQuietly (t : List HAEvent) : Prop :=
  (∀ m, .step m ∈ moments t → m.1.main.quiet = true → m.1.inFlight = []) ∧
    ∀ e ∈ t, ∀ s, phaseState e = some s → s.main = .finished → s.inFlight = []

/-- Whenever `main` makes a call, be it a write to the buffer or one that releases
it, every phase before it has ended with nothing in flight. -/
def CallsQuietly (t : List HAEvent) : Prop :=
  ∀ t₁ e t₂, t = t₁ ++ e :: t₂ → ∀ e' ∈ t₁, inFlight e' = []

theorem exists_phase_of_step {e : HAEvent} {m : Move} (h : .step m ∈ momentsOf e) :
    ∃ (opt : Options) (cbAddr : ℕ → ℕ), Transition.Reachable (system (opt.config cbAddr)) m.1 := by
  obtain ⟨p, c, r⟩ := e
  cases c with
  | aioPhase opt paths buffer dump =>
      obtain ⟨m', hm', heq⟩ := List.mem_map.mp h
      cases heq
      exact ⟨opt, r.cbAddr, r.path.reachable_of_mem hm'⟩
  | _ => cases List.mem_singleton.mp h

theorem closesQuietly (t : List HAEvent) : ClosesQuietly t := by
  constructor
  · intro m hm hquiet
    obtain ⟨e, -, hm⟩ := List.mem_flatMap.mp hm
    obtain ⟨opt, cbAddr, hreachable⟩ := exists_phase_of_step hm
    exact quiet rfl hreachable hquiet
  · intro e _ s hphase hfinished
    obtain ⟨p, c, r⟩ := e
    cases c with
    | aioPhase opt paths buffer dump =>
        cases hphase
        exact quiet rfl ⟨_, r.path⟩ (by rw [hfinished]; rfl)
    | _ => cases hphase

theorem callsQuietly {opt : Options} {t : List HAEvent} (ht : (main opt {}).Visits t) :
    CallsQuietly t := by
  intro t₁ e t₂ hsplit
  have hallowed := Prog.Meets.ok_of_visits (main_ends opt {} [] good_nil) ht t₁ e t₂ hsplit
  exact hallowed.ended

/-- The moments of one call release only what was open before or is opened in it. -/
theorem Allowed.disciplined_concat {e : HAEvent} (hallowed : Allowed t e.state e.call) :
    accounts.Disciplined (moments (t ++ [e])) := by
  rw [moments_concat]
  obtain ⟨p, c, r⟩ := e
  cases c with
  | aioPhase opt paths buffer dump =>
      exact hallowed.disciplined.append
        ((recorded_exact r.path).1.map acquires_step releases_step)
  | _ => exact hallowed.disciplined.concat (hallowed.releases r)

theorem disciplined_of_visits {opt : Options} {t : List HAEvent} (ht : (main opt {}).Visits t) :
    accounts.Disciplined (moments t) := by
  rcases List.eq_nil_or_concat t with rfl | ⟨t₁, e, rfl⟩
  · exact good_nil.kept.disciplined
  · rw [List.concat_eq_append] at ht ⊢
    have hallowed := Prog.Meets.ok_of_visits (main_ends opt {} [] good_nil) ht t₁ e [] rfl
    exact hallowed.disciplined_concat

/-- **Lifetimes.**  Whatever fails in a run of `main`, however the kernel and the
threads of a phase interleave: requests, descriptors and the buffer outlive the
requests in flight, nothing is released that is not open, at the end every
descriptor and every context has been released once, and the exit code is `0` only
if no release call has failed. -/
theorem lifetimes_respected (opt : Options) :
    (∀ t, (main opt {}).Visits t →
      ClosesQuietly t ∧ CallsQuietly t ∧ accounts.Disciplined (moments t)) ∧
    (∀ t x p, (main opt {}).Runs t (x, p) →
      accounts.acquired (moments t) = accounts.released (moments t) ∧
        (x = .ok 0 ∧ (∀ m ∈ moments t, ¬m.releaseFails) ∨ x = .ok 1)) := by
  refine ⟨fun t ht => ⟨closesQuietly t, callsQuietly ht, disciplined_of_visits ht⟩, ?_⟩
  intro t x p ht
  have hend := Prog.Meets.post_of_runs (main_ends opt {} [] good_nil) ht
  rw [List.nil_append] at hend
  cases x with
  | error e => exact absurd hend id
  | ok code =>
      obtain ⟨hkept, hcode⟩ := hend
      refine ⟨hkept.disciplined.acquired_eq_released hkept.held, ?_⟩
      rcases hcode with ⟨rfl, hnone⟩ | rfl
      · exact .inl ⟨rfl, hnone⟩
      · exact .inr rfl

/-- Two blocks of two shards with 16 bytes each, twice. -/
def twoByTwo : Options :=
  { dir := "/d", blocks := 2, shards := 2, slotBytes := 16, depth := 2, iterations := 2 }

/-- A phase in which nothing fails: each request completes before the next one is submitted. -/
def calmPhase (count bytes : ℕ) : List Action :=
  List.flatten
    [[.main .ok, .main (.fd 5), .main (.fd 6), .main .ok, .main .ok],
      (List.range count).map fun i => .main (.fd (7 + i)), [.main .leave, .main .ok],
      (List.range count).flatMap fun i =>
        submitRun ++ [.kernel (.complete i bytes 0), .kernel (.notify 0)] ++ reapRun,
      [.main .ok, .main .ok, .main .ok, .main .ok, .reaper .ok, .main .ok, .main .ok],
      List.replicate count (.main .ok), [.main .leave, .main .ok, .main .leave, .main .ok],
      List.replicate (count + 1) (.main .leave), [.main .ok, .main .ok]]

/-- What has been copied to an address last. -/
def lastCopied (src : Ptr) (t : List HAEvent) : List UInt8 :=
  ((t.filterMap fun e => match e.call with
    | .memcpy dst bytes => if dst = src then some bytes else none
    | _ => none).getLast?).getD []

/-- An environment in which nothing fails, and the buffer is read as it was filled. -/
def calm (t : List HAEvent) : (c : Call) → c.Reply
  | .os (.stat _) => (0, 32)
  | .os _ => (0, 0)
  | .sdk (.halMemGetAllocationGranularity _) => (0, 4096)
  | .sdk (.halMemAddressReserve _) => (0, 2 ^ 30)
  | .sdk (.halMemCreate _ _) => (0, 77)
  | .sdk _ => (0, 0)
  | .mkdtemp _ => some "/d/run"
  | .malloc _ => 0
  | .free _ => ()
  | .memcpy _ _ => ()
  | .memset _ _ _ => ()
  | .readBuffer src _ => fun j => (lastCopied src t).getD j 0
  | .aioPhase opt _ _ _ =>
      let phase := Transition.follow (system (opt.config fun i => 4096 + 64 * i)) {}
        (calmPhase 4 opt.slotBytes)
      ⟨_, phase.1, phase.2, Transition.path_follow _ _ _⟩

/-- The four phases of a run that passes open and close seven things each. -/
theorem lifetimes_respected_twoByTwo :
    accounts.acquired (moments (Prog.exec calm (main twoByTwo {}) []).1) =
        accounts.released (moments (Prog.exec calm (main twoByTwo {}) []).1) ∧
      (accounts.acquired (moments (Prog.exec calm (main twoByTwo {}) []).1)).card = 28 ∧
      ∀ m ∈ moments (Prog.exec calm (main twoByTwo {}) []).1, ¬m.releaseFails := by
  obtain ⟨hend, hcard⟩ : (Prog.exec calm (main twoByTwo {}) []).2 =
        some (.ok 0, { memory := { initialized := true, deviceSet := true } }) ∧
      (accounts.acquired (moments (Prog.exec calm (main twoByTwo {}) []).1)).card = 28 := by
    decide +kernel
  obtain ⟨hbalance, hcode⟩ := (lifetimes_respected twoByTwo).2 _ _ _ (Prog.runs_of_exec hend)
  refine ⟨hbalance, hcard, ?_⟩
  rcases hcode with ⟨-, hnone⟩ | hone
  · exact hnone
  · cases hone

end SharingProbe.HalAio
