import SharingProbe.AioOperation.Completions
import SharingProbe.HostShare.Model
import SharingProbe.MultiShare.Model
import SharingProbe.Share.Rules

/-!
# Contexts of asynchronous transfers

`aio_operation` ends in one of four ways.  If it gets to see all events, everything that was
submitted has completed, and the context stays with the caller.  Otherwise it destroys the
context, which waits for what is in flight, and takes it from the caller.  The two callers
destroy a context only if it is still theirs.
-/

namespace SharingProbe.AioOperation

open Interaction Pieces Share

/-! ## The ways to end -/

section Operation

variable (fd : ℕ) (buffer : Buffer) (bytes : ℕ) (write : Bool) (p : Process)

/-- The calls of `aio_operation`. -/
def submit (r : Answer) : SHEvent :=
    ⟨p, .direct (.ioSubmit p.ctx (requests fd buffer bytes write)), r⟩

def getevents (r : Answer) : SHEvent := ⟨p, .direct (.ioGetevents p.ctx), r⟩

def destroy (name : String) (r : Answer) : SHEvent := ⟨p, .cleanup (.ioDestroy p.ctx) name, r⟩

/-- The context is destroyed, and the caller has it no longer. -/
def withoutContext (r : Answer) : Process :=
  { (if r.ret = 0 then p else { p with cleanupFailed := true }) with ctx := 0 }

/-- The calls, the outcome and the process after it. -/
inductive Ends : List SHEvent → Except String PUnit → Process → Prop
  | notSubmitted {r₁ r : Answer} (hsubmitted : r₁.ret ≠ 4) :
      Ends [submit fd buffer bytes write p r₁, destroy p "io_destroy incomplete submit" r]
        (.error "io_submit") (withoutContext p r)
  | notCompleted {r₁ r₂ r : Answer} (hsubmitted : r₁.ret = 4) (hcompleted : r₂.ret ≠ 4) :
      Ends [submit fd buffer bytes write p r₁, getevents p r₂,
        destroy p "io_destroy incomplete completion" r] (.error "io_getevents") (withoutContext p r)
  | notFull {r₁ r₂ : Answer} (hsubmitted : r₁.ret = 4) (hcompleted : r₂.ret = 4)
      (hfull : ¬Full (bytes / 4) r₂.events) :
      Ends [submit fd buffer bytes write p r₁, getevents p r₂] (.error "aio completion") p
  | full {r₁ r₂ : Answer} (hsubmitted : r₁.ret = 4) (hcompleted : r₂.ret = 4)
      (hfull : Full (bytes / 4) r₂.events) :
      Ends [submit fd buffer bytes write p r₁, getevents p r₂] (.ok ⟨⟩) p

variable {fd buffer bytes write p}

/-- A call that came back with less than was asked for. -/
theorem meets_onlyIf_incomplete {count : ℤ} {name what : String} {rest : SH PUnit}
    {t : List SHEvent} {Q : Except String PUnit → Process → List SHEvent → Prop}
    (hless : count ≠ 4 → ∀ r, Q (.error what) (withoutContext p r) (t ++ [destroy p name r]))
    (hall : count = 4 → rest.Meets (fun _ _ _ => True) p t Q) :
    Proc.Meets (fun _ _ _ => True) (do
      Proc.onlyIf (count ≠ 4) do
        cleanup (.ioDestroy p.ctx) name
        Proc.modify fun p => { p with ctx := 0 }
        fail what
      rest) p t Q := by
  by_cases hcount : count = 4
  · rw [Proc.onlyIf, if_neg (not_not.mpr hcount)]
    exact hall hcount
  · rw [Proc.onlyIf, if_pos hcount, Proc.meets_bind]
    simp only [cleanup, fail, Proc.meets_bind, Proc.meets_ask, true_and]
    intro r
    have hr := hless hcount r
    unfold withoutContext destroy at hr
    unfold Proc.onlyIf
    by_cases hret : r.ret = 0
    · rw [if_pos hret] at hr
      simpa [hret] using hr
    · rw [if_neg hret] at hr
      simpa [hret] using hr

theorem meets_aioOperation :
    (aioOperation fd buffer bytes write).Meets (fun _ _ _ => True) p []
      fun x p' t => Ends fd buffer bytes write p t x p' := by
  unfold aioOperation direct
  simp only [Proc.meets_bind (m := Proc.get), Proc.meets_get,
    Proc.meets_bind (m := Proc.ask _), Proc.meets_ask, true_and]
  intro r₁
  apply meets_onlyIf_incomplete
  · exact fun hsubmitted r => .notSubmitted hsubmitted
  intro hsubmitted
  rw [Proc.meets_bind, Proc.meets_ask]
  refine ⟨trivial, fun r₂ => ?_⟩
  apply meets_onlyIf_incomplete
  · exact fun hcompleted r => .notCompleted hsubmitted hcompleted
  intro hcompleted
  by_cases hfull : Full (bytes / 4) (Answer.events r₂)
  · rw [completionFailed_iff.mpr hfull]
    exact .full hsubmitted hcompleted hfull
  · have hfailed : completionFailed (bytes / 4) (Answer.events r₂) = true := by
      rw [← Bool.not_eq_false, completionFailed_iff]
      exact hfull
    rw [hfailed]
    exact .notFull hsubmitted hcompleted hfull

theorem ends_of_runs {t : List SHEvent} {x : Except String PUnit} {p' : Process}
    (h : (aioOperation fd buffer bytes write p).Runs t (x, p')) :
    Ends fd buffer bytes write p t x p' :=
  Prog.Meets.post_of_runs meets_aioOperation h

/-! ## What is in flight -/

/-- What a call makes of the number of requests in flight: `io_submit` returns how many it has
accepted, `io_getevents` how many have completed, and `io_destroy` waits for the others. -/
def inFlightAfter (n : ℤ) (e : SHEvent) : ℤ :=
  match e.call, e.reply with
  | .direct (.ioSubmit _ _), r => n + max (Answer.ret r) 0
  | .direct (.ioGetevents _), r => n - max (Answer.ret r) 0
  | .cleanup (.ioDestroy _) _, _ => 0
  | _, _ => n

/-- The requests in flight after these calls. -/
def inFlight (t : List SHEvent) : ℤ := t.foldl inFlightAfter 0

/-- The context that a call destroys. -/
def destroyedBy (e : SHEvent) : Option ℕ :=
  match e.call with
  | .cleanup (.ioDestroy ctx) _ => some ctx
  | _ => none

/-- The contexts that these calls destroy. -/
def destroyed (t : List SHEvent) : List ℕ := t.filterMap destroyedBy

/-- All four requests were submitted and reported, each of them as a whole. -/
def Accepted (fd : ℕ) (buffer : Buffer) (bytes : ℕ) (write : Bool) (p : Process)
    (t : List SHEvent) : Prop :=
  ∃ r₁ r₂, t = [submit fd buffer bytes write p r₁, getevents p r₂] ∧ Answer.ret r₁ = 4 ∧
    Answer.ret r₂ = 4 ∧ Full (bytes / 4) (Answer.events r₂)

/-- Nothing is left in flight.  Either the context has not been destroyed, so that everything
submitted has completed, and the caller still has it; or it has been destroyed once, and the
caller has it no longer. -/
structure Settled (p : Process) (t : List SHEvent) (p' : Process) : Prop where
  quiet : inFlight t = 0
  context : (destroyed t = [] ∧ p'.ctx = p.ctx) ∨ (destroyed t = [p.ctx] ∧ p'.ctx = 0)

theorem Ends.ok_iff {t : List SHEvent} {x : Except String PUnit} {p' : Process}
    (h : Ends fd buffer bytes write p t x p') :
    x = .ok ⟨⟩ ↔ Accepted fd buffer bytes write p t := by
  constructor
  · rintro rfl
    cases h with
    | full hsubmitted hcompleted hfull => exact ⟨_, _, rfl, hsubmitted, hcompleted, hfull⟩
  · rintro ⟨r₁, r₂, ht, -, -, hfull⟩
    cases h with
    | notSubmitted => cases ht
    | notCompleted => cases ht
    | notFull _ _ hnot =>
        cases ht
        exact absurd hfull hnot
    | full => rfl

theorem Ends.settled {t : List SHEvent} {x : Except String PUnit} {p' : Process}
    (h : Ends fd buffer bytes write p t x p') : Settled p t p' := by
  have hreported : ∀ r₁ r₂ : Answer, r₁.ret = 4 → r₂.ret = 4 →
      inFlight [submit fd buffer bytes write p r₁, getevents p r₂] = 0 := by
    intro r₁ r₂ h₁ h₂
    show 0 + max r₁.ret 0 - max r₂.ret 0 = 0
    rw [h₁, h₂]
    decide
  cases h with
  | notSubmitted => exact ⟨rfl, .inr ⟨rfl, rfl⟩⟩
  | notCompleted => exact ⟨rfl, .inr ⟨rfl, rfl⟩⟩
  | notFull hsubmitted hcompleted => exact ⟨hreported _ _ hsubmitted hcompleted, .inl ⟨rfl, rfl⟩⟩
  | full hsubmitted hcompleted => exact ⟨hreported _ _ hsubmitted hcompleted, .inl ⟨rfl, rfl⟩⟩

end Operation

/-! ## Contexts that are set up -/

/-- What a call makes of the context that is set up. -/
def liveAfter (live : Option ℕ) (e : SHEvent) : Option ℕ :=
  match e.call, e.reply with
  | .check .ioSetup _, r => if Answer.ret r = 0 then some (Answer.out r) else live
  | .cleanup (.ioDestroy _) _, _ => none
  | _, _ => live

/-- The context that has been set up and not been destroyed since. -/
def live (t : List SHEvent) : Option ℕ := t.foldl liveAfter none

@[simp] theorem live_concat (t : List SHEvent) (e : SHEvent) :
    live (t ++ [e]) = liveAfter (live t) e := List.foldl_concat ..

/-- A context is destroyed only while it is set up. -/
def Live (t : List SHEvent) (_p : Process) (c : Share.Call) : Prop :=
  ∀ ctx name, c = .cleanup (.ioDestroy ctx) name → live t = some ctx

/-- The call neither sets up a context nor destroys one. -/
def Plain (c : Share.Call) : Prop := ∀ live p r, liveAfter live ⟨p, c, r⟩ = live

/-- The context of the process is the one that is set up. -/
def Owns (p : Process) (t : List SHEvent) : Prop := live t = some p.ctx

/-- If the process has a context, then it is the one that is set up. -/
def Holds (p : Process) (t : List SHEvent) : Prop := p.ctx ≠ 0 → live t = some p.ctx

/-- The condition is about the context alone. -/
def AboutContext (I : Process → List SHEvent → Prop) : Prop :=
  ∀ p p' t t', p'.ctx = p.ctx → live t' = live t → I p t → I p' t'

theorem aboutContext_owns : AboutContext Owns := by
  intro p p' t t' hctx hlive h
  unfold Owns at h ⊢
  rw [hlive, hctx, h]

theorem aboutContext_holds : AboutContext Holds := by
  intro p p' t t' hctx hlive h hne
  rw [hctx] at hne
  rw [hlive, hctx, h hne]

theorem holds_of_owns {p : Process} {t : List SHEvent} (h : Owns p t) : Holds p t := fun _ => h

/-! ## Rules -/

section Rules

variable {I E : Process → List SHEvent → Prop}

theorem live_of_plain {c : Share.Call} (hc : Plain c) (t : List SHEvent) (p : Process) :
    Live t p c := by
  rintro ctx name rfl
  have hkeeps := hc (some ctx) p {}
  cases hkeeps

theorem keeps_plain (hI : AboutContext I) {c : Share.Call} (hc : Plain c) : Keeps Live I c := by
  refine ⟨fun p t _ => live_of_plain hc t p, fun p t r h => ?_⟩
  exact hI p p t _ rfl (by rw [live_concat, hc]) h

theorem triple_plain_cleanup (hI : AboutContext I) {op : Share.Op} {name : String}
    (hc : Plain (.cleanup op name)) :
    Proc.Triple Live I (cleanup op name) (fun _ => I) E := by
  apply triple_keeps_cleanup
  refine ⟨fun p t _ => live_of_plain hc t p, fun p t r h => ?_⟩
  refine hI p _ t _ ?_ (by rw [live_concat, hc]) h
  split <;> rfl

theorem triple_plain_check (hI : AboutContext I) {op : Share.Op} {name : String}
    (hc : Plain (.check op name)) : Proc.Triple Live I (check op name) (fun _ => I) I :=
  triple_keeps_check (keeps_plain hI hc)

theorem triple_plain_verify (hI : AboutContext I) {buffer : Buffer} {bytes : ℕ} {seed : UInt64}
    {phase : String} : Proc.Triple Live I (verify buffer bytes seed phase) (fun _ => I) I :=
  triple_verify fun _ _ => keeps_plain hI fun _ _ _ => rfl

theorem triple_plain_clear (hI : AboutContext I) {buffer : Buffer} :
    Proc.Triple Live I (clear buffer) (fun _ => I) E :=
  triple_keeps (keeps_plain hI fun _ _ _ => rfl)

/-- The context is destroyed. -/
theorem triple_ioDestroy {ctx : ℕ} {name : String} :
    Proc.Triple Live (fun _ t => live t = some ctx) (cleanup (.ioDestroy ctx) name)
      (fun _ _ t => live t = none) E := by
  apply triple_cleanup
  · rintro p t h ctx' name' hcall
    obtain ⟨hop, -⟩ := Share.Call.cleanup.inj hcall
    rw [h, Share.Op.ioDestroy.inj hop]
  · exact fun p t r _ _ => live_concat t _
  · exact fun p t r _ _ => live_concat t _

/-- If `aio_operation` throws, the caller has the context, or none. -/
theorem triple_aioOperation_owns {fd : ℕ} {buffer : Buffer} {bytes : ℕ} {write : Bool} :
    Proc.Triple Live Owns (aioOperation fd buffer bytes write) (fun _ => Owns) Holds := by
  have hquiesce : ∀ {ctx name what}, Proc.Triple Live (fun p t => p.ctx = ctx ∧ Owns p t) (do
      cleanup (.ioDestroy ctx) name
      Proc.modify fun p => { p with ctx := 0 }
      fail what : SH PUnit) (fun _ p t => p.ctx = ctx ∧ Owns p t) Holds := by
    intro ctx name what
    refine Proc.Triple.bind (Q := fun _ _ t => live t = none) ?_ fun _ => ?_
    · refine triple_ioDestroy.weaken ?_ (fun _ _ _ h => h) fun _ _ h => h
      rintro p t ⟨rfl, h⟩
      exact h
    refine Proc.Triple.bind (Q := fun _ p _ => p.ctx = 0) (Proc.triple_modify fun _ _ _ => rfl)
      fun _ => ?_
    exact triple_fail fun p t hctx hne => absurd hctx hne
  unfold aioOperation
  refine Proc.triple_get_bind fun p => ?_
  have hI : AboutContext fun p' t => p'.ctx = p.ctx ∧ Owns p' t := by
    rintro p₁ p₂ t t' hctx hlive ⟨h, howns⟩
    exact ⟨hctx.trans h, aboutContext_owns p₁ p₂ t t' hctx hlive howns⟩
  refine Proc.Triple.weaken (P := fun p' t => p'.ctx = p.ctx ∧ Owns p' t)
    (Q := fun _ p' t => p'.ctx = p.ctx ∧ Owns p' t) (E := Holds) ?_ ?_ (fun _ _ _ h => h.2)
    fun _ _ h => h
  · refine Proc.Triple.bind (triple_keeps (keeps_plain hI fun _ _ _ => rfl)) fun submitted => ?_
    refine Proc.Triple.bind (Proc.triple_onlyIf (fun _ => hquiesce) fun _ _ _ h => h) fun _ => ?_
    refine Proc.Triple.bind (triple_keeps (keeps_plain hI fun _ _ _ => rfl)) fun completed => ?_
    refine Proc.Triple.bind (Proc.triple_onlyIf (fun _ => hquiesce) fun _ _ _ h => h) fun _ => ?_
    apply Proc.triple_onlyIf
    · exact fun _ => triple_fail fun _ _ h => holds_of_owns h.2
    · exact fun _ _ _ h => h
  · rintro p' t ⟨rfl, howns⟩
    exact ⟨rfl, howns⟩

/-- A context is set up. -/
theorem triple_ioSetup {α : Type} {k : SH α} {Q : α → Process → List SHEvent → Prop}
    (hk : Proc.Triple Live Owns k Q Holds) :
    Proc.Triple Live (fun p _ => p.ctx = 0) (do
      let setup ← check .ioSetup "io_setup"
      Proc.modify fun p => { p with ctx := setup.out }
      k) Q Holds := by
  apply triple_check_modify (Q := fun _ => Owns)
  · exact fun _ _ _ _ _ hcall => nomatch hcall
  · intro p t r _ hret
    unfold Owns
    rw [live_concat]
    exact if_pos hret
  · exact fun p t r hctx _ hne => absurd hctx hne
  · exact fun _ => hk

/-- What a handler does with the context that is still there. -/
theorem triple_destroy_held {ctx : ℕ} {name : String} :
    Proc.Triple Live (fun p t => p.ctx = ctx ∧ Holds p t)
      (Proc.onlyIf (ctx ≠ 0) (cleanup (.ioDestroy ctx) name)) (fun _ _ _ => True)
      fun _ _ => True := by
  apply Proc.triple_onlyIf
  · intro hne
    refine triple_ioDestroy.weaken ?_ (fun _ _ _ _ => trivial) fun _ _ h => h
    rintro p t ⟨rfl, h⟩
    exact h hne
  · exact fun _ _ _ _ => trivial

end Rules

theorem aboutContext_true : AboutContext fun _ _ => True := fun _ _ _ _ _ _ _ => trivial

/-! ## `multi_share` -/

theorem triple_multiTransfers (cfg : MultiShare.Config) (rank fd : ℕ) (seed : UInt64) :
    Proc.Triple Live (fun p _ => p.ctx = 0) (MultiShare.aioTransfers cfg rank fd seed)
      (fun _ => Owns) Holds := by
  have hverify : ∀ {buffer phase}, Proc.Triple Live Owns (verify buffer cfg.bytes seed phase)
      (fun _ => Owns) Holds := fun {buffer phase} =>
    (triple_plain_verify aboutContext_owns).weaken (fun _ _ h => h) (fun _ _ _ h => h)
      fun _ _ => holds_of_owns
  refine triple_ioSetup ?_
  refine triple_aioOperation_owns.bind fun _ => ?_
  refine (triple_plain_clear aboutContext_owns).bind fun _ => ?_
  refine triple_aioOperation_owns.bind fun _ => ?_
  refine hverify.bind fun _ => ?_
  refine Proc.Triple.bind (Q := fun _ => Owns) ?_ fun _ => ?_
  · exact (triple_plain_check aboutContext_owns fun _ _ _ => rfl).weaken (fun _ _ h => h)
      (fun _ _ _ h => h) fun _ _ => holds_of_owns
  refine triple_aioOperation_owns.bind fun _ => ?_
  refine (triple_plain_clear aboutContext_owns).bind fun _ => ?_
  exact triple_aioOperation_owns.bind fun _ => hverify

theorem triple_bufferedAio (cfg : MultiShare.Config) (rank : ℕ) (seed : UInt64) :
    Proc.Triple Live (fun _ _ => True) (MultiShare.bufferedAio cfg rank seed) (fun _ _ _ => True)
      fun _ _ => True := by
  have hdirect : ∀ {op}, Plain (.direct op) → Proc.Triple Live (fun _ _ => True) (direct op)
      (fun _ _ _ => True) fun _ _ => True := fun h => triple_keeps (keeps_plain aboutContext_true h)
  have hclose : ∀ {fd name}, Proc.Triple Live (fun _ _ => True) (cleanup (.close fd) name)
      (fun _ _ _ => True) fun _ _ => True :=
    triple_plain_cleanup aboutContext_true fun _ _ _ => rfl
  unfold MultiShare.bufferedAio
  refine Proc.Triple.bind (triple_fill fun _ _ => keeps_plain aboutContext_true fun _ _ _ => rfl)
    fun _ => ?_
  refine (hdirect fun _ _ _ => rfl).bind fun opened => ?_
  refine Proc.Triple.bind (Q := fun _ _ _ => True)
    (Proc.triple_onlyIf (fun _ => triple_keeps_fail) fun _ _ _ h => h) fun _ => ?_
  refine (hdirect fun _ _ _ => rfl).bind fun unlinked => ?_
  refine Proc.Triple.bind (Q := fun _ _ _ => True) ?_ fun _ => ?_
  · apply Proc.triple_onlyIf
    · exact fun _ => (hdirect fun _ _ _ => rfl).bind fun _ => triple_keeps_fail
    · exact fun _ _ _ h => h
  refine Proc.Triple.bind (Q := fun _ p _ => p.ctx = 0) (Proc.triple_modify fun _ _ _ => rfl)
    fun _ => ?_
  refine Proc.Triple.bind (Q := fun _ => Owns) ?_ fun _ => ?_
  · refine (triple_multiTransfers cfg rank _ seed).tryCatch fun error => ?_
    refine Proc.triple_get_bind fun p => ?_
    refine Proc.Triple.bind (Q := fun _ _ _ => True) ?_ fun _ => ?_
    · refine triple_destroy_held.weaken ?_ (fun _ _ _ h => h) fun _ _ h => h
      rintro p' t ⟨rfl, h⟩
      exact ⟨rfl, h⟩
    exact hclose.bind fun _ => Proc.triple_throw fun _ _ h => h
  refine Proc.triple_get_bind fun p => ?_
  refine Proc.Triple.bind (Q := fun _ _ _ => True) ?_ fun _ => hclose
  refine triple_ioDestroy.weaken ?_ (fun _ _ _ _ => trivial) fun _ _ h => h
  rintro p' t ⟨rfl, h⟩
  exact h

/-! ## `host_share` -/

section HostShare

variable (bytes : ℕ) (seed : UInt64)

theorem triple_countFailure {I E : Process → List SHEvent → Prop} (hI : AboutContext I) :
    Proc.Triple Live I HostShare.countFailure (fun _ => I) E :=
  Proc.triple_modify fun p t h => hI p _ t t rfl rfl h

theorem triple_caseResult {I E : Process → List SHEvent → Prop} (hI : AboutContext I)
    {case : Case} {passed : Bool} :
    Proc.Triple Live I (HostShare.caseResult case passed) (fun _ => I) E :=
  triple_keeps (keeps_plain hI fun _ _ _ => rfl)

theorem triple_caseTransfers (fd : ℕ) (write : Bool) :
    Proc.Triple Live Owns (HostShare.aioTransfers bytes seed fd write) (fun _ => Owns) Holds := by
  have hverify : ∀ {buffer seed phase}, Proc.Triple Live Owns (verify buffer bytes seed phase)
      (fun _ => Owns) Holds := fun {buffer seed phase} =>
    (triple_plain_verify aboutContext_owns).weaken (fun _ _ h => h) (fun _ _ _ h => h)
      fun _ _ => holds_of_owns
  unfold HostShare.aioTransfers
  refine triple_aioOperation_owns.bind fun _ => ?_
  split
  · refine Proc.Triple.bind (Q := fun _ => Owns) ?_ fun _ => ?_
    · exact (triple_plain_check aboutContext_owns fun _ _ _ => rfl).weaken (fun _ _ h => h)
        (fun _ _ _ h => h) fun _ _ => holds_of_owns
    refine (triple_plain_clear aboutContext_owns).bind fun _ => ?_
    exact triple_aioOperation_owns.bind fun _ => hverify
  · exact hverify

/-- After a case that has failed, the loop goes on only with the context. -/
theorem triple_aioCase (fd : ℕ) (odirect write : Bool) :
    Proc.Triple Live Owns (HostShare.aioCase bytes seed fd odirect write) (fun _ => Owns)
      Holds := by
  unfold HostShare.aioCase
  refine Proc.Triple.bind (triple_fill fun _ _ => keeps_plain aboutContext_owns fun _ _ _ => rfl)
    fun _ => ?_
  refine Proc.Triple.tryCatch (E := Holds) ?_ fun error => ?_
  · exact (triple_caseTransfers bytes seed fd write).bind fun _ =>
      triple_caseResult aboutContext_owns
  refine (triple_countFailure aboutContext_holds).bind fun _ => ?_
  refine (triple_caseResult aboutContext_holds).bind fun _ => ?_
  refine Proc.triple_get_bind fun p => ?_
  apply Proc.triple_onlyIf
  · exact fun _ => Proc.triple_throw fun _ _ h => h.2
  · rintro hne p' t ⟨rfl, h⟩
    exact h hne

theorem triple_aioCases (fd : ℕ) (odirect : Bool) :
    Proc.Triple Live (fun p _ => p.ctx = 0) (HostShare.aioCases bytes seed fd odirect)
      (fun _ => Owns) Holds := by
  refine triple_ioSetup ?_
  refine triple_aioOperation_owns.bind fun _ => ?_
  refine Proc.Triple.bind (Q := fun _ => Owns) ?_ fun _ => ?_
  · exact (triple_plain_check aboutContext_owns fun _ _ _ => rfl).weaken (fun _ _ h => h)
      (fun _ _ _ h => h) fun _ _ => holds_of_owns
  refine (triple_plain_clear aboutContext_owns).bind fun _ => ?_
  refine triple_aioOperation_owns.bind fun _ => ?_
  refine Proc.Triple.bind (Q := fun _ => Owns) ?_ fun _ => ?_
  · exact (triple_plain_verify aboutContext_owns).weaken (fun _ _ h => h) (fun _ _ _ h => h)
      fun _ _ => holds_of_owns
  exact Proc.triple_forM fun write _ => triple_aioCase bytes seed fd odirect write

theorem triple_aioFile (fd : ℕ) (odirect : Bool) :
    Proc.Triple Live (fun _ _ => True) (HostShare.aioFile bytes seed fd odirect)
      (fun _ _ _ => True) fun _ _ => True := by
  have hdirect : ∀ {op}, Plain (.direct op) → Proc.Triple Live (fun _ _ => True) (direct op)
      (fun _ _ _ => True) fun _ _ => True := fun h => triple_keeps (keeps_plain aboutContext_true h)
  unfold HostShare.aioFile
  refine (hdirect fun _ _ _ => rfl).bind fun unlinked => ?_
  refine Proc.Triple.bind (Q := fun _ _ _ => True) ?_ fun _ => ?_
  · apply Proc.triple_onlyIf
    · exact fun _ => (hdirect fun _ _ _ => rfl).bind fun _ =>
        (hdirect fun _ _ _ => rfl).bind fun _ => triple_keeps_fail
    · exact fun _ _ _ h => h
  refine Proc.Triple.bind (Q := fun _ p _ => p.ctx = 0) (Proc.triple_modify fun _ _ _ => rfl)
    fun _ => ?_
  refine Proc.Triple.bind (Q := fun _ => Holds) ?_ fun _ => ?_
  · refine Proc.Triple.tryCatch (E := Holds) ?_ fun error => ?_
    · exact (triple_aioCases bytes seed fd odirect).weaken (fun _ _ h => h)
        (fun _ _ _ => holds_of_owns) fun _ _ h => h
    · exact (triple_countFailure aboutContext_holds).bind fun _ =>
        triple_caseResult aboutContext_holds
  refine Proc.triple_get_bind fun p => ?_
  refine Proc.Triple.bind (Q := fun _ _ _ => True) ?_ fun _ => ?_
  · refine triple_destroy_held.weaken ?_ (fun _ _ _ h => h) fun _ _ h => h
    rintro p' t ⟨rfl, h⟩
    exact ⟨rfl, h⟩
  exact triple_plain_cleanup aboutContext_true fun _ _ _ => rfl

/-- The copies of ACL have nothing to do with a context. -/
theorem triple_plainAcl : Proc.Triple Live (fun _ _ => True) (HostShare.aclCase bytes seed)
    (fun _ _ _ => True) fun _ _ => True := by
  have hcheck : ∀ {op name}, Plain (.check op name) → Proc.Triple Live (fun _ _ => True)
      (check op name) (fun _ _ _ => True) fun _ _ => True :=
    triple_plain_check aboutContext_true
  have hset : ∀ {f : Process → Process}, Proc.Triple Live (fun _ _ => True)
      (Proc.modify f : SH PUnit) (fun _ _ _ => True) fun _ _ => True :=
    Proc.triple_modify fun _ _ h => h
  have hverify : ∀ {buffer phase}, Proc.Triple Live (fun _ _ => True)
      (verify buffer bytes seed phase) (fun _ _ _ => True) fun _ _ => True :=
    triple_plain_verify aboutContext_true
  have hbacklog : ∀ back, Proc.Triple Live (fun _ _ => True) (HostShare.backlog back)
      (fun _ _ _ => True) fun _ _ => True := by
    intro back
    refine Proc.Triple.bind (Q := fun _ _ _ => True) ?_ fun _ => ?_
    · refine Proc.triple_forM fun _ _ => ?_
      refine Proc.Triple.bind (hcheck ?_) fun _ => Proc.triple_pure fun _ _ h => h
      cases back <;> exact fun _ _ _ => rfl
    refine (hcheck fun _ _ _ => rfl).bind fun _ => ?_
    refine (hcheck fun _ _ _ => rfl).bind fun _ => ?_
    exact (hcheck fun _ _ _ => rfl).bind fun _ => Proc.triple_pure fun _ _ h => h
  unfold HostShare.aclCase
  refine (hcheck fun _ _ _ => rfl).bind fun device => hset.bind fun _ => ?_
  refine (hcheck fun _ _ _ => rfl).bind fun stream => hset.bind fun _ => ?_
  refine (hcheck fun _ _ _ => rfl).bind fun event => hset.bind fun _ => ?_
  refine Proc.Triple.bind (triple_fill fun _ _ => keeps_plain aboutContext_true fun _ _ _ => rfl)
    fun _ => ?_
  refine (hcheck fun _ _ _ => rfl).bind fun _ => ?_
  refine (hcheck fun _ _ _ => rfl).bind fun _ => ?_
  refine (triple_plain_clear aboutContext_true).bind fun _ => ?_
  refine (hcheck fun _ _ _ => rfl).bind fun _ => ?_
  refine (hcheck fun _ _ _ => rfl).bind fun _ => ?_
  refine hverify.bind fun _ => ?_
  refine Proc.Triple.bind (Proc.triple_forM fun back _ => hbacklog back) fun _ => ?_
  exact hverify.bind fun _ => triple_caseResult aboutContext_true

theorem triple_hostIoTests (aio : HostShare.AioMode) :
    Proc.Triple Live (fun _ _ => True) (HostShare.ioTests bytes seed aio) (fun _ _ _ => True)
      fun _ _ => True := by
  have hdirect : ∀ {op}, Plain (.direct op) → Proc.Triple Live (fun _ _ => True) (direct op)
      (fun _ _ _ => True) fun _ _ => True := fun h => triple_keeps (keeps_plain aboutContext_true h)
  have hset : ∀ {f : Process → Process}, Proc.Triple Live (fun _ _ => True)
      (Proc.modify f : SH PUnit) (fun _ _ _ => True) fun _ _ => True :=
    Proc.triple_modify fun _ _ h => h
  have hfill : ∀ {buffer seed}, Proc.Triple Live (fun _ _ => True) (fill buffer bytes seed)
      (fun _ _ _ => True) fun _ _ => True :=
    triple_fill fun _ _ => keeps_plain aboutContext_true fun _ _ _ => rfl
  have hdestroyAcl : Proc.Triple Live (fun _ _ => True) destroyAcl (fun _ _ _ => True)
      fun _ _ => True := by
    have hkeeps : ∀ {op name}, Plain (.cleanup op name) →
        KeepsCleanup Live (fun _ _ => True) op name :=
      fun hc => ⟨fun p t _ => live_of_plain hc t p, fun _ _ _ _ => trivial⟩
    exact triple_destroyAcl_keeps (hkeeps fun _ _ _ => rfl) (hkeeps fun _ _ _ => rfl)
      (hkeeps fun _ _ _ => rfl) (hkeeps fun _ _ _ => rfl)
  have htests : ∀ odirect, Proc.Triple Live (fun _ _ => True)
      (HostShare.aioTests bytes seed aio odirect) (fun _ _ _ => True) fun _ _ => True := by
    intro odirect
    refine Proc.triple_onlyIf (fun _ => ?_) fun _ _ _ h => h
    refine hfill.bind fun _ => ?_
    refine (hdirect fun _ _ _ => rfl).bind fun opened => ?_
    split
    · exact (triple_caseResult aboutContext_true).bind fun _ =>
        triple_countFailure aboutContext_true
    · exact triple_aioFile bytes seed _ odirect
  -- the context lives inside of the tests of one file, and everything around them is plain
  unfold HostShare.ioTests withAcl
  refine hset.bind fun _ => hset.bind fun _ => ?_
  refine Proc.Triple.bind (Q := fun _ _ _ => True) ?_ fun n => ?_
  · refine Proc.Triple.tryCatch (E := fun _ _ => True) ?_ fun error =>
      hdestroyAcl.bind fun _ => Proc.triple_throw fun _ _ h => h
    refine Proc.Triple.bind (Q := fun _ _ _ => True) ?_ fun _ => ?_
    · refine (triple_plainAcl bytes seed).tryCatch fun error => ?_
      refine (triple_countFailure aboutContext_true).bind fun _ => ?_
      refine (triple_caseResult aboutContext_true).bind fun _ => ?_
      refine Proc.Triple.bind (Q := fun _ _ _ => True) (Proc.triple_get fun _ _ h => h) fun p => ?_
      refine Proc.triple_onlyIf (fun _ => ?_) fun _ _ _ h => h
      exact (triple_plain_check aboutContext_true fun _ _ _ => rfl).bind fun _ =>
        Proc.triple_pure fun _ _ h => h
    refine Proc.Triple.bind (Q := fun _ _ _ => True) ?_ fun _ => ?_
    · refine Proc.triple_onlyIf (fun _ => ?_) fun _ _ _ h => h
      refine (triple_plain_check aboutContext_true fun _ _ _ => rfl).bind fun _ => ?_
      refine hfill.bind fun _ => ?_
      refine Proc.Triple.bind (Proc.triple_forM fun odirect _ => htests odirect) fun _ => ?_
      exact (hdirect fun _ _ _ => rfl).bind fun _ => Proc.triple_pure fun _ _ h => h
    refine hfill.bind fun _ => ?_
    exact Proc.Triple.bind (Q := fun _ _ _ => True) (Proc.triple_get fun _ _ h => h) fun p =>
      Proc.triple_pure fun _ _ h => h
  · exact hdestroyAcl.bind fun _ => Proc.triple_pure fun _ _ h => h

end HostShare

/-! ## The whole -/

/-- Every context that is destroyed along the calls is the one that has been set up last and has
not been destroyed since. -/
def DestroysLive (t : List SHEvent) : Prop :=
  ∀ t₁ e t₂, t = t₁ ++ e :: t₂ → ∀ ctx ∈ destroyedBy e, live t₁ = some ctx

theorem destroysLive_of_triple {α : Type} {m : SH α}
    (h : Proc.Triple Live (fun _ _ => True) m (fun _ _ _ => True) fun _ _ => True) {p : Process}
    {t : List SHEvent} (hvisits : (m p).Visits t) : DestroysLive t := by
  intro t₁ e t₂ ht ctx hctx
  have hlive := Prog.Meets.ok_of_visits (h p [] trivial) hvisits t₁ e t₂ ht
  rw [List.nil_append] at hlive
  obtain ⟨state, call, reply⟩ := e
  unfold destroyedBy at hctx
  split at hctx
  · rename_i ctx' name hcall
    cases hctx
    exact hlive _ _ hcall
  · cases hctx

/-- What `aio_operation` and its callers do with requests, completions and contexts. -/
structure Exact (fd : ℕ) (buffer : Buffer) (bytes : ℕ) (write : Bool) : Prop where
  accepts : ∀ p t x p', (aioOperation fd buffer bytes write p).Runs t (x, p') →
    (x = .ok ⟨⟩ ↔ Accepted fd buffer bytes write p t)
  tiles : 4 ∣ bytes → Tiles ((requests fd buffer bytes write).map piece) bytes ∧
    Tiles ((requests fd buffer bytes write).map filePiece) bytes
  shifts : ∀ events : ℕ → IoEvent,
    ((List.range 4).map events).foldlM (evaluateEvent (bytes / 4)) (0, false) =
      some (((List.range 4).map events).foldl (examineEvent (bytes / 4)) (0, false))
  settled : ∀ p t x p', (aioOperation fd buffer bytes write p).Runs t (x, p') → Settled p t p'
  multiShare : ∀ cfg rank seed p t, (MultiShare.bufferedAio cfg rank seed p).Visits t →
    DestroysLive t
  hostShare : ∀ seed aio p t, (HostShare.ioTests bytes seed aio p).Visits t → DestroysLive t

/-- **`aio_operation` accepts a full set of completions and nothing else**, and leaves nothing in
flight. -/
theorem aio_operation_exact (fd : ℕ) (buffer : Buffer) (bytes : ℕ) (write : Bool) :
    Exact fd buffer bytes write where
  accepts _ _ _ _ h := (ends_of_runs h).ok_iff
  tiles := tiles_requests
  shifts _ := foldlM_evaluateEvent _ _
  settled _ _ _ _ h := (ends_of_runs h).settled
  multiShare cfg rank seed _ _ h := destroysLive_of_triple (triple_bufferedAio cfg rank seed) h
  hostShare seed aio _ _ h := destroysLive_of_triple (triple_hostIoTests bytes seed aio) h

end SharingProbe.AioOperation
