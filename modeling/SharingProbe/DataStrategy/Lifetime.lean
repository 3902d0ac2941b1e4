import SharingProbe.DataStrategy.Options

/-!
# The life of a `DataStrategy` object

An object is constructed, some `Setup` calls are made on it, whatever they
return, and its destructor runs `Reset`.  The results of `setup_meets` and
`reset_meets` compose to the HAL resource discipline of the whole life.
-/

namespace SharingProbe.DataStrategy

open Interaction

/-- Any sequence of `Setup` calls on one object. -/
def setups (fuel : ℕ) : List SetupArgs → DS PUnit
  | [] => pure ⟨⟩
  | args :: calls => do
      let _ ← setup fuel args
      setups fuel calls

/-- The calls of `Setup` and the destructor. -/
def lifetime (fuel : ℕ) (calls : List SetupArgs) : DS PUnit := do
  setups fuel calls
  reset

/-- Between two calls of `Setup` the object is idle or set up. -/
def Settled (self : DataStrategy) (t : List DSEvent) : Prop :=
  Idle self t ∨ self.nSlotsPerRank ≠ 0 ∧ self.Kept t

theorem Settled.kept {self : DataStrategy} {t : List DSEvent} (h : Settled self t) :
    self.Kept t := by
  rcases h with hidle | ⟨-, hkept⟩
  · exact hidle.kept
  · exact hkept

theorem settled_default : Settled {} [] := .inl ⟨rfl, rfl, rfl⟩

theorem setup_settled {self : DataStrategy} {t : List DSEvent} {fuel : ℕ} {args : SetupArgs}
    (hsettled : Settled self t) (hvalid : args.Valid) :
    (setup fuel args).Meets Allowed self t fun x self' t' =>
      (∃ status, x = .ok status) ∧ Settled self' t' := by
  rcases hsettled with hidle | ⟨hinit, hkept⟩
  · refine (setup_meets hidle hvalid).mono ?_
    rintro x self' t' - ⟨status, rfl, hsuccess, hfail⟩
    refine ⟨⟨status, rfl⟩, ?_⟩
    cases hstatus : status.success with
    | false => exact .inl (hfail hstatus)
    | true =>
        have hestablished := hsuccess hstatus
        refine .inr ⟨?_, hestablished.kept⟩
        rw [hestablished.nSlotsPerRank]
        exact hvalid.nSlotsPerRank.ne'
  · unfold Proc.Meets
    rw [setup_of_initialized hinit]
    exact ⟨⟨_, rfl⟩, .inr ⟨hinit, hkept⟩⟩

theorem setups_meets {fuel : ℕ} {calls : List SetupArgs} (hvalid : ∀ args ∈ calls, args.Valid) :
    ∀ {self : DataStrategy} {t : List DSEvent}, Settled self t →
      (setups fuel calls).Meets Allowed self t fun x self' t' => x = .ok ⟨⟩ ∧ Settled self' t' := by
  induction calls with
  | nil => intro self t hsettled; exact ⟨rfl, hsettled⟩
  | cons args calls ih =>
      intro self t hsettled
      unfold setups
      rw [Proc.meets_bind]
      refine (setup_settled hsettled (hvalid args List.mem_cons_self)).mono ?_
      rintro x self' t' - ⟨⟨status, rfl⟩, hsettled'⟩
      exact ih (fun other hother => hvalid other (List.mem_cons_of_mem _ hother)) hsettled'

theorem lifetime_meets {fuel : ℕ} {calls : List SetupArgs} (hvalid : ∀ args ∈ calls, args.Valid) :
    (lifetime fuel calls).Meets Allowed {} [] fun _ _ t' => accounts.held t' = 0 := by
  unfold lifetime
  rw [Proc.meets_bind]
  refine (setups_meets hvalid settled_default).mono ?_
  rintro x self t - ⟨rfl, hsettled⟩
  refine (reset_meets hsettled.kept).mono ?_
  rintro y self' t' - ⟨-, -, hnone⟩
  exact hnone

/-! ## The discipline of a trace -/

/-- At every call that `Reset` does not issue, `mappings_` records what is held. -/
def Records (t : List DSEvent) : Prop :=
  ∀ t₁ e t₂, t = t₁ ++ e :: t₂ → e.call.site = .setup → accounts.held t₁ = e.state.recorded

/-- Along the calls of a teardown the stages do not decrease: unmaps, releases of
imports, the release of the owner's handle, address frees. -/
def TearsDownInOrder (t : List DSEvent) : Prop :=
  ∀ t₁ e₁ t₂ e₂ t₃, t = t₁ ++ (e₁ :: t₂) ++ e₂ :: t₃ → (∀ e ∈ e₁ :: t₂, e.call.site = .reset) →
    ∀ r₁ ∈ accounts.releases e₁, ∀ r₂ ∈ accounts.releases e₂, r₁.stage ≤ r₂.stage

/-- The first HAL call of the Normal-page attempt finds nothing held. -/
def RetriesFromNothing (t : List DSEvent) : Prop :=
  ∀ t₁ e t₂, t = t₁ ++ e :: t₂ → e.call.op = .halMemGetAllocationGranularity .normal →
    accounts.held t₁ = 0

theorem disciplined_of_follows {t : List DSEvent} (h : Prog.Follows Allowed t) :
    accounts.Disciplined t :=
  fun t₁ e t₂ ht => (h t₁ e t₂ ht).held

theorem staged_of_follows {t : List DSEvent} (h : Prog.Follows Allowed t) :
    accounts.Staged Resource.stage t :=
  fun t₁ e t₂ ht => (h t₁ e t₂ ht).staged

theorem tearsDownInOrder_of_follows {t : List DSEvent} (h : Prog.Follows Allowed t) :
    TearsDownInOrder t := by
  intro t₁ e₁ t₂ e₂ t₃ ht hreset r₁ hr₁ r₂ hr₂
  refine (staged_of_follows h).stage_le (disciplined_of_follows h) ht ?_ hr₁ hr₂
  intro e he
  obtain ⟨u₁, u₂, hu⟩ := List.append_of_mem he
  have hallowed := h (t₁ ++ u₁) e (u₂ ++ e₂ :: t₃) (by simp [ht, hu])
  exact hallowed.teardown (hreset e he) e.reply

theorem lifetime_follows {fuel : ℕ} {calls : List SetupArgs} {t : List DSEvent}
    (hvalid : ∀ args ∈ calls, args.Valid) (ht : (lifetime fuel calls {}).Visits t) :
    Prog.Follows Allowed t :=
  Prog.Meets.follows (lifetime_meets hvalid) ht

/-- **HAL resource discipline.**  Whatever the environment answers, at every
moment of the object's life `mappings_` records what is held unless `Reset` is
running, nothing is released that is not held, every teardown keeps its order
and the Normal-page attempt starts from nothing; between two calls of `Setup`
the record is exact as well; and when the destructor has run, everything that
was acquired has been released exactly once. -/
theorem lifetime_disciplined (fuel : ℕ) {calls : List SetupArgs}
    (hvalid : ∀ args ∈ calls, args.Valid) :
    (∀ t, (lifetime fuel calls {}).Visits t →
      Records t ∧ accounts.Disciplined t ∧ TearsDownInOrder t ∧ RetriesFromNothing t) ∧
    (∀ t x self, (setups fuel calls {}).Runs t (x, self) → accounts.held t = self.recorded) ∧
    (∀ t x, (lifetime fuel calls {}).Runs t x →
      accounts.held t = 0 ∧ accounts.acquired t = accounts.released t) := by
  refine ⟨fun t ht => ?_, fun t x self ht => ?_, fun t x ht => ?_⟩
  · have hallowed := lifetime_follows hvalid ht
    refine ⟨?_, disciplined_of_follows hallowed, tearsDownInOrder_of_follows hallowed, ?_⟩
    · exact fun t₁ e t₂ hsplit => (hallowed t₁ e t₂ hsplit).kept
    · exact fun t₁ e t₂ hsplit => (hallowed t₁ e t₂ hsplit).retry
  · have hsettled := (Prog.Meets.post_of_runs (setups_meets hvalid settled_default) ht).2
    exact hsettled.kept
  · have hallowed := lifetime_follows hvalid ht.visits
    have hnone : accounts.held t = 0 := Prog.Meets.post_of_runs (lifetime_meets hvalid) ht
    exact ⟨hnone, (disciplined_of_follows hallowed).acquired_eq_released hnone⟩

/-- A run with a failed Huge attempt, a peer and a second `Setup`. -/
theorem lifetime_twoRanks :
    accounts.acquired (Prog.exec (hugeFails 1)
          (lifetime 1 [twoRanks.setupArgs, twoRanks.setupArgs] {}) []).1 =
        accounts.released (Prog.exec (hugeFails 1)
          (lifetime 1 [twoRanks.setupArgs, twoRanks.setupArgs] {}) []).1 ∧
      (accounts.acquired (Prog.exec (hugeFails 1)
          (lifetime 1 [twoRanks.setupArgs, twoRanks.setupArgs] {}) []).1).card = 8 := by
  have hadmitted : twoRanks.Admitted := by decide
  have hvalid : ∀ args ∈ [twoRanks.setupArgs, twoRanks.setupArgs], args.Valid := by
    intro args hargs
    have heq : args = twoRanks.setupArgs := by simpa using hargs
    rw [heq]
    exact hadmitted.bounds.valid
  have hend : (Prog.exec (hugeFails 1)
      (lifetime 1 [twoRanks.setupArgs, twoRanks.setupArgs] {}) []).2 =
      some (.ok ⟨⟩, { owner := 1, deviceId := 0, slotSize := 4096, nSlotsPerRank := 4 }) := by
    decide +kernel
  refine ⟨?_, by decide +kernel⟩
  exact ((lifetime_disciplined 1 hvalid).2.2 _ _ (Prog.runs_of_exec hend)).2

end SharingProbe.DataStrategy
