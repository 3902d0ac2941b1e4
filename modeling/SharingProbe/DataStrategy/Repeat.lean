import SharingProbe.DataStrategy.Slots

/-!
# Setups that fail and setups that are repeated

`Setup` writes `owner_` and `deviceId_` before anything can fail, and a failing
attempt may stop anywhere in the allocation or in the exchange.  `Reset` clears
`mappings_` and `rankStride_`; the slot fields are written on success only.  So the
two parameters are all that a failing call leaves behind, and the next call writes
them before it reads them.
-/

namespace SharingProbe.DataStrategy

open Interaction

/-- The fields of a new object, but for the parameters of an earlier call. -/
structure Untouched (data : DataStrategy) : Prop where
  slotSize : data.slotSize = 0
  nSlotsPerRank : data.nSlotsPerRank = 0
  mappings : data.mappings = []
  rankStride : data.rankStride = 0

/-- A `Setup` that fails leaves the slot size alone and no stride. -/
theorem setup_clears {self : DataStrategy} {t : List DSEvent} {fuel : ℕ} {args : SetupArgs}
    (hidle : Idle self t) (hvalid : args.Valid) :
    (setup fuel args).Meets Allowed self t fun x self' _ =>
      ∀ status, x = .ok status → status.success = false →
        self'.slotSize = self.slotSize ∧ self'.rankStride = 0 := by
  unfold setup
  rw [Proc.meets_bind, Proc.meets_get]
  dsimp only
  rw [if_neg (not_not.mpr hidle.nSlotsPerRank), Proc.meets_bind, Proc.meets_modify]
  dsimp only
  have hkept : Kept { self with owner := args.myRank, deviceId := args.deviceId } t := by
    refine hidle.held.trans (Eq.symm (recorded_of_nil ?_))
    exact hidle.mappings
  rw [Proc.meets_bind, Proc.meets_tryCatch]
  refine (setupBody_meets hkept hidle.mappings hvalid.myRank).mono ?_
  rintro x self₁ t₁ - ⟨hkept₁, hsame₁, -⟩
  have hreset : ∀ status : Status,
      (reset >>= fun _ => (pure status : DS Status)).Meets Allowed self₁ t₁ fun x self' _ =>
        ∀ status, x = .ok status → status.success = false →
          self'.slotSize = self.slotSize ∧ self'.rankStride = 0 := by
    intro status
    rw [Proc.meets_bind]
    refine (reset_meets hkept₁).mono ?_
    rintro y self₂ t₂ - ⟨rfl, rfl, -⟩
    exact fun _ _ _ => ⟨hsame₁.slotSize, rfl⟩
  cases x with
  | error e => cases e with
      | badAlloc => exact hreset .outOfMemory
      | error what => exact hreset (.error what)
  | ok status =>
      dsimp only
      split
      · exact hreset status
      · rw [Proc.meets_bind, Proc.meets_modify]
        intro status' hstatus' hfail
        cases hstatus'
        cases hfail

/-- After any sequence of `Setup` calls that have all failed, the object is untouched. -/
theorem Reached.untouched {data : DataStrategy} {succeeded : Option Options}
    (h : Reached data succeeded) : succeeded = none → Untouched data := by
  induction h with
  | init => exact fun _ => ⟨rfl, rfl, rfl, rfl⟩
  | @setup data data' succeeded opts fuel t status hdata hopts hrun ih =>
      intro hnone
      by_cases hsuccess : status.success = true
      · simp [hsuccess] at hnone
      rw [if_neg hsuccess] at hnone
      rw [Bool.not_eq_true] at hsuccess
      have huntouched := ih hnone
      have hidle : Idle data [] := ⟨huntouched.mappings, huntouched.nSlotsPerRank, rfl⟩
      obtain ⟨status', hstatus', -, hfail⟩ :=
        Prog.Meets.post_of_runs (setup_meets hidle hopts.bounds.valid) hrun
      cases hstatus'
      have hidle' := hfail hsuccess
      have hcleared := Prog.Meets.post_of_runs (setup_clears hidle hopts.bounds.valid) hrun
        status rfl hsuccess
      exact ⟨hcleared.1.trans huntouched.slotSize, hidle'.nSlotsPerRank, hidle'.mappings,
        hcleared.2⟩

/-- A `Setup` writes the parameters before it does anything else. -/
theorem Untouched.setup_eq {data : DataStrategy} (h : Untouched data) (fuel : ℕ)
    (args : SetupArgs) : setup fuel args data = setup fuel args {} := by
  obtain ⟨slotSize, nSlotsPerRank, mappings, owner, deviceId, rankStride⟩ := data
  obtain ⟨hslotSize, hnSlotsPerRank, hmappings, hrankStride⟩ := h
  dsimp only at hslotSize hnSlotsPerRank hmappings hrankStride
  subst hslotSize hnSlotsPerRank hmappings hrankStride
  rfl

/-- **Failed and repeated setups leave no trace.**  After any sequence of failing
calls the next `Setup` is the same program as on a new object, with the same calls for
the same replies, the same result and the same object at the end.  After a call that
has succeeded, every further one fails at once and changes nothing. -/
theorem setups_leave_no_trace {data : DataStrategy} {succeeded : Option Options}
    (h : Reached data succeeded) (fuel : ℕ) (args : SetupArgs) :
    match succeeded with
    | none => setup fuel args data = setup fuel args {}
    | some _ => ∃ status, status.failure = true ∧
        setup fuel args data = .ret (.ok status, data) := by
  cases succeeded with
  | none => exact (h.untouched rfl).setup_eq fuel args
  | some opts =>
      obtain ⟨hbounds, htiled⟩ := h.shape
      have hinit : data.nSlotsPerRank ≠ 0 := by
        rw [htiled.nSlotsPerRank]
        exact hbounds.slotsPerRank.ne'
      exact ⟨_, rfl, setup_of_initialized hinit⟩

/-- A device that cannot be set makes `Setup` fail with the parameters written, and
after a `Setup` that succeeds another one fails. -/
theorem setups_leave_no_trace_twoRanks :
    setup 1 twoRanks.setupArgs { owner := 1, deviceId := 0 } = setup 1 twoRanks.setupArgs {} ∧
      ∃ status, status.failure = true ∧
        setup 1 twoRanks.setupArgs twoRanksData = .ret (.ok status, twoRanksData) := by
  have hfailed : (setup 1 twoRanks.setupArgs {}).Runs
      [⟨{ owner := 1, deviceId := 0 }, ⟨.setup, 0, .aclrtSetDevice 0⟩, .error ⟨5, by decide⟩⟩]
      (.ok ⟨5, "5"⟩, { owner := 1, deviceId := 0 }) :=
    .call (.ret _)
  have hend : (Prog.exec (hugeFails 1) (setup 1 twoRanks.setupArgs {}) []).2 =
      some (.ok .ok, twoRanksData) := by
    decide +kernel
  have hidle : Reached { owner := 1, deviceId := 0 } none := .setup .init (by decide) hfailed
  have hset : Reached twoRanksData (some twoRanks) :=
    .setup .init (by decide) (Prog.runs_of_exec hend)
  exact ⟨setups_leave_no_trace hidle 1 twoRanks.setupArgs,
    setups_leave_no_trace hset 1 twoRanks.setupArgs⟩

end SharingProbe.DataStrategy
