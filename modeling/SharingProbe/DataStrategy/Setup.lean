import SharingProbe.DataStrategy.Establish

/-!
# `Setup` as a whole

`setup_meets` is the specification that the results on `DataStrategy` use.  A
call of `Setup` on an idle object keeps the ledger in step with `mappings_`
throughout.  It either succeeds, and then every rank is mapped and the owner's
share handle is published, or it fails and leaves nothing behind.  On an object
that is already set up it does nothing.
-/

namespace SharingProbe.DataStrategy

open Interaction

/-- The owner's allocation is exported, its share handle is the descriptor that
was set, and no other descriptor was set since `before`. -/
def Published (before : List DSEvent) (self : DataStrategy) (t : List DSEvent) : Prop :=
  ∃ handle shareHandle status, (self.mapping self.owner).handle = some handle ∧
    Saw t self.owner (.halMemExportToShareableHandle (some handle)) (.ok shareHandle) ∧
    Saw t self.owner (.setRankDesc self.owner shareHandle) status ∧ status.success = true ∧
    ∀ e ∈ t, e ∈ before ∨ ∀ rank other, e.call.op = .setRankDesc rank other →
      rank = self.owner ∧ other = shareHandle

/-- Every rank is mapped, and the owner's descriptor is published. -/
structure Ready (nRanks : ℕ) (before : List DSEvent) (data : DataStrategy) (t : List DSEvent) :
    Prop where
  length : data.mappings.length = nRanks
  own : data.OwnReady t
  peers : ∀ rank < nRanks, rank ≠ data.owner → data.PeerReady t rank
  published : Published before data t

/-! ## `CrossRankSetup` -/

theorem crossRankSetup_meets {self : DataStrategy} {t : List DSEvent} {nRanks fuel timeoutMs : ℕ}
    (hkept : self.Kept t) (hlocal : LocalReady nRanks self t) :
    (crossRankSetup fuel timeoutMs).Meets Allowed self t (Keeps (Ready nRanks t) self) := by
  have hown := hlocal.own
  obtain ⟨handle, addr, pageType, haddr, hentry, -, -⟩ := hlocal.own
  unfold crossRankSetup
  rw [Proc.meets_bind, Proc.meets_get]
  dsimp only
  rw [Proc.meets_bind]
  refine hal_meets hkept rfl nofun fun now hheld₁ => ?_
  have hkept₁ := hheld₁.trans (add_zero _)
  dsimp only
  rw [Proc.meets_bind]
  refine hal_meets hkept₁ rfl nofun fun r hheld₂ => ?_
  have hkept₂ := hheld₂.trans (add_zero _)
  cases r with
  | error ret => exact .of_error hkept₂ (.refl _) (by simp)
  | ok shareHandle =>
      dsimp only
      rw [Proc.meets_bind]
      refine hal_meets hkept₂ rfl nofun fun answer hheld₃ => ?_
      have hkept₃ := hheld₃.trans (add_zero _)
      dsimp only
      split
      · rename_i hfail
        exact .of_error hkept₃ (.refl _) (by simpa using hfail)
      rw [Proc.meets_bind]
      refine hal_meets hkept₃ rfl nofun fun status hheld₄ => ?_
      have hkept₄ := hheld₄.trans (add_zero _)
      dsimp only
      split
      · rename_i hfail
        exact .of_error hkept₄ (.refl _) (by simpa using hfail)
      rename_i hset
      have hsuccess : status.success = true := by simpa using hset
      -- the peers are imported into entries that are still empty
      refine ((peerLoop_meets hkept₄ List.nodup_range (fun rank h => List.mem_range.mp h)
        fun rank hrank hpeer => hlocal.others rank ?_ hpeer).and_only
          (peerLoop_silent _ _ _ _)).mono ?_
      · rw [← hlocal.length]
        exact List.mem_range.mp hrank
      rintro x self' t' hextends ⟨hnew, hkept', hsame, hgood⟩
      refine ⟨hkept', hsame, fun status' hstatus' hsuccess' => ?_⟩
      have hpeers := hgood status' hstatus' hsuccess'
      -- the own entry is as `LocalSetup` has left it
      have hentry' : self'.mapping self.owner = self.mapping self.owner :=
        hpeers.others _ (.inr rfl)
      have hsaw : ∀ {rank : ℕ} {op : Op} {r : op.Reply}, Saw t rank op r → Saw t' rank op r := by
        intro rank op r h
        refine h.mono (List.IsPrefix.trans ?_ hextends)
        simp only [List.append_assoc]
        exact List.prefix_append t _
      refine ⟨hpeers.length.trans hlocal.length, ?_, ?_, ?_⟩
      · obtain ⟨handle, addr, pageType, haddr, hentry, hcreated, hmapped⟩ := hown
        refine OwnReady.congr ?_ hentry' hpeers.rankStride hsame.owner
        exact ⟨handle, addr, pageType, haddr, hentry, hsaw hcreated, hsaw hmapped⟩
      · intro rank hrank hpeer
        rw [← hlocal.length] at hrank
        exact hpeers.ready rank (List.mem_range.mpr hrank) hpeer
      · refine ⟨handle, shareHandle, status, ?_, ?_, ?_, hsuccess, ?_⟩
        · rw [hsame.owner, hentry', hentry]
        · refine Saw.mono ?_ hextends
          refine ⟨self, .setup, ?_⟩
          rw [hentry, hsame.owner]
          simp
        · refine Saw.mono ?_ hextends
          refine ⟨self, .setup, ?_⟩
          rw [hsame.owner]
          simp
        -- nothing but the own descriptor has been published
        · intro e he
          rcases hnew e he with hmem | hsilent
          · simp only [List.mem_append, List.mem_singleton] at hmem
            rcases hmem with (((hmem | rfl) | rfl) | rfl) | rfl
            · exact .inl hmem
            · exact .inr nofun
            · exact .inr nofun
            · exact .inr nofun
            · refine .inr fun rank other hop => ?_
              cases hop
              exact ⟨hsame.owner.symm, rfl⟩
          · exact .inr fun rank other hop => absurd hop (hsilent rank other)

/-! ## `Setup` -/

/-- No descriptor was set between `t` and `t'`. -/
def Quiet (t t' : List DSEvent) : Prop := ∀ e ∈ t', e ∈ t ∨ Silent e.call

theorem Quiet.trans {t t' t'' : List DSEvent} (h : Quiet t t') (h' : Quiet t' t'') :
    Quiet t t'' := by
  intro e he
  rcases h' e he with hmem | hsilent
  · exact h e hmem
  · exact .inr hsilent

theorem Ready.rebase {t t' t'' : List DSEvent} {self : DataStrategy} {nRanks : ℕ}
    (h : Ready nRanks t' self t'') (hquiet : Quiet t t') : Ready nRanks t self t'' := by
  obtain ⟨handle, shareHandle, status, hentry, hexported, hset, hsuccess, honly⟩ := h.published
  refine ⟨h.length, h.own, h.peers,
    ⟨handle, shareHandle, status, hentry, hexported, hset, hsuccess, ?_⟩⟩
  intro e he
  rcases honly e he with hmem | hthis
  · rcases hquiet e hmem with hmem | hsilent
    · exact .inl hmem
    · exact .inr fun rank other hop => absurd hop (hsilent rank other)
  · exact .inr hthis

theorem deviceSetup_meets {self : DataStrategy} {t : List DSEvent} {deviceId : ℤ}
    (hkept : self.Kept t) :
    (deviceSetup deviceId).Meets Allowed self t fun x self' t' =>
      (∃ status, x = .ok status) ∧ self' = self ∧ self.Kept t' := by
  unfold deviceSetup
  split
  · exact ⟨⟨_, rfl⟩, rfl, hkept⟩
  rw [Proc.meets_bind]
  refine hal_meets hkept rfl nofun fun r hheld => ?_
  have hkept' := hheld.trans (add_zero _)
  cases r with
  | error ret => exact ⟨⟨_, rfl⟩, rfl, hkept'⟩
  | ok _ => exact ⟨⟨_, rfl⟩, rfl, hkept'⟩

theorem allocate_meets {self : DataStrategy} {t : List DSEvent} {args : SetupArgs}
    (hkept : self.Kept t) (hnil : self.mappings = []) (howner : self.owner < args.nRanks) :
    (allocate args).Meets Allowed self t fun x self' t' =>
      Quiet t t' ∧ Keeps (LocalReady args.nRanks) self x self' t' := by
  unfold allocate
  rw [Proc.meets_bind]
  refine ((localSetup_meets hkept hnil howner).and_only
    ((localSetup_local _ _ _).mono fun _ => IsLocal.silent)).mono ?_
  rintro x self₁ t₁ - ⟨hquiet₁, hkept₁, hsame₁, hgood₁⟩
  cases x with
  | error e => exact ⟨hquiet₁, hkept₁, hsame₁, nofun⟩
  | ok status =>
      dsimp only
      split
      · rw [Proc.meets_bind]
        refine ((reset_meets hkept₁).and_only (reset_local.mono fun _ => IsLocal.silent)).mono ?_
        rintro y self₂ t₂ - ⟨hquiet₂, rfl, rfl, hnone⟩
        have hkept₂ : Kept { self₁ with mappings := [], rankStride := 0 } t₂ :=
          hnone.trans (recorded_of_nil rfl).symm
        refine ((localSetup_meets hkept₂ rfl (hsame₁.owner.trans_lt howner)).and_only
          ((localSetup_local _ _ _).mono fun _ => IsLocal.silent)).mono ?_
        rintro z self₃ t₃ - ⟨hquiet₃, hkept₃, hsame₃, hgood₃⟩
        refine ⟨(Quiet.trans hquiet₁ hquiet₂).trans hquiet₃, hkept₃,
          hsame₁.trans (.trans ?_ hsame₃), hgood₃⟩
        exact ⟨rfl, rfl, rfl, rfl⟩
      · exact ⟨hquiet₁, hkept₁, hsame₁, hgood₁⟩

theorem setupBody_meets {self : DataStrategy} {t : List DSEvent} {fuel : ℕ} {args : SetupArgs}
    (hkept : self.Kept t) (hnil : self.mappings = []) (howner : self.owner < args.nRanks) :
    (setupBody fuel args).Meets Allowed self t (Keeps (Ready args.nRanks t) self) := by
  unfold setupBody
  rw [Proc.meets_bind]
  refine ((deviceSetup_meets hkept).and_only
    ((deviceSetup_local _).mono fun _ => IsLocal.silent)).mono ?_
  rintro x self₁ t₁ - ⟨hquiet₁, ⟨status, rfl⟩, rfl, hkept₁⟩
  dsimp only
  rw [Proc.meets_bind]
  cases hdevice : status.success with
  | false =>
      simp only [Bool.false_eq_true, ↓reduceIte, Proc.meets_pure, hdevice]
      exact .of_error hkept₁ (.refl _) hdevice
  | true =>
      rw [if_pos rfl]
      refine (allocate_meets hkept₁ hnil howner).mono ?_
      rintro y self₂ t₂ - ⟨hquiet₂, hkept₂, hsame₂, hgood₂⟩
      cases y with
      | error e => exact ⟨hkept₂, hsame₂, fun _ h => by cases h⟩
      | ok status =>
          dsimp only
          split
          · rename_i hsuccess
            refine (crossRankSetup_meets hkept₂ (hgood₂ status rfl hsuccess)).mono ?_
            rintro z self₃ t₃ - ⟨hkept₃, hsame₃, hgood₃⟩
            refine ⟨hkept₃, hsame₂.trans hsame₃, fun status' hstatus' hsuccess' => ?_⟩
            exact (hgood₃ status' hstatus' hsuccess').rebase (Quiet.trans hquiet₁ hquiet₂)
          · rename_i hfail
            exact .of_error hkept₂ hsame₂ (by simpa using hfail)

/-- An object without mappings on which a `Setup` may start. -/
structure Idle (data : DataStrategy) (t : List DSEvent) : Prop where
  mappings : data.mappings = []
  nSlotsPerRank : data.nSlotsPerRank = 0
  held : accounts.held t = 0

theorem Idle.kept {data : DataStrategy} {t : List DSEvent} (h : Idle data t) : data.Kept t :=
  h.held.trans (recorded_of_nil h.mappings).symm

/-- The object after a `Setup` that succeeded. -/
structure Established (args : SetupArgs) (before : List DSEvent) (data : DataStrategy)
    (t : List DSEvent) : Prop where
  kept : data.Kept t
  ready : Ready args.nRanks before data t
  owner : data.owner = args.myRank
  deviceId : data.deviceId = args.deviceId
  slotSize : data.slotSize = args.slotSize
  nSlotsPerRank : data.nSlotsPerRank = args.nSlotsPerRank

/-- The arguments with which `Setup` can work: `mappings_[owner_]` exists. -/
structure SetupArgs.Valid (args : SetupArgs) : Prop where
  nSlotsPerRank : 0 < args.nSlotsPerRank
  myRank : args.myRank < args.nRanks

/-- **A `Setup` of an idle object** returns, and it either establishes the object
or leaves it idle. -/
theorem setup_meets {self : DataStrategy} {t : List DSEvent} {fuel : ℕ} {args : SetupArgs}
    (hidle : Idle self t) (hvalid : args.Valid) :
    (setup fuel args).Meets Allowed self t fun x self' t' => ∃ status, x = .ok status ∧
      (status.success = true → Established args t self' t') ∧
      (status.success = false → Idle self' t') := by
  unfold setup
  rw [Proc.meets_bind, Proc.meets_get]
  dsimp only
  rw [if_neg (not_not.mpr hidle.nSlotsPerRank), Proc.meets_bind, Proc.meets_modify]
  dsimp only
  -- the object starts with no entries
  have hkept : Kept { self with owner := args.myRank, deviceId := args.deviceId } t := by
    refine hidle.held.trans (Eq.symm (recorded_of_nil ?_))
    exact hidle.mappings
  rw [Proc.meets_bind, Proc.meets_tryCatch]
  refine (setupBody_meets hkept hidle.mappings hvalid.myRank).mono ?_
  rintro x self₁ t₁ - ⟨hkept₁, hsame₁, hgood₁⟩
  -- a failed attempt, also one that ended in an exception, is reset
  have hfailed : ∀ status : Status, status.success = false →
      (reset >>= fun _ => (pure status : DS Status)).Meets Allowed self₁ t₁ fun x self' t' =>
        ∃ status, x = .ok status ∧ (status.success = true → Established args t self' t') ∧
          (status.success = false → Idle self' t') := by
    intro status hfail
    rw [Proc.meets_bind]
    refine (reset_meets hkept₁).mono ?_
    rintro y self₂ t₂ - ⟨rfl, rfl, hnone⟩
    refine ⟨status, rfl, fun hsuccess => ?_, fun _ => ?_⟩
    · rw [hfail] at hsuccess
      cases hsuccess
    · exact ⟨rfl, hsame₁.nSlotsPerRank.trans hidle.nSlotsPerRank, hnone⟩
  cases x with
  | error e => cases e with
      | badAlloc => exact hfailed .outOfMemory rfl
      | error what => exact hfailed (.error what) rfl
  | ok status =>
      dsimp only
      cases hsuccess : status.success with
      | false =>
          rw [Status.failure_eq, hsuccess, if_pos (by decide)]
          exact hfailed status hsuccess
      | true =>
          rw [Status.failure_eq, hsuccess, if_neg (by decide), Proc.meets_bind,
            Proc.meets_modify]
          have hready := hgood₁ status rfl hsuccess
          refine ⟨.ok, rfl, fun _ => ?_, nofun⟩
          refine ⟨hkept₁.trans (recorded_congr rfl rfl).symm, ?_, hsame₁.owner, hsame₁.deviceId,
            rfl, rfl⟩
          exact ⟨hready.length, hready.own, hready.peers, hready.published⟩

/-- A `Setup` of an object that is set up changes nothing and calls nothing. -/
theorem setup_of_initialized {self : DataStrategy} {fuel : ℕ} {args : SetupArgs}
    (hinit : self.nSlotsPerRank ≠ 0) :
    setup fuel args self =
      .ret (.ok (.error "cache2 data strategy is already initialized"), self) := by
  show (if self.nSlotsPerRank ≠ 0 then pure _ else _ : DS Status) self = _
  rw [if_pos hinit]
  rfl

end SharingProbe.DataStrategy
