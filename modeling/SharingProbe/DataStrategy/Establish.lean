import SharingProbe.DataStrategy.Teardown

/-!
# What `Setup` establishes

One specification for each function under `Setup`.  Every one of them keeps the
ledger in step with `mappings_`, whatever fails; on success it also says what
the new entries are and which calls they come from.
-/

namespace SharingProbe.DataStrategy

open Interaction

/-- The trace has a call `op` for `rank` that got the reply `r`. -/
def Saw (t : List DSEvent) (rank : ℕ) (op : Op) (r : op.Reply) : Prop :=
  ∃ self site, (⟨self, ⟨site, rank, op⟩, r⟩ : DSEvent) ∈ t

theorem Saw.mono {t t' : List DSEvent} {rank : ℕ} {op : Op} {r : op.Reply}
    (h : Saw t rank op r) (hextends : t <+: t') : Saw t' rank op r := by
  obtain ⟨self, site, hmem⟩ := h
  exact ⟨self, site, hextends.subset hmem⟩

theorem saw_concat (t : List DSEvent) (self : DataStrategy) (site : Site) (rank : ℕ) (op : Op)
    (r : op.Reply) : Saw (t ++ [⟨self, ⟨site, rank, op⟩, r⟩]) rank op r :=
  ⟨self, site, by simp⟩

/-- The owner's entry is mapped and comes from `halMemCreate`. -/
def OwnReady (self : DataStrategy) (t : List DSEvent) : Prop :=
  ∃ handle addr pageType, addr ≠ 0 ∧ self.mapping self.owner = ⟨some handle, addr, true⟩ ∧
    Saw t self.owner (.halMemCreate self.rankStride pageType) (.ok handle) ∧
    Saw t self.owner (.halMemMap addr self.rankStride (some handle)) (.ok ())

/-- A peer's entry is mapped and comes from importing the handle of its
descriptor. -/
def PeerReady (self : DataStrategy) (t : List DSEvent) (rank : ℕ) : Prop :=
  ∃ handle addr shareHandle, addr ≠ 0 ∧ self.mapping rank = ⟨some handle, addr, true⟩ ∧
    Saw t rank (.getRankDesc rank) (.ok (.ok shareHandle)) ∧
    Saw t rank (.halMemImportFromShareableHandle shareHandle (self.deviceId % 2 ^ 32).toNat)
      (.ok handle) ∧
    Saw t rank (.halMemMap addr self.rankStride (some handle)) (.ok ())

/-- The fields that the functions under `Setup` leave alone. -/
structure SameParams (old new : DataStrategy) : Prop where
  owner : new.owner = old.owner
  deviceId : new.deviceId = old.deviceId
  slotSize : new.slotSize = old.slotSize
  nSlotsPerRank : new.nSlotsPerRank = old.nSlotsPerRank

theorem SameParams.refl (self : DataStrategy) : SameParams self self := ⟨rfl, rfl, rfl, rfl⟩

theorem SameParams.trans {self self' self'' : DataStrategy} (h : SameParams self self')
    (h' : SameParams self' self'') : SameParams self self'' :=
  ⟨h'.owner.trans h.owner, h'.deviceId.trans h.deviceId, h'.slotSize.trans h.slotSize,
    h'.nSlotsPerRank.trans h.nSlotsPerRank⟩

theorem sameParams_update (self : DataStrategy) (rank : ℕ) (f : Mapping → Mapping) :
    SameParams self (updateMapping rank f self) := ⟨rfl, rfl, rfl, rfl⟩

/-- The outcome of a function under `Setup`: the ledger is kept, whether or not
it throws or fails, and success establishes `Good`. -/
def Keeps (Good : DataStrategy → List DSEvent → Prop) (self : DataStrategy)
    (x : Except Exn Status) (self' : DataStrategy) (t' : List DSEvent) : Prop :=
  self'.Kept t' ∧ SameParams self self' ∧
    ∀ status, x = .ok status → status.success = true → Good self' t'

/-! ## Rules for the code under `Setup` -/

/-- A call that releases nothing, from an object that records what is held. -/
theorem hal_meets {self : DataStrategy} {t : List DSEvent} {rank : ℕ} {op : Op}
    {Q : Except Exn op.Reply → DataStrategy → List DSEvent → Prop} (hkept : self.Kept t)
    (hrelease : op.releases self.owner rank = 0)
    (hretry : op = .halMemGetAllocationGranularity .normal → accounts.held t = 0)
    (hQ : ∀ r, accounts.held (t ++ [⟨self, ⟨.setup, rank, op⟩, r⟩]) =
        self.recorded + op.acquires rank r →
      Q (.ok r) self (t ++ [⟨self, ⟨.setup, rank, op⟩, r⟩])) :
    (hal rank op).Meets Allowed self t Q := by
  unfold hal
  rw [Proc.meets_ask]
  refine ⟨⟨fun _ => hkept, ?_, ?_, nofun, hretry⟩, fun r => hQ r ?_⟩
  · rw [hrelease]
    exact Multiset.zero_le _
  · simp [hrelease]
  · rw [Ledger.Accounts.held_concat]
    show accounts.held t - op.releases self.owner rank + op.acquires rank r = _
    rw [hrelease, tsub_zero, hkept]

/-- A failure of the first function is passed on, up to its message. -/
theorem Keeps.andThen {self : DataStrategy} {t : List DSEvent} {f next : DS Status}
    {g : Status → Status} {Good Good' : DataStrategy → List DSEvent → Prop}
    (hg : ∀ status, (g status).success = status.success)
    (hf : f.Meets Allowed self t (Keeps Good self))
    (hnext : ∀ self' t', t <+: t' → self'.Kept t' → SameParams self self' → Good self' t' →
      next.Meets Allowed self' t' (Keeps Good' self')) :
    (do
      let status ← f
      if status.failure then pure (g status) else next).Meets Allowed self t
        (Keeps Good' self) := by
  rw [Proc.meets_bind]
  refine hf.mono ?_
  rintro x self' t' hextends ⟨hkept, hsame, hgood⟩
  cases x with
  | error e => exact ⟨hkept, hsame, nofun⟩
  | ok status =>
      cases hsuccess : status.success with
      | false =>
          simp only [Status.failure_eq, hsuccess, Bool.not_false, ↓reduceIte, Proc.meets_pure]
          refine ⟨hkept, hsame, ?_⟩
          intro status' hstatus hsuccess'
          cases hstatus
          rw [hg, hsuccess] at hsuccess'
          cases hsuccess'
      | true =>
          simp only [Status.failure_eq, hsuccess, Bool.not_true, Bool.false_eq_true, ↓reduceIte]
          refine (hnext self' t' hextends hkept hsame (hgood status rfl hsuccess)).mono ?_
          rintro y self'' t'' - ⟨hkept', hsame', hgood'⟩
          exact ⟨hkept', hsame.trans hsame', hgood'⟩

/-! ## Single functions -/

theorem memAddressReserve_meets {self : DataStrategy} {t : List DSEvent} {rank size : ℕ}
    (hkept : self.Kept t) (hrank : rank < self.mappings.length)
    (hnull : (self.mapping rank).addr = 0) (hmapped : (self.mapping rank).mapped = false) :
    (memAddressReserve rank size).Meets Allowed self t
      (Keeps (fun self' _ => ∃ addr,
          self' = updateMapping rank (fun m => { m with addr := addr }) self)
        self) := by
  unfold memAddressReserve
  rw [Proc.meets_bind]
  refine hal_meets hkept rfl nofun fun r hheld => ?_
  cases r with
  | error ret =>
      refine ⟨hheld.trans (add_zero _), .refl self, ?_⟩
      intro status hstatus hsuccess
      cases hstatus
      simp at hsuccess
  | ok addr =>
      refine ⟨?_, sameParams_update _ _ _, fun _ _ _ => ⟨addr, rfl⟩⟩
      unfold Kept
      rw [recorded_setAddr hrank hnull hmapped]
      exact hheld

theorem reserveRankAddress_meets {self : DataStrategy} {t : List DSEvent} {rank : ℕ}
    (hkept : self.Kept t) (hrank : rank < self.mappings.length)
    (hnull : (self.mapping rank).addr = 0) (hmapped : (self.mapping rank).mapped = false) :
    (reserveRankAddress rank).Meets Allowed self t
      (Keeps (fun self' _ => ∃ addr, addr ≠ 0 ∧
        self' = updateMapping rank (fun m => { m with addr := addr }) self) self) := by
  unfold reserveRankAddress
  rw [Proc.meets_bind, Proc.meets_get]
  refine Keeps.andThen (fun _ => rfl) (memAddressReserve_meets hkept hrank hnull hmapped) ?_
  rintro self' t' - hkept' - ⟨addr, rfl⟩
  simp only [Proc.meets_bind, Proc.meets_get]
  split
  · exact ⟨hkept', .refl _, by rintro _ ⟨⟩ ⟨⟩⟩
  · rename_i haddr
    rw [mapping_update_self hrank] at haddr
    exact ⟨hkept', .refl _, fun _ _ _ => ⟨addr, haddr, rfl⟩⟩

theorem memCreate_meets {self : DataStrategy} {t : List DSEvent} {size : ℕ} {pageType : PageType}
    (hkept : self.Kept t) (howner : self.owner < self.mappings.length)
    (hnull : (self.mapping self.owner).handle = none) :
    (memCreate self.owner size pageType).Meets Allowed self t
      (Keeps (fun self' t' => ∃ handle,
        self' = updateMapping self.owner (fun m => { m with handle := some handle }) self ∧
          Saw t' self.owner (.halMemCreate size pageType) (.ok handle)) self) := by
  unfold memCreate
  rw [Proc.meets_bind]
  refine hal_meets hkept rfl nofun fun r hheld => ?_
  cases r with
  | error ret =>
      refine ⟨hheld.trans (add_zero _), .refl self, ?_⟩
      intro status hstatus hsuccess
      cases hstatus
      simp at hsuccess
  | ok handle =>
      refine ⟨?_, sameParams_update _ _ _, fun _ _ _ => ⟨handle, rfl, saw_concat ..⟩⟩
      unfold Kept
      rw [recorded_setHandle howner hnull, Resource.handle, if_pos rfl]
      exact hheld

theorem memImportFromShareableHandle_meets {self : DataStrategy} {t : List DSEvent} {rank : ℕ}
    {shareHandle : UInt64} {deviceId : ℕ} (hkept : self.Kept t)
    (hrank : rank < self.mappings.length) (hpeer : rank ≠ self.owner)
    (hnull : (self.mapping rank).handle = none) :
    (memImportFromShareableHandle rank shareHandle deviceId).Meets Allowed self t
      (Keeps (fun self' t' => ∃ handle,
        self' = updateMapping rank (fun m => { m with handle := some handle }) self ∧
          Saw t' rank (.halMemImportFromShareableHandle shareHandle deviceId)
          (.ok handle)) self) := by
  unfold memImportFromShareableHandle
  rw [Proc.meets_bind]
  refine hal_meets hkept rfl nofun fun r hheld => ?_
  cases r with
  | error ret =>
      refine ⟨hheld.trans (add_zero _), .refl self, ?_⟩
      intro status hstatus hsuccess
      cases hstatus
      simp at hsuccess
  | ok handle =>
      refine ⟨?_, sameParams_update _ _ _, fun _ _ _ => ⟨handle, rfl, saw_concat ..⟩⟩
      unfold Kept
      rw [recorded_setHandle hrank hnull, Resource.handle, if_neg hpeer]
      exact hheld

/-- `Hal::MemMap` together with the assignment to `mapped` that follows it. -/
theorem memMap_meets {self : DataStrategy} {t : List DSEvent} {rank size : ℕ}
    {g : Status → Status} (hg : ∀ status, (g status).success = status.success)
    (hkept : self.Kept t) (hrank : rank < self.mappings.length)
    (hmapped : (self.mapping rank).mapped = false) :
    (do
      let status ← memMap rank (self.mapping rank).addr size (self.mapping rank).handle
      if status.failure then pure (g status)
      else do
        Proc.modify (updateMapping rank fun m => { m with mapped := true })
        pure .ok : DS Status).Meets Allowed self t
      (Keeps (fun self' t' =>
        self' = updateMapping rank (fun m => { m with mapped := true }) self ∧
          Saw t' rank (.halMemMap (self.mapping rank).addr size (self.mapping rank).handle)
            (.ok ()))
        self) := by
  unfold memMap
  simp only [Proc.meets_bind]
  refine hal_meets hkept rfl (fun h => by cases h) fun r hheld => ?_
  cases r with
  | error ret =>
      simp only [Proc.meets_pure, Status.failure_eq, success_fromHalError_error, Bool.not_false,
        ↓reduceIte]
      refine ⟨hheld.trans (add_zero _), .refl self, ?_⟩
      intro status hstatus hsuccess
      cases hstatus
      rw [hg] at hsuccess
      simp at hsuccess
  | ok _ =>
      simp only [Proc.meets_pure, Status.failure_eq, success_fromHalError_ok, Bool.not_true,
        Bool.false_eq_true, ↓reduceIte, Proc.meets_bind, Proc.meets_modify]
      refine ⟨?_, sameParams_update _ _ _, fun _ _ _ => ⟨rfl, saw_concat ..⟩⟩
      unfold Kept
      rw [recorded_setMapped hrank hmapped]
      exact hheld

theorem Keeps.rebase {self self' self'' : DataStrategy} {x : Except Exn Status} {t : List DSEvent}
    {Good : DataStrategy → List DSEvent → Prop} (hsame : SameParams self self')
    (h : Keeps Good self' x self'' t) : Keeps Good self x self'' t :=
  ⟨h.1, hsame.trans h.2.1, h.2.2⟩

theorem Keeps.of_error {self self' : DataStrategy} {status : Status} {t : List DSEvent}
    {Good : DataStrategy → List DSEvent → Prop} (hkept : self'.Kept t)
    (hsame : SameParams self self') (hfail : status.success = false) :
    Keeps Good self (.ok status) self' t := by
  refine ⟨hkept, hsame, ?_⟩
  intro status' hstatus hsuccess
  cases hstatus
  rw [hfail] at hsuccess
  cases hsuccess

/-! ## `LocalSetup` -/

/-- After `LocalSetup` the owner is mapped and the other entries are empty. -/
structure LocalReady (nRanks : ℕ) (data : DataStrategy) (t : List DSEvent) : Prop where
  length : data.mappings.length = nRanks
  own : data.OwnReady t
  others : ∀ rank < nRanks, rank ≠ data.owner → data.mapping rank = {}

theorem mapping_of_replicate {self : DataStrategy} {n : ℕ}
    (h : self.mappings = List.replicate n {}) (rank : ℕ) : self.mapping rank = {} := by
  unfold mapping
  rw [h, List.getD_eq_getElem?_getD, List.getElem?_replicate]
  split <;> rfl

/-- The part of `LocalSetup` after the entries are there. -/
theorem localMap_meets {self : DataStrategy} {t : List DSEvent} {nRanks : ℕ}
    {pageType : PageType} (hkept : self.Kept t) (howner : self.owner < nRanks)
    (hfresh : self.mappings = List.replicate nRanks {}) :
    (localMap pageType).Meets Allowed self t (Keeps (LocalReady nRanks) self) := by
  have hlength : self.mappings.length = nRanks := by simp [hfresh]
  have hempty := mapping_of_replicate hfresh
  have hown : self.owner < self.mappings.length := by rw [hlength]; exact howner
  unfold localMap
  rw [Proc.meets_bind, Proc.meets_get]
  refine Keeps.andThen (fun _ => rfl)
    (reserveRankAddress_meets hkept hown (by rw [hempty]) (by rw [hempty])) ?_
  rintro self₁ t₁ - hkept₁ - ⟨addr, haddr, rfl⟩
  have hown₁ := mapping_update_self (f := fun m => { m with addr := addr }) hown
  refine Keeps.andThen (fun _ => rfl) (memCreate_meets hkept₁ (by simpa using hown) ?_) ?_
  · rw [owner_update, hown₁, hempty]
  rintro self₂ t₂ - hkept₂ - ⟨handle, rfl, hcreated⟩
  rw [Proc.meets_bind, Proc.meets_get]
  have hown₂ : (updateMapping self.owner (fun m => { m with handle := some handle })
      (updateMapping self.owner (fun m => { m with addr := addr }) self)).mapping self.owner =
        ⟨some handle, addr, false⟩ := by
    rw [mapping_update_self (by simpa using hown), hown₁, hempty]
  refine (memMap_meets (g := id) (fun _ => rfl) hkept₂ (by simpa using hown) ?_).mono ?_
  · simp only [owner_update]
    rw [hown₂]
  rintro x self₃ t₃ hextends ⟨hkept₃, hsame₃, hgood⟩
  refine ⟨hkept₃, hsame₃, fun status hstatus hsuccess => ?_⟩
  obtain ⟨rfl, hmapped⟩ := hgood status hstatus hsuccess
  simp only [owner_update, rankStride_update] at hmapped hcreated ⊢
  rw [hown₂] at hmapped
  refine ⟨by simpa using hlength,
    ⟨handle, addr, pageType, haddr, ?_, hcreated.mono hextends, hmapped⟩, ?_⟩
  · simp only [owner_update]
    rw [mapping_update_self (by simpa using hown), hown₂]
  · intro rank _ hrank
    simp only [owner_update] at hrank
    rw [mapping_update_of_ne (Ne.symm hrank), mapping_update_of_ne (Ne.symm hrank),
      mapping_update_of_ne (Ne.symm hrank), hempty]

/-- The part of `LocalSetup` after the stride is known. -/
theorem localGrow_meets {self : DataStrategy} {t : List DSEvent} {nRanks : ℕ}
    {pageType : PageType} (hkept : self.Kept t) (hnil : self.mappings = [])
    (howner : self.owner < nRanks) :
    (localGrow nRanks pageType).Meets Allowed self t (Keeps (LocalReady nRanks) self) := by
  have hgrown : (self.mappings ++ List.replicate nRanks ({} : Mapping)).take nRanks =
      List.replicate nRanks {} := by
    simp [hnil]
  unfold localGrow
  rw [Proc.meets_bind]
  refine hal_meets hkept rfl nofun fun grown hheld => ?_
  have hheld := (hheld.trans (add_zero _)).trans (recorded_of_nil hnil)
  cases grown with
  | false => exact ⟨hheld.trans (recorded_of_nil hnil).symm, ⟨rfl, rfl, rfl, rfl⟩, nofun⟩
  | true =>
      have hkept' : Kept { self with
          mappings := (self.mappings ++ List.replicate nRanks ({} : Mapping)).take nRanks }
          _ := hheld.trans
        (recorded_of_default fun rank _ => mapping_of_replicate hgrown rank).symm
      simp only [↓reduceIte, Proc.meets_bind, Proc.meets_modify]
      refine (localMap_meets hkept' howner hgrown).mono ?_
      rintro x self' t' - h
      refine Keeps.rebase ?_ h
      exact ⟨rfl, rfl, rfl, rfl⟩

theorem localSetup_meets {self : DataStrategy} {t : List DSEvent} {dataBytes nRanks : ℕ}
    {pageType : PageType} (hkept : self.Kept t) (hnil : self.mappings = [])
    (howner : self.owner < nRanks) :
    (localSetup dataBytes nRanks pageType).Meets Allowed self t
      (Keeps (LocalReady nRanks) self) := by
  unfold localSetup
  rw [Proc.meets_bind]
  refine hal_meets hkept rfl (fun _ => hkept.trans (recorded_of_nil hnil)) fun r hheld => ?_
  have hheld := hheld.trans (add_zero _)
  cases r with
  | error ret => exact .of_error hheld (.refl _) (by simp)
  | ok granularity =>
      dsimp only
      split
      · exact .of_error hheld (.refl _) rfl
      · generalize roundUp dataBytes (allocationAlignment granularity) = stride
        simp only [Proc.meets_bind, Proc.meets_modify]
        have hsame : recorded { self with rankStride := stride } = self.recorded :=
          recorded_congr rfl rfl
        refine (localGrow_meets (hheld.trans hsame.symm) hnil howner).mono ?_
        rintro x self' t' - h
        refine Keeps.rebase ?_ h
        exact ⟨rfl, rfl, rfl, rfl⟩

/-! ## `CrossRankSetup` -/

/-- The outcome of reading a descriptor: the object is as before, and a value
comes from the channel. -/
def Reads (rank : ℕ) (self : DataStrategy) (x : Except Exn (Except Status UInt64))
    (self' : DataStrategy) (t' : List DSEvent) : Prop :=
  self' = self ∧ self.Kept t' ∧
    ∀ shareHandle, x = .ok (.ok shareHandle) →
      Saw t' rank (.getRankDesc rank) (.ok (.ok shareHandle))

theorem getRankDesc_meets {self : DataStrategy} {t : List DSEvent} {rank : ℕ}
    (hkept : self.Kept t) : (getRankDesc rank).Meets Allowed self t (Reads rank self) := by
  unfold getRankDesc
  rw [Proc.meets_bind]
  refine hal_meets hkept rfl nofun fun r hheld => ?_
  have hheld := hheld.trans (add_zero _)
  cases r with
  | error e => exact ⟨rfl, hheld, nofun⟩
  | ok peerDesc =>
      refine ⟨rfl, hheld, fun shareHandle hpeerDesc => ?_⟩
      cases hpeerDesc
      exact saw_concat ..

/-- The loop waits and reads again; it changes nothing. -/
theorem pollRankDesc_meets {self : DataStrategy} {rank deadline : ℕ} :
    ∀ {fuel : ℕ} {peerDesc : Except Status UInt64} {t : List DSEvent}, self.Kept t →
      (∀ shareHandle, peerDesc = .ok shareHandle →
        Saw t rank (.getRankDesc rank) (.ok (.ok shareHandle))) →
      (pollRankDesc rank deadline fuel peerDesc).Meets Allowed self t (Reads rank self) := by
  intro fuel
  induction fuel with
  | zero =>
      intro peerDesc t hkept hsaw
      cases peerDesc with
      | error status => trivial
      | ok shareHandle => exact ⟨rfl, hkept, fun _ h => by cases h; exact hsaw _ rfl⟩
  | succ fuel ih =>
      intro peerDesc t hkept hsaw
      cases peerDesc with
      | ok shareHandle => exact ⟨rfl, hkept, fun _ h => by cases h; exact hsaw _ rfl⟩
      | error status =>
          unfold pollRankDesc
          rw [Proc.meets_bind]
          -- the clock is read twice, before and after the pause
          refine hal_meets hkept rfl nofun fun now hheld => ?_
          have hkept₁ := hheld.trans (add_zero _)
          dsimp only
          split
          · exact ⟨rfl, hkept₁, nofun⟩
          rw [Proc.meets_bind]
          refine hal_meets hkept₁ rfl nofun fun _ hheld₂ => ?_
          have hkept₂ := hheld₂.trans (add_zero _)
          dsimp only
          rw [Proc.meets_bind]
          refine hal_meets hkept₂ rfl nofun fun later hheld₃ => ?_
          have hkept₃ := hheld₃.trans (add_zero _)
          dsimp only
          split
          · exact ⟨rfl, hkept₃, nofun⟩
          rw [Proc.meets_bind]
          refine (getRankDesc_meets hkept₃).mono ?_
          rintro x self' t' - ⟨rfl, hkept₄, hsaw₄⟩
          cases x with
          | error e => exact ⟨rfl, hkept₄, nofun⟩
          | ok peerDesc => exact ih hkept₄ fun shareHandle h => hsaw₄ shareHandle (by rw [h])

theorem PeerReady.mono {self : DataStrategy} {t t' : List DSEvent} {rank : ℕ}
    (h : self.PeerReady t rank) (hextends : t <+: t') : self.PeerReady t' rank := by
  obtain ⟨handle, addr, shareHandle, haddr, hentry, hread, himported, hmapped⟩ := h
  exact ⟨handle, addr, shareHandle, haddr, hentry, hread.mono hextends, himported.mono hextends,
    hmapped.mono hextends⟩

/-- Everything but the entry of `rank` is as before. -/
structure OnlyEntry (rank : ℕ) (old new : DataStrategy) : Prop where
  length : new.mappings.length = old.mappings.length
  rankStride : new.rankStride = old.rankStride
  others : ∀ other, rank ≠ other → new.mapping other = old.mapping other

theorem OnlyEntry.refl (rank : ℕ) (self : DataStrategy) : OnlyEntry rank self self :=
  ⟨rfl, rfl, fun _ _ => rfl⟩

theorem onlyEntry_update {rank : ℕ} {old new : DataStrategy} {f : Mapping → Mapping}
    (h : OnlyEntry rank old new) : OnlyEntry rank old (updateMapping rank f new) where
  length := (length_update ..).trans h.length
  rankStride := h.rankStride
  others other hne := (mapping_update_of_ne hne).trans (h.others other hne)

theorem importPeer_meets {self : DataStrategy} {t : List DSEvent} {rank : ℕ} {shareHandle : UInt64}
    (hkept : self.Kept t) (hrank : rank < self.mappings.length) (hpeer : rank ≠ self.owner)
    (hempty : self.mapping rank = {})
    (hread : Saw t rank (.getRankDesc rank) (.ok (.ok shareHandle))) :
    (importPeer rank shareHandle).Meets Allowed self t
      (Keeps (fun self' t' => self'.PeerReady t' rank ∧ OnlyEntry rank self self') self) := by
  unfold importPeer
  rw [Proc.meets_bind, Proc.meets_get]
  refine Keeps.andThen (fun _ => rfl)
    (memImportFromShareableHandle_meets hkept hrank hpeer (by rw [hempty])) ?_
  rintro self₁ t₁ hextends₁ hkept₁ - ⟨handle, rfl, himported⟩
  have hentry₁ := mapping_update_self (f := fun m => { m with handle := some handle }) hrank
  have hrank₁ : rank <
      (updateMapping rank (fun m => { m with handle := some handle }) self).mappings.length := by
    simpa using hrank
  refine Keeps.andThen (fun _ => rfl)
    (reserveRankAddress_meets hkept₁ hrank₁ (by rw [hentry₁, hempty]) (by rw [hentry₁, hempty])) ?_
  rintro self₂ t₂ hextends₂ hkept₂ - ⟨addr, haddr, rfl⟩
  have hentry₂ := mapping_update_self (f := fun m => { m with addr := addr }) hrank₁
  rw [hentry₁, hempty] at hentry₂
  rw [Proc.meets_bind, Proc.meets_get]
  let g : Status → Status := fun status =>
    ⟨status.code, s!"HAL peer map failed: rank={rank} status={status.toString}"⟩
  refine (memMap_meets (g := g) (fun _ => rfl) hkept₂ (by simpa using hrank)
    (by rw [hentry₂])).mono ?_
  rintro x self₃ t₃ hextends₃ ⟨hkept₃, hsame₃, hgood⟩
  refine ⟨hkept₃, hsame₃, fun status hstatus hsuccess => ?_⟩
  obtain ⟨rfl, hmapped⟩ := hgood status hstatus hsuccess
  rw [hentry₂] at hmapped
  refine ⟨⟨handle, addr, shareHandle, haddr, ?_, ?_, ?_, hmapped⟩, ?_⟩
  · rw [mapping_update_self (by simpa using hrank), hentry₂]
  · exact ((hread.mono hextends₁).mono hextends₂).mono hextends₃
  · exact (himported.mono hextends₂).mono hextends₃
  · exact onlyEntry_update (onlyEntry_update (onlyEntry_update (.refl rank self)))

theorem PeerReady.congr {self self' : DataStrategy} {t : List DSEvent} {rank : ℕ}
    (h : self.PeerReady t rank) (hentry : self'.mapping rank = self.mapping rank)
    (hstride : self'.rankStride = self.rankStride) (hdevice : self'.deviceId = self.deviceId) :
    self'.PeerReady t rank := by
  unfold PeerReady at h ⊢
  rw [hentry, hstride, hdevice]
  exact h

theorem OwnReady.congr {self self' : DataStrategy} {t : List DSEvent} (h : self.OwnReady t)
    (hentry : self'.mapping self.owner = self.mapping self.owner)
    (hstride : self'.rankStride = self.rankStride) (howner : self'.owner = self.owner) :
    self'.OwnReady t := by
  unfold OwnReady at h ⊢
  rw [howner, hentry, hstride]
  exact h

/-- What the peer loop leaves: the peers of its ranks are mapped and no other
entry has changed. -/
structure PeersReady (ranks : List ℕ) (old new : DataStrategy) (t : List DSEvent) : Prop where
  ready : ∀ rank ∈ ranks, rank ≠ new.owner → new.PeerReady t rank
  length : new.mappings.length = old.mappings.length
  rankStride : new.rankStride = old.rankStride
  others : ∀ rank, rank ∉ ranks ∨ rank = old.owner → new.mapping rank = old.mapping rank

theorem peerLoop_meets {fuel deadline timeoutMs : ℕ} :
    ∀ {ranks : List ℕ} {self : DataStrategy} {t : List DSEvent}, self.Kept t → ranks.Nodup →
      (∀ rank ∈ ranks, rank < self.mappings.length) →
      (∀ rank ∈ ranks, rank ≠ self.owner → self.mapping rank = {}) →
      (peerLoop fuel deadline timeoutMs ranks).Meets Allowed self t
        (Keeps (PeersReady ranks self) self) := by
  intro ranks
  induction ranks with
  | nil =>
      intro self t hkept _ _ _
      exact ⟨hkept, .refl self, fun _ _ _ => ⟨nofun, rfl, rfl, fun _ _ => rfl⟩⟩
  | cons rank ranks ih =>
      intro self t hkept hnodup hrange hempty
      rw [List.nodup_cons] at hnodup
      unfold peerLoop
      rw [Proc.meets_bind, Proc.meets_get]
      dsimp only
      split
      · rename_i howner
        -- the own rank is skipped
        refine (ih hkept hnodup.2 (fun other hother => hrange other (List.mem_cons_of_mem _ hother))
          fun other hother => hempty other (List.mem_cons_of_mem _ hother)).mono ?_
        rintro x self' t' - ⟨hkept', hsame, hgood⟩
        refine ⟨hkept', hsame, fun status hstatus hsuccess => ?_⟩
        have hpeers := hgood status hstatus hsuccess
        refine ⟨?_, hpeers.length, hpeers.rankStride, ?_⟩
        · intro other hother hpeer
          rcases List.mem_cons.mp hother with rfl | hmem
          · exact absurd (howner.trans hsame.owner.symm) hpeer
          · exact hpeers.ready other hmem hpeer
        · rintro other (hother | hother)
          · exact hpeers.others other (.inl fun hmem => hother (List.mem_cons_of_mem _ hmem))
          · exact hpeers.others other (.inr hother)
      · rename_i hpeer
        rw [Proc.meets_bind]
        refine (getRankDesc_meets hkept).mono ?_
        rintro x self₁ t₁ - ⟨rfl, hkept₁, hsaw₁⟩
        cases x with
        | error e => exact ⟨hkept₁, .refl _, nofun⟩
        | ok first =>
            dsimp only
            rw [Proc.meets_bind]
            refine (pollRankDesc_meets hkept₁ fun shareHandle h =>
              hsaw₁ shareHandle (by rw [h])).mono ?_
            rintro y self₂ t₂ - ⟨rfl, hkept₂, hsaw₂⟩
            rcases y with e | status | shareHandle
            · exact ⟨hkept₂, .refl _, nofun⟩
            · exact .of_error hkept₂ (.refl _) rfl
            · refine Keeps.andThen (fun _ => rfl) (importPeer_meets hkept₂
                (hrange rank List.mem_cons_self) hpeer (hempty rank List.mem_cons_self hpeer)
                (hsaw₂ shareHandle rfl)) ?_
              rintro self₃ t₃ - hkept₃ hsame₃ ⟨hready, honly⟩
              -- the entry of this rank is not touched any more
              have hne : ∀ other ∈ ranks, rank ≠ other := by
                rintro other hother rfl
                exact hnodup.1 hother
              refine (ih hkept₃ hnodup.2 ?_ ?_).mono ?_
              · intro other hother
                rw [honly.length]
                exact hrange other (List.mem_cons_of_mem _ hother)
              · intro other hother hpeer'
                rw [hsame₃.owner] at hpeer'
                rw [honly.others other (hne other hother)]
                exact hempty other (List.mem_cons_of_mem _ hother) hpeer'
              rintro z self₄ t₄ hextends ⟨hkept₄, hsame₄, hgood⟩
              refine ⟨hkept₄, hsame₄, fun status hstatus hsuccess => ?_⟩
              have hpeers := hgood status hstatus hsuccess
              refine ⟨?_, hpeers.length.trans honly.length,
                hpeers.rankStride.trans honly.rankStride, ?_⟩
              · intro other hother hpeer'
                rcases List.mem_cons.mp hother with rfl | hmem
                · exact (hready.mono hextends).congr (hpeers.others _ (.inl hnodup.1))
                    hpeers.rankStride hsame₄.deviceId
                · exact hpeers.ready other hmem hpeer'
              · intro other hother
                have hne' : rank ≠ other := by
                  rintro rfl
                  rcases hother with hother | hother
                  · exact hother List.mem_cons_self
                  · exact hpeer hother
                refine (hpeers.others other ?_).trans (honly.others other hne')
                rcases hother with hother | hother
                · exact .inl fun hmem => hother (List.mem_cons_of_mem _ hmem)
                · exact .inr (hother.trans hsame₃.owner.symm)

/-! ## Who uses the control channel -/

/-- The call is for the control channel. -/
def onChannel : Op → Bool
  | .setRankDesc _ _ => true
  | .getRankDesc _ => true
  | _ => false

/-- A call that is not for the control channel. -/
def IsLocal (call : Call) : Prop := onChannel call.op = false

/-- A call other than `SetRankDesc`. -/
def Silent (call : Call) : Prop := ∀ rank handle, call.op ≠ .setRankDesc rank handle

theorem IsLocal.silent {call : Call} (h : IsLocal call) : Silent call := by
  intro rank handle hop
  unfold IsLocal at h
  rw [hop] at h
  cases h

theorem resetLoop_only {P : Call → Prop} {op? : ℕ → Option Op}
    (hop? : ∀ rank op, op? rank = some op → P ⟨.reset, rank, op⟩) :
    ∀ ranks : List ℕ, (resetLoop op? ranks).Only P := by
  intro ranks
  induction ranks with
  | nil => exact Proc.only_pure _
  | cons rank ranks ih =>
      unfold resetLoop
      cases hop : op? rank with
      | none => exact ih
      | some op => exact (Proc.only_ask (hop? rank op hop)).bind fun _ => ih

/-- `Reset` unmaps, releases and frees, and makes no other call. -/
theorem reset_only {P : Call → Prop} (hunmap : ∀ rank addr, P ⟨.reset, rank, .halMemUnmap addr⟩)
    (hrelease : ∀ rank handle, P ⟨.reset, rank, .halMemRelease handle⟩)
    (hfree : ∀ rank addr, P ⟨.reset, rank, .halMemAddressFree addr⟩) : reset.Only P := by
  unfold reset
  refine Proc.only_get.bind fun self => ?_
  have hreleaseOp : ∀ rank op, self.releaseOp rank = some op → P ⟨.reset, rank, op⟩ := by
    intro rank op hop
    obtain ⟨handle, -, rfl⟩ := Option.map_eq_some_iff.mp hop
    exact hrelease rank handle
  refine (resetLoop_only ?_ _).bind fun _ => (resetLoop_only hreleaseOp _).bind fun _ =>
    (resetLoop_only hreleaseOp _).bind fun _ => (resetLoop_only ?_ _).bind fun _ =>
      Proc.only_modify _
  · intro rank op hop
    unfold unmapOp at hop
    split at hop <;> cases hop
    exact hunmap rank _
  · intro rank op hop
    unfold freeOp at hop
    split at hop <;> cases hop
    exact hfree rank _

theorem reset_local : reset.Only IsLocal :=
  reset_only (fun _ _ => rfl) (fun _ _ => rfl) fun _ _ => rfl

theorem hal_local (rank : ℕ) (op : Op) (hop : onChannel op = false) :
    (hal rank op).Only IsLocal := Proc.only_ask hop

theorem deviceSetup_local (deviceId : ℤ) : (deviceSetup deviceId).Only IsLocal := by
  unfold deviceSetup
  split
  · exact Proc.only_pure _
  · refine (hal_local _ _ rfl).bind fun r => ?_
    cases r <;> exact Proc.only_pure _

theorem reserveRankAddress_local (rank : ℕ) : (reserveRankAddress rank).Only IsLocal := by
  unfold reserveRankAddress memAddressReserve
  refine Proc.only_get.bind fun self => ?_
  refine ((hal_local _ _ rfl).bind fun r => ?_).bind fun status => ?_
  · cases r with
    | error ret => exact Proc.only_pure _
    | ok addr => exact (Proc.only_modify _).bind fun _ => Proc.only_pure _
  · split
    · exact Proc.only_pure _
    · refine Proc.only_get.bind fun self => ?_
      split <;> exact Proc.only_pure _

theorem memMap_local (rank : ℕ) (addr : Ptr) (size : ℕ) (handle : Option Handle) :
    (memMap rank addr size handle).Only IsLocal :=
  (hal_local _ _ rfl).bind fun _ => Proc.only_pure _

theorem localSetup_local (dataBytes nRanks : ℕ) (pageType : PageType) :
    (localSetup dataBytes nRanks pageType).Only IsLocal := by
  unfold localSetup localGrow localMap memCreate
  refine (hal_local _ _ rfl).bind fun r => ?_
  cases r with
  | error ret => exact Proc.only_pure _
  | ok granularity =>
      dsimp only
      split
      · exact Proc.only_pure _
      refine (Proc.only_modify _).bind fun _ => (hal_local _ _ rfl).bind fun grown => ?_
      cases grown with
      | false => exact Proc.only_throw _
      | true =>
          refine (Proc.only_modify _).bind fun _ => Proc.only_get.bind fun self => ?_
          refine (reserveRankAddress_local _).bind fun status => ?_
          split
          · exact Proc.only_pure _
          refine ((hal_local _ _ rfl).bind fun r => ?_).bind fun status => ?_
          · cases r with
            | error ret => exact Proc.only_pure _
            | ok handle => exact (Proc.only_modify _).bind fun _ => Proc.only_pure _
          · split
            · exact Proc.only_pure _
            refine Proc.only_get.bind fun self => (memMap_local _ _ _ _).bind fun status => ?_
            split
            · exact Proc.only_pure _
            · exact (Proc.only_modify _).bind fun _ => Proc.only_pure _

theorem importPeer_local (rank : ℕ) (shareHandle : UInt64) :
    (importPeer rank shareHandle).Only IsLocal := by
  unfold importPeer memImportFromShareableHandle
  refine Proc.only_get.bind fun self =>
    ((hal_local _ _ rfl).bind fun r => ?_).bind fun status => ?_
  · cases r with
    | error ret => exact Proc.only_pure _
    | ok handle => exact (Proc.only_modify _).bind fun _ => Proc.only_pure _
  · split
    · exact Proc.only_pure _
    refine (reserveRankAddress_local rank).bind fun status => ?_
    split
    · exact Proc.only_pure _
    refine Proc.only_get.bind fun self => (memMap_local _ _ _ _).bind fun status => ?_
    split
    · exact Proc.only_pure _
    · exact (Proc.only_modify _).bind fun _ => Proc.only_pure _

theorem getRankDesc_silent (rank : ℕ) : (getRankDesc rank).Only Silent := by
  unfold getRankDesc
  refine (Proc.only_ask nofun).bind fun r => ?_
  cases r with
  | error e => exact Proc.only_throw _
  | ok peerDesc => exact Proc.only_pure _

theorem pollRankDesc_silent (rank deadline fuel : ℕ) (peerDesc : Except Status UInt64) :
    (pollRankDesc rank deadline fuel peerDesc).Only Silent := by
  induction fuel generalizing peerDesc with
  | zero => cases peerDesc with
      | error status => exact Proc.only_cut
      | ok shareHandle => exact Proc.only_pure _
  | succ fuel ih =>
      cases peerDesc with
      | ok shareHandle => exact Proc.only_pure _
      | error status =>
          unfold pollRankDesc
          refine (Proc.only_ask nofun).bind fun now => ?_
          split
          · exact Proc.only_pure _
          refine (Proc.only_ask nofun).bind fun _ => (Proc.only_ask nofun).bind fun later => ?_
          split
          · exact Proc.only_pure _
          · exact (getRankDesc_silent rank).bind ih

theorem peerLoop_silent (fuel deadline timeoutMs : ℕ) (ranks : List ℕ) :
    (peerLoop fuel deadline timeoutMs ranks).Only Silent := by
  induction ranks with
  | nil => exact Proc.only_pure _
  | cons rank ranks ih =>
      unfold peerLoop
      refine Proc.only_get.bind fun self => ?_
      split
      · exact ih
      refine (getRankDesc_silent rank).bind fun first => ?_
      refine (pollRankDesc_silent rank deadline fuel first).bind fun peerDesc => ?_
      cases peerDesc with
      | error status => exact Proc.only_pure _
      | ok shareHandle =>
          refine ((importPeer_local rank shareHandle).mono fun _ => IsLocal.silent).bind
            fun status => ?_
          split
          · exact Proc.only_pure _
          · exact ih

end SharingProbe.DataStrategy
