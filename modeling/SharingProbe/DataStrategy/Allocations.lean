import SharingProbe.Library.Hoare
import SharingProbe.DataStrategy.Setup

/-!
# Allocations and mappings

What HAL keeps for a process that has made some calls: what its handles stand for, which ranges
of addresses it has mapped to what, and what it has exported.  A handle means what it stands for
when it is passed, so a driver may use the value of a released handle again.

An allocation is known by the process that has created it and by how many that process had
created before.  What an import gives is a parameter: the allocation that a token stands for.

## Strategy

`HalState.serve` is the effect of one call, and `halAfter` that of a trace.  Only seven kinds of
calls have an effect; `Stable` is what the others keep.  `does_localMap` says what a `LocalSetup`
that succeeds leaves, also after an attempt that has failed, since that one has mapped nothing.
From there on nothing is created, released or unmapped any more, so `Placed`, the invariant of the
peer loop, only grows, and `does_setup` is what is left when `Setup` succeeds.
-/

namespace SharingProbe.DataStrategy

open Interaction

/-! ## What HAL keeps -/

/-- A physical allocation. -/
structure Allocation where
  process : ℕ
  number : ℕ
  bytes : ℕ
  deriving DecidableEq, Repr

/-- A range of addresses that is mapped to the first bytes of an allocation. -/
structure View where
  base : Ptr
  bytes : ℕ
  allocation : Allocation
  deriving DecidableEq, Repr

/-- What HAL keeps for a process. -/
structure HalState where
  /-- The granularity that it has reported last. -/
  granularity : ℕ := 0
  /-- How many allocations the process has created. -/
  created : ℕ := 0
  /-- The allocation that the process has created last, unless it has released something since. -/
  own : Option Allocation := none
  handles : Handle → Option Allocation := fun _ => none
  views : List View := []
  /-- What the process has exported, and as which token. -/
  tokens : List (UInt64 × Allocation) := []

section Memory

variable (imports : UInt64 → Allocation) (process : ℕ)

/-- The effect of a call.  One that fails has none. -/
def HalState.serve (s : HalState) : (op : Op) → op.Reply → HalState
  | .halMemGetAllocationGranularity _, .ok granularity => { s with granularity := granularity }
  | .halMemCreate bytes _, .ok handle =>
      let allocation : Allocation := ⟨process, s.created, bytes⟩
      { s with
        created := s.created + 1
        own := some allocation
        handles := Function.update s.handles handle (some allocation) }
  | .halMemImportFromShareableHandle token _, .ok handle =>
      { s with handles := Function.update s.handles handle (some (imports token)) }
  | .halMemRelease handle, .ok _ =>
      { s with own := none, handles := Function.update s.handles handle none }
  | .halMemExportToShareableHandle (some handle), .ok token =>
      { s with tokens := s.tokens ++ ((s.handles handle).map fun a => (token, a)).toList }
  | .halMemMap base bytes (some handle), .ok _ =>
      { s with views := s.views ++ ((s.handles handle).map fun a => ⟨base, bytes, a⟩).toList }
  | .halMemUnmap base, .ok _ => { s with views := s.views.filter fun view => view.base ≠ base }
  | _, _ => s

/-- What HAL keeps after these calls. -/
def halAfter (t : List DSEvent) : HalState :=
  t.foldl (fun s e => s.serve imports process e.call.op e.reply) {}

end Memory

variable {imports : UInt64 → Allocation} {process : ℕ}

@[simp] theorem halAfter_concat (t : List DSEvent) (e : DSEvent) :
    halAfter imports process (t ++ [e]) =
      (halAfter imports process t).serve imports process e.call.op e.reply := List.foldl_concat ..

/-! ## Calls without an effect -/

/-- The call is for an allocation, a mapping or a granularity. -/
def onMemory : Op → Bool
  | .halMemGetAllocationGranularity _ | .halMemCreate _ _ | .halMemMap _ _ _ | .halMemUnmap _
  | .halMemRelease _ | .halMemExportToShareableHandle _
  | .halMemImportFromShareableHandle _ _ => true
  | _ => false

theorem serve_of_not_onMemory {s : HalState} {op : Op} (hop : onMemory op = false) (r : op.Reply) :
    s.serve imports process op r = s := by
  cases op with
  | halMemGetAllocationGranularity | halMemCreate | halMemMap | halMemUnmap | halMemRelease
  | halMemExportToShareableHandle | halMemImportFromShareableHandle => cases hop
  | _ => rfl

theorem serve_halMemMap {s : HalState} {base : Ptr} {bytes : ℕ} {handle : Handle} {a : Allocation}
    (hhandle : s.handles handle = some a) :
    s.serve imports process (.halMemMap base bytes (some handle)) (.ok ()) =
      { s with views := s.views ++ [⟨base, bytes, a⟩] } := by
  simp [HalState.serve, hhandle]

theorem serve_halMemExport {s : HalState} {handle : Handle} {token : UInt64} {a : Allocation}
    (hhandle : s.handles handle = some a) :
    s.serve imports process (.halMemExportToShareableHandle (some handle)) (.ok token) =
      { s with tokens := s.tokens ++ [(token, a)] } := by
  simp [HalState.serve, hhandle]

/-- Nothing is mapped by a call that does not map. -/
theorem views_serve {s : HalState} {op : Op}
    (hop : ∀ base bytes handle, op ≠ .halMemMap base bytes handle) (hviews : s.views = [])
    (r : op.Reply) : (s.serve imports process op r).views = [] := by
  cases op with
  | halMemMap base bytes handle => exact absurd rfl (hop base bytes handle)
  | halMemUnmap base =>
      cases r with
      | error ret => exact hviews
      | ok _ =>
          show s.views.filter _ = []
          rw [hviews]
          rfl
  | halMemExportToShareableHandle handle => cases handle <;> cases r <;> exact hviews
  | halMemGetAllocationGranularity | halMemCreate | halMemRelease
  | halMemImportFromShareableHandle => cases r <;> exact hviews
  | _ => exact hviews

/-- A procedure that returns where `Q` holds, whatever it calls. -/
abbrev Does {α : Type} (P : DataStrategy → List DSEvent → Prop) (m : DS α)
    (Q : α → DataStrategy → List DSEvent → Prop) : Prop :=
  m.Triple (fun _ _ _ => True) P Q fun _ _ => True

/-- What is said of the object and of what HAL keeps. -/
abbrev During (imports : UInt64 → Allocation) (process : ℕ) (P : DataStrategy → HalState → Prop)
    (d : DataStrategy) (t : List DSEvent) : Prop :=
  P d (halAfter imports process t)

theorem not_success {status : Status} (hfailure : status.failure) : ¬status.success := by
  simpa using hfailure

section Rules

variable {P : DataStrategy → HalState → Prop} {rank : ℕ}

theorem does_ask {call : Call} {Q : call.Reply → DataStrategy → HalState → Prop}
    (h : ∀ d s r, P d s → Q r d (s.serve imports process call.op r)) :
    Does (During imports process P) (Proc.ask (R := Call.Reply) call)
      fun r => During imports process (Q r) := by
  refine Proc.triple_ask (fun _ _ _ => trivial) fun d t r hP => ?_
  unfold During
  rw [halAfter_concat]
  exact h d _ r hP

theorem does_hal {op : Op} {Q : op.Reply → DataStrategy → HalState → Prop}
    (h : ∀ d s r, P d s → Q r d (s.serve imports process op r)) :
    Does (During imports process P) (hal rank op) fun r => During imports process (Q r) :=
  does_ask h

theorem does_pure {α : Type} {a : α} {Q : α → DataStrategy → HalState → Prop}
    (h : ∀ d s, P d s → Q a d s) :
    Does (During imports process P) (pure a : DS α) fun a => During imports process (Q a) :=
  Proc.triple_pure fun d _ hP => h d _ hP

theorem does_modify {f : DataStrategy → DataStrategy} {Q : DataStrategy → HalState → Prop}
    (h : ∀ d s, P d s → Q (f d) s) :
    Does (During imports process P) (Proc.modify f : DS PUnit) fun _ => During imports process Q :=
  Proc.triple_modify fun d _ hP => h d _ hP

theorem does_get_bind {α : Type} {f : DataStrategy → DS α} {Q : α → DataStrategy → HalState → Prop}
    (h : ∀ self, Does (During imports process fun d s => d = self ∧ P d s) (f self)
      fun a => During imports process (Q a)) :
    Does (During imports process P) (Proc.get >>= f) fun a => During imports process (Q a) :=
  Proc.triple_get_bind h

theorem does_weaken {α : Type} {m : DS α} {P P' : DataStrategy → List DSEvent → Prop}
    {Q Q' : α → DataStrategy → List DSEvent → Prop} (h : Does P m Q) (hP : ∀ d t, P' d t → P d t)
    (hQ : ∀ a d t, Q a d t → Q' a d t) : Does P' m Q' :=
  h.weaken hP hQ fun _ _ _ => trivial

theorem does_exists {α ι : Type} {m : DS α} {P : ι → DataStrategy → HalState → Prop}
    {Q : α → DataStrategy → HalState → Prop}
    (h : ∀ i, Does (During imports process (P i)) m fun a => During imports process (Q a)) :
    Does (During imports process fun d s => ∃ i, P i d s) m fun a =>
      During imports process (Q a) := by
  rintro d t ⟨i, hi⟩
  exact h i d t hi

/-- What a call keeps that changes nothing of what HAL keeps. -/
def Stable (imports : UInt64 → Allocation) (process : ℕ)
    (P : DataStrategy → List DSEvent → Prop) : Prop :=
  ∀ d t (e : DSEvent), halAfter imports process (t ++ [e]) = halAfter imports process t →
    P d t → P d (t ++ [e])

theorem stable_during : Stable imports process (During imports process P) := by
  intro d t e hsame h
  unfold During
  rw [hsame]
  exact h

section Entries

variable {P Q : DataStrategy → List DSEvent → Prop}

theorem does_call (hP : Stable imports process P) {op : Op} (hop : onMemory op = false) :
    Does P (hal rank op) fun _ => P := by
  refine Proc.triple_ask (fun _ _ _ => trivial) fun d t r h => hP d t _ ?_ h
  rw [halAfter_concat, serve_of_not_onMemory hop]

/-- An address that is reserved does not matter. -/
theorem does_memAddressReserve (hP : Stable imports process P) {size : ℕ}
    (hupdate : ∀ d t addr, P d t → P (updateMapping rank (fun m => { m with addr := addr }) d) t) :
    Does P (memAddressReserve rank size) fun _ => P := by
  refine Proc.Triple.bind (does_call hP rfl) fun r => ?_
  cases r with
  | error ret => exact Proc.triple_pure fun _ _ h => h
  | ok addr =>
      apply Proc.Triple.bind (Q := fun _ => P)
      · exact Proc.triple_modify fun d t h => hupdate d t addr h
      · exact fun _ => Proc.triple_pure fun _ _ h => h

theorem does_reserveRankAddress (hP : Stable imports process P)
    (hupdate : ∀ d t addr, P d t → P (updateMapping rank (fun m => { m with addr := addr }) d) t) :
    Does P (reserveRankAddress rank) fun _ => P := by
  refine Proc.Triple.bind (Proc.triple_get (Q := fun _ => P) fun _ _ h => h) fun self => ?_
  refine Proc.Triple.bind (does_memAddressReserve hP hupdate) fun status => ?_
  split
  · exact Proc.triple_pure fun _ _ h => h
  · refine Proc.Triple.bind (Proc.triple_get (Q := fun _ => P) fun _ _ h => h) fun self => ?_
    split
    · exact Proc.triple_pure fun _ _ h => h
    · exact Proc.triple_pure fun _ _ h => h

/-- `halMemMap` of an entry whose handle stands for `b`, and the assignment to `mapped`. -/
theorem does_mapEntry {self : DataStrategy} {b : Allocation} {g : Status → Status}
    (hg : ∀ status, (g status).success = status.success) (hP : Stable imports process P)
    (hstands : ∀ t, P self t → ∃ handle, (self.mapping rank).handle = some handle ∧
      (halAfter imports process t).handles handle = some b)
    (h : ∀ t e, P self t → halAfter imports process (t ++ [e]) =
        { halAfter imports process t with
          views := (halAfter imports process t).views ++
            [⟨(self.mapping rank).addr, self.rankStride, b⟩] } →
      Q (updateMapping rank (fun m => { m with mapped := true }) self) (t ++ [e])) :
    Does (fun d t => d = self ∧ P d t)
      (do
        let status ← memMap rank (self.mapping rank).addr self.rankStride (self.mapping rank).handle
        if status.failure then pure (g status)
        else do
          Proc.modify (updateMapping rank fun m => { m with mapped := true })
          pure .ok : DS Status)
      fun status d t => (status.success → Q d t) ∧ (status.failure → P d t) := by
  let M : List DSEvent → Prop := fun t =>
    Q (updateMapping rank (fun m => { m with mapped := true }) self) t
  apply Proc.Triple.bind (Q := fun status d t =>
    d = self ∧ (status.success → M t) ∧ (status.failure → P d t))
  · apply Proc.Triple.bind (Q := fun (r : Except DrvError Unit) d t =>
      d = self ∧ (r.isOk → M t) ∧ (¬r.isOk → P d t))
    · refine Proc.triple_ask (fun _ _ _ => trivial) ?_
      rintro d t r ⟨rfl, hpre⟩
      obtain ⟨handle, hhandle, hstand⟩ := hstands t hpre
      cases r with
      | error ret =>
          refine ⟨rfl, nofun, fun _ => hP d t _ ?_ hpre⟩
          rw [halAfter_concat, hhandle]
          rfl
      | ok _ =>
          refine ⟨rfl, fun _ => h t _ hpre ?_, fun hnot => absurd rfl hnot⟩
          rw [halAfter_concat, hhandle]
          exact serve_halMemMap hstand
    · intro r
      cases r with
      | error ret =>
          exact Proc.triple_pure fun d t hpost => ⟨hpost.1, fun hsuccess => by simp at hsuccess,
            fun _ => hpost.2.2 (by simp [Except.isOk, Except.toBool])⟩
      | ok _ =>
          exact Proc.triple_pure fun d t hpost => ⟨hpost.1, fun _ => hpost.2.1 rfl,
            fun hfailure => by cases hfailure⟩
  -- `mapped` is set only after the call has succeeded
  intro status
  split
  · rename_i hfail
    refine Proc.triple_pure fun d t hpost => ⟨fun hsuccess => ?_, fun _ => hpost.2.2 hfail⟩
    rw [hg] at hsuccess
    rw [Status.failure_eq, hsuccess] at hfail
    cases hfail
  · rename_i hmapped
    apply Proc.Triple.bind (Q := fun _ => Q)
    · apply Proc.triple_modify
      rintro d t ⟨rfl, hsuccess, -⟩
      exact hsuccess (by simpa using hmapped)
    · exact fun _ => Proc.triple_pure fun d t hQ => ⟨fun _ => hQ, fun hfailure => by cases hfailure⟩

end Entries

end Rules

/-! ## `LocalSetup` -/

section LocalSetup

variable {n dataBytes owner stride : ℕ} {d : DataStrategy} {s : HalState} {a : Allocation}

/-- The entries are there, and nothing is mapped yet. -/
structure Grown (n dataBytes owner stride : ℕ) (d : DataStrategy) (s : HalState) : Prop where
  owner_eq : d.owner = owner
  entries : d.mappings.length = n
  owner_lt : owner < n
  stride_eq : d.rankStride = stride
  rounded : stride = roundUp dataBytes (allocationAlignment s.granularity)
  unmapped : s.views = []

theorem Grown.update (h : Grown n dataBytes owner stride d s) (rank : ℕ) (f : Mapping → Mapping) :
    Grown n dataBytes owner stride (updateMapping rank f d) s :=
  ⟨h.owner_eq, (length_update ..).trans h.entries, h.owner_lt, h.stride_eq, h.rounded, h.unmapped⟩

theorem Grown.entry (h : Grown n dataBytes owner stride d s) : owner < d.mappings.length :=
  h.entries ▸ h.owner_lt

/-- The process has created this allocation, and nothing since; its size is the stride. -/
structure Owns (process : ℕ) (a : Allocation) (d : DataStrategy) (s : HalState) : Prop where
  own : s.own = some a
  process_eq : a.process = process
  bytes : a.bytes = d.rankStride

/-- The handle that the owner has recorded stands for the allocation. -/
def Recorded (a : Allocation) (d : DataStrategy) (s : HalState) : Prop :=
  ∃ handle, (d.mapping d.owner).handle = some handle ∧ s.handles handle = some a

/-- The allocation is mapped, and nothing that is mapped has another size than the stride. -/
structure Attached (n dataBytes : ℕ) (a : Allocation) (d : DataStrategy) (s : HalState) : Prop where
  entries : d.mappings.length = n
  rounded : d.rankStride = roundUp dataBytes (allocationAlignment s.granularity)
  view : ⟨(d.mapping d.owner).addr, d.rankStride, a⟩ ∈ s.views
  sizes : ∀ view ∈ s.views, view.bytes = d.rankStride

theorem does_memCreate {pageType : PageType} :
    Does (During imports process (Grown n dataBytes owner stride)) (memCreate owner stride pageType)
      fun status => During imports process fun d s => Grown n dataBytes owner stride d s ∧
        (status.success → ∃ a, Owns process a d s ∧ Recorded a d s) := by
  refine Proc.Triple.bind (does_hal (Q := fun (r : Except DrvError Handle) d s =>
    Grown n dataBytes owner stride d s ∧ ∀ handle, r = .ok handle → ∃ a : Allocation,
      s.own = some a ∧ a.process = process ∧ a.bytes = stride ∧ s.handles handle = some a) ?_)
    fun r => ?_
  · intro d s r h
    cases r with
    | error ret => exact ⟨h, nofun⟩
    | ok handle =>
        refine ⟨⟨h.owner_eq, h.entries, h.owner_lt, h.stride_eq, h.rounded, h.unmapped⟩, ?_⟩
        rintro _ ⟨⟩
        exact ⟨⟨process, s.created, stride⟩, rfl, rfl, rfl, Function.update_self ..⟩
  · cases r with
    | error ret => exact does_pure fun d s h => ⟨h.1, fun hsuccess => by simp at hsuccess⟩
    | ok handle =>
        refine Proc.Triple.bind (does_modify (Q := fun d s => Grown n dataBytes owner stride d s ∧
          ∃ a, Owns process a d s ∧ Recorded a d s) ?_) fun _ =>
            does_pure fun d s h => ⟨h.1, fun _ => h.2⟩
        rintro d s ⟨h, hcreated⟩
        obtain ⟨a, hown, hprocess, hbytes, hhandle⟩ := hcreated handle rfl
        refine ⟨h.update owner _, a, ⟨hown, hprocess, hbytes.trans h.stride_eq.symm⟩, handle, ?_,
          hhandle⟩
        rw [owner_update, h.owner_eq, mapping_update_self h.entry]

/-- What `LocalSetup` leaves: the allocation, or nothing that is mapped. -/
def LocalMapped (process n dataBytes owner : ℕ) (status : Status) (d : DataStrategy)
    (s : HalState) : Prop :=
  (status.success → ∃ a, Owns process a d s ∧ Recorded a d s ∧ Attached n dataBytes a d s) ∧
    (status.failure → d.owner = owner ∧ s.views = [])

theorem localMapped_of_failure {status : Status} (hfailure : status.failure)
    (howner : d.owner = owner) (hviews : s.views = []) :
    LocalMapped process n dataBytes owner status d s := by
  exact ⟨fun hsuccess => absurd hsuccess (not_success hfailure), fun _ => ⟨howner, hviews⟩⟩

theorem does_localMap {pageType : PageType} :
    Does (During imports process (Grown n dataBytes owner stride)) (localMap pageType)
      fun status => During imports process (LocalMapped process n dataBytes owner status) := by
  refine does_get_bind fun self => ?_
  refine Proc.Triple.assume (A := self.owner = owner ∧ self.rankStride = stride)
    (fun d t h => h.1 ▸ ⟨h.2.owner_eq, h.2.stride_eq⟩) ?_
  rintro ⟨rfl, rfl⟩
  refine Proc.Triple.bind (does_weaken (does_reserveRankAddress stable_during
    fun _ _ _ h => h.update _ _) (fun _ _ h => h.2) fun _ _ _ h => h) fun status => ?_
  -- whatever fails up to the call leaves nothing mapped
  split
  · exact does_pure fun _ _ h => localMapped_of_failure ‹_› h.owner_eq h.unmapped
  refine Proc.Triple.bind does_memCreate fun status => ?_
  split
  · exact does_pure fun _ _ h => localMapped_of_failure ‹_› h.1.owner_eq h.1.unmapped
  rename_i hcreated
  -- from here on the allocation is known
  let P : Allocation → DataStrategy → HalState → Prop := fun a d s =>
    Grown n dataBytes self.owner self.rankStride d s ∧ Owns process a d s ∧ Recorded a d s
  refine does_weaken (does_exists (P := P) fun a => ?_) ?_ fun _ _ _ h => h
  · let mapped : DataStrategy → HalState → Prop := fun d s =>
      Owns process a d s ∧ Recorded a d s ∧ Attached n dataBytes a d s
    refine does_get_bind fun mine => does_weaken (does_mapEntry (b := a) (g := id)
      (P := During imports process (P a)) (Q := During imports process mapped) (fun _ => rfl)
      stable_during ?_ ?_) (fun _ _ h => h) ?_
    · rintro t ⟨-, -, hrecorded⟩
      exact hrecorded
    · rintro t e ⟨hgrown, howns, handle, hhandle, hstand⟩ hafter
      have hown : mine.owner < mine.mappings.length := hgrown.owner_eq ▸ hgrown.entry
      have hentry := mapping_update_self (f := fun m => { m with mapped := true }) hown
      unfold During
      rw [hafter]
      refine ⟨⟨howns.own, howns.process_eq, howns.bytes⟩, ⟨handle, ?_, hstand⟩,
        (length_update ..).trans hgrown.entries, ?_, ?_, ?_⟩
      · rw [owner_update, hentry]
        exact hhandle
      · exact hgrown.stride_eq.trans hgrown.rounded
      · rw [owner_update, hentry]
        simp
      · simp [hgrown.unmapped]
    · rintro status d t ⟨hsuccess, hfailure⟩
      exact ⟨fun h => ⟨a, hsuccess h⟩, fun h => ⟨(hfailure h).1.owner_eq, (hfailure h).1.unmapped⟩⟩
  · rintro d s ⟨hgrown, hown⟩
    obtain ⟨a, howns, hrecorded⟩ := hown (by simpa using hcreated)
    exact ⟨a, hgrown, howns, hrecorded⟩

/-- Nothing is mapped, and the entries are those of no rank. -/
structure Bare (owner : ℕ) (d : DataStrategy) (s : HalState) : Prop where
  owner_eq : d.owner = owner
  mappings : d.mappings = []
  unmapped : s.views = []

/-- `LocalSetup` after the stride is known. -/
theorem does_localGrow {pageType : PageType} (howner : owner < n) :
    Does (During imports process fun d s => Bare owner d s ∧
        d.rankStride = roundUp dataBytes (allocationAlignment s.granularity))
      (localGrow n pageType)
      fun status => During imports process (LocalMapped process n dataBytes owner status) := by
  refine Proc.Triple.bind (does_call stable_during rfl) fun grown => ?_
  cases grown with
  | false => exact Proc.triple_throw fun _ _ _ => trivial
  | true =>
      let P : ℕ → DataStrategy → HalState → Prop := Grown n dataBytes owner
      refine Proc.Triple.bind (does_modify (Q := fun d s => ∃ stride, P stride d s) ?_) fun _ =>
        does_exists fun stride => does_localMap
      rintro d s ⟨h, hstride⟩
      refine ⟨d.rankStride, h.owner_eq, ?_, howner, rfl, hstride, h.unmapped⟩
      simp [h.mappings]

theorem does_localSetup {pageType : PageType} (howner : owner < n) :
    Does (During imports process (Bare owner)) (localSetup dataBytes n pageType)
      fun status => During imports process (LocalMapped process n dataBytes owner status) := by
  refine Proc.Triple.bind (does_hal (Q := fun (r : Except DrvError ℕ) d s => Bare owner d s ∧
    ∀ granularity, r = .ok granularity → s.granularity = granularity) ?_) fun r => ?_
  · intro d s r h
    cases r with
    | error ret => exact ⟨h, nofun⟩
    | ok granularity =>
        refine ⟨⟨h.owner_eq, h.mappings, h.unmapped⟩, ?_⟩
        rintro _ ⟨⟩
        rfl
  cases r with
  | error ret =>
      exact does_pure fun d s h => localMapped_of_failure (by simp) h.1.owner_eq h.1.unmapped
  | ok granularity =>
      dsimp only
      split
      · exact does_pure fun d s h => localMapped_of_failure rfl h.1.owner_eq h.1.unmapped
      refine Proc.Triple.bind (does_modify (Q := fun d s => Bare owner d s ∧
        d.rankStride = roundUp dataBytes (allocationAlignment s.granularity)) ?_) fun _ =>
          does_localGrow howner
      rintro d s ⟨h, hgranularity⟩
      exact ⟨⟨h.owner_eq, h.mappings, h.unmapped⟩, by rw [hgranularity granularity rfl]⟩

/-- A loop of `Reset` maps nothing. -/
theorem does_resetLoop {op? : ℕ → Option Op}
    (hop? : ∀ rank op, op? rank = some op → ∀ base bytes handle, op ≠ .halMemMap base bytes handle)
    (ranks : List ℕ) :
    Does (During imports process fun d s => d.owner = owner ∧ s.views = []) (resetLoop op? ranks)
      fun _ => During imports process fun d s => d.owner = owner ∧ s.views = [] := by
  induction ranks with
  | nil => exact does_pure fun _ _ h => h
  | cons rank ranks ih =>
      unfold resetLoop
      cases hop : op? rank with
      | none => exact ih
      | some op =>
          refine Proc.Triple.bind (does_ask (Q := fun _ d s => d.owner = owner ∧ s.views = [])
            fun d s r h => ⟨h.1, ?_⟩) fun _ => ih
          exact views_serve (hop? rank op hop) h.2 r

theorem does_reset :
    Does (During imports process fun d s => d.owner = owner ∧ s.views = []) reset
      fun _ => During imports process (Bare owner) := by
  refine does_get_bind fun self => does_weaken
    (P := During imports process fun d s => d.owner = owner ∧ s.views = []) ?_ (fun _ _ h => h.2)
    fun _ _ _ h => h
  have hreleaseOp : ∀ rank op, self.releaseOp rank = some op →
      ∀ base bytes handle, op ≠ .halMemMap base bytes handle := by
    intro rank op hop base bytes handle
    obtain ⟨_, -, rfl⟩ := Option.map_eq_some_iff.mp hop
    exact nofun
  refine Proc.Triple.bind (does_resetLoop ?_ _) fun _ => Proc.Triple.bind
    (does_resetLoop hreleaseOp _) fun _ => Proc.Triple.bind (does_resetLoop hreleaseOp _) fun _ =>
      Proc.Triple.bind (does_resetLoop ?_ _) fun _ => does_modify fun d s h => ⟨h.1, rfl, h.2⟩
  · intro rank op hop
    unfold unmapOp at hop
    split at hop <;> cases hop
    exact nofun
  · intro rank op hop
    unfold freeOp at hop
    split at hop <;> cases hop
    exact nofun

/-- With Huge pages, or with Normal pages after an attempt that has failed. -/
theorem does_allocate {args : SetupArgs} (howner : owner < args.nRanks) :
    Does (During imports process (Bare owner)) (allocate args) fun status =>
      During imports process (LocalMapped process args.nRanks
        (sizeT (args.slotSize * args.nSlotsPerRank)) owner status) := by
  refine Proc.Triple.bind (does_localSetup howner) fun status => ?_
  split
  · rename_i hfailure
    refine Proc.Triple.bind (does_weaken does_reset (fun _ _ h => h.2 hfailure) fun _ _ _ h => h)
      fun _ => does_localSetup howner
  · exact does_pure fun _ _ h => h

end LocalSetup

/-! ## `CrossRankSetup` -/

section CrossRankSetup

variable {dataBytes n : ℕ} {a : Allocation} {ranks : List ℕ} {rank : ℕ} {token : UInt64}
  {d : DataStrategy} {t : List DSEvent}

/-- The own allocation is mapped, and for each peer of `ranks` what the token that was read for it
stands for. -/
structure Placed (imports : UInt64 → Allocation) (process dataBytes n : ℕ) (a : Allocation)
    (ranks : List ℕ) (d : DataStrategy) (t : List DSEvent) : Prop where
  owns : During imports process (Owns process a) d t
  attached : During imports process (Attached n dataBytes a) d t
  published : ∃ token status, (token, a) ∈ (halAfter imports process t).tokens ∧
    Saw t d.owner (.setRankDesc d.owner token) status
  peers : ∀ rank ∈ ranks, rank ≠ d.owner →
    ∃ token, Saw t rank (.getRankDesc rank) (.ok (.ok token)) ∧
    ⟨(d.mapping rank).addr, d.rankStride, imports token⟩ ∈ (halAfter imports process t).views

/-- What a call keeps that maps at most one range more, of the size of the stride. -/
theorem Placed.concat (h : Placed imports process dataBytes n a ranks d t) {e : DSEvent}
    (more : List View) (hmore : ∀ view ∈ more, view.bytes = d.rankStride)
    (hviews : (halAfter imports process (t ++ [e])).views =
      (halAfter imports process t).views ++ more)
    (hgranularity : (halAfter imports process (t ++ [e])).granularity =
      (halAfter imports process t).granularity)
    (hown : (halAfter imports process (t ++ [e])).own = (halAfter imports process t).own)
    (htokens : (halAfter imports process (t ++ [e])).tokens = (halAfter imports process t).tokens) :
    Placed imports process dataBytes n a ranks d (t ++ [e]) := by
  have hextends : t <+: t ++ [e] := List.prefix_append t [e]
  obtain ⟨⟨how, hprocess, hbytes⟩, ⟨hentries, hrounded, hview, hsizes⟩,
    ⟨token, status, htoken, hsaw⟩, hpeers⟩ := h
  refine ⟨⟨hown.trans how, hprocess, hbytes⟩, ⟨hentries, hgranularity ▸ hrounded, ?_, ?_⟩,
    ⟨token, status, htokens ▸ htoken, hsaw.mono hextends⟩, ?_⟩
  · rw [hviews]
    exact List.mem_append_left _ hview
  · intro view hmem
    rw [hviews] at hmem
    exact (List.mem_append.mp hmem).elim (hsizes view) (hmore view)
  · intro rank hrank hpeer
    obtain ⟨token, hread, hview⟩ := hpeers rank hrank hpeer
    refine ⟨token, hread.mono hextends, ?_⟩
    rw [hviews]
    exact List.mem_append_left _ hview

theorem stable_placed : Stable imports process (Placed imports process dataBytes n a ranks) := by
  intro d t e hsame h
  refine h.concat [] nofun ?_ ?_ ?_ ?_
  · rw [hsame, List.append_nil]
  · rw [hsame]
  · rw [hsame]
  · rw [hsame]

/-- Another entry does not matter. -/
theorem Placed.update (h : Placed imports process dataBytes n a ranks d t) (f : Mapping → Mapping)
    (hnew : rank ∉ ranks) (hpeer : rank ≠ d.owner) :
    Placed imports process dataBytes n a ranks (updateMapping rank f d) t := by
  refine ⟨⟨h.owns.own, h.owns.process_eq, h.owns.bytes⟩,
    ⟨(length_update ..).trans h.attached.entries, h.attached.rounded, ?_, h.attached.sizes⟩,
    h.published, ?_⟩
  · rw [owner_update, mapping_update_of_ne hpeer]
    exact h.attached.view
  · intro other hother hne
    have hdistinct : rank ≠ other := by
      rintro rfl
      exact hnew hother
    rw [mapping_update_of_ne hdistinct]
    exact h.peers other hother hne

/-- A descriptor has been read, and its rank is the next to be imported. -/
structure Next (imports : UInt64 → Allocation) (process dataBytes n : ℕ) (a : Allocation)
    (ranks : List ℕ) (rank : ℕ) (token : UInt64) (d : DataStrategy) (t : List DSEvent) : Prop where
  placed : Placed imports process dataBytes n a ranks d t
  read : Saw t rank (.getRankDesc rank) (.ok (.ok token))
  entry : rank < d.mappings.length
  peer : rank ≠ d.owner

/-- The handle of the entry stands for what the token stands for. -/
structure Imported (imports : UInt64 → Allocation) (process dataBytes n : ℕ) (a : Allocation)
    (ranks : List ℕ) (rank : ℕ) (token : UInt64) (d : DataStrategy) (t : List DSEvent) : Prop where
  next : Next imports process dataBytes n a ranks rank token d t
  stands : ∃ handle, (d.mapping rank).handle = some handle ∧
    (halAfter imports process t).handles handle = some (imports token)

theorem Next.update (h : Next imports process dataBytes n a ranks rank token d t)
    (f : Mapping → Mapping) (hnew : rank ∉ ranks) :
    Next imports process dataBytes n a ranks rank token (updateMapping rank f d) t :=
  ⟨h.placed.update f hnew h.peer, h.read, by rw [length_update]; exact h.entry, h.peer⟩

theorem stable_imported :
    Stable imports process (Imported imports process dataBytes n a ranks rank token) := by
  intro d t e hsame h
  refine ⟨⟨stable_placed d t e hsame h.next.placed, h.next.read.mono (List.prefix_append t [e]),
    h.next.entry, h.next.peer⟩, ?_⟩
  rw [hsame]
  exact h.stands

theorem does_import {deviceId : ℕ} (hnew : rank ∉ ranks) :
    Does (Next imports process dataBytes n a ranks rank token)
      (memImportFromShareableHandle rank token deviceId)
      fun status d t => status.success →
        Imported imports process dataBytes n a ranks rank token d t := by
  apply Proc.Triple.bind (Q := fun (r : Except DrvError Handle) d t =>
    Next imports process dataBytes n a ranks rank token d t ∧ ∀ handle, r = .ok handle →
      (halAfter imports process t).handles handle = some (imports token))
  · refine Proc.triple_ask (fun _ _ _ => trivial) fun d t r h => ⟨⟨?_, ?_, h.entry, h.peer⟩, ?_⟩
    · cases r <;> exact h.placed.concat [] nofun (by simp [HalState.serve])
        (by simp [HalState.serve]) (by simp [HalState.serve]) (by simp [HalState.serve])
    · exact h.read.mono (List.prefix_append t _)
    · rintro handle rfl
      rw [halAfter_concat]
      exact Function.update_self ..
  · intro r
    cases r with
    | error ret => exact Proc.triple_pure fun d t _ hsuccess => by simp at hsuccess
    | ok handle =>
        apply Proc.Triple.bind (Q := fun _ =>
          Imported imports process dataBytes n a ranks rank token)
        · apply Proc.triple_modify
          rintro d t ⟨h, hstands⟩
          refine ⟨h.update _ hnew, handle, ?_, hstands handle rfl⟩
          rw [mapping_update_self h.entry]
        · exact fun _ => Proc.triple_pure fun d t h _ => h

theorem does_importPeer (hnew : rank ∉ ranks) :
    Does (Next imports process dataBytes n a ranks rank token) (importPeer rank token)
      fun status d t => status.success →
        Placed imports process dataBytes n a (rank :: ranks) d t := by
  refine Proc.Triple.bind (Proc.triple_get fun _ _ h => h) fun self => ?_
  refine Proc.Triple.bind (does_import hnew) fun status => ?_
  split
  · exact Proc.triple_pure fun d t _ hsuccess => absurd hsuccess (not_success ‹_›)
  rename_i himported
  refine Proc.Triple.bind (does_weaken (does_reserveRankAddress stable_imported ?_)
    (fun d t h => h (by simpa using himported)) fun _ _ _ h => h) fun status => ?_
  · rintro d t addr ⟨hnext, handle, hhandle, hstands⟩
    refine ⟨hnext.update _ hnew, handle, ?_, hstands⟩
    rw [mapping_update_self hnext.entry]
    exact hhandle
  split
  · exact Proc.triple_pure fun d t _ hsuccess => absurd hsuccess (not_success ‹_›)
  refine Proc.triple_get_bind fun peer => does_weaken (does_mapEntry (b := imports token)
    (g := fun status => ⟨status.code,
      s!"HAL peer map failed: rank={rank} status={status.toString}"⟩)
    (Q := Placed imports process dataBytes n a (rank :: ranks))
      (fun _ => rfl) stable_imported ?_ ?_)
      (fun _ _ h => h) fun _ _ _ h => h.1
  · exact fun t h => h.stands
  · intro t e h hafter
    have hplaced : Placed imports process dataBytes n a ranks peer (t ++ [e]) := by
      refine h.next.placed.concat [⟨(peer.mapping rank).addr, peer.rankStride, imports token⟩]
        (by simp) ?_ ?_ ?_ ?_
      · rw [hafter]
      · rw [hafter]
      · rw [hafter]
      · rw [hafter]
    have hmarked := hplaced.update (fun m => { m with mapped := true }) hnew h.next.peer
    refine ⟨hmarked.owns, hmarked.attached, hmarked.published, ?_⟩
    intro other hother hpeer
    rcases List.mem_cons.mp hother with rfl | hmem
    · refine ⟨token, h.next.read.mono (List.prefix_append t [e]), ?_⟩
      rw [mapping_update_self h.next.entry, hafter]
      simp
    · exact hmarked.peers other hmem hpeer

theorem does_getRankDesc {P : DataStrategy → List DSEvent → Prop} (hP : Stable imports process P) :
    Does P (getRankDesc rank) fun peerDesc d t => P d t ∧
      ∀ token, peerDesc = .ok token → Saw t rank (.getRankDesc rank) (.ok (.ok token)) := by
  apply Proc.Triple.bind (Q := fun r d t => P d t ∧ Saw t rank (.getRankDesc rank) r)
  · refine Proc.triple_ask (fun _ _ _ => trivial) fun d t r h => ⟨hP d t _ ?_ h, saw_concat ..⟩
    rw [halAfter_concat, serve_of_not_onMemory rfl]
  · intro r
    cases r with
    | error e => exact Proc.triple_throw fun _ _ _ => trivial
    | ok peerDesc =>
        refine Proc.triple_pure fun d t h => ⟨h.1, ?_⟩
        rintro token rfl
        exact h.2

/-- The descriptor that ends the polling has been read. -/
theorem does_pollRankDesc {P : DataStrategy → List DSEvent → Prop} (hP : Stable imports process P)
    {deadline fuel : ℕ} {peerDesc : Except Status UInt64} :
    Does (fun d t => P d t ∧ ∀ token, peerDesc = .ok token →
        Saw t rank (.getRankDesc rank) (.ok (.ok token)))
      (pollRankDesc rank deadline fuel peerDesc) fun peerDesc d t => P d t ∧
        ∀ token, peerDesc = .ok token → Saw t rank (.getRankDesc rank) (.ok (.ok token)) := by
  induction fuel generalizing peerDesc with
  | zero =>
      cases peerDesc with
      | ok token => exact Proc.triple_pure fun _ _ h => h
      | error status => exact Proc.triple_cut
  | succ fuel ih =>
      cases peerDesc with
      | ok token => exact Proc.triple_pure fun _ _ h => h
      | error status =>
          refine does_weaken (P := P) ?_ (fun _ _ h => h.1) fun _ _ _ h => h
          refine Proc.Triple.bind (does_call hP rfl) fun now => ?_
          split
          · exact Proc.triple_pure fun _ _ h => ⟨h, nofun⟩
          refine Proc.Triple.bind (does_call hP rfl) fun _ => ?_
          refine Proc.Triple.bind (does_call hP rfl) fun later => ?_
          split
          · exact Proc.triple_pure fun _ _ h => ⟨h, nofun⟩
          · exact Proc.Triple.bind (does_getRankDesc hP) fun _ => ih

theorem Placed.mono {ranks' : List ℕ} (h : Placed imports process dataBytes n a ranks' d t)
    (hranks : ∀ rank ∈ ranks, rank ∈ ranks') : Placed imports process dataBytes n a ranks d t :=
  ⟨h.owns, h.attached, h.published, fun rank hrank => h.peers rank (hranks rank hrank)⟩

/-- The loop imports every rank but that of the owner.  The induction is on what is left of it. -/
theorem does_peerLoop {fuel deadline timeoutMs : ℕ} {rest : List ℕ} :
    ∀ ranks : List ℕ, rest.Nodup → (∀ rank ∈ rest, rank < n ∧ rank ∉ ranks) →
      Does (Placed imports process dataBytes n a ranks) (peerLoop fuel deadline timeoutMs rest)
        fun status d t => status.success →
          Placed imports process dataBytes n a (rest ++ ranks) d t := by
  induction rest with
  | nil => exact fun _ _ _ => Proc.triple_pure fun _ _ h _ => h
  | cons rank rest ih =>
      intro ranks hnodup hrest
      rw [List.nodup_cons] at hnodup
      obtain ⟨hlt, hnew⟩ := hrest rank List.mem_cons_self
      have hnext : ∀ other ∈ rest, other < n ∧ other ∉ rank :: ranks := by
        intro other hother
        obtain ⟨hlt', hnew'⟩ := hrest other (List.mem_cons_of_mem _ hother)
        refine ⟨hlt', fun hmem => ?_⟩
        rcases List.mem_cons.mp hmem with rfl | hmem
        · exact hnodup.1 hother
        · exact hnew' hmem
      have hmem : ∀ other ∈ rank :: rest ++ ranks, other ∈ rest ++ rank :: ranks := by
        intro other
        simp only [List.cons_append, List.mem_cons, List.mem_append]
        tauto
      have hloop := does_weaken (ih (rank :: ranks) hnodup.2 hnext) (fun _ _ h => h)
        fun _ _ _ h hsuccess => (h hsuccess).mono hmem
      have himport : ∀ {token : UInt64}, Does (Next imports process dataBytes n a ranks rank token)
          (importPeer rank token) fun status d t => status.success →
            Placed imports process dataBytes n a (rank :: ranks) d t := does_importPeer hnew
      unfold peerLoop
      refine Proc.triple_get_bind fun self => ?_
      split
      · rename_i howner
        refine does_weaken hloop ?_ fun _ _ _ h => h
        rintro d t ⟨rfl, h⟩
        refine ⟨h.owns, h.attached, h.published, fun other hother hpeer => ?_⟩
        rcases List.mem_cons.mp hother with rfl | hmem
        · exact absurd howner hpeer
        · exact h.peers other hmem hpeer
      · rename_i hpeer
        -- only the owner matters of what was read
        let P : DataStrategy → List DSEvent → Prop := fun d t =>
          d.owner = self.owner ∧ Placed imports process dataBytes n a ranks d t
        have hP : Stable imports process P := fun d t e hsame h =>
          ⟨h.1, stable_placed d t e hsame h.2⟩
        refine does_weaken (P := P) ?_ (fun _ _ h => ⟨h.1 ▸ rfl, h.2⟩) fun _ _ _ h => h
        refine Proc.Triple.bind (does_getRankDesc hP) fun first => ?_
        refine Proc.Triple.bind (does_pollRankDesc hP) fun peerDesc => ?_
        cases peerDesc with
        | error error => exact Proc.triple_pure fun _ _ _ hsuccess => by cases hsuccess
        | ok token =>
            refine Proc.Triple.bind (does_weaken himport ?_ fun _ _ _ h => h)
              fun status => ?_
            · rintro d t ⟨⟨howner, h⟩, hread⟩
              exact ⟨h, hread token rfl, h.attached.entries ▸ hlt, howner ▸ hpeer⟩
            split
            · exact Proc.triple_pure fun _ _ _ hsuccess => absurd hsuccess (not_success ‹_›)
            · rename_i himported
              exact does_weaken hloop (fun _ _ h => h (by simpa using himported)) fun _ _ _ h => h

/-- The own allocation is there, and its handle is recorded. -/
structure Held (process n dataBytes : ℕ) (a : Allocation) (d : DataStrategy) (s : HalState) :
    Prop where
  owns : Owns process a d s
  recorded : Recorded a d s
  attached : Attached n dataBytes a d s

theorem does_export {self : DataStrategy} :
    Does (During imports process fun d s => d = self ∧ Held process n dataBytes a d s)
      (hal self.owner (.halMemExportToShareableHandle (self.mapping self.owner).handle))
      fun r => During imports process fun d s => (d = self ∧ Held process n dataBytes a d s) ∧
        ∀ token, r = .ok token → (token, a) ∈ s.tokens := by
  refine does_hal ?_
  rintro d s r ⟨rfl, hheld⟩
  obtain ⟨handle, hhandle, hstands⟩ := hheld.recorded
  rw [hhandle]
  cases r with
  | error ret => exact ⟨⟨rfl, hheld⟩, nofun⟩
  | ok token =>
      rw [serve_halMemExport hstands]
      refine ⟨⟨rfl, ⟨hheld.owns.own, hheld.owns.process_eq, hheld.owns.bytes⟩, ?_, ?_⟩, ?_⟩
      · exact ⟨handle, hhandle, hstands⟩
      · exact ⟨hheld.attached.entries, hheld.attached.rounded, hheld.attached.view,
          hheld.attached.sizes⟩
      · rintro _ ⟨⟩
        simp

theorem does_crossRankSetup {fuel timeoutMs : ℕ} :
    Does (During imports process fun d s => ∃ a, Held process n dataBytes a d s)
      (crossRankSetup fuel timeoutMs) fun status d t => status.success →
        ∃ a, Placed imports process dataBytes n a (List.range n) d t := by
  apply Proc.triple_exists
  intro a
  refine Proc.triple_get_bind fun self => ?_
  let held : DataStrategy → HalState → Prop := fun d s => d = self ∧ Held process n dataBytes a d s
  refine Proc.Triple.bind (does_call (P := During imports process held) stable_during rfl)
    fun now => ?_
  refine Proc.Triple.bind does_export fun r => ?_
  cases r with
  | error ret => exact Proc.triple_pure fun _ _ _ hsuccess => by simp at hsuccess
  | ok token =>
      let exported : DataStrategy → HalState → Prop := fun d s => held d s ∧ (token, a) ∈ s.tokens
      refine does_weaken (P := During imports process exported) ?_
        (fun _ _ h => ⟨h.1, h.2 token rfl⟩) fun _ _ _ h => h
      refine Proc.Triple.bind (does_call stable_during rfl) fun answer => ?_
      dsimp only
      split
      · exact Proc.triple_pure fun _ _ _ hsuccess => absurd hsuccess (not_success ‹_›)
      apply Proc.Triple.bind (Q := fun status d t => During imports process exported d t ∧
        Saw t self.owner (.setRankDesc self.owner token) status)
      · refine Proc.triple_ask (fun _ _ _ => trivial) fun d t r h =>
          ⟨stable_during d t _ ?_ h, saw_concat ..⟩
        rw [halAfter_concat, serve_of_not_onMemory rfl]
      intro status
      split
      · exact Proc.triple_pure fun _ _ _ hsuccess => absurd hsuccess (not_success ‹_›)
      refine Proc.Triple.assume (A := self.mappings.length = n) ?_ fun hentries => ?_
      · rintro d t ⟨⟨⟨rfl, hheld⟩, -⟩, -⟩
        exact hheld.attached.entries
      rw [hentries]
      have hloop : ∀ rank ∈ List.range n, rank < n ∧ rank ∉ ([] : List ℕ) :=
        fun rank hrank => ⟨List.mem_range.mp hrank, List.not_mem_nil⟩
      refine does_weaken (does_peerLoop (a := a) [] List.nodup_range hloop) ?_
        fun _ _ _ h hsuccess => ⟨a, (h hsuccess).mono fun _ => List.mem_append_left _⟩
      rintro d t ⟨⟨⟨rfl, hheld⟩, htoken⟩, hsaw⟩
      exact ⟨hheld.owns, hheld.attached, ⟨token, status, htoken, hsaw⟩, nofun⟩

end CrossRankSetup

/-! ## `Setup` -/

section Setup

variable {args : SetupArgs} {fuel : ℕ}

theorem does_deviceSetup {P : DataStrategy → List DSEvent → Prop} (hP : Stable imports process P)
    {deviceId : ℤ} : Does P (deviceSetup deviceId) fun _ => P := by
  unfold deviceSetup
  split
  · exact Proc.triple_pure fun _ _ h => h
  · refine Proc.Triple.bind (does_call hP rfl) fun r => ?_
    cases r with
    | error ret => exact Proc.triple_pure fun _ _ h => h
    | ok _ => exact Proc.triple_pure fun _ _ h => h

/-- What a `Setup` that has succeeded leaves. -/
def Placing (imports : UInt64 → Allocation) (process : ℕ) (args : SetupArgs) (status : Status)
    (d : DataStrategy) (t : List DSEvent) : Prop :=
  status.success → ∃ a, Placed imports process (sizeT (args.slotSize * args.nSlotsPerRank))
    args.nRanks a (List.range args.nRanks) d t

theorem does_setupBody (howner : args.myRank < args.nRanks) :
    Does (During imports process (Bare args.myRank)) (setupBody fuel args)
      (Placing imports process args) := by
  let held : DataStrategy → HalState → Prop := fun d s =>
    ∃ a, Held process args.nRanks (sizeT (args.slotSize * args.nSlotsPerRank)) a d s
  refine Proc.Triple.bind (does_deviceSetup stable_during) fun status => ?_
  apply Proc.Triple.bind (Q := fun status => During imports process fun d s =>
    status.success → held d s)
  · split
    · refine does_weaken (does_allocate howner) (fun _ _ h => h) fun _ _ _ h hsuccess => ?_
      obtain ⟨a, howns, hrecorded, hattached⟩ := h.1 hsuccess
      exact ⟨a, howns, hrecorded, hattached⟩
    · exact Proc.triple_pure fun _ _ _ hsuccess => absurd hsuccess ‹_›
  intro status
  split
  · exact does_weaken does_crossRankSetup (fun _ _ h => h ‹_›) fun _ _ _ h => h
  · exact Proc.triple_pure fun _ _ _ hsuccess => absurd hsuccess ‹_›

/-- `Setup` of an object that has no entries, by a process that has nothing mapped. -/
theorem does_setup (howner : args.myRank < args.nRanks) :
    Does (During imports process fun d s => d.mappings = [] ∧ s.views = []) (setup fuel args)
      (Placing imports process args) := by
  refine Proc.triple_get_bind fun self => ?_
  split
  · exact Proc.triple_pure fun _ _ _ hsuccess => by cases hsuccess
  apply Proc.Triple.bind (Q := fun _ => During imports process (Bare args.myRank))
  · exact Proc.triple_modify fun d t h => ⟨rfl, h.2.1, h.2.2⟩
  intro _
  refine Proc.Triple.bind (Proc.Triple.tryCatch (does_setupBody howner) fun e => ?_)
    fun status => ?_
  · cases e with
    | badAlloc => exact Proc.triple_pure fun _ _ _ hsuccess => by cases hsuccess
    | error what => exact Proc.triple_pure fun _ _ _ hsuccess => by cases hsuccess
  split
  · refine Proc.Triple.bind (does_weaken Proc.triple_any (fun _ _ _ => trivial) fun _ _ _ h => h)
      fun _ => Proc.triple_pure fun _ _ _ hsuccess => absurd hsuccess (not_success ‹_›)
  · rename_i hsuccess
    apply Proc.Triple.bind (Q := fun _ => Placing imports process args .ok)
    · refine Proc.triple_modify fun d t h _ => ?_
      obtain ⟨a, hplaced⟩ := h (by simpa using hsuccess)
      exact ⟨a, ⟨hplaced.owns.own, hplaced.owns.process_eq, hplaced.owns.bytes⟩,
        ⟨hplaced.attached.entries, hplaced.attached.rounded, hplaced.attached.view,
          hplaced.attached.sizes⟩, hplaced.published, hplaced.peers⟩
    · exact fun _ => Proc.triple_pure fun _ _ h => h

variable (imports process) in
theorem placed_of_setup {status : Status} {d : DataStrategy} {t : List DSEvent}
    (howner : args.myRank < args.nRanks) (hrun : (setup fuel args {}).Runs t (.ok status, d))
    (hsuccess : status.success) :
    ∃ a, Placed imports process (sizeT (args.slotSize * args.nSlotsPerRank)) args.nRanks a
      (List.range args.nRanks) d t :=
  Prog.Meets.post_of_runs (does_setup howner {} [] ⟨rfl, rfl⟩) hrun hsuccess

end Setup

end SharingProbe.DataStrategy
