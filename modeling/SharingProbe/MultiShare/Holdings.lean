import SharingProbe.Library.Ledger
import SharingProbe.MultiShare.Model
import SharingProbe.Share.Rules

/-!
# What a worker holds

A worker holds the runtime, the device, a reservation, one handle for each slice, and, in
the scope of `AclResources`, a buffer and a stream.  What its variables say about these
is what the ledger of its calls says.  A null pointer is not a resource.

The slices are kept apart from this: a slice may be unmapped again after a failure.
-/

namespace SharingProbe.MultiShare

open Interaction Share

/-! ## The ledger -/

/-- What a worker acquires and releases. -/
inductive Holding where
  | acl
  | device
  | base (va : Ptr)
  | handle (owner : ℕ) (handle : Ptr)
  | hbm (buffer : Ptr)
  | stream (stream : Ptr)
  deriving DecidableEq, Repr

/-- The place of a resource in the teardown. -/
def Holding.stage : Holding → ℕ
  | stream _ => 0
  | hbm _ => 1
  | handle _ _ => 2
  | base _ => 3
  | device => 4
  | acl => 5

/-- A pointer that is not null. -/
def ofPtr (r : Ptr → Holding) (answer : Answer) : Multiset Holding :=
  if answer.ret = 0 ∧ answer.out ≠ 0 then {r answer.out} else 0

/-- What a call acquires if it gets this answer. -/
def acquires : (c : Share.Call) → Share.Call.Reply c → Multiset Holding
  | .check .aclInit _, r => if r.ret = 0 then {.acl} else 0
  | .check (.aclrtSetDevice _) _, r => if r.ret = 0 then {.device} else 0
  | .check (.halMemAddressReserve _) _, r => ofPtr .base r
  | .check (.halMemCreate owner _) _, r => ofPtr (.handle owner) r
  | .check (.halMemImportFromShareableHandle owner _) _, r => ofPtr (.handle owner) r
  | .check (.aclrtMalloc _) _, r => ofPtr .hbm r
  | .check .aclrtCreateStream _, r => ofPtr .stream r
  | _, _ => 0

/-- What a call releases, whether or not it reports success. -/
def releases (p : Process) : Share.Call → Multiset Holding
  | .cleanup .aclFinalize _ => {.acl}
  | .cleanup (.aclrtResetDevice _) _ => {.device}
  | .cleanup (.halMemAddressFree va) _ => {.base va}
  | .cleanup (.halMemRelease owner handle) _ => {.handle owner handle}
  | .cleanup .aclrtFree _ => {.hbm p.device}
  | .cleanup .aclrtDestroyStream _ => {.stream p.stream}
  | _ => 0

/-- The resources of a trace. -/
def accounts : Ledger.Accounts SHEvent Holding where
  acquires e := acquires e.call e.reply
  releases e := releases e.state e.call

/-! ## The slices -/

/-- The call maps a slice. -/
def mapsSlice (i : ℕ) : (c : Share.Call) → Share.Call.Reply c → Prop
  | .check (.halMemMap owner _) _, r => owner = i ∧ r.ret = 0
  | _, _ => False

/-- The call is an unmap of a slice. -/
def unmapsSlice (i : ℕ) : Share.Call → Prop
  | .check (.halMemUnmap owner) _ => owner = i
  | .cleanup (.halMemUnmap owner) _ => owner = i
  | _ => False

/-- The call reports a failure. -/
def failed : (c : Share.Call) → Share.Call.Reply c → Prop
  | .check _ _, r => r.ret ≠ 0
  | .cleanup _ _, r => r.ret ≠ 0
  | _, _ => False

/-- A slice has been mapped. -/
def Mapped (i : ℕ) (t : List SHEvent) : Prop := ∃ e ∈ t, mapsSlice i e.call e.reply

/-- An unmap of a slice has been issued. -/
def Unmapped (i : ℕ) (t : List SHEvent) : Prop := ∃ e ∈ t, unmapsSlice i e.call

/-- Every unmap of a slice has failed. -/
def Stuck (i : ℕ) (t : List SHEvent) : Prop :=
  ∀ e ∈ t, unmapsSlice i e.call → failed e.call e.reply

/-- What holds at every call: only what is held is released, and everything of an earlier
stage before; a slice is unmapped if it has been mapped and no unmap of it has succeeded, as
long as there is a reservation, and after buffer and stream are gone; and a handle is
released after an unmap of its slice. -/
structure Tidy (t : List SHEvent) (p : Process) (c : Share.Call) : Prop where
  held : releases p c ≤ accounts.held t
  staged : ∀ r ∈ releases p c, ∀ r' ∈ accounts.held t, r.stage ≤ r'.stage
  unmap : ∀ i, unmapsSlice i c → Mapped i t ∧ Stuck i t ∧
    (∃ va, Holding.base va ∈ accounts.held t) ∧ ∀ r ∈ accounts.held t, 2 ≤ r.stage
  release : ∀ owner handle, Holding.handle owner handle ∈ releases p c → Mapped owner t →
    Unmapped owner t

/-! ## Calls without a part in this -/

/-- The operations that acquire, release, map or unmap something. -/
def isQuiet : Share.Op → Bool
  | .aclInit | .aclrtSetDevice _ | .halMemAddressReserve _ | .halMemCreate _ _
  | .halMemImportFromShareableHandle _ _ | .halMemMap _ _ | .halMemUnmap _ | .halMemRelease _ _
  | .halMemAddressFree _ | .aclrtMalloc _ | .aclrtCreateStream | .aclrtDestroyStream | .aclrtFree
  | .aclrtResetDevice _ | .aclFinalize => false
  | _ => true

/-- A call that acquires, releases, maps and unmaps nothing. -/
structure Quiet (p : Process) (c : Share.Call) (r : Share.Call.Reply c) : Prop where
  acquires : acquires c r = 0
  releases : releases p c = 0
  maps : ∀ i, ¬mapsSlice i c r
  unmaps : ∀ i, ¬unmapsSlice i c

theorem quiet_check {op : Share.Op} (hop : isQuiet op = true) (p : Process) (name : String)
    (r : Answer) : Quiet p (.check op name) r := by
  cases op with
  | aclInit | aclrtSetDevice | halMemAddressReserve | halMemCreate
  | halMemImportFromShareableHandle | halMemMap | halMemUnmap | halMemRelease
  | halMemAddressFree | aclrtMalloc | aclrtCreateStream | aclrtDestroyStream | aclrtFree
  | aclrtResetDevice | aclFinalize => cases hop
  | _ => exact ⟨rfl, rfl, fun _ h => h, fun _ h => h⟩

theorem quiet_cleanup {op : Share.Op} (hop : isQuiet op = true) (p : Process) (name : String)
    (r : Answer) : Quiet p (.cleanup op name) r := by
  cases op with
  | aclInit | aclrtSetDevice | halMemAddressReserve | halMemCreate
  | halMemImportFromShareableHandle | halMemMap | halMemUnmap | halMemRelease
  | halMemAddressFree | aclrtMalloc | aclrtCreateStream | aclrtDestroyStream | aclrtFree
  | aclrtResetDevice | aclFinalize => cases hop
  | _ => exact ⟨rfl, rfl, fun _ h => h, fun _ h => h⟩

/-- The calls of `check` with such an operation, and all that do not go through `check` or
`cleanup`. -/
def isQuietCall : Share.Call → Bool
  | .check op _ => isQuiet op
  | .cleanup _ _ => false
  | _ => true

theorem quiet_call {c : Share.Call} (hc : isQuietCall c = true) (p : Process)
    (r : Share.Call.Reply c) :
    Quiet p c r ∧ cleanupFails c r = false := by
  cases c with
  | check op name => exact ⟨quiet_check hc p name r, rfl⟩
  | cleanup op name => cases hc
  | _ => exact ⟨⟨rfl, rfl, fun _ h => h, fun _ h => h⟩, rfl⟩

theorem tidy_of_none {p : Process} {c : Share.Call} (hreleases : releases p c = 0)
    (hunmaps : ∀ i, ¬unmapsSlice i c) (t : List SHEvent) : Tidy t p c where
  held := by
    rw [hreleases]
    exact Multiset.zero_le _
  staged := by simp [hreleases]
  unmap i hi := absurd hi (hunmaps i)
  release := by simp [hreleases]

theorem tidy_check {op : Share.Op} {name : String} (hop : ∀ i, op ≠ .halMemUnmap i) (p : Process)
    (t : List SHEvent) : Tidy t p (.check op name) := by
  refine tidy_of_none rfl ?_ t
  cases op with
  | halMemUnmap i => exact absurd rfl (hop i)
  | _ => exact fun i h => h

theorem tidy_quietCall {c : Share.Call} (hc : isQuietCall c = true) (p : Process)
    (t : List SHEvent) :
    Tidy t p c := by
  cases c with
  | check op name => exact tidy_of_none rfl (quiet_check hc p name {}).unmaps t
  | cleanup op name => cases hc
  | _ =>
      refine tidy_of_none rfl ?_ t
      exact fun i h => h

/-! ## What the variables say -/

/-- What the variables outside of `AclResources` record. -/
def shared (p : Process) : Set Holding := fun r =>
  match r with
  | .acl => p.aclInit = true
  | .device => p.deviceSet = true
  | .base va => p.va = va ∧ va ≠ 0
  | .handle owner handle => p.handles owner = handle ∧ handle ≠ 0
  | .hbm _ | .stream _ => False

/-- What the members of `AclResources` record. -/
def inScope (p : Process) : Set Holding := fun r =>
  match r with
  | .hbm buffer => p.device = buffer ∧ buffer ≠ 0
  | .stream stream => p.stream = stream ∧ stream ≠ 0
  | _ => False

section Members

variable {p : Process} {owner : ℕ} {x : Ptr}

@[simp] theorem acl_mem_shared : Holding.acl ∈ shared p ↔ p.aclInit = true := Iff.rfl

@[simp] theorem device_mem_shared : Holding.device ∈ shared p ↔ p.deviceSet = true := Iff.rfl

@[simp] theorem base_mem_shared : Holding.base x ∈ shared p ↔ p.va = x ∧ x ≠ 0 := Iff.rfl

@[simp] theorem handle_mem_shared :
    Holding.handle owner x ∈ shared p ↔ p.handles owner = x ∧ x ≠ 0 := Iff.rfl

@[simp] theorem hbm_notMem_shared : Holding.hbm x ∉ shared p := id

@[simp] theorem stream_notMem_shared : Holding.stream x ∉ shared p := id

@[simp] theorem hbm_mem_inScope : Holding.hbm x ∈ inScope p ↔ p.device = x ∧ x ≠ 0 := Iff.rfl

@[simp] theorem stream_mem_inScope :
    Holding.stream x ∈ inScope p ↔ p.stream = x ∧ x ≠ 0 := Iff.rfl

@[simp] theorem acl_notMem_inScope : Holding.acl ∉ inScope p := id

@[simp] theorem device_notMem_inScope : Holding.device ∉ inScope p := id

@[simp] theorem base_notMem_inScope : Holding.base x ∉ inScope p := id

@[simp] theorem handle_notMem_inScope : Holding.handle owner x ∉ inScope p := id

end Members

/-- The ledger holds exactly `S`, and the variables of the process say what has happened.
`result` is the value of that variable, and the slices below `done` are not looked at
again. -/
structure Accounted (cfg : Config) (result done : ℕ) (S : Set Holding) (p : Process)
    (t : List SHEvent) : Prop where
  tracks : accounts.Tracks S t
  failed : p.cleanupFailed = true ↔ CleanupFailed t
  slices : ∀ i, done ≤ i → (p.mapped i = true ↔ Mapped i t ∧ Stuck i t)
  base : ∀ i, p.mapped i = true → p.va ≠ 0
  handles : ∀ i, cfg.count ≤ i → p.handles i = 0
  result : p.result = result

/-! ## One call more -/

section Concat

variable {i : ℕ} {t : List SHEvent} {e : SHEvent}

theorem mapped_concat : Mapped i (t ++ [e]) ↔ Mapped i t ∨ mapsSlice i e.call e.reply := by
  simp [Mapped, or_and_right, exists_or]

theorem unmapped_concat : Unmapped i (t ++ [e]) ↔ Unmapped i t ∨ unmapsSlice i e.call := by
  simp [Unmapped, or_and_right, exists_or]

theorem stuck_concat : Stuck i (t ++ [e]) ↔
    Stuck i t ∧ (unmapsSlice i e.call → failed e.call e.reply) := by
  simp [Stuck, or_imp, forall_and]

end Concat

section Steps

variable {cfg : Config} {result done : ℕ} {S S' : Set Holding} {p p' : Process}
  {t : List SHEvent}

theorem Accounted.congr (h : Accounted cfg result done S p t) (hS : ∀ x, x ∈ S ↔ x ∈ S') :
    Accounted cfg result done S' p t :=
  ⟨h.tracks.congr hS, h.failed, h.slices, h.base, h.handles, h.result⟩

/-- A call that maps and unmaps nothing, after which the variables about the slices and the
failures are the same. -/
theorem Accounted.concat (h : Accounted cfg result done S p t) {c : Share.Call}
    {r : Share.Call.Reply c}
    (htracks : accounts.Tracks S' (t ++ [⟨p, c, r⟩])) (hmaps : ∀ i, ¬mapsSlice i c r)
    (hunmaps : ∀ i, done ≤ i → ¬unmapsSlice i c)
    (hfailed : p'.cleanupFailed = true ↔ p.cleanupFailed = true ∨ cleanupFails c r = true)
    (hmapped : p'.mapped = p.mapped) (hbase : p.va ≠ 0 → p'.va ≠ 0)
    (hhandles : ∀ i, cfg.count ≤ i → p'.handles i = 0) (hresult : p'.result = result) :
    Accounted cfg result done S' p' (t ++ [⟨p, c, r⟩]) where
  tracks := htracks
  failed := by rw [hfailed, h.failed, cleanupFailed_concat]
  slices i hi := by
    rw [hmapped, h.slices i hi, mapped_concat, stuck_concat]
    simp [hmaps i, hunmaps i hi]
  base i hi := hbase (h.base i (hmapped ▸ hi))
  handles := hhandles
  result := hresult

theorem Accounted.quiet (h : Accounted cfg result done S p t) {c : Share.Call}
    {r : Share.Call.Reply c}
    (hquiet : Quiet p c r) (hnot : cleanupFails c r = false) :
    Accounted cfg result done S p (t ++ [⟨p, c, r⟩]) :=
  h.concat (h.tracks.quiet hquiet.acquires hquiet.releases) hquiet.maps
    (fun i _ => hquiet.unmaps i) (by simp [hnot]) rfl id h.handles h.result

/-- A cleanup call that is not an unmap of a slice that is looked at again. -/
theorem Accounted.cleanup (h : Accounted cfg result done S p t) {op : Share.Op} {name : String}
    {r : Answer} (htracks : accounts.Tracks S' (t ++ [⟨p, .cleanup op name, r⟩]))
    (hunmaps : ∀ i, done ≤ i → ¬unmapsSlice i (.cleanup op name)) :
    Accounted cfg result done S' (if r.ret = 0 then p else { p with cleanupFailed := true })
      (t ++ [⟨p, .cleanup op name, r⟩]) := by
  have hmaps : ∀ i, ¬mapsSlice i (.cleanup op name) r := fun i hi => hi
  split
  · rename_i hret
    exact h.concat htracks hmaps hunmaps (by simp [cleanupFails, hret]) rfl id h.handles h.result
  · rename_i hret
    exact h.concat htracks hmaps hunmaps (by simp [cleanupFails, hret]) rfl id h.handles h.result

/-- A cleanup call that releases something. -/
theorem Accounted.release (h : Accounted cfg result done S p t) {op : Share.Op} {name : String}
    {x : Holding} (hreleases : releases p (.cleanup op name) = {x})
    (hS : ∀ y, y ∈ S' ↔ y ∈ S ∧ y ≠ x) (hunmaps : ∀ i, ¬unmapsSlice i (.cleanup op name))
    (r : Answer) :
    Accounted cfg result done S' (if r.ret = 0 then p else { p with cleanupFailed := true })
      (t ++ [⟨p, .cleanup op name, r⟩]) := by
  have hheld : accounts.releases ⟨p, .cleanup op name, r⟩ = {x} := hreleases
  have hnew : accounts.acquires ⟨p, .cleanup op name, r⟩ = 0 := rfl
  exact h.cleanup ((h.tracks.release hnew hheld).congr fun y => (hS y).symm) fun i _ => hunmaps i

/-- It is allowed if nothing of an earlier stage is held. -/
theorem Accounted.tidy_release (h : Accounted cfg result done S p t) {op : Share.Op} {name : String}
    {x : Holding} (hreleases : releases p (.cleanup op name) = {x}) (hx : x ∈ S)
    (hstage : ∀ y ∈ S, x.stage ≤ y.stage) (hunmaps : ∀ i, ¬unmapsSlice i (.cleanup op name))
    (hhandle : ∀ owner handle, x = .handle owner handle → Mapped owner t → Unmapped owner t) :
    Tidy t p (.cleanup op name) where
  held := by
    rw [hreleases]
    exact h.tracks.singleton_le hx
  staged r hr r' hr' := by
    rw [hreleases, Multiset.mem_singleton] at hr
    rw [hr]
    exact hstage r' ((h.tracks.mem r').mp hr')
  unmap i hi := absurd hi (hunmaps i)
  release owner handle hmem := by
    rw [hreleases, Multiset.mem_singleton] at hmem
    exact hhandle owner handle hmem.symm

/-- An unmap is allowed for a slice that is marked as mapped. -/
theorem Accounted.tidy_unmap (h : Accounted cfg result done S p t) {i : ℕ} (hi : done ≤ i)
    (hmapped : p.mapped i = true) (hbase : p.va ≠ 0 → Holding.base p.va ∈ S)
    (hstage : ∀ x ∈ S, 2 ≤ x.stage) {c : Share.Call} (hc : ∀ j, unmapsSlice j c → j = i)
    (hreleases : releases p c = 0) : Tidy t p c where
  held := by
    rw [hreleases]
    exact Multiset.zero_le _
  staged := by simp [hreleases]
  unmap j hj := by
    rw [hc j hj]
    obtain ⟨hmap, hstuck⟩ := (h.slices i hi).mp hmapped
    have hheld : Holding.base p.va ∈ accounts.held t :=
      (h.tracks.mem _).mpr (hbase (h.base i hmapped))
    exact ⟨hmap, hstuck, ⟨p.va, hheld⟩, fun x hx => hstage x ((h.tracks.mem x).mp hx)⟩
  release := by simp [hreleases]

/-- The slices that are done with may be more. -/
theorem Accounted.mono (h : Accounted cfg result done S p t) {done' : ℕ} (hdone : done ≤ done') :
    Accounted cfg result done' S p t :=
  ⟨h.tracks, h.failed, fun i hi => h.slices i (hdone.trans hi), h.base, h.handles, h.result⟩

/-- A check that fails has done nothing. -/
theorem Accounted.check_fails (h : Accounted cfg result done S p t) {op : Share.Op} {name : String}
    {r : Answer} (hret : r.ret ≠ 0) :
    Accounted cfg result done S p (t ++ [⟨p, .check op name, r⟩]) where
  tracks := by
    have hptr : ∀ f, ofPtr f r = 0 := fun f => if_neg fun h => hret h.1
    apply h.tracks.quiet
    · change acquires (.check op name) r = 0
      cases op with
      | aclInit => exact if_neg hret
      | aclrtSetDevice => exact if_neg hret
      | halMemAddressReserve => exact hptr _
      | halMemCreate => exact hptr _
      | halMemImportFromShareableHandle => exact hptr _
      | aclrtMalloc => exact hptr _
      | aclrtCreateStream => exact hptr _
      | _ => rfl
    · rfl
  failed := by
    rw [h.failed, cleanupFailed_concat]
    simp [cleanupFails]
  slices i hi := by
    have hmaps : ¬mapsSlice i (.check op name) r := by
      cases op with
      | halMemMap => exact fun hmap => hret hmap.2
      | _ => exact fun hmap => hmap
    rw [h.slices i hi, mapped_concat, stuck_concat]
    simp [hmaps, MultiShare.failed, hret]
  base := h.base
  handles := h.handles
  result := h.result

/-- A slice is mapped. -/
theorem Accounted.map (h : Accounted cfg result done S p t) {owner : ℕ} {handle : Ptr}
    {name : String} {r : Answer} (hret : r.ret = 0) (hva : p.va ≠ 0) (hfresh : Stuck owner t) :
    Accounted cfg result done S { p with mapped := Function.update p.mapped owner true }
      (t ++ [⟨p, .check (.halMemMap owner handle) name, r⟩]) where
  tracks := h.tracks.quiet rfl rfl
  failed := by
    rw [h.failed, cleanupFailed_concat]
    simp [cleanupFails]
  slices i hi := by
    rw [mapped_concat, stuck_concat]
    by_cases hio : i = owner
    · subst hio
      simp [mapsSlice, unmapsSlice, hret, hfresh]
    · have hne : owner ≠ i := fun h => hio h.symm
      simp [mapsSlice, unmapsSlice, hne, Function.update_of_ne hio, h.slices i hi]
  base _ _ := hva
  handles := h.handles
  result := h.result

/-- A slice is unmapped. -/
theorem Accounted.unmap (h : Accounted cfg result done S p t) {i : ℕ} {name : String}
    {r : Answer} (hret : r.ret = 0) :
    Accounted cfg result done S { p with mapped := Function.update p.mapped i false }
      (t ++ [⟨p, .check (.halMemUnmap i) name, r⟩]) where
  tracks := h.tracks.quiet rfl rfl
  failed := by
    rw [h.failed, cleanupFailed_concat]
    simp [cleanupFails]
  slices j hj := by
    rw [mapped_concat, stuck_concat]
    by_cases hij : j = i
    · subst hij
      simp [unmapsSlice, MultiShare.failed, hret]
    · have hne : i ≠ j := fun h => hij h.symm
      simp [mapsSlice, unmapsSlice, hne, Function.update_of_ne hij, h.slices j hj]
  base j hj := by
    by_cases hij : j = i
    · subst hij
      simp at hj
    · change Function.update p.mapped i false j = true at hj
      rw [Function.update_of_ne hij] at hj
      exact h.base j hj
  handles := h.handles
  result := h.result

/-- A pointer that a call has stored is held if it is not null. -/
theorem tracks_ofPtr (h : accounts.Tracks S t) {r : Answer} {f : Ptr → Holding}
    {e : SHEvent} (he : accounts.acquires e = ofPtr f r) (hreleases : accounts.releases e = 0)
    (hret : r.ret = 0) (hf : r.out ≠ 0 → f r.out ∉ S) :
    accounts.Tracks {x | x ∈ S ∨ x = f r.out ∧ r.out ≠ 0} (t ++ [e]) := by
  by_cases hout : r.out = 0
  · refine (h.quiet (he.trans (if_neg fun h => h.2 hout)) hreleases).congr fun x => ?_
    simp [hout]
  · refine (h.acquire (he.trans (if_pos ⟨hret, hout⟩)) hreleases (hf hout)).congr fun x => ?_
    simp [hout, or_comm]

/-- A handle is stored for an owner that had none. -/
theorem tracks_handle {owner : ℕ} {r : Answer} {e : SHEvent} (h : accounts.Tracks (shared p) t)
    (hnone : p.handles owner = 0) (he : accounts.acquires e = ofPtr (.handle owner) r)
    (hreleases : accounts.releases e = 0) (hret : r.ret = 0) :
    accounts.Tracks (shared { p with handles := Function.update p.handles owner r.out })
      (t ++ [e]) := by
  refine (tracks_ofPtr h he hreleases hret ?_).congr fun x => ?_
  · intro hout hmem
    exact hout (hmem.1.symm.trans hnone)
  · cases x with
    | handle owner' handle =>
        by_cases ho : owner' = owner
        · subst ho
          have hold : ¬(p.handles owner' = handle ∧ handle ≠ 0) := fun hmem =>
            hmem.2 (hmem.1.symm.trans hnone)
          simp only [Set.mem_ofPred_eq, handle_mem_shared, hold, false_or, Holding.handle.injEq,
            true_and, Function.update_self]
          constructor
          · rintro ⟨rfl, hout⟩
            exact ⟨rfl, hout⟩
          · rintro ⟨rfl, hout⟩
            exact ⟨rfl, hout⟩
        · simp [ho]
    | _ => simp

end Steps

end SharingProbe.MultiShare
