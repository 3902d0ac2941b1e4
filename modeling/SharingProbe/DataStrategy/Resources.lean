import Mathlib.Algebra.BigOperators.Group.Finset.Basic
import SharingProbe.Library.Ledger
import SharingProbe.DataStrategy.Model

/-!
# HAL resources and what `mappings_` records

A resource carries the rank it was acquired for.  `recorded` reads the resources
off the object; the rest of the development shows that outside `Reset` this is
what the ledger of the trace holds (`Kept`).

The stages order a teardown: mappings, imported handles, the created handle,
addresses.
-/

namespace SharingProbe

open Interaction

/-- A HAL resource and the rank it belongs to. -/
inductive Resource where
  | mapping (rank : ℕ) (addr : Ptr)
  | imported (rank : ℕ) (handle : Handle)
  | created (rank : ℕ) (handle : Handle)
  | address (rank : ℕ) (addr : Ptr)
  deriving DecidableEq, Repr

/-- The place of a resource in a teardown. -/
def Resource.stage : Resource → ℕ
  | mapping _ _ => 0
  | imported _ _ => 1
  | created _ _ => 2
  | address _ _ => 3

/-- A handle belongs to the owner's allocation or to an import. -/
def Resource.handle (owner rank : ℕ) (handle : Handle) : Resource :=
  if rank = owner then .created rank handle else .imported rank handle

/-- What a call acquires if it gets this reply. -/
def Op.acquires (rank : ℕ) : (op : Op) → op.Reply → Multiset Resource
  | .halMemAddressReserve _, .ok addr => if addr = 0 then 0 else {.address rank addr}
  | .halMemCreate _ _, .ok handle => {.created rank handle}
  | .halMemImportFromShareableHandle _ _, .ok handle => {.imported rank handle}
  | .halMemMap addr _ _, .ok _ => {.mapping rank addr}
  | _, _ => 0

/-- What a call releases, whether or not it reports success. -/
def Op.releases (owner rank : ℕ) : Op → Multiset Resource
  | .halMemUnmap addr => {.mapping rank addr}
  | .halMemRelease handle => {.handle owner rank handle}
  | .halMemAddressFree addr => {.address rank addr}
  | _ => 0

namespace DataStrategy

/-- The HAL resources of a trace. -/
def accounts : Ledger.Accounts DSEvent Resource where
  acquires e := e.call.op.acquires e.call.rank e.reply
  releases e := e.call.op.releases e.state.owner e.call.rank

/-- The mapping that an entry of `mappings_` records. -/
def mappingOf (self : DataStrategy) (rank : ℕ) : Multiset Resource :=
  if (self.mapping rank).mapped then {.mapping rank (self.mapping rank).addr} else 0

/-- The handle that an entry of `mappings_` records. -/
def handleOf (self : DataStrategy) (rank : ℕ) : Multiset Resource :=
  match (self.mapping rank).handle with
  | none => 0
  | some handle => {.handle self.owner rank handle}

/-- The address that an entry of `mappings_` records. -/
def addressOf (self : DataStrategy) (rank : ℕ) : Multiset Resource :=
  if (self.mapping rank).addr = 0 then 0 else {.address rank (self.mapping rank).addr}

/-- What `mappings_` records. -/
def recorded (self : DataStrategy) : Multiset Resource :=
  ∑ rank ∈ Finset.range self.mappings.length,
    (self.mappingOf rank + self.handleOf rank + self.addressOf rank)

/-- The resources held after `t` are those that `mappings_` records. -/
def Kept (self : DataStrategy) (t : List DSEvent) : Prop := accounts.held t = self.recorded

/-- What holds at every call: outside `Reset` the object records what is held,
only held resources are released, later stages wait for earlier ones, `Reset`
acquires nothing, and the Normal-page attempt starts from nothing. -/
structure Allowed (t : List DSEvent) (data : DataStrategy) (call : Call) : Prop where
  kept : call.site = .setup → data.Kept t
  held : call.op.releases data.owner call.rank ≤ accounts.held t
  staged : ∀ r ∈ call.op.releases data.owner call.rank, ∀ r' ∈ accounts.held t, r.stage ≤ r'.stage
  teardown : call.site = .reset → ∀ r, call.op.acquires call.rank r = 0
  retry : call.op = .halMemGetAllocationGranularity .normal → accounts.held t = 0

/-! ## Entries of `mappings_` -/

@[simp] theorem mapping_update_self {self : DataStrategy} {rank : ℕ} {f : Mapping → Mapping}
    (hrank : rank < self.mappings.length) :
    (updateMapping rank f self).mapping rank = f (self.mapping rank) := by
  simp [mapping, updateMapping, hrank]

@[simp] theorem mapping_update_of_ne {self : DataStrategy} {rank other : ℕ} {f : Mapping → Mapping}
    (hne : rank ≠ other) : (updateMapping rank f self).mapping other = self.mapping other := by
  simp [mapping, updateMapping, hne]

@[simp] theorem length_update (self : DataStrategy) (rank : ℕ) (f : Mapping → Mapping) :
    (updateMapping rank f self).mappings.length = self.mappings.length := by
  simp [updateMapping]

@[simp] theorem owner_update (self : DataStrategy) (rank : ℕ) (f : Mapping → Mapping) :
    (updateMapping rank f self).owner = self.owner := rfl

@[simp] theorem rankStride_update (self : DataStrategy) (rank : ℕ) (f : Mapping → Mapping) :
    (updateMapping rank f self).rankStride = self.rankStride := rfl

@[simp] theorem nSlotsPerRank_update (self : DataStrategy) (rank : ℕ) (f : Mapping → Mapping) :
    (updateMapping rank f self).nSlotsPerRank = self.nSlotsPerRank := rfl

/-! ## How updates change what is recorded -/

/-- An update of one entry that records `added` besides what was there. -/
theorem recorded_update {self : DataStrategy} {rank : ℕ} {f : Mapping → Mapping}
    {added : Multiset Resource} (hrank : rank < self.mappings.length)
    (hentry :
      (updateMapping rank f self).mappingOf rank + (updateMapping rank f self).handleOf rank +
        (updateMapping rank f self).addressOf rank =
      self.mappingOf rank + self.handleOf rank + self.addressOf rank + added) :
    (updateMapping rank f self).recorded = self.recorded + added := by
  have hmem : rank ∈ Finset.range self.mappings.length := Finset.mem_range.mpr hrank
  unfold recorded
  rw [length_update, ← Finset.add_sum_erase _ _ hmem, ← Finset.add_sum_erase _ _ hmem, hentry]
  have hothers : ∀ other ∈ (Finset.range self.mappings.length).erase rank,
      (updateMapping rank f self).mappingOf other + (updateMapping rank f self).handleOf other +
          (updateMapping rank f self).addressOf other =
        self.mappingOf other + self.handleOf other + self.addressOf other := by
    intro other hother
    have hne : rank ≠ other := (Finset.ne_of_mem_erase hother).symm
    simp [mappingOf, handleOf, addressOf, mapping_update_of_ne hne]
  rw [Finset.sum_congr rfl hothers]
  ac_rfl

theorem recorded_setAddr {self : DataStrategy} {rank : ℕ} {addr : Ptr}
    (hrank : rank < self.mappings.length) (hnull : (self.mapping rank).addr = 0)
    (hmapped : (self.mapping rank).mapped = false) :
    (updateMapping rank (fun m => { m with addr := addr }) self).recorded =
      self.recorded + if addr = 0 then 0 else {.address rank addr} := by
  refine recorded_update hrank ?_
  simp [mappingOf, handleOf, addressOf, mapping_update_self hrank, hnull, hmapped]

theorem recorded_setHandle {self : DataStrategy} {rank : ℕ} {handle : Handle}
    (hrank : rank < self.mappings.length) (hnull : (self.mapping rank).handle = none) :
    (updateMapping rank (fun m => { m with handle := some handle }) self).recorded =
      self.recorded + {.handle self.owner rank handle} := by
  refine recorded_update hrank ?_
  simp only [mappingOf, handleOf, addressOf, mapping_update_self hrank, hnull, owner_update]
  ac_rfl

theorem recorded_setMapped {self : DataStrategy} {rank : ℕ}
    (hrank : rank < self.mappings.length) (hmapped : (self.mapping rank).mapped = false) :
    (updateMapping rank (fun m => { m with mapped := true }) self).recorded =
      self.recorded + {.mapping rank (self.mapping rank).addr} := by
  refine recorded_update hrank ?_
  simp only [mappingOf, handleOf, addressOf, mapping_update_self hrank, hmapped, owner_update]
  simp only [↓reduceIte, Bool.false_eq_true]
  ac_rfl

/-- Only the entries and the owner matter. -/
theorem recorded_congr {self self' : DataStrategy} (hmappings : self'.mappings = self.mappings)
    (howner : self'.owner = self.owner) : self'.recorded = self.recorded := by
  unfold recorded mappingOf handleOf addressOf mapping
  rw [hmappings, howner]

@[simp] theorem recorded_of_nil {self : DataStrategy} (h : self.mappings = []) :
    self.recorded = 0 := by
  simp [recorded, h]

/-- Entries without handle, address and mapping record nothing. -/
theorem recorded_of_default {self : DataStrategy}
    (h : ∀ rank < self.mappings.length, self.mapping rank = {}) : self.recorded = 0 := by
  refine Finset.sum_eq_zero fun rank hrank => ?_
  simp [mappingOf, handleOf, addressOf, h rank (Finset.mem_range.mp hrank)]

end DataStrategy
end SharingProbe
