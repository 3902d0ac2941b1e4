import SharingProbe.DataStrategy.Allocations
import SharingProbe.DataStrategy.CtrlLayout
import SharingProbe.DataStrategy.Slots

/-!
# Cross-process slot coherence

One process per rank runs `Setup` on its own object, with its own reservations, and reads the
descriptors that the other processes printed.  The driver is the only other thing they share, and
all that is assumed of it is that an imported token stands for the allocation it was exported for.

A slot has a location: an allocation and an offset.  Every process gets an address of that location
if and only if the data of a rank fits when it is rounded up: otherwise the stride wraps, and what
is created and mapped is smaller than the slots addressed in it.

## Strategy

`OneRun.shared` follows a token from the import back to the export: it was read from an accepted
line, the line was printed by the process of that rank, and that process prints no other descriptor
than the token of its own allocation.  With `Placed` this gives a view of the allocation of every
rank in every process (`OneRun.mapped`), as long as the stride; `Denotes.unique` and
`slotOffset_apart` are about locations only.
-/

namespace SharingProbe.DataStrategy

open Interaction

/-! ## The control channel in a trace -/

/-- The answers of the control channel come from `ctrl` reading `stdin`. -/
def Follows (ctrl : CtrlLayout) : List Line → List DSEvent → Prop
  | _, [] => True
  | stdin, ⟨_, ⟨_, _, .getRankDesc rank⟩, r⟩ :: t =>
      r = (ctrl.getRankDesc rank stdin).1 ∧ Follows ctrl (ctrl.getRankDesc rank stdin).2 t
  | stdin, ⟨_, ⟨_, _, .setRankDesc rank handle⟩, r⟩ :: t =>
      r = (ctrl.setRankDesc rank handle).1 ∧ Follows ctrl stdin t
  | stdin, _ :: t => Follows ctrl stdin t

/-- The lines that were accepted, with the rank that was waited for. -/
def acceptedLines (ctrl : CtrlLayout) : List Line → List DSEvent → List (ℕ × Line)
  | _, [] => []
  | stdin, ⟨_, ⟨_, _, .getRankDesc rank⟩, _⟩ :: t =>
      let rest := acceptedLines ctrl (ctrl.getRankDesc rank stdin).2 t
      match CtrlLayout.firstAccepted rank stdin with
      | some (line, _, _) => if rank ≥ ctrl.rankCount then rest else (rank, line) :: rest
      | none => rest
  | stdin, _ :: t => acceptedLines ctrl stdin t

/-- The lines that were printed. -/
def printedLines (ctrl : CtrlLayout) : List DSEvent → List Line
  | [] => []
  | ⟨_, ⟨_, _, .setRankDesc rank handle⟩, _⟩ :: t =>
      (ctrl.setRankDesc rank handle).2 ++ printedLines ctrl t
  | _ :: t => printedLines ctrl t

theorem acceptLine_of_firstAccepted {rank : ℕ} {stdin rest : List Line} {line : Line}
    {handle : UInt64} (h : CtrlLayout.firstAccepted rank stdin = some (line, handle, rest)) :
    acceptLine rank line = some handle := by
  induction stdin with
  | nil => cases h
  | cons first stdin ih =>
      unfold CtrlLayout.firstAccepted at h
      split at h
      · cases h
        assumption
      · exact ih h

/-- A handle that was read comes from an accepted line. -/
theorem exists_acceptedLine {ctrl : CtrlLayout} {rank : ℕ} {handle : UInt64} :
    ∀ {t : List DSEvent} {stdin : List Line}, Follows ctrl stdin t →
      ∀ {issuer : ℕ}, Saw t issuer (.getRankDesc rank) (.ok (.ok handle)) →
        ∃ line, (rank, line) ∈ acceptedLines ctrl stdin t ∧ acceptLine rank line = some handle := by
  intro t
  induction t with
  | nil => rintro stdin - issuer ⟨_, _, hmem⟩; cases hmem
  | cons e t ih =>
      rintro stdin hfollows issuer ⟨self, site, hmem⟩
      obtain ⟨self', ⟨site', rank', op⟩, r⟩ := e
      have htail : (⟨self, ⟨site, issuer, .getRankDesc rank⟩, .ok (.ok handle)⟩ : DSEvent) ∈ t →
          Saw t issuer (.getRankDesc rank) (.ok (.ok handle)) := fun h => ⟨self, site, h⟩
      cases op with
      | getRankDesc wanted =>
          obtain ⟨hr, hrest⟩ := hfollows
          -- what the rest of the trace accepts is accepted by the whole of it
          have hkeep : ∀ line,
              (rank, line) ∈ acceptedLines ctrl (ctrl.getRankDesc wanted stdin).2 t →
              (rank, line) ∈ acceptedLines ctrl stdin
                (⟨self', ⟨site', rank', .getRankDesc wanted⟩, r⟩ :: t) := by
            intro line hline
            show (rank, line) ∈ (match CtrlLayout.firstAccepted wanted stdin with
              | some (line, _, _) => if wanted ≥ ctrl.rankCount then
                  acceptedLines ctrl (ctrl.getRankDesc wanted stdin).2 t
                else (wanted, line) :: acceptedLines ctrl (ctrl.getRankDesc wanted stdin).2 t
              | none => acceptedLines ctrl (ctrl.getRankDesc wanted stdin).2 t)
            split
            · split
              · exact hline
              · exact List.mem_cons_of_mem _ hline
            · exact hline
          rcases List.mem_cons.mp hmem with heq | hmem
          · cases heq
            simp only [CtrlLayout.getRankDesc] at hr
            split at hr
            · cases hr
            rename_i hrange
            split at hr
            · rename_i line handle' rest hfirst
              cases hr
              refine ⟨line, ?_, acceptLine_of_firstAccepted hfirst⟩
              simp [acceptedLines, hfirst, hrange]
            · cases hr
          · obtain ⟨line, hline, haccept⟩ := ih hrest (htail hmem)
            exact ⟨line, hkeep line hline, haccept⟩
      | setRankDesc other handle' =>
          rcases List.mem_cons.mp hmem with heq | hmem
          · cases heq
          · exact ih hfollows.2 (htail hmem)
      | _ =>
          rcases List.mem_cons.mp hmem with heq | hmem
          · cases heq
          · exact ih hfollows (htail hmem)

/-- A printed line is the descriptor of some `SetRankDesc`. -/
theorem exists_setRankDesc {ctrl : CtrlLayout} {line : Line} {t : List DSEvent}
    (h : line ∈ printedLines ctrl t) :
    ∃ e ∈ t, ∃ rank handle, e.call.op = .setRankDesc rank handle ∧ line = descLine rank handle := by
  induction t with
  | nil => cases h
  | cons e t ih =>
      obtain ⟨self', ⟨site', rank', op⟩, r⟩ := e
      have htail : line ∈ printedLines ctrl t → ∃ e ∈ ⟨self', ⟨site', rank', op⟩, r⟩ :: t,
          ∃ rank handle, e.call.op = .setRankDesc rank handle ∧ line = descLine rank handle := by
        intro hline
        obtain ⟨e, he, hrest⟩ := ih hline
        exact ⟨e, List.mem_cons_of_mem _ he, hrest⟩
      cases op with
      | setRankDesc rank handle =>
          rcases List.mem_append.mp h with hline | hline
          · refine ⟨_, List.mem_cons_self, rank, handle, rfl, ?_⟩
            unfold CtrlLayout.setRankDesc at hline
            split at hline
            · cases hline
            · exact List.mem_singleton.mp hline
          · exact htail hline
      | _ => exact htail h

/-! ## Processes -/

/-- A process of the demo: its options, its input and its `Setup`. -/
structure Process where
  opts : Options
  fuel : ℕ
  stdin : List Line
  trace : List DSEvent
  status : Status
  data : DataStrategy

namespace Process

def ctrl (p : Process) : CtrlLayout := .new p.opts.ranks p.opts.slotsPerRank

/-- The `Setup` of the process on its new object succeeds. -/
structure Finishes (p : Process) : Prop where
  admitted : p.opts.Admitted
  runs : (setup p.fuel p.opts.setupArgs {}).Runs p.trace (.ok p.status, p.data)
  success : p.status.success = true
  follows : Follows p.ctrl p.stdin p.trace

theorem Finishes.established {p : Process} (h : p.Finishes) :
    Established p.opts.setupArgs [] p.data p.trace := by
  have hidle : Idle {} [] := ⟨rfl, rfl, rfl⟩
  obtain ⟨status, hstatus, hsuccess, -⟩ :=
    Prog.Meets.post_of_runs (setup_meets hidle h.admitted.bounds.valid) h.runs
  cases hstatus
  exact hsuccess h.success

end Process

/-- One process per rank, all with the same layout, and every line that a process
accepts was printed by the process of the rank it waited for. -/
structure OneRun (n slotSize slotsPerRank : ℕ) (procs : ℕ → Process) : Prop where
  rank : ∀ p < n, (procs p).opts.rank = p
  ranks : ∀ p < n, (procs p).opts.ranks = n
  size : ∀ p < n, (procs p).opts.slotSize = slotSize
  slots : ∀ p < n, (procs p).opts.slotsPerRank = slotsPerRank
  finishes : ∀ p < n, (procs p).Finishes
  delivered : ∀ p < n, ∀ peer line,
    (peer, line) ∈ acceptedLines (procs p).ctrl (procs p).stdin (procs p).trace →
      line ∈ printedLines (procs peer).ctrl (procs peer).trace

/-- What HAL keeps for a process at the end of its `Setup`. -/
def halOf (imports : UInt64 → Allocation) (procs : ℕ → Process) (p : ℕ) : HalState :=
  halAfter imports p (procs p).trace

/-- What the driver promises: a token stands for the allocation that it was exported for. -/
def Driver (n : ℕ) (procs : ℕ → Process) (imports : UInt64 → Allocation) : Prop :=
  ∀ q < n, ∀ token a, (token, a) ∈ (halOf imports procs q).tokens → imports token = a

/-- The address that a process uses for a slot. -/
def address (self : DataStrategy) (slotIdx : ℕ) : Ptr :=
  if self.hostAccessibleOf slotIdx then self.dataAt slotIdx else self.deviceDataAt slotIdx

/-- At `addr` a process has mapped the `bytes` bytes of `alloc` from `offset` on. -/
def Denotes (s : HalState) (addr : Ptr) (bytes : ℕ) (alloc : Allocation) (offset : ℕ) : Prop :=
  ∃ view ∈ s.views, view.allocation = alloc ∧ addr = ptrAdd view.base offset ∧
    offset + bytes ≤ view.bytes ∧ offset + bytes ≤ alloc.bytes

/-- What a process has mapped does not overlap. -/
structure Separate (s : HalState) : Prop where
  fits : ∀ view ∈ s.views, view.base + view.bytes ≤ 2 ^ 64
  apart : ∀ view ∈ s.views, ∀ other ∈ s.views, other ≠ view →
    view.base + view.bytes ≤ other.base ∨ other.base + other.bytes ≤ view.base

private theorem not_apart_of_sum_eq {base base' size size' offset offset' bytes : ℕ}
    (hpos : 0 < bytes) (hinside : offset + bytes ≤ size) (hinside' : offset' + bytes ≤ size')
    (hfits : base + size ≤ 2 ^ 64) (hfits' : base' + size' ≤ 2 ^ 64)
    (heq : (base + offset) % 2 ^ 64 = (base' + offset') % 2 ^ 64) :
    ¬(base + size ≤ base' ∨ base' + size' ≤ base) ∧ (base' = base → offset' = offset) := by
  rw [Nat.mod_eq_of_lt (by omega), Nat.mod_eq_of_lt (by omega)] at heq
  omega

/-- An address where nothing overlaps denotes one location only. -/
theorem Denotes.unique {s : HalState} {addr : Ptr} {bytes : ℕ} {alloc alloc' : Allocation}
    {offset offset' : ℕ} (hseparate : Separate s) (hpos : 0 < bytes)
    (h : Denotes s addr bytes alloc offset) (h' : Denotes s addr bytes alloc' offset') :
    alloc' = alloc ∧ offset' = offset := by
  obtain ⟨view, hview, halloc, haddr, hinside, -⟩ := h
  obtain ⟨view', hview', halloc', haddr', hinside', -⟩ := h'
  have hfits := hseparate.fits view hview
  have hfits' := hseparate.fits view' hview'
  have heq : ptrAdd view.base offset = ptrAdd view'.base offset' := haddr.symm.trans haddr'
  obtain ⟨hnot, hoffset⟩ := not_apart_of_sum_eq hpos hinside hinside' hfits hfits' heq
  have hsame : view' = view := by
    by_contra hne
    exact hnot (hseparate.apart view hview view' hview' hne)
  subst hsame
  exact ⟨halloc'.symm.trans halloc, hoffset rfl⟩

/-! ## Locations -/

/-- The byte offset of a slot inside the allocation of its rank. -/
def slotOffset (slotSize slotsPerRank slotIdx : ℕ) : ℕ := slotIdx % slotsPerRank * slotSize

/-- The allocation that a rank has created, and has not released. -/
def IsAllocationOf (imports : UInt64 → Allocation) (procs : ℕ → Process) (rank : ℕ)
    (a : Allocation) : Prop :=
  (halOf imports procs rank).own = some a ∧ a.process = rank

/-- The allocation of a rank. -/
def allocation (imports : UInt64 → Allocation) (procs : ℕ → Process) (rank : ℕ) : Allocation :=
  (halOf imports procs rank).own.getD ⟨rank, 0, 0⟩

/-- The data of a rank fits when it is rounded up for this granularity. -/
structure HasRoom (dataBytes granularity : ℕ) : Prop where
  lcm : 0 < sizeT (Nat.lcm kAddressAlignment granularity)
  sum : dataBytes + sizeT (Nat.lcm kAddressAlignment granularity) ≤ 2 ^ 64

theorem hasRoom_iff {dataBytes granularity : ℕ} (hpos : 0 < dataBytes)
    (hbytes : dataBytes < 2 ^ 64) :
    HasRoom dataBytes granularity ↔
      dataBytes ≤ roundUp dataBytes (allocationAlignment granularity) := by
  have hlt : allocationAlignment granularity < 2 ^ 64 := Nat.mod_lt _ (by decide)
  rw [roundUp_eq]
  by_cases hlcm : allocationAlignment granularity = 0
  · have hzero : Rounding.roundUpMod (2 ^ 64) dataBytes 0 = 0 := by simp [Rounding.roundUpMod]
    rw [hlcm, hzero]
    constructor
    · intro h
      exact absurd hlcm h.lcm.ne'
    · intro h
      omega
  · have hiff := Rounding.le_roundUpMod_iff (Nat.pos_of_ne_zero hlcm) hbytes hlt
    exact ⟨fun h => hiff.mpr h.sum, fun h => ⟨Nat.pos_of_ne_zero hlcm, hiff.mp h⟩⟩

section Coherence

variable {n slotSize slotsPerRank : ℕ} {procs : ℕ → Process} {imports : UInt64 → Allocation}

theorem OneRun.bounds (hrun : OneRun n slotSize slotsPerRank procs) {p : ℕ} (hp : p < n) :
    (procs p).opts.Bounds := (hrun.finishes p hp).admitted.bounds

theorem OneRun.established (hrun : OneRun n slotSize slotsPerRank procs) {p : ℕ} (hp : p < n) :
    Established (procs p).opts.setupArgs [] (procs p).data (procs p).trace :=
  (hrun.finishes p hp).established

theorem OneRun.owner (hrun : OneRun n slotSize slotsPerRank procs) {p : ℕ} (hp : p < n) :
    (procs p).data.owner = p := (hrun.established hp).owner.trans (hrun.rank p hp)

/-- The bytes of a rank, as `Setup` computes them. -/
theorem OneRun.dataBytes (hrun : OneRun n slotSize slotsPerRank procs) {p : ℕ} (hp : p < n) :
    slotSize * slotsPerRank < 2 ^ 64 ∧
      sizeT ((procs p).opts.setupArgs.slotSize * (procs p).opts.setupArgs.nSlotsPerRank) =
        slotSize * slotsPerRank := by
  have hbytes := (hrun.bounds hp).dataBytes
  have hargs : (procs p).opts.setupArgs.slotSize * (procs p).opts.setupArgs.nSlotsPerRank =
      slotSize * slotsPerRank := by
    rw [← hrun.size p hp, ← hrun.slots p hp]
    rfl
  rw [hrun.size p hp, hrun.slots p hp] at hbytes
  rw [hargs]
  exact ⟨hbytes, Nat.mod_eq_of_lt hbytes⟩

variable (imports) in
/-- What the `Setup` of a process has left. -/
theorem OneRun.placed (hrun : OneRun n slotSize slotsPerRank procs) {p : ℕ} (hp : p < n) :
    ∃ a, IsAllocationOf imports procs p a ∧
      Placed imports p (slotSize * slotsPerRank) n a (List.range n) (procs p).data
        (procs p).trace := by
  have hvalid := (hrun.bounds hp).valid
  obtain ⟨a, hplaced⟩ := placed_of_setup imports p hvalid.myRank
    (hrun.finishes p hp).runs (hrun.finishes p hp).success
  rw [(hrun.dataBytes hp).2, (hrun.bounds hp).nRanks, hrun.ranks p hp] at hplaced
  exact ⟨a, ⟨hplaced.owns.own, hplaced.owns.process_eq⟩, hplaced⟩

theorem IsAllocationOf.allocation_eq {rank : ℕ} {a : Allocation}
    (h : IsAllocationOf imports procs rank a) : allocation imports procs rank = a := by
  unfold allocation
  rw [h.1, Option.getD_some]

variable (imports) in
theorem OneRun.isAllocationOf (hrun : OneRun n slotSize slotsPerRank procs) {p : ℕ}
    (hp : p < n) : IsAllocationOf imports procs p (allocation imports procs p) := by
  obtain ⟨a, ha, -⟩ := hrun.placed imports hp
  rwa [ha.allocation_eq]

/-- A token that a process has read for a rank stands for the allocation of that rank. -/
theorem OneRun.shared (hrun : OneRun n slotSize slotsPerRank procs)
    (hdriver : Driver n procs imports) {p rank issuer : ℕ} (hp : p < n) (hrank : rank < n)
    {token : UInt64}
    (hread : Saw (procs p).trace issuer (.getRankDesc rank) (.ok (.ok token))) :
    imports token = allocation imports procs rank := by
  -- the token was read from a line that the process of `rank` printed
  obtain ⟨line, hline, haccept⟩ := exists_acceptedLine (hrun.finishes p hp).follows hread
  obtain ⟨e, he, other, share, hop, rfl⟩ := exists_setRankDesc (hrun.delivered p hp rank line hline)
  obtain ⟨_, published, _, -, -, -, -, honly⟩ := (hrun.established hrank).ready.published
  have hthis : ∀ e ∈ (procs rank).trace, ∀ other share, e.call.op = .setRankDesc other share →
      other = rank ∧ share = published := by
    intro e he other share hop
    rcases honly e he with hmem | hthis
    · cases hmem
    · rw [hrun.owner hrank] at hthis
      exact hthis other share hop
  obtain ⟨rfl, rfl⟩ := hthis e he other share hop
  have hsmall : other ≤ sizeMax := by
    have hranks := (hrun.bounds hrank).ranks
    rw [hrun.ranks _ hrank] at hranks
    unfold sizeMax
    omega
  obtain ⟨-, rfl⟩ := acceptLine_descLine hsmall haccept
  -- which is the token that it was given for its own allocation
  obtain ⟨a, ha, hplaced⟩ := hrun.placed imports hrank
  obtain ⟨exported, status, htoken, self, site, hset⟩ := hplaced.published
  obtain ⟨-, rfl⟩ := hthis _ hset _ _ rfl
  rw [ha.allocation_eq]
  exact hdriver other hrank _ _ htoken

/-- In every process the allocation of every rank is mapped, as long as the stride. -/
theorem OneRun.mapped (hrun : OneRun n slotSize slotsPerRank procs)
    (hdriver : Driver n procs imports) {p rank : ℕ} (hp : p < n) (hrank : rank < n) :
    ⟨((procs p).data.mapping rank).addr, (procs p).data.rankStride,
      allocation imports procs rank⟩ ∈ (halOf imports procs p).views := by
  obtain ⟨a, ha, hplaced⟩ := hrun.placed imports hp
  by_cases hown : rank = p
  · subst hown
    rw [ha.allocation_eq]
    have hview := hplaced.attached.view
    rwa [hrun.owner hp] at hview
  · have hpeer : rank ≠ (procs p).data.owner := by rw [hrun.owner hp]; exact hown
    obtain ⟨token, hread, hview⟩ := hplaced.peers rank (List.mem_range.mpr hrank) hpeer
    rw [hrun.shared hdriver hp hrank hread] at hview
    exact hview

variable (imports) in
/-- What a process has mapped, and what it has created, has room for the data of a rank if and only
if the rounding has. -/
theorem OneRun.room (hrun : OneRun n slotSize slotsPerRank procs) {p : ℕ} (hp : p < n) :
    (∀ view ∈ (halOf imports procs p).views, view.bytes = (procs p).data.rankStride) ∧
      (allocation imports procs p).bytes = (procs p).data.rankStride ∧
      (slotSize * slotsPerRank ≤ (procs p).data.rankStride ↔
        HasRoom (slotSize * slotsPerRank) (halOf imports procs p).granularity) := by
  obtain ⟨a, ha, hplaced⟩ := hrun.placed imports hp
  have hpos : 0 < slotSize * slotsPerRank := by
    rw [← hrun.size p hp, ← hrun.slots p hp]
    exact Nat.mul_pos (hrun.bounds hp).slotSize (hrun.bounds hp).slotsPerRank
  refine ⟨hplaced.attached.sizes, ?_, ?_⟩
  · rw [ha.allocation_eq]
    exact hplaced.owns.bytes
  · rw [hasRoom_iff hpos (hrun.dataBytes hp).1, hplaced.attached.rounded]
    rfl

theorem OneRun.tiled (hrun : OneRun n slotSize slotsPerRank procs) {p : ℕ} (hp : p < n) :
    Tiled (procs p).opts (procs p).data := (hrun.established hp).tiled (hrun.bounds hp)

/-- The address of a slot is its offset in the mapping of its rank. -/
theorem OneRun.address_eq (hrun : OneRun n slotSize slotsPerRank procs) {p slotIdx : ℕ}
    (hp : p < n) (hslot : slotIdx / slotsPerRank < n) :
    address (procs p).data slotIdx =
      ptrAdd ((procs p).data.mapping (slotIdx / slotsPerRank)).addr
        (slotOffset slotSize slotsPerRank slotIdx) := by
  have hbounds := hrun.bounds hp
  have htiled := hrun.tiled hp
  have hslots := hrun.slots p hp
  have hsize := hrun.size p hp
  have hslotAddr : (procs p).data.slotAddr slotIdx =
      ptrAdd ((procs p).data.mapping (slotIdx / slotsPerRank)).addr
        (slotOffset slotSize slotsPerRank slotIdx) := by
    have hoffset := slotOffset_add_le slotSize slotIdx (hslots ▸ hbounds.slotsPerRank)
    have hbytes := hbounds.dataBytes
    rw [hsize, hslots] at hbytes
    have hpos := hbounds.slotSize
    rw [hsize] at hpos
    unfold slotAddr slotOffset
    rw [htiled.nSlotsPerRank, htiled.slotSize, hslots, hsize]
    unfold sizeT
    rw [Nat.mod_eq_of_lt (by omega)]
  rw [← hslotAddr]
  unfold address
  rw [← hslots] at hslot
  by_cases hown : slotIdx / (procs p).opts.slotsPerRank = (procs p).opts.rank
  · rw [if_pos ((htiled.hostAccessibleOf_iff hbounds).mpr hown), htiled.dataAt_of_own hbounds hown]
  · rw [if_neg fun h => hown ((htiled.hostAccessibleOf_iff hbounds).mp h)]
    refine htiled.deviceDataAt_of_peer hbounds ?_ hown
    rw [hrun.ranks p hp]
    exact hslot

/-- Two slots of one rank do not share bytes. -/
theorem slotOffset_apart {slotSize slotsPerRank slotIdx other : ℕ}
    (hne : slotIdx % slotsPerRank ≠ other % slotsPerRank) :
    slotOffset slotSize slotsPerRank slotIdx + slotSize ≤ slotOffset slotSize slotsPerRank other ∨
      slotOffset slotSize slotsPerRank other + slotSize ≤
        slotOffset slotSize slotsPerRank slotIdx := by
  have hstep : ∀ {i j : ℕ}, i < j → i * slotSize + slotSize ≤ j * slotSize := by
    intro i j hlt
    calc i * slotSize + slotSize = (i + 1) * slotSize := (Nat.succ_mul _ _).symm
      _ ≤ j * slotSize := Nat.mul_le_mul_right _ hlt
  rcases lt_or_gt_of_ne hne with hlt | hgt
  · exact .inl (hstep hlt)
  · exact .inr (hstep hgt)

/-- Every slot has one location, which all processes reach. -/
structure Coherent (n slotSize slotsPerRank : ℕ) (procs : ℕ → Process)
    (imports : UInt64 → Allocation) : Prop where
  created : ∀ rank < n, IsAllocationOf imports procs rank (allocation imports procs rank)
  reached : ∀ slotIdx < n * slotsPerRank, ∀ p < n,
    Denotes (halOf imports procs p) (address (procs p).data slotIdx) slotSize
      (allocation imports procs (slotIdx / slotsPerRank)) (slotOffset slotSize slotsPerRank slotIdx)
  unique : ∀ slotIdx < n * slotsPerRank, ∀ p < n, Separate (halOf imports procs p) →
    ∀ alloc offset,
      Denotes (halOf imports procs p) (address (procs p).data slotIdx) slotSize alloc offset →
      alloc = allocation imports procs (slotIdx / slotsPerRank) ∧
        offset = slotOffset slotSize slotsPerRank slotIdx
  inside : ∀ slotIdx < n * slotsPerRank,
    slotOffset slotSize slotsPerRank slotIdx + slotSize ≤ slotSize * slotsPerRank ∧
      slotSize * slotsPerRank < 2 ^ 64
  disjoint : ∀ slotIdx < n * slotsPerRank, ∀ other < n * slotsPerRank, slotIdx ≠ other →
    allocation imports procs (slotIdx / slotsPerRank) ≠
        allocation imports procs (other / slotsPerRank) ∨
      slotOffset slotSize slotsPerRank slotIdx + slotSize ≤
        slotOffset slotSize slotsPerRank other ∨
      slotOffset slotSize slotsPerRank other + slotSize ≤
        slotOffset slotSize slotsPerRank slotIdx

/-- Where the data of every rank fits, every process reaches every slot. -/
theorem OneRun.reached (hrun : OneRun n slotSize slotsPerRank procs)
    (hdriver : Driver n procs imports)
    (hroom : ∀ p < n, HasRoom (slotSize * slotsPerRank) (halOf imports procs p).granularity)
    {slotIdx p : ℕ} (hslot : slotIdx / slotsPerRank < n) (hp : p < n) :
    Denotes (halOf imports procs p) (address (procs p).data slotIdx) slotSize
      (allocation imports procs (slotIdx / slotsPerRank))
      (slotOffset slotSize slotsPerRank slotIdx) := by
  have hslots : 0 < slotsPerRank := hrun.slots p hp ▸ (hrun.bounds hp).slotsPerRank
  have hinside := slotOffset_add_le slotSize slotIdx hslots
  obtain ⟨-, -, hmapped⟩ := hrun.room imports hp
  obtain ⟨-, hbytes, hcreated⟩ := hrun.room imports hslot
  refine ⟨_, hrun.mapped hdriver hp hslot, rfl, hrun.address_eq hp hslot, ?_, ?_⟩
  · exact hinside.trans (hmapped.mpr (hroom p hp))
  · rw [hbytes]
    exact hinside.trans (hcreated.mpr (hroom _ hslot))

/-- **Cross-process slot coherence.**  In a run in which all processes finish `Setup`, every slot
lies at one offset of one allocation, that of its rank, for all of them, and different slots do not
overlap, if and only if the data of a rank fits in every process when it is rounded up. -/
theorem slots_coherent_iff (hrun : OneRun n slotSize slotsPerRank procs)
    (hdriver : Driver n procs imports) :
    Coherent n slotSize slotsPerRank procs imports ↔
      ∀ p < n, HasRoom (slotSize * slotsPerRank) (halOf imports procs p).granularity := by
  have hslots : ∀ p < n, 0 < slotsPerRank := fun p hp =>
    hrun.slots p hp ▸ (hrun.bounds hp).slotsPerRank
  have hdiv : ∀ slotIdx < n * slotsPerRank, slotIdx / slotsPerRank < n ∧ 0 < slotsPerRank := by
    intro slotIdx hslot
    have hpos : 0 < slotsPerRank := Nat.pos_of_ne_zero fun h => by simp [h] at hslot
    exact ⟨(Nat.div_lt_iff_lt_mul hpos).mpr hslot, hpos⟩
  constructor
  · intro hcoherent p hp
    -- the last slot of the rank ends where its data ends
    let last := p * slotsPerRank + (slotsPerRank - 1)
    have hpos := hslots p hp
    have hlast : last < n * slotsPerRank := by
      calc last < p * slotsPerRank + slotsPerRank := by omega
        _ = (p + 1) * slotsPerRank := (Nat.succ_mul _ _).symm
        _ ≤ n * slotsPerRank := Nat.mul_le_mul_right _ hp
    have hoffset : slotOffset slotSize slotsPerRank last + slotSize = slotSize * slotsPerRank := by
      have hmod : last % slotsPerRank = slotsPerRank - 1 := by
        rw [show last = slotsPerRank * p + (slotsPerRank - 1) by rw [Nat.mul_comm],
          Nat.mul_add_mod, Nat.mod_eq_of_lt (by omega)]
      unfold slotOffset
      rw [hmod, ← Nat.succ_mul, Nat.succ_eq_add_one, Nat.sub_add_cancel hpos, Nat.mul_comm]
    obtain ⟨hsizes, -, hiff⟩ := hrun.room imports hp
    obtain ⟨view, hview, -, -, hinside, -⟩ := hcoherent.reached last hlast p hp
    rw [hoffset, hsizes view hview] at hinside
    exact hiff.mp hinside
  · intro hroom
    have hinside : ∀ slotIdx < n * slotsPerRank,
        slotOffset slotSize slotsPerRank slotIdx + slotSize ≤ slotSize * slotsPerRank ∧
          slotSize * slotsPerRank < 2 ^ 64 := by
      intro slotIdx hslot
      obtain ⟨hrank, hpos⟩ := hdiv slotIdx hslot
      exact ⟨slotOffset_add_le slotSize slotIdx hpos, (hrun.dataBytes hrank).1⟩
    refine ⟨fun rank hrank => hrun.isAllocationOf imports hrank, ?_, ?_, hinside, ?_⟩
    · exact fun slotIdx hslot p hp => hrun.reached hdriver hroom (hdiv slotIdx hslot).1 hp
    · intro slotIdx hslot p hp hseparate alloc offset h
      have hpos : 0 < slotSize := hrun.size p hp ▸ (hrun.bounds hp).slotSize
      exact (hrun.reached hdriver hroom (hdiv slotIdx hslot).1 hp).unique hseparate hpos h
    · intro slotIdx hslot other hother hne
      by_cases hsame : slotIdx / slotsPerRank = other / slotsPerRank
      · refine .inr (slotOffset_apart fun hmod => hne ?_)
        rw [← Nat.div_add_mod slotIdx slotsPerRank, ← Nat.div_add_mod other slotsPerRank, hsame,
          hmod]
      · -- the allocations of two ranks have been created by different processes
        refine .inl fun heq => hsame ?_
        have hmine := (hrun.isAllocationOf imports (hdiv slotIdx hslot).1).2
        have htheirs := (hrun.isAllocationOf imports (hdiv other hother).1).2
        rw [← hmine, ← htheirs, heq]

end Coherence

/-! ## Two processes -/

/-- The processes of two ranks, each with the line of the other one on its input. -/
def twoProcesses (opts : Options) (rank : ℕ) : Process :=
  let opts := { opts with rank := rank }
  let outcome := Prog.exec (hugeFails rank) (setup 1 opts.setupArgs {}) []
  { opts
    fuel := 1
    stdin := [descLine (1 - rank) (UInt64.ofNat (7 + (1 - rank)))]
    trace := outcome.1
    status := .ok
    data := (outcome.2.map Prod.snd).getD {} }

/-- The second allocation of a rank, which has the handle value that the first one had. -/
def secondOf (bytes : ℕ) (token : UInt64) : Allocation := ⟨token.toNat - 7, 1, bytes⟩

instance decidableFollows (ctrl : CtrlLayout) : ∀ stdin t, Decidable (Follows ctrl stdin t)
  | _, [] => isTrue trivial
  | stdin, ⟨_, ⟨_, _, op⟩, r⟩ :: t =>
      match op, r with
      | .getRankDesc rank, r =>
          have := decidableFollows ctrl (ctrl.getRankDesc rank stdin).2 t
          inferInstanceAs (Decidable (r = (ctrl.getRankDesc rank stdin).1 ∧ _))
      | .setRankDesc rank handle, r =>
          have := decidableFollows ctrl stdin t
          inferInstanceAs (Decidable (r = (ctrl.setRankDesc rank handle).1 ∧ _))
      | .aclrtSetDevice _, _ | .resizeMappings _, _ | .halMemGetAllocationGranularity _, _
      | .halMemAddressReserve _, _ | .halMemCreate _ _, _ | .halMemMap _ _ _, _ | .halMemUnmap _, _
      | .halMemRelease _, _ | .halMemAddressFree _, _ | .halMemExportToShareableHandle _, _
      | .halMemShareHandleSetAttribute _, _ | .halMemImportFromShareableHandle _ _, _
      | .steadyClockNow, _ | .sleepUntil _, _ => decidableFollows ctrl stdin t

/-- Two ranks with one slot each, as large as `size_t` allows. -/
def twoHugeSlots : Options where
  slotSize := 2 ^ 64 - 1
  slotsPerRank := 1

/-- What is checked of two processes by running them. -/
def PlaysThrough (opts : Options) (imports : UInt64 → Allocation) : Prop :=
  ∀ p < 2, (twoProcesses opts p).opts.Admitted ∧
    (Prog.exec (hugeFails p) (setup 1 (twoProcesses opts p).opts.setupArgs {}) []).2 =
      some (.ok .ok, (twoProcesses opts p).data) ∧
    Follows (twoProcesses opts p).ctrl (twoProcesses opts p).stdin (twoProcesses opts p).trace ∧
    (∀ accepted ∈ acceptedLines (twoProcesses opts p).ctrl (twoProcesses opts p).stdin
      (twoProcesses opts p).trace, accepted.2 ∈ printedLines (twoProcesses opts accepted.1).ctrl
        (twoProcesses opts accepted.1).trace) ∧
    ∀ token ∈ (halOf imports (twoProcesses opts) p).tokens, imports token.1 = token.2

theorem PlaysThrough.oneRun {opts : Options} (h : PlaysThrough opts imports)
    (hranks : opts.ranks = 2) : OneRun 2 opts.slotSize opts.slotsPerRank (twoProcesses opts) where
  rank _ _ := rfl
  ranks _ _ := hranks
  size _ _ := rfl
  slots _ _ := rfl
  finishes p hp := by
    obtain ⟨hadmitted, hexec, hfollows, -⟩ := h p hp
    constructor
    · exact hadmitted
    · exact Prog.runs_of_exec hexec
    · rfl
    -- `exact` would evaluate the trace to see whether the goal is an implication
    · assumption
  delivered p hp peer line hline := (h p hp).2.2.2.1 (peer, line) hline

theorem PlaysThrough.driver {opts : Options} {imports : UInt64 → Allocation}
    (h : PlaysThrough opts imports) : Driver 2 (twoProcesses opts) imports :=
  fun q hq token a hmem => (h q hq).2.2.2.2 (token, a) hmem

private theorem twoRanks_play : PlaysThrough twoRanks (secondOf (2 ^ 30)) := by
  unfold PlaysThrough
  decide +kernel

private theorem twoHugeSlots_play : PlaysThrough twoHugeSlots (secondOf 0) := by
  unfold PlaysThrough
  decide +kernel

/-- The two processes agree on their eight slots, although HAL has used a handle value twice. -/
theorem slots_coherent_twoProcesses :
    Coherent 2 4096 4 (twoProcesses twoRanks) (secondOf (2 ^ 30)) := by
  refine (slots_coherent_iff (twoRanks_play.oneRun rfl) twoRanks_play.driver).mpr ?_
  have hgranularity : ∀ p < 2,
      (halOf (secondOf (2 ^ 30)) (twoProcesses twoRanks) p).granularity = 2 ^ 21 := by
    decide +kernel
  intro p hp
  rw [hgranularity p hp]
  exact ⟨by decide +kernel, by decide +kernel⟩

/-- Every call has succeeded, but no byte has been created or mapped. -/
theorem hugeSlots_not_coherent :
    OneRun 2 (2 ^ 64 - 1) 1 (twoProcesses twoHugeSlots) ∧
      Driver 2 (twoProcesses twoHugeSlots) (secondOf 0) ∧
      ¬Coherent 2 (2 ^ 64 - 1) 1 (twoProcesses twoHugeSlots) (secondOf 0) := by
  refine ⟨twoHugeSlots_play.oneRun rfl, twoHugeSlots_play.driver, fun hcoherent => ?_⟩
  obtain ⟨view, hview, -, -, hinside, -⟩ := hcoherent.reached 0 (by decide) 0 (by decide)
  have hsizes : ∀ view ∈ (halOf (secondOf 0) (twoProcesses twoHugeSlots) 0).views,
      view.bytes = 0 := by
    decide +kernel
  rw [hsizes view hview] at hinside
  omega

end SharingProbe.DataStrategy
