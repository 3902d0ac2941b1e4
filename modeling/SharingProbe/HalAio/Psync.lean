import SharingProbe.HalAio.Engines

/-!
# The psync engine

`Transfer` moves block after block, shard after shard and tensor after tensor, so that
what has been moved is always a beginning of the buffer.  Between two shards `fd` is
`-1` or refers to the file of the block.
-/

namespace SharingProbe.HalAio

open Interaction Evolution Storage

section Psync

variable {opt : Options} {hopt : opt.Valid} {paths : List String} {hpaths : opt.Distinct paths}
  {buffer : Ptr} {dump : Bool} {w₀ : Disk} {C : Call → Disk → Prop} {I : Set ℕ → LoggedDisk → Prop}

/-- The descriptor refers to the file of the block. -/
def Refers (paths : List String) (block fd : ℕ) (w : Disk) : Prop :=
  (w.entry (paths.getD block "")).isSome ∧ w.desc fd = w.entry (paths.getD block "")

/-- `fd` is `-1` or refers to the file of the block. -/
def Held (paths : List String) (block : ℕ) (p : Process) (w : Disk) : Prop :=
  ∀ fd, p.fd = some fd → Refers paths block fd w

theorem held_of_none {block : ℕ} {p : Process} {w : Disk} (hfd : p.fd = none) :
    Held paths block p w := by
  intro fd hsome
  rw [hfd] at hsome
  cases hsome

theorem Refers.of_begun {block fd : ℕ} {w w' : Disk} {x : Transfer} {file : ℕ}
    (h : Refers paths block fd w) (hbegun : x.Begun file w w') : Refers paths block fd w' := by
  unfold Refers
  rw [hbegun.entry, hbegun.desc]
  exact h

theorem Refers.of_effect {block fd : ℕ} {w w' : Disk} {x : Transfer} {reply : ℤ}
    (h : Refers paths block fd w) (heffect : transferEffect x reply w w') :
    Refers paths block fd w' := by
  unfold transferEffect at heffect
  split at heffect
  · obtain ⟨file, hbegun⟩ := heffect.begun
    exact h.of_begun hbegun
  · rcases heffect with rfl | ⟨file, hbegun⟩
    · exact h
    · exact h.of_begun hbegun

/-- `pwrite` or `pread`. -/
def transferCall (x : Transfer) : OsCall :=
  if x.toFile then .pwrite x.desc x.addr x.bytes x.offset
  else .pread x.desc x.addr x.bytes x.offset

theorem logged_transferCall {p : Process} {x : Transfer} {r : ℤ × ℤ} {y z : LoggedDisk}
    (h : Logged y (.call ⟨p, .os (transferCall x), r⟩) z) :
    transferEffect x r.1 y.1 z.1 ∧
      z.2 = if r.1 = x.bytes then y.2 ∪ movedBy y.1 x else y.2 := by
  obtain ⟨heffect, hlog⟩ := h
  obtain ⟨toFile, desc, offset, addr, bytes⟩ := x
  have hcompletes : (Instant.call ⟨p, .os (transferCall ⟨toFile, desc, offset, addr, bytes⟩),
    r⟩).completes =
      if r.1 = bytes then some ⟨toFile, desc, offset, addr, bytes⟩ else none := by
    cases toFile <;> rfl
  constructor
  · cases toFile <;> exact heffect
  · rw [hlog]
    by_cases hfull : r.1 = bytes
    · rw [if_pos hfull] at hcompletes ⊢
      rw [moved_of_some hcompletes]
    · rw [if_neg hfull] at hcompletes ⊢
      rw [moved_of_none hcompletes, Set.union_empty]

/-- An instant that moves nothing leaves the log alone. -/
theorem Logged.log_eq {m : Instant} {y z : LoggedDisk} (h : Logged y m z)
    (hm : m.completes = none) : z.2 = y.2 := by
  rw [h.2, moved_of_none hm, Set.union_empty]

theorem carries_openBlock (hcarries : Carries (opt.layout hopt paths hpaths) buffer dump I)
    (hC : ∀ c : Call, c.throughOs = true → ∀ D x, I D x → C c x.1) {block : ℕ}
    (hblock : block < opt.blocks) (D : Set ℕ)
    (direct : Bool) :
    (openBlock (paths.getD block "") ⟨dump, dump, direct⟩).Triple (Watched w₀ C)
      (Worlds w₀ fun p x => I D x ∧ Held paths block p x.1)
      (fun fd => Worlds w₀ fun p x => I D x ∧ p.fd = some fd ∧ Refers paths block fd x.1)
      (Worlds w₀ fun _ x => Somewhere I x) := by
  apply Proc.triple_get_bind
  intro p
  cases hfd : p.fd with
  -- the block is open already
  | some fd =>
      refine Proc.triple_pure ?_
      rintro p' t ⟨rfl, h⟩
      exact h.mono fun x hx => ⟨hx.1, hfd, hx.2 fd hfd⟩
  | none =>
      have hopened : (os (.openFile (paths.getD block "") ⟨dump, dump, direct⟩)).Triple
          (Watched w₀ C) (Worlds w₀ fun p x => I D x ∧ Held paths block p x.1)
          (fun r => Worlds w₀ fun _ x => I D x ∧ Refers paths block r.1.toNat x.1)
          (Worlds w₀ fun _ x => Somewhere I x) := by
        refine worlds_os (fun _ _ h => hC _ rfl D _ h.1) (fun _ _ _ h => hC _ rfl D _ h.1)
          (fun _ x ⟨D, h⟩ => hC _ rfl D x h) ?_
        rintro p r ⟨w, log⟩ ⟨w', log'⟩ ⟨hI, -⟩ hlogged
        have hlog : log' = log := hlogged.log_eq rfl
        have heffect := hlogged.1
        subst hlog
        constructor
        -- a file that has been opened is that of the block
        · intro hr
          have hopens : w.Opens dump (paths.getD block "") r.1.toNat w' :=
            (if_pos hr).mp heffect
          refine ⟨hcarries.opens hI hblock hopens, hopens.desc.2, ?_⟩
          rw [hopens.desc.1, Function.update_self]
        · intro hr
          have hfails : w.OpenFails dump (paths.getD block "") w' :=
            (if_neg (not_le.mpr hr)).mp heffect
          exact ⟨D, hcarries.openFails hI hblock hfails⟩
      refine Proc.Triple.bind (hopened.weaken (fun _ _ h => h.2) (fun _ _ _ h => h)
        fun _ _ h => h) fun r => ?_
      refine Proc.Triple.bind (worlds_modify (L := fun p x =>
        I D x ∧ p.fd = some r.1.toNat ∧ Refers paths block r.1.toNat x.1) ?_) fun _ => ?_
      · exact fun p x hx => ⟨hx.1, rfl, hx.2⟩
      · exact Proc.triple_pure fun _ _ h => h

/-- `close` of a descriptor that nothing refers to any more. -/
theorem carries_close (hcarries : Carries (opt.layout hopt paths hpaths) buffer dump I)
    (hC : ∀ c : Call, c.throughOs = true → ∀ D x, I D x → C c x.1) (D : Set ℕ) (fd : ℕ)
    (J : Process → Prop) :
    (os (.close fd)).Triple (Watched w₀ C)
      (Worlds w₀ fun p x => I D x ∧ J p) (fun _ => Worlds w₀ fun p x => I D x ∧ J p)
      (Worlds w₀ fun _ x => Somewhere I x) := by
  refine worlds_os (fun _ _ h => hC _ rfl D _ h.1) (fun _ _ _ h => hC _ rfl D _ h.1)
    (fun _ x ⟨D, h⟩ => hC _ rfl D x h) ?_
  rintro p r ⟨w, log⟩ ⟨w', log'⟩ ⟨hI, hJ⟩ hlogged
  have hlog : log' = log := hlogged.log_eq rfl
  have hclosed : w' = w.close fd := hlogged.1
  subst hlog hclosed
  exact ⟨fun _ => ⟨hcarries.closes fd hI, hJ⟩, fun _ => ⟨D, hcarries.closes fd hI⟩⟩

/-- Adding the next part to what has been moved. -/
theorem iio_union_covers {x : Transfer} {start : ℕ} :
    Set.Iio start ∪ {o | Layout.Covers x start o} = Set.Iio (start + x.bytes) := by
  ext o
  simp only [Set.mem_union, Set.mem_Iio, Set.mem_ofPred_eq, Layout.Covers]
  omega

/-- One turn of the inner loop. -/
theorem carries_unit (hcarries : Carries (opt.layout hopt paths hpaths) buffer dump I)
    (hC : ∀ c : Call, c.throughOs = true → ∀ D x, I D x → C c x.1) {block shard k fd : ℕ}
    (hblock : block < opt.blocks)
    (hshard : shard < opt.shards) (hk : k * opt.unit + opt.unit ≤ opt.slotBytes) :
    (do
      let reply ← os (transferCall (opt.psyncTransfer buffer dump fd block shard k))
      Proc.onlyIf (reply.1 ≠ opt.unit) (Proc.throw (.error "short psync I/O")) : HA PUnit).Triple
      (Watched w₀ C)
      (Worlds w₀ fun p x => I (Set.Iio (opt.slotStart block shard + k * opt.unit)) x ∧
        p.fd = some fd ∧ Refers paths block fd x.1)
      (fun _ => Worlds w₀ fun p x =>
        I (Set.Iio (opt.slotStart block shard + (k + 1) * opt.unit)) x ∧
          p.fd = some fd ∧ Refers paths block fd x.1)
      (Worlds w₀ fun _ x => Somewhere I x) := by
  let start := opt.slotStart block shard + k * opt.unit
  -- a short transfer leaves the bytes before it as they are
  let Moved (r : ℤ × ℤ) (p : Process) (x : LoggedDisk) : Prop :=
    (if r.1 = opt.unit then I (Set.Iio (start + opt.unit)) x else I (Set.Iio start) x) ∧
      p.fd = some fd ∧ Refers paths block fd x.1
  have hsomewhere : ∀ r p x, Moved r p x → Somewhere I x := by
    rintro r p x ⟨hI, -⟩
    split at hI
    · exact ⟨_, hI⟩
    · exact ⟨_, hI⟩
  have hmoved : (os (transferCall (opt.psyncTransfer buffer dump fd block shard k))).Triple
      (Watched w₀ C)
      (Worlds w₀ fun p x => I (Set.Iio start) x ∧ p.fd = some fd ∧ Refers paths block fd x.1)
      (fun r => Worlds w₀ (Moved r)) (Worlds w₀ fun _ x => Somewhere I x) := by
    refine worlds_os (fun _ _ h => hC _ rfl _ _ h.1) ?_ (fun _ x ⟨D, h⟩ => hC _ rfl D x h) ?_
    · rintro r p x hmoved
      obtain ⟨D, hI⟩ := hsomewhere r p x hmoved
      exact hC _ rfl D x hI
    rintro p r ⟨w, log⟩ ⟨w', log'⟩ ⟨hI, hfd, hrefers⟩ hlogged
    obtain ⟨heffect, hlog⟩ := logged_transferCall hlogged
    obtain ⟨haims, hfile⟩ := psync_aims hopt hpaths buffer dump fd hblock hshard hk
    have hdesc : w.desc fd = w.entry ((opt.layout hopt paths hpaths).name
        (start / (opt.layout hopt paths hpaths).length)) := by
      show w.desc fd = w.entry (paths.getD (start / opt.blockBytes) "")
      rw [hfile]
      exact hrefers.2
    -- the bytes of this unit are new
    have hnew : ∀ o ∈ Set.Iio start,
        ¬Layout.Covers (opt.psyncTransfer buffer dump fd block shard k) start o := by
      rintro o ho ⟨hle, -⟩
      exact absurd hle (not_le.mpr ho)
    obtain ⟨hfull, hshort⟩ := hcarries.effect hI haims rfl hdesc hnew heffect
    rw [iio_union_covers] at hfull
    have hafter : Moved r p (w', log') := by
      refine ⟨?_, hfd, hrefers.of_effect heffect⟩
      by_cases hr : r.1 = opt.unit
      · rw [if_pos hr, show log' = _ from hlog.trans (if_pos hr)]
        exact hfull hr
      · rw [if_neg hr, show log' = _ from hlog.trans (if_neg hr)]
        exact hshort hr
    exact ⟨fun _ => hafter, fun _ => hsomewhere r p _ hafter⟩
  apply Proc.Triple.bind hmoved
  intro r
  refine Proc.triple_onlyIf (fun hshort => ?_) fun hfull p t h => h.mono fun x hx => ?_
  · exact Proc.triple_throw fun p t h => h.mono fun x hx => hsomewhere r p x hx
  · rw [Nat.add_mul, Nat.one_mul, ← Nat.add_assoc]
    obtain ⟨hI, hrest⟩ := hx
    rw [if_pos (not_not.mp hfull)] at hI
    exact ⟨hI, hrest⟩

/-- One shard. -/
theorem carries_transferShard (hcarries : Carries (opt.layout hopt paths hpaths) buffer dump I)
    (hC : ∀ c : Call, c.throughOs = true → ∀ D x, I D x → C c x.1) {block shard : ℕ}
    (hblock : block < opt.blocks)
    (hshard : shard < opt.shards) :
    (transferShard opt (paths.getD block "") buffer dump block shard).Triple (Watched w₀ C)
      (Worlds w₀ fun p x =>
        I (Set.Iio (opt.slotStart block shard)) x ∧ Held paths block p x.1)
      (fun _ => Worlds w₀ fun p x =>
        I (Set.Iio (opt.slotStart block (shard + 1))) x ∧ Held paths block p x.1)
      (Worlds w₀ fun _ x => Somewhere I x) := by
  apply Proc.Triple.bind (carries_openBlock hcarries hC hblock _ opt.direct)
  intro fd
  have hunits := hopt.units
  let Turn (k : ℕ) : Process → List HAEvent → Prop := Worlds w₀ fun p x =>
    I (Set.Iio (opt.slotStart block shard + k * opt.unit)) x ∧ p.fd = some fd ∧
      Refers paths block fd x.1
  -- the units of a shard, one after the other
  have hloop : ((List.range ((opt.slotBytes + opt.unit - 1) / opt.unit)).forM fun k => do
      let reply ← os (transferCall (opt.psyncTransfer buffer dump fd block shard k))
      Proc.onlyIf (reply.1 ≠ opt.unit) (Proc.throw (.error "short psync I/O")) : HA PUnit).Triple
      (Watched w₀ C) (Turn 0)
      (fun _ => Turn ((opt.slotBytes + opt.unit - 1) / opt.unit))
      (Worlds w₀ fun _ x => Somewhere I x) := by
    refine Proc.triple_forM_range fun k hk => carries_unit hcarries hC hblock hshard ?_
    have hnext : (k + 1) * opt.unit ≤ opt.slotBytes := by
      rw [← hunits]
      exact Nat.mul_le_mul_right _ hk
    rwa [Nat.add_mul, Nat.one_mul] at hnext
  have hend : opt.slotStart block shard +
      (opt.slotBytes + opt.unit - 1) / opt.unit * opt.unit = opt.slotStart block (shard + 1) := by
    rw [hunits]
    unfold Options.slotStart
    rw [← Nat.add_assoc, Nat.add_mul _ 1, Nat.one_mul]
  unfold Turn at hloop
  rw [hend, Nat.zero_mul, Nat.add_zero] at hloop
  apply Proc.Triple.bind hloop
  intro _
  refine Proc.triple_onlyIf (fun _ => ?_) fun _ p t h => h.mono fun x hx => ⟨hx.1, ?_⟩
  -- the last shard closes the block
  · refine Proc.Triple.bind (worlds_modify (L := fun p x =>
      I (Set.Iio (opt.slotStart block (shard + 1))) x ∧ p.fd = none) ?_) fun _ => ?_
    · exact fun p x hx => ⟨hx.1, rfl⟩
    · refine Proc.Triple.bind (carries_close hcarries hC _ fd fun p => p.fd = none) fun _ => ?_
      exact Proc.triple_pure fun p t h => h.mono fun x hx => ⟨hx.1, held_of_none hx.2⟩
  · intro fd' hfd'
    rw [hx.2.1, Option.some.injEq] at hfd'
    exact hfd' ▸ hx.2.2

/-- The handler of a block. -/
theorem carries_closeBlock (hcarries : Carries (opt.layout hopt paths hpaths) buffer dump I)
    (hC : ∀ c : Call, c.throughOs = true → ∀ D x, I D x → C c x.1) :
    closeBlock.Triple (Watched w₀ C) (Worlds w₀ fun _ x => Somewhere I x)
      (fun _ => Worlds w₀ fun _ x => Somewhere I x)
      (Worlds w₀ fun _ x => Somewhere I x) := by
  have hsomewhere : ∀ fd (p : Process) x, Somewhere I x → C (.os (.close fd)) x.1 :=
    fun _ _ x ⟨D, h⟩ => hC _ rfl D x h
  have hclose : ∀ fd, (os (.close fd)).Triple (Watched w₀ C)
      (Worlds w₀ fun _ x => Somewhere I x) (fun _ => Worlds w₀ fun _ x => Somewhere I x)
      (Worlds w₀ fun _ x => Somewhere I x) := by
    intro fd
    refine worlds_os (hsomewhere fd) (fun _ => hsomewhere fd) (hsomewhere fd) ?_
    rintro p r ⟨w, log⟩ ⟨w', log'⟩ ⟨D, hI⟩ hlogged
    have hlog : log' = log := hlogged.log_eq rfl
    have hclosed : w' = w.close fd := hlogged.1
    subst hlog hclosed
    exact ⟨fun _ => ⟨D, hcarries.closes fd hI⟩, fun _ => ⟨D, hcarries.closes fd hI⟩⟩
  apply Proc.triple_get_bind
  intro p
  split
  · rename_i fd _
    refine Proc.Triple.tryCatch (E := Worlds w₀ fun _ x => Somewhere I x) ?_ fun _ => ?_
    · refine Proc.Triple.bind ((hclose fd).weaken (fun _ _ h => h.2) (fun _ _ _ h => h)
        fun _ _ h => h) fun _ => ?_
      exact Proc.triple_pure fun _ _ h => h
    · exact worlds_modify fun _ _ h => h
  · exact Proc.triple_pure fun _ _ h => h.2

/-- One block. -/
theorem carries_transferBlock (hcarries : Carries (opt.layout hopt paths hpaths) buffer dump I)
    (hC : ∀ c : Call, c.throughOs = true → ∀ D x, I D x → C c x.1) {block : ℕ}
    (hblock : block < opt.blocks) :
    (transferBlock opt (paths.getD block "") buffer dump block).Triple (Watched w₀ C)
      (Worlds w₀ fun _ x => I (Set.Iio (opt.slotStart block 0)) x)
      (fun _ => Worlds w₀ fun _ x => I (Set.Iio (opt.slotStart block opt.shards)) x)
      (Worlds w₀ fun _ x => Somewhere I x) := by
  refine Proc.Triple.bind (worlds_modify (L := fun p x =>
    I (Set.Iio (opt.slotStart block 0)) x ∧ Held paths block p x.1) ?_) fun _ => ?_
  · exact fun p x hx => ⟨hx, held_of_none rfl⟩
  let Turn (shard : ℕ) : Process → List HAEvent → Prop := Worlds w₀ fun p x =>
    I (Set.Iio (opt.slotStart block shard)) x ∧ Held paths block p x.1
  have hshards : ((List.range opt.shards).forM
      (transferShard opt (paths.getD block "") buffer dump block)).Triple (Watched w₀ C)
      (Turn 0) (fun _ => Turn opt.shards) (Worlds w₀ fun _ x => Somewhere I x) :=
    Proc.triple_forM_range fun shard hshard => carries_transferShard hcarries hC hblock hshard
  refine Proc.Triple.tryCatch (hshards.weaken (fun _ _ h => h)
    (fun _ p t h => h.mono fun x hx => hx.1) fun _ _ h => h) fun error => ?_
  apply Proc.Triple.bind (carries_closeBlock hcarries hC)
  exact fun _ => Proc.triple_throw fun _ _ h => h

/-- All blocks. -/
theorem carries_psync (hcarries : Carries (opt.layout hopt paths hpaths) buffer dump I)
    (hC : ∀ c : Call, c.throughOs = true → ∀ D x, I D x → C c x.1) :
    ((List.range opt.blocks).forM fun block =>
      transferBlock opt (paths.getD block "") buffer dump block).Triple (Watched w₀ C)
      (Worlds w₀ fun _ x => I ∅ x)
      (fun _ => Worlds w₀ fun _ x => I (Set.Iio (opt.blocks * opt.shards * opt.slotBytes)) x)
      (Worlds w₀ fun _ x => Somewhere I x) := by
  let Turn (block : ℕ) : Process → List HAEvent → Prop := Worlds w₀ fun _ x =>
    I (Set.Iio (opt.slotStart block 0)) x
  have hblocks : ((List.range opt.blocks).forM fun block =>
      transferBlock opt (paths.getD block "") buffer dump block).Triple (Watched w₀ C)
      (Turn 0) (fun _ => Turn opt.blocks) (Worlds w₀ fun _ x => Somewhere I x) := by
    refine Proc.triple_forM_range fun block hblock => ?_
    have hnext : opt.slotStart block opt.shards = opt.slotStart (block + 1) 0 := by
      unfold Options.slotStart
      rw [Nat.add_mul block, Nat.one_mul, Nat.add_zero]
    show Proc.Triple _ _ _ (fun _ => Worlds w₀ fun _ x =>
      I (Set.Iio (opt.slotStart (block + 1) 0)) x) _
    rw [← hnext]
    exact carries_transferBlock hcarries hC hblock
  have hstart : Set.Iio (opt.slotStart 0 0) = ∅ := by
    unfold Options.slotStart
    simp
  have hend : opt.slotStart opt.blocks 0 = opt.blocks * opt.shards * opt.slotBytes := by
    unfold Options.slotStart
    rw [Nat.add_zero]
  unfold Turn at hblocks
  rwa [hstart, hend] at hblocks

end Psync

end SharingProbe.HalAio
