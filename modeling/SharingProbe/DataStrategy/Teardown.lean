import SharingProbe.DataStrategy.Resources

/-!
# `Reset` releases what `mappings_` records

`Reset` runs four loops over the ranks.  Each loop releases exactly the
resources of its stage (`resetLoop_meets`), so the ledger goes from what the
object records down to nothing, one stage after the other (`reset_meets`).
-/

namespace SharingProbe.DataStrategy

open Interaction

/-- What the call of a rank releases, if there is one. -/
def releasesOf (owner : ℕ) (op? : ℕ → Option Op) (rank : ℕ) : Multiset Resource :=
  match op? rank with
  | none => 0
  | some op => op.releases owner rank

@[simp] theorem releasesOf_unmapOp (self : DataStrategy) (rank : ℕ) :
    releasesOf self.owner self.unmapOp rank = self.mappingOf rank := by
  unfold releasesOf unmapOp mappingOf
  cases (self.mapping rank).mapped <;> rfl

@[simp] theorem releasesOf_releaseOp (self : DataStrategy) (rank : ℕ) :
    releasesOf self.owner self.releaseOp rank = self.handleOf rank := by
  unfold releasesOf releaseOp handleOf
  cases (self.mapping rank).handle <;> rfl

@[simp] theorem releasesOf_freeOp (self : DataStrategy) (rank : ℕ) :
    releasesOf self.owner self.freeOp rank = self.addressOf rank := by
  unfold releasesOf freeOp addressOf
  by_cases h : (self.mapping rank).addr = 0
  · simp [h]
  · simp [h, Op.releases]

/-- A call that releases something neither acquires nor queries anything. -/
structure IsRelease (op : Op) : Prop where
  acquires : ∀ rank r, op.acquires rank r = 0
  retry : op ≠ .halMemGetAllocationGranularity .normal

theorem isRelease_unmapOp {self : DataStrategy} {rank : ℕ} {op : Op}
    (h : self.unmapOp rank = some op) : IsRelease op := by
  unfold unmapOp at h
  split at h
  · cases h; exact ⟨fun _ _ => rfl, nofun⟩
  · cases h

theorem isRelease_releaseOp {self : DataStrategy} {rank : ℕ} {op : Op}
    (h : self.releaseOp rank = some op) : IsRelease op := by
  unfold releaseOp at h
  cases hhandle : (self.mapping rank).handle with
  | none => simp [hhandle] at h
  | some handle =>
      simp only [hhandle, Option.map_some, Option.some.injEq] at h
      subst h
      exact ⟨fun _ _ => rfl, nofun⟩

theorem isRelease_freeOp {self : DataStrategy} {rank : ℕ} {op : Op}
    (h : self.freeOp rank = some op) : IsRelease op := by
  unfold freeOp at h
  split at h
  · cases h
  · cases h; exact ⟨fun _ _ => rfl, nofun⟩

/-! ## One loop -/

private theorem exists_of_mem_sum {f : ℕ → Multiset Resource} {r : Resource} {ranks : List ℕ}
    (hr : r ∈ (ranks.map f).sum) : ∃ rank ∈ ranks, r ∈ f rank := by
  induction ranks with
  | nil => simp at hr
  | cons rank ranks ih =>
      rw [List.map_cons, List.sum_cons, Multiset.mem_add] at hr
      rcases hr with hr | hr
      · exact ⟨rank, List.mem_cons_self, hr⟩
      · obtain ⟨other, hmem, hother⟩ := ih hr
        exact ⟨other, List.mem_cons_of_mem _ hmem, hother⟩

/-- A loop of `Reset` releases the resources of its ranks, all of one stage,
while everything else that is held belongs to that stage or a later one. -/
theorem resetLoop_meets {op? : ℕ → Option Op} {k : ℕ}
    (hrelease : ∀ rank op, op? rank = some op → IsRelease op) {self : DataStrategy} :
    ∀ {ranks : List ℕ} {t : List DSEvent} {rest : Multiset Resource},
      (∀ rank ∈ ranks, ∀ r ∈ releasesOf self.owner op? rank, r.stage = k) →
      (∀ r ∈ rest, k ≤ r.stage) →
      accounts.held t = (ranks.map (releasesOf self.owner op?)).sum + rest →
      (resetLoop op? ranks).Meets Allowed self t
        fun x self' t' => x = .ok ⟨⟩ ∧ self' = self ∧ accounts.held t' = rest := by
  intro ranks
  induction ranks with
  | nil =>
      intro t rest _ _ hheld
      simpa [resetLoop] using hheld
  | cons rank ranks ih =>
      intro t rest hstage hrest hheld
      rw [List.map_cons, List.sum_cons] at hheld
      have hstage' : ∀ other ∈ ranks, ∀ r ∈ releasesOf self.owner op? other, r.stage = k :=
        fun other hother => hstage other (List.mem_cons_of_mem _ hother)
      unfold resetLoop
      cases hop : op? rank with
      | none =>
          have hnone : releasesOf self.owner op? rank = 0 := by simp [releasesOf, hop]
          exact ih hstage' hrest (by rw [hheld, hnone, zero_add])
      | some op =>
          have hsome : op.releases self.owner rank = releasesOf self.owner op? rank := by
            simp [releasesOf, hop]
          -- whatever is held belongs to this stage or to a later one
          have hlater : ∀ r ∈ accounts.held t, k ≤ r.stage := by
            intro r hr
            rw [hheld, Multiset.mem_add, Multiset.mem_add] at hr
            rcases hr with (hr | hr) | hr
            · exact (hstage rank List.mem_cons_self r hr).ge
            · obtain ⟨other, hmem, hother⟩ := exists_of_mem_sum hr
              exact (hstage' other hmem r hother).ge
            · exact hrest r hr
          simp only [Proc.meets_bind, Proc.meets_ask]
          refine ⟨⟨fun h => (by cases h), ?_, ?_, fun _ => (hrelease rank op hop).acquires rank,
            fun h => absurd h (hrelease rank op hop).retry⟩, fun reply => ?_⟩
          · rw [hsome, hheld, add_assoc]
            exact Multiset.le_add_right _ _
          · intro r hr r' hr'
            rw [hsome] at hr
            rw [hstage rank List.mem_cons_self r hr]
            exact hlater r' hr'
          · refine ih hstage' hrest ?_
            rw [Ledger.Accounts.held_concat]
            show accounts.held t - op.releases self.owner rank + op.acquires rank reply = _
            rw [(hrelease rank op hop).acquires, add_zero, hsome, hheld, add_assoc,
              add_tsub_cancel_left]

/-! ## The whole teardown -/

private theorem sum_range_eq (f : ℕ → Multiset Resource) (n : ℕ) :
    ∑ rank ∈ Finset.range n, f rank = ((List.range n).map f).sum := by
  rw [Finset.sum_eq_multiset_sum]
  exact Multiset.sum_coe _

private theorem sum_filter_add_owner (f : ℕ → Multiset Resource) (owner : ℕ) {ranks : List ℕ}
    (hnodup : ranks.Nodup) :
    (ranks.map f).sum = ((ranks.filter fun rank => rank ≠ owner).map f).sum +
      ((if owner ∈ ranks then [owner] else []).map f).sum := by
  induction ranks with
  | nil => simp
  | cons rank ranks ih =>
      rw [List.nodup_cons] at hnodup
      rw [List.map_cons, List.sum_cons, ih hnodup.2]
      by_cases hrank : rank = owner
      · subst hrank
        simp only [ne_eq, hnodup.1, not_true_eq_false, decide_false, Bool.false_eq_true,
          not_false_eq_true, List.filter_cons_of_neg, List.mem_cons, true_or, ↓reduceIte,
          List.map_cons, List.map_nil, List.sum_cons, List.sum_nil, add_zero]
        rw [add_comm]
      · simp only [ne_eq, hrank, not_false_eq_true, decide_true, List.filter_cons_of_pos,
          List.map_cons, List.sum_cons, List.mem_cons, Ne.symm hrank, false_or, add_assoc]

/-- What the object records, in the order in which `Reset` releases it. -/
theorem recorded_eq_stages (self : DataStrategy) :
    self.recorded = ((List.range self.mappings.length).map self.mappingOf).sum +
      ((((List.range self.mappings.length).filter fun rank => rank ≠ self.owner).map
          self.handleOf).sum +
        (((if self.owner < self.mappings.length then [self.owner] else []).map
            self.handleOf).sum +
          ((List.range self.mappings.length).map self.addressOf).sum)) := by
  have hhandles := sum_filter_add_owner self.handleOf self.owner
    (List.nodup_range (n := self.mappings.length))
  simp only [List.mem_range] at hhandles
  unfold recorded
  rw [Finset.sum_add_distrib, Finset.sum_add_distrib, sum_range_eq, sum_range_eq, sum_range_eq,
    hhandles]
  ac_rfl

theorem stage_mappingOf {self : DataStrategy} {rank : ℕ} {r : Resource}
    (hr : r ∈ self.mappingOf rank) : r.stage = 0 := by
  unfold mappingOf at hr
  split at hr
  · rw [Multiset.mem_singleton] at hr; subst hr; rfl
  · simp at hr

theorem stage_handleOf {self : DataStrategy} {rank : ℕ} {r : Resource}
    (hr : r ∈ self.handleOf rank) : r.stage = if rank = self.owner then 2 else 1 := by
  unfold handleOf Resource.handle at hr
  cases hhandle : (self.mapping rank).handle with
  | none => simp [hhandle] at hr
  | some handle =>
      simp only [hhandle, Multiset.mem_singleton] at hr
      subst hr
      split <;> rfl

theorem stage_addressOf {self : DataStrategy} {rank : ℕ} {r : Resource}
    (hr : r ∈ self.addressOf rank) : r.stage = 3 := by
  unfold addressOf at hr
  split at hr
  · simp at hr
  · rw [Multiset.mem_singleton] at hr; subst hr; rfl

/-- **`Reset` releases everything the object records**, stage by stage, and
leaves it without mappings. -/
theorem reset_meets {self : DataStrategy} {t : List DSEvent} (hkept : self.Kept t) :
    reset.Meets Allowed self t fun x self' t' =>
      x = .ok ⟨⟩ ∧ self' = { self with mappings := [], rankStride := 0 } ∧
        accounts.held t' = 0 := by
  have hown : ∀ rank ∈ (if self.owner < self.mappings.length then [self.owner] else []),
      rank = self.owner := by
    intro rank hrank
    split at hrank <;> simp_all
  have hother : ∀ rank ∈ (List.range self.mappings.length).filter (fun rank => rank ≠ self.owner),
      rank ≠ self.owner := by
    intro rank hrank
    simpa using (List.mem_filter.mp hrank).2
  -- the stages of what is still held while a loop runs
  have hfree : ∀ r ∈ ((List.range self.mappings.length).map self.addressOf).sum, 3 ≤ r.stage := by
    intro r hr
    obtain ⟨rank, _, hmem⟩ := exists_of_mem_sum hr
    exact (stage_addressOf hmem).ge
  have hcreated : ∀ r ∈ ((if self.owner < self.mappings.length then [self.owner] else []).map
      self.handleOf).sum, r.stage = 2 := by
    intro r hr
    obtain ⟨rank, hrank, hmem⟩ := exists_of_mem_sum hr
    rw [stage_handleOf hmem, if_pos (hown rank hrank)]
  unfold Kept at hkept
  rw [recorded_eq_stages] at hkept
  unfold reset
  simp only [Proc.meets_bind, Proc.meets_get, Proc.meets_modify]
  -- the mappings, then the imported handles, then the own handle, then the ranges
  refine (resetLoop_meets (k := 0) (fun _ _ => isRelease_unmapOp) ?_ ?_
    (by simpa only [funext (releasesOf_unmapOp self)] using hkept)).mono ?_
  · intro rank _ r hr
    exact stage_mappingOf (by simpa using hr)
  · exact fun r _ => Nat.zero_le _
  rintro x self' t' - ⟨rfl, rfl, hunmapped⟩
  refine (resetLoop_meets (k := 1) (fun _ _ => isRelease_releaseOp) ?_ ?_
    (by simpa only [funext (releasesOf_releaseOp self')] using hunmapped)).mono ?_
  · intro rank hrank r hr
    rw [stage_handleOf (by simpa using hr), if_neg (hother rank hrank)]
  · intro r hr
    rcases Multiset.mem_add.mp hr with hr | hr
    · exact le_trans (by decide) (hcreated r hr).ge
    · exact le_trans (by decide) (hfree r hr)
  rintro x self'' t'' - ⟨rfl, rfl, hunimported⟩
  refine (resetLoop_meets (k := 2) (fun _ _ => isRelease_releaseOp) ?_ ?_
    (by simpa only [funext (releasesOf_releaseOp self'')] using hunimported)).mono ?_
  · intro rank hrank r hr
    rw [stage_handleOf (by simpa using hr), if_pos (hown rank hrank)]
  · exact fun r hr => le_trans (by decide) (hfree r hr)
  rintro x self₃ t₃ - ⟨rfl, rfl, hreleased⟩
  have hlast : accounts.held t₃ = ((List.range self₃.mappings.length).map
      (releasesOf self₃.owner self₃.freeOp)).sum + 0 := by
    rw [add_zero, funext (releasesOf_freeOp self₃)]
    exact hreleased
  refine (resetLoop_meets (k := 3) (fun _ _ => isRelease_freeOp) ?_ ?_ hlast).mono ?_
  · intro rank _ r hr
    exact stage_addressOf (by simpa using hr)
  · intro r hr
    simp at hr
  rintro x self₄ t₄ - ⟨rfl, rfl, hfreed⟩
  exact ⟨trivial, rfl, hfreed⟩

end SharingProbe.DataStrategy
