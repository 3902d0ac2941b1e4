import SharingProbe.Library.Outcome
import SharingProbe.MultiShare.Holdings

/-!
# How a worker cleans up

The `try` block leaves the variables in agreement with what is held, wherever it ends.
What follows it goes through the slices, and releases the rest in reverse order.

## Strategy

`Agrees cfg result done F S` is what holds between two statements: the variables record `S`, which
is what the ledger holds, and `F` is what else is known of them.  Whatever acquires, releases,
maps and unmaps nothing keeps it (`Indifferent`), so barriers, rounds and transfers are dealt with
at once and for all `F` and `S`.

* Up to the first unmap, `triple_acquire` is the rule for a check that acquires something and
  leaves it in a variable; `triple_setUpDevice`, `triple_exportOwn` and `triple_importSlice` are the
  acquisitions of the `try` block.
* `triple_release` is the rule for a clean-up call.  Holdings have stages, and `recorded n` is what
  the variables record of the stages from `n` on: a release of one stage leaves the later ones.
* `triple_workerBody` puts the `try` block together: an exception at any of its statements leaves
  the variables in agreement (`Ends`).
* `triple_cleanupSlice` goes from `handlesFrom k` to `handlesFrom (k + 1)`, and
  `triple_workerCleanup` releases what is left.

`worker_runs` cuts a run where the `try` block ends, so that `worker_ends` can say which result
belongs to which end.
-/

namespace SharingProbe.MultiShare

open Interaction Share

/-- The variables agree with the ledger, where `S` says what they record, and `F` what else
is known of them. -/
def Agrees (cfg : Config) (result done : ℕ) (F : Process → Prop) (S : Process → Set Holding)
    (p : Process) (t : List SHEvent) : Prop :=
  Accounted cfg result done (S p) p t ∧ F p

/-- How the `try` block ends, in whichever way. -/
def Ends (cfg : Config) (p : Process) (t : List SHEvent) : Prop :=
  Accounted cfg 0 0 (shared p) p t

/-- Neither depends on the failures noted and on the context. -/
structure Steady (F : Process → Prop) (S : Process → Set Holding) : Prop where
  recorded : ∀ p f ctx, S { p with cleanupFailed := f, ctx := ctx } = S p
  known : ∀ p f ctx, F p → F { p with cleanupFailed := f, ctx := ctx }

/-! ## Pieces without a part in this -/

/-- The condition is kept by all that acquires, releases, maps and unmaps nothing. -/
structure Indifferent (I : Process → List SHEvent → Prop) : Prop where
  call : ∀ {c}, isQuietCall c = true → Keeps Tidy I c
  cleanup : ∀ {op name}, isQuiet op = true → KeepsCleanup Tidy I op name
  ctx : ∀ p t ctx, I p t → I { p with ctx := ctx } t

theorem keepsCleanup_agrees {cfg : Config} {result done : ℕ} {F : Process → Prop}
    {S : Process → Set Holding} (hS : ∀ p f, S { p with cleanupFailed := f } = S p)
    (hF : ∀ p f, F p → F { p with cleanupFailed := f }) {op : Share.Op} (hop : isQuiet op = true)
    (name : String) : KeepsCleanup Tidy (Agrees cfg result done F S) op name := by
  have hquiet := fun p => quiet_cleanup hop p name
  refine ⟨fun p t _ => tidy_of_none (hquiet p {}).releases (hquiet p {}).unmaps t, ?_⟩
  intro p t r h
  have htracks : accounts.Tracks (S p) (t ++ [⟨p, .cleanup op name, r⟩]) :=
    h.1.tracks.quiet (hquiet p r).acquires (hquiet p r).releases
  have hcleanup := h.1.cleanup htracks fun i _ => (hquiet p r).unmaps i
  split
  · rename_i hret
    rw [if_pos hret] at hcleanup
    exact ⟨hcleanup, h.2⟩
  · rename_i hret
    rw [if_neg hret, ← hS p true] at hcleanup
    exact ⟨hcleanup, hF p true h.2⟩

theorem indifferent_agrees {cfg : Config} {result done : ℕ} {F : Process → Prop}
    {S : Process → Set Holding} (hS : Steady F S) : Indifferent (Agrees cfg result done F S) where
  call hc :=
    ⟨fun p t _ => tidy_quietCall hc p t,
      fun p _ r h => ⟨h.1.quiet (quiet_call hc p r).1 (quiet_call hc p r).2, h.2⟩⟩
  cleanup hop := keepsCleanup_agrees (fun p f => hS.recorded p f p.ctx)
    (fun p f => hS.known p f p.ctx) hop _
  ctx p t ctx h := by
    have hsame : S { p with ctx := ctx } = S p := hS.recorded p p.cleanupFailed ctx
    refine ⟨?_, hS.known p p.cleanupFailed ctx h.2⟩
    rw [hsame]
    exact ⟨h.1.tracks, h.1.failed, h.1.slices, h.1.base, h.1.handles, h.1.result⟩

section Pieces

variable {I : Process → List SHEvent → Prop} (hI : Indifferent I) (cfg : Config) (rank : ℕ)

include hI

theorem indifferent_barrier :
    Proc.Triple Tidy I barrier (fun _ => I) I := by
  unfold barrier
  refine (Share.triple_sendWord (hI.call rfl)).bind fun _ => ?_
  exact (Share.triple_receiveWord (hI.call rfl)).bind fun word => triple_checkWord _ _

theorem indifferent_fill (buffer : Buffer) (bytes : ℕ) (seed : UInt64)
    {E : Process → List SHEvent → Prop} :
    Proc.Triple Tidy I (fill buffer bytes seed)
      (fun _ => I) E :=
  triple_fill fun _ _ => hI.call rfl

theorem indifferent_verify (buffer : Buffer) (bytes : ℕ) (seed : UInt64) (phase : String) :
    Proc.Triple Tidy I (verify buffer bytes seed phase) (fun _ => I) I :=
  triple_verify fun _ _ => hI.call rfl

theorem indifferent_clear (buffer : Buffer) {E : Process → List SHEvent → Prop} :
    Proc.Triple Tidy I (clear buffer) (fun _ => I) E :=
  triple_keeps (hI.call rfl)

theorem indifferent_aioOperation (fd : ℕ) (buffer : Buffer) (write : Bool) :
    Proc.Triple Tidy I (aioOperation fd buffer cfg.bytes write) (fun _ => I) I := by
  apply triple_aioOperation
  · exact fun ctx => hI.call rfl
  · exact fun ctx => hI.call rfl
  · exact fun ctx name => hI.cleanup rfl
  · intro p t ctx h
    exact hI.ctx p t ctx h

theorem indifferent_aioTransfers (fd : ℕ) (seed : UInt64) :
    Proc.Triple Tidy I (aioTransfers cfg rank fd seed) (fun _ => I) I := by
  unfold aioTransfers
  refine (triple_keeps_check (hI.call rfl)).bind fun setup => ?_
  refine Proc.Triple.bind (Q := fun _ => I) ?_ fun _ => ?_
  · exact Proc.triple_modify fun p t h => hI.ctx p t _ h
  refine (indifferent_aioOperation hI cfg fd _ _).bind fun _ => ?_
  refine (indifferent_clear hI _).bind fun _ => ?_
  refine (indifferent_aioOperation hI cfg fd _ _).bind fun _ => ?_
  refine (indifferent_verify hI _ _ _ _).bind fun _ => ?_
  refine (triple_keeps_check (hI.call rfl)).bind fun _ => ?_
  refine (indifferent_aioOperation hI cfg fd _ _).bind fun _ => ?_
  refine (indifferent_clear hI _).bind fun _ => ?_
  refine (indifferent_aioOperation hI cfg fd _ _).bind fun _ => ?_
  exact indifferent_verify hI _ _ _ _

theorem indifferent_bufferedAio (seed : UInt64) :
    Proc.Triple Tidy I (bufferedAio cfg rank seed) (fun _ => I) I := by
  have hctx : ∀ ctx, Proc.Triple Tidy I
      (Proc.modify fun p => { p with ctx := ctx } : SH PUnit) (fun _ => I) I :=
    fun ctx => Proc.triple_modify fun p t h => hI.ctx p t ctx h
  have hget : Proc.Triple Tidy I (Proc.get : SH Process) (fun _ => I) I :=
    Proc.triple_get fun _ _ h => h
  have hclean : ∀ {op name} {E : Process → List SHEvent → Prop}, isQuiet op = true →
      Proc.Triple Tidy I (cleanup op name) (fun _ => I) E :=
    fun hop => triple_keeps_cleanup (hI.cleanup hop)
  unfold bufferedAio
  refine (indifferent_fill hI _ _ _).bind fun _ => ?_
  refine (triple_keeps (hI.call rfl)).bind fun opened => ?_
  refine Proc.Triple.bind (Q := fun _ => I)
    (Proc.triple_onlyIf (fun _ => triple_keeps_fail) fun _ _ _ h => h) fun _ => ?_
  refine (triple_keeps (hI.call rfl)).bind fun unlinked => ?_
  refine Proc.Triple.bind (Q := fun _ => I)
    (Proc.triple_onlyIf (fun _ => (triple_keeps (hI.call rfl)).bind fun _ => triple_keeps_fail)
      fun _ _ _ h => h) fun _ => ?_
  refine (hctx 0).bind fun _ => ?_
  refine Proc.Triple.bind (Q := fun _ => I) ?_ fun _ => ?_
  · refine (indifferent_aioTransfers hI cfg rank _ seed).tryCatch fun error => ?_
    refine hget.bind fun p => ?_
    refine Proc.Triple.bind (Q := fun _ => I)
      (Proc.triple_onlyIf (fun _ => hclean rfl) fun _ _ _ h => h) fun _ => ?_
    exact (hclean rfl).bind fun _ => Proc.triple_throw fun _ _ h => h
  refine hget.bind fun p => ?_
  exact (hclean rfl).bind fun _ => hclean rfl

theorem indifferent_testOwn :
    Proc.Triple Tidy I (testOwn cfg rank) (fun _ => I) I := by
  unfold testOwn
  refine (indifferent_fill hI _ _ _).bind fun _ => ?_
  exact (indifferent_verify hI _ _ _ _).bind fun _ => indifferent_bufferedAio hI cfg rank _

theorem indifferent_copy (dst src : Buffer) (round : ℕ) (purpose : String) :
    Proc.Triple Tidy I (copy dst src round purpose) (fun _ => I) I := by
  unfold copy
  refine (triple_keeps_check (hI.call rfl)).bind fun _ => ?_
  exact (triple_keeps_check (hI.call rfl)).bind fun _ => Proc.triple_pure fun _ _ h => h

theorem indifferent_readRound (round : ℕ) :
    Proc.Triple Tidy I (readRound cfg rank round) (fun _ => I) I := by
  unfold readRound
  refine (indifferent_fill hI _ _ _).bind fun _ => ?_
  refine (indifferent_verify hI _ _ _ _).bind fun _ => ?_
  refine (indifferent_barrier hI).bind fun _ => ?_
  refine Proc.Triple.bind (Q := fun _ => I) ?_ fun _ => ?_
  · apply Proc.triple_forM
    intro owner _
    unfold readBlock
    refine (triple_keeps_check (hI.call rfl)).bind fun _ => ?_
    refine (indifferent_copy hI _ _ _ _).bind fun _ => ?_
    refine (indifferent_clear hI _).bind fun _ => ?_
    refine (indifferent_copy hI _ _ _ _).bind fun _ => ?_
    exact indifferent_verify hI _ _ _ _
  exact (indifferent_verify hI _ _ _ _).bind fun _ => indifferent_barrier hI

end Pieces

/-! ## The acquisitions -/

section Acquisitions

variable {cfg : Config} {rank : ℕ} {F F' : Process → Prop}

/-- What holds before the first unmap, with what else is known of the variables. -/
def Before (cfg : Config) (F : Process → Prop) (p : Process) (t : List SHEvent) : Prop :=
  Ends cfg p t ∧ (∀ i, ¬Unmapped i t) ∧ F p

theorem Before.stuck {p : Process} {t : List SHEvent} (h : Before cfg F p t) (i : ℕ) :
    Stuck i t :=
  fun e he hunmaps => absurd ⟨e, he, hunmaps⟩ (h.2.1 i)

theorem keeps_before {c : Share.Call}
    (hc : isQuietCall c = true) : Keeps Tidy (Before cfg F) c := by
  refine ⟨fun p t _ => tidy_quietCall hc p t, fun p t r h => ?_⟩
  obtain ⟨hends, hunmapped, hF⟩ := h
  refine ⟨Accounted.quiet hends (quiet_call hc p r).1 (quiet_call hc p r).2, fun i => ?_, hF⟩
  rw [unmapped_concat, not_or]
  exact ⟨hunmapped i, (quiet_call hc p r).1.unmaps i⟩

theorem triple_before_check {op : Share.Op} {name : String} (hop : isQuiet op = true) :
    Proc.Triple Tidy (Before cfg F) (check op name) (fun _ => Before cfg F)
      (Ends cfg) :=
  (triple_keeps_check (keeps_before hop)).weaken (fun _ _ h => h) (fun _ _ _ h => h)
    fun _ _ h => h.1

theorem triple_before_test {c : Prop} [Decidable c] {what : String}
    (hF : ¬c → ∀ p, F p → F' p) (hc : ∀ p t, Before cfg F p t → Ends cfg p t) :
    Proc.Triple Tidy (Before cfg F) (Proc.onlyIf c (fail what)) (fun _ => Before cfg F')
      (Ends cfg) :=
  Proc.triple_onlyIf (fun _ => triple_fail hc)
    fun hnot p _ h => ⟨h.1, h.2.1, hF hnot p h.2.2⟩

/-- A check has acquired something and left it in a variable. -/
theorem Before.acquire {p p' : Process} {t : List SHEvent} {op : Share.Op} {name : String}
    {r : Answer}
    (h : Before cfg F p t)
    (hops : (∀ i, ¬mapsSlice i (.check op name) r) ∧ ∀ i, ¬unmapsSlice i (.check op name))
    (hsame : p'.mapped = p.mapped ∧ p'.cleanupFailed = p.cleanupFailed ∧ p'.result = p.result)
    (hva : p.va ≠ 0 → p'.va ≠ 0) (hhandles : ∀ i, cfg.count ≤ i → p'.handles i = 0)
    (htracks : accounts.Tracks (shared p') (t ++ [⟨p, .check op name, r⟩])) (hF' : F' p') :
    Before cfg F' p' (t ++ [⟨p, .check op name, r⟩]) := by
  obtain ⟨hends, hunmapped, -⟩ := h
  obtain ⟨hmapped, hfailed, hresult⟩ := hsame
  refine ⟨?_, fun i => ?_, hF'⟩
  · exact Accounted.concat hends htracks hops.1 (fun i _ => hops.2 i)
      (by simp [hfailed, cleanupFails]) hmapped hva hhandles (hresult.trans hends.result)
  · rw [unmapped_concat, not_or]
    exact ⟨hunmapped i, hops.2 i⟩

/-- The rule for such a check. -/
theorem triple_acquire {α : Type} {op : Share.Op} {name : String} {f : Answer → Process → Process}
    {k : Answer → SH α} {G : Answer → Process → Prop} {Q : α → Process → List SHEvent → Prop}
    (hops : (∀ i r, ¬mapsSlice i (.check op name) r) ∧ ∀ i, ¬unmapsSlice i (.check op name))
    (hsame : ∀ r p, (f r p).mapped = p.mapped ∧ (f r p).cleanupFailed = p.cleanupFailed ∧
      (f r p).result = p.result)
    (hvars : ∀ (r : Answer) p, F p → (∀ i, cfg.count ≤ i → p.handles i = 0) →
      (p.va ≠ 0 → (f r p).va ≠ 0) ∧ (∀ i, cfg.count ≤ i → (f r p).handles i = 0) ∧ G r (f r p))
    (htracks : ∀ (r : Answer) p t, F p → r.ret = 0 → accounts.Tracks (shared p) t →
      accounts.Tracks (shared (f r p)) (t ++ [⟨p, .check op name, r⟩]))
    (hk : ∀ r, Proc.Triple Tidy (Before cfg (G r)) (k r) Q (Ends cfg)) :
    Proc.Triple Tidy (Before cfg F)
      (check op name >>= fun r => Proc.modify (f r) >>= fun _ => k r) Q (Ends cfg) := by
  refine triple_check_modify (Q := fun r => Before cfg (G r)) ?_ ?_ ?_ hk
  · exact fun p t _ => tidy_of_none rfl hops.2 t
  · intro p t r h hret
    obtain ⟨hva, hhandles, hF'⟩ := hvars r p h.2.2 h.1.handles
    exact h.acquire ⟨fun i => hops.1 i r, hops.2⟩ (hsame r p) hva hhandles
      (htracks r p t h.2.2 hret h.1.tracks) hF'
  · exact fun p t r h hret => h.1.check_fails hret

/-- Nothing has been reserved. -/
def Unreserved (p : Process) : Prop := p.va = 0 ∧ ∀ i, p.handles i = 0

/-- There is a reservation, the slices below `m` are mapped, and the handles of those from `k`
on are still missing. -/
def Importing (rank m k : ℕ) (p : Process) : Prop :=
  p.va ≠ 0 ∧ (∀ i < m, p.mapped i = true) ∧ ∀ i, k ≤ i → i ≠ rank → p.handles i = 0

theorem triple_setUpDevice :
    Proc.Triple Tidy (Before cfg fun p => p.aclInit = false ∧ p.deviceSet = false ∧ Unreserved p)
      (setUpDevice cfg rank) (fun _ => Before cfg Unreserved) (Ends cfg) := by
  unfold setUpDevice
  refine (triple_before_check rfl).bind fun _ => ?_
  refine triple_acquire (G := fun _ p => p.deviceSet = false ∧ Unreserved p)
    ⟨fun _ _ h => h, fun _ h => h⟩ (fun _ _ => ⟨rfl, rfl, rfl⟩) ?_ ?_ fun _ => ?_
  · exact fun r p hF hhandles => ⟨id, hhandles, hF.2⟩
  · rintro r p t ⟨hacl, -⟩ hret htracks
    have hacquires : accounts.acquires ⟨p, .check .aclInit "aclInit", r⟩ = {.acl} := if_pos hret
    refine (htracks.acquire hacquires rfl (by simp [hacl])).congr fun x => ?_
    cases x <;> simp
  refine triple_acquire (G := fun _ => Unreserved)
    ⟨fun _ _ h => h, fun _ h => h⟩ (fun _ _ => ⟨rfl, rfl, rfl⟩) ?_ ?_ fun _ => ?_
  · exact fun r p hF hhandles => ⟨id, hhandles, hF.2⟩
  · rintro r p t ⟨hdevice, -⟩ hret htracks
    have hacquires : accounts.acquires
        ⟨p, .check (.aclrtSetDevice (cfg.devices rank)) "aclrtSetDevice", r⟩ = {.device} :=
      if_pos hret
    refine (htracks.acquire hacquires rfl (by simp [hdevice])).congr fun x => ?_
    cases x <;> simp
  refine (triple_before_check rfl).bind fun current => ?_
  refine Proc.Triple.bind (Q := fun _ => Before cfg Unreserved)
    (triple_before_test (fun _ _ h => h) fun _ _ h => h.1) fun _ => ?_
  refine (triple_before_check rfl).bind fun device => ?_
  exact triple_before_test (fun _ _ h => h) fun _ _ h => h.1

theorem triple_exportOwn (hrank : rank < cfg.count) :
    Proc.Triple Tidy (Before cfg Unreserved) (exportOwn cfg rank)
      (fun _ => Before cfg (Importing rank 0 0)) (Ends cfg) := by
  unfold exportOwn
  refine triple_acquire (G := fun r p => p.va = r.out ∧ ∀ i, p.handles i = 0)
    ⟨fun _ _ h => h, fun _ h => h⟩ (fun _ _ => ⟨rfl, rfl, rfl⟩) ?_ ?_ fun base => ?_
  · exact fun r p hF hhandles => ⟨fun hva => absurd hF.1 hva, hhandles, rfl, hF.2⟩
  · rintro r p t ⟨hva, -⟩ hret htracks
    refine (tracks_ofPtr htracks (f := .base) rfl rfl hret ?_).congr fun x => ?_
    · simp [hva, eq_comm]
    · cases x <;> simp [hva]
      grind
  refine Proc.Triple.bind (Q := fun _ => Before cfg fun p => p.va ≠ 0 ∧ ∀ i, p.handles i = 0)
    (triple_before_test ?_ fun _ _ h => h.1) fun _ => ?_
  · intro hbase p hF
    exact ⟨fun hva => hbase (Or.inl (hF.1.symm.trans hva)), hF.2⟩
  refine triple_acquire (G := fun _ => Importing rank 0 0)
    ⟨fun _ _ h => h, fun _ h => h⟩ (fun _ _ => ⟨rfl, rfl, rfl⟩) ?_ ?_ fun created => ?_
  · intro r p hF hhandles
    have hother : ∀ i, i ≠ rank → Function.update p.handles rank r.out i = 0 := by
      intro i hi
      rw [Function.update_of_ne hi, hF.2]
    exact ⟨id, fun i hi => hother i (by omega), hF.1, fun i hi => absurd hi (by omega),
      fun i _ hi => hother i hi⟩
  · rintro r p t ⟨-, hhandles⟩ hret htracks
    exact tracks_handle htracks (hhandles rank) rfl rfl hret
  refine Proc.Triple.bind (Q := fun _ => Before cfg (Importing rank 0 0))
    (triple_keeps (keeps_before rfl)) fun query => ?_
  refine Proc.Triple.bind (Q := fun _ => Before cfg (Importing rank 0 0)) ?_ fun _ => ?_
  · apply Proc.triple_onlyIf
    · intro _
      refine (triple_before_check rfl).bind fun actual => ?_
      exact triple_before_test (fun _ _ h => h) fun _ _ h => h.1
    · exact fun _ _ _ h => h
  refine (triple_before_check rfl).bind fun token => ?_
  refine (triple_before_check rfl).bind fun _ => ?_
  exact (Share.triple_sendWord (keeps_before rfl)).weaken (fun _ _ h => h) (fun _ _ _ h => h)
    fun _ _ h => h.1

theorem triple_importSlice {owner : ℕ} (howner : owner < cfg.count) :
    Proc.Triple Tidy (Before cfg (Importing rank owner owner)) (importSlice rank owner)
      (fun _ => Before cfg (Importing rank (owner + 1) (owner + 1))) (Ends cfg) := by
  unfold importSlice
  refine Proc.Triple.bind (Q := fun _ => Before cfg (Importing rank owner owner))
    ((Share.triple_receiveWord (keeps_before rfl)).weaken (fun _ _ h => h) (fun _ _ _ h => h)
      fun _ _ h => h.1) fun token => ?_
  -- the own handle is not imported
  refine Proc.Triple.bind (Q :=
    fun _ => Before cfg (Importing rank owner (owner + 1))) ?_ fun _ => ?_
  · apply Proc.triple_onlyIf
    · intro hne
      apply triple_check_set
      · exact fun p t _ => tidy_check (by simp) p t
      · rintro p t r ⟨hends, hunmapped, hva, hmapped, hmissing⟩ hret
        have hother : ∀ i, i ≠ owner → Function.update p.handles owner r.out i = p.handles i :=
          fun i hi => Function.update_of_ne hi _ _
        refine Before.acquire (F := fun _ => True) ⟨hends, hunmapped, trivial⟩
          ⟨fun _ h => h, fun _ h => h⟩ ⟨rfl, rfl, rfl⟩ id ?_ ?_ ?_
        · intro i hi
          exact (hother i (by omega)).trans (hends.handles i hi)
        · exact tracks_handle hends.tracks (hmissing owner le_rfl hne) rfl rfl hret
        · refine ⟨hva, hmapped, fun i hi hir => ?_⟩
          exact (hother i (by omega)).trans (hmissing i (by omega) hir)
      · exact fun p t r h hret => h.1.check_fails hret
    · rintro _ p t ⟨hends, hunmapped, hva, hmapped, hmissing⟩
      exact ⟨hends, hunmapped, hva, hmapped, fun i hi => hmissing i (by omega)⟩
  apply Proc.triple_get_bind
  intro p₀
  -- the slice is mapped from the handle of its owner
  apply triple_check_set
  · exact fun p t _ => tidy_check (by simp) p t
  · rintro p t r ⟨rfl, h⟩ hret
    obtain ⟨hva, hmapped, hmissing⟩ := h.2.2
    refine ⟨Accounted.map h.1 hret hva (h.stuck owner), fun i => ?_, hva, fun i hi => ?_, hmissing⟩
    · rw [unmapped_concat, not_or]
      exact ⟨h.2.1 i, fun h => h⟩
    · change Function.update p.mapped owner true i = true
      by_cases hio : i = owner
      · rw [hio, Function.update_self]
      · rw [Function.update_of_ne hio]
        exact hmapped i (by omega)
  · rintro p t r ⟨rfl, h⟩ hret
    exact h.1.check_fails hret

end Acquisitions

/-! ## The releases -/

section Releases

variable {cfg : Config} {result done : ℕ}

/-- What the variables record of the stages from `n` on. -/
def recorded (n : ℕ) (p : Process) : Set Holding := {x ∈ shared p ∪ inScope p | n ≤ x.stage}

theorem mem_recorded {n : ℕ} {p : Process} {x : Holding} :
    x ∈ recorded n p ↔ x ∈ shared p ∪ inScope p ∧ n ≤ x.stage := Iff.rfl

theorem mem_recorded_two {p : Process} {x : Holding} : x ∈ recorded 2 p ↔ x ∈ shared p := by
  cases x <;> simp [mem_recorded, Holding.stage]

/-- What they record of one stage, for the stages of which they record one thing. -/
theorem mem_stage_iff {p : Process} {y : Holding} :
    (y ∈ shared p ∪ inScope p ∧ y.stage = 0 ↔ p.stream ≠ 0 ∧ y = .stream p.stream) ∧
    (y ∈ shared p ∪ inScope p ∧ y.stage = 1 ↔ p.device ≠ 0 ∧ y = .hbm p.device) ∧
    (y ∈ shared p ∪ inScope p ∧ y.stage = 3 ↔ p.va ≠ 0 ∧ y = .base p.va) ∧
    (y ∈ shared p ∪ inScope p ∧ y.stage = 4 ↔ p.deviceSet = true ∧ y = .device) ∧
    (y ∈ shared p ∪ inScope p ∧ y.stage = 5 ↔ p.aclInit = true ∧ y = .acl) := by
  cases y with
  | stream x => simp only [Holding.stage, Set.mem_union, stream_notMem_shared,
      stream_mem_inScope]; grind
  | hbm x => simp only [Holding.stage, Set.mem_union, hbm_notMem_shared, hbm_mem_inScope]; grind
  | base x => simp only [Holding.stage, Set.mem_union, base_mem_shared, base_notMem_inScope]; grind
  | handle owner x => simp [Holding.stage]
  | device => simp [Holding.stage]
  | acl => simp [Holding.stage]

/-- The variables are those of `p₀` but for a failure noted. -/
def SameAs (p₀ p : Process) : Prop := ∃ f, p = { p₀ with cleanupFailed := f }

/-- What a cleanup releases is in the variables. -/
theorem releases_sameAs {p₀ p : Process} (h : SameAs p₀ p) (c : Share.Call) :
    releases p c = releases p₀ c := by
  obtain ⟨f, rfl⟩ := h
  rfl

/-- A release under a condition: what is recorded of the stage is `x` if the condition holds,
and else nothing. -/
theorem triple_release {F : Process → Prop} {p₀ : Process} {n : ℕ} {op : Share.Op} {name : String}
    {c : Prop} [Decidable c] {x : Holding} (hstage : n ≠ 2)
    (hF : ∀ p f, F p → F { p with cleanupFailed := f })
    (hreleases : releases p₀ (.cleanup op name) = {x})
    (hunmaps : ∀ i, ¬unmapsSlice i (.cleanup op name))
    (hx : ∀ y, y ∈ shared p₀ ∪ inScope p₀ ∧ y.stage = n ↔ c ∧ y = x)
    {E : Process → List SHEvent → Prop} :
    Proc.Triple Tidy (Agrees cfg result done (fun p => SameAs p₀ p ∧ F p) (recorded n))
      (Proc.onlyIf c (cleanup op name))
      (fun _ => Agrees cfg result done (fun p => SameAs p₀ p ∧ F p) (recorded (n + 1))) E := by
  -- what is recorded of the later stages is all but `x`
  have hnext : ∀ p, SameAs p₀ p → ∀ y,
      y ∈ recorded (n + 1) p ↔ y ∈ recorded n p ∧ ¬(c ∧ y = x) := by
    rintro p ⟨f, rfl⟩ y
    rw [← hx, mem_recorded, mem_recorded]
    change y ∈ shared p₀ ∪ inScope p₀ ∧ n + 1 ≤ y.stage ↔
      (y ∈ shared p₀ ∪ inScope p₀ ∧ n ≤ y.stage) ∧ ¬(y ∈ shared p₀ ∪ inScope p₀ ∧ y.stage = n)
    constructor
    · rintro ⟨hy, hle⟩
      exact ⟨⟨hy, by omega⟩, fun h => by omega⟩
    · rintro ⟨⟨hy, hle⟩, hnot⟩
      have hne : y.stage ≠ n := fun h => hnot ⟨hy, h⟩
      exact ⟨hy, by omega⟩
  apply Proc.triple_onlyIf
  · intro hc
    obtain ⟨hmem, hxn⟩ := (hx x).mpr ⟨hc, rfl⟩
    -- a failed release has released it too
    have hafter : ∀ p t (r : Answer), SameAs p₀ p → Accounted cfg result done (recorded n p) p t →
        Accounted cfg result done (recorded (n + 1) p)
          (if r.ret = 0 then p else { p with cleanupFailed := true })
          (t ++ [⟨p, .cleanup op name, r⟩]) := by
      intro p t r hsame h
      refine h.release ((releases_sameAs hsame _).trans hreleases) (fun y => ?_) hunmaps r
      rw [hnext p hsame]
      simp [hc]
    apply triple_cleanup
    · rintro p t ⟨h, hsame, -⟩
      refine h.tidy_release ((releases_sameAs hsame _).trans hreleases) ?_ ?_ hunmaps ?_
      · obtain ⟨f, rfl⟩ := hsame
        exact ⟨hmem, hxn.ge⟩
      · intro y hy
        exact hxn.le.trans hy.2
      · intro owner handle he
        rw [he] at hxn
        exact absurd hxn.symm hstage
    · rintro p t r ⟨h, hknown⟩ hret
      have h' := hafter p t r hknown.1 h
      rw [if_pos hret] at h'
      exact ⟨h', hknown⟩
    · rintro p t r ⟨h, hknown⟩ hret
      have h' := hafter p t r hknown.1 h
      rw [if_neg hret] at h'
      obtain ⟨⟨f, rfl⟩, hFp⟩ := hknown
      exact ⟨h', ⟨true, rfl⟩, hF _ true hFp⟩
  · rintro hc p t ⟨h, hknown⟩
    refine ⟨h.congr fun y => ?_, hknown⟩
    rw [hnext p hknown.1]
    simp [hc]

theorem triple_destroyAcl {F : Process → Prop}
    (hF : ∀ p f, F p → F { p with cleanupFailed := f }) {E : Process → List SHEvent → Prop} :
    Proc.Triple Tidy (Agrees cfg result done F (recorded 0)) destroyAcl
      (fun _ => Agrees cfg result done F shared) E := by
  unfold destroyAcl
  apply Proc.triple_get_bind
  intro p₀
  have hknown : ∀ p f, SameAs p₀ p ∧ F p →
      SameAs p₀ { p with cleanupFailed := f } ∧ F { p with cleanupFailed := f } := by
    rintro p f ⟨⟨g, rfl⟩, hFp⟩
    exact ⟨⟨f, rfl⟩, hF _ f hFp⟩
  have hclean : ∀ {c : Prop} [Decidable c] {op name}, isQuiet op = true →
      Proc.Triple Tidy (Agrees cfg result done (fun p => SameAs p₀ p ∧ F p) (recorded 0))
        (Proc.onlyIf c (cleanup op name))
        (fun _ => Agrees cfg result done (fun p => SameAs p₀ p ∧ F p) (recorded 0)) E := by
    intro c _ op name hop
    apply Proc.triple_onlyIf
    · intro _
      exact triple_keeps_cleanup (keepsCleanup_agrees (fun _ _ => rfl) hknown hop name)
    · exact fun _ _ _ h => h
  refine Proc.Triple.weaken (P := Agrees cfg result done (fun p => SameAs p₀ p ∧ F p) (recorded 0))
    ?_ ?_ (fun _ _ _ h => h) fun _ _ h => h
  · refine (hclean rfl).bind fun _ => (hclean rfl).bind fun _ => ?_
    refine (triple_release (x := .stream p₀.stream) (by omega) hF rfl
      (by exact fun _ h => h) fun y => mem_stage_iff.1).bind fun _ => ?_
    refine (triple_release (x := .hbm p₀.device) (by omega) hF rfl
      (by exact fun _ h => h) fun y => mem_stage_iff.2.1).weaken (fun _ _ h => h) ?_ fun _ _ h => h
    rintro _ p t ⟨h, -, hFp⟩
    exact ⟨h.congr fun y => mem_recorded_two, hFp⟩
  · rintro p t ⟨rfl, h, hFp⟩
    exact ⟨h, ⟨p.cleanupFailed, rfl⟩, hFp⟩

end Releases

/-! ## The `try` block -/

section Body

variable {cfg : Config} {rank : ℕ}

/-- The slices from `k` on are mapped. -/
def AllMapped (cfg : Config) (k : ℕ) (p : Process) : Prop :=
  ∀ i, k ≤ i → i < cfg.count → p.mapped i = true

theorem steady_shared (k : ℕ) : Steady (AllMapped cfg k) shared :=
  ⟨fun _ _ _ => rfl, fun _ _ _ h => h⟩

theorem two_le_stage {p : Process} {x : Holding} (h : x ∈ shared p) : 2 ≤ x.stage :=
  (mem_recorded_two.mpr h).2

/-- Without a buffer and a stream, `AclResources` adds nothing. -/
theorem recorded_enter {p : Process} {x : Holding} :
    x ∈ shared p ↔ x ∈ recorded 0 { p with device := 0, stream := 0, event := 0 } := by
  cases x <;> simp [mem_recorded] <;> exact Eq.symm

theorem triple_readRounds :
    Proc.Triple Tidy (Agrees cfg 0 0 (AllMapped cfg 0) shared) (readRounds cfg rank)
      (fun _ => Agrees cfg 0 0 (AllMapped cfg 0) shared) (Ends cfg) := by
  have hI : Indifferent (Agrees cfg 0 0 (AllMapped cfg 0) (recorded 0)) :=
    indifferent_agrees ⟨fun _ _ _ => rfl, fun _ _ _ h => h⟩
  unfold readRounds withAcl
  -- `AclResources` starts out empty
  refine Proc.Triple.bind (Q := fun _ => Agrees cfg 0 0
    (fun p => p.device = 0 ∧ p.stream = 0 ∧ AllMapped cfg 0 p) (recorded 0)) ?_ fun _ => ?_
  · apply Proc.triple_modify
    rintro p t ⟨h, hmapped⟩
    have henter := h.congr fun x => recorded_enter (p := p) (x := x)
    exact ⟨⟨henter.tracks, h.failed, h.slices, h.base, h.handles, h.result⟩, rfl, rfl, hmapped⟩
  refine Proc.Triple.bind (Q := fun _ => Agrees cfg 0 0 (AllMapped cfg 0) (recorded 0)) ?_
    fun _ => (triple_destroyAcl fun _ _ h => h).bind fun _ => Proc.triple_pure fun _ _ h => h
  -- an exception leaves through the destructor, as the end of the rounds does
  refine Proc.Triple.tryCatch (E := Agrees cfg 0 0 (fun _ => True) (recorded 0)) ?_ fun error => ?_
  · refine triple_check_modify (Q := fun _ => Agrees cfg 0 0
      (fun p => p.stream = 0 ∧ AllMapped cfg 0 p) (recorded 0)) ?_ ?_ ?_ fun device => ?_
    · exact fun p t _ => tidy_check (by simp) p t
    · rintro p t r ⟨h, hdevice, hknown⟩ hret
      refine ⟨h.concat ?_ (fun _ h => h) (fun _ _ h => h) (by simp [cleanupFails]) rfl id h.handles
        h.result, hknown⟩
      refine (tracks_ofPtr h.tracks (f := .hbm) rfl rfl hret ?_).congr fun x => ?_
      · simp [mem_recorded, hdevice, eq_comm]
      · cases x <;> simp [mem_recorded, hdevice]
        grind
    · exact fun p t r h hret => ⟨h.1.check_fails hret, trivial⟩
    have hI' : Indifferent (Agrees cfg 0 0 (fun p => p.stream = 0 ∧ AllMapped cfg 0 p)
        (recorded 0)) := indifferent_agrees ⟨fun _ _ _ => rfl, fun _ _ _ h => h⟩
    refine Proc.Triple.bind ((triple_keeps_check (hI'.call rfl)).weaken (fun _ _ h => h)
      (fun _ _ _ h => h) fun _ _ h => ⟨h.1, trivial⟩) fun attr => ?_
    refine Proc.Triple.bind (Q := fun _ => Agrees cfg 0 0
      (fun p => p.stream = 0 ∧ AllMapped cfg 0 p) (recorded 0)) ?_ fun _ => ?_
    · exact Proc.triple_onlyIf (fun _ => triple_fail fun _ _ h => ⟨h.1, trivial⟩) fun _ _ _ h => h
    refine triple_check_modify (Q := fun _ => Agrees cfg 0 0 (AllMapped cfg 0) (recorded 0))
      ?_ ?_ ?_ fun stream => ?_
    · exact fun p t _ => tidy_check (by simp) p t
    · rintro p t r ⟨h, hstream, hmapped⟩ hret
      refine ⟨h.concat ?_ (fun _ h => h) (fun _ _ h => h) (by simp [cleanupFails]) rfl id h.handles
        h.result, hmapped⟩
      refine (tracks_ofPtr h.tracks (f := .stream) rfl rfl hret ?_).congr fun x => ?_
      · simp [mem_recorded, hstream, eq_comm]
      · cases x <;> simp [mem_recorded, hstream]
        grind
    · exact fun p t r h hret => ⟨h.1.check_fails hret, trivial⟩
    refine Proc.Triple.weaken (Proc.triple_forM fun round _ =>
      indifferent_readRound hI cfg rank round)
      (fun _ _ h => h) (fun _ _ _ h => h) fun _ _ h => ⟨h.1, trivial⟩
  · exact (triple_destroyAcl fun _ _ h => h).bind fun _ => Proc.triple_throw fun _ _ h => h.1

theorem triple_unmapSlice {k : ℕ} (hk : k < cfg.count) :
    Proc.Triple Tidy (Agrees cfg 0 0 (AllMapped cfg k) shared) (unmapSlice k)
      (fun _ => Agrees cfg 0 0 (AllMapped cfg (k + 1)) shared) (Ends cfg) := by
  unfold unmapSlice
  apply triple_check_set
  · rintro p t ⟨h, hmapped⟩
    exact h.tidy_unmap (Nat.zero_le k) (hmapped k le_rfl hk) (fun hva => ⟨rfl, hva⟩)
      (fun _ hx => two_le_stage hx) (fun j hj => hj.symm) rfl
  · rintro p t r ⟨h, hmapped⟩ hret
    refine ⟨h.unmap hret, fun i hi hlt => ?_⟩
    have hne : i ≠ k := by omega
    change Function.update p.mapped k false i = true
    rw [Function.update_of_ne hne]
    exact hmapped i (by omega) hlt
  · exact fun p t r h hret => h.1.check_fails hret

theorem triple_workerBody (hrank : rank < cfg.count) :
    Proc.Triple Tidy (fun p t => p = {} ∧ t = []) (workerBody cfg rank) (fun _ => Ends cfg)
      (Ends cfg) := by
  have hI : Indifferent (Agrees cfg 0 0 (AllMapped cfg 0) shared) :=
    indifferent_agrees (steady_shared 0)
  have hmiddle : ∀ {m : SH PUnit}, Proc.Triple Tidy (Agrees cfg 0 0 (AllMapped cfg 0) shared) m
      (fun _ => Agrees cfg 0 0 (AllMapped cfg 0) shared) (Agrees cfg 0 0 (AllMapped cfg 0) shared) →
      Proc.Triple Tidy (Agrees cfg 0 0 (AllMapped cfg 0) shared) m
        (fun _ => Agrees cfg 0 0 (AllMapped cfg 0) shared) (Ends cfg) :=
    fun h => h.weaken (fun _ _ h => h) (fun _ _ _ h => h) fun _ _ h => h.1
  unfold workerBody
  refine Proc.Triple.bind (triple_setUpDevice.weaken ?_ (fun _ _ _ h => h) fun _ _ h => h)
    fun _ => ?_
  · rintro p t ⟨rfl, rfl⟩
    refine ⟨⟨?_, ?_, ?_, ?_, ?_, rfl⟩, ?_, rfl, rfl, rfl, fun _ => rfl⟩
    · refine Ledger.Accounts.Tracks.nil.congr fun x => ?_
      cases x <;> simp [eq_comm]
    · simp [CleanupFailed]
    · simp [Mapped]
    · simp
    · exact fun _ _ => rfl
    · simp [Unmapped]
  refine (triple_exportOwn hrank).bind fun _ => ?_
  refine Proc.Triple.bind (Proc.triple_forM_range (I := fun k => Before cfg (Importing rank k k))
    fun k hk => triple_importSlice hk) fun _ => ?_
  refine Proc.Triple.weaken (P := Agrees cfg 0 0 (AllMapped cfg 0) shared) ?_
    (fun _ _ h => ⟨h.1, fun i _ hi => h.2.2.2.1 i hi⟩) (fun _ _ _ h => h) fun _ _ h => h
  refine (hmiddle (indifferent_barrier hI)).bind fun _ => ?_
  refine (hmiddle (indifferent_testOwn hI cfg rank)).bind fun _ => ?_
  refine (hmiddle (indifferent_barrier hI)).bind fun _ => ?_
  refine triple_readRounds.bind fun _ => ?_
  refine (hmiddle (indifferent_barrier hI)).bind fun _ => ?_
  refine Proc.Triple.bind (Proc.triple_forM_range
    (I := fun k => Agrees cfg 0 0 (AllMapped cfg k) shared) fun k hk => triple_unmapSlice hk)
    fun _ => ?_
  exact (indifferent_barrier (indifferent_agrees (steady_shared cfg.count))).weaken
    (fun _ _ h => h) (fun _ _ _ h => h.1) fun _ _ h => h.1

end Body

/-! ## What follows it -/

section Teardown

variable {cfg : Config} {result rank : ℕ}

/-- The variables without the handles of the owners below `k`. -/
def handlesFrom (k : ℕ) (p : Process) : Set Holding :=
  {x ∈ shared p | ∀ owner handle, x = .handle owner handle → k ≤ owner}

theorem triple_cleanupSlice (i : ℕ) {E : Process → List SHEvent → Prop} :
    Proc.Triple Tidy (Agrees cfg result i (fun _ => True) (handlesFrom i)) (cleanupSlice i)
      (fun _ => Agrees cfg result (i + 1) (fun _ => True) (handlesFrom (i + 1))) E := by
  unfold cleanupSlice
  apply Proc.triple_get_bind
  intro p₀
  -- a slice that is still mapped is unmapped, whether that works or not
  refine Proc.Triple.bind (Q := fun _ p t => Accounted cfg result (i + 1) (handlesFrom i p) p t ∧
    SameAs p₀ p ∧ (Mapped i t → Unmapped i t)) ?_ fun _ => ?_
  · apply Proc.triple_onlyIf
    · intro hmapped
      have hafter : ∀ (r : Answer) t, Accounted cfg result i (handlesFrom i p₀) p₀ t →
          Accounted cfg result (i + 1) (handlesFrom i p₀)
            (if r.ret = 0 then p₀ else { p₀ with cleanupFailed := true })
            (t ++ [⟨p₀, .cleanup (.halMemUnmap i) "unmap on failure", r⟩]) := by
        intro r t h
        refine (h.mono (Nat.le_succ i)).cleanup (h.tracks.quiet rfl rfl) fun j hj hunmaps => ?_
        have hij : i = j := hunmaps
        omega
      apply triple_cleanup
      · rintro p t ⟨rfl, h, -⟩
        refine h.tidy_unmap le_rfl hmapped (fun hva => ⟨⟨rfl, hva⟩, by simp⟩)
          (fun x hx => two_le_stage hx.1) (fun j hj => hj.symm) rfl
      · rintro p t r ⟨rfl, h, -⟩ hret
        have h' := hafter r t h
        rw [if_pos hret] at h'
        exact ⟨h', ⟨p.cleanupFailed, rfl⟩, fun _ => ⟨_, List.mem_concat_self, rfl⟩⟩
      · rintro p t r ⟨rfl, h, -⟩ hret
        have h' := hafter r t h
        rw [if_neg hret] at h'
        exact ⟨h', ⟨true, rfl⟩, fun _ => ⟨_, List.mem_concat_self, rfl⟩⟩
    · rintro hnot p t ⟨rfl, h, -⟩
      refine ⟨h.mono (Nat.le_succ i), ⟨p.cleanupFailed, rfl⟩, fun hmap => ?_⟩
      by_contra hnone
      have hstuck : Stuck i t := fun e he hunmaps => absurd ⟨e, he, hunmaps⟩ hnone
      exact hnot ((h.slices i le_rfl).mpr ⟨hmap, hstuck⟩)
  -- the handle of this owner is all that separates the two sets
  have hnext : ∀ p, SameAs p₀ p → ∀ y, y ∈ handlesFrom (i + 1) p ↔
      y ∈ handlesFrom i p ∧ ¬(p₀.handles i ≠ 0 ∧ y = .handle i (p₀.handles i)) := by
    rintro p ⟨f, rfl⟩ y
    cases y with
    | handle owner handle =>
        simp [handlesFrom]
        grind
    | _ => simp [handlesFrom]
  apply Proc.triple_onlyIf
  · intro hhandle
    have hmem : ∀ p, SameAs p₀ p → Holding.handle i (p₀.handles i) ∈ handlesFrom i p := by
      rintro p ⟨f, rfl⟩
      exact ⟨⟨rfl, hhandle⟩, by simp +contextual⟩
    -- its release takes it from what is recorded
    have hafter : ∀ p t (r : Answer), SameAs p₀ p →
        Accounted cfg result (i + 1) (handlesFrom i p) p t →
          Accounted cfg result (i + 1) (handlesFrom (i + 1) p)
            (if r.ret = 0 then p else { p with cleanupFailed := true })
            (t ++ [⟨p, .cleanup (.halMemRelease i (p₀.handles i)) "release handle", r⟩]) := by
      intro p t r hsame h
      refine h.release rfl (fun y => ?_) (by exact fun _ h => h) r
      rw [hnext p hsame]
      simp [hhandle]
    apply triple_cleanup
    · rintro p t ⟨h, hsame, hunmapped⟩
      refine h.tidy_release rfl (hmem p hsame) (fun y hy => two_le_stage hy.1) (fun _ h => h) ?_
      intro owner handle he
      cases he
      exact hunmapped
    · rintro p t r ⟨h, hsame, -⟩ hret
      have h' := hafter p t r hsame h
      rw [if_pos hret] at h'
      exact ⟨h', trivial⟩
    · rintro p t r ⟨h, hsame, -⟩ hret
      have h' := hafter p t r hsame h
      rw [if_neg hret] at h'
      exact ⟨h', trivial⟩
  · rintro hhandle p t ⟨h, hsame, -⟩
    refine ⟨h.congr fun y => ?_, trivial⟩
    rw [hnext p hsame]
    simp [hhandle]

/-- What is left once the slices are done with. -/
theorem mem_handlesFrom_count {p : Process} (hhandles : ∀ i, cfg.count ≤ i → p.handles i = 0)
    (x : Holding) : x ∈ handlesFrom cfg.count p ↔ x ∈ recorded 3 p := by
  cases x with
  | handle owner handle =>
      simp only [handlesFrom, mem_recorded, Holding.stage]
      constructor
      · rintro ⟨⟨hhandle, hne⟩, howner⟩
        have hzero := hhandles owner (howner owner handle rfl)
        exact absurd (hhandle.symm.trans hzero) hne
      · rintro ⟨-, hle⟩
        omega
  | _ => simp [handlesFrom, mem_recorded, Holding.stage]

theorem triple_workerCleanup {E : Process → List SHEvent → Prop} :
    Proc.Triple Tidy (fun p t => Accounted cfg result 0 (shared p) p t) (workerCleanup cfg rank)
      (fun _ p t => Accounted cfg result cfg.count ∅ p t) E := by
  unfold workerCleanup
  refine Proc.Triple.bind (Q := fun _ => Agrees cfg result cfg.count (fun _ => True)
    (handlesFrom cfg.count)) ?_ fun _ => ?_
  · refine Proc.Triple.weaken (Proc.triple_forM_range (I := fun k => Agrees cfg result k
      (fun _ => True) (handlesFrom k)) fun k _ => triple_cleanupSlice k) ?_ (fun _ _ _ h => h)
      fun _ _ h => h
    rintro p t h
    exact ⟨h.congr fun x => by simp [handlesFrom], trivial⟩
  apply Proc.triple_get_bind
  intro p₀
  refine Proc.Triple.weaken (P := Agrees cfg result cfg.count (fun p => SameAs p₀ p ∧ True)
    (recorded 3)) ?_ ?_ (fun _ _ _ h => h) fun _ _ h => h
  · refine (triple_release (by omega) (fun _ _ h => h) rfl (by exact fun _ h => h)
      fun y => mem_stage_iff.2.2.1).bind fun _ => ?_
    refine (triple_release (by omega) (fun _ _ h => h) rfl (by exact fun _ h => h)
      fun y => mem_stage_iff.2.2.2.1).bind fun _ => ?_
    refine (triple_release (by omega) (fun _ _ h => h) rfl (by exact fun _ h => h)
      fun y => mem_stage_iff.2.2.2.2).bind fun _ => ?_
    refine Proc.Triple.bind (Q := fun _ p t => Accounted cfg result cfg.count ∅ p t) ?_
      fun _ => Proc.triple_pure fun _ _ h => h
    apply Proc.triple_ask
    · exact fun p t _ => tidy_quietCall rfl p t
    · intro p t r h
      refine (h.1.congr fun x => ?_).quiet (quiet_call rfl p r).1 (quiet_call rfl p r).2
      cases x <;> simp [mem_recorded, Holding.stage]
  · rintro p t ⟨rfl, h, -⟩
    exact ⟨h.congr (mem_handlesFrom_count h.handles), ⟨p.cleanupFailed, rfl⟩, trivial⟩

/-- What follows the `try` block with its handler. -/
def finish (cfg : Config) (rank : ℕ) : SH ℕ := do
  workerCleanup cfg rank
  let p ← Proc.get
  pure (if p.result ≠ 0 ∨ p.cleanupFailed = true then 1 else 0)

theorem triple_finish {E : Process → List SHEvent → Prop} :
    Proc.Triple Tidy (fun p t => Accounted cfg result 0 (shared p) p t) (finish cfg rank)
      (fun code p t => Accounted cfg result cfg.count ∅ p t ∧
        (code ≠ 0 ↔ result ≠ 0 ∨ CleanupFailed t)) E := by
  unfold finish
  refine triple_workerCleanup.bind fun _ => ?_
  apply Proc.triple_get_bind
  intro p₀
  apply Proc.triple_pure
  rintro p t ⟨rfl, h⟩
  refine ⟨h, ?_⟩
  rw [h.result, ← h.failed]
  simp [imp_iff_not_or]

end Teardown

/-! ## The worker -/

/-- The `try` block has thrown. -/
def BodyThrew (cfg : Config) (rank : ℕ) (t : List SHEvent) : Prop :=
  ∃ t₁ t₂ error p, t = t₁ ++ t₂ ∧ (workerBody cfg rank {}).Runs t₁ (.error error, p)

theorem worker_eq (cfg : Config) (rank : ℕ) : worker cfg rank =
    (Proc.tryCatch (workerBody cfg rank) fun _ => Proc.modify fun p => { p with result := 1 }) >>=
      fun _ => finish cfg rank := rfl

/-- A run of a worker: how its `try` block has ended, and what follows. -/
theorem worker_runs {cfg : Config} {rank : ℕ} {t : List SHEvent} {x : Except String ℕ} {p : Process}
    (h : (worker cfg rank {}).Runs t (x, p)) : ∃ y p₁ t₁ t₂, t = t₁ ++ t₂ ∧
      (workerBody cfg rank {}).Runs t₁ (y, p₁) ∧
      (finish cfg rank (if y.isOk = true then p₁ else { p₁ with result := 1 })).Runs t₂ (x, p) := by
  rw [worker_eq] at h
  obtain ⟨⟨y', p'⟩, t', t₂, rfl, htry, hrest⟩ := Prog.Runs.bind_cases h
  obtain ⟨⟨y, p₁⟩, t₁, t₃, rfl, hbody, hhandler⟩ := Prog.Runs.bind_cases htry
  refine ⟨y, p₁, t₁, t₂, ?_, hbody, ?_⟩
  · cases y with
    | ok a =>
        cases hhandler
        rw [List.append_nil]
    | error e =>
        cases hhandler
        rw [List.append_nil]
  · cases y with
    | ok a =>
        cases hhandler
        exact hrest
    | error e =>
        cases hhandler
        exact hrest

/-- What is known at the end of such a run. -/
theorem worker_ends {cfg : Config} {rank : ℕ} (hrank : rank < cfg.count) {t : List SHEvent}
    {x : Except String ℕ} {p : Process} (h : (worker cfg rank {}).Runs t (x, p)) :
    accounts.Tracks ∅ t ∧ ∃ code, x = .ok code ∧
      (code ≠ 0 ↔ BodyThrew cfg rank t ∨ CleanupFailed t) := by
  obtain ⟨y, p₁, t₁, t₂, rfl, hbody, hfinish⟩ := worker_runs h
  have hends : Ends cfg p₁ t₁ := by
    have hpost := Prog.Meets.post_of_runs (triple_workerBody hrank {} [] ⟨rfl, rfl⟩) hbody
    cases y <;> exact hpost
  have hthrew : BodyThrew cfg rank (t₁ ++ t₂) ↔ y.isOk = false := by
    constructor
    · rintro ⟨u₁, u₂, error, p', hu, hruns⟩
      obtain ⟨-, ha⟩ := hbody.unique hruns hu
      cases ha
      rfl
    · intro hy
      cases y with
      | ok a => cases hy
      | error e => exact ⟨t₁, t₂, e, p₁, rfl, hbody⟩
  have hstart : Accounted cfg (if y.isOk = true then 0 else 1) 0 (shared p₁)
      (if y.isOk = true then p₁ else { p₁ with result := 1 }) t₁ := by
    cases y with
    | ok a => exact hends
    | error e => exact ⟨hends.tracks, hends.failed, hends.slices, hends.base, hends.handles, rfl⟩
  have hsame : shared (if y.isOk = true then p₁ else { p₁ with result := 1 }) = shared p₁ := by
    cases y <;> rfl
  have hpost := Prog.Meets.post_of_runs (triple_finish (E := fun _ _ => False) _ t₁
    (hsame ▸ hstart)) hfinish
  cases x with
  | error e => exact hpost.elim
  | ok code =>
      refine ⟨hpost.1.tracks, code, rfl, ?_⟩
      rw [hpost.2, hthrew]
      cases y <;> simp [Except.isOk, Except.toBool]

/-- Every call of a worker is in place. -/
theorem triple_worker {cfg : Config} {rank : ℕ} (hrank : rank < cfg.count) :
    Proc.Triple Tidy (fun p t => p = {} ∧ t = []) (worker cfg rank) (fun _ _ _ => True)
      fun _ _ => True := by
  rw [worker_eq]
  refine Proc.Triple.bind (Q := fun _ p t => ∃ result, Accounted cfg result 0 (shared p) p t) ?_
    fun _ => ?_
  · refine Proc.Triple.tryCatch ((triple_workerBody hrank).weaken (fun _ _ h => h)
      (fun _ _ _ h => ⟨0, h⟩) fun _ _ h => h) fun error => ?_
    apply Proc.triple_modify
    intro p t h
    exact ⟨1, h.tracks, h.failed, h.slices, h.base, h.handles, rfl⟩
  · rintro p t ⟨result, h⟩
    exact ((triple_finish (E := fun _ _ => True)).weaken (fun _ _ h => h) (fun _ _ _ _ => trivial)
      fun _ _ _ => trivial) p t h

/-- **A worker cleans up from any failure.**  At every call what is released is held, and
nothing of an earlier stage is; a slice is unmapped after it has been mapped and unless an
unmap of it has succeeded.  At the end everything has been released once, and the code tells
whether something went wrong. -/
theorem cleans_up (cfg : Config) (rank : ℕ) (hrank : rank < cfg.count) :
    (∀ t, (worker cfg rank {}).Visits t →
      ∀ t₁ e t₂, t = t₁ ++ e :: t₂ → Tidy t₁ e.state e.call) ∧
    ∀ t x p, (worker cfg rank {}).Runs t (x, p) →
      accounts.held t = 0 ∧ accounts.acquired t = accounts.released t ∧
      ∃ code, x = .ok code ∧ (code ≠ 0 ↔ BodyThrew cfg rank t ∨ CleanupFailed t) := by
  have htidy : ∀ t, (worker cfg rank {}).Visits t →
      ∀ t₁ e t₂, t = t₁ ++ e :: t₂ → Tidy t₁ e.state e.call := by
    intro t hvisits t₁ e t₂ ht
    have hmeets := triple_worker hrank {} [] ⟨rfl, rfl⟩
    simpa using Prog.Meets.ok_of_visits hmeets hvisits t₁ e t₂ ht
  refine ⟨htidy, fun t x p hruns => ?_⟩
  obtain ⟨htracks, hcode⟩ := worker_ends hrank hruns
  have hheld : accounts.held t = 0 := htracks.held_eq_zero
  have hdisciplined : accounts.Disciplined t := fun t₁ e t₂ ht =>
    (htidy t hruns.visits t₁ e t₂ ht).held
  exact ⟨hheld, hdisciplined.acquired_eq_released hheld, hcode⟩

/-- Two workers with one block of 2 MiB each, and one round. -/
def twoSlices : Config where
  count := 2
  rounds := 1
  bytes := 2 ^ 21
  hostNumaSide := 2
  devices := id
  nodes := fun _ => 0

theorem cleans_up_twoSlices :
    (∀ t, (worker twoSlices 1 {}).Visits t →
      ∀ t₁ e t₂, t = t₁ ++ e :: t₂ → Tidy t₁ e.state e.call) ∧
    ∀ t x p, (worker twoSlices 1 {}).Runs t (x, p) →
      accounts.held t = 0 ∧ accounts.acquired t = accounts.released t ∧
      ∃ code, x = .ok code ∧ (code ≠ 0 ↔ BodyThrew twoSlices 1 t ∨ CleanupFailed t) :=
  cleans_up twoSlices 1 (by decide)

end SharingProbe.MultiShare
