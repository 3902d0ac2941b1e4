import SharingProbe.HalAio.Committed

/-!
# The iterations of a run

The fill loop, the dump, the renames and the load, one after the other, and `main`
around them.
-/

namespace SharingProbe.HalAio

open Interaction Evolution Storage

variable {opt : Options} {runDir : String} {w₀ : Disk}

/-! ## Procedures that work in the memory -/

/-- The calls that change the memory outside the fill loop, or nothing. -/
abbrev Call.Calm (c : Call) : Prop := c.inMemory = true ∧ c.fills = false

theorem only_sdk (c : SdkCall) : (sdk c).Only Call.Calm := by
  apply Proc.Only.bind (Proc.only_ask ⟨rfl, rfl⟩)
  intro reply
  split
  · exact Proc.only_throw _
  · exact Proc.only_pure _

theorem only_cleanup {α : Type} {m : HA α} (hm : m.Only Call.Calm) : (cleanup m).Only Call.Calm :=
  Proc.Only.tryCatch (hm.bind fun _ => Proc.only_pure _) fun _ => Proc.only_modify _

theorem only_release : release.Only Call.Calm := by
  apply Proc.only_get.bind
  intro p
  dsimp only
  split
  · exact (Proc.only_ask ⟨rfl, rfl⟩).bind fun _ => Proc.only_modify _
  · apply ((only_sdk _).bind fun _ => Proc.only_modify _).onlyIf.bind
    intro _
    apply ((only_sdk _).bind fun _ => Proc.only_modify _).onlyIf.bind
    intro _
    exact ((only_sdk _).bind fun _ => Proc.only_modify _).onlyIf

theorem only_destroyMemory : destroyMemory.Only Call.Calm := by
  apply (only_cleanup only_release).bind
  intro _
  apply Proc.only_get.bind
  intro p
  apply (only_cleanup (only_sdk _)).onlyIf.bind
  intro _
  exact (only_cleanup (only_sdk _)).onlyIf

theorem only_allocate (bytes : ℕ) (huge : Bool) : (allocate bytes huge).Only Call.Calm := by
  apply (only_sdk _).bind
  intro granularity
  apply (Proc.only_throw _).onlyIf.bind
  intro _
  apply (only_sdk _).bind
  intro addr
  apply (Proc.only_modify _).bind
  intro _
  apply (Proc.only_throw _).onlyIf.bind
  intro _
  apply (only_sdk _).bind
  intro handle
  apply (Proc.only_modify _).bind
  intro _
  apply (only_sdk _).bind
  exact fun _ => Proc.only_modify _

theorem only_acquireMemory (opt : Options) : (acquireMemory opt).Only Call.Calm := by
  unfold acquireMemory
  split
  · apply Proc.Only.bind (Proc.only_ask ⟨rfl, rfl⟩)
    intro base
    apply (Proc.only_modify _).bind
    intro _
    apply (Proc.only_throw _).onlyIf.bind
    exact fun _ => Proc.only_modify _
  · apply (Proc.only_modify _).bind
    intro _
    apply (only_sdk _).bind
    intro _
    apply (Proc.only_modify _).bind
    intro _
    apply (only_sdk _).bind
    intro _
    apply (Proc.only_modify _).bind
    intro _
    refine (only_allocate _ _).tryCatch fun error => ?_
    apply (Proc.only_throw _).onlyIf.bind
    intro _
    apply only_release.bind
    exact fun _ => only_allocate _ _

theorem only_record (offset iteration : ℕ) (opt : Options) :
    (record offset iteration opt).Only Call.Calm := by
  unfold record
  split
  · exact Proc.only_pure _
  · exact Proc.only_throw _

theorem only_verifyBuffer (opt : Options) (iteration : ℕ) (buffer : Ptr) :
    (verifyBuffer opt iteration buffer).Only Call.Calm := by
  refine Proc.Only.bind (Proc.only_foldlM (fun mismatches offset _ => ?_) 0) fun _ =>
    (Proc.only_throw _).onlyIf
  apply (only_record offset iteration opt).bind
  intro bytes
  apply Proc.Only.bind (Proc.only_ask ⟨rfl, rfl⟩)
  exact fun _ => Proc.only_pure _

/-! ## Fill -/

theorem length_textRecord {offset n : ℕ} {bytes : List UInt8}
    (h : textRecord offset n opt = some bytes) : bytes.length = 128 := by
  unfold textRecord at h
  simp only at h
  split at h
  · cases h
  · rename_i hfits
    cases h
    simp only [List.length_append, List.length_replicate, List.length_singleton] at hfits ⊢
    omega

/-- One record. -/
theorem filled_memcpy {buffer n k : ℕ} {bytes : List UInt8} {w : Disk}
    (hrecord : textRecord (k * 128) n opt = some bytes) (hk : k * 128 < opt.bytes)
    (hfilled : Filled opt buffer n (min (k * 128) opt.bytes) w) :
    Filled opt buffer n (min ((k + 1) * 128) opt.bytes) (w.setMemory fun a =>
      if buffer + k * 128 ≤ a ∧
          a < buffer + k * 128 + (bytes.take (min 128 (opt.bytes - k * 128))).length then
        (bytes.take (min 128 (opt.bytes - k * 128))).getD (a - (buffer + k * 128)) 0
      else w.memory a) := by
  have hlength := length_textRecord hrecord
  intro o ho
  rw [World.setMemory_memory, List.length_take, hlength]
  by_cases hold : o < k * 128
  · rw [if_neg (by omega)]
    exact hfilled o (by omega)
  · have hrest : o = k * 128 + (o - k * 128) := by omega
    have hdiv : o / 128 = k := by omega
    have hmod : o % 128 = o - k * 128 := by omega
    rw [if_pos (by omega)]
    unfold fillByte
    rw [hdiv, hrecord, hmod, Option.getD_some, List.getD_eq_getElem?_getD,
      List.getD_eq_getElem?_getD, List.getElem?_take, if_pos (by omega)]
    congr 2
    omega

theorem forM_map {ι κ : Type} {xs : List ι} (g : ι → κ) (f : κ → HA PUnit) :
    (xs.map g).forM f = xs.forM fun x => f (g x) := by
  induction xs with
  | nil => rfl
  | cons x xs ih =>
      show (f (g x) >>= fun _ => (xs.map g).forM f) =
        (f (g x) >>= fun _ => xs.forM fun x => f (g x))
      rw [ih]

/-- The fill loop throws only where a record does not fit. -/
theorem fillBuffer_fills (opt : Options) (w₀ : Disk) (n : ℕ) {C : Call → Disk → Prop}
    {I J : Disk → Prop}
    (hI : OfFiles I) (hC : ∀ c w, I w → C c w)
    (hJ : ∀ k w, k * 128 < opt.bytes → textRecord (k * 128) n opt = none → I w → J w)
    (buffer : Ptr) :
    (fillBuffer opt n buffer).Triple (Watched w₀ C) (Worlds w₀ fun _ x => I x.1)
      (fun _ => Worlds w₀ fun _ x => I x.1 ∧ Filled opt buffer n opt.bytes x.1)
      (Worlds w₀ fun _ x => J x.1) := by
  let Turn (k : ℕ) : Process → List HAEvent → Prop := Worlds w₀ fun _ x =>
    I x.1 ∧ Filled opt buffer n (min (k * 128) opt.bytes) x.1
  have hloop : ((List.range ((opt.bytes + 127) / 128)).forM fun k => do
      let bytes ← record (k * 128) n opt
      Proc.ask (R := Call.Reply)
        (.memcpy (buffer + k * 128) (bytes.take (min 128 (opt.bytes - k * 128)))) : HA PUnit).Triple
      (Watched w₀ C) (Turn 0) (fun _ => Turn ((opt.bytes + 127) / 128))
      (Worlds w₀ fun _ x => J x.1) := by
    -- the records are copied one after the other, and the last one may be cut short
    refine Proc.triple_forM_range fun k hk => ?_
    unfold record
    cases hrecord : textRecord (k * 128) n opt with
    | none =>
        exact Proc.Triple.bind (Q := fun _ _ _ => False)
          (Proc.triple_throw fun _ _ h => h.mono fun x hx => hJ k x.1 (by omega) hrecord hx.1)
          fun _ _ _ hfalse => hfalse.elim
    | some bytes =>
        refine Proc.Triple.bind (Q := fun bytes' p t => bytes' = bytes ∧ Turn k p t)
          (Proc.triple_pure fun _ _ h => ⟨rfl, h⟩) fun bytes' => ?_
        have hcopied : (Proc.ask (R := Call.Reply)
            (.memcpy (buffer + k * 128) (bytes.take (min 128 (opt.bytes - k * 128)))) :
            HA PUnit).Triple (Watched w₀ C) (Turn k) (fun _ => Turn (k + 1))
            (Worlds w₀ fun _ x => J x.1) := by
          refine worlds_ask rfl (fun _ _ h => hC _ _ h.1) (fun _ _ _ h => hC _ _ h.1) ?_
          rintro p r x y ⟨hx, hfilled⟩ ⟨heffect, -⟩
          have hy : y.1 = x.1.setMemory _ := heffect
          rw [hy]
          exact ⟨hI _ _ hx rfl rfl, filled_memcpy hrecord (by omega) hfilled⟩
        rintro p t ⟨rfl, h⟩
        exact hcopied p t h
  unfold fillBuffer recordOffsets
  rw [forM_map]
  refine hloop.weaken (fun _ _ h => h.mono fun x hx => ⟨hx, ?_⟩)
    (fun _ _ _ h => h.mono fun x hx => ⟨hx.1, ?_⟩) fun _ _ h => h
  · intro o ho
    omega
  · have hall : min ((opt.bytes + 127) / 128 * 128) opt.bytes = opt.bytes := by omega
    rw [← hall]
    exact hx.2

/-! ## Dump, commit and load -/

/-- What the dump does not touch. -/
def Aside (opt : Options) (runDir : String) (w : Disk) : Prop :=
  Committed opt runDir w ∧ ∀ b, opt.blocks ≤ b → w.entry (temporaryPath runDir b) = none

/-- The layout of the temporary files. -/
abbrev temporaries (opt : Options) (hopt : opt.Valid) (runDir : String) : Layout String :=
  opt.layout hopt ((List.range opt.blocks).map (temporaryPath runDir))
    (distinct_map fun _ _ => temporaryPath_injective)

theorem temporaries_name (hopt : opt.Valid) {b : ℕ} (hb : b < opt.blocks) :
    (temporaries opt hopt runDir).name b = temporaryPath runDir b :=
  getD_map_range _ hb

theorem aside_of_outside (hopt : opt.Valid) (w w' : Disk) (h : Aside opt runDir w)
    (houtside : Outside (temporaries opt hopt runDir) w w') : Aside opt runDir w' := by
  constructor
  · intro b x hx
    obtain ⟨hentry, hcontent⟩ := houtside (archivedPath runDir b) (by
      intro b' hb'
      rw [temporaries_name hopt hb']
      exact archivedPath_ne_temporaryPath b b')
    rw [hentry] at hx
    rw [hcontent x hx]
    exact h.1 b x hx
  · intro b hb
    obtain ⟨hentry, -⟩ := houtside (temporaryPath runDir b) (by
      intro b' hb' heq
      rw [temporaries_name hopt hb'] at heq
      have hsame := temporaryPath_injective heq
      have hlt : b' < opt.blocks := hb'
      omega)
    rw [hentry]
    exact h.2 b hb

/-- A temporary file in which every byte is stored is complete. -/
theorem isSlice_of_stored (hopt : opt.Valid) {n b : ℕ} {w : Disk} (hb : b < opt.blocks)
    (hstored : ∀ o < opt.blocks * opt.shards * opt.slotBytes,
      (temporaries opt hopt runDir).Stored w o (fillByte opt n o))
    (hfits : ∀ b < opt.blocks, ∀ x, w.entry ((temporaries opt hopt runDir).name b) = some x →
      (w.content x).size ≤ opt.blockBytes) :
    ∃ x, w.entry (temporaryPath runDir b) = some x ∧ IsSlice opt n b (w.content x) := by
  have hpos : 0 < opt.blockBytes := Nat.mul_pos hopt.shards hopt.slotBytes
  have hblock := block_le hb
  have hplace : ∀ j < opt.blockBytes, ∃ x, w.entry (temporaryPath runDir b) = some x ∧
      j < (w.content x).size ∧
      (w.content x).byte j = fillByte opt n (b * opt.blockBytes + j) := by
    intro j hj
    obtain ⟨x, hentry, hsize, hbyte⟩ := hstored (b * opt.blockBytes + j) (by omega)
    obtain ⟨hdiv, hmod⟩ := place_of_block b hj
    have hlength : (temporaries opt hopt runDir).length = opt.blockBytes := rfl
    rw [hlength, hdiv, temporaries_name hopt hb] at hentry
    rw [hlength, hmod] at hsize hbyte
    exact ⟨x, hentry, hsize, hbyte⟩
  obtain ⟨x, hentry, hlast, -⟩ := hplace (opt.blockBytes - 1) (by omega)
  refine ⟨x, hentry, ?_, ?_⟩
  · have hle := hfits b hb x (by rwa [temporaries_name hopt hb])
    show (w.content x).size = opt.blockBytes
    omega
  · intro j hj
    obtain ⟨y, hy, -, hbyte⟩ := hplace j hj
    rw [hentry, Option.some.injEq] at hy
    exact hy ▸ hbyte

theorem dump_completes (hopt : opt.Valid) (n : ℕ) (buffer : Ptr) :
    (transfer opt ((List.range opt.blocks).map (temporaryPath runDir)) buffer true).Triple
      (Watched w₀ (Guarded opt runDir))
      (Worlds w₀ fun _ x => Settled opt runDir x.1 ∧ Filled opt buffer n opt.bytes x.1)
      (fun _ => Worlds w₀ fun _ x => Renaming opt runDir n 0 x.1)
      (Worlds w₀ fun _ x => Committed opt runDir x.1) := by
  have htotal : (temporaries opt hopt runDir).total = opt.blocks * opt.shards * opt.slotBytes :=
    layout_total hopt
  have hcarries : Carries (temporaries opt hopt runDir) buffer true (Dumped
      (temporaries opt hopt runDir) buffer (fillByte opt n) (Aside opt runDir) True False) :=
    carries_dump True False (aside_of_outside hopt)
  refine (carries_transfer hcarries ?_).weaken (fun _ _ h => h.mono fun x hx => ?_)
    (fun _ _ _ h => h.mono fun x hx => ?_) fun _ _ h => h.mono fun x hx => ?_
  · intro c hc D x hx
    refine guarded_of_committed ?_ hx.frame.1
    cases c with
    | memcpy dst bytes => cases hc
    | _ => rfl
  · obtain ⟨⟨hcommitted, hnone⟩, hfilled⟩ := hx
    refine ⟨⟨hcommitted, fun b _ => hnone b⟩, ?_, nofun, ?_, nofun⟩
    · intro o ho
      rw [htotal, ← hopt.bytes_eq] at ho
      exact hfilled o ho
    · intro _ b hb y hy
      rw [temporaries_name hopt hb, hnone b] at hy
      cases hy
  · refine ⟨hx.frame.1, fun b hb => hx.frame.2 b (by omega), fun b _ hb => ?_⟩
    exact isSlice_of_stored hopt hb (fun o ho => hx.stored o ho (by rwa [htotal]))
      (hx.fits trivial)
  · obtain ⟨D, hD⟩ := hx
    exact hD.frame.1

theorem load_keeps (hopt : opt.Valid) (buffer : Ptr) :
    KeepsFiles opt runDir w₀ (Settled opt runDir) (Settled opt runDir)
      (transfer opt ((List.range opt.blocks).map (archivedPath runDir)) buffer false) := by
  have hpaths : opt.Distinct ((List.range opt.blocks).map (archivedPath runDir)) :=
    distinct_map fun _ _ => archivedPath_injective
  have hcarries : Carries (opt.layout hopt _ hpaths) buffer false
      (Loaded (opt.layout hopt _ hpaths) buffer (fun _ => 0) (Settled opt runDir) False False) :=
    carries_load False False fun w w' h hentry hcontent => h.of_same hentry hcontent
  refine (carries_transfer hcarries fun c _ D x hx => hx.frame.guarded c).weaken
    (fun _ _ h => h.mono fun x hx => ⟨hx, nofun, nofun, nofun⟩)
    (fun _ _ _ h => h.mono fun x hx => hx.frame) fun _ _ h => h.mono fun x hx => ?_
  obtain ⟨D, hD⟩ := hx
  exact hD.frame.committed

/-- `rename` replaces the archived file by the complete one. -/
theorem rename_commits {n k : ℕ} (hk : k < opt.blocks) (hn : n < opt.iterations) :
    (os (.rename (temporaryPath runDir k) (archivedPath runDir k))).Triple
      (Watched w₀ (Guarded opt runDir)) (Worlds w₀ fun _ x => Renaming opt runDir n k x.1)
      (fun _ => Worlds w₀ fun _ x => Renaming opt runDir n (k + 1) x.1)
      (Worlds w₀ fun _ x => Committed opt runDir x.1) := by
  have hguard : ∀ w, Committed opt runDir w → Guarded opt runDir
      (.os (.rename (temporaryPath runDir k) (archivedPath runDir k))) w :=
    fun w h => guarded_of_committed rfl h
  refine worlds_os (fun _ _ h => hguard _ h.committed) (fun _ _ _ h => hguard _ h.committed)
    (fun _ _ h => hguard _ h) ?_
  intro p r x y hx hlogged
  have heffect := hlogged.1
  constructor
  · intro hr
    obtain ⟨-, hy⟩ := (if_pos hr).mp heffect
    rw [hy]
    exact hx.rename hk hn
  · intro hr
    have hy : y.1 = x.1 := (if_neg (not_le.mpr hr)).mp heffect
    rw [hy]
    exact hx.committed

theorem commitBlock_commits {n k : ℕ} (hk : k < opt.blocks) (hn : n < opt.iterations) :
    KeepsFiles opt runDir w₀ (Renaming opt runDir n k) (Renaming opt runDir n (k + 1))
      (commitBlock opt runDir k) := by
  have hrenaming : ∀ k w, Renaming opt runDir n k w → Committed opt runDir w :=
    fun _ _ h => h.committed
  have hsync : KeepsFiles opt runDir w₀ (Renaming opt runDir n k) (Renaming opt runDir n k) (do
      let reply ← os (.openFile (temporaryPath runDir k) ⟨false, true, false⟩)
      let fd := reply.1.toNat
      Proc.tryCatch (do let _ ← os (.fdatasync fd); pure ⟨⟩) fun error => do
        cleanup (os (.close fd))
        Proc.throw error
      let _ ← os (.close fd)
      : HA PUnit) := by
    apply (keepsFiles_quiet ofFiles_renaming (hrenaming k) rfl).bind
    intro reply
    have hwritten : KeepsFiles opt runDir w₀ (Renaming opt runDir n k) (Renaming opt runDir n k)
        (Proc.tryCatch (do let _ ← os (.fdatasync reply.1.toNat); pure ⟨⟩) fun error => do
          cleanup (os (.close reply.1.toNat))
          Proc.throw error : HA PUnit) := by
      apply ((keepsFiles_quiet ofFiles_renaming (hrenaming k) rfl).bind
        fun _ => keepsFiles_pure _).tryCatch
      intro error
      refine KeepsFiles.bind (K := Committed opt runDir) ?_ fun _ => keepsFiles_throw _ fun _ h => h
      refine KeepsFiles.tryCatch ?_ fun _ => Proc.triple_modify fun _ _ h => h
      exact (keepsFiles_quiet ofFiles_committed (fun _ h => h) rfl).bind fun _ => keepsFiles_pure _
    apply hwritten.bind
    intro _
    exact (keepsFiles_quiet ofFiles_renaming (hrenaming k) rfl).bind fun _ => keepsFiles_pure _
  apply hsync.onlyIf.bind
  intro _
  apply KeepsFiles.bind (rename_commits hk hn)
  intro _
  apply (keepsFiles_quiet ofFiles_renaming (hrenaming (k + 1)) rfl).bind
  intro reply
  exact (keepsFiles_throw _ (hrenaming (k + 1))).onlyIf

/-! ## The run -/

/-- An iteration begins and ends without temporary files. -/
theorem iteration_settles (hopt : opt.Valid) {n : ℕ} (hn : n < opt.iterations) (buffer : Ptr) :
    KeepsFiles opt runDir w₀ (Settled opt runDir) (Settled opt runDir)
      (iteration opt runDir buffer n) := by
  apply Proc.Triple.bind (fillBuffer_fills opt w₀ n ofFiles_settled (fun c _ h => h.guarded c)
    (fun _ _ _ _ h => h.committed) buffer)
  intro _
  apply Proc.Triple.bind (dump_completes hopt n buffer)
  intro _
  have hcommits : KeepsFiles opt runDir w₀ (Renaming opt runDir n 0)
      (Renaming opt runDir n opt.blocks)
        ((List.range opt.blocks).forM (commitBlock opt runDir)) := by
    let Turn (k : ℕ) : Process → List HAEvent → Prop :=
      Worlds w₀ fun _ x => Renaming opt runDir n k x.1
    show Proc.Triple _ (Turn 0) _ (fun _ => Turn opt.blocks) _
    exact Proc.triple_forM_range fun k hk => commitBlock_commits hk hn
  have hsettled : ∀ w, Renaming opt runDir n opt.blocks w → Settled opt runDir w :=
    fun w h => ⟨h.committed, fun b => h.gone b (by omega)⟩
  apply KeepsFiles.bind (hcommits.weaken (fun _ h => h) hsettled)
  intro _
  have hcommitted : ∀ w, Settled opt runDir w → Committed opt runDir w := fun _ h => h.committed
  apply KeepsFiles.bind (keepsFiles_inMemory ofFiles_settled hcommitted (Proc.only_ask ⟨rfl, rfl⟩))
  intro _
  apply (load_keeps hopt buffer).bind
  intro _
  exact keepsFiles_inMemory ofFiles_settled hcommitted (only_verifyBuffer opt n buffer)

theorem withMemory_keeps {m : HA PUnit}
    (hm : KeepsFiles opt runDir w₀ (Settled opt runDir) (Settled opt runDir) m) :
    KeepsFiles opt runDir w₀ (Settled opt runDir) (Settled opt runDir) (withMemory m) := by
  have hcommitted : ∀ w, Settled opt runDir w → Committed opt runDir w := fun _ h => h.committed
  apply KeepsFiles.bind (keepsFiles_inMemory ofFiles_settled hcommitted (Proc.only_modify _))
  intro _
  apply (hm.tryCatch _).bind
  · intro _
    exact keepsFiles_inMemory ofFiles_settled hcommitted only_destroyMemory
  · intro error
    apply KeepsFiles.bind
      (keepsFiles_inMemory ofFiles_committed (fun _ h => h) only_destroyMemory)
    exact fun _ => keepsFiles_throw _ fun _ h => h

/-- Removing an archived file. -/
theorem unlink_keeps (k : ℕ) :
    KeepsFiles opt runDir w₀ (Committed opt runDir) (Committed opt runDir)
      (do let _ ← os (.unlink (archivedPath runDir k)); pure ⟨⟩ : HA PUnit) := by
  have hguard : ∀ w, Committed opt runDir w →
      Guarded opt runDir (.os (.unlink (archivedPath runDir k))) w :=
    fun w h => guarded_of_committed rfl h
  refine KeepsFiles.bind (K := Committed opt runDir) ?_ fun _ => keepsFiles_pure _
  refine worlds_os (fun _ _ h => hguard _ h) (fun _ _ _ h => hguard _ h)
    (fun _ _ h => hguard _ h) ?_
  intro p r x y hx hlogged
  have hy : Committed opt runDir y.1 := by
    have heffect := hlogged.1
    by_cases hr : 0 ≤ r.1
    · have hunlinked : y.1 = x.1.unlink _ := (if_pos hr).mp heffect
      intro b f hf
      rw [hunlinked] at hf ⊢
      have hentry : (x.1.unlink (archivedPath runDir k)).entry (archivedPath runDir b) =
        Function.update x.1.entry _ none (archivedPath runDir b) := rfl
      rw [hentry] at hf
      by_cases hb : archivedPath runDir b = archivedPath runDir k
      · rw [hb, Function.update_self] at hf
        cases hf
      · rw [Function.update_of_ne hb] at hf
        exact hx b f hf
    · have hsame : y.1 = x.1 := (if_neg hr).mp heffect
      exact hsame ▸ hx
  exact ⟨fun _ => hy, fun _ => hy⟩

/-- What `main` does in the new directory. -/
theorem rest_keeps (hopt : opt.Valid) (runDir : String) (w₀ : Disk) :
    KeepsFiles opt runDir w₀ (Settled opt runDir) (Committed opt runDir) (do
      let _ ← os (.statfs runDir)
      withMemory do
        acquireMemory opt
        let p ← Proc.get
        (List.range opt.iterations).forM (iteration opt runDir p.memory.addr)
      let p ← Proc.get
      Proc.onlyIf (p.cleanupFailed = true) (Proc.throw (.error "resource cleanup failed"))
      Proc.onlyIf (opt.keepFiles = false) do
        (List.range opt.blocks).forM fun block => do
          let _ ← os (.unlink (archivedPath runDir block))
          pure ⟨⟩
        let _ ← os (.rmdir runDir)
        pure ⟨⟩ : HA PUnit) := by
  have hcommitted : ∀ w, Settled opt runDir w → Committed opt runDir w := fun _ h => h.committed
  apply (keepsFiles_quiet ofFiles_settled hcommitted rfl).bind
  intro _
  refine KeepsFiles.bind (K := Committed opt runDir) ?_ fun _ => ?_
  · refine (withMemory_keeps ?_).weaken (fun _ h => h) hcommitted
    apply KeepsFiles.bind
      (keepsFiles_inMemory ofFiles_settled hcommitted (only_acquireMemory opt))
    intro _
    refine KeepsFiles.bind (K := Settled opt runDir) (Proc.triple_get fun _ _ h => h) fun p => ?_
    refine KeepsFiles.forM fun n hn => iteration_settles hopt (List.mem_range.mp hn) _
  · refine KeepsFiles.bind (K := Committed opt runDir) (Proc.triple_get fun _ _ h => h) fun p => ?_
    apply (keepsFiles_throw _ fun _ h => h).onlyIf.bind
    intro _
    apply KeepsFiles.onlyIf
    apply (KeepsFiles.forM fun k _ => unlink_keeps k).bind
    intro _
    exact (keepsFiles_quiet ofFiles_committed (fun _ h => h) rfl).bind fun _ => keepsFiles_pure _

/-- `main` first makes the run directory, and whatever it calls after that is guarded. -/
def GuardedAfter (opt : Options) (w₀ : Disk) (t : List HAEvent) (p : Process) (c : Call) : Prop :=
  (t = [] → ∃ template, c = .mkdtemp template) ∧
    ∀ runDir p' template rest, t = ⟨p', .mkdtemp template, some runDir⟩ :: rest →
      Watched w₀ (Guarded opt runDir) t p c

/-- A new directory is empty. -/
theorem settled_of_made {w w' : Disk} {template : String}
    (h : (Call.mkdtemp template).Effect (some runDir) w w') : Settled opt runDir w' := by
  obtain ⟨rfl, hnew⟩ := h
  have hempty := hnew runDir rfl
  have hpath : ∀ b, archivedPath runDir b = runDir ++ "/" ++ ("block-" ++ toString b) := by
    intro b
    unfold archivedPath
    rw [String.append_assoc, String.append_assoc]
    rfl
  refine ⟨fun b x hx => ?_, fun b => ?_⟩
  · rw [hpath, hempty] at hx
    cases hx
  · unfold temporaryPath
    rw [hpath, String.append_assoc, hempty]

theorem body_guarded (opt : Options) (w₀ : Disk) :
    (body opt).Triple (GuardedAfter opt w₀) (fun _ t => t = []) (fun _ _ _ => True)
      fun _ _ => True := by
  by_cases hinvalid : opt.invalid = true
  · refine Proc.Triple.bind (Q := fun _ _ _ => False) ?_ fun _ _ _ hfalse => hfalse.elim
    exact Proc.triple_onlyIf (fun _ => Proc.triple_throw fun _ _ _ => trivial)
      fun hvalid => absurd hinvalid hvalid
  have hopt := opt.valid_of_accepted (Bool.eq_false_of_not_eq_true hinvalid)
  refine Proc.Triple.bind (Q := fun _ _ t => t = [])
    (Proc.triple_onlyIf (fun h => absurd h hinvalid) fun _ _ _ h => h) fun _ => ?_
  let template := opt.dir ++ "/cache2-hal-aio-XXXXXX"
  refine Proc.Triple.bind (Q := fun dir _ t => ∃ p, t = [⟨p, .mkdtemp template, dir⟩])
    (Proc.triple_ask ?_ ?_) fun dir => ?_
  · rintro p t rfl
    exact ⟨fun _ => ⟨template, rfl⟩, nofun⟩
  · rintro p t dir rfl
    exact ⟨p, rfl⟩
  cases dir with
  | none => exact Proc.triple_throw fun _ _ _ => trivial
  | some runDir =>
      intro p t ht
      obtain ⟨p₀, rfl⟩ := ht
      have hguarded : ∀ (t : List HAEvent) (p : Process) (c : Call),
          [⟨p₀, .mkdtemp template, some runDir⟩] <+: t → Watched w₀ (Guarded opt runDir) t p c →
            GuardedAfter opt w₀ t p c := by
        rintro t p c ⟨rest, rfl⟩ hwatched
        refine ⟨fun hnil => by simp at hnil, ?_⟩
        intro runDir' p' template' rest' heq
        rw [List.singleton_append] at heq
        obtain ⟨hevent, -⟩ := List.cons.inj heq
        cases hevent
        exact hwatched
      have hrest := (rest_keeps hopt runDir w₀).of_extends _ hguarded
      refine (hrest.weaken (fun _ _ h => h) (fun _ _ _ _ => trivial) fun _ _ _ => trivial) p _
        ⟨List.prefix_rfl, ?_⟩
      intro x hx
      rw [show instants [(⟨p₀, .mkdtemp template, some runDir⟩ : HAEvent)] =
        [.call ⟨p₀, .mkdtemp template, some runDir⟩] from rfl, along_singleton] at hx
      exact settled_of_made hx.1

/-- The directory that the run has made to begin with. -/
def madeDir : List Instant → Option String
  | .call ⟨_, .mkdtemp _, dir⟩ :: _ => dir
  | _ => none

theorem exists_of_madeDir {ms : List Instant} (h : madeDir ms = some runDir) :
    ∃ p template rest, ms = .call ⟨p, .mkdtemp template, some runDir⟩ :: rest := by
  unfold madeDir at h
  split at h
  · rename_i p template dir rest
    subst h
    exact ⟨p, template, rest, rfl⟩
  · cases h

/-- Every call of a run that has made its directory is guarded. -/
theorem watched_of_visits {opt : Options} (w₀ : Disk) {t : List HAEvent}
    (ht : (main opt {}).Visits t) {t₁ : List HAEvent} {e : HAEvent} {t₂ : List HAEvent}
    (hsplit : t = t₁ ++ e :: t₂) {runDir : String} {ms : List Instant}
    (hms : madeDir (instants t₁ ++ ms) = some runDir) :
    Watched w₀ (Guarded opt runDir) t₁ e.state e.call ∨
      t₁ = [] ∧ ∃ template, e.call = .mkdtemp template := by
  have hmain : (main opt).Triple (GuardedAfter opt w₀) (fun _ t => t = []) (fun _ _ _ => True)
      fun _ _ => True :=
    Proc.Triple.tryCatch ((body_guarded opt w₀).bind fun _ => Proc.triple_pure fun _ _ _ => trivial)
      fun _ => Proc.triple_pure fun _ _ _ => trivial
  have hok := Prog.Meets.ok_of_visits (hmain {} [] rfl) ht
  have hnow := hok t₁ e t₂ hsplit
  rw [List.nil_append] at hnow
  cases t₁ with
  | nil => exact .inr ⟨rfl, hnow.1 rfl⟩
  | cons e₀ t₁ =>
      obtain ⟨template₀, hfirst⟩ := (hok [] e₀ (t₁ ++ e :: t₂) (by rw [hsplit]; rfl)).1 rfl
      obtain ⟨p, template, rest, hmade⟩ := exists_of_madeDir hms
      obtain ⟨p₀, c₀, r₀⟩ := e₀
      simp only at hfirst
      subst hfirst
      have hhead : (⟨p₀, .mkdtemp template₀, r₀⟩ : HAEvent) =
        ⟨p, .mkdtemp template, some runDir⟩ := by
        have hcons : Instant.call ⟨p₀, .mkdtemp template₀, r₀⟩ :: (instants t₁ ++ ms) = _ := hmade
        exact Instant.call.inj (List.cons.inj hcons).1
      rw [hhead] at hnow ⊢
      exact .inl (hnow.2 runDir p template t₁ rfl)

/-- **Committed files are never partial or mixed.**  Let `main` run in any world, with
any failures, and let `runDir` be the directory it has made.  At every moment, inside a
phase as well, every file `block-b` is of full length and holds the slice of block `b`
as one single iteration fills it.  And whenever the fill loop of an iteration writes to
the buffer, there are no temporary files. -/
theorem committed_whole (opt : Options) (w₀ : Disk) :
    ∀ t, (main opt {}).Visits t → ∀ runDir,
      (∀ ms, ms <+: instants t → madeDir ms = some runDir → ∀ w, Along Effect w₀ ms w →
        Committed opt runDir w) ∧
      (∀ t₁ e t₂ dst bytes, t = t₁ ++ e :: t₂ → e.call = .memcpy dst bytes →
        madeDir (instants t₁) = some runDir → ∀ w, Along Effect w₀ (instants t₁) w →
          NoTemporary runDir w) := by
  intro t ht runDir
  constructor
  · intro ms hms hmade w halong
    have hne : t ≠ [] := by
      rintro rfl
      rw [List.prefix_nil.mp hms] at hmade
      cases hmade
    obtain ⟨t₁, e, t₂, ms', hsplit, rfl, hinside⟩ := split_of_isPrefix_flatMap hms hne
    obtain ⟨log, hlogged⟩ := exists_logged halong ∅
    rcases watched_of_visits w₀ ht hsplit hmade with hwatched | ⟨rfl, template, hfirst⟩
    · exact (hwatched e.reply ms' hinside _ hlogged).committed
    · -- the call that makes the directory
      obtain ⟨p, c, r⟩ := e
      simp only at hfirst
      subst hfirst
      obtain ⟨p', template', rest, hhead⟩ := exists_of_madeDir hmade
      rw [List.flatMap_nil, List.nil_append] at hhead halong
      subst hhead
      obtain ⟨hcall, hrest⟩ := List.cons_prefix_cons.mp hinside
      cases hcall
      rw [List.prefix_nil.mp hrest, along_singleton] at halong
      exact (settled_of_made halong).committed
  · intro t₁ e t₂ dst bytes hsplit hcall hmade w halong
    obtain ⟨log, hlogged⟩ := exists_logged halong ∅
    have hmade' : madeDir (instants t₁ ++ []) = some runDir := by rwa [List.append_nil]
    rcases watched_of_visits w₀ ht hsplit hmade' with hwatched | ⟨-, template, hfirst⟩
    · have hguarded := hwatched e.reply [] ⟨_, rfl⟩ _ (by rwa [List.append_nil])
      exact hguarded.noTemporary (by rw [hcall]; rfl)
    · rw [hcall] at hfirst
      cases hfirst

/-- Two blocks of two shards by the psync engine, twice, from `malloc` memory. -/
def mallocPsync : Options := { twoByTwo with engine := "psync", memoryType := "malloc" }

/-- An environment in which nothing fails, with memory from `malloc`. -/
def mallocing (t : List HAEvent) : (c : Call) → c.Reply
  | .malloc _ => 4096
  | c => transferring t c

/-- A run that commits its blocks twice. -/
theorem committed_whole_mallocPsync :
    ∃ w, Along Effect World.empty (instants (Prog.exec mallocing (main mallocPsync {}) []).1) w ∧
      Committed mallocPsync "/d/run" w := by
  obtain ⟨hend, hplay, hmade⟩ :
      (Prog.exec mallocing (main mallocPsync {}) []).2 = some (.ok 0, {}) ∧
      (play World.empty (instants (Prog.exec mallocing (main mallocPsync {}) []).1)).isSome = true ∧
      madeDir (instants (Prog.exec mallocing (main mallocPsync {}) []).1) = some "/d/run" := by
    decide +kernel
  obtain ⟨w, hw⟩ := Option.isSome_iff_exists.mp hplay
  have halong := along_of_play hw
  refine ⟨w, halong, (committed_whole mallocPsync World.empty _ (Prog.runs_of_exec hend).visits
    "/d/run").1 _ List.prefix_rfl hmade w halong⟩

end SharingProbe.HalAio
