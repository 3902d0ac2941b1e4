import SharingProbe.HalMapProbe.Steps
import SharingProbe.Share.Rules

/-!
# The two roles of `hal_map_probe`

What a process holds at each point of `creator` and `importer`, and what it gives back at the end,
whatever fails.
-/

namespace SharingProbe.HalMapProbe

open Interaction Network Transition Evolution Share
open DeviceShare (uneventful Uneventful uneventful_spec)

/-! ## What the variables say -/

section Holding

variable {handle va : Ptr} {opened : Bool} {y : Resource}

theorem mem_ofPtr {f : Ptr → Resource} {ptr : Ptr} (h : y ∈ ofPtr f ptr) : y = f ptr := by
  unfold ofPtr at h
  split at h
  · exact absurd h (Multiset.notMem_zero y)
  · exact Multiset.mem_singleton.mp h

theorem mem_ofFlag {x : Resource} {flag : Bool} (h : y ∈ ofFlag x flag) : y = x := by
  unfold ofFlag at h
  split at h
  · exact Multiset.mem_singleton.mp h
  · exact absurd h (Multiset.notMem_zero y)

/-- The mapping comes first, then the handle, the address range and the device. -/
theorem resources_mapped {mapped : Bool} : (⟨mapped, handle, va, opened⟩ : Holding).resources =
    ofFlag .mapping mapped + (⟨false, handle, va, opened⟩ : Holding).resources := by
  simp [Holding.resources, ofFlag, add_assoc]

theorem resources_handle : (⟨false, handle, va, opened⟩ : Holding).resources =
    ofPtr .handle handle + (⟨false, 0, va, opened⟩ : Holding).resources := by
  simp [Holding.resources, ofFlag, ofPtr, add_assoc]

theorem resources_range : (⟨false, 0, va, opened⟩ : Holding).resources =
    ofPtr .range va + (⟨false, 0, 0, opened⟩ : Holding).resources := by
  simp [Holding.resources, ofFlag, ofPtr]

theorem resources_opened : (⟨false, 0, 0, opened⟩ : Holding).resources =
    ofFlag .device opened + nothing.resources := by
  simp [Holding.resources, nothing, ofFlag, ofPtr]

@[simp] theorem resources_nothing : nothing.resources = 0 := rfl

theorem stage_of_mem_opened (h : y ∈ (⟨false, 0, 0, opened⟩ : Holding).resources) :
    y.stage = 3 := by
  rw [resources_opened, resources_nothing, add_zero] at h
  rw [mem_ofFlag h]
  rfl

theorem stage_of_mem_range (h : y ∈ (⟨false, 0, va, opened⟩ : Holding).resources) :
    2 ≤ y.stage := by
  rw [resources_range] at h
  rcases Multiset.mem_add.mp h with h | h
  · rw [mem_ofPtr h]
    exact le_rfl
  · rw [stage_of_mem_opened h]
    decide

/-- What comes first may be given back. -/
theorem mayRelease_first {X Y : Multiset Resource} {n : ℕ} {c : Share.Call}
    (hX : ∀ x ∈ X, x.stage = n) (hY : ∀ y ∈ Y, n ≤ y.stage) (hc : ∀ r, releases c r ≤ X) :
    MayRelease (X + Y) c := by
  intro r
  refine ⟨(hc r).trans (Multiset.le_add_right X Y), fun x hx y hy => ?_⟩
  have hstage : x.stage = n := hX x (Multiset.mem_of_le (hc r) hx)
  rcases Multiset.mem_add.mp hy with hy | hy
  · exact (hstage.trans (hX y hy).symm).le
  · exact hstage.le.trans (hY y hy)

end Holding

section Process

variable {cfg : Config} {world : World} {x : Party} {k j : ℕ} {K L : (ℕ → UInt64) → Prop}
  {a b d : Holding} {p p' : Process} {t : List SHEvent} {e : SHEvent}
  {E : Process → List SHEvent → Prop} {handle va : Ptr}

/-! ## What is acquired -/

theorem triple_openDevice :
    Proc.Triple (Orderly cfg world x) (Stands cfg world x 0 0 K nothing) (openDevice cfg)
      (fun _ => Stands cfg world x 0 0 K deviceOnly) (Fails cfg world x) := by
  unfold openDevice
  refine Proc.Triple.bind (Q := fun _ => Stands cfg world x 0 0 K nothing) ?_ fun _ => ?_
  · apply Proc.triple_ask
    · exact fun p t h => orderly_of_uneventful rfl (mayRelease_of_none fun _ => rfl)
        (fun _ _ _ => rfl) nofun
    · exact fun p t r h => h.next rfl rfl rfl rfl rfl h.state rfl fun v hv _ _ => hv
  refine Proc.Triple.weaken (triple_books (g := fun _ => deviceOnly) rfl (by decide)
    (mayRelease_of_none fun _ => rfl) ?_ ?_) (fun _ _ h => h) (fun _ _ _ ⟨_, h⟩ => h) fun _ _ h => h
  · intro r hret
    simp [acquires, releases, hret, deviceOnly, nothing, Holding.resources, ofFlag, ofPtr]
  · intro p r hp
    exact ⟨by simp [holding, nothing, deviceOnly] at hp ⊢; exact ⟨hp.1, hp.2.1, hp.2.2.1⟩, rfl⟩

theorem triple_reserve (hk : k < 2) :
    Proc.Triple (Orderly cfg world x) (Stands cfg world x k j K deviceOnly) (reserve cfg)
      (fun _ p t => ∃ va, Stands cfg world x k j K ⟨false, 0, va, true⟩ p t)
      (Fails cfg world x) := by
  refine Proc.Triple.weaken (triple_books (g := fun r => ⟨false, 0, r.out, true⟩) rfl hk
    (mayRelease_of_none fun _ => rfl) ?_ ?_) (fun _ _ h => h) (fun _ _ _ ⟨r, h⟩ => ⟨r.out, h⟩)
    fun _ _ h => h
  · intro r hret
    calc deviceOnly.resources - 0 + acquires (.check (.halMemAddressReserve cfg.bytes) _) r
        = deviceOnly.resources + ofPtr .range r.out := by simp [acquires, hret]
      _ = (⟨false, 0, r.out, true⟩ : Holding).resources := by rw [add_comm, resources_range]; rfl
  · intro p r hp
    exact ⟨by simp [holding, nothing, deviceOnly] at hp ⊢; exact ⟨hp.1, hp.2.1, hp.2.2.2⟩, rfl⟩

/-- A handle is stored. -/
theorem holding_setHandle (hp : holding p = ⟨false, 0, va, true⟩) :
    holding { p with handles := Function.update p.handles 0 handle } =
      ⟨false, handle, va, true⟩ := by
  simp [holding] at hp ⊢
  exact ⟨hp.1, hp.2.2⟩

theorem triple_handle {op : Share.Op} {name : String} (hk : k < 2)
    (hc : uneventful (.check op name) = true) (hreleases : ∀ r, releases (.check op name) r = 0)
    (hacquires : ∀ r : Answer, r.ret = 0 → acquires (.check op name) r = ofPtr .handle r.out) :
    Proc.Triple (Orderly cfg world x) (Stands cfg world x k j K ⟨false, 0, va, true⟩)
      (check op name >>= fun r => setHandle 0 r.out)
      (fun _ p t => ∃ handle, Stands cfg world x k j K ⟨false, handle, va, true⟩ p t)
      (Fails cfg world x) := by
  refine Proc.Triple.weaken (triple_books (g := fun r => ⟨false, r.out, va, true⟩) hc hk
    (mayRelease_of_none hreleases) ?_ ?_) (fun _ _ h => h) (fun _ _ _ ⟨r, h⟩ => ⟨r.out, h⟩)
    fun _ _ h => h
  · intro r hret
    rw [hreleases, hacquires r hret, Multiset.sub_zero, add_comm]
    exact resources_handle.symm
  · exact fun p r hp => ⟨holding_setHandle hp, rfl⟩

theorem triple_create (hk : k < 2) :
    Proc.Triple (Orderly cfg world x) (Stands cfg world x k j K ⟨false, 0, va, true⟩) (create cfg)
      (fun _ p t => ∃ handle, Stands cfg world x k j K ⟨false, handle, va, true⟩ p t)
      (Fails cfg world x) :=
  triple_handle hk rfl (fun _ => rfl) fun r hret => by simp [acquires, hret]

theorem triple_importHandle {token : UInt64} (hk : k < 2) :
    Proc.Triple (Orderly cfg world x) (Stands cfg world x k j K ⟨false, 0, va, true⟩)
      (importHandle cfg token)
      (fun _ p t => ∃ handle, Stands cfg world x k j K ⟨false, handle, va, true⟩ p t)
      (Fails cfg world x) := by
  unfold importHandle target
  refine Proc.Triple.bind (Q := fun _ => Stands cfg world x k j K ⟨false, 0, va, true⟩) ?_
    fun side => ?_
  · split
    · exact (triple_plain rfl (fun _ => rfl) fun _ => rfl).bind fun _ =>
        Proc.triple_pure fun _ _ h => h
    · exact Proc.triple_pure fun _ _ h => h
  · exact triple_handle hk rfl (fun _ => rfl) fun r hret => by simp [acquires, hret]

theorem triple_mapMemory (hk : k < 2) :
    Proc.Triple (Orderly cfg world x) (Stands cfg world x k j K ⟨false, handle, va, true⟩) mapMemory
      (fun _ => Stands cfg world x k j K ⟨true, handle, va, true⟩) (Fails cfg world x) := by
  unfold mapMemory
  refine (Proc.triple_get fun _ _ h => h).bind fun p => ?_
  refine Proc.Triple.weaken (triple_books (g := fun _ => ⟨true, handle, va, true⟩) rfl hk
    (mayRelease_of_none fun _ => rfl) ?_ ?_) (fun _ _ h => h) (fun _ _ _ ⟨_, h⟩ => h) fun _ _ h => h
  · intro r hret
    rw [show releases (.check (.halMemMap 0 (p.handles 0)) "halMemMap") r = 0 from rfl,
      Multiset.sub_zero, add_comm, @resources_mapped _ _ _ true]
    simp [acquires, hret, ofFlag]
  · intro p r hp
    simp [holding] at hp ⊢
    exact hp.2

/-! ## What the importer gives back -/

theorem triple_unmap (hk : k < 2) :
    Proc.Triple (Orderly cfg world x) (Stands cfg world x k j K ⟨true, handle, va, true⟩) unmap
      (fun _ => Stands cfg world x k j K ⟨false, handle, va, true⟩) (Fails cfg world x) := by
  refine Proc.Triple.weaken (triple_books (g := fun _ => ⟨false, handle, va, true⟩) rfl hk ?_ ?_ ?_)
    (fun _ _ h => h) (fun _ _ _ ⟨_, h⟩ => h) fun _ _ h => h
  · rw [resources_mapped]
    refine mayRelease_first (n := 0) (fun x hx => ?_) (fun _ _ => Nat.zero_le _) fun r => ?_
    · rw [mem_ofFlag hx]
      rfl
    · by_cases hret : r.ret = 0 <;> simp [releases, ofFlag, hret]
  · intro r hret
    rw [@resources_mapped _ _ _ true, show acquires (.check (.halMemUnmap 0) "importer unmap") r =
      0 from rfl, add_zero]
    simp [releases, hret]
  · intro p r hp
    simp [holding] at hp ⊢
    exact hp.2

theorem triple_release (hk : k < 2) :
    Proc.Triple (Orderly cfg world x) (Stands cfg world x k j K ⟨false, handle, va, true⟩) release
      (fun _ => Stands cfg world x k j K ⟨false, 0, va, true⟩) (Fails cfg world x) := by
  unfold release
  refine Proc.triple_get_bind fun p => ?_
  refine Proc.Triple.assume (A := p.handles 0 = handle) ?_ fun hhandle => ?_
  · rintro p' t ⟨rfl, h⟩
    exact congrArg Holding.handle h.state
  rw [hhandle]
  refine Proc.Triple.weaken (triple_books (g := fun _ => ⟨false, 0, va, true⟩) rfl hk ?_ ?_ ?_)
    (fun _ _ h => h.2) (fun _ _ _ ⟨_, h⟩ => h) fun _ _ h => h
  · rw [resources_handle]
    refine mayRelease_first (n := 1) (fun x hx => ?_) (fun y hy => ?_) fun r => ?_
    · rw [mem_ofPtr hx]
      rfl
    · exact (stage_of_mem_range hy).trans' (by decide)
    · by_cases hret : r.ret = 0
      · simp [releases, hret]
      · refine le_of_eq_of_le ?_ (Multiset.zero_le _)
        simp [releases, hret]
  · intro r hret
    rw [resources_handle, show acquires (.check (.halMemRelease 0 handle) "importer release") r =
      0 from rfl, add_zero]
    simp [releases, hret]
  · intro p r hp
    simp [holding] at hp ⊢
    exact ⟨hp.1, hp.2.2⟩

theorem triple_freeRange (hk : k < 2) :
    Proc.Triple (Orderly cfg world x) (Stands cfg world x k j K ⟨false, 0, va, true⟩) freeRange
      (fun _ => Stands cfg world x k j K deviceOnly) (Fails cfg world x) := by
  unfold freeRange
  refine Proc.triple_get_bind fun p => ?_
  refine Proc.Triple.assume (A := p.va = va) ?_ fun hva => ?_
  · rintro p' t ⟨rfl, h⟩
    exact congrArg Holding.va h.state
  rw [hva]
  refine Proc.Triple.weaken (triple_books (g := fun _ => deviceOnly) rfl hk ?_ ?_ ?_)
    (fun _ _ h => h.2) (fun _ _ _ ⟨_, h⟩ => h) fun _ _ h => h
  · rw [resources_range]
    refine mayRelease_first (n := 2) (fun x hx => ?_) (fun y hy => ?_) fun r => ?_
    · rw [mem_ofPtr hx]
      rfl
    · rw [stage_of_mem_opened hy]
      decide
    · by_cases hret : r.ret = 0
      · simp [releases, hret]
      · refine le_of_eq_of_le ?_ (Multiset.zero_le _)
        simp [releases, hret]
  · intro r hret
    rw [resources_range, show acquires (.check (.halMemAddressFree va) "importer free VA") r =
      0 from rfl, add_zero]
    simp [releases, hret, deviceOnly, nothing]
  · intro p r hp
    simp [holding, deviceOnly, nothing] at hp ⊢
    exact ⟨hp.1, hp.2.1, hp.2.2.2⟩

/-! ## The `try` block -/

/-- Something may be verified or written in between. -/
theorem triple_whenHost {m : SH PUnit}
    (hm : cfg.hostMode = true → Proc.Triple (Orderly cfg world x) (Stands cfg world x k j K a) m
      (fun _ => Stands cfg world x k j L a) (Fails cfg world x))
    (hnot : cfg.hostMode ≠ true → ∀ w, K w → L w) :
    Proc.Triple (Orderly cfg world x) (Stands cfg world x k j K a)
      (Proc.onlyIf (cfg.hostMode = true) m) (fun _ => Stands cfg world x k j L a)
      (Fails cfg world x) :=
  Proc.triple_onlyIf hm fun hmode _ _ h => h.mono (hnot hmode)

theorem triple_creator :
    Proc.Triple (Orderly cfg world .first) (Stands cfg world .first 0 0 (fun _ => True) deviceOnly)
      (creator cfg)
      (fun _ p t => ∃ a, Stands cfg world .first 2 2 (fun _ => True) a p t)
      (Fails cfg world .first) := by
  unfold creator
  refine (triple_reserve (by decide)).bind fun _ => Proc.triple_exists fun va => ?_
  refine (triple_create (by decide)).bind fun _ => Proc.triple_exists fun handle => ?_
  refine (triple_mapMemory (by decide)).bind fun _ => ?_
  refine Proc.Triple.bind (triple_writes rfl) fun _ => ?_
  refine (Proc.triple_get fun _ _ h => h).bind fun p => ?_
  refine (triple_plain rfl (fun _ => rfl) fun _ => rfl).bind fun token => ?_
  refine (triple_plain rfl (fun _ => rfl) fun _ => rfl).bind fun _ => ?_
  refine Proc.Triple.bind (triple_sends rfl (by decide) ?_ nofun) fun _ => ?_
  · exact fun w hw => ⟨rfl, fun h => absurd rfl h, fun _ _ => hw, nofun⟩
  refine Proc.Triple.bind (triple_checks (L := fun w => cfg.hostMode = true →
    Filled cfg.bytes 202 w)
    rfl (by decide) rfl (by decide) fun w m hclaims => hclaims.2.2.2 rfl rfl) fun _ => ?_
  refine Proc.Triple.bind (triple_whenHost (L := fun _ => True) (fun hmode => ?_)
    fun _ _ _ => trivial) fun _ => ?_
  · refine Proc.Triple.weaken (triple_verifies rfl fun w hw => hw hmode) (fun _ _ h => h) ?_
      fun _ _ h => h
    exact fun _ _ _ h => h.mono fun _ _ => trivial
  refine Proc.Triple.bind (triple_sends rfl (by decide) ?_ nofun) fun _ => ?_
  · exact fun w hw => ⟨rfl, fun _ => rfl, nofun, nofun⟩
  exact Proc.Triple.weaken (triple_checks (L := fun _ => True) rfl (by decide) rfl (by decide)
    fun w m _ => trivial) (fun _ _ h => h) (fun _ _ _ h => ⟨_, h⟩) fun _ _ h => h

theorem triple_importer :
    Proc.Triple (Orderly cfg world .second)
    (Stands cfg world .second 0 0 (fun _ => True) deviceOnly)
      (importer cfg)
      (fun _ p t => ∃ a, Stands cfg world .second 2 2 (fun _ => True) a p t)
      (Fails cfg world .second) := by
  unfold importer
  refine Proc.Triple.bind (triple_receives (L := Filled cfg.bytes 101) rfl (by decide) rfl
    fun w m hclaims => hclaims.2.2.1 rfl rfl) fun token => ?_
  refine (triple_reserve (by decide)).bind fun _ => Proc.triple_exists fun va => ?_
  refine (triple_importHandle (by decide)).bind fun _ => Proc.triple_exists fun handle => ?_
  refine (triple_mapMemory (by decide)).bind fun _ => ?_
  refine Proc.Triple.bind (triple_whenHost (L := fun w => cfg.hostMode = true →
    Filled cfg.bytes 202 w)
    (fun _ => ?_) fun hmode _ _ h => absurd h hmode) fun _ => ?_
  · refine Proc.Triple.bind (triple_verifies rfl fun w hw => hw) fun _ => ?_
    refine Proc.Triple.weaken (triple_writes rfl) (fun _ _ h => h) ?_ fun _ _ h => h
    exact fun _ _ _ h => h.mono fun w hw _ => hw
  refine Proc.Triple.bind (triple_sends rfl (by decide) ?_ nofun) fun _ => ?_
  · exact fun w hw => ⟨rfl, fun _ => rfl, nofun, fun _ _ => hw⟩
  refine Proc.Triple.bind (triple_checks (L := fun _ => True) rfl (by decide) rfl (by decide)
    fun w m _ => trivial) fun _ => ?_
  refine (triple_unmap (by decide)).bind fun _ => (triple_release (by decide)).bind fun _ => ?_
  refine (triple_freeRange (by decide)).bind fun _ => ?_
  refine Proc.Triple.weaken (triple_sends rfl (by decide) ?_ fun _ _ => rfl) (fun _ _ h => h)
    (fun _ _ _ h => ⟨_, h⟩) fun _ _ h => h
  exact fun w _ => ⟨rfl, fun _ => rfl, nofun, nofun⟩

theorem triple_workerBody :
    Proc.Triple (Orderly cfg world x) (Stands cfg world x 0 0 (fun _ => True) nothing)
      (workerBody cfg (x == .second))
      (fun _ p t => ∃ a, Stands cfg world x 2 2 (fun _ => True) a p t) (Fails cfg world x) := by
  unfold workerBody
  refine triple_openDevice.bind fun _ => ?_
  cases x with
  | first => exact triple_creator
  | second => exact triple_importer

/-! ## After it -/

variable (cfg world x a) in
/-- The `try` block is over: the result is 0 if no call has failed, and then all words have been
exchanged. -/
structure Ends (p : Process) (t : List SHEvent) : Prop where
  state : holding p = a
  verdict : p.result = 0 ↔ ¬Failed t
  result : p.result ≤ 1
  done : ¬Threw t → sentWords t = 2 ∧ receivedWords t = 2
  cause : Threw t → ∀ v, (probe cfg world).SeesAlong x t v → Refused t ∨ Lost t

theorem ends_of_stands (h : Stands cfg world x 2 2 K a p t) : Ends cfg world x a p t where
  state := h.state
  verdict := ⟨fun _ => h.passed, fun _ => h.result⟩
  result := h.result.le.trans (Nat.zero_le 1)
  done _ := ⟨h.sent, h.received⟩
  cause hthrew := absurd hthrew h.kept

theorem ends_of_fails (h : Fails cfg world x p t) :
    Ends cfg world x (holding p) { p with result := 1 } t where
  state := rfl
  verdict := ⟨nofun, fun h' => absurd (failed_of_threw h.threw) h'⟩
  result := le_rfl
  done hkept := absurd h.threw hkept
  cause _ := h.cause

/-- A call that neither sends nor receives, and does not throw. -/
theorem Ends.next (h : Ends cfg world x a p t) (hputs : puts e.call e.reply = none)
    (htakes : takes e.call e.reply = none) (hthrows : throws e.call e.reply = false)
    (hrefused : refused e.call e.reply = false) (hlost : lost e.call e.reply = false)
    (hstate : holding p' = a) (hresult : p'.result ≤ 1)
    (hverdict : p'.result = 0 ↔ p.result = 0 ∧ fails e.call e.reply = false) :
    Ends cfg world x a p' (t ++ [e]) := by
  have hwords := Pair.words_quiet (t := t) hputs htakes
  refine ⟨hstate, ?_, hresult, fun hkept => ?_, fun hthrew v' hv' => ?_⟩
  · rw [hverdict, h.verdict, failed_concat, not_or, Bool.not_eq_true]
  · rw [hwords.1, hwords.2]
    exact h.done fun hthrew => hkept ((threw_concat _ _).mpr (.inl hthrew))
  · obtain ⟨v, hv, -⟩ := along_concat.mp hv'
    rw [threw_concat, hthrows] at hthrew
    rw [refused_concat, lost_concat, hrefused, hlost]
    simpa using h.cause (by simpa using hthrew) v hv

/-- A call of `cleanup`. -/
theorem triple_cleans {op : Share.Op} {name : String} (hc : uneventful (.cleanup op name) = true)
    (hmay : MayRelease b.resources (.cleanup op name))
    (hbooks : ∀ r, b.resources - releases (.cleanup op name) r = d.resources) :
    Proc.Triple (Orderly cfg world x)
      (fun p t => (Ends cfg world x a p t ∧ Closed t) ∧ accounts.held t = b.resources)
      (cleanup op name)
      (fun _ p t => (Ends cfg world x a p t ∧ Closed t) ∧ accounts.held t = d.resources) E := by
  have hspec := uneventful_spec hc
  have hheld : ∀ p t (r : Answer), accounts.held t = b.resources →
      accounts.held (t ++ [⟨p, .cleanup op name, r⟩]) = d.resources := by
    intro p t r h
    calc accounts.held (t ++ [⟨p, .cleanup op name, r⟩])
        = accounts.held t - releases (.cleanup op name) r + 0 :=
          Ledger.Accounts.held_concat accounts t _
      _ = d.resources := by rw [add_zero, h, hbooks]
  unfold cleanup
  refine Proc.Triple.bind (Q := fun (r : Answer) p t' => ∃ t,
    (Ends cfg world x a p t ∧ Closed t) ∧ accounts.held t = b.resources ∧
      t' = t ++ [⟨p, .cleanup op name, r⟩]) ?_ fun r => ?_
  · apply Proc.triple_ask
    · intro p t h
      refine orderly_of_uneventful hc (h.2 ▸ hmay) (fun _ _ _ => rfl) ?_
      exact fun _ _ _ hkept => h.1.1.done hkept
    · exact fun p t r h => ⟨t, h.1, h.2, rfl⟩
  apply Proc.triple_onlyIf
  · intro hret
    apply Proc.triple_modify
    rintro p _ ⟨t, ⟨h, hclosed⟩, hb, rfl⟩
    refine ⟨⟨h.next (hspec.puts _) (hspec.takes _) rfl rfl rfl h.state le_rfl ?_,
      (closed_concat _ _).mpr (.inl hclosed)⟩, hheld p t r hb⟩
    simp [fails, hret]
  · rintro hret p _ ⟨t, ⟨h, hclosed⟩, hb, rfl⟩
    refine ⟨⟨h.next (hspec.puts _) (hspec.takes _) rfl rfl rfl h.state h.result ?_,
      (closed_concat _ _).mpr (.inl hclosed)⟩, hheld p t r hb⟩
    simp [fails, not_not.mp hret]

/-- What is left is given back, in its order. -/
theorem triple_tearDown :
    Proc.Triple (Orderly cfg world x)
      (fun p t => (Ends cfg world x a p t ∧ Closed t) ∧ accounts.held t = a.resources)
      (tearDown cfg)
      (fun _ p t => (Ends cfg world x a p t ∧ Closed t) ∧ accounts.held t = 0) E := by
  obtain ⟨mapped, handle, va, opened⟩ := a
  unfold tearDown
  -- the variables are read once, and none of the calls changes them
  refine Proc.triple_get_bind fun p => ?_
  refine Proc.Triple.assume (A := holding p = ⟨mapped, handle, va, opened⟩) ?_ fun hp => ?_
  · rintro p' t ⟨rfl, h⟩
    exact h.1.1.state
  simp only [holding, Holding.mk.injEq] at hp
  obtain ⟨hmapped, hhandle, hva, hopened⟩ := hp
  rw [hmapped, hhandle, hva, hopened]
  suffices hrest : Proc.Triple (Orderly cfg world x)
      (fun p t => (Ends cfg world x ⟨mapped, handle, va, opened⟩ p t ∧ Closed t) ∧
        accounts.held t = (⟨mapped, handle, va, opened⟩ : Holding).resources) _ _ E from
    hrest.weaken (fun _ _ h => h.2) (fun _ _ _ h => h) fun _ _ h => h
  -- the mapping
  refine Proc.Triple.bind (Q := fun _ p t =>
    (Ends cfg world x ⟨mapped, handle, va, opened⟩ p t ∧ Closed t) ∧
      accounts.held t = (⟨false, handle, va, opened⟩ : Holding).resources) ?_ fun _ => ?_
  · refine Proc.triple_onlyIf (fun hflag => ?_) fun hflag _ _ h => ?_
    · subst hflag
      refine triple_cleans rfl ?_ fun r => ?_
      · rw [resources_mapped]
        refine mayRelease_first (n := 0) (fun x hx => ?_) (fun _ _ => Nat.zero_le _) fun r => le_rfl
        rw [mem_ofFlag hx]
        rfl
      · rw [@resources_mapped _ _ _ true]
        exact add_tsub_cancel_left _ _
    · rw [Bool.not_eq_true] at hflag
      subst hflag
      exact h
  -- the handle, with no mapping left
  refine Proc.Triple.bind (Q := fun _ p t =>
    (Ends cfg world x ⟨mapped, handle, va, opened⟩ p t ∧ Closed t) ∧
      accounts.held t = (⟨false, 0, va, opened⟩ : Holding).resources) ?_ fun _ => ?_
  · refine Proc.triple_onlyIf (fun hne => ?_) fun hzero _ _ h => ?_
    · refine triple_cleans rfl ?_ fun r => ?_
      · rw [resources_handle]
        refine mayRelease_first (n := 1) (fun x hx => ?_) (fun y hy => ?_) fun r => le_rfl
        · rw [mem_ofPtr hx]
          rfl
        · exact (stage_of_mem_range hy).trans' (by decide)
      · rw [resources_handle]
        exact add_tsub_cancel_left _ _
    · rw [not_not] at hzero
      subst hzero
      exact h
  -- the range, with no handle left
  refine Proc.Triple.bind (Q := fun _ p t =>
    (Ends cfg world x ⟨mapped, handle, va, opened⟩ p t ∧ Closed t) ∧
      accounts.held t = (⟨false, 0, 0, opened⟩ : Holding).resources) ?_ fun _ => ?_
  · refine Proc.triple_onlyIf (fun hne => ?_) fun hzero _ _ h => ?_
    · refine triple_cleans rfl ?_ fun r => ?_
      · rw [resources_range]
        refine mayRelease_first (n := 2) (fun x hx => ?_) (fun y hy => ?_) fun r => le_rfl
        · rw [mem_ofPtr hx]
          rfl
        · rw [stage_of_mem_opened hy]
          decide
      · rw [resources_range]
        exact add_tsub_cancel_left _ _
    · rw [not_not] at hzero
      subst hzero
      exact h
  -- the device, with nothing else left
  refine Proc.triple_onlyIf (fun hflag => ?_) fun hflag _ _ h => ?_
  · subst hflag
    refine triple_cleans (d := nothing) rfl ?_ fun r => ?_
    · rw [resources_opened]
      refine mayRelease_first (n := 3) (fun x hx => ?_) (fun y hy => ?_) fun r => le_rfl
      · rw [mem_ofFlag hx]
        rfl
      · exact absurd hy (Multiset.notMem_zero y)
    · rw [@resources_opened true]
      exact add_tsub_cancel_left _ _
  · rw [Bool.not_eq_true] at hflag
    subst hflag
    exact h

end Process

end SharingProbe.HalMapProbe
