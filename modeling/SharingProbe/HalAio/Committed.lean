import SharingProbe.HalAio.RoundTrip

/-!
# Committed files

An iteration fills the buffer, dumps it to temporary files, and renames one after the
other to its archived name.  Between two iterations there are no temporary files,
so that the dump starts with new ones; and an archived file is only ever replaced by a
complete temporary file of the current iteration.  `Committed` holds at every moment
of a run, wherever it fails.
-/

namespace SharingProbe.HalAio

open Interaction Evolution Storage

/-! ## Names -/

theorem archivedPath_injective {runDir : String} {a b : ℕ}
    (h : archivedPath runDir a = archivedPath runDir b) : a = b := by
  have hdigits : Nat.repr a = Nat.repr b := String.append_right_inj _ |>.mp h
  rw [← Nat.ofDigitChars_ten_toDigits (n := a), ← Nat.ofDigitChars_ten_toDigits (n := b),
    ← Nat.toList_repr, ← Nat.toList_repr, hdigits]

theorem temporaryPath_injective {runDir : String} {a b : ℕ}
    (h : temporaryPath runDir a = temporaryPath runDir b) : a = b :=
  archivedPath_injective ((String.append_left_inj _).mp h)

/-- An archived name ends in a digit. -/
theorem archivedPath_ne_temporaryPath {runDir : String} (a b : ℕ) :
    archivedPath runDir a ≠ temporaryPath runDir b := by
  intro h
  have hlists := congrArg (fun s : String => s.toList.getLast?) h
  simp only [archivedPath, temporaryPath, String.toList_append, toString, Nat.toList_repr,
    List.getLast?_append] at hlists
  have hdigit : ∀ n, ∃ c, (Nat.toDigits 10 n).getLast? = some c ∧ c.isDigit = true := by
    intro n
    have hne : Nat.toDigits 10 n ≠ [] := List.ne_nil_of_length_pos Nat.length_toDigits_pos
    exact ⟨_, List.getLast?_eq_some_getLast hne,
      Nat.isDigit_of_mem_toDigits (by decide) (by decide) (List.getLast_mem hne)⟩
  obtain ⟨c, hc, hdigit⟩ := hdigit a
  rw [hc] at hlists
  have hlast : c = 'p' := Option.some.inj hlists
  subst hlast
  exact absurd hdigit (by decide)

/-- The names that are passed to the dump. -/
theorem getD_map_range {n b : ℕ} (f : ℕ → String) (hb : b < n) :
    ((List.range n).map f).getD b "" = f b := by
  rw [List.getD_eq_getElem?_getD, List.getElem?_map, List.getElem?_range hb]
  rfl

theorem distinct_map {opt : Options} {f : ℕ → String} (hf : ∀ a b, f a = f b → a = b) :
    opt.Distinct ((List.range opt.blocks).map f) := by
  intro a ha b hb h
  rw [getD_map_range f ha, getD_map_range f hb] at h
  exact hf a b h

/-! ## What holds at every moment -/

/-- What the fill loop of iteration `n` puts at offset `o` of the buffer. -/
def fillByte (opt : Options) (n o : ℕ) : UInt8 :=
  ((textRecord (o / 128 * 128) n opt).getD []).getD (o % 128) 0

/-- The whole content is the slice of block `b` as iteration `n` fills it. -/
structure IsSlice (opt : Options) (n b : ℕ) (c : Content UInt8) : Prop where
  size : c.size = opt.shards * opt.slotBytes
  byte : ∀ j < opt.shards * opt.slotBytes,
    c.byte j = fillByte opt n (b * (opt.shards * opt.slotBytes) + j)

/-- Every archived file is the slice of its block in one iteration. -/
def Committed (opt : Options) (runDir : String) (w : Disk) : Prop :=
  ∀ b x, w.entry (archivedPath runDir b) = some x →
    b < opt.blocks ∧ ∃ n < opt.iterations, IsSlice opt n b (w.content x)

/-- There are no temporary files. -/
def NoTemporary (runDir : String) (w : Disk) : Prop :=
  ∀ b, w.entry (temporaryPath runDir b) = none

/-- What holds between two iterations. -/
structure Settled (opt : Options) (runDir : String) (w : Disk) : Prop where
  committed : Committed opt runDir w
  noTemporary : NoTemporary runDir w

/-- What holds when `k` blocks of iteration `n` have been renamed. -/
structure Renaming (opt : Options) (runDir : String) (n k : ℕ) (w : Disk) : Prop where
  committed : Committed opt runDir w
  gone : ∀ b, b < k ∨ opt.blocks ≤ b → w.entry (temporaryPath runDir b) = none
  complete : ∀ b, k ≤ b → b < opt.blocks → ∃ x, w.entry (temporaryPath runDir b) = some x ∧
    IsSlice opt n b (w.content x)

/-- The buffer holds what iteration `n` fills in, up to an offset. -/
def Filled (opt : Options) (buffer n stop : ℕ) (w : Disk) : Prop :=
  ∀ o < stop, w.memory (buffer + o) = fillByte opt n o

section Stable

variable {opt : Options} {runDir : String} {w w' : Disk}

theorem Committed.of_same (h : Committed opt runDir w) (hentry : w'.entry = w.entry)
    (hcontent : w'.content = w.content) : Committed opt runDir w' := by
  intro b x hx
  rw [hentry] at hx
  rw [hcontent]
  exact h b x hx

theorem Settled.of_same (h : Settled opt runDir w) (hentry : w'.entry = w.entry)
    (hcontent : w'.content = w.content) : Settled opt runDir w' :=
  ⟨h.committed.of_same hentry hcontent, fun b => by rw [hentry]; exact h.noTemporary b⟩

theorem Renaming.of_same {n k : ℕ} (h : Renaming opt runDir n k w) (hentry : w'.entry = w.entry)
    (hcontent : w'.content = w.content) : Renaming opt runDir n k w' := by
  refine ⟨h.committed.of_same hentry hcontent, ?_, ?_⟩
  · rw [hentry]
    exact h.gone
  · rw [hentry, hcontent]
    exact h.complete

/-- Renaming a complete temporary file commits its block. -/
theorem Renaming.rename {n k : ℕ} (h : Renaming opt runDir n k w) (hk : k < opt.blocks)
    (hn : n < opt.iterations) :
    Renaming opt runDir n (k + 1) (w.rename (temporaryPath runDir k) (archivedPath runDir k)) := by
  have hne : temporaryPath runDir k ≠ archivedPath runDir k :=
    (archivedPath_ne_temporaryPath k k).symm
  have hentry := w.rename_entry hne
  have htemporary : ∀ b, b ≠ k →
      (w.rename (temporaryPath runDir k) (archivedPath runDir k)).entry (temporaryPath runDir b) =
        w.entry (temporaryPath runDir b) := by
    intro b hb
    rw [hentry, if_neg fun h => hb (temporaryPath_injective h),
      if_neg (archivedPath_ne_temporaryPath k b).symm]
  refine ⟨?_, ?_, ?_⟩
  · intro b x hx
    rw [hentry, if_neg (archivedPath_ne_temporaryPath b k)] at hx
    by_cases hb : b = k
    · subst hb
      obtain ⟨y, hy, hslice⟩ := h.complete b le_rfl hk
      rw [if_pos rfl, hy, Option.some.injEq] at hx
      exact ⟨hk, n, hn, hx ▸ hslice⟩
    · rw [if_neg fun h => hb (archivedPath_injective h)] at hx
      exact h.committed b x hx
  · intro b hb
    by_cases hbk : b = k
    · rw [hbk, hentry, if_pos rfl]
    · rw [htemporary b hbk]
      exact h.gone b (by omega)
  · intro b hb hlt
    rw [htemporary b (by omega)]
    exact h.complete b (by omega) hlt

end Stable

/-! ## The calls that leave the files alone -/

section Triples

variable {opt : Options} {runDir : String} {w₀ : Disk} {J : Disk → Prop}

/-- The fill loop. -/
def Call.fills : Call → Bool
  | memcpy _ _ => true
  | _ => false

/-- What holds from the beginning to the end of a call. -/
structure Guarded (opt : Options) (runDir : String) (c : Call) (w : Disk) : Prop where
  committed : Committed opt runDir w
  noTemporary : c.fills = true → NoTemporary runDir w

theorem guarded_of_committed {c : Call} {w : Disk} (hc : c.fills = false)
    (h : Committed opt runDir w) : Guarded opt runDir c w := by
  refine ⟨h, fun hfills => ?_⟩
  rw [hc] at hfills
  cases hfills

theorem Settled.guarded {w : Disk} (h : Settled opt runDir w) (c : Call) :
    Guarded opt runDir c w := ⟨h.committed, fun _ => h.noTemporary⟩

/-- The calls through `OS` that change neither a name nor a content. -/
def OsCall.quiet : OsCall → Bool
  | statfs _ | fdatasync _ | close _ | stat _ | rmdir _ => true
  | openFile _ flags => !flags.create
  | _ => false

theorem OsCall.quiet_same {c : OsCall} (hc : c.quiet = true) {r : ℤ × ℤ} {w w' : Disk}
    (h : c.Effect r w w') : w'.entry = w.entry ∧ w'.content = w.content := by
  cases c with
  | openFile path flags =>
      have hcreate : flags.create = false := by
        unfold OsCall.quiet at hc
        simpa using hc
      unfold OsCall.Effect at h
      dsimp only at h
      rw [hcreate] at h
      split at h
      · rcases h.2 with ⟨-, rfl⟩ | ⟨-, hfalse, -⟩
        · exact ⟨rfl, rfl⟩
        · cases hfalse
      · rcases h with rfl | ⟨-, hfalse, -⟩
        · exact ⟨rfl, rfl⟩
        · cases hfalse
  | stat path => exact h.1 ▸ ⟨rfl, rfl⟩
  | close fd =>
      have hclosed : w' = w.close fd := h
      exact hclosed ▸ ⟨rfl, rfl⟩
  | statfs path => exact (show w' = w from h) ▸ ⟨rfl, rfl⟩
  | fdatasync fd => exact (show w' = w from h) ▸ ⟨rfl, rfl⟩
  | rmdir path => exact (show w' = w from h) ▸ ⟨rfl, rfl⟩
  | _ => cases hc

/-- A property of the names and the contents. -/
def OfFiles (J : Disk → Prop) : Prop :=
  ∀ w w' : Disk, J w → w'.entry = w.entry → w'.content = w.content → J w'

theorem ofFiles_committed : OfFiles (Committed opt runDir) :=
  fun _ _ h hentry hcontent => h.of_same hentry hcontent

theorem ofFiles_settled : OfFiles (Settled opt runDir) :=
  fun _ _ h hentry hcontent => h.of_same hentry hcontent

theorem ofFiles_renaming {n k : ℕ} : OfFiles (Renaming opt runDir n k) :=
  fun _ _ h hentry hcontent => h.of_same hentry hcontent

/-- The procedure keeps a property of the files; after an exception what is committed is
still intact. -/
def KeepsFiles (opt : Options) (runDir : String) (w₀ : Disk) {α : Type} (J K : Disk → Prop)
    (m : HA α) : Prop :=
  m.Triple (Watched w₀ (Guarded opt runDir)) (Worlds w₀ fun _ x => J x.1)
    (fun _ => Worlds w₀ fun _ x => K x.1) (Worlds w₀ fun _ x => Committed opt runDir x.1)

section KeepsFiles

variable {K L : Disk → Prop} {α β : Type}

theorem keepsFiles_pure (a : α) : KeepsFiles opt runDir w₀ J J (pure a) :=
  Proc.triple_pure fun _ _ h => h

theorem keepsFiles_throw (e : Exn) (hcommitted : ∀ w, J w → Committed opt runDir w) :
    KeepsFiles opt runDir w₀ J K (Proc.throw e : HA α) :=
  Proc.triple_throw fun _ _ h => h.mono fun _ hx => hcommitted _ hx

theorem KeepsFiles.bind {m : HA α} {f : α → HA β} (hm : KeepsFiles opt runDir w₀ J K m)
    (hf : ∀ a, KeepsFiles opt runDir w₀ K L (f a)) : KeepsFiles opt runDir w₀ J L (m >>= f) :=
  Proc.Triple.bind hm hf

theorem KeepsFiles.onlyIf {c : Prop} [Decidable c] {m : HA PUnit}
    (hm : KeepsFiles opt runDir w₀ J J m) : KeepsFiles opt runDir w₀ J J (Proc.onlyIf c m) :=
  Proc.triple_onlyIf (fun _ => hm) fun _ _ _ h => h

theorem KeepsFiles.forM {ι : Type} {xs : List ι} {f : ι → HA PUnit}
    (hf : ∀ x ∈ xs, KeepsFiles opt runDir w₀ J J (f x)) :
    KeepsFiles opt runDir w₀ J J (xs.forM f) :=
  Proc.triple_forM hf

theorem KeepsFiles.tryCatch {m : HA α} {handler : Exn → HA α} (hm : KeepsFiles opt runDir w₀ J K m)
    (hhandler : ∀ e, KeepsFiles opt runDir w₀ (Committed opt runDir) K (handler e)) :
    KeepsFiles opt runDir w₀ J K (Proc.tryCatch m handler) :=
  Proc.Triple.tryCatch hm hhandler

theorem KeepsFiles.weaken {I : Disk → Prop} {m : HA α} (hm : KeepsFiles opt runDir w₀ J K m)
    (hI : ∀ w, I w → J w) (hJ : ∀ w, K w → L w) : KeepsFiles opt runDir w₀ I L m :=
  Proc.Triple.weaken hm (fun _ _ h => h.mono fun _ hx => hI _ hx)
    (fun _ _ _ h => h.mono fun _ hx => hJ _ hx) fun _ _ h => h

/-- A quiet call leaves a property of the files as it is. -/
theorem keepsFiles_quiet {c : OsCall} (hJ : OfFiles J)
    (hcommitted : ∀ w, J w → Committed opt runDir w) (hc : c.quiet = true) :
    KeepsFiles opt runDir w₀ J J (os c) := by
  have hguard : ∀ w, Committed opt runDir w → Guarded opt runDir (.os c) w :=
    fun w h => guarded_of_committed rfl h
  refine worlds_os (fun _ _ h => hguard _ (hcommitted _ h))
    (fun _ _ _ h => hguard _ (hcommitted _ h))
    (fun _ _ h => hguard _ h) ?_
  intro p r x y hx hlogged
  obtain ⟨hentry, hcontent⟩ := OsCall.quiet_same hc hlogged.1
  have hy : J y.1 := hJ x.1 y.1 hx hentry hcontent
  exact ⟨fun _ => hy, fun _ => hcommitted _ hy⟩

end KeepsFiles

/-- The calls that change the memory or nothing. -/
def Call.inMemory : Call → Bool
  | memcpy _ _ | memset _ _ _ | readBuffer _ _ | sdk _ | malloc _ | free _ => true
  | _ => false

theorem Call.inMemory_same {c : Call} (hc : c.inMemory = true) {r : c.Reply} {w w' : Disk}
    (h : c.Effect r w w') : w'.entry = w.entry ∧ w'.content = w.content := by
  cases c with
  | memcpy dst bytes =>
      have hset : w' = w.setMemory _ := h
      exact hset ▸ ⟨rfl, rfl⟩
  | memset dst byte bytes =>
      have hset : w' = w.setMemory _ := h
      exact hset ▸ ⟨rfl, rfl⟩
  | readBuffer src bytes => exact h.1 ▸ ⟨rfl, rfl⟩
  | sdk c => obtain ⟨memory, rfl⟩ := h; exact ⟨rfl, rfl⟩
  | malloc bytes => obtain ⟨memory, rfl⟩ := h; exact ⟨rfl, rfl⟩
  | free base => obtain ⟨memory, rfl⟩ := h; exact ⟨rfl, rfl⟩
  | _ => cases hc

theorem direct_of_inMemory {c : Call} (hc : c.inMemory = true) : c.direct = true := by
  cases c with
  | aioPhase opt paths buffer dump => cases hc
  | _ => rfl

/-- A procedure that works in the memory keeps a property of the files, also when it
throws. -/
theorem keepsFiles_inMemory {α : Type} {m : HA α} (hJ : OfFiles J)
    (hcommitted : ∀ w, J w → Committed opt runDir w)
    (hm : m.Only fun c => c.inMemory = true ∧
      c.fills = false) : KeepsFiles opt runDir w₀ J J m := by
  let Kept (t : List HAEvent) : Prop := ∀ x, Along Logged (w₀, ∅) (instants t) x → J x.1
  have hkeeps : ∀ t p (c : Call) r, Kept t → c.inMemory = true ∧ c.fills = false →
      Kept (t ++ [⟨p, c, r⟩]) := by
    intro t p c r ht hc y hy
    rw [instants_concat, instantsOf_direct (direct_of_inMemory hc.1), along_concat] at hy
    obtain ⟨x, hx, hlogged⟩ := hy
    obtain ⟨hentry, hcontent⟩ := Call.inMemory_same hc.1 hlogged.1
    exact hJ x.1 y.1 (ht x hx) hentry hcontent
  have hok : ∀ t p (c : Call), Kept t → c.inMemory = true ∧ c.fills = false →
      Watched w₀ (Guarded opt runDir) t p c := by
    intro t p c ht hc r ms hms x hx
    refine guarded_of_committed hc.2 (hcommitted _ ?_)
    rw [instantsOf_direct (direct_of_inMemory hc.1)] at hms
    rcases List.prefix_cons_iff.mp hms with rfl | ⟨ms, rfl, hnil⟩
    · rw [List.append_nil] at hx
      exact ht x hx
    · rw [List.prefix_nil.mp hnil] at hx
      have hnow := hkeeps t p c r ht hc
      unfold Kept at hnow
      rw [instants_concat, instantsOf_direct (direct_of_inMemory hc.1)] at hnow
      exact hnow x hx
  exact (Proc.Only.keeps hm hok hkeeps).weaken (fun _ _ h => h) (fun _ _ _ h => h)
    fun _ _ h x hx => hcommitted _ (h x hx)

end Triples

end SharingProbe.HalAio
