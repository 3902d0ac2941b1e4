import SharingProbe.HalAio.Record

/-!
# Verification after LOAD

After LOAD every slot should hold what the fill loop of the current iteration wrote into
it.  A slot that was dropped still holds the poison, a slot of a file with a hole holds
zeros, and a stale or misplaced slot holds what the fill loop of some iteration wrote
into some slot.  The verification loop passes exactly when none of this happened.
-/

namespace SharingProbe.HalAio

open Interaction Evolution Storage

/-! ## Where the bytes of a slot come from -/

/-- The number of slots. -/
def Options.slots (opt : Options) : ℕ := opt.blocks * opt.shards

/-- What a slot holds after LOAD. -/
inductive Source where
  | filled (iteration slot : ℕ)
  | hole
  | poison
  deriving DecidableEq, Repr

/-- A world in which the fill loop of an iteration has just ended. -/
def AfterFill (opt : Options) (n : ℕ) (buffer : Ptr) (w : Disk) : Prop :=
  ∃ p p' t w₀, (fillBuffer opt n buffer p).Runs t (.ok ⟨⟩, p') ∧ Along Effect w₀ (instants t) w

/-- Slot `i` of the buffer holds what its source says. -/
def Holds (opt : Options) (buffer : Ptr) (w : Disk) (i : ℕ) : Source → Prop
  | .filled n j => n < opt.iterations ∧ j < opt.slots ∧ ∃ before, AfterFill opt n buffer before ∧
      ∀ k < opt.slotBytes,
        w.memory (buffer + (i * opt.slotBytes + k)) =
          before.memory (buffer + (j * opt.slotBytes + k))
  | .hole => ∀ k < opt.slotBytes, w.memory (buffer + (i * opt.slotBytes + k)) = 0
  | .poison => ∀ k < opt.slotBytes, w.memory (buffer + (i * opt.slotBytes + k)) = 255

section Sizes

variable {opt : Options} {i k : ℕ}

theorem Options.Valid.slots_mul (hopt : opt.Valid) : opt.slots * opt.slotBytes = opt.bytes :=
  hopt.bytes_eq.symm

theorem Options.Valid.bytes_le (hopt : opt.Valid) : opt.bytes ≤ maxBytes := by
  rw [hopt.bytes_eq]
  exact hopt.total

theorem Options.Valid.slot_end_le (hopt : opt.Valid) (hi : i < opt.slots) :
    (i + 1) * opt.slotBytes ≤ opt.bytes := by
  rw [← hopt.slots_mul]
  exact Nat.mul_le_mul_right _ hi

theorem Options.Valid.slot_byte_lt (hopt : opt.Valid) (hi : i < opt.slots)
    (hk : k < opt.slotBytes) :
    i * opt.slotBytes + k < opt.bytes := by
  have hend := hopt.slot_end_le hi
  rw [Nat.add_mul, Nat.one_mul] at hend
  omega

/-- Every byte of the buffer belongs to a slot. -/
theorem Options.Valid.exists_slot (hopt : opt.Valid) {o : ℕ} (ho : o < opt.bytes) :
    ∃ i < opt.slots, ∃ k < opt.slotBytes, o = i * opt.slotBytes + k := by
  have hpos := hopt.slotBytes
  rw [← hopt.slots_mul] at ho
  exact ⟨o / opt.slotBytes, Nat.div_lt_of_lt_mul (by rwa [Nat.mul_comm] at ho),
    o % opt.slotBytes, Nat.mod_lt o hpos, (Nat.div_add_mod' o opt.slotBytes).symm⟩

end Sizes

/-! ## The fill loop -/

section Fill

variable {opt : Options} {n : ℕ} {buffer : Ptr} {w : Disk}

theorem filled_of_afterFill (h : AfterFill opt n buffer w) : Filled opt buffer n opt.bytes w := by
  obtain ⟨p, p', t, w₀, hruns, halong⟩ := h
  obtain ⟨log, hlogged⟩ := exists_logged halong ∅
  have hfills := fillBuffer_fills opt w₀ n (C := fun _ _ => True) (I := fun _ => True)
    (J := fun _ => True) (fun _ _ _ _ _ => trivial) (fun _ _ _ => trivial)
    (fun _ _ _ _ _ => trivial) buffer
  have hend := Prog.Meets.post_of_runs (hfills p [] fun _ _ => trivial) hruns
  exact (hend (w, log) hlogged).2

/-- Two fills write different bytes, unless it is the same slot of the same iteration. -/
theorem afterFill_inj {n' i j : ℕ} {w' : Disk} (hopt : opt.Accepted) (hslot : 255 ≤ opt.slotBytes)
    (hn : n < opt.iterations) (hn' : n' < opt.iterations) (hi : i < opt.slots) (hj : j < opt.slots)
    (h : AfterFill opt n buffer w) (h' : AfterFill opt n' buffer w')
    (hsame : ∀ k < opt.slotBytes, w'.memory (buffer + (j * opt.slotBytes + k)) =
      w.memory (buffer + (i * opt.slotBytes + k))) : n' = n ∧ j = i := by
  have hvalid := hopt.valid
  have hmax := hvalid.bytes_le
  have hiterations := hopt.iterations_le
  have hend := hvalid.slot_end_le hi
  have hend' := hvalid.slot_end_le hj
  apply slot_inj hslot (by omega) (by omega) (hend.trans hmax) (hend'.trans hmax)
  intro k hk
  rw [← filled_of_afterFill h _ (hvalid.slot_byte_lt hi hk),
    ← filled_of_afterFill h' _ (hvalid.slot_byte_lt hj hk)]
  exact hsame k hk

end Fill

/-! ## The verification loop -/

/-- The mismatches that the verification loop finds in one record. -/
def mismatchesAt (opt : Options) (n : ℕ) (buffer : Ptr) (w : Disk) (offset : ℕ) : ℕ :=
  countMismatches (fun j => w.memory (buffer + offset + j)) ((textRecord offset n opt).getD [])
    (min 128 (opt.bytes - offset))

/-- All mismatches. -/
def mismatches (opt : Options) (n : ℕ) (buffer : Ptr) (w : Disk) : ℕ :=
  ((recordOffsets opt.bytes).map (mismatchesAt opt n buffer w)).sum

section Verify

variable {opt : Options} {n : ℕ} {buffer : Ptr} {w : Disk}

theorem countMismatches_congr {actual actual' : ℕ → UInt8} {expected : List UInt8} {length : ℕ}
    (h : ∀ j < length, actual j = actual' j) :
    countMismatches actual expected length = countMismatches actual' expected length := by
  unfold countMismatches
  apply List.countP_congr
  intro j hj
  rw [h j (List.mem_range.mp hj)]

theorem mismatchesAt_eq_zero {q : ℕ} (hq : q * 128 < opt.bytes) :
    mismatchesAt opt n buffer w (q * 128) = 0 ↔
      ∀ o, q * 128 ≤ o → o < (q + 1) * 128 → o < opt.bytes →
        w.memory (buffer + o) = fillByte opt n o := by
  have hbyte : ∀ j < 128, fillByte opt n (q * 128 + j) =
      ((textRecord (q * 128) n opt).getD []).getD j 0 := by
    intro j hj
    unfold fillByte
    rw [show (q * 128 + j) / 128 = q by omega, show (q * 128 + j) % 128 = j by omega]
  unfold mismatchesAt countMismatches
  rw [List.countP_eq_zero]
  constructor
  · intro h o hle hlt ho
    have hoffset : q * 128 + (o - q * 128) = o := by omega
    have hj := h (o - q * 128) (List.mem_range.mpr (by omega))
    rw [decide_eq_true_eq, not_not, ← hbyte _ (by omega), hoffset] at hj
    dsimp only at hj
    rwa [Nat.add_assoc, hoffset] at hj
  · intro h j hj
    have hlt := List.mem_range.mp hj
    rw [decide_eq_true_eq, not_not, ← hbyte _ (by omega), ← h _ (by omega) (by omega) (by omega)]
    dsimp only
    rw [Nat.add_assoc]

/-- There is no mismatch if and only if every byte is the one that was filled in. -/
theorem mismatches_eq_zero :
    mismatches opt n buffer w = 0 ↔ Filled opt buffer n opt.bytes w := by
  unfold mismatches recordOffsets
  rw [List.sum_eq_zero_iff_forall_eq_nat]
  constructor
  · intro h o ho
    refine (mismatchesAt_eq_zero (q := o / 128) (by omega)).mp ?_ o (by omega) (by omega) ho
    apply h
    refine List.mem_map_of_mem (List.mem_map.mpr ⟨o / 128, List.mem_range.mpr ?_, rfl⟩)
    omega
  · intro h x hx
    obtain ⟨offset, hoffset, rfl⟩ := List.mem_map.mp hx
    obtain ⟨q, hq, rfl⟩ := List.mem_map.mp hoffset
    have hlt := List.mem_range.mp hq
    rw [mismatchesAt_eq_zero (by omega)]
    exact fun o _ _ ho => h o ho

/-- One turn of the loop. -/
theorem verifyRecord_counts {offset m total : ℕ} {bytes : List UInt8}
    (hrecord : textRecord offset n opt = some bytes) :
    (do
      let bytes ← record offset n opt
      let length := min 128 (opt.bytes - offset)
      let actual ← Proc.ask (R := Call.Reply) (.readBuffer (buffer + offset) length)
      pure (m + countMismatches actual bytes length) : HA ℕ).Triple (Watched w fun _ _ => True)
      (Worlds w fun _ x => x.1 = w ∧ m = total)
      (fun m' => Worlds w fun _ x => x.1 = w ∧ m' = total + mismatchesAt opt n buffer w offset)
      fun _ _ => False := by
  let length := min 128 (opt.bytes - offset)
  have hread : (Proc.ask (R := Call.Reply) (.readBuffer (buffer + offset) length) :
      HA (ℕ → UInt8)).Triple (Watched w fun _ _ => True) (Worlds w fun _ x => x.1 = w ∧ m = total)
      (fun actual => Worlds w fun _ x => (x.1 = w ∧ m = total) ∧
        ∀ j < length, actual j = w.memory (buffer + offset + j)) fun _ _ => False := by
    refine worlds_ask rfl (fun _ _ _ => trivial) (fun _ _ _ _ => trivial) ?_
    rintro p actual x y ⟨hx, hm⟩ ⟨⟨hy, hactual⟩, -⟩
    rw [hx] at hy hactual
    exact ⟨⟨hy, hm⟩, hactual⟩
  unfold record
  rw [hrecord]
  refine Proc.Triple.bind
    (Q := fun bytes' p t => bytes' = bytes ∧ Worlds w (fun _ x => x.1 = w ∧ m = total) p t)
    (Proc.triple_pure fun _ _ h => ⟨rfl, h⟩) fun bytes' => ?_
  rintro p t ⟨rfl, h⟩
  refine Proc.Triple.bind hread (fun actual => Proc.triple_pure fun _ _ h => h.mono ?_) p t h
  rintro x ⟨⟨hx, hm⟩, hactual⟩
  refine ⟨hx, ?_⟩
  unfold mismatchesAt
  rw [hrecord, Option.getD_some, countMismatches_congr hactual, hm]

/-- The loop adds up the mismatches of the records. -/
theorem verifyLoop_counts {offsets : List ℕ}
    (hrecords : ∀ offset ∈ offsets, ∃ bytes, textRecord offset n opt = some bytes) :
    ∀ m total : ℕ, (offsets.foldlM (fun mismatches offset => do
      let bytes ← record offset n opt
      let length := min 128 (opt.bytes - offset)
      let actual ← Proc.ask (R := Call.Reply) (.readBuffer (buffer + offset) length)
      pure (mismatches + countMismatches actual bytes length)) m : HA ℕ).Triple
      (Watched w fun _ _ => True) (Worlds w fun _ x => x.1 = w ∧ m = total)
      (fun m' => Worlds w fun _ x => x.1 = w ∧
        m' = total + (offsets.map (mismatchesAt opt n buffer w)).sum) fun _ _ => False := by
  induction offsets with
  | nil => exact fun m total => Proc.triple_pure fun _ _ h => h
  | cons offset offsets ih =>
      intro m total
      obtain ⟨bytes, hrecord⟩ := hrecords offset List.mem_cons_self
      apply Proc.Triple.bind (verifyRecord_counts hrecord)
      intro m'
      rw [List.map_cons, List.sum_cons, ← Nat.add_assoc]
      exact ih (fun o ho => hrecords o (List.mem_cons_of_mem _ ho)) m' _

/-- `verifyBuffer` throws exactly if it has counted a mismatch. -/
theorem verifyBuffer_outcome (hopt : opt.Accepted) (hn : n < opt.iterations) {p p' : Process}
    {t : List HAEvent} {x : Except Exn PUnit} {w' : Disk}
    (hruns : (verifyBuffer opt n buffer p).Runs t (x, p'))
    (hworld : Along Effect w (instants t) w') :
    x = if mismatches opt n buffer w = 0 then .ok ⟨⟩ else .error (.error "data mismatches") := by
  have hrecords : ∀ offset ∈ recordOffsets opt.bytes, ∃ bytes, textRecord offset n opt =
    some bytes := by
    intro offset hoffset
    obtain ⟨q, hq, rfl⟩ := List.mem_map.mp hoffset
    have hlt := List.mem_range.mp hq
    have hmax := hopt.valid.bytes_le
    have hiterations := hopt.iterations_le
    exact ⟨_, textRecord_eq_some opt (show q * 128 ≤ maxBytes by omega) (by omega)⟩
  have hmeets : (verifyBuffer opt n buffer).Meets (Watched w fun _ _ => True) p [] fun x _ t =>
      ∀ y, Along Logged (w, ∅) (instants t) y →
        x = if mismatches opt n buffer w = 0 then .ok ⟨⟩
          else .error (.error "data mismatches") := by
    unfold verifyBuffer
    rw [Proc.meets_bind]
    refine (verifyLoop_counts hrecords 0 0 p [] ?_).mono ?_
    · intro y hy
      exact ⟨congrArg Prod.fst (along_nil.mp hy), rfl⟩
    · intro x p' t _ hx
      cases x with
      | error e => exact hx.elim
      | ok m =>
          -- the number does not depend on the world in which the replies are read
          have hm : ∀ y, Along Logged (w, ∅) (instants t) y → m = mismatches opt n buffer w := by
            intro y hy
            rw [(hx y hy).2, Nat.zero_add]
            rfl
          show (Proc.onlyIf _ _ : HA PUnit).Meets _ _ _ _
          unfold Proc.onlyIf
          split
          · intro y hy
            rw [if_neg (hm y hy ▸ ‹m ≠ 0›)]
          · intro y hy
            rw [if_pos (hm y hy ▸ not_not.mp ‹¬m ≠ 0›)]
  obtain ⟨log, hlogged⟩ := exists_logged hworld ∅
  exact Prog.Meets.post_of_runs hmeets hruns (w', log) hlogged

end Verify

/-! ## What the verification detects -/

section Detects

variable {opt : Options} {n : ℕ} {buffer : Ptr} {w : Disk}

/-- A slot with the bytes that belong there has them from the fill of that slot. -/
theorem source_eq_filled (hopt : opt.Accepted) (hslot : 255 ≤ opt.slotBytes)
    (hn : n < opt.iterations) (hfilled : Filled opt buffer n opt.bytes w) {i : ℕ}
    (hi : i < opt.slots) {source : Source} (hsource : Holds opt buffer w i source) :
    source = .filled n i := by
  have hvalid := hopt.valid
  have hmax := hvalid.bytes_le
  have hiterations := hopt.iterations_le
  have hfirst := hvalid.slot_byte_lt hi hvalid.slotBytes
  have hprinted : fillByte opt n (i * opt.slotBytes + 0) ≠ 0 ∧
      fillByte opt n (i * opt.slotBytes + 0) ≠ 255 ∧ _ := fillByte_printed (by omega) (by omega)
  cases source with
  | filled n' j =>
      obtain ⟨hn', hj, before, hbefore, hsame⟩ := hsource
      have hend := hvalid.slot_end_le hi
      have hend' := hvalid.slot_end_le hj
      obtain ⟨rfl, rfl⟩ : n' = n ∧ j = i := by
        apply slot_inj hslot (by omega) (by omega) (hend.trans hmax) (hend'.trans hmax)
        intro k hk
        rw [← filled_of_afterFill hbefore _ (hvalid.slot_byte_lt hj hk), ← hsame k hk]
        exact hfilled _ (hvalid.slot_byte_lt hi hk)
      rfl
  | hole =>
      have hzero := hsource 0 hvalid.slotBytes
      rw [hfilled _ hfirst] at hzero
      exact absurd hzero hprinted.1
  | poison =>
      have hpoison := hsource 0 hvalid.slotBytes
      rw [hfilled _ hfirst] at hpoison
      exact absurd hpoison hprinted.2.1

/-- The buffer is filled if every slot has its own bytes. -/
theorem filled_of_sources (hopt : opt.Valid)
    (hsource : ∀ i < opt.slots, Holds opt buffer w i (.filled n i)) :
    Filled opt buffer n opt.bytes w := by
  intro o ho
  obtain ⟨i, hi, k, hk, rfl⟩ := hopt.exists_slot ho
  obtain ⟨-, -, before, hbefore, hsame⟩ := hsource i hi
  rw [hsame k hk]
  exact filled_of_afterFill hbefore _ ho

/-- The verification loop counts no mismatch if and only if every slot has the bytes that
the current iteration filled into that slot; and two fills of different slots, or of
different iterations, differ. -/
theorem verification_exact (opt : Options) (hopt : opt.Accepted) (hslot : 255 ≤ opt.slotBytes)
    (n : ℕ) (hn : n < opt.iterations) (buffer : Ptr) :
    (∀ {source : ℕ → Source} {w w' : Disk} {p p' : Process} {t : List HAEvent}
      {x : Except Exn PUnit}, (∀ i < opt.slots, Holds opt buffer w i (source i)) →
      (verifyBuffer opt n buffer p).Runs t (x, p') → Along Effect w (instants t) w' →
      (x = .ok ⟨⟩ ↔ ∀ i < opt.slots, source i = .filled n i) ∧
        (x = .ok ⟨⟩ ∨ x = .error (.error "data mismatches"))) ∧
    ∀ {n' i j : ℕ} {before before' : Disk}, n' < opt.iterations → i < opt.slots →
      j < opt.slots → AfterFill opt n buffer before → AfterFill opt n' buffer before' →
      (n', j) ≠ (n, i) →
      ∃ k < opt.slotBytes, before'.memory (buffer + (j * opt.slotBytes + k)) ≠
        before.memory (buffer + (i * opt.slotBytes + k)) := by
  constructor
  · intro source w w' p p' t x hsource hruns hworld
    have hx := verifyBuffer_outcome hopt hn hruns hworld
    by_cases hnone : mismatches opt n buffer w = 0
    · rw [if_pos hnone] at hx
      have hfilled := mismatches_eq_zero.mp hnone
      refine ⟨⟨fun _ i hi => ?_, fun _ => hx⟩, .inl hx⟩
      exact source_eq_filled hopt hslot hn hfilled hi (hsource i hi)
    · rw [if_neg hnone] at hx
      refine ⟨⟨fun h => ?_, fun h => ?_⟩, .inr hx⟩
      · rw [hx] at h
        cases h
      · refine absurd (mismatches_eq_zero.mpr (filled_of_sources hopt.valid fun i hi => ?_)) hnone
        exact h i hi ▸ hsource i hi
  · intro n' i j before before' hn' hi hj hbefore hbefore' hne
    by_contra hsame
    obtain ⟨rfl, rfl⟩ := afterFill_inj hopt hslot hn hn' hi hj hbefore hbefore' fun k hk => by
      by_contra hdiffers
      exact hsame ⟨k, hk, hdiffers⟩
    exact hne rfl

end Detects

/-! ## Slots that were dropped -/

/-- Two slots of 255 bytes. -/
def twoSlots : Options := { dir := "/d", blocks := 1, shards := 2, slotBytes := 255 }

/-- The world after the fill loop of iteration 0. -/
def filledOnce : Disk :=
  (play World.empty
    (instants (Prog.exec calm (fillBuffer twoSlots 0 4096 {}) []).1)).getD World.empty

/-- The buffer before LOAD. -/
def poisoned : Disk := World.empty.setMemory fun _ => 255

/-- An environment that reads the buffer there. -/
def reading (t : List HAEvent) : (c : Call) → c.Reply
  | .readBuffer _ _ => fun _ => 255
  | c => calm t c

theorem accepted_twoSlots : twoSlots.Accepted := by
  refine ⟨⟨["--dir", "/d", "--blocks", "1", "--shards", "2", "--slot-bytes", "255"], ?_⟩, by decide⟩
  rfl

theorem afterFill_filledOnce : AfterFill twoSlots 0 4096 filledOnce := by
  have hend : (Prog.exec calm (fillBuffer twoSlots 0 4096 {}) []).2 = some (.ok ⟨⟩, {}) := by
    decide +kernel
  have hplay : (play World.empty
      (instants (Prog.exec calm (fillBuffer twoSlots 0 4096 {}) []).1)).isSome = true := by
    decide +kernel
  obtain ⟨w, hw⟩ := Option.isSome_iff_exists.mp hplay
  have hfilled : filledOnce = w := by
    unfold filledOnce
    rw [hw, Option.getD_some]
  exact ⟨{}, {}, _, World.empty, Prog.runs_of_exec hend, hfilled ▸ along_of_play hw⟩

/-- A LOAD that does nothing is found out. -/
theorem verification_exact_twoSlots :
    (∃ t p', (verifyBuffer twoSlots 0 4096 {}).Runs t (.error (.error "data mismatches"), p')) ∧
      ∃ k < 255,
        filledOnce.memory (4096 + (1 * 255 + k)) ≠ filledOnce.memory (4096 + (0 * 255 + k)) := by
  obtain ⟨hend, hplay⟩ : (Prog.exec reading (verifyBuffer twoSlots 0 4096 {}) []).2.isSome = true ∧
      (play poisoned
        (instants (Prog.exec reading (verifyBuffer twoSlots 0 4096 {}) []).1)).isSome = true := by
    decide +kernel
  obtain ⟨⟨x, p'⟩, hx⟩ := Option.isSome_iff_exists.mp hend
  obtain ⟨w', hw'⟩ := Option.isSome_iff_exists.mp hplay
  have hruns := Prog.runs_of_exec hx
  have hlost : ∀ i < twoSlots.slots, Holds twoSlots 4096 poisoned i ((fun _ => Source.poison) i) :=
    fun _ _ _ _ => rfl
  obtain ⟨hverify, hdiffer⟩ := verification_exact twoSlots accepted_twoSlots (by decide) 0
    (by decide) 4096
  obtain ⟨hiff, hok | herror⟩ := hverify hlost hruns (along_of_play hw')
  · exact absurd (hiff.mp hok 1 (by decide)) (by decide)
  · exact ⟨⟨_, p', herror ▸ hruns⟩,
      hdiffer (by decide) (by decide) (by decide) afterFill_filledOnce afterFill_filledOnce
        (show (0, 1) ≠ (0, 0) by decide)⟩

end SharingProbe.HalAio
