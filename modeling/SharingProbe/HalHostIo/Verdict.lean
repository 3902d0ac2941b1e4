import SharingProbe.HalHostIo.Transfer
import SharingProbe.Library.Evolution

/-!
# The verdict of `test_io`

Between the write and the read the buffer is cleared, and a call that reads changes at most
the bytes of its chunk.  So `test_io` passes if and only if every chunk went both ways as a
whole, every byte came back, and the file could be closed and removed.
-/

namespace SharingProbe.HalHostIo

open Evolution Interaction Pieces

/-! ## The buffer -/

/-- What a call can make of the buffer.  `pread` writes into its chunk whatever it returns, and
`load` reads what is there. -/
def Changes (m : ℕ → UInt8) (e : HHEvent) (m' : ℕ → UInt8) : Prop :=
  match e.call, e.reply with
  | .memset value bytes, _ => m' = fun i => if i < bytes then value else m i
  | .transfer false _ start bytes _, _ => ∀ i, ¬(start ≤ i ∧ i < start + bytes) → m' i = m i
  | .load i, r => m' = m ∧ r = m i
  | _, _ => m' = m

/-! ## Comparing -/

/-- The bytes were compared up to the first that is different. -/
structure Compares (places : List ℕ) (t : List HHEvent) (passed : Bool) : Prop where
  calls : ∀ e ∈ t, ∃ i, e.call = .load i
  buffer : ∀ m m', Along Changes m t m' →
    m' = m ∧ (passed = true ↔ ∀ i ∈ places, m i = expected)

theorem over_compareBytes {limit : ℕ} (places : List ℕ) :
    (compareBytes places).Over (Compares places) (GaveUp limit) := by
  induction places with
  | nil =>
      refine Proc.Over.mono (Proc.over_pure true) ?_
      rintro t passed ⟨rfl, rfl⟩
      exact ⟨nofun, fun m m' h => ⟨along_nil.mp h, fun _ => nofun, fun _ => rfl⟩⟩
  | cons i places ih =>
      refine Proc.Over.mono (Proc.Over.bind (Q := fun (data : UInt8) t passed =>
        if data = expected then Compares places t passed else t = [] ∧ passed = false)
        (Proc.over_ask (R := Call.Reply) (Call.load i)) (fun data => ?_) fun t t' h =>
          h.append t) ?_
      · refine Proc.Over.ite (fun hdiffers => ?_) fun hsame => ?_
        · refine Proc.Over.mono (Proc.over_pure false) fun t passed h => ?_
          rwa [if_neg hdiffers]
        · refine Proc.Over.mono ih fun t passed h => ?_
          rwa [if_pos (not_not.mp hsame)]
      · rintro _ passed ⟨data, _, t, rfl, ⟨s, rfl⟩, hafter⟩
        by_cases hdata : data = expected
        · rw [if_pos hdata] at hafter
          refine ⟨List.forall_mem_cons.mpr ⟨⟨i, rfl⟩, hafter.calls⟩, fun m m' h => ?_⟩
          obtain ⟨m₁, ⟨rfl, hload⟩, hrest⟩ := along_cons.mp h
          obtain ⟨hsame, hiff⟩ := hafter.buffer _ _ hrest
          rw [hiff, List.forall_mem_cons]
          exact ⟨hsame, fun hall => ⟨hload.symm.trans hdata, hall⟩, And.right⟩
        · rw [if_neg hdata] at hafter
          obtain ⟨rfl, rfl⟩ := hafter
          refine ⟨List.forall_mem_singleton.mpr ⟨i, rfl⟩, fun m m' h => ?_⟩
          obtain ⟨rfl, hload⟩ := along_singleton.mp h
          refine ⟨rfl, nofun, fun hall => absurd ?_ hdata⟩
          exact hload.trans (hall i List.mem_cons_self)

/-! ## The calls of a test -/

/-- What comes after a complete write. -/
structure ReadsBack (fd size : ℕ) (t : List HHEvent) (passed : Bool) : Prop where
  split : ∃ t₁ t₂ read, t = ⟨(), .memset 0 size, ()⟩ :: (t₁ ++ t₂) ∧
    Transfers false fd size 0 t₁ read ∧
    if read = true then Compares (List.range size) t₂ passed else t₂ = [] ∧ passed = false

/-- The calls of `test_io`, and what it returns. -/
inductive Tests (size : ℕ) (path : String) : List HHEvent → Bool → Prop
  | notOpened {fd : ℤ} (hopened : fd < 0) : Tests size path [⟨(), .openFile path, fd⟩] false
  | opened {fd : ℤ} {t₁ t₂ : List HHEvent} {written passed : Bool} {closed unlinked : ℤ}
      (hopened : 0 ≤ fd) (hwritten : Transfers true fd.toNat size 0 t₁ written)
      (hread : if written = true then ReadsBack fd.toNat size t₂ passed
        else t₂ = [] ∧ passed = false) :
      Tests size path (⟨(), .openFile path, fd⟩ :: ⟨(), .memset expected size, ()⟩ :: (t₁ ++ t₂ ++
          [⟨(), .close fd.toNat, closed⟩, ⟨(), .unlink path, unlinked⟩]))
        (passed && decide (closed = 0) && decide (unlinked = 0))

variable {limit fd size : ℕ} {path : String}

theorem over_readBack (written : Bool) : (readBack limit fd size written).Over
    (fun t passed => if written = true then ReadsBack fd size t passed else t = [] ∧ passed = false)
    (GaveUp limit) := by
  have hG : ∀ t t', GaveUp limit t' → GaveUp limit (t ++ t') := fun t t' h => h.append t
  unfold readBack
  refine Proc.Over.ite (fun hwritten => ?_) fun hwritten => ?_
  · refine Proc.Over.mono (Proc.Over.bind (Proc.over_ask (R := Call.Reply) (Call.memset 0 size))
      (fun _ => Proc.Over.bind (Q := fun read t passed =>
        if read = true then Compares (List.range size) t passed else t = [] ∧ passed = false)
        over_transfer (fun read => ?_) hG) hG) ?_
    · refine Proc.Over.ite (fun hread => ?_) fun hread => ?_
      · refine Proc.Over.mono (over_compareBytes _) fun t passed h => ?_
        rwa [if_pos hread]
      · refine Proc.Over.mono (Proc.over_pure false) fun t passed h => ?_
        rwa [if_neg hread]
    · rintro _ passed ⟨⟨⟩, _, _, rfl, ⟨⟨⟩, rfl⟩, read, t₁, t₂, rfl, htransfers, hcompares⟩
      rw [if_pos hwritten]
      exact ⟨t₁, t₂, read, rfl, htransfers, hcompares⟩
  · refine Proc.Over.mono (Proc.over_pure false) fun t passed h => ?_
    rwa [if_neg hwritten]

theorem over_testIo : (testIo limit size path).Over (Tests size path) (GaveUp limit) := by
  have hG : ∀ t t', GaveUp limit t' → GaveUp limit (t ++ t') := fun t t' h => h.append t
  unfold testIo
  refine Proc.Over.mono (Proc.Over.bind (Q := fun (fd : ℤ) t passed =>
    Tests size path (⟨(), .openFile path, fd⟩ :: t) passed)
    (Proc.over_ask (R := Call.Reply) (Call.openFile path)) (fun fd => ?_) hG) ?_
  · refine Proc.Over.ite (fun hopened => ?_) fun hopened => ?_
    · refine Proc.Over.mono (Proc.over_pure false) ?_
      rintro t passed ⟨rfl, rfl⟩
      exact .notOpened hopened
    · refine Proc.Over.mono (Proc.Over.bind (Proc.over_ask (R := Call.Reply) (Call.memset _ _))
        (fun _ => Proc.Over.bind over_transfer (fun written =>
          Proc.Over.bind (over_readBack written)
          (fun passed => Proc.Over.bind (Proc.over_ask (R := Call.Reply) (Call.close _))
            (fun closed => Proc.Over.bind (Proc.over_ask (R := Call.Reply) (Call.unlink path))
              (fun unlinked => Proc.over_pure _) hG) hG) hG) hG) hG) ?_
      rintro _ result ⟨⟨⟩, _, _, rfl, ⟨⟨⟩, rfl⟩, written, t₁, _, rfl, hwritten, passed, t₂, _, rfl,
        hread, closed, _, _, rfl, ⟨⟨⟩, rfl⟩, unlinked, _, _, rfl, ⟨⟨⟩, rfl⟩, rfl, rfl⟩
      have hverdict : (if unlinked ≠ 0 then false else if closed ≠ 0 then false else passed) =
          (passed && decide (closed = 0) && decide (unlinked = 0)) := by
        by_cases hc : closed = 0 <;> by_cases hu : unlinked = 0 <;> simp [hc, hu]
      have htests : Tests size path (⟨(), .openFile path, fd⟩ :: ⟨(), .memset expected size, ()⟩ ::
          (t₁ ++ t₂ ++ [⟨(), .close fd.toNat, closed⟩, ⟨(), .unlink path, unlinked⟩]))
          (passed && decide (closed = 0) && decide (unlinked = 0)) :=
        .opened (Int.not_lt.mp hopened) hwritten hread
      rw [← hverdict] at htests
      simpa using htests
  · rintro _ passed ⟨fd, _, t, rfl, ⟨⟨⟩, rfl⟩, h⟩
    exact h

/-! ## Full transfers -/

/-- The call transfers in this direction. -/
def moves (write : Bool) (e : HHEvent) : Bool :=
  match e.call with
  | .transfer write' _ _ _ _ => write' == write
  | _ => false

/-- Every chunk of the buffer has been transferred in this direction, as a whole. -/
structure Covered (write : Bool) (size : ℕ) (t : List HHEvent) : Prop where
  chain : Chain 0 (issued write t) size
  full : ∀ e ∈ t, moves write e = true → again e = true ∨ full e = true

variable {write : Bool} {t : List HHEvent}

theorem issuedBy_of_not_moves {e : HHEvent}
    (h : moves write e = false) : issuedBy write e = none := by
  obtain ⟨s, call, r⟩ := e
  cases call with
  | transfer write' fd start bytes offset =>
      have hne : write' ≠ write := by simpa [moves] using h
      exact if_neg fun hsame => hne hsame.1
  | _ => rfl

theorem issued_filter : issued write (t.filter (moves write)) = issued write t := by
  induction t with
  | nil => rfl
  | cons e t ih =>
      unfold issued at ih ⊢
      by_cases he : moves write e = true
      · rw [List.filter_cons_of_pos he, List.filterMap_cons, List.filterMap_cons, ih]
      · rw [List.filter_cons_of_neg he, ih, List.filterMap_cons,
          issuedBy_of_not_moves (Bool.eq_false_iff.mpr he)]

/-- Other calls do not matter. -/
theorem covered_filter : Covered write size (t.filter (moves write)) ↔ Covered write size t := by
  constructor
  · rintro ⟨hchain, hfull⟩
    rw [issued_filter] at hchain
    exact ⟨hchain, fun e he hmoves => hfull e (List.mem_filter.mpr ⟨he, hmoves⟩) hmoves⟩
  · rintro ⟨hchain, hfull⟩
    rw [← issued_filter] at hchain
    exact ⟨hchain, fun e he => hfull e (List.mem_of_mem_filter he)⟩

theorem filter_cons_of_not_moves {e : HHEvent} (h : moves write e = false) :
    (e :: t).filter (moves write) = t.filter (moves write) :=
  List.filter_cons_of_neg (by simp [h])

theorem Transfers.moves {passed : Bool} (h : Transfers write fd size 0 t passed) :
    ∀ e ∈ t, moves write e = true ∧ ∀ write' ≠ write, moves write' e = false := by
  intro e he
  obtain ⟨p, -, hcall⟩ := h.calls e he
  unfold HalHostIo.moves
  rw [hcall]
  exact ⟨beq_iff_eq.mpr rfl, fun write' hne => beq_eq_false_iff_ne.mpr hne.symm⟩

theorem Transfers.filter_same {passed : Bool} (h : Transfers write fd size 0 t passed) :
    t.filter (HalHostIo.moves write) = t :=
  List.filter_eq_self.mpr fun e he => (h.moves e he).1

theorem Transfers.filter_other {passed : Bool} (h : Transfers write fd size 0 t passed)
    {write' : Bool} (hne : write' ≠ write) : t.filter (HalHostIo.moves write') = [] :=
  List.filter_eq_nil_iff.mpr fun e he => by simp [(h.moves e he).2 write' hne]

theorem Compares.filter {places : List ℕ} {passed : Bool} (h : Compares places t passed) :
    t.filter (HalHostIo.moves write) = [] := by
  apply List.filter_eq_nil_iff.mpr
  intro e he
  obtain ⟨i, hcall⟩ := h.calls e he
  simp [HalHostIo.moves, hcall]

theorem Transfers.passed_iff_covered {passed : Bool} (h : Transfers write fd size 0 t passed) :
    passed = true ↔ Covered write size t := by
  constructor
  · intro hpassed
    obtain ⟨stop, -, hchain, hstop⟩ := h.chain
    rw [hstop hpassed] at hchain
    exact ⟨hchain, fun e he _ => h.passed_iff.mp hpassed e he⟩
  · exact fun hcovered => h.passed_iff.mpr fun e he => hcovered.full e he (h.moves e he).1

/-- The call is about the buffer, and not about the file as such. -/
def inner (e : HHEvent) : Bool :=
  match e.call with
  | .transfer _ _ _ _ _ | .memset _ _ | .load _ => true
  | .openFile _ | .close _ | .unlink _ => false

theorem Transfers.inner {passed : Bool} (h : Transfers write fd size 0 t passed) :
    ∀ e ∈ t, inner e = true := by
  intro e he
  obtain ⟨p, -, hcall⟩ := h.calls e he
  rw [HalHostIo.inner, hcall]

theorem Compares.inner {places : List ℕ} {passed : Bool} (h : Compares places t passed) :
    ∀ e ∈ t, inner e = true := by
  intro e he
  obtain ⟨i, hcall⟩ := h.calls e he
  rw [HalHostIo.inner, hcall]

namespace ReadsBack

variable {passed : Bool}

theorem inner (h : ReadsBack fd size t passed) : ∀ e ∈ t, inner e = true := by
  obtain ⟨t₁, t₂, read, rfl, htransfers, hcompares⟩ := h.split
  refine List.forall_mem_cons.mpr ⟨rfl, List.forall_mem_append.mpr ⟨htransfers.inner, ?_⟩⟩
  by_cases hread : read = true
  · rw [if_pos hread] at hcompares
    exact hcompares.inner
  · rw [if_neg hread] at hcompares
    rw [hcompares.1]
    exact nofun

/-- Nothing is written. -/
theorem filter_write (h : ReadsBack fd size t passed) : t.filter (moves true) = [] := by
  obtain ⟨t₁, t₂, read, rfl, htransfers, hcompares⟩ := h.split
  have hempty : t₂.filter (moves true) = [] := by
    by_cases hread : read = true
    · rw [if_pos hread] at hcompares
      exact hcompares.filter
    · rw [if_neg hread] at hcompares
      rw [hcompares.1]
      rfl
  rw [filter_cons_of_not_moves rfl, List.filter_append, htransfers.filter_other (by decide), hempty]
  rfl

/-- It passes if the read was complete and has brought back every byte. -/
theorem passed_iff (h : ReadsBack fd size t passed) {m m' : ℕ → UInt8}
    (hbuffer : Along Changes m t m') :
    passed = true ↔ Covered false size t ∧ ∀ i < size, m' i = expected := by
  obtain ⟨t₁, t₂, read, rfl, htransfers, hcompares⟩ := h.split
  obtain ⟨m₁, -, hrest⟩ := along_cons.mp hbuffer
  obtain ⟨m₂, -, hcompared⟩ := along_append.mp hrest
  have hcovered : (t₂.filter (moves false) = []) →
      (Covered false size (⟨(), .memset 0 size, ()⟩ :: (t₁ ++ t₂)) ↔ read = true) := by
    intro hempty
    rw [htransfers.passed_iff_covered, ← covered_filter, filter_cons_of_not_moves rfl,
      List.filter_append, htransfers.filter_same, hempty, List.append_nil]
  by_cases hread : read = true
  · rw [if_pos hread] at hcompares
    obtain ⟨rfl, hiff⟩ := hcompares.buffer _ _ hcompared
    rw [hiff, hcovered hcompares.filter]
    simp only [hread, true_and, List.mem_range]
  · rw [if_neg hread] at hcompares
    obtain ⟨rfl, rfl⟩ := hcompares
    rw [hcovered rfl]
    exact ⟨nofun, fun h => absurd h.1 hread⟩

end ReadsBack

/-! ## The verdict -/

/-- What a test has to be like to pass; `m` is the buffer at the end. -/
structure Succeeded (size : ℕ) (t : List HHEvent) (m : ℕ → UInt8) : Prop where
  opened : ∀ path r, ⟨(), .openFile path, r⟩ ∈ t → (0 : ℤ) ≤ r
  written : Covered true size t
  read : Covered false size t
  bytes : ∀ i < size, m i = expected
  closed : ∀ fd r, ⟨(), .close fd, r⟩ ∈ t → r = (0 : ℤ)
  unlinked : ∀ path r, ⟨(), .unlink path, r⟩ ∈ t → r = (0 : ℤ)

section Tests

variable {r : ℤ} {t₁ t₂ : List HHEvent} {closed unlinked : ℤ}

/-- The calls of a test whose file was opened. -/
def testEvents (size : ℕ) (path : String) (r : ℤ) (t₁ t₂ : List HHEvent) (closed unlinked : ℤ) :
    List HHEvent :=
  ⟨(), .openFile path, r⟩ :: ⟨(), .memset expected size, ()⟩ :: (t₁ ++ t₂ ++
    [⟨(), .close r.toNat, closed⟩, ⟨(), .unlink path, unlinked⟩])

theorem filter_testEvents : (testEvents size path r t₁ t₂ closed unlinked).filter (moves write) =
    t₁.filter (moves write) ++ t₂.filter (moves write) := by
  unfold testEvents
  rw [filter_cons_of_not_moves rfl, filter_cons_of_not_moves rfl, List.filter_append,
    List.filter_append]
  exact List.append_nil _

/-- Neither `close` nor `unlink` changes the buffer. -/
theorem along_testEvents {m m' : ℕ → UInt8}
    (h : Along Changes m (testEvents size path r t₁ t₂ closed unlinked) m') :
    ∃ m₁ m₂, Along Changes m₁ t₁ m₂ ∧ Along Changes m₂ t₂ m' := by
  obtain ⟨m₁, -, h⟩ := along_cons.mp h
  obtain ⟨m₂, -, h⟩ := along_cons.mp h
  obtain ⟨m₃, hbefore, hend⟩ := along_append.mp h
  obtain ⟨m₄, hwrite, hread⟩ := along_append.mp hbefore
  obtain ⟨m₅, hclose, hlast⟩ := along_cons.mp hend
  have hunlink := along_singleton.mp hlast
  change m₅ = m₃ at hclose
  change m' = m₅ at hunlink
  rw [hunlink, hclose]
  exact ⟨m₂, m₄, hwrite, hread⟩

/-- The calls about the file as such. -/
theorem mem_testEvents {e : HHEvent} (h₁ : ∀ e ∈ t₁, inner e = true)
    (h₂ : ∀ e ∈ t₂, inner e = true) (he : inner e = false) :
    e ∈ testEvents size path r t₁ t₂ closed unlinked ↔
      e = ⟨(), .openFile path, r⟩ ∨ e = ⟨(), .close r.toNat, closed⟩ ∨
        e = ⟨(), .unlink path, unlinked⟩ := by
  have hnot₁ : e ∉ t₁ := fun hmem => by simp [h₁ e hmem] at he
  have hnot₂ : e ∉ t₂ := fun hmem => by simp [h₂ e hmem] at he
  have hmemset : e ≠ ⟨(), .memset expected size, ()⟩ := by
    rintro rfl
    cases he
  unfold testEvents
  simp [hnot₁, hnot₂, hmemset]

end Tests

/-- What is done between the write and `close`. -/
theorem inner_of_read {written passed : Bool}
    (h : if written = true then ReadsBack fd size t passed else t = [] ∧ passed = false) :
    ∀ e ∈ t, inner e = true := by
  by_cases hwritten : written = true
  · rw [if_pos hwritten] at h
    exact h.inner
  · rw [if_neg hwritten] at h
    rw [h.1]
    exact nofun

theorem filter_write_of_read {written passed : Bool}
    (h : if written = true then ReadsBack fd size t passed else t = [] ∧ passed = false) :
    t.filter (moves true) = [] := by
  by_cases hwritten : written = true
  · rw [if_pos hwritten] at h
    exact h.filter_write
  · rw [if_neg hwritten] at h
    rw [h.1]
    rfl

theorem passed_iff {passed : Bool} {m m' : ℕ → UInt8} (h : Tests size path t passed)
    (hbuffer : Along Changes m t m') : passed = true ↔ Succeeded size t m' := by
  cases h with
  | notOpened hopened =>
      refine ⟨nofun, fun hsucceeded => ?_⟩
      have hpos := hsucceeded.opened _ _ List.mem_cons_self
      omega
  | @opened r t₁ t₂ written passed closed unlinked hopened hwritten hread =>
      change Along Changes m (testEvents size path r t₁ t₂ closed unlinked) m' at hbuffer
      change _ ↔ Succeeded size (testEvents size path r t₁ t₂ closed unlinked) m'
      obtain ⟨m₁, m₂, -, hafter⟩ := along_testEvents hbuffer
      have hmem : ∀ e : HHEvent, inner e = false →
          (e ∈ testEvents size path r t₁ t₂ closed unlinked ↔ e = ⟨(), .openFile path, r⟩ ∨
            e = ⟨(), .close r.toNat, closed⟩ ∨ e = ⟨(), .unlink path, unlinked⟩) :=
        fun e he => mem_testEvents hwritten.inner (inner_of_read hread) he
      -- the two tests transfer in different directions, so each is covered by its own part
      have hcovered : ∀ write, Covered write size (testEvents size path r t₁ t₂ closed unlinked) ↔
          Covered write size (t₁.filter (moves write) ++ t₂.filter (moves write)) := by
        intro write
        rw [← covered_filter, filter_testEvents]
      have hwrite : Covered true size (testEvents size path r t₁ t₂ closed unlinked) ↔
          written = true := by
        rw [hcovered, hwritten.filter_same, filter_write_of_read hread, List.append_nil,
          hwritten.passed_iff_covered]
      have hreads : Covered false size (testEvents size path r t₁ t₂ closed unlinked) ↔
          Covered false size t₂ := by
        rw [hcovered, hwritten.filter_other (by decide), List.nil_append, covered_filter]
      rw [Bool.and_eq_true, Bool.and_eq_true, decide_eq_true_eq, decide_eq_true_eq]
      constructor
      -- a read that passes has been made after a complete write
      · rintro ⟨⟨hpassed, hclosed⟩, hunlinked⟩
        have hcomplete : written = true := by
          by_contra hnot
          rw [if_neg hnot] at hread
          exact Bool.false_ne_true (hread.2.symm.trans hpassed)
        rw [if_pos hcomplete] at hread
        obtain ⟨hback, hbytes⟩ := (hread.passed_iff hafter).mp hpassed
        refine ⟨?_, hwrite.mpr hcomplete, hreads.mpr hback, hbytes, ?_, ?_⟩
        · intro path' r' he
          rcases (hmem _ rfl).mp he with h | h | h <;> cases h
          exact hopened
        · intro fd' r' he
          rcases (hmem _ rfl).mp he with h | h | h <;> cases h
          exact hclosed
        · intro path' r' he
          rcases (hmem _ rfl).mp he with h | h | h <;> cases h
          exact hunlinked
      · intro h
        have hcomplete := hwrite.mp h.written
        rw [if_pos hcomplete] at hread
        have hpassed := (hread.passed_iff hafter).mpr ⟨hreads.mp h.read, h.bytes⟩
        have hclosed := h.closed _ _ ((hmem _ rfl).mpr (.inr (.inl rfl)))
        have hunlinked := h.unlinked _ _ ((hmem _ rfl).mpr (.inr (.inr rfl)))
        exact ⟨⟨hpassed, hclosed⟩, hunlinked⟩

/-! ## The file -/

/-- The descriptor that a call closes. -/
def closedBy (e : HHEvent) : Option ℕ :=
  match e.call with
  | .close fd => some fd
  | _ => none

/-- The path that a call removes. -/
def unlinkedBy (e : HHEvent) : Option String :=
  match e.call with
  | .unlink path => some path
  | _ => none

theorem closedBy_inner (h : ∀ e ∈ t, inner e = true) :
    t.filterMap closedBy = [] ∧ t.filterMap unlinkedBy = [] := by
  have hcall : ∀ e ∈ t, closedBy e = none ∧ unlinkedBy e = none := by
    intro e he
    have hinner := h e he
    obtain ⟨s, call, r⟩ := e
    cases call <;> first | exact ⟨rfl, rfl⟩ | cases hinner
  exact ⟨List.filterMap_eq_nil_iff.mpr fun e he => (hcall e he).1,
    List.filterMap_eq_nil_iff.mpr fun e he => (hcall e he).2⟩

/-- A file that was opened is closed and removed. -/
theorem closed_of_opened {passed : Bool} {r : ℤ} {path' : String} (h : Tests size path t passed)
    (hopened : 0 ≤ r) (hmem : ⟨(), .openFile path', r⟩ ∈ t) :
    t.filterMap closedBy = [r.toNat] ∧ t.filterMap unlinkedBy = [path'] := by
  cases h with
  | notOpened hfailed =>
      cases List.mem_singleton.mp hmem
      omega
  | @opened r' t₁ t₂ written passed closed unlinked _ hwritten hread =>
      change _ ∈ testEvents size path r' t₁ t₂ closed unlinked at hmem
      rcases (mem_testEvents hwritten.inner (inner_of_read hread) rfl).mp hmem with h | h | h <;>
        cases h
      obtain ⟨hclosed₁, hunlinked₁⟩ := closedBy_inner hwritten.inner
      obtain ⟨hclosed₂, hunlinked₂⟩ := closedBy_inner (inner_of_read hread)
      constructor
      · rw [List.filterMap_cons, List.filterMap_cons, List.filterMap_append, List.filterMap_append,
          hclosed₁, hclosed₂]
        rfl
      · rw [List.filterMap_cons, List.filterMap_cons, List.filterMap_append, List.filterMap_append,
          hunlinked₁, hunlinked₂]
        rfl

/-! ## The whole -/

/-- What `transfer` and `test_io` do, for a buffer of `size` bytes.  A loop around a call that is
interrupted gives up after `limit` turns in a row, and nothing else keeps them from returning.  Up
to the sizes that `main` accepts, the chunks lie in the file as they do in the buffer. -/
structure Reports (limit size : ℕ) (path : String) : Prop where
  chunks : ∀ write fd t passed, (transfer limit write fd size ()).Runs t (.ok passed, ()) →
    Transfers write fd size 0 t passed ∧ (passed = true → Tiles (issued write t) size)
  places : size < 2 ^ 63 → ∀ write fd t passed,
    (transfer limit write fd size ()).Runs t (.ok passed, ()) →
    ∀ e ∈ t, ∃ p ∈ issued write t, e.call = .transfer write fd p.start p.size p.start
  transferReturns : ∀ write fd t, (transfer limit write fd size ()).Stops t none → GaveUp limit t
  testReturns : ∀ t, (testIo limit size path ()).Stops t none → GaveUp limit t
  passes : ∀ t passed m m', (testIo limit size path ()).Runs t (.ok passed, ()) →
    Along Changes m t m' → (passed = true ↔ Succeeded size t m')
  unchanged : ∀ t t₁ e t₂ passed m m₁ m', (testIo limit size path ()).Runs t (.ok passed, ()) →
    t = t₁ ++ e :: t₂ → e.call = .memset 0 size → Along Changes m (t₁ ++ [e]) m₁ →
    Along Changes m₁ t₂ m' → ∀ i < size, m' i = m₁ i → passed = false
  closed : ∀ t passed r path', (testIo limit size path ()).Runs t (.ok passed, ()) → (0 : ℤ) ≤ r →
    ⟨(), .openFile path', r⟩ ∈ t →
    t.filterMap closedBy = [r.toNat] ∧ t.filterMap unlinkedBy = [path']

/-- **The chunks cover the buffer, and the verdict is right.** -/
theorem test_io_reports (limit size : ℕ) (path : String) : Reports limit size path where
  chunks write fd t passed hruns := by
    have htransfers := over_transfer.of_runs hruns
    refine ⟨htransfers, fun hpassed => ?_⟩
    obtain ⟨stop, -, hchain, hstop⟩ := htransfers.chain
    rw [hstop hpassed] at hchain
    exact hchain.tiles
  places hsize _ _ _ _ hruns := (over_transfer.of_runs hruns).places hsize
  transferReturns _ _ _ hstops := over_transfer.of_stops hstops
  testReturns _ hstops := over_testIo.of_stops hstops
  passes _ _ _ _ hruns hbuffer := passed_iff (over_testIo.of_runs hruns) hbuffer
  unchanged t t₁ e t₂ passed m m₁ m' hruns ht hclear hbefore hafter i hi hsame := by
    have hzero : m₁ i = 0 := by
      obtain ⟨m₀, -, hcleared⟩ := along_concat.mp hbefore
      obtain ⟨s, call, r⟩ := e
      obtain rfl : call = .memset 0 size := hclear
      change m₁ = fun i => if i < size then 0 else m₀ i at hcleared
      rw [hcleared]
      exact if_pos hi
    have hbuffer : Along Changes m t m' := by
      rw [ht, ← List.singleton_append, ← List.append_assoc]
      exact along_append.mpr ⟨m₁, hbefore, hafter⟩
    by_contra hpassed
    have hsucceeded := (passed_iff (over_testIo.of_runs hruns) hbuffer).mp
      (Bool.not_eq_false _ ▸ hpassed)
    have hbyte := hsucceeded.bytes i hi
    rw [hsame, hzero] at hbyte
    cases hbyte
  closed _ _ _ _ hruns hopened hmem := closed_of_opened (over_testIo.of_runs hruns) hopened hmem

end SharingProbe.HalHostIo
