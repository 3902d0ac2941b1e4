import SharingProbe.Library.Evolution
import SharingProbe.MultiShare.Model
import SharingProbe.Share.Pattern
import SharingProbe.Share.Rules

/-!
# Reading a block

Between the two copies of `readBlock` the data are in HBM, and after them in `staging`.
Both are cleared before the copy into them.  What `verify` sees is therefore the block if
both copies have moved it, and else zeros, and no write of the run but the expected one
leaves the expected pattern.
-/

namespace SharingProbe.MultiShare

open Interaction Evolution Share

/-! ## The writes of a run -/

/-- What an owner writes into its block: in the test of the processor, through the file, and
in a round. -/
inductive Write where
  | cpu (rank : ℕ)
  | aio (rank : ℕ)
  | round (round owner : ℕ)
  deriving DecidableEq, Repr

namespace Write

/-- The seed of a write. -/
def seed (cfg : Config) : Write → UInt64
  | cpu rank => cpuSeed rank
  | aio rank => aioSeed rank
  | round k owner => cfg.seed k owner

/-- The write is one of the run. -/
def In (cfg : Config) : Write → Prop
  | cpu rank => rank < cfg.count
  | aio rank => rank < cfg.count
  | round k owner => k < cfg.rounds ∧ owner < cfg.count

/-- The seed as a number. -/
def number (cfg : Config) : Write → ℕ
  | cpu rank => 100 + rank
  | aio rank => 200 + rank
  | round k owner => 300 + k * cfg.count + owner

variable {cfg : Config}

theorem seed_eq (w : Write) : w.seed cfg = UInt64.ofNat (w.number cfg) := by
  cases w <;> rfl

theorem index_lt {k owner : ℕ} (hk : k < cfg.rounds) (howner : owner < cfg.count) :
    k * cfg.count + owner < cfg.rounds * cfg.count :=
  calc k * cfg.count + owner < k * cfg.count + cfg.count := by omega
    _ = (k + 1) * cfg.count := (Nat.succ_mul _ _).symm
    _ ≤ cfg.rounds * cfg.count := Nat.mul_le_mul_right _ hk

theorem number_lt (hcount : cfg.count ≤ 64) (hrounds : cfg.rounds * cfg.count < 2 ^ 63)
    {w : Write} (hw : w.In cfg) : w.number cfg < 2 ^ 64 := by
  cases w with
  | cpu rank =>
      change rank < cfg.count at hw
      change 100 + rank < 2 ^ 64
      omega
  | aio rank =>
      change rank < cfg.count at hw
      change 200 + rank < 2 ^ 64
      omega
  | round k owner =>
      have hindex := index_lt hw.1 hw.2
      change 300 + k * cfg.count + owner < 2 ^ 64
      omega

/-- Within the rounds, a number determines round and owner. -/
theorem index_inj {n k k' owner owner' : ℕ} (howner : owner < n) (howner' : owner' < n)
    (h : k * n + owner = k' * n + owner') : k = k' ∧ owner = owner' := by
  have hpos : 0 < n := by omega
  have hdiv : ∀ {k owner}, owner < n → (k * n + owner) / n = k := fun {k owner} hlt => by
    rw [Nat.add_comm, Nat.add_mul_div_right _ _ hpos, Nat.div_eq_of_lt hlt, Nat.zero_add]
  have hk : k = k' := by
    calc k = (k * n + owner) / n := (hdiv howner).symm
      _ = (k' * n + owner') / n := by rw [h]
      _ = k' := hdiv howner'
  subst hk
  exact ⟨rfl, by omega⟩

/-- No two writes of a run have the same number: 100 to 163, 200 to 263, and from 300 on. -/
theorem number_inj (hcount : cfg.count ≤ 64) {w w' : Write} (hw : w.In cfg) (hw' : w'.In cfg)
    (h : w.number cfg = w'.number cfg) : w = w' := by
  cases w with
  | cpu rank =>
      change rank < cfg.count at hw
      cases w' with
      | cpu rank' => simpa [number] using h
      | aio rank' =>
          change 100 + rank = 200 + rank' at h
          omega
      | round k owner =>
          change 100 + rank = 300 + k * cfg.count + owner at h
          omega
  | aio rank =>
      change rank < cfg.count at hw
      cases w' with
      | cpu rank' =>
          change rank' < cfg.count at hw'
          change 200 + rank = 100 + rank' at h
          omega
      | aio rank' => simpa [number] using h
      | round k owner =>
          change 200 + rank = 300 + k * cfg.count + owner at h
          omega
  | round k owner =>
      cases w' with
      | cpu rank' =>
          change rank' < cfg.count at hw'
          change 300 + k * cfg.count + owner = 100 + rank' at h
          omega
      | aio rank' =>
          change rank' < cfg.count at hw'
          change 300 + k * cfg.count + owner = 200 + rank' at h
          omega
      | round k' owner' =>
          change 300 + k * cfg.count + owner = 300 + k' * cfg.count + owner' at h
          have hindex : k * cfg.count + owner = k' * cfg.count + owner' := by omega
          obtain ⟨rfl, rfl⟩ := index_inj hw.2 hw'.2 hindex
          rfl

/-- No two writes of a run have the same seed. -/
theorem seed_inj (hcount : cfg.count ≤ 64) (hrounds : cfg.rounds * cfg.count < 2 ^ 63)
    {w w' : Write} (hw : w.In cfg) (hw' : w'.In cfg) (h : w.seed cfg = w'.seed cfg) : w = w' := by
  apply number_inj hcount hw hw'
  rw [seed_eq, seed_eq] at h
  have htoNat := congrArg UInt64.toNat h
  rwa [UInt64.toNat_ofNat_of_lt' (number_lt hcount hrounds hw),
    UInt64.toNat_ofNat_of_lt' (number_lt hcount hrounds hw')] at htoNat

end Write

/-! ## The two copies -/

/-- What a reader has of its own: the buffer in HBM, and `staging`. -/
structure Own where
  device : ℕ → UInt64
  staging : ℕ → UInt64

section Copies

variable (block : ℕ → UInt64) (moved : Buffer → Bool)

/-- What a successful call leaves there, if the shared block holds `block` and `moved` says
into which of the two the copies move their data. -/
def Own.next (m : Own) : Share.Call → Own
  | .check (.aclrtMemset .device) _ => { m with device := fun _ => 0 }
  | .check (.aclrtMemcpyAsync .device (.host _) _) _ =>
      if moved .device = true then { m with device := block } else m
  | .check (.aclrtMemcpyAsync .staging .device _) _ =>
      if moved .staging = true then { m with staging := m.device } else m
  | .memset .staging => { m with staging := fun _ => 0 }
  | _ => m

/-- The call succeeds, and a comparison reads what is there. -/
def Own.Answers (m : Own) : (c : Share.Call) → Share.Call.Reply c → Prop
  | .check _ _, r => r.ret = 0
  | .compare .staging i _ _, r => r = m.staging i
  | _, _ => True

/-- One call of the reader. -/
def Moves (m : Own) (e : SHEvent) (m' : Own) : Prop :=
  m.Answers e.call e.reply ∧ m' = m.next block moved e.call

/-- What comes to `staging`. -/
def received : ℕ → UInt64 :=
  if moved .device = true ∧ moved .staging = true then block else fun _ => 0

end Copies

/-- The last call is a comparison that fails. -/
def VerifyThrows (t : List SHEvent) : Prop :=
  ∃ t' e, t = t' ++ [e] ∧ mismatch e.call e.reply = true

/-- Any call is allowed. -/
def anyCall (_t : List SHEvent) (_p : Process) (_c : Share.Call) : Prop := True

section Reader

variable {block : ℕ → UInt64} {moved : Buffer → Bool} {m₀ : Own} {D S D' S' : ℕ → UInt64}
  {bytes : ℕ} {seed : UInt64}

/-- What is known of the two buffers of the reader. -/
def Knows (block : ℕ → UInt64) (moved : Buffer → Bool) (m₀ : Own) (D S : ℕ → UInt64)
    (_p : Process) (t : List SHEvent) : Prop :=
  ∀ m, Along (Moves block moved) m₀ t m → m.device = D ∧ m.staging = S

/-- `verify` has thrown, and rightly so. -/
def Rejects (block : ℕ → UInt64) (moved : Buffer → Bool) (m₀ : Own) (bytes : ℕ) (seed : UInt64)
    (_p : Process) (t : List SHEvent) : Prop :=
  ∀ m, Along (Moves block moved) m₀ t m → ¬Share.Holds (received block moved) bytes seed ∧
    VerifyThrows t

theorem Knows.next {p : Process} {t : List SHEvent} (h : Knows block moved m₀ D S p t) {e : SHEvent}
    (hnext : ∀ m : Own, m.device = D → m.staging = S →
      (m.next block moved e.call).device = D' ∧ (m.next block moved e.call).staging = S') :
    Knows block moved m₀ D' S' p (t ++ [e]) := by
  intro m' hm'
  obtain ⟨m, hm, -, rfl⟩ := along_concat.mp hm'
  obtain ⟨hdevice, hstaging⟩ := h m hm
  exact hnext m hdevice hstaging

/-- A call that is taken to succeed. -/
theorem triple_succeeds {op : Share.Op} {name : String}
    (hnext : ∀ m : Own, m.device = D → m.staging = S →
      (m.next block moved (.check op name)).device = D' ∧
        (m.next block moved (.check op name)).staging = S') :
    Proc.Triple anyCall (Knows block moved m₀ D S) (check op name)
      (fun _ => Knows block moved m₀ D' S') (Rejects block moved m₀ bytes seed) := by
  apply triple_check
  · exact fun _ _ _ => trivial
  · exact fun p t r h _ => h.next hnext
  · intro p t r h hret m hm
    obtain ⟨_, -, hanswers, -⟩ := along_concat.mp hm
    exact absurd hanswers hret

theorem triple_copy {dst src : Buffer} {round : ℕ} {purpose : String}
    (hnext : ∀ m : Own, m.device = D → m.staging = S →
      (m.next block moved (.check (.aclrtMemcpyAsync dst src round) purpose)).device = D' ∧
        (m.next block moved (.check (.aclrtMemcpyAsync dst src round) purpose)).staging = S') :
    Proc.Triple anyCall (Knows block moved m₀ D S) (copy dst src round purpose)
      (fun _ => Knows block moved m₀ D' S') (Rejects block moved m₀ bytes seed) := by
  unfold copy
  refine (triple_succeeds hnext).bind fun _ => ?_
  refine Proc.Triple.bind (triple_succeeds fun m hdevice hstaging => ⟨hdevice, hstaging⟩)
    fun _ => Proc.triple_pure fun _ _ h => h

/-- `verify` passes if the words are those of the pattern, and only then. -/
theorem triple_verify_staging {phase : String} :
    Proc.Triple anyCall (Knows block moved m₀ D (received block moved))
      (verify .staging bytes seed phase)
      (fun _ _ t => ∀ m, Along (Moves block moved) m₀ t m →
        Share.Holds (received block moved) bytes seed)
      (Rejects block moved m₀ bytes seed) := by
  unfold verify
  refine Proc.Triple.weaken (Proc.triple_forM_range (I := fun k p t =>
    Knows block moved m₀ D (received block moved) p t ∧
      ∀ m, Along (Moves block moved) m₀ t m → ∀ i < k, received block moved i = pattern i seed) ?_)
    (fun p t h => ⟨h, fun m hm i hi => absurd hi (by omega)⟩) (fun _ _ _ h => h.2) fun _ _ h => h
  intro k hk
  refine Proc.Triple.bind (Q := fun (actual : UInt64) p t' => ∃ t e, t' = t ++ [e] ∧
    e = ⟨p, .compare .staging k (pattern k seed) phase, actual⟩ ∧
    Knows block moved m₀ D (received block moved) p t ∧
      ∀ m, Along (Moves block moved) m₀ t m → ∀ i < k, received block moved i = pattern i seed)
    (Proc.triple_ask (fun _ _ _ => trivial) fun p t r h => ⟨t, _, rfl, rfl, h⟩) fun actual => ?_
  -- the comparison reads the word that has come to `staging`
  have hread : ∀ {p t m}, Knows block moved m₀ D (received block moved) p t →
      Along (Moves block moved) m₀
        (t ++ [⟨p, .compare .staging k (pattern k seed) phase, actual⟩]) m →
      actual = received block moved k := by
    intro p t m h hm
    obtain ⟨m', hm', hanswers, -⟩ := along_concat.mp hm
    rw [← (h m' hm').2]
    exact hanswers
  apply Proc.triple_onlyIf
  · intro hne
    apply triple_fail
    rintro p _ ⟨t, e, rfl, rfl, h, -⟩ m hm
    refine ⟨fun hholds => hne ?_, t, _, rfl, bne_iff_ne.mpr hne⟩
    rw [hread h hm]
    exact hholds k hk
  · rintro heq p _ ⟨t, e, rfl, rfl, h, hbefore⟩
    refine ⟨h.next fun m hdevice hstaging => ⟨hdevice, hstaging⟩, fun m hm i hi => ?_⟩
    by_cases hik : i = k
    · rw [hik, ← hread h hm]
      exact not_not.mp heq
    · obtain ⟨m', hm', -⟩ := along_concat.mp hm
      exact hbefore m' hm' i (by omega)

variable (block moved m₀) in
/-- The whole: both buffers are cleared, and what comes to `staging` is compared. -/
theorem triple_readBlock {cfg : Config} {round owner : ℕ} :
    Proc.Triple anyCall (fun _ t => t = []) (readBlock cfg round owner)
      (fun _ _ t => ∀ m, Along (Moves block moved) m₀ t m →
        Share.Holds (received block moved) cfg.bytes (cfg.seed round owner))
      (Rejects block moved m₀ cfg.bytes (cfg.seed round owner)) := by
  unfold readBlock
  refine Proc.Triple.bind (Q := fun _ => Knows block moved m₀ (fun _ => 0) m₀.staging) ?_
    fun _ => ?_
  · refine Proc.Triple.weaken (P := Knows block moved m₀ m₀.device m₀.staging) ?_ ?_
      (fun _ _ _ h => h) fun _ _ h => h
    · exact triple_succeeds fun m _ hstaging => ⟨rfl, hstaging⟩
    rintro p t rfl m hm
    rw [along_nil.mp hm]
    exact ⟨rfl, rfl⟩
  refine Proc.Triple.bind (Q := fun _ => Knows block moved m₀
    (if moved .device = true then block else fun _ => 0) m₀.staging) ?_ fun _ => ?_
  · refine triple_copy fun m hdevice hstaging => ?_
    unfold Own.next
    dsimp only
    split
    · exact ⟨rfl, hstaging⟩
    · exact ⟨hdevice, hstaging⟩
  refine Proc.Triple.bind (Q := fun _ => Knows block moved m₀
    (if moved .device = true then block else fun _ => 0) fun _ => 0) ?_ fun _ => ?_
  · apply Proc.triple_ask
    · exact fun _ _ _ => trivial
    · exact fun p t r h => h.next fun m hdevice _ => ⟨hdevice, rfl⟩
  refine Proc.Triple.bind (Q := fun _ => Knows block moved m₀
    (if moved .device = true then block else fun _ => 0) (received block moved)) ?_
    fun _ => triple_verify_staging
  refine triple_copy fun m hdevice hstaging => ?_
  unfold Own.next received
  dsimp only
  by_cases hstage : moved .staging = true
  · rw [if_pos hstage]
    simp [hdevice, hstage]
  · rw [if_neg hstage]
    simp [hdevice, hstaging, hstage]

end Reader

/-- What `READ_ONLY_BLOCK` says of a reader in one turn: with a copy that has moved nothing, or
with the data of another write, it throws, and with the expected data it passes. -/
structure Detects (cfg : Config) (round owner : ℕ) (block : ℕ → UInt64) (moved : Buffer → Bool)
    (t : List SHEvent) (x : Except String PUnit) : Prop where
  dropped : moved .device = false ∨ moved .staging = false → x.isOk = false ∧ VerifyThrows t
  stale : ∀ w : Write, w.In cfg → w ≠ .round round owner →
    Share.Holds block cfg.bytes (w.seed cfg) →
    x.isOk = false ∧ VerifyThrows t
  expected : moved .device = true → moved .staging = true →
    Share.Holds block cfg.bytes (cfg.seed round owner) → x.isOk = true

/-- **`READ_ONLY_BLOCK` is sound.**  Whatever the two buffers of a reader hold before, and
whatever the shared block holds. -/
theorem read_block_sound {cfg : Config} (hcount : cfg.count ≤ 64)
    (hrounds : cfg.rounds * cfg.count < 2 ^ 63) (hbytes : 0 < cfg.bytes)
    (haligned : 2 * 2 ^ 20 ∣ cfg.bytes) {round owner : ℕ} (hround : round < cfg.rounds)
    (howner : owner < cfg.count) :
    ∀ block moved m m' p p' t x, (readBlock cfg round owner p).Runs t (x, p') →
      Along (Moves block moved) m t m' → Detects cfg round owner block moved t x := by
  intro block moved m m' p p' t x hrun hmoves
  have hbytes8 : 8 ≤ cfg.bytes := by
    have hle := Nat.le_of_dvd hbytes haligned
    omega
  have hexpected : (Write.round round owner).In cfg := ⟨hround, howner⟩
  -- memory that is cleared holds no pattern
  have hseed : cfg.seed round owner ≠ 0 := by
    intro hzero
    have hlt := Write.number_lt hcount hrounds hexpected
    have htoNat : (cfg.seed round owner).toNat = 300 + round * cfg.count + owner :=
      UInt64.toNat_ofNat_of_lt' hlt
    rw [hzero] at htoNat
    change 0 = 300 + round * cfg.count + owner at htoNat
    omega
  have hpost := Prog.Meets.post_of_runs
    (triple_readBlock block moved m p [] rfl) hrun
  -- the outcome follows what has come to `staging`
  have hpass : Share.Holds (received block moved) cfg.bytes (cfg.seed round owner) →
    x.isOk = true := by
    intro hholds
    cases x with
    | ok => rfl
    | error e => exact absurd hholds (hpost m' hmoves).1
  have hthrow : ¬Share.Holds (received block moved) cfg.bytes (cfg.seed round owner) →
      x.isOk = false ∧ VerifyThrows t := by
    intro hnot
    cases x with
    | ok => exact absurd (hpost m' hmoves) hnot
    | error e => exact ⟨rfl, (hpost m' hmoves).2⟩
  have hzero : ¬(moved .device = true ∧ moved .staging = true) →
      ¬Share.Holds (received block moved) cfg.bytes (cfg.seed round owner) := by
    intro hdropped
    rw [received, if_neg hdropped]
    exact not_holds_zero hseed hbytes8
  refine ⟨fun hdropped => hthrow (hzero ?_), fun w hw hne hholds => hthrow ?_, ?_⟩
  · rintro ⟨hdevice, hstaging⟩
    rcases hdropped with h | h
    · rw [hdevice] at h
      cases h
    · rw [hstaging] at h
      cases h
  · by_cases hmoved : moved .device = true ∧ moved .staging = true
    · rw [received, if_pos hmoved]
      intro hexpect
      exact hne (Write.seed_inj hcount hrounds hw hexpected (hholds.unique hexpect hbytes8))
    · exact hzero hmoved
  · intro hdevice hstaging hholds
    apply hpass
    rwa [received, if_pos ⟨hdevice, hstaging⟩]

/-- Two owners with one block of 2 MiB each, and two rounds. -/
def twoOwners : Config where
  count := 2
  rounds := 2
  bytes := 2 ^ 21
  hostNumaSide := 2
  devices := id
  nodes := fun _ => 0

/-! ## A run -/

theorem whole_readBlock (cfg : Config) (round owner : ℕ) : (readBlock cfg round owner).Whole := by
  have hcopy : ∀ dst src purpose, (copy dst src round purpose).Whole := fun dst src purpose =>
    (whole_check _ _).bind fun _ => (whole_check _ _).bind fun _ => Proc.whole_pure _
  exact (whole_check _ _).bind fun _ => (hcopy _ _ _).bind fun _ => (whole_clear _).bind fun _ =>
    (hcopy _ _ _).bind fun _ => whole_verify _ _ _ _

/-- Every call can be answered. -/
theorem exists_answer (m : Own) (c : Share.Call) : ∃ r, m.Answers c r := by
  cases c with
  | check op name => exact ⟨{}, rfl⟩
  | compare buffer i expected phase =>
      cases buffer with
      | staging => exact ⟨m.staging i, rfl⟩
      | host owner => exact ⟨0, trivial⟩
      | control => exact ⟨0, trivial⟩
      | device => exact ⟨0, trivial⟩
  | cleanup op name => exact ⟨{}, trivial⟩
  | direct op => exact ⟨{}, trivial⟩
  | store buffer i value => exact ⟨(), trivial⟩
  | memset buffer => exact ⟨(), trivial⟩
  | send fd message => exact ⟨true, trivial⟩
  | receive fd expects => exact ⟨none, trivial⟩
  | caseResult case passed => exact ⟨(), trivial⟩

/-- A program that never gives up has a run among these buffers. -/
theorem exists_run {α : Type} (block : ℕ → UInt64) (moved : Buffer → Bool)
    {p : Prog Process Share.Call Share.Call.Reply α} (h : Network.Whole p) (m : Own) :
    ∃ t a m', p.Runs t a ∧ Along (Moves block moved) m t m' := by
  induction h generalizing m with
  | ret a => exact ⟨[], a, m, .ret a, .nil⟩
  | @call s c next _ ih =>
      obtain ⟨r, hanswers⟩ := exists_answer m c
      obtain ⟨t, a, m', hruns, hmoves⟩ := ih r (m.next block moved c)
      exact ⟨_, a, m', .call hruns, along_cons.mpr ⟨_, ⟨hanswers, rfl⟩, hmoves⟩⟩

/-- A stale `staging` that nothing is copied into does not pass. -/
theorem read_block_sound_twoOwners : ∃ t x p' m',
    (readBlock twoOwners 1 0 {}).Runs t (x, p') ∧
      Along (Moves (fun i => pattern i 302) (· == .device))
        ⟨fun i => pattern i 302, fun i => pattern i 302⟩ t m' ∧
      x.isOk = false ∧ VerifyThrows t := by
  obtain ⟨t, ⟨x, p'⟩, m', hruns, hmoves⟩ := exists_run (fun i => pattern i 302) (· == .device)
    (whole_readBlock twoOwners 1 0 {}) ⟨fun i => pattern i 302, fun i => pattern i 302⟩
  have hdetects : Detects twoOwners 1 0 (fun i => pattern i 302) (· == .device) t x :=
    read_block_sound (by decide) (by decide) (by decide) (by decide) (by decide) (by decide)
      _ _ _ _ _ _ _ _ hruns hmoves
  exact ⟨t, x, p', m', hruns, hmoves, hdetects.dropped (.inr rfl)⟩

end SharingProbe.MultiShare
