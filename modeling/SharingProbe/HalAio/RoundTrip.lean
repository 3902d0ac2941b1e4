import SharingProbe.HalAio.Aio
import SharingProbe.HalAio.Lifetime

/-!
# The two engines move the same bytes

A dump stores the buffer in the files, byte by byte where the layout says, and does not
touch any other file.  A load brings the bytes of the files into the buffer and does
not touch any file.  Both facts are carried, so they hold for either engine.

What has been moved when `Transfer` returns does not depend on the engine, and a load
after a dump restores the buffer.
-/

namespace SharingProbe.HalAio

open Interaction Evolution Storage

variable {L : Layout String} {buffer : ℕ} {v : ℕ → UInt8} {F : Disk → Prop}

/-- What is moved for byte `o` of the buffer. -/
def planned (L : Layout String) (buffer o : ℕ) : Triple :=
  (L.name (o / L.length), o % L.length, buffer + o)

/-- A transfer of a piece moves what is planned for its bytes. -/
theorem movedBy_eq {w : Disk} {t : Transfer} {start : ℕ} (haims : L.Aims buffer t start)
    (hdesc : w.desc t.desc = w.entry (L.name (start / L.length)))
    (hopen : (w.desc t.desc).isSome) :
    movedBy w t = planned L buffer '' {o | Layout.Covers t start o} := by
  have haddr := haims.addr
  ext ⟨name, offset, address⟩
  constructor
  · rintro ⟨j, hj, hsome, hentry, hoffset, haddress⟩
    simp only at hsome hentry hoffset haddress
    have ho : Layout.Covers t start (start + j) := ⟨by omega, by omega⟩
    obtain ⟨hdiv, hmod⟩ := haims.place_eq ho
    obtain ⟨x, hx⟩ := Option.isSome_iff_exists.mp hsome
    have hname : name = L.name (start / L.length) := by
      refine w.single hx ?_
      rw [← hdesc, ← hentry, hx]
    refine ⟨start + j, ho, ?_⟩
    unfold planned
    rw [hdiv, hmod, hname, hoffset, haims.offset, haddress, haddr, Nat.add_sub_cancel_left,
      Nat.add_assoc]
  · rintro ⟨o, ho, hplanned⟩
    cases hplanned
    obtain ⟨hdiv, hmod⟩ := haims.place_eq ho
    obtain ⟨hle, hlt⟩ := ho
    have hentry : w.entry (L.name (o / L.length)) = w.desc t.desc := by rw [hdiv, hdesc]
    refine ⟨o - start, by omega, ?_, hentry, ?_, ?_⟩
    · show (w.entry (L.name (o / L.length))).isSome
      rw [hentry]
      exact hopen
    · show o % L.length = _
      rw [hmod, haims.offset]
    · show buffer + o = t.addr + (o - start)
      omega

/-- The log of a complete transfer. -/
theorem log_done {D : Set ℕ} {log : Set Triple} {w w' : Disk} {t : Transfer} {start : ℕ}
    (haims : L.Aims buffer t start) (hdesc : w.desc t.desc = w.entry (L.name (start / L.length)))
    (hdone : t.Done w w') (hlog : log = planned L buffer '' D) :
    log ∪ movedBy w t = planned L buffer '' (D ∪ {o | Layout.Covers t start o}) := by
  obtain ⟨x, hx, -⟩ := hdone
  rw [movedBy_eq haims hdesc (by rw [hx]; rfl), Set.image_union, hlog]

/-! ## Dump -/

/-- No file but those of the layout is touched. -/
def Outside (L : Layout String) (w w' : Disk) : Prop :=
  ∀ n, (∀ b < L.files, n ≠ L.name b) →
    w'.entry n = w.entry n ∧ ∀ x, w.entry n = some x → w'.content x = w.content x

/-- What is carried by a dump of `v`: a property `F` of the other files, the source, the
bytes that are stored, on request that no file is too long, and on request the log. -/
structure Dumped (L : Layout String) (buffer : Ptr) (v : ℕ → UInt8) (F : Disk → Prop)
    (fit track : Prop) (D : Set ℕ) (x : LoggedDisk) : Prop where
  frame : F x.1
  source : ∀ o < L.total, x.1.memory (buffer + o) = v o
  stored : ∀ o ∈ D, o < L.total → L.Stored x.1 o (v o)
  fits : fit → ∀ b < L.files, ∀ y, x.1.entry (L.name b) = some y →
    (x.1.content y).size ≤ L.length
  log : track → x.2 = planned L buffer '' D

theorem outside_of_adds {w w' : Disk} {b : ℕ} (hb : b < L.files)
    (hadds : World.Adds (L.name b) w w') : Outside L w w' := by
  intro n hn
  constructor
  · cases hadds with
    | nothing hentry => rw [hentry]
    | file _ hentry => rw [hentry, Function.update_of_ne (hn b hb)]
  · exact fun x hx => (hadds.keeps hx).2

theorem Dumped.of_adds {fit track : Prop} {D : Set ℕ} {w w' : Disk} {log : Set Triple} {b : ℕ}
    (hF : ∀ w w', F w → Outside L w w' → F w') (h : Dumped L buffer v F fit track D (w, log))
    (hb : b < L.files) (hadds : World.Adds (L.name b) w w') (hmemory : w'.memory = w.memory) :
    Dumped L buffer v F fit track D (w', log) := by
  refine ⟨hF w w' h.frame (outside_of_adds hb hadds), ?_, ?_, ?_, h.log⟩
  · intro o ho
    rw [← h.source o ho]
    exact congrFun hmemory _
  · intro o ho hlt
    obtain ⟨x, hentry, hsize, hbyte⟩ := h.stored o ho hlt
    obtain ⟨hentry', hcontent⟩ := hadds.keeps hentry
    exact ⟨x, hentry', by rwa [hcontent], by rwa [hcontent]⟩
  · intro hfit b' hb' x hx
    rcases hadds.of_entry hx with hold | ⟨-, hempty⟩
    · rw [(hadds.keeps hold).2]
      exact h.fits hfit b' hb' x hold
    · rw [hempty]
      exact Nat.zero_le _

theorem Dumped.of_begun {fit track : Prop} {D : Set ℕ} {w w' : Disk} {log log' : Set Triple}
    {t : Transfer} {start x : ℕ} (hF : ∀ w w', F w → Outside L w w' → F w')
    (h : Dumped L buffer v F fit track D (w, log)) (haims : L.Aims buffer t start)
    (hfile : t.toFile = true) (hdesc : w.desc t.desc = w.entry (L.name (start / L.length)))
    {D' : Set ℕ} (hbegun : t.Begun x w w')
    (hstored : ∀ o ∈ D', o < L.total → L.Stored w' o (v o))
    (hlog : track → log' = planned L buffer '' D') :
    Dumped L buffer v F fit track D' (w', log') := by
  have hmemory : w'.memory = w.memory := (hbegun.writes hfile).memory
  refine ⟨hF w w' h.frame ?_, ?_, hstored, ?_, hlog⟩
  · intro n hn
    refine ⟨congrFun hbegun.entry n, fun y hy => ?_⟩
    exact Layout.keeps_content hbegun hfile hdesc hy (hn _ haims.below)
  · intro o ho
    rw [← h.source o ho]
    exact congrFun hmemory _
  · intro hfit b hb y hy
    have hold : w.entry (L.name b) = some y := by
      rw [← hy]
      exact (congrFun hbegun.entry _).symm
    exact haims.size_le hbegun hfile (h.fits hfit b hb y hold)

theorem carries_dump (fit track : Prop) (hF : ∀ w w', F w → Outside L w w' → F w') :
    Carries L buffer true (Dumped L buffer v F fit track) where
  opens h hb hopens := h.of_adds hF hb hopens.adds hopens.memory
  openFails h hb hfails := h.of_adds hF hb hfails.adds (by
    rcases hfails with rfl | ⟨-, -, rfl⟩ <;> rfl)
  closes d h := ⟨hF _ _ h.frame fun n _ => ⟨rfl, fun _ _ => rfl⟩, h.source, h.stored, h.fits, h.log⟩
  begun h haims hfile hdesc hnew hbegun := by
    refine h.of_begun hF haims hfile hdesc hbegun ?_ h.log
    exact fun o ho hlt => haims.keeps_stored hbegun hfile hdesc hlt (hnew o ho) (h.stored o ho hlt)
  done := by
    intro D w log t start w' h haims hfile hdesc hdone
    obtain ⟨x, hbegun⟩ := hdone.begun
    refine h.of_begun hF haims hfile hdesc hbegun ?_ fun htrack => ?_
    · intro o ho hlt
      by_cases hcovers : Layout.Covers t start o
      · rw [← h.source o hlt]
        exact haims.stored hdone hfile hdesc hcovers
      · have hold := h.stored o (ho.resolve_right hcovers) hlt
        exact haims.keeps_stored hbegun hfile hdesc hlt hcovers hold
    · exact log_done haims hdesc hdone (h.log htrack)

/-! ## Load -/

/-- What is carried by a load: a property `F` of all files, what they hold, if that is
known, the bytes that have arrived, and on request the log. -/
structure Loaded (L : Layout String) (buffer : Ptr) (v : ℕ → UInt8) (F : Disk → Prop)
    (known track : Prop) (D : Set ℕ) (x : LoggedDisk) : Prop where
  frame : F x.1
  stored : known → ∀ o < L.total, L.Stored x.1 o (v o)
  loaded : known → ∀ o ∈ D, o < L.total → x.1.memory (buffer + o) = v o
  log : track → x.2 = planned L buffer '' D

theorem Loaded.of_same {known track : Prop} {D D' : Set ℕ} {w w' : Disk} {log log' : Set Triple}
    (hF : ∀ w w' : Disk, F w → w'.entry = w.entry → w'.content = w.content → F w')
    (h : Loaded L buffer v F known track D (w, log)) (hentry : w'.entry = w.entry)
    (hcontent : w'.content = w.content)
    (hloaded : known → ∀ o ∈ D', o < L.total → w'.memory (buffer + o) = v o)
    (hlog : track → log' = planned L buffer '' D') :
    Loaded L buffer v F known track D' (w', log') := by
  refine ⟨hF w w' h.frame hentry hcontent, ?_, hloaded, hlog⟩
  intro hknown o ho
  obtain ⟨x, hx, hsize, hbyte⟩ := h.stored hknown o ho
  exact ⟨x, by rw [← hx]; exact congrFun hentry _, by rwa [hcontent], by rwa [hcontent]⟩

theorem carries_load (known track : Prop)
    (hF : ∀ w w' : Disk, F w → w'.entry = w.entry → w'.content = w.content → F w') :
    Carries L buffer false (Loaded L buffer v F known track) where
  opens h hb hopens := by
    have hadds := hopens.adds
    rcases hopens.2 with ⟨-, rfl⟩ | ⟨-, hcreate, -⟩
    · exact h.of_same hF rfl rfl h.loaded h.log
    · cases hcreate
  openFails h hb hfails := by
    rcases hfails with rfl | ⟨-, hcreate, -⟩
    · exact h
    · cases hcreate
  closes d h := h.of_same hF rfl rfl h.loaded h.log
  begun h haims hfile hdesc hnew hbegun := by
    refine h.of_same hF hbegun.entry (hbegun.reads hfile).content ?_ h.log
    intro hknown o ho hlt
    rw [haims.keeps_loaded hbegun hfile (hnew o ho)]
    exact h.loaded hknown o ho hlt
  done := by
    intro D w log t start w' h haims hfile hdesc hdone
    obtain ⟨x, hbegun⟩ := hdone.begun
    refine h.of_same hF hbegun.entry (hbegun.reads hfile).content ?_ fun htrack => ?_
    · intro hknown o ho hlt
      by_cases hcovers : Layout.Covers t start o
      · exact haims.loaded hdone hfile hdesc hcovers (h.stored hknown o hlt)
      · rw [haims.keeps_loaded hbegun hfile hcovers]
        exact h.loaded hknown o (ho.resolve_right hcovers) hlt
    · exact log_done haims hdesc hdone (h.log htrack)

/-! ## Whole transfers -/

/-- `Transfer` returns; its calls and the steps of its phase take the world from `w` to
`w'` and move `log`: files, offsets in them and offsets in the buffer. -/
def Transfers (opt : Options) (paths : List String) (buffer : Ptr) (dump : Bool) (w w' : Disk)
    (log : Set Triple) : Prop :=
  ∃ p t p' moves, ((transfer opt paths buffer dump) p).Runs t (.ok ⟨⟩, p') ∧
    Along Logged (w, ∅) (instants t) (w', moves) ∧ log = {m | (m.1, m.2.1, buffer + m.2.2) ∈ moves}

/-- What is carried holds at the end, for all bytes. -/
theorem Transfers.carried {opt : Options} {hopt : opt.Valid} {paths : List String}
    {hpaths : opt.Distinct paths} {dump : Bool} {w w' : Disk} {log : Set Triple}
    {I : Set ℕ → LoggedDisk → Prop}
    (hcarries : Carries (opt.layout hopt paths hpaths) buffer dump I) (hI : I ∅ (w, ∅))
    (h : Transfers opt paths buffer dump w w' log) :
    ∃ moves, I (Set.Iio (opt.blocks * opt.shards * opt.slotBytes)) (w', moves) ∧
      log = {m | (m.1, m.2.1, buffer + m.2.2) ∈ moves} := by
  obtain ⟨p, t, p', moves, hruns, halong, hlog⟩ := h
  have hstart : Worlds w (fun _ x => I ∅ x) p [] := by
    intro x hx
    rw [show instants [] = [] from rfl, along_nil] at hx
    exact hx ▸ hI
  have hend := Prog.Meets.post_of_runs
    (carries_transfer (C := fun _ _ => True) hcarries (fun _ _ _ _ _ => trivial) p [] hstart) hruns
  exact ⟨moves, hend _ halong, hlog⟩

theorem offsets_of_planned (D : Set ℕ) :
    {m : Triple | (m.1, m.2.1, buffer + m.2.2) ∈ planned L buffer '' D} =
      (fun o => (L.name (o / L.length), o % L.length, o)) '' D := by
  ext ⟨name, offset, o⟩
  constructor
  · rintro ⟨o', ho', hplanned⟩
    obtain ⟨hname, hrest⟩ := Prod.mk.inj hplanned
    obtain ⟨hoffset, haddress⟩ := Prod.mk.inj hrest
    have hsame : o' = o := Nat.add_left_cancel haddress
    subst hsame
    exact ⟨o', ho', Prod.ext hname (Prod.ext hoffset rfl)⟩
  · rintro ⟨o', ho', hplanned⟩
    cases hplanned
    exact ⟨o, ho', rfl⟩

/-- What `Transfer` has moved when it returns. -/
theorem Transfers.log_eq {opt : Options} (hopt : opt.Valid) {paths : List String}
    (hpaths : opt.Distinct paths) {dump : Bool} {w w' : Disk} {log : Set Triple}
    (h : Transfers opt paths buffer dump w w' log) :
    log = (fun o => (paths.getD (o / (opt.shards * opt.slotBytes)) "",
      o % (opt.shards * opt.slotBytes),
        o)) '' Set.Iio (opt.blocks * opt.shards * opt.slotBytes) := by
  cases dump with
  | true =>
      have hcarries : Carries (opt.layout hopt paths hpaths) buffer true
          (Dumped (opt.layout hopt paths hpaths) buffer (fun o => w.memory (buffer + o))
            (fun _ => True) False True) := carries_dump False True fun _ _ _ _ => trivial
      obtain ⟨moves, hend, hlog⟩ :=
        h.carried hcarries ⟨trivial, fun _ _ => rfl, nofun, nofun, by simp⟩
      have hmoves : moves = _ := hend.log trivial
      rw [hlog, hmoves, offsets_of_planned]
      rfl
  | false =>
      have hcarries : Carries (opt.layout hopt paths hpaths) buffer false
          (Loaded (opt.layout hopt paths hpaths) buffer (fun _ => 0) (fun _ => True) False True) :=
        carries_load False True fun _ _ _ _ _ => trivial
      obtain ⟨moves, hend, hlog⟩ := h.carried hcarries ⟨trivial, nofun, nofun, by simp⟩
      have hmoves : moves = _ := hend.log trivial
      rw [hlog, hmoves, offsets_of_planned]
      rfl

/-- A dump stores every byte. -/
theorem Transfers.stored {opt : Options} (hopt : opt.Valid) {paths : List String}
    (hpaths : opt.Distinct paths) {w w' : Disk} {log : Set Triple}
    (h : Transfers opt paths buffer true w w' log) {o : ℕ}
    (ho : o < opt.blocks * opt.shards * opt.slotBytes) :
    (opt.layout hopt paths hpaths).Stored w' o (w.memory (buffer + o)) := by
  have hcarries : Carries (opt.layout hopt paths hpaths) buffer true
      (Dumped (opt.layout hopt paths hpaths) buffer (fun o => w.memory (buffer + o))
        (fun _ => True) False False) := carries_dump False False fun _ _ _ _ => trivial
  obtain ⟨moves, hend, -⟩ := h.carried hcarries ⟨trivial, fun _ _ => rfl, nofun, nofun, nofun⟩
  exact hend.stored o ho (by rwa [layout_total])

/-- A load fetches every byte that is stored. -/
theorem Transfers.loaded {opt : Options} (hopt : opt.Valid) {paths : List String}
    (hpaths : opt.Distinct paths) {w w' : Disk} {log : Set Triple}
    (h : Transfers opt paths buffer false w w' log)
    (hstored : ∀ o < opt.blocks * opt.shards * opt.slotBytes,
      (opt.layout hopt paths hpaths).Stored w o (v o)) {o : ℕ}
    (ho : o < opt.blocks * opt.shards * opt.slotBytes) : w'.memory (buffer + o) = v o := by
  have hcarries : Carries (opt.layout hopt paths hpaths) buffer false
      (Loaded (opt.layout hopt paths hpaths) buffer v (fun _ => True) True False) :=
    carries_load True False fun _ _ _ _ _ => trivial
  obtain ⟨moves, hend, -⟩ := h.carried hcarries
    ⟨trivial, fun _ o ho => hstored o (by rwa [layout_total] at ho), nofun, nofun⟩
  exact hend.loaded trivial o ho (by rwa [layout_total])

/-- The files under the second list of paths are those under the first. -/
def SameFiles (opt : Options) (paths : List String) (w : Disk) (paths' : List String)
    (w' : Disk) : Prop :=
  ∀ b < opt.blocks, ∀ x, w.entry (paths.getD b "") = some x →
    ∃ y, w'.entry (paths'.getD b "") = some y ∧ w'.content y = w.content x

/-- **The two I/O engines move the same bytes, and load undoes dump.**  Let `main` accept
both option sets, with the same blocks, shards and slots.  What a `Transfer` that
returns has moved is the same for both.  It is one triple for each byte of the buffer,
in the file of its block, at its offset there.  After a dump by the one, a load by
the other from the same files, into a buffer of any contents, restores every byte. -/
theorem engines_agree (opt opt' : Options) (hopt : opt.invalid = false)
    (hopt' : opt'.invalid = false) (hblocks : opt'.blocks = opt.blocks)
    (hshards : opt'.shards = opt.shards) (hslot : opt'.slotBytes = opt.slotBytes)
    (paths paths' : List String) (hpaths : opt.Distinct paths) (hpaths' : opt.Distinct paths')
    (buffer buffer' : Ptr) :
    (∀ dump w w' log, Transfers opt paths buffer dump w w' log →
      (∀ z z' log', Transfers opt' paths buffer' dump z z' log' → log' = log) ∧
      (∀ m ∈ log, m.2.2 < opt.blocks * opt.shards * opt.slotBytes) ∧
      ∀ o < opt.blocks * opt.shards * opt.slotBytes, ∀ m, m ∈ log ∧ m.2.2 = o ↔
        m = (paths.getD (o / (opt.shards * opt.slotBytes)) "",
          o % (opt.shards * opt.slotBytes), o)) ∧
    (∀ w w' log z z' log', Transfers opt paths buffer true w w' log →
      SameFiles opt paths w' paths' z → Transfers opt' paths' buffer' false z z' log' →
      ∀ o < opt.blocks * opt.shards * opt.slotBytes,
        z'.memory (buffer' + o) = w.memory (buffer + o)) := by
  have hvalid := opt.valid_of_accepted hopt
  have hvalid' := opt'.valid_of_accepted hopt'
  have hdistinct : ∀ p, opt.Distinct p → opt'.Distinct p := by
    intro p hp
    unfold Options.Distinct
    rw [hblocks]
    exact hp
  constructor
  · intro dump w w' log h
    have hlog := h.log_eq hvalid hpaths
    refine ⟨?_, ?_, ?_⟩
    · intro z z' log' h'
      have hlog' := h'.log_eq hvalid' (hdistinct paths hpaths)
      rw [hblocks, hshards, hslot] at hlog'
      rw [hlog, hlog']
    · rintro m hm
      rw [hlog] at hm
      obtain ⟨o, ho, rfl⟩ := hm
      exact ho
    -- each byte is moved once, to where its offset says
    · intro o ho m
      rw [hlog]
      constructor
      · rintro ⟨⟨o', ho', rfl⟩, hoffset⟩
        have hsame : o' = o := hoffset
        rw [hsame]
      · rintro rfl
        exact ⟨⟨o, ho, rfl⟩, rfl⟩
  · intro w w' log z z' log' hdump hfiles hload o ho
    have htotal : opt'.blocks * opt'.shards * opt'.slotBytes =
        opt.blocks * opt.shards * opt.slotBytes := by rw [hblocks, hshards, hslot]
    have hlength : opt'.blockBytes = opt.blockBytes := by
      unfold Options.blockBytes
      rw [hshards, hslot]
    refine hload.loaded (v := fun o => w.memory (buffer + o)) hvalid' (hdistinct paths' hpaths') ?_
      (by rwa [htotal])
    -- what the dump has stored is what the load finds
    intro o' ho'
    rw [htotal] at ho'
    obtain ⟨x, hentry, hsize, hbyte⟩ := hdump.stored hvalid hpaths ho'
    have hfile : o' / opt.blockBytes < opt.blocks := by
      refine (Nat.div_lt_iff_lt_mul (Nat.mul_pos hvalid.shards hvalid.slotBytes)).mpr ?_
      rwa [← Nat.mul_assoc]
    obtain ⟨y, hy, hcontent⟩ := hfiles _ hfile x hentry
    refine ⟨y, ?_, ?_, ?_⟩
    · show z.entry (paths'.getD (o' / opt'.blockBytes) "") = some y
      rw [hlength]
      exact hy
    · show o' % opt'.blockBytes < (z.content y).size
      rw [hlength, hcontent]
      exact hsize
    · show (z.content y).byte (o' % opt'.blockBytes) = w.memory (buffer + o')
      rw [hlength, hcontent]
      exact hbyte

/-! ## An example -/

/-- An environment in which every transfer is complete. -/
def transferring (t : List HAEvent) : (c : Call) → c.Reply
  | .os (.openFile _ _) => (5, 0)
  | .os (.pwrite _ _ bytes _) | .os (.pread _ _ bytes _) => (bytes, 0)
  | c => calm t c

/-- The instants of `Transfer` in that environment. -/
def calmInstants (opt : Options) (paths : List String) (buffer : Ptr)
    (dump : Bool) : List Instant :=
  instants (Prog.exec transferring (transfer opt paths buffer dump {}) []).1

/-- The world after them. -/
def calmly (opt : Options) (paths : List String) (buffer : Ptr) (dump : Bool) (w : Disk) : Disk :=
  (play w (calmInstants opt paths buffer dump)).getD w

theorem transfers_calmly (opt : Options) (paths : List String) (buffer : Ptr) (dump : Bool)
    (w : Disk) {p : Process}
    (hend : (Prog.exec transferring (transfer opt paths buffer dump {}) []).2 = some (.ok ⟨⟩, p))
    (hplay : (play w (calmInstants opt paths buffer dump)).isSome = true) :
    ∃ log, Transfers opt paths buffer dump w (calmly opt paths buffer dump w) log := by
  have hworld : play w (calmInstants opt paths buffer dump) =
      some (calmly opt paths buffer dump w) := by
    unfold calmly
    rw [← Option.some_get hplay, Option.getD_some]
  obtain ⟨log, hlogged⟩ := exists_logged (along_of_play hworld) ∅
  exact ⟨_, {}, _, p, log, Prog.runs_of_exec hend, hlogged, rfl⟩

/-- The requests of `twoByTwo` in two tensors each by the other engine. -/
def twoTensors : Options := { twoByTwo with engine := "psync", tensorBytes := 8 }

/-- A buffer of numbers, and no files. -/
def numbered : Disk := World.empty.setMemory UInt8.ofNat

/-- A file for each of the two blocks. -/
def twoFiles : List String := ["/d/a", "/d/b"]

/-- A dump of two blocks by tensors, and a load by requests. -/
theorem engines_agree_twoTensors :
    ∃ w w' log log',
      Transfers twoTensors twoFiles 0 true numbered w log ∧
      Transfers twoByTwo twoFiles 4096 false w w' log' ∧
      ∀ o < 2 * 2 * 16, w'.memory (4096 + o) = numbered.memory (0 + o) := by
  obtain ⟨log, hdumped⟩ := transfers_calmly twoTensors twoFiles 0 true numbered (p := {})
    (by decide +kernel) (by decide +kernel)
  obtain ⟨log', hloaded⟩ := transfers_calmly twoByTwo twoFiles 4096 false
    (calmly twoTensors twoFiles 0 true numbered) (p := {}) (by decide +kernel)
    (by decide +kernel)
  -- the worlds are named, so that nothing below evaluates them
  generalize calmly twoTensors twoFiles 0 true numbered = w at hdumped hloaded
  generalize calmly twoByTwo twoFiles 4096 false w = w' at hloaded
  have hdistinct : ∀ a < 2, ∀ b < 2, twoFiles.getD a "" = twoFiles.getD b "" → a = b := by
    decide
  have hagree := (engines_agree twoTensors twoByTwo (by decide) (by decide) rfl rfl rfl
    twoFiles twoFiles hdistinct hdistinct 0 4096).2 numbered w log w w' log' hdumped
    (fun b _ x hx => ⟨x, hx, rfl⟩) hloaded
  exact ⟨w, w', log, log', hdumped, hloaded, hagree⟩

end SharingProbe.HalAio
