import Mathlib.Algebra.Order.Group.Nat
import Mathlib.Algebra.Ring.Nat
import Mathlib.Data.UInt
import Mathlib.Logic.Function.Basic

/-!
# Files, descriptors and a memory

What a program shares with an operating system through its file calls: the names of
a directory, the contents behind them, the open descriptors, and a memory that data
is moved from and to.  A name refers to a content by a number, as does a
descriptor, so that a descriptor keeps its file when the name is moved.

A transfer between a file and the memory that is under way may have moved any part
of its data (`Transfer.Begun`); one that is reported complete has moved all of it
(`Transfer.Done`).

A `Layout` spreads a buffer over files of one length.  The lemmas say what a
transfer of a piece of the buffer does to the bytes of that piece, and that it does
nothing to the others.
-/

namespace Storage

/-- What a file holds.  The bytes behind its end count as zero. -/
structure Content (β : Type) [Zero β] where
  size : ℕ
  byte : ℕ → β
  byte_of_le : ∀ i, size ≤ i → byte i = 0

variable {ν β : Type} [Zero β]

/-- A file that has just been created. -/
def Content.empty : Content β := ⟨0, fun _ => 0, fun _ _ => rfl⟩

/-- Store `bytes` bytes of `src` at `offset`. -/
def Content.write (c : Content β) (offset bytes : ℕ) (src : ℕ → β) : Content β where
  size := if bytes = 0 then c.size else max c.size (offset + bytes)
  byte i := if offset ≤ i ∧ i < offset + bytes then src (i - offset) else c.byte i
  byte_of_le i hi := by
    split at hi
    · rw [if_neg (by omega)]
      exact c.byte_of_le i hi
    · rw [if_neg (by omega)]
      exact c.byte_of_le i (by omega)

/-- Names, contents, descriptors and memory.  No file has two names, and the numbers
from `next` on are unused. -/
structure World (ν β : Type) [Zero β] where
  entry : ν → Option ℕ
  content : ℕ → Content β
  desc : ℕ → Option ℕ
  memory : ℕ → β
  next : ℕ
  single : ∀ {a b x}, entry a = some x → entry b = some x → a = b
  entry_lt : ∀ {a x}, entry a = some x → x < next
  desc_lt : ∀ {d x}, desc d = some x → x < next

namespace World

/-- An empty directory. -/
def empty : World ν β where
  entry _ := none
  content _ := .empty
  desc _ := none
  memory _ := 0
  next := 0
  single h := nomatch h
  entry_lt h := nomatch h
  desc_lt h := nomatch h

/-- The descriptor refers to the file of that name. -/
def openAs (w : World ν β) (d : ℕ) (name : ν) : World ν β where
  entry := w.entry
  content := w.content
  desc := Function.update w.desc d (w.entry name)
  memory := w.memory
  next := w.next
  single := w.single
  entry_lt := w.entry_lt
  desc_lt {d' x} hd := by
    have hlt := @w.entry_lt
    have hdesc := @w.desc_lt
    grind [Function.update_apply]

def close (w : World ν β) (d : ℕ) : World ν β where
  entry := w.entry
  content := w.content
  desc := Function.update w.desc d none
  memory := w.memory
  next := w.next
  single := w.single
  entry_lt := w.entry_lt
  desc_lt {d' x} hd := by
    have hdesc := @w.desc_lt
    grind [Function.update_apply]

def setMemory (w : World ν β) (memory : ℕ → β) : World ν β := { w with memory := memory }

def setContent (w : World ν β) (x : ℕ) (c : Content β) : World ν β :=
  { w with content := Function.update w.content x c }

section Fields

variable (w : World ν β) (d : ℕ) (name : ν) (f : ℕ → β)

@[simp] theorem openAs_entry : (w.openAs d name).entry = w.entry := rfl
@[simp] theorem openAs_content : (w.openAs d name).content = w.content := rfl
@[simp] theorem openAs_memory : (w.openAs d name).memory = w.memory := rfl
@[simp] theorem close_entry : (w.close d).entry = w.entry := rfl
@[simp] theorem close_content : (w.close d).content = w.content := rfl
@[simp] theorem close_desc : (w.close d).desc = Function.update w.desc d none := rfl
@[simp] theorem close_memory : (w.close d).memory = w.memory := rfl
@[simp] theorem setMemory_entry : (w.setMemory f).entry = w.entry := rfl
@[simp] theorem setMemory_content : (w.setMemory f).content = w.content := rfl
@[simp] theorem setMemory_desc : (w.setMemory f).desc = w.desc := rfl
@[simp] theorem setMemory_memory : (w.setMemory f).memory = f := rfl

end Fields

variable [DecidableEq ν]

/-- A new file under a name. -/
def create (w : World ν β) (name : ν) : World ν β where
  entry := Function.update w.entry name (some w.next)
  content := Function.update w.content w.next .empty
  desc := w.desc
  memory := w.memory
  next := w.next + 1
  single {a b x} ha hb := by
    have hlt := @w.entry_lt
    have hsingle := @w.single
    grind [Function.update_apply]
  entry_lt {a x} ha := by
    have hlt := @w.entry_lt
    grind [Function.update_apply]
  desc_lt hd := Nat.lt_succ_of_lt (w.desc_lt hd)

def unlink (w : World ν β) (name : ν) : World ν β where
  entry := Function.update w.entry name none
  content := w.content
  desc := w.desc
  memory := w.memory
  next := w.next
  single {a b x} ha hb := by
    have hsingle := @w.single
    grind [Function.update_apply]
  entry_lt {a x} ha := by
    have hlt := @w.entry_lt
    grind [Function.update_apply]
  desc_lt := w.desc_lt

/-- `dst` is replaced by the file of `src`. -/
def rename (w : World ν β) (src dst : ν) : World ν β where
  entry := if src = dst then w.entry else
    Function.update (Function.update w.entry dst (w.entry src)) src none
  content := w.content
  desc := w.desc
  memory := w.memory
  next := w.next
  single {a b x} ha hb := by
    have hsingle := @w.single
    grind [Function.update_apply]
  entry_lt {a x} ha := by
    have hlt := @w.entry_lt
    grind [Function.update_apply]
  desc_lt := w.desc_lt

theorem rename_entry (w : World ν β) {a b : ν} (h : a ≠ b) (n : ν) : (w.rename a b).entry n =
    if n = a then none else if n = b then w.entry a else w.entry n := by
  have hentry : (w.rename a b).entry =
    Function.update (Function.update w.entry b (w.entry a)) a none := if_neg h
  rw [hentry, Function.update_apply, Function.update_apply]

/-! ## Opening a file -/

/-- `open` succeeds with a descriptor that was not in use.  A name that does not exist
needs `create`. -/
def Opens (w : World ν β) (create : Bool) (name : ν) (d : ℕ) (w' : World ν β) : Prop :=
  w.desc d = none ∧
    ((w.entry name).isSome ∧ w' = w.openAs d name ∨
      w.entry name = none ∧ create = true ∧ w' = (w.create name).openAs d name)

/-- `open` fails, maybe after it has created the file. -/
def OpenFails (w : World ν β) (create : Bool) (name : ν) (w' : World ν β) : Prop :=
  w' = w ∨ w.entry name = none ∧ create = true ∧ w' = w.create name

theorem Opens.memory {w w' : World ν β} {create : Bool} {name : ν} {d : ℕ}
    (h : w.Opens create name d w') : w'.memory = w.memory := by
  rcases h.2 with ⟨-, rfl⟩ | ⟨-, -, rfl⟩ <;> rfl

/-- The descriptor refers to the file of the name. -/
theorem Opens.desc {w w' : World ν β} {create : Bool} {name : ν} {d : ℕ}
    (h : w.Opens create name d w') :
    w'.desc = Function.update w.desc d (w'.entry name) ∧ (w'.entry name).isSome := by
  rcases h.2 with ⟨hsome, rfl⟩ | ⟨-, -, rfl⟩
  · exact ⟨rfl, hsome⟩
  · exact ⟨rfl, by simp [World.create]⟩

/-- What `open` does to the names: nothing, or it adds an empty file. -/
inductive Adds (name : ν) (w w' : World ν β) : Prop
  | nothing (entry : w'.entry = w.entry) (content : w'.content = w.content)
  | file (new : w.entry name = none) (entry : w'.entry = Function.update w.entry name (some w.next))
      (content : w'.content = Function.update w.content w.next .empty)

theorem Opens.adds {w w' : World ν β} {create : Bool} {name : ν} {d : ℕ}
    (h : w.Opens create name d w') : Adds name w w' := by
  rcases h.2 with ⟨-, rfl⟩ | ⟨hnone, -, rfl⟩
  · exact .nothing rfl rfl
  · exact .file hnone rfl rfl

theorem OpenFails.adds {w w' : World ν β} {create : Bool} {name : ν}
    (h : w.OpenFails create name w') : Adds name w w' := by
  rcases h with rfl | ⟨hnone, -, rfl⟩
  · exact .nothing rfl rfl
  · exact .file hnone rfl rfl

/-- A file that exists is not touched. -/
theorem Adds.keeps {w w' : World ν β} {name n : ν} {x : ℕ} (h : Adds name w w')
    (hn : w.entry n = some x) : w'.entry n = some x ∧ w'.content x = w.content x := by
  cases h with
  | nothing hentry hcontent => exact ⟨by rw [hentry, hn], by rw [hcontent]⟩
  | file hnew hentry hcontent =>
      have hne : n ≠ name := by
        rintro rfl
        rw [hnew] at hn
        cases hn
      have hlt : x ≠ w.next := (w.entry_lt hn).ne
      rw [hentry, hcontent, Function.update_of_ne hne, Function.update_of_ne hlt]
      exact ⟨hn, rfl⟩

/-- A name that exists afterwards existed before or is the new one. -/
theorem Adds.of_entry {w w' : World ν β} {name n : ν} {x : ℕ} (h : Adds name w w')
    (hn : w'.entry n = some x) : w.entry n = some x ∨ n = name ∧ w'.content x = .empty := by
  cases h with
  | nothing hentry hcontent => exact .inl (by rwa [hentry] at hn)
  | file hnew hentry hcontent =>
      rw [hentry] at hn
      by_cases hne : n = name
      · right
        rw [hne, Function.update_self, Option.some.injEq] at hn
        exact ⟨hne, by rw [hcontent, ← hn, Function.update_self]⟩
      · rw [Function.update_of_ne hne] at hn
        exact .inl hn

/-- `open`, where it can succeed. -/
def tryOpen (w : World ν β) (create : Bool) (name : ν) (d : ℕ) : Option (World ν β) :=
  if w.desc d = none then
    if (w.entry name).isSome then some (w.openAs d name)
    else if create then some ((w.create name).openAs d name) else none
  else none

theorem opens_of_tryOpen {w w' : World ν β} {create : Bool} {name : ν} {d : ℕ}
    (h : w.tryOpen create name d = some w') : w.Opens create name d w' := by
  unfold tryOpen at h
  split at h
  · rename_i hdesc
    refine ⟨hdesc, ?_⟩
    split at h
    · rename_i hsome
      exact .inl ⟨hsome, (Option.some.inj h).symm⟩
    · rename_i hnone
      split at h
      · rename_i hcreate
        exact .inr ⟨Option.not_isSome_iff_eq_none.mp hnone, hcreate, (Option.some.inj h).symm⟩
      · cases h
  · cases h

end World

/-! ## Transfers -/

/-- A transfer between a file and the memory. -/
structure Transfer where
  toFile : Bool
  desc : ℕ
  offset : ℕ
  addr : ℕ
  bytes : ℕ

namespace Transfer

/-- The effect of the whole transfer. -/
def perform (t : Transfer) (w : World ν β) : World ν β :=
  match w.desc t.desc with
  | none => w
  | some x =>
      if t.toFile then
        w.setContent x ((w.content x).write t.offset t.bytes fun j => w.memory (t.addr + j))
      else
        w.setMemory fun a =>
          if t.addr ≤ a ∧ a < t.addr + t.bytes then (w.content x).byte (t.offset + (a - t.addr))
          else w.memory a

/-- The transfer is reported complete.  A read ends before the end of the file. -/
def Done (t : Transfer) (w w' : World ν β) : Prop :=
  ∃ x, w.desc t.desc = some x ∧
    (t.toFile = false → t.offset + t.bytes ≤ (w.content x).size) ∧ w' = t.perform w

/-- The whole transfer, where it can succeed. -/
def tryPerform (t : Transfer) (w : World ν β) : Option (World ν β) :=
  (w.desc t.desc).bind fun x =>
    if t.toFile = true ∨ t.offset + t.bytes ≤ (w.content x).size then some (t.perform w) else none

theorem done_of_tryPerform {t : Transfer} {w w' : World ν β} (h : t.tryPerform w = some w') :
    t.Done w w' := by
  obtain ⟨x, hx, hperform⟩ := Option.bind_eq_some_iff.mp h
  split at hperform
  · rename_i hcan
    refine ⟨x, hx, fun hfile => hcan.resolve_left ?_, (Option.some.inj hperform).symm⟩
    rw [hfile]
    exact Bool.false_ne_true
  · cases hperform

/-- A part of the data of a write has been stored. -/
structure Writes (t : Transfer) (x : ℕ) (w w' : World ν β) : Prop where
  memory : w'.memory = w.memory
  others : ∀ y, y ≠ x → w'.content y = w.content y
  grows : (w.content x).size ≤ (w'.content x).size
  size : (w'.content x).size ≤ max (w.content x).size (t.offset + t.bytes)
  byte : ∀ i, i < t.offset ∨ t.offset + t.bytes ≤ i →
    (w'.content x).byte i = (w.content x).byte i

/-- A part of the data of a read has arrived. -/
structure Reads (t : Transfer) (w w' : World ν β) : Prop where
  content : w'.content = w.content
  memory : ∀ a, a < t.addr ∨ t.addr + t.bytes ≤ a → w'.memory a = w.memory a

/-- The transfer is under way. -/
structure Begun (t : Transfer) (x : ℕ) (w w' : World ν β) : Prop where
  target : w.desc t.desc = some x
  entry : w'.entry = w.entry
  desc : w'.desc = w.desc
  writes : t.toFile = true → t.Writes x w w'
  reads : t.toFile = false → t.Reads w w'

variable {t : Transfer} {w w' : World ν β}

theorem perform_write {x : ℕ} (hdesc : w.desc t.desc = some x) (hfile : t.toFile = true) :
    t.perform w =
      w.setContent x ((w.content x).write t.offset t.bytes fun j => w.memory (t.addr + j)) := by
  unfold perform
  rw [hdesc]
  exact if_pos hfile

theorem perform_read {x : ℕ} (hdesc : w.desc t.desc = some x) (hfile : t.toFile = false) :
    t.perform w = w.setMemory fun a =>
      if t.addr ≤ a ∧ a < t.addr + t.bytes then (w.content x).byte (t.offset + (a - t.addr))
      else w.memory a := by
  unfold perform
  rw [hdesc, hfile]
  rfl

/-- What holds of a transfer that is under way holds of a complete one. -/
theorem Done.begun (h : t.Done w w') : ∃ x, t.Begun x w w' := by
  obtain ⟨x, hdesc, -, rfl⟩ := h
  refine ⟨x, ?_⟩
  cases hfile : t.toFile with
  | true =>
      rw [perform_write hdesc hfile]
      refine ⟨hdesc, rfl, rfl, fun _ => ⟨rfl, ?_, ?_, ?_, ?_⟩, by simp [hfile]⟩
      · exact fun y hy => Function.update_of_ne hy _ _
      all_goals simp only [World.setContent, Function.update_self, Content.write]
      · split <;> omega
      · split <;> omega
      · exact fun i hi => if_neg (by omega)
  | false =>
      rw [perform_read hdesc hfile]
      exact ⟨hdesc, rfl, rfl, by simp [hfile], fun _ => ⟨rfl, fun a ha => if_neg (by omega)⟩⟩

end Transfer

/-! ## A buffer that is spread over files -/

/-- Files of one length, each with a name of its own. -/
structure Layout (ν : Type) where
  name : ℕ → ν
  files : ℕ
  length : ℕ
  length_pos : 0 < length
  distinct : ∀ a < files, ∀ b < files, name a = name b → a = b

namespace Layout

variable {L : Layout ν} {w w' : World ν β} {t : Transfer} {buffer start o x : ℕ} {v : β}

/-- The length of the buffer. -/
def total (L : Layout ν) : ℕ := L.files * L.length

/-- The file and the place in it that byte `o` of the buffer belongs to. -/
def place (L : Layout ν) (o : ℕ) : ℕ × ℕ := (o / L.length, o % L.length)

theorem file_lt (ho : o < L.total) : o / L.length < L.files :=
  (Nat.div_lt_iff_lt_mul L.length_pos).mpr ho

/-- The byte at `o` is stored as `v`. -/
def Stored (L : Layout ν) (w : World ν β) (o : ℕ) (v : β) : Prop :=
  ∃ x, w.entry (L.name (o / L.length)) = some x ∧ o % L.length < (w.content x).size ∧
    (w.content x).byte (o % L.length) = v

/-- The bytes from `start` on that a transfer moves, in one file. -/
structure Aims (L : Layout ν) (buffer : ℕ) (t : Transfer) (start : ℕ) : Prop where
  addr : t.addr = buffer + start
  offset : t.offset = start % L.length
  within : start % L.length + t.bytes ≤ L.length
  below : start / L.length < L.files

/-- Byte `o` is one that the transfer moves. -/
def Covers (t : Transfer) (start o : ℕ) : Prop := start ≤ o ∧ o < start + t.bytes

theorem Aims.place_eq (h : L.Aims buffer t start) (ho : Covers t start o) :
    o / L.length = start / L.length ∧ o % L.length = start % L.length + (o - start) := by
  obtain ⟨hle, hlt⟩ := ho
  have hwithin := h.within
  have hsplit : o = L.length * (start / L.length) + (start % L.length + (o - start)) := by
    have := Nat.div_add_mod start L.length
    omega
  have hsmall : start % L.length + (o - start) < L.length := by omega
  generalize start % L.length + (o - start) = rest at hsplit hsmall
  constructor
  · rw [hsplit, Nat.mul_add_div L.length_pos, Nat.div_eq_of_lt hsmall, add_zero]
  · rw [hsplit, Nat.mul_add_mod, Nat.mod_eq_of_lt hsmall]

/-- A byte of the same file that is not moved lies outside the transfer. -/
theorem Aims.outside (h : L.Aims buffer t start) (ho : ¬Covers t start o)
    (hfile : o / L.length = start / L.length) :
    o % L.length < t.offset ∨ t.offset + t.bytes ≤ o % L.length := by
  have hstart := Nat.div_add_mod start L.length
  have hbyte := Nat.div_add_mod o L.length
  rw [hfile] at hbyte
  rw [h.offset]
  unfold Covers at ho
  omega

/-! ### Writing -/

theorem Aims.stored (h : L.Aims buffer t start) (hdone : t.Done w w') (hfile : t.toFile = true)
    (hdesc : w.desc t.desc = w.entry (L.name (start / L.length))) (ho : Covers t start o) :
    L.Stored w' o (w.memory (buffer + o)) := by
  obtain ⟨x, hx, -, rfl⟩ := hdone
  obtain ⟨hdiv, hmod⟩ := h.place_eq ho
  obtain ⟨hle, hlt⟩ := ho
  rw [Transfer.perform_write hx hfile]
  refine ⟨x, ?_, ?_, ?_⟩
  · show w.entry _ = some x
    rw [hdiv, ← hdesc, hx]
  all_goals
    rw [hmod]
    simp only [World.setContent, Function.update_self, Content.write, h.offset, h.addr]
  · rw [if_neg (by omega)]
    omega
  · rw [if_pos (by omega), Nat.add_sub_cancel_left, add_assoc, Nat.add_sub_cancel' hle]

/-- A write leaves the bytes alone that it does not move. -/
theorem Aims.keeps_stored (h : L.Aims buffer t start) (hbegun : t.Begun x w w')
    (hfile : t.toFile = true) (hdesc : w.desc t.desc = w.entry (L.name (start / L.length)))
    (ho : o < L.total) (hnot : ¬Covers t start o) (hstored : L.Stored w o v) : L.Stored w' o v := by
  obtain ⟨y, hentry, hsize, hbyte⟩ := hstored
  have hwrites := hbegun.writes hfile
  refine ⟨y, by rw [hbegun.entry, hentry], ?_⟩
  by_cases hyx : y = x
  · subst hyx
    have hsame : o / L.length = start / L.length := by
      refine L.distinct _ (file_lt ho) _ h.below (w.single hentry ?_)
      rw [← hdesc, hbegun.target]
    have houtside := h.outside hnot hsame
    exact ⟨hsize.trans_le hwrites.grows, by rw [hwrites.byte _ houtside, hbyte]⟩
  · rw [hwrites.others y hyx]
    exact ⟨hsize, hbyte⟩

/-- A write does not make a file longer than the layout says. -/
theorem Aims.size_le (h : L.Aims buffer t start) (hbegun : t.Begun x w w') (hfile : t.toFile = true)
    {y : ℕ} (hsize : (w.content y).size ≤ L.length) : (w'.content y).size ≤ L.length := by
  have hwrites := hbegun.writes hfile
  by_cases hyx : y = x
  · subst hyx
    have hwritten := hwrites.size
    have hwithin := h.within
    rw [h.offset] at hwritten
    omega
  · rw [hwrites.others y hyx]
    exact hsize

/-- A write touches no other file. -/
theorem keeps_content (hbegun : t.Begun x w w') (hfile : t.toFile = true) {n : ν}
    (hdesc : w.desc t.desc = w.entry n) {n' : ν} {y : ℕ} (hy : w.entry n' = some y) (hne : n' ≠ n) :
    w'.content y = w.content y := by
  refine (hbegun.writes hfile).others y fun hyx => hne ?_
  refine w.single hy ?_
  rw [hyx, ← hdesc, hbegun.target]

/-! ### Reading -/

theorem Aims.loaded (h : L.Aims buffer t start) (hdone : t.Done w w') (hfile : t.toFile = false)
    (hdesc : w.desc t.desc = w.entry (L.name (start / L.length))) (ho : Covers t start o)
    (hstored : L.Stored w o v) : w'.memory (buffer + o) = v := by
  obtain ⟨x, hx, -, rfl⟩ := hdone
  obtain ⟨hdiv, hmod⟩ := h.place_eq ho
  obtain ⟨y, hy, -, hbyte⟩ := hstored
  obtain ⟨hle, hlt⟩ := ho
  rw [hdiv, ← hdesc, hx, Option.some.injEq] at hy
  subst hy
  rw [Transfer.perform_read hx hfile, World.setMemory_memory, h.addr, h.offset]
  rw [if_pos (by omega), Nat.add_sub_add_left, ← hmod, hbyte]

/-- A read leaves the bytes alone that it does not move. -/
theorem Aims.keeps_loaded (h : L.Aims buffer t start) (hbegun : t.Begun x w w')
    (hfile : t.toFile = false) (hnot : ¬Covers t start o) :
    w'.memory (buffer + o) = w.memory (buffer + o) := by
  refine (hbegun.reads hfile).memory _ ?_
  rw [h.addr]
  unfold Covers at hnot
  omega

end Layout
end Storage
