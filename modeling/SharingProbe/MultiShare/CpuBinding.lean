import Mathlib.Data.List.TakeWhile
import Mathlib.Tactic.Linarith
import SharingProbe.Library.Ensures
import SharingProbe.Share.Text

/-!
# Binding to the CPUs of a NUMA node

`bind_cpu` reads the list of the node's CPUs as the kernel prints it and keeps those that
it is allowed to run on.  Its parser has no grammar of its own: what an item means is
what `find`, `substr` and `stoi` make of it.
-/

namespace SharingProbe.MultiShare

open Fallible Share

/-- `CPU_SETSIZE`. -/
abbrev cpuSetSize : ℕ := 1024

/-- `cpu_set_t`. -/
abbrev CpuSet : Type := BitVec cpuSetSize

/-- `CPU_ISSET`. -/
def cpuIsset (cpu : ℤ) (set : CpuSet) : Bool := decide (0 ≤ cpu) && set.getLsbD cpu.toNat

/-- `CPU_SET`. -/
def cpuSet (cpu : ℤ) (set : CpuSet) : CpuSet :=
  if 0 ≤ cpu then set ||| BitVec.twoPow cpuSetSize cpu.toNat else set

/-- The set that `bind_cpu` builds, and the CPUs whose bits it has looked at. -/
structure Selection where
  selected : CpuSet := 0
  indexed : List ℤ := []
  deriving DecidableEq, Repr

/-- The body of the loop over a range. -/
def examineCpu (allowed : CpuSet) (s : Selection) (cpu : ℤ) : Selection where
  selected := if cpuIsset cpu allowed then cpuSet cpu s.selected else s.selected
  indexed := cpu :: s.indexed

/-- The values of `for (int cpu = first; cpu <= last; ++cpu)`. -/
def cpuRange (first last : ℤ) : List ℤ :=
  (List.range (last + 1 - first).toNat).map fun (k : ℕ) => first + k

/-- The loop over a range. -/
def selectRange (allowed : CpuSet) (first last : ℤ) (s : Selection) : Selection :=
  (cpuRange first last).foldl (examineCpu allowed) s

/-- The bounds of an item; without a dash there is only one. -/
def partRange (part : List Char) : Except String (ℤ × ℤ) :=
  stoi (part.takeWhile (· ≠ '-')) >>= fun first =>
    (match part.dropWhile (· ≠ '-') with
      | [] => .ok first
      | _ :: rest => stoi rest) >>= fun last =>
    if last ≥ cpuSetSize then .error "CPU ID exceeds CPU_SETSIZE" else .ok (first, last)

/-- The loop over the items, with the exception that ends it. -/
def selectParts (allowed : CpuSet) (s : Selection) : List (List Char) → Selection × Option String
  | [] => (s, none)
  | part :: parts =>
      match partRange part with
      | .error e => (s, some e)
      | .ok range => selectParts allowed (selectRange allowed range.1 range.2 s) parts

/-- `file >> cpus`; no text is a failure. -/
def firstToken (text : List Char) : List Char :=
  (text.dropWhile isSpace).takeWhile fun c => !isSpace c

/-- What `bind_cpu` has done: the CPUs whose bits it looked at, the set that it passed to
`sched_setaffinity`, and the exception. -/
structure Binding where
  indexed : List ℤ
  affinity : Option CpuSet
  thrown : Option String
  deriving DecidableEq, Repr

/-- `bind_cpu`, on the text of the file and what the two system calls give. -/
def bindCpu (text : List Char) (getRet : ℤ) (allowed : CpuSet) (setRet : ℤ) : Binding :=
  let cpus := firstToken text
  if cpus = [] then ⟨[], none, some "read NUMA node cpulist"⟩
  else if getRet ≠ 0 then ⟨[], none, some "sched_getaffinity"⟩
  else
    match selectParts allowed {} (getlines ',' [] cpus) with
    | (s, some e) => ⟨s.indexed, none, some e⟩
    | (s, none) =>
        if s.selected = 0 then ⟨s.indexed, none, some "NUMA node has no allowed CPUs"⟩
        else ⟨s.indexed, some s.selected,
          if setRet ≠ 0 then some "sched_setaffinity NUMA" else none⟩

/-! ## What a range adds -/

theorem mem_cpuRange {first last cpu : ℤ} :
    cpu ∈ cpuRange first last ↔ first ≤ cpu ∧ cpu ≤ last := by
  unfold cpuRange
  rw [List.mem_map]
  constructor
  · rintro ⟨k, hk, rfl⟩
    have hlt := List.mem_range.mp hk
    omega
  · intro h
    exact ⟨(cpu - first).toNat, List.mem_range.mpr (by omega), by omega⟩

theorem getLsbD_cpuSet {cpu : ℤ} {allowed : CpuSet} (hcpu : cpuIsset cpu allowed = true)
    (set : CpuSet) (c : ℕ) :
    (cpuSet cpu set).getLsbD c = true ↔ set.getLsbD c = true ∨ cpu = c := by
  unfold cpuIsset at hcpu
  simp only [Bool.and_eq_true, decide_eq_true_eq] at hcpu
  have hlt : cpu.toNat < cpuSetSize := BitVec.lt_of_getLsbD hcpu.2
  unfold cpuSet
  rw [if_pos hcpu.1, BitVec.getLsbD_or, BitVec.getLsbD_twoPow]
  have hiff : cpu.toNat = c ↔ cpu = c := by omega
  simp [hlt, hiff]

theorem getLsbD_examineCpu (allowed : CpuSet) (s : Selection) (cpu : ℤ) (c : ℕ) :
    (examineCpu allowed s cpu).selected.getLsbD c = true ↔
      s.selected.getLsbD c = true ∨ (cpu = c ∧ allowed.getLsbD c = true) := by
  have hisset : cpu = c → cpuIsset cpu allowed = allowed.getLsbD c := by
    rintro rfl
    simp [cpuIsset]
  unfold examineCpu
  by_cases hcpu : cpuIsset cpu allowed = true
  · rw [if_pos hcpu, getLsbD_cpuSet hcpu]
    constructor
    · exact Or.imp_right fun h => ⟨h, by rw [← hisset h, hcpu]⟩
    · exact Or.imp_right fun h => h.1
  · rw [if_neg hcpu]
    constructor
    · exact Or.inl
    · rintro (h | ⟨h, hallowed⟩)
      · exact h
      · exact absurd ((hisset h).trans hallowed) hcpu

/-- The induction is on the CPUs. -/
theorem getLsbD_foldl_examineCpu (allowed : CpuSet) (cpus : List ℤ) (s : Selection) (c : ℕ) :
    (cpus.foldl (examineCpu allowed) s).selected.getLsbD c = true ↔
      s.selected.getLsbD c = true ∨ ((c : ℤ) ∈ cpus ∧ allowed.getLsbD c = true) := by
  induction cpus generalizing s with
  | nil => simp
  | cons cpu cpus ih =>
      rw [List.foldl_cons, ih, getLsbD_examineCpu, List.mem_cons, or_assoc, ← or_and_right]
      simp only [eq_comm]

theorem getLsbD_selectRange (allowed : CpuSet) (first last : ℤ) (s : Selection) (c : ℕ) :
    (selectRange allowed first last s).selected.getLsbD c = true ↔
      s.selected.getLsbD c = true ∨ ((first ≤ c ∧ c ≤ last) ∧ allowed.getLsbD c = true) := by
  unfold selectRange
  rw [getLsbD_foldl_examineCpu, mem_cpuRange]

theorem indexed_foldl_examineCpu (allowed : CpuSet) (cpus : List ℤ) (s : Selection) :
    (cpus.foldl (examineCpu allowed) s).indexed = cpus.reverse ++ s.indexed := by
  induction cpus generalizing s with
  | nil => rfl
  | cons cpu cpus ih => rw [List.foldl_cons, ih]; simp [examineCpu]

/-! ## Any text -/

theorem stoiDigits_nonneg {text : List Char} {n : ℤ} (h : stoiDigits false text = .ok n) :
    0 ≤ n := by
  unfold stoiDigits at h
  simp only [Bool.false_eq_true, if_false] at h
  split at h
  · cases h
  · split at h
    · cases h
    · cases h
      exact Int.natCast_nonneg _

/-- Only a dash makes a number negative. -/
theorem stoi_nonneg {text : List Char} {n : ℤ} (htext : '-' ∉ text) (h : stoi text = .ok n) :
    0 ≤ n := by
  unfold stoi at h
  split at h
  · rename_i rest hrest
    have hmem : '-' ∈ text.dropWhile isSpace := by rw [hrest]; exact List.mem_cons_self
    exact absurd ((List.dropWhile_sublist _).mem hmem) htext
  · exact stoiDigits_nonneg h
  · exact stoiDigits_nonneg h

/-- The first number of an item stands before every dash, and the last one is tested. -/
theorem partRange_bounds (part : List Char) :
    Ensures (fun range : ℤ × ℤ => 0 ≤ range.1 ∧ range.2 < (cpuSetSize : ℤ)) (partRange part) := by
  have hfirst : Ensures (fun first => 0 ≤ first) (stoi (part.takeWhile (· ≠ '-'))) := by
    intro first hok
    apply stoi_nonneg _ hok
    intro hmem
    simpa using List.mem_takeWhile_imp hmem
  refine hfirst.bind fun first hnonneg => ?_
  refine Ensures.bind (P := fun _ => True) (fun _ _ => trivial) fun last _ => ?_
  exact Ensures.guard fun hlast => ensures_ok ⟨hnonneg, not_le.mp hlast⟩

/-- What holds of the selection whatever the text is. -/
structure Selection.Safe (allowed : CpuSet) (s : Selection) : Prop where
  subset : ∀ c, s.selected.getLsbD c = true → allowed.getLsbD c = true
  indexed : ∀ cpu ∈ s.indexed, 0 ≤ cpu ∧ cpu < cpuSetSize

theorem Selection.Safe.selectRange {allowed : CpuSet} {s : Selection} (hs : s.Safe allowed)
    {first last : ℤ} (hfirst : 0 ≤ first) (hlast : last < cpuSetSize) :
    (selectRange allowed first last s).Safe allowed where
  subset c hc := by
    rcases (getLsbD_selectRange allowed first last s c).mp hc with h | h
    · exact hs.subset c h
    · exact h.2
  indexed cpu hcpu := by
    unfold MultiShare.selectRange at hcpu
    rw [indexed_foldl_examineCpu, List.mem_append, List.mem_reverse, mem_cpuRange] at hcpu
    rcases hcpu with h | h
    · omega
    · exact hs.indexed cpu h

theorem Selection.Safe.selectParts {allowed : CpuSet} {s : Selection} (hs : s.Safe allowed)
    (parts : List (List Char)) : (selectParts allowed s parts).1.Safe allowed := by
  induction parts generalizing s with
  | nil => exact hs
  | cons part parts ih =>
      unfold MultiShare.selectParts
      split
      · exact hs
      · rename_i range hrange
        have hbounds := partRange_bounds part range hrange
        exact ih (hs.selectRange hbounds.1 hbounds.2)

/-- The exception comes before the affinity is changed, or the set is not empty and allowed. -/
structure Binding.Safe (allowed : CpuSet) (binding : Binding) : Prop where
  indexed : ∀ cpu ∈ binding.indexed, 0 ≤ cpu ∧ cpu < cpuSetSize
  thrown : binding.affinity = none → binding.thrown ≠ none
  affinity : ∀ set ∈ binding.affinity,
    set ≠ 0 ∧ ∀ c, set.getLsbD c = true → allowed.getLsbD c = true

theorem bindCpu_safe (text : List Char) (getRet : ℤ) (allowed : CpuSet) (setRet : ℤ) :
    (bindCpu text getRet allowed setRet).Safe allowed := by
  have hempty : Selection.Safe allowed {} := ⟨by simp, by simp⟩
  have hparts := hempty.selectParts (getlines ',' [] (firstToken text))
  unfold bindCpu
  dsimp only
  split
  · exact ⟨by simp, by simp, by simp⟩
  split
  · exact ⟨by simp, by simp, by simp⟩
  split
  · rename_i s e hs
    rw [hs] at hparts
    exact ⟨hparts.indexed, by simp, by simp⟩
  · rename_i s hs
    rw [hs] at hparts
    split
    · exact ⟨hparts.indexed, by simp, by simp⟩
    · rename_i hne
      refine ⟨hparts.indexed, by simp, ?_⟩
      intro set hset
      cases hset
      exact ⟨hne, hparts.subset⟩

/-! ## The lists of the kernel -/

/-- A decimal number. -/
def IsNumber (text : List Char) : Prop := text ≠ [] ∧ ∀ c ∈ text, c.isDigit = true

/-- What a decimal number says. -/
def value (text : List Char) : ℕ := Nat.ofDigitChars 10 text 0

/-- An item `a` or `a-b`, with `a ≤ b < CPU_SETSIZE`. -/
structure CpuItem where
  first : List Char
  last : Option (List Char) := none
  first_number : IsNumber first
  last_number : ∀ t ∈ last, IsNumber t
  le : value first ≤ value (last.getD first)
  lt : value (last.getD first) < cpuSetSize

/-- An item as it is printed. -/
def CpuItem.text (item : CpuItem) : List Char :=
  match item.last with
  | none => item.first
  | some last => item.first ++ '-' :: last

/-- The CPUs of an item. -/
def CpuItem.Lists (item : CpuItem) (cpu : ℕ) : Prop :=
  value item.first ≤ cpu ∧ cpu ≤ value (item.last.getD item.first)

theorem IsNumber.stoi {text : List Char} (htext : IsNumber text) (hlt : value text < cpuSetSize) :
    stoi text = .ok (value text) := by
  obtain ⟨hne, hdigits⟩ := htext
  obtain ⟨c, rest, rfl⟩ := List.exists_cons_of_ne_nil hne
  have hc := hdigits c List.mem_cons_self
  have hdash : c ≠ '-' := by rintro rfl; cases hc
  have hplus : c ≠ '+' := by rintro rfl; cases hc
  have htake : (c :: rest).takeWhile Char.isDigit = c :: rest :=
    List.takeWhile_eq_self_iff.mpr hdigits
  have hvalue : Nat.ofDigitChars 10 (c :: rest) 0 < 1024 := hlt
  have hstoi : Share.stoi (c :: rest) = stoiDigits false (c :: rest) := by
    unfold Share.stoi
    rw [List.dropWhile_cons_of_neg (by rw [isSpace_of_isDigit hc]; decide)]
    split
    · rename_i h
      exact absurd (List.cons.inj h).1 hdash
    · rename_i h
      exact absurd (List.cons.inj h).1 hplus
    · rfl
  rw [hstoi]
  unfold stoiDigits
  dsimp only
  rw [htake, if_neg (List.cons_ne_nil c rest), if_neg (by simp; omega)]
  rfl

theorem IsNumber.ne_of_mem {text : List Char} (htext : IsNumber text) {c d : Char}
    (hd : d.isDigit = false) (hc : c ∈ text) : c ≠ d := by
  rintro rfl
  exact absurd (htext.2 c hc) (by simp [hd])

theorem CpuItem.partRange_text (item : CpuItem) :
    partRange item.text =
      .ok ((value item.first : ℤ), (value (item.last.getD item.first) : ℤ)) := by
  obtain ⟨first, last, hfirst, hlast, hle, hlt⟩ := item
  have hnodash : ∀ c ∈ first, decide (c ≠ '-') = true := fun c hc =>
    decide_eq_true (hfirst.ne_of_mem (by decide) hc)
  cases last with
  | none =>
      have hstoi := hfirst.stoi hlt
      have hbound : ¬(value first : ℤ) ≥ (cpuSetSize : ℤ) := by
        have : value first < cpuSetSize := hlt
        omega
      unfold partRange CpuItem.text
      dsimp only
      rw [List.takeWhile_eq_self_iff.mpr hnodash, List.dropWhile_eq_nil_iff.mpr hnodash, hstoi]
      change (if _ then _ else _) = _
      rw [if_neg hbound]
      rfl
  | some last =>
      have hstoi := hfirst.stoi (lt_of_le_of_lt hle hlt)
      have hstoi' := (hlast last rfl).stoi hlt
      have hbound : ¬(value last : ℤ) ≥ (cpuSetSize : ℤ) := by
        have : value last < cpuSetSize := hlt
        omega
      unfold partRange CpuItem.text
      dsimp only
      rw [List.takeWhile_append_of_pos hnodash, List.dropWhile_append_of_pos hnodash,
        List.takeWhile_cons_of_neg (by decide), List.dropWhile_cons_of_neg (by decide),
        List.append_nil, hstoi]
      change (Share.stoi last >>= _) = _
      rw [hstoi']
      change (if _ then _ else _) = _
      rw [if_neg hbound]
      rfl

/-- The induction is on the items. -/
theorem selectParts_texts (allowed : CpuSet) (items : List CpuItem) (s : Selection) :
    ∃ s', selectParts allowed s (items.map CpuItem.text) = (s', none) ∧
      ∀ c, s'.selected.getLsbD c = true ↔ s.selected.getLsbD c = true ∨
        ((∃ item ∈ items, item.Lists c) ∧ allowed.getLsbD c = true) := by
  induction items generalizing s with
  | nil => exact ⟨s, rfl, fun c => by simp⟩
  | cons item items ih =>
      obtain ⟨s', hs', hbits⟩ := ih (selectRange allowed (value item.first)
        (value (item.last.getD item.first)) s)
      refine ⟨s', ?_, ?_⟩
      · rw [List.map_cons]
        unfold selectParts
        rw [item.partRange_text]
        exact hs'
      · intro c
        rw [hbits, getLsbD_selectRange, Nat.cast_le, Nat.cast_le, or_assoc, ← or_and_right]
        simp only [List.mem_cons, exists_eq_or_imp, CpuItem.Lists]

/-- The text of a list of items. -/
def cpuList (items : List CpuItem) : List Char := [','].intercalate (items.map CpuItem.text)

theorem CpuItem.text_ne_nil (item : CpuItem) : item.text ≠ [] := by
  have hne := item.first_number.1
  unfold text
  split
  · exact hne
  · simp

theorem CpuItem.mem_text {item : CpuItem} {c : Char} (hc : c ∈ item.text) :
    c.isDigit = true ∨ c = '-' := by
  obtain ⟨first, last, hfirst, hlast, hle, hlt⟩ := item
  unfold text at hc
  cases last with
  | none => exact Or.inl (hfirst.2 c hc)
  | some last =>
      rcases List.mem_append.mp hc with h | h
      · exact Or.inl (hfirst.2 c h)
      · rcases List.mem_cons.mp h with rfl | h
        · exact Or.inr rfl
        · exact Or.inl ((hlast last rfl).2 c h)

theorem not_isSpace_of_mem_cpuList {items : List CpuItem} {c : Char} (hc : c ∈ cpuList items) :
    isSpace c = false := by
  rcases mem_intercalate hc with rfl | ⟨part, hpart, hc⟩
  · rfl
  · obtain ⟨item, hitem, rfl⟩ := List.mem_map.mp hpart
    rcases CpuItem.mem_text hc with h | rfl
    · exact isSpace_of_isDigit h
    · rfl

theorem getlines_cpuList (items : List CpuItem) :
    getlines ',' [] (cpuList items) = items.map CpuItem.text := by
  apply getlines_intercalate
  intro p hp
  obtain ⟨item, hitem, rfl⟩ := List.mem_map.mp hp
  refine ⟨item.text_ne_nil, fun hcomma => ?_⟩
  rcases CpuItem.mem_text hcomma with h | h
  · exact absurd h (by decide)
  · exact absurd h (by decide)

theorem firstToken_append {token rest : List Char} (htoken : ∀ c ∈ token, isSpace c = false)
    (hrest : ∀ c ∈ rest, isSpace c = true) : firstToken (token ++ rest) = token := by
  have hend : rest.takeWhile (fun c => !isSpace c) = [] := by
    cases rest with
    | nil => rfl
    | cons c rest => rw [List.takeWhile_cons_of_neg (by simp [hrest c List.mem_cons_self])]
  unfold firstToken
  cases token with
  | nil => rw [List.nil_append, List.dropWhile_eq_nil_iff.mpr hrest]; rfl
  | cons c token =>
      have hc := htoken c List.mem_cons_self
      rw [List.cons_append, List.dropWhile_cons_of_neg (by simp [hc]), ← List.cons_append,
        List.takeWhile_append_of_pos (fun d hd => by simp [htoken d hd]), hend, List.append_nil]

/-! ## What is bound -/

/-- A CPU that is listed and allowed. -/
def Wanted (items : List CpuItem) (allowed : CpuSet) (cpu : ℕ) : Prop :=
  (∃ item ∈ items, item.Lists cpu) ∧ allowed.getLsbD cpu = true

/-- The set that is passed on is exactly what is listed and allowed; if there is nothing,
there is an exception instead. -/
structure Binding.Exact (items : List CpuItem) (allowed : CpuSet) (setRet : ℤ)
    (binding : Binding) : Prop where
  affinity : (∃ cpu, Wanted items allowed cpu) →
    (∃ set, binding.affinity = some set ∧
        ∀ cpu, set.getLsbD cpu = true ↔ Wanted items allowed cpu) ∧
      (binding.thrown = none ↔ setRet = 0)
  empty : (¬∃ cpu, Wanted items allowed cpu) →
    binding.affinity = none ∧ binding.thrown ≠ none

theorem bindCpu_exact (items : List CpuItem) {rest : List Char}
    (hrest : ∀ c ∈ rest, isSpace c = true) (allowed : CpuSet) (setRet : ℤ) :
    (bindCpu (cpuList items ++ rest) 0 allowed setRet).Exact items allowed setRet := by
  obtain ⟨s, hs, hbits⟩ := selectParts_texts allowed items {}
  have hbits' : ∀ cpu, s.selected.getLsbD cpu = true ↔ Wanted items allowed cpu := by
    intro cpu
    rw [hbits]
    simp [Wanted]
  have htoken : firstToken (cpuList items ++ rest) = cpuList items :=
    firstToken_append (fun c hc => not_isSpace_of_mem_cpuList hc) hrest
  -- the mask is empty only if no CPU is both listed and allowed
  have hselect : s.selected = 0 ↔ ¬∃ cpu, Wanted items allowed cpu := by
    constructor
    · rintro hzero ⟨cpu, hcpu⟩
      have hset := (hbits' cpu).mpr hcpu
      rw [hzero] at hset
      simp at hset
    · intro hnone
      apply BitVec.eq_of_getLsbD_eq
      intro cpu _
      rw [BitVec.ofNat_eq_ofNat, BitVec.getLsbD_zero, Bool.eq_false_iff]
      exact fun h => hnone ⟨cpu, (hbits' cpu).mp h⟩
  unfold bindCpu
  dsimp only
  rw [htoken, getlines_cpuList, hs]
  by_cases hempty : cpuList items = []
  · -- without a token there is no item
    have hitems : items = [] := by
      have hlines := getlines_cpuList items
      rw [hempty] at hlines
      exact List.map_eq_nil_iff.mp hlines.symm
    have hnone : ¬∃ cpu, Wanted items allowed cpu := by simp [Wanted, hitems]
    rw [if_pos hempty]
    exact ⟨fun h => absurd h hnone, fun _ => ⟨rfl, by simp⟩⟩
  · rw [if_neg hempty, if_neg (by decide)]
    by_cases hzero : s.selected = 0
    · dsimp only
      rw [if_pos hzero]
      exact ⟨fun h => absurd h (hselect.mp hzero), fun _ => ⟨rfl, by simp⟩⟩
    · dsimp only
      rw [if_neg hzero]
      have hsome := not_not.mp (hselect.not.mp hzero)
      -- the mask is the one that is passed to `sched_setaffinity`
      refine ⟨fun _ => ⟨⟨s.selected, rfl, hbits'⟩, ?_⟩, fun h => absurd hsome h⟩
      by_cases hret : setRet = 0 <;> simp [hret]

/-- For a list of the kernel, exactly the listed and allowed CPUs are bound, and for any
text nothing that is not allowed. -/
theorem binding_correct (allowed : CpuSet) (setRet : ℤ) :
    (∀ (items : List CpuItem) (rest : List Char), (∀ c ∈ rest, isSpace c = true) →
        (bindCpu (cpuList items ++ rest) 0 allowed setRet).Exact items allowed setRet) ∧
      ∀ (text : List Char) (getRet : ℤ), (bindCpu text getRet allowed setRet).Safe allowed :=
  ⟨fun items _ hrest => bindCpu_exact items hrest allowed setRet,
    fun text getRet => bindCpu_safe text getRet allowed setRet⟩

/-- The items of `0-2,5`. -/
def twoItems : List CpuItem :=
  [{ first := ['0']
     last := some ['2']
     first_number := ⟨by decide, List.forall_mem_singleton.mpr (by decide)⟩
     last_number := by
       intro t ht
       cases ht
       exact ⟨by decide, List.forall_mem_singleton.mpr (by decide)⟩
     le := by decide
     lt := by decide },
   { first := ['5']
     first_number := ⟨by decide, List.forall_mem_singleton.mpr (by decide)⟩
     last_number := by simp
     le := by decide
     lt := by decide }]

/-- The list `0-2,5` where the CPUs 2 to 4 are allowed. -/
theorem binding_correct_twoItems :
    (bindCpu (cpuList twoItems ++ ['\n']) 0 0b11100 0).Exact twoItems 0b11100 0 :=
  (binding_correct 0b11100 0).1 twoItems ['\n'] (List.forall_mem_singleton.mpr (by decide))

example : bindCpu "0-2,5\n".toList 0 0b11100 0 = ⟨[5, 2, 1, 0], some 0b100, none⟩ := by
  decide +kernel

end SharingProbe.MultiShare
