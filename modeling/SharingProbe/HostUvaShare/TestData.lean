import Mathlib.Algebra.BigOperators.Group.Finset.Piecewise
import Mathlib.Data.UInt

/-!
# The test data of `host_uva_share`

The writer fills the buffer with a magic number, the low bytes of the indices, and a
checksum.  The reader does not compare: it looks at the magic number and adds the words
up.  What it accepts is a larger set of buffers, in which those that agree with the
written one up to a single word are told apart from it.
-/

namespace SharingProbe.HostUvaShare

/-- The 32-bit words of a buffer. -/
abbrev Words : Type := ℕ → UInt32

/-- `kMagic`. -/
def kMagic : UInt32 := 0x48464D53

/-- The loop over the words between the first and the last one. -/
def writeMiddle (count : ℕ) (p : Words) : Words :=
  (List.range' 1 (count - 2)).foldl
    (fun p i => Function.update p i (UInt32.ofNat (i &&& 0xFF))) p

/-- The checksum loop of both functions. -/
def checksum (count : ℕ) (p : Words) : UInt32 :=
  (List.range (count - 1)).foldl (fun sum i => sum + p i) 0

/-- `WriteTestData`, on a buffer of at least 8 bytes. -/
def writeTestData (size : ℕ) (p : Words) : Words :=
  let count := size / 4
  let p := writeMiddle count (Function.update p 0 kMagic)
  Function.update p (count - 1) (checksum count p)

/-- `VerifyTestData`. -/
def verifyTestData (size : ℕ) (p : Words) : ℤ :=
  let count := size / 4
  if p 0 ≠ kMagic then -1
  else if p (count - 1) ≠ checksum count p then -1
  else 0

/-! ## The checksum -/

theorem checksum_eq_sum (count : ℕ) (p : Words) :
    checksum count p = ∑ i ∈ Finset.range (count - 1), p i := by
  unfold checksum
  induction count - 1 with
  | zero => simp
  | succ n ih => rw [List.range_succ, List.foldl_append, ih, Finset.sum_range_succ]; rfl

theorem checksum_congr {count : ℕ} {p q : Words} (hpq : ∀ i < count - 1, p i = q i) :
    checksum count p = checksum count q := by
  rw [checksum_eq_sum, checksum_eq_sum]
  exact Finset.sum_congr rfl fun i hi => hpq i (Finset.mem_range.mp hi)

/-- Two buffers with one checksum do not differ in a single word. -/
theorem eq_of_checksum_eq {count k : ℕ} {p q : Words} (hk : k < count - 1)
    (hpq : ∀ i < count - 1, i ≠ k → p i = q i) (hsum : checksum count p = checksum count q) :
    p k = q k := by
  rw [checksum_eq_sum, checksum_eq_sum, ← Finset.add_sum_erase _ p (Finset.mem_range.mpr hk),
    ← Finset.add_sum_erase _ q (Finset.mem_range.mpr hk)] at hsum
  have hrest : ∑ i ∈ (Finset.range (count - 1)).erase k, p i =
      ∑ i ∈ (Finset.range (count - 1)).erase k, q i := by
    apply Finset.sum_congr rfl
    intro i hi
    have hmem := Finset.mem_erase.mp hi
    exact hpq i (Finset.mem_range.mp hmem.2) hmem.1
  rw [hrest] at hsum
  exact add_right_cancel hsum

/-! ## What the writer leaves -/

theorem foldl_update_of_notMem {i : ℕ} (value : ℕ → UInt32) {indices : List ℕ}
    (hi : i ∉ indices) (p : Words) :
    indices.foldl (fun p i => Function.update p i (value i)) p i = p i := by
  induction indices generalizing p with
  | nil => rfl
  | cons j rest ih =>
      rw [List.mem_cons, not_or] at hi
      rw [List.foldl_cons, ih hi.2, Function.update_of_ne hi.1]

theorem writeTestData_last (size : ℕ) (p : Words) :
    writeTestData size p (size / 4 - 1) = checksum (size / 4) (writeTestData size p) := by
  unfold writeTestData
  rw [Function.update_self]
  apply checksum_congr
  intro i hi
  rw [Function.update_of_ne (Nat.ne_of_lt hi)]

theorem writeTestData_first {size : ℕ} (hsize : 8 ≤ size) (p : Words) :
    writeTestData size p 0 = kMagic := by
  have hlast : 0 ≠ size / 4 - 1 := by omega
  have hmiddle : 0 ∉ List.range' 1 (size / 4 - 2) := by simp
  unfold writeTestData writeMiddle
  rw [Function.update_of_ne hlast, foldl_update_of_notMem _ hmiddle, Function.update_self]

/-! ## What the reader accepts -/

theorem verifyTestData_eq_zero_iff (size : ℕ) (p : Words) :
    verifyTestData size p = 0 ↔
      p 0 = kMagic ∧ p (size / 4 - 1) = ∑ i ∈ Finset.range (size / 4 - 1), p i := by
  unfold verifyTestData
  dsimp only
  rw [checksum_eq_sum]
  by_cases hfirst : p 0 = kMagic <;>
    by_cases hlast : p (size / 4 - 1) = ∑ i ∈ Finset.range (size / 4 - 1), p i <;>
      simp [hfirst, hlast]

theorem verifyTestData_writeTestData {size : ℕ} (hsize : 8 ≤ size) (blank : Words) :
    verifyTestData size (writeTestData size blank) = 0 := by
  rw [verifyTestData_eq_zero_iff, ← checksum_eq_sum]
  exact ⟨writeTestData_first hsize blank, writeTestData_last size blank⟩

/-- Two accepted buffers do not differ in a single word.  The cases are where that word
stands: the magic number, the summands, the checksum. -/
theorem eq_of_accepted {size k : ℕ} {p q : Words} (hp : verifyTestData size p = 0)
    (hq : verifyTestData size q = 0) (hpq : ∀ i < size / 4, i ≠ k → p i = q i) :
    ∀ i < size / 4, p i = q i := by
  rw [verifyTestData_eq_zero_iff, ← checksum_eq_sum] at hp hq
  obtain ⟨hpfirst, hplast⟩ := hp
  obtain ⟨hqfirst, hqlast⟩ := hq
  intro i hi
  by_cases hik : i = k
  · subst hik
    by_cases hlast : i = size / 4 - 1
    · rw [hlast, hplast, hqlast]
      exact checksum_congr fun j hj => hpq j (by omega) (by omega)
    · have hsum : checksum (size / 4) p = checksum (size / 4) q := by
        rw [← hplast, ← hqlast]
        exact hpq _ (by omega) (Ne.symm hlast)
      exact eq_of_checksum_eq (by omega) (fun j hj => hpq j (by omega)) hsum
  · exact hpq i hi hik

/-- A buffer with the second and the last word increased. -/
def compensate (size : ℕ) (w : Words) : Words :=
  Function.update (Function.update w 1 (w 1 + 1)) (size / 4 - 1) (w (size / 4 - 1) + 1)

theorem verifyTestData_compensate {size : ℕ} (hsize : 12 ≤ size) {w : Words}
    (hw : verifyTestData size w = 0) : verifyTestData size (compensate size w) = 0 := by
  rw [verifyTestData_eq_zero_iff] at hw ⊢
  obtain ⟨hfirst, hlast⟩ := hw
  have hmem : 1 ∈ Finset.range (size / 4 - 1) := Finset.mem_range.mpr (by omega)
  constructor
  · unfold compensate
    rw [Function.update_of_ne (by omega), Function.update_of_ne (by decide), hfirst]
  · have hsame : ∀ i ∈ Finset.range (size / 4 - 1),
        compensate size w i = Function.update w 1 (w 1 + 1) i := by
      intro i hi
      exact Function.update_of_ne (Nat.ne_of_lt (Finset.mem_range.mp hi)) _ _
    calc compensate size w (size / 4 - 1)
        = w (size / 4 - 1) + 1 := Function.update_self ..
      _ = ∑ i ∈ Finset.range (size / 4 - 1), w i + 1 := by rw [← hlast]
      _ = w 1 + 1 + ∑ i ∈ (Finset.range (size / 4 - 1)).erase 1, w i := by
          rw [← Finset.add_sum_erase _ _ hmem]
          ac_rfl
      _ = ∑ i ∈ Finset.range (size / 4 - 1), compensate size w i := by
          rw [Finset.sum_congr rfl hsame, Finset.sum_update_of_mem hmem,
            Finset.sdiff_singleton_eq_erase]

/-- Only in a buffer of two words the reader accepts nothing else. -/
theorem verifyTestData_exact_iff {size : ℕ} (hsize : 8 ≤ size) (blank : Words) :
    (∀ p : Words, verifyTestData size p = 0 ↔
        ∀ i < size / 4, p i = writeTestData size blank i) ↔ size < 12 := by
  have hwritten := verifyTestData_writeTestData hsize blank
  constructor
  · intro hexact
    by_contra hlong
    have hsecond := (hexact _).mp (verifyTestData_compensate (by omega) hwritten) 1 (by omega)
    unfold compensate at hsecond
    rw [Function.update_of_ne (by omega), Function.update_self] at hsecond
    exact absurd (add_eq_left.mp hsecond) (by decide)
  · intro hshort p
    constructor
    · intro haccepted
      have hfirst := ((verifyTestData_eq_zero_iff size p).mp haccepted).1
      apply eq_of_accepted (k := 1) haccepted hwritten
      intro i hi hi1
      have hi0 : i = 0 := by omega
      rw [hi0, hfirst, writeTestData_first hsize]
    · intro hequal
      rw [verifyTestData_eq_zero_iff] at hwritten ⊢
      rw [hequal 0 (by omega), hequal _ (by omega), hwritten.2]
      refine ⟨hwritten.1, Finset.sum_congr rfl fun i hi => ?_⟩
      exact (hequal i (by have := Finset.mem_range.mp hi; omega)).symm

/-- The reader accepts the buffers with the magic number in front and the sum of all other
words at the end.  The written buffer is one of them and differs from each other one in at
least two words; with more than two words there are others. -/
theorem verification_accepts {size : ℕ} (hsize : 8 ≤ size) (blank : Words) :
    (∀ p : Words, verifyTestData size p = 0 ↔
        p 0 = kMagic ∧ p (size / 4 - 1) = ∑ i ∈ Finset.range (size / 4 - 1), p i) ∧
      verifyTestData size (writeTestData size blank) = 0 ∧
      (∀ p : Words, verifyTestData size p = 0 →
        (∃ k, ∀ i < size / 4, i ≠ k → p i = writeTestData size blank i) →
        ∀ i < size / 4, p i = writeTestData size blank i) ∧
      ((∀ p : Words, verifyTestData size p = 0 ↔
        ∀ i < size / 4, p i = writeTestData size blank i) ↔ size < 12) := by
  refine ⟨verifyTestData_eq_zero_iff size, verifyTestData_writeTestData hsize blank, ?_,
    verifyTestData_exact_iff hsize blank⟩
  intro p haccepted honly
  obtain ⟨k, hk⟩ := honly
  exact eq_of_accepted haccepted (verifyTestData_writeTestData hsize blank) hk

/-- A buffer of 16 bytes that the writer has filled is accepted. -/
theorem verification_accepts_sixteen : verifyTestData 16 (writeTestData 16 fun _ => 0) = 0 :=
  (verification_accepts (by decide) fun _ => 0).2.1

/-- The words of a buffer of 16 bytes in which the second and the third have been exchanged. -/
def exchanged : Words := fun i => [kMagic, 2, 1, kMagic + 3].getD i 0

/-- The reader accepts the exchanged words, which the writer does not leave. -/
theorem verification_not_exact :
    ¬∀ size : ℕ, size % 4 = 0 → 8 ≤ size → ∀ blank p : Words,
      (verifyTestData size p = 0 ↔ ∀ i < size / 4, p i = writeTestData size blank i) := by
  intro hexact
  have haccepted : verifyTestData 16 exchanged = 0 := by decide +kernel
  have hsecond := (hexact 16 (by decide) (by decide) (fun _ => 0) exchanged).mp haccepted 1
    (by decide)
  have hne : exchanged 1 ≠ writeTestData 16 (fun _ => 0) 1 := by decide +kernel
  exact hne hsecond

end SharingProbe.HostUvaShare
