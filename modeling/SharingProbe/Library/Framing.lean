import Mathlib.Data.Int.ModEq
import Mathlib.Data.List.Basic

/-!
# Records of text

A record is a line of fixed length.  It starts with labelled fields, which are
decimal numbers of a minimal width, and ends in a mark that occurs nowhere else.

Two fields that are followed by the same separator can be read off a common text,
although a number may be wider than its field.  Two windows of streams of records that
show the same symbols lie in the same way over the records, because the marks do; and
a window that is long enough contains a whole record.
-/

namespace Framing

variable {α : Type*}

/-! ## Fields -/

/-- A field ends at the first separator. -/
theorem field_of_append {s : α} {d d' r r' : List α} (hd : s ∉ d) (hd' : s ∉ d')
    (h : d ++ s :: r = d' ++ s :: r') : d = d' ∧ r = r' := by
  induction d generalizing d' with
  | nil =>
      cases d' with
      | nil => exact ⟨rfl, (List.cons.inj h).2⟩
      | cons x d' => exact absurd ((List.cons.inj h).1 ▸ List.mem_cons_self) hd'
  | cons x d ih =>
      cases d' with
      | nil => exact absurd ((List.cons.inj h).1 ▸ List.mem_cons_self) hd
      | cons x' d' =>
          obtain ⟨rfl, hrest⟩ := List.cons.inj h
          obtain ⟨rfl, hr⟩ := ih (fun hmem => hd (List.mem_cons_of_mem _ hmem))
            (fun hmem => hd' (List.mem_cons_of_mem _ hmem)) hrest
          exact ⟨rfl, hr⟩

/-- A decimal number, filled up with zeros on the left. -/
def padded (width n : ℕ) : List Char := (Nat.toDigits 10 n).leftpad width '0'

/-- Reading a padded number gives the number. -/
theorem ofDigitChars_padded (width n : ℕ) : Nat.ofDigitChars 10 (padded width n) 0 = n := by
  unfold padded List.leftpad
  rw [Nat.ofDigitChars_append, Nat.ofDigitChars_replicate_zero, Nat.mul_zero,
    Nat.ofDigitChars_ten_toDigits]

theorem padded_injective {width n n' : ℕ} (h : padded width n = padded width n') : n = n' := by
  rw [← ofDigitChars_padded width n, h, ofDigitChars_padded]

theorem isDigit_of_mem_padded {width n : ℕ} {c : Char} (hc : c ∈ padded width n) :
    c.isDigit = true := by
  unfold padded List.leftpad at hc
  rcases List.mem_append.mp hc with hzero | hdigit
  · rw [(List.mem_replicate.mp hzero).2]
    decide
  · exact Nat.isDigit_of_mem_toDigits (by decide) (by decide) hdigit

theorem length_padded_le {width n k : ℕ} (hk : 0 < k) (hwidth : width ≤ k) (hn : n < 10 ^ k) :
    (padded width n).length ≤ k := by
  have hdigits : (Nat.toDigits 10 n).length ≤ k :=
    (Nat.length_toDigits_le_iff (by decide) hk).mpr hn
  unfold padded List.leftpad
  rw [List.length_append, List.length_replicate]
  omega

/-! ## Frames -/

/-- Below `size`, the mark stands at the end of each frame of `m` symbols and nowhere else. -/
def Framed (m size : ℕ) (mark : α) (f : ℕ → α) : Prop := ∀ o < size, f o = mark ↔ o % m = m - 1

variable {m size length a b : ℕ} {mark : α} {f g : ℕ → α}

/-- Windows that show the same symbols have the same phase. -/
theorem Framed.same_phase (hf : Framed m size mark f) (hg : Framed m size mark g) (hm : 0 < m)
    (hlength : m ≤ length) (ha : a + length ≤ size) (hb : b + length ≤ size)
    (hsame : ∀ k < length, f (a + k) = g (b + k)) : a % m = b % m := by
  have hrest : a % m < m := Nat.mod_lt a hm
  have hend : (a + (m - 1 - a % m)) % m = m - 1 := by
    have hstart := Nat.div_add_mod a m
    calc (a + (m - 1 - a % m)) % m = (m - 1 + m * (a / m)) % m := by congr 1; omega
      _ = (m - 1) % m := Nat.add_mul_mod_self_left _ _ _
      _ = m - 1 := Nat.mod_eq_of_lt (by omega)
  -- the first mark of the first window stands in the second window too
  have hmark : g (b + (m - 1 - a % m)) = mark := by
    rw [← hsame _ (by omega)]
    exact (hf _ (by omega)).mpr hend
  have hend' := (hg _ (by omega)).mp hmark
  exact Nat.ModEq.add_right_cancel' (m - 1 - a % m) (hend.trans hend'.symm)

/-- Windows that show the same symbols have a whole frame in common, at the same place. -/
theorem Framed.common_frame (hf : Framed m size mark f) (hg : Framed m size mark g) (hm : 0 < m)
    (hlength : 2 * m ≤ length + 1) (ha : a + length ≤ size) (hb : b + length ≤ size)
    (hsame : ∀ k < length, f (a + k) = g (b + k)) :
    ∃ q q' k, a + k = q * m ∧ b + k = q' * m ∧ k + m ≤ length := by
  have hphase := hf.same_phase hg hm (by omega) ha hb hsame
  have hrest : a % m < m := Nat.mod_lt a hm
  have hdiva : a / m * m + a % m = a := Nat.div_add_mod' a m
  have hdivb : b / m * m + b % m = b := Nat.div_add_mod' b m
  by_cases hzero : a % m = 0
  · exact ⟨a / m, b / m, 0, by omega, by omega, by omega⟩
  · refine ⟨a / m + 1, b / m + 1, m - a % m, ?_, ?_, by omega⟩
    · rw [Nat.add_mul, Nat.one_mul]
      omega
    · rw [Nat.add_mul, Nat.one_mul]
      omega

/-! ## Records of one size -/

section Records

variable {β : Type*} {record : β → List α}

theorem length_flatMap (hsize : ∀ b, (record b).length = m) (l : List β) :
    (l.flatMap record).length = m * l.length := by
  induction l with
  | nil => rfl
  | cons b l ih =>
      rw [List.flatMap_cons, List.length_append, hsize, ih, List.length_cons, Nat.mul_add]
      omega

/-- The first records are the first symbols. -/
theorem flatMap_take (hsize : ∀ b, (record b).length = m) (l : List β) (k : ℕ) :
    (l.take k).flatMap record = (l.flatMap record).take (m * k) := by
  by_cases hk : k ≤ l.length
  · have hlength : ((l.take k).flatMap record).length = m * k := by
      rw [length_flatMap hsize, List.length_take, Nat.min_eq_left hk]
    conv_rhs => rw [← List.take_append_drop k l, List.flatMap_append]
    rw [← hlength, List.take_left]
  · have hle : (l.flatMap record).length ≤ m * k := by
      rw [length_flatMap hsize]
      exact Nat.mul_le_mul_left m (by omega)
    rw [List.take_of_length_le (by omega), List.take_of_length_le hle]

/-- The symbols of a record and those before it. -/
theorem take_flatMap_add (hsize : ∀ b, (record b).length = m) {l : List β} {k c : ℕ} {b : β}
    (hb : l[k]? = some b) (hc : c ≤ m) :
    (l.flatMap record).take (m * k + c) = (l.take k).flatMap record ++ (record b).take c := by
  obtain ⟨hk, hget⟩ := List.getElem?_eq_some_iff.mp hb
  have hlength : ((l.take k).flatMap record).length = m * k := by
    rw [length_flatMap hsize, List.length_take, Nat.min_eq_left hk.le]
  conv_lhs => rw [← List.take_append_drop k l, List.drop_eq_getElem_cons hk, hget,
    List.flatMap_append, List.flatMap_cons]
  rw [← hlength, List.take_length_add_append,
    List.take_append_of_le_length (by rw [hsize]; exact hc)]

theorem flatMap_injective (hsize : ∀ b, (record b).length = m) (hm : 0 < m)
    (hrecord : Function.Injective record) :
    Function.Injective fun l : List β => l.flatMap record := by
  intro l
  induction l with
  | nil =>
      intro l' h
      have hlength := congrArg List.length h
      simp only [length_flatMap hsize] at hlength
      exact (List.length_eq_zero_iff.mp (Nat.eq_of_mul_eq_mul_left hm hlength.symm)).symm
  | cons b l ih =>
      intro l' h
      cases l' with
      | nil =>
          have hlength := congrArg List.length h
          simp only [length_flatMap hsize] at hlength
          exact absurd (Nat.eq_of_mul_eq_mul_left hm hlength) (by simp)
      | cons b' l' =>
          simp only [List.flatMap_cons] at h
          obtain ⟨hb, hl⟩ := List.append_inj h ((hsize b).trans (hsize b').symm)
          rw [hrecord hb, ih hl]

end Records

/-! ## Words of any size -/

section Words

variable {β : Type*} {word : β → List α} {read : List α → List β}

/-- A reader that takes one word off the front of any text reads a text of words. -/
theorem read_flatMap (hnil : read [] = [])
    (hword : ∀ b rest, read (word b ++ rest) = b :: read rest)
    (l : List β) : read (l.flatMap word) = l := by
  induction l with
  | nil => exact hnil
  | cons b l ih => rw [List.flatMap_cons, hword, ih]

end Words

end Framing
