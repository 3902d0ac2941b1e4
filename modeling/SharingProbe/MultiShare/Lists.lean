import Mathlib.Data.List.Forall2
import SharingProbe.MultiShare.Options

/-!
# The lists of `--devices` and `--numa-nodes`

`list` takes its text apart at the commas.  `std::getline` gives no line after the last
delimiter, so a trailing comma is a matter of the test at the end, and an empty line before
that one of `number`.  Together they accept the lists of decimal numbers and nothing else.
-/

namespace SharingProbe.MultiShare

open Fallible Share

/-- Decimal digits with a value that fits into an `int`. -/
structure IsItem (part : List Char) (n : ℕ) : Prop where
  ne_nil : part ≠ []
  digits : ∀ c ∈ part, c.isDigit = true
  value : Nat.ofDigitChars 10 part 0 = n
  le : n ≤ intMax

/-- Items with commas between them, at least one. -/
def IsList (text : List Char) (out : List ℕ) : Prop :=
  out ≠ [] ∧ ∃ parts, text = [','].intercalate parts ∧ List.Forall₂ IsItem parts out

/-! ## Items -/

theorem stoull_eq_ok_iff {text : List Char} {n : ℕ} :
    stoull text = .ok n ↔ n < 2 ^ 64 ∧ Nat.ofDigitChars 10 text 0 = n := by
  unfold stoull
  dsimp only
  rw [guard_eq_ok_iff, Except.ok.injEq]
  constructor
  · rintro ⟨hlt, rfl⟩
    exact ⟨not_le.mp hlt, rfl⟩
  · rintro ⟨hlt, rfl⟩
    exact ⟨not_le.mpr hlt, rfl⟩

theorem number_eq_ok_iff {text : List Char} {n : ℕ} :
    number text = .ok n ↔ text ≠ [] ∧ (∀ c ∈ text, c.isDigit = true) ∧ n < 2 ^ 64 ∧
      Nat.ofDigitChars 10 text 0 = n := by
  unfold number
  rw [guard_eq_ok_iff, stoull_eq_ok_iff, not_or, and_assoc]
  simp

theorem item_eq_ok_iff {part : List Char} {n : ℕ} :
    number part = .ok n ∧ ¬n > intMax ↔ IsItem part n := by
  rw [number_eq_ok_iff]
  constructor
  · rintro ⟨⟨hne, hdigits, -, hvalue⟩, hle⟩
    exact ⟨hne, hdigits, hvalue, not_lt.mp hle⟩
  · intro h
    have hle := h.le
    have hmax : intMax = 2 ^ 31 - 1 := rfl
    exact ⟨⟨h.ne_nil, h.digits, by omega, h.value⟩, not_lt.mpr h.le⟩

/-- The loop follows the lines. -/
theorem listItems_eq_ok_iff {parts : List (List Char)} {out : List ℕ} :
    listItems parts = .ok out ↔ List.Forall₂ IsItem parts out := by
  induction parts generalizing out with
  | nil =>
      rw [List.forall₂_nil_left_iff]
      unfold listItems
      rw [Except.ok.injEq, eq_comm]
  | cons part parts ih =>
      rw [List.forall₂_cons_left_iff]
      unfold listItems
      rw [bind_eq_ok_iff]
      constructor
      · rintro ⟨n, hnumber, hrest⟩
        obtain ⟨hle, hrest⟩ := guard_eq_ok_iff.mp hrest
        obtain ⟨ns, hns, hout⟩ := bind_eq_ok_iff.mp hrest
        cases hout
        exact ⟨n, ns, item_eq_ok_iff.mp ⟨hnumber, hle⟩, ih.mp hns, rfl⟩
      · rintro ⟨n, ns, hitem, hitems, rfl⟩
        obtain ⟨hnumber, hle⟩ := item_eq_ok_iff.mpr hitem
        exact ⟨n, hnumber, guard_eq_ok_iff.mpr ⟨hle, bind_eq_ok_iff.mpr ⟨ns, ih.mpr hitems, rfl⟩⟩⟩

/-- An item has a character and no comma. -/
theorem IsItem.ne_comma {part : List Char} {n : ℕ} (h : IsItem part n) :
    part ≠ [] ∧ ',' ∉ part :=
  ⟨h.ne_nil, fun hmem => absurd (h.digits ',' hmem) (by decide)⟩

theorem ne_comma_of_items {parts : List (List Char)} {out : List ℕ}
    (h : List.Forall₂ IsItem parts out) : ∀ p ∈ parts, p ≠ [] ∧ ',' ∉ p := by
  induction h with
  | nil => exact nofun
  | cons hitem _ ih => exact List.forall_mem_cons.mpr ⟨hitem.ne_comma, ih⟩

/-! ## Lists -/

theorem list_eq_ok_iff {value : String} {out : List ℕ} :
    list value = .ok out ↔ IsList value.toList out := by
  unfold list
  rw [bind_eq_ok_iff]
  constructor
  · rintro ⟨out', hitems, hout⟩
    obtain ⟨htest, hout⟩ := guard_eq_ok_iff.mp hout
    cases hout
    rw [not_or] at htest
    have htext : value.toList ≠ [] := by
      intro hnil
      rw [hnil] at hitems
      cases hitems
      exact htest.1 rfl
    have hlines : [','].intercalate (getlines ',' [] value.toList) = value.toList :=
      intercalate_getlines htest.2 (.inr htext)
    exact ⟨htest.1, _, hlines.symm, listItems_eq_ok_iff.mp hitems⟩
  · rintro ⟨hout, parts, htext, hitems⟩
    have hcommas := ne_comma_of_items hitems
    have hparts : parts ≠ [] := by
      rintro rfl
      exact hout (List.forall₂_nil_left_iff.mp hitems)
    rw [htext, getlines_intercalate hcommas]
    refine ⟨out, listItems_eq_ok_iff.mpr hitems, guard_eq_ok_iff.mpr ⟨?_, rfl⟩⟩
    exact not_or.mpr ⟨hout, getLast?_intercalate hparts hcommas⟩

/-- The decimal numbers with commas between them. -/
def render (out : List ℕ) : String := ",".intercalate (out.map toString)

theorem isItem_toDigits {n : ℕ} (hn : n ≤ intMax) : IsItem (Nat.toDigits 10 n) n where
  ne_nil := Nat.toDigits_ne_nil
  digits c hc := Nat.isDigit_of_mem_toDigits (by decide) (by decide) hc
  value := Nat.ofDigitChars_ten_toDigits
  le := hn

theorem isList_render {out : List ℕ} (hne : out ≠ []) (hout : ∀ n ∈ out, n ≤ intMax) :
    IsList (render out).toList out := by
  refine ⟨hne, out.map (Nat.toDigits 10), ?_, ?_⟩
  · unfold render
    rw [String.toList_intercalate, List.map_map]
    congr 1
    exact List.map_congr_left fun n _ => Nat.toList_repr
  · rw [List.forall₂_map_left_iff, List.forall₂_same]
    exact fun n hn => isItem_toDigits (hout n hn)

/-- What a reader of lists accepts, what it gives, and that it throws at anything else. -/
structure ReadsLists (read : String → Except String (List ℕ)) : Prop where
  accepts : ∀ value out, read value = .ok out ↔ IsList value.toList out
  throws : ∀ value, (¬∃ out, IsList value.toList out) → ∃ e, read value = .error e
  rendered : ∀ out, out ≠ [] → (∀ n ∈ out, n ≤ intMax) → read (render out) = .ok out

/-- **`list` reads the comma-separated lists of decimal numbers**, and nothing else. -/
theorem list_exact : ReadsLists list where
  accepts _ _ := list_eq_ok_iff
  throws value hnot := by
    cases hvalue : list value with
    | error e => exact ⟨e, rfl⟩
    | ok out => exact absurd ⟨out, list_eq_ok_iff.mp hvalue⟩ hnot
  rendered _ hne hout := list_eq_ok_iff.mpr (isList_render hne hout)

example : list "3,0,12" = .ok [3, 0, 12] := by decide

example : list "3,,12," = .error "expected a nonnegative integer" := by decide

end SharingProbe.MultiShare
