import Mathlib.Algebra.Ring.Int.Defs
import Mathlib.Algebra.Ring.Nat
import Mathlib.Data.Int.Notation
import Mathlib.Data.List.Basic
import SharingProbe.Common.Text

/-!
# Texts of the command line and of the kernel

`number` of `cli.hpp`, and what it and the other parsers use of the standard library:
`std::stoull`, `std::stoi` and `std::getline` with a delimiter.
-/

namespace SharingProbe.Share

/-- `std::getline` until it fails.  `part` is what has been read of the current line, in
reverse.  After the last delimiter there is a line only if there is a character. -/
def getlines (delimiter : Char) (part : List Char) : List Char → List (List Char)
  | [] => if part = [] then [] else [part.reverse]
  | c :: rest =>
      if c = delimiter then part.reverse :: getlines delimiter [] rest
      else getlines delimiter (c :: part) rest

/-- `std::stoull` on a text of digits. -/
def stoull (text : List Char) : Except String ℕ :=
  let value := Nat.ofDigitChars 10 text 0
  if value ≥ 2 ^ 64 then .error "stoull" else .ok value

/-- `number`. -/
def number (text : List Char) : Except String ℕ :=
  if text = [] ∨ text.any (fun c => !c.isDigit) then .error "expected a nonnegative integer"
  else stoull text

/-- The digits that `std::stoi` reads after the sign. -/
def stoiDigits (negative : Bool) (text : List Char) : Except String ℤ :=
  let digits := text.takeWhile Char.isDigit
  let value : ℤ := Nat.ofDigitChars 10 digits 0
  let signed := if negative then -value else value
  if digits = [] then .error "stoi: invalid_argument"
  else if signed < -2 ^ 31 ∨ signed > 2 ^ 31 - 1 then .error "stoi: out_of_range"
  else .ok signed

/-- `std::stoi`: white space, a sign, digits, and anything. -/
def stoi (text : List Char) : Except String ℤ :=
  match text.dropWhile isSpace with
  | '-' :: rest => stoiDigits true rest
  | '+' :: rest => stoiDigits false rest
  | rest => stoiDigits false rest

/-! ## Lines -/

theorem getlines_append {d : Char} {p : List Char} (hp : d ∉ p) (part rest : List Char) :
    getlines d part (p ++ rest) = getlines d (p.reverse ++ part) rest := by
  induction p generalizing part with
  | nil => rfl
  | cons c p ih =>
      rw [List.mem_cons, not_or] at hp
      rw [List.cons_append, getlines, if_neg (Ne.symm hp.1), ih hp.2, List.reverse_cons,
        List.append_assoc]
      rfl

/-- Lines that are not empty are read back. -/
theorem getlines_intercalate {d : Char} {parts : List (List Char)}
    (hparts : ∀ p ∈ parts, p ≠ [] ∧ d ∉ p) : getlines d [] ([d].intercalate parts) = parts := by
  induction parts with
  | nil => rfl
  | cons p parts ih =>
      obtain ⟨hne, hd⟩ := hparts p List.mem_cons_self
      have hrest := ih fun q hq => hparts q (List.mem_cons_of_mem _ hq)
      have hlast : p.reverse ++ [] ≠ [] := by simpa using hne
      cases parts with
      | nil =>
          rw [List.intercalate_singleton, ← List.append_nil p, getlines_append hd, getlines,
            if_neg hlast]
          simp
      | cons q parts =>
          rw [List.intercalate_cons_cons, List.append_assoc, getlines_append hd,
            List.singleton_append, getlines, if_pos rfl, hrest]
          simp

/-- A text whose last character is no delimiter is put together again from its lines. -/
theorem intercalate_getlines {d : Char} {part text : List Char} (hlast : text.getLast? ≠ some d)
    (hne : part ≠ [] ∨ text ≠ []) :
    [d].intercalate (getlines d part text) = part.reverse ++ text := by
  induction text generalizing part with
  | nil =>
      have hpart : part ≠ [] := hne.resolve_right fun h => h rfl
      rw [getlines, if_neg hpart, List.intercalate_singleton, List.append_nil]
  | cons c text ih =>
      unfold getlines
      by_cases hc : c = d
      · rw [if_pos hc]
        -- the delimiter is not the last character
        have htext : text ≠ [] := by
          rintro rfl
          exact hlast (by rw [hc]; rfl)
        have hrest : [d].intercalate (getlines d [] text) = text := by
          apply ih _ (.inr htext)
          rwa [List.getLast?_cons_of_ne_nil htext] at hlast
        have hlines : getlines d [] text ≠ [] := by
          intro hnil
          rw [hnil] at hrest
          exact htext hrest.symm
        rw [List.intercalate_cons_of_ne_nil hlines, hrest, hc, List.append_assoc]
        rfl
      · rw [if_neg hc, ih _ (.inl (List.cons_ne_nil c part)), List.reverse_cons, List.append_assoc]
        · rfl
        · cases text with
          | nil => exact nofun
          | cons c' text => rwa [List.getLast?_cons_of_ne_nil (List.cons_ne_nil c' text)] at hlast

/-- The last character of lines that are not empty is no delimiter. -/
theorem getLast?_intercalate {d : Char} {parts : List (List Char)} (hne : parts ≠ [])
    (hparts : ∀ p ∈ parts, p ≠ [] ∧ d ∉ p) : ([d].intercalate parts).getLast? ≠ some d := by
  induction parts with
  | nil => exact absurd rfl hne
  | cons p parts ih =>
      obtain ⟨hp, hd⟩ := hparts p List.mem_cons_self
      by_cases hrest : parts = []
      · rw [hrest, List.intercalate_singleton]
        intro hlast
        exact hd (List.mem_of_getLast? hlast)
      · have hlast := ih hrest fun q hq => hparts q (List.mem_cons_of_mem _ hq)
        have htail : [d].intercalate parts ≠ [] := by
          intro hnil
          have hlines := getlines_intercalate fun q hq => hparts q (List.mem_cons_of_mem _ hq)
          rw [hnil] at hlines
          exact hrest hlines.symm
        rwa [List.intercalate_cons_of_ne_nil hrest, List.getLast?_append_of_ne_nil _ htail]

theorem mem_intercalate {c d : Char} {parts : List (List Char)}
    (hc : c ∈ [d].intercalate parts) : c = d ∨ ∃ p ∈ parts, c ∈ p := by
  induction parts with
  | nil => cases hc
  | cons p parts ih =>
      cases parts with
      | nil => exact Or.inr ⟨p, List.mem_cons_self, by simpa using hc⟩
      | cons q parts =>
          rw [List.intercalate_cons_cons, List.mem_append, List.mem_append] at hc
          rcases hc with (h | h) | h
          · exact Or.inr ⟨p, List.mem_cons_self, h⟩
          · exact Or.inl (List.mem_singleton.mp h)
          · rcases ih h with h | ⟨part, hpart, h⟩
            · exact Or.inl h
            · exact Or.inr ⟨part, List.mem_cons_of_mem _ hpart, h⟩

end SharingProbe.Share
