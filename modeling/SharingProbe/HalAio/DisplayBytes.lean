import Mathlib.Data.UInt
import SharingProbe.Library.Framing

/-!
# Bytes in a report

`DisplayBytes` writes the bytes of a mismatch into a line of the log, printable ones as they
are and the others as `\xNN`.  Words of one and of four characters follow each other without
a separator.  They can be told apart because a backslash never stands for itself.
-/

namespace SharingProbe.HalAio

open Framing

/-! ## `DisplayBytes` -/

/-- `%02x`. -/
def hex (n : ℕ) : List Char := (Nat.toDigits 16 n).leftpad 2 '0'

/-- The byte stands for itself. -/
def isPlain (c : UInt8) : Bool := c ≥ 32 && c ≤ 126 && c ≠ '\\'.toUInt8 && c ≠ '"'.toUInt8

/-- What `snprintf` leaves in the five characters of `escaped`, the last of which ends the
string. -/
def escaped (c : UInt8) : List Char := ('\\' :: 'x' :: hex c.toNat).take 4

/-- `DisplayBytes`. -/
def displayBytes (bytes : List UInt8) : List Char :=
  bytes.foldl (fun text c =>
    if isPlain c then text ++ [Char.ofNat c.toNat] else text ++ escaped c) []

/-! ## Reading it -/

/-- The value of a hexadecimal digit. -/
def hexValue (c : Char) : ℕ := if c.isDigit then c.toNat - 48 else c.toNat - 87

/-- A text of `displayBytes` is read: `\xNN` as a byte, and any other character as itself. -/
def readBytes : List Char → List UInt8
  | '\\' :: 'x' :: high :: low :: rest =>
      UInt8.ofNat (16 * hexValue high + hexValue low) :: readBytes rest
  | c :: rest => UInt8.ofNat c.toNat :: readBytes rest
  | [] => []

/-! ## One byte -/

/-- What the loop adds for a byte. -/
def displayByte (c : UInt8) : List Char := if isPlain c then [Char.ofNat c.toNat] else escaped c

theorem displayBytes_eq (bytes : List UInt8) : displayBytes bytes = bytes.flatMap displayByte := by
  have hloop : ∀ text : List Char, bytes.foldl (fun text c =>
      if isPlain c then text ++ [Char.ofNat c.toNat] else text ++ escaped c) text =
        text ++ bytes.flatMap displayByte := by
    induction bytes with
    | nil => exact fun text => (List.append_nil text).symm
    | cons c bytes ih =>
        intro text
        rw [List.foldl_cons, ih, List.flatMap_cons, ← List.append_assoc]
        unfold displayByte
        split <;> rfl
  exact hloop []

theorem isPlain_iff {c : UInt8} :
    isPlain c = true ↔ 32 ≤ c.toNat ∧ c.toNat ≤ 126 ∧ c.toNat ≠ 92 ∧ c.toNat ≠ 34 := by
  unfold isPlain
  simp only [Bool.and_eq_true, decide_eq_true_eq, ge_iff_le, UInt8.le_iff_toNat_le, ne_eq,
    ← UInt8.toNat_inj, and_assoc]
  rfl

/-- A byte has two digits. -/
theorem hex_eq {n : ℕ} (hn : n < 256) : hex n = [(n / 16).digitChar, (n % 16).digitChar] := by
  unfold hex
  by_cases hsmall : n < 16
  · rw [Nat.toDigits_of_lt_base hsmall, Nat.div_eq_of_lt hsmall, Nat.mod_eq_of_lt hsmall]
    rfl
  · rw [Nat.toDigits_of_base_le (by decide) (by omega), Nat.toDigits_of_lt_base (by omega)]
    rfl

theorem escaped_eq (c : UInt8) :
    escaped c = ['\\', 'x', (c.toNat / 16).digitChar, (c.toNat % 16).digitChar] := by
  unfold escaped
  rw [hex_eq c.toNat_lt]
  rfl

theorem hexValue_digitChar : ∀ n < 16, hexValue n.digitChar = n := by decide

theorem toNat_digitChar : ∀ n < 16, 48 ≤ n.digitChar.toNat ∧ n.digitChar.toNat ≤ 102 := by decide

theorem toNat_plain {c : UInt8} (hc : c.toNat ≤ 126) : (Char.ofNat c.toNat).toNat = c.toNat := by
  have hvalid : c.toNat.isValidChar := .inl (by omega)
  unfold Char.ofNat
  rw [dif_pos hvalid]
  rfl

/-- The first word is read, whatever comes after it. -/
theorem readBytes_displayByte (c : UInt8) (rest : List Char) :
    readBytes (displayByte c ++ rest) = c :: readBytes rest := by
  unfold displayByte
  by_cases hplain : isPlain c = true
  · rw [if_pos hplain, List.singleton_append]
    obtain ⟨-, hmax, hslash, -⟩ := isPlain_iff.mp hplain
    have htoNat := toNat_plain hmax
    -- the character is not the backslash with which an escape starts
    have hne : Char.ofNat c.toNat ≠ '\\' := by
      intro heq
      rw [heq] at htoNat
      exact hslash htoNat.symm
    rw [readBytes]
    · rw [htoNat, UInt8.ofNat_toNat]
    · intro high low rest' heq _
      exact hne heq
  · rw [if_neg hplain, escaped_eq]
    have hlt := c.toNat_lt
    have hdigits : 16 * (c.toNat / 16) + c.toNat % 16 = c.toNat := Nat.div_add_mod _ _
    rw [List.cons_append, List.cons_append, List.cons_append, List.cons_append, List.nil_append,
      readBytes, hexValue_digitChar _ (by omega), hexValue_digitChar _ (by omega), hdigits,
      UInt8.ofNat_toNat]

/-- Printable, and not the quote that ends the bytes in the line. -/
def Printable (c : Char) : Prop := 32 ≤ c.toNat ∧ c.toNat ≤ 126 ∧ c ≠ '"'

theorem printable_displayByte {c : UInt8} {x : Char} (hx : x ∈ displayByte c) : Printable x := by
  have hquote : ∀ {y : Char}, y.toNat ≠ 34 → y ≠ '"' := by
    intro y hy heq
    exact hy (heq ▸ rfl)
  unfold displayByte at hx
  by_cases hplain : isPlain c = true
  · rw [if_pos hplain, List.mem_singleton] at hx
    obtain ⟨hmin, hmax, -, hne⟩ := isPlain_iff.mp hplain
    have htoNat := toNat_plain hmax
    rw [← hx] at htoNat
    exact ⟨by omega, by omega, hquote (by omega)⟩
  · rw [if_neg hplain, escaped_eq] at hx
    have hdigit : ∀ n < 16, Printable n.digitChar := by
      intro n hn
      have hbounds := toNat_digitChar n hn
      exact ⟨by omega, by omega, hquote (by omega)⟩
    have hlt := c.toNat_lt
    simp only [List.mem_cons, List.not_mem_nil, or_false] at hx
    rcases hx with rfl | rfl | rfl | rfl
    · exact ⟨by decide, by decide, by decide⟩
    · exact ⟨by decide, by decide, by decide⟩
    · exact hdigit _ (by omega)
    · exact hdigit _ (by omega)

/-! ## The text -/

theorem readBytes_displayBytes (bytes : List UInt8) : readBytes (displayBytes bytes) = bytes := by
  rw [displayBytes_eq]
  exact read_flatMap (by rfl) readBytes_displayByte bytes

/-- What a text of `DisplayBytes` says of the bytes. -/
structure Lossless (display : List UInt8 → List Char) (read : List Char → List UInt8) : Prop where
  read_display : ∀ bytes, read (display bytes) = bytes
  display_eq_iff : ∀ bytes bytes', display bytes = display bytes' ↔ bytes = bytes'
  printable : ∀ bytes, ∀ c ∈ display bytes, Printable c

/-- **`DisplayBytes` is lossless**, and its text stays within the quotes of the line. -/
theorem displayBytes_lossless : Lossless displayBytes readBytes where
  read_display := readBytes_displayBytes
  display_eq_iff bytes bytes' :=
    (Function.LeftInverse.injective readBytes_displayBytes).eq_iff
  printable bytes c hc := by
    rw [displayBytes_eq] at hc
    obtain ⟨b, -, hb⟩ := List.mem_flatMap.mp hc
    exact printable_displayByte hb

/-- A backslash, a letter, a newline and the last byte. -/
example : String.ofList (displayBytes [92, 120, 10, 255]) = "\\x5cx\\x0a\\xff" := by decide

end SharingProbe.HalAio
