import SharingProbe.Common.Text
import SharingProbe.DataStrategy.Options

/-!
# The control channel of the demo

`CtrlLayout` prints a descriptor as a line `DESC <rank> <handle>` and reads
lines until one names the rank it waits for.  A line is a list of characters
without the newline.  Extraction from the line follows the standard streams: a
word skips leading white space, and a `size_t` takes an optional sign and as many
digits as there are, and may be followed by anything.

What the rest of the development needs is that a printed line is read back as
what was printed (`acceptLine_descLine`).
-/

namespace SharingProbe

open Interaction

abbrev Line := List Char

/-- `input >> word` for a `std::string`. -/
def nextWord (input : Line) : Option (Line × Line) :=
  match input.dropWhile isSpace with
  | [] => none
  | c :: cs => some ((c :: cs).takeWhile (!isSpace ·), (c :: cs).dropWhile (!isSpace ·))

/-- The digits of `input >> number` after the sign. -/
def nextDigits (negative : Bool) (input : Line) : Option (ℕ × Line) :=
  let digits := input.takeWhile Char.isDigit
  let value := Nat.ofDigitChars 10 digits 0
  if digits = [] ∨ value > sizeMax then none
  else some (if negative then sizeT (2 ^ 64 - value) else value, input.dropWhile Char.isDigit)

/-- `input >> number` for a `size_t`. -/
def nextSize (input : Line) : Option (ℕ × Line) :=
  match input.dropWhile isSpace with
  | '-' :: cs => nextDigits true cs
  | '+' :: cs => nextDigits false cs
  | cs => nextDigits false cs

/-- `kInvalid`. -/
def kInvalid : ℕ := sizeMax

/-- The handle of a line that `GetRankDesc(rank)` does not skip. -/
def acceptLine (rank : ℕ) (line : Line) : Option UInt64 := do
  let (tag, input) ← nextWord line
  let (peerRank, input) ← nextSize input
  let (handleText, input) ← nextWord input
  if tag ≠ ['D', 'E', 'S', 'C'] ∨ peerRank ≠ rank ∨ (nextWord input).isSome ∨
      ¬ handleText.all Char.isDigit then none
  else
    let handle := Nat.ofDigitChars 10 handleText 0
    -- `std::stoull` throws on what does not fit
    if handle > sizeMax ∨ handle = kInvalid then none else some (UInt64.ofNat handle)

/-- The line that `SetRankDesc` prints. -/
def descLine (rank : ℕ) (handle : UInt64) : Line :=
  ['D', 'E', 'S', 'C'] ++ ' ' :: (Nat.toDigits 10 rank ++ ' ' :: Nat.toDigits 10 handle.toNat)

/-- The fields of `CtrlLayout`. -/
structure CtrlLayout where
  rankCount : ℕ
  slotCount : ℕ
  deriving DecidableEq, Repr

namespace CtrlLayout

/-- The constructor. -/
def new (rankCount slotsPerRank : ℕ) : CtrlLayout := ⟨rankCount, sizeT (rankCount * slotsPerRank)⟩

/-- `CtrlLayout::SetRankDesc`: the status and the lines printed. -/
def setRankDesc (ctrl : CtrlLayout) (rank : ℕ) (handle : UInt64) : Status × List Line :=
  if rank ≥ ctrl.rankCount then (.invalidParam "rank out of range", [])
  else (.ok, [descLine rank handle])

/-- The loop of `GetRankDesc`: the accepted line, its handle and the lines left. -/
def firstAccepted (rank : ℕ) : List Line → Option (Line × UInt64 × List Line)
  | [] => none
  | line :: stdin =>
      match acceptLine rank line with
      | some handle => some (line, handle, stdin)
      | none => firstAccepted rank stdin

/-- `CtrlLayout::GetRankDesc`: the result and the lines left on `stdin`. -/
def getRankDesc (ctrl : CtrlLayout) (rank : ℕ) (stdin : List Line) :
    Except Exn (Except Status UInt64) × List Line :=
  if rank ≥ ctrl.rankCount then (.ok (.error (.invalidParam "rank out of range")), stdin)
  else
    match firstAccepted rank stdin with
    | some (_, handle, rest) => (.ok (.ok handle), rest)
    | none => (.error (.error "stdin closed while waiting for rank descriptor"), [])

end CtrlLayout

/-! ## Reading back what was printed -/

theorem toDigits_isDigit (n : ℕ) : ∀ c ∈ Nat.toDigits 10 n, c.isDigit = true :=
  fun _ hc => Nat.isDigit_of_mem_toDigits (by decide) (by decide) hc

theorem toDigits_ne_nil (n : ℕ) : Nat.toDigits 10 n ≠ [] := by
  intro h
  have hlength := Nat.length_toDigits_pos (b := 10) (n := n)
  simp [h] at hlength

/-- What stands in front of a white space is one word. -/
theorem nextWord_append {word rest : Line} (hne : word ≠ [])
    (hword : ∀ c ∈ word, isSpace c = false) (hrest : ∀ c ∈ rest.head?, isSpace c = true) :
    nextWord (' ' :: (word ++ rest)) = some (word, rest) ∧
      nextWord (word ++ rest) = some (word, rest) := by
  obtain ⟨c, cs, rfl⟩ := List.exists_cons_of_ne_nil hne
  have hc : isSpace c = false := hword c List.mem_cons_self
  have htake : (c :: cs ++ rest).takeWhile (!isSpace ·) = c :: cs ∧
      (c :: cs ++ rest).dropWhile (!isSpace ·) = rest := by
    have hall : ∀ d ∈ c :: cs, (!isSpace d) = true := fun d hd => by simp [hword d hd]
    rw [List.takeWhile_append_of_pos hall, List.dropWhile_append_of_pos hall]
    cases rest with
    | nil => simp
    | cons d ds =>
        have hd : isSpace d = true := hrest d rfl
        simp [hd]
  have hword : nextWord (c :: cs ++ rest) = some (c :: cs, rest) := by
    unfold nextWord
    rw [List.cons_append, List.dropWhile_cons_of_neg (by simp [hc])]
    simp only [← List.cons_append, htake.1, htake.2]
  refine ⟨?_, hword⟩
  unfold nextWord at hword ⊢
  rw [List.dropWhile_cons_of_pos (by decide)]
  exact hword

/-- A printed number in front of a white space is read back. -/
theorem nextSize_toDigits {n : ℕ} {rest : Line} (hn : n ≤ sizeMax)
    (hrest : ∀ c ∈ rest.head?, c.isDigit = false) :
    nextSize (' ' :: (Nat.toDigits 10 n ++ rest)) = some (n, rest) := by
  have hdigits : nextDigits false (Nat.toDigits 10 n ++ rest) = some (n, rest) := by
    unfold nextDigits
    rw [List.takeWhile_append_of_pos (toDigits_isDigit n),
      List.dropWhile_append_of_pos (toDigits_isDigit n)]
    have hstop : rest.takeWhile Char.isDigit = [] ∧ rest.dropWhile Char.isDigit = rest := by
      cases rest with
      | nil => simp
      | cons d ds =>
          have hd : d.isDigit = false := hrest d rfl
          simp [hd]
    rw [hstop.1, hstop.2, List.append_nil]
    simp [Nat.ofDigitChars_ten_toDigits, hn]
  obtain ⟨c, cs, hcs⟩ := List.exists_cons_of_ne_nil (toDigits_ne_nil n)
  have hc : c.isDigit = true := toDigits_isDigit n c (by simp [hcs])
  have hsign : c ≠ '-' ∧ c ≠ '+' := by
    constructor <;> rintro rfl <;> exact absurd hc (by decide)
  unfold nextSize
  rw [List.dropWhile_cons_of_pos (by decide), hcs, List.cons_append,
    List.dropWhile_cons_of_neg (by simp [isSpace_of_isDigit hc])]
  rw [hcs, List.cons_append] at hdigits
  split
  · rename_i heq; cases heq; exact absurd rfl hsign.1
  · rename_i heq; cases heq; exact absurd rfl hsign.2
  · exact hdigits

/-- What becomes of a printed descriptor: its own rank gets the handle, unless that is
the one that stands for none, and no other rank accepts the line. -/
theorem acceptLine_descLine_eq {rank : ℕ} (other : ℕ) (handle : UInt64) (hrank : rank ≤ sizeMax) :
    acceptLine other (descLine rank handle) =
      if other = rank ∧ handle.toNat ≠ kInvalid then some handle else none := by
  have hletters : ∀ c ∈ ['D', 'E', 'S', 'C'], isSpace c = false := by
    intro c hc
    simp only [List.mem_cons, List.not_mem_nil, or_false] at hc
    rcases hc with rfl | rfl | rfl | rfl <;> rfl
  have htag : nextWord (descLine rank handle) = some (['D', 'E', 'S', 'C'],
      ' ' :: (Nat.toDigits 10 rank ++ ' ' :: Nat.toDigits 10 handle.toNat)) :=
    (nextWord_append (by simp) hletters (by simp [isSpace])).2
  have hsize := nextSize_toDigits hrank
    (show ∀ c ∈ (' ' :: Nat.toDigits 10 handle.toNat).head?, c.isDigit = false by simp)
  have hword : nextWord (' ' :: Nat.toDigits 10 handle.toNat) =
      some (Nat.toDigits 10 handle.toNat, []) := by
    have hlast := (nextWord_append (toDigits_ne_nil handle.toNat)
      (fun c hc => isSpace_of_isDigit (toDigits_isDigit _ c hc))
      (show ∀ c ∈ ([] : Line).head?, isSpace c = true by simp)).1
    rwa [List.append_nil] at hlast
  have hdigits : (Nat.toDigits 10 handle.toNat).all Char.isDigit = true :=
    List.all_eq_true.mpr (toDigits_isDigit _)
  have hend : nextWord [] = none := rfl
  have hmax : handle.toNat ≤ sizeMax := Nat.le_sub_one_of_lt handle.toNat_lt
  unfold acceptLine
  rw [htag]
  simp only [Option.bind_eq_bind, Option.bind_some, hsize, hword, hend, hdigits,
    Nat.ofDigitChars_ten_toDigits, UInt64.ofNat_toNat]
  by_cases hown : other = rank
  · subst hown
    by_cases hinvalid : handle.toNat = kInvalid
    · simp [hinvalid]
    · simp [hinvalid, hmax]
  · simp [hown, Ne.symm hown]

/-- **A printed descriptor is read back** by the process that waits for its rank,
and by no other. -/
theorem acceptLine_descLine {rank other : ℕ} {handle result : UInt64} (hrank : rank ≤ sizeMax)
    (h : acceptLine other (descLine rank handle) = some result) :
    other = rank ∧ result = handle := by
  rw [acceptLine_descLine_eq other handle hrank] at h
  split at h
  · rename_i haccepted
    cases h
    exact ⟨haccepted.1, rfl⟩
  · cases h

end SharingProbe
