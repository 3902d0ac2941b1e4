import Mathlib.Data.List.Basic

/-!
# Pieces of a range

A transfer of many bytes is made in pieces.  Pieces that follow each other from one end of
the range to the other lie in it, do not overlap, and leave nothing out.
-/

namespace Pieces

/-- Where a piece starts, and how long it is. -/
structure Piece where
  start : ℕ
  size : ℕ
  deriving DecidableEq, Repr

/-- The place after a piece. -/
def Piece.stop (p : Piece) : ℕ := p.start + p.size

/-- The pieces follow each other from `a` to `b`. -/
inductive Chain : ℕ → List Piece → ℕ → Prop
  | nil (a : ℕ) : Chain a [] a
  | cons {a n b : ℕ} {l : List Piece} (hrest : Chain (a + n) l b) : Chain a (⟨a, n⟩ :: l) b

/-- The pieces are the range below `size`: they lie in it, in order and without an overlap, and
every place is in one of them. -/
structure Tiles (l : List Piece) (size : ℕ) : Prop where
  inside : ∀ p ∈ l, p.stop ≤ size
  ordered : l.Pairwise fun p q => p.stop ≤ q.start
  covered : ∀ x < size, ∃ p ∈ l, p.start ≤ x ∧ x < p.stop

variable {a b c n : ℕ} {l l' : List Piece} {p : Piece}

theorem Chain.le (h : Chain a l b) : a ≤ b := by
  induction h with
  | nil a => exact Nat.le_refl _
  | cons _ ih => omega

theorem Chain.snoc (h : Chain a l b) (n : ℕ) : Chain a (l ++ [⟨b, n⟩]) (b + n) := by
  induction h with
  | nil a => exact .cons (.nil _)
  | cons _ ih => exact .cons ih

theorem Chain.inside (h : Chain a l b) : ∀ p ∈ l, a ≤ p.start ∧ p.stop ≤ b := by
  induction h with
  | nil a => exact nofun
  | @cons a n b l hrest ih =>
      intro p hp
      rcases List.mem_cons.mp hp with rfl | hp
      · exact ⟨Nat.le_refl _, hrest.le⟩
      · obtain ⟨hstart, hstop⟩ := ih p hp
        exact ⟨by omega, hstop⟩

theorem Chain.ordered (h : Chain a l b) : l.Pairwise fun p q => p.stop ≤ q.start := by
  induction h with
  | nil a => exact .nil
  | cons hrest ih => exact .cons (fun q hq => (hrest.inside q hq).1) ih

theorem Chain.covered (h : Chain a l b) {x : ℕ} (ha : a ≤ x) (hb : x < b) :
    ∃ p ∈ l, p.start ≤ x ∧ x < p.stop := by
  induction h with
  | nil a => omega
  | @cons a n b l hrest ih =>
      by_cases hx : x < a + n
      · exact ⟨_, List.mem_cons_self, ha, hx⟩
      · obtain ⟨p, hp, hcovers⟩ := ih (by omega) hb
        exact ⟨p, List.mem_cons_of_mem _ hp, hcovers⟩

/-- Pieces of one size. -/
theorem chain_range (size n : ℕ) :
    Chain 0 ((List.range n).map fun i => ⟨i * size, size⟩) (n * size) := by
  induction n with
  | zero =>
      rw [Nat.zero_mul]
      exact .nil 0
  | succ n ih =>
      rw [List.range_succ, List.map_append, List.map_singleton, Nat.succ_mul]
      exact ih.snoc size

/-- Pieces from one end to the other are the range. -/
theorem Chain.tiles (h : Chain 0 l b) : Tiles l b where
  inside p hp := (h.inside p hp).2
  ordered := h.ordered
  covered _ hx := h.covered (Nat.zero_le _) hx

end Pieces
