import Mathlib.Data.List.Forall2

/-!
# Greedy matching in order

A reader waits for the items of a list one after the other and takes the first line
that it can accept for the item it waits for; the lines that it passes over are gone.
It gets all its items exactly when lines for them occur in this order.
-/

namespace Greedy

variable {ι α β : Type}

/-- The first line that is accepted, and the lines after it. -/
def first (accept : α → Option β) : List α → Option (β × List α)
  | [] => none
  | x :: xs =>
      match accept x with
      | some b => some (b, xs)
      | none => first accept xs

/-- What is read for the items, up to one that no line is left for. -/
def run (accept : ι → α → Option β) : List ι → List α → List (ι × β)
  | [], _ => []
  | i :: is, xs =>
      match first (accept i) xs with
      | some (b, rest) => (i, b) :: run accept is rest
      | none => []

section First

variable {accept : α → Option β} {xs rest : List α} {b : β}

theorem first_eq_some (h : first accept xs = some (b, rest)) :
    ∃ before x, xs = before ++ x :: rest ∧ (∀ y ∈ before, accept y = none) ∧ accept x = some b := by
  induction xs with
  | nil => cases h
  | cons x xs ih =>
      unfold first at h
      split at h
      · rename_i heq
        cases h
        exact ⟨[], x, rfl, by simp, heq⟩
      · rename_i heq
        obtain ⟨before, y, rfl, hnone, hsome⟩ := ih h
        refine ⟨x :: before, y, rfl, ?_, hsome⟩
        intro z hz
        rcases List.mem_cons.mp hz with rfl | hz
        · exact heq
        · exact hnone z hz

theorem first_eq_none (h : first accept xs = none) : ∀ x ∈ xs, accept x = none := by
  induction xs with
  | nil => simp
  | cons x xs ih =>
      unfold first at h
      split at h
      · cases h
      · rename_i heq
        intro y hy
        rcases List.mem_cons.mp hy with rfl | hy
        · exact heq
        · exact ih h y hy

/-- What follows an accepted line somewhere follows the first accepted line too. -/
theorem sublist_rest {y : α} {ys before : List α} {x : α}
    (hnone : ∀ z ∈ before, accept z = none) (hy : (accept y).isSome)
    (hsub : (y :: ys).Sublist (before ++ x :: rest)) : ys.Sublist rest := by
  induction before with
  | nil =>
      cases hsub with
      | cons _ h => exact (List.sublist_cons_self y ys).trans h
      | cons_cons _ h => exact h
  | cons z before ih =>
      cases hsub with
      | cons _ h => exact ih (fun w hw => hnone w (List.mem_cons_of_mem _ hw)) h
      | cons_cons _ h =>
          rw [hnone y List.mem_cons_self] at hy
          cases hy

end First

/-- Lines for these items occur in this order. -/
def InOrder (accept : ι → α → Option β) (is : List ι) (xs : List α) : Prop :=
  ∃ ys : List α, ys.Sublist xs ∧ List.Forall₂ (fun i y => (accept i y).isSome) is ys

/-- The reader gets all its items if and only if lines for them occur in order. -/
theorem run_complete_iff {accept : ι → α → Option β} {is : List ι} {xs : List α} :
    (run accept is xs).map Prod.fst = is ↔ InOrder accept is xs := by
  induction is generalizing xs with
  | nil => exact iff_of_true rfl ⟨[], List.nil_sublist xs, .nil⟩
  | cons i is ih =>
      unfold run
      split
      · rename_i b rest hfirst
        obtain ⟨before, x, rfl, hnone, hsome⟩ := first_eq_some hfirst
        rw [List.map_cons, List.cons_inj_right, ih]
        constructor
        · rintro ⟨ys, hsub, hall⟩
          refine ⟨x :: ys, ?_, .cons (by rw [hsome]; rfl) hall⟩
          exact (hsub.cons_cons x).trans (List.sublist_append_right before _)
        · rintro ⟨ys, hsub, hall⟩
          cases hall with
          | @cons _ y _ ys hy hall => exact ⟨ys, sublist_rest hnone hy hsub, hall⟩
      · rename_i hfirst
        refine iff_of_false (by simp) ?_
        rintro ⟨ys, hsub, hall⟩
        cases hall with
        | @cons _ y _ ys hy hall =>
            rw [first_eq_none hfirst y (hsub.subset List.mem_cons_self)] at hy
            cases hy

end Greedy
