import Mathlib.Data.List.Induction
import Mathlib.Data.Multiset.AddSub
import Mathlib.Algebra.BigOperators.Group.List.Basic
import Mathlib.Algebra.Order.Group.Multiset

/-!
# Acquisitions and releases along a trace

A trace of events acquires and releases resources.  Resources are counted, not
collected: the same value may be acquired twice and must then be released
twice, so nothing is assumed about the freshness of what is handed out.

`Disciplined` says that nothing is released that is not held.  Two consequences
are what a client wants.

* `Disciplined.acquired_eq_released`: a disciplined trace that ends with
  nothing held has released every acquisition exactly once.
* `Staged.stage_le`: if resources carry stages and nothing is released while
  something of an earlier stage is held, then a stretch of the trace without
  acquisitions releases stage by stage.
-/

namespace Ledger

/-- What an event acquires and what it releases. -/
structure Accounts (E ρ : Type*) where
  acquires : E → Multiset ρ
  releases : E → Multiset ρ

variable {E ρ : Type*} [DecidableEq ρ] (A : Accounts E ρ)

namespace Accounts

/-- What is still held after a trace. -/
def held (t : List E) : Multiset ρ :=
  t.foldl (fun h e => h - A.releases e + A.acquires e) 0

/-- Everything a trace has acquired. -/
def acquired (t : List E) : Multiset ρ := (t.map A.acquires).sum

/-- Everything a trace has released. -/
def released (t : List E) : Multiset ρ := (t.map A.releases).sum

/-- No event releases what is not held. -/
def Disciplined (t : List E) : Prop :=
  ∀ t₁ e t₂, t = t₁ ++ e :: t₂ → A.releases e ≤ A.held t₁

/-- No event releases anything while something of an earlier stage is held. -/
def Staged (stage : ρ → ℕ) (t : List E) : Prop :=
  ∀ t₁ e t₂, t = t₁ ++ e :: t₂ → ∀ r ∈ A.releases e, ∀ r' ∈ A.held t₁, stage r ≤ stage r'

@[simp] theorem held_nil : A.held [] = 0 := rfl

@[simp] theorem held_concat (t : List E) (e : E) :
    A.held (t ++ [e]) = A.held t - A.releases e + A.acquires e := by
  simp [held]

variable {A}

theorem Disciplined.of_append {t u : List E} (h : A.Disciplined (t ++ u)) : A.Disciplined t := by
  intro t₁ e t₂ ht
  exact h t₁ e (t₂ ++ u) (by simp [ht])

/-- A trace goes on with an event that releases only what is held. -/
theorem Disciplined.concat {t : List E} {e : E} (h : A.Disciplined t)
    (hle : A.releases e ≤ A.held t) : A.Disciplined (t ++ [e]) := by
  intro t₁ e' t₂ hsplit
  rcases List.append_eq_append_iff.mp hsplit with ⟨u₁, rfl, hu₁⟩ | ⟨u₂, rfl, hu₂⟩
  · cases u₁ with
    | nil =>
        obtain ⟨rfl, -⟩ := List.cons.inj hu₁
        rwa [List.append_nil]
    | cons e'' u₁ =>
        obtain ⟨-, hnil⟩ := List.cons.inj hu₁
        exact absurd hnil (by simp)
  · cases u₂ with
    | nil =>
        obtain ⟨rfl, -⟩ := List.cons.inj hu₂
        rwa [List.append_nil] at hle
    | cons e'' u₂ =>
        obtain ⟨rfl, -⟩ := List.cons.inj hu₂
        exact h t₁ e' u₂ rfl

/-- Held and released together make up what was acquired. -/
theorem Disciplined.held_add_released {t : List E} (h : A.Disciplined t) :
    A.held t + A.released t = A.acquired t := by
  induction t using List.reverseRecOn with
  | nil => simp [released, acquired]
  | append_singleton t e ih =>
      have hle : A.releases e ≤ A.held t := h t e [] rfl
      have hinit := ih h.of_append
      simp only [released, acquired] at hinit ⊢
      simp only [held_concat, List.map_append, List.map_cons, List.map_nil, List.sum_append,
        List.sum_cons, List.sum_nil, add_zero]
      rw [← hinit]
      calc A.held t - A.releases e + A.acquires e + ((t.map A.releases).sum + A.releases e)
          = (A.held t - A.releases e + A.releases e) + (t.map A.releases).sum + A.acquires e := by
            ac_rfl
        _ = A.held t + (t.map A.releases).sum + A.acquires e := by
            rw [Multiset.sub_add_cancel hle]

/-- Nothing left: every acquisition was released exactly once. -/
theorem Disciplined.acquired_eq_released {t : List E} (h : A.Disciplined t)
    (hempty : A.held t = 0) : A.acquired t = A.released t := by
  rw [← h.held_add_released, hempty, zero_add]

/-- A disciplined stretch adds what it holds by itself to what was held before. -/
theorem Disciplined.held_append {t u : List E} (h : A.Disciplined u) :
    A.held (t ++ u) = A.held t + A.held u := by
  induction u using List.reverseRecOn with
  | nil => simp
  | append_singleton u e ih =>
      have hle : A.releases e ≤ A.held u := h u e [] rfl
      rw [← List.append_assoc, held_concat, held_concat, ih h.of_append]
      calc A.held t + A.held u - A.releases e + A.acquires e
          = A.held t + (A.held u - A.releases e) + A.acquires e := by
            rw [Multiset.add_sub_assoc hle]
        _ = A.held t + (A.held u - A.releases e + A.acquires e) := add_assoc _ _ _

/-- Disciplined stretches in a row are disciplined. -/
theorem Disciplined.append {t u : List E} (ht : A.Disciplined t) (hu : A.Disciplined u) :
    A.Disciplined (t ++ u) := by
  intro t₁ e t₂ hsplit
  rcases List.append_eq_append_iff.mp hsplit with ⟨u₁, rfl, hu₁⟩ | ⟨u₂, rfl, hu₂⟩
  · have hle := hu u₁ e t₂ hu₁
    rw [(Disciplined.of_append (hu₁ ▸ hu)).held_append]
    exact hle.trans (Multiset.le_add_left _ _)
  · cases u₂ with
    | nil =>
        have hle := hu [] e t₂ hu₂.symm
        exact hle.trans (Multiset.zero_le _)
    | cons e' u₂ =>
        obtain ⟨rfl, -⟩ := List.cons.inj hu₂
        exact ht t₁ e u₂ rfl

section Map

variable {E' : Type*} {A' : Accounts E' ρ} {f : E' → E}
  (hacquires : ∀ e, A.acquires (f e) = A'.acquires e)
  (hreleases : ∀ e, A.releases (f e) = A'.releases e)

include hacquires hreleases

theorem held_map (t : List E') : A.held (t.map f) = A'.held t := by
  induction t using List.reverseRecOn with
  | nil => rfl
  | append_singleton t e ih =>
      rw [List.map_append, List.map_singleton, held_concat, held_concat, ih, hacquires, hreleases]

/-- A trace may be seen as part of a larger alphabet. -/
theorem Disciplined.map {t : List E'} (h : A'.Disciplined t) : A.Disciplined (t.map f) := by
  induction t using List.reverseRecOn with
  | nil => exact fun t₁ e t₂ hsplit => absurd hsplit (by simp)
  | append_singleton t e ih =>
      rw [List.map_append, List.map_singleton]
      apply (ih h.of_append).concat
      rw [hreleases, held_map hacquires hreleases]
      exact h t e [] rfl

end Map

/-- Without acquisitions, what is held only shrinks. -/
theorem held_append_le {t u : List E} (hu : ∀ e ∈ u, A.acquires e = 0) :
    A.held (t ++ u) ≤ A.held t := by
  induction u using List.reverseRecOn with
  | nil => simp
  | append_singleton u e ih =>
      rw [← List.append_assoc, held_concat, hu e (by simp), add_zero]
      exact (Multiset.sub_le_self _ _).trans (ih fun e' he' => hu e' (by simp [he']))

/-- A stretch without acquisitions releases stage by stage. -/
theorem Staged.stage_le {stage : ρ → ℕ} {t t₁ t₂ t₃ : List E} {e₁ e₂ : E}
    (hstaged : A.Staged stage t) (hdisciplined : A.Disciplined t)
    (ht : t = t₁ ++ (e₁ :: t₂) ++ e₂ :: t₃) (hnone : ∀ e ∈ e₁ :: t₂, A.acquires e = 0)
    {r₁ r₂ : ρ} (hr₁ : r₁ ∈ A.releases e₁) (hr₂ : r₂ ∈ A.releases e₂) : stage r₁ ≤ stage r₂ := by
  have hheld : r₂ ∈ A.held (t₁ ++ (e₁ :: t₂)) :=
    Multiset.mem_of_le (hdisciplined (t₁ ++ (e₁ :: t₂)) e₂ t₃ ht) hr₂
  refine hstaged t₁ e₁ (t₂ ++ e₂ :: t₃) (by simp [ht]) r₁ hr₁ r₂ ?_
  exact Multiset.mem_of_le (held_append_le hnone) hheld

/-! ## Resources that are held once -/

/-- Exactly the resources of a set are held, each of them once. -/
structure Tracks (A : Accounts E ρ) (S : Set ρ) (t : List E) : Prop where
  nodup : (A.held t).Nodup
  mem : ∀ r, r ∈ A.held t ↔ r ∈ S

variable {S S' : Set ρ} {t : List E} {e : E} {r : ρ}

theorem Tracks.congr (h : A.Tracks S t) (hS : ∀ r, r ∈ S ↔ r ∈ S') : A.Tracks S' t :=
  ⟨h.nodup, fun r => (h.mem r).trans (hS r)⟩

theorem Tracks.nil : A.Tracks ∅ [] := ⟨Multiset.nodup_zero, fun r => by simp⟩

theorem Tracks.quiet (h : A.Tracks S t) (hacquires : A.acquires e = 0)
    (hreleases : A.releases e = 0) : A.Tracks S (t ++ [e]) := by
  have hheld : A.held (t ++ [e]) = A.held t := by simp [hacquires, hreleases]
  exact ⟨hheld ▸ h.nodup, fun r => hheld ▸ h.mem r⟩

theorem Tracks.acquire (h : A.Tracks S t) (hacquires : A.acquires e = {r})
    (hreleases : A.releases e = 0) (hr : r ∉ S) : A.Tracks (insert r S) (t ++ [e]) := by
  have hheld : A.held (t ++ [e]) = r ::ₘ A.held t := by
    rw [held_concat, hacquires, hreleases, Multiset.sub_zero, add_comm, Multiset.singleton_add]
  refine ⟨?_, fun r' => ?_⟩
  · rw [hheld, Multiset.nodup_cons]
    exact ⟨fun hmem => hr ((h.mem r).mp hmem), h.nodup⟩
  · rw [hheld, Multiset.mem_cons, Set.mem_insert_iff, h.mem]

theorem Tracks.release (h : A.Tracks S t) (hacquires : A.acquires e = 0)
    (hreleases : A.releases e = {r}) : A.Tracks (S \ {r}) (t ++ [e]) := by
  have hheld : A.held (t ++ [e]) = (A.held t).erase r := by
    rw [held_concat, hacquires, hreleases, add_zero, Multiset.sub_singleton]
  refine ⟨hheld ▸ h.nodup.erase r, fun r' => ?_⟩
  rw [hheld, h.nodup.mem_erase_iff, h.mem, Set.mem_sdiff, Set.mem_singleton_iff, and_comm]

theorem Tracks.singleton_le (h : A.Tracks S t) (hr : r ∈ S) : {r} ≤ A.held t :=
  Multiset.singleton_le.mpr ((h.mem r).mpr hr)

theorem Tracks.held_eq_zero (h : A.Tracks ∅ t) : A.held t = 0 :=
  Multiset.eq_zero_of_forall_notMem fun r hr => (h.mem r).mp hr

end Accounts
end Ledger
