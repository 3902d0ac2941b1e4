import Mathlib.Data.List.Basic
import Mathlib.Data.List.Induction

/-!
# What a sequence of events does to the world

`Along E s ls s'` says that the events `ls` can take the world from `s` to `s'`, where
`E` says what each event can do to it.  The effect of an event need not be unique:
an event that fails may have done a part of its work.
-/

namespace Evolution

variable {S L M : Type*} {E : S → L → S → Prop}

/-- The events take the world from one state to another. -/
inductive Along (E : S → L → S → Prop) (s : S) : List L → S → Prop
  | nil : Along E s [] s
  | snoc {ls : List L} {l : L} {s' s'' : S} (hbefore : Along E s ls s') (heffect : E s' l s'') :
      Along E s (ls ++ [l]) s''

@[simp] theorem along_nil {s s' : S} : Along E s [] s' ↔ s' = s := by
  constructor
  · intro h
    generalize hls : ([] : List L) = ls at h
    cases h with
    | nil => rfl
    | snoc => simp at hls
  · rintro rfl
    exact .nil

theorem along_concat {s s'' : S} {ls : List L} {l : L} :
    Along E s (ls ++ [l]) s'' ↔ ∃ s', Along E s ls s' ∧ E s' l s'' := by
  constructor
  · intro h
    generalize hall : ls ++ [l] = all at h
    cases h with
    | nil => simp at hall
    | snoc hbefore heffect =>
        obtain ⟨rfl, hlast⟩ := List.append_inj' hall rfl
        cases hlast
        exact ⟨_, hbefore, heffect⟩
  · rintro ⟨s', hbefore, heffect⟩
    exact hbefore.snoc heffect

@[simp] theorem along_singleton {s s' : S} {l : L} : Along E s [l] s' ↔ E s l s' := by
  rw [← List.nil_append [l], along_concat]
  simp

theorem along_append {s s'' : S} {ls ls' : List L} :
    Along E s (ls ++ ls') s'' ↔ ∃ s', Along E s ls s' ∧ Along E s' ls' s'' := by
  induction ls' using List.reverseRecOn generalizing s'' with
  | nil => simp
  | append_singleton ls' l ih =>
      rw [← List.append_assoc, along_concat]
      constructor
      · rintro ⟨s₁, hbefore, heffect⟩
        obtain ⟨s', hfirst, hrest⟩ := ih.mp hbefore
        exact ⟨s', hfirst, along_concat.mpr ⟨s₁, hrest, heffect⟩⟩
      · rintro ⟨s', hfirst, hrest⟩
        obtain ⟨s₁, hrest, heffect⟩ := along_concat.mp hrest
        exact ⟨s₁, ih.mpr ⟨s', hfirst, hrest⟩, heffect⟩

theorem along_cons {s s'' : S} {l : L} {ls : List L} :
    Along E s (l :: ls) s'' ↔ ∃ s', E s l s' ∧ Along E s' ls s'' := by
  rw [← List.singleton_append, along_append]
  simp

/-- A prefix of a sequence that is made in pieces ends in one of the pieces. -/
theorem split_of_isPrefix_flatMap {xs : List M} {f : M → List L} {ls : List L}
    (h : ls <+: xs.flatMap f) (hne : xs ≠ []) :
    ∃ xs₁ x xs₂ ls', xs = xs₁ ++ x :: xs₂ ∧ ls = xs₁.flatMap f ++ ls' ∧ ls' <+: f x := by
  induction xs generalizing ls with
  | nil => exact absurd rfl hne
  | cons x xs ih =>
      obtain ⟨rest, hrest⟩ := h
      rw [List.flatMap_cons] at hrest
      rcases List.append_eq_append_iff.mp hrest with ⟨u, hfx, -⟩ | ⟨u, rfl, hxs⟩
      · exact ⟨[], x, xs, ls, rfl, rfl, u, hfx.symm⟩
      · by_cases hnil : xs = []
        · subst hnil
          have hu : u = [] := (List.append_eq_nil_iff.mp hxs.symm).1
          exact ⟨[], x, [], f x, rfl, by simp [hu], List.prefix_rfl⟩
        · obtain ⟨xs₁, y, xs₂, ls', rfl, rfl, hls'⟩ := ih ⟨rest, hxs.symm⟩ hnil
          exact ⟨x :: xs₁, y, xs₂, ls', rfl, by simp, hls'⟩

end Evolution
