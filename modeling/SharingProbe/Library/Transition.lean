import Mathlib.Algebra.Ring.Nat
import Mathlib.Data.List.Basic

/-!
# Transition systems

A system is an initial state and a guarded step function: `step s a` is
`some s'` when the action `a` is enabled in `s`.  The same function is proved
about and replayed.

A `Path` records every action with the state it is taken in, so that what
happens *at* an action can be stated.  `Path.invariant` is the induction rule for
facts about the actions so far, `Reachable.invariant` the one for facts about the
state alone.
-/

namespace Transition

universe u v

/-- An initial state and a guarded step function. -/
structure System (S : Type u) (A : Type v) where
  init : S
  step : S → A → Option S

variable {S : Type u} {A : Type v} (M : System S A)

/-- The actions that lead from one state to another, each with the state it is
taken in. -/
inductive Path (s : S) : List (S × A) → S → Prop
  | nil : Path s [] s
  | snoc {t : List (S × A)} {s' s'' : S} {a : A} (hpath : Path s t s')
      (hstep : M.step s' a = some s'') : Path s (t ++ [(s', a)]) s''

/-- The states that some actions lead to. -/
def Reachable (s : S) : Prop := ∃ t, Path M M.init t s

/-- Replay a list of actions. -/
def run : S → List A → Option S
  | s, [] => some s
  | s, a :: as => (M.step s a).bind fun s' => run s' as

variable {M}

/-- What holds at the start and is kept by every step holds along every path. -/
theorem Path.invariant {s s' : S} {t : List (S × A)} (hpath : Path M s t s')
    (I : List (S × A) → S → Prop) (hinit : I [] s)
    (hstep : ∀ t s' a s'', Path M s t s' → I t s' → M.step s' a = some s'' →
      I (t ++ [(s', a)]) s'') : I t s' := by
  induction hpath with
  | nil => exact hinit
  | snoc hpath htaken ih => exact hstep _ _ _ _ hpath ih htaken

theorem Path.trans {s s' s'' : S} {t t' : List (S × A)} (h : Path M s t s')
    (h' : Path M s' t' s'') : Path M s (t ++ t') s'' := by
  induction h' with
  | nil => rwa [List.append_nil]
  | snoc _ hstep ih =>
      rw [← List.append_assoc]
      exact ih.snoc hstep

/-- A path gets to its end through every point of it. -/
theorem Path.take {s s' : S} {t u : List (S × A)} (h : Path M s (t ++ u) s') :
    ∃ m, Path M s t m := by
  generalize hall : t ++ u = all at h
  induction h generalizing u with
  | nil => exact ⟨s, by rw [(List.append_eq_nil_iff.mp hall).1]; exact .nil⟩
  | snoc hpath hstep ih =>
      rcases List.eq_nil_or_concat u with rfl | ⟨u, x, rfl⟩
      · rw [List.append_nil] at hall
        exact ⟨_, hall ▸ hpath.snoc hstep⟩
      · rw [List.concat_eq_append, ← List.append_assoc] at hall
        exact ih (List.append_inj' hall rfl).1

theorem Reachable.init : Reachable M M.init := ⟨[], .nil⟩

theorem Reachable.step {s s' : S} {a : A} (h : Reachable M s) (hstep : M.step s a = some s') :
    Reachable M s' := by
  obtain ⟨t, hpath⟩ := h
  exact ⟨_, hpath.snoc hstep⟩

theorem Path.reachable {s s' : S} {t : List (S × A)} (h : Path M s t s') (hs : Reachable M s) :
    Reachable M s' := by
  obtain ⟨u, hpath⟩ := hs
  exact ⟨_, hpath.trans h⟩

/-- The actions of a path are taken in reachable states. -/
theorem Path.reachable_of_mem {s : S} {t : List (S × A)} (h : Path M M.init t s) {m : S × A}
    (hm : m ∈ t) : Reachable M m.1 := by
  refine h.invariant (fun t _ => ∀ m ∈ t, Reachable M m.1) (by simp) ?_ m hm
  intro t s' a s'' hpath ih _ m hm
  rcases List.mem_append.mp hm with hbefore | hnow
  · exact ih m hbefore
  · rw [List.mem_singleton.mp hnow]
    exact ⟨t, hpath⟩

/-- What holds initially and is kept by every step from a reachable state holds
in every reachable state. -/
theorem Reachable.invariant {s : S} (h : Reachable M s) (I : S → Prop) (hinit : I M.init)
    (hstep : ∀ s a s', Reachable M s → I s → M.step s a = some s' → I s') : I s := by
  obtain ⟨t, hpath⟩ := h
  refine hpath.invariant (fun _ s => I s) hinit ?_
  intro t s' a s'' hpath hI htaken
  exact hstep s' a s'' ⟨t, hpath⟩ hI htaken

theorem path_of_run {as : List A} : ∀ {s s' : S}, run M s as = some s' → ∃ t, Path M s t s' := by
  induction as with
  | nil =>
      intro s s' h
      cases h
      exact ⟨[], .nil⟩
  | cons a as ih =>
      intro s s' h
      obtain ⟨s₁, hstep, hrest⟩ := Option.bind_eq_some_iff.mp h
      obtain ⟨t, hpath⟩ := ih hrest
      exact ⟨_, (Path.nil.snoc hstep).trans hpath⟩

theorem reachable_of_run {as : List A} {s : S} (h : run M M.init as = some s) : Reachable M s :=
  path_of_run h

/-- The state that a list of actions leads to, or the initial state if one of them
is not enabled. -/
def replay (M : System S A) (as : List A) : S := (run M M.init as).getD M.init

theorem reachable_replay (as : List A) : Reachable M (replay M as) := by
  unfold replay
  cases h : run M M.init as with
  | none => exact .init
  | some s => exact reachable_of_run h

/-- Follow a list of actions as far as they are enabled: the steps that are taken
and the state they lead to. -/
def follow (M : System S A) : S → List A → List (S × A) × S
  | s, [] => ([], s)
  | s, a :: as =>
      match M.step s a with
      | none => ([], s)
      | some s' => ((s, a) :: (follow M s' as).1, (follow M s' as).2)

theorem path_follow (M : System S A) (as : List A) :
    ∀ s : S, Path M s (follow M s as).1 (follow M s as).2 := by
  induction as with
  | nil => exact fun s => .nil
  | cons a as ih =>
      intro s
      unfold follow
      cases hstep : M.step s a with
      | none => exact .nil
      | some s' => exact (Path.nil.snoc hstep).trans (ih s')

end Transition
