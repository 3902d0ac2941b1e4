import SharingProbe.Library.Interaction

/-!
# Programs in a world that answers them

`Prog.Runs` leaves the replies open.  A handler is a world that determines them: it answers a
call from its state, and the call changes the state.  A program then has one outcome.
-/

namespace Interaction

universe u v w

/-- How a world answers a call, and what it is after it. -/
structure Handler (W : Type v) (C : Type u) (R : C → Type u) where
  answer : W → (c : C) → R c
  next : W → C → W

namespace Handler

variable {σ C ε α β : Type u} {R : C → Type u} {W : Type v} (H : Handler W C R)

/-- What a program returns, if it does, and the world after it. -/
def run : Prog σ C R α → W → Option α × W
  | .ret a, w => (some a, w)
  | .cut, w => (none, w)
  | .call _ c next, w => run (next (H.answer w c)) (H.next w c)

theorem run_bind {p : Prog σ C R α} {w w' : W} {a : α} (h : H.run p w = (some a, w'))
    (f : α → Prog σ C R β) : H.run (p.bind f) w = H.run (f a) w' := by
  induction p generalizing w with
  | ret b =>
      obtain ⟨rfl, rfl⟩ : b = a ∧ w = w' := by simpa [run] using h
      rfl
  | cut => cases h
  | call s c next ih => exact ih _ h

/-! ## Procedures -/

/-- A procedure of an object in a state. -/
def perform (m : Proc σ ε C R α) (s : σ) (w : W) : Option (Except ε α × σ) × W := H.run (m s) w

section Perform

variable {m : Proc σ ε C R α} {f : α → Proc σ ε C R β} {s s' : σ} {w w' : W}

/-- Two procedures in sequence, if the first one returns. -/
theorem perform_bind_ok {a : α} (h : H.perform m s w = (some (.ok a, s'), w')) :
    H.perform (m >>= f) s w = H.perform (f a) s' w' :=
  H.run_bind h _

/-- Two procedures in sequence, if the first one throws. -/
theorem perform_bind_error {e : ε} (h : H.perform m s w = (some (.error e, s'), w')) :
    H.perform (m >>= f) s w = (some (.error e, s'), w') :=
  H.run_bind h _

end Perform

section Loops

variable {ι : Type w} {f : ι → Proc σ ε C R PUnit} {s : σ}

/-- A loop of turns that return. -/
theorem perform_forM {g : W → ι → W}
    (hf : ∀ x w, H.perform (f x) s w = (some (.ok ⟨⟩, s), g w x)) (xs : List ι) (w : W) :
    H.perform (xs.forM f) s w = (some (.ok ⟨⟩, s), xs.foldl g w) := by
  induction xs generalizing w with
  | nil => rfl
  | cons x xs ih =>
      calc H.perform (f x >>= fun _ => xs.forM f) s w
          = H.perform (xs.forM f) s (g w x) := H.perform_bind_ok (hf x w)
        _ = (some (.ok ⟨⟩, s), xs.foldl g (g w x)) := ih _

/-- A loop of tests, which change nothing. -/
theorem perform_tests {good : ι → Bool} {e : ε} {w : W}
    (hf : ∀ x, H.perform (f x) s w = (some (if good x then .ok ⟨⟩ else .error e, s), w))
    (xs : List ι) :
    H.perform (xs.forM f) s w = (some (if xs.all good then .ok ⟨⟩ else .error e, s), w) := by
  induction xs with
  | nil => rfl
  | cons x xs ih =>
      have htest := hf x
      rw [List.all_cons]
      cases hx : good x with
      | true =>
          rw [hx, if_pos rfl] at htest
          exact (H.perform_bind_ok htest).trans ih
      | false =>
          rw [hx, if_neg Bool.false_ne_true] at htest
          exact H.perform_bind_error htest

end Loops

end Handler

end Interaction
