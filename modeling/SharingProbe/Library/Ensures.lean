/-!
# What a fallible computation ensures

`Ensures P x` says that `P` holds of the value of `x`, if it has one.  There is a rule
for each way to build such a computation.
-/

namespace Fallible

universe u v

variable {ε : Type u} {α β : Type v} {P : α → Prop} {Q : β → Prop}

/-- `P` holds of the value, if there is one. -/
def Ensures (P : α → Prop) (x : Except ε α) : Prop := ∀ a, x = .ok a → P a

theorem ensures_ok {a : α} (h : P a) : Ensures P (.ok a : Except ε α) := by
  intro a' ha
  exact Except.ok.inj ha ▸ h

theorem ensures_error (e : ε) : Ensures P (.error e : Except ε α) := by
  intro a ha
  cases ha

theorem Ensures.ite {c : Prop} [Decidable c] {x y : Except ε α} (hx : Ensures P x)
    (hy : Ensures P y) : Ensures P (if c then x else y) := by
  split
  · exact hx
  · exact hy

/-- A test that makes the computation fail. -/
theorem Ensures.guard {c : Prop} [Decidable c] {e : ε} {x : Except ε α} (hx : ¬c → Ensures P x) :
    Ensures P (if c then .error e else x) := by
  split
  · exact ensures_error e
  · exact hx ‹¬c›

theorem Ensures.bind {x : Except ε α} {f : α → Except ε β} (hx : Ensures P x)
    (hf : ∀ a, P a → Ensures Q (f a)) : Ensures Q (x >>= f) := by
  cases x with
  | error e => exact ensures_error e
  | ok a => exact hf a (hx a rfl)

/-- A computation in two parts has a value if both have. -/
theorem bind_eq_ok_iff {x : Except ε α} {f : α → Except ε β} {b : β} :
    x >>= f = .ok b ↔ ∃ a, x = .ok a ∧ f a = .ok b := by
  cases x with
  | error e =>
      constructor
      · exact nofun
      · rintro ⟨a, h, -⟩
        cases h
  | ok a =>
      constructor
      · exact fun h => ⟨a, rfl, h⟩
      · rintro ⟨a', h, hf⟩
        cases h
        exact hf

/-- What passes a test. -/
theorem guard_eq_ok_iff {c : Prop} [Decidable c] {e : ε} {x : Except ε α} {a : α} :
    (if c then .error e else x) = .ok a ↔ ¬c ∧ x = .ok a := by
  by_cases hc : c
  · rw [if_pos hc]
    exact ⟨nofun, fun h => absurd hc h.1⟩
  · rw [if_neg hc]
    exact ⟨fun h => ⟨hc, h⟩, And.right⟩

end Fallible
