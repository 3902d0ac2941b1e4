import Mathlib.Data.DFinsupp.WellFounded
import Mathlib.SetTheory.Cardinal.Order
import SharingProbe.Library.Network

/-!
# Networks that come to an end

A program is a tree without infinite branches, and a step of a network takes one party one
call further.  So if some party can always go on as long as not all have returned, then every
state leads to one in which all have (`exists_ended`).
-/

universe u

namespace Interaction.Proc

variable {σ ε C α β ι : Type u} {R : C → Type u}

/-- The procedure never gives up. -/
def Whole (m : Proc σ ε C R α) : Prop := ∀ s, Network.Whole (m s)

theorem whole_pure (a : α) : (pure a : Proc σ ε C R α).Whole := fun _ => .ret _

theorem whole_get : (get : Proc σ ε C R σ).Whole := fun _ => .ret _

theorem whole_modify (f : σ → σ) : (modify f : Proc σ ε C R PUnit).Whole := fun _ => .ret _

theorem whole_throw (e : ε) : (throw e : Proc σ ε C R α).Whole := fun _ => .ret _

theorem whole_ask (c : C) : (ask c : Proc σ ε C R (R c)).Whole := fun _ => .call fun _ => .ret _

theorem Whole.bind {m : Proc σ ε C R α} {f : α → Proc σ ε C R β} (hm : m.Whole)
    (hf : ∀ a, (f a).Whole) : (m >>= f).Whole := by
  intro s
  apply Network.Whole.bind (hm s)
  rintro ⟨x, s'⟩
  cases x with
  | ok a => exact hf a s'
  | error e => exact .ret _

theorem Whole.tryCatch {m : Proc σ ε C R α} {handler : ε → Proc σ ε C R α} (hm : m.Whole)
    (hhandler : ∀ e, (handler e).Whole) : (Proc.tryCatch m handler).Whole := by
  intro s
  apply Network.Whole.bind (hm s)
  rintro ⟨x, s'⟩
  cases x with
  | ok a => exact .ret _
  | error e => exact hhandler e s'

theorem Whole.onlyIf {c : Prop} [Decidable c] {m : Proc σ ε C R PUnit} (hm : m.Whole) :
    (Proc.onlyIf c m).Whole := by
  unfold Proc.onlyIf
  split
  · exact hm
  · exact whole_pure _

theorem whole_forM {xs : List ι} {f : ι → Proc σ ε C R PUnit} (hf : ∀ x, (f x).Whole) :
    (xs.forM f).Whole := by
  induction xs with
  | nil => exact whole_pure _
  | cons x xs ih => exact (hf x).bind fun _ => ih

theorem whole_foldlM {xs : List ι} {f : β → ι → Proc σ ε C R β} (hf : ∀ b x, (f b x).Whole) :
    ∀ b, (xs.foldlM f b).Whole := by
  induction xs with
  | nil => exact fun b => whole_pure b
  | cons x xs ih => exact fun b => (hf b x).bind ih

end Interaction.Proc

namespace Network

open Interaction Transition

section Ended

variable {ι : Type*} {σ C α : Type u} {R : C → Type u} {Ch M W E : Type*}

/-- What is left of a program after a call. -/
inductive After : Prog σ C R α → Prog σ C R α → Prop
  | call {s : σ} {c : C} {next : R c → Prog σ C R α} (r : R c) : After (next r) (.call s c next)

/-- A program comes to an end. -/
theorem wellFounded_after : WellFounded (After : Prog σ C R α → Prog σ C R α → Prop) := by
  constructor
  intro p
  induction p with
  | ret a => exact ⟨_, nofun⟩
  | cut => exact ⟨_, nofun⟩
  | call s c next ih =>
      constructor
      intro p' hp'
      cases hp' with
      | call r => exact ih r

variable [DecidableEq ι] [DecidableEq Ch] [DecidableEq M] {N : Net ι σ C R α Ch M W E}
  {s : State ι σ C R α Ch M W}

/-- If some party can always go on, then every state leads to one in which all have returned. -/
theorem exists_ended [Finite ι] (hwhole : ∀ i, Whole (N.program i))
    (hprogress : ∀ s, Reachable N.system s → (∃ i p c next, s.rest i = .call p c next) →
      ∃ i answer s', N.step s (.call i answer) = some s') (h : Reachable N.system s) :
    ∃ t s', Path N.system s t s' ∧ ∀ i, ∃ a, s'.rest i = .ret a := by
  have hwf : WellFounded (InvImage (Pi.Lex WellOrderingRel fun {_ : ι} => After)
      (State.rest : State ι σ C R α Ch M W → ι → Prog σ C R α)) :=
    InvImage.wf _ (Pi.Lex.wellFounded _ fun _ => wellFounded_after)
  induction s using hwf.induction with
  | _ s ih =>
      by_cases hend : ∃ i p c next, s.rest i = .call p c next
      · obtain ⟨i, answer, s₁, hstep⟩ := hprogress s h hend
        obtain ⟨e, hcalled⟩ := called_of_step hstep
        obtain ⟨next, hrest, hrest'⟩ := hcalled.rest
        have hsmaller : Pi.Lex WellOrderingRel (fun {_ : ι} => After) s₁.rest s.rest := by
          refine ⟨i, fun j hj => ?_, ?_⟩
          · have hne : j ≠ i := fun hji => irrefl_of WellOrderingRel i (hji ▸ hj)
            rw [hrest', Function.update_of_ne hne]
          · rw [hrest', Function.update_self, hrest]
            exact .call _
        have hstep : N.system.step s (.call i answer) = some s₁ := hstep
        obtain ⟨t, s', hpath, hreturned⟩ := ih s₁ hsmaller (h.step hstep)
        exact ⟨_, s', (Path.nil.snoc hstep).trans hpath, hreturned⟩
      · refine ⟨[], s, .nil, fun i => ?_⟩
        have hi := (reaches h i).whole (hwhole i)
        cases hrest : s.rest i with
        | ret a => exact ⟨a, rfl⟩
        | cut =>
            rw [hrest] at hi
            cases hi
        | call p c next => exact absurd ⟨i, p, c, next, hrest⟩ hend

end Ended

end Network
