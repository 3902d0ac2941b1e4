import SharingProbe.Library.Interaction

/-!
# How a program stops

`Prog.Runs` follows a branch to a result.  A branch that uses up the iterations of a
loop has none, and it is the branch that follows a loop for as long as it goes on.
`Prog.Stops` follows both kinds to the end, and the lemmas below take a branch of a
composed program apart.
-/

namespace Interaction

universe u

variable {σ C ε α β : Type u} {R : C → Type u}

namespace Prog

/-- The program makes these calls, gets these replies and then returns or, for `none`,
gives up. -/
inductive Stops : Prog σ C R α → List (Event σ C R) → Option α → Prop
  | ret (a : α) : Stops (.ret a) [] (some a)
  | cut : Stops .cut [] none
  | call {s : σ} {c : C} {next : R c → Prog σ C R α} {r : R c} {t : List (Event σ C R)}
      {o : Option α} : Stops (next r) t o → Stops (.call s c next) (⟨s, c, r⟩ :: t) o

theorem Runs.stops {p : Prog σ C R α} {t : List (Event σ C R)} {a : α} (h : p.Runs t a) :
    p.Stops t (some a) := by
  induction h with
  | ret a => exact .ret a
  | call _ ih => exact .call ih

theorem Stops.visits {p : Prog σ C R α} {t : List (Event σ C R)} {o : Option α}
    (h : p.Stops t o) : p.Visits t := by
  induction h with
  | ret a => exact .nil _
  | cut => exact .nil _
  | call _ ih => exact .call ih

/-- A branch of two programs in sequence ends in the first one or in the second. -/
theorem Stops.bind_cases {p : Prog σ C R α} {f : α → Prog σ C R β} {t : List (Event σ C R)}
    {o : Option β} (h : (p.bind f).Stops t o) :
    (p.Stops t none ∧ o = none) ∨
      ∃ a t₁ t₂, t = t₁ ++ t₂ ∧ p.Stops t₁ (some a) ∧ (f a).Stops t₂ o := by
  induction p generalizing t with
  | ret a => exact .inr ⟨a, [], t, rfl, .ret a, h⟩
  | cut => cases h; exact .inl ⟨.cut, rfl⟩
  | call s c next ih =>
      cases h with
      | @call _ _ _ r t _ h =>
          rcases ih r h with ⟨hfirst, ho⟩ | ⟨a, t₁, t₂, rfl, hfirst, hrest⟩
          · exact .inl ⟨.call hfirst, ho⟩
          · exact .inr ⟨a, ⟨s, c, r⟩ :: t₁, t₂, rfl, .call hfirst, hrest⟩

/-- A run of two programs in sequence is a run of the first and then one of the second. -/
theorem Runs.bind_cases {p : Prog σ C R α} {f : α → Prog σ C R β} {t : List (Event σ C R)} {b : β}
    (h : (p.bind f).Runs t b) :
    ∃ a t₁ t₂, t = t₁ ++ t₂ ∧ p.Runs t₁ a ∧ (f a).Runs t₂ b := by
  induction p generalizing t with
  | ret a => exact ⟨a, [], t, rfl, .ret a, h⟩
  | cut => cases h
  | call s c next ih =>
      cases h with
      | @call _ _ _ r t _ h =>
          obtain ⟨a, t₁, t₂, rfl, hfirst, hrest⟩ := ih r h
          exact ⟨a, ⟨s, c, r⟩ :: t₁, t₂, rfl, .call hfirst, hrest⟩

/-- The calls of a run determine it: of two runs neither goes on where the other has ended. -/
theorem Runs.unique {p : Prog σ C R α} {t t' u u' : List (Event σ C R)} {a a' : α}
    (h : p.Runs t a) (h' : p.Runs t' a') (hu : t ++ u = t' ++ u') : t = t' ∧ a = a' := by
  induction h generalizing t' with
  | ret a =>
      cases h'
      exact ⟨rfl, rfl⟩
  | @call s c next r t a h ih =>
      cases h' with
      | @call _ _ _ r' t' _ h' =>
          simp only [List.cons_append, List.cons.injEq, Event.mk.injEq, heq_eq_eq, true_and] at hu
          obtain ⟨rfl, hrest⟩ := hu
          obtain ⟨rfl, rfl⟩ := ih h' hrest
          exact ⟨rfl, rfl⟩

end Prog

namespace Proc

variable {s s' : σ} {t : List (Event σ C R)}

theorem Only.of_stops {P : C → Prop} {m : Proc σ ε C R α} {o : Option (Except ε α × σ)}
    (hm : m.Only P) (h : (m s).Stops t o) : ∀ e ∈ t, P e.call := by
  intro e he
  obtain ⟨t₁, t₂, ht⟩ := List.append_of_mem he
  exact Prog.Meets.ok_of_visits (hm s []) h.visits t₁ e t₂ ht

theorem stops_pure {a : α} {o : Option (Except ε α × σ)}
    (h : ((pure a : Proc σ ε C R α) s).Stops t o) : t = [] ∧ o = some (.ok a, s) := by
  cases h
  exact ⟨rfl, rfl⟩

theorem stops_throw {e : ε} {o : Option (Except ε α × σ)}
    (h : ((throw e : Proc σ ε C R α) s).Stops t o) : t = [] ∧ o = some (.error e, s) := by
  cases h
  exact ⟨rfl, rfl⟩

theorem stops_cut {o : Option (Except ε α × σ)}
    (h : ((cut : Proc σ ε C R α) s).Stops t o) : t = [] ∧ o = none := by
  cases h
  exact ⟨rfl, rfl⟩

/-- A call is answered before anything else happens. -/
theorem stops_ask_bind {c : C} {f : R c → Proc σ ε C R β} {o : Option (Except ε β × σ)}
    (h : ((ask c >>= f) s).Stops t o) : ∃ r u, t = ⟨s, c, r⟩ :: u ∧ (f r s).Stops u o := by
  cases h with
  | @call _ _ _ r u _ h => exact ⟨r, u, rfl, h⟩

/-- A branch of two procedures in sequence: the first gives up, or it throws, or the
second takes over. -/
theorem stops_bind {m : Proc σ ε C R α} {f : α → Proc σ ε C R β} {o : Option (Except ε β × σ)}
    (h : ((m >>= f) s).Stops t o) :
    ((m s).Stops t none ∧ o = none) ∨
      (∃ e s', (m s).Stops t (some (.error e, s')) ∧ o = some (.error e, s')) ∨
        ∃ a s' t₁ t₂, t = t₁ ++ t₂ ∧ (m s).Stops t₁ (some (.ok a, s')) ∧ (f a s').Stops t₂ o := by
  rcases Prog.Stops.bind_cases h with hfirst | ⟨⟨x, s'⟩, t₁, t₂, rfl, hfirst, hrest⟩
  · exact .inl hfirst
  · cases x with
    | error e =>
        cases hrest
        rw [List.append_nil]
        exact .inr (.inl ⟨e, s', hfirst, rfl⟩)
    | ok a => exact .inr (.inr ⟨a, s', t₁, t₂, rfl, hfirst, hrest⟩)

/-- If every branch of the first procedure ends in one way, the second takes over. -/
theorem stops_bind_of {m : Proc σ ε C R α} {f : α → Proc σ ε C R β}
    {o : Option (Except ε β × σ)} {P : List (Event σ C R) → α → σ → Prop}
    (h : ((m >>= f) s).Stops t o)
    (hm : ∀ t₁ o₁, t₁ <+: t → (m s).Stops t₁ o₁ → ∃ a s', o₁ = some (.ok a, s') ∧ P t₁ a s') :
    ∃ a s' t₁ t₂, t = t₁ ++ t₂ ∧ P t₁ a s' ∧ (f a s').Stops t₂ o := by
  rcases stops_bind h with ⟨hfirst, -⟩ | ⟨e, s', hfirst, -⟩ | ⟨a, s', t₁, t₂, rfl, hfirst, hrest⟩
  · obtain ⟨a, s', ho, -⟩ := hm t none List.prefix_rfl hfirst
    cases ho
  · obtain ⟨a, s'', ho, -⟩ := hm t _ List.prefix_rfl hfirst
    cases ho
  · obtain ⟨a', s'', ho, hP⟩ := hm t₁ _ (List.prefix_append t₁ t₂) hfirst
    cases ho
    exact ⟨a, s', t₁, t₂, rfl, hP, hrest⟩

/-! ## What a procedure has called when it is over -/

/-- The procedure does not throw.  If it returns `a` after the calls `t`, then `P t a` holds, and
if it gives up, `G t`. -/
def Over (m : Proc σ ε C R α) (P : List (Event σ C R) → α → Prop)
    (G : List (Event σ C R) → Prop) : Prop :=
  ∀ s t o, (m s).Stops t o → (∃ a s', o = some (.ok a, s') ∧ P t a) ∨ (o = none ∧ G t)

section Over

variable {m : Proc σ ε C R α} {P P' : List (Event σ C R) → α → Prop}
  {G : List (Event σ C R) → Prop}

theorem Over.mono (h : m.Over P G) (hP : ∀ t a, P t a → P' t a) : m.Over P' G := by
  intro s t o hstops
  rcases h s t o hstops with ⟨a, s', ho, ha⟩ | hnone
  · exact .inl ⟨a, s', ho, hP t a ha⟩
  · exact .inr hnone

theorem over_pure (a : α) : (pure a : Proc σ ε C R α).Over (fun t b => t = [] ∧ b = a) G := by
  intro s t o h
  obtain ⟨rfl, rfl⟩ := stops_pure h
  exact .inl ⟨a, s, rfl, rfl, rfl⟩

theorem over_ask (c : C) :
    (ask c : Proc σ ε C R (R c)).Over (fun t r => ∃ s, t = [⟨s, c, r⟩]) G := by
  intro s t o h
  cases h with
  | @call _ _ _ r u _ h =>
      cases h
      exact .inl ⟨r, s, rfl, s, rfl⟩

/-- Two procedures in sequence: their calls follow each other. -/
theorem Over.bind {f : α → Proc σ ε C R β} {Q : α → List (Event σ C R) → β → Prop}
    (hm : m.Over P G) (hf : ∀ a, (f a).Over (Q a) G) (hG : ∀ t t', G t' → G (t ++ t')) :
    (m >>= f).Over (fun t b => ∃ a t₁ t₂, t = t₁ ++ t₂ ∧ P t₁ a ∧ Q a t₂ b) G := by
  intro s t o h
  rcases stops_bind h with ⟨hfirst, rfl⟩ | ⟨e, s', hfirst, rfl⟩ | ⟨a, s', t₁, t₂, rfl, hfirst,
    hrest⟩
  · rcases hm s t none hfirst with ⟨a, s', ho, -⟩ | ⟨-, hgave⟩
    · cases ho
    · exact .inr ⟨rfl, hgave⟩
  · rcases hm s t _ hfirst with ⟨a, s'', ho, -⟩ | ⟨ho, -⟩ <;> cases ho
  · rcases hm s t₁ _ hfirst with ⟨a', s'', ho, ha⟩ | ⟨ho, -⟩
    · cases ho
      rcases hf a s' t₂ o hrest with ⟨b, s'', rfl, hb⟩ | ⟨rfl, hgave⟩
      · exact .inl ⟨b, s'', rfl, a, t₁, t₂, rfl, ha, hb⟩
      · exact .inr ⟨rfl, hG t₁ t₂ hgave⟩
    · cases ho

theorem Over.ite {c : Prop} [Decidable c] {m' : Proc σ ε C R α} (hm : c → m.Over P G)
    (hm' : ¬c → m'.Over P G) : (if c then m else m').Over P G := by
  by_cases hc : c
  · rw [if_pos hc]
    exact hm hc
  · rw [if_neg hc]
    exact hm' hc

theorem Over.of_runs (h : m.Over P G) {s s' : σ} {t : List (Event σ C R)} {a : α}
    (hruns : (m s).Runs t (.ok a, s')) : P t a := by
  rcases h s t _ hruns.stops with ⟨a', s'', ho, ha⟩ | ⟨ho, -⟩
  · cases ho
    exact ha
  · cases ho

theorem Over.of_stops (h : m.Over P G) {s : σ} {t : List (Event σ C R)}
    (hstops : (m s).Stops t none) : G t := by
  rcases h s t none hstops with ⟨a, s', ho, -⟩ | ⟨-, hgave⟩
  · cases ho
  · exact hgave

end Over

end Proc
end Interaction
