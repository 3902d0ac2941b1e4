import Mathlib.Data.List.Range
import SharingProbe.Library.Interaction

/-!
# Triples for procedures

A triple `Triple ok P m Q E` says that `m`, started where `P` holds of the object
and the trace so far, makes only calls allowed by `ok`, returns where `Q` holds and
throws where `E` holds.  There is one rule for each way to build a procedure, and
two for loops: over a list, with an invariant, and over the indices below a bound,
with an invariant that knows how many turns are done.
-/

namespace Interaction.Proc

universe u

variable {σ ε C α β ι : Type u} {R : C → Type u}

/-- A triple with a postcondition for each way to end. -/
def Triple (ok : List (Event σ C R) → σ → C → Prop) (P : σ → List (Event σ C R) → Prop)
    (m : Proc σ ε C R α) (Q : α → σ → List (Event σ C R) → Prop)
    (E : σ → List (Event σ C R) → Prop) : Prop :=
  ∀ s t, P s t → m.Meets ok s t fun x s' t' =>
    match x with
    | .ok a => Q a s' t'
    | .error _ => E s' t'

variable {ok : List (Event σ C R) → σ → C → Prop} {P P' : σ → List (Event σ C R) → Prop}
  {Q Q' : α → σ → List (Event σ C R) → Prop} {E E' : σ → List (Event σ C R) → Prop}

theorem Triple.weaken {m : Proc σ ε C R α} (h : Triple ok P m Q E) (hP : ∀ s t, P' s t → P s t)
    (hQ : ∀ a s t, Q a s t → Q' a s t) (hE : ∀ s t, E s t → E' s t) : Triple ok P' m Q' E' := by
  intro s t hst
  refine (h s t (hP s t hst)).mono ?_
  intro x s' t' _ hx
  cases x with
  | ok a => exact hQ a s' t' hx
  | error e => exact hE s' t' hx

/-- What the precondition says besides can be used. -/
theorem Triple.assume {m : Proc σ ε C R α} {A : Prop} (hA : ∀ s t, P s t → A)
    (h : A → Triple ok P m Q E) : Triple ok P m Q E :=
  fun s t hst => h (hA s t hst) s t hst

/-- What the precondition leaves open can be fixed. -/
theorem triple_exists {m : Proc σ ε C R α} {P : ι → σ → List (Event σ C R) → Prop}
    (h : ∀ i, Triple ok (P i) m Q E) : Triple ok (fun s t => ∃ i, P i s t) m Q E := by
  rintro s t ⟨i, hst⟩
  exact h i s t hst

/-- Nothing is said of a procedure. -/
theorem triple_any {m : Proc σ ε C R α} :
    Triple (fun _ _ _ => True) P m (fun _ _ _ => True) fun _ _ => True := by
  have htrue : ∀ {β : Type u} (p : Prog σ C R β) t, p.Meets (fun _ _ _ => True) t fun _ _ =>
    True := by
    intro β p
    induction p with
    | ret b => exact fun _ => trivial
    | cut => exact fun _ => trivial
    | call s c next ih => exact fun t => ⟨trivial, fun r => ih r _⟩
  intro s t _
  refine Prog.Meets.mono ?_ (htrue (m s) t)
  rintro ⟨x, s'⟩ t' _
  cases x <;> trivial

theorem triple_pure {a : α} (h : ∀ s t, P s t → Q a s t) :
    Triple ok P (pure a : Proc σ ε C R α) Q E := h

theorem triple_throw {e : ε} (h : ∀ s t, P s t → E s t) :
    Triple ok P (throw e : Proc σ ε C R α) Q E := h

theorem triple_cut : Triple ok P (cut : Proc σ ε C R α) Q E := fun _ _ _ => trivial

theorem triple_get {Q : σ → σ → List (Event σ C R) → Prop} (h : ∀ s t, P s t → Q s s t) :
    Triple ok P (get : Proc σ ε C R σ) Q E := h

theorem triple_modify {f : σ → σ} {Q : PUnit → σ → List (Event σ C R) → Prop}
    (h : ∀ s t, P s t → Q ⟨⟩ (f s) t) : Triple ok P (modify f : Proc σ ε C R PUnit) Q E := h

theorem triple_ask {c : C} {Q : R c → σ → List (Event σ C R) → Prop}
    (hok : ∀ s t, P s t → ok t s c) (h : ∀ s t r, P s t → Q r s (t ++ [⟨s, c, r⟩])) :
    Triple ok P (ask c : Proc σ ε C R (R c)) Q E :=
  fun s t hst => ⟨hok s t hst, fun r => h s t r hst⟩

theorem Triple.bind {m : Proc σ ε C R α} {f : α → Proc σ ε C R β}
    {Q' : β → σ → List (Event σ C R) → Prop} (hm : Triple ok P m Q E)
    (hf : ∀ a, Triple ok (Q a) (f a) Q' E) : Triple ok P (m >>= f) Q' E := by
  intro s t hst
  rw [meets_bind]
  refine (hm s t hst).mono ?_
  intro x s' t' _ hx
  cases x with
  | ok a => exact hf a s' t' hx
  | error e => exact hx

theorem Triple.tryCatch {m : Proc σ ε C R α} {handler : ε → Proc σ ε C R α}
    (hm : Triple ok P m Q E) (hhandler : ∀ e, Triple ok E (handler e) Q E') :
    Triple ok P (Proc.tryCatch m handler) Q E' := by
  intro s t hst
  rw [meets_tryCatch]
  refine (hm s t hst).mono ?_
  intro x s' t' _ hx
  cases x with
  | ok a => exact hx
  | error e => exact hhandler e s' t' hx

/-- Run a procedure under a condition. -/
def onlyIf (c : Prop) [Decidable c] (m : Proc σ ε C R PUnit) : Proc σ ε C R PUnit :=
  if c then m else pure ⟨⟩

theorem triple_onlyIf {c : Prop} [Decidable c] {m : Proc σ ε C R PUnit}
    {Q : PUnit → σ → List (Event σ C R) → Prop} (hm : c → Triple ok P m Q E)
    (hnot : ¬c → ∀ s t, P s t → Q ⟨⟩ s t) : Triple ok P (onlyIf c m) Q E := by
  unfold onlyIf
  split
  · exact hm ‹c›
  · exact triple_pure (hnot ‹¬c›)

/-- What is read is the state. -/
theorem triple_get_bind {f : σ → Proc σ ε C R α}
    (hf : ∀ s, Triple ok (fun s' t => s' = s ∧ P s' t) (f s) Q E) :
    Triple ok P (get >>= f) Q E :=
  fun s t hst => hf s s t ⟨rfl, hst⟩

/-- What a procedure calls at all, as a triple. -/
theorem Only.triple {Pc : C → Prop} {m : Proc σ ε C R α} (hm : m.Only Pc)
    (hok : ∀ t s c, Pc c → ok t s c) :
    Triple ok (fun _ _ => True) m (fun _ _ _ => True) fun _ _ => True := by
  intro s t _
  have hmeets : m.Meets ok s t fun _ _ _ => True := Prog.Meets.mono_ok hok (hm s t)
  refine hmeets.mono ?_
  intro x s' t' _ _
  cases x <;> trivial

theorem Only.onlyIf {Pc : C → Prop} {c : Prop} [Decidable c] {m : Proc σ ε C R PUnit}
    (hm : m.Only Pc) : (Proc.onlyIf c m).Only Pc := by
  unfold Proc.onlyIf
  split
  · exact hm
  · exact only_pure _

theorem only_foldlM {Pc : C → Prop} {xs : List ι} {f : β → ι → Proc σ ε C R β}
    (hf : ∀ b, ∀ x ∈ xs, (f b x).Only Pc) : ∀ b, (xs.foldlM f b).Only Pc := by
  induction xs with
  | nil => exact fun b => only_pure b
  | cons x xs ih =>
      intro b
      apply Only.bind (hf b x List.mem_cons_self)
      exact ih fun b y hy => hf b y (List.mem_cons_of_mem x hy)

/-- A property of the trace that every call keeps. -/
theorem Only.keeps {Pc : C → Prop} {m : Proc σ ε C R α} (hm : m.Only Pc)
    {T : List (Event σ C R) → Prop} (hok : ∀ t s c, T t → Pc c → ok t s c)
    (hkeeps : ∀ t s c r, T t → Pc c → T (t ++ [⟨s, c, r⟩])) :
    Triple ok (fun _ => T) m (fun _ _ => T) fun _ => T := by
  have hprog : ∀ {γ : Type u} (p : Prog σ C R γ) t,
    p.Meets (fun _ _ c => Pc c) t (fun _ _ => True) →
      T t → p.Meets ok t fun _ => T := by
    intro γ p
    induction p with
    | ret a => exact fun t _ ht => ht
    | cut => exact fun _ _ _ => trivial
    | call s c next ih =>
        intro t h ht
        exact ⟨hok t s c ht h.1, fun r => ih r _ (h.2 r) (hkeeps t s c r ht h.1)⟩
  intro s t ht
  refine Prog.Meets.mono ?_ (hprog (m s) t (hm s t) ht)
  rintro ⟨x, s'⟩ t' ht'
  cases x <;> exact ht'

/-- The procedure does not write to the object. -/
def Still (m : Proc σ ε C R α) : Prop :=
  ∀ s t, m.Meets (fun _ _ _ => True) s t fun _ s' _ => s' = s

/-- What is known of the object stays true. -/
theorem Triple.frame {m : Proc σ ε C R α} {F : σ → Prop} (h : Triple ok P m Q E) (hm : Still m) :
    Triple ok (fun s t => F s ∧ P s t) m (fun a s t => F s ∧ Q a s t) fun s t => F s ∧ E s t := by
  intro s t hst
  refine Prog.Meets.mono ?_ (Prog.Meets.and (h s t hst.2) (hm s t))
  intro x t' hx
  obtain ⟨x, s'⟩ := x
  obtain ⟨hpost, rfl⟩ := hx
  cases x with
  | ok a => exact ⟨hst.1, hpost⟩
  | error e => exact ⟨hst.1, hpost⟩

/-- A stronger condition on the calls of a procedure that starts after `t₀`. -/
theorem Triple.of_extends {ok' : List (Event σ C R) → σ → C → Prop} {m : Proc σ ε C R α}
    (h : Triple ok P m Q E) (t₀ : List (Event σ C R))
    (hok : ∀ t s c, t₀ <+: t → ok t s c → ok' t s c) :
    Triple ok' (fun s t => t₀ <+: t ∧ P s t) m Q E := by
  rintro s t ⟨ht, hst⟩
  exact Prog.Meets.mono_ok_extends (fun t' s' c hextends => hok t' s' c (ht.trans hextends))
    (h s t hst)

/-- A loop over a list, with an invariant. -/
theorem triple_forM {xs : List ι} {f : ι → Proc σ ε C R PUnit}
    (hbody : ∀ x ∈ xs, Triple ok P (f x) (fun _ => P) E) :
    Triple ok P (xs.forM f) (fun _ => P) E := by
  induction xs with
  | nil => exact triple_pure fun _ _ h => h
  | cons x xs ih =>
      apply Triple.bind (hbody x List.mem_cons_self)
      intro _
      exact ih fun y hy => hbody y (List.mem_cons_of_mem x hy)

/-- A loop with an accumulator that the invariant does not mention. -/
theorem triple_foldlM {xs : List ι} {f : β → ι → Proc σ ε C R β}
    (hbody : ∀ b, ∀ x ∈ xs, Triple ok P (f b x) (fun _ => P) E) :
    ∀ b, Triple ok P (xs.foldlM f b) (fun _ => P) E := by
  induction xs with
  | nil => exact fun b => triple_pure fun _ _ h => h
  | cons x xs ih =>
      intro b
      apply Triple.bind (hbody b x List.mem_cons_self)
      exact ih fun b y hy => hbody b y (List.mem_cons_of_mem x hy)

/-- A loop over a list, with an invariant that knows what is left. -/
theorem triple_forM_rest {I : List ι → σ → List (Event σ C R) → Prop} {f : ι → Proc σ ε C R PUnit}
    (hbody : ∀ x xs, Triple ok (I (x :: xs)) (f x) (fun _ => I xs) E) (xs : List ι) :
    Triple ok (I xs) (xs.forM f) (fun _ => I []) E := by
  induction xs with
  | nil => exact triple_pure fun _ _ h => h
  | cons x xs ih => exact Triple.bind (hbody x xs) fun _ => ih

/-- A loop over a list with an accumulator, with an invariant that knows what is left. -/
theorem triple_foldlM_rest {I : List ι → σ → List (Event σ C R) → Prop}
    {f : β → ι → Proc σ ε C R β}
    (hbody : ∀ b x xs, Triple ok (I (x :: xs)) (f b x) (fun _ => I xs) E)
    (xs : List ι) : ∀ b, Triple ok (I xs) (xs.foldlM f b) (fun _ => I []) E := by
  induction xs with
  | nil => exact fun b => triple_pure fun _ _ h => h
  | cons x xs ih => exact fun b => Triple.bind (hbody b x xs) fun b => ih b

/-- A loop over a list, with an invariant that knows the position. -/
theorem triple_forM_index {f : ι → Proc σ ε C R PUnit} {xs : List ι} :
    ∀ {I : ℕ → σ → List (Event σ C R) → Prop},
      (∀ i x, xs[i]? = some x → Triple ok (I i) (f x) (fun _ => I (i + 1)) E) →
        Triple ok (I 0) (xs.forM f) (fun _ => I xs.length) E := by
  induction xs with
  | nil => exact fun _ => triple_pure fun _ _ h => h
  | cons x xs ih =>
      intro I hbody
      apply Triple.bind (hbody 0 x rfl)
      exact fun _ => ih (I := fun i => I (i + 1)) fun i y hy => hbody (i + 1) y hy

/-- A loop over a list with an accumulator, with an invariant that knows the position. -/
theorem triple_foldlM_index {f : β → ι → Proc σ ε C R β} {xs : List ι} :
    ∀ {I : ℕ → β → σ → List (Event σ C R) → Prop},
      (∀ i x b, xs[i]? = some x → Triple ok (I i b) (f b x) (I (i + 1)) E) →
        ∀ b, Triple ok (I 0 b) (xs.foldlM f b) (I xs.length) E := by
  induction xs with
  | nil => exact fun _ b => triple_pure fun _ _ h => h
  | cons x xs ih =>
      intro I hbody b
      apply Triple.bind (hbody 0 x b rfl)
      exact fun b' => ih (I := fun i => I (i + 1)) (fun i y b hy => hbody (i + 1) y b hy) b'

/-- A loop over consecutive indices, with an invariant that counts. -/
theorem triple_forM_range' {I : ℕ → σ → List (Event σ C R) → Prop} {n : ℕ}
    {f : ℕ → Proc σ ε C R PUnit} : ∀ {a : ℕ},
      (∀ i, a ≤ i → i < a + n → Triple ok (I i) (f i) (fun _ => I (i + 1)) E) →
        Triple ok (I a) ((List.range' a n).forM f) (fun _ => I (a + n)) E := by
  induction n with
  | zero => intro a _; exact triple_pure fun _ _ h => h
  | succ n ih =>
      intro a hbody
      apply Triple.bind (hbody a le_rfl (by omega))
      intro _
      have hrest := ih (a := a + 1) fun i hle hlt => hbody i (by omega) (by omega)
      rwa [show a + 1 + n = a + (n + 1) by omega] at hrest

/-- A loop over the indices below a bound, with an invariant that counts. -/
theorem triple_forM_range {I : ℕ → σ → List (Event σ C R) → Prop} {n : ℕ}
    {f : ℕ → Proc σ ε C R PUnit} (hbody : ∀ i < n, Triple ok (I i) (f i) (fun _ => I (i + 1)) E) :
    Triple ok (I 0) ((List.range n).forM f) (fun _ => I n) E := by
  have hloop := triple_forM_range' (a := 0) (n := n) (I := I) (f := f) (E := E)
    fun i _ hlt => hbody i (by omega)
  rwa [Nat.zero_add, ← List.range_eq_range'] at hloop

end Interaction.Proc
