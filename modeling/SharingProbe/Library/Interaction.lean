import Mathlib.Data.List.Basic
import Mathlib.Data.List.Induction

/-!
# Programs that call their environment

A sequential object is modelled by *procedures*: state transformers that may
throw and may call an environment.  The environment is not modelled at all.  A
procedure is a tree that branches on every reply, so a statement about all
branches is a statement about every environment, adaptive ones included.

Two readings of such a tree are used.

* `Prog.Visits` and `Prog.Runs` list the calls along one branch, up to some
  point or to the end.  Every `Event` also records the state of the object at
  the time of the call, which is what makes "at every moment" expressible.
* `Prog.Meets` is the weakest precondition: every call along every branch is
  allowed by `ok`, given the events so far, and every end satisfies the
  postcondition.  `Meets.ok_of_visits` and `Meets.post_of_runs` turn it back
  into a statement about branches.

The leaf `cut` stands for a loop that has used up the iterations it was given.
A branch that ends in `cut` has visited events but has no result.
-/

namespace Interaction

universe u

/-- One call: the state of the calling object, the call and the reply. -/
structure Event (σ : Type u) (C : Type u) (R : C → Type u) where
  state : σ
  call : C
  reply : R call

/-- A program that calls an environment and returns an `α`. -/
inductive Prog (σ : Type u) (C : Type u) (R : C → Type u) (α : Type u) where
  | ret (a : α)
  | cut
  | call (state : σ) (c : C) (next : R c → Prog σ C R α)

variable {σ C ε α β : Type u} {R : C → Type u}

namespace Prog

/-- Run the second program on the result of the first. -/
def bind : Prog σ C R α → (α → Prog σ C R β) → Prog σ C R β
  | .ret a, f => f a
  | .cut, _ => .cut
  | .call s c next, f => .call s c fun r => (next r).bind f

/-- The program makes these calls and gets these replies, and may go on. -/
inductive Visits : Prog σ C R α → List (Event σ C R) → Prop
  | nil (p : Prog σ C R α) : Visits p []
  | call {s : σ} {c : C} {next : R c → Prog σ C R α} {r : R c} {t : List (Event σ C R)} :
      Visits (next r) t → Visits (.call s c next) (⟨s, c, r⟩ :: t)

/-- The program makes these calls, gets these replies and returns. -/
inductive Runs : Prog σ C R α → List (Event σ C R) → α → Prop
  | ret (a : α) : Runs (.ret a) [] a
  | call {s : σ} {c : C} {next : R c → Prog σ C R α} {r : R c} {t : List (Event σ C R)} {a : α} :
      Runs (next r) t a → Runs (.call s c next) (⟨s, c, r⟩ :: t) a

/-- Run a program against an environment that answers from the events so far. -/
def exec (env : List (Event σ C R) → (c : C) → R c) :
    Prog σ C R α → List (Event σ C R) → List (Event σ C R) × Option α
  | .ret a, _ => ([], some a)
  | .cut, _ => ([], none)
  | .call s c next, t =>
      let e : Event σ C R := ⟨s, c, env t c⟩
      let rest := exec env (next e.reply) (t ++ [e])
      (e :: rest.1, rest.2)

/-- What `exec` returns is a run. -/
theorem runs_of_exec {env : List (Event σ C R) → (c : C) → R c} {p : Prog σ C R α} {a : α} :
    ∀ {t : List (Event σ C R)}, (exec env p t).2 = some a → Runs p (exec env p t).1 a := by
  induction p with
  | ret b =>
      intro t h
      simp only [exec, Option.some.injEq] at h ⊢
      exact h ▸ .ret b
  | cut => intro t h; simp [exec] at h
  | call s c next ih => intro t h; exact .call (ih _ h)

theorem Runs.visits {p : Prog σ C R α} {t : List (Event σ C R)} {a : α} (h : p.Runs t a) :
    p.Visits t := by
  induction h with
  | ret a => exact .nil _
  | call _ ih => exact .call ih

/-- A run of the first program continues as the second does. -/
theorem Runs.bind {p : Prog σ C R α} {f : α → Prog σ C R β} {t u : List (Event σ C R)} {a : α}
    {b : β} (h : p.Runs t a) (hrest : (f a).Runs u b) : (p.bind f).Runs (t ++ u) b := by
  induction h with
  | ret a => exact hrest
  | call _ ih => exact .call (ih hrest)

theorem Visits.bind {p : Prog σ C R α} {f : α → Prog σ C R β} {t : List (Event σ C R)}
    (h : p.Visits t) : (p.bind f).Visits t := by
  induction h with
  | nil p => exact .nil _
  | call _ ih => exact .call ih

theorem Runs.bind_visits {p : Prog σ C R α} {f : α → Prog σ C R β} {t u : List (Event σ C R)}
    {a : α} (h : p.Runs t a) (hrest : (f a).Visits u) : (p.bind f).Visits (t ++ u) := by
  induction h with
  | ret a => exact hrest
  | call _ ih => exact .call (ih hrest)

/-! ## Weakest preconditions -/

/-- Every call is allowed by `ok` after the events so far, and every result
satisfies `Q`. -/
def Meets (ok : List (Event σ C R) → σ → C → Prop) :
    Prog σ C R α → List (Event σ C R) → (α → List (Event σ C R) → Prop) → Prop
  | .ret a, t, Q => Q a t
  | .cut, _, _ => True
  | .call s c next, t, Q => ok t s c ∧ ∀ r, (next r).Meets ok (t ++ [⟨s, c, r⟩]) Q

variable {ok : List (Event σ C R) → σ → C → Prop}

theorem Meets.mono {p : Prog σ C R α} {Q Q' : α → List (Event σ C R) → Prop}
    (hQ : ∀ a t, Q a t → Q' a t) : ∀ {t : List (Event σ C R)}, p.Meets ok t Q →
      p.Meets ok t Q' := by
  induction p with
  | ret a => intro t h; exact hQ a t h
  | cut => intro t _; trivial
  | call s c next ih => rintro t ⟨hok, hnext⟩; exact ⟨hok, fun r => ih r (hnext r)⟩

theorem Meets.mono_ok {ok' : List (Event σ C R) → σ → C → Prop} {p : Prog σ C R α}
    {Q : α → List (Event σ C R) → Prop} (hok : ∀ t s c, ok t s c → ok' t s c) :
    ∀ {t : List (Event σ C R)}, p.Meets ok t Q → p.Meets ok' t Q := by
  induction p with
  | ret a => exact fun h => h
  | cut => exact fun h => h
  | call s c next ih => exact fun h => ⟨hok _ _ _ h.1, fun r => ih r (h.2 r)⟩

/-- Weaken what is required of the calls, knowing that the trace has only grown. -/
theorem Meets.mono_ok_extends {ok' : List (Event σ C R) → σ → C → Prop} {p : Prog σ C R α}
    {Q : α → List (Event σ C R) → Prop} : ∀ {t : List (Event σ C R)},
      (∀ t' s c, t <+: t' → ok t' s c → ok' t' s c) → p.Meets ok t Q → p.Meets ok' t Q := by
  induction p with
  | ret a => exact fun _ h => h
  | cut => exact fun _ h => h
  | call s c next ih =>
      intro t hok h
      refine ⟨hok t s c List.prefix_rfl h.1, fun r => ih r (fun t' s' c' ht => ?_) (h.2 r)⟩
      exact hok t' s' c' ((List.prefix_append t _).trans ht)

theorem meets_bind {p : Prog σ C R α} {f : α → Prog σ C R β}
    {Q : β → List (Event σ C R) → Prop} : ∀ {t : List (Event σ C R)},
      (p.bind f).Meets ok t Q ↔ p.Meets ok t fun a t' => (f a).Meets ok t' Q := by
  induction p with
  | ret a => intro t; rfl
  | cut => intro t; rfl
  | call s c next ih =>
      intro t
      simp only [bind, Meets]
      exact and_congr_right fun _ => forall_congr' fun r => ih r

/-- Two postconditions of one program. -/
theorem Meets.and {ok' : List (Event σ C R) → σ → C → Prop} {p : Prog σ C R α}
    {Q Q' : α → List (Event σ C R) → Prop} : ∀ {t : List (Event σ C R)},
      p.Meets ok t Q → p.Meets ok' t Q' → p.Meets ok t fun a t' => Q a t' ∧ Q' a t' := by
  induction p with
  | ret a => exact fun h h' => ⟨h, h'⟩
  | cut => exact fun _ _ => trivial
  | call s c next ih => exact fun h h' => ⟨h.1, fun r => ih r (h.2 r) (h'.2 r)⟩

/-- Two things that are required of the calls of one program. -/
theorem Meets.both {ok' : List (Event σ C R) → σ → C → Prop} {p : Prog σ C R α}
    {Q Q' : α → List (Event σ C R) → Prop} : ∀ {t : List (Event σ C R)},
      p.Meets ok t Q → p.Meets ok' t Q' →
        p.Meets (fun t s c => ok t s c ∧ ok' t s c) t fun a t' => Q a t' ∧ Q' a t' := by
  induction p with
  | ret a => exact fun h h' => ⟨h, h'⟩
  | cut => exact fun _ _ => trivial
  | call s c next ih => exact fun h h' => ⟨⟨h.1, h'.1⟩, fun r => ih r (h.2 r) (h'.2 r)⟩

/-- What every call of a program keeps. -/
theorem Meets.keep {T : List (Event σ C R) → Prop} {p : Prog σ C R α}
    {Q : α → List (Event σ C R) → Prop}
    (hkeep : ∀ t s c r, ok t s c → T t → T (t ++ [⟨s, c, r⟩])) : ∀ {t : List (Event σ C R)},
      p.Meets ok t Q → T t → p.Meets (fun t s c => ok t s c ∧ T t) t fun a t' => Q a t' ∧ T t' := by
  induction p with
  | ret a => exact fun h ht => ⟨h, ht⟩
  | cut => exact fun _ _ => trivial
  | call s c next ih =>
      exact fun h ht => ⟨⟨h.1, ht⟩, fun r => ih r (h.2 r) (hkeep _ _ _ r h.1 ht)⟩

/-- The events of a program come after those before it. -/
theorem Meets.and_extends {p : Prog σ C R α} {Q : α → List (Event σ C R) → Prop} :
    ∀ {t : List (Event σ C R)}, p.Meets ok t Q → p.Meets ok t fun a t' => t <+: t' ∧ Q a t' := by
  induction p with
  | ret a => intro t h; exact ⟨List.prefix_rfl, h⟩
  | cut => intro t _; trivial
  | call s c next ih =>
      rintro t ⟨hok, hnext⟩
      refine ⟨hok, fun r => (ih r (hnext r)).mono ?_⟩
      rintro a t' ⟨hextends, hQ⟩
      exact ⟨(List.prefix_append t _).trans hextends, hQ⟩

/-- Every call that a program visits is allowed at its place. -/
theorem Meets.ok_of_visits {p : Prog σ C R α} {Q : α → List (Event σ C R) → Prop} :
    ∀ {t u : List (Event σ C R)}, p.Meets ok t Q → p.Visits u →
      ∀ u₁ e u₂, u = u₁ ++ e :: u₂ → ok (t ++ u₁) e.state e.call := by
  intro t u h hvisits
  induction hvisits generalizing t with
  | nil p => intro u₁ e u₂ hu; simp at hu
  | @call s c next r u' _ ih =>
      intro u₁ e u₂ hu
      cases u₁ with
      | nil =>
          obtain ⟨rfl, -⟩ := List.cons.inj hu
          simpa using h.1
      | cons e' u₁ =>
          obtain ⟨rfl, hu'⟩ := List.cons.inj hu
          have := ih (h.2 r) u₁ e u₂ hu'
          rwa [List.append_assoc] at this

/-- The postcondition holds at the end of every run. -/
theorem Meets.post_of_runs {p : Prog σ C R α} {Q : α → List (Event σ C R) → Prop} {a : α} :
    ∀ {t u : List (Event σ C R)}, p.Meets ok t Q → p.Runs u a → Q a (t ++ u) := by
  intro t u h hruns
  induction hruns generalizing t with
  | ret a => rw [List.append_nil]; exact h
  | @call s c next r u' a _ ih =>
      have := ih (h.2 r)
      rwa [List.append_assoc] at this

/-- The events of a program are those of a run of it. -/
theorem Meets.and_runs {p : Prog σ C R α} {Q : α → List (Event σ C R) → Prop} :
    ∀ {t : List (Event σ C R)}, p.Meets ok t Q →
      p.Meets ok t fun a t' => (∃ u, t' = t ++ u ∧ p.Runs u a) ∧ Q a t' := by
  induction p with
  | ret a => intro t h; exact ⟨⟨[], (List.append_nil t).symm, .ret a⟩, h⟩
  | cut => intro t _; trivial
  | call s c next ih =>
      rintro t ⟨hok, hnext⟩
      refine ⟨hok, fun r => (ih r (hnext r)).mono ?_⟩
      rintro a t' ⟨⟨u, rfl, hruns⟩, hQ⟩
      exact ⟨⟨⟨s, c, r⟩ :: u, by simp, .call hruns⟩, hQ⟩

/-- What is known of every call is known of every new event. -/
theorem Meets.and_only {P : C → Prop} {p : Prog σ C R α} {Q : α → List (Event σ C R) → Prop} :
    ∀ {t : List (Event σ C R)}, p.Meets ok t Q →
      p.Meets (fun _ _ c => P c) t (fun _ _ => True) →
      p.Meets ok t fun a t' => (∀ e ∈ t', e ∈ t ∨ P e.call) ∧ Q a t' := by
  induction p with
  | ret a => intro t h _; exact ⟨fun e he => .inl he, h⟩
  | cut => intro t _ _; trivial
  | call s c next ih =>
      rintro t ⟨hok, hnext⟩ ⟨hP, honly⟩
      refine ⟨hok, fun r => (ih r (hnext r) (honly r)).mono ?_⟩
      rintro a t' ⟨hnew, hQ⟩
      refine ⟨fun e he => ?_, hQ⟩
      rcases hnew e he with hmem | hnew
      · rcases List.mem_append.mp hmem with hmem | hmem
        · exact .inl hmem
        · rw [List.mem_singleton] at hmem
          subst hmem
          exact .inr hP
      · exact .inr hnew

/-- Every call of a trace was allowed at its place. -/
def Follows (ok : List (Event σ C R) → σ → C → Prop) (t : List (Event σ C R)) : Prop :=
  ∀ t₁ e t₂, t = t₁ ++ e :: t₂ → ok t₁ e.state e.call

theorem follows_concat {t : List (Event σ C R)} {e : Event σ C R} :
    Follows ok (t ++ [e]) ↔ Follows ok t ∧ ok t e.state e.call := by
  constructor
  · intro h
    refine ⟨fun t₁ e' t₂ ht => h t₁ e' (t₂ ++ [e]) ?_, h t e [] rfl⟩
    rw [ht, List.append_assoc, List.cons_append]
  · rintro ⟨h, he⟩ t₁ e' t₂ ht
    rcases List.eq_nil_or_concat t₂ with rfl | ⟨t₃, e₃, rfl⟩
    · obtain ⟨rfl, hlast⟩ := List.append_inj' ht rfl
      cases hlast
      exact he
    · rw [List.concat_eq_append, ← List.cons_append, ← List.append_assoc] at ht
      obtain ⟨rfl, -⟩ := List.append_inj' ht rfl
      exact h t₁ e' t₃ rfl

/-- What holds at first and is kept by every call that is allowed. -/
theorem Follows.invariant {T : List (Event σ C R) → Prop} {t : List (Event σ C R)}
    (h : Follows ok t) (hnil : T [])
    (hstep : ∀ t e, Follows ok t → T t → ok t e.state e.call → T (t ++ [e])) : T t := by
  induction t using List.reverseRecOn with
  | nil => exact hnil
  | append_singleton t e ih =>
      obtain ⟨hbefore, he⟩ := follows_concat.mp h
      exact hstep t e hbefore (ih hbefore) he

theorem Meets.follows {p : Prog σ C R α} {Q : α → List (Event σ C R) → Prop}
    {u : List (Event σ C R)} (h : p.Meets ok [] Q) (hvisits : p.Visits u) : Follows ok u :=
  fun u₁ e u₂ hu => h.ok_of_visits hvisits u₁ e u₂ hu

end Prog

/-! ## Procedures of an object -/

/-- A procedure: it reads and writes the object state `σ`, calls the
environment, and returns a value or throws.  The state survives a throw. -/
def Proc (σ ε C : Type u) (R : C → Type u) (α : Type u) : Type u :=
  σ → Prog σ C R (Except ε α × σ)

namespace Proc

instance : Monad (Proc σ ε C R) where
  pure a := fun s => .ret (.ok a, s)
  bind m f := fun s => (m s).bind fun x =>
    match x with
    | (.ok a, s') => f a s'
    | (.error e, s') => .ret (.error e, s')

/-- Read the object. -/
def get : Proc σ ε C R σ := fun s => .ret (.ok s, s)

/-- Update the object. -/
def modify (f : σ → σ) : Proc σ ε C R PUnit := fun s => .ret (.ok ⟨⟩, f s)

/-- Throw an exception. -/
def throw (e : ε) : Proc σ ε C R α := fun s => .ret (.error e, s)

/-- Run the handler on what the body throws. -/
def tryCatch (m : Proc σ ε C R α) (handler : ε → Proc σ ε C R α) : Proc σ ε C R α := fun s =>
  (m s).bind fun x =>
    match x with
    | (.ok a, s') => .ret (.ok a, s')
    | (.error e, s') => handler e s'

/-- Call the environment. -/
def ask (c : C) : Proc σ ε C R (R c) := fun s => .call s c fun r => .ret (.ok r, s)

/-- Give up: the loop has used its iterations. -/
def cut : Proc σ ε C R α := fun _ => .cut

theorem runs_bind {m : Proc σ ε C R α} {f : α → Proc σ ε C R β} {s s' : σ}
    {t u : List (Event σ C R)} {a : α} {x : Except ε β × σ} (hm : (m s).Runs t (.ok a, s'))
    (hf : (f a s').Runs u x) : ((m >>= f) s).Runs (t ++ u) x :=
  Prog.Runs.bind hm hf

theorem visits_bind {m : Proc σ ε C R α} {f : α → Proc σ ε C R β} {s s' : σ}
    {t u : List (Event σ C R)} {a : α} (hm : (m s).Runs t (.ok a, s')) (hf : (f a s').Visits u) :
    ((m >>= f) s).Visits (t ++ u) :=
  Prog.Runs.bind_visits hm hf

/-- Every call is allowed by `ok` and every outcome satisfies `Q`. -/
def Meets (ok : List (Event σ C R) → σ → C → Prop) (m : Proc σ ε C R α) (s : σ)
    (t : List (Event σ C R)) (Q : Except ε α → σ → List (Event σ C R) → Prop) : Prop :=
  (m s).Meets ok t fun x t' => Q x.1 x.2 t'

variable {ok : List (Event σ C R) → σ → C → Prop} {s : σ} {t : List (Event σ C R)}

/-- Weaken the postcondition, knowing that the trace has only grown. -/
theorem Meets.mono {m : Proc σ ε C R α} {Q Q' : Except ε α → σ → List (Event σ C R) → Prop}
    (h : m.Meets ok s t Q) (hQ : ∀ x s' t', t <+: t' → Q x s' t' → Q' x s' t') :
    m.Meets ok s t Q' :=
  Prog.Meets.mono (fun _ _ hx => hQ _ _ _ hx.1 hx.2) (Prog.Meets.and_extends h)

@[simp] theorem meets_pure {a : α} {Q : Except ε α → σ → List (Event σ C R) → Prop} :
    (pure a : Proc σ ε C R α).Meets ok s t Q ↔ Q (.ok a) s t := Iff.rfl

@[simp] theorem meets_get {Q : Except ε σ → σ → List (Event σ C R) → Prop} :
    (get : Proc σ ε C R σ).Meets ok s t Q ↔ Q (.ok s) s t := Iff.rfl

@[simp] theorem meets_modify {f : σ → σ} {Q : Except ε PUnit → σ → List (Event σ C R) → Prop} :
    (modify f : Proc σ ε C R PUnit).Meets ok s t Q ↔ Q (.ok ⟨⟩) (f s) t := Iff.rfl

@[simp] theorem meets_throw {e : ε} {Q : Except ε α → σ → List (Event σ C R) → Prop} :
    (throw e : Proc σ ε C R α).Meets ok s t Q ↔ Q (.error e) s t := Iff.rfl

@[simp] theorem meets_cut {Q : Except ε α → σ → List (Event σ C R) → Prop} :
    (cut : Proc σ ε C R α).Meets ok s t Q ↔ True := Iff.rfl

@[simp] theorem meets_ask {c : C} {Q : Except ε (R c) → σ → List (Event σ C R) → Prop} :
    (ask c : Proc σ ε C R (R c)).Meets ok s t Q ↔
      ok t s c ∧ ∀ r, Q (.ok r) s (t ++ [⟨s, c, r⟩]) := Iff.rfl

@[simp] theorem meets_bind {m : Proc σ ε C R α} {f : α → Proc σ ε C R β}
    {Q : Except ε β → σ → List (Event σ C R) → Prop} :
    (m >>= f).Meets ok s t Q ↔ m.Meets ok s t fun x s' t' =>
      match x with
      | .ok a => (f a).Meets ok s' t' Q
      | .error e => Q (.error e) s' t' := by
  unfold Meets
  refine Prog.meets_bind.trans (Iff.of_eq (congrArg _ ?_))
  funext x t'
  obtain ⟨x | x, s'⟩ := x <;> rfl

@[simp] theorem meets_tryCatch {m : Proc σ ε C R α} {handler : ε → Proc σ ε C R α}
    {Q : Except ε α → σ → List (Event σ C R) → Prop} :
    (tryCatch m handler).Meets ok s t Q ↔ m.Meets ok s t fun x s' t' =>
      match x with
      | .ok a => Q (.ok a) s' t'
      | .error e => (handler e).Meets ok s' t' Q := by
  unfold Meets
  refine Prog.meets_bind.trans (Iff.of_eq (congrArg _ ?_))
  funext x t'
  obtain ⟨x | x, s'⟩ := x <;> rfl

/-! ## What a procedure calls at all -/

/-- Every call of the procedure satisfies `P`. -/
def Only (P : C → Prop) (m : Proc σ ε C R α) : Prop :=
  ∀ s t, m.Meets (fun _ _ c => P c) s t fun _ _ _ => True

theorem Meets.and_only {P : C → Prop} {m : Proc σ ε C R α}
    {Q : Except ε α → σ → List (Event σ C R) → Prop} (h : m.Meets ok s t Q) (hm : m.Only P) :
    m.Meets ok s t fun x s' t' => (∀ e ∈ t', e ∈ t ∨ P e.call) ∧ Q x s' t' :=
  Prog.Meets.and_only h (hm s t)

theorem Only.mono {P P' : C → Prop} {m : Proc σ ε C R α} (hm : m.Only P)
    (hP : ∀ c, P c → P' c) : m.Only P' :=
  fun s t => Prog.Meets.mono_ok (fun _ _ c => hP c) (hm s t)

section Only

variable {P : C → Prop}

theorem only_pure (a : α) : (pure a : Proc σ ε C R α).Only P := fun _ _ => trivial

theorem only_get : (get : Proc σ ε C R σ).Only P := fun _ _ => trivial

theorem only_modify (f : σ → σ) : (modify f : Proc σ ε C R PUnit).Only P := fun _ _ => trivial

theorem only_throw (e : ε) : (throw e : Proc σ ε C R α).Only P := fun _ _ => trivial

theorem only_cut : (cut : Proc σ ε C R α).Only P := fun _ _ => trivial

theorem only_ask {c : C} (hc : P c) : (ask c : Proc σ ε C R (R c)).Only P :=
  fun _ _ => ⟨hc, fun _ => trivial⟩

theorem Only.bind {m : Proc σ ε C R α} {f : α → Proc σ ε C R β} (hm : m.Only P)
    (hf : ∀ a, (f a).Only P) : (m >>= f).Only P := by
  intro s t
  rw [meets_bind]
  refine (hm s t).mono ?_
  rintro x s' t' - -
  cases x with
  | ok a => exact hf a s' t'
  | error e => trivial

theorem Only.tryCatch {m : Proc σ ε C R α} {handler : ε → Proc σ ε C R α} (hm : m.Only P)
    (hhandler : ∀ e, (handler e).Only P) : (Proc.tryCatch m handler).Only P := by
  intro s t
  rw [meets_tryCatch]
  refine (hm s t).mono ?_
  rintro x s' t' - -
  cases x with
  | ok a => trivial
  | error e => exact hhandler e s' t'

end Only

end Proc
end Interaction
