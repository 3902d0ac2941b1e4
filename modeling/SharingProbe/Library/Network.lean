import Mathlib.Logic.Function.Basic
import SharingProbe.Library.Hoare
import SharingProbe.Library.Transition

/-!
# Parties that run programs over FIFO channels

Several parties each run a program.  A step of the network is one call of one party:
it may put a message into a channel or take the first message out of one, and it
changes a world that all parties share.  Between the calls the world may be disturbed.

`State.trace` keeps the calls of every party.  What `Prog.Meets` says of a program
alone holds of the party that runs it, in every interleaving (`Reachable.meets`).  A
channel has one sender and one receiver, and what has been received is what was sent
first (`fifo`).
-/

namespace Network

open Interaction Transition

universe u

/-! ## Programs under way -/

section Reaches

variable {σ C α : Type u} {R : C → Type u}

/-- The program makes these calls, gets these replies and goes on as another program. -/
inductive Reaches (p : Prog σ C R α) : List (Event σ C R) → Prog σ C R α → Prop
  | nil : Reaches p [] p
  | snoc {t : List (Event σ C R)} {e : Event σ C R} {next : R e.call → Prog σ C R α}
      (hbefore : Reaches p t (.call e.state e.call next)) : Reaches p (t ++ [e]) (next e.reply)

theorem Reaches.meets {ok : List (Event σ C R) → σ → C → Prop} {p p' : Prog σ C R α}
    {Q : α → List (Event σ C R) → Prop} {t : List (Event σ C R)} (h : Reaches p t p')
    (hp : p.Meets ok [] Q) : p'.Meets ok t Q := by
  induction h with
  | nil => exact hp
  | snoc _ ih => exact ih.2 _

/-- A program that has returned has run. -/
theorem Reaches.runs {p : Prog σ C R α} {t : List (Event σ C R)} {a : α}
    (h : Reaches p t (.ret a)) :
    p.Runs t a := by
  have hrest : ∀ t p', Reaches p t p' → ∀ u, p'.Runs u a → p.Runs (t ++ u) a := by
    intro t p' hreaches
    induction hreaches with
    | nil => exact fun u hu => hu
    | @snoc t e next _ ih =>
        intro u hu
        rw [List.append_assoc, List.singleton_append]
        exact ih (e :: u) (.call hu)
  rw [← List.append_nil t]
  exact hrest t _ h [] (.ret a)

/-- A program that is under way has made its calls. -/
theorem Reaches.visits {p p' : Prog σ C R α} {t : List (Event σ C R)} (h : Reaches p t p') :
    p.Visits t := by
  have hrest : ∀ u, p'.Visits u → p.Visits (t ++ u) := by
    induction h with
    | nil => exact fun u hu => hu
    | @snoc t e next _ ih =>
        intro u hu
        rw [List.append_assoc, List.singleton_append]
        exact ih (e :: u) (.call hu)
  rw [← List.append_nil t]
  exact hrest [] (.nil _)

/-- A program that never gives up. -/
inductive Whole : Prog σ C R α → Prop
  | ret (a : α) : Whole (.ret a)
  | call {s : σ} {c : C} {next : R c → Prog σ C R α} (hnext : ∀ r, Whole (next r)) :
      Whole (.call s c next)

theorem Whole.bind {β : Type u} {p : Prog σ C R α} {f : α → Prog σ C R β} (hp : Whole p)
    (hf : ∀ a, Whole (f a)) : Whole (p.bind f) := by
  induction hp with
  | ret a => exact hf a
  | call _ ih => exact .call ih

theorem Reaches.whole {p p' : Prog σ C R α} {t : List (Event σ C R)} (h : Reaches p t p')
    (hp : Whole p) : Whole p' := by
  induction h with
  | nil => exact hp
  | snoc _ ih =>
      cases ih with
      | call hnext => exact hnext _

end Reaches

/-! ## Networks -/

/-- What a call does to the channels. -/
inductive Comm (Ch M : Type*) where
  | none
  | send (ch : Ch) (m : M)
  | receive (ch : Ch) (m : M)

section Comm

variable {Ch M : Type*} [DecidableEq Ch] [DecidableEq M]

/-- A message is put in at the end and taken out at the front. -/
def Comm.pass (queue : Ch → List M) : Comm Ch M → Option (Ch → List M)
  | none => some queue
  | send ch m => some (Function.update queue ch (queue ch ++ [m]))
  | receive ch m =>
      if (queue ch).head? = some m then some (Function.update queue ch (queue ch).tail)
      else Option.none

/-- The message that is put into a channel. -/
def Comm.sends (ch : Ch) : Comm Ch M → Option M
  | send ch' m => if ch' = ch then some m else Option.none
  | _ => Option.none

/-- The message that is taken out of a channel. -/
def Comm.receives (ch : Ch) : Comm Ch M → Option M
  | receive ch' m => if ch' = ch then some m else Option.none
  | _ => Option.none

/-- What goes in is what comes out and what stays. -/
theorem Comm.pass_balance {queue queue' : Ch → List M} {comm : Comm Ch M}
    (h : comm.pass queue = some queue') (ch : Ch) :
    queue ch ++ (comm.sends ch).toList = (comm.receives ch).toList ++ queue' ch := by
  cases comm with
  | none =>
      cases h
      simp [sends, receives]
  | send ch' m =>
      cases h
      by_cases hch : ch' = ch
      · subst hch
        simp [sends, receives]
      · simp [sends, receives, hch, Function.update_of_ne (Ne.symm hch)]
  | receive ch' m =>
      obtain ⟨hhead, hqueue⟩ := Option.ite_none_right_eq_some.mp h
      rw [Option.some.injEq] at hqueue
      subst hqueue
      by_cases hch : ch' = ch
      · subst hch
        obtain ⟨rest, hrest⟩ := List.head?_eq_some_iff.mp hhead
        simp [sends, receives, hrest]
      · simp [sends, receives, hch, Function.update_of_ne (Ne.symm hch)]

end Comm

/-- The parties, the channels and the world. -/
structure State (ι : Type*) (σ C : Type u) (R : C → Type u) (α : Type u) (Ch M W : Type*) where
  rest : ι → Prog σ C R α
  trace : ι → List (Event σ C R)
  queue : Ch → List M
  world : W

/-- One call of a party, with the answers of its environment, or a disturbance. -/
inductive Action (ι : Type*) {C : Type u} (R : C → Type u) (E : Type*) where
  | call (i : ι) (answer : (c : C) → R c)
  | disturb (e : E)

/-- What the parties run, and what their calls mean.  `effect` and `disturb` return
nothing where a reply or a disturbance is impossible. -/
structure Net (ι : Type*) (σ C : Type u) (R : C → Type u) (α : Type u) (Ch M W E : Type*) where
  program : ι → Prog σ C R α
  world : W
  comm : ι → (c : C) → R c → Comm Ch M
  effect : State ι σ C R α Ch M W → ι → (c : C) → R c → Option W
  disturb : State ι σ C R α Ch M W → E → Option W
  sender : Ch → ι
  receiver : Ch → ι
  sends_only : ∀ {i c r ch m}, comm i c r = .send ch m → i = sender ch
  receives_only : ∀ {i c r ch m}, comm i c r = .receive ch m → i = receiver ch

variable {ι : Type*} {σ C α : Type u} {R : C → Type u} {Ch M W E : Type*} [DecidableEq ι]
  [DecidableEq Ch] [DecidableEq M]

/-- One step. -/
def Net.step (N : Net ι σ C R α Ch M W E) (s : State ι σ C R α Ch M W) :
    Action ι R E → Option (State ι σ C R α Ch M W)
  | .call i answer =>
      match s.rest i with
      | .call state c next =>
          ((N.comm i c (answer c)).pass s.queue).bind fun queue =>
            (N.effect s i c (answer c)).map fun world =>
              { rest := Function.update s.rest i (next (answer c))
                trace := Function.update s.trace i (s.trace i ++ [⟨state, c, answer c⟩])
                queue := queue
                world := world }
      | _ => none
  | .disturb e => (N.disturb s e).map fun world => { s with world := world }

/-- All interleavings. -/
def Net.system (N : Net ι σ C R α Ch M W E) :
    System (State ι σ C R α Ch M W) (Action ι R E) where
  init := { rest := N.program, trace := fun _ => [], queue := fun _ => [], world := N.world }
  step := N.step

variable {N : Net ι σ C R α Ch M W E} {s s' : State ι σ C R α Ch M W}

/-- What a call of party `i` does. -/
structure Called (N : Net ι σ C R α Ch M W E) (s : State ι σ C R α Ch M W) (i : ι)
    (e : Event σ C R) (s' : State ι σ C R α Ch M W) : Prop where
  rest : ∃ next, s.rest i = .call e.state e.call next ∧
    s'.rest = Function.update s.rest i (next e.reply)
  trace : s'.trace = Function.update s.trace i (s.trace i ++ [e])
  queue : (N.comm i e.call e.reply).pass s.queue = some s'.queue
  world : N.effect s i e.call e.reply = some s'.world

/-- What a disturbance does. -/
structure Disturbed (N : Net ι σ C R α Ch M W E) (s : State ι σ C R α Ch M W) (e : E)
    (s' : State ι σ C R α Ch M W) : Prop where
  rest : s'.rest = s.rest
  trace : s'.trace = s.trace
  queue : s'.queue = s.queue
  world : N.disturb s e = some s'.world

theorem called_of_step {i : ι} {answer : (c : C) → R c} (h : N.step s (.call i answer) = some s') :
    ∃ e, Called N s i e s' := by
  unfold Net.step at h
  dsimp only at h
  split at h
  · rename_i state c next hrest
    obtain ⟨queue, hqueue, hmap⟩ := Option.bind_eq_some_iff.mp h
    obtain ⟨world, hworld, rfl⟩ := Option.map_eq_some_iff.mp hmap
    exact ⟨⟨state, c, answer c⟩, ⟨next, hrest, rfl⟩, rfl, hqueue, hworld⟩
  · cases h

/-- Everything that a step can do. -/
theorem step_cases {a : Action ι R E} (h : N.step s a = some s') :
    (∃ i e, Called N s i e s') ∨ ∃ e, Disturbed N s e s' := by
  cases a with
  | call i answer => exact .inl ⟨i, called_of_step h⟩
  | disturb e =>
      obtain ⟨world, hworld, rfl⟩ := Option.map_eq_some_iff.mp h
      exact .inr ⟨e, rfl, rfl, rfl, hworld⟩

/-- A call that the channels and the world admit can be made. -/
theorem exists_step {i : ι} {state : σ} {c : C} {next : R c → Prog σ C R α}
    (hrest : s.rest i = .call state c next) (answer : (c : C) → R c) {queue : Ch → List M}
    (hqueue : (N.comm i c (answer c)).pass s.queue = some queue) {world : W}
    (hworld : N.effect s i c (answer c) = some world) :
    ∃ s', N.step s (.call i answer) = some s' := by
  unfold Net.step
  dsimp only
  rw [hrest]
  dsimp only
  rw [hqueue, Option.bind_some, hworld]
  exact ⟨_, rfl⟩

/-! ## What holds in every interleaving -/

/-- What holds at first and is kept by every call and every disturbance. -/
theorem invariant (h : Reachable N.system s) (I : State ι σ C R α Ch M W → Prop)
    (hinit : I N.system.init)
    (hcall : ∀ s i e s', Reachable N.system s → I s → Called N s i e s' → I s')
    (hdisturb : ∀ s e s', Reachable N.system s → I s → Disturbed N s e s' → I s') : I s := by
  refine h.invariant I hinit fun s a s' hreachable hI hstep => ?_
  rcases step_cases hstep with ⟨i, e, hcalled⟩ | ⟨e, hdisturbed⟩
  · exact hcall s i e s' hreachable hI hcalled
  · exact hdisturb s e s' hreachable hI hdisturbed

/-- Every party is somewhere in its program. -/
theorem reaches (h : Reachable N.system s) (i : ι) :
    Reaches (N.program i) (s.trace i) (s.rest i) := by
  refine invariant h (fun s => Reaches (N.program i) (s.trace i) (s.rest i)) .nil ?_ ?_
  · intro s j e s' _ hreaches hcalled
    obtain ⟨next, hrest, hrest'⟩ := hcalled.rest
    rw [hcalled.trace, hrest']
    by_cases hij : i = j
    · subst hij
      rw [Function.update_self, Function.update_self]
      exact .snoc (hrest ▸ hreaches)
    · rw [Function.update_of_ne hij, Function.update_of_ne hij]
      exact hreaches
  · intro s e s' _ hreaches hdisturbed
    rw [hdisturbed.trace, hdisturbed.rest]
    exact hreaches

/-- What a program meets alone it meets among the others. -/
theorem meets (h : Reachable N.system s) {i : ι} {ok : List (Event σ C R) → σ → C → Prop}
    {Q : α → List (Event σ C R) → Prop} (hp : (N.program i).Meets ok [] Q) :
    (s.rest i).Meets ok (s.trace i) Q :=
  (reaches h i).meets hp

/-- Every call of a party was allowed at its place. -/
theorem follows (h : Reachable N.system s) {i : ι} {ok : List (Event σ C R) → σ → C → Prop}
    {Q : α → List (Event σ C R) → Prop} (hp : (N.program i).Meets ok [] Q) :
    Prog.Follows ok (s.trace i) :=
  hp.follows (reaches h i).visits

/-- What a party has put into a channel. -/
def Net.sent (N : Net ι σ C R α Ch M W E) (i : ι) (ch : Ch) (t : List (Event σ C R)) : List M :=
  t.flatMap fun e => ((N.comm i e.call e.reply).sends ch).toList

/-- What a party has taken out of a channel. -/
def Net.received (N : Net ι σ C R α Ch M W E) (i : ι) (ch : Ch) (t : List (Event σ C R)) :
    List M :=
  t.flatMap fun e => ((N.comm i e.call e.reply).receives ch).toList

omit [DecidableEq ι] [DecidableEq M] in
/-- A call of another party puts nothing into the channel. -/
theorem sends_of_ne {i : ι} {ch : Ch} (hi : i ≠ N.sender ch) (c : C) (r : R c) :
    (N.comm i c r).sends ch = none := by
  cases hcomm : N.comm i c r with
  | send ch' m =>
      unfold Comm.sends
      refine if_neg fun hch => hi ?_
      subst hch
      exact N.sends_only hcomm
  | _ => rfl

omit [DecidableEq ι] [DecidableEq M] in
theorem receives_of_ne {i : ι} {ch : Ch} (hi : i ≠ N.receiver ch) (c : C) (r : R c) :
    (N.comm i c r).receives ch = none := by
  cases hcomm : N.comm i c r with
  | receive ch' m =>
      unfold Comm.receives
      refine if_neg fun hch => hi ?_
      subst hch
      exact N.receives_only hcomm
  | _ => rfl

/-- What a call adds to what has been put into a channel. -/
theorem Called.sent {i : ι} {e : Event σ C R} (h : Called N s i e s') (ch : Ch) :
    N.sent (N.sender ch) ch (s'.trace (N.sender ch)) =
      N.sent (N.sender ch) ch (s.trace (N.sender ch)) ++
        ((N.comm i e.call e.reply).sends ch).toList := by
  rw [h.trace]
  by_cases hi : i = N.sender ch
  · subst hi
    rw [Function.update_self]
    simp [Net.sent]
  · rw [Function.update_of_ne (Ne.symm hi), sends_of_ne hi]
    simp

theorem Called.received {i : ι} {e : Event σ C R} (h : Called N s i e s') (ch : Ch) :
    N.received (N.receiver ch) ch (s'.trace (N.receiver ch)) =
      N.received (N.receiver ch) ch (s.trace (N.receiver ch)) ++
        ((N.comm i e.call e.reply).receives ch).toList := by
  rw [h.trace]
  by_cases hi : i = N.receiver ch
  · subst hi
    rw [Function.update_self]
    simp [Net.received]
  · rw [Function.update_of_ne (Ne.symm hi), receives_of_ne hi]
    simp

/-- What was sent first has been received, and the rest is under way. -/
theorem fifo (h : Reachable N.system s) (ch : Ch) :
    N.sent (N.sender ch) ch (s.trace (N.sender ch)) =
      N.received (N.receiver ch) ch (s.trace (N.receiver ch)) ++ s.queue ch := by
  refine invariant h (fun s => N.sent (N.sender ch) ch (s.trace (N.sender ch)) =
    N.received (N.receiver ch) ch (s.trace (N.receiver ch)) ++ s.queue ch) rfl ?_ ?_
  · intro s i e s' _ hfifo hcalled
    rw [hcalled.sent, hcalled.received, hfifo, List.append_assoc, List.append_assoc,
      Comm.pass_balance hcalled.queue]
  · intro s e s' _ hfifo hdisturbed
    rw [hdisturbed.trace, hdisturbed.queue]
    exact hfifo

end Network
