import SharingProbe.Library.Network

/-!
# Two parties that take turns

Two parties talk over two channels, each named after its sender.  The first party has
the turn at first, every message passes it on, and a party sends only when it has the
turn.  Then at most one message is under way, and nobody has the turn meanwhile
(`turn`).
-/

namespace Network

open Interaction Transition

/-- The two parties. -/
inductive Party where
  | first
  | second
  deriving DecidableEq, Repr

namespace Party

def other : Party → Party
  | first => second
  | second => first

@[simp] theorem other_other (x : Party) : x.other.other = x := by
  cases x <;> rfl

@[simp] theorem other_ne (x : Party) : x.other ≠ x := by
  cases x <;> decide

theorem eq_or_eq_other (x y : Party) : y = x ∨ y = x.other := by
  cases x <;> cases y <;> simp [other]

theorem forall_iff {P : Party → Prop} (x : Party) : (∀ y, P y) ↔ P x ∧ P x.other := by
  constructor
  · exact fun h => ⟨h x, h x.other⟩
  · rintro ⟨hx, hother⟩ y
    rcases eq_or_eq_other x y with rfl | rfl
    · exact hx
    · exact hother

/-- How many messages the first party may be ahead. -/
def lead : Party → ℕ
  | first => 1
  | second => 0

/-- The party may go on: it has sent `sent` messages and received `received`. -/
def HasTurn (x : Party) (sent received : ℕ) : Prop := received + x.lead = sent + 1

/-- The party waits for a message. -/
def Waits (x : Party) (sent received : ℕ) : Prop := received + x.lead = sent

instance (x : Party) (sent received : ℕ) : Decidable (x.HasTurn sent received) :=
  inferInstanceAs (Decidable (_ = _))

instance (x : Party) (sent received : ℕ) : Decidable (x.Waits sent received) :=
  inferInstanceAs (Decidable (_ = _))

theorem HasTurn.not_waits {x : Party} {sent received : ℕ} (h : x.HasTurn sent received) :
    ¬x.Waits sent received := by
  unfold HasTurn at h
  unfold Waits
  omega

theorem HasTurn.send {x : Party} {sent received : ℕ} (h : x.HasTurn sent received) :
    x.Waits (sent + 1) received := h

theorem Waits.receive {x : Party} {sent received : ℕ} (h : x.Waits sent received) :
    x.HasTurn sent (received + 1) := by
  unfold Waits at h
  unfold HasTurn
  omega

end Party

/-! ## Where the turn is -/

section Counts

variable {M : Type*}

/-- One party has the turn, or the only message is under way and both wait.  The counts
are those of the messages that each party has sent and received. -/
inductive TurnState (sent received : Party → ℕ) (queue : Party → List M) : Prop
  | held (x : Party) (hturn : x.HasTurn (sent x) (received x))
      (hother : x.other.Waits (sent x.other) (received x.other)) (hqueue : ∀ ch, queue ch = [])
  | passing (x : Party) (m : M) (hwaits : ∀ y, Party.Waits y (sent y) (received y))
      (hqueue : queue x = [m]) (hother : queue x.other = [])

variable {sent received : Party → ℕ} {queue : Party → List M}

/-- Where one party has the turn, the other one waits, and nothing is under way. -/
theorem TurnState.exclusive (h : TurnState sent received queue) {x : Party}
    (hx : x.HasTurn (sent x) (received x)) :
    x.other.Waits (sent x.other) (received x.other) ∧ ∀ ch, queue ch = [] := by
  cases h with
  | held y hturn hother hqueue =>
      rcases Party.eq_or_eq_other y x with rfl | rfl
      · exact ⟨hother, hqueue⟩
      · exact absurd hother hx.not_waits
  | passing y m hwaits hqueue hother => exact absurd (hwaits x) hx.not_waits

/-- The two do not have the turn at the same time. -/
theorem TurnState.not_both (h : TurnState sent received queue) {x : Party}
    (hx : x.HasTurn (sent x) (received x)) : ¬x.other.HasTurn (sent x.other) (received x.other) :=
  fun hother => hother.not_waits (h.exclusive hx).1

/-- Where a message is, it is the only one, and nobody has the turn. -/
theorem TurnState.of_message (h : TurnState sent received queue) {x : Party} {m : M}
    {rest : List M} (hqueue : queue x = m :: rest) :
    rest = [] ∧ queue x.other = [] ∧ ∀ y, Party.Waits y (sent y) (received y) := by
  cases h with
  | held y hturn hother hempty =>
      rw [hempty x] at hqueue
      cases hqueue
  | passing y m' hwaits hfull hempty =>
      rcases Party.eq_or_eq_other y x with rfl | rfl
      · rw [hfull] at hqueue
        obtain ⟨-, hrest⟩ := List.cons.inj hqueue
        exact ⟨hrest.symm, hempty, hwaits⟩
      · rw [hempty] at hqueue
        cases hqueue

/-- The party that has the turn passes it on. -/
theorem TurnState.send (h : TurnState sent received queue) {x : Party} (m : M)
    (hx : x.HasTurn (sent x) (received x)) :
    TurnState (Function.update sent x (sent x + 1)) received
      (Function.update queue x (queue x ++ [m])) := by
  obtain ⟨hother, hqueue⟩ := h.exclusive hx
  refine .passing x m ((Party.forall_iff x).mpr ⟨?_, ?_⟩) ?_ ?_
  · rw [Function.update_self]
    exact hx.send
  · rwa [Function.update_of_ne x.other_ne]
  · rw [Function.update_self, hqueue, List.nil_append]
  · rw [Function.update_of_ne x.other_ne, hqueue]

/-- The party for which the message is gets the turn. -/
theorem TurnState.receive (h : TurnState sent received queue) {x : Party} {m : M}
    (hhead : (queue x).head? = some m) :
    TurnState sent (Function.update received x.other (received x.other + 1))
      (Function.update queue x (queue x).tail) := by
  obtain ⟨rest, hrest⟩ := List.head?_eq_some_iff.mp hhead
  obtain ⟨rfl, hempty, hwaits⟩ := h.of_message hrest
  refine .held x.other ?_ ?_ ((Party.forall_iff x).mpr ⟨?_, ?_⟩)
  · rw [Function.update_self]
    exact (hwaits x.other).receive
  · rw [Party.other_other, Function.update_of_ne (Ne.symm x.other_ne)]
    exact hwaits x
  · rw [Function.update_self, hrest, List.tail_cons]
  · rw [Function.update_of_ne x.other_ne, hempty]

end Counts

/-! ## Networks of two -/

universe u

section Duplex

variable {σ C α : Type u} {R : C → Type u} {M W E : Type*}

/-- A party sends over the channel that is named after it, to the other one. -/
structure Duplex (N : Net Party σ C R α Party M W E) : Prop where
  sender : ∀ x, N.sender x = x
  receiver : ∀ x, N.receiver x = x.other

/-- How many messages the party has sent. -/
def Net.sentCount (N : Net Party σ C R α Party M W E) (x : Party) (t : List (Event σ C R)) : ℕ :=
  (N.sent x x t).length

/-- How many messages the party has received. -/
def Net.receivedCount (N : Net Party σ C R α Party M W E) (x : Party)
    (t : List (Event σ C R)) : ℕ :=
  (N.received x x.other t).length

variable {N : Net Party σ C R α Party M W E} {s s' : State Party σ C R α Party M W} {x : Party}
  {e : Event σ C R}

/-- Where the turn is, in a state of the network. -/
abbrev Net.Turn (N : Net Party σ C R α Party M W E) (s : State Party σ C R α Party M W) : Prop :=
  TurnState (fun x => N.sentCount x (s.trace x)) (fun x => N.receivedCount x (s.trace x)) s.queue

variable [DecidableEq M]

theorem Called.sentCount (h : Called N s x e s') :
    (fun y => N.sentCount y (s'.trace y)) = Function.update (fun y => N.sentCount y (s.trace y)) x
      (N.sentCount x (s.trace x) + ((N.comm x e.call e.reply).sends x).toList.length) := by
  funext y
  rw [h.trace]
  rcases Party.eq_or_eq_other x y with rfl | rfl
  · simp [Net.sentCount, Net.sent]
  · simp [Net.sentCount]

theorem Called.receivedCount (h : Called N s x e s') :
    (fun y => N.receivedCount y (s'.trace y)) =
      Function.update (fun y => N.receivedCount y (s.trace y)) x
        (N.receivedCount x (s.trace x) +
          ((N.comm x e.call e.reply).receives x.other).toList.length) := by
  funext y
  rw [h.trace]
  rcases Party.eq_or_eq_other x y with rfl | rfl
  · simp [Net.receivedCount, Net.received]
  · simp [Net.receivedCount]

/-- One call, by what it does to the channels. -/
theorem Called.turn (h : Called N s x e s') (hduplex : Duplex N) (hturn : N.Turn s)
    (hsends : ∀ ch m, N.comm x e.call e.reply = .send ch m →
      x.HasTurn (N.sentCount x (s.trace x)) (N.receivedCount x (s.trace x))) : N.Turn s' := by
  have hpass := h.queue
  unfold Net.Turn
  rw [h.sentCount, h.receivedCount]
  cases hcomm : N.comm x e.call e.reply with
  | none =>
      rw [hcomm] at hpass
      rw [← Option.some.inj hpass]
      simpa [Comm.sends, Comm.receives] using hturn
  | send ch m =>
      obtain rfl : x = ch := (N.sends_only hcomm).trans (hduplex.sender ch)
      rw [hcomm] at hpass
      rw [← Option.some.inj hpass]
      simpa [Comm.sends, Comm.receives] using hturn.send m (hsends x m hcomm)
  | receive ch m =>
      obtain rfl : x = ch.other := (N.receives_only hcomm).trans (hduplex.receiver ch)
      rw [hcomm] at hpass
      obtain ⟨hhead, hqueue⟩ := Option.ite_none_right_eq_some.mp hpass
      rw [← Option.some.inj hqueue]
      simpa [Comm.sends, Comm.receives] using hturn.receive hhead

omit [DecidableEq M] in
theorem Disturbed.turn {d : E} (h : Disturbed N s d s') (hturn : N.Turn s) : N.Turn s' := by
  unfold Net.Turn
  rw [h.trace, h.queue]
  exact hturn

/-- If every party sends only when it has the turn, then there is one turn. -/
theorem turn (hreachable : Reachable N.system s) (hduplex : Duplex N)
    (hsends : ∀ s x e s', Reachable N.system s → Called N s x e s' →
      ∀ ch m, N.comm x e.call e.reply = .send ch m →
        x.HasTurn (N.sentCount x (s.trace x)) (N.receivedCount x (s.trace x))) : N.Turn s := by
  refine invariant hreachable N.Turn ?_ ?_ ?_
  · exact .held .first rfl rfl fun _ => rfl
  · exact fun s x e s' hreachable hturn hcalled =>
      hcalled.turn hduplex hturn (hsends s x e s' hreachable hcalled)
  · exact fun s d s' _ hturn hdisturbed => hdisturbed.turn hturn

end Duplex
end Network
