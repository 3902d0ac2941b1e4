import SharingProbe.HalAio.Pieces
import SharingProbe.Library.Hoare

/-!
# What the two engines do to the world

A property of the world that knows which bytes of the buffer have been moved is
*carried* if opening, closing, a transfer under way and a complete transfer of a
piece do to it what they should.  Whatever is carried holds at every moment of a
`Transfer`, by either engine, and when `Transfer` returns all bytes have been moved.

`Worlds` and `Watched` bring the world into the triples: the calls so far can have led
to many worlds, and the property holds in each of them.
-/

namespace SharingProbe.HalAio

open Interaction Evolution Storage

/-- A world, and the bytes that have been moved so far. -/
abbrev LoggedDisk := Disk × Set Triple

/-- What holds in every world that the calls so far can have led to. -/
def Worlds (w₀ : Disk) (I : Process → LoggedDisk → Prop) (p : Process)
    (t : List HAEvent) : Prop :=
  ∀ x, Along Logged (w₀, ∅) (instants t) x → I p x

/-- `C` holds from the beginning to the end of a call.  It may depend on the call. -/
def Watched (w₀ : Disk) (C : Call → Disk → Prop) (t : List HAEvent) (p : Process)
    (c : Call) : Prop :=
  ∀ r ms, ms <+: instantsOf ⟨p, c, r⟩ →
    ∀ x, Along Logged (w₀, ∅) (instants t ++ ms) x → C c x.1

/-- A call that is one instant. -/
def Call.direct : Call → Bool
  | aioPhase _ _ _ _ => false
  | _ => true

/-- The calls of `Transfer`. -/
def Call.throughOs : Call → Bool
  | os _ | aioPhase _ _ _ _ => true
  | _ => false

theorem instantsOf_direct {p : Process} {c : Call} (hc : c.direct = true) (r : c.Reply) :
    instantsOf ⟨p, c, r⟩ = [.call ⟨p, c, r⟩] := by
  cases c with
  | aioPhase opt paths buffer dump => cases hc
  | _ => rfl

theorem moved_of_none {w : Disk} {m : Instant} (hm : m.completes = none) :
    moved w m = ∅ := by
  unfold moved
  rw [hm]
  simp

theorem moved_of_some {w : Disk} {m : Instant} {x : Transfer}
    (hm : m.completes = some x) : moved w m = movedBy w x := by
  unfold moved
  rw [hm]
  simp

section Calls

variable {w₀ : Disk} {C : Call → Disk → Prop} {I L : Process → LoggedDisk → Prop}

theorem Worlds.mono {p p' : Process} {t : List HAEvent} (h : Worlds w₀ I p t)
    (hI : ∀ x, I p x → L p' x) : Worlds w₀ L p' t :=
  fun x hx => hI x (h x hx)

theorem worlds_modify {f : Process → Process} {E : Process → List HAEvent → Prop}
    (hf : ∀ p x, I p x → L (f p) x) :
    (Proc.modify f : HA PUnit).Triple (Watched w₀ C) (Worlds w₀ I)
      (fun _ => Worlds w₀ L) E :=
  Proc.triple_modify fun p _ h => h.mono (hf p)

/-- A call of the environment. -/
theorem worlds_ask {c : Call} {J : c.Reply → Process → LoggedDisk → Prop}
    {E : Process → List HAEvent → Prop} (hc : c.direct = true) (hI : ∀ p x, I p x → C c x.1)
    (hJ : ∀ r p x, J r p x → C c x.1)
    (hcall : ∀ p r x y, I p x → Logged x (.call ⟨p, c, r⟩) y → J r p y) :
    (Proc.ask (R := Call.Reply) c : HA c.Reply).Triple (Watched w₀ C) (Worlds w₀ I)
      (fun r => Worlds w₀ (J r)) E := by
  have hnext : ∀ p t r, Worlds w₀ I p t →
      Worlds w₀ (J r) p (t ++ [⟨p, c, r⟩]) := by
    intro p t r h y hy
    rw [instants_concat, instantsOf_direct hc, along_concat] at hy
    obtain ⟨x, hx, hlogged⟩ := hy
    exact hcall p r x y (h x hx) hlogged
  refine Proc.triple_ask ?_ hnext
  intro p t h r ms hms x hx
  rw [instantsOf_direct hc] at hms
  rcases List.prefix_cons_iff.mp hms with rfl | ⟨ms, rfl, hnil⟩
  · rw [List.append_nil] at hx
    exact hI p x (h x hx)
  · rw [List.prefix_nil.mp hnil] at hx
    have hnow := hnext p t r h
    rw [Worlds, instants_concat, instantsOf_direct hc] at hnow
    exact hJ r p x (hnow x hx)

/-- A call through `OS`, which throws if it reports a failure. -/
theorem worlds_os {c : OsCall} {J : ℤ × ℤ → Process → LoggedDisk → Prop}
    {E : Process → LoggedDisk → Prop} (hI : ∀ p x, I p x → C (.os c) x.1)
    (hJ : ∀ r p x, J r p x → C (.os c) x.1) (hE : ∀ p x, E p x → C (.os c) x.1)
    (hcall : ∀ p r x y, I p x → Logged x (.call ⟨p, .os c, r⟩) y →
      (0 ≤ r.1 → J r p y) ∧ (r.1 < 0 → E p y)) :
    (os c).Triple (Watched w₀ C) (Worlds w₀ I) (fun r => Worlds w₀ (J r))
      (Worlds w₀ E) := by
  let After (r : ℤ × ℤ) (p : Process) (x : LoggedDisk) : Prop :=
    (0 ≤ r.1 → J r p x) ∧ (r.1 < 0 → E p x)
  have hasked : (Proc.ask (R := Call.Reply) (.os c) : HA (ℤ × ℤ)).Triple (Watched w₀ C)
      (Worlds w₀ I) (fun r => Worlds w₀ (After r)) (Worlds w₀ E) := by
    refine worlds_ask rfl hI ?_ hcall
    intro r p x hafter
    by_cases hr : 0 ≤ r.1
    · exact hJ r p x (hafter.1 hr)
    · exact hE p x (hafter.2 (by omega))
  apply Proc.Triple.bind hasked
  intro r
  by_cases hr : r.1 < 0
  · rw [if_pos hr]
    exact Proc.triple_throw fun p t h => h.mono fun x hafter => hafter.2 hr
  · rw [if_neg hr]
    exact Proc.triple_pure fun p t h => h.mono fun x hafter => hafter.1 (by omega)

end Calls

/-! ## What is carried -/

/-- The property `I D` of the world, where the bytes in `D` have been moved, follows the
steps of a transfer of the buffer. -/
structure Carries (L : Layout String) (buffer : Ptr) (dump : Bool)
    (I : Set ℕ → LoggedDisk → Prop) : Prop where
  opens : ∀ {D w log b d w'}, I D (w, log) → b < L.files → w.Opens dump (L.name b) d w' →
    I D (w', log)
  openFails : ∀ {D w log b w'}, I D (w, log) → b < L.files → w.OpenFails dump (L.name b) w' →
    I D (w', log)
  closes : ∀ {D w log} d, I D (w, log) → I D (w.close d, log)
  begun : ∀ {D w log t start x w'}, I D (w, log) → L.Aims buffer t start → t.toFile = dump →
    w.desc t.desc = w.entry (L.name (start / L.length)) → (∀ o ∈ D, ¬Layout.Covers t start o) →
    t.Begun x w w' → I D (w', log)
  done : ∀ {D w log t start w'}, I D (w, log) → L.Aims buffer t start → t.toFile = dump →
    w.desc t.desc = w.entry (L.name (start / L.length)) → t.Done w w' →
    I (D ∪ {o | Layout.Covers t start o}) (w', log ∪ movedBy w t)

/-- The property holds, wherever an exception has left it. -/
def Somewhere (I : Set ℕ → LoggedDisk → Prop) (x : LoggedDisk) : Prop := ∃ D, I D x

/-- What a transfer that was cut short leaves is carried as well. -/
theorem Carries.effect {L : Layout String} {buffer : Ptr} {dump : Bool}
    {I : Set ℕ → LoggedDisk → Prop} (hcarries : Carries L buffer dump I) {D : Set ℕ} {w w' : Disk}
    {log : Set Triple} {t : Transfer} {start : ℕ} {reply : ℤ} (hI : I D (w, log))
    (haims : L.Aims buffer t start) (hfile : t.toFile = dump)
    (hdesc : w.desc t.desc = w.entry (L.name (start / L.length)))
    (hnew : ∀ o ∈ D, ¬Layout.Covers t start o) (heffect : transferEffect t reply w w') :
    (reply = t.bytes →
      I (D ∪ {o | Layout.Covers t start o}) (w', log ∪ movedBy w t)) ∧
      (reply ≠ t.bytes → I D (w', log)) := by
  unfold transferEffect at heffect
  by_cases hfull : reply = t.bytes
  · rw [if_pos hfull] at heffect
    exact ⟨fun _ => hcarries.done hI haims hfile hdesc heffect, fun hnot => absurd hfull hnot⟩
  · rw [if_neg hfull] at heffect
    refine ⟨fun h => absurd h hfull, fun _ => ?_⟩
    rcases heffect with rfl | ⟨x, hbegun⟩
    · exact hI
    · exact hcarries.begun hI haims hfile hdesc hnew hbegun

end SharingProbe.HalAio
