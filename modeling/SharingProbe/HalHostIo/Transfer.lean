import SharingProbe.HalHostIo.Model
import SharingProbe.Library.Outcome
import SharingProbe.Library.Pieces

/-!
# The chunks of a transfer

A chunk is issued again as long as signals interrupt it, and counts once.  The chunks follow
each other from the start of the buffer, up to its end if all of them have been transferred as
a whole, and else up to the end of the first one that has not.
-/

namespace SharingProbe.HalHostIo

open Interaction Pieces

/-! ## Calls of a transfer -/

/-- A signal has interrupted the call. -/
def again (e : HHEvent) : Bool :=
  match e.call, e.reply with
  | .transfer _ _ _ _ _, r => Transferred.interrupted r
  | _, _ => false

/-- If the call is a transfer, then all its bytes were transferred. -/
def full (e : HHEvent) : Bool :=
  match e.call, e.reply with
  | .transfer _ _ _ bytes _, r => decide (Transferred.ret r = bytes)
  | _, _ => true

/-- The chunk that a call has dealt with. -/
def issuedBy (write : Bool) (e : HHEvent) : Option Piece :=
  match e.call, e.reply with
  | .transfer write' _ start bytes _, r =>
      if write' = write ∧ Transferred.interrupted r = false then some ⟨start, bytes⟩ else none
  | _, _ => none

/-- The chunks that were issued, interruptions apart. -/
def issued (write : Bool) (t : List HHEvent) : List Piece := t.filterMap (issuedBy write)

/-- The last `limit` calls were interrupted. -/
def GaveUp (limit : ℕ) (t : List HHEvent) : Prop :=
  ∃ t₁ t₂, t = t₁ ++ t₂ ∧ t₂.length = limit ∧ ∀ e ∈ t₂, again e = true

theorem GaveUp.append {limit : ℕ} {t : List HHEvent} (h : GaveUp limit t) (t₀ : List HHEvent) :
    GaveUp limit (t₀ ++ t) := by
  obtain ⟨t₁, t₂, rfl, hrest⟩ := h
  exact ⟨t₀ ++ t₁, t₂, (List.append_assoc ..).symm, hrest⟩

theorem issued_append (write : Bool) (t t' : List HHEvent) :
    issued write (t ++ t') = issued write t ++ issued write t' := List.filterMap_append

variable {limit : ℕ} {write : Bool} {fd size offset : ℕ}

variable (write fd size offset) in
/-- A call for the chunk at `offset`. -/
def chunkEvent (r : Transferred) : HHEvent :=
  ⟨(), .transfer write fd offset (chunkSize size offset) (offT offset), r⟩

variable (write fd size offset) in
/-- The chunk at `offset` was issued until no signal interrupted it. -/
def Attempted (t : List HHEvent) (r : Transferred) : Prop :=
  ∃ rs : List Transferred, t = rs.map (chunkEvent write fd size offset) ++
    [chunkEvent write fd size offset r] ∧
    (∀ r' ∈ rs, Transferred.interrupted r' = true) ∧ r.interrupted = false

/-- The induction is on the turns. -/
theorem stops_attempt {turns : ℕ} {t : List HHEvent} {o : Option (Except Empty Transferred × Unit)}
    (h : (attempt write fd size offset turns ()).Stops t o) :
    (∃ r, o = some (.ok r, ()) ∧ Attempted write fd size offset t r) ∨
      (o = none ∧ t.length = turns ∧ ∀ e ∈ t, again e = true) := by
  induction turns generalizing t with
  | zero =>
      obtain ⟨rfl, rfl⟩ := Proc.stops_cut h
      exact .inr ⟨rfl, rfl, nofun⟩
  | succ turns ih =>
      obtain ⟨r, u, rfl, hu⟩ := Proc.stops_ask_bind h
      by_cases hagain : Transferred.interrupted r = true
      · rw [if_pos hagain] at hu
        rcases ih hu with ⟨r', rfl, rs, rfl, hrs, hr'⟩ | ⟨rfl, hlength, hall⟩
        · refine .inl ⟨r', rfl, r :: rs, rfl, ?_, hr'⟩
          exact List.forall_mem_cons.mpr ⟨hagain, hrs⟩
        · refine .inr ⟨rfl, by rw [List.length_cons, hlength], ?_⟩
          intro e he
          rcases List.mem_cons.mp he with rfl | he
          · exact hagain
          · exact hall e he
      · rw [if_neg hagain] at hu
        obtain ⟨rfl, rfl⟩ := Proc.stops_pure hu
        exact .inl ⟨r, rfl, [], rfl, nofun, Bool.eq_false_iff.mpr hagain⟩

theorem over_attempt :
    (attempt write fd size offset limit).Over (Attempted write fd size offset) (GaveUp limit) := by
  intro s t o h
  rcases stops_attempt h with ⟨r, ho, hr⟩ | ⟨ho, hlength, hall⟩
  · exact .inl ⟨r, (), ho, hr⟩
  · exact .inr ⟨ho, [], t, rfl, hlength, hall⟩

/-! ## One chunk -/

theorem chunkSize_pos (h : offset < size) : 0 < chunkSize size offset := by
  unfold chunkSize chunkMax
  omega

theorem chunkSize_le : chunkSize size offset ≤ chunkMax := Nat.min_le_right _ _

theorem chunk_stop_le (h : offset < size) : offset + chunkSize size offset ≤ size := by
  unfold chunkSize
  omega

theorem issued_chunkEvents {rs : List Transferred}
    (hrs : ∀ r ∈ rs, Transferred.interrupted r = true) (write' : Bool) :
    issued write' (rs.map (chunkEvent write fd size offset)) = [] := by
  apply List.filterMap_eq_nil_iff.mpr
  intro e he
  obtain ⟨r, hr, rfl⟩ := List.mem_map.mp he
  simp [issuedBy, chunkEvent, hrs r hr]

variable {t : List HHEvent} {r : Transferred}

/-- The chunk counts once. -/
theorem Attempted.issued (h : Attempted write fd size offset t r) :
    issued write t = [⟨offset, chunkSize size offset⟩] := by
  obtain ⟨rs, rfl, hrs, hr⟩ := h
  rw [issued_append, issued_chunkEvents hrs]
  simp [HalHostIo.issued, issuedBy, chunkEvent, hr]

theorem Attempted.call (h : Attempted write fd size offset t r) :
    ∀ e ∈ t, ∃ r', e = chunkEvent write fd size offset r' := by
  obtain ⟨rs, rfl, -, -⟩ := h
  intro e he
  rcases List.mem_append.mp he with he | he
  · obtain ⟨r', -, rfl⟩ := List.mem_map.mp he
    exact ⟨r', rfl⟩
  · exact ⟨r, List.mem_singleton.mp he⟩

/-- All attempts but the last one were interrupted. -/
theorem Attempted.last (h : Attempted write fd size offset t r) :
    ∃ t', t = t' ++ [chunkEvent write fd size offset r] ∧ ∀ e ∈ t', again e = true := by
  obtain ⟨rs, rfl, hrs, -⟩ := h
  refine ⟨_, rfl, fun e he => ?_⟩
  obtain ⟨r', hr', rfl⟩ := List.mem_map.mp he
  exact hrs r' hr'

theorem Attempted.full_iff (h : Attempted write fd size offset t r) :
    (∀ e ∈ t, again e = true ∨ full e = true) ↔ r.ret = chunkSize size offset := by
  have hlast : (again (chunkEvent write fd size offset r) = true ∨
      full (chunkEvent write fd size offset r) = true) ↔ r.ret = chunkSize size offset := by
    obtain ⟨-, -, -, hr⟩ := h
    simp [again, full, chunkEvent, hr]
  obtain ⟨t', rfl, hbefore⟩ := h.last
  rw [← hlast]
  constructor
  · exact fun hall => hall _ (List.mem_append_right _ List.mem_cons_self)
  · intro hfull e he
    rcases List.mem_append.mp he with he | he
    · exact .inl (hbefore e he)
    · rwa [List.mem_singleton.mp he]

/-! ## All chunks -/

/-- What a transfer from `offset` on has done: the chunks that it has issued follow each other,
none of them is empty or larger than 1 GiB, and every call was for one of them.  It has come to
the end if each chunk was transferred as a whole, and has else stopped at the first that was
not. -/
structure Transfers (write : Bool) (fd size offset : ℕ) (t : List HHEvent) (passed : Bool) :
    Prop where
  chain : ∃ stop ≤ size, Chain offset (issued write t) stop ∧ (passed = true → stop = size)
  sizes : ∀ p ∈ issued write t, 0 < p.size ∧ p.size ≤ chunkMax
  calls : ∀ e ∈ t, ∃ p ∈ issued write t,
    e.call = .transfer write fd p.start p.size (offT p.start)
  passed_iff : passed = true ↔ ∀ e ∈ t, again e = true ∨ full e = true
  stops : passed = false → ∃ t' e, t = t' ++ [e] ∧ again e = false ∧ full e = false ∧
    ∀ e' ∈ t', again e' = true ∨ full e' = true

theorem transfers_end : Transfers write fd size size [] true where
  chain := ⟨size, Nat.le_refl size, .nil size, fun _ => rfl⟩
  sizes := nofun
  calls := nofun
  passed_iff := ⟨fun _ => nofun, fun _ => rfl⟩
  stops := nofun

/-- A chunk that was not transferred as a whole. -/
theorem Attempted.transfers_short (h : Attempted write fd size offset t r) (hoffset : offset < size)
    (hshort : r.ret ≠ chunkSize size offset) : Transfers write fd size offset t false where
  chain := by
    refine ⟨_, chunk_stop_le hoffset, ?_, nofun⟩
    rw [h.issued]
    exact .cons (.nil _)
  sizes := by
    rw [h.issued]
    intro p hp
    rw [List.mem_singleton.mp hp]
    exact ⟨chunkSize_pos hoffset, chunkSize_le⟩
  calls e he := by
    obtain ⟨r', rfl⟩ := h.call e he
    rw [h.issued]
    exact ⟨_, List.mem_cons_self, rfl⟩
  passed_iff := by
    rw [h.full_iff]
    exact ⟨nofun, fun hfull => absurd hfull hshort⟩
  stops _ := by
    obtain ⟨t', ht, hbefore⟩ := h.last
    obtain ⟨-, -, -, hr⟩ := h
    refine ⟨t', _, ht, hr, decide_eq_false hshort, fun e he => .inl (hbefore e he)⟩

/-- A chunk that was, and what comes after it. -/
theorem Attempted.transfers_next {t' : List HHEvent} {passed : Bool}
    (h : Attempted write fd size offset t r) (hoffset : offset < size)
    (hfull : r.ret = chunkSize size offset)
    (hrest : Transfers write fd size (offset + chunkSize size offset) t' passed) :
    Transfers write fd size offset (t ++ t') passed where
  chain := by
    obtain ⟨stop, hstop, hchain, hend⟩ := hrest.chain
    refine ⟨stop, hstop, ?_, hend⟩
    rw [issued_append, h.issued]
    exact .cons hchain
  sizes := by
    rw [issued_append, h.issued]
    intro p hp
    rcases List.mem_append.mp hp with hp | hp
    · rw [List.mem_singleton.mp hp]
      exact ⟨chunkSize_pos hoffset, chunkSize_le⟩
    · exact hrest.sizes p hp
  calls e he := by
    rw [issued_append]
    rcases List.mem_append.mp he with he | he
    · obtain ⟨r', rfl⟩ := h.call e he
      rw [h.issued]
      exact ⟨_, List.mem_append_left _ List.mem_cons_self, rfl⟩
    · obtain ⟨p, hp, hcall⟩ := hrest.calls e he
      exact ⟨p, List.mem_append_right _ hp, hcall⟩
  passed_iff := by
    rw [List.forall_mem_append, h.full_iff, hrest.passed_iff]
    exact ⟨fun hall => ⟨hfull, hall⟩, And.right⟩
  stops hpassed := by
    obtain ⟨t₁, e, rfl, hagain, hshort, hbefore⟩ := hrest.stops hpassed
    refine ⟨t ++ t₁, e, (List.append_assoc ..).symm, hagain, hshort, ?_⟩
    exact List.forall_mem_append.mpr ⟨h.full_iff.mpr hfull, hbefore⟩

/-- The induction is on the turns of the loop, of which there are enough. -/
theorem over_transferFrom {turns : ℕ} (hoffset : offset ≤ size) (hturns : size < offset + turns) :
    (transferFrom limit write fd size turns offset).Over (Transfers write fd size offset)
      (GaveUp limit) := by
  induction turns generalizing offset with
  | zero => omega
  | succ turns ih =>
      unfold transferFrom
      refine Proc.Over.ite (fun hlt => ?_) fun hend => ?_
      · have hpos := chunkSize_pos hlt
        have hstop := chunk_stop_le hlt
        have hrest := ih hstop (by omega)
        refine Proc.Over.mono (Proc.Over.bind (Q := fun (r : Transferred) t passed =>
          if r.ret = (chunkSize size offset : ℤ) then
            Transfers write fd size (offset + chunkSize size offset) t passed
          else t = [] ∧ passed = false) over_attempt (fun r => ?_) fun t t' h => h.append t) ?_
        · refine Proc.Over.ite (fun hshort => ?_) fun hfull => ?_
          · refine Proc.Over.mono (Proc.over_pure false) fun t passed h => ?_
            rwa [if_neg hshort]
          · refine Proc.Over.mono hrest fun t passed h => ?_
            rwa [if_pos (not_not.mp hfull)]
        · rintro _ passed ⟨r, t₁, t₂, rfl, hattempted, hafter⟩
          by_cases hfull : r.ret = chunkSize size offset
          · rw [if_pos hfull] at hafter
            exact hattempted.transfers_next hlt hfull hafter
          · rw [if_neg hfull] at hafter
            obtain ⟨rfl, rfl⟩ := hafter
            rw [List.append_nil]
            exact hattempted.transfers_short hlt hfull
      · refine Proc.Over.mono (Proc.over_pure true) ?_
        rintro t passed ⟨rfl, rfl⟩
        have hsize : offset = size := by omega
        rw [hsize]
        exact transfers_end

theorem over_transfer :
    (transfer limit write fd size).Over (Transfers write fd size 0) (GaveUp limit) :=
  over_transferFrom (Nat.zero_le _) (by omega)

/-- The sizes that `main` accepts are places in a file. -/
theorem offT_eq {n : ℕ} (hn : n < 2 ^ 63) : offT n = n := by
  unfold offT
  apply Int.bmod_eq_of_le <;> omega

theorem Transfers.places {passed : Bool} (h : Transfers write fd size offset t passed)
    (hsize : size < 2 ^ 63) : ∀ e ∈ t, ∃ p ∈ issued write t,
      e.call = .transfer write fd p.start p.size p.start := by
  intro e he
  obtain ⟨p, hp, hcall⟩ := h.calls e he
  obtain ⟨stop, hstop, hchain, -⟩ := h.chain
  have hinside := (hchain.inside p hp).2
  unfold Piece.stop at hinside
  rw [offT_eq (by omega)] at hcall
  exact ⟨p, hp, hcall⟩

end SharingProbe.HalHostIo
