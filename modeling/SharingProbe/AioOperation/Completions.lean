import Mathlib.Data.List.Perm.Subperm
import SharingProbe.Library.Pieces
import SharingProbe.Share.Model

/-!
# Requests and completions

`aio_operation` keeps a mask of the requests that have been reported.  An event is bad if it
names no request, or one that is marked already, or if it is not a complete transfer.  Four
events without a bad one report each of the four requests once.
-/

namespace SharingProbe.AioOperation

open Pieces Share

/-! ## The requests -/

/-- The part of the buffer that a request is about. -/
def piece (request : Iocb) : Piece := ⟨request.start, request.nbytes⟩

/-- The part of the file. -/
def filePiece (request : Iocb) : Piece := ⟨request.offset, request.nbytes⟩

variable {fd bytes : ℕ} {buffer : Buffer} {write : Bool}

theorem chain_requests (hbytes : 4 ∣ bytes) :
    Chain 0 ((requests fd buffer bytes write).map piece) bytes := by
  have hpieces : (requests fd buffer bytes write).map piece =
      (List.range 4).map fun i => ⟨i * (bytes / 4), bytes / 4⟩ := by
    unfold requests
    rw [List.map_map]
    rfl
  have hchain := chain_range (bytes / 4) 4
  rwa [Nat.mul_div_cancel' hbytes, ← hpieces] at hchain

theorem map_filePiece :
    (requests fd buffer bytes write).map filePiece =
      (requests fd buffer bytes write).map piece := by
  simp only [requests, List.map_map]
  rfl

/-- The requests are the buffer, and the same part of the file. -/
theorem tiles_requests (hbytes : 4 ∣ bytes) :
    Tiles ((requests fd buffer bytes write).map piece) bytes ∧
      Tiles ((requests fd buffer bytes write).map filePiece) bytes := by
  rw [map_filePiece]
  exact ⟨(chain_requests hbytes).tiles, (chain_requests hbytes).tiles⟩

/-! ## The shifts -/

/-- `1U << n`, which has no value from 32 on. -/
def shiftOne (n : ℕ) : Option UInt32 := if n < 32 then some (1 <<< UInt32.ofNat n) else none

/-- `examineEvent` with the shifts that are evaluated: what stands after `||` is evaluated only
if what stands before it is false. -/
def evaluateEvent (chunk : ℕ) (s : UInt32 × Bool) (event : IoEvent) : Option (UInt32 × Bool) := do
  let bad ←
    if event.data ≥ 4 then some true
    else (shiftOne event.data).map fun bit =>
      decide (s.1 &&& bit ≠ 0) || decide (event.res ≠ chunk) || decide (event.res2 ≠ 0)
  let seen ← if event.data < 4 then (shiftOne event.data).map fun bit => s.1 ||| bit else some s.1
  some (seen, s.2 || bad)

variable {chunk : ℕ}

theorem evaluateEvent_eq (s : UInt32 × Bool) (event : IoEvent) :
    evaluateEvent chunk s event = some (examineEvent chunk s event) := by
  unfold evaluateEvent examineEvent shiftOne
  by_cases hdata : event.data ≥ 4
  · have hnot : ¬event.data < 4 := by omega
    simp [hdata, hnot]
  · have hlt : event.data < 4 := by omega
    have hwidth : event.data < 32 := by omega
    simp [hdata, hlt, hwidth]

/-- No shift of the loop is without a value. -/
theorem foldlM_evaluateEvent (l : List IoEvent) (s : UInt32 × Bool) :
    l.foldlM (evaluateEvent chunk) s = some (l.foldl (examineEvent chunk) s) := by
  induction l generalizing s with
  | nil => rfl
  | cons event l ih =>
      rw [List.foldlM_cons, evaluateEvent_eq, Option.bind_eq_bind, Option.bind_some, ih,
        List.foldl_cons]

/-! ## The mask -/

/-- The request is marked. -/
def Marked (seen : UInt32) (d : ℕ) : Prop := seen &&& (1 <<< UInt32.ofNat d) ≠ 0

theorem marked_bit : ∀ d < 4, ∀ k < 4, Marked (1 <<< UInt32.ofNat d) k ↔ d = k := by
  unfold Marked
  decide

theorem marked_or {seen bits : UInt32} {d : ℕ} :
    Marked (seen ||| bits) d ↔ Marked seen d ∨ Marked bits d := by
  have hdistrib : (seen ||| bits) &&& (1 <<< UInt32.ofNat d) =
      (seen &&& (1 <<< UInt32.ofNat d)) ||| (bits &&& (1 <<< UInt32.ofNat d)) :=
    UInt32.toBitVec_inj.mp BitVec.and_or_distrib_right
  unfold Marked
  rw [hdistrib, Ne, UInt32.or_eq_zero_iff, not_and_or]

/-- The mask marks these requests. -/
def Marks (seen : UInt32) (ds : List ℕ) : Prop := ∀ d < 4, Marked seen d ↔ d ∈ ds

theorem marks_nil : Marks 0 [] := by
  unfold Marks Marked
  decide

theorem Marks.snoc {seen : UInt32} {ds : List ℕ} (h : Marks seen ds) {d : ℕ} (hd : d < 4) :
    Marks (seen ||| (1 <<< UInt32.ofNat d)) (ds ++ [d]) := by
  intro k hk
  rw [marked_or, h k hk, marked_bit d hd k hk, List.mem_append, List.mem_singleton,
    eq_comm (a := d)]

/-! ## The loop over the events -/

/-- The event is a complete transfer. -/
def Complete (chunk : ℕ) (event : IoEvent) : Prop := event.res = chunk ∧ event.res2 = 0

/-- Without a bad event, the events report different requests, all of them complete. -/
structure Sound (chunk : ℕ) (events : List IoEvent) : Prop where
  lt : ∀ event ∈ events, event.data < 4
  nodup : (events.map IoEvent.data).Nodup
  complete : ∀ event ∈ events, Complete chunk event

theorem sound_snoc {events : List IoEvent} {event : IoEvent} :
    Sound chunk (events ++ [event]) ↔ Sound chunk events ∧ event.data < 4 ∧
      event.data ∉ events.map IoEvent.data ∧ Complete chunk event := by
  constructor
  · rintro ⟨hlt, hnodup, hcomplete⟩
    rw [List.map_append, List.map_singleton, (List.perm_append_singleton _ _).nodup_iff,
      List.nodup_cons] at hnodup
    have hmem : event ∈ events ++ [event] := by simp
    exact ⟨⟨fun e he => hlt e (List.mem_append_left _ he), hnodup.2,
      fun e he => hcomplete e (List.mem_append_left _ he)⟩, hlt event hmem, hnodup.1,
      hcomplete event hmem⟩
  · rintro ⟨⟨hlt, hnodup, hcomplete⟩, hevent, hnew, hdone⟩
    refine ⟨?_, ?_, ?_⟩
    · intro e he
      rcases List.mem_append.mp he with he | he
      · exact hlt e he
      · rwa [List.mem_singleton.mp he]
    · rw [List.map_append, List.map_singleton, (List.perm_append_singleton _ _).nodup_iff,
        List.nodup_cons]
      exact ⟨hnew, hnodup⟩
    · intro e he
      rcases List.mem_append.mp he with he | he
      · exact hcomplete e he
      · rwa [List.mem_singleton.mp he]

/-- One turn.  As long as no event was bad, the mask marks the requests that were reported. -/
theorem examineEvent_step {events : List IoEvent} {event : IoEvent} {s : UInt32 × Bool}
    (hfailed : s.2 = false ↔ Sound chunk events)
    (hmarks : s.2 = false → Marks s.1 (events.map IoEvent.data)) :
    ((examineEvent chunk s event).2 = false ↔ Sound chunk (events ++ [event])) ∧
      ((examineEvent chunk s event).2 = false →
        Marks (examineEvent chunk s event).1 ((events ++ [event]).map IoEvent.data)) := by
  have hiff : (examineEvent chunk s event).2 = false ↔ s.2 = false ∧ event.data < 4 ∧
      ¬Marked s.1 event.data ∧ Complete chunk event := by
    unfold examineEvent Marked Complete
    simp [and_assoc]
  constructor
  · rw [hiff, sound_snoc, ← hfailed]
    apply and_congr_right
    intro hsound
    apply and_congr_right
    intro hlt
    rw [hmarks hsound event.data hlt]
  · intro hgood
    obtain ⟨hsound, hlt, -, -⟩ := hiff.mp hgood
    unfold examineEvent
    dsimp only
    rw [if_pos hlt, List.map_append]
    exact (hmarks hsound).snoc hlt

/-- The induction is on the events, from the last one. -/
theorem examineEvents (events : List IoEvent) :
    ((events.foldl (examineEvent chunk) (0, false)).2 = false ↔ Sound chunk events) ∧
      ((events.foldl (examineEvent chunk) (0, false)).2 = false →
        Marks (events.foldl (examineEvent chunk) (0, false)).1 (events.map IoEvent.data)) := by
  induction events using List.reverseRecOn with
  | nil => exact ⟨⟨fun _ => ⟨nofun, List.nodup_nil, nofun⟩, fun _ => rfl⟩, fun _ => marks_nil⟩
  | append_singleton events event ih =>
      rw [List.foldl_append, List.foldl_cons, List.foldl_nil]
      exact examineEvent_step ih.1 ih.2

/-- A full set of completions: each of the four requests is reported, as a whole. -/
structure Full (chunk : ℕ) (events : ℕ → IoEvent) : Prop where
  reported : ((List.range 4).map fun i => (events i).data).Perm (List.range 4)
  complete : ∀ i < 4, Complete chunk (events i)

/-- Four different numbers below 4 are all of them. -/
theorem sound_iff_full {events : ℕ → IoEvent} :
    Sound chunk ((List.range 4).map events) ↔ Full chunk events := by
  have hdata : ((List.range 4).map events).map IoEvent.data =
      (List.range 4).map fun i => (events i).data := List.map_map
  constructor
  · rintro ⟨hlt, hnodup, hcomplete⟩
    rw [hdata] at hnodup
    refine ⟨?_, fun i hi => hcomplete _ (List.mem_map_of_mem (List.mem_range.mpr hi))⟩
    have hsubset : ((List.range 4).map fun i => (events i).data) ⊆ List.range 4 := by
      intro d hd
      obtain ⟨i, hi, rfl⟩ := List.mem_map.mp hd
      exact List.mem_range.mpr (hlt _ (List.mem_map_of_mem hi))
    exact (List.subperm_of_subset hnodup hsubset).perm_of_length_le (by simp)
  · rintro ⟨hreported, hcomplete⟩
    refine ⟨?_, ?_, ?_⟩
    · intro event hevent
      obtain ⟨i, hi, rfl⟩ := List.mem_map.mp hevent
      exact List.mem_range.mp (hreported.subset (List.mem_map_of_mem hi))
    · rw [hdata]
      exact hreported.nodup_iff.mpr List.nodup_range
    · intro event hevent
      obtain ⟨i, hi, rfl⟩ := List.mem_map.mp hevent
      exact hcomplete i (List.mem_range.mp hi)

/-- The loop finds no fault with a full set of completions, and with nothing else. -/
theorem completionFailed_iff {events : ℕ → IoEvent} :
    completionFailed chunk events = false ↔ Full chunk events :=
  (examineEvents _).1.trans sound_iff_full

end SharingProbe.AioOperation
