import SharingProbe.Library.Handler
import SharingProbe.Share.Pattern

/-!
# What `verify` finds in a buffer

`fill` and `verify` are run on a memory: a store changes one word, `memset` all words of a
buffer, and a comparison reads a word.  `verify` passes on the words of the pattern of its
seed and on no others, so that it tells apart the seeds, and the places of the words.
-/

namespace SharingProbe.Share

open Interaction

/-- The words of the buffers. -/
abbrev Memory : Type := Buffer → ℕ → UInt64

namespace Memory

/-- A memory answers a comparison with the word that is there. -/
def answer (m : Memory) : (c : Call) → Call.Reply c
  | .compare buffer i _ _ => m buffer i
  | .check _ _ | .cleanup _ _ | .direct _ => ({} : Answer)
  | .store _ _ _ | .memset _ | .caseResult _ _ => ()
  | .send _ _ => true
  | .receive _ _ => none

/-- What a call makes of the memory. -/
def next (m : Memory) : Call → Memory
  | .store buffer i value => Function.update m buffer (Function.update (m buffer) i value)
  | .memset buffer => Function.update m buffer fun _ => 0
  | _ => m

/-- A memory as the world of a process. -/
def handler : Handler Memory Call Call.Reply := ⟨answer, next⟩

/-- The memory after a procedure. -/
def after (m : Memory) (procedure : SH PUnit) (p : Process) : Memory :=
  (handler.perform procedure p m).2

/-- The procedure returns. -/
def Passes (m : Memory) (procedure : SH PUnit) (p : Process) : Prop :=
  ∃ p', (handler.perform procedure p m).1 = some (.ok ⟨⟩, p')

/-- The procedure throws. -/
def Rejects (m : Memory) (procedure : SH PUnit) (p : Process) : Prop :=
  ∃ error p', (handler.perform procedure p m).1 = some (.error error, p')

end Memory

open Memory

variable {m : Memory} {p : Process} {buffer : Buffer} {bytes : ℕ} {seed seed' : UInt64}
  {phase : String}

/-! ## `fill` -/

/-- One turn of `fill`. -/
theorem perform_store (i : ℕ) (m : Memory) :
    handler.perform (Proc.ask (R := Call.Reply) (.store buffer i (pattern i seed)) : SH PUnit) p m =
      (some (.ok ⟨⟩, p), m.next (.store buffer i (pattern i seed))) := rfl

/-- The words that the turns so far have written.  The induction is on their number. -/
theorem foldl_store (m : Memory) (n : ℕ) :
    (List.range n).foldl (fun m i => m.next (.store buffer i (pattern i seed))) m buffer =
      fun i => if i < n then pattern i seed else m buffer i := by
  induction n with
  | zero => simp
  | succ n ih =>
      rw [List.range_succ, List.foldl_append, List.foldl_cons, List.foldl_nil]
      refine (Function.update_self _ _ _).trans ?_
      rw [ih]
      funext i
      by_cases hi : i = n
      · rw [hi, Function.update_self, if_pos n.lt_succ_self]
      · have hiff : i < n ↔ i < n + 1 := by omega
        rw [Function.update_of_ne hi]
        simp only [hiff]

/-- A filled buffer holds the pattern, and no other word of it has changed. -/
theorem after_fill : m.after (fill buffer bytes seed) p buffer =
    fun i => if i < bytes / 8 then pattern i seed else m buffer i := by
  unfold after fill
  rw [handler.perform_forM perform_store]
  exact foldl_store m _

theorem holds_after_fill : Holds (m.after (fill buffer bytes seed) p buffer) bytes seed := by
  intro i hi
  rw [after_fill]
  exact if_pos hi

theorem after_clear : m.after (clear buffer) p buffer = fun _ => 0 := Function.update_self _ _ _

/-! ## `verify` -/

/-- One turn of `verify`. -/
theorem perform_compare (i : ℕ) :
    handler.perform (do
        let actual ← Proc.ask (R := Call.Reply) (.compare buffer i (pattern i seed) phase)
        Proc.onlyIf (actual ≠ pattern i seed) (fail phase) : SH PUnit) p m =
      (some (if decide (m buffer i = pattern i seed) then .ok ⟨⟩ else .error phase, p), m) := by
  refine (handler.perform_bind_ok (a := m buffer i) rfl).trans ?_
  unfold Proc.onlyIf
  by_cases h : m buffer i = pattern i seed
  · rw [if_neg (not_not.mpr h), decide_eq_true h]
    rfl
  · rw [if_pos h, decide_eq_false h]
    rfl

/-- All words of the buffer are those of the pattern. -/
def holds (m : Memory) (buffer : Buffer) (bytes : ℕ) (seed : UInt64) : Bool :=
  (List.range (bytes / 8)).all fun i => decide (m buffer i = pattern i seed)

theorem holds_iff : holds m buffer bytes seed = true ↔ Holds (m buffer) bytes seed := by
  simp [holds, Holds]

/-- `verify` passes on a buffer that holds the pattern, and else throws. -/
theorem perform_verify : handler.perform (verify buffer bytes seed phase) p m =
    (some (if holds m buffer bytes seed then .ok ⟨⟩ else .error phase, p), m) :=
  handler.perform_tests perform_compare _

theorem passes_verify_iff :
    m.Passes (verify buffer bytes seed phase) p ↔ Holds (m buffer) bytes seed := by
  unfold Passes
  rw [perform_verify, ← holds_iff]
  cases holds m buffer bytes seed <;> simp

theorem rejects_verify_iff :
    m.Rejects (verify buffer bytes seed phase) p ↔ ¬Holds (m buffer) bytes seed := by
  unfold Rejects
  rw [perform_verify, ← holds_iff]
  cases holds m buffer bytes seed <;> simp

/-! ## Seeds and places -/

/-- What `fill` and `verify` tell apart in a buffer of `bytes` bytes, whatever was there before. -/
structure TellsApart (buffer : Buffer) (bytes : ℕ) : Prop where
  seeds : ∀ (m : Memory) p phase seed seed',
    (m.after (fill buffer bytes seed') p).Passes (verify buffer bytes seed phase) p ↔ seed = seed'
  zero : ∀ (m : Memory) p phase seed, seed ≠ 0 →
    (m.after (clear buffer) p).Rejects (verify buffer bytes seed phase) p
  places : ∀ (m m' : Memory) p phase seed (f : ℕ → ℕ), (∀ i < bytes / 8, f i < bytes / 8) →
    (∀ i < bytes / 8, m' buffer i = m.after (fill buffer bytes seed) p buffer (f i)) →
    (m'.Passes (verify buffer bytes seed phase) p ↔ ∀ i < bytes / 8, f i = i)

/-- **Seeds and places are told apart** in every buffer of at least one word. -/
theorem fill_verify {bytes : ℕ} (hbytes : 8 ≤ bytes) (hsize : bytes < 2 ^ 64) (buffer : Buffer) :
    TellsApart buffer bytes where
  seeds m p phase seed seed' := by
    rw [passes_verify_iff]
    constructor
    · exact fun h => h.unique holds_after_fill hbytes
    · rintro rfl
      exact holds_after_fill
  zero m p phase seed hseed := by
    rw [rejects_verify_iff, after_clear]
    exact not_holds_zero hseed hbytes
  places m m' p phase seed f hf hwords := by
    rw [passes_verify_iff]
    have hword : ∀ i < bytes / 8, m' buffer i = pattern (f i) seed := by
      intro i hi
      rw [hwords i hi]
      exact holds_after_fill (f i) (hf i hi)
    constructor
    · intro h i hi
      have hfi := hf i hi
      exact pattern_injective (by omega) (by omega) ((hword i hi).symm.trans (h i hi))
    · intro h i hi
      rw [hword i hi, h i hi]

/-- The words of a buffer of two words, in the wrong order. -/
theorem fill_verify_swapped :
    ¬Passes (fun _ i => pattern (1 - i) 7) (verify .staging 16 7 "staging") {} := by
  intro h
  have hswapped := ((fill_verify (by decide) (by decide) .staging).places (fun _ _ => 0) _ {}
    "staging" 7 (1 - ·) (fun i _ => by omega) fun i hi =>
      (holds_after_fill _ (by omega)).symm).mp h
  exact absurd (hswapped 0 (by decide)) (by decide)

end SharingProbe.Share
