import SharingProbe.Library.Evolution
import SharingProbe.Share.Model

/-!
# Transfers in flight, and what is known of a buffer

A copy is in flight from its issue on, whether or not the issue reports success, and until
the stream, or the event that was recorded behind it, has been synchronised.  A request is in
flight from its submission until all requests of its context have been reported or the
context has been destroyed.

A buffer keeps its content while no transfer into it is in flight.  What happens to it
meanwhile is not said, so that only what the processor has written since is known.
-/

namespace SharingProbe.Share

open Interaction

/-! ## Transfers in flight -/

/-- The transfers that may be under way: copies as destination and source, of which
`recorded` are before the event, and requests with their context. -/
structure Flight where
  copies : List (Buffer × Buffer) := []
  recorded : ℕ := 0
  requests : List (ℕ × Iocb) := []
  deriving DecidableEq

namespace Flight

/-- The requests of one context are over. -/
def finish (f : Flight) (ctx : ℕ) : Flight :=
  { f with requests := f.requests.filter fun request => request.1 ≠ ctx }

/-- A call, with what it returns. -/
def next (f : Flight) : (c : Call) → Call.Reply c → Flight
  | .check (.aclrtMemcpyAsync dst src _) _, _ => { f with copies := f.copies ++ [(dst, src)] }
  | .check .aclrtRecordEvent _, r =>
      if r.ret = 0 then { f with recorded := f.copies.length } else f
  | .check .aclrtSynchronizeEvent _, r =>
      if r.ret = 0 then { f with copies := f.copies.drop f.recorded, recorded := 0 } else f
  | .check .aclrtSynchronizeStream _, r =>
      if r.ret = 0 then { f with copies := [], recorded := 0 } else f
  | .cleanup .aclrtSynchronizeStream _, r =>
      if r.ret = 0 then { f with copies := [], recorded := 0 } else f
  | .direct (.ioSubmit ctx requests), r =>
      { f with requests := f.requests ++ (requests.take r.ret.toNat).map (ctx, ·) }
  | .direct (.ioGetevents ctx), r =>
      if (f.requests.countP fun request => request.1 = ctx) ≤ r.ret.toNat then f.finish ctx else f
  | .cleanup (.ioDestroy ctx) _, _ => f.finish ctx
  | _, _ => f

/-- Nothing is in flight. -/
structure Idle (f : Flight) : Prop where
  copies : f.copies = []
  requests : f.requests = []

/-- A transfer into the buffer is in flight. -/
def Into (f : Flight) (buffer : Buffer) : Prop :=
  (∃ copy ∈ f.copies, copy.1 = buffer) ∨
    ∃ request ∈ f.requests, request.2.buffer = buffer ∧ request.2.write = false

instance (f : Flight) (buffer : Buffer) : Decidable (f.Into buffer) :=
  inferInstanceAs (Decidable (_ ∨ _))

theorem Idle.not_into {f : Flight} (h : f.Idle) (buffer : Buffer) : ¬f.Into buffer := by
  simp [Into, h.copies, h.requests]

end Flight

/-! ## What is known -/

/-- What is known of the words of the buffers. -/
abbrev Knowledge := Buffer → ℕ → Option UInt64

/-- What the processor writes is known. -/
def learn (known : Knowledge) : Call → Knowledge
  | .store buffer i value =>
      Function.update known buffer (Function.update (known buffer) i (some value))
  | .memset buffer => Function.update known buffer fun _ => some 0
  | _ => known

/-- One call, on what is in flight and on what is known. -/
def observe (s : Flight × Knowledge) (e : SHEvent) : Flight × Knowledge :=
  let f := s.1.next e.call e.reply
  (f, fun buffer => if s.1.Into buffer ∨ f.Into buffer then fun _ => none
    else learn s.2 e.call buffer)

/-- What is in flight, and what is known, after a trace. -/
def observed (t : List SHEvent) : Flight × Knowledge := t.foldl observe ({}, fun _ _ => none)

def flight (t : List SHEvent) : Flight := (observed t).1

def known (t : List SHEvent) : Knowledge := (observed t).2

section Concat

variable (t : List SHEvent) (e : SHEvent)

@[simp] theorem flight_nil : flight [] = {} := rfl

@[simp] theorem known_nil : known [] = fun _ _ => none := rfl

@[simp] theorem flight_concat : flight (t ++ [e]) = (flight t).next e.call e.reply := by
  simp [flight, observed, observe]

theorem known_concat (buffer : Buffer) : known (t ++ [e]) buffer =
    if (flight t).Into buffer ∨ (flight (t ++ [e])).Into buffer then fun _ => none
    else learn (known t) e.call buffer := by
  simp [known, flight, observed, observe]

end Concat

/-- What is known is kept by a call that does not write to the buffer. -/
theorem known_quiet {t : List SHEvent} {e : SHEvent} {buffer : Buffer}
    (hbefore : ¬(flight t).Into buffer) (hafter : ¬(flight (t ++ [e])).Into buffer)
    (hlearn : learn (known t) e.call buffer = known t buffer) :
    known (t ++ [e]) buffer = known t buffer := by
  rw [known_concat, if_neg (not_or.mpr ⟨hbefore, hafter⟩), hlearn]

/-! ## The content of the buffers -/

/-- The words of every buffer. -/
abbrev Words := Buffer → ℕ → UInt64

/-- What the processor writes. -/
def stored (words : Words) : Call → Words
  | .store buffer i value => Function.update words buffer (Function.update (words buffer) i value)
  | .memset buffer => Function.update words buffer fun _ => 0
  | _ => words

/-- One call, on what is in flight and on the content.  A buffer into which something is
transferred before or after the call can have any content. -/
def Turns (s : Flight × Words) (e : SHEvent) (s' : Flight × Words) : Prop :=
  s'.1 = s.1.next e.call e.reply ∧
    ∀ buffer, ¬s.1.Into buffer → ¬s'.1.Into buffer → s'.2 buffer = stored s.2 e.call buffer

theorem stored_of_learn {known : Knowledge} {words : Words} {c : Call} {buffer : Buffer} {i : ℕ}
    {value : UInt64} (hknown : ∀ buffer i value, known buffer i = some value →
      words buffer i = value)
    (h : learn known c buffer i = some value) : stored words c buffer i = value := by
  cases c with
  | store buffer' j value' =>
      by_cases hb : buffer = buffer'
      · subst hb
        by_cases hi : i = j
        · subst hi
          simpa [learn, stored] using h
        · have hold : known buffer i = some value := by
            simpa [learn, Function.update_of_ne hi] using h
          simp [stored, Function.update_of_ne hi, hknown buffer i value hold]
      · have hold : known buffer i = some value := by
          simpa [learn, Function.update_of_ne hb] using h
        simp [stored, Function.update_of_ne hb, hknown buffer i value hold]
  | memset buffer' =>
      by_cases hb : buffer = buffer'
      · subst hb
        simpa [learn, stored] using h
      · have hold : known buffer i = some value := by
          simpa [learn, Function.update_of_ne hb] using h
        simp [stored, Function.update_of_ne hb, hknown buffer i value hold]
  | _ => exact hknown buffer i value h

/-- What is known is so. -/
theorem known_sound {t : List SHEvent} {words : Words} {s : Flight × Words}
    (h : Evolution.Along Turns ({}, words) t s) :
    s.1 = flight t ∧ ∀ buffer i value, known t buffer i = some value → s.2 buffer i = value := by
  induction h with
  | nil => exact ⟨rfl, fun _ _ _ h => by cases h⟩
  | @snoc t e s s' _ heffect ih =>
      obtain ⟨hflight, hknown⟩ := ih
      obtain ⟨hnext, hwords⟩ := heffect
      have hflight' : s'.1 = flight (t ++ [e]) := by rw [hnext, hflight, flight_concat]
      refine ⟨hflight', fun buffer i value hvalue => ?_⟩
      rw [known_concat] at hvalue
      split at hvalue
      · cases hvalue
      · rename_i hinto
        rw [not_or, ← hflight, ← hflight'] at hinto
        rw [hwords buffer hinto.1 hinto.2]
        exact stored_of_learn hknown hvalue

end SharingProbe.Share
