import SharingProbe.HostShare.Model
import SharingProbe.Library.Ledger
import SharingProbe.Share.Flight
import SharingProbe.Share.Rules

/-!
# The books of `io_tests`

Three things are kept along the calls of `io_tests`: what it has opened, set up and
allocated, what is in flight, and how many cases have failed.  Most calls change none of
them.
-/

namespace SharingProbe.HostShare

open Interaction Share

/-! ## What is acquired -/

/-- What `io_tests` has to give back: descriptors, contexts, and the control buffer.  A null
context is none. -/
inductive Resource where
  | file (fd : ℕ)
  | context (ctx : ℕ)
  | control
  deriving DecidableEq, Repr

/-- What a call acquires if it gets this answer. -/
def acquires : (c : Share.Call) → Share.Call.Reply c → Multiset Resource
  | .direct (.openFile _), r => if 0 ≤ r.ret then {.file r.ret.toNat} else 0
  | .check .ioSetup _, r => if r.ret = 0 ∧ r.out ≠ 0 then {.context r.out} else 0
  | .check (.posixMemalign _) _, r => if r.ret = 0 then {.control} else 0
  | _, _ => 0

/-- What a call releases. -/
def releases : Share.Call → Multiset Resource
  | .direct (.close fd) => {.file fd}
  | .cleanup (.close fd) _ => {.file fd}
  | .cleanup (.ioDestroy ctx) _ => if ctx ≠ 0 then {.context ctx} else 0
  | .direct .free => {.control}
  | _ => 0

/-- The resources of a trace. -/
def accounts : Ledger.Accounts SHEvent Resource where
  acquires e := acquires e.call e.reply
  releases e := releases e.call

/-- Only what is held is released. -/
def Allowed (t : List SHEvent) (_p : Process) (c : Share.Call) : Prop :=
    releases c ≤ accounts.held t

/-! ## The cases -/

/-- The case has been reported as passed. -/
def Passed (case : Case) (t : List SHEvent) : Prop := ∃ e ∈ t, e.call = .caseResult case true

theorem passed_concat {case : Case} {t : List SHEvent} {e : SHEvent} :
    Passed case (t ++ [e]) ↔ Passed case t ∨ e.call = .caseResult case true := by
  simp [Passed, or_and_right, exists_or]

/-- The cases of one turn of the loop over `direct`. -/
def turn (odirect : Bool) : Set Case := {case | ∃ write, case = .aio odirect write}

/-- The cases of a run. -/
def requested (aio : AioMode) : Set Case :=
  {case | case = .acl ∨ ∃ odirect, aio.wants odirect = true ∧ case ∈ turn odirect}

/-! ## The stream -/

/-- A stream is null although it has been created without an error. -/
def nullStream : (c : Share.Call) → Share.Call.Reply c → Prop
  | .check .aclrtCreateStream _, r => r.ret = 0 ∧ r.out = 0
  | _, _ => False

/-- Some stream is. -/
def NullStream (t : List SHEvent) : Prop := ∃ e ∈ t, nullStream e.call e.reply

theorem NullStream.concat {t : List SHEvent} (h : NullStream t) (e : SHEvent) :
    NullStream (t ++ [e]) := by
  obtain ⟨e', he', hnull⟩ := h
  exact ⟨e', List.mem_append_left _ he', hnull⟩

/-! ## Exceptions that are not caught -/

/-- A call fails that `io_tests` does not catch. -/
def uncaught : (c : Share.Call) → Share.Call.Reply c → Bool
  | .check (.posixMemalign _) _, r => r.ret != 0
  | .check .aclrtSynchronizeStream name, r =>
      name == "sync failed ACL before CPU use" && r.ret != 0
  | .direct .unlink, r => r.ret != 0
  | _, _ => false

/-- Some call has. -/
def Uncaught (t : List SHEvent) : Prop := ∃ e ∈ t, uncaught e.call e.reply = true

theorem Uncaught.concat {t : List SHEvent} (h : Uncaught t)
    (e : SHEvent) : Uncaught (t ++ [e]) := by
  obtain ⟨e', he', huncaught⟩ := h
  exact ⟨e', List.mem_append_left _ he', huncaught⟩

theorem uncaught_last {t : List SHEvent} {e : SHEvent} (h : uncaught e.call e.reply = true) :
    Uncaught (t ++ [e]) := ⟨e, List.mem_concat_self, h⟩

/-! ## Calls that change nothing -/

/-- Calls that acquire and release nothing, submit and complete no requests, and report no
case as passed. -/
def isPlain : Share.Call → Bool
  | .check (.posixMemalign _) _ | .check .ioSetup _ => false
  | .cleanup (.ioDestroy _) _ | .cleanup (.close _) _ => false
  | .direct (.openFile _) | .direct (.close _) | .direct .free => false
  | .direct (.ioSubmit _ _) | .direct (.ioGetevents _) => false
  | .caseResult _ passed => !passed
  | _ => true

/-- Calls that issue a copy. -/
def isCopy : Share.Call → Bool
  | .check (.aclrtMemcpyAsync _ _ _) _ => true
  | _ => false

section Plain

variable {c : Share.Call} (r : Share.Call.Reply c)

theorem plain_acquires (hc : isPlain c = true) : acquires c r = 0 := by
  cases c with
  | check op name => cases op <;> first | rfl | cases hc
  | direct op => cases op <;> first | rfl | cases hc
  | _ => rfl

theorem plain_releases (hc : isPlain c = true) : releases c = 0 := by
  cases c with
  | cleanup op name => cases op <;> first | rfl | cases hc
  | direct op => cases op <;> first | rfl | cases hc
  | _ => rfl

theorem plain_requests (hc : isPlain c = true) (f : Flight) :
    (f.next c r).requests = f.requests := by
  cases c with
  | check op name => cases op <;> first | rfl | (unfold Flight.next; dsimp only; split <;> rfl)
  | cleanup op name =>
      cases op <;> first | rfl | (unfold Flight.next; dsimp only; split <;> rfl) | cases hc
  | direct op => cases op <;> first | rfl | cases hc
  | _ => rfl

theorem plain_passed (hc : isPlain c = true) (case : Case) : c ≠ .caseResult case true := by
  rintro rfl
  cases hc

/-- Without a new copy nothing comes to be in flight. -/
theorem next_copies (hc : isCopy c = false) {f : Flight} (hf : f.copies = []) :
    (f.next c r).copies = [] := by
  cases c with
  | check op name =>
      cases op <;> first | exact hf |
        (unfold Flight.next; dsimp only; split <;> simp [hf]) | cases hc
  | cleanup op name =>
      cases op <;> first | exact hf | (unfold Flight.next; dsimp only; split <;> simp [hf])
  | direct op =>
      cases op <;> first | exact hf | (unfold Flight.next; dsimp only; split <;> exact hf)
  | _ => exact hf

end Plain

/-! ## The books -/

/-- Exactly `S` is held, and no failure has been counted if and only if all cases of `done`
have passed.  The other cases have not. -/
structure Books (S : Process → Set Resource) (done : Set Case) (p : Process)
    (t : List SHEvent) : Prop where
  tracks : accounts.Tracks (S p) t
  counted : p.failures = 0 ↔ ∀ case ∈ done, Passed case t
  others : ∀ case, case ∉ done → ¬Passed case t

/-- What is held does not depend on the failures. -/
def Steady (S : Process → Set Resource) : Prop :=
  ∀ p f n, S { p with cleanupFailed := f, failures := n } = S p

section Books

variable {S S' : Process → Set Resource} {done done' : Set Case} {p p' : Process}
  {t : List SHEvent}

/-- A call that reports no case as passed. -/
theorem Books.concat (h : Books S done p t) {c : Share.Call} {r : Share.Call.Reply c}
    (htracks : accounts.Tracks (S' p') (t ++ [⟨p, c, r⟩]))
    (hpassed : ∀ case, c ≠ .caseResult case true) (hfailures : p'.failures = p.failures) :
    Books S' done p' (t ++ [⟨p, c, r⟩]) := by
  have hsame : ∀ case, Passed case (t ++ [⟨p, c, r⟩]) ↔ Passed case t := by
    intro case
    rw [passed_concat, or_iff_left (hpassed case)]
  refine ⟨htracks, ?_, ?_⟩
  · rw [hfailures, h.counted]
    simp only [hsame]
  · simpa only [hsame] using h.others

theorem Books.plain (h : Books S done p t) {c : Share.Call} {r : Share.Call.Reply c}
    (hc : isPlain c = true) : Books S done p (t ++ [⟨p, c, r⟩]) := by
  exact h.concat (h.tracks.quiet (plain_acquires r hc) (plain_releases hc)) (plain_passed hc) rfl

theorem Books.congr (h : Books S done p t) (hS : S p = S' p')
    (hfailures : p'.failures = p.failures) : Books S' done p' t :=
  ⟨hS ▸ h.tracks, hfailures ▸ h.counted, h.others⟩

/-- A case passes. -/
theorem Books.pass (h : Books S done p t) {case : Case} (hcase : case ∉ done)
    (r : Share.Call.Reply (.caseResult case true)) :
    Books S (insert case done) p (t ++ [⟨p, .caseResult case true, r⟩]) where
  tracks := h.tracks.quiet rfl rfl
  counted := by
    rw [h.counted, Set.forall_mem_insert]
    have hself : Passed case (t ++ [⟨p, .caseResult case true, r⟩]) :=
      passed_concat.mpr (.inr rfl)
    simp only [hself, true_and]
    refine forall₂_congr fun case' hcase' => ?_
    rw [passed_concat, or_iff_left]
    intro heq
    cases heq
    exact hcase hcase'
  others case' hcase' := by
    rw [Set.mem_insert_iff, not_or] at hcase'
    rw [passed_concat, not_or]
    refine ⟨h.others case' hcase'.2, fun heq => hcase'.1 ?_⟩
    cases heq
    rfl

/-- A failure is counted, for cases that come to be done with: one of them is new, or a
failure has been counted before. -/
theorem Books.fail (h : Books S done p t) (hS : Steady S) (hsubset : done ⊆ done')
    (hnew : (∃ case ∈ done', case ∉ done) ∨ p.failures ≠ 0) :
    Books S done' { p with failures := p.failures + 1 } t where
  tracks := by
    have hsame : S { p with failures := p.failures + 1 } = S p := hS p p.cleanupFailed _
    rw [hsame]
    exact h.tracks
  counted := by
    refine iff_of_false (Nat.succ_ne_zero _) fun hall => ?_
    rcases hnew with ⟨case, hcase, hnot⟩ | hfailures
    · exact h.others case hnot (hall case hcase)
    · exact hfailures (h.counted.mpr fun case hcase => hall case (hsubset hcase))
  others case hcase := h.others case fun hmem => hcase (hsubset hmem)

end Books

end SharingProbe.HostShare
