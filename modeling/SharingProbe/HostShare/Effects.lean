import SharingProbe.HostShare.Cases

/-!
# What `io_tests` leaves alone

`io_tests` neither sends nor receives, it does not touch the allocation, and of the variables of
`worker` it changes none.  It counts seven failures at most, and a cleanup call that fails is
noted.
-/

namespace SharingProbe.HostShare

open Interaction Share

/-! ## Cleanup calls that fail -/

/-- `cleanup_failed` says whether one has. -/
def Noted (p : Process) (t : List SHEvent) : Prop := p.cleanupFailed = true ↔ CleanupFailed t

theorem Noted.quiet {p : Process} {t : List SHEvent} {e : SHEvent} (h : Noted p t)
    (he : cleanupFails e.call e.reply = false) : Noted p (t ++ [e]) := by
  unfold Noted at h ⊢
  rw [cleanupFailed_concat, he]
  simpa using h

theorem Noted.cleanup {p p' : Process} {t : List SHEvent} (h : Noted p t) {op : Share.Op}
    {name : String} (r : Answer) :
    Noted (if r.ret = 0 then p else { p with cleanupFailed := true })
      (t ++ [⟨p', .cleanup op name, r⟩]) := by
  unfold Noted at h ⊢
  rw [cleanupFailed_concat]
  split
  · rename_i hret
    simpa [cleanupFails, hret] using h
  · rename_i hret
    simp [cleanupFails, hret]

/-! ## The calls -/

/-- The verifications of what the other process has written. -/
def crossing : List String :=
  ["IMPORTER_SEES_CREATOR_WRITE", "CREATOR_SEES_IMPORTER_WRITE", "IMPORTER_SEES_CREATOR_AFTER_IO",
    "CREATOR_SEES_IMPORTER_AFTER_IO"]

/-- The calls of the destructor of `Allocation`. -/
def destroys : Share.Call → Bool
  | .cleanup (.halMemUnmap _) _ | .cleanup (.halMemRelease _ _) _
  | .cleanup (.halMemAddressFree _) _ => true
  | _ => false

/-- The calls that `io_tests` may make. -/
def inner : Share.Call → Bool
  | .send _ _ | .receive _ _ => false
  | .compare _ _ _ phase => phase ∉ crossing
  | c => !destroys c

/-- What is not changed but for `n` failures at most. -/
structure Leaves (n : ℕ) (p : Process) (t : List SHEvent) (p' : Process) (t' : List SHEvent) :
    Prop where
  failures : p'.failures ≤ p.failures + n
  result : p'.result = p.result
  va : p'.va = p.va
  handles : p'.handles = p.handles
  noted : Noted p t → Noted p' t'

/-- A procedure that makes only such calls, and counts `n` failures at most. -/
def Tame {α : Type} (n : ℕ) (m : SH α) : Prop :=
  ∀ p t, m.Meets (fun _ _ c => inner c = true) p t fun _ p' t' => Leaves n p t p' t'

section Tame

variable {α β : Type} {n k : ℕ}

theorem Leaves.refl (p : Process) (t : List SHEvent) : Leaves n p t p t :=
  ⟨Nat.le_add_right _ _, rfl, rfl, rfl, id⟩

theorem Leaves.trans {p p' p'' : Process} {t t' t'' : List SHEvent} (h : Leaves n p t p' t')
    (h' : Leaves k p' t' p'' t'') : Leaves (n + k) p t p'' t'' where
  failures := by
    have hfirst := h.failures
    have hsecond := h'.failures
    omega
  result := h'.result.trans h.result
  va := h'.va.trans h.va
  handles := h'.handles.trans h.handles
  noted hp := h'.noted (h.noted hp)

theorem Leaves.mono {p p' : Process} {t t' : List SHEvent} (h : Leaves n p t p' t') (hn : n ≤ k) :
    Leaves k p t p' t' :=
  ⟨h.failures.trans (by omega), h.result, h.va, h.handles, h.noted⟩

theorem Tame.mono {m : SH α} (hm : Tame n m) (hn : n ≤ k) : Tame k m :=
  fun p t => (hm p t).mono fun _ _ _ _ h => h.mono hn

theorem tame_pure (a : α) : Tame 0 (pure a : SH α) := fun p t => .refl p t

theorem tame_get : Tame 0 (Proc.get : SH Process) := fun p t => .refl p t

theorem tame_throw (what : String) : Tame 0 (Proc.throw what : SH α) := fun p t => .refl p t

theorem tame_modify {f : Process → Process}
    (hf : ∀ p, (f p).failures ≤ p.failures + n ∧ (f p).result = p.result ∧ (f p).va = p.va ∧
      (f p).handles = p.handles ∧ (f p).cleanupFailed = p.cleanupFailed) :
    Tame n (Proc.modify f : SH PUnit) := by
  intro p t
  obtain ⟨hfailures, hresult, hva, hhandles, hflag⟩ := hf p
  refine ⟨hfailures, hresult, hva, hhandles, fun hp => ?_⟩
  unfold Noted at hp ⊢
  rwa [hflag]

theorem tame_ask {c : Share.Call} (hc : inner c = true)
    (hquiet : ∀ r, cleanupFails c r = false) :
    Tame 0 (Proc.ask (R := Share.Call.Reply) c : SH (Share.Call.Reply c)) :=
  fun _ _ => ⟨hc, fun r => ⟨Nat.le_add_right _ _, rfl, rfl, rfl, fun hp => hp.quiet (hquiet r)⟩⟩

theorem Tame.bind {m : SH α} {f : α → SH β} (hm : Tame n m) (hf : ∀ a, Tame k (f a)) :
    Tame (n + k) (m >>= f) := by
  intro p t
  rw [Proc.meets_bind]
  refine (hm p t).mono fun x p' t' _ h => ?_
  cases x with
  | ok a => exact (hf a p' t').mono fun _ _ _ _ h' => h.trans h'
  | error e => exact h.mono (Nat.le_add_right _ _)

/-- What comes first counts nothing. -/
theorem Tame.then {m : SH α} {f : α → SH β} (hm : Tame 0 m) (hf : ∀ a, Tame n (f a)) :
    Tame n (m >>= f) :=
  (hm.bind hf).mono (by omega)

theorem Tame.tryCatch {m : SH α} {handler : String → SH α} (hm : Tame n m)
    (hhandler : ∀ e, Tame k (handler e)) : Tame (n + k) (Proc.tryCatch m handler) := by
  intro p t
  rw [Proc.meets_tryCatch]
  refine (hm p t).mono fun x p' t' _ h => ?_
  cases x with
  | ok a => exact h.mono (Nat.le_add_right _ _)
  | error e => exact (hhandler e p' t').mono fun _ _ _ _ h' => h.trans h'

theorem Tame.onlyIf {c : Prop} [Decidable c] {m : SH PUnit} (hm : Tame n m) :
    Tame n (Proc.onlyIf c m) := by
  unfold Proc.onlyIf
  split
  · exact hm
  · exact (tame_pure _).mono (Nat.zero_le _)

theorem tame_forM {ι : Type} {f : ι → SH PUnit} (hf : ∀ x, Tame n (f x)) (xs : List ι) :
    Tame (xs.length * n) (xs.forM f) := by
  induction xs with
  | nil => exact (tame_pure _).mono (Nat.zero_le _)
  | cons x xs ih =>
      refine ((hf x).bind fun _ => ih).mono ?_
      rw [List.length_cons, Nat.succ_mul, Nat.add_comm]

theorem tame_check {op : Share.Op} {name : String} (hc : inner (.check op name) = true) :
    Tame 0 (check op name) := by
  refine (tame_ask hc fun r => rfl).then fun r => ?_
  split
  · exact tame_throw _
  · exact tame_pure _

theorem tame_direct (op : Share.Op) : Tame 0 (direct op) := tame_ask rfl fun _ => rfl

theorem tame_cleanup {op : Share.Op} {name : String} (hc : inner (.cleanup op name) = true) :
    Tame 0 (cleanup op name) := by
  have hnoted : ∀ p t (r : Answer), Leaves 0 p t (if r.ret = 0 then p else
      { p with cleanupFailed := true }) (t ++ [⟨p, .cleanup op name, r⟩]) := by
    intro p t r
    refine ⟨?_, ?_, ?_, ?_, fun hp => hp.cleanup r⟩ <;> split <;> simp
  intro p t
  unfold cleanup
  rw [Proc.meets_bind, Proc.meets_ask]
  refine ⟨hc, fun r => ?_⟩
  have hleaves := hnoted p t r
  unfold Proc.onlyIf
  by_cases hret : r.ret = 0
  · simpa [hret] using hleaves
  · simpa [hret] using hleaves

theorem tame_fill (buffer : Buffer) (bytes : ℕ) (seed : UInt64) : Tame 0 (fill buffer bytes seed) :=
  tame_forM (n := 0) (fun _ => tame_ask rfl fun _ => rfl) _

theorem tame_verify (buffer : Buffer) (bytes : ℕ) (seed : UInt64) {phase : String}
    (hphase : phase ∉ crossing) : Tame 0 (verify buffer bytes seed phase) :=
  tame_forM (n := 0) (fun _ => (tame_ask (by simpa [inner] using hphase) fun _ => rfl).then fun _ =>
    (tame_throw phase).onlyIf) _

theorem tame_clear (buffer : Buffer) : Tame 0 (clear buffer) := tame_ask rfl fun _ => rfl

theorem tame_caseResult (case : Case) (passed : Bool) : Tame 0 (caseResult case passed) :=
  tame_ask rfl fun _ => rfl

theorem tame_countFailure : Tame 1 countFailure :=
  tame_modify fun _ => ⟨le_rfl, rfl, rfl, rfl, rfl⟩

theorem tame_aioOperation (fd : ℕ) (buffer : Buffer) (bytes : ℕ) (write : Bool) :
    Tame 0 (aioOperation fd buffer bytes write) := by
  have hquiesce : ∀ ctx name what, Tame 0 (do
      cleanup (.ioDestroy ctx) name
      Proc.modify fun p => { p with ctx := 0 }
      fail what : SH PUnit) := by
    intro ctx name what
    refine (tame_cleanup rfl).then fun _ => ?_
    refine Tame.then (tame_modify (by exact fun _ => ⟨le_rfl, rfl, rfl, rfl, rfl⟩)) fun _ => ?_
    exact tame_throw what
  refine tame_get.then fun p => (tame_direct _).then fun submitted => ?_
  refine (hquiesce _ _ _).onlyIf.then fun _ => (tame_direct _).then fun completed => ?_
  exact (hquiesce _ _ _).onlyIf.then fun _ => (tame_throw _).onlyIf

theorem tame_destroyAcl : Tame 0 destroyAcl := by
  refine tame_get.then fun p => (tame_cleanup rfl).onlyIf.then fun _ => ?_
  refine (tame_cleanup rfl).onlyIf.then fun _ => (tame_cleanup rfl).onlyIf.then fun _ => ?_
  exact (tame_cleanup rfl).onlyIf

end Tame

/-! ## `io_tests` -/

section IoTests

variable (bytes : ℕ) (seed : UInt64)

theorem tame_backlog (back : Bool) : Tame 0 (backlog back) := by
  refine Tame.then (n := 0) ?_ fun _ => ?_
  · refine tame_forM (n := 0) (fun _ => ?_) _
    refine (tame_check ?_).then fun _ => tame_pure _
    cases back <;> rfl
  refine (tame_check rfl).then fun _ => (tame_check rfl).then fun _ => ?_
  exact (tame_check rfl).then fun _ => tame_pure _

theorem tame_aclCase : Tame 0 (aclCase bytes seed) := by
  refine (tame_check rfl).then fun device => ?_
  refine Tame.then (tame_modify (by exact fun _ => ⟨le_rfl, rfl, rfl, rfl, rfl⟩)) fun _ => ?_
  refine (tame_check rfl).then fun stream => ?_
  refine Tame.then (tame_modify (by exact fun _ => ⟨le_rfl, rfl, rfl, rfl, rfl⟩)) fun _ => ?_
  refine (tame_check rfl).then fun event => ?_
  refine Tame.then (tame_modify (by exact fun _ => ⟨le_rfl, rfl, rfl, rfl, rfl⟩)) fun _ => ?_
  refine (tame_fill _ _ _).then fun _ => (tame_check rfl).then fun _ => ?_
  refine (tame_check rfl).then fun _ => (tame_clear _).then fun _ => ?_
  refine (tame_check rfl).then fun _ => (tame_check rfl).then fun _ => ?_
  refine (tame_verify _ _ _ (by decide)).then fun _ => ?_
  refine Tame.then (tame_forM (n := 0) tame_backlog _) fun _ => ?_
  exact (tame_verify _ _ _ (by decide)).then fun _ => tame_caseResult _ _

theorem tame_aioCase (fd : ℕ) (odirect write : Bool) :
    Tame 1 (aioCase bytes seed fd odirect write) := by
  have htransfers : Tame 0 (aioTransfers bytes seed fd write) := by
    unfold aioTransfers
    refine (tame_aioOperation _ _ _ _).then fun _ => ?_
    split
    · refine (tame_check rfl).then fun _ => (tame_clear _).then fun _ => ?_
      exact (tame_aioOperation _ _ _ _).then fun _ => tame_verify _ _ _ (by decide)
    · exact tame_verify _ _ _ (by decide)
  refine (tame_fill _ _ _).then fun _ => ?_
  refine (htransfers.then fun _ => tame_caseResult _ _).tryCatch (k := 1) fun error => ?_
  refine tame_countFailure.bind (k := 0) fun _ => (tame_caseResult _ _).then fun _ => ?_
  exact tame_get.then fun p => (tame_throw error).onlyIf

theorem tame_aioFile (fd : ℕ) (odirect : Bool) : Tame 3 (aioFile bytes seed fd odirect) := by
  have hcases : Tame 2 (aioCases bytes seed fd odirect) := by
    refine (tame_check rfl).then fun setup => ?_
    refine Tame.then (tame_modify (by exact fun _ => ⟨le_rfl, rfl, rfl, rfl, rfl⟩)) fun _ => ?_
    refine (tame_aioOperation _ _ _ _).then fun _ => (tame_check rfl).then fun _ => ?_
    refine (tame_clear _).then fun _ => (tame_aioOperation _ _ _ _).then fun _ => ?_
    exact (tame_verify _ _ _ (by decide)).then fun _ =>
      tame_forM (tame_aioCase bytes seed fd odirect) [false, true]
  unfold aioFile
  refine (tame_direct _).then fun unlinked => ?_
  refine Tame.then (Tame.onlyIf ((tame_direct _).then fun _ => (tame_direct _).then fun _ =>
    tame_throw _)) fun _ => ?_
  refine Tame.then (tame_modify (by exact fun _ => ⟨le_rfl, rfl, rfl, rfl, rfl⟩)) fun _ => ?_
  refine Tame.bind (k := 0) (hcases.tryCatch (k := 1) fun _ => ?_) fun _ => ?_
  · exact tame_countFailure.bind (k := 0) fun _ => tame_caseResult _ _
  refine tame_get.then fun p => (tame_cleanup rfl).onlyIf.then fun _ => ?_
  exact tame_cleanup rfl

theorem tame_aioTests (aio : AioMode)
    (odirect : Bool) : Tame 3 (aioTests bytes seed aio odirect) := by
  refine Tame.onlyIf ((tame_fill _ _ _).then fun _ => (tame_direct _).then fun opened => ?_)
  split
  · exact ((tame_caseResult _ _).then fun _ => tame_countFailure).mono (by decide)
  · exact tame_aioFile bytes seed _ odirect

/-- Seven failures at most: one of the copies, and three with each file. -/
theorem tame_ioTests (aio : AioMode) (p : Process) (t : List SHEvent) :
    (ioTests bytes seed aio).Meets (fun _ _ c => inner c = true) p t fun _ p' t' =>
      Leaves 7 { p with failures := 0 } t p' t' := by
  have hacl : Tame 1 (Proc.tryCatch (aclCase bytes seed) fun _ => aclFailed) := by
    refine (tame_aclCase bytes seed).tryCatch (k := 1) fun _ => ?_
    refine tame_countFailure.bind (k := 0) fun _ => (tame_caseResult _ _).then fun _ => ?_
    exact tame_get.then fun p => Tame.onlyIf ((tame_check rfl).then fun _ => tame_pure _)
  have hrequests : Tame 6 (aioRequests bytes seed aio) := by
    refine (tame_check rfl).then fun _ => (tame_fill _ _ _).then fun _ => ?_
    exact Tame.bind (k := 0) (tame_forM (tame_aioTests bytes seed aio) [false, true]) fun _ =>
      (tame_direct _).then fun _ => tame_pure _
  have hbody : Tame 7 (ioTestsBody bytes seed aio) := by
    refine hacl.bind (k := 6) fun _ => hrequests.onlyIf.bind (k := 0) fun _ => ?_
    exact (tame_fill _ _ _).then fun _ => tame_get.then fun p => tame_pure _
  have hscope : ∀ body : SH ℕ, Tame 7 body → Tame 7 (withAcl body) := by
    intro body hbody
    unfold withAcl
    refine Tame.then (tame_modify (by exact fun _ => ⟨le_rfl, rfl, rfl, rfl, rfl⟩)) fun _ => ?_
    refine Tame.bind (k := 0) (hbody.tryCatch (k := 0) fun error => ?_) fun _ => ?_
    · exact tame_destroyAcl.then fun _ => tame_throw error
    · exact tame_destroyAcl.then fun _ => tame_pure _
  unfold ioTests
  rw [Proc.meets_bind, Proc.meets_modify]
  exact hscope _ hbody { p with failures := 0 } t

end IoTests

end SharingProbe.HostShare
