import SharingProbe.Library.Hoare
import SharingProbe.Library.Progress
import SharingProbe.Share.Model

/-!
# Triples for the common procedures

A condition on the process and the calls so far may be kept by a call whatever its answer
is.  A procedure that makes only such calls keeps it, whether it returns or throws.
-/

namespace SharingProbe.Share

open Interaction

/-! ## Failures -/

/-- A cleanup call fails. -/
def cleanupFails : (c : Call) → Call.Reply c → Bool
  | .cleanup _ _, r => r.ret != 0
  | _, _ => false

/-- Some cleanup call has failed. -/
def CleanupFailed (t : List SHEvent) : Prop := ∃ e ∈ t, cleanupFails e.call e.reply = true

theorem cleanupFailed_concat {t : List SHEvent} {e : SHEvent} :
    CleanupFailed (t ++ [e]) ↔ CleanupFailed t ∨ cleanupFails e.call e.reply = true := by
  simp [CleanupFailed, or_and_right, exists_or]

/-- A comparison fails. -/
def mismatch : (c : Call) → Call.Reply c → Bool
  | .compare _ _ expected _, actual => actual != expected
  | _, _ => false

variable {ok : List SHEvent → Process → Call → Prop} {P I : Process → List SHEvent → Prop}
  {E : Process → List SHEvent → Prop}

/-! ## Single calls -/

theorem triple_fail {α : Type} {Q : α → Process → List SHEvent → Prop} {what : String}
    (h : ∀ p t, P p t → E p t) : Proc.Triple ok P (fail what : SH α) Q E :=
  Proc.triple_throw h

/-- A call that throws if it fails. -/
theorem triple_check {op : Op} {name : String} {Q : Answer → Process → List SHEvent → Prop}
    (hok : ∀ p t, P p t → ok t p (.check op name))
    (hpass : ∀ p t (r : Answer), P p t → r.ret = 0 → Q r p (t ++ [⟨p, .check op name, r⟩]))
    (hfail : ∀ p t (r : Answer), P p t → r.ret ≠ 0 → E p (t ++ [⟨p, .check op name, r⟩])) :
    Proc.Triple ok P (check op name) Q E := by
  unfold check
  refine Proc.Triple.bind (Q := fun (r : Answer) p t' => ∃ t, P p t ∧
    t' = t ++ [⟨p, .check op name, r⟩]) (Proc.triple_ask hok fun p t r h => ⟨t, h, rfl⟩) ?_
  intro r
  split
  · rename_i hret
    apply triple_fail
    rintro p t' ⟨t, h, rfl⟩
    exact hfail p t r h hret
  · rename_i hret
    apply Proc.triple_pure
    rintro p t' ⟨t, h, rfl⟩
    exact hpass p t r h (not_not.mp hret)

/-- A call that throws if it fails, and else leaves something in a variable. -/
theorem triple_check_modify {α : Type} {op : Op} {name : String} {f : Answer → Process → Process}
    {k : Answer → SH α} {Q : Answer → Process → List SHEvent → Prop}
    {Q' : α → Process → List SHEvent → Prop} (hok : ∀ p t, P p t → ok t p (.check op name))
    (hpass : ∀ p t (r : Answer), P p t → r.ret = 0 →
      Q r (f r p) (t ++ [⟨p, .check op name, r⟩]))
    (hfail : ∀ p t (r : Answer), P p t → r.ret ≠ 0 → E p (t ++ [⟨p, .check op name, r⟩]))
    (hk : ∀ r, Proc.Triple ok (Q r) (k r) Q' E) :
    Proc.Triple ok P (check op name >>= fun r => Proc.modify (f r) >>= fun _ => k r) Q' E := by
  refine Proc.Triple.bind (triple_check (Q := fun r p t => Q r (f r p) t) hok hpass hfail)
    fun r => ?_
  exact Proc.Triple.bind (Q := fun _ => Q r) (Proc.triple_modify fun _ _ h => h) fun _ => hk r

/-- The same at the end of a procedure. -/
theorem triple_check_set {op : Op} {name : String} {f : Answer → Process → Process}
    {Q : PUnit → Process → List SHEvent → Prop} (hok : ∀ p t, P p t → ok t p (.check op name))
    (hpass : ∀ p t (r : Answer), P p t → r.ret = 0 →
      Q ⟨⟩ (f r p) (t ++ [⟨p, .check op name, r⟩]))
    (hfail : ∀ p t (r : Answer), P p t → r.ret ≠ 0 → E p (t ++ [⟨p, .check op name, r⟩])) :
    Proc.Triple ok P (check op name >>= fun r => Proc.modify (f r)) Q E :=
  Proc.Triple.bind (triple_check (Q := fun r p t => Q ⟨⟩ (f r p) t) hok hpass hfail)
    fun _ => Proc.triple_modify fun _ _ h => h

/-- A call whose failure is only noted. -/
theorem triple_cleanup {op : Op} {name : String} {Q : PUnit → Process → List SHEvent → Prop}
    (hok : ∀ p t, P p t → ok t p (.cleanup op name))
    (hpass : ∀ p t (r : Answer), P p t → r.ret = 0 → Q ⟨⟩ p (t ++ [⟨p, .cleanup op name, r⟩]))
    (hfail : ∀ p t (r : Answer), P p t → r.ret ≠ 0 →
      Q ⟨⟩ { p with cleanupFailed := true } (t ++ [⟨p, .cleanup op name, r⟩])) :
    Proc.Triple ok P (cleanup op name) Q E := by
  unfold cleanup
  refine Proc.Triple.bind (Q := fun (r : Answer) p t' => ∃ t, P p t ∧
    t' = t ++ [⟨p, .cleanup op name, r⟩]) (Proc.triple_ask hok fun p t r h => ⟨t, h, rfl⟩) ?_
  intro r
  apply Proc.triple_onlyIf
  · intro hret
    apply Proc.triple_modify
    rintro p t' ⟨t, h, rfl⟩
    exact hfail p t r h hret
  · rintro hret p t' ⟨t, h, rfl⟩
    exact hpass p t r h (not_not.mp hret)

/-- A word is sent, or the peer is gone. -/
theorem triple_send {fd : ℕ} {message : Message} {Q : PUnit → Process → List SHEvent → Prop}
    (hok : ∀ p t, P p t → ok t p (.send fd message))
    (hsent : ∀ p t, P p t → Q ⟨⟩ p (t ++ [⟨p, .send fd message, true⟩]))
    (hgone : ∀ p t, P p t → E p (t ++ [⟨p, .send fd message, false⟩])) :
    Proc.Triple ok P (sendWord fd message) Q E := by
  unfold sendWord
  refine Proc.Triple.bind (Q := fun (sent : Bool) p t' => ∃ t, P p t ∧
    t' = t ++ [⟨p, .send fd message, sent⟩]) (Proc.triple_ask hok fun p t r h => ⟨t, h, rfl⟩) ?_
  intro sent
  apply Proc.triple_onlyIf
  · rintro rfl
    apply triple_fail
    rintro p _ ⟨t, h, rfl⟩
    exact hgone p t h
  · rintro hsends p _ ⟨t, h, rfl⟩
    obtain rfl : sent = true := by simpa using hsends
    exact hsent p t h

/-- A word is received, or there is none. -/
theorem triple_receive {fd : ℕ} {expects : Purpose} {Q : UInt64 → Process → List SHEvent → Prop}
    (hok : ∀ p t, P p t → ok t p (.receive fd expects))
    (hreceived : ∀ p t (m : Message), P p t →
      Q m.word p (t ++ [⟨p, .receive fd expects, some m⟩]))
    (hgone : ∀ p t, P p t → E p (t ++ [⟨p, .receive fd expects, none⟩])) :
    Proc.Triple ok P (receiveWord fd expects) Q E := by
  unfold receiveWord
  refine Proc.Triple.bind (Q := fun (received : Option Message) p t' => ∃ t, P p t ∧
    t' = t ++ [⟨p, .receive fd expects, received⟩]) (Proc.triple_ask hok fun p t r h =>
      ⟨t, h, rfl⟩) ?_
  intro received
  cases received with
  | none =>
      apply triple_fail
      rintro p _ ⟨t, h, rfl⟩
      exact hgone p t h
  | some m =>
      apply Proc.triple_pure
      rintro p _ ⟨t, h, rfl⟩
      exact hreceived p t m h

/-! ## Calls that keep a condition -/

/-- A call is allowed and keeps the condition, whatever the answer is. -/
def Keeps (ok : List SHEvent → Process → Call → Prop) (I : Process → List SHEvent → Prop)
    (c : Call) : Prop :=
  (∀ p t, I p t → ok t p c) ∧ ∀ p t r, I p t → I p (t ++ [⟨p, c, r⟩])

/-- A call of `cleanup` keeps the condition; if it fails, that is noted. -/
def KeepsCleanup (ok : List SHEvent → Process → Call → Prop) (I : Process → List SHEvent → Prop)
    (op : Op) (name : String) : Prop :=
  (∀ p t, I p t → ok t p (.cleanup op name)) ∧ ∀ p t (r : Answer), I p t →
    I (if r.ret = 0 then p else { p with cleanupFailed := true })
      (t ++ [⟨p, .cleanup op name, r⟩])

theorem triple_keeps {c : Call} (hc : Keeps ok I c) :
    Proc.Triple ok I (Proc.ask (R := Call.Reply) c : SH (Call.Reply c)) (fun _ => I) E :=
  Proc.triple_ask hc.1 hc.2

theorem triple_keeps_check {op : Op} {name : String} (hc : Keeps ok I (.check op name)) :
    Proc.Triple ok I (check op name) (fun _ => I) I :=
  triple_check hc.1 (fun p t r h _ => hc.2 p t r h) fun p t r h _ => hc.2 p t r h

theorem triple_keeps_cleanup {op : Op} {name : String} (hc : KeepsCleanup ok I op name) :
    Proc.Triple ok I (cleanup op name) (fun _ => I) E := by
  apply triple_cleanup hc.1
  · intro p t r h hret
    simpa [hret] using hc.2 p t r h
  · intro p t r h hret
    simpa [hret] using hc.2 p t r h

theorem triple_keeps_fail {α : Type} {Q : α → Process → List SHEvent → Prop} {what : String} :
    Proc.Triple ok I (fail what : SH α) Q I :=
  triple_fail fun _ _ h => h

theorem triple_checkWord (word : UInt64) (name : String) :
    Proc.Triple ok I (checkWord word name) (fun _ => I) I :=
  Proc.triple_onlyIf (fun _ => triple_keeps_fail) fun _ _ _ h => h

theorem triple_sendWord {fd : ℕ} {message : Message} (hc : Keeps ok I (.send fd message)) :
    Proc.Triple ok I (sendWord fd message) (fun _ => I) I := by
  unfold sendWord
  refine (triple_keeps hc).bind fun sent => ?_
  exact Proc.triple_onlyIf (fun _ => triple_keeps_fail) fun _ _ _ h => h

theorem triple_receiveWord {fd : ℕ} {expects : Purpose} (hc : Keeps ok I (.receive fd expects)) :
    Proc.Triple ok I (receiveWord fd expects) (fun _ => I) I := by
  unfold receiveWord
  refine (triple_keeps hc).bind fun received => ?_
  cases received with
  | some message => exact Proc.triple_pure fun _ _ h => h
  | none => exact triple_keeps_fail

theorem triple_fill {buffer : Buffer} {bytes : ℕ} {seed : UInt64}
    (hc : ∀ i value, Keeps ok I (.store buffer i value)) :
    Proc.Triple ok I (fill buffer bytes seed) (fun _ => I) E :=
  Proc.triple_forM fun i _ => triple_keeps (hc i _)

theorem triple_verify {buffer : Buffer} {bytes : ℕ} {seed : UInt64} {phase : String}
    (hc : ∀ i value, Keeps ok I (.compare buffer i value phase)) :
    Proc.Triple ok I (verify buffer bytes seed phase) (fun _ => I) I := by
  apply Proc.triple_forM
  intro i _
  refine (triple_keeps (hc i _)).bind fun actual => ?_
  exact Proc.triple_onlyIf (fun _ => triple_keeps_fail) fun _ _ _ h => h

/-- `AclResources::~AclResources`. -/
theorem triple_destroyAcl_keeps (hsync : KeepsCleanup ok I .aclrtSynchronizeStream
      "aclrtSynchronizeStream")
    (hevent : KeepsCleanup ok I .aclrtDestroyEvent "aclrtDestroyEvent")
    (hstream : KeepsCleanup ok I .aclrtDestroyStream "aclrtDestroyStream")
    (hfree : KeepsCleanup ok I .aclrtFree "aclrtFree") :
    Proc.Triple ok I destroyAcl (fun _ => I) E := by
  have hclean : ∀ {c : Prop} [Decidable c] {op name}, KeepsCleanup ok I op name →
      Proc.Triple ok I (Proc.onlyIf c (cleanup op name)) (fun _ => I) E :=
    fun h => Proc.triple_onlyIf (fun _ => triple_keeps_cleanup h) fun _ _ _ h => h
  unfold destroyAcl
  refine Proc.Triple.bind (Q := fun _ => I) (Proc.triple_get fun _ _ h => h) fun p => ?_
  refine (hclean hsync).bind fun _ => ?_
  refine (hclean hevent).bind fun _ => ?_
  exact (hclean hstream).bind fun _ => hclean hfree

/-- `aio_operation`, where the condition does not depend on the context. -/
theorem triple_aioOperation {fd : ℕ} {buffer : Buffer} {bytes : ℕ} {write : Bool}
    (hsubmit : ∀ ctx, Keeps ok I (.direct (.ioSubmit ctx (requests fd buffer bytes write))))
    (hevents : ∀ ctx, Keeps ok I (.direct (.ioGetevents ctx)))
    (hdestroy : ∀ ctx name, KeepsCleanup ok I (.ioDestroy ctx) name)
    (hctx : ∀ p t ctx, I p t → I { p with ctx := ctx } t) :
    Proc.Triple ok I (aioOperation fd buffer bytes write) (fun _ => I) I := by
  have hquiesce : ∀ ctx name what, Proc.Triple ok I (do
      cleanup (.ioDestroy ctx) name
      Proc.modify fun p => { p with ctx := 0 }
      fail what : SH PUnit) (fun _ => I) I := by
    intro ctx name what
    refine (triple_keeps_cleanup (hdestroy ctx name)).bind fun _ => ?_
    refine Proc.Triple.bind (Q := fun _ => I) ?_ fun _ => triple_keeps_fail
    exact Proc.triple_modify fun p t h => hctx p t 0 h
  unfold aioOperation
  refine Proc.Triple.bind (Q := fun _ => I) (Proc.triple_get fun _ _ h => h) fun p => ?_
  refine (triple_keeps (hsubmit p.ctx)).bind fun submitted => ?_
  refine Proc.Triple.bind (Q := fun _ => I)
    (Proc.triple_onlyIf (fun _ => hquiesce _ _ _) fun _ _ _ h => h) fun _ => ?_
  refine (triple_keeps (hevents p.ctx)).bind fun completed => ?_
  refine Proc.Triple.bind (Q := fun _ => I)
    (Proc.triple_onlyIf (fun _ => hquiesce _ _ _) fun _ _ _ h => h) fun _ => ?_
  exact Proc.triple_onlyIf (fun _ => triple_keeps_fail) fun _ _ _ h => h

/-! ## Procedures that never give up -/

section Whole

open Proc

theorem whole_fail {α : Type} (what : String) : (fail what : SH α).Whole := whole_throw what

theorem whole_check (op : Op) (name : String) : (check op name).Whole := by
  refine (whole_ask _).bind fun r => ?_
  split
  · exact whole_fail name
  · exact whole_pure _

theorem whole_cleanup (op : Op) (name : String) : (cleanup op name).Whole :=
  (whole_ask _).bind fun _ => (whole_modify _).onlyIf

theorem whole_direct (op : Op) : (direct op).Whole := whole_ask _

theorem whole_checkWord (word : UInt64) (name : String) : (checkWord word name).Whole :=
  (whole_fail name).onlyIf

theorem whole_sendWord (fd : ℕ) (message : Message) : (sendWord fd message).Whole :=
  (whole_ask _).bind fun _ => (whole_fail _).onlyIf

theorem whole_receiveWord (fd : ℕ) (expects : Purpose) : (receiveWord fd expects).Whole := by
  refine (whole_ask _).bind fun r => ?_
  cases r with
  | some m => exact whole_pure _
  | none => exact whole_fail _

theorem whole_fill (buffer : Buffer) (bytes : ℕ) (seed : UInt64) : (fill buffer bytes seed).Whole :=
  whole_forM fun _ => whole_ask _

theorem whole_verify (buffer : Buffer) (bytes : ℕ) (seed : UInt64) (phase : String) :
    (verify buffer bytes seed phase).Whole :=
  whole_forM fun _ => (whole_ask _).bind fun _ => (whole_fail _).onlyIf

theorem whole_clear (buffer : Buffer) : (clear buffer).Whole := whole_ask _

theorem whole_aioOperation (fd : ℕ) (buffer : Buffer) (bytes : ℕ) (write : Bool) :
    (aioOperation fd buffer bytes write).Whole := by
  have hquiesce : ∀ ctx name what, (do
      cleanup (.ioDestroy ctx) name
      Proc.modify fun p => { p with ctx := 0 }
      fail what : SH PUnit).Whole := by
    intro ctx name what
    exact (whole_cleanup _ _).bind fun _ => (whole_modify _).bind fun _ => whole_fail what
  refine whole_get.bind fun p => (whole_direct _).bind fun submitted => ?_
  refine (hquiesce _ _ _).onlyIf.bind fun _ => (whole_direct _).bind fun completed => ?_
  exact (hquiesce _ _ _).onlyIf.bind fun _ => (whole_fail _).onlyIf

theorem whole_destroyAcl : destroyAcl.Whole := by
  refine whole_get.bind fun p => (whole_cleanup _ _).onlyIf.bind fun _ => ?_
  refine (whole_cleanup _ _).onlyIf.bind fun _ => (whole_cleanup _ _).onlyIf.bind fun _ => ?_
  exact (whole_cleanup _ _).onlyIf

end Whole

end SharingProbe.Share
