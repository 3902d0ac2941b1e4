import SharingProbe.MultiShare.Passing

/-!
# The verdict

`main` reports success only if nothing has failed in any process.  A worker goes on after a call
only if the call has passed, and returns 0 only if no cleanup call has failed; the coordinator
returns 0 only if it has waited for every worker and has been told 0 by each.
-/

namespace SharingProbe.MultiShare

open Interaction Network Transition Share

/-! ## What a worker goes on after -/

section Worker

variable (cfg : Config) (rank : ℕ)

/-- The `try` block goes on after this.  A cleanup call that fails is only noted, and what a word
was meant as is not looked at. -/
def goesOn : (c : Share.Call) → Share.Call.Reply c → Bool
  | .cleanup _ _, _ => true
  | .direct (.openFile _), r => decide (0 ≤ r.ret)
  | .receive _ expects, received => received.any fun m => expects != .barrier || m.word == 0
  | c, r => passes cfg rank c r

/-- It has gone on after every call. -/
def Passed (t : List SHEvent) : Prop := ∀ e ∈ t, goesOn cfg rank e.call e.reply = true

/-- It has gone on after every call but the last one, which is this. -/
def Examines (c : Share.Call) (r : Share.Call.Reply c) (t : List SHEvent) : Prop :=
  ∃ p t₁, Passed cfg rank t₁ ∧ t = t₁ ++ [⟨p, c, r⟩]

/-- A procedure that goes on only after calls that have passed. -/
def Strict {α : Type} (m : SH α) : Prop :=
  Proc.Triple (fun _ _ _ => True) (fun _ t => Passed cfg rank t) m (fun _ _ t => Passed cfg rank t)
    fun _ _ => True

/-- A procedure that ends with an exception. -/
def Throws {α : Type} (m : SH α) : Prop :=
  Proc.Triple (fun _ _ _ => True) (fun _ _ => True) m (fun _ _ _ => False) fun _ _ => True

variable {cfg rank} {α β : Type}

theorem goesOn_check (op : Share.Op) (name : String) (r : Answer) :
    goesOn cfg rank (.check op name) r = passes cfg rank (.check op name) r := rfl

theorem goesOn_compare (b : Buffer) (i : ℕ) (expected actual : UInt64) (phase : String) :
    goesOn cfg rank (.compare b i expected phase) actual = (actual == expected) := rfl

theorem goesOn_receive (fd : ℕ) (expects : Purpose) (received : Option Message) :
    goesOn cfg rank (.receive fd expects) received =
      received.any fun m => expects != .barrier || m.word == 0 := rfl

theorem goesOn_openFile (direct : Bool) (r : Answer) :
    goesOn cfg rank (.direct (.openFile direct)) r = decide (0 ≤ r.ret) := rfl

theorem goesOn_direct {op : Share.Op} (hop : ∀ direct, op ≠ .openFile direct) (r : Answer) :
    goesOn cfg rank (.direct op) r = passes cfg rank (.direct op) r := by
  cases op with
  | openFile direct => exact absurd rfl (hop direct)
  | _ => rfl

theorem passed_concat {t : List SHEvent} {e : SHEvent} (h : Passed cfg rank t)
    (he : goesOn cfg rank e.call e.reply = true) : Passed cfg rank (t ++ [e]) := by
  intro e' he'
  rcases List.mem_append.mp he' with he' | he'
  · exact h e' he'
  · rw [List.mem_singleton.mp he']
    exact he

/-! ### Procedures that throw -/

theorem throws_fail (what : String) : Throws (fail what : SH α) :=
  Proc.triple_throw fun _ _ h => h

/-- Whatever comes before the exception. -/
theorem Throws.after {m : SH α} {k : α → SH β} (hk : ∀ a, Throws (k a)) : Throws (m >>= k) :=
  Proc.triple_any.bind hk

/-! ### Procedures that go on -/

theorem Strict.bind {m : SH α} {k : α → SH β} (hm : Strict cfg rank m)
    (hk : ∀ a, Strict cfg rank (k a)) : Strict cfg rank (m >>= k) :=
  Proc.Triple.bind (Q := fun _ _ t => Passed cfg rank t) hm hk

theorem strict_pure (a : α) : Strict cfg rank (pure a) := Proc.triple_pure fun _ _ h => h

theorem strict_get : Strict cfg rank (Proc.get : SH Process) := Proc.triple_get fun _ _ h => h

theorem strict_modify (f : Process → Process) : Strict cfg rank (Proc.modify f) :=
  Proc.triple_modify fun _ _ h => h

theorem strict_forM {ι : Type} {xs : List ι} {f : ι → SH PUnit} (hf : ∀ x, Strict cfg rank (f x)) :
    Strict cfg rank (xs.forM f) :=
  Proc.triple_forM fun x _ => hf x

theorem strict_onlyIf {c : Prop} [Decidable c] {m : SH PUnit} (hm : Strict cfg rank m) :
    Strict cfg rank (Proc.onlyIf c m) :=
  Proc.triple_onlyIf (fun _ => hm) fun _ _ _ h => h

/-- The handler throws again. -/
theorem strict_tryCatch {m : SH α} {handler : String → SH α} (hm : Strict cfg rank m)
    (hhandler : ∀ e, Throws (handler e)) : Strict cfg rank (Proc.tryCatch m handler) :=
  hm.tryCatch fun e => (hhandler e).weaken (fun _ _ h => h) (fun _ _ _ h => h.elim) fun _ _ h => h

/-- A call after which the block always goes on. -/
theorem strict_ask {c : Share.Call} (hc : ∀ r, goesOn cfg rank c r = true) :
    Strict cfg rank (Proc.ask (R := Share.Call.Reply) c : SH (Share.Call.Reply c)) :=
  Proc.triple_ask (fun _ _ _ => trivial) fun p _ r h => passed_concat (e := ⟨p, c, r⟩) h (hc r)

theorem strict_check {op : Share.Op} {name : String}
    (hop : ∀ r : Answer, r.ret = 0 → goesOn cfg rank (.check op name) r = true) :
    Strict cfg rank (check op name) :=
  triple_check (fun _ _ _ => trivial)
    (fun p _ r h hret => passed_concat (e := ⟨p, .check op name, r⟩) h (hop r hret))
    fun _ _ _ _ _ => trivial

/-- A check of which only the result is looked at. -/
theorem strict_check_plain {op : Share.Op} {name : String}
    (hop : ∀ r : Answer, passes cfg rank (.check op name) r = (r.ret == 0 && true)) :
    Strict cfg rank (check op name) := by
  refine strict_check fun r h => ?_
  rw [goesOn_check, hop, h]
  rfl

theorem strict_cleanup (op : Share.Op) (name : String) : Strict cfg rank (cleanup op name) :=
  triple_cleanup (fun _ _ _ => trivial)
    (fun p _ r h _ => passed_concat (e := ⟨p, .cleanup op name, r⟩) h rfl)
    fun p _ r h _ => passed_concat (e := ⟨p, .cleanup op name, r⟩) h rfl

/-- The answer of a call is examined. -/
theorem triple_examines (c : Share.Call) {E : Process → List SHEvent → Prop} :
    Proc.Triple (fun _ _ _ => True) (fun _ t => Passed cfg rank t)
      (Proc.ask (R := Share.Call.Reply) c : SH (Share.Call.Reply c))
      (fun r _ t => Examines cfg rank c r t) E :=
  Proc.triple_ask (fun _ _ _ => trivial) fun p t _ h => ⟨p, t, h, rfl⟩

theorem triple_checks (op : Share.Op) (name : String) :
    Proc.Triple (fun _ _ _ => True) (fun _ t => Passed cfg rank t) (check op name)
      (fun r _ t => r.ret = 0 ∧ Examines cfg rank (.check op name) r t) fun _ _ => True :=
  triple_check (fun _ _ _ => trivial) (fun p t _ h hret => ⟨hret, p, t, h, rfl⟩)
    fun _ _ _ _ _ => trivial

/-- The block goes on if the answer is as it should be. -/
theorem triple_examined {c : Share.Call} {r : Share.Call.Reply c} {A bad : Prop} [Decidable bad]
    {m : SH PUnit} (hm : Throws m) (hgood : A → ¬bad → goesOn cfg rank c r = true) :
    Proc.Triple (fun _ _ _ => True) (fun _ t => A ∧ Examines cfg rank c r t) (Proc.onlyIf bad m)
      (fun _ _ t => Passed cfg rank t) fun _ _ => True := by
  apply Proc.triple_onlyIf
  · exact fun _ => hm.weaken (fun _ _ _ => trivial) (fun _ _ _ h => h.elim) fun _ _ h => h
  · rintro hnot p _ ⟨hA, p₁, t₁, hpassed, rfl⟩
    exact passed_concat (e := ⟨p₁, c, r⟩) hpassed (hgood hA hnot)

/-- A check and what is examined after it. -/
theorem strict_check_then {op : Share.Op} {name what : String} {bad : Answer → Prop}
    [DecidablePred bad] {k : Answer → SH α}
    (hgood : ∀ r : Answer, r.ret = 0 → ¬bad r → goesOn cfg rank (.check op name) r = true)
    (hk : ∀ r, Strict cfg rank (k r)) :
    Strict cfg rank
      (check op name >>= fun r => Proc.onlyIf (bad r) (fail what) >>= fun _ => k r) := by
  refine Proc.Triple.bind (triple_checks op name) fun r => ?_
  exact (triple_examined (throws_fail what) (hgood r)).bind fun _ => hk r

/-- The same at the end of a procedure. -/
theorem strict_check_last {op : Share.Op} {name what : String} {bad : Answer → Prop}
    [DecidablePred bad]
    (hgood : ∀ r : Answer, r.ret = 0 → ¬bad r → goesOn cfg rank (.check op name) r = true) :
    Strict cfg rank (check op name >>= fun r => Proc.onlyIf (bad r) (fail what)) :=
  Proc.Triple.bind (triple_checks op name) fun r => triple_examined (throws_fail what) (hgood r)

/-- A call and what is examined after it. -/
theorem strict_direct_then {op : Share.Op} {bad : Answer → Prop} [DecidablePred bad]
    {m : Answer → SH PUnit} {k : Answer → SH α} (hm : ∀ r, Throws (m r))
    (hgood : ∀ r : Answer, ¬bad r → goesOn cfg rank (.direct op) r = true)
    (hk : ∀ r, Strict cfg rank (k r)) :
    Strict cfg rank (direct op >>= fun r => Proc.onlyIf (bad r) (m r) >>= fun _ => k r) := by
  refine Proc.Triple.bind (triple_examines (.direct op)) fun r => ?_
  refine Proc.Triple.bind (Q := fun _ _ t => Passed cfg rank t) ?_ fun _ => hk r
  exact (triple_examined (A := True) (hm r) fun _ => hgood r).weaken (fun _ _ h => ⟨trivial, h⟩)
    (fun _ _ _ h => h) fun _ _ h => h

/-! ### The pieces of the block -/

theorem strict_sendWord (m : Message) : Strict cfg rank (sendWord 0 m) :=
  triple_send (fun _ _ _ => trivial)
    (fun p _ h => passed_concat (e := ⟨p, .send 0 m, true⟩) h rfl) fun _ _ _ => trivial

theorem strict_receiveToken : Strict cfg rank (receiveWord 0 .token) :=
  triple_receive (fun _ _ _ => trivial)
    (fun p _ m h => passed_concat (e := ⟨p, .receive 0 .token, some m⟩) h rfl) fun _ _ _ => trivial

theorem strict_barrier : Strict cfg rank barrier := by
  refine (strict_sendWord _).bind fun _ => ?_
  refine Proc.Triple.bind (Q := fun (word : UInt64) _ t => ∃ m : Message, m.word = word ∧
    Examines cfg rank (.receive 0 .barrier) (some m) t) ?_ fun word => ?_
  · exact triple_receive (fun _ _ _ => trivial) (fun p t m h => ⟨m, rfl, p, t, h, rfl⟩)
      fun _ _ _ => trivial
  · apply Proc.triple_exists
    intro m
    exact triple_examined (throws_fail _) fun hm hword => by
      simp only [ne_eq, not_not] at hword
      simp [goesOn_receive, hm, hword]

theorem strict_fill (b : Buffer) (bytes : ℕ)
    (seed : UInt64) : Strict cfg rank (fill b bytes seed) :=
  strict_forM fun _ => strict_ask fun _ => rfl

theorem strict_clear (b : Buffer) : Strict cfg rank (clear b) := strict_ask fun _ => rfl

theorem strict_verify (b : Buffer) (bytes : ℕ) (seed : UInt64) (phase : String) :
    Strict cfg rank (verify b bytes seed phase) := by
  refine strict_forM fun i => ?_
  refine Proc.Triple.bind (triple_examines (.compare b i (pattern i seed) phase)) fun actual => ?_
  refine (triple_examined (A := True) (throws_fail phase) fun _ hsame => ?_).weaken
    (fun _ _ h => ⟨trivial, h⟩) (fun _ _ _ h => h) fun _ _ h => h
  simpa [goesOn_compare] using hsame

theorem strict_setUpDevice : Strict cfg rank (setUpDevice cfg rank) := by
  unfold setUpDevice
  refine (strict_check_plain fun _ => by rfl).bind fun _ => ?_
  refine (strict_check_plain fun _ => by rfl).bind fun _ => ?_
  refine (strict_modify _).bind fun _ => ?_
  refine (strict_check_plain fun _ => by rfl).bind fun _ => ?_
  refine (strict_modify _).bind fun _ => ?_
  refine strict_check_then (fun r h hgood => ?_) fun r => strict_check_last fun r h hgood => ?_
  · simp [goesOn_check, passes, h, hgood]
  · simpa [goesOn_check, passes, h] using hgood

theorem strict_exportOwn : Strict cfg rank (exportOwn cfg rank) := by
  unfold exportOwn
  refine Proc.Triple.bind (triple_checks _ _) fun base => ?_
  refine Proc.Triple.bind (Q := fun _ _ t => base.ret = 0 ∧
    Examines cfg rank (.check (.halMemAddressReserve cfg.reserveBytes) _) base t)
    (Proc.triple_modify fun _ _ h => h) fun _ => ?_
  refine (triple_examined (throws_fail _) fun h hgood => ?_).bind fun _ => ?_
  · simpa [goesOn_check, passes, h] using hgood
  refine (strict_check_plain fun _ => by rfl).bind fun created => ?_
  refine (strict_modify _).bind fun _ => (strict_ask fun _ => rfl).bind fun query => ?_
  refine (strict_onlyIf (strict_check_last fun r h hgood => ?_)).bind fun _ => ?_
  · simpa [goesOn_check, passes, h] using hgood
  refine (strict_check_plain fun _ => by rfl).bind fun token => ?_
  exact (strict_check_plain fun _ => by rfl).bind fun _ => strict_sendWord _

theorem strict_importSlice (owner : ℕ) : Strict cfg rank (importSlice rank owner) := by
  unfold importSlice
  refine strict_receiveToken.bind fun token => (strict_onlyIf ?_).bind fun _ => ?_
  · exact (strict_check_plain fun _ => by rfl).bind fun _ => strict_modify _
  · refine strict_get.bind fun p => ?_
    exact (strict_check_plain fun _ => by rfl).bind fun _ => strict_modify _

theorem strict_aioOperation (fd : ℕ) (b : Buffer) (write : Bool) :
    Strict cfg rank (aioOperation fd b cfg.bytes write) := by
  have hquiesce : ∀ ctx name what, Throws (do
      cleanup (.ioDestroy ctx) name
      Proc.modify fun p => { p with ctx := 0 }
      fail what : SH PUnit) := fun _ _ _ => Throws.after fun _ => Throws.after fun _ =>
        throws_fail _
  unfold aioOperation
  refine strict_get.bind fun p => ?_
  refine strict_direct_then (fun _ => hquiesce _ _ _) (fun r hgood => ?_) fun _ => ?_
  · rw [goesOn_direct (by simp)]
    simpa [passes] using hgood
  refine Proc.Triple.bind (triple_examines (.direct (.ioGetevents p.ctx))) fun completed => ?_
  refine Proc.Triple.bind (Q := fun _ _ t => completed.ret = 4 ∧
    Examines cfg rank (.direct (.ioGetevents p.ctx)) completed t) ?_ fun _ => ?_
  · refine Proc.triple_onlyIf (fun _ => ?_) fun hnot _ _ h => ⟨not_not.mp hnot, h⟩
    exact (hquiesce _ _ _).weaken (fun _ _ _ => trivial) (fun _ _ _ h => h.elim) fun _ _ h => h
  · refine triple_examined (throws_fail _) fun h hgood => ?_
    rw [goesOn_direct (by simp)]
    simpa [passes, h] using hgood

theorem strict_bufferedAio (seed : UInt64) : Strict cfg rank (bufferedAio cfg rank seed) := by
  have htransfers : ∀ fd, Strict cfg rank (aioTransfers cfg rank fd seed) := by
    intro fd
    unfold aioTransfers
    refine (strict_check_plain fun _ => by rfl).bind fun _ => ?_
    refine (strict_modify _).bind fun _ => (strict_aioOperation _ _ _).bind fun _ => ?_
    refine (strict_clear _).bind fun _ => (strict_aioOperation _ _ _).bind fun _ => ?_
    refine (strict_verify _ _ _ _).bind fun _ => ?_
    refine (strict_check_plain fun _ => by rfl).bind fun _ => ?_
    refine (strict_aioOperation _ _ _).bind fun _ => (strict_clear _).bind fun _ => ?_
    exact (strict_aioOperation _ _ _).bind fun _ => strict_verify _ _ _ _
  unfold bufferedAio
  refine (strict_fill _ _ _).bind fun _ => ?_
  refine strict_direct_then (fun _ => throws_fail _) (fun r hgood => ?_) fun opened => ?_
  · simpa [goesOn_openFile] using hgood
  refine strict_direct_then (fun _ => Throws.after fun _ => throws_fail _) (fun r hgood => ?_)
    fun _ => ?_
  · rw [goesOn_direct (by simp)]
    simpa [passes] using hgood
  refine (strict_modify _).bind fun _ => (strict_tryCatch (htransfers _) fun error => ?_).bind
    fun _ => strict_get.bind fun p => (strict_cleanup _ _).bind fun _ => strict_cleanup _ _
  exact Throws.after fun _ => Throws.after fun _ => Throws.after fun _ =>
    Proc.triple_throw fun _ _ h => h

theorem strict_readRound (round : ℕ) : Strict cfg rank (readRound cfg rank round) := by
  have hcopy : ∀ dst src purpose, Strict cfg rank (copy dst src round purpose) := fun _ _ _ =>
    (strict_check_plain fun _ => by rfl).bind fun _ =>
      (strict_check_plain fun _ => by rfl).bind fun _ => strict_pure _
  have hblock : ∀ owner, Strict cfg rank (readBlock cfg round owner) := fun _ =>
    (strict_check_plain fun _ => by rfl).bind fun _ => (hcopy _ _ _).bind fun _ =>
      (strict_clear _).bind fun _ => (hcopy _ _ _).bind fun _ => strict_verify _ _ _ _
  unfold readRound
  refine (strict_fill _ _ _).bind fun _ => (strict_verify _ _ _ _).bind fun _ => ?_
  refine strict_barrier.bind fun _ => (strict_forM hblock).bind fun _ => ?_
  exact (strict_verify _ _ _ _).bind fun _ => strict_barrier

theorem strict_readRounds : Strict cfg rank (readRounds cfg rank) := by
  have hclean : ∀ {c : Prop} [Decidable c] {op : Share.Op} {name : String},
      Strict cfg rank (Proc.onlyIf c (cleanup op name)) := strict_onlyIf (strict_cleanup _ _)
  have hdestroy : Strict cfg rank destroyAcl :=
    strict_get.bind fun _ => hclean.bind fun _ => hclean.bind fun _ => hclean.bind fun _ => hclean
  unfold readRounds withAcl
  refine (strict_modify _).bind fun _ => (strict_tryCatch ?_ fun error => ?_).bind fun _ =>
    hdestroy.bind fun _ => strict_pure _
  · refine (strict_check_plain fun _ => by rfl).bind fun _ => ?_
    refine (strict_modify _).bind fun _ => strict_check_then (fun r h hgood => ?_) fun _ => ?_
    · simpa [goesOn_check, passes, h] using hgood
    refine (strict_check_plain fun _ => by rfl).bind fun _ => ?_
    exact (strict_modify _).bind fun _ => strict_forM strict_readRound
  · exact Throws.after fun _ => Proc.triple_throw fun _ _ h => h

theorem strict_workerBody : Strict cfg rank (workerBody cfg rank) := by
  have hunmap : ∀ i, Strict cfg rank (unmapSlice i) := fun _ =>
    (strict_check_plain fun _ => by rfl).bind fun _ => strict_modify _
  unfold workerBody testOwn
  refine strict_setUpDevice.bind fun _ => strict_exportOwn.bind fun _ => ?_
  refine (strict_forM strict_importSlice).bind fun _ => strict_barrier.bind fun _ => ?_
  refine Strict.bind ((strict_fill _ _ _).bind fun _ => (strict_verify _ _ _ _).bind fun _ =>
    strict_bufferedAio _) fun _ => ?_
  refine strict_barrier.bind fun _ => strict_readRounds.bind fun _ =>
    strict_barrier.bind fun _ => ?_
  exact (strict_forM hunmap).bind fun _ => strict_barrier

/-- A worker that has not thrown has gone on after every call. -/
theorem passed_of_runs {t : List SHEvent} {code : ℕ} {p : Process}
    (h : (worker cfg rank {}).Runs t (.ok code, p)) (hkept : ¬BodyThrew cfg rank t) :
    Passed cfg rank t := by
  obtain ⟨y, p₁, t₁, t₂, rfl, hbody, hfinish⟩ := worker_runs h
  cases y with
  | error e => exact absurd ⟨t₁, t₂, e, p₁, rfl, hbody⟩ hkept
  | ok a =>
      have hfirst : Passed cfg rank [] := fun e he => by cases he
      have hstart : Passed cfg rank t₁ := by
        have hpost := Prog.Meets.post_of_runs (strict_workerBody {} [] hfirst) hbody
        exact hpost
      have hclean : ∀ {c : Prop} [Decidable c] {op : Share.Op} {name : String},
          Strict cfg rank (Proc.onlyIf c (cleanup op name)) := strict_onlyIf (strict_cleanup _ _)
      -- what follows the `try` block notes every failure
      have hstrict : Strict cfg rank (finish cfg rank) := by
        unfold finish workerCleanup
        refine Strict.bind ?_ fun _ => strict_get.bind fun _ => strict_pure _
        refine (strict_forM fun i => ?_).bind fun _ => ?_
        · exact strict_get.bind fun _ => hclean.bind fun _ => hclean
        refine strict_get.bind fun _ => hclean.bind fun _ => hclean.bind fun _ =>
          hclean.bind fun _ => ?_
        exact (strict_ask fun _ => rfl).bind fun _ => strict_pure _
      have hpost := Prog.Meets.post_of_runs (hstrict _ t₁ hstart) hfinish
      exact hpost

end Worker

/-! ## What the coordinator has been told -/

section Network

variable {cfg : Config} {st : Started cfg.count} {blocks : Blocks}
  {works : Member cfg.count → (c : Share.Call) → Share.Call.Reply c → Bool}
  {s : StarState cfg.count}

/-- A worker that was waited for, and of which 0 was reported, has returned 0. -/
theorem returned_of_reaped (h : Reachable (star cfg st blocks (sockets st works)).system s)
    {rank : Fin cfg.count} (hreaped : Reaped st rank (s.trace .coordinator)) :
    Returned s (.worker rank) 0 := by
  refine invariant h (fun s => ∀ rank, Reaped st rank (s.trace .coordinator) →
    Returned s (.worker rank) 0) ?_ ?_ ?_ rank hreaped
  · rintro rank ⟨p, r, hmem, -⟩
    cases hmem
  · intro s x e s' hreachable ih hcalled rank hreaped
    have hcalls := calls hcalled
    obtain ⟨next, hrest, hrest'⟩ := hcalled.rest
    -- who has returned calls nothing
    have hstays : Returned s (.worker rank) 0 → Returned s' (.worker rank) 0 := by
      rintro ⟨p, hp⟩
      have hne : Member.worker rank ≠ x := by
        rintro rfl
        rw [hrest] at hp
        cases hp
      exact ⟨p, by rw [hrest', Function.update_of_ne hne]; exact hp⟩
    apply hstays
    obtain ⟨p, r, hmem, hret, hout⟩ := hreaped
    by_cases hx : x = .coordinator
    · subst hx
      rw [hcalls.self] at hmem
      rcases List.mem_append.mp hmem with hmem | hmem
      · exact ih rank ⟨p, r, hmem, hret, hout⟩
      -- the exit status is that of a worker that has returned
      · rw [List.mem_singleton] at hmem
        have hadmits := hcalls.admitted
        rw [← hmem] at hadmits
        have hfind := (rankOf_eq_some st.child_injective (m := st.child rank)).mpr rfl
        simp only [sockets, reports, hfind, Option.elim_some, hout] at hadmits
        cases hworker : s.rest (.worker rank) with
        | ret y =>
            obtain ⟨y, p'⟩ := y
            rw [hworker] at hadmits
            cases y with
            | ok code =>
                have hzero : code = 0 := by simpa [exitStatus, hret] using hadmits
                exact ⟨p', hzero ▸ hworker⟩
            | error e => simp [exitStatus] at hadmits
        | _ =>
            rw [hworker] at hadmits
            simp at hadmits
    · rw [hcalls.others _ (Ne.symm hx)] at hmem
      exact ih rank ⟨p, r, hmem, hret, hout⟩
  · intro s d s' _ ih hdisturbed rank hreaped
    have htrace : s'.trace = s.trace := hdisturbed.trace
    have hrest : s'.rest = s.rest := hdisturbed.rest
    rw [htrace] at hreaped
    obtain ⟨p, hp⟩ := ih rank hreaped
    exact ⟨p, hrest ▸ hp⟩

/-- Every answer was possible. -/
theorem works_of_mem (h : Reachable (star cfg st blocks (sockets st works)).system s)
    {rank : Fin cfg.count} {p : Process} {op : Share.Op} {r : Answer}
    (hmem : (⟨p, .direct op, r⟩ : SHEvent) ∈ s.trace (.worker rank)) :
    works (.worker rank) (.direct op) r = true := by
  refine invariant h (fun s => ∀ p r, (⟨p, .direct op, r⟩ : SHEvent) ∈ s.trace (.worker rank) →
    works (.worker rank) (.direct op) r = true) ?_ ?_ ?_ p r hmem
  · intro p r hmem
    cases hmem
  · intro s x e s' _ ih hcalled p r hmem
    have hcalls := calls hcalled
    by_cases hx : x = .worker rank
    · subst hx
      rw [hcalls.self] at hmem
      rcases List.mem_append.mp hmem with hmem | hmem
      · exact ih p r hmem
      · rw [List.mem_singleton] at hmem
        have hadmits := hcalls.admitted
        rw [← hmem] at hadmits
        cases op <;> exact hadmits
    · rw [hcalls.others _ (Ne.symm hx)] at hmem
      exact ih p r hmem
  · intro s d s' _ ih hdisturbed p r hmem
    have htrace : s'.trace = s.trace := hdisturbed.trace
    rw [htrace] at hmem
    exact ih p r hmem

/-- **The verdict.**  The coordinator returns 0 only if every worker has returned 0, every call of
every worker has passed, and every worker has passed all barriers.  The number 0 is that of the
socket, so that no file gets it. -/
theorem pass_verdict (h : Reachable (star cfg st blocks (sockets st works)).system s)
    (hopen : ∀ x direct r, works x (.direct (.openFile direct)) r = true → r.ret ≠ 0)
    (hpass : Returned s .coordinator 0) (rank : Fin cfg.count) :
    Returned s (.worker rank) 0 ∧ Worked cfg rank (s.trace (.worker rank)) ∧
      sentWords (s.trace (.worker rank)) = cfg.barriers + 1 ∧
      receivedWords (s.trace (.worker rank)) = cfg.count + cfg.barriers := by
  obtain ⟨p, hp⟩ := hpass
  have hreturned := returned_of_reaped h ((concluded_of_returned h hp).reaped rfl rank)
  obtain ⟨p', hp'⟩ := hreturned
  -- the result 0 leaves no room for a failure in the run of the worker
  have hruns : (worker cfg rank {}).Runs (s.trace (.worker rank)) (.ok 0, p') := by
    have hreaches := reaches h (N := star cfg st blocks (sockets st works)) (.worker rank)
    rw [hp'] at hreaches
    exact hreaches.runs
  obtain ⟨-, code, hcode, hclean⟩ := worker_ends rank.isLt hruns
  cases hcode
  obtain ⟨hkept, hcleanup⟩ := not_or.mp fun hfailed => hclean.mpr hfailed rfl
  -- a check that fails ends the `try` block, and a cleanup that fails is noted
  have hworked : Worked cfg rank (s.trace (.worker rank)) := by
    intro e he
    have hgoes := passed_of_runs hruns hkept e he
    obtain ⟨p₁, c, r⟩ := e
    cases c with
    | cleanup op name =>
        by_contra hfails
        have hret : r.ret ≠ 0 := by simpa [passes] using hfails
        exact hcleanup ⟨_, he, bne_iff_ne.mpr hret⟩
    | receive fd expects =>
        cases r with
        | none => cases hgoes
        | some m =>
            obtain ⟨hmeant, hword⟩ := meant_of_received h he
            cases hexpects : expects == .barrier <;> simp_all [passes]
    | direct op =>
        cases op with
        | openFile direct =>
            have hne := hopen _ _ _ (works_of_mem h he)
            have hle : 0 ≤ r.ret := by simpa [goesOn_openFile] using hgoes
            simp only [passes, decide_eq_true_eq]
            omega
        | _ => exact hgoes
    | _ => exact hgoes
  exact ⟨⟨p', hp'⟩, hworked, (ended_of_returned h hp').words hworked⟩

/-- The coordinator of `twoWords` comes to return 0. -/
theorem pass_verdict_twoWords : ∃ s : StarState twoWords.count, Returned s .coordinator 0 ∧
    Returned s (.worker second) 0 ∧ Worked twoWords second (s.trace (.worker second)) := by
  have hstart : Reachable
      (star twoWords twoStarted (fun _ _ => 0) (passing twoWords twoStarted)).system
    _ := .init
  obtain ⟨t, s, hpath, hreturned⟩ := passing_ends hstart
  have hreachable := hpath.reachable hstart
  have hpass := returned_of_ended hreachable hreturned .coordinator
  have hopen : ∀ (x : Member twoWords.count) direct (r : Answer),
      passes twoWords x.number (.direct (.openFile direct)) r = true → r.ret ≠ 0 := by
    intro x direct r hr
    have hpos : 0 < r.ret := by simpa [passes] using hr
    omega
  obtain ⟨hworker, hworked, -⟩ := pass_verdict hreachable hopen hpass second
  exact ⟨s, hpass, hworker, hworked⟩

end Network

end SharingProbe.MultiShare
