import SharingProbe.HostShare.Roles

/-!
# The hand-over of the buffer

The creator and the importer in every interleaving, with every pattern of failed cases.  At most
one of them uses the buffer at a time, each finds in it what the other has written, the importer
has given everything back before the creator does, nobody waits in vain, and `launch` returns 0 if
and only if all cases have passed and no cleanup call has failed.
-/

namespace SharingProbe.HostShare

open Interaction Network Transition Evolution Share

variable {cfg : Config} {world : World} {s s' : PairState} {x : Party}

/-! ## What the processes meet -/

section Programs

/-- What a process meets from the start. -/
theorem worker_meets (cfg : Config) (world : World) (x : Party) :
    ((host cfg world).program x {}).Meets (Orderly cfg world x) [] fun r t =>
      ∃ n, r.1 = .ok n ∧ Ends cfg world x r.2 t ∧
        n = if r.2.result ≠ 0 ∨ r.2.cleanupFailed = true then 1 else 0 := by
  have hstart : Stands cfg world x 0 0 Fresh (fun _ _ => True) .none {} [] := by
    refine ⟨rfl, rfl, by simp [Lost], ⟨rfl, .inr rfl⟩, Ledger.Accounts.Tracks.nil, ?_, ?_,
      fun _ _ => trivial, trivial⟩
    · simp [Noted, CleanupFailed]
    · exact ⟨by simp [account, Passed], rfl⟩
  refine Prog.Meets.mono ?_ (triple_worker {} [] hstart)
  rintro ⟨r, p⟩ t hr
  cases r with
  | ok n => exact ⟨n, rfl, hr⟩
  | error e => exact absurd hr id

theorem fair : (host cfg world).Fair 3 :=
  ⟨fun x => ⟨_, Prog.Meets.mono_ok (fun _ _ _ h => h.inTurn) (worker_meets cfg world x)⟩,
    fun x => ⟨_, Prog.Meets.mono_ok (fun _ _ _ h => h.truthful) (worker_meets cfg world x)⟩⟩

/-- `io_tests` never gives up. -/
theorem whole_ioTests (bytes : ℕ) (seed : UInt64) (aio : AioMode) :
    (ioTests bytes seed aio).Whole := by
  have hcaseResult : ∀ case passed, (caseResult case passed).Whole := fun _ _ => Proc.whole_ask _
  have hcount : countFailure.Whole := Proc.whole_modify _
  have hbacklog : ∀ back, (backlog back).Whole := by
    intro back
    refine Proc.Whole.bind (Proc.whole_forM fun _ => ?_) fun _ => ?_
    · exact (whole_check _ _).bind fun _ => Proc.whole_pure _
    refine (whole_check _ _).bind fun _ => (whole_check _ _).bind fun _ => ?_
    exact (whole_check _ _).bind fun _ => Proc.whole_pure _
  -- the pieces, from the inside to the outside
  have haclCase : (aclCase bytes seed).Whole := by
    unfold aclCase
    repeat' first
      | exact whole_check _ _
      | exact whole_fill _ _ _
      | exact whole_verify _ _ _ _
      | exact whole_clear _
      | exact Proc.whole_modify _
      | exact Proc.whole_forM hbacklog
      | exact hcaseResult _ _
      | refine Proc.Whole.bind ?_ fun _ => ?_
  have htransfers : ∀ fd write, (aioTransfers bytes seed fd write).Whole := by
    intro fd write
    refine (whole_aioOperation _ _ _ _).bind fun _ => ?_
    split
    · refine (whole_check _ _).bind fun _ => (whole_clear _).bind fun _ => ?_
      exact (whole_aioOperation _ _ _ _).bind fun _ => whole_verify _ _ _ _
    · exact whole_verify _ _ _ _
  have haioCase : ∀ fd odirect write, (aioCase bytes seed fd odirect write).Whole := by
    intro fd odirect write
    refine (whole_fill _ _ _).bind fun _ => Proc.Whole.tryCatch ?_ fun error => ?_
    · exact (htransfers _ _).bind fun _ => hcaseResult _ _
    · refine hcount.bind fun _ => (hcaseResult _ _).bind fun _ => Proc.whole_get.bind fun p => ?_
      exact (Proc.whole_throw error).onlyIf
  have haioCases : ∀ fd odirect, (aioCases bytes seed fd odirect).Whole := by
    intro fd odirect
    refine (whole_check _ _).bind fun setup => (Proc.whole_modify _).bind fun _ => ?_
    refine (whole_aioOperation _ _ _ _).bind fun _ => (whole_check _ _).bind fun _ => ?_
    refine (whole_clear _).bind fun _ => (whole_aioOperation _ _ _ _).bind fun _ => ?_
    exact (whole_verify _ _ _ _).bind fun _ => Proc.whole_forM fun write => haioCase _ _ _
  have haioFile : ∀ fd odirect, (aioFile bytes seed fd odirect).Whole := by
    intro fd odirect
    refine (whole_direct _).bind fun unlinked => Proc.Whole.bind (Proc.Whole.onlyIf ?_) fun _ => ?_
    · exact (whole_direct _).bind fun _ => (whole_direct _).bind fun _ => whole_fail _
    refine (Proc.whole_modify _).bind fun _ => ?_
    refine ((haioCases _ _).tryCatch fun _ => hcount.bind fun _ => hcaseResult _ _).bind fun _ => ?_
    refine Proc.whole_get.bind fun p => (whole_cleanup _ _).onlyIf.bind fun _ => ?_
    exact whole_cleanup _ _
  have haioTests : ∀ odirect, (aioTests bytes seed aio odirect).Whole := by
    intro odirect
    refine ((whole_fill _ _ _).bind fun _ => (whole_direct _).bind fun opened => ?_).onlyIf
    split
    · exact (hcaseResult _ _).bind fun _ => hcount
    · exact haioFile _ _
  have hacl : (Proc.tryCatch (aclCase bytes seed) fun _ => aclFailed).Whole := by
    refine haclCase.tryCatch fun _ => hcount.bind fun _ => (hcaseResult _ _).bind fun _ => ?_
    refine Proc.whole_get.bind fun p => Proc.Whole.onlyIf ?_
    exact (whole_check _ _).bind fun _ => Proc.whole_pure _
  have hrequests : (aioRequests bytes seed aio).Whole := by
    refine (whole_check _ _).bind fun _ => (whole_fill _ _ _).bind fun _ => ?_
    refine (Proc.whole_forM haioTests).bind fun _ => ?_
    exact (whole_direct _).bind fun _ => Proc.whole_pure _
  -- both ways out of the scope go through its destructor
  unfold ioTests withAcl
  refine (Proc.whole_modify _).bind fun _ => (Proc.whole_modify _).bind fun _ => ?_
  refine Proc.Whole.bind (Proc.Whole.tryCatch ?_ fun error => ?_) fun _ => ?_
  · refine hacl.bind fun _ => hrequests.onlyIf.bind fun _ => (whole_fill _ _ _).bind fun _ => ?_
    exact Proc.whole_get.bind fun p => Proc.whole_pure _
  · exact whole_destroyAcl.bind fun _ => Proc.whole_throw error
  · exact whole_destroyAcl.bind fun _ => Proc.whole_pure _

/-- No process gives up. -/
theorem whole_worker (cfg : Config) (reader : Bool) : (worker cfg reader).Whole := by
  have hdestroy : destroyAllocation.Whole := by
    refine Proc.whole_get.bind fun p => (whole_cleanup _ _).onlyIf.bind fun _ => ?_
    exact (whole_cleanup _ _).onlyIf.bind fun _ => (whole_cleanup _ _).onlyIf
  have hbody : (if reader = true then importer cfg else creator cfg).Whole := by
    unfold importer creator reserve mapHost setHandle setMapped addFailures
    split
    all_goals
      repeat' first
        | exact whole_check _ _
        | exact whole_direct _
        | exact whole_fill _ _ _
        | exact whole_verify _ _ _ _
        | exact whole_ioTests _ _ _
        | exact whole_sendWord _ _
        | exact whole_receiveWord _ _
        | exact whole_checkWord _ _
        | exact (whole_fail _).onlyIf
        | exact Proc.whole_get
        | exact Proc.whole_pure _
        | exact Proc.whole_modify _
        | refine Proc.Whole.bind ?_ fun _ => ?_
  have htry : (workerBody cfg reader).Whole := by
    refine (whole_check _ _).bind fun _ => (Proc.whole_modify _).bind fun _ => ?_
    refine (whole_check _ _).bind fun _ => (Proc.whole_modify _).bind fun _ => ?_
    refine (whole_check _ _).bind fun _ => (Proc.whole_modify _).bind fun _ => ?_
    refine (Proc.whole_modify _).bind fun _ => (Proc.whole_modify _).bind fun _ => ?_
    refine (hbody.tryCatch fun error => ?_).bind fun _ => hdestroy
    exact hdestroy.bind fun _ => Proc.whole_throw error
  refine (htry.tryCatch fun _ => Proc.whole_modify _).bind fun _ => ?_
  refine (whole_direct _).bind fun _ => Proc.whole_get.bind fun p => ?_
  refine (whole_cleanup _ _).onlyIf.bind fun _ => (whole_cleanup _ _).onlyIf.bind fun _ => ?_
  exact Proc.whole_get.bind fun p => Proc.whole_pure _

/-- Every call can work. -/
theorem exists_works (c : Share.Call) : ∃ r, works c r = true := by
  cases c with
  | check op name => exact ⟨{ out := 1 }, by simp [works]⟩
  | cleanup op name => exact ⟨{}, rfl⟩
  | direct op =>
      cases op with
      | openFile => exact ⟨{ ret := 1 }, rfl⟩
      | _ => exact ⟨{}, rfl⟩
  | store => exact ⟨(), rfl⟩
  | compare => exact ⟨0, rfl⟩
  | memset => exact ⟨(), rfl⟩
  | send => exact ⟨true, rfl⟩
  | receive => exact ⟨none, rfl⟩
  | caseResult => exact ⟨(), rfl⟩

end Programs

/-! ## What a process has written -/

section Written

/-- The call that a process is about to make is in order. -/
theorem orderly_of_rest (h : Reachable (host cfg world).net.system s) {p : Process} {c : Share.Call}
    {next : Share.Call.Reply c → _} (hrest : s.rest x = .call p c next) :
    Orderly cfg world x (s.trace x) p c := by
  have hmeets := meets h (N := (host cfg world).net) (worker_meets cfg world x)
  rw [hrest] at hmeets
  exact hmeets.1

/-- What a process has written stays so while it waits. -/
theorem known_of_sent (h : Reachable (host cfg world).net.system s) {n : ℕ} {seed : UInt64}
    (hsent : sentWords (s.trace x) = n + 1)
    (hwaits : x.Waits (sentWords (s.trace x)) (receivedWords (s.trace x)))
    (hseed : handed x n = some seed) :
    ∀ i < cfg.bytes / 8, known (s.trace x) shared i = some (pattern i seed) := by
  refine invariant h (fun s => ∀ x n seed, sentWords (s.trace x) = n + 1 →
    x.Waits (sentWords (s.trace x)) (receivedWords (s.trace x)) → handed x n = some seed →
      ∀ i < cfg.bytes / 8, known (s.trace x) shared i = some (pattern i seed))
    ?_ ?_ ?_ x n seed hsent hwaits hseed
  · intro x n seed hsent
    cases hsent
  · intro s x e s' hreachable ih hcalled
    have hcalls := Pair.calls hcalled
    obtain ⟨next, hrest, -⟩ := hcalled.rest
    obtain ⟨hrules, -⟩ := Pair.rules hreachable fair hcalled
    refine (Party.forall_iff x).mpr ⟨?_, ?_⟩
    · intro n seed hsent hwaits hseed i hi
      rw [hcalls.self] at hsent hwaits ⊢
      -- the call neither receives, since then the process has the turn after it, nor writes
      have htakes : takes e.call e.reply = none := by
        by_contra htakes
        obtain ⟨m, hm⟩ := Option.ne_none_iff_exists'.mp htakes
        obtain ⟨fd, expects, hcall⟩ := Pair.exists_receive hm
        obtain ⟨hbefore, -⟩ := hrules.receives fd expects hcall
        have hputs : puts e.call e.reply = none := by
          by_contra hputs
          obtain ⟨m', hm'⟩ := Option.ne_none_iff_exists'.mp hputs
          rw [Pair.takes_of_puts hm'] at hm
          cases hm
        rw [sentWords_concat, receivedWords_concat, hm, hputs] at hwaits
        exact hbefore.receive.not_waits hwaits
      cases hputs : puts e.call e.reply with
      | some m =>
          obtain ⟨fd, hcall⟩ := Pair.exists_send hputs
          -- a word is sent while no transfer uses the buffer, so what was known before still is
          obtain ⟨-, -, huses⟩ := hrules.sends fd m hcall
          have hn : sentWords (s.trace x) = n := by
            rw [sentWords_concat, hputs] at hsent
            exact Nat.succ.inj hsent
          obtain ⟨v, hview⟩ := (Pair.agrees hreachable fair).views x
          have horderly := orderly_of_rest hreachable hrest
          have hwrote := horderly.wrote fd m hcall v hview.along seed (hn ▸ hseed) i hi
          have hquiet : ¬Touches shared e.call := by
            rw [hcall]
            exact id
          have hkeeps : known (s.trace x ++ [e]) shared = known (s.trace x) shared :=
            known_of_quiet huses hquiet
          rw [hkeeps]
          exact hwrote
      | none =>
          obtain ⟨hsame, hsame'⟩ := Pair.words_quiet (t := s.trace x) hputs htakes
          rw [hsame] at hsent hwaits
          rw [hsame'] at hwaits
          -- without the turn, the process has nothing to do with the buffer
          have hnot : ¬x.HasTurn (sentWords (s.trace x)) (receivedWords (s.trace x)) :=
            fun hturn => hturn.not_waits hwaits
          have hquiet : ¬Touches shared e.call := fun h => hnot (hrules.touches h)
          have huses : ¬(flight (s.trace x)).Uses shared :=
            fun huses => hnot (Pair.hasTurn_of_uses hreachable fair x huses)
          rw [known_of_quiet huses hquiet]
          exact ih x n seed hsent hwaits hseed i hi
    · rw [hcalls.other]
      exact ih x.other
  · intro s d s' _ ih hdisturbed
    rw [hdisturbed.trace]
    exact ih

end Written

/-! ## The two processes together -/

section Both

/-- Nobody loses its peer. -/
theorem not_lost (h : Reachable (host cfg world).net.system s) (x : Party) : ¬Lost (s.trace x) := by
  have hcompletes : ∀ x, ∃ Q, ((host cfg world).program x {}).Meets
      ((host cfg world).Completes (fun _ => True) x 3) [] Q := by
    intro x
    refine ⟨_, Prog.Meets.mono_ok (fun t p c horderly hc v hv _ => ?_) (worker_meets cfg world x)⟩
    exact horderly.ends (.inl hc) v hv
  exact (Pair.not_lost h fair (fun _ => True) (fun _ _ _ => trivial) hcompletes
    (fun _ => trivial) x).1

/-- What the other process has written is there. -/
theorem sees_written (h : Reachable (host cfg world).net.system s) {p : Process} {i : ℕ}
    {expected : UInt64} {phase : String} {next : UInt64 → _}
    (hrest : s.rest x = .call p (.compare shared i expected phase) next)
    (hphase : phase ∈ crossing) :
    known (s.trace x.other) shared i = some expected ∧ s.world.shared i = expected := by
  obtain ⟨⟨n, seed, hreceived, hhanded, hi, rfl⟩, hsees⟩ :=
    (orderly_of_rest h hrest).crosses i expected phase rfl hphase
  have hturn := (Pair.rules_of_rest h fair hrest).1.touches rfl
  obtain ⟨hwaits, hempty⟩ := (Pair.turnState h fair).exclusive hturn
  refine ⟨?_, ?_⟩
  · have hsent := Pair.sentWords_eq h x.other
    rw [Party.other_other, hempty x.other, hreceived] at hsent
    exact known_of_sent h hsent hwaits hhanded i hi
  · obtain ⟨v, hview⟩ := (Pair.agrees h fair).views x
    obtain ⟨hinto, hwords⟩ := hsees v hview.along
    rw [← hview.shared hturn hinto]
    exact hwords

theorem Freed.concat {t : List SHEvent} (h : Freed cfg t) (e : SHEvent) : Freed cfg (t ++ [e]) := by
  obtain ⟨reserved, token, imported, unmapped, released, freed, h₁, h₂, h₃, h₄, h₅⟩ := h
  exact ⟨reserved, token, imported, unmapped, released, freed, (did _ _).lasts _ e h₁,
    (did _ _).lasts _ e h₂, (did _ _).lasts _ e h₃, (did _ _).lasts _ e h₄, (did _ _).lasts _ e h₅⟩

/-- The importer sends its last word only when it has given everything back. -/
theorem freed_of_sent (h : Reachable (host cfg world).net.system s)
    (hsent : 3 ≤ sentWords (s.trace .second)) : Freed cfg (s.trace .second) := by
  refine invariant h (fun s => 3 ≤ sentWords (s.trace .second) → Freed cfg (s.trace .second))
    ?_ ?_ ?_ hsent
  · intro hsent
    simp [sentWords, Net.system] at hsent
  · intro s x e s' hreachable ih hcalled hsent
    have hcalls := Pair.calls hcalled
    obtain ⟨next, hrest, -⟩ := hcalled.rest
    cases x with
    | first =>
        rw [show s'.trace .second = s.trace .second from hcalls.other] at hsent ⊢
        exact ih hsent
    | second =>
        rw [hcalls.self] at hsent ⊢
        by_cases hbefore : 3 ≤ sentWords (s.trace .second)
        · exact (ih hbefore).concat e
        · rw [sentWords_concat] at hsent
          cases hputs : puts e.call e.reply with
          | none =>
              rw [hputs] at hsent
              exact absurd hsent hbefore
          | some m =>
              rw [hputs] at hsent
              obtain ⟨fd, hcall⟩ := Pair.exists_send hputs
              have hsecond : sentWords (s.trace .second) = 2 := by
                have hone : [m].length = 1 := rfl
                simp only [Option.toList_some, hone] at hsent
                omega
              exact ((orderly_of_rest hreachable hrest).frees rfl fd m hcall hsecond).concat e
  · intro s d s' _ ih hdisturbed
    rw [hdisturbed.trace]
    exact ih

/-- The words that were sent have been received, but for those under way. -/
theorem sentList_eq (h : Reachable (host cfg world).net.system s) (x : Party) :
    sentList (s.trace x) = receivedList (s.trace x.other) ++ s.queue x := by
  have hsent : ∀ t, (host cfg world).net.sent x x t = sentList t := by
    intro t
    unfold sentList
    rw [List.filterMap_eq_flatMap_toList]
    exact List.flatMap_congr fun e _ => congrArg Option.toList (Pair.comm_sends x e.call e.reply)
  have hreceived : ∀ t, (host cfg world).net.received x.other x t = receivedList t := by
    intro t
    unfold receivedList
    rw [List.filterMap_eq_flatMap_toList]
    refine List.flatMap_congr fun e _ => congrArg Option.toList ?_
    have hreceives := Pair.comm_receives x.other e.call e.reply
    rwa [Party.other_other] at hreceives
  rw [← hsent, ← hreceived]
  exact fifo h x

/-- The process has returned. -/
def Returned (s : PairState) (x : Party) (n : ℕ) : Prop := ∃ p, s.rest x = .ret (.ok n, p)

/-- How a process that has returned has ended. -/
theorem tally_of_returned (h : Reachable (host cfg world).net.system s) {r : ℕ}
    (hreturned : Returned s x r) :
    ∃ n word p, s.rest x = .ret (.ok r, p) ∧ Tally cfg world x n word p (s.trace x) ∧
      Reported x n word ∧ r = if p.result ≠ 0 ∨ p.cleanupFailed = true then 1 else 0 := by
  obtain ⟨p, hrest⟩ := hreturned
  have hmeets := meets h (N := (host cfg world).net) (worker_meets cfg world x)
  rw [hrest] at hmeets
  obtain ⟨r', hr, ⟨-, hends⟩, hresult⟩ := hmeets
  cases hr
  obtain ⟨v, hview⟩ := (Pair.agrees h fair).views x
  rcases hends with ⟨n, word, htally⟩ | hfails
  · exact ⟨n, word, p, hrest, htally, htally.reported v hview.along, hresult⟩
  · exact absurd (hfails v hview.along) (not_lost h x)

/-- A process returns 0 if and only if its result is 0 and no cleanup call has failed. -/
theorem Tally.zero_iff {n : ℕ} {word : UInt64} {p : Process} {t : List SHEvent} {r : ℕ}
    (h : Tally cfg world x n word p t)
    (hr : r = if p.result ≠ 0 ∨ p.cleanupFailed = true then 1 else 0) :
    r = 0 ↔ total x n word = 0 ∧ ¬CleanupFailed t := by
  have hnoted : p.cleanupFailed = true ↔ CleanupFailed t := h.noted
  rw [hr, h.result, ← hnoted]
  by_cases hzero : total x n word = 0 <;> simp [hzero]

/-- What both return: 0 if and only if all cases have passed and no cleanup call has failed. -/
theorem zero_iff (h : Reachable (host cfg world).net.system s) {r r' : ℕ}
    (hreturned : Returned s .first r) (hreturned' : Returned s .second r') :
    r = 0 ∧ r' = 0 ↔ (∀ x, ∀ case ∈ requested cfg.aio, Passed case (s.trace x)) ∧
      ∀ x, ¬CleanupFailed (s.trace x) := by
  obtain ⟨n, word, p, -, htally, hreported, hr⟩ := tally_of_returned h hreturned
  obtain ⟨n', word', p', -, htally', hreported', hr'⟩ := tally_of_returned h hreturned'
  obtain ⟨m, hm, hword⟩ := htally.log
  obtain ⟨m', hm', hword'⟩ := htally'.log
  -- what has been heard is what has been reported
  have hsame : m = m' := by
    have hfifo := sentList_eq h .second
    have hfirst : (receivedList (s.trace Party.second.other))[1]? = some m := hm
    rw [hfifo, List.getElem?_append_left (List.getElem?_eq_some_iff.mp hfirst).1, hfirst] at hm'
    exact Option.some.inj hm'
  obtain ⟨hle, hcounted⟩ := htally.counted
  obtain ⟨hle', hcounted'⟩ := htally'.counted
  have hnumber : word.toNat = n' := by
    rw [← hword, hsame, hword', hreported'.2 rfl]
    exact UInt64.toNat_ofNat_of_lt' (by change n' < 2 ^ 64; omega)
  have htotal : total .first n word = 0 ↔ n = 0 ∧ n' = 0 := by
    change (n + word.toNat) % 2 ^ 32 = 0 ↔ _
    rw [hnumber, Nat.mod_eq_of_lt (by omega)]
    omega
  have htotal' : total .second n' word' = 0 ↔ n' = 0 := Iff.rfl
  rw [htally.zero_iff hr, htally'.zero_iff hr', htotal, htotal', Party.forall_iff .first,
    Party.forall_iff .first, hcounted, hcounted']
  change ((_ ∧ ∀ case ∈ requested cfg.aio, Passed case (s.trace .second)) ∧ _) ∧ _ ↔
    ((∀ case ∈ requested cfg.aio, Passed case (s.trace .first)) ∧
      ∀ case ∈ requested cfg.aio, Passed case (s.trace .second)) ∧ _
  tauto

/-- `launch` waits for the importer when the worker has returned. -/
theorem launch_runs {t : List SHEvent} {n : ℕ} {p : Process}
    (h : (worker cfg false {}).Runs t (.ok n, p)) (waited : Answer) :
    (launch cfg {}).Runs (t ++ [⟨p, .direct (.waitpid 0), waited⟩])
      (.ok (if waited.ret < 0 then 2 else if n ≠ 0 ∨ waited.out ≠ 0 then 1 else 0), p) :=
  Proc.runs_bind h (.call (.ret _))

end Both

/-! ## The claims of the hand-over -/

/-- What holds in every state of the two processes. -/
structure HandsOver (cfg : Config) (world : World) (s : PairState) : Prop where
  /-- At most one process has to do with the buffer. -/
  exclusive : ∀ x, Pair.Accesses s x → ¬Pair.Accesses s x.other
  /-- A process that verifies what the other one has written is about to find just that. -/
  written : ∀ x p i expected phase next,
    s.rest x = .call p (.compare shared i expected phase) next → phase ∈ crossing →
      known (s.trace x.other) shared i = some expected ∧ s.world.shared i = expected
  /-- And it has found it. -/
  verified : ∀ x p i expected phase found,
    (⟨p, .compare shared i expected phase, found⟩ : SHEvent) ∈ s.trace x → phase ∈ crossing →
      found = expected
  /-- The importer has given everything back when the destructor of the creator runs. -/
  freed : ∀ p c next, s.rest .first = .call p c next → destroys c = true →
    Freed cfg (s.trace .second)
  /-- No word is waited for in vain. -/
  answered : ∀ x, ¬Lost (s.trace x)
  /-- As long as not both processes have returned, one of them can go on. -/
  progress : (∃ x p c next, s.rest x = .call p c next) →
    ∃ x answer s', (host cfg world).net.step s (.call x answer) = some s'
  /-- Both can come to their end. -/
  ends : ∃ t s', Path (host cfg world).net.system s t s' ∧ ∀ x, ∃ n, Returned s' x n
  /-- `launch` returns 0 if and only if all cases have passed and no cleanup call has failed.  It is
  told the exit code of the importer. -/
  result : ∀ n n', Returned s .first n → Returned s .second n' →
    ∀ waited : Answer, 0 ≤ waited.ret → waited.out = n' * 256 →
      ∃ k p, (launch cfg {}).Runs (s.trace .first ++ [⟨p, .direct (.waitpid 0), waited⟩])
        (.ok k, p) ∧
        (k = 0 ↔ (∀ x, ∀ case ∈ requested cfg.aio, Passed case (s.trace x)) ∧
          ∀ x, ¬CleanupFailed (s.trace x))

/-- What has been verified has been found. -/
theorem found_expected (h : Reachable (host cfg world).net.system s) :
    ∀ x p i expected phase found,
      (⟨p, .compare shared i expected phase, found⟩ : SHEvent) ∈ s.trace x → phase ∈ crossing →
        found = expected := by
  refine invariant h (fun s => ∀ x p i expected phase found,
    (⟨p, .compare shared i expected phase, found⟩ : SHEvent) ∈ s.trace x → phase ∈ crossing →
      found = expected) ?_ ?_ ?_
  · intro x p i expected phase found hmem
    cases hmem
  · intro s x e s' hreachable ih hcalled
    have hcalls := Pair.calls hcalled
    obtain ⟨next, hrest, -⟩ := hcalled.rest
    refine (Party.forall_iff x).mpr ⟨?_, ?_⟩
    · intro p i expected phase found hmem hphase
      rw [hcalls.self] at hmem
      rcases List.mem_append.mp hmem with hmem | hmem
      · exact ih x p i expected phase found hmem hphase
      · rw [List.mem_singleton] at hmem
        subst hmem
        have hfound : found = s.world.words x shared i := by
          simpa [Pair.admits] using hcalls.admits
        obtain ⟨-, hshared⟩ := sees_written hreachable hrest hphase
        rw [hfound, ← hshared]
        exact congrFun (World.words_common s.world x) i
    · rw [hcalls.other]
      exact ih x.other
  · intro s d s' _ ih hdisturbed
    rw [hdisturbed.trace]
    exact ih

theorem exists_returned (h : Reachable (host cfg world).net.system s) :
    ∃ t s', Path (host cfg world).net.system s t s' ∧ ∀ x, ∃ n, Returned s' x n := by
  have hmeets := worker_meets cfg world
  obtain ⟨t, s', hpath, hreturned⟩ := Pair.exists_returned h fair exists_works
    (fun x => whole_worker cfg _ {}) fun x =>
      ⟨_, Prog.Meets.mono (fun _ _ ⟨_, _, ⟨hclosed, _⟩, _⟩ =>
      hclosed) (hmeets x)⟩
  refine ⟨t, s', hpath, fun x => ?_⟩
  obtain ⟨⟨r, p⟩, hr⟩ := hreturned x
  have hend := meets (hpath.reachable h) (N := (host cfg world).net) (hmeets x)
  rw [hr] at hend
  obtain ⟨n, hn, -⟩ := hend
  obtain rfl : r = .ok n := hn
  exact ⟨n, p, hr⟩

/-- **The hand-over.**  Whatever the size, the mode, the content of the buffers at first, the cases
that fail and the cleanup calls that fail, it holds in every interleaving. -/
theorem hands_over (h : Reachable (host cfg world).net.system s) : HandsOver cfg world s where
  exclusive := Pair.exclusive h fair
  written _ _ _ _ _ _ hrest hphase := sees_written h hrest hphase
  verified := found_expected h
  freed := by
    intro p c next hrest hdestroys
    obtain ⟨v, hview⟩ := (Pair.agrees h fair).views .first
    have hreceived := ((orderly_of_rest h hrest).ends (.inr ⟨rfl, hdestroys⟩) v hview.along
      (not_lost h .first)).2
    apply freed_of_sent h
    have hsent := Pair.sentWords_eq h .second
    have hfirst : receivedWords (s.trace Party.second.other) = 3 := hreceived
    omega
  answered := not_lost h
  progress hend := Pair.exists_next h fair exists_works (fun x => whole_worker cfg _ {})
    (fun x => ⟨_, Prog.Meets.mono (fun _ _ ⟨_, _, ⟨hclosed, _⟩, _⟩ => hclosed)
      (worker_meets cfg world x)⟩) hend
  ends := exists_returned h
  result := by
    intro n n' hreturned hreturned' waited hret hout
    obtain ⟨p, hrest⟩ := hreturned
    have hruns := launch_runs ((hrest ▸ reaches h .first).runs) waited
    refine ⟨_, p, hruns, ?_⟩
    rw [if_neg (not_lt.mpr hret), hout, ← zero_iff h ⟨p, hrest⟩ hreturned']
    by_cases hn : n = 0 <;> by_cases hn' : n' = 0 <;> simp [hn, hn']

/-- The smallest buffer, with both kinds of I/O. -/
def smallest : Config := { bytes := 2 ^ 21, aio := .both, device := 0 }

/-- Buffers that hold nothing but zeros. -/
def zeroed : World := { shared := fun _ => 0, own := fun _ _ _ => 0 }

/-- Both processes come to their end, and what is promised holds there. -/
theorem hands_over_smallest :
    ∃ s, (∀ x, ∃ n, Returned s x n) ∧ HandsOver smallest zeroed s := by
  have hstart :
      Reachable (host smallest zeroed).net.system (host smallest zeroed).net.system.init :=
    .init
  obtain ⟨t, s, hpath, hreturned⟩ := exists_returned hstart
  exact ⟨s, hreturned, hands_over (hpath.reachable hstart)⟩

end SharingProbe.HostShare
