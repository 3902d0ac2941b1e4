import SharingProbe.HalMapProbe.Roles

/-!
# The diagnosis of `hal_map_probe`

The creator and the importer in every interleaving, in host mode and in device mode, whatever calls
fail and whenever they do.  A word of the buffer that is verified is found, a failure is never one
of the socket alone, nobody waits in vain, and `main` returns 0 if and only if no call has failed.
-/

namespace SharingProbe.HalMapProbe

open Interaction Network Transition Evolution Share

variable {cfg : Config} {world : World} {s s' : PairState} {x : Party}

/-! ## What the processes meet -/

section Programs

/-- How a process ends: its end of the socket is closed, nothing is held, and it returns 0 if no
call has failed. -/
structure Settled (n : ℕ) (t : List SHEvent) : Prop where
  closed : Closed t
  verdict : n = 0 ↔ ¬Failed t
  code : n ≤ 1
  held : accounts.held t = 0

theorem triple_worker : Proc.Triple (Orderly cfg world x)
    (Stands cfg world x 0 0 (fun _ => True) nothing) (worker cfg (x == .second))
    (fun n _ t => Settled n t) fun _ _ => False := by
  unfold worker
  refine Proc.Triple.bind (Q := fun _ p t => ∃ a, Ends cfg world x a p t ∧
    accounts.held t = a.resources) ?_ fun _ => Proc.triple_exists fun a => ?_
  · refine Proc.Triple.tryCatch (E := Fails cfg world x) ?_ fun error => ?_
    · refine triple_workerBody.weaken (fun _ _ h => h) ?_ fun _ _ h => h
      rintro _ p t ⟨a, h⟩
      exact ⟨a, ends_of_stands h, h.held⟩
    · exact Proc.triple_modify fun p t h => ⟨holding p, ends_of_fails h, h.held⟩
  refine Proc.Triple.bind (Q := fun _ p t => (Ends cfg world x a p t ∧ Closed t) ∧
    accounts.held t = a.resources) ?_ fun _ => ?_
  · apply Proc.triple_ask
    · rintro p t ⟨hends, -⟩
      refine ⟨⟨fun h => absurd h id, nofun, nofun⟩, nofun, fun _ v hv hrefused hlost =>
        ?_, mayRelease_of_none
        fun _ => rfl, nofun, fun _ _ _ => rfl, nofun, nofun, nofun⟩
      exact hends.done fun hthrew => (hends.cause hthrew v hv).elim hrefused hlost
    · rintro p t r ⟨hends, hheld⟩
      refine ⟨⟨hends.next rfl rfl rfl rfl rfl hends.state hends.result (by simp [fails, throws]),
        (closed_concat _ _).mpr (.inr rfl)⟩, ?_⟩
      rw [held_quiet rfl rfl, hheld]
  refine triple_tearDown.bind fun _ => Proc.triple_get_bind fun p => Proc.triple_pure ?_
  rintro _ t ⟨rfl, ⟨hends, hclosed⟩, hheld⟩
  exact ⟨hclosed, hends.verdict, hends.result, hheld⟩

/-- What a process meets from the start. -/
theorem worker_meets (cfg : Config) (world : World) (x : Party) :
    ((probe cfg world).program x {}).Meets (Orderly cfg world x) [] fun r t =>
      ∃ n, r.1 = .ok n ∧ Settled n t := by
  have hstart : Stands cfg world x 0 0 (fun _ => True) nothing {} [] := by
    refine ⟨rfl, rfl, rfl, ?_, rfl, rfl, rfl, fun _ _ => trivial⟩
    rintro ⟨e, he, -⟩
    cases he
  refine Prog.Meets.mono ?_ (triple_worker {} [] hstart)
  rintro ⟨r, p⟩ t hr
  cases r with
  | ok n => exact ⟨n, rfl, hr⟩
  | error e => exact absurd hr id

theorem fair : (probe cfg world).Fair 2 :=
  ⟨fun x => ⟨_, Prog.Meets.mono_ok (fun _ _ _ h _ => h.inTurn) (worker_meets cfg world x)⟩,
    fun x => ⟨_, Prog.Meets.mono_ok (fun _ _ _ h => h.truthful) (worker_meets cfg world x)⟩⟩

/-- No process gives up. -/
theorem whole_worker (cfg : Config) (reader : Bool) : (worker cfg reader).Whole := by
  have hcleanup : ∀ op name, (cleanup op name).Whole := fun _ _ =>
    (Proc.whole_ask _).bind fun _ => (Proc.whole_modify _).onlyIf
  have hsend : ∀ m, (sendWord m).Whole := fun _ =>
    (Proc.whole_ask _).bind fun _ => (whole_fail _).onlyIf
  have hreceive : ∀ expects, (receiveWord expects).Whole := by
    intro expects
    refine (Proc.whole_ask _).bind fun received => ?_
    cases received with
    | none => exact whole_fail _
    | some m => exact Proc.whole_pure _
  have hcheck : ∀ expects name, (checkReceived expects name).Whole := fun _ _ =>
    (hreceive _).bind fun _ => (whole_fail _).onlyIf
  have hverify : ∀ bytes seed, (verify bytes seed).Whole := fun _ _ =>
    Proc.whole_forM fun _ => (Proc.whole_ask _).bind fun _ => (whole_fail _).onlyIf
  have hwrite : ∀ bytes seed, (writePattern bytes seed).Whole := fun _ _ =>
    Proc.whole_forM fun _ => Proc.whole_ask _
  have htarget : (target cfg).Whole := by
    unfold target
    split
    · exact (whole_check _ _).bind fun _ => Proc.whole_pure _
    · exact Proc.whole_pure _
  have hbody : (workerBody cfg reader).Whole := by
    unfold workerBody openDevice importer creator importHandle reserve create mapMemory unmap
      release
      freeRange setHandle setMapped
    repeat' first
      | exact whole_check _ _
      | exact whole_direct _
      | exact htarget
      | exact hsend _
      | exact hreceive _
      | exact hcheck _ _
      | exact hverify _ _
      | exact hwrite _ _
      | exact Proc.whole_get
      | exact Proc.whole_modify _
      | refine Proc.Whole.onlyIf ?_
      | refine Proc.Whole.bind ?_ fun _ => ?_
      | split
  refine (hbody.tryCatch fun _ => Proc.whole_modify _).bind fun _ =>
    (whole_direct _).bind fun _ => ?_
  refine Proc.Whole.bind ?_ fun _ => Proc.whole_get.bind fun p => Proc.whole_pure _
  refine Proc.whole_get.bind fun p => (hcleanup _ _).onlyIf.bind fun _ => ?_
  refine (hcleanup _ _).onlyIf.bind fun _ => (hcleanup _ _).onlyIf.bind fun _ => ?_
  exact (hcleanup _ _).onlyIf

/-- What a process that ends has done. -/
theorem probe_closes (cfg : Config) (world : World) (x : Party) :
    ∃ ok, ((probe cfg world).program x {}).Meets ok [] fun _ t => Closed t :=
  ⟨_, Prog.Meets.mono (fun _ _ ⟨_, _, hsettled⟩ => hsettled.closed) (worker_meets cfg world x)⟩

end Programs

/-! ## The two processes together -/

section Both

theorem orderly_of_rest (h : Reachable (probe cfg world).net.system s) {p : Process}
    {c : Share.Call}
    {next : Share.Call.Reply c → _} (hrest : s.rest x = .call p c next) :
    Orderly cfg world x (s.trace x) p c := by
  have hmeets := meets h (N := (probe cfg world).net) (worker_meets cfg world x)
  rw [hrest] at hmeets
  exact hmeets.1

theorem orderly_follows (h : Reachable (probe cfg world).net.system s) (x : Party) :
    Prog.Follows (Orderly cfg world x) (s.trace x) :=
  follows h (N := (probe cfg world).net) (worker_meets cfg world x)

/-- What a process saw when it made a call, which was in order. -/
theorem exists_sight (h : Reachable (probe cfg world).net.system s) {e : SHEvent}
    (he : e ∈ s.trace x) : ∃ t v v', Orderly cfg world x t e.state e.call ∧
      (probe cfg world).SeesAlong x t v ∧ (probe cfg world).Sees x v e v' := by
  obtain ⟨t₁, t₂, ht⟩ := List.append_of_mem he
  obtain ⟨v, hview⟩ := (Pair.agrees h fair).views x
  have halong := hview.along
  rw [ht] at halong
  obtain ⟨v₁, hfirst, hrest⟩ := along_append.mp halong
  obtain ⟨v₂, hsees, -⟩ := along_cons.mp hrest
  exact ⟨t₁, v₁, v₂, orderly_follows h x t₁ e t₂ ht, hfirst, hsees⟩

/-- What is verified is found. -/
theorem found_expected (h : Reachable (probe cfg world).net.system s) {p : Process} {b : Buffer}
    {i : ℕ} {expected found : UInt64} {phase : String}
    (he : (⟨p, .compare b i expected phase, found⟩ : SHEvent) ∈ s.trace x) : found = expected := by
  obtain ⟨t, v, v', horderly, hv, hsees⟩ := exists_sight h he
  obtain ⟨rfl, hfinds⟩ := horderly.finds b i expected phase rfl
  obtain ⟨hidle, hwords⟩ := hfinds v hv
  have hnot : ¬v.flight.Into mapping := by
    rw [hidle]
    exact Flight.Idle.not_into ⟨rfl, rfl⟩ mapping
  calc found = v.words mapping i := hsees.credible.resolve_left hnot
    _ = expected := hwords

/-- What is received is meant as what it is taken for, and every word but the token is 0. -/
theorem received_meant (h : Reachable (probe cfg world).net.system s) {p : Process} {fd : ℕ}
    {expects : Purpose} {m : Message}
    (he : (⟨p, .receive fd expects, some m⟩ : SHEvent) ∈ s.trace x) :
    m.meant = expects ∧ (expects ≠ .token → m.word = 0) := by
  obtain ⟨t, v, v', horderly, hv, hsees⟩ := exists_sight h he
  have hexpects := horderly.expects fd expects rfl
  obtain ⟨hmeant, hword, -⟩ := hsees.handed m rfl
  rw [Pair.SeesAlong.received_eq _ hv, ← hexpects] at hmeant hword
  exact ⟨hmeant, hword⟩

/-- Nobody loses its peer unless the runtime or the driver has refused a call. -/
theorem not_lost (h : Reachable (probe cfg world).net.system s)
    (hcalm : ∀ x, ¬Refused (s.trace x)) (x : Party) : ¬Lost (s.trace x) := by
  have hshorter : ∀ t (e : SHEvent), ¬Refused (t ++ [e]) → ¬Refused t :=
    fun t e hnot hrefused => hnot ((refused_concat t e).mpr (.inl hrefused))
  have hcompletes : ∀ x, ∃ Q, ((probe cfg world).program x {}).Meets
      ((probe cfg world).Completes (fun t => ¬Refused t) x 2) [] Q := fun x =>
    ⟨_, Prog.Meets.mono_ok (fun _ _ _ h => h.completes) (worker_meets cfg world x)⟩
  exact (Pair.not_lost h fair (fun t => ¬Refused t) hshorter hcompletes hcalm x).1

/-- The importer holds nothing but the device once it has sent its last word. -/
theorem device_of_sent (h : Reachable (probe cfg world).net.system s)
    (hsent : 2 ≤ sentWords (s.trace .second)) :
    ∀ r ∈ accounts.held (s.trace .second), r = .device := by
  have hkept : sentWords (s.trace .second) ≤ 2 ∧ (2 ≤ sentWords (s.trace .second) →
      ∀ r ∈ accounts.held (s.trace .second), r = .device) := by
    refine (orderly_follows h .second).invariant (T := fun t => sentWords t ≤ 2 ∧
      (2 ≤ sentWords t → ∀ r ∈ accounts.held t, r = .device)) ⟨Nat.zero_le 2, ?_⟩ ?_
    · intro hsent
      simp [sentWords] at hsent
    · rintro t e - ⟨hle, ih⟩ horderly
      cases hputs : puts e.call e.reply with
      -- after the last word nothing is acquired any more
      | none =>
          have hsame : sentWords (t ++ [e]) = sentWords t := by
            rw [sentWords_concat, hputs]
            rfl
          rw [hsame]
          refine ⟨hle, fun hsent r hr => ih hsent r ?_⟩
          have hacquires : acquires e.call e.reply = 0 :=
            horderly.settled rfl (by omega) e.reply
          have hless : accounts.held (t ++ [e]) ≤ accounts.held t := by
            rw [Ledger.Accounts.held_concat, show accounts.acquires e = 0 from hacquires, add_zero]
            exact Multiset.sub_le_self _ _
          exact Multiset.mem_of_le hless hr
      -- the last word is sent when all but the device has been given back
      | some m =>
          obtain ⟨fd, hcall⟩ := Pair.exists_send hputs
          obtain ⟨-, hless, -⟩ := horderly.inTurn.sends fd m hcall
          have hnext : sentWords (t ++ [e]) = sentWords t + 1 := by
            rw [sentWords_concat, hputs]
            rfl
          rw [hnext]
          refine ⟨hless, fun hsent r hr => ?_⟩
          have hleft := horderly.leaves rfl (by omega) fd m hcall
          have hbooks : accounts.held (t ++ [e]) = accounts.held t := by
            obtain ⟨p, c, reply⟩ := e
            dsimp only at hcall
            subst hcall
            exact held_quiet rfl rfl
          rw [hbooks, hleft] at hr
          simpa [deviceOnly, nothing, Holding.resources, ofFlag, ofPtr] using hr
  exact hkept.2 hsent

/-- The process has returned. -/
def Returned (s : PairState) (x : Party) (n : ℕ) : Prop := ∃ p, s.rest x = .ret (.ok n, p)

theorem settled_of_returned (h : Reachable (probe cfg world).net.system s) {n : ℕ}
    (hreturned : Returned s x n) : Settled n (s.trace x) := by
  obtain ⟨p, hrest⟩ := hreturned
  have hmeets := meets h (N := (probe cfg world).net) (worker_meets cfg world x)
  rw [hrest] at hmeets
  obtain ⟨n', hn, hsettled⟩ := hmeets
  cases hn
  exact hsettled

theorem exists_next (h : Reachable (probe cfg world).net.system s)
    (hend : ∃ x p c next, s.rest x = .call p c next) :
    ∃ x answer s', (probe cfg world).net.step s (.call x answer) = some s' :=
  Pair.exists_next h fair (fun c => ⟨Pair.blank c, rfl⟩) (fun _ => whole_worker cfg _ {})
    (probe_closes cfg world) hend

theorem exists_returned (h : Reachable (probe cfg world).net.system s) :
    ∃ t s', Path (probe cfg world).net.system s t s' ∧ ∀ x, ∃ n, Returned s' x n := by
  obtain ⟨t, s', hpath, hreturned⟩ := Pair.exists_returned h fair
    (fun c => ⟨Pair.blank c, rfl⟩) (fun _ => whole_worker cfg _ {}) (probe_closes cfg world)
  refine ⟨t, s', hpath, fun x => ?_⟩
  obtain ⟨⟨r, p⟩, hr⟩ := hreturned x
  have hmeets := meets (hpath.reachable h) (N := (probe cfg world).net) (worker_meets cfg world x)
  rw [hr] at hmeets
  obtain ⟨n, hn, -⟩ := hmeets
  obtain rfl : r = .ok n := hn
  exact ⟨n, p, hr⟩

/-- `main` waits for the importer when the worker has returned. -/
theorem finish_runs {t : List SHEvent} {n : ℕ} {p : Process}
    (h : (worker cfg false {}).Runs t (.ok n, p)) (waited : Answer) :
    (finish cfg {}).Runs (t ++ [⟨p, .direct (.waitpid 0), waited⟩])
      (.ok (if waited.ret < 0 then 2 else if n ≠ 0 ∨ waited.out ≠ 0 then 1 else 0), p) :=
  Proc.runs_bind h (.call (.ret _))

/-- The smallest buffer, in host mode. -/
def smallest : Config where
  hostMode := true
  device := 0
  bytes := 2 ^ 21

/-- Buffers that hold nothing but zeros. -/
def zeroed : World where
  shared := fun _ => 0
  own := fun _ _ _ => 0

/-- What holds in every state of the two processes. -/
structure Shares (cfg : Config) (world : World) (s : PairState) : Prop where
  /-- At most one process has to do with the buffer. -/
  exclusive : ∀ x, Pair.Accesses s x → ¬Pair.Accesses s x.other
  /-- A word that is verified is as the other process has written it. -/
  verified : ∀ x p b i expected phase found,
    (⟨p, .compare b i expected phase, found⟩ : SHEvent) ∈ s.trace x → found = expected
  /-- A word that is received is what it is taken for. -/
  meant : ∀ x p fd expects m, (⟨p, .receive fd expects, some m⟩ : SHEvent) ∈ s.trace x →
    m.meant = expects ∧ (expects ≠ .token → m.word = 0)
  /-- Nobody loses its peer before a call has been refused. -/
  answered : (∀ x, ¬Refused (s.trace x)) → ∀ x, ¬Lost (s.trace x)
  /-- The creator cleans up, unless it has thrown, when the importer holds nothing of the memory. -/
  freed : ∀ p op name next, s.rest .first = .call p (.cleanup op name) next →
    ¬Threw (s.trace .first) → ∀ r ∈ accounts.held (s.trace .second), r = .device

/-- **Sharing.**  In host mode and in device mode, whatever the size and the content of the buffers
at first, and whatever calls fail, it holds in every interleaving. -/
theorem shares (h : Reachable (probe cfg world).net.system s) : Shares cfg world s where
  exclusive := Pair.exclusive h fair
  verified _ _ _ _ _ _ _ he := found_expected h he
  meant _ _ _ _ _ he := received_meant h he
  answered := not_lost h
  freed := by
    intro p op name next hrest hkept
    have hreceived := ((orderly_of_rest h hrest).cleans op name rfl hkept).2
    apply device_of_sent h
    have hsent := Pair.sentWords_eq h .second
    have hfirst : receivedWords (s.trace Party.second.other) = 2 := hreceived
    omega

/-- The two processes of `smallest` come to their end, and there it holds. -/
theorem shares_smallest :
    ∃ s, (∀ x, ∃ n, Returned s x n) ∧ Shares smallest zeroed s := by
  have hstart : Reachable (probe smallest zeroed).net.system _ := .init
  obtain ⟨t, s, hpath, hreturned⟩ := exists_returned hstart
  exact ⟨s, hreturned, shares (hpath.reachable hstart)⟩

/-- **The verdict.**  Some process can go on as long as not both have returned, and they can always
come to their end.  Then `main`, which is told the exit code of the importer, returns 0 if and only
if no call of either process has failed, and else 1. -/
theorem probe_verdict (h : Reachable (probe cfg world).net.system s) :
    ((∃ x p c next, s.rest x = .call p c next) →
      ∃ x answer s', (probe cfg world).net.step s (.call x answer) = some s') ∧
    (∃ t s', Path (probe cfg world).net.system s t s' ∧ ∀ x, ∃ n, Returned s' x n) ∧
    ∀ n n', Returned s .first n → Returned s .second n' →
      ∀ waited : Answer, 0 ≤ waited.ret → waited.out = n' * 256 →
        ∃ k p, (finish cfg {}).Runs (s.trace .first ++ [⟨p, .direct (.waitpid 0), waited⟩])
          (.ok k, p) ∧ k ≤ 1 ∧ (k = 0 ↔ ∀ x, ¬Failed (s.trace x)) := by
  refine ⟨exists_next h, exists_returned h, fun n n' hreturned hreturned' waited hret hout => ?_⟩
  have hfirst := settled_of_returned h hreturned
  have hsecond := settled_of_returned h hreturned'
  obtain ⟨p, hrest⟩ := hreturned
  have hruns := finish_runs ((hrest ▸ reaches h .first).runs) waited
  refine ⟨_, p, hruns, ?_, ?_⟩
  · split
    · omega
    · split <;> omega
  · rw [if_neg (not_lt.mpr hret), hout, Party.forall_iff .first, ← hfirst.verdict,
      show ¬Failed (s.trace Party.first.other) ↔ n' = 0 from hsecond.verdict.symm]
    by_cases hn : n = 0 <;> by_cases hn' : n' = 0 <;> simp [hn, hn']

/-- The processes of `smallest` come to their end, and `main` returns. -/
theorem probe_verdict_smallest : ∃ (s : PairState) (t : List SHEvent) (k : ℕ) (p : Process),
    (∀ x, ∃ n, Returned s x n) ∧ (finish smallest {}).Runs t (.ok k, p) ∧
      (k = 0 ↔ ∀ x, ¬Failed (s.trace x)) := by
  have hstart : Reachable (probe smallest zeroed).net.system _ := .init
  obtain ⟨t, s, hpath, hreturned⟩ := (probe_verdict hstart).2.1
  obtain ⟨n, hfirst⟩ := hreturned .first
  obtain ⟨n', hsecond⟩ := hreturned .second
  obtain ⟨k, p, hruns, -, hk⟩ := (probe_verdict (hpath.reachable hstart)).2.2 n n' hfirst hsecond
    { out := n' * 256 } le_rfl rfl
  exact ⟨s, _, k, p, hreturned, hruns, hk⟩

end Both

/-! ## The books -/

end SharingProbe.HalMapProbe
