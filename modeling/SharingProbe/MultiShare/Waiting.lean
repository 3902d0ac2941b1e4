import SharingProbe.MultiShare.Alignment

/-!
# Nobody waits for ever

A send fails if the other end of the socket has been closed.  A receive waits for a word, and fails
if the other end has been closed and nothing is left.  The coordinator waits for a child until it
has returned or has been killed.  Any other call may fail at any time.

No time is over here: a receive that would time out in the source waits on.  Still some process
can go on, whatever has failed, and so all come to their end.
-/

namespace SharingProbe.MultiShare

open Interaction Network Transition Share

/-! ## The sockets and the children -/

section Sockets

variable {n : ℕ} (st : Started n) (s : StarState n)

/-- The worker that a socket belongs to. -/
def Wire.rank : Wire n → Fin n
  | .up rank | .down rank => rank

/-- The other end of the socket of a worker has been closed. -/
def PeerClosed (rank : Fin n) : Member n → Prop
  | .coordinator => Closed (s.trace (.worker rank))
  | .worker _ => Hung st rank (s.trace .coordinator)

instance (rank : Fin n) (t : List SHEvent) : Decidable (Hung st rank t) := List.decidableBEx _ t

instance (rank : Fin n) (x : Member n) : Decidable (PeerClosed st s rank x) := by
  cases x <;> exact List.decidableBEx _ _

/-- What `waitpid` stores about a process that has returned. -/
def exitStatus : Except String ℕ → ℕ
  | .ok code => code * 256
  | .error _ => 256

/-- What `waitpid` may return about a child: it has returned, or has been killed. -/
def reports (child : ℕ) (r : Answer) : Bool :=
  decide (0 ≤ r.ret) && (rankOf st.child child).elim true fun rank =>
    (match s.rest (.worker rank) with
      | .ret (x, _) => r.out == exitStatus x
      | _ => false) ||
    (decide (Killed child (s.trace .coordinator)) && r.out != 0)

/-- The replies of the sockets and of `waitpid`, with those that the other calls may have. -/
def sockets (works : Member n → (c : Share.Call) → Share.Call.Reply c → Bool) : Admits n :=
  fun s x c r =>
    match x, c, r with
    | x, .send fd m, sent => (outgoing st x (.send fd m)).elim true fun wire =>
        sent != decide (PeerClosed st s wire.rank x)
    | x, .receive fd expects, none => (incoming st x (.receive fd expects)).elim true fun wire =>
        decide (PeerClosed st s wire.rank x ∧ s.queue wire = [])
    | _, .receive _ _, some _ => true
    | .coordinator, .direct (.waitpid child), r => reports st s child r
    | x, c, r => works x c r

end Sockets

/-! ## What can go on -/

section Progress

variable {cfg : Config} {st : Started cfg.count} {blocks : Blocks}
  {works : Member cfg.count → (c : Share.Call) → Share.Call.Reply c → Bool}
  {s : StarState cfg.count}
  {x : Member cfg.count} {p : Process} {c : Share.Call} {next : Share.Call.Reply c → _}

/-- A call that the network admits can be made. -/
theorem exists_call {admits : Admits cfg.count} (hrest : s.rest x = .call p c next)
    (r : Share.Call.Reply c) (hadmits : admits s x c r = true)
    {queue : Wire cfg.count → List Message}
    (hpass : (comm st x c r).pass s.queue = some queue) :
    ∃ answer s', (star cfg st blocks admits).step s (.call x answer) = some s' := by
  let answer : (c : Share.Call) → Share.Call.Reply c := fun c' =>
    if hc : c' = c then hc ▸ r else Pair.blank c'
  have hanswer : answer c = r := dif_pos rfl
  have hqueue : ((star cfg st blocks admits).comm x c (answer c)).pass s.queue = some queue := by
    rw [hanswer]
    exact hpass
  have hworld : (star cfg st blocks admits).effect s x c (answer c) = some (wrote s.world c) := by
    rw [hanswer]
    exact if_pos hadmits
  obtain ⟨s', hstep⟩ := exists_step (N := star cfg st blocks admits) hrest answer hqueue hworld
  exact ⟨answer, s', hstep⟩

/-- A call that neither waits for a word nor for a child can be made. -/
theorem exists_call_of_ready (hworks : ∀ x c, ∃ r, works x c r = true)
    (hrest : s.rest x = .call p c next) (hreceive : ¬Pair.IsReceive c)
    (hwait : x = .coordinator → ∀ child, c ≠ .direct (.waitpid child)) :
    ∃ answer s', (star cfg st blocks (sockets st works)).step s (.call x answer) = some s' := by
  have hsilent : ∀ r : Share.Call.Reply c, puts c r = none → takes c r = none →
      (comm st x c r).pass s.queue = some s.queue := by
    intro r hputs htakes
    rw [comm, hputs, htakes]
    rfl
  cases c with
  | receive fd expects => exact absurd ⟨fd, expects, rfl⟩ hreceive
  | send fd m =>
      cases hout : outgoing st x (.send fd m) with
      | none => exact exists_call hrest false (by simp [sockets, hout]) (hsilent _ rfl rfl)
      | some wire =>
          by_cases hclosed : PeerClosed st s wire.rank x
          · exact exists_call hrest false (by simp [sockets, hout, hclosed]) (hsilent _ rfl rfl)
          · have hpass : (comm st x (.send fd m) true).pass s.queue =
                some (Function.update s.queue wire (s.queue wire ++ [m])) := by
              have hputs : puts (.send fd m) true = some m := rfl
              rw [comm, hputs, hout]
              rfl
            exact exists_call hrest true (by simp [sockets, hout, hclosed]) hpass
  | direct op =>
      obtain ⟨r, hr⟩ := hworks x (.direct op)
      refine exists_call hrest r ?_ (hsilent r rfl rfl)
      cases x with
      | worker rank => cases op <;> exact hr
      | coordinator =>
          cases op with
          | waitpid child => exact absurd rfl (hwait rfl child)
          | _ => exact hr
  | _ =>
      obtain ⟨r, hr⟩ := hworks x _
      exact exists_call hrest r hr (hsilent r rfl rfl)

/-- A call that waits for a word can be made if a word is there, or the other end is closed. -/
theorem exists_call_of_word {fd : ℕ} {expects : Purpose} {next : Option Message → _}
    (hrest : s.rest x = .call p (.receive fd expects) next) {wire : Wire cfg.count}
    (hin : incoming st x (.receive fd expects) = some wire)
    (hword : s.queue wire ≠ [] ∨ PeerClosed st s wire.rank x) :
    ∃ answer s', (star cfg st blocks (sockets st works)).step s (.call x answer) = some s' := by
  cases hqueue : s.queue wire with
  | nil =>
      have hclosed := hword.resolve_left fun h => h hqueue
      exact exists_call hrest none (by simp [sockets, hin, hclosed, hqueue]) rfl
  | cons m rest =>
      have hpass : (comm st x (.receive fd expects) (some m)).pass s.queue =
          some (Function.update s.queue wire (s.queue wire).tail) := by
        have htakes : takes (.receive fd expects) (some m) = some m := rfl
        have hputs : puts (.receive fd expects) (some m) = none := rfl
        rw [comm, hputs, htakes, hin]
        exact if_pos (by rw [hqueue]; rfl)
      exact exists_call hrest (some m) (by cases x <;> rfl) hpass

/-- The coordinator does not wait for a worker that waits for the coordinator. -/
theorem not_both_wait {admits : Admits cfg.count}
    (h : Reachable (star cfg st blocks admits).system s) {rank : Fin cfg.count}
    {expects expects' : Purpose}
    (hcollects : Collects cfg st rank (s.trace .coordinator) expects)
    (hreceives : Receives cfg (s.trace (.worker rank)) expects') :
    s.queue (.up rank) ≠ [] ∨ s.queue (.down rank) ≠ [] := by
  by_contra hempty
  obtain ⟨hup, hdown⟩ := not_or.mp hempty
  have hsent := sentWords_eq h rank
  have hput := put_eq h rank
  rw [not_not.mp hup, List.length_nil] at hsent
  rw [not_not.mp hdown, List.length_nil] at hput
  by_cases hfirst : got st rank (s.trace .coordinator) = 0
  · rcases hreceives.place with ⟨hone, -⟩ | ⟨htwo, -⟩ <;> omega
  · obtain ⟨-, hplace, -⟩ := hcollects.barrier hfirst
    rcases hreceives.place with ⟨hone, hbelow⟩ | ⟨-, -, hbetween⟩ <;> omega

/-! ## No process gives up -/

theorem whole_barrier : barrier.Whole :=
  (whole_sendWord _ _).bind fun _ => (whole_receiveWord _ _).bind fun _ => whole_checkWord _ _

theorem whole_testOwn (cfg : Config) (rank : ℕ) : (testOwn cfg rank).Whole := by
  have htransfers : ∀ fd seed, (aioTransfers cfg rank fd seed).Whole := by
    intro fd seed
    unfold aioTransfers
    repeat' first
      | exact whole_check _ _
      | exact whole_clear _
      | exact whole_aioOperation _ _ _ _
      | exact whole_verify _ _ _ _
      | exact Proc.whole_modify _
      | refine Proc.Whole.bind ?_ fun _ => ?_
  have hbuffered : ∀ seed, (bufferedAio cfg rank seed).Whole := by
    intro seed
    refine (whole_fill _ _ _).bind fun _ => (whole_direct _).bind fun opened => ?_
    refine (whole_fail _).onlyIf.bind fun _ => (whole_direct _).bind fun unlinked => ?_
    refine ((whole_direct _).bind fun _ => whole_fail _).onlyIf.bind fun _ => ?_
    refine (Proc.whole_modify _).bind fun _ => ((htransfers _ _).tryCatch fun error => ?_).bind
      fun _ => Proc.whole_get.bind fun p => (whole_cleanup _ _).bind fun _ => whole_cleanup _ _
    refine Proc.whole_get.bind fun p => (whole_cleanup _ _).onlyIf.bind fun _ => ?_
    exact (whole_cleanup _ _).bind fun _ => Proc.whole_throw error
  exact (whole_fill _ _ _).bind fun _ => (whole_verify _ _ _ _).bind fun _ => hbuffered _

theorem whole_readRounds (cfg : Config) (rank : ℕ) : (readRounds cfg rank).Whole := by
  have hcopy : ∀ dst src round purpose, (copy dst src round purpose).Whole := fun _ _ _ _ =>
    (whole_check _ _).bind fun _ => (whole_check _ _).bind fun _ => Proc.whole_pure _
  have hblock : ∀ round owner, (readBlock cfg round owner).Whole := fun _ _ =>
    (whole_check _ _).bind fun _ => (hcopy _ _ _ _).bind fun _ => (whole_clear _).bind fun _ =>
      (hcopy _ _ _ _).bind fun _ => whole_verify _ _ _ _
  have hround : ∀ round, (readRound cfg rank round).Whole := fun _ =>
    (whole_fill _ _ _).bind fun _ => (whole_verify _ _ _ _).bind fun _ =>
      whole_barrier.bind fun _ =>
      (Proc.whole_forM (hblock _)).bind fun _ => (whole_verify _ _ _ _).bind fun _ => whole_barrier
  unfold readRounds withAcl
  refine (Proc.whole_modify _).bind fun _ =>
    Proc.Whole.bind (Proc.Whole.tryCatch ?_ fun error => ?_)
    fun _ => whole_destroyAcl.bind fun _ => Proc.whole_pure _
  · refine (whole_check _ _).bind fun _ => (Proc.whole_modify _).bind fun _ => ?_
    refine (whole_check _ _).bind fun _ => (whole_fail _).onlyIf.bind fun _ => ?_
    exact (whole_check _ _).bind fun _ => (Proc.whole_modify _).bind fun _ => Proc.whole_forM hround
  · exact whole_destroyAcl.bind fun _ => Proc.whole_throw error

theorem whole_workerBody (cfg : Config) (rank : ℕ) : (workerBody cfg rank).Whole := by
  have hsetUp : (setUpDevice cfg rank).Whole := by
    unfold setUpDevice
    repeat' first
      | exact whole_check _ _
      | exact Proc.whole_modify _
      | exact (whole_fail _).onlyIf
      | refine Proc.Whole.bind ?_ fun _ => ?_
  have hexport : (exportOwn cfg rank).Whole := by
    unfold exportOwn
    repeat' first
      | exact whole_check _ _
      | exact whole_direct _
      | exact whole_sendWord _ _
      | exact Proc.whole_modify _
      | exact (whole_fail _).onlyIf
      | exact ((whole_check _ _).bind fun _ => (whole_fail _).onlyIf).onlyIf
      | refine Proc.Whole.bind ?_ fun _ => ?_
  have himport : ∀ owner, (importSlice rank owner).Whole := by
    intro owner
    refine (whole_receiveWord _ _).bind fun token => ?_
    refine ((whole_check _ _).bind fun _ => Proc.whole_modify _).onlyIf.bind fun _ => ?_
    exact Proc.whole_get.bind fun p => (whole_check _ _).bind fun _ => Proc.whole_modify _
  have hunmap : ∀ i, (unmapSlice i).Whole := fun _ =>
    (whole_check _ _).bind fun _ => Proc.whole_modify _
  refine hsetUp.bind fun _ => hexport.bind fun _ => (Proc.whole_forM himport).bind fun _ => ?_
  refine whole_barrier.bind fun _ => (whole_testOwn cfg rank).bind fun _ => ?_
  refine whole_barrier.bind fun _ => (whole_readRounds cfg rank).bind fun _ => ?_
  exact whole_barrier.bind fun _ => (Proc.whole_forM hunmap).bind fun _ => whole_barrier

theorem whole_worker (cfg : Config) (rank : ℕ) : (worker cfg rank).Whole := by
  have hslice : ∀ i, (cleanupSlice i).Whole := fun _ =>
    Proc.whole_get.bind fun p => (whole_cleanup _ _).onlyIf.bind fun _ => (whole_cleanup _ _).onlyIf
  have hcleanup : (workerCleanup cfg rank).Whole := by
    refine (Proc.whole_forM hslice).bind fun _ => Proc.whole_get.bind fun p => ?_
    refine (whole_cleanup _ _).onlyIf.bind fun _ => (whole_cleanup _ _).onlyIf.bind fun _ => ?_
    exact (whole_cleanup _ _).onlyIf.bind fun _ => (whole_direct _).bind fun _ => Proc.whole_pure _
  refine ((whole_workerBody cfg rank).tryCatch fun _ => Proc.whole_modify _).bind fun _ => ?_
  exact hcleanup.bind fun _ => Proc.whole_get.bind fun p => Proc.whole_pure _

theorem whole_coordinator (cfg : Config) : (coordinator cfg).Whole := by
  have hclose : ∀ fds, (closeSockets fds).Whole := fun _ =>
    Proc.whole_forM fun _ => (whole_direct _).bind fun _ => Proc.whole_pure _
  have hrelay : ∀ fds, (relayBarrier fds).Whole := fun _ =>
    (Proc.whole_forM fun _ => (whole_receiveWord _ _).bind fun _ => whole_checkWord _ _).bind
      fun _ => Proc.whole_forM fun _ => whole_sendWord _ _
  refine Proc.Whole.tryCatch ?_ fun _ => ?_
  · refine Proc.whole_get.bind fun p => ?_
    refine (Proc.whole_foldlM (fun _ _ => (whole_receiveWord _ _).bind fun _ => Proc.whole_pure _)
      _).bind fun tokens => ?_
    refine (Proc.whole_forM fun _ => Proc.whole_forM fun _ => whole_sendWord _ _).bind fun _ => ?_
    refine (Proc.whole_forM fun _ => hrelay _).bind fun _ => (hclose _).bind fun _ => ?_
    refine (Proc.whole_modify _).bind fun _ => Proc.whole_foldlM (fun _ _ => ?_) _
    exact (whole_direct _).bind fun _ => Proc.whole_pure _
  · refine Proc.whole_get.bind fun p => (hclose _).bind fun _ => ?_
    refine (Proc.whole_forM fun _ => (whole_direct _).bind fun _ => Proc.whole_pure _).bind
      fun _ => ?_
    refine (Proc.whole_forM fun _ => (whole_direct _).bind fun _ => Proc.whole_pure _).bind
      fun _ => ?_
    exact Proc.whole_pure _

theorem whole_program (admits : Admits cfg.count) (x : Member cfg.count) :
    Whole ((star cfg st blocks admits).program x) := by
  cases x with
  | coordinator => exact whole_coordinator cfg st.process
  | worker rank => exact whole_worker cfg rank {}

/-! ## No state is stuck -/

/-- What is known of a process that has returned. -/
theorem ended_of_returned {admits : Admits cfg.count}
    (h : Reachable (star cfg st blocks admits).system s) {rank : Fin cfg.count}
    {r : Except String ℕ × Process} (hrest : s.rest (.worker rank) = .ret r) :
    Ended cfg rank r.1 (s.trace (.worker rank)) := by
  have hmeets := meets h (N := star cfg st blocks admits) (i := .worker rank)
    (meets_worker rank.isLt)
  rwa [hrest] at hmeets

theorem concluded_of_returned {admits : Admits cfg.count}
    (h : Reachable (star cfg st blocks admits).system s) {r : Except String ℕ × Process}
    (hrest : s.rest .coordinator = .ret r) : Concluded cfg st r.1 (s.trace .coordinator) := by
  have hmeets := meets h (N := star cfg st blocks admits) (i := .coordinator) meets_coordinator
  rwa [hrest] at hmeets

/-- The process has returned this. -/
def Returned {n : ℕ} (s : StarState n) (x : Member n) (code : ℕ) : Prop :=
  ∃ p, s.rest x = .ret (.ok code, p)

/-- The worker has returned, or waits for a word that is not there. -/
inductive Stopped (s : StarState cfg.count) (st : Started cfg.count) (rank : Fin cfg.count) : Prop
  | returned {r : Except String ℕ × Process} (hrest : s.rest (.worker rank) = .ret r)
  | waits {p : Process} {fd : ℕ} {expects : Purpose} {next : Option Message → _}
      (hrest : s.rest (.worker rank) = .call p (.receive fd expects) next)
      (hempty : s.queue (.down rank) = []) (hopen : ¬Hung st rank (s.trace .coordinator))

/-- A worker can go on unless it has stopped. -/
theorem stopped_or_next (h : Reachable (star cfg st blocks (sockets st works)).system s)
    (hworks : ∀ x c, ∃ r, works x c r = true) (rank : Fin cfg.count) :
    Stopped s st rank ∨ ∃ answer s',
      (star cfg st blocks (sockets st works)).step s (.call (.worker rank) answer) = some s' := by
  have hwhole := (reaches h (.worker rank)).whole (whole_program _ _)
  cases hrest : s.rest (.worker rank) with
  | ret r => exact .inl (.returned hrest)
  | cut =>
      rw [hrest] at hwhole
      cases hwhole
  | call p c next =>
      by_cases hreceive : Pair.IsReceive c
      · obtain ⟨fd, expects, rfl⟩ := hreceive
        by_cases hword : s.queue (.down rank) ≠ [] ∨ PeerClosed st s rank (.worker rank)
        · exact .inr (exists_call_of_word hrest (show _ = some (.down rank) from rfl) hword)
        · obtain ⟨hempty, hopen⟩ := not_or.mp hword
          exact .inl (.waits hrest (not_not.mp hempty) hopen)
      · exact .inr (exists_call_of_ready hworks hrest hreceive fun hx => by cases hx)

/-- If all workers have stopped, the coordinator can go on, or all have returned. -/
theorem coordinator_next (h : Reachable (star cfg st blocks (sockets st works)).system s)
    (hworks : ∀ x c, ∃ r, works x c r = true) (hstopped : ∀ rank, Stopped s st rank) :
    (∀ x, ∃ r, s.rest x = .ret r) ∨ ∃ answer s',
      (star cfg st blocks (sockets st works)).step s (.call .coordinator answer) = some s' := by
  have hwhole := (reaches h .coordinator).whole (whole_program _ _)
  -- a worker whose socket has been closed has returned
  have hreturned : ∀ rank, Hung st rank (s.trace .coordinator) →
      ∃ r, s.rest (.worker rank) = .ret r := by
    intro rank hhung
    cases hstopped rank with
    | returned hrest => exact ⟨_, hrest⟩
    | waits _ _ hopen => exact absurd hhung hopen
  cases hrest : s.rest .coordinator with
  | ret r =>
      left
      intro x
      cases x with
      | coordinator => exact ⟨r, hrest⟩
      | worker rank => exact hreturned rank ((concluded_of_returned h hrest).hung rank)
  | cut =>
      rw [hrest] at hwhole
      cases hwhole
  | call p c next =>
      right
      have hrelays := relays_of_rest h hrest
      by_cases hreceive : Pair.IsReceive c
      · obtain ⟨fd, expects, rfl⟩ := hreceive
        obtain ⟨rank, rfl, hcollects⟩ := hrelays
        have hin : incoming st .coordinator (.receive (st.socket rank) expects) =
            some (.up rank) := by
          simp [incoming, (rankOf_eq_some st.socket_injective).mpr rfl]
        -- the coordinator waits for a word: it is there, or the socket is closed
        refine exists_call_of_word hrest hin ?_
        cases hstopped rank with
        | returned hrest' => exact .inr (ended_of_returned h hrest').closed
        | waits hrest' hempty hopen =>
            have hword := not_both_wait h hcollects (inPlace_of_rest h hrest')
            exact .inl (hword.resolve_right fun hne => hne hempty)
      · by_cases hwait : ∃ child, c = .direct (.waitpid child)
        -- it waits for a child: it has closed all sockets, so all workers have returned
        · obtain ⟨child, rfl⟩ := hwait
          obtain ⟨⟨rank, rfl⟩, hhung⟩ := hrelays
          obtain ⟨r, hworker⟩ := hreturned rank (hhung rank)
          have hfind := (rankOf_eq_some st.child_injective (m := st.child rank)).mpr rfl
          refine exists_call hrest { out := exitStatus r.1 } ?_ rfl
          simp [sockets, reports, hfind, hworker]
        · exact exists_call_of_ready hworks hrest hreceive fun _ child hc => hwait ⟨child, hc⟩

/-- As long as not all have returned, some process can go on. -/
theorem exists_next (h : Reachable (star cfg st blocks (sockets st works)).system s)
    (hworks : ∀ x c, ∃ r, works x c r = true) (hend : ∃ x p c next, s.rest x = .call p c next) :
    ∃ x answer s', (star cfg st blocks (sockets st works)).step s (.call x answer) = some s' := by
  by_cases hworker : ∃ rank : Fin cfg.count, ∃ answer s',
      (star cfg st blocks (sockets st works)).step s (.call (.worker rank) answer) = some s'
  · obtain ⟨rank, hnext⟩ := hworker
    exact ⟨.worker rank, hnext⟩
  · have hstopped : ∀ rank, Stopped s st rank := fun rank =>
      (stopped_or_next h hworks rank).resolve_right fun hnext => hworker ⟨rank, hnext⟩
    rcases coordinator_next h hworks hstopped with hall | hnext
    · obtain ⟨x, p, c, next, hrest⟩ := hend
      obtain ⟨r, hr⟩ := hall x
      rw [hrest] at hr
      cases hr
    · exact ⟨.coordinator, hnext⟩

/-- Every run can be continued until all have returned. -/
theorem exists_end (h : Reachable (star cfg st blocks (sockets st works)).system s)
    (hworks : ∀ x c, ∃ r, works x c r = true) :
    ∃ t s', Path (star cfg st blocks (sockets st works)).system s t s' ∧
      ∀ x, ∃ r, s'.rest x = .ret r :=
  exists_ended (N := star cfg st blocks (sockets st works)) (whole_program _)
    (fun _ hs hend => exists_next hs hworks hend) h

/-- **No deadlock.**  Whatever calls fail, and whenever they do: as long as not all processes have
returned, some process can go on, and every run can be continued until all have returned. -/
theorem no_deadlock (hworks : ∀ x c, ∃ r, works x c r = true)
    (h : Reachable (star cfg st blocks (sockets st works)).system s) :
    ((∃ x p c next, s.rest x = .call p c next) →
      ∃ x answer s', (star cfg st blocks (sockets st works)).step s (.call x answer) = some s') ∧
    ∃ t s', Path (star cfg st blocks (sockets st works)).system s t s' ∧
      ∀ x, ∃ r, s'.rest x = .ret r :=
  ⟨exists_next h hworks, exists_end h hworks⟩

/-- It holds of `twoWords` from the start. -/
theorem no_deadlock_twoWords : ∃ t s', Path (star twoWords twoStarted (fun _ _ => 0)
    (sockets twoStarted fun _ _ _ => true)).system (star twoWords twoStarted (fun _ _ => 0)
    (sockets twoStarted fun _ _ _ => true)).system.init t s' ∧ ∀ x, ∃ r, s'.rest x = .ret r :=
  (no_deadlock (fun _ c => ⟨Pair.blank c, rfl⟩) .init).2

end Progress

end SharingProbe.MultiShare
