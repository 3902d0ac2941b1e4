import SharingProbe.MultiShare.Relay

/-!
# The barriers

The counts of the words tie the processes together.  A worker that has received the word of a
barrier has been sent it by the coordinator, which had received one from every worker by then.

So while one worker reads in a round, every owner has sent the first word of that round and has not
received the last one: it leaves its block alone, and the block holds what the owner has filled it
with.  And once a worker has passed the last barrier, all have unmapped all slices.

## Strategy

Each program is followed by itself: `InPlace` says between which words a worker makes a call, and
`Relays` which words the coordinator has received when it sends one.

* `reading_place`: the reader of a round has passed its first barrier and has not sent the word of
  its second one;
* `block_kept`: an owner between these two words knows that its block holds the pattern;
* `all_unmapped`, `received_of_freed`: the last word is sent after all slices are unmapped, and
  the allocation is given back after the last word has been received;
* `arrived_of_put`: the word of a barrier is sent after all workers have sent theirs.

`barrier_passed` is where they meet: the channels add and drop nothing (`sentWords_eq`, `put_eq`),
so the word that one worker has received tells what every other worker has sent.  `block_of_known`
carries what an owner knows of its block over to the world, by induction on the run: nobody else
writes there (`owner_of_writes`).  `reads_round` and `unmapped_before_release` follow.
-/

namespace SharingProbe.MultiShare

open Interaction Network Transition Share

/-! ## Along the calls of a worker -/

section Worker

variable {cfg : Config} {rank : ℕ} {t : List SHEvent} {e : SHEvent}

theorem sentWords_append (t u : List SHEvent) : sentWords (t ++ u) = sentWords t + sentWords u :=
  List.countP_append

theorem receivedWords_append (t u : List SHEvent) :
    receivedWords (t ++ u) = receivedWords t + receivedWords u :=
  List.countP_append

/-- What is transferred into a buffer is not known. -/
theorem known_of_into {buffer : Buffer} (h : (flight t).Into buffer) :
    known t buffer = fun _ => none := by
  rcases List.eq_nil_or_concat t with rfl | ⟨t, e, rfl⟩
  · exact absurd h (by simp [Flight.Into])
  · rw [List.concat_eq_append] at h ⊢
    rw [known_concat, if_pos (.inr h)]

/-- What the processor writes to a block is there. -/
theorem wrote_of_learn {k : Knowledge} {blocks : Blocks} {c : Share.Call} {owner : ℕ}
    (hk : ∀ i value, k (.host owner) i = some value → blocks owner i = value) {i : ℕ}
    {value : UInt64}
    (h : learn k c (.host owner) i = some value) : wrote blocks c owner i = value := by
  by_cases hwrites : Writes (.host owner) c
  · cases c with
    | store b j value' =>
        cases hwrites
        by_cases hi : i = j
        · subst hi
          simpa [learn, wrote] using h
        · have hold : k (.host owner) i = some value := by
            simpa [learn, Function.update_of_ne hi] using h
          simpa [wrote, Function.update_of_ne hi] using hk i value hold
    | memset b =>
        cases hwrites
        simpa [learn, wrote] using h
    | _ => exact hk i value h
  · rw [wrote_of_not_writes hwrites]
    rw [learn_of_not_writes hwrites] at h
    exact hk i value h

/-- A copy is under way between the two barriers of its round. -/
theorem reading_place (h : Prog.Follows (InPlace cfg rank) t) {owner round : ℕ}
    (hreading : (owner, round) ∈ reading t) : owner < cfg.count ∧ round < cfg.rounds ∧
      sentWords t = 2 * round + 4 ∧ receivedWords t = cfg.count + 2 * round + 3 := by
  refine h.invariant (T := fun t => (owner, round) ∈ reading t → owner < cfg.count ∧
    round < cfg.rounds ∧ sentWords t = 2 * round + 4 ∧
      receivedWords t = cfg.count + 2 * round + 3) ?_ ?_ hreading
  · intro hmem
    cases hmem
  · intro t e _ ih hin hmem
    rw [reading_concat] at hmem
    obtain ⟨p, c, r⟩ := e
    -- a word is sent or received only when no copy is under way
    cases hputs : puts c r with
    | some m =>
        obtain ⟨fd, rfl⟩ := Pair.exists_send hputs
        have hstill : reading t = [] := hin.still
        rw [hstill] at hmem
        cases hmem
    | none =>
        cases htakes : takes c r with
        | some m =>
            obtain ⟨fd, expects, rfl⟩ := Pair.exists_receive htakes
            have hstill : reading t = [] := hin.still
            rw [hstill] at hmem
            cases hmem
        | none =>
            obtain ⟨hsent, hreceived⟩ := Pair.words_quiet (t := t) (e := ⟨p, c, r⟩) hputs htakes
            rw [hsent, hreceived]
            rcases mem_readsNext hmem with hmem | ⟨dst, name, rfl⟩
            · exact ih hmem
            · exact hin.2 owner rfl

/-- From the first barrier of a round to the second one, the block holds what is to be read. -/
theorem block_kept (h : Prog.Follows (InPlace cfg rank) t) {round : ℕ} (hround : round < cfg.rounds)
    (hsent : 2 * round + 4 ≤ sentWords t)
    (hreceived : receivedWords t < cfg.count + 2 * round + 4) :
    ¬(flight t).Into (.host rank) ∧ ∀ i < cfg.bytes / 8,
      known t (.host rank) i = some (pattern i (cfg.seed round rank)) := by
  refine h.invariant (T := fun t => 2 * round + 4 ≤ sentWords t →
    receivedWords t < cfg.count + 2 * round + 4 → ¬(flight t).Into (.host rank) ∧
      ∀ i < cfg.bytes / 8, known t (.host rank) i = some (pattern i (cfg.seed round rank)))
    ?_ ?_ hsent hreceived
  · intro hsent
    simp [sentWords] at hsent
  · intro t e _ ih hin hsent hreceived
    rw [receivedWords_append] at hreceived
    have hbefore : ¬Writes (.host rank) e.call ∧ ¬(flight t).Into (.host rank) ∧
        ∀ i < cfg.bytes / 8, known t (.host rank) i = some (pattern i (cfg.seed round rank)) := by
      by_cases hlate : 2 * round + 4 ≤ sentWords t
      · refine ⟨fun hwrites => ?_, ih hlate (by omega)⟩
        have := (hin.mayWrite hwrites).2 round hround hlate
        omega
      · -- this is the word of the first barrier
        rw [sentWords_concat] at hsent
        obtain ⟨p, c, r⟩ := e
        cases hputs : puts c r with
        | none =>
            rw [hputs] at hsent
            exact absurd hsent hlate
        | some m =>
            obtain ⟨fd, rfl⟩ := Pair.exists_send hputs
            have hthird : sentWords t = 2 * round + 3 := by
              rw [hputs] at hsent
              simp only [Option.toList_some, List.length_singleton] at hsent
              omega
            have hsends : Sends cfg rank t m := hin
            exact ⟨id, hsends.settled, hsends.filled round hround hthird⟩
    obtain ⟨hwrites, hinto, hknown⟩ := hbefore
    have hinto' : ¬(flight (t ++ [e])).Into (.host rank) := by
      rw [flight_concat]
      exact fun h => (into_next h).elim hinto hwrites
    rw [known_quiet hinto hinto' (learn_of_not_writes hwrites _)]
    exact ⟨hinto', hknown⟩

/-- A worker has nothing transferred into the blocks of the others. -/
theorem eq_of_into (h : Prog.Follows (InPlace cfg rank) t) {owner : ℕ}
    (hinto : (flight t).Into (.host owner)) : owner = rank := by
  refine h.invariant (T := fun t => (flight t).Into (.host owner) → owner = rank) ?_ ?_ hinto
  · intro h
    simp [Flight.Into] at h
  · intro t e _ ih hin h
    rw [flight_concat] at h
    rcases into_next h with h | hwrites
    · exact ih h
    · exact (hin.mayWrite hwrites).1

theorem HasUnmapped.append {i : ℕ} (h : HasUnmapped i t) (u : List SHEvent) :
    HasUnmapped i (t ++ u) := by
  obtain ⟨r, hret, p, name, hmem⟩ := h
  exact ⟨r, hret, p, name, List.mem_append_left _ hmem⟩

/-- The last word is sent after all slices have been unmapped. -/
theorem all_unmapped (h : Prog.Follows (InPlace cfg rank) t)
    (hsent : cfg.barriers + 1 ≤ sentWords t) : ∀ i < cfg.count, HasUnmapped i t := by
  refine h.invariant (T := fun t => cfg.barriers + 1 ≤ sentWords t →
    ∀ i < cfg.count, HasUnmapped i t) ?_ ?_ hsent
  · intro hsent
    simp [sentWords] at hsent
  · intro t e _ ih hin hsent i hi
    by_cases hlate : cfg.barriers + 1 ≤ sentWords t
    · exact (ih hlate i hi).append _
    · rw [sentWords_concat] at hsent
      obtain ⟨p, c, r⟩ := e
      cases hputs : puts c r with
      | none =>
          rw [hputs] at hsent
          exact absurd hsent hlate
      | some m =>
          obtain ⟨fd, rfl⟩ := Pair.exists_send hputs
          rw [hputs] at hsent
          simp only [Option.toList_some, List.length_singleton] at hsent
          have hsends : Sends cfg rank t m := hin
          exact (hsends.unmapped (by omega) i hi).append _

/-- A worker that has not thrown gives its block back after the last barrier. -/
theorem received_of_freed (h : Prog.Follows (InPlace cfg rank) t) (hfreed : Freed rank t)
    (hkept : ¬BodyThrew cfg rank t) : cfg.count + cfg.barriers ≤ receivedWords t := by
  obtain ⟨e, hmem, hfrees⟩ := hfreed
  obtain ⟨t₁, t₂, rfl⟩ := List.append_of_mem hmem
  have hin := h t₁ e t₂ rfl
  have hkept₁ : ¬BodyThrew cfg rank t₁ := fun hthrew => hkept (bodyThrew_append hthrew _)
  obtain ⟨p, c, r⟩ := e
  rw [receivedWords_append]
  cases c with
  | cleanup op name =>
      cases op with
      | halMemRelease owner handle =>
          have hall := hin (by simpa [freesBlock] using hfrees) hkept₁
          omega
      | _ => cases hfrees
  | _ => cases hfrees

end Worker

/-! ## Along the calls of the coordinator -/

section Coordinator

variable {cfg : Config} {st : Started cfg.count} {t : List SHEvent}

/-- The coordinator sends a word, or does not. -/
theorem said_step {e : SHEvent} (h : Relays cfg st t e.state e.call) :
    (∃ rank m, Forwards cfg st rank t m ∧ ∀ other, said st .coordinator (.down other) (t ++ [e]) =
      said st .coordinator (.down other) t ++ if rank = other then [m] else []) ∨
    ∀ other, said st .coordinator (.down other)
    (t ++ [e]) = said st .coordinator (.down other) t := by
  obtain ⟨p, c, r⟩ := e
  cases hputs : puts c r with
  | none =>
      refine .inr fun other => ?_
      rw [said_concat, putsOn_of_puts st hputs]
      exact List.append_nil _
  | some m =>
      obtain ⟨fd, rfl⟩ := Pair.exists_send hputs
      obtain ⟨rank, rfl, hforwards⟩ := h
      obtain ⟨hsent, -⟩ := Option.ite_none_right_eq_some.mp hputs
      refine .inl ⟨rank, m, hforwards, fun other => ?_⟩
      rw [said_concat, putsOn_send]
      by_cases hother : rank = other <;> simp [hother, hsent]

theorem got_le (st : Started cfg.count) (t u : List SHEvent) (rank : Fin cfg.count) :
    got st rank t ≤ got st rank (t ++ u) := by
  simp [got, heard]

/-- The word of a barrier is sent after all workers have sent theirs. -/
theorem arrived_of_put (h : Prog.Follows (Relays cfg st) t) {q : ℕ} (hq : 1 ≤ q)
    (rank : Fin cfg.count) (hput : cfg.count + q ≤ put st rank t)
    (other : Fin cfg.count) : q + 1 ≤ got st other t := by
  refine h.invariant (T := fun t => cfg.count + q ≤ put st rank t →
    q + 1 ≤ got st other t) ?_ ?_ hput
  · intro hput
    have hnone : put st rank [] = 0 := rfl
    omega
  · intro t e _ ih hrelays hput
    have hmono := got_le st t [e] other
    by_cases hlate : cfg.count + q ≤ put st rank t
    · exact (ih hlate).trans hmono
    · rcases said_step hrelays with ⟨rank', m, hforwards, hsaid⟩ | hsaid
      · have hput' := hput
        rw [put, hsaid rank] at hput'
        by_cases hrank : rank' = rank
        · subst hrank
          simp only [if_pos, List.length_append, List.length_singleton] at hput'
          have hplace : put st rank' t + 1 = cfg.count + q := by
            change put st rank' t + 1 ≥ cfg.count + q at hput'
            omega
          have harrived := (hforwards.barrier (by omega)).2 other
          omega
        · rw [if_neg hrank, List.append_nil] at hput'
          exact absurd hput' hlate
      · rw [put, hsaid rank] at hput
        exact absurd hput hlate

end Coordinator

/-! ## The processes together -/

section Network

variable {cfg : Config} {st : Started cfg.count} {blocks : Blocks} {admits : Admits cfg.count}
  {s : StarState cfg.count}

theorem worker_follows (h : Reachable (star cfg st blocks admits).system s) (rank : Fin cfg.count) :
    Prog.Follows (InPlace cfg rank) (s.trace (.worker rank)) :=
  follows h (N := star cfg st blocks admits) (i := .worker rank) (meets_worker rank.isLt)

theorem coordinator_follows (h : Reachable (star cfg st blocks admits).system s) :
    Prog.Follows (Relays cfg st) (s.trace .coordinator) :=
  follows h (N := star cfg st blocks admits) (i := .coordinator) meets_coordinator

/-- The next call of a worker is in place. -/
theorem inPlace_of_rest (h : Reachable (star cfg st blocks admits).system s) {rank : Fin cfg.count}
    {p : Process} {c : Share.Call} {next : Share.Call.Reply c → _}
    (hrest : s.rest (.worker rank) = .call p c next) :
    InPlace cfg rank (s.trace (.worker rank)) p c := by
  have hmeets := meets h (N := star cfg st blocks admits) (i := .worker rank)
    (meets_worker rank.isLt)
  rw [hrest] at hmeets
  exact hmeets.1

theorem relays_of_rest (h : Reachable (star cfg st blocks admits).system s) {p : Process}
    {c : Share.Call} {next : Share.Call.Reply c → _}
    (hrest : s.rest .coordinator = .call p c next) :
    Relays cfg st (s.trace .coordinator) p c := by
  have hmeets := meets h (N := star cfg st blocks admits) (i := .coordinator) meets_coordinator
  rw [hrest] at hmeets
  exact hmeets.1

theorem sentWords_eq (h : Reachable (star cfg st blocks admits).system s) (rank : Fin cfg.count) :
    sentWords (s.trace (.worker rank)) =
      got st rank (s.trace .coordinator) + (s.queue (.up rank)).length := by
  rw [← length_sentList, up_eq h rank, List.length_append]
  rfl

theorem put_eq (h : Reachable (star cfg st blocks admits).system s) (rank : Fin cfg.count) :
    put st rank (s.trace .coordinator) =
      receivedWords (s.trace (.worker rank)) + (s.queue (.down rank)).length := by
  rw [← length_receivedList, ← List.length_append, ← down_eq h rank]
  rfl

/-- A worker passes a barrier only when every worker has sent its word for it.  The first word of a
worker is its token. -/
theorem barrier_passed (h : Reachable (star cfg st blocks admits).system s) {q : ℕ} (hq : 1 ≤ q)
    (rank : Fin cfg.count) (hpassed : cfg.count + q ≤ receivedWords (s.trace (.worker rank)))
    (other : Fin cfg.count) : 1 + q ≤ sentWords (s.trace (.worker other)) := by
  have hput := put_eq h rank
  have harrived := arrived_of_put (coordinator_follows h) hq rank (by omega) other
  have hsent := sentWords_eq h other
  omega

/-- The owner has given its block back only after the last barrier, unless it has failed. -/
theorem not_gone (h : Reachable (star cfg st blocks admits).system s) {owner : Fin cfg.count}
    (hkept : ¬BodyThrew cfg owner (s.trace (.worker owner)))
    (halive : ¬Killed (st.child owner) (s.trace .coordinator))
    (hearly : receivedWords (s.trace (.worker owner)) < cfg.count + cfg.barriers) :
    ¬Gone st s owner := by
  rintro (hfreed | hkilled)
  · exact absurd (received_of_freed (worker_follows h owner) hfreed hkept) (by omega)
  · exact halive hkilled

/-- What a party has done it has done. -/
theorem Calls.mem {s' : StarState cfg.count} {x : Member cfg.count} {e : SHEvent}
    (h : Calls st admits s x e s') {y : Member cfg.count} {e' : SHEvent} (he' : e' ∈ s.trace y) :
    e' ∈ s'.trace y := by
  by_cases hy : y = x
  · subst hy
    rw [h.self]
    exact List.mem_append_left _ he'
  · rw [h.others y hy]
    exact he'

theorem Calls.gone {s' : StarState cfg.count} {x : Member cfg.count} {e : SHEvent}
    (h : Calls st admits s x e s') {owner : Fin cfg.count} (hgone : Gone st s owner) :
    Gone st s' owner :=
  hgone.imp (fun ⟨e', he', hfrees⟩ => ⟨e', h.mem he', hfrees⟩)
    fun ⟨e', he', hkills⟩ => ⟨e', h.mem he', hkills⟩

/-- Nobody but the owner writes to a block. -/
theorem owner_of_writes (h : Reachable (star cfg st blocks admits).system s) {x : Member cfg.count}
    {p : Process} {c : Share.Call} {next : Share.Call.Reply c → _}
    (hrest : s.rest x = .call p c next)
    {owner : Fin cfg.count} (hwrites : Writes (.host owner) c) : x = .worker owner := by
  cases x with
  | coordinator =>
      have hrelays := relays_of_rest h hrest
      cases c with
      | send => cases hwrites
      | receive => cases hwrites
      | direct op =>
          cases op with
          | ioSubmit => exact hrelays.elim
          | _ => cases hwrites
      | _ => exact hrelays.elim
  | worker rank => rw [Fin.ext ((inPlace_of_rest h hrest).mayWrite hwrites).1]

/-- What the owner knows of its block is so, until the owner is gone. -/
theorem block_of_known (h : Reachable (star cfg st blocks admits).system s) {owner : Fin cfg.count}
    (hthere : ¬Gone st s owner) {i : ℕ} {value : UInt64}
    (hknown : known (s.trace (.worker owner)) (.host owner) i = some value) :
    s.world owner i = value := by
  refine invariant h (fun s => ¬Gone st s owner → ∀ i value,
    known (s.trace (.worker owner)) (.host owner) i = some value → s.world owner i = value)
    ?_ ?_ ?_ hthere i value hknown
  · intro _ i value hknown
    cases hknown
  · intro s x e s' hreachable ih hcalled hthere i value hknown
    have hcalls := calls hcalled
    have hbefore := ih fun hgone => hthere (hcalls.gone hgone)
    obtain ⟨next, hrest, -⟩ := hcalled.rest
    rw [hcalls.world]
    by_cases hx : x = .worker owner
    · subst hx
      rw [hcalls.self, known_concat] at hknown
      split at hknown
      · cases hknown
      · exact wrote_of_learn hbefore hknown
    · rw [hcalls.others _ (Ne.symm hx)] at hknown
      rw [wrote_of_not_writes fun hwrites => hx (owner_of_writes hreachable hrest hwrites)]
      exact hbefore i value hknown
  · intro s d s' hreachable ih hdisturbed hthere i value hknown
    have htrace : s'.trace = s.trace := hdisturbed.trace
    obtain ⟨hunsettled, hothers⟩ := disturbs hdisturbed
    rw [Gone, htrace] at hthere
    rw [htrace] at hknown
    by_cases howner : owner = d.1
    · -- only a transfer of the owner could disturb its block, and then nothing is known of it
      subst howner
      rcases hunsettled with ⟨rank, hinto⟩ | hgone
      · have hrank := Fin.ext (eq_of_into (worker_follows hreachable rank) hinto)
        subst hrank
        rw [known_of_into hinto] at hknown
        cases hknown
      · exact absurd hgone hthere
    · rw [hothers owner fun h => howner (Fin.ext h)]
      exact ih hthere i value hknown

/-! ## A run in which all goes well -/

/-- A reply with which a call passes. -/
def granted (cfg : Config) (rank : ℕ) : (c : Share.Call) → Share.Call.Reply c
  | .check op _ =>
      match op with
      | .halMemAddressReserve _ => { out := vaAlignment }
      | .aclrtGetDevice | .drvMemGetAttribute => { out := cfg.devices rank }
      | .queryProperties _ => { out := cfg.nodes rank, more := cfg.hostNumaSide }
      | _ => { out := 1 }
  | .cleanup _ _ => {}
  | .direct op =>
      match op with
      | .openFile _ => { ret := 1 }
      | .ioSubmit _ _ => { ret := 4 }
      | .ioGetevents _ =>
          { ret := 4, events := fun i => { data := i, res := (cfg.bytes / 4 : ℕ) } }
      | _ => {}
  | .store _ _ _ | .memset _ | .caseResult _ _ => ()
  | .compare _ _ expected _ => expected
  | .send _ _ => true
  | .receive _ expects => some ⟨expects, if expects = .token then 1 else 0⟩

/-- The next call of a process. -/
def nextCall {n : ℕ} (s : StarState n) (x : Member n) : Option Share.Call :=
  match s.rest x with
  | .call _ c _ => some c
  | _ => none

theorem exists_of_nextCall {n : ℕ} {s : StarState n} {x : Member n} {c : Share.Call}
    (h : nextCall s x = some c) : ∃ p next, s.rest x = .call p c next := by
  unfold nextCall at h
  split at h
  · rename_i p c' next hrest
    cases h
    exact ⟨p, next, hrest⟩
  · cases h

/-- Two workers with one word each, and two rounds. -/
def twoWords : Config where
  count := 2
  rounds := 2
  bytes := 8
  hostNumaSide := 2
  devices := id
  nodes := id

/-- The workers of `twoWords`. -/
def first : Fin twoWords.count := ⟨0, by decide⟩

def second : Fin twoWords.count := ⟨1, by decide⟩

/-- The coordinator of `twoWords`. -/
def twoStarted : Started twoWords.count where
  process := { sockets := [5, 6], children := [77, 78] }
  socket rank := 5 + rank
  child rank := 77 + rank
  sockets_eq := rfl
  children_eq := rfl
  socket_injective _ _ h := Fin.ext (Nat.add_left_cancel h)
  child_injective _ _ h := Fin.ext (Nat.add_left_cancel h)

/-- What `twoWords` has come to after these have made a call each. -/
def after (turns : List (Member twoWords.count)) : StarState twoWords.count :=
  replay (star twoWords twoStarted (fun _ _ => 0) fun _ _ _ _ => true).system
    (turns.map fun x => .call x (granted twoWords x.number))

/-- So many turns of each worker, and so many of the coordinator. -/
def turns (phase : ℕ × ℕ) : List (Member twoWords.count) :=
  List.replicate phase.1 (.worker first) ++ List.replicate phase.1 (.worker second) ++
    List.replicate phase.2 .coordinator

/-- From barrier to barrier, until the second round is read. -/
def untilReading : List (Member twoWords.count) :=
  [(11, 6), (6, 4), (23, 4), (7, 4), (17, 4), (4, 4)].flatMap turns

theorem reachable_after (turns : List (Member twoWords.count)) :
    Reachable (star twoWords twoStarted (fun _ _ => 0) fun _ _ _ _ => true).system (after turns) :=
  reachable_replay _

/-! ## Reading -/

/-- A worker copies the block of an owner in a round: the copy is about to be issued, or may be
under way. -/
def Copies {n : ℕ} (s : StarState n) (reader : Fin n) (owner round : ℕ) : Prop :=
  (owner, round) ∈ reading (s.trace (.worker reader)) ∨
    ∃ p dst name next, s.rest (.worker reader) =
      .call p (.check (.aclrtMemcpyAsync dst (.host owner) round) name) next

/-- Somebody is about to write to a block, or a transfer into it may be under way. -/
def BeingWritten {n : ℕ} (s : StarState n) (owner : ℕ) : Prop :=
  ∃ x, (flight (s.trace x)).Into (.host owner) ∨
    ∃ p c next, s.rest x = .call p c next ∧ Writes (.host owner) c

theorem copies_place (h : Reachable (star cfg st blocks admits).system s) {reader : Fin cfg.count}
    {owner round : ℕ} (hcopies : Copies s reader owner round) :
    owner < cfg.count ∧ round < cfg.rounds ∧
      sentWords (s.trace (.worker reader)) = 2 * round + 4 ∧
      receivedWords (s.trace (.worker reader)) = cfg.count + 2 * round + 3 := by
  rcases hcopies with hreading | ⟨p, dst, name, next, hrest⟩
  · exact reading_place (worker_follows h reader) hreading
  · exact (inPlace_of_rest h hrest).2 owner rfl

/-- The coordinator transfers nothing. -/
theorem coordinator_idle (h : Reachable (star cfg st blocks admits).system s) :
    (flight (s.trace .coordinator)).Idle := by
  refine (coordinator_follows h).invariant (T := fun t => (flight t).Idle) ⟨rfl, rfl⟩ ?_
  intro t e _ ih hrelays
  rw [flight_concat]
  obtain ⟨p, c, r⟩ := e
  cases c with
  | send => exact ih
  | receive => exact ih
  | direct op =>
      cases op with
      | close => exact ih
      | kill => exact ih
      | waitpid => exact ih
      | _ => exact hrelays.elim
  | _ => exact hrelays.elim

/-- While a worker copies the block of an owner that has not failed, nobody writes
to the block, and it holds what the owner has filled it with for this round. -/
theorem reads_round (h : Reachable (star cfg st blocks admits).system s)
    {reader owner : Fin cfg.count} {round : ℕ} (hcopies : Copies s reader owner round)
    (hkept : ¬BodyThrew cfg owner (s.trace (.worker owner)))
    (halive : ¬Killed (st.child owner) (s.trace .coordinator)) :
    round < cfg.rounds ∧ ¬BeingWritten s owner ∧
      ∀ i < cfg.bytes / 8, s.world owner i = pattern i (cfg.seed round owner) := by
  obtain ⟨-, hround, hsent, hreceived⟩ := copies_place h hcopies
  have hbarriers : cfg.barriers = 2 * cfg.rounds + 4 := rfl
  -- the owner has come to the first barrier of the round and not passed the second one
  have hfirst : 2 * round + 4 ≤ sentWords (s.trace (.worker owner)) := by
    have hpassed := barrier_passed h (q := 2 * round + 3) (by omega) reader (by omega) owner
    omega
  have hsecond : receivedWords (s.trace (.worker owner)) < cfg.count + 2 * round + 4 := by
    by_contra hpassed
    have := barrier_passed h (q := 2 * round + 4) (by omega) owner (by omega) reader
    omega
  obtain ⟨hinto, hknown⟩ := block_kept (worker_follows h owner) hround hfirst hsecond
  have hthere := not_gone h hkept halive (by omega)
  refine ⟨hround, ?_, fun i hi => block_of_known h hthere (hknown i hi)⟩
  rintro ⟨x, hx | ⟨p, c, next, hrest, hwrites⟩⟩
  · cases x with
    | coordinator => exact (coordinator_idle h).not_into _ hx
    | worker rank =>
        obtain rfl : owner = rank := Fin.ext (eq_of_into (worker_follows h rank) hx)
        exact hinto hx
  · obtain rfl := owner_of_writes h hrest hwrites
    have := ((inPlace_of_rest h hrest).mayWrite hwrites).2 round hround hfirst
    omega

/-- What the barriers keep apart. -/
structure Separated (cfg : Config) (st : Started cfg.count) (s : StarState cfg.count) : Prop where
  /-- A worker passes a barrier only when every worker has sent its word for it. -/
  barriers : ∀ (rank other : Fin cfg.count) q, 1 ≤ q →
    cfg.count + q ≤ receivedWords (s.trace (.worker rank)) →
      1 + q ≤ sentWords (s.trace (.worker other))
  /-- What a worker copies is the pattern of this round, and nobody writes to it. -/
  reads : ∀ (reader owner : Fin cfg.count) round, Copies s reader owner round →
    ¬BodyThrew cfg owner (s.trace (.worker owner)) →
    ¬Killed (st.child owner) (s.trace .coordinator) →
      round < cfg.rounds ∧ ¬BeingWritten s owner ∧
        ∀ i < cfg.bytes / 8, s.world owner i = pattern i (cfg.seed round owner)

/-- **Separation.**  It holds in every interleaving, whatever calls fail. -/
theorem separated (h : Reachable (star cfg st blocks admits).system s) : Separated cfg st s where
  barriers rank other _ hq hpassed := barrier_passed h hq rank hpassed other
  reads _ _ _ hcopies hkept halive := reads_round h hcopies hkept halive

/-- In the second round of `twoWords` the first worker comes to copy the block of the second one. -/
theorem separated_twoWords : ∃ s : StarState twoWords.count,
    Copies s first 1 1 ∧ ¬BeingWritten s 1 ∧ s.world 1 0 = pattern 0 303 := by
  obtain ⟨s, hs⟩ : ∃ s, s = after (untilReading ++ List.replicate 9 (.worker first)) := ⟨_, rfl⟩
  have hreachable :
      Reachable (star twoWords twoStarted (fun _ _ => 0) fun _ _ _ _ => true).system s :=
    hs ▸ reachable_after _
  obtain ⟨hnext, hworked, halive⟩ : nextCall s (.worker first) = some (.check
        (.aclrtMemcpyAsync .device (.host 1) 1) "read owner-written shared block into HBM") ∧
      Worked twoWords second (s.trace (.worker second)) ∧
      ¬Killed (twoStarted.child second) (s.trace .coordinator) := by
    rw [hs]
    decide +kernel
  have hseed : twoWords.seed 1 second = 303 := rfl
  obtain ⟨p, next, hrest⟩ := exists_of_nextCall hnext
  have hcopies : Copies s first 1 1 := .inr ⟨p, _, _, next, hrest⟩
  obtain ⟨-, hwritten, hblock⟩ := (separated hreachable).reads first second 1 hcopies
    (fun hthrew => not_worked_of_threw hthrew hworked) halive
  rw [hseed] at hblock
  exact ⟨s, hcopies, hwritten, hblock 0 (by decide)⟩

/-! ## Unmapping -/

/-- **Unmapping everywhere.**  When a worker that has left its `try` block normally gives its
allocation back, every worker has unmapped every slice. -/
theorem unmapped_before_release (h : Reachable (star cfg st blocks admits).system s)
    {owner : Fin cfg.count} {p : Process} {handle : Ptr} {name : String}
    {next : Share.Call.Reply (.cleanup (.halMemRelease owner handle) name) → _}
    (hrest : s.rest (.worker owner) = .call p (.cleanup (.halMemRelease owner handle) name) next)
    (hkept : ¬BodyThrew cfg owner (s.trace (.worker owner))) :
    ∀ rank : Fin cfg.count, ∀ i < cfg.count, HasUnmapped i (s.trace (.worker rank)) := by
  have hreceived := inPlace_of_rest h hrest rfl hkept
  have hbarriers : cfg.barriers = 2 * cfg.rounds + 4 := rfl
  intro rank
  have hpassed := barrier_passed h (q := cfg.barriers) (by omega) owner hreceived.ge rank
  exact all_unmapped (worker_follows h rank) (by omega)

/-- The first worker of `twoWords` comes to give its allocation back. -/
theorem unmapped_before_release_twoWords : ∃ s : StarState twoWords.count,
    nextCall s (.worker first) = some (.cleanup (.halMemRelease 0 1) "release handle") ∧
      HasUnmapped 0 (s.trace (.worker second)) ∧ HasUnmapped 1 (s.trace (.worker second)) := by
  obtain ⟨s, hs⟩ : ∃ s, s = after (untilReading ++ [(17, 4), (5, 4), (4, 4)].flatMap turns ++
      [.worker first]) := ⟨_, rfl⟩
  have hreachable :
      Reachable (star twoWords twoStarted (fun _ _ => 0) fun _ _ _ _ => true).system s :=
    hs ▸ reachable_after _
  obtain ⟨hnext, hworked⟩ : nextCall s (.worker first) =
        some (.cleanup (.halMemRelease 0 1) "release handle") ∧
      Worked twoWords first (s.trace (.worker first)) := by
    rw [hs]
    decide +kernel
  obtain ⟨p, next, hrest⟩ := exists_of_nextCall hnext
  have hall := @unmapped_before_release _ _ _ _ _ hreachable first _ _ _ _ hrest
    fun hthrew => not_worked_of_threw hthrew hworked
  exact ⟨s, hnext, hall second 0 (by decide), hall second 1 (by decide)⟩

end Network

end SharingProbe.MultiShare
