import SharingProbe.Library.Greedy
import SharingProbe.DataStrategy.Coherence
import SharingProbe.DataStrategy.Exchange

/-!
# Which descriptors are read

With the control channel of the demo an attempt never fails: it waits for a line that
it can accept, and raises when there is none.  So the exchange reads `stdin` greedily,
for one peer after the other, and a line that is passed over is lost for the later
peers.
-/

namespace SharingProbe.DataStrategy

open Interaction

/-! ## The control channel in the steps -/

/-- The attempts are answered by `ctrl` reading `stdin`. -/
def Answers (ctrl : CtrlLayout) : List Line → List Note → Prop
  | _, [] => True
  | stdin, .attempt rank reply :: ns =>
      reply = (ctrl.getRankDesc rank stdin).1 ∧ Answers ctrl (ctrl.getRankDesc rank stdin).2 ns
  | stdin, .reading _ :: ns => Answers ctrl stdin ns
  | stdin, .pause _ :: ns => Answers ctrl stdin ns
  | stdin, .imported _ _ :: ns => Answers ctrl stdin ns
  | stdin, .mapped _ :: ns => Answers ctrl stdin ns

theorem Follows.answers {ctrl : CtrlLayout} {stdin : List Line} {t : List DSEvent}
    (h : Follows ctrl stdin t) : Answers ctrl stdin (notes t) := by
  induction t generalizing stdin with
  | nil => trivial
  | cons e t ih =>
      obtain ⟨data, ⟨site, rank, op⟩, r⟩ := e
      cases op with
      | getRankDesc wanted => exact ⟨h.1, ih h.2⟩
      | setRankDesc other handle => exact ih h.2
      | _ => exact ih h

theorem firstAccepted_eq (rank : ℕ) (stdin : List Line) :
    (CtrlLayout.firstAccepted rank stdin).map Prod.snd = Greedy.first (acceptLine rank) stdin := by
  induction stdin with
  | nil => rfl
  | cons line stdin ih =>
      unfold CtrlLayout.firstAccepted Greedy.first
      cases acceptLine rank line with
      | some handle => rfl
      | none => exact ih

/-- What `GetRankDesc` throws at the end of its input. -/
def stdinClosed : Exn := .error "stdin closed while waiting for rank descriptor"

theorem getRankDesc_of_lt {ctrl : CtrlLayout} {rank : ℕ} (hrank : rank < ctrl.rankCount)
    (stdin : List Line) :
    ctrl.getRankDesc rank stdin =
      match Greedy.first (acceptLine rank) stdin with
      | some (handle, rest) => (.ok (.ok handle), rest)
      | none => (.error stdinClosed, []) := by
  unfold CtrlLayout.getRankDesc
  rw [if_neg (by omega), ← firstAccepted_eq]
  cases CtrlLayout.firstAccepted rank stdin with
  | none => rfl
  | some found => rfl

/-! ## The exchange reads greedily -/

/-- The handles that are imported, with their peers. -/
def imports (ns : List Note) : List (ℕ × UInt64) :=
  ns.filterMap fun
    | .imported rank token => some (rank, token)
    | _ => none

/-- The peers of an owner among these ranks. -/
def peersOf (owner : ℕ) (ranks : List ℕ) : List ℕ := ranks.filter (· ≠ owner)

/-- The handles are those that a greedy reader gets, and the exchange is complete if
and only if the reader gets all of them; otherwise the end of the input is thrown. -/
structure ReadsGreedily (peers : List ℕ) (stdin : List Line) (ns : List Note)
    (o : Option (Except Exn Status)) : Prop where
  imports : imports ns = Greedy.run acceptLine peers stdin
  complete : Greedy.InOrder acceptLine peers stdin → o = some (.ok .ok)
  closed : ¬Greedy.InOrder acceptLine peers stdin → o = some (.error stdinClosed)

theorem peersOf_cons {owner rank : ℕ} (hpeer : rank ≠ owner) (ranks : List ℕ) :
    peersOf owner (rank :: ranks) = rank :: peersOf owner ranks := by
  simp [peersOf, hpeer]

/-- Where the input has no line for the first peer, nothing is read. -/
theorem readsGreedily_closed {rank : ℕ} {peers : List ℕ} {stdin : List Line}
    (hfirst : Greedy.first (acceptLine rank) stdin = none) :
    ReadsGreedily (rank :: peers) stdin [.attempt rank (.error stdinClosed)]
      (some (.error stdinClosed)) := by
  have hrun : Greedy.run acceptLine (rank :: peers) stdin = [] := by
    unfold Greedy.run
    rw [hfirst]
  refine ⟨hrun.symm, fun horder => ?_, fun _ => rfl⟩
  have hall := Greedy.run_complete_iff.mpr horder
  rw [hrun] at hall
  cases hall

/-- An attempt that returns has read a handle. -/
theorem Polled.of_answer {ctrl : CtrlLayout} {rank deadline fuel : ℕ} {first : Except Status UInt64}
    {ns : List Note} {stdin : List Line} {o : Option (Except Exn (Except Status UInt64))}
    (h : Polled rank deadline fuel first ns o) (hrank : rank < ctrl.rankCount)
    (hanswer : .ok first = (ctrl.getRankDesc rank stdin).1) :
    ∃ handle rest, Greedy.first (acceptLine rank) stdin = some (handle, rest) ∧
      (ctrl.getRankDesc rank stdin).2 = rest ∧ first = .ok handle ∧ ns = [] ∧
        o = some (.ok (.ok handle)) := by
  rw [getRankDesc_of_lt hrank] at hanswer ⊢
  cases hfirst : Greedy.first (acceptLine rank) stdin with
  | none =>
      rw [hfirst] at hanswer
      cases hanswer
  | some found =>
      obtain ⟨handle, rest⟩ := found
      rw [hfirst] at hanswer
      cases hanswer
      cases h
      exact ⟨handle, rest, rfl, rfl, rfl, rfl, rfl⟩

theorem Exchanged.readsGreedily {ctrl : CtrlLayout} {owner deadline fuel : ℕ} {ranks : List ℕ}
    {ns : List Note} {o : Option (Except Exn Status)} {stdin : List Line}
    (h : Exchanged owner deadline fuel ranks ns o) (hranks : ∀ rank ∈ ranks, rank < ctrl.rankCount)
    (hanswers : Answers ctrl stdin ns) : ReadsGreedily (peersOf owner ranks) stdin ns o := by
  induction h generalizing stdin with
  | done => exact ⟨rfl, fun _ => rfl, fun h => absurd ⟨[], List.nil_sublist _, .nil⟩ h⟩
  | @own ranks ns o hrest ih =>
      -- the own rank is no peer
      have hpeers : peersOf owner (owner :: ranks) = peersOf owner ranks := by simp [peersOf]
      rw [hpeers]
      exact ih (fun rank hmem => hranks rank (List.mem_cons_of_mem _ hmem)) hanswers
  | @threw rank ranks e hpeer =>
      have hanswer := hanswers.1
      rw [getRankDesc_of_lt (hranks rank List.mem_cons_self)] at hanswer
      rw [peersOf_cons hpeer]
      cases hfirst : Greedy.first (acceptLine rank) stdin with
      | some found =>
          rw [hfirst] at hanswer
          cases hanswer
      | none =>
          rw [hfirst] at hanswer
          cases hanswer
          exact readsGreedily_closed hfirst
  | cut ranks hpeer hpolled | pollThrew ranks hpeer hpolled
  | timedOut ranks message hpeer hpolled =>
      obtain ⟨handle, rest, -, -, -, -, ho⟩ :=
        hpolled.of_answer (hranks _ List.mem_cons_self) hanswers.1
      cases ho
  -- a line is accepted, and the rest is read with what is left of the input
  | @imported rank ranks first ns ns' handle o hpeer hpolled hrest ih =>
      obtain ⟨handle', rest, hfirst, hleft, rfl, rfl, ho⟩ :=
        hpolled.of_answer (hranks _ List.mem_cons_self) hanswers.1
      cases ho
      have hanswers' : Answers ctrl rest ns' := hleft ▸ hanswers.2
      have hgreedy := ih (fun rank hmem => hranks rank (List.mem_cons_of_mem _ hmem)) hanswers'
      have hrun : Greedy.run acceptLine (rank :: peersOf owner ranks) stdin =
          (rank, handle) :: Greedy.run acceptLine (peersOf owner ranks) rest := by
        rw [Greedy.run, hfirst]
      have horder : Greedy.InOrder acceptLine (rank :: peersOf owner ranks) stdin ↔
          Greedy.InOrder acceptLine (peersOf owner ranks) rest := by
        rw [← Greedy.run_complete_iff, ← Greedy.run_complete_iff, hrun, List.map_cons,
          List.cons_inj_right]
      rw [peersOf_cons hpeer]
      refine ⟨?_, fun h => hgreedy.complete (horder.mp h),
        fun h => hgreedy.closed fun h' => h (horder.mpr h')⟩
      rw [hrun, ← hgreedy.imports]
      rfl

/-! ## An attempt that raises -/

/-- The exception that a call raises. -/
def raised : DSEvent → Option Exn
  | ⟨_, ⟨_, _, .getRankDesc _⟩, .error e⟩ => some e
  | _ => none

/-- A call that raises ends the procedure with its exception. -/
def Raises {α : Type} (m : DS α) : Prop :=
  ∀ data t o, (m data).Stops t o → ∀ e ∈ t, ∀ exn, raised e = some exn →
    ∃ data', o = some (.error exn, data')

theorem not_raised {e : DSEvent} (h : IsLocal e.call) : raised e = none := by
  obtain ⟨data, ⟨site, rank, op⟩, r⟩ := e
  cases op with
  | getRankDesc wanted => cases h
  | _ => rfl

theorem raises_of_local {α : Type} {m : DS α} (hm : m.Only IsLocal) : Raises m := by
  intro data t o h e he exn hraised
  rw [not_raised (hm.of_stops h e he)] at hraised
  cases hraised

theorem Raises.bind {α β : Type} {m : DS α} {f : α → DS β} (hm : Raises m)
    (hf : ∀ a, Raises (f a)) : Raises (m >>= f) := by
  intro data t o h e he exn hraised
  rcases Proc.stops_bind h with ⟨hfirst, rfl⟩ | ⟨exn', data', hfirst, rfl⟩ |
    ⟨a, data', t₁, t₂, rfl, hfirst, hrest⟩
  · obtain ⟨data', ho⟩ := hm data t _ hfirst e he exn hraised
    cases ho
  · obtain ⟨data'', ho⟩ := hm data t _ hfirst e he exn hraised
    cases ho
    exact ⟨data', rfl⟩
  · rcases List.mem_append.mp he with he | he
    · obtain ⟨data'', ho⟩ := hm data t₁ _ hfirst e he exn hraised
      cases ho
    · exact hf a data' t₂ o hrest e he exn hraised

theorem raises_pure {α : Type} (a : α) : Raises (pure a : DS α) :=
  raises_of_local (Proc.only_pure a)

theorem raises_get : Raises (Proc.get : DS DataStrategy) := raises_of_local Proc.only_get

/-- The call reads a descriptor. -/
def readsDesc : Op → Bool
  | .getRankDesc _ => true
  | _ => false

theorem raises_hal (rank : ℕ) (op : Op) (hop : readsDesc op = false) :
    Raises (hal rank op) := by
  intro data t o h e he exn hraised
  cases h with
  | @call _ _ _ r t _ h =>
      cases h
      cases List.mem_singleton.mp he
      cases op with
      | getRankDesc wanted => cases hop
      | _ => cases hraised

theorem getRankDesc_raises (rank : ℕ) : Raises (getRankDesc rank) := by
  intro data t o h e he exn hraised
  obtain ⟨r, u, rfl, hrest⟩ := Proc.stops_ask_bind h
  cases r with
  | error exn' =>
      obtain ⟨rfl, rfl⟩ := Proc.stops_throw hrest
      cases List.mem_singleton.mp he
      cases hraised
      exact ⟨data, rfl⟩
  | ok peerDesc =>
      obtain ⟨rfl, rfl⟩ := Proc.stops_pure hrest
      cases List.mem_singleton.mp he
      cases hraised

theorem pollRankDesc_raises (rank deadline fuel : ℕ) (peerDesc : Except Status UInt64) :
    Raises (pollRankDesc rank deadline fuel peerDesc) := by
  induction fuel generalizing peerDesc with
  | zero =>
      cases peerDesc with
      | ok handle => exact raises_pure _
      | error status => exact raises_of_local Proc.only_cut
  | succ fuel ih =>
      cases peerDesc with
      | ok handle => exact raises_pure _
      | error status =>
          unfold pollRankDesc
          refine (raises_hal _ _ rfl).bind fun now => ?_
          split
          · exact raises_pure _
          refine (raises_hal _ _ rfl).bind fun _ => (raises_hal _ _ rfl).bind fun later => ?_
          split
          · exact raises_pure _
          · exact (getRankDesc_raises rank).bind ih

theorem peerLoop_raises (fuel deadline timeoutMs : ℕ) (ranks : List ℕ) :
    Raises (peerLoop fuel deadline timeoutMs ranks) := by
  induction ranks with
  | nil => exact raises_pure _
  | cons rank ranks ih =>
      unfold peerLoop
      refine raises_get.bind fun data => ?_
      split
      · exact ih
      refine (getRankDesc_raises rank).bind fun first => ?_
      refine (pollRankDesc_raises rank deadline fuel first).bind fun peerDesc => ?_
      cases peerDesc with
      | error status => exact raises_pure _
      | ok handle =>
          refine (raises_of_local (importPeer_local rank handle)).bind fun status => ?_
          split
          · exact raises_pure _
          · exact ih

theorem crossRankSetup_raises (fuel timeoutMs : ℕ) : Raises (crossRankSetup fuel timeoutMs) := by
  unfold crossRankSetup
  refine raises_get.bind fun data => (raises_hal _ _ rfl).bind fun now => ?_
  refine (raises_hal _ _ rfl).bind fun r => ?_
  cases r with
  | error ret => exact raises_pure _
  | ok shareHandle =>
      refine (raises_hal _ _ rfl).bind fun r => ?_
      dsimp only
      split
      · exact raises_pure _
      refine (raises_hal _ _ rfl).bind fun status => ?_
      split
      · exact raises_pure _
      · exact peerLoop_raises _ _ _ _

theorem allocate_local (args : SetupArgs) : (allocate args).Only IsLocal := by
  unfold allocate
  refine (localSetup_local _ _ _).bind fun status => ?_
  split
  · exact reset_local.bind fun _ => localSetup_local _ _ _
  · exact Proc.only_pure _

theorem setupBody_raises (fuel : ℕ) (args : SetupArgs) : Raises (setupBody fuel args) := by
  unfold setupBody
  refine (raises_of_local (deviceSetup_local _)).bind fun status => ?_
  refine Raises.bind ?_ fun status => ?_
  · split
    · exact raises_of_local (allocate_local args)
    · exact raises_pure _
  · split
    · exact crossRankSetup_raises fuel args.timeoutMs
    · exact raises_pure _

/-- An exception as the `try` of `Setup` catches it. -/
def caught : Exn → Status
  | .badAlloc => .outOfMemory
  | .error what => .error what

/-- What `Setup` does with the status of its `try` block. -/
def finishSetup (args : SetupArgs) (status : Status) : DS Status := do
  if status.failure then
    reset
    pure status
  else
    Proc.modify fun self =>
      { self with slotSize := args.slotSize, nSlotsPerRank := args.nSlotsPerRank }
    pure .ok

theorem finishSetup_local (args : SetupArgs) (status : Status) :
    (finishSetup args status).Only IsLocal := by
  unfold finishSetup
  split
  · exact reset_local.bind fun _ => Proc.only_pure _
  · exact (Proc.only_modify _).bind fun _ => Proc.only_pure _

theorem finishSetup_of_failure {args : SetupArgs} {status result : Status}
    {data data' : DataStrategy}
    {t : List DSEvent} (hfailure : status.failure = true)
    (h : (finishSetup args status data).Stops t (some (.ok result, data'))) : result = status := by
  unfold finishSetup at h
  rw [if_pos hfailure] at h
  rcases Proc.stops_bind h with ⟨-, ho⟩ | ⟨e, data₁, -, ho⟩ | ⟨⟨⟩, data₁, t₁, t₂, rfl, -, hrest⟩
  · cases ho
  · cases ho
  · cases hrest
    rfl

theorem failure_caught (exn : Exn) : (caught exn).failure = true := by
  cases exn <;> rfl

/-- If an attempt raises, `Setup` fails with what it has raised. -/
theorem setup_of_raised {fuel : ℕ} {args : SetupArgs} {data data' : DataStrategy}
    {t : List DSEvent} {status : Status} (h : (setup fuel args data).Runs t (.ok status, data'))
    {e : DSEvent} (he : e ∈ t) {exn : Exn} (hraised : raised e = some exn) : status =
      caught exn := by
  by_cases hinit : data.nSlotsPerRank ≠ 0
  · rw [setup_of_initialized hinit] at h
    cases h
    cases he
  have hstops := h.stops
  change ((if data.nSlotsPerRank ≠ 0 then _ else _ : DS Status) data).Stops t _ at hstops
  rw [if_neg hinit] at hstops
  change ((Proc.tryCatch (setupBody fuel args) _ >>= finishSetup args) _).Stops t _ at hstops
  -- the trace is that of the body and that of what follows it
  rcases Proc.stops_bind hstops with ⟨-, ho⟩ | ⟨exn', data₁, -, ho⟩ |
    ⟨status₁, data₁, t₁, t₂, rfl, htry, hfinish⟩
  · cases ho
  · cases ho
  have hnone : e ∉ t₂ := by
    intro hmem
    rw [not_raised ((finishSetup_local args status₁).of_stops hfinish e hmem)] at hraised
    cases hraised
  have he₁ : e ∈ t₁ := (List.mem_append.mp he).resolve_right hnone
  rcases Prog.Stops.bind_cases htry with ⟨-, ho⟩ | ⟨⟨x, data₂⟩, t₃, t₄, rfl, hbody, hcatch⟩
  · cases ho
  have hcaught : t₄ = [] := by
    cases x with
    | ok status₂ => cases hcatch; rfl
    | error exn' => cases exn' <;> (cases hcatch; rfl)
  subst hcaught
  rw [List.append_nil] at he₁
  obtain ⟨data₃, ho⟩ := setupBody_raises fuel args _ t₃ _ hbody e he₁ exn hraised
  cases ho
  have hstatus : status₁ = caught exn := by
    cases exn <;> (cases hcatch; rfl)
  subst hstatus
  exact finishSetup_of_failure (failure_caught exn) hfinish

/-! ## The exchange as a whole -/

/-- **Descriptors are matched greedily and in order.**  `CrossRankSetup` imports what a
greedy reader of `stdin` gets for the peers in ascending order, and it is complete if
and only if accepted lines for all of them occur in this order; otherwise the end of
the input is thrown.  Whatever a call of `GetRankDesc` throws makes `Setup` fail.  What
`SetRankDesc` prints is accepted for its rank and for no other. -/
theorem descriptors_matched {ctrl : CtrlLayout} {data : DataStrategy} {fuel timeoutMs : ℕ}
    {stdin : List Line} {t : List DSEvent} {o : Option (Except Exn Status × DataStrategy)}
    (hranks : data.mappings.length = ctrl.rankCount) (hsize : ctrl.rankCount ≤ sizeMax)
    (hok : ∀ e ∈ t, succeeds e = true) (hfollows : Follows ctrl stdin t)
    (h : (crossRankSetup fuel timeoutMs data).Stops t o) :
    ReadsGreedily (peersOf data.owner (List.range ctrl.rankCount)) stdin (notes t)
        (o.map Prod.fst) ∧
      (∀ fuel args data data' t status, (setup fuel args data).Runs t (.ok status, data') →
        ∀ e ∈ t, ∀ exn, raised e = some exn → status = caught exn ∧ status.failure = true) ∧
      ∀ rank < ctrl.rankCount, ∀ handle : UInt64, handle.toNat ≠ kInvalid →
        ∃ line, ctrl.setRankDesc rank handle = (.ok, [line]) ∧
          ∀ other, acceptLine other line = if other = rank then some handle else none := by
  refine ⟨?_, ?_, ?_⟩
  · obtain ⟨start, ns, hnotes, hexchanged⟩ := crossRankSetup_exchanged hok h
    have hanswers := hfollows.answers
    rw [hnotes] at hanswers ⊢
    rw [hranks] at hexchanged
    have hgreedy := hexchanged.readsGreedily (fun rank hmem => List.mem_range.mp hmem) hanswers
    exact ⟨hgreedy.imports, hgreedy.complete, hgreedy.closed⟩
  · intro fuel args data data' t status hruns e he exn hraised
    have hstatus := setup_of_raised hruns he hraised
    exact ⟨hstatus, hstatus ▸ failure_caught exn⟩
  · intro rank hrank handle hhandle
    refine ⟨descLine rank handle, ?_, fun other => ?_⟩
    · unfold CtrlLayout.setRankDesc
      rw [if_neg (by omega)]
    · rw [acceptLine_descLine_eq other handle (by omega)]
      simp [hhandle]

/-- An environment of rank 0 of three in which every call succeeds. -/
def pasted (t : List DSEvent) : (call : Call) → call.Reply
  | ⟨_, _, .getRankDesc rank⟩ => .ok (.ok (UInt64.ofNat (7 + rank)))
  | ⟨_, _, .halMemMap _ _ _⟩ => .ok ()
  | ⟨site, rank, op⟩ => hugeFails 0 t ⟨site, rank, op⟩

/-- Rank 0 passes over the line of rank 2 while it waits for that of rank 1. -/
theorem descriptors_matched_threeRanks :
    ReadsGreedily [1, 2] [descLine 2 5, "junk".toList, descLine 1 8, descLine 2 9]
        (notes (Prog.exec pasted
          (crossRankSetup 0 0 { mappings := [⟨some 1, 2 ^ 30, true⟩, {}, {}] })
          []).1)
        ((Prog.exec pasted (crossRankSetup 0 0 { mappings := [⟨some 1, 2 ^ 30, true⟩, {}, {}] })
          []).2.map Prod.fst) := by
  have hend : ((Prog.exec pasted
      (crossRankSetup 0 0 { mappings := [⟨some 1, 2 ^ 30, true⟩, {}, {}] }) []).2).isSome := by
    decide +kernel
  obtain ⟨x, hx⟩ := Option.isSome_iff_exists.mp hend
  have hstops := (Prog.runs_of_exec hx).stops
  rw [← hx] at hstops
  have hfollows : Follows (.new 3 1) [descLine 2 5, "junk".toList, descLine 1 8, descLine 2 9]
      (Prog.exec pasted (crossRankSetup 0 0 { mappings := [⟨some 1, 2 ^ 30, true⟩, {}, {}] })
        []).1 := by
    decide +kernel
  exact (descriptors_matched rfl (by decide) (by decide +kernel) hfollows hstops).1

end SharingProbe.DataStrategy
