import SharingProbe.Library.Outcome
import SharingProbe.DataStrategy.Resources

/-!
# The exchange of descriptors, as it is seen from outside

Between `CrossRankSetup` and its surroundings pass the attempts to read a descriptor,
the readings of the clock, the pauses, and what is imported and mapped.  `Exchanged`
says which sequences of these a run can show, one peer after the other, if the calls
of HAL succeed.  What is said of the deadline and of the order of the descriptors
follows from it.
-/

namespace SharingProbe.DataStrategy

open Interaction

/-! ## What is seen -/

/-- A step of the exchange. -/
inductive Note where
  | attempt (rank : ℕ) (reply : Except Exn (Except Status UInt64))
  | reading (now : ℕ)
  | pause (time : ℕ)
  | imported (rank : ℕ) (token : UInt64)
  | mapped (rank : ℕ)

/-- The step that a call is. -/
def note? : DSEvent → Option Note
  | ⟨_, ⟨_, _, .getRankDesc rank⟩, reply⟩ => some (.attempt rank reply)
  | ⟨_, ⟨_, _, .steadyClockNow⟩, now⟩ => some (.reading now)
  | ⟨_, ⟨_, _, .sleepUntil time⟩, _⟩ => some (.pause time)
  | ⟨_, ⟨_, rank, .halMemImportFromShareableHandle token _⟩, _⟩ => some (.imported rank token)
  | ⟨_, ⟨_, rank, .halMemMap _ _ _⟩, _⟩ => some (.mapped rank)
  | _ => none

/-- The steps of a run. -/
def notes (t : List DSEvent) : List Note := t.filterMap note?

/-- A call of HAL, or the publication of the own descriptor, succeeds. -/
def succeeds : DSEvent → Bool
  | ⟨_, ⟨_, _, .halMemAddressReserve _⟩, r⟩ => r.toOption.any (· ≠ 0)
  | ⟨_, ⟨_, _, .halMemMap _ _ _⟩, r⟩ => r.isOk
  | ⟨_, ⟨_, _, .halMemExportToShareableHandle _⟩, r⟩ => r.isOk
  | ⟨_, ⟨_, _, .halMemShareHandleSetAttribute _⟩, r⟩ => r.isOk
  | ⟨_, ⟨_, _, .halMemImportFromShareableHandle _ _⟩, r⟩ => r.isOk
  | ⟨_, ⟨_, _, .setRankDesc _ _⟩, status⟩ => status.success
  | _ => true

theorem exists_of_isOk {ε α : Type} {r : Except ε α} (h : r.isOk = true) : ∃ a, r = .ok a := by
  cases r with
  | error e => cases h
  | ok a => exact ⟨a, rfl⟩

/-! ## Which steps a run can show -/

/-- The pause between two attempts ends no later than the deadline. -/
def pauseUntil (deadline now : ℕ) : ℕ := min deadline (now + 10 * 1000000)

/-- The polling loop for a peer whose first attempt is known, and what it returns.
With no `fuel` left it gives up. -/
inductive Polled (rank deadline : ℕ) :
    ℕ → Except Status UInt64 → List Note → Option (Except Exn (Except Status UInt64)) → Prop
  | read (fuel : ℕ) (handle : UInt64) : Polled rank deadline fuel (.ok handle) []
      (some (.ok (.ok handle)))
  | cut (status : Status) : Polled rank deadline 0 (.error status) [] none
  | late (fuel : ℕ) (status : Status) {now : ℕ} (hnow : deadline ≤ now) :
      Polled rank deadline (fuel + 1) (.error status) [.reading now] (some (.ok (.error status)))
  | woken (fuel : ℕ) (status : Status) {now later : ℕ} (hnow : now < deadline)
      (hlater : deadline ≤ later) : Polled rank deadline (fuel + 1) (.error status)
        [.reading now, .pause (pauseUntil deadline now), .reading later]
        (some (.ok (.error status)))
  | threw (fuel : ℕ) (status : Status) {now later : ℕ} {e : Exn} (hnow : now < deadline)
      (hlater : later < deadline) : Polled rank deadline (fuel + 1) (.error status)
        [.reading now, .pause (pauseUntil deadline now), .reading later, .attempt rank (.error e)]
        (some (.error e))
  | again {fuel : ℕ} (status : Status) {now later : ℕ} {next : Except Status UInt64}
      {ns : List Note} {o : Option (Except Exn (Except Status UInt64))} (hnow : now < deadline)
      (hlater : later < deadline) (hrest : Polled rank deadline fuel next ns o) :
      Polled rank deadline (fuel + 1) (.error status)
        (.reading now :: .pause (pauseUntil deadline now) :: .reading later ::
          .attempt rank (.ok next) :: ns) o

/-- The peer loop over some ranks, and what `CrossRankSetup` returns. -/
inductive Exchanged (owner deadline fuel : ℕ) :
    List ℕ → List Note → Option (Except Exn Status) → Prop
  | done : Exchanged owner deadline fuel [] [] (some (.ok .ok))
  | own {ranks : List ℕ} {ns : List Note} {o : Option (Except Exn Status)}
      (hrest : Exchanged owner deadline fuel ranks ns o) :
      Exchanged owner deadline fuel (owner :: ranks) ns o
  | threw {rank : ℕ} (ranks : List ℕ) {e : Exn} (hpeer : rank ≠ owner) :
      Exchanged owner deadline fuel (rank :: ranks) [.attempt rank (.error e)] (some (.error e))
  | cut {rank : ℕ} (ranks : List ℕ) {first : Except Status UInt64} {ns : List Note}
      (hpeer : rank ≠ owner) (hpolled : Polled rank deadline fuel first ns none) :
      Exchanged owner deadline fuel (rank :: ranks) (.attempt rank (.ok first) :: ns) none
  | pollThrew {rank : ℕ} (ranks : List ℕ) {first : Except Status UInt64} {ns : List Note} {e : Exn}
      (hpeer : rank ≠ owner) (hpolled : Polled rank deadline fuel first ns (some (.error e))) :
      Exchanged owner deadline fuel (rank :: ranks) (.attempt rank (.ok first) :: ns)
        (some (.error e))
  | timedOut {rank : ℕ} (ranks : List ℕ) {first : Except Status UInt64} {ns : List Note}
      {status : Status} (message : String) (hpeer : rank ≠ owner)
      (hpolled : Polled rank deadline fuel first ns (some (.ok (.error status)))) :
      Exchanged owner deadline fuel (rank :: ranks) (.attempt rank (.ok first) :: ns)
        (some (.ok ⟨Status.timeout.code, message⟩))
  | imported {rank : ℕ} {ranks : List ℕ} {first : Except Status UInt64} {ns ns' : List Note}
      {handle : UInt64} {o : Option (Except Exn Status)} (hpeer : rank ≠ owner)
      (hpolled : Polled rank deadline fuel first ns (some (.ok (.ok handle))))
      (hrest : Exchanged owner deadline fuel ranks ns' o) :
      Exchanged owner deadline fuel (rank :: ranks) (.attempt rank (.ok first) :: (ns ++
        .imported rank handle :: .mapped rank :: ns')) o

/-! ## `CrossRankSetup` shows such steps -/

theorem notes_append (t u : List DSEvent) : notes (t ++ u) = notes t ++ notes u :=
  List.filterMap_append

theorem getRankDesc_stops {data : DataStrategy} {rank : ℕ} {t : List DSEvent}
    {o : Option (Except Exn (Except Status UInt64) × DataStrategy)}
    (h : (getRankDesc rank data).Stops t o) :
    ∃ reply, notes t = [.attempt rank reply] ∧ o = some (reply, data) := by
  obtain ⟨r, u, rfl, hrest⟩ := Proc.stops_ask_bind h
  cases r with
  | error e =>
      obtain ⟨rfl, rfl⟩ := Proc.stops_throw hrest
      exact ⟨.error e, rfl, rfl⟩
  | ok peerDesc =>
      obtain ⟨rfl, rfl⟩ := Proc.stops_pure hrest
      exact ⟨.ok peerDesc, rfl, rfl⟩

/-- What the loop returns, with the object as it was. -/
def Unchanged {α : Type} (data : DataStrategy) (o : Option (Except Exn α × DataStrategy)) : Prop :=
  ∀ x data', o = some (x, data') → data' = data

theorem unchanged_some {α : Type} (data : DataStrategy) (x : Except Exn α) :
    Unchanged data (some (x, data)) := by
  intro x' data' h
  cases h
  rfl

theorem pollRankDesc_stops {data : DataStrategy} {rank deadline fuel : ℕ}
    {peerDesc : Except Status UInt64} {t : List DSEvent}
    {o : Option (Except Exn (Except Status UInt64) × DataStrategy)}
    (h : (pollRankDesc rank deadline fuel peerDesc data).Stops t o) :
    Unchanged data o ∧ Polled rank deadline fuel peerDesc (notes t) (o.map Prod.fst) := by
  induction fuel generalizing peerDesc t with
  | zero =>
      cases peerDesc with
      | ok handle =>
          obtain ⟨rfl, rfl⟩ := Proc.stops_pure h
          exact ⟨unchanged_some data _, .read 0 handle⟩
      | error status =>
          obtain ⟨rfl, rfl⟩ := Proc.stops_cut h
          exact ⟨nofun, .cut status⟩
  | succ fuel ih =>
      cases peerDesc with
      | ok handle =>
          obtain ⟨rfl, rfl⟩ := Proc.stops_pure h
          exact ⟨unchanged_some data _, .read _ handle⟩
      | error status =>
          -- the clock is read twice, before and after the pause
          obtain ⟨now, u₁, rfl, h₁⟩ := Proc.stops_ask_bind h
          split at h₁
          · obtain ⟨rfl, rfl⟩ := Proc.stops_pure h₁
            exact ⟨unchanged_some data _, .late fuel status ‹_›⟩
          rename_i hnow
          obtain ⟨-, u₂, rfl, h₂⟩ := Proc.stops_ask_bind h₁
          obtain ⟨later, u₃, rfl, h₃⟩ := Proc.stops_ask_bind h₂
          split at h₃
          · obtain ⟨rfl, rfl⟩ := Proc.stops_pure h₃
            exact ⟨unchanged_some data _, .woken fuel status (Nat.lt_of_not_le hnow) ‹_›⟩
          rename_i hlater
          rcases Proc.stops_bind h₃ with ⟨hread, rfl⟩ | ⟨e, data', hread, rfl⟩ |
            ⟨next, data', v₁, v₂, rfl, hread, hrest⟩
          · obtain ⟨reply, -, ho⟩ := getRankDesc_stops hread
            cases ho
          · obtain ⟨reply, hattempt, ho⟩ := getRankDesc_stops hread
            cases ho
            refine ⟨unchanged_some data _, ?_⟩
            show Polled rank deadline (fuel + 1) (.error status) (.reading now ::
              .pause (pauseUntil deadline now) :: .reading later :: notes _) _
            rw [hattempt]
            exact .threw fuel status (Nat.lt_of_not_le hnow) (Nat.lt_of_not_le hlater)
          · obtain ⟨reply, hattempt, ho⟩ := getRankDesc_stops hread
            cases ho
            obtain ⟨hsame, hpolled⟩ := ih hrest
            refine ⟨hsame, ?_⟩
            show Polled rank deadline (fuel + 1) (.error status) (.reading now ::
              .pause (pauseUntil deadline now) :: .reading later :: notes (v₁ ++ v₂)) _
            rw [notes_append, hattempt]
            exact .again status (Nat.lt_of_not_le hnow) (Nat.lt_of_not_le hlater) hpolled

/-- What a function under the peer loop does if the calls of HAL succeed: it shows these
steps and returns `Status::OK`, with the owner and the number of entries as they were. -/
def Passes (ns : List Note) (data : DataStrategy) (t : List DSEvent) (status : Status)
    (data' : DataStrategy) : Prop :=
  notes t = ns ∧ status = .ok ∧ data'.owner = data.owner ∧
    data'.mappings.length = data.mappings.length

theorem memImportFromShareableHandle_stops {data : DataStrategy} {rank deviceId : ℕ}
    {token : UInt64} {t : List DSEvent} {o : Option (Except Exn Status × DataStrategy)}
    (hok : ∀ e ∈ t, succeeds e = true)
    (h : (memImportFromShareableHandle rank token deviceId data).Stops t o) :
    ∃ status data', o = some (.ok status, data') ∧
      Passes [.imported rank token] data t status data' := by
  obtain ⟨r, u, rfl, hrest⟩ := Proc.stops_ask_bind h
  obtain ⟨handle, rfl⟩ : ∃ handle, r = .ok handle := exists_of_isOk (hok _ List.mem_cons_self)
  obtain ⟨rfl, rfl⟩ := Proc.stops_pure hrest
  exact ⟨_, _, rfl, rfl, rfl, rfl, length_update _ _ _⟩

theorem reserveRankAddress_stops {data : DataStrategy} {rank : ℕ} {t : List DSEvent}
    {o : Option (Except Exn Status × DataStrategy)} (hrank : rank < data.mappings.length)
    (hok : ∀ e ∈ t, succeeds e = true) (h : (reserveRankAddress rank data).Stops t o) :
    ∃ status data', o = some (.ok status, data') ∧ Passes [] data t status data' := by
  change ((memAddressReserve rank data.rankStride >>= _) data).Stops t o at h
  have hreserved := Proc.stops_bind_of (P := fun t₁ status data' => status = .ok ∧ notes t₁ = [] ∧
    ∃ addr, addr ≠ 0 ∧ data' = updateMapping rank (fun m => { m with addr := addr }) data) h ?_
  · obtain ⟨status, data', t₁, t₂, rfl, ⟨rfl, hnotes, addr, haddr, rfl⟩, hrest⟩ := hreserved
    change ((if ((updateMapping rank (fun m => { m with addr := addr }) data).mapping rank).addr = 0
      then _ else _ : DS Status) _).Stops t₂ o at hrest
    rw [mapping_update_self hrank, if_neg haddr] at hrest
    obtain ⟨rfl, rfl⟩ := Proc.stops_pure hrest
    exact ⟨_, _, rfl, by rw [List.append_nil, hnotes], rfl, rfl, length_update _ _ _⟩
  · intro t₁ o₁ hpre hfirst
    obtain ⟨r, u, rfl, hrest⟩ := Proc.stops_ask_bind hfirst
    obtain ⟨addr, rfl, haddr⟩ : ∃ addr, r = .ok addr ∧ addr ≠ 0 := by
      have hreply : r.toOption.any (· ≠ 0) = true := hok _ (hpre.subset List.mem_cons_self)
      cases r with
      | error ret => cases hreply
      | ok addr => exact ⟨addr, rfl, by simpa [Except.toOption] using hreply⟩
    obtain ⟨rfl, rfl⟩ := Proc.stops_pure hrest
    exact ⟨_, _, rfl, rfl, rfl, addr, haddr, rfl⟩

theorem memMap_stops {data : DataStrategy} {rank size : ℕ} {addr : Ptr} {handle : Option Handle}
    {t : List DSEvent} {o : Option (Except Exn Status × DataStrategy)}
    (hok : ∀ e ∈ t, succeeds e = true) (h : (memMap rank addr size handle data).Stops t o) :
    ∃ status data', o = some (.ok status, data') ∧ Passes [.mapped rank] data t status data' := by
  obtain ⟨r, u, rfl, hrest⟩ := Proc.stops_ask_bind h
  obtain ⟨⟨⟩, rfl⟩ := exists_of_isOk (show r.isOk = true from hok _ List.mem_cons_self)
  obtain ⟨rfl, rfl⟩ := Proc.stops_pure hrest
  exact ⟨_, _, rfl, rfl, rfl, rfl, rfl⟩

theorem importPeer_stops {data : DataStrategy} {rank : ℕ} {token : UInt64} {t : List DSEvent}
    {o : Option (Except Exn Status × DataStrategy)} (hrank : rank < data.mappings.length)
    (hok : ∀ e ∈ t, succeeds e = true) (h : (importPeer rank token data).Stops t o) :
    ∃ status data', o = some (.ok status, data') ∧
      Passes [.imported rank token, .mapped rank] data t status data' := by
  change ((memImportFromShareableHandle rank token _ >>= _) data).Stops t o at h
  have himported := Proc.stops_bind_of (P := Passes [.imported rank token] data) h
    fun t₁ o₁ hpre hfirst =>
      memImportFromShareableHandle_stops (fun e he => hok e (hpre.subset he)) hfirst
  obtain ⟨status, data₁, t₁, u₁, rfl, ⟨hnotes₁, rfl, howner₁, hlength₁⟩, h₁⟩ := himported
  have hreserved := Proc.stops_bind_of (P := Passes [] data₁) h₁ fun t₂ o₂ hpre hfirst =>
    reserveRankAddress_stops (hrank.trans_eq hlength₁.symm)
      (fun e he => hok e (List.mem_append_right _ (hpre.subset he))) hfirst
  obtain ⟨status, data₂, t₂, u₂, rfl, ⟨hnotes₂, rfl, howner₂, hlength₂⟩, h₂⟩ := hreserved
  have hmapped := Proc.stops_bind_of (P := Passes [.mapped rank] data₂) h₂
    fun t₃ o₃ hpre hfirst => memMap_stops
      (fun e he => hok e (List.mem_append_right _ (List.mem_append_right _ (hpre.subset he))))
      hfirst
  obtain ⟨status, data₃, t₃, u₃, rfl, ⟨hnotes₃, rfl, howner₃, hlength₃⟩, h₃⟩ := hmapped
  obtain ⟨rfl, rfl⟩ := Proc.stops_pure h₃
  refine ⟨_, _, rfl, ?_, rfl, howner₃.trans (howner₂.trans howner₁), ?_⟩
  · rw [List.append_nil, notes_append, notes_append, hnotes₁, hnotes₂, hnotes₃]
    rfl
  · exact (length_update _ _ _).trans (hlength₃.trans (hlength₂.trans hlength₁))

theorem peerLoop_stops {owner deadline timeoutMs fuel : ℕ} {ranks : List ℕ} :
    ∀ {data : DataStrategy} {t : List DSEvent} {o : Option (Except Exn Status × DataStrategy)},
      data.owner = owner → (∀ rank ∈ ranks, rank < data.mappings.length) →
        (∀ e ∈ t, succeeds e = true) → (peerLoop fuel deadline timeoutMs ranks data).Stops t o →
          Exchanged owner deadline fuel ranks (notes t) (o.map Prod.fst) := by
  induction ranks with
  | nil =>
      intro data t o howner hranks hok h
      obtain ⟨rfl, rfl⟩ := Proc.stops_pure h
      exact .done
  | cons rank ranks ih =>
      intro data t o howner hranks hok h
      have hpeers : ∀ rank ∈ ranks, rank < data.mappings.length := fun rank hmem =>
        hranks rank (List.mem_cons_of_mem _ hmem)
      change ((if rank = data.owner then _ else _ : DS Status) data).Stops t o at h
      split at h
      · rename_i hown
        rw [hown, howner]
        exact .own (ih howner hpeers hok h)
      rename_i hpeer
      rw [howner] at hpeer
      -- the first attempt is made before the loop
      rcases Proc.stops_bind h with ⟨hread, -⟩ | ⟨e, data', hread, rfl⟩ |
        ⟨first, data', t₁, t₂, rfl, hread, h₂⟩
      · obtain ⟨reply, -, ho⟩ := getRankDesc_stops hread
        cases ho
      · obtain ⟨reply, hattempt, ho⟩ := getRankDesc_stops hread
        cases ho
        rw [hattempt]
        exact .threw ranks hpeer
      obtain ⟨reply, hattempt, ho⟩ := getRankDesc_stops hread
      cases ho
      rw [notes_append, hattempt]
      rcases Proc.stops_bind h₂ with ⟨hpoll, rfl⟩ | ⟨e, data', hpoll, rfl⟩ |
        ⟨peerDesc, data', t₃, t₄, rfl, hpoll, h₄⟩
      · exact .cut ranks hpeer (pollRankDesc_stops hpoll).2
      · exact .pollThrew ranks hpeer (pollRankDesc_stops hpoll).2
      obtain ⟨hsame, hpolled⟩ := pollRankDesc_stops hpoll
      cases hsame _ _ rfl
      cases peerDesc with
      | error status =>
          obtain ⟨rfl, rfl⟩ := Proc.stops_pure h₄
          rw [List.append_nil]
          exact .timedOut ranks _ hpeer hpolled
      -- the descriptor has been read, and the peer is imported
      | ok handle =>
          rw [notes_append]
          have himport := Proc.stops_bind_of
            (P := Passes [.imported rank handle, .mapped rank] data) h₄
            fun t₅ o₅ hpre hfirst => importPeer_stops (hranks rank List.mem_cons_self)
              (fun e he => hok e (by simp [hpre.subset he])) hfirst
          obtain ⟨status, data', t₅, t₆, rfl, ⟨hnotes, rfl, howner', hlength'⟩, hrest⟩ := himport
          rw [notes_append, hnotes]
          refine .imported hpeer hpolled (ih (howner'.trans howner) ?_ ?_ hrest)
          · intro rank hmem
            rw [hlength']
            exact hpeers rank hmem
          · exact fun e hmem => hok e (by simp [hmem])

/-- **`CrossRankSetup` shows an exchange.**  It reads the clock first and fixes the
deadline, then goes through the peers. -/
theorem crossRankSetup_exchanged {data : DataStrategy} {fuel timeoutMs : ℕ} {t : List DSEvent}
    {o : Option (Except Exn Status × DataStrategy)} (hok : ∀ e ∈ t, succeeds e = true)
    (h : (crossRankSetup fuel timeoutMs data).Stops t o) :
    ∃ start ns, notes t = .reading start :: ns ∧
      Exchanged data.owner (start + timeoutMs * 1000000) fuel (List.range data.mappings.length) ns
        (o.map Prod.fst) := by
  obtain ⟨start, u₁, rfl, h₁⟩ := Proc.stops_ask_bind h
  obtain ⟨r, u₂, rfl, h₂⟩ := Proc.stops_ask_bind h₁
  obtain ⟨token, rfl⟩ : ∃ token, r = .ok token :=
    exists_of_isOk (hok _ (List.mem_cons_of_mem _ List.mem_cons_self))
  obtain ⟨r, u₃, rfl, h₃⟩ := Proc.stops_ask_bind h₂
  obtain ⟨⟨⟩, rfl⟩ := exists_of_isOk (show r.isOk = true from
    hok _ (List.mem_cons_of_mem _ (List.mem_cons_of_mem _ List.mem_cons_self)))
  obtain ⟨status, u₄, rfl, h₄⟩ := Proc.stops_ask_bind h₃
  have hset : status.success = true := hok _
    (List.mem_cons_of_mem _ (List.mem_cons_of_mem _ (List.mem_cons_of_mem _ List.mem_cons_self)))
  rw [if_neg (by simp [hset])] at h₄
  refine ⟨start, notes u₄, rfl, ?_⟩
  refine peerLoop_stops rfl (fun rank hmem => List.mem_range.mp hmem) (fun e hmem => ?_) h₄
  exact hok e (by simp [hmem])

end SharingProbe.DataStrategy
