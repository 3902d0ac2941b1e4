import SharingProbe.AioOperation.Completions
import SharingProbe.MultiShare.Waiting

/-!
# A run in which no call fails

No call of the runtime, the driver or the system fails, and every comparison finds what it expects.
Then no send and no receive fails either: no process closes a socket that another one still needs.
So all processes return 0, and the sockets are empty in the end.
-/

namespace SharingProbe.MultiShare

open Interaction Network Transition Share

/-! ## The replies -/

/-- The calls that are no business of the sockets succeed. -/
def passing (cfg : Config) (st : Started cfg.count) : Admits cfg.count :=
  sockets st fun x => passes cfg x.number

/-- Four complete transfers are what the loop over the events asks for. -/
theorem not_completionFailed (chunk : ℕ) :
    completionFailed chunk (fun i => { data := i, res := chunk }) = false := by
  refine (AioOperation.examineEvents _).1.mpr (AioOperation.sound_iff_full.mpr ⟨?_, fun i _ => ?_⟩)
  · simp
  · exact ⟨rfl, rfl⟩

/-- Every call can succeed. -/
theorem passes_granted (cfg : Config) (rank : ℕ) (c : Share.Call) :
    passes cfg rank c (granted cfg rank c) = true := by
  cases c with
  | check op name => cases op <;> simp [passes, granted, vaAlignment]
  | direct op =>
      cases op with
      | ioGetevents => simp only [passes, granted, not_completionFailed, beq_self_eq_true]; rfl
      | _ => simp [passes, granted]
  | receive fd expects => cases expects <;> simp [passes, granted]
  | _ => simp [passes, granted]

/-! ## No socket is closed too early -/

section Open

variable {cfg : Config} {st : Started cfg.count} {t : List SHEvent}

theorem put_le (st : Started cfg.count) (t u : List SHEvent) (rank : Fin cfg.count) :
    put st rank t ≤ put st rank (t ++ u) := by
  simp [put, said]

/-- The coordinator closes the sockets after the last barrier. -/
theorem relayed_of_hung (h : Prog.Follows (Relays cfg st) t) (hworked : Worked cfg 0 t)
    {rank : Fin cfg.count} (hhung : Hung st rank t) (other : Fin cfg.count) :
    cfg.barriers + 1 ≤ got st other t ∧ cfg.count + cfg.barriers ≤ put st other t := by
  obtain ⟨⟨p, c, r⟩, hmem, hclose⟩ := hhung
  obtain ⟨t₁, t₂, rfl⟩ := List.append_of_mem hmem
  dsimp only at hclose
  subst hclose
  have hrelays := h t₁ _ t₂ rfl
  obtain ⟨hgot, hput⟩ := hrelays.2 (fun e he => hworked e (List.mem_append_left _ he)) other
  have hgot' := got_le st t₁ (⟨p, .direct (.close (st.socket rank)), r⟩ :: t₂) other
  have hput' := put_le st t₁ (⟨p, .direct (.close (st.socket rank)), r⟩ :: t₂) other
  exact ⟨by omega, by omega⟩

/-- A worker closes its socket after the last barrier. -/
theorem words_of_closed {rank : ℕ} (h : Prog.Follows (InPlace cfg rank) t)
    (hworked : Worked cfg rank t) (hclosed : Closed t) :
    cfg.barriers + 1 ≤ sentWords t ∧ cfg.count + cfg.barriers ≤ receivedWords t := by
  obtain ⟨⟨p, c, r⟩, hmem, hclose⟩ := hclosed
  obtain ⟨t₁, t₂, rfl⟩ := List.append_of_mem hmem
  dsimp only at hclose
  subst hclose
  have hin := h t₁ _ t₂ rfl
  obtain ⟨hsent, hreceived⟩ := hin rfl fun e he => hworked e (List.mem_append_left _ he)
  rw [sentWords_append, receivedWords_append]
  exact ⟨by omega, by omega⟩

/-- No child is killed. -/
theorem not_killed (h : Prog.Follows (Relays cfg st) t) (hworked : Worked cfg 0 t) (child : ℕ) :
    ¬Killed child t := by
  rintro ⟨⟨p, c, r⟩, hmem, hkill⟩
  obtain ⟨t₁, t₂, rfl⟩ := List.append_of_mem hmem
  dsimp only at hkill
  subst hkill
  exact (h t₁ _ t₂ rfl).2 fun e he => hworked e (List.mem_append_left _ he)

end Open

/-! ## All calls succeed -/

section Network

variable {cfg : Config} {st : Started cfg.count} {blocks : Blocks} {s : StarState cfg.count}

/-- The call succeeds; of a word that is received nothing else is said. -/
def answered (cfg : Config) (rank : ℕ) : (c : Share.Call) → Share.Call.Reply c → Bool
  | .receive _ _, received => received.isSome
  | c, r => passes cfg rank c r

/-- What a process receives is what it waits for. -/
theorem worked_of_answered {admits : Admits cfg.count}
    (h : Reachable (star cfg st blocks admits).system s) {x : Member cfg.count}
    (hall : ∀ e ∈ s.trace x, answered cfg x.number e.call e.reply = true) :
    Worked cfg x.number (s.trace x) := by
  intro e he
  have hanswered := hall e he
  obtain ⟨p, c, r⟩ := e
  cases c with
  | receive fd expects =>
      cases r with
      | none => cases hanswered
      | some m =>
          obtain ⟨hmeant, hword⟩ := meant_of_received h he
          cases hexpects : expects == .barrier <;> simp_all [passes]
  | _ => exact hanswered

/-- The other end of a socket is open as long as it is needed. -/
theorem not_peerClosed {admits : Admits cfg.count}
    (h : Reachable (star cfg st blocks admits).system s)
    (hworked : ∀ x : Member cfg.count, Worked cfg x.number (s.trace x)) (rank : Fin cfg.count) :
    (∀ m, Sends cfg rank (s.trace (.worker rank)) m → ¬PeerClosed st s rank (.worker rank)) ∧
    (∀ m, Forwards cfg st rank (s.trace .coordinator) m → ¬PeerClosed st s rank .coordinator) ∧
    (∀ expects, Receives cfg (s.trace (.worker rank)) expects → s.queue (.down rank) = [] →
      ¬PeerClosed st s rank (.worker rank)) ∧
    ∀ expects, Collects cfg st rank (s.trace .coordinator) expects → s.queue (.up rank) = [] →
      ¬PeerClosed st s rank .coordinator := by
  have hsent := sentWords_eq h rank
  have hput := put_eq h rank
  have hhung : Hung st rank (s.trace .coordinator) → _ := fun hhung =>
    relayed_of_hung (coordinator_follows h) (hworked .coordinator) hhung rank
  have hclosed : Closed (s.trace (.worker rank)) → _ :=
    words_of_closed (worker_follows h rank) (hworked (.worker rank))
  refine ⟨fun m hsends hpeer => ?_, fun m hforwards hpeer =>
    ?_, fun expects hreceives hempty hpeer => ?_,
    fun expects hcollects hempty hpeer => ?_⟩
  · obtain ⟨hgot, -⟩ := hhung hpeer
    rcases hsends.place with ⟨hzero, -⟩ | ⟨-, hle, -⟩ <;> omega
  · obtain ⟨-, hreceived⟩ := hclosed hpeer
    have hplace := hforwards.place
    omega
  · obtain ⟨-, hall⟩ := hhung hpeer
    rw [hempty, List.length_nil] at hput
    rcases hreceives.place with ⟨-, hlt⟩ | ⟨-, hle, hbetween⟩ <;> omega
  · obtain ⟨hall, -⟩ := hclosed hpeer
    rw [hempty, List.length_nil] at hsent
    have hplace := hcollects.barrier (by omega)
    omega

/-- One more call succeeds. -/
theorem answered_of_called (h : Reachable (star cfg st blocks (passing cfg st)).system s)
    {x : Member cfg.count} {e : SHEvent} {s' : StarState cfg.count}
    (hcalled : Called (star cfg st blocks (passing cfg st)) s x e s')
    (hworked : ∀ x : Member cfg.count, Worked cfg x.number (s.trace x)) :
    answered cfg x.number e.call e.reply = true := by
  have hadmits := (calls hcalled).admitted
  obtain ⟨next, hrest, -⟩ := hcalled.rest
  obtain ⟨p, c, r⟩ := e
  dsimp only at hrest hadmits ⊢
  have hopen := not_peerClosed h hworked
  cases x with
  | worker rank =>
      have hin := inPlace_of_rest h hrest
      cases c with
      | send fd m =>
          -- a send fails only if the peer has closed its end, and the word says that it has not
          have hopen := (hopen rank).1 m hin
          have hout : outgoing st (.worker rank) (.send fd m) = some (.up rank) := rfl
          have hsent : r = true := by simpa [passing, sockets, hout, Wire.rank, hopen] using hadmits
          exact hsent
      | receive fd expects =>
          cases r with
          | some m => rfl
          | none =>
              have hgone : PeerClosed st s rank (.worker rank) ∧ s.queue (.down rank) = [] :=
                of_decide_eq_true hadmits
              exact absurd hgone.1 ((hopen rank).2.2.1 expects hin hgone.2)
      | direct op => cases op <;> exact hadmits
      | _ => exact hadmits
  | coordinator =>
      have hrelays := relays_of_rest h hrest
      cases c with
      | send fd m =>
          obtain ⟨rank, rfl, hforward⟩ := hrelays
          have hopen := (hopen rank).2.1 m hforward
          have hout : outgoing st .coordinator (.send (st.socket rank) m) = some (.down rank) := by
            simp [outgoing, (rankOf_eq_some st.socket_injective).mpr rfl]
          have hsent : r = true := by simpa [passing, sockets, hout, Wire.rank, hopen] using hadmits
          exact hsent
      | receive fd expects =>
          cases r with
          | some m => rfl
          | none =>
              obtain ⟨rank, rfl, hcollect⟩ := hrelays
              have hin : incoming st .coordinator (.receive (st.socket rank) expects) =
                  some (.up rank) := by
                simp [incoming, (rankOf_eq_some st.socket_injective).mpr rfl]
              have hgone : PeerClosed st s rank .coordinator ∧ s.queue (.up rank) = [] := by
                simp only [passing, sockets, hin, Option.elim_some] at hadmits
                exact of_decide_eq_true hadmits
              exact absurd hgone.1 ((hopen rank).2.2.2 expects hcollect hgone.2)
      | direct op =>
          cases op with
          | waitpid child =>
              obtain ⟨⟨rank, rfl⟩, -⟩ := hrelays
              have hfind := (rankOf_eq_some st.child_injective (m := st.child rank)).mpr rfl
              -- the child has returned 0, since all its calls have worked
              have halive := not_killed (coordinator_follows h) (hworked .coordinator)
                (st.child rank)
              simp only [passing, sockets, reports, hfind, Option.elim_some, halive] at hadmits
              cases hworker : s.rest (.worker rank) with
              | ret y =>
                  obtain ⟨y, p'⟩ := y
                  have hzero := (ended_of_returned h hworker).code (hworked (.worker rank))
                  dsimp only at hzero
                  subst hzero
                  simpa [answered, passes, hworker, exitStatus] using hadmits
              | _ => simp [hworker] at hadmits
          | _ => exact hadmits
      | _ => exact hadmits

/-- All calls succeed. -/
theorem all_worked (h : Reachable (star cfg st blocks (passing cfg st)).system s)
    (x : Member cfg.count) : Worked cfg x.number (s.trace x) := by
  refine worked_of_answered h (invariant h (fun s => ∀ x : Member cfg.count, ∀ e ∈ s.trace x,
    answered cfg x.number e.call e.reply = true) ?_ ?_ ?_ x)
  · intro x e he
    cases he
  · intro s x e s' hreachable ih hcalled y e' he'
    have hcalls := calls hcalled
    by_cases hy : y = x
    · subst hy
      rw [hcalls.self] at he'
      rcases List.mem_append.mp he' with he' | he'
      · exact ih y e' he'
      · rw [List.mem_singleton.mp he']
        exact answered_of_called hreachable hcalled fun z => worked_of_answered hreachable (ih z)
    · rw [hcalls.others y hy] at he'
      exact ih y e' he'
  · intro s d s' _ ih hdisturbed y e' he'
    have htrace : s'.trace = s.trace := hdisturbed.trace
    rw [htrace] at he'
    exact ih y e' he'

/-- What holds in every state of such a run. -/
structure Aligned (cfg : Config) (st : Started cfg.count) (blocks : Blocks)
    (s : StarState cfg.count) : Prop where
  /-- No state but the last one is stuck. -/
  progress : (∃ x p c next, s.rest x = .call p c next) →
    ∃ x answer s', (star cfg st blocks (passing cfg st)).step s (.call x answer) = some s'
  /-- And the last one can be reached. -/
  ends : ∃ t s', Path (star cfg st blocks (passing cfg st)).system s t s' ∧
    ∀ x, ∃ r, s'.rest x = .ret r
  /-- The first words of a worker are the tokens in the order of the ranks. -/
  tokens : ∀ (rank owner : Fin cfg.count) m,
    (receivedList (s.trace (.worker rank)))[owner.val]? = some m →
      m.meant = .token ∧ Exported m.word (s.trace (.worker owner))
  /-- A slice is that of the handle imported with the token of its owner. -/
  slices : ∀ (reader : Fin cfg.count) p owner handle name r,
    (⟨p, .check (.halMemMap owner handle) name, r⟩ : SHEvent) ∈ s.trace (.worker reader) →
      owner ≠ reader.val → ∃ exporter : Fin cfg.count, exporter.val = owner ∧ ∃ token r',
        Did (.halMemImportFromShareableHandle owner token) r' (s.trace (.worker reader)) ∧
        handle = r'.out ∧ Exported token (s.trace (.worker exporter))
  /-- No word is taken for something else. -/
  meant : ∀ x p fd expects m, (⟨p, .receive fd expects, some m⟩ : SHEvent) ∈ s.trace x →
    m.meant = expects
  /-- In the end all words have been sent and received, the sockets are empty, and all return 0. -/
  final : (∀ x, ∃ r, s.rest x = .ret r) → (∀ wire, s.queue wire = []) ∧ (∀ x, Returned s x 0) ∧
    ∀ rank, sentWords (s.trace (.worker rank)) = cfg.barriers + 1 ∧
      got st rank (s.trace .coordinator) = cfg.barriers + 1 ∧
      put st rank (s.trace .coordinator) = cfg.count + cfg.barriers ∧
      receivedWords (s.trace (.worker rank)) = cfg.count + cfg.barriers

/-- In the end all processes return 0. -/
theorem returned_of_ended (h : Reachable (star cfg st blocks (passing cfg st)).system s)
    (hreturned : ∀ x, ∃ r, s.rest x = .ret r) (x : Member cfg.count) : Returned s x 0 := by
  obtain ⟨⟨r, p⟩, hr⟩ := hreturned x
  cases x with
  | coordinator =>
      obtain rfl : r = .ok 0 := (concluded_of_returned h hr).code (all_worked h .coordinator)
      exact ⟨p, hr⟩
  | worker rank =>
      obtain rfl : r = .ok 0 := (ended_of_returned h hr).code (all_worked h (.worker rank))
      exact ⟨p, hr⟩

/-- And all words have been passed on. -/
theorem words_of_ended (h : Reachable (star cfg st blocks (passing cfg st)).system s)
    (hreturned : ∀ x, ∃ r, s.rest x = .ret r) (rank : Fin cfg.count) :
    sentWords (s.trace (.worker rank)) = cfg.barriers + 1 ∧
      got st rank (s.trace .coordinator) = cfg.barriers + 1 ∧
      put st rank (s.trace .coordinator) = cfg.count + cfg.barriers ∧
      receivedWords (s.trace (.worker rank)) = cfg.count + cfg.barriers := by
  obtain ⟨r, hr⟩ := hreturned (.worker rank)
  obtain ⟨hsent, hreceived⟩ := (ended_of_returned h hr).words (all_worked h (.worker rank))
  obtain ⟨r', hr'⟩ := hreturned .coordinator
  obtain ⟨hgot, hput⟩ := (concluded_of_returned h hr').relayed (all_worked h .coordinator) rank
  exact ⟨hsent, hgot, hput, hreceived⟩

/-- Every run can be continued to its end. -/
theorem passing_ends (h : Reachable (star cfg st blocks (passing cfg st)).system s) :
    ∃ t s', Path (star cfg st blocks (passing cfg st)).system s t s' ∧
      ∀ x, ∃ r, s'.rest x = .ret r :=
  exists_end h fun x c => ⟨_, passes_granted cfg x.number c⟩

/-- **Alignment.**  It holds in every interleaving. -/
theorem stays_aligned (h : Reachable (star cfg st blocks (passing cfg st)).system s) :
    Aligned cfg st blocks s where
  progress := exists_next h fun x c => ⟨_, passes_granted cfg x.number c⟩
  ends := passing_ends h
  tokens _ owner _ hm := (received_cases h hm).1 owner rfl
  slices _ _ _ _ _ _ hmem hother := mapped_of_exported h hmem hother
  meant _ _ _ _ _ hmem := (meant_of_received h hmem).1
  final := by
    intro hreturned
    have hwords := words_of_ended h hreturned
    refine ⟨fun wire => ?_, returned_of_ended h hreturned, hwords⟩
    -- what has been sent over a socket has been received
    cases wire with
    | up rank =>
        have hsent := sentWords_eq h rank
        obtain ⟨hworker, hgot, -⟩ := hwords rank
        exact List.length_eq_zero_iff.mp (by omega)
    | down rank =>
        have hput := put_eq h rank
        obtain ⟨-, -, hrelayed, hreceived⟩ := hwords rank
        exact List.length_eq_zero_iff.mp (by omega)

/-- The processes of `twoWords` come to their end, and there it holds. -/
theorem stays_aligned_twoWords : ∃ s : StarState twoWords.count,
    (∀ x, Returned s x 0) ∧ Aligned twoWords twoStarted (fun _ _ => 0) s := by
  have hstart : Reachable
      (star twoWords twoStarted (fun _ _ => 0) (passing twoWords twoStarted)).system
    _ := .init
  obtain ⟨t, s, hpath, hreturned⟩ := (stays_aligned hstart).ends
  have hend := stays_aligned (hpath.reachable hstart)
  exact ⟨s, (hend.final hreturned).2.1, hend⟩

end Network

end SharingProbe.MultiShare
