import SharingProbe.Library.Progress
import SharingProbe.Library.Turns
import SharingProbe.Share.Flight

/-!
# Two processes with one shared buffer

The processes of `launch`: the creator is the first party and the importer the second one.
They have one buffer in common, both mappings of which denote the same memory, and each of
them has buffers of its own.  A buffer into which something is transferred can change at any
time.  A receive fails if the peer has closed its end and nothing is left, and a send fails if
the peer has closed its end.

A `Pair` gives the two programs, what each may say of the common buffer when it hands it over
(`claims`), which copies move their data (`moves`) and which calls work (`works`); `net` is the
network that they make.  Each process sees its own buffers, and the common one while it has the
turn (`Sight`, `SeesAlong`).

## Strategy

What a program does is proved for one process at a time, as `Fair`: as long as its calls work, it
touches the common buffer only in its turn (`InTurn`), and what it says of it is true
(`Truthful`).  Everything about both processes follows from that:

* `turnState`: the counts of the words say who has the turn, and `hasTurn_of_uses` that a transfer
  from or to the common buffer is over when the turn is passed on;
* `agrees`: what each process sees is there, by induction on the run.  The step splits into the
  process that makes the call (`View.self`), the other one (`View.other`), and a transfer that
  changes a buffer (`Agrees.disturbed`);
* `exclusive`: the two never access the common buffer at the same time;
* `not_lost`: nobody loses its peer as long as every word is sent before its sender closes its end;
* `exists_next` and `exists_returned`: no state is stuck, and every run can come to its end.
-/

namespace SharingProbe.Share

open Interaction Network Transition Evolution

/-- The buffer that both processes have. -/
def common : Buffer := .host 0

/-! ## What the processes say to each other -/

/-- The word that a call sends. -/
def puts : (c : Call) → Call.Reply c → Option Message
  | .send _ m, sent => if sent = true then some m else none
  | _, _ => none

/-- The word that a call receives. -/
def takes : (c : Call) → Call.Reply c → Option Message
  | .receive _ _, received => received
  | _, _ => none

/-- How many words have been sent. -/
def sentWords (t : List SHEvent) : ℕ := t.countP fun e => (puts e.call e.reply).isSome

/-- How many words have been received. -/
def receivedWords (t : List SHEvent) : ℕ := t.countP fun e => (takes e.call e.reply).isSome

/-- The words that have been sent. -/
def sentList (t : List SHEvent) : List Message := t.filterMap fun e => puts e.call e.reply

/-- The words that have been received. -/
def receivedList (t : List SHEvent) : List Message := t.filterMap fun e => takes e.call e.reply

theorem length_sentList (t : List SHEvent) : (sentList t).length = sentWords t := by
  simp [sentList, sentWords, List.length_filterMap_eq_countP]

theorem length_receivedList (t : List SHEvent) : (receivedList t).length = receivedWords t := by
  simp [receivedList, receivedWords, List.length_filterMap_eq_countP]

/-- The call fails because the peer is gone. -/
def lost : (c : Call) → Call.Reply c → Bool
  | .send _ _, sent => !sent
  | .receive _ _, received => received.isNone
  | _, _ => false

/-- The process has lost its peer. -/
def Lost (t : List SHEvent) : Prop := ∃ e ∈ t, lost e.call e.reply = true

/-- The process has closed its end. -/
def Closed (t : List SHEvent) : Prop := ∃ e ∈ t, e.call = .direct (.close 0)

instance (t : List SHEvent) : Decidable (Closed t) := List.decidableBEx _ t

section Concat

variable (t : List SHEvent) (e : SHEvent)

theorem sentWords_concat :
    sentWords (t ++ [e]) = sentWords t + (puts e.call e.reply).toList.length := by
  cases h : puts e.call e.reply <;> simp [sentWords, List.countP_append, h]

theorem receivedWords_concat :
    receivedWords (t ++ [e]) = receivedWords t + (takes e.call e.reply).toList.length := by
  cases h : takes e.call e.reply <;> simp [receivedWords, List.countP_append, h]

theorem lost_concat : Lost (t ++ [e]) ↔ Lost t ∨ lost e.call e.reply = true := by
  simp [Lost, or_and_right, exists_or]

theorem not_lost_concat {t : List SHEvent} {e : SHEvent} (h : ¬Lost t)
    (he : lost e.call e.reply = false) : ¬Lost (t ++ [e]) := by
  rw [lost_concat, he]
  exact not_or.mpr ⟨h, Bool.false_ne_true⟩

theorem closed_concat : Closed (t ++ [e]) ↔ Closed t ∨ e.call = .direct (.close 0) := by
  simp [Closed, or_and_right, exists_or]

end Concat

/-! ## What the processes do with the buffers -/

/-- What a call writes.  `moves` says which of the copies that report success move their data. -/
def written (moves : String → Bool) (words : Words) : Call → Words
  | .check (.halMemcpy dst src) what =>
      if moves what = true then Function.update words dst (words src) else words
  | c => stored words c

/-- The call has to do with the buffer. -/
def Touches (buffer : Buffer) : Call → Prop
  | .store b _ _ | .compare b _ _ _ | .memset b => b = buffer
  | .check (.aclrtMemset b) _ => b = buffer
  | .check (.aclrtMemcpyAsync dst src _) _ | .check (.halMemcpy dst src) _ =>
      dst = buffer ∨ src = buffer
  | .direct (.ioSubmit _ requests) => ∃ request ∈ requests, request.buffer = buffer
  | _ => False

/-- A transfer from or to the buffer is in flight. -/
def Flight.Uses (f : Flight) (buffer : Buffer) : Prop :=
  (∃ copy ∈ f.copies, copy.1 = buffer ∨ copy.2 = buffer) ∨
    ∃ request ∈ f.requests, request.2.buffer = buffer

theorem Flight.Into.uses {f : Flight} {buffer : Buffer} (h : f.Into buffer) : f.Uses buffer := by
  rcases h with ⟨copy, hmem, hdst⟩ | ⟨request, hmem, hbuffer, -⟩
  · exact .inl ⟨copy, hmem, .inl hdst⟩
  · exact .inr ⟨request, hmem, hbuffer⟩

/-- A transfer that is in flight was so before or is issued by the call. -/
theorem Flight.mem_next {f : Flight} {c : Call} {r : Call.Reply c} :
    (∀ copy ∈ (f.next c r).copies, copy ∈ f.copies ∨
      ∃ round name, c = .check (.aclrtMemcpyAsync copy.1 copy.2 round) name) ∧
    ∀ request ∈ (f.next c r).requests, request ∈ f.requests ∨
      ∃ ctx requests, c = .direct (.ioSubmit ctx requests) ∧ request.2 ∈ requests := by
  unfold next
  split
  · rename_i dst src round name r
    refine ⟨fun copy hmem => ?_, fun _ hmem => .inl hmem⟩
    rcases List.mem_append.mp hmem with hmem | hmem
    · exact .inl hmem
    · rw [List.mem_singleton.mp hmem]
      exact .inr ⟨round, name, rfl⟩
  · split <;> exact ⟨fun _ hmem => .inl hmem, fun _ hmem => .inl hmem⟩
  · split
    · exact ⟨fun _ hmem => .inl (List.mem_of_mem_drop hmem), fun _ hmem => .inl hmem⟩
    · exact ⟨fun _ hmem => .inl hmem, fun _ hmem => .inl hmem⟩
  · split
    · exact ⟨fun _ hmem => (List.not_mem_nil hmem).elim, fun _ hmem => .inl hmem⟩
    · exact ⟨fun _ hmem => .inl hmem, fun _ hmem => .inl hmem⟩
  · split
    · exact ⟨fun _ hmem => (List.not_mem_nil hmem).elim, fun _ hmem => .inl hmem⟩
    · exact ⟨fun _ hmem => .inl hmem, fun _ hmem => .inl hmem⟩
  · rename_i ctx requests r
    refine ⟨fun _ hmem => .inl hmem, fun request hmem => ?_⟩
    rcases List.mem_append.mp hmem with hmem | hmem
    · exact .inl hmem
    · obtain ⟨iocb, hiocb, rfl⟩ := List.mem_map.mp hmem
      exact .inr ⟨ctx, requests, rfl, List.mem_of_mem_take hiocb⟩
  · split
    · exact ⟨fun _ hmem => .inl hmem, fun _ hmem => .inl (List.mem_filter.mp hmem).1⟩
    · exact ⟨fun _ hmem => .inl hmem, fun _ hmem => .inl hmem⟩
  · exact ⟨fun _ hmem => .inl hmem, fun _ hmem => .inl (List.mem_filter.mp hmem).1⟩
  · exact ⟨fun _ hmem => .inl hmem, fun _ hmem => .inl hmem⟩

/-- Only a call that has to do with the buffer brings a transfer under way. -/
theorem Flight.uses_next {f : Flight} {c : Call} {r : Call.Reply c} {buffer : Buffer}
    (h : (f.next c r).Uses buffer) : f.Uses buffer ∨ Touches buffer c := by
  obtain ⟨hcopies, hrequests⟩ := mem_next (f := f) (c := c) (r := r)
  rcases h with ⟨copy, hmem, hcopy⟩ | ⟨request, hmem, hbuffer⟩
  · rcases hcopies copy hmem with hmem | ⟨round, name, rfl⟩
    · exact .inl (.inl ⟨copy, hmem, hcopy⟩)
    · exact .inr hcopy
  · rcases hrequests request hmem with hmem | ⟨ctx, requests, rfl, hiocb⟩
    · exact .inl (.inr ⟨request, hmem, hbuffer⟩)
    · exact .inr ⟨request.2, hiocb, hbuffer⟩

theorem learn_of_not_touches {buffer : Buffer} {c : Call} (h : ¬Touches buffer c) (k : Knowledge) :
    learn k c buffer = k buffer := by
  cases c with
  | store b i value => exact Function.update_of_ne (fun hb => h hb.symm) _ _
  | memset b => exact Function.update_of_ne (fun hb => h hb.symm) _ _
  | _ => rfl

/-- A call that has nothing to do with the buffer keeps what is known of it. -/
theorem known_of_quiet {t : List SHEvent} {e : SHEvent} {buffer : Buffer}
    (huses : ¬(flight t).Uses buffer) (hquiet : ¬Touches buffer e.call) :
    known (t ++ [e]) buffer = known t buffer := by
  refine known_quiet (fun hinto => huses hinto.uses) ?_ (learn_of_not_touches hquiet _)
  rw [flight_concat]
  intro hinto
  rcases Flight.uses_next hinto.uses with hbefore | htouches
  · exact huses hbefore
  · exact hquiet htouches

theorem written_of_not_touches {moves : String → Bool} {words : Words} {c : Call} {buffer : Buffer}
    (h : ¬Touches buffer c) : written moves words c buffer = words buffer := by
  unfold written
  split
  · rename_i dst src what
    split
    · exact Function.update_of_ne (fun hdst => h (.inl hdst.symm)) _ _
    · rfl
  · unfold stored
    split
    · exact Function.update_of_ne (fun hbuffer => h hbuffer.symm) _ _
    · exact Function.update_of_ne (fun hbuffer => h hbuffer.symm) _ _
    · rfl

/-- The buffer that a synchronous copy reads. -/
def Sources (buffer : Buffer) : Call → Prop
  | .check (.halMemcpy _ src) _ => src = buffer
  | _ => False

/-- What is written to a buffer comes from it and from where a copy takes it. -/
theorem written_congr {moves : String → Bool} {words words' : Words} {c : Call} {buffer : Buffer}
    (hself : words buffer = words' buffer) (hsource : ∀ b, Sources b c → words b = words' b) :
    written moves words c buffer = written moves words' c buffer := by
  unfold written
  split
  · rename_i dst src what
    split
    · by_cases hdst : buffer = dst
      · subst hdst
        rw [Function.update_self, Function.update_self, hsource src rfl]
      · rw [Function.update_of_ne hdst, Function.update_of_ne hdst, hself]
    · exact hself
  · unfold stored
    split
    · rename_i b i value _
      by_cases hb : buffer = b
      · subst hb
        rw [Function.update_self, Function.update_self, hself]
      · rw [Function.update_of_ne hb, Function.update_of_ne hb, hself]
    · rename_i b _
      by_cases hb : buffer = b
      · subst hb
        rw [Function.update_self, Function.update_self]
      · rw [Function.update_of_ne hb, Function.update_of_ne hb, hself]
    · exact hself

/-! ## The network -/

/-- The words of the common buffer, and those of the buffers that each process has of its own. -/
structure World where
  shared : ℕ → UInt64
  own : Party → Words

namespace World

/-- The buffers of one process. -/
def words (w : World) (x : Party) : Words := Function.update (w.own x) common w.shared

/-- One process writes its buffers. -/
def put (w : World) (x : Party) (words : Words) : World where
  shared := words common
  own := Function.update w.own x words

variable (w : World) (x : Party) (words : Words)

@[simp] theorem words_common : w.words x common = w.shared := Function.update_self _ _ _

@[simp] theorem shared_put : (w.put x words).shared = words common := rfl

@[simp] theorem words_put : (w.put x words).words x = words := by
  simp [World.words, put]

theorem words_put_of_ne {y : Party} (hy : y ≠ x) {buffer : Buffer} (hbuffer : buffer ≠ common) :
    (w.put x words).words y buffer = w.words y buffer := by
  simp [World.words, put, Function.update_of_ne hy, Function.update_of_ne hbuffer]

end World

/-- Two processes with their buffers: which of the synchronous copies that report success move
their data, which calls work, and what the words that a process sends, numbered from 0, say
of the common buffer. -/
structure Pair where
  program : Party → SH ℕ
  claims : Party → ℕ → Message → (ℕ → UInt64) → Prop
  world : World
  moves : String → Bool
  works : (c : Call) → Call.Reply c → Bool

/-- The processes, the words under way, and the buffers. -/
abbrev PairState : Type :=
  Network.State Party Process Call Call.Reply (Except String ℕ × Process) Party Message World

/-- A buffer of a process changes. -/
structure Disturbance where
  side : Party
  buffer : Buffer
  content : ℕ → UInt64

namespace Pair

/-- What a call does to the channels. -/
def comm (x : Party) (c : Call) (r : Call.Reply c) : Comm Party Message :=
  match puts c r, takes c r with
  | some m, _ => .send x m
  | none, some m => .receive x.other m
  | none, none => .none

variable (S : Pair)

/-- The reply is possible. -/
def admits (s : PairState) (x : Party) : (c : Call) → Call.Reply c → Bool
  | .send _ _, sent => sent != decide (Closed (s.trace x.other))
  | .receive _ _, none => decide (Closed (s.trace x.other) ∧ s.queue x.other = [])
  | .receive _ _, some _ => true
  | .compare buffer i _ _, actual => actual == s.world.words x buffer i
  | c, r => S.works c r

/-- What a call returns, as far as that does not depend on the buffers and on the other process. -/
def fits : (c : Call) → Call.Reply c → Bool
  | .send _ _, _ | .receive _ _, _ | .compare _ _ _ _, _ => true
  | c, r => S.works c r

/-- All calls of the process have worked. -/
def Worked (t : List SHEvent) : Prop := ∀ e ∈ t, S.fits e.call e.reply = true

theorem worked_concat (t : List SHEvent) (e : SHEvent) :
    S.Worked (t ++ [e]) ↔ S.Worked t ∧ S.fits e.call e.reply = true := by
  simp [Worked, or_imp, forall_and]

/-- The two processes. -/
def net : Net Party Process Call Call.Reply (Except String ℕ × Process) Party Message World
    Disturbance where
  program x := S.program x {}
  world := S.world
  comm := comm
  effect s x c r :=
    if S.admits s x c r = true then
      some (s.world.put x (written S.moves (s.world.words x) c)) else none
  disturb s d :=
    if (flight (s.trace d.side)).Into d.buffer then
      some (s.world.put d.side (Function.update (s.world.words d.side) d.buffer d.content))
    else none
  sender x := x
  receiver x := x.other
  sends_only := by
    intro i c r ch m h
    unfold comm at h
    split at h <;> cases h
    rfl
  receives_only := by
    intro i c r ch m h
    unfold comm at h
    split at h <;> cases h
    rw [Party.other_other]

/-! ## What a process sees -/

/-- What a process sees: what is in flight, the content of its buffers, and how many words it
has received. -/
structure Sight where
  flight : Flight
  words : Words
  received : ℕ

/-- The reply is possible, as far as the process can tell. -/
def Credible (v : Sight) : (c : Call) → Call.Reply c → Prop
  | .send _ _, _ => True
  | .receive _ _, _ => True
  | .compare buffer i _ _, actual => v.flight.Into buffer ∨ actual = v.words buffer i
  | c, r => S.works c r = true

/-- One call of a process.  A buffer into which something is transferred can change, and the
common one while the process waits. -/
structure Sees (x : Party) (v : Sight) (e : SHEvent) (v' : Sight) : Prop where
  flight : v'.flight = v.flight.next e.call e.reply
  received : v'.received = v.received + (takes e.call e.reply).toList.length
  credible : S.Credible v e.call e.reply
  kept : ∀ b, ¬v.flight.Into b → ¬v'.flight.Into b → (∀ a, Sources a e.call → ¬v.flight.Into a) →
    (b = common → takes e.call e.reply = none) → v'.words b = written S.moves v.words e.call b
  handed : ∀ m, takes e.call e.reply = some m → S.claims x.other v.received m (v'.words common)

theorem Credible.fits {v : Sight} {c : Call} {r : Call.Reply c} (h : S.Credible v c r) :
    S.fits c r = true := by
  cases c with
  | send | receive | compare => rfl
  | _ => exact h

/-- What a process sees at first. -/
def start (x : Party) : Sight where
  flight := {}
  words := S.world.words x
  received := 0

/-- What a process may see after its calls. -/
abbrev SeesAlong (x : Party) (t : List SHEvent) (v : Sight) : Prop :=
  Along (S.Sees x) (S.start x) t v

theorem SeesAlong.flight_eq {x : Party} {t : List SHEvent} {v : Sight} (h : S.SeesAlong x t v) :
    v.flight = flight t := by
  induction h with
  | nil => rfl
  | snoc _ heffect ih => rw [heffect.flight, ih, flight_concat]

theorem SeesAlong.worked {x : Party} {t : List SHEvent} {v : Sight} (h : S.SeesAlong x t v) :
    S.Worked t := by
  induction h with
  | nil => exact fun e he => by cases he
  | snoc _ heffect ih => exact (S.worked_concat _ _).mpr ⟨ih, heffect.credible.fits⟩

theorem SeesAlong.received_eq {x : Party} {t : List SHEvent} {v : Sight} (h : S.SeesAlong x t v) :
    v.received = receivedWords t := by
  induction h with
  | nil => rfl
  | snoc _ heffect ih => rw [heffect.received, ih, receivedWords_concat]

/-! ## The rules -/

/-- A process has to do with the common buffer, and sends, only when it has the turn, and receives
only when it waits.  It sends and receives `turns` words at most. -/
structure InTurn (x : Party) (turns : ℕ) (t : List SHEvent) (_p : Process) (c : Call) : Prop where
  touches : Touches common c → x.HasTurn (sentWords t) (receivedWords t)
  sends : ∀ fd m, c = .send fd m → x.HasTurn (sentWords t) (receivedWords t) ∧
    sentWords t < turns ∧ ¬(flight t).Uses common
  receives : ∀ fd expects, c = .receive fd expects →
    x.Waits (sentWords t) (receivedWords t) ∧ receivedWords t < turns

/-- What a process says of the common buffer when it hands it over is true. -/
def Truthful (x : Party) (t : List SHEvent) (_p : Process) (c : Call) : Prop :=
  ∀ fd m, c = .send fd m → ∀ v, S.SeesAlong x t v → S.claims x (sentWords t) m (v.words common)

/-- Both processes keep to the rules, as long as their calls work. -/
structure Fair (turns : ℕ) : Prop where
  inTurn : ∀ x, ∃ Q, (S.program x {}).Meets
    (fun t p c => S.Worked t → InTurn x turns t p c) [] Q
  truthful : ∀ x, ∃ Q, (S.program x {}).Meets (S.Truthful x) [] Q

/-! ## The turn -/

section Reachable

variable {S} {s s' : PairState} {turns : ℕ}

theorem takes_of_puts {c : Call} {r : Call.Reply c} {m : Message} (h : puts c r = some m) :
    takes c r = none := by
  cases c with
  | send fd m' => rfl
  | _ => cases h

theorem exists_send {c : Call} {r : Call.Reply c} {m : Message} (h : puts c r = some m) :
    ∃ fd, c = .send fd m := by
  cases c with
  | send fd m' =>
      obtain ⟨-, hm⟩ := Option.ite_none_right_eq_some.mp h
      cases hm
      exact ⟨fd, rfl⟩
  | _ => cases h

theorem exists_receive {c : Call} {r : Call.Reply c} {m : Message} (h : takes c r = some m) :
    ∃ fd expects, c = .receive fd expects := by
  cases c with
  | receive fd expects => exact ⟨fd, expects, rfl⟩
  | _ => cases h

theorem comm_sends (x : Party) (c : Call) (r : Call.Reply c) : (comm x c r).sends x = puts c r := by
  unfold comm
  cases hputs : puts c r with
  | some m => simp [Comm.sends]
  | none =>
      cases htakes : takes c r with
      | some m => rfl
      | none => rfl

theorem puts_of_comm {x : Party} {c : Call} {r : Call.Reply c} {m : Message}
    (h : comm x c r = .send x m) : puts c r = some m := by
  rw [← comm_sends x c r, h]
  exact if_pos rfl

theorem comm_receives (x : Party) (c : Call) (r : Call.Reply c) :
    (comm x c r).receives x.other = takes c r := by
  unfold comm
  cases hputs : puts c r with
  | some m => rw [takes_of_puts hputs]; rfl
  | none =>
      cases htakes : takes c r with
      | some m => simp [Comm.receives]
      | none => rfl

theorem sentCount_eq (x : Party) (t : List SHEvent) : S.net.sentCount x t = sentWords t := by
  induction t using List.reverseRecOn with
  | nil => rfl
  | append_singleton t e ih =>
      rw [sentWords_concat, ← ih, ← comm_sends x]
      simp [Net.sentCount, Net.sent, net]

theorem receivedCount_eq (x : Party) (t : List SHEvent) :
    S.net.receivedCount x t = receivedWords t := by
  induction t using List.reverseRecOn with
  | nil => rfl
  | append_singleton t e ih =>
      rw [receivedWords_concat, ← ih, ← comm_receives x]
      simp [Net.receivedCount, Net.received, net]

theorem duplex : Duplex S.net := ⟨fun _ => rfl, fun _ => rfl⟩

/-- What a call finds and leaves. -/
structure Calls (s : PairState) (x : Party) (e : SHEvent) (s' : PairState) : Prop where
  self : s'.trace x = s.trace x ++ [e]
  other : s'.trace x.other = s.trace x.other
  admits : S.admits s x e.call e.reply = true
  world : s'.world = s.world.put x (written S.moves (s.world.words x) e.call)
  pass : (comm x e.call e.reply).pass s.queue = some s'.queue

theorem calls {x : Party} {e : SHEvent} (h : Called S.net s x e s') : S.Calls s x e s' := by
  obtain ⟨hadmits, hworld⟩ := Option.ite_none_right_eq_some.mp h.world
  refine ⟨?_, ?_, hadmits, (Option.some.inj hworld).symm, h.queue⟩
  · rw [h.trace, Function.update_self]
  · rw [h.trace, Function.update_of_ne x.other_ne]

theorem fits_of_admits {x : Party} {c : Call} {r : Call.Reply c} (h : S.admits s x c r = true) :
    S.fits c r = true := by
  cases c with
  | send | receive | compare => rfl
  | _ => exact h

/-- In every interleaving, the calls work. -/
theorem worked (h : Reachable S.net.system s) (x : Party) : S.Worked (s.trace x) := by
  refine invariant h (fun s => ∀ x, S.Worked (s.trace x)) ?_ ?_ ?_ x
  · exact fun x e he => by cases he
  · intro s x e s' _ ih hcalled
    have hcalls := calls hcalled
    refine (Party.forall_iff x).mpr ⟨?_, ?_⟩
    · rw [hcalls.self]
      exact (S.worked_concat _ _).mpr ⟨ih x, fits_of_admits hcalls.admits⟩
    · rw [hcalls.other]
      exact ih x.other
  · intro s d s' _ ih hdisturbed
    rw [hdisturbed.trace]
    exact ih

/-- The call that a process is about to make keeps to the rules. -/
theorem rules_of_rest (h : Reachable S.net.system s) (hfair : S.Fair turns) {x : Party}
    {p : Process}
    {c : Call} {next : Call.Reply c → _} (hrest : s.rest x = .call p c next) :
    InTurn x turns (s.trace x) p c ∧ S.Truthful x (s.trace x) p c := by
  obtain ⟨Q, hinTurn⟩ := hfair.inTurn x
  obtain ⟨Q', htruthful⟩ := hfair.truthful x
  have hfirst := meets h (N := S.net) hinTurn
  have hsecond := meets h (N := S.net) htruthful
  rw [hrest] at hfirst hsecond
  exact ⟨hfirst.1 (worked h x), hsecond.1⟩

/-- Every call keeps to the rules. -/
theorem rules (h : Reachable S.net.system s) (hfair : S.Fair turns) {x : Party} {e : SHEvent}
    (hcalled : Called S.net s x e s') :
    InTurn x turns (s.trace x) e.state e.call ∧ S.Truthful x (s.trace x) e.state e.call := by
  obtain ⟨next, hrest, -⟩ := hcalled.rest
  exact rules_of_rest h hfair hrest

/-- Where the turn is. -/
theorem turnState (h : Reachable S.net.system s) (hfair : S.Fair turns) :
    TurnState (fun x => sentWords (s.trace x)) (fun x => receivedWords (s.trace x)) s.queue := by
  have hturn : S.net.Turn s := by
    refine Network.turn h duplex fun s x e s' hreachable hcalled ch m hcomm => ?_
    obtain ⟨hrules, -⟩ := rules hreachable hfair hcalled
    rw [sentCount_eq, receivedCount_eq]
    obtain rfl : x = ch := S.net.sends_only hcomm
    obtain ⟨fd, hcall⟩ := exists_send (puts_of_comm hcomm)
    exact (hrules.sends fd m hcall).1
  simpa only [Net.Turn, sentCount_eq, receivedCount_eq] using hturn

/-- A call that neither sends nor receives leaves the turn where it is. -/
theorem words_quiet {t : List SHEvent} {e : SHEvent} (hputs : puts e.call e.reply = none)
    (htakes : takes e.call e.reply = none) :
    sentWords (t ++ [e]) = sentWords t ∧ receivedWords (t ++ [e]) = receivedWords t := by
  rw [sentWords_concat, receivedWords_concat, hputs, htakes]
  exact ⟨rfl, rfl⟩

theorem puts_of_touches {c : Call} {r : Call.Reply c} {buffer : Buffer} (h : Touches buffer c) :
    puts c r = none ∧ takes c r = none := by
  cases c with
  | send => cases h
  | receive => cases h
  | _ => exact ⟨rfl, rfl⟩

/-- Transfers from and to the common buffer are over when the turn is passed on. -/
theorem hasTurn_of_uses (h : Reachable S.net.system s) (hfair : S.Fair turns) (x : Party)
    (huses : (flight (s.trace x)).Uses common) :
    x.HasTurn (sentWords (s.trace x)) (receivedWords (s.trace x)) := by
  refine invariant h (fun s => ∀ x, (flight (s.trace x)).Uses common →
    x.HasTurn (sentWords (s.trace x)) (receivedWords (s.trace x))) ?_ ?_ ?_ x huses
  · intro x huses
    rcases huses with ⟨_, hmem, -⟩ | ⟨_, hmem, -⟩ <;> cases hmem
  · intro s i e s' hreachable ih hcalled y huses
    have hcalls := calls hcalled
    rcases Party.eq_or_eq_other i y with rfl | rfl
    · obtain ⟨hrules, -⟩ := rules hreachable hfair hcalled
      rw [hcalls.self, flight_concat] at huses
      rw [hcalls.self]
      rcases Flight.uses_next huses with huses | htouches
      · -- what is under way keeps the process from sending, and it does not wait
        have hturn := ih y huses
        have hputs : puts e.call e.reply = none := by
          by_contra hputs
          obtain ⟨m, hm⟩ := Option.ne_none_iff_exists'.mp hputs
          obtain ⟨fd, hcall⟩ := exists_send hm
          exact (hrules.sends fd m hcall).2.2 huses
        have htakes : takes e.call e.reply = none := by
          by_contra htakes
          obtain ⟨m, hm⟩ := Option.ne_none_iff_exists'.mp htakes
          obtain ⟨fd, expects, hcall⟩ := exists_receive hm
          exact hturn.not_waits (hrules.receives fd expects hcall).1
        rw [(words_quiet hputs htakes).1, (words_quiet hputs htakes).2]
        exact hturn
      · obtain ⟨hputs, htakes⟩ := puts_of_touches (r := e.reply) htouches
        rw [(words_quiet hputs htakes).1, (words_quiet hputs htakes).2]
        exact hrules.touches htouches
    · rw [hcalls.other] at huses ⊢
      exact ih _ huses
  · intro s d s' _ ih hdisturbed y
    rw [hdisturbed.trace]
    exact ih y

/-- Every word that was sent has been received or is under way. -/
theorem sentWords_eq (h : Reachable S.net.system s) (x : Party) :
    sentWords (s.trace x) = receivedWords (s.trace x.other) + (s.queue x).length := by
  have hfifo := congrArg List.length (fifo h (N := S.net) x)
  rw [List.length_append] at hfifo
  have hsent := sentCount_eq (S := S) x (s.trace x)
  have hreceived := receivedCount_eq (S := S) x.other (s.trace x.other)
  unfold Net.receivedCount at hreceived
  rw [Party.other_other] at hreceived
  rw [← hsent, ← hreceived]
  exact hfifo

/-! ## The views agree with the world -/

/-- What a process sees is there: its own buffers, and the common one while it has the turn. -/
structure View (s : PairState) (x : Party) (v : Sight) : Prop where
  along : S.SeesAlong x (s.trace x) v
  own : ∀ b, b ≠ common → ¬v.flight.Into b → v.words b = s.world.words x b
  shared : x.HasTurn (sentWords (s.trace x)) (receivedWords (s.trace x)) → ¬v.flight.Into common →
    v.words common = s.world.shared

variable {x : Party} {e : SHEvent} {v : Sight}

theorem comm_of_takes {c : Call} {r : Call.Reply c} {m : Message} (htakes : takes c r = some m) :
    comm x c r = .receive x.other m := by
  unfold comm
  cases hputs : puts c r with
  | some m' =>
      rw [takes_of_puts hputs] at htakes
      cases htakes
  | none => rw [htakes]

/-- A message that is received was under way. -/
theorem mem_of_takes {queue queue' : Party → List Message} {c : Call} {r : Call.Reply c}
    {m : Message}
    (hpass : (comm x c r).pass queue = some queue') (htakes : takes c r = some m) :
    m ∈ queue x.other := by
  rw [comm_of_takes htakes] at hpass
  obtain ⟨hhead, -⟩ := Option.ite_none_right_eq_some.mp hpass
  exact List.mem_of_mem_head? hhead

/-- Where the caller has the turn, it sees what it is about to read and to write. -/
theorem View.written_eq (hview : S.View s x v) {c : Call} {b : Buffer}
    (htouches : Touches common c → x.HasTurn (sentWords (s.trace x)) (receivedWords (s.trace x)))
    (hturn : b = common → x.HasTurn (sentWords (s.trace x)) (receivedWords (s.trace x)))
    (hb : ¬v.flight.Into b) (hsources : ∀ a, Sources a c → ¬v.flight.Into a) :
    written S.moves (s.world.words x) c b = written S.moves v.words c b := by
  have hsees : ∀ a, ¬v.flight.Into a →
      (a = common → x.HasTurn (sentWords (s.trace x)) (receivedWords (s.trace x))) →
      s.world.words x a = v.words a := by
    intro a ha hturn
    by_cases hcommon : a = common
    · subst hcommon
      rw [World.words_common, hview.shared (hturn rfl) ha]
    · exact (hview.own a hcommon ha).symm
  apply written_congr (hsees b hb hturn)
  intro a ha
  apply hsees a (hsources a ha)
  rintro rfl
  apply htouches
  cases c with
  | check op name =>
      cases op with
      | halMemcpy dst src => exact .inr ha
      | _ => cases ha
  | _ => cases ha

/-- What a comparison reads is seen. -/
theorem View.credible (hview : S.View s x v) {c : Call} {r : Call.Reply c}
    (hadmits : S.admits s x c r = true)
    (htouches : Touches common c → x.HasTurn (sentWords (s.trace x)) (receivedWords (s.trace x))) :
    S.Credible v c r := by
  cases c with
  | compare buffer i expected phase =>
      by_cases hinto : v.flight.Into buffer
      · exact .inl hinto
      · have hread : r = s.world.words x buffer i := by simpa [admits] using hadmits
        refine .inr (hread.trans (congrFun ?_ i))
        by_cases hcommon : buffer = common
        · subst hcommon
          rw [World.words_common, hview.shared (htouches rfl) hinto]
        · exact (hview.own buffer hcommon hinto).symm
  | send => trivial
  | receive => trivial
  | _ => exact hadmits

/-- The view of the process that makes the call. -/
theorem View.self (hview : S.View s x v) (hcalls : S.Calls s x e s')
    (hrules : InTurn x turns (s.trace x) e.state e.call)
    (hclaims : ∀ m ∈ s.queue x.other,
      S.claims x.other (receivedWords (s.trace x)) m s.world.shared) :
    ∃ v', S.View s' x v' := by
  -- it is blind to the common buffer while it waits, and all else is as in the world
  let v' : Sight := {
    flight := v.flight.next e.call e.reply
    words := fun b =>
      if b = common ∧ ¬x.HasTurn (sentWords (s.trace x)) (receivedWords (s.trace x)) ∧
        takes e.call e.reply = none then v.words b else s'.world.words x b
    received := v.received + (takes e.call e.reply).toList.length }
  have hworld : ∀ b, s'.world.words x b = written S.moves (s.world.words x) e.call b := by
    intro b
    rw [hcalls.world, World.words_put]
  refine ⟨v', ?_, ?_, ?_⟩
  · rw [hcalls.self]
    refine hview.along.snoc ⟨rfl, rfl, hview.credible hcalls.admits hrules.touches, ?_, ?_⟩
    · intro b hbefore hafter hsources htakes
      by_cases hblind : b = common ∧
          ¬x.HasTurn (sentWords (s.trace x)) (receivedWords (s.trace x)) ∧
          takes e.call e.reply = none
      · have hquiet : ¬Touches common e.call := fun h => hblind.2.1 (hrules.touches h)
        rw [show v'.words b = v.words b from if_pos hblind, hblind.1, written_of_not_touches hquiet]
      · rw [show v'.words b = s'.world.words x b from if_neg hblind, hworld]
        apply hview.written_eq hrules.touches _ hbefore hsources
        intro hb
        by_contra hturn
        exact hblind ⟨hb, hturn, htakes hb⟩
    -- a word that is received says what the common buffer holds
    · intro m htakes
      have hmem := mem_of_takes hcalls.pass htakes
      have hsame : v'.words common = s.world.shared := by
        rw [show v'.words common = s'.world.words x common from if_neg (by simp [htakes]), hworld,
          written_of_not_touches, World.words_common]
        intro h
        rw [(puts_of_touches (r := e.reply) h).2] at htakes
        cases htakes
      rw [hsame, hview.along.received_eq]
      exact hclaims m hmem
  · intro b hb _
    exact if_neg fun h => hb h.1
  -- a process that has the turn after the call has it because of the call, or had it before
  · intro hturn _
    rw [← World.words_common (w := s'.world) (x := x)]
    refine if_neg fun hblind => hblind.2.1 ?_
    rw [hcalls.self] at hturn
    cases hputs : puts e.call e.reply with
    | none =>
        obtain ⟨hsent, hreceived⟩ := words_quiet hputs hblind.2.2
        rwa [hsent, hreceived] at hturn
    | some m =>
        obtain ⟨fd, hcall⟩ := exists_send hputs
        exact (hrules.sends fd m hcall).1

/-- The view of the other process. -/
theorem View.other (hview : S.View s x.other v) (hcalls : S.Calls s x e s')
    (hquiet : x.other.HasTurn (sentWords (s.trace x.other)) (receivedWords (s.trace x.other)) →
      ¬Touches common e.call) : S.View s' x.other v := by
  refine ⟨?_, fun b hb hinto => ?_, fun hturn hinto => ?_⟩
  · rw [hcalls.other]
    exact hview.along
  · rw [hcalls.world, World.words_put_of_ne _ _ _ x.other_ne hb]
    exact hview.own b hb hinto
  · rw [hcalls.other] at hturn
    rw [hcalls.world, World.shared_put, written_of_not_touches (hquiet hturn), World.words_common]
    exact hview.shared hturn hinto

/-- Both processes see what is there, and what is said of the common buffer is true. -/
structure Agrees (s : PairState) : Prop where
  views : ∀ x, ∃ v, S.View s x v
  claims : ∀ x, ∀ m ∈ s.queue x, ∀ n, sentWords (s.trace x) = n + 1 →
    S.claims x n m s.world.shared

/-- What is under way after a call was under way before, or has been sent. -/
theorem mem_queue (hpass : (comm x e.call e.reply).pass s.queue = some s'.queue) {ch : Party}
    {m : Message} (hm : m ∈ s'.queue ch) :
    m ∈ s.queue ch ∨ (ch = x ∧ puts e.call e.reply = some m) := by
  have hbalance := Comm.pass_balance hpass ch
  have hmem : m ∈ s.queue ch ++ ((comm x e.call e.reply).sends ch).toList := by
    rw [hbalance]
    exact List.mem_append_right _ hm
  rcases List.mem_append.mp hmem with hmem | hmem
  · exact .inl hmem
  · rw [Option.mem_toList] at hmem
    rcases Party.eq_or_eq_other x ch with rfl | rfl
    · rw [comm_sends] at hmem
      exact .inr ⟨rfl, hmem⟩
    · unfold comm at hmem
      split at hmem
      · exact absurd (Option.ite_none_right_eq_some.mp hmem).1.symm x.other_ne
      · cases hmem
      · cases hmem

/-- The word that is under way is the last one that was sent. -/
theorem Agrees.received (h : Reachable S.net.system s) (hfair : S.Fair turns)
    (hagrees : S.Agrees s) {ch : Party} {m : Message} (hm : m ∈ s.queue ch) :
    S.claims ch (receivedWords (s.trace ch.other)) m s.world.shared := by
  apply hagrees.claims ch m hm
  obtain ⟨m', rest, hqueue⟩ := List.exists_cons_of_ne_nil (List.ne_nil_of_mem hm)
  obtain ⟨rfl, -⟩ := (turnState h hfair).of_message hqueue
  rw [sentWords_eq h, hqueue]
  rfl

theorem Agrees.called (h : Reachable S.net.system s) (hfair : S.Fair turns) (hagrees : S.Agrees s)
    (hcalled : Called S.net s x e s') : S.Agrees s' := by
  have hturns := turnState h hfair
  have hcalls := calls hcalled
  obtain ⟨hrules, htruthful⟩ := rules h hfair hcalled
  refine ⟨(Party.forall_iff x).mpr ⟨?_, ?_⟩, ?_⟩
  · obtain ⟨v, hview⟩ := hagrees.views x
    refine hview.self hcalls hrules fun m hm => ?_
    have hclaims := hagrees.received h hfair hm
    rwa [Party.other_other] at hclaims
  · obtain ⟨v, hview⟩ := hagrees.views x.other
    exact ⟨v, hview.other hcalls fun hturn htouches =>
      hturns.not_both (hrules.touches htouches) hturn⟩
  · intro ch m hm n hn
    rcases mem_queue hcalls.pass hm with hm | ⟨rfl, hputs⟩
    · -- a message is under way, so that nobody has to do with the buffer, nor sends
      have hidle : ∀ y : Party, ¬y.HasTurn (sentWords (s.trace y)) (receivedWords (s.trace y)) := by
        intro y hturn
        rw [(hturns.exclusive hturn).2 ch] at hm
        cases hm
      have hquiet : ¬Touches common e.call := fun h => hidle x (hrules.touches h)
      have hsame : sentWords (s'.trace ch) = sentWords (s.trace ch) := by
        rcases Party.eq_or_eq_other x ch with rfl | rfl
        · rw [hcalls.self, sentWords_concat]
          cases hputs : puts e.call e.reply with
          | none => rfl
          | some m =>
              obtain ⟨fd, hcall⟩ := exists_send hputs
              exact absurd (hrules.sends fd m hcall).1 (hidle ch)
        · rw [hcalls.other]
      rw [hcalls.world, World.shared_put, written_of_not_touches hquiet, World.words_common]
      exact hagrees.claims ch m hm n (hsame ▸ hn)
    -- the word that is sent now: what it says is true, as the sender keeps to the rules
    · obtain ⟨fd, hcall⟩ := exists_send hputs
      obtain ⟨hturn, -, huses⟩ := hrules.sends fd m hcall
      obtain ⟨v, hview⟩ := hagrees.views ch
      have hinto : ¬v.flight.Into common := by
        rw [hview.along.flight_eq]
        exact fun hinto => huses hinto.uses
      have hquiet : ¬Touches common e.call := by
        rw [hcall]
        exact id
      have hlast : n = sentWords (s.trace ch) := by
        rw [hcalls.self, sentWords_concat, hputs] at hn
        exact (Nat.succ.inj hn).symm
      rw [hcalls.world, World.shared_put, written_of_not_touches hquiet, World.words_common,
        ← hview.shared hturn hinto, hlast]
      exact htruthful fd m hcall v hview.along

theorem Agrees.disturbed (h : Reachable S.net.system s) (hfair : S.Fair turns)
    (hagrees : S.Agrees s) {d : Disturbance} (hdisturbed : Disturbed S.net s d s') :
    S.Agrees s' := by
  have hturns := turnState h hfair
  obtain ⟨hinto, hworld⟩ := Option.ite_none_right_eq_some.mp hdisturbed.world
  have hworld := (Option.some.inj hworld).symm
  -- a transfer into the common buffer is in flight only where the turn is
  have hholder : d.buffer = common →
      d.side.HasTurn (sentWords (s.trace d.side)) (receivedWords (s.trace d.side)) := by
    intro hd
    exact hasTurn_of_uses h hfair d.side (hd ▸ hinto.uses)
  have hshared : d.buffer ≠ common → s'.world.shared = s.world.shared := by
    intro hd
    rw [hworld, World.shared_put, Function.update_of_ne (Ne.symm hd), World.words_common]
  refine ⟨(Party.forall_iff d.side).mpr ⟨?_, ?_⟩, ?_⟩
  -- the process whose buffer changes does not know it any more
  · obtain ⟨v, hview⟩ := hagrees.views d.side
    have hflight := hview.along.flight_eq
    refine ⟨v, ?_, fun b hb hstill => ?_, fun hturn hstill => ?_⟩
    · rw [hdisturbed.trace]
      exact hview.along
    · have hne : b ≠ d.buffer := by
        rintro rfl
        exact hstill (hflight ▸ hinto)
      rw [hworld, World.words_put, Function.update_of_ne hne]
      exact hview.own b hb hstill
    · have hne : d.buffer ≠ common := by
        intro hd
        exact hstill (hflight ▸ hd ▸ hinto)
      rw [hdisturbed.trace] at hturn
      rw [hshared hne]
      exact hview.shared hturn hstill
  -- the other one has not got the turn, if it is the common buffer
  · obtain ⟨v, hview⟩ := hagrees.views d.side.other
    refine ⟨v, ?_, fun b hb hstill => ?_, fun hturn hstill => ?_⟩
    · rw [hdisturbed.trace]
      exact hview.along
    · rw [hworld, World.words_put_of_ne _ _ _ (Party.other_ne _) hb]
      exact hview.own b hb hstill
    · rw [hdisturbed.trace] at hturn
      rw [hshared]
      · exact hview.shared hturn hstill
      · intro hd
        exact hturns.not_both (hholder hd) hturn
  -- no word is under way then, so nothing has been said of the buffer
  · intro ch m hm n hn
    rw [hdisturbed.queue] at hm
    rw [hdisturbed.trace] at hn
    rw [hshared]
    · exact hagrees.claims ch m hm n hn
    · intro hd
      have hempty := (hturns.exclusive (hholder hd)).2 ch
      rw [hempty] at hm
      cases hm

/-- In every interleaving, both processes see what is there. -/
theorem agrees (h : Reachable S.net.system s) (hfair : S.Fair turns) : S.Agrees s := by
  refine invariant h S.Agrees ?_ ?_ ?_
  · refine ⟨fun x => ⟨S.start x, .nil, fun b _ _ => rfl, fun _ _ => ?_⟩, fun x m hm => by cases hm⟩
    exact World.words_common S.world x
  · exact fun s x e s' h hagrees hcalled => hagrees.called h hfair hcalled
  · exact fun s d s' h hagrees hdisturbed => hagrees.disturbed h hfair hdisturbed

/-- The process has to do with the common buffer: it is about to, or a transfer is in flight. -/
def Accesses (s : PairState) (x : Party) : Prop :=
  (flight (s.trace x)).Uses common ∨
    ∃ p c next, s.rest x = .call p c next ∧ Touches common c

/-- At no time do both processes have to do with the common buffer. -/
theorem exclusive (h : Reachable S.net.system s) (hfair : S.Fair turns) (x : Party)
    (hx : Accesses s x) : ¬Accesses s x.other := by
  have hturn : ∀ y, Accesses s y →
      y.HasTurn (sentWords (s.trace y)) (receivedWords (s.trace y)) := by
    intro y hy
    rcases hy with huses | ⟨p, c, next, hrest, htouches⟩
    · exact hasTurn_of_uses h hfair y huses
    · exact (rules_of_rest h hfair hrest).1.touches htouches
  exact fun hother => (turnState h hfair).not_both (hturn x hx) (hturn x.other hother)

/-! ## Nobody loses its peer -/

variable (S) in
/-- A process that closes its end, and has met with nothing that `calm` excludes, has sent and
received all its words. -/
def Completes (calm : List SHEvent → Prop) (x : Party) (turns : ℕ) (t : List SHEvent) (_p : Process)
    (c : Call) : Prop :=
  c = .direct (.close 0) → ∀ v, S.SeesAlong x t v → calm t → ¬Lost t →
    sentWords t = turns ∧ receivedWords t = turns

/-- The end of a process is open, or it has sent and received all its words. -/
def Finished (turns : ℕ) (t : List SHEvent) : Prop :=
  Closed t → sentWords t = turns ∧ receivedWords t = turns

/-- A call of a process that has lost nothing: it loses nothing if its peer is in order. -/
theorem lost_step (h : Reachable S.net.system s) (hcalls : S.Calls s x e s')
    (hrules : InTurn x turns (s.trace x) e.state e.call)
    (hpeer : Finished turns (s.trace x.other)) : lost e.call e.reply = false := by
  obtain ⟨p, c, r⟩ := e
  have hadmits := hcalls.admits
  cases c with
  | send fd m =>
      cases r with
      | true => rfl
      | false =>
          have hclosed : Closed (s.trace x.other) := by simpa [admits] using hadmits
          have hless := (hrules.sends fd m rfl).2.1
          have hcount := sentWords_eq h x
          have hreceived := (hpeer hclosed).2
          omega
  | receive fd expects =>
      cases r with
      | some m => rfl
      | none =>
          have hgone : Closed (s.trace x.other) ∧ s.queue x.other = [] := by
            simpa [admits] using hadmits
          have hless := (hrules.receives fd expects rfl).2
          have hcount := sentWords_eq h x.other
          rw [Party.other_other, hgone.2, List.length_nil] at hcount
          have hsent := (hpeer hgone.1).1
          omega
  | _ => rfl

/-- A process that is finished sends and receives nothing more. -/
theorem finished_step (hrules : InTurn x turns (s.trace x) e.state e.call)
    (hfinished : Finished turns (s.trace x))
    (hclose : e.call = .direct (.close 0) →
      sentWords (s.trace x) = turns ∧ receivedWords (s.trace x) = turns) :
    Finished turns (s.trace x ++ [e]) := by
  intro hclosed
  have hdone : sentWords (s.trace x) = turns ∧ receivedWords (s.trace x) = turns := by
    rcases (closed_concat _ _).mp hclosed with hclosed | hnow
    · exact hfinished hclosed
    · exact hclose hnow
  have hputs : puts e.call e.reply = none := by
    by_contra hputs
    obtain ⟨m, hm⟩ := Option.ne_none_iff_exists'.mp hputs
    obtain ⟨fd, hcall⟩ := exists_send hm
    have hless := (hrules.sends fd m hcall).2.1
    omega
  have htakes : takes e.call e.reply = none := by
    by_contra htakes
    obtain ⟨m, hm⟩ := Option.ne_none_iff_exists'.mp htakes
    obtain ⟨fd, expects, hcall⟩ := exists_receive hm
    have hless := (hrules.receives fd expects hcall).2
    omega
  rwa [(words_quiet hputs htakes).1, (words_quiet hputs htakes).2]

/-- As long as nothing happens that `calm` excludes, no call fails because the peer is gone. -/
theorem not_lost (h : Reachable S.net.system s) (hfair : S.Fair turns)
    (calm : List SHEvent → Prop) (hshorter : ∀ t e, calm (t ++ [e]) → calm t)
    (hcompletes : ∀ x, ∃ Q, (S.program x {}).Meets (S.Completes calm x turns) [] Q)
    (hcalm : ∀ x, calm (s.trace x)) :
    ∀ x, ¬Lost (s.trace x) ∧ Finished turns (s.trace x) := by
  refine invariant h (fun s => (∀ x, calm (s.trace x)) →
    ∀ x, ¬Lost (s.trace x) ∧ Finished turns (s.trace x)) ?_ ?_ ?_ hcalm
  · intro _ x
    refine ⟨?_, ?_⟩
    · rintro ⟨e, he, -⟩
      cases he
    · rintro ⟨e, he, -⟩
      cases he
  · intro s x e s' hreachable ih hcalled hcalm
    have hcalls := calls hcalled
    obtain ⟨hrules, -⟩ := rules hreachable hfair hcalled
    have hbefore : ∀ y, calm (s.trace y) := by
      refine (Party.forall_iff x).mpr ⟨?_, ?_⟩
      · exact hshorter _ e (hcalls.self ▸ hcalm x)
      · exact hcalls.other ▸ hcalm x.other
    obtain ⟨hlost, hfinished⟩ := ih hbefore x
    refine (Party.forall_iff x).mpr ⟨?_, ?_⟩
    · rw [hcalls.self]
      refine ⟨?_, finished_step hrules hfinished fun hclose => ?_⟩
      · rw [lost_concat, lost_step hreachable hcalls hrules (ih hbefore x.other).2]
        exact not_or.mpr ⟨hlost, Bool.false_ne_true⟩
      · obtain ⟨Q, hprogram⟩ := hcompletes x
        obtain ⟨next, hrest, -⟩ := hcalled.rest
        have hmeets := meets hreachable (N := S.net) hprogram
        rw [hrest] at hmeets
        obtain ⟨v, hview⟩ := (agrees hreachable hfair).views x
        exact hmeets.1 hclose v hview.along (hbefore x) hlost
    · rw [hcalls.other]
      exact ih hbefore x.other
  · intro s d s' _ ih hdisturbed hcalm x
    rw [hdisturbed.trace] at hcalm ⊢
    exact ih hcalm x

/-! ## No state is stuck -/

/-- A reply that says nothing. -/
def blank : (c : Call) → Call.Reply c
  | .check _ _ | .cleanup _ _ | .direct _ => {}
  | .store _ _ _ | .memset _ | .caseResult _ _ => ()
  | .compare _ _ _ _ => 0
  | .send _ _ => false
  | .receive _ _ => none

/-- A call that the world and the channels admit can be made. -/
theorem exists_call {p : Process} {c : Call} {next : Call.Reply c → _}
    (hrest : s.rest x = .call p c next) (r : Call.Reply c) (hadmits : S.admits s x c r = true)
    {queue : Party → List Message} (hpass : (comm x c r).pass s.queue = some queue) :
    ∃ answer s', S.net.step s (.call x answer) = some s' := by
  let answer : (c : Call) → Call.Reply c := fun c' => if hc : c' = c then hc ▸ r else blank c'
  have hanswer : answer c = r := dif_pos rfl
  have hqueue : (S.net.comm x c (answer c)).pass s.queue = some queue := by
    rw [hanswer]
    exact hpass
  have hworld : S.net.effect s x c (answer c) =
      some (s.world.put x (written S.moves (s.world.words x) c)) := by
    rw [hanswer]
    exact if_pos hadmits
  obtain ⟨s', hstep⟩ := exists_step (N := S.net) hrest answer hqueue hworld
  exact ⟨answer, s', hstep⟩

/-- The call waits for a word. -/
def IsReceive (c : Call) : Prop := ∃ fd expects, c = .receive fd expects

/-- A call that does not wait for a word can be made. -/
theorem exists_call_of_not_receive (hworks : ∀ c, ∃ r, S.works c r = true) {p : Process} {c : Call}
    {next : Call.Reply c → _} (hrest : s.rest x = .call p c next) (hc : ¬IsReceive c) :
    ∃ answer s', S.net.step s (.call x answer) = some s' := by
  cases c with
  | send fd m =>
      by_cases hclosed : Closed (s.trace x.other)
      · exact exists_call hrest false (by simp [admits, hclosed]) rfl
      · exact exists_call hrest true (by simp [admits, hclosed]) rfl
  | receive fd expects => exact absurd ⟨fd, expects, rfl⟩ hc
  | compare b i expected phase =>
      exact exists_call hrest (s.world.words x b i) (by simp [admits]) rfl
  | _ =>
      obtain ⟨r, hr⟩ := hworks _
      exact exists_call hrest r hr rfl

/-- A call that waits for a word can be made if a word is there, or the peer has closed its end. -/
theorem exists_call_of_receive {p : Process} {c : Call} {next : Call.Reply c → _}
    (hrest : s.rest x = .call p c next) (hc : IsReceive c)
    (hpeer : s.queue x.other ≠ [] ∨ Closed (s.trace x.other)) :
    ∃ answer s', S.net.step s (.call x answer) = some s' := by
  obtain ⟨fd, expects, rfl⟩ := hc
  cases hqueue : s.queue x.other with
  | nil =>
      have hclosed := hpeer.resolve_left fun h => h hqueue
      exact exists_call hrest none (by simp [admits, hclosed, hqueue]) rfl
  | cons m rest =>
      have hpass : (comm x (.receive fd expects) (some m)).pass s.queue =
          some (Function.update s.queue x.other (s.queue x.other).tail) := by
        rw [comm_of_takes rfl]
        exact if_pos (by rw [hqueue]; rfl)
      exact exists_call hrest (some m) rfl hpass

/-- As long as not both have returned, one of them can go on. -/
theorem exists_next (h : Reachable S.net.system s) (hfair : S.Fair turns)
    (hworks : ∀ c, ∃ r, S.works c r = true) (hwhole : ∀ x, Whole (S.program x {}))
    (hcloses : ∀ x, ∃ ok, (S.program x {}).Meets ok [] fun _ t => Closed t)
    (hend : ∃ x p c next, s.rest x = .call p c next) :
    ∃ x answer s', S.net.step s (.call x answer) = some s' := by
  obtain ⟨x, p, c, next, hrest⟩ := hend
  -- only a receive can block, and only while the peer is alive and nothing is under way
  by_cases hc : IsReceive c
  · by_cases hpeer : s.queue x.other ≠ [] ∨ Closed (s.trace x.other)
    · exact ⟨x, exists_call_of_receive hrest hc hpeer⟩
    obtain ⟨hempty, hopen⟩ := not_or.mp hpeer
    have hpeer := (reaches h x.other).whole (hwhole x.other)
    cases hother : s.rest x.other with
    | ret r =>
        obtain ⟨ok, hprogram⟩ := hcloses x.other
        have hmeets := meets h (N := S.net) hprogram
        rw [hother] at hmeets
        exact absurd hmeets hopen
    | cut =>
        rw [hother] at hpeer
        cases hpeer
    | call p' c' next' =>
        by_cases hc' : IsReceive c'
        · -- both wait, so that a word is under way
          have hwaits : ∀ (y : Party) p c next, s.rest y = .call p c next → IsReceive c →
              y.Waits (sentWords (s.trace y)) (receivedWords (s.trace y)) := by
            intro y p c next hrest hc
            obtain ⟨fd, expects, hreceive⟩ := hc
            exact ((rules_of_rest h hfair hrest).1.receives fd expects hreceive).1
          have hboth : ∀ y : Party, y.Waits (sentWords (s.trace y)) (receivedWords (s.trace y)) :=
            (Party.forall_iff x).mpr ⟨hwaits x _ _ _ hrest hc, hwaits x.other _ _ _ hother hc'⟩
          refine ⟨x.other, exists_call_of_receive hother hc' (.inl ?_)⟩
          rw [Party.other_other]
          cases turnState h hfair with
          | held y hturn _ _ => exact absurd (hboth y) hturn.not_waits
          | passing y m _ hqueue _ =>
              rcases Party.eq_or_eq_other x y with rfl | rfl
              · rw [hqueue]
                exact List.cons_ne_nil m []
              · exact absurd (by rw [hqueue]; exact List.cons_ne_nil m []) hempty
        · exact ⟨x.other, exists_call_of_not_receive hworks hother hc'⟩
  · exact ⟨x, exists_call_of_not_receive hworks hrest hc⟩

instance : Finite Party := Finite.of_injective (fun x => decide (x = Party.first)) fun x y h => by
  cases x <;> cases y <;> simp_all

/-- Every run can be continued until both have returned. -/
theorem exists_returned (h : Reachable S.net.system s) (hfair : S.Fair turns)
    (hworks : ∀ c, ∃ r, S.works c r = true) (hwhole : ∀ x, Whole (S.program x {}))
    (hcloses : ∀ x, ∃ ok, (S.program x {}).Meets ok [] fun _ t => Closed t) :
    ∃ t s', Path S.net.system s t s' ∧ ∀ x, ∃ r, s'.rest x = .ret r :=
  exists_ended (N := S.net) hwhole (fun _ hs hend =>
    exists_next hs hfair hworks hwhole hcloses hend) h

end Reachable

end Pair

end SharingProbe.Share
