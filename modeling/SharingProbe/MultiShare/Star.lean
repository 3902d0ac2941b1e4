import Mathlib.Data.List.FinRange
import SharingProbe.MultiShare.Cleanup
import SharingProbe.MultiShare.Descriptors
import SharingProbe.Share.Pair

/-!
# The coordinator and its workers

The processes of a run, once the workers have been started.  Every worker has a socket of its
own to the coordinator: the words go up to the coordinator and down to the worker.

The world are the shared blocks, which all mappings denote.  A block can have any content while
something is transferred into it, after its owner has released it, and after its owner has been
killed.
-/

namespace SharingProbe.MultiShare

open Interaction Network Transition Share

/-! ## The processes -/

/-- The processes of a run. -/
inductive Member (n : ℕ) where
  | coordinator
  | worker (rank : Fin n)
  deriving DecidableEq

/-- The rank of a worker. -/
def Member.number {n : ℕ} : Member n → ℕ
  | .coordinator => 0
  | .worker rank => rank

/-- The two directions of the socket of a worker. -/
inductive Wire (n : ℕ) where
  | up (rank : Fin n)
  | down (rank : Fin n)
  deriving DecidableEq

instance (n : ℕ) : Finite (Member n) := by
  apply Finite.of_injective fun x : Member n =>
    match x with
    | .coordinator => (none : Option (Fin n))
    | .worker rank => some rank
  intro x y h
  cases x <;> cases y <;> simp_all

/-- The coordinator after the loop that starts the workers. -/
structure Started (n : ℕ) where
  process : Process
  socket : Fin n → ℕ
  child : Fin n → ℕ
  sockets_eq : process.sockets = (List.finRange n).map socket
  children_eq : process.children = (List.finRange n).map child
  socket_injective : Function.Injective socket
  child_injective : Function.Injective child

/-- The state of the coordinator between two turns of that loop. -/
theorem Between.exists_started {n : ℕ} {p : Process} {b : Books} (h : Between n p b)
    (hchildren : p.children.Nodup) : ∃ st : Started n, st.process = p := by
  let socket : Fin n → ℕ := fun i => p.sockets.get (Fin.cast h.sockets.symm i)
  let child : Fin n → ℕ := fun i => p.children.get (Fin.cast h.children.symm i)
  have hsockets : ∀ i : Fin n, p.sockets[i.val]? = some (socket i) :=
    fun i => List.getElem?_eq_getElem _
  refine ⟨{ process := p
            socket := socket
            child := child
            sockets_eq := ?_
            children_eq := ?_
            socket_injective := fun i j hij => ?_
            child_injective := fun i j hij => ?_ }, rfl⟩
  · apply List.ext_getElem
    · simp [h.sockets]
    · intro i h₁ h₂
      simp [socket]
  · apply List.ext_getElem
    · simp [h.children]
    · intro i h₁ h₂
      simp [child]
  · have hi := (h.files _ _).mpr ⟨i.val, hsockets i, rfl⟩
    have hj := (h.files _ _).mpr ⟨j.val, hsockets j, rfl⟩
    rw [hij, hj, Option.some.injEq, End.mk.injEq] at hi
    exact Fin.ext hi.1.symm
  · exact Fin.ext ((List.Nodup.getElem_inj_iff hchildren).mp hij)

/-- What the loop leaves is such a state, if the kernel gives different numbers to what is open and
to the children. -/
theorem exists_started {cfg : Config} {t : List SHEvent} {p : Process}
    (hrun : ((List.range cfg.count).forM (fun _ => startWorker) {}).Runs t (.ok ⟨⟩, p))
    (hfresh : Fresh t) (hchildren : p.children.Nodup) :
    ∃ st : Started cfg.count, st.process = p := by
  have hbetween : OnBooks (Between cfg.count) p t :=
    Prog.Meets.post_of_runs (triple_startWorkers {} [] ⟨rfl, rfl⟩) hrun
  exact (hbetween hfresh).exists_started hchildren

/-- The rank that has this number. -/
def rankOf {n : ℕ} (number : Fin n → ℕ) (m : ℕ) : Option (Fin n) :=
  (List.finRange n).find? fun rank => number rank = m

theorem rankOf_eq_some {n : ℕ} {number : Fin n → ℕ} (h : Function.Injective number) {m : ℕ}
    {rank : Fin n} : rankOf number m = some rank ↔ number rank = m := by
  constructor
  · intro hfind
    simpa using List.find?_some hfind
  · intro hm
    cases hfind : rankOf number m with
    | none =>
        have hnone := List.find?_eq_none.mp hfind rank (List.mem_finRange rank)
        exact absurd hm (by simpa using hnone)
    | some other =>
        have hother : number other = m := by simpa using List.find?_some hfind
        rw [h (hother.trans hm.symm)]

/-! ## The words on the sockets -/

section Words

variable {n : ℕ} (st : Started n)

/-- Where a call sends. -/
def outgoing : Member n → Share.Call → Option (Wire n)
  | .coordinator, .send fd _ => (rankOf st.socket fd).map .down
  | .worker rank, .send _ _ => some (.up rank)
  | _, _ => none

/-- Where a call receives from. -/
def incoming : Member n → Share.Call → Option (Wire n)
  | .coordinator, .receive fd _ => (rankOf st.socket fd).map .up
  | .worker rank, .receive _ _ => some (.down rank)
  | _, _ => none

/-- What a call does to the sockets. -/
def comm (x : Member n) (c : Share.Call) (r : Share.Call.Reply c) : Comm (Wire n) Message :=
  match puts c r, takes c r with
  | some m, _ => (outgoing st x c).elim .none fun wire => .send wire m
  | none, some m => (incoming st x c).elim .none fun wire => .receive wire m
  | none, none => .none

/-- The word that a call sends on a wire. -/
def putsOn (x : Member n) (wire : Wire n) (c : Share.Call) (r : Share.Call.Reply c) :
    Option Message :=
  if outgoing st x c = some wire then puts c r else none

/-- The word that a call receives from a wire. -/
def takesFrom (x : Member n) (wire : Wire n) (c : Share.Call) (r : Share.Call.Reply c) :
    Option Message :=
  if incoming st x c = some wire then takes c r else none

/-- The words that a process has sent on a wire. -/
def said (x : Member n) (wire : Wire n) (t : List SHEvent) : List Message :=
  t.filterMap fun e => putsOn st x wire e.call e.reply

/-- The words that a process has received from a wire. -/
def heard (x : Member n) (wire : Wire n) (t : List SHEvent) : List Message :=
  t.filterMap fun e => takesFrom st x wire e.call e.reply

theorem comm_sends (x : Member n) (wire : Wire n) (c : Share.Call) (r : Share.Call.Reply c) :
    (comm st x c r).sends wire = putsOn st x wire c r := by
  unfold comm putsOn
  cases hputs : puts c r with
  | some m =>
      cases houtgoing : outgoing st x c with
      | none => rfl
      | some wire' => simp [Comm.sends]
  | none =>
      rw [ite_self]
      cases takes c r with
      | none => rfl
      | some m => cases incoming st x c <;> rfl

theorem comm_receives (x : Member n) (wire : Wire n) (c : Share.Call) (r : Share.Call.Reply c) :
    (comm st x c r).receives wire = takesFrom st x wire c r := by
  unfold comm takesFrom
  cases hputs : puts c r with
  | some m =>
      rw [Pair.takes_of_puts hputs, ite_self]
      cases outgoing st x c <;> rfl
  | none =>
      cases takes c r with
      | none =>
          rw [ite_self]
          rfl
      | some m =>
          cases hincoming : incoming st x c with
          | none => rfl
          | some wire' => simp [Comm.receives]

theorem said_concat (x : Member n) (wire : Wire n) (t : List SHEvent) (e : SHEvent) :
    said st x wire (t ++ [e]) = said st x wire t ++ (putsOn st x wire e.call e.reply).toList := by
  cases h : putsOn st x wire e.call e.reply <;> simp [said, List.filterMap_append, h]

theorem heard_concat (x : Member n) (wire : Wire n) (t : List SHEvent) (e : SHEvent) :
    heard st x wire (t ++ [e]) =
      heard st x wire t ++ (takesFrom st x wire e.call e.reply).toList := by
  cases h : takesFrom st x wire e.call e.reply <;> simp [heard, List.filterMap_append, h]

/-- A worker has only one socket. -/
theorem putsOn_worker (rank : Fin n) (c : Share.Call) (r : Share.Call.Reply c) :
    putsOn st (.worker rank) (.up rank) c r = puts c r := by
  cases c with
  | send fd m => exact if_pos rfl
  | _ => exact ite_self none

theorem takesFrom_worker (rank : Fin n) (c : Share.Call) (r : Share.Call.Reply c) :
    takesFrom st (.worker rank) (.down rank) c r = takes c r := by
  cases c with
  | receive fd expects => exact if_pos rfl
  | _ => exact ite_self none

theorem said_worker (rank : Fin n) (t : List SHEvent) :
    said st (.worker rank) (.up rank) t = sentList t := by
  simp only [said, sentList, putsOn_worker]

theorem heard_worker (rank : Fin n) (t : List SHEvent) :
    heard st (.worker rank) (.down rank) t = receivedList t := by
  simp only [heard, receivedList, takesFrom_worker]

end Words

/-! ## The shared blocks -/

/-- The words of the block of every owner. -/
abbrev Blocks := ℕ → ℕ → UInt64

/-- What the processor writes to the blocks. -/
def wrote (blocks : Blocks) : Share.Call → Blocks
  | .store (.host owner) i value =>
      Function.update blocks owner (Function.update (blocks owner) i value)
  | .memset (.host owner) => Function.update blocks owner fun _ => 0
  | _ => blocks

/-- The call writes to the buffer, or has something written to it. -/
def Writes (buffer : Buffer) : Share.Call → Prop
  | .store b _ _ | .memset b => b = buffer
  | .check (.aclrtMemset b) _ => b = buffer
  | .check (.aclrtMemcpyAsync dst _ _) _ | .check (.halMemcpy dst _) _ => dst = buffer
  | .direct (.ioSubmit _ requests) =>
      ∃ request ∈ requests, request.buffer = buffer ∧ request.write = false
  | _ => False

theorem wrote_of_not_writes {blocks : Blocks} {c : Share.Call} {owner : ℕ}
    (h : ¬Writes (.host owner) c) : wrote blocks c owner = blocks owner := by
  unfold wrote
  split
  · exact Function.update_of_ne (fun howner => h (congrArg Buffer.host howner.symm)) _ _
  · exact Function.update_of_ne (fun howner => h (congrArg Buffer.host howner.symm)) _ _
  · rfl

theorem learn_of_not_writes {buffer : Buffer} {c : Share.Call} (h : ¬Writes buffer c)
    (k : Knowledge) : learn k c buffer = k buffer := by
  cases c with
  | store b i value => exact Function.update_of_ne (fun hb => h hb.symm) _ _
  | memset b => exact Function.update_of_ne (fun hb => h hb.symm) _ _
  | _ => rfl

/-- Only a call that writes to the buffer brings a transfer into it under way. -/
theorem into_next {f : Flight} {c : Share.Call} {r : Share.Call.Reply c} {buffer : Buffer}
    (h : (f.next c r).Into buffer) : f.Into buffer ∨ Writes buffer c := by
  obtain ⟨hcopies, hrequests⟩ := Flight.mem_next (f := f) (c := c) (r := r)
  rcases h with ⟨copy, hmem, hdst⟩ | ⟨request, hmem, hbuffer, hwrite⟩
  · rcases hcopies copy hmem with hmem | ⟨round, name, rfl⟩
    · exact .inl (.inl ⟨copy, hmem, hdst⟩)
    · exact .inr hdst
  · rcases hrequests request hmem with hmem | ⟨ctx, requests, rfl, hiocb⟩
    · exact .inl (.inr ⟨request, hmem, hbuffer, hwrite⟩)
    · exact .inr ⟨request.2, hiocb, hbuffer, hwrite⟩

/-- The owner gives the block back. -/
def freesBlock (owner : ℕ) : Share.Call → Bool
  | .cleanup (.halMemRelease owner' _) _ => owner' == owner
  | _ => false

/-- The owner has given its block back. -/
def Freed (owner : ℕ) (t : List SHEvent) : Prop := ∃ e ∈ t, freesBlock owner e.call = true

/-- The child has been killed. -/
def Killed (child : ℕ) (t : List SHEvent) : Prop := ∃ e ∈ t, e.call = .direct (.kill child)

instance (owner : ℕ) (t : List SHEvent) : Decidable (Freed owner t) := List.decidableBEx _ t

instance (child : ℕ) (t : List SHEvent) : Decidable (Killed child t) := List.decidableBEx _ t

/-! ## The network -/

/-- The processes, the words on the sockets, and the blocks. -/
abbrev StarState (n : ℕ) : Type :=
  Network.State (Member n) Process Share.Call Share.Call.Reply (Except String ℕ × Process) (Wire n)
    Message Blocks

/-- The owner is no longer there to keep its block. -/
def Gone {n : ℕ} (st : Started n) (s : StarState n) (owner : Fin n) : Prop :=
  Freed owner (s.trace (.worker owner)) ∨ Killed (st.child owner) (s.trace .coordinator)

/-- The block can have any content. -/
def Unsettled {n : ℕ} (st : Started n) (s : StarState n) (owner : Fin n) : Prop :=
  (∃ rank : Fin n, (flight (s.trace (.worker rank))).Into (.host owner)) ∨ Gone st s owner

instance {n : ℕ} (st : Started n) (s : StarState n) (owner : Fin n) : Decidable (Gone st s owner) :=
  inferInstanceAs (Decidable (_ ∨ _))

instance {n : ℕ} (st : Started n) (s : StarState n) (owner : Fin n) :
    Decidable (Unsettled st s owner) := inferInstanceAs (Decidable (_ ∨ _))

/-- Which replies are possible. -/
abbrev Admits (n : ℕ) : Type :=
  StarState n → Member n → (c : Share.Call) → Share.Call.Reply c → Bool

/-- The coordinator and its workers, with any content of the blocks. -/
def star (cfg : Config) (st : Started cfg.count) (blocks : Blocks) (admits : Admits cfg.count) :
    Net (Member cfg.count) Process Share.Call Share.Call.Reply (Except String ℕ × Process)
      (Wire cfg.count) Message Blocks (Fin cfg.count × (ℕ → UInt64)) where
  program
    | .coordinator => coordinator cfg st.process
    | .worker rank => worker cfg rank {}
  world := blocks
  comm := comm st
  effect s x c r := if admits s x c r = true then some (wrote s.world c) else none
  disturb s d :=
    if Unsettled st s d.1 then some (Function.update s.world d.1.val d.2) else none
  sender
    | .up rank => .worker rank
    | .down _ => .coordinator
  receiver
    | .up _ => .coordinator
    | .down rank => .worker rank
  sends_only := by
    intro x c r wire m h
    have hputs : putsOn st x wire c r ≠ none := by
      rw [← comm_sends, h]
      simp [Comm.sends]
    have hout : outgoing st x c = some wire := by
      by_contra hne
      exact hputs (if_neg hne)
    cases x with
    | coordinator =>
        cases c with
        | send fd m =>
            obtain ⟨rank, -, rfl⟩ := Option.map_eq_some_iff.mp hout
            rfl
        | _ => cases hout
    | worker rank =>
        cases c with
        | send fd m =>
            cases hout
            rfl
        | _ => cases hout
  receives_only := by
    intro x c r wire m h
    have htakes : takesFrom st x wire c r ≠ none := by
      rw [← comm_receives, h]
      simp [Comm.receives]
    have hin : incoming st x c = some wire := by
      by_contra hne
      exact htakes (if_neg hne)
    cases x with
    | coordinator =>
        cases c with
        | receive fd expects =>
            obtain ⟨rank, -, rfl⟩ := Option.map_eq_some_iff.mp hin
            rfl
        | _ => cases hin
    | worker rank =>
        cases c with
        | receive fd expects =>
            cases hin
            rfl
        | _ => cases hin

/-! ## What a step does -/

section Reachable

variable {cfg : Config} {st : Started cfg.count} {blocks : Blocks} {admits : Admits cfg.count}
  {s s' : StarState cfg.count}

theorem sent_eq (x : Member cfg.count) (wire : Wire cfg.count) (t : List SHEvent) :
    (star cfg st blocks admits).sent x wire t = said st x wire t := by
  induction t using List.reverseRecOn with
  | nil => rfl
  | append_singleton t e ih =>
      rw [said_concat, ← ih, ← comm_sends]
      simp [Net.sent, star]

theorem received_eq (x : Member cfg.count) (wire : Wire cfg.count) (t : List SHEvent) :
    (star cfg st blocks admits).received x wire t = heard st x wire t := by
  induction t using List.reverseRecOn with
  | nil => rfl
  | append_singleton t e ih =>
      rw [heard_concat, ← ih, ← comm_receives]
      simp [Net.received, star]

/-- The words of a worker, in the order in which the coordinator receives them. -/
theorem up_eq (h : Reachable (star cfg st blocks admits).system s) (rank : Fin cfg.count) :
    sentList (s.trace (.worker rank)) =
      heard st .coordinator (.up rank) (s.trace .coordinator) ++ s.queue (.up rank) := by
  have hfifo := fifo h (.up rank)
  rw [sent_eq, received_eq] at hfifo
  rw [← said_worker st rank]
  exact hfifo

/-- The words for a worker, in the order in which it receives them. -/
theorem down_eq (h : Reachable (star cfg st blocks admits).system s) (rank : Fin cfg.count) :
    said st .coordinator (.down rank) (s.trace .coordinator) =
      receivedList (s.trace (.worker rank)) ++ s.queue (.down rank) := by
  have hfifo := fifo h (.down rank)
  rw [sent_eq, received_eq] at hfifo
  rw [← heard_worker st rank]
  exact hfifo

/-- What a call finds and leaves. -/
structure Calls (st : Started cfg.count) (admits : Admits cfg.count) (s : StarState cfg.count)
    (x : Member cfg.count) (e : SHEvent) (s' : StarState cfg.count) : Prop where
  self : s'.trace x = s.trace x ++ [e]
  others : ∀ y, y ≠ x → s'.trace y = s.trace y
  admitted : admits s x e.call e.reply = true
  world : s'.world = wrote s.world e.call
  pass : (comm st x e.call e.reply).pass s.queue = some s'.queue

theorem calls {x : Member cfg.count} {e : SHEvent}
    (h : Called (star cfg st blocks admits) s x e s') : Calls st admits s x e s' := by
  obtain ⟨hadmits, hworld⟩ := Option.ite_none_right_eq_some.mp h.world
  refine ⟨?_, fun y hy => ?_, hadmits, (Option.some.inj hworld).symm, h.queue⟩
  · rw [h.trace, Function.update_self]
  · rw [h.trace, Function.update_of_ne hy]

/-- A disturbance leaves all but one block as it was. -/
theorem disturbs {d : Fin cfg.count × (ℕ → UInt64)}
    (h : Disturbed (star cfg st blocks admits) s d s') :
    Unsettled st s d.1 ∧ ∀ owner, owner ≠ d.1.val → s'.world owner = s.world owner := by
  obtain ⟨hunsettled, hworld⟩ := Option.ite_none_right_eq_some.mp h.world
  refine ⟨hunsettled, fun owner howner => ?_⟩
  rw [← Option.some.inj hworld]
  exact Function.update_of_ne howner _ _

end Reachable

end SharingProbe.MultiShare
