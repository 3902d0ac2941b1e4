import SharingProbe.MultiShare.Star
import SharingProbe.Share.Rules

/-!
# Where a worker is

A worker sends its token and then the words of the barriers, and receives all tokens and then one
word for each barrier.  How many it has sent and received says where in its `try` block it is:
after barrier `p` it has sent `p + 1` words and received `count + p`.

What it does between the barriers depends on that place.  If one of its calls fails it sends and
receives nothing more, and leaves the blocks alone.
-/

namespace SharingProbe.MultiShare

open Interaction Network Share

section Worker

variable (cfg : Config) (rank : ℕ)

/-! ## What a worker keeps to -/

/-- So many words have been sent and received when the next one is sent. -/
def AtSend (sent received : ℕ) : Prop :=
  sent = 0 ∧ received = 0 ∨
    1 ≤ sent ∧ sent ≤ cfg.barriers ∧ received + 1 = cfg.count + sent

/-- So many words have been sent and received when the next one is received. -/
def AtReceive (sent received : ℕ) : Prop :=
  sent = 1 ∧ received < cfg.count ∨
    2 ≤ sent ∧ sent ≤ cfg.barriers + 1 ∧ received + 2 = cfg.count + sent

/-- The copies from a block that may be under way, with the owner and the round. -/
def readsNext (under : List (ℕ × ℕ)) : (c : Share.Call) → Share.Call.Reply c → List (ℕ × ℕ)
  | .check (.aclrtMemcpyAsync _ (.host owner) round) _, _ => under ++ [(owner, round)]
  | .check .aclrtSynchronizeStream _, r => if r.ret = 0 then [] else under
  | .cleanup .aclrtSynchronizeStream _, r => if r.ret = 0 then [] else under
  | _, _ => under

/-- Those after a trace. -/
def reading (t : List SHEvent) : List (ℕ × ℕ) :=
  t.foldl (fun under e => readsNext under e.call e.reply) []

theorem reading_concat (t : List SHEvent) (e : SHEvent) :
    reading (t ++ [e]) = readsNext (reading t) e.call e.reply := by
  simp [reading]

/-- The call succeeds, gives what the worker asks for, or finds what it verifies.  A descriptor
that is opened is not that of the socket. -/
def passes : (c : Share.Call) → Share.Call.Reply c → Bool
  | .check op _, r => r.ret == 0 &&
      match op with
      | .halMemAddressReserve _ => r.out != 0 && r.out % vaAlignment == 0
      | .aclrtGetCurrentContext => r.out != 0
      | .aclrtGetDevice | .drvMemGetAttribute => r.out == cfg.devices rank
      | .queryProperties _ => r.more == cfg.hostNumaSide && r.out == cfg.nodes rank
      | _ => true
  | .cleanup _ _, r => r.ret == 0
  | .direct op, r =>
      match op with
      | .openFile _ => decide (0 < r.ret)
      | .unlink => r.ret == 0
      | .ioSubmit _ _ => r.ret == 4
      | .ioGetevents _ => r.ret == 4 && !completionFailed (cfg.bytes / 4) r.events
      | .waitpid _ => decide (0 ≤ r.ret) && r.out == 0
      | _ => true
  | .compare _ _ expected _, actual => actual == expected
  | .send _ _, sent => sent
  | .receive _ expects, received =>
      received.any fun m => m.meant == expects && (expects != .barrier || m.word == 0)
  | _, _ => true

/-- All calls have. -/
def Worked (t : List SHEvent) : Prop := ∀ e ∈ t, passes cfg rank e.call e.reply = true

instance (t : List SHEvent) : Decidable (Worked cfg rank t) := List.decidableBAll _ t

/-- A check has succeeded, with this answer. -/
def Did (op : Share.Op) (r : Answer) (t : List SHEvent) : Prop :=
  r.ret = 0 ∧ ∃ p name, (⟨p, .check op name, r⟩ : SHEvent) ∈ t

/-- A word was exported as a token. -/
def Exported (word : UInt64) (t : List SHEvent) : Prop :=
  ∃ handle r, Did (.halMemExportToShareableHandle handle) r t ∧ word = UInt64.ofNat r.out

/-- The handle was imported for this owner. -/
def Imported (owner : ℕ) (handle : Ptr) (t : List SHEvent) : Prop :=
  ∃ token r, Did (.halMemImportFromShareableHandle owner token) r t ∧ handle = r.out

/-- The slice was unmapped. -/
def HasUnmapped (owner : ℕ) (t : List SHEvent) : Prop := ∃ r, Did (.halMemUnmap owner) r t

/-- A word is sent: the token first, and then those of the barriers.  At the last barrier all
slices have been unmapped. -/
structure Sends (t : List SHEvent) (m : Message) : Prop where
  place : AtSend cfg (sentWords t) (receivedWords t)
  still : reading t = []
  token : sentWords t = 0 → m.meant = .token ∧ Exported m.word t
  barrier : sentWords t ≠ 0 → m = ⟨.barrier, 0⟩
  settled : ¬(flight t).Into (.host rank)
  filled : ∀ round < cfg.rounds, sentWords t = 2 * round + 3 → ∀ i < cfg.bytes / 8,
    known t (.host rank) i = some (pattern i (cfg.seed round rank))
  unmapped : sentWords t = cfg.barriers → ∀ i < cfg.count, HasUnmapped i t

/-- A word is received: the tokens first, and then those of the barriers. -/
structure Receives (t : List SHEvent) (expects : Purpose) : Prop where
  place : AtReceive cfg (sentWords t) (receivedWords t)
  still : reading t = []
  token : receivedWords t < cfg.count → expects = .token
  barrier : cfg.count ≤ receivedWords t → expects = .barrier

/-- A block is written only by its owner, and not while the others read it. -/
def MayWrite (t : List SHEvent) (b : Buffer) : Prop :=
  ∀ owner, b = .host owner → owner = rank ∧ ∀ round < cfg.rounds,
    2 * round + 4 ≤ sentWords t → cfg.count + 2 * round + 4 ≤ receivedWords t

/-- A block is read between the two barriers of a round. -/
def MayCopy (t : List SHEvent) (b : Buffer) (round : ℕ) : Prop :=
  ∀ owner, b = .host owner → owner < cfg.count ∧ round < cfg.rounds ∧
    sentWords t = 2 * round + 4 ∧ receivedWords t = cfg.count + 2 * round + 3

/-- What the calls of a worker keep to. -/
def InPlace (t : List SHEvent) (_p : Process) : Share.Call → Prop
  | .send _ m => Sends cfg rank t m
  | .receive _ expects => Receives cfg t expects
  | .store b _ _ | .memset b => MayWrite cfg rank t b
  | .check op _ =>
      match op with
      | .aclrtMemset b => MayWrite cfg rank t b
      | .aclrtMemcpyAsync dst src round => MayWrite cfg rank t dst ∧ MayCopy cfg t src round
      | .halMemcpy dst _ => MayWrite cfg rank t dst
      | .halMemImportFromShareableHandle owner token => owner < cfg.count ∧ owner ≠ rank ∧
          ∃ m : Message, (receivedList t)[owner]? = some m ∧ m.word = token
      | .halMemMap owner handle => owner ≠ rank → Imported owner handle t
      | _ => True
  | .cleanup op _ =>
      match op with
      | .halMemRelease owner _ => owner = rank → ¬BodyThrew cfg rank t →
          receivedWords t = cfg.count + cfg.barriers
      | _ => True
  | .direct op =>
      match op with
      | .ioSubmit _ requests =>
          ∀ request ∈ requests, request.write = false → MayWrite cfg rank t request.buffer
      | .close fd => fd = 0 → Worked cfg rank t →
          sentWords t = cfg.barriers + 1 ∧ receivedWords t = cfg.count + cfg.barriers
      | _ => True
  | _ => True

/-! ## Calls without a place -/

/-- Calls that any worker may make at any time. -/
def plain : Share.Call → Bool
  | .send _ _ | .receive _ _ => false
  | .store b _ _ | .memset b =>
      match b with
      | .host _ => false
      | _ => true
  | .check op _ =>
      match op with
      | .aclrtMemset b =>
          match b with
          | .host _ => false
          | _ => true
      | .aclrtMemcpyAsync _ _ _ | .halMemcpy _ _ | .halMemImportFromShareableHandle _ _
      | .halMemMap _ _ => false
      | _ => true
  | .cleanup op _ =>
      match op with
      | .halMemRelease _ _ => false
      | _ => true
  | .direct op =>
      match op with
      | .ioSubmit _ _ | .close _ => false
      | _ => true
  | _ => true

/-- Those that have nothing to do with what is in flight. -/
def aside (c : Share.Call) : Bool := plain c &&
  match c with
  | .check op _ | .cleanup op _ | .direct op =>
      match op with
      | .aclrtRecordEvent | .aclrtSynchronizeEvent | .aclrtSynchronizeStream | .ioGetevents _
      | .ioDestroy _ => false
      | _ => true
  | _ => true

variable {cfg rank} {t : List SHEvent} {p : Process}

theorem mayWrite_of_ne {b : Buffer} (hb : ∀ owner, b ≠ .host owner) : MayWrite cfg rank t b :=
  fun owner h => absurd h (hb owner)

theorem inPlace_of_plain {c : Share.Call} (hc : plain c = true) : InPlace cfg rank t p c := by
  cases c with
  | send => cases hc
  | receive => cases hc
  | store b i value =>
      cases b with
      | host owner => cases hc
      | _ => exact mayWrite_of_ne (by simp)
  | memset b =>
      cases b with
      | host owner => cases hc
      | _ => exact mayWrite_of_ne (by simp)
  | check op name =>
      cases op with
      | aclrtMemset b =>
          cases b with
          | host owner => cases hc
          | _ => exact mayWrite_of_ne (by simp)
      | aclrtMemcpyAsync => cases hc
      | halMemcpy => cases hc
      | halMemImportFromShareableHandle => cases hc
      | halMemMap => cases hc
      | _ => trivial
  | cleanup op name =>
      cases op with
      | halMemRelease => cases hc
      | _ => trivial
  | direct op =>
      cases op with
      | ioSubmit => cases hc
      | close => cases hc
      | _ => trivial
  | _ => trivial

theorem plain_words {c : Share.Call} (hc : plain c = true) (r : Share.Call.Reply c) :
    puts c r = none ∧ takes c r = none := by
  cases c with
  | send => cases hc
  | receive => cases hc
  | _ => exact ⟨rfl, rfl⟩

theorem not_writes_of_plain {c : Share.Call} (hc : plain c = true) (owner : ℕ) :
    ¬Writes (.host owner) c := by
  cases c with
  | store b i value =>
      rintro rfl
      cases hc
  | memset b =>
      rintro rfl
      cases hc
  | check op name =>
      cases op with
      | aclrtMemset b =>
          rintro rfl
          cases hc
      | aclrtMemcpyAsync => cases hc
      | halMemcpy => cases hc
      | _ => exact id
  | direct op =>
      cases op with
      | ioSubmit => cases hc
      | _ => exact id
  | _ => exact id

theorem plain_of_aside {c : Share.Call} (hc : aside c = true) : plain c = true :=
  (Bool.and_eq_true_iff.mp hc).1

/-- Such a call leaves what is in flight as it is. -/
theorem aside_flight {c : Share.Call} (hc : aside c = true) (r : Share.Call.Reply c) (f : Flight)
    (under : List (ℕ × ℕ)) : f.next c r = f ∧ readsNext under c r = under := by
  cases c with
  | check op name => cases op <;> first | exact ⟨rfl, rfl⟩ | cases hc
  | cleanup op name => cases op <;> first | exact ⟨rfl, rfl⟩ | cases hc
  | direct op => cases op <;> first | exact ⟨rfl, rfl⟩ | cases hc
  | _ => exact ⟨rfl, rfl⟩

/-- A call that writes to a block is allowed to. -/
theorem InPlace.mayWrite {c : Share.Call} (h : InPlace cfg rank t p c) {owner : ℕ}
    (hwrites : Writes (.host owner) c) : owner = rank ∧ ∀ round < cfg.rounds,
      2 * round + 4 ≤ sentWords t → cfg.count + 2 * round + 4 ≤ receivedWords t := by
  cases c with
  | store b i value => exact h owner hwrites
  | memset b => exact h owner hwrites
  | check op name =>
      cases op with
      | aclrtMemset b => exact h owner hwrites
      | aclrtMemcpyAsync dst src round => exact h.1 owner hwrites
      | halMemcpy dst src => exact h owner hwrites
      | _ => exact hwrites.elim
  | direct op =>
      cases op with
      | ioSubmit ctx requests =>
          obtain ⟨request, hmem, hbuffer, hwrite⟩ := hwrites
          exact h request hmem hwrite owner hbuffer
      | _ => exact hwrites.elim
  | _ => exact hwrites.elim

/-- Only a copy from a block puts one under way. -/
theorem mem_readsNext {under : List (ℕ × ℕ)} {c : Share.Call} {r : Share.Call.Reply c}
    {copy : ℕ × ℕ} (h : copy ∈ readsNext under c r) :
    copy ∈ under ∨ ∃ dst name, c = .check (.aclrtMemcpyAsync dst (.host copy.1) copy.2) name := by
  unfold readsNext at h
  split at h
  · rename_i dst owner round name r
    rcases List.mem_append.mp h with h | h
    · exact .inl h
    · rw [List.mem_singleton.mp h]
      exact .inr ⟨dst, name, rfl⟩
  · split at h
    · cases h
    · exact .inl h
  · split at h
    · cases h
    · exact .inl h
  · exact .inl h

theorem worked_concat (t : List SHEvent) (e : SHEvent) :
    Worked cfg rank (t ++ [e]) ↔ Worked cfg rank t ∧ passes cfg rank e.call e.reply = true := by
  simp [Worked, or_imp, forall_and]

/-! ## The place of a worker -/

variable (cfg rank) (k j : ℕ) (H H' : (ℕ → Option UInt64) → Prop) (K K' : Process → Prop)
  (D D' : List SHEvent → Prop)

/-- So many words have been sent and received, and nothing is in flight.  `H` says what the worker
has written to its block, `K` what the variables are, and `D` what has happened. -/
structure Stage (p : Process) (t : List SHEvent) : Prop where
  sent : sentWords t = k
  received : receivedWords t = j
  idle : (flight t).Idle
  still : reading t = []
  block : H (known t (.host rank))
  state : K p
  log : ∀ u, D (t ++ u)

/-- Some call has failed. -/
def Fails (_p : Process) (t : List SHEvent) : Prop := ¬Worked cfg rank t

/-- Nothing is said of the block. -/
def anyBlock (_known : ℕ → Option UInt64) : Prop := True

/-- Nothing is said of the variables. -/
def anyState (_p : Process) : Prop := True

/-- Nothing is said of what has happened. -/
def anyLog (_t : List SHEvent) : Prop := True

variable {cfg rank k j H H' K K' D D'} {p' : Process} {e : SHEvent}

theorem Stage.mono (h : Stage rank k j H K D p t) (hH : ∀ l, H l → H' l) (hK : ∀ p, K p → K' p)
    (hD : ∀ t, D t → D' t) : Stage rank k j H' K' D' p t :=
  ⟨h.sent, h.received, h.idle, h.still, hH _ h.block, hK _ h.state, fun u => hD _ (h.log u)⟩

theorem Stage.did (h : Stage rank k j H K D p t) : D t := by
  have hlog := h.log []
  rwa [List.append_nil] at hlog

/-- A call that neither sends nor receives. -/
theorem Stage.next (h : Stage rank k j H K D p t)
    (hwords : puts e.call e.reply = none ∧ takes e.call e.reply = none)
    (hidle : ((flight t).next e.call e.reply).Idle) (hstill : readsNext [] e.call e.reply = [])
    (hblock : H' (learn (known t) e.call (.host rank))) (hstate : K' p') :
    Stage rank k j H' K' D p' (t ++ [e]) := by
  obtain ⟨hsent, hreceived⟩ := Pair.words_quiet (t := t) hwords.1 hwords.2
  have hidle' : (flight (t ++ [e])).Idle := by rwa [flight_concat]
  refine ⟨hsent.trans h.sent, hreceived.trans h.received, hidle', ?_, ?_, hstate, fun u => ?_⟩
  · rw [reading_concat, h.still, hstill]
  · rw [known_concat, if_neg (not_or.mpr ⟨h.idle.not_into _, hidle'.not_into _⟩)]
    exact hblock
  · rw [List.append_assoc]
    exact h.log _

theorem Stage.aside (h : Stage rank k j H K D p t) (hc : aside e.call = true) (hstate : K' p') :
    Stage rank k j H K' D p' (t ++ [e]) := by
  have hplain := plain_of_aside hc
  refine h.next (plain_words hplain _) ?_ (aside_flight hc _ {} []).2 ?_ hstate
  · rw [(aside_flight hc _ _ []).1]
    exact h.idle
  · rw [learn_of_not_writes (not_writes_of_plain hplain _)]
    exact h.block

/-- What the call itself says is noted. -/
theorem Stage.note (h : Stage rank k j H K D p (t ++ [e])) (hD : ∀ u, e ∈ u → D' u) :
    Stage rank k j H K (fun t => D t ∧ D' t) p (t ++ [e]) :=
  ⟨h.sent, h.received, h.idle, h.still, h.block, h.state,
    fun u => ⟨h.log u, hD _ (by simp)⟩⟩

theorem Fails.concat (h : Fails cfg rank p t) : Fails cfg rank p' (t ++ [e]) :=
  fun hworked => h ((worked_concat _ _).mp hworked).1

theorem fails_of_not_passes (he : passes cfg rank e.call e.reply = false) :
    Fails cfg rank p (t ++ [e]) := by
  intro hworked
  have hpasses := ((worked_concat _ _).mp hworked).2
  rw [he] at hpasses
  cases hpasses

end Worker

end SharingProbe.MultiShare
