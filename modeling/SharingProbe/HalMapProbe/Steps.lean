import SharingProbe.DeviceShare.Copies
import SharingProbe.HalMapProbe.Model
import SharingProbe.Library.Ledger

/-!
# One call of `hal_map_probe`

Any call may fail at any time.  As long as none has, a process has sent and received so many words,
holds what its variables say, and sees what the buffer holds.
-/

namespace SharingProbe.HalMapProbe

open Interaction Network Transition Evolution Share
open DeviceShare (uneventful Uneventful uneventful_spec)

/-! ## Calls that fail -/

/-- The call makes the `try` block throw. -/
def throws : (c : Share.Call) → Share.Call.Reply c → Bool
  | .check _ _, r => r.ret != 0
  | .compare _ _ expected _, actual => actual != expected
  | .send _ _, sent => !sent
  | .receive _ expects, received =>
      received.all fun m => expects != .token && m.word.toUInt32 != 0
  | _, _ => false

/-- The call makes the process fail. -/
def fails : (c : Share.Call) → Share.Call.Reply c → Bool
  | .cleanup _ _, r => r.ret != 0
  | c, r => throws c r

/-- The call is refused by the runtime or the driver. -/
def refused : (c : Share.Call) → Share.Call.Reply c → Bool
  | .check _ _, r => r.ret != 0
  | _, _ => false

/-- The `try` block has thrown. -/
def Threw (t : List SHEvent) : Prop := ∃ e ∈ t, throws e.call e.reply = true

/-- Some call has failed. -/
def Failed (t : List SHEvent) : Prop := ∃ e ∈ t, fails e.call e.reply = true

/-- The runtime or the driver has refused a call of the `try` block. -/
def Refused (t : List SHEvent) : Prop := ∃ e ∈ t, refused e.call e.reply = true

section Concat

variable (t : List SHEvent) (e : SHEvent)

theorem threw_concat : Threw (t ++ [e]) ↔ Threw t ∨ throws e.call e.reply = true := by
  simp [Threw, or_and_right, exists_or]

theorem failed_concat : Failed (t ++ [e]) ↔ Failed t ∨ fails e.call e.reply = true := by
  simp [Failed, or_and_right, exists_or]

theorem refused_concat : Refused (t ++ [e]) ↔ Refused t ∨ refused e.call e.reply = true := by
  simp [Refused, or_and_right, exists_or]

theorem failed_of_threw {t : List SHEvent} (h : Threw t) : Failed t := by
  obtain ⟨⟨p, c, r⟩, he, hthrows⟩ := h
  refine ⟨_, he, ?_⟩
  cases c with
  | cleanup => cases hthrows
  | _ => exact hthrows

end Concat

/-! ## What a process holds -/

/-- What a process has to give back. -/
inductive Resource where
  | mapping
  | handle (handle : Ptr)
  | range (va : Ptr)
  | device
  deriving DecidableEq, Repr

/-- The order in which it is given back. -/
def Resource.stage : Resource → ℕ
  | mapping => 0
  | handle _ => 1
  | range _ => 2
  | device => 3

/-- Nothing, if there is nothing to point to. -/
def ofPtr (resource : Ptr → Resource) (ptr : Ptr) : Multiset Resource :=
  if ptr = 0 then 0 else {resource ptr}

/-- Something, if a flag is set. -/
def ofFlag (resource : Resource) (flag : Bool) : Multiset Resource :=
  if flag = true then {resource} else 0

/-- What a call acquires. -/
def acquires : (c : Share.Call) → Share.Call.Reply c → Multiset Resource
  | .check (.halDeviceOpen _) _, r => ofFlag .device (r.ret == 0)
  | .check (.halMemAddressReserve _) _, r => if r.ret = 0 then ofPtr .range r.out else 0
  | .check (.halMemCreate _ _) _, r => if r.ret = 0 then ofPtr .handle r.out else 0
  | .check (.halMemImportFromShareableHandle _ _) _, r =>
      if r.ret = 0 then ofPtr .handle r.out else 0
  | .check (.halMemMap _ _) _, r => ofFlag .mapping (r.ret == 0)
  | _, _ => 0

/-- What a call gives back.  A check that fails gives nothing back, and is made up for at the end.
There, the call counts whatever it returns. -/
def releases : (c : Share.Call) → Share.Call.Reply c → Multiset Resource
  | .check (.halMemUnmap _) _, r => ofFlag .mapping (r.ret == 0)
  | .check (.halMemRelease _ handle) _, r => if r.ret = 0 then ofPtr .handle handle else 0
  | .check (.halMemAddressFree va) _, r => if r.ret = 0 then ofPtr .range va else 0
  | .cleanup (.halMemUnmap _) _, _ => {.mapping}
  | .cleanup (.halMemRelease _ handle) _, _ => ofPtr .handle handle
  | .cleanup (.halMemAddressFree va) _, _ => ofPtr .range va
  | .cleanup (.halDeviceClose _) _, _ => {.device}
  | _, _ => 0

/-- The books of a process. -/
def accounts : Ledger.Accounts SHEvent Resource where
  acquires e := acquires e.call e.reply
  releases e := releases e.call e.reply

/-- The variables that say what is to be given back. -/
structure Holding where
  mapped : Bool
  handle : Ptr
  va : Ptr
  opened : Bool

/-- Those of a process. -/
def holding (p : Process) : Holding where
  mapped := p.mapped 0
  handle := p.handles 0
  va := p.va
  opened := p.deviceOpen

/-- What they say. -/
def Holding.resources (a : Holding) : Multiset Resource :=
  ofFlag .mapping a.mapped + ofPtr .handle a.handle + ofPtr .range a.va + ofFlag .device a.opened

/-- Nothing. -/
def nothing : Holding where
  mapped := false
  handle := 0
  va := 0
  opened := false

/-- Nothing but the device. -/
def deviceOnly : Holding := { nothing with opened := true }

section Books

/-- A call that keeps the books. -/
theorem held_quiet {t : List SHEvent} {e : SHEvent} (hacquires : acquires e.call e.reply = 0)
    (hreleases : releases e.call e.reply = 0) : accounts.held (t ++ [e]) = accounts.held t := by
  calc accounts.held (t ++ [e])
      = accounts.held t - releases e.call e.reply + acquires e.call e.reply :=
        Ledger.Accounts.held_concat _ _ _
    _ = accounts.held t := by rw [hacquires, hreleases, Multiset.sub_zero, add_zero]

variable {a : Holding} {op : Share.Op} {name : String} {r : Answer}

/-- A check that is refused changes nothing. -/
theorem books_of_refused (hret : r.ret ≠ 0) :
    acquires (.check op name) r = 0 ∧ releases (.check op name) r = 0 := by
  cases op <;> simp [acquires, releases, ofFlag, hret]

/-- A call may give back what it does: it is held, and nothing that comes before it. -/
def MayRelease (h : Multiset Resource) (c : Share.Call) : Prop :=
  ∀ r, releases c r ≤ h ∧ ∀ x ∈ releases c r, ∀ y ∈ h, x.stage ≤ y.stage

theorem mayRelease_of_none {h : Multiset Resource} {c : Share.Call} (hc : ∀ r, releases c r = 0) :
    MayRelease h c := by
  intro r
  rw [hc]
  exact ⟨Multiset.zero_le _, fun x hx => absurd hx (Multiset.notMem_zero x)⟩

end Books

/-! ## The two processes -/

/-- The words of the buffer are those of the pattern. -/
def Filled (bytes : ℕ) (seed : UInt64) (content : ℕ → UInt64) : Prop :=
  ∀ i < bytes / 8, content i = pattern seed i

/-- What the words of a process are meant as. -/
def meaning : Party → ℕ → Purpose
  | .first, 0 => .token
  | .second, 0 => .handOver 202
  | _, _ => .done

/-- What the words say: the creator hands the buffer over with its pattern, and in host mode the
importer does so as well.  Every word but the token is 0. -/
def claims (cfg : Config) (x : Party) (n : ℕ) (m : Message) (content : ℕ → UInt64) : Prop :=
  m.meant = meaning x n ∧ (meaning x n ≠ .token → m.word = 0) ∧
    (x = .first → n = 0 → Filled cfg.bytes 101 content) ∧
    (x = .second → n = 0 → cfg.hostMode = true → Filled cfg.bytes 202 content)

/-- The two processes, with any content of their buffers.  Any call may fail. -/
def probe (cfg : Config) (world : World) : Pair where
  program x := worker cfg (x == .second)
  claims := claims cfg
  world := world
  moves := fun _ => true
  works := fun _ _ => true

section Process

variable (cfg : Config) (world : World) (x : Party)

/-- What a call of a process has to keep to. -/
structure Orderly (t : List SHEvent) (p : Process) (c : Share.Call) : Prop where
  inTurn : Pair.InTurn x 2 t p c
  truthful : (probe cfg world).Truthful x t p c
  completes : c = .direct (.close 0) → ∀ v, (probe cfg world).SeesAlong x t v →
    ¬Refused t → ¬Lost t → sentWords t = 2 ∧ receivedWords t = 2
  mayRelease : MayRelease (accounts.held t) c
  leaves : x = .second → sentWords t = 1 → ∀ fd m, c = .send fd m →
    accounts.held t = deviceOnly.resources
  settled : x = .second → sentWords t = 2 → ∀ r, acquires c r = 0
  cleans : ∀ op name, c = .cleanup op name → ¬Threw t → sentWords t = 2 ∧ receivedWords t = 2
  finds : ∀ b i expected phase, c = .compare b i expected phase → b = mapping ∧
    ∀ v, (probe cfg world).SeesAlong x t v → v.flight = {} ∧ v.words mapping i = expected
  expects : ∀ fd expects, c = .receive fd expects → expects = meaning x.other (receivedWords t)

variable (k j : ℕ) (K L : (ℕ → UInt64) → Prop) (a b : Holding)

/-- Nothing has failed: so many words have been sent and received, the process holds what `a` says,
and `K` says what the buffer holds. -/
structure Stands (p : Process) (t : List SHEvent) : Prop where
  sent : sentWords t = k
  received : receivedWords t = j
  flight : flight t = {}
  passed : ¬Failed t
  result : p.result = 0
  state : holding p = a
  held : accounts.held t = a.resources
  seen : ∀ v, (probe cfg world).SeesAlong x t v → K (v.words mapping)

/-- The `try` block has thrown: a call has been refused, or the peer is gone. -/
structure Fails (p : Process) (t : List SHEvent) : Prop where
  threw : Threw t
  cause : ∀ v, (probe cfg world).SeesAlong x t v → Refused t ∨ Lost t
  held : accounts.held t = (holding p).resources

variable {cfg world x k j K L a b} {p p' : Process} {t : List SHEvent} {e : SHEvent}

theorem Stands.kept (h : Stands cfg world x k j K a p t) : ¬Threw t :=
  fun hthrew => h.passed (failed_of_threw hthrew)

theorem Stands.mono (h : Stands cfg world x k j K a p t) (hK : ∀ w, K w → L w) :
    Stands cfg world x k j L a p t :=
  ⟨h.sent, h.received, h.flight, h.passed, h.result, h.state, h.held, fun v hv =>
    hK _ (h.seen v hv)⟩

theorem not_failed_concat (h : ¬Failed t) (he : fails e.call e.reply = false) :
    ¬Failed (t ++ [e]) := by
  rw [failed_concat, he]
  exact not_or.mpr ⟨h, Bool.false_ne_true⟩

/-- What is seen after a call, where nothing is in flight. -/
theorem Stands.seen_next (h : Stands cfg world x k j K a p t)
    (hnext : ({} : Flight).next e.call e.reply = {}) {v' : Pair.Sight}
    (hv' : (probe cfg world).SeesAlong x (t ++ [e]) v') :
    ∃ v, (probe cfg world).SeesAlong x t v ∧ (probe cfg world).Sees x v e v' ∧ v.flight = {} ∧
      (takes e.call e.reply = none →
        v'.words mapping = written (fun _ => true) v.words e.call mapping) := by
  obtain ⟨v, hv, hsees⟩ := along_concat.mp hv'
  have hidle : v.flight = {} := by rw [Pair.SeesAlong.flight_eq _ hv, h.flight]
  have hidle' : v'.flight = {} := by rw [hsees.flight, hidle, hnext]
  have hnot : ∀ b, ¬({} : Flight).Into b := Flight.Idle.not_into ⟨rfl, rfl⟩
  refine ⟨v, hv, hsees, hidle, fun htakes => ?_⟩
  apply hsees.kept mapping
  · rw [hidle]
    exact hnot mapping
  · rw [hidle']
    exact hnot mapping
  · intro b _
    rw [hidle]
    exact hnot b
  · exact fun _ => htakes

/-- A call that neither sends nor receives, and does not fail. -/
theorem Stands.next (h : Stands cfg world x k j K a p t)
    (hnext : ({} : Flight).next e.call e.reply = {}) (hputs : puts e.call e.reply = none)
    (htakes : takes e.call e.reply = none) (hfails : fails e.call e.reply = false)
    (hresult : p'.result = p.result) (hstate : holding p' = b)
    (hbooks : a.resources - releases e.call e.reply + acquires e.call e.reply = b.resources)
    (hK : ∀ v : Pair.Sight, K (v.words mapping) → v.flight = {} →
      (probe cfg world).Credible v e.call e.reply →
      L (written (fun _ => true) v.words e.call mapping)) :
    Stands cfg world x k j L b p' (t ++ [e]) := by
  have hwords := Pair.words_quiet (t := t) hputs htakes
  refine ⟨hwords.1.trans h.sent, hwords.2.trans h.received, ?_, not_failed_concat h.passed hfails,
    hresult.trans h.result, hstate, ?_, ?_⟩
  · rw [flight_concat, h.flight, hnext]
  · rw [Ledger.Accounts.held_concat, h.held]
    exact hbooks
  · intro v' hv'
    obtain ⟨v, hv, hsees, hidle, hwritten⟩ := h.seen_next hnext hv'
    rw [hwritten htakes]
    exact hK v (h.seen v hv) hidle hsees.credible

/-- A call that has nothing to do with the buffers and the peer is in order if it gives back what it
may. -/
theorem orderly_of_uneventful {c : Share.Call} (hc : uneventful c = true)
    (hmay : MayRelease (accounts.held t) c)
    (hsettled : x = .second → sentWords t = 2 → ∀ r, acquires c r = 0)
    (hcleans : ∀ op name, c = .cleanup op name → ¬Threw t → sentWords t = 2 ∧ receivedWords t = 2) :
    Orderly cfg world x t p c := by
  have hspec := uneventful_spec hc
  have hsend : ∀ fd m, c ≠ .send fd m := by
    rintro fd m rfl
    cases hc
  have hreceive : ∀ fd expects, c ≠ .receive fd expects := by
    rintro fd expects rfl
    cases hc
  refine ⟨⟨fun h => absurd h (hspec.touches _), fun fd m h => absurd h (hsend fd m),
    fun fd expects h => absurd h (hreceive fd expects)⟩, fun fd m h => absurd h (hsend fd m),
    fun h => absurd h hspec.close, hmay, fun _ _ fd m h => absurd h (hsend fd m), hsettled, hcleans,
    ?_, fun fd expects h => absurd h (hreceive fd expects)⟩
  rintro b i expected phase rfl
  cases hc

/-! ### Rules -/

variable {E : Process → List SHEvent → Prop}

/-- The process goes wrong. -/
theorem Stands.refuses (h : Stands cfg world x k j K a p t) {op : Share.Op} {name : String}
    {r : Answer} (hret : r.ret ≠ 0) :
    Fails cfg world x p (t ++ [⟨p, .check op name, r⟩]) := by
  have hrefused : refused (.check op name) r = true := by simpa [refused] using hret
  refine ⟨(threw_concat _ _).mpr (.inr (by simpa [throws] using hret)),
    fun v _ => .inl ((refused_concat _ _).mpr (.inr hrefused)), ?_⟩
  obtain ⟨hacquires, hreleases⟩ := @books_of_refused op name r hret
  rw [held_quiet hacquires hreleases, h.held, h.state]

theorem Stands.loses (h : Stands cfg world x k j K a p t) (hlost : lost e.call e.reply = true)
    (hthrows : throws e.call e.reply = true)
    (hacquires : acquires e.call e.reply = 0) (hreleases : releases e.call e.reply = 0) :
    Fails cfg world x p (t ++ [e]) := by
  refine ⟨(threw_concat _ _).mpr (.inr hthrows),
    fun v _ => .inr ((lost_concat _ _).mpr (.inr hlost)), ?_⟩
  rw [held_quiet hacquires hreleases, h.held, h.state]

/-- A check, and what is left in a variable. -/
theorem triple_books {op : Share.Op} {name : String} {f : Answer → Process → Process}
    {g : Answer → Holding} (hc : uneventful (.check op name) = true) (hk : k < 2)
    (hmay : MayRelease a.resources (.check op name))
    (hbooks : ∀ r : Answer, r.ret = 0 →
      a.resources - releases (.check op name) r + acquires (.check op name) r = (g r).resources)
    (hf : ∀ p r, holding p = a → holding (f r p) = g r ∧ (f r p).result = p.result) :
    Proc.Triple (Orderly cfg world x) (Stands cfg world x k j K a)
      (check op name >>= fun r => Proc.modify (f r))
      (fun _ p t => ∃ r, Stands cfg world x k j K (g r) p t) (Fails cfg world x) := by
  apply triple_check_set
  · intro p t h
    refine orderly_of_uneventful hc (h.held ▸ hmay) (fun _ hsent => ?_) nofun
    have hsent' := h.sent
    omega
  · intro p t r h hret
    obtain ⟨hstate, hresult⟩ := hf p r h.state
    have hspec := uneventful_spec hc
    refine ⟨r, h.next (hspec.next _ _) (hspec.puts _) (hspec.takes _) ?_ hresult hstate
      (hbooks r hret) fun v hv _ _ => ?_⟩
    · simp [fails, throws, hret]
    · rwa [hspec.written]
  · exact fun p t r h hret => h.refuses hret

/-- A check that keeps the books. -/
theorem triple_plain {op : Share.Op} {name : String} (hc : uneventful (.check op name) = true)
    (hacquires : ∀ r, acquires (.check op name) r = 0)
    (hreleases : ∀ r, releases (.check op name) r = 0) :
    Proc.Triple (Orderly cfg world x) (Stands cfg world x k j K a) (check op name)
      (fun _ => Stands cfg world x k j K a) (Fails cfg world x) := by
  apply triple_check
  · intro p t h
    exact orderly_of_uneventful hc (mayRelease_of_none hreleases) (fun _ _ => hacquires) nofun
  · intro p t r h hret
    have hspec := uneventful_spec hc
    refine h.next (hspec.next _ _) (hspec.puts _)
      (hspec.takes _) ?_ rfl h.state ?_ fun v hv _ _ => ?_
    · simp [fails, throws, hret]
    · dsimp only
      rw [hacquires, hreleases, Multiset.sub_zero, add_zero]
    · rwa [hspec.written]
  · exact fun p t r h hret => h.refuses hret

/-- A call that has to do with the buffer, of a process that has the turn. -/
theorem Stands.orderly (h : Stands cfg world x k j K a p t) (hturn : x.HasTurn k j) {c : Share.Call}
    (hsend : ∀ fd m, c ≠ .send fd m) (hreceive : ∀ fd expects, c ≠ .receive fd expects)
    (hdirect : ∀ op, c ≠ .direct op) (hcleanup : ∀ op name, c ≠ .cleanup op name)
    (hbooks : ∀ r, acquires c r = 0 ∧ releases c r = 0)
    (hfinds : ∀ b i expected phase, c = .compare b i expected phase →
      b = mapping ∧ ∀ w, K w → w i = expected) :
    Orderly cfg world x t p c := by
  refine ⟨⟨fun _ => ?_, fun fd m hc => absurd hc (hsend fd m),
    fun fd expects hc => absurd hc (hreceive fd expects)⟩, fun fd m hc => absurd hc (hsend fd m),
    fun hc => absurd hc (hdirect _), mayRelease_of_none fun r => (hbooks r).2,
    fun _ _ fd m hc => absurd hc (hsend fd m), fun _ _ r => (hbooks r).1,
    fun op name hc => absurd hc (hcleanup op name), ?_,
    fun fd expects hc => absurd hc (hreceive fd expects)⟩
  · rw [h.sent, h.received]
    exact hturn
  · intro b i expected phase hc
    obtain ⟨hb, hholds⟩ := hfinds b i expected phase hc
    refine ⟨hb, fun v hv => ⟨?_, hholds _ (h.seen v hv)⟩⟩
    rw [Pair.SeesAlong.flight_eq _ hv, h.flight]

/-- `write_pattern`. -/
theorem triple_writes {seed : UInt64} (hturn : x.HasTurn k j) :
    Proc.Triple (Orderly cfg world x) (Stands cfg world x k j K a) (writePattern cfg.bytes seed)
      (fun _ => Stands cfg world x k j (Filled cfg.bytes seed) a) E := by
  unfold writePattern
  refine Proc.Triple.weaken (Proc.triple_forM_range (I := fun n => Stands cfg world x k j
    (fun w => ∀ i < n, w i = pattern seed i) a) ?_) ?_ (fun _ _ _ h => h) fun _ _ h => h
  · intro n hn
    apply Proc.triple_ask
    · exact fun p t h => h.orderly hturn nofun nofun nofun nofun (fun _ => ⟨rfl, rfl⟩) nofun
    · intro p t r h
      refine h.next rfl rfl rfl rfl rfl h.state (by simp [acquires, releases])
        fun v hfirst _ _ => ?_
      intro i hi
      by_cases hin : i = n
      · subst hin
        simp [written, stored]
      · have hold := hfirst i (by omega)
        simpa [written, stored, Function.update_of_ne hin] using hold
  · exact fun p t h => h.mono fun w _ i hi => absurd hi (Nat.not_lt_zero i)

/-- `verify`, of what is there. -/
theorem triple_verifies {seed : UInt64} (hturn : x.HasTurn k j)
    (hK : ∀ w, K w → Filled cfg.bytes seed w) :
    Proc.Triple (Orderly cfg world x) (Stands cfg world x k j K a) (verify cfg.bytes seed)
      (fun _ => Stands cfg world x k j K a) (Fails cfg world x) := by
  unfold verify
  refine Proc.triple_forM_range (I := fun _ => Stands cfg world x k j K a) fun n hn => ?_
  refine Proc.Triple.bind (Q := fun (actual : UInt64) p t' => ∃ t, Stands cfg world x k j K a p t ∧
    t' = t ++ [⟨p, .compare mapping n (pattern seed n) "CPU shared data mismatch", actual⟩]) ?_
    fun actual => ?_
  · apply Proc.triple_ask
    · intro p t h
      refine h.orderly hturn nofun nofun nofun nofun (fun _ => ⟨rfl, rfl⟩) ?_
      rintro _ _ _ _ ⟨⟩
      exact ⟨rfl, fun w hw => hK w hw n hn⟩
    · exact fun p t r h => ⟨t, h, rfl⟩
  apply Proc.triple_onlyIf
  · -- the process has the turn, so that it sees what is there
    intro hne
    apply triple_fail
    rintro p _ ⟨t, h, rfl⟩
    have hfound : ∀ v', (probe cfg world).SeesAlong x
        (t ++ [⟨p, .compare mapping n (pattern seed n) "CPU shared data mismatch", actual⟩]) v' →
        False := by
      intro v' hv'
      obtain ⟨v, hv, hsees, hidle, -⟩ := h.seen_next rfl hv'
      have hnot : ¬v.flight.Into mapping := by
        rw [hidle]
        exact Flight.Idle.not_into ⟨rfl, rfl⟩ mapping
      have hread : actual = v.words mapping n := hsees.credible.resolve_left hnot
      exact hne (hread.trans (hK _ (h.seen v hv) n hn))
    refine ⟨(threw_concat _ _).mpr (.inr (by simpa [throws] using hne)),
      fun v hv => (hfound v hv).elim, ?_⟩
    rw [held_quiet rfl rfl, h.held, h.state]
  · rintro heq p _ ⟨t, h, rfl⟩
    refine h.next rfl rfl rfl ?_ rfl h.state (by simp [acquires, releases]) fun v hv _ _ => hv
    simpa [fails, throws] using heq

/-- `send_word`. -/
theorem triple_sends {m : Message} (hturn : x.HasTurn k j) (hk : k < 2)
    (hclaims : ∀ w, K w → claims cfg x k m w)
    (hleaves : x = .second → k = 1 → a.resources = deviceOnly.resources) :
    Proc.Triple (Orderly cfg world x) (Stands cfg world x k j K a) (sendWord m)
      (fun _ => Stands cfg world x (k + 1) j K a) (Fails cfg world x) := by
  unfold sendWord
  refine Proc.Triple.bind (Q := fun (sent : Bool) p t' => ∃ t, Stands cfg world x k j K a p t ∧
      t' = t ++ [⟨p, .send 0 m, sent⟩]) ?_ fun sent => ?_
  · apply Proc.triple_ask
    · intro p t h
      refine ⟨⟨nofun, ?_, nofun⟩, ?_, nofun, mayRelease_of_none fun _ => rfl, ?_, fun _ _ _ => rfl,
        nofun, nofun, nofun⟩
      -- the sender has the turn, and nothing is in flight
      · rintro _ _ ⟨⟩
        rw [h.sent, h.received, h.flight]
        exact ⟨hturn, hk, by simp [Flight.Uses]⟩
      · rintro _ _ ⟨⟩ v hv
        rw [h.sent]
        exact hclaims _ (h.seen v hv)
      -- the last word of the importer is sent when it holds the device only
      · intro hx hsent _ _ _
        rw [h.held]
        exact hleaves hx (h.sent.symm.trans hsent)
    · exact fun p t r h => ⟨t, h, rfl⟩
  apply Proc.triple_onlyIf
  · -- the peer is gone
    rintro rfl
    apply triple_fail
    rintro p _ ⟨t, h, rfl⟩
    exact h.loses rfl rfl rfl rfl
  · rintro hsent p _ ⟨t, h, rfl⟩
    obtain rfl : sent = true := by simpa using hsent
    refine ⟨?_, ?_, ?_, not_failed_concat h.passed rfl, h.result, h.state, ?_, ?_⟩
    · rw [sentWords_concat, h.sent]
      rfl
    · rw [receivedWords_concat, h.received]
      rfl
    · rw [flight_concat, h.flight]
      rfl
    · rw [held_quiet rfl rfl, h.held]
    · intro v' hv'
      obtain ⟨v, hv, -, -, hwritten⟩ := h.seen_next rfl hv'
      rw [hwritten rfl]
      exact h.seen v hv

/-- A word is there that does not make the `try` block throw: it says what the buffer holds. -/
theorem Stands.hears (h : Stands cfg world x k j K a p t) {fd : ℕ} {expects : Purpose} {m : Message}
    (hfails : fails (.receive fd expects) (some m) = false)
    (hK : ∀ w, claims cfg x.other j m w → L w) :
    Stands cfg world x k (j + 1) L a p (t ++ [⟨p, .receive fd expects, some m⟩]) := by
  refine ⟨?_, ?_, ?_, not_failed_concat h.passed hfails, h.result, h.state, ?_, ?_⟩
  · rw [sentWords_concat, h.sent]
    rfl
  · rw [receivedWords_concat, h.received]
    rfl
  · rw [flight_concat, h.flight]
    rfl
  · rw [held_quiet rfl rfl, h.held]
  · intro v' hv'
    obtain ⟨v, hv, hsees, -, -⟩ := h.seen_next rfl hv'
    have hhanded := hsees.handed m rfl
    rw [Pair.SeesAlong.received_eq _ hv, h.received] at hhanded
    exact hK _ hhanded

theorem Stands.orderly_receive (h : Stands cfg world x k j K a p t) (hwaits : x.Waits k j)
    (hj : j < 2) : Orderly cfg world x t p (.receive 0 (meaning x.other j)) := by
  refine ⟨⟨nofun, nofun, ?_⟩, nofun, nofun, mayRelease_of_none fun _ =>
    rfl, nofun, fun _ _ _ => rfl,
    nofun, nofun, ?_⟩
  · intro _ _ _
    rw [h.sent, h.received]
    exact ⟨hwaits, hj⟩
  · rintro _ _ ⟨⟩
    rw [h.received]

/-- `receive_word`, of the token. -/
theorem triple_receives (hwaits : x.Waits k j) (hj : j < 2) (htoken : meaning x.other j = .token)
    (hK : ∀ w m, claims cfg x.other j m w → L w) :
    Proc.Triple (Orderly cfg world x) (Stands cfg world x k j K a) (receiveWord .token)
      (fun _ => Stands cfg world x k (j + 1) L a) (Fails cfg world x) := by
  unfold receiveWord
  refine Proc.Triple.bind (Q := fun (received : Option Message) p t' => ∃ t,
    Stands cfg world x k j K a p t ∧ t' = t ++ [⟨p, .receive 0 .token, received⟩]) ?_
    fun received => ?_
  · apply Proc.triple_ask
    · exact fun p t h => htoken ▸ h.orderly_receive hwaits hj
    · exact fun p t r h => ⟨t, h, rfl⟩
  cases received with
  | none =>
      apply triple_fail
      rintro p _ ⟨t, h, rfl⟩
      exact h.loses rfl rfl rfl rfl
  | some m =>
      apply Proc.triple_pure
      rintro p _ ⟨t, h, rfl⟩
      exact h.hears rfl fun w hclaims => hK w m hclaims

/-- `check` of a word that is received: it is 0. -/
theorem triple_checks {expects : Purpose} {name : String} (hwaits : x.Waits k j) (hj : j < 2)
    (hexpects : meaning x.other j = expects) (htoken : expects ≠ .token)
    (hK : ∀ w m, claims cfg x.other j m w → L w) :
    Proc.Triple (Orderly cfg world x) (Stands cfg world x k j K a) (checkReceived expects name)
      (fun _ => Stands cfg world x k (j + 1) L a) (Fails cfg world x) := by
  unfold checkReceived receiveWord
  refine Proc.Triple.bind (Q := fun (word : UInt64) p t' => ∃ t m, Stands cfg world x k j K a p t ∧
    t' = t ++ [⟨p, .receive 0 expects, some m⟩] ∧ m.word = word) ?_ fun word => ?_
  · refine Proc.Triple.bind (Q := fun (received : Option Message) p t' => ∃ t,
      Stands cfg world x k j K a p t ∧ t' = t ++ [⟨p, .receive 0 expects, received⟩]) ?_
      fun received => ?_
    · apply Proc.triple_ask
      · exact fun p t h => hexpects ▸ h.orderly_receive hwaits hj
      · exact fun p t r h => ⟨t, h, rfl⟩
    cases received with
    | none =>
        apply triple_fail
        rintro p _ ⟨t, h, rfl⟩
        exact h.loses rfl rfl rfl rfl
    | some m =>
        apply Proc.triple_pure
        rintro p _ ⟨t, h, rfl⟩
        exact ⟨t, m, h, rfl, rfl⟩
  apply Proc.triple_onlyIf
  · -- the words of the peer are 0
    intro hne
    apply triple_fail
    rintro p _ ⟨t, m, h, rfl, rfl⟩
    refine ⟨(threw_concat _ _).mpr (.inr ?_), fun v' hv' => ?_, ?_⟩
    · simpa [throws, htoken] using hne
    · obtain ⟨v, hv, hsees, -, -⟩ := h.seen_next rfl hv'
      have hhanded := hsees.handed m rfl
      rw [Pair.SeesAlong.received_eq _ hv, h.received] at hhanded
      have hzero : m.word = 0 := hhanded.2.1 (by rwa [hexpects])
      exact absurd (by rw [hzero]; rfl) hne
    · rw [held_quiet rfl rfl, h.held, h.state]
  · rintro heq p _ ⟨t, m, h, rfl, rfl⟩
    refine h.hears ?_ fun w hclaims => hK w m hclaims
    have hword : m.word.toUInt32 = 0 := not_not.mp heq
    simp [fails, throws, hword]

end Process

end SharingProbe.HalMapProbe
