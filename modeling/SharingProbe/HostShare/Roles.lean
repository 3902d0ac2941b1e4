import SharingProbe.HostShare.Worker

/-!
# The creator and the importer

What a process does from its start to its end: `io_tests` in the middle, and before and after it
the hand-overs.
-/

namespace SharingProbe.HostShare

open Interaction Network Transition Evolution Share

variable {cfg : Config} {world : World} {x : Party} {k j : ℕ} {K K' : Account → Prop}
  {H H' : (ℕ → UInt64) → (ℕ → Option UInt64) → Prop} {D D' : Lasting} {p p' : Process}
  {t : List SHEvent} {e : SHEvent} {E : Process → List SHEvent → Prop}

/-! ## `io_tests` -/

section Tests

theorem inner_words {c : Share.Call} (hc : inner c = true) (r : Share.Call.Reply c) :
    puts c r = none ∧ takes c r = none ∧ lost c r = false := by
  cases c with
  | send => cases hc
  | receive => cases hc
  | _ => exact ⟨rfl, rfl, rfl⟩

theorem not_destroys_of_inner {c : Share.Call} (hc : inner c = true) : destroys c = false := by
  cases c with
  | cleanup op name => simpa [inner] using hc
  | _ => rfl

/-- The socket is not among the files of `io_tests`. -/
theorem socket_notMem_held (h : (host cfg world).Worked t) : Resource.file 0 ∉ accounts.held t := by
  induction t using List.reverseRecOn with
  | nil => simp
  | append_singleton t e ih =>
      obtain ⟨hbefore, hfits⟩ := (Pair.worked_concat _ _ _).mp h
      rw [Ledger.Accounts.held_concat, Multiset.mem_add]
      rintro (hmem | hmem)
      · exact ih hbefore (Multiset.mem_of_le (Multiset.sub_le_self _ _) hmem)
      · obtain ⟨p, c, r⟩ := e
        change Resource.file 0 ∈ acquires c r at hmem
        unfold acquires at hmem
        split at hmem
        · rename_i direct r
          have hne : r.ret ≠ 0 := by simpa [Pair.fits, host, works] using hfits
          split at hmem
          · have hzero : 0 = r.ret.toNat := by simpa using Multiset.mem_singleton.mp hmem
            omega
          · simp at hmem
        · split at hmem <;> simp at hmem
        · split at hmem <;> simp at hmem
        · simp at hmem

/-- The calls of `io_tests` are in order. -/
theorem orderly_of_inner {c : Share.Call} (hsent : sentWords t = k)
    (hreceived : receivedWords t = j)
    (hturn : x.HasTurn k j) (hc : inner c = true) (hallowed : Allowed t p c) :
    Orderly cfg world x t p c := by
  have hsend : ∀ fd m, c ≠ .send fd m := by
    rintro fd m rfl
    cases hc
  refine ⟨fun _ => ⟨fun _ => ?_, ?_, ?_⟩, ?_, ?_, ?_, ?_, ?_⟩
  · rw [hsent, hreceived]
    exact hturn
  · exact fun fd m h => absurd h (hsend fd m)
  · rintro fd expects rfl
    cases hc
  · exact fun fd m h => absurd h (hsend fd m)
  · rintro (rfl | ⟨-, hdestroys⟩) v hv
    · -- the socket is not closed, since only what is held is closed
      have hmem : Resource.file 0 ∈ accounts.held t :=
        Multiset.mem_of_le hallowed (Multiset.mem_singleton_self _)
      exact absurd hmem (socket_notMem_held (Pair.SeesAlong.worked _ hv))
    · rw [not_destroys_of_inner hc] at hdestroys
      cases hdestroys
  · exact fun fd m h => absurd h (hsend fd m)
  · rintro i expected phase rfl hphase
    exact absurd hphase (by simpa [inner] using hc)
  · exact fun _ fd m h => absurd h (hsend fd m)

variable (cfg world x) in
/-- What the shared buffer is seen to hold when it is filled again. -/
theorem restores_wrote (seed : UInt64) : Restores seed fun n t =>
    ∀ v, (host cfg world).SeesAlong x t v → Wrote n seed (v.words shared) (known t shared) := by
  refine ⟨fun t v _ i hi => absurd hi (by omega), ?_, ?_⟩
  · intro p t n r hlanded hwrote v' hv'
    obtain ⟨v, hv, -, -, hwritten, hknown⟩ :=
      written_of_landed hlanded (hlanded.next rfl rfl) rfl (fun _ => id) hv'
    rw [hwritten, hknown]
    exact (hwrote v hv).store
  · intro p t n op name r hlanded hc hwrote v' hv'
    obtain ⟨v, hv, -, -, hwritten, hknown⟩ :=
      written_of_landed hlanded (hlanded.next hc rfl) rfl (fun _ => id) hv'
    rw [hwritten, hknown]
    exact hwrote v hv

/-- What `io_tests` does not catch does not fail. -/
theorem not_uncaught (h : (host cfg world).Worked t) : ¬Uncaught t := by
  rintro ⟨⟨p, c, r⟩, he, huncaught⟩
  have hfits := h _ he
  change uncaught c r = true at huncaught
  unfold uncaught at huncaught
  split at huncaught
  · simp_all [Pair.fits, host, works, caught]
  · simp_all [Pair.fits, host, works, caught]
  · simp_all [Pair.fits, host, works]
  · cases huncaught

/-- `n` failures have been counted: none if and only if all requested cases have passed. -/
def Counted (cfg : Config) (n : ℕ) (passed : Set Case) : Prop :=
  n ≤ 7 ∧ (n = 0 ↔ ∀ case ∈ requested cfg.aio, case ∈ passed)

/-- `io_tests`, of a process that has the turn. -/
theorem triple_tests {seed : UInt64} (hturn : x.HasTurn k j) (hK : ∀ a, K a → a.passed = ∅) :
    Proc.Triple (Orderly cfg world x) (Stands cfg world x k j K H D)
      (ioTests cfg.bytes seed cfg.aio)
      (fun n => Stands cfg world x k j (fun a => K { a with passed := ∅ } ∧ Counted cfg n a.passed)
        (Wrote (cfg.bytes / 8) seed) D) (Fails cfg world x) := by
  intro p t h
  have hnone : {case | Passed case t} = ∅ := hK _ h.state
  have hunstarted : Unstarted p t := by
    refine ⟨h.landed, h.held, fun case hcase => ?_⟩
    have hmem : case ∈ {case | Passed case t} := hcase
    rw [hnone] at hmem
    exact hmem
  have hbooks := triple_ioTests cfg.bytes (restores_wrote cfg world x seed) cfg.aio p t hunstarted
  have htame := tame_ioTests cfg.bytes seed cfg.aio p t
  -- no words are sent or received meanwhile
  have hkeep : ∀ u (p : Process) c r, Allowed u p c ∧ inner c = true →
      (sentWords u = k ∧ receivedWords u = j ∧ ¬Lost u ∧ D.holds u) →
      sentWords (u ++ [⟨p, c, r⟩]) = k ∧ receivedWords (u ++ [⟨p, c, r⟩]) = j ∧
        ¬Lost (u ++ [⟨p, c, r⟩]) ∧ D.holds (u ++ [⟨p, c, r⟩]) := by
    rintro u p c r ⟨-, hc⟩ ⟨hsent, hreceived, hkept, hlog⟩
    obtain ⟨hputs, htakes, hlost⟩ := inner_words hc r
    have hwords := Pair.words_quiet (t := u) (e := ⟨p, c, r⟩) hputs htakes
    exact ⟨hwords.1.trans hsent, hwords.2.trans hreceived, not_lost_concat hkept hlost,
      D.lasts _ _ hlog⟩
  have hmeets := (Prog.Meets.both hbooks htame).keep hkeep ⟨h.sent, h.received, h.kept, h.log⟩
  have hok : ∀ u p c, (Allowed u p c ∧ inner c = true) ∧
      (sentWords u = k ∧ receivedWords u = j ∧ ¬Lost u ∧ D.holds u) →
        Orderly cfg world x u p c := by
    rintro u p c ⟨⟨hallowed, hc⟩, hsent, hreceived, -, -⟩
    exact orderly_of_inner hsent hreceived hturn hc hallowed
  refine Prog.Meets.mono ?_ (Prog.Meets.mono_ok hok hmeets)
  rintro ⟨r, p'⟩ t' ⟨⟨hpost, hleaves⟩, hsent, hreceived, hkept, hlog⟩
  cases r with
  | error what => exact fun v hv => absurd hpost (not_uncaught (Pair.SeesAlong.worked _ hv))
  | ok n =>
      obtain ⟨hbooks, hlanded, hwrote, hfailures⟩ := hpost
      refine ⟨hsent, hreceived, hkept, hlanded, hbooks.tracks, hleaves.noted h.noted, ⟨?_, ?_⟩,
        hwrote, hlog⟩
      · have hstate := h.state
        unfold account at hstate ⊢
        rw [hnone] at hstate
        rwa [hleaves.result, hleaves.va, hleaves.handles]
      · have hle : p'.failures ≤ 0 + 7 := hleaves.failures
        have hcounted : p'.failures = 0 ↔ ∀ case ∈ requested cfg.aio, Passed case t' :=
          hbooks.counted
        rw [hfailures] at hle hcounted
        exact ⟨by omega, hcounted⟩

end Tests

/-! ## The creator and the importer -/

section Programs

/-- The mapping, and what is printed about it. -/
theorem triple_mapHost :
    Proc.Triple (Orderly cfg world x) (Stands cfg world x k j K H D) mapHost
      (fun _ => Stands cfg world x k j K H D) (Fails cfg world x) := by
  unfold mapHost setMapped
  refine (Proc.triple_get fun _ _ h => h).bind fun p => ?_
  refine (triple_works rfl rfl).bind fun _ => ?_
  refine Proc.Triple.bind (triple_set _ (fun _ => rfl) fun _ _ h => h) fun _ => ?_
  exact (triple_direct rfl).bind fun _ => Proc.triple_pure fun _ _ h => h

/-- A process at the start. -/
def Fresh (a : Account) : Prop := a.passed = ∅ ∧ a.result = 0

/-- The number of failures in the result: the creator adds those that the importer reports. -/
def total : Party → ℕ → UInt64 → ℕ
  | .first, n, word => (n + word.toNat) % 2 ^ 32
  | .second, n, _ => n

/-- The report has been sent, or it has been heard. -/
def exchanged : Party → UInt64 → Lasting
  | .first, word => hears word
  | .second, word => reports word

/-- What a report says. -/
def Reported (x : Party) (n : ℕ) (word : UInt64) : Prop :=
  word.toNat ≤ 7 ∧ (x = .second → word = UInt64.ofNat n)

variable (cfg world x) in
/-- The end of the body: `n` cases have failed, and `word` has been reported. -/
def Over (n : ℕ) (word : UInt64) (p : Process) (t : List SHEvent) : Prop :=
  Stands cfg world x 3 3 (fun a => a.result = total x n word ∧ Counted cfg n a.passed)
    (fun _ _ => Reported x n word) (exchanged x word) p t

theorem getElem?_receivedList {m : Message} {expects : Purpose} (h : receivedWords t = 1) :
    (hears m.word).holds (t ++ [⟨p, .receive 0 expects, some m⟩]) := by
  refine ⟨m, ?_, rfl⟩
  unfold receivedList
  rw [List.filterMap_append]
  have hlength : (t.filterMap fun e => takes e.call e.reply).length = 1 :=
    (length_receivedList t).trans h
  rw [List.getElem?_append_right hlength.le, hlength]
  rfl

theorem getElem?_sentList {m : Message} (h : sentWords t = 1) :
    (reports m.word).holds (t ++ [⟨p, .send 0 m, true⟩]) := by
  refine ⟨m, ?_, rfl⟩
  unfold sentList
  rw [List.filterMap_append]
  have hlength : (t.filterMap fun e => puts e.call e.reply).length = 1 :=
    (length_sentList t).trans h
  rw [List.getElem?_append_right hlength.le, hlength]
  rfl

theorem triple_creator :
    Proc.Triple (Orderly cfg world .first)
      (Stands cfg world .first 0 0 Fresh (fun _ _ => True) .none) (creator cfg)
      (fun _ p t => ∃ n word, Over cfg world .first n word p t) (Fails cfg world .first) := by
  unfold creator reserve setHandle
  -- the buffer is created, mapped and filled
  refine Proc.Triple.bind (Q := fun _ => Stands cfg world .first 0 0 Fresh (fun _ _ => True) .none)
    ?_ fun _ => ?_
  · exact (triple_works rfl rfl).bind fun _ => triple_set _ (fun _ => rfl) fun _ _ h => h
  refine (triple_works rfl rfl).bind fun created => ?_
  refine Proc.Triple.bind (Q := fun _ => Stands cfg world .first 0 0 Fresh (fun _ _ => True) .none)
    (triple_set _ (fun _ => rfl) fun _ _ h => h) fun _ => ?_
  refine triple_mapHost.bind fun _ => ?_
  refine Proc.Triple.bind (triple_fills rfl) fun _ => ?_
  refine Proc.Triple.bind (triple_verifies rfl (fun w l hw i hi => (hw i hi).1)
    fun hphase => absurd hphase (by decide)) fun _ => ?_
  refine (Proc.triple_get fun _ _ h => h).bind fun p => ?_
  refine (triple_works rfl rfl).bind fun token => (triple_works rfl rfl).bind fun _ => ?_
  refine Proc.Triple.bind (Q := fun _ => Stands cfg world .first 1 0 Fresh
    (Wrote (cfg.bytes / 8) 101) .none) ?_ fun _ => ?_
  · refine triple_sends rfl (by decide) (fun _ _ _ => trivial) ?_ nofun fun _ _ _ _ => trivial
    rintro w l hw _ ⟨⟩
    exact hw
  -- the data of the importer
  refine Proc.Triple.bind (Q := fun word => Stands cfg world .first 1 1 Fresh
    (fun w _ => word = 0 ∧ Holds w cfg.bytes 202) .none) ?_ fun verified => ?_
  · refine triple_receives rfl (by decide) ?_ fun _ _ _ _ _ => trivial
    exact fun w l w' l' m _ hclaims => ⟨hclaims.2, hclaims.1 _ rfl⟩
  refine (triple_unless fun w l hw => not_not.mpr hw.1).bind fun _ => ?_
  refine Proc.Triple.bind (triple_verifies rfl (fun w l hw => hw.2) fun _ => ⟨0, rfl, rfl⟩)
    fun _ => ?_
  -- the tests put other data into the buffer, and their failures are added to the result
  refine Proc.Triple.bind (triple_tests rfl fun a ha => ha.1) fun n => ?_
  refine Proc.Triple.bind (Q := fun _ => Stands cfg world .first 1 1
    (fun a => a.result = n ∧ Counted cfg n a.passed)
      (Wrote (cfg.bytes / 8) 303) .none) ?_ fun _ => ?_
  · refine triple_set _ (fun _ => rfl) ?_
    rintro p t ⟨⟨-, hresult⟩, hcounted⟩
    have hle := hcounted.1
    have hzero : p.result = 0 := hresult
    refine ⟨?_, hcounted⟩
    change (p.result + n) % 2 ^ 32 = n
    omega
  -- the buffer is handed over for the second time
  refine Proc.Triple.bind (Q := fun _ => Stands cfg world .first 2 1
    (fun a => a.result = n ∧ Counted cfg n a.passed)
      (Wrote (cfg.bytes / 8) 303) .none) ?_ fun _ => ?_
  · refine triple_sends rfl (by decide) (fun _ _ _ => rfl) ?_ nofun fun _ _ _ _ => trivial
    rintro w l hw _ ⟨⟩
    exact hw
  -- what the importer reports
  refine Proc.Triple.bind (Q := fun word => Stands cfg world .first 2 2
    (fun a => a.result = n ∧ Counted cfg n a.passed)
    (fun w _ => word.toNat ≤ 7 ∧ Holds w cfg.bytes 404) (hears word)) ?_ fun word => ?_
  · refine triple_receives rfl (by decide) ?_
      fun t p m hreceived _ => getElem?_receivedList hreceived
    exact fun w l w' l' m _ hclaims => ⟨hclaims.2, hclaims.1 _ rfl⟩
  refine Proc.Triple.bind (Q := fun _ => Stands cfg world .first 2 2
    (fun a => a.result = total .first n word ∧ Counted cfg n a.passed)
    (fun w _ => word.toNat ≤ 7 ∧ Holds w cfg.bytes 404) (hears word)) ?_ fun _ => ?_
  · refine triple_set _ (fun _ => rfl) ?_
    rintro p t ⟨hresult, hcounted⟩
    refine ⟨?_, hcounted⟩
    have hsame : p.result = n := hresult
    change (p.result + word.toNat) % 2 ^ 32 = (n + word.toNat) % 2 ^ 32
    rw [hsame]
  refine Proc.Triple.bind (triple_verifies rfl (fun w l hw => hw.2) fun _ => ⟨1, rfl, rfl⟩)
    fun _ => ?_
  refine Proc.Triple.bind (Q := fun _ => Stands cfg world .first 3 2
    (fun a => a.result = total .first n word ∧ Counted cfg n a.passed)
    (fun w _ => word.toNat ≤ 7 ∧ Holds w cfg.bytes 404) (hears word)) ?_ fun _ => ?_
  · refine triple_sends rfl (by decide) (fun _ _ _ => rfl) nofun nofun ?_
    exact fun t p _ h => (hears word).lasts t _ h
  refine Proc.Triple.bind (Q := fun last => Stands cfg world .first 3 3
    (fun a => a.result = total .first n word ∧ Counted cfg n a.passed)
    (fun _ _ => last = 0 ∧ word.toNat ≤ 7) (hears word)) ?_ fun last => ?_
  · refine triple_receives rfl (by decide) ?_ fun t p m _ h => (hears word).lasts t _ h
    exact fun w l w' l' m hw hclaims => ⟨hclaims.2, hw.1⟩
  refine Proc.Triple.weaken (triple_unless fun w l hw => not_not.mpr hw.1) (fun _ _ h => h) ?_
    fun _ _ h => h
  exact fun _ p t h => ⟨n, word, h.mono (fun _ h => h) (fun _ _ h => ⟨h.2, nofun⟩) fun _ h => h⟩

theorem triple_importer :
    Proc.Triple (Orderly cfg world .second)
      (Stands cfg world .second 0 0 Fresh (fun _ _ => True) .none) (importer cfg)
      (fun _ p t => ∃ n word, Over cfg world .second n word p t) (Fails cfg world .second) := by
  unfold importer reserve setHandle setMapped
  -- the word of the creator says that the buffer holds its pattern
  refine Proc.Triple.bind (Q := fun _ => Stands cfg world .second 0 1 Fresh
    (fun w _ => Holds w cfg.bytes 101) .none) ?_ fun token => ?_
  · refine triple_receives rfl (by decide) ?_ fun _ _ _ _ _ => trivial
    exact fun w l w' l' m _ hclaims => hclaims.1 _ rfl
  refine Proc.Triple.bind (Q := fun _ p t => ∃ reserved : Answer, Stands cfg world .second 0 1
    (fun a => Fresh a ∧ a.va = reserved.out) (fun w _ => Holds w cfg.bytes 101)
    (did (.halMemAddressReserve cfg.bytes) reserved) p t) ?_ fun _ => ?_
  · refine (triple_did rfl rfl).bind fun reserved => ?_
    refine Proc.Triple.weaken (triple_set (fun a => Fresh a ∧ a.va = reserved.out) (fun _ => rfl)
      fun p t h => ⟨h, rfl⟩) (fun _ _ h => h) ?_ fun _ _ h => h
    exact fun _ p t h => ⟨reserved, h.mono (fun _ h => h) (fun _ _ h => h) fun _ h => h.2⟩
  apply Proc.triple_exists
  intro reserved
  refine (triple_did rfl rfl).bind fun imported => ?_
  -- from here on the handle and the range are known
  let D : Lasting := (did (.halMemAddressReserve cfg.bytes) reserved).and
    (did (.halMemImportFromShareableHandle 0 token) imported)
  refine Proc.Triple.bind (Q := fun _ => Stands cfg world .second 0 1
    (fun a => Fresh a ∧ a.va = reserved.out ∧ a.handle = imported.out)
    (fun w _ => Holds w cfg.bytes 101) D) ?_ fun _ => ?_
  · exact triple_set _ (fun _ => rfl) fun p t h =>
      ⟨h.1, h.2,
        show Function.update p.handles 0 imported.out 0 = _ from Function.update_self _ _ _⟩
  refine triple_mapHost.bind fun _ => ?_
  refine Proc.Triple.bind (triple_verifies rfl (fun w l hw => hw) fun _ => ⟨0, rfl, rfl⟩)
    fun _ => ?_
  refine Proc.Triple.bind (triple_fills rfl) fun _ => ?_
  refine Proc.Triple.bind (triple_verifies rfl (fun w l hw i hi => (hw i hi).1)
    fun hphase => absurd hphase (by decide)) fun _ => ?_
  refine Proc.Triple.bind (Q := fun _ => Stands cfg world .second 1 1
    (fun a => Fresh a ∧ a.va = reserved.out ∧ a.handle = imported.out)
    (Wrote (cfg.bytes / 8) 202) D) ?_ fun _ => ?_
  · refine triple_sends rfl (by decide) (fun _ _ _ => rfl) ?_ nofun fun t _ _ h => D.lasts t _ h
    rintro w l hw _ ⟨⟩
    exact hw
  -- the data of the creator after its tests
  refine Proc.Triple.bind (Q := fun completed => Stands cfg world .second 1 2
    (fun a => Fresh a ∧ a.va = reserved.out ∧ a.handle = imported.out)
    (fun w _ => completed = 303 ∧ Holds w cfg.bytes 303) D) ?_ fun completed => ?_
  · refine triple_receives rfl (by decide) ?_ fun t _ _ _ h => D.lasts t _ h
    exact fun w l w' l' m _ hclaims => ⟨hclaims.2, hclaims.1 _ rfl⟩
  refine (triple_unless fun w l hw => not_not.mpr hw.1).bind fun _ => ?_
  refine Proc.Triple.bind (triple_verifies rfl (fun w l hw => hw.2) fun _ => ⟨1, rfl, rfl⟩)
    fun _ => ?_
  refine Proc.Triple.bind (triple_tests rfl fun a ha => ha.1.1) fun n => ?_
  let owns : Account → Prop := fun a =>
    (a.result = n ∧ Counted cfg n a.passed) ∧ a.va = reserved.out ∧ a.handle = imported.out
  refine Proc.Triple.bind (Q := fun _ => Stands cfg world .second 1 2 owns
    (Wrote (cfg.bytes / 8) 404) D) ?_ fun _ => ?_
  · refine triple_set _ (fun _ => rfl) ?_
    rintro p t ⟨⟨⟨-, hresult⟩, hva, hhandle⟩, hcounted⟩
    have hle := hcounted.1
    have hzero : p.result = 0 := hresult
    refine ⟨⟨?_, hcounted⟩, hva, hhandle⟩
    change (p.result + n) % 2 ^ 32 = n
    omega
  -- the failures of the tests have been added to the result
  apply Proc.triple_get_bind
  intro p₀
  -- what is sent is the number of failures
  refine Proc.Triple.assume (A := p₀.result = n ∧ n ≤ 7) ?_ ?_
  · rintro p t ⟨rfl, h⟩
    exact ⟨h.state.1.1, h.state.1.2.1⟩
  rintro ⟨hresult, hle⟩
  rw [hresult]
  have hword : (UInt64.ofNat n).toNat ≤ 7 := by
    rw [UInt64.toNat_ofNat_of_lt' (by change n < 2 ^ 64; omega)]
    exact hle
  let D' : Lasting := D.and (reports (UInt64.ofNat n))
  have hsend : Proc.Triple (Orderly cfg world .second) (Stands cfg world .second 1 2 owns
      (Wrote (cfg.bytes / 8) 404) D) (sendWord 0 ⟨.handOver 404, UInt64.ofNat n⟩)
      (fun _ => Stands cfg world .second 2 2 owns (Wrote (cfg.bytes / 8) 404) D')
      (Fails cfg world .second) := by
    refine triple_sends rfl (by decide) (fun _ _ _ => hword) ?_ nofun ?_
    · rintro w l hw _ ⟨⟩
      exact hw
    · exact fun t p hsent h => ⟨D.lasts t _ h, getElem?_sentList hsent⟩
  refine Proc.Triple.bind (hsend.weaken (fun _ _ h => h.2) (fun _ _ _ h => h) fun _ _ h => h)
    fun _ => ?_
  refine Proc.Triple.bind (Q := fun verified => Stands cfg world .second 2 3 owns
    (fun _ _ => verified = 0) D') ?_ fun verified => ?_
  · refine triple_receives rfl (by decide) ?_ fun t _ _ _ h => D'.lasts t _ h
    exact fun w l w' l' m _ hclaims => hclaims.2
  refine (triple_unless fun w l hw => not_not.mpr hw).bind fun _ => ?_
  -- the importer gives back what it has
  refine (triple_did rfl rfl).bind fun unmapped => ?_
  refine Proc.Triple.bind (triple_set owns (fun _ => rfl) fun _ _ h => h) fun _ => ?_
  apply Proc.triple_get_bind
  intro p₁
  refine Proc.Triple.assume (A := p₁.va = reserved.out ∧ p₁.handles 0 = imported.out) ?_ ?_
  · rintro p t ⟨rfl, h⟩
    exact h.state.2
  rintro ⟨hva, hhandle⟩
  rw [hva, hhandle]
  refine Proc.Triple.bind ((triple_did rfl rfl).weaken (fun _ _ h => h.2) (fun _ _ _ h => h)
    fun _ _ h => h) fun released => ?_
  refine Proc.Triple.bind (triple_set (fun a => a.result = n ∧ Counted cfg n a.passed)
    (fun _ => rfl) fun _ _ h => h.1) fun _ => ?_
  refine (triple_did rfl rfl).bind fun freed => ?_
  refine Proc.Triple.bind (triple_set (fun a => a.result = n ∧ Counted cfg n a.passed)
    (fun _ => rfl) fun _ _ h => h) fun _ => ?_
  have hdone : Proc.Triple (Orderly cfg world .second) (Stands cfg world .second 2 3
      (fun a => a.result = n ∧ Counted cfg n a.passed) (fun _ _ => verified = 0)
      (((D'.and (did (.halMemUnmap 0) unmapped)).and
        (did (.halMemRelease 0 imported.out) released)).and
        (did (.halMemAddressFree reserved.out) freed))) (sendWord 0 ⟨.done, 0⟩)
      (fun _ => Stands cfg world .second 3 3 (fun a => a.result = n ∧ Counted cfg n a.passed)
        (fun _ _ => verified = 0) (reports (UInt64.ofNat n))) (Fails cfg world .second) := by
    refine triple_sends rfl (by decide) (fun _ _ _ => rfl) nofun ?_ ?_
    · rintro - - t ⟨⟨⟨⟨⟨hreserved, himported⟩, -⟩, hunmapped⟩, hreleased⟩, hfreed⟩
      exact ⟨reserved, token, imported, unmapped, released, freed, hreserved, himported, hunmapped,
        hreleased, hfreed⟩
    · rintro t p - ⟨⟨⟨⟨-, hreports⟩, -⟩, -⟩, -⟩
      exact (reports _).lasts t _ hreports
  refine hdone.weaken (fun _ _ h => h) (fun _ p t h => ?_) fun _ _ h => h
  exact ⟨n, UInt64.ofNat n, h.mono (fun _ h => h) (fun _ _ _ => ⟨hword, fun _ => rfl⟩) fun _ h => h⟩

end Programs

/-! ## `worker` -/

section Worker

/-- `Allocation::~Allocation`. -/
theorem triple_destroyAllocation {I : Process → List SHEvent → Prop}
    (hcleanup : ∀ op name, aside (.cleanup op name) = true →
      KeepsCleanup (Orderly cfg world x) I op name) :
    Proc.Triple (Orderly cfg world x) I destroyAllocation (fun _ => I) E := by
  have honly : ∀ {c : Prop} [Decidable c] {op : Share.Op} {name : String},
      aside (.cleanup op name) = true →
      Proc.Triple (Orderly cfg world x) I (Proc.onlyIf c (cleanup op name)) (fun _ => I) E :=
    fun hc => Proc.triple_onlyIf (fun _ => triple_keeps_cleanup (hcleanup _ _ hc)) fun _ _ _ h => h
  unfold destroyAllocation Share.destroyAllocation
  refine Proc.Triple.bind (Proc.triple_get (Q := fun _ => I) fun _ _ h => h) fun p => ?_
  exact (honly rfl).bind fun _ => (honly rfl).bind fun _ => honly rfl

/-- A cleanup call of a process that has sent and received all its words. -/
theorem keepsCleanup_stands {op : Share.Op} {name : String}
    (hc : aside (.cleanup op name) = true) :
    KeepsCleanup (Orderly cfg world x) (Stands cfg world x 3 3 K H D) op name := by
  refine ⟨fun p t h => orderly_of_aside hc fun _ _ _ _ _ => ⟨h.sent, h.received⟩, ?_⟩
  intro p t r h
  refine h.aside hc (h.noted.cleanup r) ?_
  split <;> rfl

/-- A cleanup call of a process whose peer is gone. -/
theorem keepsCleanup_fails {op : Share.Op} {name : String}
    (hc : aside (.cleanup op name) = true) :
    KeepsCleanup (Orderly cfg world x) (Fails cfg world x) op name := by
  refine ⟨fun p t h => orderly_of_aside hc fun _ _ v hv hkept => ?_, fun p t r h => h.concat⟩
  exact absurd (h v hv) hkept

theorem triple_withAllocation {body : SH PUnit}
    (hbody : Proc.Triple (Orderly cfg world x)
      (Stands cfg world x 0 0 Fresh (fun _ _ => True) .none)
      body (fun _ p t => ∃ n word, Over cfg world x n word p t) (Fails cfg world x)) :
    Proc.Triple (Orderly cfg world x) (Stands cfg world x 0 0 Fresh (fun _ _ => True) .none)
      (withAllocation body) (fun _ p t => ∃ n word, Over cfg world x n word p t)
      (Fails cfg world x) := by
  unfold withAllocation setMapped setHandle
  refine Proc.Triple.bind (triple_set Fresh (fun _ => rfl) fun _ _ h => h) fun _ => ?_
  refine Proc.Triple.bind (triple_set Fresh (fun _ => rfl) fun _ _ h => h) fun _ => ?_
  refine Proc.Triple.bind (triple_set Fresh (fun _ => rfl) fun _ _ h => h) fun _ => ?_
  refine Proc.Triple.bind (Proc.Triple.tryCatch hbody fun error => ?_) fun _ => ?_
  · refine Proc.Triple.bind (triple_destroyAllocation fun _ _ => keepsCleanup_fails) fun _ => ?_
    exact Proc.triple_throw fun _ _ h => h
  · refine Proc.triple_exists fun n => Proc.triple_exists fun word => ?_
    refine Proc.Triple.weaken (triple_destroyAllocation fun _ _ => keepsCleanup_stands)
      (fun _ _ h => h) (fun _ p t h => ⟨n, word, h⟩) fun _ _ h => h

theorem triple_workerBody :
    Proc.Triple (Orderly cfg world x) (Stands cfg world x 0 0 Fresh (fun _ _ => True) .none)
      (workerBody cfg (x == .second)) (fun _ p t => ∃ n word, Over cfg world x n word p t)
      (Fails cfg world x) := by
  unfold workerBody
  refine (triple_works rfl rfl).bind fun _ => ?_
  refine Proc.Triple.bind (triple_set Fresh (fun _ => rfl) fun _ _ h => h) fun _ => ?_
  refine (triple_works rfl rfl).bind fun _ => ?_
  refine Proc.Triple.bind (triple_set Fresh (fun _ => rfl) fun _ _ h => h) fun _ => ?_
  refine (triple_works rfl rfl).bind fun _ => triple_withAllocation ?_
  cases x with
  | first => exact triple_creator
  | second => exact triple_importer

variable (cfg world x) in
/-- What is left of it in the end: the number of failures, and what has been reported. -/
structure Tally (n : ℕ) (word : UInt64) (p : Process) (t : List SHEvent) : Prop where
  result : p.result = total x n word
  counted : Counted cfg n {case | Passed case t}
  noted : Noted p t
  reported : ∀ v, (host cfg world).SeesAlong x t v → Reported x n word
  log : (exchanged x word).holds t

variable (cfg world x) in
/-- How a process ends. -/
def Ends (p : Process) (t : List SHEvent) : Prop :=
  Closed t ∧ ((∃ n word, Tally cfg world x n word p t) ∨ Fails cfg world x p t)

/-- The end is closed: then all words have been sent and received, unless the peer is gone. -/
theorem triple_close :
    Proc.Triple (Orderly cfg world x)
      (fun p t => (∃ n word, Over cfg world x n word p t) ∨ Fails cfg world x p t)
      (direct (.close 0)) (fun _ => Ends cfg world x) E := by
  apply Proc.triple_ask
  · intro p t h
    refine ⟨fun _ => ⟨nofun, nofun, nofun⟩, nofun, fun _ v hv hkept => ?_, nofun, nofun, nofun⟩
    rcases h with ⟨n, word, hover⟩ | hfails
    · exact ⟨hover.sent, hover.received⟩
    · exact absurd (hfails v hv) hkept
  · intro p t r h
    refine ⟨(closed_concat _ _).mpr (.inr rfl), ?_⟩
    rcases h with ⟨n, word, hover⟩ | hfails
    · left
      refine ⟨n, word, hover.state.1, ?_, hover.noted.quiet rfl, fun v' hv' => ?_,
        (exchanged x word).lasts t _ hover.log⟩
      · have hcounted := hover.state.2
        rw [← account_concat (e := ⟨p, .direct (.close 0), r⟩) (by exact nofun)] at hcounted
        exact hcounted
      · obtain ⟨v, hv, -⟩ := along_concat.mp hv'
        exact hover.seen v hv
    · exact .inr hfails.concat

theorem keepsCleanup_ends {op : Share.Op} {name : String} (hc : aside (.cleanup op name) = true)
    (hdestroys : destroys (.cleanup op name) = false) :
    KeepsCleanup (Orderly cfg world x) (Ends cfg world x) op name := by
  refine ⟨fun p t h => orderly_of_aside hc fun _ hc => ?_, fun p t r h => ?_⟩
  · rw [hdestroys] at hc
    cases hc
  obtain ⟨hclosed, hends⟩ := h
  refine ⟨(closed_concat _ _).mpr (.inl hclosed), ?_⟩
  rcases hends with ⟨n, word, htally⟩ | hfails
  · left
    refine ⟨n, word, ?_, ?_, htally.noted.cleanup r, fun v' hv' => ?_,
      (exchanged x word).lasts t _ htally.log⟩
    · split <;> exact htally.result
    · have hsame := account_concat (p := p) (t := t) (e := ⟨p, .cleanup op name, r⟩)
        (by exact nofun)
      have hpassed := congrArg Account.passed hsame
      change {case | Passed case (t ++ _)} = {case | Passed case t} at hpassed
      rw [hpassed]
      exact htally.counted
    · obtain ⟨v, hv, -⟩ := along_concat.mp hv'
      exact htally.reported v hv
  · exact .inr hfails.concat

theorem triple_worker :
    Proc.Triple (Orderly cfg world x) (Stands cfg world x 0 0 Fresh (fun _ _ => True) .none)
      (worker cfg (x == .second)) (fun n p t => Ends cfg world x p t ∧
        n = if p.result ≠ 0 ∨ p.cleanupFailed = true then 1 else 0) fun _ _ => False := by
  have honly : ∀ {c : Prop} [Decidable c] {op : Share.Op} {name : String},
      aside (.cleanup op name) = true → destroys (.cleanup op name) = false →
      Proc.Triple (Orderly cfg world x) (Ends cfg world x) (Proc.onlyIf c (cleanup op name))
        (fun _ => Ends cfg world x) fun _ _ => False :=
    fun hc hdestroys => Proc.triple_onlyIf (fun _ =>
      triple_keeps_cleanup (keepsCleanup_ends hc hdestroys)) fun _ _ _ h => h
  unfold worker
  refine Proc.Triple.bind (Q := fun _ p t => (∃ n word, Over cfg world x n word p t) ∨
    Fails cfg world x p t) ?_ fun _ => ?_
  · refine Proc.Triple.tryCatch (E := Fails cfg world x) ?_ fun error => ?_
    · exact triple_workerBody.weaken (fun _ _ h => h) (fun _ _ _ h => .inl h) fun _ _ h => h
    · exact Proc.triple_modify fun p t h => .inr h
  refine triple_close.bind fun _ => ?_
  refine (Proc.triple_get (Q := fun _ => Ends cfg world x) fun _ _ h => h).bind fun p => ?_
  refine (honly rfl rfl).bind fun _ => (honly rfl rfl).bind fun _ => ?_
  apply Proc.triple_get_bind
  intro p
  apply Proc.triple_pure
  rintro p' t ⟨rfl, h⟩
  exact ⟨h, rfl⟩

end Worker

end SharingProbe.HostShare
