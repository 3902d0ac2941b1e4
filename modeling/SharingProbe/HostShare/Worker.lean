import SharingProbe.HostShare.Effects
import SharingProbe.HostShare.IoTests
import SharingProbe.Share.Pair
import SharingProbe.Share.Pattern

/-!
# One process of `host_share`

The two processes hand the buffer over with the patterns of the seeds 101, 202, 303 and 404.
Calls fail only where `io_tests` catches it, and cleanup calls.  Then a process gives up only if
its peer is gone.
-/

namespace SharingProbe.HostShare

open Interaction Network Transition Evolution Share

/-! ## The two processes -/

/-- The checks in the `try` blocks of `io_tests`. -/
def caught : Share.Op → String → Bool
  | .aclrtMalloc _, _ | .aclrtCreateStream, _ | .aclrtCreateEvent, _ | .aclrtMemcpyAsync _ _ _, _
  | .aclrtRecordEvent, _ | .aclrtQueryEventStatus, _ | .aclrtSynchronizeEvent, _ | .ioSetup, _
  | .fdatasync _, _ => true
  | .aclrtSynchronizeStream, name => name != "sync failed ACL before CPU use"
  | _, _ => false

/-- No call fails but those that `io_tests` catches and those that clean up.  A stream that has been
created is not null, and a descriptor that is opened is not that of the socket. -/
def works : (c : Share.Call) → Share.Call.Reply c → Bool
  | .check op name, r => (caught op name || r.ret == 0) &&
      (op != .aclrtCreateStream || r.ret != 0 || r.out != 0)
  | .direct .unlink, r => r.ret == 0
  | .direct (.openFile _), r => r.ret != 0
  | _, _ => true

/-- The seed of the pattern with which a process hands the buffer over. -/
def handed : Party → ℕ → Option UInt64
  | .first, 0 => some 101
  | .second, 0 => some 202
  | .first, 1 => some 303
  | .second, 1 => some 404
  | _, _ => none

/-- What the words are: the token, the constant 303, a number of failures, and else 0. -/
def tells : Party → ℕ → UInt64 → Prop
  | .first, 0, _ => True
  | .first, 1, word => word = 303
  | .second, 1, word => word.toNat ≤ 7
  | _, _, word => word = 0

/-- What a message says. -/
def claims (bytes : ℕ) (x : Party) (n : ℕ) (m : Message) (content : ℕ → UInt64) : Prop :=
  (∀ seed, handed x n = some seed → Holds content bytes seed) ∧ tells x n m.word

/-- The two processes, with any content of their buffers. -/
def host (cfg : Config) (world : World) : Pair where
  program x := worker cfg (x == .second)
  claims := claims cfg.bytes
  world := world
  moves := fun _ => true
  works := works

/-! ## Facts that last -/

/-- A fact of a trace that further calls do not change. -/
structure Lasting where
  holds : List SHEvent → Prop
  lasts : ∀ t e, holds t → holds (t ++ [e])

namespace Lasting

/-- Nothing. -/
def none : Lasting := ⟨fun _ => True, fun _ _ _ => trivial⟩

/-- Both. -/
def and (D D' : Lasting) : Lasting :=
  ⟨fun t => D.holds t ∧ D'.holds t, fun t e h => ⟨D.lasts t e h.1, D'.lasts t e h.2⟩⟩

end Lasting

/-- A check has succeeded. -/
def did (op : Share.Op) (r : Answer) : Lasting where
  holds t := r.ret = 0 ∧ ∃ p name, (⟨p, .check op name, r⟩ : SHEvent) ∈ t
  lasts := by
    rintro t e ⟨hret, p, name, hmem⟩
    exact ⟨hret, p, name, List.mem_append_left _ hmem⟩

/-- The second word that was sent. -/
def reports (word : UInt64) : Lasting where
  holds t := ∃ m : Message, (sentList t)[1]? = some m ∧ m.word = word
  lasts := by
    rintro t e ⟨m, hm, hword⟩
    refine ⟨m, ?_, hword⟩
    unfold sentList at hm ⊢
    rw [List.filterMap_append]
    exact List.getElem?_append_left (List.getElem?_eq_some_iff.mp hm).1 ▸ hm

/-- The second word that was received. -/
def hears (word : UInt64) : Lasting where
  holds t := ∃ m : Message, (receivedList t)[1]? = some m ∧ m.word = word
  lasts := by
    rintro t e ⟨m, hm, hword⟩
    refine ⟨m, ?_, hword⟩
    unfold receivedList at hm ⊢
    rw [List.filterMap_append]
    exact List.getElem?_append_left (List.getElem?_eq_some_iff.mp hm).1 ▸ hm

/-- The importer has given back what it has reserved, imported and mapped. -/
def Freed (cfg : Config) (t : List SHEvent) : Prop :=
  ∃ reserved token imported unmapped released freed,
    (did (.halMemAddressReserve cfg.bytes) reserved).holds t ∧
    (did (.halMemImportFromShareableHandle 0 token) imported).holds t ∧
    (did (.halMemUnmap 0) unmapped).holds t ∧
    (did (.halMemRelease 0 imported.out) released).holds t ∧
    (did (.halMemAddressFree reserved.out) freed).holds t

/-! ## Calls that have nothing to do with the buffers -/

/-- Calls that have nothing to do with the buffers, the descriptors and the peer. -/
def aside : Share.Call → Bool
  | .check op _ | .cleanup op _ | .direct op =>
      match op with
      | .aclInit | .aclrtSetDevice _ | .halGetHostID | .halMemAddressReserve _ | .halMemCreate _ _
      | .halMemExportToShareableHandle _ | .halMemShareHandleSetAttribute _
      | .halMemImportFromShareableHandle _ _ | .halMemMap _ _ | .drvMemGetAttribute
      | .halMemUnmap _ | .halMemRelease _ _ | .halMemAddressFree _ | .aclrtResetDevice _
      | .aclFinalize => true
      | _ => false
  | _ => false

/-- What that means. -/
structure Aside (c : Share.Call) : Prop where
  next : ∀ (f : Flight) r, f.next c r = f
  puts : ∀ r, puts c r = none
  takes : ∀ r, takes c r = none
  lost : ∀ r, lost c r = false
  acquires : ∀ r, acquires c r = 0
  releases : releases c = 0
  passes : ∀ case, c ≠ .caseResult case true
  touches : ∀ b, ¬Touches b c
  written : ∀ moves words, written moves words c = words
  learn : ∀ k, learn k c = k
  close : c ≠ .direct (.close 0)

theorem aside_spec {c : Share.Call} (h : aside c = true) : Aside c := by
  cases c with
  | check op name =>
      cases op <;> first
        | (cases h; done)
        | exact ⟨fun _ _ => rfl, fun _ => rfl, fun _ => rfl, fun _ => rfl, fun _ => rfl, rfl,
            nofun, fun _ => id, fun _ _ => rfl, fun _ => rfl, nofun⟩
  | cleanup op name =>
      cases op <;> first
        | (cases h; done)
        | exact ⟨fun _ _ => rfl, fun _ => rfl, fun _ => rfl, fun _ => rfl, fun _ => rfl, rfl,
            nofun, fun _ => id, fun _ _ => rfl, fun _ => rfl, nofun⟩
  | direct op =>
      cases op <;> first
        | (cases h; done)
        | exact ⟨fun _ _ => rfl, fun _ => rfl, fun _ => rfl, fun _ => rfl, fun _ => rfl, rfl,
            nofun, fun _ => id, fun _ _ => rfl, fun _ => rfl, nofun⟩
  | _ => cases h

/-! ## Where a process stands -/

section Process

variable (cfg : Config) (world : World) (x : Party)

/-- What a call of a process has to keep to. -/
structure Orderly (t : List SHEvent) (p : Process) (c : Share.Call) : Prop where
  inTurn : (host cfg world).Worked t → Pair.InTurn x 3 t p c
  truthful : (host cfg world).Truthful x t p c
  ends : c = .direct (.close 0) ∨ (x = .first ∧ destroys c = true) →
    ∀ v, (host cfg world).SeesAlong x t v → ¬Lost t → sentWords t = 3 ∧ receivedWords t = 3
  wrote : ∀ fd m, c = .send fd m → ∀ v, (host cfg world).SeesAlong x t v →
    ∀ seed, handed x (sentWords t) = some seed →
      ∀ i < cfg.bytes / 8, known t shared i = some (pattern i seed)
  crosses : ∀ i expected phase, c = .compare shared i expected phase → phase ∈ crossing →
    (∃ n seed, receivedWords t = n + 1 ∧ handed x.other n = some seed ∧ i < cfg.bytes / 8 ∧
      expected = pattern i seed) ∧
    ∀ v, (host cfg world).SeesAlong x t v → ¬v.flight.Into shared ∧ v.words shared i = expected
  frees : x = .second → ∀ fd m, c = .send fd m → sentWords t = 2 → Freed cfg t

/-- The variables that matter, and the cases that have passed. -/
structure Account where
  passed : Set Case
  result : ℕ
  va : Ptr
  handle : Ptr

/-- What they are after a trace. -/
def account (p : Process) (t : List SHEvent) : Account where
  passed := {case | Passed case t}
  result := p.result
  va := p.va
  handle := p.handles 0

variable (k j : ℕ) (K K' : Account → Prop) (H H' : (ℕ → UInt64) → (ℕ → Option UInt64) → Prop)
  (D D' : Lasting)

/-- All has gone well: so many words have been sent and received, and nothing is in flight or held.
`K` says what the variables are, `H` what the shared buffer holds and what of it the process has
written, and `D` what else has happened. -/
structure Stands (p : Process) (t : List SHEvent) : Prop where
  sent : sentWords t = k
  received : receivedWords t = j
  kept : ¬Lost t
  landed : Landed p t
  held : accounts.Tracks ∅ t
  noted : Noted p t
  state : K (account p t)
  seen : ∀ v, (host cfg world).SeesAlong x t v → H (v.words shared) (known t shared)
  log : D.holds t

/-- The peer is gone. -/
def Fails (_p : Process) (t : List SHEvent) : Prop :=
  ∀ v, (host cfg world).SeesAlong x t v → Lost t

variable {cfg world x k j K K' H H' D D'} {p p' : Process} {t : List SHEvent} {e : SHEvent}

theorem Stands.mono (h : Stands cfg world x k j K H D p t) (hK : ∀ a, K a → K' a)
    (hH : ∀ w l, H w l → H' w l) (hD : ∀ t, D.holds t → D'.holds t) :
    Stands cfg world x k j K' H' D' p t :=
  ⟨h.sent, h.received, h.kept, h.landed, h.held, h.noted, hK _ h.state,
    fun v hv => hH _ _ (h.seen v hv), hD t h.log⟩

theorem account_concat (he : ∀ case, e.call ≠ .caseResult case true) :
    account p (t ++ [e]) = account p t := by
  have hsame : {case | Passed case (t ++ [e])} = {case | Passed case t} := by
    ext case
    exact passed_concat.trans (or_iff_left (he case))
  unfold account
  rw [hsame]

/-- No stream is null where the calls work. -/
theorem not_nullStream (h : (host cfg world).Worked t) : ¬NullStream t := by
  rintro ⟨⟨p, c, r⟩, he, hnull⟩
  have hfits := h _ he
  change nullStream c r at hnull
  unfold nullStream at hnull
  split at hnull
  · simp [Pair.fits, host, works, hnull.1, hnull.2] at hfits
  · exact hnull

/-- Nothing is in flight where the calls work. -/
theorem Landed.idle (h : Landed p t) (hworked : (host cfg world).Worked t) : (flight t).Idle :=
  ⟨h.2.resolve_left (not_nullStream hworked), h.1⟩

/-- What a process sees before and after a call, if nothing is in flight. -/
theorem sees_of_landed (hbefore : Landed p t) (hafter : Landed p (t ++ [e])) {v' : Pair.Sight}
    (hv' : (host cfg world).SeesAlong x (t ++ [e]) v') :
    ∃ v, (host cfg world).SeesAlong x t v ∧ (host cfg world).Sees x v e v' ∧
      v.flight.Idle ∧ v'.flight.Idle ∧ known (t ++ [e]) shared = learn (known t) e.call shared := by
  obtain ⟨v, hv, hsees⟩ := along_concat.mp hv'
  have hidle := hbefore.idle (Pair.SeesAlong.worked _ hv)
  have hidle' := hafter.idle (Pair.SeesAlong.worked _ hv')
  refine ⟨v, hv, hsees, ?_, ?_, ?_⟩
  · rwa [Pair.SeesAlong.flight_eq _ hv]
  · rwa [Pair.SeesAlong.flight_eq _ hv']
  · rw [known_concat, if_neg]
    exact not_or.mpr ⟨hidle.not_into shared, hidle'.not_into shared⟩

/-- What the shared buffer holds after a call that receives nothing. -/
theorem written_of_landed (hbefore : Landed p t) (hafter : Landed p (t ++ [e]))
    (htakes : takes e.call e.reply = none) (hcopy : ∀ b, ¬Sources b e.call) {v' : Pair.Sight}
    (hv' : (host cfg world).SeesAlong x (t ++ [e]) v') :
    ∃ v, (host cfg world).SeesAlong x t v ∧ v.flight.Idle ∧
      (host cfg world).Credible v e.call e.reply ∧
      v'.words shared = written (fun _ => true) v.words e.call shared ∧
      known (t ++ [e]) shared = learn (known t) e.call shared := by
  obtain ⟨v, hv, hsees, hidle, hidle', hknown⟩ := sees_of_landed hbefore hafter hv'
  refine ⟨v, hv, hidle, hsees.credible, ?_, hknown⟩
  exact hsees.kept shared (hidle.not_into _) (hidle'.not_into _) (fun b hb => absurd hb (hcopy b))
    fun _ => htakes

/-- A call that neither sends nor receives, acquires nothing and passes no case. -/
theorem Stands.next (h : Stands cfg world x k j K H D p t)
    (hlanded : Landed p' (t ++ [e])) (hputs : puts e.call e.reply = none)
    (htakes : takes e.call e.reply = none) (hlost : lost e.call e.reply = false)
    (hacquires : acquires e.call e.reply = 0) (hreleases : releases e.call = 0)
    (hpasses : ∀ case, e.call ≠ .caseResult case true) (hcopy : ∀ b, ¬Sources b e.call)
    (hnoted : Noted p' (t ++ [e])) (hsame : account p' t = account p t)
    (hH : ∀ v : Pair.Sight, H (v.words shared) (known t shared) → v.flight.Idle →
      (host cfg world).Credible v e.call e.reply →
      H' (written (fun _ => true) v.words e.call shared) (learn (known t) e.call shared)) :
    Stands cfg world x k j K H' D p' (t ++ [e]) := by
  have hwords := Pair.words_quiet (t := t) hputs htakes
  refine ⟨hwords.1.trans h.sent, hwords.2.trans h.received, not_lost_concat h.kept hlost, hlanded,
    h.held.quiet hacquires hreleases, hnoted, ?_, ?_, D.lasts t e h.log⟩
  · rw [account_concat hpasses, hsame]
    exact h.state
  · intro v' hv'
    obtain ⟨v, hv, hidle, hcredible, hwritten, hknown⟩ :=
      written_of_landed h.landed hlanded htakes hcopy hv'
    rw [hknown, hwritten]
    exact hH v (h.seen v hv) hidle hcredible

theorem Landed.same (h : Landed p t) (hnext : (flight t).next e.call e.reply = flight t) :
    Landed p' (t ++ [e]) := by
  unfold Landed
  rw [flight_concat, hnext]
  exact ⟨h.1, h.2.imp (fun hnull => hnull.concat e) id⟩

theorem Stands.aside (h : Stands cfg world x k j K H D p t) (hc : aside e.call = true)
    (hnoted : Noted p' (t ++ [e])) (hsame : account p' t = account p t) :
    Stands cfg world x k j K H D p' (t ++ [e]) := by
  have hspec := aside_spec hc
  refine h.next (h.landed.same (hspec.next _ _)) (hspec.puts _) (hspec.takes _) (hspec.lost _)
    (hspec.acquires _) hspec.releases hspec.passes (fun b hb => hspec.touches b ?_) hnoted hsame
    fun v hv _ _ => ?_
  · generalize e.call = c at hb
    unfold Sources at hb
    split at hb
    · exact .inr hb
    · cases hb
  · rwa [hspec.written, hspec.learn]

/-- Such a call is allowed. -/
theorem orderly_of_aside {c : Share.Call} (hc : aside c = true)
    (hends : x = .first → destroys c = true → ∀ v, (host cfg world).SeesAlong x t v → ¬Lost t →
      sentWords t = 3 ∧ receivedWords t = 3) : Orderly cfg world x t p c := by
  have hspec := aside_spec hc
  have hsend : ∀ fd m, c ≠ .send fd m := by
    rintro fd m rfl
    cases hc
  refine ⟨fun _ => ⟨fun h => absurd h (hspec.touches _), ?_, ?_⟩, ?_, ?_, ?_, ?_, ?_⟩
  · exact fun fd m h => absurd h (hsend fd m)
  · rintro fd expects rfl
    cases hc
  · exact fun fd m h => absurd h (hsend fd m)
  · rintro (h | ⟨hx, hdestroys⟩)
    · exact absurd h hspec.close
    · exact hends hx hdestroys
  · exact fun fd m h => absurd h (hsend fd m)
  · rintro i expected phase rfl
    cases hc
  · exact fun _ fd m h => absurd h (hsend fd m)

theorem Fails.concat (h : Fails cfg world x p t) : Fails cfg world x p' (t ++ [e]) := by
  intro v' hv'
  obtain ⟨v, hv, -⟩ := along_concat.mp hv'
  exact (lost_concat _ _).mpr (.inl (h v hv))

/-! ## Rules -/

variable {E : Process → List SHEvent → Prop}

/-- A check that is not caught succeeds. -/
theorem triple_did {op : Share.Op} {name : String} (hc : aside (.check op name) = true)
    (hcaught : caught op name = false) :
    Proc.Triple (Orderly cfg world x) (Stands cfg world x k j K H D) (check op name)
      (fun r => Stands cfg world x k j K H (D.and (did op r))) (Fails cfg world x) := by
  apply triple_check
  · exact fun p t _ => orderly_of_aside hc fun _ hdestroys => by cases hdestroys
  · intro p t r h hret
    have hnext : Stands cfg world x k j K H D p (t ++ [⟨p, .check op name, r⟩]) :=
      h.aside hc (h.noted.quiet rfl) rfl
    exact { hnext with log := ⟨hnext.log, hret, p, name, List.mem_concat_self⟩ }
  · intro p t r _ hret v hv
    have hfits := ((Pair.worked_concat _ _ _).mp (Pair.SeesAlong.worked _ hv)).2
    simp [Pair.fits, host, works, hcaught, hret] at hfits

theorem triple_works {op : Share.Op} {name : String} (hc : aside (.check op name) = true)
    (hcaught : caught op name = false) :
    Proc.Triple (Orderly cfg world x) (Stands cfg world x k j K H D) (check op name)
      (fun _ => Stands cfg world x k j K H D) (Fails cfg world x) :=
  (triple_did hc hcaught).weaken (fun _ _ h => h)
    (fun _ _ _ h => h.mono (fun _ h => h) (fun _ _ h => h) fun _ h => h.1) fun _ _ h => h

/-- A call whose result is not looked at. -/
theorem triple_direct {op : Share.Op} (hc : aside (.direct op) = true) :
    Proc.Triple (Orderly cfg world x) (Stands cfg world x k j K H D) (direct op)
      (fun _ => Stands cfg world x k j K H D) E :=
  Proc.triple_ask (fun p t _ => orderly_of_aside hc fun _ hdestroys => by cases hdestroys)
    fun p t r h => h.aside hc (h.noted.quiet rfl) rfl

variable (K') in
/-- A variable is set. -/
theorem triple_set {f : Process → Process} (hf : ∀ p, (f p).cleanupFailed = p.cleanupFailed)
    (hK : ∀ p t, K (account p t) → K' (account (f p) t)) :
    Proc.Triple (Orderly cfg world x) (Stands cfg world x k j K H D) (Proc.modify f : SH PUnit)
      (fun _ => Stands cfg world x k j K' H D) E := by
  apply Proc.triple_modify
  intro p t h
  refine ⟨h.sent, h.received, h.kept, h.landed, h.held, ?_, hK p t h.state, h.seen, h.log⟩
  unfold Noted
  rw [hf]
  exact h.noted

/-- An exception that is not thrown. -/
theorem triple_unless {c : Prop} [Decidable c] {what : String} (hH : ∀ w l, H w l → ¬c) :
    Proc.Triple (Orderly cfg world x) (Stands cfg world x k j K H D)
      (Proc.onlyIf c (fail what)) (fun _ => Stands cfg world x k j K H D) (Fails cfg world x) := by
  apply Proc.triple_onlyIf
  · intro hc
    exact triple_fail fun p t h v hv => absurd hc (hH _ _ (h.seen v hv))
  · exact fun _ p t h => h

/-- A call that has to do with the shared buffer, of a process that has the turn. -/
theorem Stands.orderly (h : Stands cfg world x k j K H D p t) (hturn : x.HasTurn k j)
    {c : Share.Call} (hsend : ∀ fd m, c ≠ .send fd m)
    (hreceive : ∀ fd expects, c ≠ .receive fd expects) (hclose : c ≠ .direct (.close 0))
    (hdestroys : destroys c = false)
    (hcrosses : ∀ i expected phase, c = .compare shared i expected phase → phase ∈ crossing →
      (∃ n seed, j = n + 1 ∧ handed x.other n = some seed ∧ i < cfg.bytes / 8 ∧
        expected = pattern i seed) ∧ ∀ w l, H w l → w i = expected) :
    Orderly cfg world x t p c := by
  refine ⟨fun _ => ⟨fun _ => ?_, ?_, ?_⟩, ?_, ?_, ?_, ?_, ?_⟩
  · rw [h.sent, h.received]
    exact hturn
  · exact fun fd m hc => absurd hc (hsend fd m)
  · exact fun fd expects hc => absurd hc (hreceive fd expects)
  · exact fun fd m hc => absurd hc (hsend fd m)
  · rintro (hc | ⟨-, hc⟩)
    · exact absurd hc hclose
    · rw [hdestroys] at hc
      cases hc
  · exact fun fd m hc => absurd hc (hsend fd m)
  · intro i expected phase hc hphase
    obtain ⟨hfacts, hholds⟩ := hcrosses i expected phase hc hphase
    refine ⟨by rwa [h.received], fun v hv => ⟨?_, hholds _ _ (h.seen v hv)⟩⟩
    rw [Pair.SeesAlong.flight_eq _ hv]
    exact (h.landed.idle (Pair.SeesAlong.worked _ hv)).not_into shared
  · exact fun _ fd m hc => absurd hc (hsend fd m)

/-- The first words of the shared buffer are those of the pattern, and the process has written
them. -/
def Wrote (n : ℕ) (seed : UInt64) (w : ℕ → UInt64) (l : ℕ → Option UInt64) : Prop :=
  ∀ i < n, w i = pattern i seed ∧ l i = some (pattern i seed)

/-- One more word is written. -/
theorem Wrote.store {n : ℕ} {seed : UInt64} {words : Words} {l : Knowledge}
    (h : Wrote n seed (words shared) (l shared)) :
    Wrote (n + 1) seed (written (fun _ => true) words (.store shared n (pattern n seed)) shared)
      (learn l (.store shared n (pattern n seed)) shared) := by
  intro i hi
  by_cases hin : i = n
  · subst hin
    simp [written, stored, learn]
  · have hold := h i (by omega)
    simpa [written, stored, learn, Function.update_of_ne hin] using hold

/-- `fill`. -/
theorem triple_fills {seed : UInt64} (hturn : x.HasTurn k j) :
    Proc.Triple (Orderly cfg world x) (Stands cfg world x k j K H D) (fill shared cfg.bytes seed)
      (fun _ => Stands cfg world x k j K (Wrote (cfg.bytes / 8) seed) D) E := by
  unfold fill
  refine Proc.Triple.weaken (Proc.triple_forM_range (I := fun n => Stands cfg world x k j K
    (Wrote n seed) D) ?_) ?_ (fun _ _ _ h => h) fun _ _ h => h
  · intro n hn
    apply Proc.triple_ask
    · exact fun p t h => h.orderly hturn nofun nofun nofun rfl nofun
    · intro p t r h
      refine h.next (h.landed.same rfl) rfl rfl rfl rfl rfl nofun (fun _ => id)
        (h.noted.quiet rfl) rfl ?_
      exact fun v hwrote _ _ => hwrote.store
  · exact fun p t h => h.mono (fun _ h => h) (fun w l _ i hi => absurd hi (by omega)) fun _ h => h

/-- `verify`: the buffer holds what is expected. -/
theorem triple_verifies {seed : UInt64} {phase : String} (hturn : x.HasTurn k j)
    (hH : ∀ w l, H w l → Holds w cfg.bytes seed)
    (hcrosses : phase ∈ crossing → ∃ n, j = n + 1 ∧ handed x.other n = some seed) :
    Proc.Triple (Orderly cfg world x) (Stands cfg world x k j K H D)
      (verify shared cfg.bytes seed phase) (fun _ => Stands cfg world x k j K H D)
      (Fails cfg world x) := by
  unfold verify
  refine Proc.Triple.weaken (Proc.triple_forM_range (I := fun _ => Stands cfg world x k j K H D) ?_)
    (fun _ _ h => h) (fun _ _ _ h => h) fun _ _ h => h
  intro n hn
  refine Proc.Triple.bind (Q := fun (actual : UInt64) p t' =>
    ∃ t, Stands cfg world x k j K H D p t ∧
    t' = t ++ [⟨p, .compare shared n (pattern n seed) phase, actual⟩]) ?_ fun actual => ?_
  · apply Proc.triple_ask
    · intro p t h
      refine h.orderly hturn nofun nofun nofun rfl ?_
      rintro _ _ _ ⟨⟩ hphase
      obtain ⟨m, hj, hhanded⟩ := hcrosses hphase
      exact ⟨⟨m, seed, hj, hhanded, hn, rfl⟩, fun w l hw => hH w l hw n hn⟩
    · exact fun p t r h => ⟨t, h, rfl⟩
  apply Proc.triple_onlyIf
  · -- this does not happen, since the process sees what the buffer holds
    intro hne
    apply triple_fail
    rintro p _ ⟨t, h, rfl⟩ v' hv'
    obtain ⟨v, hv, hidle, hcredible, -, -⟩ :=
      written_of_landed h.landed (h.landed.same rfl) rfl (fun _ => id) hv'
    have hread : actual = v.words shared n := hcredible.resolve_left (hidle.not_into shared)
    exact absurd (hread.trans (hH _ _ (h.seen v hv) n hn)) hne
  · rintro - p t' ⟨t, h, rfl⟩
    exact h.next (h.landed.same rfl) rfl rfl rfl rfl rfl nofun (fun _ => id) (h.noted.quiet rfl) rfl
      fun v hv _ _ => hv

/-- `send_word`. -/
theorem triple_sends {m : Message} (hturn : x.HasTurn k j) (hk : k < 3)
    (htells : ∀ w l, H w l → tells x k m.word)
    (hwrote : ∀ w l, H w l → ∀ seed, handed x k = some seed → Wrote (cfg.bytes / 8) seed w l)
    (hfrees : x = .second → k = 2 → ∀ t, D.holds t → Freed cfg t)
    (hD : ∀ t p, sentWords t = k → D.holds t → D'.holds (t ++ [⟨p, .send 0 m, true⟩])) :
    Proc.Triple (Orderly cfg world x) (Stands cfg world x k j K H D) (sendWord 0 m)
      (fun _ => Stands cfg world x (k + 1) j K H D') (Fails cfg world x) := by
  unfold sendWord
  refine Proc.Triple.bind (Q := fun (sent : Bool) p t' => ∃ t, Stands cfg world x k j K H D p t ∧
      t' = t ++ [⟨p, .send 0 m, sent⟩]) ?_ fun sent => ?_
  · apply Proc.triple_ask
    · intro p t h
      -- the word says what the buffer holds, and the sender has the turn
      refine ⟨fun hworked => ⟨nofun, ?_, nofun⟩, ?_, ?_, ?_, nofun, ?_⟩
      · rintro _ _ ⟨⟩
        have hidle := h.landed.idle hworked
        rw [h.sent, h.received]
        exact ⟨hturn, hk, by simp [Flight.Uses, hidle.copies, hidle.requests]⟩
      · rintro _ _ ⟨⟩ v hv
        rw [h.sent]
        have hseen := h.seen v hv
        exact ⟨fun seed hseed i hi => (hwrote _ _ hseen seed hseed i hi).1, htells _ _ hseen⟩
      · rintro (hc | ⟨-, hc⟩) <;> cases hc
      · rintro _ _ ⟨⟩ v hv seed hseed i hi
        rw [h.sent] at hseed
        exact (hwrote _ _ (h.seen v hv) seed hseed i hi).2
      · rintro hx _ _ ⟨⟩ hsent
        exact hfrees hx (h.sent.symm.trans hsent) t h.log
    · exact fun p t r h => ⟨t, h, rfl⟩
  apply Proc.triple_onlyIf
  · -- the peer is gone
    rintro rfl
    apply triple_fail
    rintro p _ ⟨t, h, rfl⟩ v' hv'
    exact (lost_concat _ _).mpr (.inr rfl)
  · intro hsent p t' hstands
    obtain ⟨t, h, rfl⟩ := hstands
    obtain rfl : sent = true := by simpa using hsent
    have hlanded : Landed p (t ++ [⟨p, .send 0 m, true⟩]) := h.landed.same rfl
    refine ⟨?_, ?_, not_lost_concat h.kept rfl, hlanded, h.held.quiet rfl rfl,
      h.noted.quiet rfl, ?_,
      ?_, hD t p h.sent h.log⟩
    · rw [sentWords_concat, h.sent]
      rfl
    · rw [receivedWords_concat, h.received]
      rfl
    · rw [account_concat (by exact nofun)]
      exact h.state
    · intro v' hv'
      obtain ⟨v, hv, -, -, hwritten, hknown⟩ :=
        written_of_landed h.landed hlanded rfl (fun _ => id) hv'
      rw [hwritten, hknown]
      exact h.seen v hv

/-- `receive_word`: the word says what the shared buffer holds. -/
theorem triple_receives {H' : UInt64 → (ℕ → UInt64) → (ℕ → Option UInt64) → Prop}
    {D' : UInt64 → Lasting} {expects : Purpose} (hwaits : x.Waits k j) (hj : j < 3)
    (hH : ∀ w l w' l' m, H w l → claims cfg.bytes x.other j m w' → H' m.word w' l')
    (hD : ∀ t p m, receivedWords t = j → D.holds t →
      (D' m.word).holds (t ++ [⟨p, .receive 0 expects, some m⟩])) :
    Proc.Triple (Orderly cfg world x) (Stands cfg world x k j K H D) (receiveWord 0 expects)
      (fun word => Stands cfg world x k (j + 1) K (H' word) (D' word)) (Fails cfg world x) := by
  unfold receiveWord
  refine Proc.Triple.bind (Q := fun (received : Option Message) p t' => ∃ t,
    Stands cfg world x k j K H D p t ∧ t' = t ++ [⟨p, .receive 0 expects, received⟩]) ?_
    fun received => ?_
  · apply Proc.triple_ask
    · intro p t h
      refine ⟨fun _ => ⟨nofun, nofun, ?_⟩, nofun, ?_, nofun, nofun, nofun⟩
      · intro _ _ _
        rw [h.sent, h.received]
        exact ⟨hwaits, hj⟩
      · rintro (hc | ⟨-, hc⟩) <;> cases hc
    · exact fun p t r h => ⟨t, h, rfl⟩
  cases received with
  | none =>
      apply triple_fail
      rintro p _ ⟨t, h, rfl⟩ v' hv'
      exact (lost_concat _ _).mpr (.inr rfl)
  | some m =>
      apply Proc.triple_pure
      rintro p _ ⟨t, h, rfl⟩
      have hlanded : Landed p (t ++ [⟨p, .receive 0 expects, some m⟩]) := h.landed.same rfl
      refine ⟨?_, ?_, not_lost_concat h.kept rfl, hlanded, h.held.quiet rfl rfl, h.noted.quiet rfl,
        ?_, ?_, hD t p m h.received h.log⟩
      · rw [sentWords_concat, h.sent]
        rfl
      · rw [receivedWords_concat, h.received]
        rfl
      · rw [account_concat (by exact nofun)]
        exact h.state
      -- the word says what the buffer holds now
      · intro v' hv'
        obtain ⟨v, hv, hsees, -, -, -⟩ := sees_of_landed h.landed hlanded hv'
        have hhanded := hsees.handed m rfl
        rw [Pair.SeesAlong.received_eq _ hv, h.received] at hhanded
        exact hH _ _ _ _ m (h.seen v hv) hhanded

end Process

end SharingProbe.HostShare
