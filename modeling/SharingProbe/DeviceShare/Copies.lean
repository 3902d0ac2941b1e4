import SharingProbe.DeviceShare.Model
import SharingProbe.Share.Pair
import SharingProbe.Share.Pattern
import SharingProbe.Share.Rules

/-!
# Copies that move nothing

All calls of the two processes work, but some copies report success and move no data.  A
vector starts out cleared, and so does that of the importer before the last copy; HBM does not.
A copy into HBM that moves nothing therefore goes unnoticed where HBM holds the pattern of seed
101 already, as it does when the same memory has been used by an earlier run.  Every other copy
that moves nothing is noticed.

## Strategy

The run is followed in one process first.  `Stands k j K p t` says that nothing has gone wrong so
far: `k` words have been sent and `j` received, and the buffers that the process sees are as `K`
says.  There is one rule for each kind of call (`triple_memcpy`, `triple_fills`, `triple_verifies`,
`triple_sends`, `triple_receives`), where `K` follows what the call moves; `Passes` is what has
to be the case for every comparison of a process to succeed.  `triple_creator` and
`triple_importer` put the rules together, and `triple_worker` adds the clean-up.

Both processes are then a `Pair` whose programs are `fair`.  If no `verify` has thrown, each has
found what it compares (`passes_of_calm`); if one has, it was right (`not_passes_of_threw`);
`noticed_iff` says of the copies what `Passes` says of the processes.
-/

namespace SharingProbe.DeviceShare

open Interaction Network Transition Evolution Share

/-- All copies. -/
def Copy.all : List Copy :=
  [.hostToHbm, .hbmToHost, .sharedToHbm, .importedToHost, .patternToHbm, .hbmToShared,
    .sharedToHost]

/-- The copies that move their data, by their texts. -/
def moving (moved : Copy → Bool) (what : String) : Bool :=
  Copy.all.all fun copy => copy.what != what || moved copy

theorem moving_what (moved : Copy → Bool) (copy : Copy) : moving moved copy.what = moved copy := by
  cases copy <;> simp [moving, Copy.all, Copy.what]

/-- What the words say: the creator hands the buffer over with the pattern of seed 101, the
importer with that of seed 202, and every word that is checked is 0. -/
def claims (bytes : ℕ) : Party → ℕ → Message → (ℕ → UInt64) → Prop
  | .first, 0, _, content => Holds content bytes 101
  | .second, 0, m, content => m.word = 0 ∧ Holds content bytes 202
  | _, _, m, _ => m.word = 0

/-- All calls work. -/
def works : (c : Share.Call) → Share.Call.Reply c → Bool
  | .check _ _, r => r.ret == 0
  | .cleanup _ _, r => r.ret == 0
  | .direct .dlopen, r => r.out != 0
  | .direct .dlsym, r => r.out != 0
  | _, _ => true

/-- The two processes, with any content of their buffers. -/
def device (bytes : ℕ) (world : World) (moved : Copy → Bool) : Pair where
  program x := worker bytes (x == .second)
  claims := claims bytes
  world := world
  moves := moving moved
  works := works

/-! ## When `verify` throws -/

/-- `verify` has thrown. -/
def VerifyThrew (t : List SHEvent) : Prop := ∃ e ∈ t, mismatch e.call e.reply = true

theorem verifyThrew_concat (t : List SHEvent) (e : SHEvent) :
    VerifyThrew (t ++ [e]) ↔ VerifyThrew t ∨ mismatch e.call e.reply = true := by
  simp [VerifyThrew, or_and_right, exists_or]

/-- What has to be so for a process to pass: its copies move their data, but for the first one if
HBM holds the pattern already. -/
def Passes (bytes : ℕ) (world : World) (moved : Copy → Bool) : Party → Prop
  | .first => (moved .hostToHbm = true ∨ Holds (world.own .first hbm) bytes 101) ∧
      moved .hbmToHost = true
  | .second => (moved .sharedToHbm = true ∨ Holds (world.own .second hbm) bytes 101) ∧
      moved .importedToHost = true ∧ moved .patternToHbm = true ∧ moved .hbmToShared = true ∧
      moved .sharedToHost = true

/-! ## Calls that have nothing to do with the buffers -/

/-- The call has nothing to do with the buffers, nor with the peer. -/
def uneventful : Share.Call → Bool
  | .check op _ | .cleanup op _ | .direct op =>
      match op with
      | .aclrtMemset _ | .aclrtMemcpyAsync _ _ _ | .aclrtRecordEvent | .aclrtSynchronizeEvent
      | .aclrtSynchronizeStream | .ioSubmit _ _ | .ioGetevents _ | .ioDestroy _ | .halMemcpy _ _
      | .close _ => false
      | _ => true
  | _ => false

/-- What that means. -/
structure Uneventful (c : Share.Call) : Prop where
  next : ∀ (f : Flight) r, f.next c r = f
  puts : ∀ r, puts c r = none
  takes : ∀ r, takes c r = none
  lost : ∀ r, lost c r = false
  mismatch : ∀ r, mismatch c r = false
  touches : ∀ b, ¬Touches b c
  written : ∀ moves words, written moves words c = words
  close : c ≠ .direct (.close 0)

theorem uneventful_spec {c : Share.Call} (h : uneventful c = true) : Uneventful c := by
  cases c with
  | check op name =>
      cases op <;> first
        | (cases h; done)
        | exact ⟨fun _ _ => rfl, fun _ => rfl, fun _ => rfl, fun _ => rfl, fun _ => rfl,
            fun _ => id, fun _ _ => rfl, by simp⟩
  | cleanup op name =>
      cases op <;> first
        | (cases h; done)
        | exact ⟨fun _ _ => rfl, fun _ => rfl, fun _ => rfl, fun _ => rfl, fun _ => rfl,
            fun _ => id, fun _ _ => rfl, by simp⟩
  | direct op =>
      cases op <;> first
        | (cases h; done)
        | exact ⟨fun _ _ => rfl, fun _ => rfl, fun _ => rfl, fun _ => rfl, fun _ => rfl,
            fun _ => id, fun _ _ => rfl, by simp⟩
  | _ => cases h

/-! ## One process -/

section Process

variable {bytes : ℕ} {world : World} {moved : Copy → Bool} {x : Party} {k j : ℕ}
  {K K' : Words → Prop}

/-- No comparison has failed. -/
def Calm (t : List SHEvent) : Prop := ¬VerifyThrew t

theorem Calm.concat {t : List SHEvent} {e : SHEvent} (h : Calm t)
    (he : mismatch e.call e.reply = false) : Calm (t ++ [e]) := by
  unfold Calm
  rw [verifyThrew_concat, he]
  exact not_or.mpr ⟨h, Bool.false_ne_true⟩

variable (bytes world moved x) in
/-- What a call of a process has to keep to. -/
structure Allowed (t : List SHEvent) (p : Process) (c : Share.Call) : Prop where
  inTurn : Pair.InTurn x 2 t p c
  truthful : (device bytes world moved).Truthful x t p c
  completes : (device bytes world moved).Completes Calm x 2 t p c

variable (bytes world moved x k j K) in
/-- All has gone well: so many words have been sent and received, no cleanup has failed, and the
buffers are as `K` says. -/
structure Stands (p : Process) (t : List SHEvent) : Prop where
  sent : sentWords t = k
  received : receivedWords t = j
  flight : flight t = {}
  calm : Calm t
  kept : ¬Lost t
  result : p.result = 0
  clean : (∃ v, (device bytes world moved).SeesAlong x t v) → p.cleanupFailed = false
  seen : ∀ v, (device bytes world moved).SeesAlong x t v → K v.words

variable (bytes world moved x) in
/-- Something has gone wrong: `verify` has thrown, and rightly so, or the peer is gone. -/
def Fails (_p : Process) (t : List SHEvent) : Prop :=
  ∀ v, (device bytes world moved).SeesAlong x t v →
    (VerifyThrew t ∧ ¬Passes bytes world moved x) ∨ (Calm t ∧ Lost t)

variable {p p' : Process} {t : List SHEvent} {e : SHEvent}

theorem Stands.mono (h : Stands bytes world moved x k j K p t) (hK : ∀ w, K w → K' w)
    (hsame : p'.result = p.result ∧ p'.cleanupFailed = p.cleanupFailed) :
    Stands bytes world moved x k j K' p' t :=
  ⟨h.sent, h.received, h.flight, h.calm, h.kept, hsame.1.trans h.result,
    fun hv => hsame.2.trans (h.clean hv), fun v hv => hK _ (h.seen v hv)⟩

theorem Stands.clean_before (h : Stands bytes world moved x k j K p t) :
    (∃ v, (device bytes world moved).SeesAlong x (t ++ [e]) v) → p.cleanupFailed = false := by
  rintro ⟨v', hv'⟩
  obtain ⟨v, hv, -⟩ := along_concat.mp hv'
  exact h.clean ⟨v, hv⟩

/-- What is seen after a call that receives nothing. -/
theorem Stands.seen_next (h : Stands bytes world moved x k j K p t)
    (hnext : ({} : Flight).next e.call e.reply = {}) (htakes : takes e.call e.reply = none)
    {v' : Pair.Sight} (hv' : (device bytes world moved).SeesAlong x (t ++ [e]) v') :
    ∃ v, K v.words ∧ v.flight = {} ∧ (device bytes world moved).Credible v e.call e.reply ∧
      v'.words = written (moving moved) v.words e.call := by
  obtain ⟨v, hv, hsees⟩ := along_concat.mp hv'
  have hidle : v.flight = {} := by rw [Pair.SeesAlong.flight_eq _ hv, h.flight]
  have hidle' : v'.flight = {} := by rw [hsees.flight, hidle, hnext]
  have hnot : ∀ b, ¬({} : Flight).Into b := Flight.Idle.not_into ⟨rfl, rfl⟩
  refine ⟨v, h.seen v hv, hidle, hsees.credible, funext fun b => ?_⟩
  apply hsees.kept b
  · rw [hidle]
    exact hnot b
  · rw [hidle']
    exact hnot b
  · intro a _
    rw [hidle]
    exact hnot a
  · exact fun _ => htakes

/-- A call that neither sends nor receives, and that works. -/
theorem Stands.next (h : Stands bytes world moved x k j K p t)
    (hnext : ({} : Flight).next e.call e.reply = {}) (hputs : puts e.call e.reply = none)
    (htakes : takes e.call e.reply = none) (hlost : lost e.call e.reply = false)
    (hmismatch : mismatch e.call e.reply = false)
    (hK : ∀ v : Pair.Sight, K v.words → v.flight = {} →
      (device bytes world moved).Credible v e.call e.reply →
      K' (written (moving moved) v.words e.call)) :
    Stands bytes world moved x k j K' p (t ++ [e]) := by
  have hwords := Pair.words_quiet (t := t) hputs htakes
  refine ⟨hwords.1.trans h.sent, hwords.2.trans h.received, ?_, h.calm.concat hmismatch,
    not_lost_concat h.kept hlost, h.result, h.clean_before, ?_⟩
  · rw [flight_concat, h.flight, hnext]
  · intro v' hv'
    obtain ⟨v, hv, hflight, hcredible, hwritten⟩ := h.seen_next hnext htakes hv'
    rw [hwritten]
    exact hK v hv hflight hcredible

/-- A call that has nothing to do with the buffers is allowed. -/
theorem allowed_of_uneventful {c : Share.Call} (hc : uneventful c = true) :
    Allowed bytes world moved x t p c := by
  have hspec := uneventful_spec hc
  refine ⟨⟨fun h => absurd h (hspec.touches _), ?_, ?_⟩, ?_, fun h => absurd h hspec.close⟩
  · rintro fd m rfl
    cases hc
  · rintro fd expects rfl
    cases hc
  · rintro fd m rfl
    cases hc

theorem Stands.uneventful (h : Stands bytes world moved x k j K p t)
    (hc : uneventful e.call = true) : Stands bytes world moved x k j K p (t ++ [e]) := by
  have hspec := uneventful_spec hc
  refine h.next (hspec.next _ _) (hspec.puts _) (hspec.takes _) (hspec.lost _) (hspec.mismatch _) ?_
  intro v hK _ _
  rwa [hspec.written]

theorem Fails.uneventful (h : Fails bytes world moved x p t) (hc : uneventful e.call = true) :
    Fails bytes world moved x p' (t ++ [e]) := by
  have hspec := uneventful_spec hc
  intro v' hv'
  obtain ⟨v, hv, -⟩ := along_concat.mp hv'
  unfold Calm
  rw [verifyThrew_concat, lost_concat, hspec.mismatch, hspec.lost]
  simpa [Calm] using h v hv

/-! ### Rules -/

variable {E : Process → List SHEvent → Prop}

/-- A call that throws if it fails: it works. -/
theorem triple_works {op : Share.Op} {name : String} (hc : uneventful (.check op name) = true) :
    Proc.Triple (Allowed bytes world moved x) (Stands bytes world moved x k j K) (check op name)
      (fun _ => Stands bytes world moved x k j K) (Fails bytes world moved x) := by
  apply triple_check
  · exact fun p t _ => allowed_of_uneventful hc
  · exact fun p t r h _ => h.uneventful hc
  · intro p t r h hret v' hv'
    obtain ⟨v, hv, hsees⟩ := along_concat.mp hv'
    have hwork : r.ret = 0 := by simpa [Pair.Credible, device, works] using hsees.credible
    exact absurd hwork hret

/-- A call whose result is not looked at. -/
theorem triple_direct {op : Share.Op} (hc : uneventful (.direct op) = true) :
    Proc.Triple (Allowed bytes world moved x) (Stands bytes world moved x k j K) (direct op)
      (fun _ => Stands bytes world moved x k j K) E :=
  Proc.triple_ask (fun _ _ _ => allowed_of_uneventful hc) fun _ _ _ h => h.uneventful hc

/-- A call that resolves a name. -/
theorem triple_resolve {op : Share.Op} (hc : uneventful (.direct op) = true)
    (hworks : ∀ r, works (.direct op) r = (r.out != 0)) :
    Proc.Triple (Allowed bytes world moved x) (Stands bytes world moved x k j K) (direct op)
      (fun r => Stands bytes world moved x k j fun w => K w ∧ r.out ≠ 0) E := by
  apply Proc.triple_ask
  · exact fun p t _ => allowed_of_uneventful hc
  · intro p t r h
    have hspec := uneventful_spec hc
    refine h.next (hspec.next _ _) (hspec.puts _) (hspec.takes _) (hspec.lost _)
      (hspec.mismatch _) ?_
    intro v hK _ hcredible
    rw [hspec.written]
    have hout : works (.direct op) r = true := hcredible
    rw [hworks] at hout
    exact ⟨hK, by simpa using hout⟩

/-- A variable that does not count is set. -/
theorem triple_set {f : Process → Process}
    (hf : ∀ p, (f p).result = p.result ∧ (f p).cleanupFailed = p.cleanupFailed) :
    Proc.Triple (Allowed bytes world moved x) (Stands bytes world moved x k j K)
      (Proc.modify f : SH PUnit) (fun _ => Stands bytes world moved x k j K) E :=
  Proc.triple_modify fun p _ h => h.mono (fun _ hK => hK) (hf p)

/-- An exception that is not thrown. -/
theorem triple_unreached {c : Prop} [Decidable c] {what : String} (hK : ∀ w, K w → ¬c) :
    Proc.Triple (Allowed bytes world moved x) (Stands bytes world moved x k j K)
      (Proc.onlyIf c (fail what)) (fun _ => Stands bytes world moved x k j K)
      (Fails bytes world moved x) := by
  apply Proc.triple_onlyIf
  · intro hc
    exact triple_fail fun p t h v hv => absurd hc (hK _ (h.seen v hv))
  · exact fun _ p t h => h

/-- A call that writes to the buffers, of a process that has the turn if need be. -/
theorem Stands.allowed (h : Stands bytes world moved x k j K p t) {c : Share.Call}
    (hturn : Touches common c → x.HasTurn k j) (hsend : ∀ fd m, c ≠ .send fd m)
    (hreceive : ∀ fd expects, c ≠ .receive fd expects) (hclose : c ≠ .direct (.close 0)) :
    Allowed bytes world moved x t p c := by
  refine ⟨⟨fun htouches => ?_, ?_, ?_⟩, ?_, fun hc => absurd hc hclose⟩
  · rw [h.sent, h.received]
    exact hturn htouches
  · exact fun fd m hc => absurd hc (hsend fd m)
  · exact fun fd expects hc => absurd hc (hreceive fd expects)
  · exact fun fd m hc => absurd hc (hsend fd m)

/-- `halMemcpy`. -/
theorem triple_memcpy {copy : Copy} (hturn : x.HasTurn k j)
    (hK : ∀ w, K w →
      K' (if moved copy = true then Function.update w copy.dst (w copy.src) else w)) :
    Proc.Triple (Allowed bytes world moved x) (Stands bytes world moved x k j K) (memcpy copy)
      (fun _ => Stands bytes world moved x k j K') (Fails bytes world moved x) := by
  unfold memcpy
  refine Proc.Triple.bind (triple_check (Q := fun _ => Stands bytes world moved x k j K') ?_ ?_ ?_)
    fun _ => Proc.triple_pure fun _ _ h => h
  · exact fun p t h => h.allowed (fun _ => hturn) nofun nofun nofun
  · intro p t r h _
    refine h.next rfl rfl rfl rfl rfl fun v hv _ _ => ?_
    have hwritten := hK _ hv
    rwa [← moving_what moved copy] at hwritten
  · intro p t r h hret v' hv'
    obtain ⟨v, hv, hsees⟩ := along_concat.mp hv'
    have hwork : r.ret = 0 := by simpa [Pair.Credible, device, works] using hsees.credible
    exact absurd hwork hret

/-- `memset`, or a vector that is set up. -/
theorem triple_clear {b : Buffer} (hb : b ≠ common)
    (hK : ∀ w, K w → K' (Function.update w b fun _ => 0)) :
    Proc.Triple (Allowed bytes world moved x) (Stands bytes world moved x k j K) (clear b)
      (fun _ => Stands bytes world moved x k j K') E := by
  unfold clear
  apply Proc.triple_ask
  · exact fun p t h => h.allowed (fun h => absurd h hb) nofun nofun nofun
  · exact fun p t r h => h.next rfl rfl rfl rfl rfl fun v hv _ _ => hK _ hv

/-- `fill`. -/
theorem triple_fills {b : Buffer} {seed : UInt64} (hturn : x.HasTurn k j)
    (hK : ∀ w w', K w → (∀ b', b' ≠ b → w' b' = w b') → Holds (w' b) bytes seed → K' w') :
    Proc.Triple (Allowed bytes world moved x) (Stands bytes world moved x k j K)
      (fill b bytes seed) (fun _ => Stands bytes world moved x k j K') E := by
  unfold fill
  refine Proc.Triple.weaken (Proc.triple_forM_range (I := fun n => Stands bytes world moved x k j
    fun w' => ∃ w, K w ∧ (∀ b', b' ≠ b → w' b' = w b') ∧ ∀ i < n, w' b i = pattern i seed) ?_)
    ?_ ?_ fun _ _ h => h
  · intro n hn
    apply Proc.triple_ask
    · exact fun p t h => h.allowed (fun _ => hturn) nofun nofun nofun
    · refine fun p t r h => h.next rfl rfl rfl rfl rfl ?_
      rintro v ⟨w, hw, hother, hfirst⟩ _ _
      refine ⟨w, hw, fun b' hb' => ?_, fun i hi => ?_⟩
      · calc written (moving moved) v.words (.store b n (pattern n seed)) b' = v.words b' :=
              Function.update_of_ne hb' _ _
          _ = w b' := hother b' hb'
      · change Function.update v.words b _ b i = _
        rw [Function.update_self]
        by_cases hin : i = n
        · subst hin
          exact Function.update_self _ _ _
        · rw [Function.update_of_ne hin]
          exact hfirst i (by omega)
  · exact fun p t h => h.mono (fun w hw => ⟨w, hw, fun _ _ => rfl, by omega⟩) ⟨rfl, rfl⟩
  · exact fun _ p t h => h.mono (fun w' ⟨w, hw, hother, hall⟩ => hK w w' hw hother hall) ⟨rfl, rfl⟩

/-- `verify`. -/
theorem triple_verifies {b : Buffer} {seed : UInt64} {phase : String} (hturn : x.HasTurn k j)
    (hfails : ∀ w, K w → ¬Holds (w b) bytes seed → ¬Passes bytes world moved x) :
    Proc.Triple (Allowed bytes world moved x) (Stands bytes world moved x k j K)
      (verify b bytes seed phase)
      (fun _ => Stands bytes world moved x k j fun w => K w ∧ Holds (w b) bytes seed)
      (Fails bytes world moved x) := by
  unfold verify
  refine Proc.Triple.weaken (Proc.triple_forM_range (I := fun n => Stands bytes world moved x k j
    fun w => K w ∧ ∀ i < n, w b i = pattern i seed) ?_) ?_ ?_ fun _ _ h => h
  · intro n hn
    refine Proc.Triple.bind (Q := fun (actual : UInt64) p t' => ∃ t, Stands bytes world moved x k j
      (fun w => K w ∧ ∀ i < n, w b i = pattern i seed) p t ∧
      t' = t ++ [⟨p, .compare b n (pattern n seed) phase, actual⟩]) ?_ fun actual => ?_
    · apply Proc.triple_ask
      · exact fun p t h => h.allowed (fun _ => hturn) nofun nofun nofun
      · exact fun p t r h => ⟨t, h, rfl⟩
    apply Proc.triple_onlyIf
    · -- the word is not what it should be
      intro hne
      apply triple_fail
      rintro p _ ⟨t, h, rfl⟩ v' hv'
      obtain ⟨v, hv, hsees⟩ := along_concat.mp hv'
      obtain ⟨hK, -⟩ := h.seen v hv
      have hidle : v.flight = {} := by rw [Pair.SeesAlong.flight_eq _ hv, h.flight]
      have hread : actual = v.words b n := by
        refine hsees.credible.resolve_left ?_
        rw [hidle]
        exact Flight.Idle.not_into ⟨rfl, rfl⟩ b
      refine .inl ⟨(verifyThrew_concat _ _).mpr (.inr (by simpa [mismatch] using hne)), ?_⟩
      apply hfails _ hK
      intro hholds
      exact hne (hread.trans (hholds n hn))
    -- the word is the one that is expected, and the words before it were
    · intro heq p t' hstands
      obtain ⟨t, h, rfl⟩ := hstands
      have heq : actual = pattern n seed := not_not.mp heq
      refine h.next rfl rfl rfl rfl (by simp [mismatch, heq]) ?_
      rintro v ⟨hK, hfirst⟩ hidle hcredible
      refine ⟨hK, fun i hi => ?_⟩
      by_cases hin : i = n
      · subst hin
        have hread : actual = v.words b i := by
          refine hcredible.resolve_left ?_
          rw [hidle]
          exact Flight.Idle.not_into ⟨rfl, rfl⟩ b
        exact hread.symm.trans heq
      · exact hfirst i (by omega)
  · exact fun p t h => h.mono (fun w hw => ⟨hw, by omega⟩) ⟨rfl, rfl⟩
  · exact fun _ p t h => h.mono (fun w hw => hw) ⟨rfl, rfl⟩

/-- `send_word`. -/
theorem triple_sends {fd : ℕ} {m : Message} (hturn : x.HasTurn k j) (hk : k < 2)
    (hclaims : ∀ w, K w → claims bytes x k m (w common)) :
    Proc.Triple (Allowed bytes world moved x) (Stands bytes world moved x k j K) (sendWord fd m)
      (fun _ => Stands bytes world moved x (k + 1) j K) (Fails bytes world moved x) := by
  unfold sendWord
  refine Proc.Triple.bind (Q := fun (sent : Bool) p t' =>
    ∃ t, Stands bytes world moved x k j K p t ∧
      t' = t ++ [⟨p, .send fd m, sent⟩]) ?_ fun sent => ?_
  · apply Proc.triple_ask
    · intro p t h
      refine ⟨⟨nofun, ?_, nofun⟩, ?_, nofun⟩
      · rintro _ _ ⟨⟩
        rw [h.sent, h.received, h.flight]
        exact ⟨hturn, hk, by simp [Flight.Uses]⟩
      · rintro _ _ ⟨⟩ v hv
        rw [h.sent]
        exact hclaims _ (h.seen v hv)
    · exact fun p t r h => ⟨t, h, rfl⟩
  apply Proc.triple_onlyIf
  · -- the peer is gone
    rintro rfl
    apply triple_fail
    rintro p _ ⟨t, h, rfl⟩ v' hv'
    exact .inr ⟨h.calm.concat rfl, (lost_concat _ _).mpr (.inr rfl)⟩
  · intro hsent p t' hstands
    obtain ⟨t, h, rfl⟩ := hstands
    obtain rfl : sent = true := by simpa using hsent
    refine ⟨?_, ?_, ?_, h.calm.concat rfl, not_lost_concat h.kept rfl, h.result, h.clean_before, ?_⟩
    · rw [sentWords_concat, h.sent]
      rfl
    · rw [receivedWords_concat, h.received]
      rfl
    · rw [flight_concat, h.flight]
      rfl
    · intro v' hv'
      obtain ⟨v, hv, -, -, hwritten⟩ := h.seen_next rfl rfl hv'
      rw [hwritten]
      exact hv

/-- `receive_word`: the common buffer may have changed, and the word says how. -/
theorem triple_receives {K' : UInt64 → Words → Prop} {fd : ℕ} {expects : Purpose}
    (hwaits : x.Waits k j) (hj : j < 2)
    (hK : ∀ w w' m, K w → (∀ b, b ≠ common → w' b = w b) → claims bytes x.other j m (w' common) →
      K' m.word w') :
    Proc.Triple (Allowed bytes world moved x) (Stands bytes world moved x k j K)
      (receiveWord fd expects) (fun word => Stands bytes world moved x k (j + 1) (K' word))
      (Fails bytes world moved x) := by
  unfold receiveWord
  refine Proc.Triple.bind (Q := fun (received : Option Message) p t' => ∃ t,
    Stands bytes world moved x k j K p t ∧ t' = t ++ [⟨p, .receive fd expects, received⟩]) ?_
    fun received => ?_
  · apply Proc.triple_ask
    · intro p t h
      refine ⟨⟨nofun, nofun, ?_⟩, nofun, nofun⟩
      intro _ _ _
      rw [h.sent, h.received]
      exact ⟨hwaits, hj⟩
    · exact fun p t r h => ⟨t, h, rfl⟩
  cases received with
  -- the peer is gone
  | none =>
      apply triple_fail
      rintro p _ ⟨t, h, rfl⟩ v' hv'
      exact .inr ⟨h.calm.concat rfl, (lost_concat _ _).mpr (.inr rfl)⟩
  | some m =>
      apply Proc.triple_pure
      rintro p _ ⟨t, h, rfl⟩
      refine ⟨?_, ?_, ?_, h.calm.concat rfl, not_lost_concat h.kept rfl, h.result,
        h.clean_before, ?_⟩
      · rw [sentWords_concat, h.sent]
        rfl
      · rw [receivedWords_concat, h.received]
        rfl
      · rw [flight_concat, h.flight]
        rfl
      · intro v' hv'
        -- the own buffers are untouched, since nothing is in flight
        obtain ⟨v, hv, hsees⟩ := along_concat.mp hv'
        have hidle : v.flight = {} := by rw [Pair.SeesAlong.flight_eq _ hv, h.flight]
        have hidle' : v'.flight = {} := by
          rw [hsees.flight, hidle]
          rfl
        have hnot : ∀ b, ¬({} : Flight).Into b := Flight.Idle.not_into ⟨rfl, rfl⟩
        have hhanded := hsees.handed m rfl
        rw [Pair.SeesAlong.received_eq _ hv, h.received] at hhanded
        refine hK _ _ m (h.seen v hv) (fun b hb => ?_) hhanded
        apply hsees.kept b
        · rw [hidle]
          exact hnot b
        · rw [hidle']
          exact hnot b
        · exact fun a ha => absurd ha id
        · exact fun h => absurd h hb

/-! ### The programs -/

/-- A call that throws if it fails, and what is left in a variable. -/
theorem triple_works_set {α : Type} {op : Share.Op} {name : String} {f : Answer → Process → Process}
    {next : Answer → SH α} {Q : α → Process → List SHEvent → Prop}
    (hc : uneventful (.check op name) = true)
    (hf : ∀ r p, (f r p).result = p.result ∧ (f r p).cleanupFailed = p.cleanupFailed)
    (hnext : ∀ r, Proc.Triple (Allowed bytes world moved x) (Stands bytes world moved x k j K)
      (next r) Q (Fails bytes world moved x)) :
    Proc.Triple (Allowed bytes world moved x) (Stands bytes world moved x k j K)
      (check op name >>= fun r => Proc.modify (f r) >>= fun _ => next r) Q
      (Fails bytes world moved x) :=
  (triple_works hc).bind fun r => (triple_set (hf r)).bind fun _ => hnext r

/-- The same at the end. -/
theorem triple_works_last {op : Share.Op} {name : String} {f : Answer → Process → Process}
    (hc : uneventful (.check op name) = true)
    (hf : ∀ r p, (f r p).result = p.result ∧ (f r p).cleanupFailed = p.cleanupFailed) :
    Proc.Triple (Allowed bytes world moved x) (Stands bytes world moved x k j K)
      (check op name >>= fun r => Proc.modify (f r)) (fun _ => Stands bytes world moved x k j K)
      (Fails bytes world moved x) :=
  (triple_works hc).bind fun r => triple_set (hf r)

theorem triple_setUp :
    Proc.Triple (Allowed bytes world moved x) (Stands bytes world moved x k j K) setUp
      (fun _ => Stands bytes world moved x k j K) (Fails bytes world moved x) := by
  unfold setUp
  refine (triple_resolve rfl fun r => rfl).bind fun library => ?_
  refine Proc.Triple.bind (triple_set (by exact fun _ => ⟨rfl, rfl⟩)) fun _ => ?_
  refine (triple_unreached fun w hw => hw.2).bind fun _ => ?_
  refine (triple_resolve rfl fun r => rfl).bind fun openTsd => ?_
  refine (triple_resolve rfl fun r => rfl).bind fun closeTsd => ?_
  refine (triple_unreached fun w hw => not_or.mpr ⟨hw.1.2, hw.2⟩).bind fun _ => ?_
  refine triple_works_set rfl (fun _ _ => ⟨rfl, rfl⟩) fun _ => ?_
  refine (triple_direct rfl).bind fun _ => ?_
  refine Proc.Triple.weaken (triple_works_last rfl fun _ _ => ⟨rfl, rfl⟩) (fun _ _ h => h) ?_
    fun _ _ h => h
  exact fun _ p t h => h.mono (fun w hw => hw.1.1.1) ⟨rfl, rfl⟩

theorem triple_allocateHbm :
    Proc.Triple (Allowed bytes world moved x) (Stands bytes world moved x k j K) (allocateHbm bytes)
      (fun _ => Stands bytes world moved x k j K) (Fails bytes world moved x) := by
  unfold allocateHbm setHandle setMapped
  refine triple_works_set rfl (fun _ _ => ⟨rfl, rfl⟩) fun _ => ?_
  refine triple_works_set rfl (fun _ _ => ⟨rfl, rfl⟩) fun _ => ?_
  exact triple_works_last rfl fun _ _ => ⟨rfl, rfl⟩

/-- The buffers of a process that has only just begun: the vector is cleared. -/
def Fresh (world : World) (x : Party) (w : Words) : Prop :=
  w host = (fun _ => 0) ∧ w hbm = world.own x hbm

/-- A copy into another buffer. -/
theorem memcpy_of_ne {b dst src : Buffer} {c : Bool} {w : Words} (hb : b ≠ dst) :
    (if c = true then Function.update w dst (w src) else w) b = w b := by
  split
  · exact Function.update_of_ne hb _ _
  · rfl

/-- What a copy leaves holds a pattern if it moves the pattern there, or leaves it there. -/
theorem holds_memcpy {dst src : Buffer} {c : Bool} {w : Words} {seed : UInt64} :
    Holds ((if c = true then Function.update w dst (w src) else w) dst) bytes seed ↔
      (c = true ∧ Holds (w src) bytes seed) ∨ (c = false ∧ Holds (w dst) bytes seed) := by
  cases c <;> simp

section Bytes

variable (hbytes : 8 ≤ bytes)
include hbytes

theorem not_holds_cleared {w : ℕ → UInt64} {seed : UInt64} (hw : w = fun _ => 0)
    (hseed : seed ≠ 0) :
    ¬Holds w bytes seed := by
  rw [hw]
  exact not_holds_zero hseed hbytes

theorem triple_creator :
    Proc.Triple (Allowed bytes world moved .first)
      (Stands bytes world moved .first 0 0 (Fresh world .first)) (creator bytes)
      (fun _ => Stands bytes world moved .first 2 2 fun _ => Passes bytes world moved .first)
      (Fails bytes world moved .first) := by
  unfold creator setHandle setMapped
  refine triple_works_set rfl (fun _ _ => ⟨rfl, rfl⟩) fun _ => ?_
  refine triple_works_set rfl (fun _ _ => ⟨rfl, rfl⟩) fun _ => ?_
  refine triple_works_set rfl (fun _ _ => ⟨rfl, rfl⟩) fun _ => ?_
  -- the pattern goes to the buffer, from there to HBM, and back into the vector
  refine Proc.Triple.bind (Q := fun _ => Stands bytes world moved .first 0 0 fun w =>
    Holds (w mapping) bytes 101 ∧ Fresh world .first w) (triple_fills rfl ?_) fun _ => ?_
  · intro w w' hfresh hother hholds
    refine ⟨hholds, ?_, ?_⟩
    · rw [hother host (by decide)]
      exact hfresh.1
    · rw [hother hbm (by decide)]
      exact hfresh.2
  refine triple_allocateHbm.bind fun _ => ?_
  refine Proc.Triple.bind (Q := fun _ => Stands bytes world moved .first 0 0 fun w =>
    Holds (w mapping) bytes 101 ∧ w host = (fun _ => 0) ∧ (Holds (w hbm) bytes 101 ↔
      moved .hostToHbm = true ∨ Holds (world.own .first hbm) bytes 101))
    (triple_memcpy rfl ?_) fun _ => ?_
  · rintro w ⟨hmapping, hhost, hhbm⟩
    refine ⟨?_, ?_, ?_⟩
    · rwa [memcpy_of_ne (by decide)]
    · rwa [memcpy_of_ne (by decide)]
    · refine holds_memcpy.trans ?_
      change (_ ∧ Holds (w mapping) bytes 101) ∨ (_ ∧ Holds (w hbm) bytes 101) ↔ _
      rw [hhbm]
      cases moved .hostToHbm <;> simp [hmapping]
  refine Proc.Triple.bind (Q := fun _ => Stands bytes world moved .first 0 0 fun w =>
    Holds (w mapping) bytes 101 ∧ (Holds (w host) bytes 101 ↔ Passes bytes world moved .first))
    (triple_memcpy rfl ?_) fun _ => ?_
  · rintro w ⟨hmapping, hhost, hhbm⟩
    refine ⟨?_, ?_⟩
    · rwa [memcpy_of_ne (by decide)]
    · refine holds_memcpy.trans ?_
      change (_ ∧ Holds (w hbm) bytes 101) ∨ (_ ∧ Holds (w host) bytes 101) ↔ _
      have hzero : ¬Holds (w host) bytes 101 := not_holds_cleared hbytes hhost (by decide)
      rw [hhbm]
      cases hmoved : moved .hbmToHost <;> simp [hzero, Passes, hmoved]
  -- `verify` passes only if both copies have moved, or HBM held the pattern
  refine Proc.Triple.bind (Q := fun _ => Stands bytes world moved .first 0 0 fun w =>
    Holds (w mapping) bytes 101 ∧ Passes bytes world moved .first) ?_ fun _ => ?_
  · refine Proc.Triple.weaken (triple_verifies rfl fun w hw hnot hpasses => hnot (hw.2.mpr hpasses))
      (fun _ _ h => h) ?_ fun _ _ h => h
    exact fun _ p t h => h.mono (fun w hw => ⟨hw.1.1, hw.1.2.mp hw.2⟩) ⟨rfl, rfl⟩
  refine (Proc.triple_get fun _ _ h => h).bind fun p => ?_
  refine (triple_works rfl).bind fun token => ?_
  refine (triple_works rfl).bind fun _ => ?_
  refine Proc.Triple.bind (triple_sends rfl (by decide) fun w hw => hw.1) fun _ => ?_
  -- the word of the importer says that the buffer holds its pattern
  refine Proc.Triple.bind (Q := fun word => Stands bytes world moved .first 1 1 fun w =>
    (word = 0 ∧ Holds (w mapping) bytes 202) ∧ Passes bytes world moved .first)
    (triple_receives rfl (by decide) fun w w' m hw _ hclaims => ⟨hclaims, hw.2⟩) fun wrote => ?_
  refine (triple_unreached fun w hw => not_not.mpr hw.1.1).bind fun _ => ?_
  refine Proc.Triple.bind (triple_verifies rfl fun w hw hnot => absurd hw.1.2 hnot) fun _ => ?_
  refine Proc.Triple.bind (triple_sends rfl (by decide) fun w hw => rfl) fun _ => ?_
  refine Proc.Triple.bind (Q := fun word => Stands bytes world moved .first 2 2 fun _ =>
    word = 0 ∧ Passes bytes world moved .first)
    (triple_receives rfl (by decide) fun w w' m hw _ hclaims => ⟨hclaims, hw.1.2⟩)
    fun released => ?_
  refine Proc.Triple.weaken (triple_unreached fun w hw => not_not.mpr hw.1) (fun _ _ h => h) ?_
    fun _ _ h => h
  exact fun _ p t h => h.mono (fun w hw => hw.2) ⟨rfl, rfl⟩

theorem triple_importer :
    Proc.Triple (Allowed bytes world moved .second)
      (Stands bytes world moved .second 0 0 (Fresh world .second)) (importer bytes)
      (fun _ => Stands bytes world moved .second 2 2 fun _ => Passes bytes world moved .second)
      (Fails bytes world moved .second) := by
  unfold importer setHandle setMapped
  refine Proc.Triple.bind (Q := fun _ => Stands bytes world moved .second 0 1 fun w =>
    Holds (w mapping) bytes 101 ∧ Fresh world .second w) (triple_receives rfl (by decide) ?_)
    fun token => ?_
  · intro w w' m hfresh hother hclaims
    refine ⟨hclaims, ?_, ?_⟩
    · rw [hother host (by decide)]
      exact hfresh.1
    · rw [hother hbm (by decide)]
      exact hfresh.2
  refine triple_works_set rfl (fun _ _ => ⟨rfl, rfl⟩) fun _ => ?_
  refine triple_works_set rfl (fun _ _ => ⟨rfl, rfl⟩) fun _ => ?_
  refine triple_works_set rfl (fun _ _ => ⟨rfl, rfl⟩) fun _ => ?_
  refine triple_allocateHbm.bind fun _ => ?_
  -- the data of the creator
  refine Proc.Triple.bind (Q := fun _ => Stands bytes world moved .second 0 1 fun w =>
    Holds (w mapping) bytes 101 ∧ w host = (fun _ => 0) ∧ (Holds (w hbm) bytes 101 ↔
      moved .sharedToHbm = true ∨ Holds (world.own .second hbm) bytes 101))
    (triple_memcpy rfl ?_) fun _ => ?_
  · rintro w ⟨hmapping, hhost, hhbm⟩
    refine ⟨?_, ?_, ?_⟩
    · rwa [memcpy_of_ne (by decide)]
    · rwa [memcpy_of_ne (by decide)]
    · refine holds_memcpy.trans ?_
      change (_ ∧ Holds (w mapping) bytes 101) ∨ (_ ∧ Holds (w hbm) bytes 101) ↔ _
      rw [hhbm]
      cases moved .sharedToHbm <;> simp [hmapping]
  -- the copy back into the vector, which was clear
  refine Proc.Triple.bind (Q := fun _ => Stands bytes world moved .second 0 1 fun w =>
    Holds (w mapping) bytes 101 ∧ (Holds (w hbm) bytes 101 ↔
      moved .sharedToHbm = true ∨ Holds (world.own .second hbm) bytes 101) ∧
    (Holds (w host) bytes 101 ↔ Holds (w hbm) bytes 101 ∧ moved .importedToHost = true))
    (triple_memcpy rfl ?_) fun _ => ?_
  · rintro w ⟨hmapping, hhost, hhbm⟩
    refine ⟨?_, ?_, ?_⟩
    · rwa [memcpy_of_ne (by decide)]
    · rwa [memcpy_of_ne (by decide)]
    · refine holds_memcpy.trans ?_
      change (_ ∧ Holds (w hbm) bytes 101) ∨ (_ ∧ Holds (w host) bytes 101) ↔ _
      rw [memcpy_of_ne (by decide)]
      have hzero : ¬Holds (w host) bytes 101 := not_holds_cleared hbytes hhost (by decide)
      cases hmoved : moved .importedToHost <;> simp [hzero]
  -- `verify` passes only if both copies have moved, or HBM held the pattern
  refine Proc.Triple.bind (Q := fun _ => Stands bytes world moved .second 0 1 fun w =>
    Holds (w mapping) bytes 101 ∧ Holds (w hbm) bytes 101 ∧
      (moved .sharedToHbm = true ∨ Holds (world.own .second hbm) bytes 101) ∧
      moved .importedToHost = true) ?_ fun _ => ?_
  · refine Proc.Triple.weaken (triple_verifies rfl fun w hw hnot hpasses => hnot ?_)
      (fun _ _ h => h) ?_ fun _ _ h => h
    · exact hw.2.2.mpr ⟨hw.2.1.mpr hpasses.1, hpasses.2.1⟩
    · intro _ p t h
      refine h.mono (fun w hw => ?_) ⟨rfl, rfl⟩
      obtain ⟨hhbm, hmoved⟩ := hw.1.2.2.mp hw.2
      exact ⟨hw.1.1, hhbm, hw.1.2.1.mp hhbm, hmoved⟩
  -- the data of the importer
  refine Proc.Triple.bind (Q := fun _ => Stands bytes world moved .second 0 1 fun w =>
    Holds (w host) bytes 202 ∧ Holds (w mapping) bytes 101 ∧ Holds (w hbm) bytes 101 ∧
      (moved .sharedToHbm = true ∨ Holds (world.own .second hbm) bytes 101) ∧
      moved .importedToHost = true) (triple_fills rfl ?_) fun _ => ?_
  · intro w w' hw hother hholds
    rw [hother mapping (by decide), hother hbm (by decide)]
    exact ⟨hholds, hw⟩
  -- nothing holds both patterns, so from here on a copy that moves nothing leaves the wrong one
  have hdiffer : ∀ {w : ℕ → UInt64}, Holds w bytes 101 → ¬Holds w bytes 202 := by
    intro w hw hw'
    exact absurd (hw.unique hw' hbytes) (by decide)
  refine Proc.Triple.bind (Q := fun _ => Stands bytes world moved .second 0 1 fun w =>
    (Holds (w hbm) bytes 202 ↔ moved .patternToHbm = true) ∧ Holds (w mapping) bytes 101 ∧
      (moved .sharedToHbm = true ∨ Holds (world.own .second hbm) bytes 101) ∧
      moved .importedToHost = true) (triple_memcpy rfl ?_) fun _ => ?_
  · rintro w ⟨hhost, hmapping, hhbm, hpassed⟩
    refine ⟨?_, ?_, hpassed⟩
    · refine holds_memcpy.trans ?_
      change (_ ∧ Holds (w host) bytes 202) ∨ (_ ∧ Holds (w hbm) bytes 202) ↔ _
      have hnot := hdiffer hhbm
      simp [hhost, hnot]
    · rwa [memcpy_of_ne (by decide)]
  refine Proc.Triple.bind (Q := fun _ => Stands bytes world moved .second 0 1 fun w =>
    (Holds (w mapping) bytes 202 ↔ moved .patternToHbm = true ∧ moved .hbmToShared = true) ∧
      (moved .sharedToHbm = true ∨ Holds (world.own .second hbm) bytes 101) ∧
      moved .importedToHost = true) (triple_memcpy rfl ?_) fun _ => ?_
  · rintro w ⟨hhbm, hmapping, hpassed⟩
    refine ⟨?_, hpassed⟩
    refine holds_memcpy.trans ?_
    change (_ ∧ Holds (w hbm) bytes 202) ∨ (_ ∧ Holds (w mapping) bytes 202) ↔ _
    have hnot := hdiffer hmapping
    rw [hhbm]
    simp [hnot, and_comm]
  -- the vector is cleared before the last copy
  refine Proc.Triple.bind (Q := fun _ => Stands bytes world moved .second 0 1 fun w =>
    w host = (fun _ => 0) ∧
      (Holds (w mapping) bytes 202 ↔ moved .patternToHbm = true ∧ moved .hbmToShared = true) ∧
      (moved .sharedToHbm = true ∨ Holds (world.own .second hbm) bytes 101) ∧
      moved .importedToHost = true) (triple_clear (by decide) ?_) fun _ => ?_
  · intro w hw
    refine ⟨Function.update_self _ _ _, ?_⟩
    rwa [Function.update_of_ne (show mapping ≠ host by decide)]
  refine Proc.Triple.bind (Q := fun _ => Stands bytes world moved .second 0 1 fun w =>
    (Holds (w host) bytes 202 ↔ Holds (w mapping) bytes 202 ∧ moved .sharedToHost = true) ∧
      (Holds (w mapping) bytes 202 ↔ moved .patternToHbm = true ∧ moved .hbmToShared = true) ∧
      (moved .sharedToHbm = true ∨ Holds (world.own .second hbm) bytes 101) ∧
      moved .importedToHost = true) (triple_memcpy rfl ?_) fun _ => ?_
  · rintro w ⟨hhost, hmapping, hpassed⟩
    refine ⟨?_, ?_, hpassed⟩
    · refine holds_memcpy.trans ?_
      change (_ ∧ Holds (w mapping) bytes 202) ∨ (_ ∧ Holds (w host) bytes 202) ↔ _
      rw [memcpy_of_ne (by decide)]
      have hzero : ¬Holds (w host) bytes 202 := not_holds_cleared hbytes hhost (by decide)
      simp [hzero, and_comm]
    · rwa [memcpy_of_ne (by decide)]
  -- `verify` passes only if the three copies have moved
  refine Proc.Triple.bind (Q := fun _ => Stands bytes world moved .second 0 1 fun w =>
    Holds (w mapping) bytes 202 ∧ Passes bytes world moved .second) ?_ fun _ => ?_
  · refine Proc.Triple.weaken (triple_verifies rfl fun w hw hnot hpasses => hnot ?_)
      (fun _ _ h => h) ?_ fun _ _ h => h
    · obtain ⟨-, -, hpattern, hshared, hhost⟩ := hpasses
      exact hw.1.mpr ⟨hw.2.1.mpr ⟨hpattern, hshared⟩, hhost⟩
    · intro _ p t h
      refine h.mono (fun w hw => ?_) ⟨rfl, rfl⟩
      obtain ⟨⟨hhost, hmapping, hfirst, himported⟩, hholds⟩ := hw
      obtain ⟨hshared, hmoved⟩ := hhost.mp hholds
      exact ⟨hshared, hfirst, himported, (hmapping.mp hshared).1, (hmapping.mp hshared).2, hmoved⟩
  refine Proc.Triple.bind (triple_sends rfl (by decide) fun w hw => ⟨rfl, hw.1⟩) fun _ => ?_
  refine Proc.Triple.bind (Q := fun word => Stands bytes world moved .second 1 2 fun _ =>
    word = 0 ∧ Passes bytes world moved .second)
    (triple_receives rfl (by decide) fun w w' m hw _ hclaims => ⟨hclaims, hw.2⟩) fun verified => ?_
  refine Proc.Triple.bind (Q := fun _ => Stands bytes world moved .second 1 2 fun _ =>
    Passes bytes world moved .second) ?_ fun _ => ?_
  · refine Proc.Triple.weaken (triple_unreached fun w hw => not_not.mpr hw.1) (fun _ _ h => h) ?_
      fun _ _ h => h
    exact fun _ p t h => h.mono (fun w hw => hw.2) ⟨rfl, rfl⟩
  -- the releases have nothing to do with the buffers
  refine (triple_works rfl).bind fun _ => ?_
  refine Proc.Triple.bind (triple_set (by exact fun _ => ⟨rfl, rfl⟩)) fun _ => ?_
  refine (Proc.triple_get fun _ _ h => h).bind fun p => ?_
  refine (triple_works rfl).bind fun _ => ?_
  refine Proc.Triple.bind (triple_set (by exact fun _ => ⟨rfl, rfl⟩)) fun _ => ?_
  refine (triple_works rfl).bind fun _ => ?_
  refine Proc.Triple.bind (triple_set (by exact fun _ => ⟨rfl, rfl⟩)) fun _ => ?_
  exact triple_sends rfl (by decide) fun w hw => rfl

end Bytes

/-- The destructors. -/
theorem triple_destroyAllocations {I : Process → List SHEvent → Prop}
    (hcleanup : ∀ op name, uneventful (.cleanup op name) = true →
      KeepsCleanup (Allowed bytes world moved x) I op name) :
    Proc.Triple (Allowed bytes world moved x) I destroyAllocations (fun _ => I) E := by
  have hone : ∀ i va, Proc.Triple (Allowed bytes world moved x) I (destroyAllocation i va)
      (fun _ => I) E := by
    intro i va
    unfold destroyAllocation
    refine Proc.Triple.bind (Proc.triple_get (Q := fun _ => I) fun _ _ h => h) fun p => ?_
    refine Proc.Triple.bind (Q := fun _ => I) (Proc.triple_onlyIf (fun _ =>
      triple_keeps_cleanup (hcleanup _ _ rfl)) fun _ _ _ h => h) fun _ => ?_
    refine Proc.Triple.bind (Q := fun _ => I) (Proc.triple_onlyIf (fun _ =>
      triple_keeps_cleanup (hcleanup _ _ rfl)) fun _ _ _ h => h) fun _ => ?_
    exact Proc.triple_onlyIf (fun _ => triple_keeps_cleanup (hcleanup _ _ rfl)) fun _ _ _ h => h
  unfold destroyAllocations
  exact (hone 1 _).bind fun _ => hone 0 _

theorem stands_cleanup {op : Share.Op} {name : String} (hc : uneventful (.cleanup op name) = true) :
    KeepsCleanup (Allowed bytes world moved x) (Stands bytes world moved x k j K) op name := by
  refine ⟨fun p t _ => allowed_of_uneventful hc, fun p t r h => ?_⟩
  have hnext : Stands bytes world moved x k j K p (t ++ [⟨p, .cleanup op name, r⟩]) :=
    h.uneventful hc
  split
  · exact hnext
  · -- the call works, so that this does not happen
    rename_i hret
    refine ⟨hnext.sent, hnext.received, hnext.flight, hnext.calm, hnext.kept, hnext.result, ?_,
      hnext.seen⟩
    rintro ⟨v', hv'⟩
    obtain ⟨v, -, hsees⟩ := along_concat.mp hv'
    have hwork : r.ret = 0 := by simpa [Pair.Credible, device, works] using hsees.credible
    exact absurd hwork hret

theorem fails_cleanup {op : Share.Op} {name : String} (hc : uneventful (.cleanup op name) = true) :
    KeepsCleanup (Allowed bytes world moved x) (Fails bytes world moved x) op name :=
  ⟨fun _ _ _ => allowed_of_uneventful hc, fun _ _ _ h => h.uneventful hc⟩

/-- The scope of the allocations. -/
theorem triple_withAllocations {body : SH PUnit}
    (hbody : Proc.Triple (Allowed bytes world moved x)
      (Stands bytes world moved x 0 0 (Fresh world x)) body
      (fun _ => Stands bytes world moved x 2 2 fun _ => Passes bytes world moved x)
      (Fails bytes world moved x)) :
    Proc.Triple (Allowed bytes world moved x)
      (Stands bytes world moved x 0 0 fun w => w hbm = world.own x hbm) (withAllocations body)
      (fun _ => Stands bytes world moved x 2 2 fun _ => Passes bytes world moved x)
      (Fails bytes world moved x) := by
  unfold withAllocations
  refine Proc.Triple.bind (triple_set (by exact fun _ => ⟨rfl, rfl⟩)) fun _ => ?_
  refine Proc.Triple.bind (Q := fun _ => Stands bytes world moved x 0 0 (Fresh world x))
    (triple_clear (by decide) ?_) fun _ => ?_
  · exact fun w hw => ⟨Function.update_self _ _ _, hw⟩
  refine Proc.Triple.bind (Proc.Triple.tryCatch hbody fun error => ?_) fun _ => ?_
  · refine Proc.Triple.bind (triple_destroyAllocations fun _ _ => fails_cleanup) fun _ => ?_
    exact Proc.triple_throw fun _ _ h => h
  · exact triple_destroyAllocations fun _ _ => stands_cleanup

theorem triple_workerBody (hbytes : 8 ≤ bytes) :
    Proc.Triple (Allowed bytes world moved x)
      (Stands bytes world moved x 0 0 fun w => w hbm = world.own x hbm)
      (workerBody bytes (x == .second))
      (fun _ => Stands bytes world moved x 2 2 fun _ => Passes bytes world moved x)
      (Fails bytes world moved x) := by
  unfold workerBody
  refine triple_setUp.bind fun _ => triple_withAllocations ?_
  cases x with
  | first => exact triple_creator hbytes
  | second => exact triple_importer hbytes

variable (bytes world moved x) in
/-- How a process ends: it has passed, or something has gone wrong. -/
def Ends (p : Process) (t : List SHEvent) : Prop :=
  Stands bytes world moved x 2 2 (fun _ => Passes bytes world moved x) p t ∨
    (Fails bytes world moved x p t ∧ p.result = 1)

/-- The end is closed: then all words have been sent and received, unless something has gone
wrong. -/
theorem triple_close : Proc.Triple (Allowed bytes world moved x) (Ends bytes world moved x)
    (direct (.close 0)) (fun _ p t => Ends bytes world moved x p t ∧ Closed t) E := by
  apply Proc.triple_ask
  · intro p t h
    refine ⟨⟨fun h => absurd h id, nofun, nofun⟩, nofun, fun _ v hv hcalm hkept => ?_⟩
    rcases h with hstands | ⟨hfails, -⟩
    · exact ⟨hstands.sent, hstands.received⟩
    · rcases hfails v hv with ⟨hthrew, -⟩ | ⟨-, hlost⟩
      · exact absurd hthrew hcalm
      · exact absurd hlost hkept
  · intro p t r h
    refine ⟨?_, (closed_concat _ _).mpr (.inr rfl)⟩
    rcases h with hstands | ⟨hfails, hresult⟩
    · exact .inl (hstands.next rfl rfl rfl rfl rfl fun v hv _ _ => hv)
    · refine .inr ⟨fun v' hv' => ?_, hresult⟩
      obtain ⟨v, hv, -⟩ := along_concat.mp hv'
      unfold Calm
      rw [verifyThrew_concat, lost_concat]
      simpa [Calm, mismatch, lost] using hfails v hv

theorem ends_cleanup {op : Share.Op} {name : String} (hc : uneventful (.cleanup op name) = true) :
    KeepsCleanup (Allowed bytes world moved x)
      (fun p t => Ends bytes world moved x p t ∧ Closed t) op name := by
  refine ⟨fun p t _ => allowed_of_uneventful hc, fun p t r h => ?_⟩
  obtain ⟨hends, hclosed⟩ := h
  refine ⟨?_, (closed_concat _ _).mpr (.inl hclosed)⟩
  rcases hends with hstands | ⟨hfails, hresult⟩
  · exact .inl ((stands_cleanup hc).2 p t r hstands)
  · refine .inr ⟨hfails.uneventful hc, ?_⟩
    split
    · exact hresult
    · exact hresult

theorem triple_worker (hbytes : 8 ≤ bytes) :
    Proc.Triple (Allowed bytes world moved x)
      (Stands bytes world moved x 0 0 fun w => w hbm = world.own x hbm)
      (worker bytes (x == .second))
      (fun n p t => (Ends bytes world moved x p t ∧ Closed t) ∧
        n = if p.result ≠ 0 ∨ p.cleanupFailed = true then 1 else 0) fun _ _ => False := by
  have honly : ∀ {c : Prop} [Decidable c] {op : Share.Op} {name : String},
      uneventful (.cleanup op name) = true → Proc.Triple (Allowed bytes world moved x)
        (fun p t => Ends bytes world moved x p t ∧ Closed t) (Proc.onlyIf c (cleanup op name))
        (fun _ p t => Ends bytes world moved x p t ∧ Closed t) fun _ _ => False :=
    fun hc => Proc.triple_onlyIf (fun _ => triple_keeps_cleanup (ends_cleanup hc)) fun _ _ _ h => h
  unfold worker
  refine Proc.Triple.bind (Q := fun _ => Ends bytes world moved x) ?_ fun _ => ?_
  · refine Proc.Triple.tryCatch (E := Fails bytes world moved x) ?_ fun error => ?_
    · exact Proc.Triple.weaken (triple_workerBody hbytes) (fun _ _ h => h)
        (fun _ _ _ h => .inl h) fun _ _ h => h
    · exact Proc.triple_modify fun p t h => .inr ⟨h, rfl⟩
  refine triple_close.bind fun _ => ?_
  refine Proc.Triple.bind (Q := fun _ p t => Ends bytes world moved x p t ∧ Closed t)
    (Proc.triple_get fun _ _ h => h) fun p => ?_
  refine (honly rfl).bind fun _ => ?_
  refine (honly rfl).bind fun _ => ?_
  refine (honly rfl).bind fun _ => ?_
  refine Proc.triple_get_bind fun p => ?_
  apply Proc.triple_pure
  rintro p' t ⟨rfl, h⟩
  exact ⟨h, rfl⟩

end Process

/-! ## Both processes -/

section Both

variable {bytes : ℕ} {world : World} {moved : Copy → Bool}

variable (world moved) in
/-- What a process meets from the start. -/
theorem worker_meets (hbytes : 8 ≤ bytes) (x : Party) :
    ((device bytes world moved).program x {}).Meets (Allowed bytes world moved x) [] fun r t =>
      ∃ n, r.1 = .ok n ∧ (Ends bytes world moved x r.2 t ∧ Closed t) ∧
        n = if r.2.result ≠ 0 ∨ r.2.cleanupFailed = true then 1 else 0 := by
  have hstart : Stands bytes world moved x 0 0 (fun w => w hbm = world.own x hbm) {} [] := by
    refine ⟨rfl, rfl, rfl, by simp [Calm, VerifyThrew], by simp [Lost], rfl, fun _ => rfl,
      fun v hv => ?_⟩
    have hinit : v = (device bytes world moved).start x := along_nil.mp hv
    rw [hinit]
    exact Function.update_of_ne (show hbm ≠ common by decide) world.shared (world.own x)
  refine Prog.Meets.mono ?_ (triple_worker hbytes {} [] hstart)
  rintro ⟨r, p⟩ t hr
  cases r with
  | ok n => exact ⟨n, rfl, hr⟩
  | error e => exact absurd hr id

/-- No process gives up. -/
theorem whole_worker (reader : Bool) : (worker bytes reader).Whole := by
  have hdestroy : destroyAllocations.Whole := by
    have hone : ∀ i va, (destroyAllocation i va).Whole := by
      intro i va
      refine Proc.whole_get.bind fun p => ?_
      refine (whole_cleanup _ _).onlyIf.bind fun _ => ?_
      exact (whole_cleanup _ _).onlyIf.bind fun _ => (whole_cleanup _ _).onlyIf
    exact (hone 1 _).bind fun _ => hone 0 _
  have hsetUp : setUp.Whole := by
    unfold setUp
    repeat' first
      | exact whole_check _ _
      | exact whole_direct _
      | exact Proc.whole_modify _
      | exact (whole_fail _).onlyIf
      | refine Proc.Whole.bind ?_ fun _ => ?_
  have hbody : (if reader = true then importer bytes else creator bytes).Whole := by
    unfold importer creator allocateHbm memcpy setHandle setMapped
    split
    all_goals
      repeat' first
        | exact whole_check _ _
        | exact whole_fill _ _ _
        | exact whole_verify _ _ _ _
        | exact whole_clear _
        | exact whole_sendWord _ _
        | exact whole_receiveWord _ _
        | exact whole_checkWord _ _
        | exact Proc.whole_get
        | exact Proc.whole_pure _
        | exact Proc.whole_modify _
        | refine Proc.Whole.bind ?_ fun _ => ?_
  have htry : (workerBody bytes reader).Whole := by
    refine hsetUp.bind fun _ => (Proc.whole_modify _).bind fun _ => (whole_clear _).bind fun _ => ?_
    refine (hbody.tryCatch fun _ => ?_).bind fun _ => hdestroy
    exact hdestroy.bind fun _ => Proc.whole_throw _
  refine (htry.tryCatch fun _ => Proc.whole_modify _).bind fun _ => ?_
  refine (whole_direct _).bind fun _ => Proc.whole_get.bind fun p => ?_
  refine (whole_cleanup _ _).onlyIf.bind fun _ => (whole_cleanup _ _).onlyIf.bind fun _ => ?_
  exact (whole_cleanup _ _).onlyIf.bind fun _ => Proc.whole_get.bind fun _ => Proc.whole_pure _

theorem fair (hbytes : 8 ≤ bytes) : (device bytes world moved).Fair 2 :=
  ⟨fun x => ⟨_, Prog.Meets.mono_ok (fun _ _ _ h _ => h.inTurn) (worker_meets world moved hbytes x)⟩,
    fun x =>
      ⟨_, Prog.Meets.mono_ok (fun _ _ _ h => h.truthful) (worker_meets world moved hbytes x)⟩⟩

/-- The process has returned. -/
def Returned (s : PairState) (x : Party) (n : ℕ) : Prop := ∃ p, s.rest x = .ret (.ok n, p)

/-- The copies that move nothing are caught: at least one `verify` throws, and not both processes
pass. -/
def Caught (s : PairState) : Prop :=
  (∃ x, VerifyThrew (s.trace x)) ∧ ¬∀ x, Returned s x 0

/-- A copy that moves nothing is noticed: one that is not into HBM for the first time, or one into
HBM that does not hold the pattern of seed 101 already. -/
def Noticed (bytes : ℕ) (world : World) (moved : Copy → Bool) : Prop :=
  (∃ copy, moved copy = false ∧ copy ≠ .hostToHbm ∧ copy ≠ .sharedToHbm) ∨
    (moved .hostToHbm = false ∧ ¬Holds (world.own .first hbm) bytes 101) ∨
    (moved .sharedToHbm = false ∧ ¬Holds (world.own .second hbm) bytes 101)

theorem noticed_iff : Noticed bytes world moved ↔ ¬∀ x, Passes bytes world moved x := by
  constructor
  · intro hnoticed hpasses
    obtain ⟨hcreator, hback⟩ := hpasses .first
    obtain ⟨himporter, himported, hpattern, hshared, hlast⟩ := hpasses .second
    rcases hnoticed with ⟨copy, hmoved, hfirst, hsecond⟩ | ⟨hmoved, hnot⟩ | ⟨hmoved, hnot⟩
    · cases copy <;> simp_all
    · rcases hcreator with h | h
      · simp [h] at hmoved
      · exact hnot h
    · rcases himporter with h | h
      · simp [h] at hmoved
      · exact hnot h
  · intro hnot
    by_contra hunnoticed
    obtain ⟨hothers, hrest⟩ := not_or.mp hunnoticed
    obtain ⟨hcreator, himporter⟩ := not_or.mp hrest
    have hmoves : ∀ copy, copy ≠ .hostToHbm → copy ≠ .sharedToHbm → moved copy = true := by
      intro copy hfirst hsecond
      by_contra hmoved
      exact hothers ⟨copy, by simpa using hmoved, hfirst, hsecond⟩
    have hinto : ∀ {c : Bool} {P : Prop}, ¬(c = false ∧ ¬P) → c = true ∨ P := by
      intro c P h
      cases c
      · exact .inr (not_not.mp fun hP => h ⟨rfl, hP⟩)
      · exact .inl rfl
    apply hnot
    intro x
    cases x with
    | first => exact ⟨hinto hcreator, hmoves _ (by decide) (by decide)⟩
    | second =>
        exact ⟨hinto himporter, hmoves _ (by decide) (by decide), hmoves _ (by decide) (by decide),
          hmoves _ (by decide) (by decide), hmoves _ (by decide) (by decide)⟩

variable {s : PairState}

/-- How a process that has returned has ended. -/
theorem ends_of_returned (hbytes : 8 ≤ bytes)
    (h : Reachable (device bytes world moved).net.system s)
    {x : Party} {n : ℕ} (hreturned : Returned s x n) :
    ∃ p, Ends bytes world moved x p (s.trace x) ∧
      n = if p.result ≠ 0 ∨ p.cleanupFailed = true then 1 else 0 := by
  obtain ⟨p, hrest⟩ := hreturned
  have hmeets := meets h (N := (device bytes world moved).net) (worker_meets world moved hbytes x)
  rw [hrest] at hmeets
  obtain ⟨n', hn, ⟨hends, -⟩, hresult⟩ := hmeets
  cases hn
  exact ⟨p, hends, hresult⟩

/-- Every call can work. -/
theorem exists_works (c : Share.Call) : ∃ r, works c r = true := by
  cases c with
  | direct op => exact ⟨{ out := 1 }, by unfold works; split <;> simp_all⟩
  | check op name => exact ⟨{}, rfl⟩
  | cleanup op name => exact ⟨{}, rfl⟩
  | store => exact ⟨(), rfl⟩
  | compare => exact ⟨0, rfl⟩
  | memset => exact ⟨(), rfl⟩
  | send => exact ⟨true, rfl⟩
  | receive => exact ⟨none, rfl⟩
  | caseResult => exact ⟨(), rfl⟩

variable (bytes world moved) in
/-- There is a run in which both processes return. -/
theorem exists_returned (hbytes : 8 ≤ bytes) :
    ∃ s, Reachable (device bytes world moved).net.system s ∧ ∀ x, ∃ n, Returned s x n := by
  have hmeets := worker_meets world moved hbytes
  obtain ⟨t, s, hpath, hreturned⟩ := Pair.exists_returned Reachable.init (fair hbytes) exists_works
    (fun x => whole_worker _ _)
    fun x => ⟨_, Prog.Meets.mono (fun _ _ ⟨_, _, ⟨_, hclosed⟩, _⟩ => hclosed) (hmeets x)⟩
  have hreachable : Reachable (device bytes world moved).net.system s := ⟨t, hpath⟩
  refine ⟨s, hreachable, fun x => ?_⟩
  obtain ⟨⟨r, p⟩, hr⟩ := hreturned x
  have hend := meets hreachable (N := (device bytes world moved).net) (hmeets x)
  rw [hr] at hend
  obtain ⟨n, hn, -⟩ := hend
  obtain rfl : r = .ok n := hn
  exact ⟨n, p, hr⟩

/-- Where `verify` has thrown, it was right. -/
theorem not_passes_of_threw (hbytes : 8 ≤ bytes)
    (h : Reachable (device bytes world moved).net.system s) {x : Party} {n : ℕ}
    (hreturned : Returned s x n) (hthrew : VerifyThrew (s.trace x)) :
    ¬Passes bytes world moved x := by
  obtain ⟨p, hends, -⟩ := ends_of_returned hbytes h hreturned
  obtain ⟨v, hview⟩ := (Pair.agrees h (fair hbytes)).views x
  rcases hends with hstands | ⟨hfails, -⟩
  · exact absurd hthrew hstands.calm
  · rcases hfails v hview.along with ⟨-, hnot⟩ | ⟨hcalm, -⟩
    · exact hnot
    · exact absurd hthrew hcalm

/-- Where no `verify` has thrown, both processes pass. -/
theorem passes_of_calm (hbytes : 8 ≤ bytes)
    (h : Reachable (device bytes world moved).net.system s) {x : Party} {n : ℕ}
    (hreturned : Returned s x n) (hcalm : ∀ y, ¬VerifyThrew (s.trace y)) :
    Passes bytes world moved x ∧ n = 0 := by
  have hkept := Pair.not_lost h (fair hbytes) Calm
    (fun t e hte ht => hte ((verifyThrew_concat t e).mpr (.inl ht)))
    (fun x => ⟨_, Prog.Meets.mono_ok (fun _ _ _ h => h.completes)
      (worker_meets world moved hbytes x)⟩) hcalm
  obtain ⟨p, hends, hresult⟩ := ends_of_returned hbytes h hreturned
  obtain ⟨v, hview⟩ := (Pair.agrees h (fair hbytes)).views x
  rcases hends with hstands | ⟨hfails, -⟩
  · refine ⟨hstands.seen v hview.along, ?_⟩
    rw [hresult, hstands.result, hstands.clean ⟨v, hview.along⟩]
    decide
  · rcases hfails v hview.along with ⟨hthrew, -⟩ | ⟨-, hlost⟩
    · exact absurd hthrew (hcalm x)
    · exact absurd hlost (hkept x).1

/-- **When copies that move nothing are noticed.**  In every run in which both processes return,
whatever the buffers hold at first and whichever copies move nothing. -/
theorem copies_noticed (hbytes : 0 < bytes) (haligned : 2 ^ 20 ∣ bytes)
    (h : Reachable (device bytes world moved).net.system s) (hend : ∀ x, ∃ n, Returned s x n) :
    Caught s ↔ Noticed bytes world moved := by
  have hlarge : 8 ≤ bytes := by
    have hle := Nat.le_of_dvd hbytes haligned
    omega
  rw [noticed_iff]
  constructor
  · rintro ⟨⟨x, hthrew⟩, -⟩ hpasses
    obtain ⟨n, hreturned⟩ := hend x
    exact not_passes_of_threw hlarge h hreturned hthrew (hpasses x)
  · intro hnot
    have hthrew : ∃ x, VerifyThrew (s.trace x) := by
      by_contra hnone
      apply hnot
      intro x
      obtain ⟨n, hreturned⟩ := hend x
      exact (passes_of_calm hlarge h hreturned fun y hy => hnone ⟨y, hy⟩).1
    refine ⟨hthrew, fun hzero => ?_⟩
    obtain ⟨x, hthrew⟩ := hthrew
    obtain ⟨p, hends, hresult⟩ := ends_of_returned hlarge h (hzero x)
    rcases hends with hstands | ⟨-, hone⟩
    · exact hstands.calm hthrew
    · rw [if_pos (.inl (by rw [hone]; decide))] at hresult
      cases hresult

/-- HBM that is cleared. -/
def cleared : World where
  shared := fun _ => 0
  own := fun _ _ _ => 0

/-- The first copy moves nothing, and HBM was cleared: that is noticed. -/
theorem copies_noticed_cleared :
    ∃ s, Reachable (device (2 ^ 20) cleared (· != .hostToHbm)).net.system s ∧ Caught s := by
  obtain ⟨s, h, hend⟩ := exists_returned (2 ^ 20) cleared (· != .hostToHbm) (by decide)
  refine ⟨s, h, (copies_noticed (by decide) (by decide) h hend).mpr (.inr (.inl ⟨rfl, ?_⟩))⟩
  exact not_holds_zero (by decide) (by decide)

/-- HBM that an earlier run has left with the pattern of seed 101. -/
def leftover : World where
  shared := fun _ => 0
  own := fun _ _ i => pattern i 101

/-- The first copy moves nothing, and HBM holds the pattern already: both processes pass. -/
theorem leftover_unnoticed :
    ∃ s, Reachable (device (2 ^ 20) leftover (· != .hostToHbm)).net.system s ∧
      (∀ x, Returned s x 0) ∧ ∀ x, ¬VerifyThrew (s.trace x) := by
  obtain ⟨s, h, hend⟩ := exists_returned (2 ^ 20) leftover (· != .hostToHbm) (by decide)
  have hpasses : ∀ x, Passes (2 ^ 20) leftover (· != .hostToHbm) x := by
    intro x
    cases x with
    | first => exact ⟨.inr fun i _ => rfl, rfl⟩
    | second => exact ⟨.inl rfl, rfl, rfl, rfl, rfl⟩
  have hcalm : ∀ x, ¬VerifyThrew (s.trace x) := by
    intro x hthrew
    obtain ⟨n, hreturned⟩ := hend x
    exact not_passes_of_threw (by decide) h hreturned hthrew (hpasses x)
  refine ⟨s, h, fun x => ?_, hcalm⟩
  obtain ⟨n, hreturned⟩ := hend x
  obtain ⟨-, rfl⟩ := passes_of_calm (by decide) h hreturned hcalm
  exact hreturned

end Both

end SharingProbe.DeviceShare
