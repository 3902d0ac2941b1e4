import SharingProbe.MultiShare.Places

/-!
# The `try` block of a worker

From the set-up to the last barrier, one rule for each piece of it.
-/

namespace SharingProbe.MultiShare

open Interaction Network Share

section Rules

variable {cfg : Config} {rank k j : ℕ} {H H' : (ℕ → Option UInt64) → Prop} {K K' : Process → Prop}
  {D D' : List SHEvent → Prop} {E : Process → List SHEvent → Prop}

/-! ## Calls without a place -/

/-- A check that succeeds is noted. -/
theorem triple_did {op : Share.Op} {name : String} (hc : aside (.check op name) = true) :
    Proc.Triple (InPlace cfg rank) (Stage rank k j H K D) (check op name)
      (fun r => Stage rank k j H K fun t => D t ∧ Did op r t) (Fails cfg rank) := by
  apply triple_check
  · exact fun _ _ _ => inPlace_of_plain (plain_of_aside hc)
  · intro p t r h hret
    exact (h.aside (e := ⟨p, .check op name, r⟩) hc h.state).note fun u hu => ⟨hret, p, name, hu⟩
  · exact fun _ _ _ _ hret => fails_of_not_passes (by simp [passes, hret])

theorem triple_passes {op : Share.Op} {name : String} (hc : aside (.check op name) = true) :
    Proc.Triple (InPlace cfg rank) (Stage rank k j H K D) (check op name)
      (fun _ => Stage rank k j H K D) (Fails cfg rank) :=
  (triple_did hc).weaken (fun _ _ h => h)
    (fun _ _ _ h => h.mono (fun _ h => h) (fun _ h => h) fun _ h => h.1) fun _ _ h => h

/-- The call was made, with this answer. -/
def Got (op : Share.Op) (r : Answer) (t : List SHEvent) : Prop :=
  ∃ p, (⟨p, .direct op, r⟩ : SHEvent) ∈ t

theorem triple_got {op : Share.Op} (hc : aside (.direct op) = true) :
    Proc.Triple (InPlace cfg rank) (Stage rank k j H K D) (direct op)
      (fun r => Stage rank k j H K fun t => D t ∧ Got op r t) E := by
  apply Proc.triple_ask
  · exact fun _ _ _ => inPlace_of_plain (plain_of_aside hc)
  · intro p _ r h
    exact (h.aside (e := ⟨p, .direct op, r⟩) hc h.state).note fun u hu => ⟨p, hu⟩

/-- With nothing in flight, a cleanup call leaves nothing in flight. -/
theorem idle_cleanup {f : Flight} (hf : f.Idle) (op : Share.Op) (name : String) (r : Answer) :
    (f.next (.cleanup op name) r).Idle ∧ readsNext [] (.cleanup op name) r = [] := by
  cases op with
  | aclrtSynchronizeStream =>
      by_cases hret : r.ret = 0
      · exact ⟨by simpa [Flight.next, hret] using ⟨rfl, hf.requests⟩, if_pos hret⟩
      · exact ⟨by simpa [Flight.next, hret] using hf, if_neg hret⟩
  | ioDestroy ctx => exact ⟨⟨hf.copies, by simp [Flight.next, Flight.finish, hf.requests]⟩, rfl⟩
  | _ => exact ⟨hf, rfl⟩

/-- A cleanup call whose failure is noted. -/
theorem keepsCleanup_stage {op : Share.Op} {name : String}
    (hc : plain (.cleanup op name) = true) :
    KeepsCleanup (InPlace cfg rank) (Stage rank k j H anyState D) op name := by
  refine ⟨fun _ _ _ => inPlace_of_plain hc, fun p t r h => ?_⟩
  obtain ⟨hidle, hstill⟩ := idle_cleanup h.idle op name r
  have hblock : H (learn (known t) (.cleanup op name) (.host rank)) := h.block
  split <;> exact h.next (e := ⟨p, .cleanup op name, r⟩)
    (plain_words hc r) hidle hstill hblock trivial

theorem triple_cleans {op : Share.Op} {name : String} (hc : plain (.cleanup op name) = true) :
    Proc.Triple (InPlace cfg rank) (Stage rank k j H anyState D) (cleanup op name)
      (fun _ => Stage rank k j H anyState D) E :=
  triple_keeps_cleanup (keepsCleanup_stage hc)

/-- A call that the memory of the process answers. -/
theorem triple_memory {c : Share.Call} (hc : aside c = true) :
    Proc.Triple (InPlace cfg rank) (Stage rank k j H K D)
      (Proc.ask (R := Share.Call.Reply) c : SH (Share.Call.Reply c))
      (fun _ => Stage rank k j H K D) E :=
  Proc.triple_ask (fun _ _ _ => inPlace_of_plain (plain_of_aside hc))
    fun p _ r h => h.aside (e := ⟨p, c, r⟩) hc h.state

/-- A variable is set. -/
theorem triple_sets {f : Process → Process} {A : Process → Prop} (hK : ∀ p, K p → A (f p)) :
    Proc.Triple (InPlace cfg rank) (Stage rank k j H K D) (Proc.modify f : SH PUnit)
      (fun _ => Stage rank k j H A D) E :=
  Proc.triple_modify fun p _ h =>
    ⟨h.sent, h.received, h.idle, h.still, h.block, hK p h.state, h.log⟩

/-- An exception that is thrown only where a call has failed. -/
theorem triple_unless {c : Prop} [Decidable c] {what : String}
    (hD : c → ∀ t, D t → ¬Worked cfg rank t) :
    Proc.Triple (InPlace cfg rank) (Stage rank k j H K D) (Proc.onlyIf c (fail what))
      (fun _ => Stage rank k j H K D) (Fails cfg rank) :=
  Proc.triple_onlyIf (fun hc => triple_fail fun _ t h => hD hc t h.did) fun _ _ _ h => h

theorem not_worked_of_mem {t : List SHEvent} {e : SHEvent} (he : e ∈ t)
    (hpasses : passes cfg rank e.call e.reply = false) : ¬Worked cfg rank t := by
  intro hworked
  have htrue := hworked e he
  rw [hpasses] at htrue
  cases htrue

theorem not_worked_of_did {op : Share.Op} {r : Answer} {t : List SHEvent} (h : Did op r t)
    (hpasses : ∀ name, passes cfg rank (.check op name) r = false) : ¬Worked cfg rank t := by
  obtain ⟨-, p, name, hmem⟩ := h
  exact not_worked_of_mem hmem (hpasses name)

/-! ## Where a call has failed -/

theorem keepsCleanup_fails {op : Share.Op} {name : String} (hc : plain (.cleanup op name) = true) :
    KeepsCleanup (InPlace cfg rank) (Fails cfg rank) op name := by
  refine ⟨fun _ _ _ => inPlace_of_plain hc, fun p t r h => ?_⟩
  split <;> exact h.concat

theorem triple_fails_cleanup {op : Share.Op} {name : String}
    (hc : plain (.cleanup op name) = true) :
    Proc.Triple (InPlace cfg rank) (Fails cfg rank) (cleanup op name) (fun _ => Fails cfg rank) E :=
  triple_keeps_cleanup (keepsCleanup_fails hc)

/-- The socket is closed only by a worker that has finished, if all has worked. -/
theorem triple_fails_close (fd : ℕ) :
    Proc.Triple (InPlace cfg rank) (Fails cfg rank) (direct (.close fd)) (fun _ => Fails cfg rank)
      E :=
  triple_keeps ⟨fun _ _ h _ hworked => absurd hworked h, fun _ _ _ h => h.concat⟩

theorem triple_fails_throw {α : Type} {Q : α → Process → List SHEvent → Prop} (error : String) :
    Proc.Triple (InPlace cfg rank) (Fails cfg rank) (Proc.throw error : SH α) Q (Fails cfg rank) :=
  Proc.triple_throw fun _ _ h => h

theorem triple_fails_destroyAcl :
    Proc.Triple (InPlace cfg rank) (Fails cfg rank) destroyAcl (fun _ => Fails cfg rank) E :=
  triple_destroyAcl_keeps (keepsCleanup_fails rfl) (keepsCleanup_fails rfl)
    (keepsCleanup_fails rfl) (keepsCleanup_fails rfl)

/-! ## Words -/

/-- `send_word`. -/
theorem triple_sends {m : Message} (hplace : AtSend cfg k j)
    (htoken : k = 0 → m.meant = .token ∧ ∀ t, D t → Exported m.word t)
    (hbarrier : k ≠ 0 → m = ⟨.barrier, 0⟩)
    (hfilled : ∀ round < cfg.rounds, k = 2 * round + 3 → ∀ l, H l → ∀ i < cfg.bytes / 8,
      l i = some (pattern i (cfg.seed round rank)))
    (hunmapped : k = cfg.barriers → ∀ t, D t → ∀ i < cfg.count, HasUnmapped i t) :
    Proc.Triple (InPlace cfg rank) (Stage rank k j H K D) (sendWord 0 m)
      (fun _ => Stage rank (k + 1) j H K D) (Fails cfg rank) := by
  apply triple_send
  · intro p t h
    refine ⟨?_, h.still, fun hk => ?_, fun hk => ?_, h.idle.not_into _, fun round hround hk => ?_,
      fun hk => ?_⟩
    · rw [h.sent, h.received]
      exact hplace
    · obtain ⟨hmeant, hexported⟩ := htoken (h.sent.symm.trans hk)
      exact ⟨hmeant, hexported t h.did⟩
    · exact hbarrier (h.sent ▸ hk)
    · exact hfilled round hround (h.sent.symm.trans hk) _ h.block
    · exact hunmapped (h.sent.symm.trans hk) t h.did
  · intro p t h
    have hflight : (flight (t ++ [⟨p, .send 0 m, true⟩])).Idle := by
      rw [flight_concat]
      exact h.idle
    refine ⟨?_, ?_, hflight, ?_, ?_, h.state, fun u => ?_⟩
    · rw [sentWords_concat, h.sent]
      rfl
    · rw [receivedWords_concat, h.received]
      rfl
    · rw [reading_concat, h.still]
      rfl
    · rw [known_concat, if_neg (not_or.mpr ⟨h.idle.not_into _, hflight.not_into _⟩)]
      exact h.block
    · rw [List.append_assoc]
      exact h.log _
  · exact fun _ _ _ => fails_of_not_passes rfl

/-- The word that was received as number `j`. -/
def Heard (expects : Purpose) (j : ℕ) (word : UInt64) (t : List SHEvent) : Prop :=
  ∃ m : Message, m.word = word ∧ (receivedList t)[j]? = some m ∧
    ∃ p, (⟨p, .receive 0 expects, some m⟩ : SHEvent) ∈ t

/-- What has been received stays the first part of it. -/
theorem received_append {t : List SHEvent} {m : Message} (h : (receivedList t)[j]? = some m)
    (u : List SHEvent) : (receivedList (t ++ u))[j]? = some m := by
  unfold receivedList at h ⊢
  rw [List.filterMap_append, List.getElem?_append_left (List.getElem?_eq_some_iff.mp h).1]
  exact h

theorem heard_append {expects : Purpose} {word : UInt64} {t : List SHEvent}
    (h : Heard expects j word t) (u : List SHEvent) : Heard expects j word (t ++ u) := by
  obtain ⟨m, hword, hm, p, hmem⟩ := h
  exact ⟨m, hword, received_append hm u, p, List.mem_append_left _ hmem⟩

/-- `receive_word`. -/
theorem triple_receives {expects : Purpose} (hplace : AtReceive cfg k j)
    (htoken : j < cfg.count → expects = .token) (hbarrier : cfg.count ≤ j → expects = .barrier) :
    Proc.Triple (InPlace cfg rank) (Stage rank k j H K D) (receiveWord 0 expects)
      (fun word => Stage rank k (j + 1) H K fun t => D t ∧ Heard expects j word t)
      (Fails cfg rank) := by
  apply triple_receive
  · intro p t h
    refine ⟨?_, h.still, ?_, ?_⟩
    · rw [h.sent, h.received]
      exact hplace
    · rw [h.received]
      exact htoken
    · rw [h.received]
      exact hbarrier
  · intro p t m h
    have hflight : (flight (t ++ [⟨p, .receive 0 expects, some m⟩])).Idle := by
      rw [flight_concat]
      exact h.idle
    have hheard : Heard expects j m.word (t ++ [⟨p, .receive 0 expects, some m⟩]) := by
      refine ⟨m, rfl, ?_, p, List.mem_concat_self⟩
      have hlength : (receivedList t).length = j := (length_receivedList t).trans h.received
      have hlast : receivedList (t ++ [⟨p, .receive 0 expects, some m⟩]) =
        receivedList t ++ [m] := by
        simp [receivedList, takes]
      rw [hlast, ← hlength]
      exact List.getElem?_concat_length
    refine ⟨?_, ?_, hflight, ?_, ?_, h.state, fun u => ⟨?_, heard_append hheard u⟩⟩
    · rw [sentWords_concat, h.sent]
      rfl
    · rw [receivedWords_concat, h.received]
      rfl
    · rw [reading_concat, h.still]
      rfl
    · rw [known_concat, if_neg (not_or.mpr ⟨h.idle.not_into _, hflight.not_into _⟩)]
      exact h.block
    · rw [List.append_assoc]
      exact h.log _
  · exact fun _ _ _ => fails_of_not_passes rfl

/-- `barrier`, after `q` of them. -/
theorem triple_barrier {q : ℕ} (hq : q < cfg.barriers)
    (hfilled : ∀ round < cfg.rounds, q = 2 * round + 2 → ∀ l, H l → ∀ i < cfg.bytes / 8,
      l i = some (pattern i (cfg.seed round rank)))
    (hunmapped : q + 1 = cfg.barriers → ∀ t, D t → ∀ i < cfg.count, HasUnmapped i t) :
    Proc.Triple (InPlace cfg rank) (Stage rank (q + 1) (cfg.count + q) H K D) barrier
      (fun _ => Stage rank (q + 2) (cfg.count + (q + 1)) H K D) (Fails cfg rank) := by
  have hsend : AtSend cfg (q + 1) (cfg.count + q) := .inr ⟨by omega, by omega, by omega⟩
  have hreceive : AtReceive cfg (q + 2) (cfg.count + q) := .inr ⟨by omega, by omega, by omega⟩
  unfold barrier
  refine (triple_sends hsend (fun h => by omega) (fun _ => rfl) (fun round hround h => ?_)
    hunmapped).bind fun _ => ?_
  · exact hfilled round hround (by omega)
  refine (triple_receives hreceive (fun h => by omega) fun _ => rfl).bind fun word => ?_
  refine (triple_unless fun hword t h => ?_).weaken (fun _ _ h => h)
    (fun _ _ _ h => h.mono (fun _ h => h) (fun _ h => h) fun _ h => h.1) fun _ _ h => h
  obtain ⟨m, rfl, -, p, hmem⟩ := h.2
  exact not_worked_of_mem hmem (by simp [passes, hword])

/-! ## Buffers -/

/-- `fill`, of a private buffer. -/
theorem triple_fill_private {b : Buffer} (hb : ∀ i value, aside (.store b i value) = true)
    (bytes : ℕ) (seed : UInt64) :
    Proc.Triple (InPlace cfg rank) (Stage rank k j H K D) (fill b bytes seed)
      (fun _ => Stage rank k j H K D) E :=
  Proc.triple_forM fun i _ => triple_memory (hb i _)

/-- `verify`. -/
theorem triple_verifies (b : Buffer) (bytes : ℕ) (seed : UInt64) (phase : String) :
    Proc.Triple (InPlace cfg rank) (Stage rank k j H K D) (verify b bytes seed phase)
      (fun _ => Stage rank k j H K D) (Fails cfg rank) := by
  unfold verify
  apply Proc.triple_forM
  intro i _
  refine Proc.Triple.bind (Q := fun (actual : UInt64) p t' => ∃ t, Stage rank k j H K D p t ∧
    t' = t ++ [⟨p, .compare b i (pattern i seed) phase, actual⟩]) ?_ fun actual => ?_
  · exact Proc.triple_ask (fun _ _ _ => trivial) fun p t r h => ⟨t, h, rfl⟩
  apply Proc.triple_onlyIf
  · intro hne
    apply triple_fail
    rintro p _ ⟨t, h, rfl⟩
    exact fails_of_not_passes (by simpa [passes] using hne)
  · rintro - p _ ⟨t, h, rfl⟩
    exact h.aside rfl h.state

/-- The first words of the block are those of the pattern. -/
def Filled (n : ℕ) (seed : UInt64) (l : ℕ → Option UInt64) : Prop :=
  ∀ i < n, l i = some (pattern i seed)

/-- The block may be written after so many words. -/
def WriteTime (cfg : Config) (k j : ℕ) : Prop :=
  ∀ round < cfg.rounds, 2 * round + 4 ≤ k → cfg.count + 2 * round + 4 ≤ j

theorem Stage.mayWrite {p : Process} {t : List SHEvent} (h : Stage rank k j H K D p t)
    (htime : WriteTime cfg k j) : MayWrite cfg rank t (.host rank) := by
  rintro _ ⟨⟩
  refine ⟨rfl, ?_⟩
  rw [h.sent, h.received]
  exact htime

/-- `fill`, of the own block. -/
theorem triple_fill_block (htime : WriteTime cfg k j) (seed : UInt64) :
    Proc.Triple (InPlace cfg rank) (Stage rank k j H K D) (fill (.host rank) cfg.bytes seed)
      (fun _ => Stage rank k j (Filled (cfg.bytes / 8) seed) K D) E := by
  unfold fill
  refine Proc.Triple.weaken (Proc.triple_forM_range (I := fun n => Stage rank k j
    (Filled n seed) K D) ?_) ?_ (fun _ _ _ h => h) fun _ _ h => h
  · intro n hn
    apply Proc.triple_ask
    · exact fun p t h => h.mayWrite htime
    · intro p t r h
      refine h.next ⟨rfl, rfl⟩ h.idle rfl (fun i hi => ?_) h.state
      by_cases hin : i = n
      · subst hin
        simp [learn]
      · simpa [learn, Function.update_of_ne hin] using h.block i (by omega)
  · exact fun p t h => h.mono (fun l _ i hi => absurd hi (by omega)) (fun _ h => h) fun _ h => h

/-- `memset`, of the own block. -/
theorem triple_clear_block (htime : WriteTime cfg k j) :
    Proc.Triple (InPlace cfg rank) (Stage rank k j H K D) (clear (.host rank))
      (fun _ => Stage rank k j anyBlock K D) E :=
  Proc.triple_ask (fun _ _ h => h.mayWrite htime) fun _ _ _ h =>
    h.next ⟨rfl, rfl⟩ h.idle rfl trivial h.state

/-! ## Transfers -/

/-- Two calls, between which something may be in flight. -/
theorem Stage.twice {p p₁ p₂ p' : Process} {t : List SHEvent} {c₁ c₂ : Share.Call}
    {r₁ : Share.Call.Reply c₁} {r₂ : Share.Call.Reply c₂} (h : Stage rank k j H K D p t)
    (hfirst : puts c₁ r₁ = none ∧ takes c₁ r₁ = none)
    (hsecond : puts c₂ r₂ = none ∧ takes c₂ r₂ = none)
    (hidle : (((flight t).next c₁ r₁).next c₂ r₂).Idle)
    (hstill : readsNext (readsNext [] c₁ r₁) c₂ r₂ = [])
    (hblock : H' (known (t ++ [⟨p₁, c₁, r₁⟩] ++ [⟨p₂, c₂, r₂⟩]) (.host rank))) (hstate : K' p') :
    Stage rank k j H' K' D p' (t ++ [⟨p₁, c₁, r₁⟩] ++ [⟨p₂, c₂, r₂⟩]) := by
  have hwords₁ := Pair.words_quiet (t := t) (e := ⟨p₁, c₁, r₁⟩) hfirst.1 hfirst.2
  have hwords₂ := Pair.words_quiet (t := t ++ [⟨p₁, c₁, r₁⟩])
    (e := ⟨p₂, c₂, r₂⟩) hsecond.1 hsecond.2
  refine ⟨?_, ?_, ?_, ?_, hblock, hstate, fun u => ?_⟩
  · rw [hwords₂.1, hwords₁.1, h.sent]
  · rw [hwords₂.2, hwords₁.2, h.received]
  · rw [flight_concat, flight_concat]
    exact hidle
  · rw [reading_concat, reading_concat, h.still]
    exact hstill
  · rw [List.append_assoc, List.append_assoc]
    exact h.log _

/-- `copy`: the stream has been synchronised at its end. -/
theorem stage_copy {dst src : Buffer} {round : ℕ} {purpose : String}
    (hdst : ∀ owner, dst ≠ .host owner)
    (hsrc : ∀ owner, src = .host owner → owner < cfg.count ∧ round < cfg.rounds ∧
      k = 2 * round + 4 ∧ j = cfg.count + 2 * round + 3) :
    Proc.Triple (InPlace cfg rank) (Stage rank k j H K D) (copy dst src round purpose)
      (fun _ => Stage rank k j H K D) (Fails cfg rank) := by
  unfold copy
  -- the copy is in flight until the stream has been synchronized
  refine Proc.Triple.bind (Q := fun (r : Answer) p t' => ∃ t, Stage rank k j H K D p t ∧
    t' = t ++ [⟨p, .check (.aclrtMemcpyAsync dst src round) purpose, r⟩]) ?_ fun r => ?_
  · apply triple_check
    · intro p t h
      refine ⟨mayWrite_of_ne hdst, ?_⟩
      unfold MayCopy
      rw [h.sent, h.received]
      exact hsrc
    · exact fun p t r h _ => ⟨t, h, rfl⟩
    · exact fun _ _ _ _ hret => fails_of_not_passes (by simp [passes, hret])
  refine Proc.Triple.bind (Q := fun _ => Stage rank k j H K D) ?_
    fun _ => Proc.triple_pure fun _ _ h => h
  apply triple_check
  · exact fun _ _ _ => trivial
  · rintro p _ r' ⟨t, h, rfl⟩ hret
    -- it does not go into the own block, so what is known of that stays known
    have hnot : ¬(flight (t ++ [⟨p, .check (.aclrtMemcpyAsync dst src round) purpose, r⟩])).Into
        (.host rank) := by
      rw [flight_concat]
      intro hinto
      rcases into_next hinto with hinto | hwrites
      · exact h.idle.not_into _ hinto
      · exact hdst rank hwrites
    have hidle : (((flight t).next (.check (.aclrtMemcpyAsync dst src round) purpose) r).next
        (.check .aclrtSynchronizeStream "sync block copy") r').Idle := by
      simpa [Flight.next, hret] using ⟨rfl, h.idle.requests⟩
    refine h.twice ⟨rfl, rfl⟩ ⟨rfl, rfl⟩ hidle (if_pos hret) ?_ h.state
    rw [known_quiet hnot, known_quiet (h.idle.not_into _) hnot rfl]
    · exact h.block
    · rw [flight_concat, flight_concat]
      exact hidle.not_into _
    · rfl
  · rintro p _ r' ⟨t, -, rfl⟩ hret
    exact fails_of_not_passes (by simp [passes, hret])

/-- With all requests of a context reported, nothing is in flight. -/
theorem idle_reported {f : Flight} (hf : f.Idle) (ctx : ℕ) {reqs : List Iocb}
    (hlength : reqs.length ≤ 4) (r : Answer) {r' : Answer} (hret : r'.ret = 4) :
    ((f.next (.direct (.ioSubmit ctx reqs)) r).next (.direct (.ioGetevents ctx)) r').Idle := by
  have hcount : ((f.next (.direct (.ioSubmit ctx reqs)) r).requests.countP
      fun request => request.1 = ctx) ≤ r'.ret.toNat := by
    refine List.countP_le_length.trans ?_
    simp only [Flight.next, hf.requests, List.nil_append, List.length_map, List.length_take, hret]
    omega
  have hnext : (f.next (.direct (.ioSubmit ctx reqs)) r).next (.direct (.ioGetevents ctx)) r' =
      (f.next (.direct (.ioSubmit ctx reqs)) r).finish ctx := if_pos hcount
  rw [hnext]
  refine ⟨hf.copies, List.filter_eq_nil_iff.mpr fun request hmem => ?_⟩
  simp only [Flight.next, hf.requests, List.nil_append, List.mem_map] at hmem
  obtain ⟨iocb, -, rfl⟩ := hmem
  simp

/-- `aio_operation`: nothing is in flight at its end. -/
theorem triple_aio {fd : ℕ} {b : Buffer} {write : Bool}
    (hb : (∀ owner, b ≠ .host owner) ∨ b = .host rank ∧ WriteTime cfg k j) :
    Proc.Triple (InPlace cfg rank) (Stage rank k j H K D) (aioOperation fd b cfg.bytes write)
      (fun _ => Stage rank k j anyBlock K D) (Fails cfg rank) := by
  -- an exception after `io_submit` destroys the context first
  have hquiesce : ∀ ctx name what (Q : PUnit → Process → List SHEvent → Prop),
      Proc.Triple (InPlace cfg rank) (Fails cfg rank) (do
        cleanup (.ioDestroy ctx) name
        Proc.modify fun p => { p with ctx := 0 }
        fail what : SH PUnit) Q (Fails cfg rank) := by
    intro ctx name what Q
    refine (triple_fails_cleanup rfl).bind fun _ => ?_
    refine Proc.Triple.bind (Q := fun _ => Fails cfg rank) (Proc.triple_modify fun _ _ h => h)
      fun _ => ?_
    exact triple_fail fun _ _ h => h
  unfold aioOperation
  refine Proc.Triple.bind (Q := fun _ => Stage rank k j H K D) (Proc.triple_get fun _ _ h => h)
    fun p₀ => ?_
  -- what is in flight after `io_submit` is not in any stage, so the two calls are taken together
  refine Proc.Triple.bind (Q := fun (r : Answer) p t' => ∃ t, Stage rank k j H K D p t ∧
    t' = t ++ [⟨p, .direct (.ioSubmit p₀.ctx (requests fd b cfg.bytes write)), r⟩]) ?_
    fun submitted => ?_
  · apply Proc.triple_ask
    · intro p t h request hmem _
      have hbuffer : request.buffer = b := by
        obtain ⟨i, -, rfl⟩ := List.mem_map.mp hmem
        rfl
      rw [hbuffer]
      rcases hb with hb | ⟨rfl, htime⟩
      · exact mayWrite_of_ne hb
      · exact h.mayWrite htime
    · exact fun p t r h => ⟨t, h, rfl⟩
  refine Proc.Triple.bind (Q := fun _ p t' => ∃ t, Stage rank k j H K D p t ∧
    t' = t ++ [⟨p, .direct (.ioSubmit p₀.ctx (requests fd b cfg.bytes write)), submitted⟩]) ?_
    fun _ => ?_
  · apply Proc.triple_onlyIf
    · intro hret
      refine (hquiesce _ _ _ _).weaken ?_ (fun _ _ _ h => h) fun _ _ h => h
      rintro p _ ⟨t, -, rfl⟩
      exact fails_of_not_passes (by simpa [passes] using hret)
    · exact fun _ _ _ h => h
  refine Proc.Triple.bind (Q := fun (r : Answer) p t' => ∃ t, Stage rank k j H K D p t ∧
    t' = t ++ [⟨p, .direct (.ioSubmit p₀.ctx (requests fd b cfg.bytes write)), submitted⟩] ++
      [⟨p, .direct (.ioGetevents p₀.ctx), r⟩]) ?_ fun completed => ?_
  · apply Proc.triple_ask
    · exact fun _ _ _ => trivial
    · rintro p _ r ⟨t, h, rfl⟩
      exact ⟨t, h, rfl⟩
  refine Proc.Triple.bind (Q := fun _ p t' => completed.ret = 4 ∧ ∃ t, Stage rank k j H K D p t ∧
    t' = t ++ [⟨p, .direct (.ioSubmit p₀.ctx (requests fd b cfg.bytes write)), submitted⟩] ++
      [⟨p, .direct (.ioGetevents p₀.ctx), completed⟩]) ?_ fun _ => ?_
  · apply Proc.triple_onlyIf
    · intro hret
      refine (hquiesce _ _ _ _).weaken ?_ (fun _ _ _ h => h) fun _ _ h => h
      rintro p _ ⟨t, -, rfl⟩
      exact fails_of_not_passes (by simp [passes, hret])
    · exact fun hret _ _ h => ⟨not_not.mp hret, h⟩
  -- the four events have been reaped, and nothing is in flight again
  apply Proc.triple_onlyIf
  · intro hfailed
    apply triple_fail
    rintro p _ ⟨-, t, -, rfl⟩
    exact fails_of_not_passes (by simp [passes, hfailed])
  · rintro - p _ ⟨hret, t, h, rfl⟩
    exact h.twice ⟨rfl, rfl⟩ ⟨rfl, rfl⟩ (idle_reported h.idle _ (by simp [requests]) _ hret) rfl
      trivial h.state

/-! ## The pieces of the `try` block -/

theorem stage_setUpDevice :
    Proc.Triple (InPlace cfg rank) (Stage rank k j anyBlock anyState anyLog) (setUpDevice cfg rank)
      (fun _ => Stage rank k j anyBlock anyState anyLog) (Fails cfg rank) := by
  unfold setUpDevice
  refine (triple_passes rfl).bind fun _ => ?_
  refine (triple_passes rfl).bind fun _ => ?_
  refine Proc.Triple.bind (Q := fun _ => Stage rank k j anyBlock anyState anyLog)
    (triple_sets fun _ _ => trivial) fun _ => ?_
  refine (triple_passes rfl).bind fun _ => ?_
  refine Proc.Triple.bind (Q := fun _ => Stage rank k j anyBlock anyState anyLog)
    (triple_sets fun _ _ => trivial) fun _ => ?_
  refine (triple_did rfl).bind fun current => ?_
  refine (triple_unless fun hnull t h => not_worked_of_did h.2 fun _ => ?_).bind fun _ => ?_
  · simp [passes, hnull]
  refine (triple_did rfl).bind fun device => ?_
  refine (triple_unless fun hother t h => not_worked_of_did h.2 fun _ => ?_).weaken
    (fun _ _ h => h) (fun _ _ _ h => h.mono (fun _ h => h) (fun _ h => h) fun _ _ => trivial)
    fun _ _ h => h
  simp [passes, hother]

theorem stage_exportOwn :
    Proc.Triple (InPlace cfg rank) (Stage rank 0 0 anyBlock anyState anyLog) (exportOwn cfg rank)
      (fun _ => Stage rank 1 0 anyBlock anyState anyLog) (Fails cfg rank) := by
  unfold exportOwn
  refine (triple_did rfl).bind fun base => ?_
  refine Proc.Triple.bind (Q := fun _ => Stage rank 0 0 anyBlock anyState fun t =>
    anyLog t ∧ Did (.halMemAddressReserve cfg.reserveBytes) base t)
    (triple_sets fun _ _ => trivial) fun _ => ?_
  refine (triple_unless fun hbase t h => not_worked_of_did h.2 fun _ => ?_).bind fun _ => ?_
  · rcases hbase with hnull | haligned
    · simp [passes, hnull]
    · simp [passes, haligned]
  refine (triple_passes rfl).bind fun created => ?_
  refine Proc.Triple.bind (Q := fun _ => Stage rank 0 0 anyBlock anyState fun t =>
    anyLog t ∧ Did (.halMemAddressReserve cfg.reserveBytes) base t)
    (triple_sets fun _ _ => trivial) fun _ => ?_
  refine (triple_memory (c := .direct .dlsym) rfl).bind fun query => ?_
  refine Proc.Triple.bind (Q := fun _ => Stage rank 0 0 anyBlock anyState anyLog) ?_ fun _ => ?_
  · apply Proc.triple_onlyIf
    · intro _
      refine (triple_did rfl).bind fun actual => ?_
      refine (triple_unless fun hother t h => not_worked_of_did h.2 fun _ => ?_).weaken
        (fun _ _ h => h) (fun _ _ _ h => h.mono (fun _ h => h) (fun _ h => h) fun _ _ => trivial)
        fun _ _ h => h
      rcases hother with hside | hnode
      · simp [passes, hside]
      · simp [passes, hnode]
    · exact fun _ _ _ h => h.mono (fun _ h => h) (fun _ h => h) fun _ _ => trivial
  refine (triple_did rfl).bind fun token => ?_
  refine (triple_passes rfl).bind fun _ => ?_
  refine (triple_sends (.inl ⟨rfl, rfl⟩) (fun _ => ⟨rfl, fun t h => ⟨_, token, h.2, rfl⟩⟩)
    (fun h => absurd rfl h) (fun round _ h => by omega) fun h => ?_).weaken (fun _ _ h => h)
    (fun _ _ _ h => h.mono (fun _ h => h) (fun _ h => h) fun _ _ => trivial) fun _ _ h => h
  unfold Config.barriers at h
  omega

/-- One slice.  The handle is that which the token of its owner stands for. -/
theorem stage_importSlice {owner : ℕ} (howner : owner < cfg.count) :
    Proc.Triple (InPlace cfg rank) (Stage rank 1 owner anyBlock anyState anyLog)
      (importSlice rank owner) (fun _ => Stage rank 1 (owner + 1) anyBlock anyState anyLog)
      (Fails cfg rank) := by
  unfold importSlice
  refine (triple_receives (.inl ⟨rfl, howner⟩) (fun _ => rfl) fun h => by omega).bind
    fun token => ?_
  refine Proc.Triple.bind (Q := fun _ p t => ∃ handle, Stage rank 1 (owner + 1) anyBlock
    (fun p => p.handles owner = handle) (fun t => owner ≠ rank → Imported owner handle t) p t) ?_
    fun _ => ?_
  · apply Proc.triple_onlyIf
    · intro hne
      apply triple_check_set
      · intro p t h
        obtain ⟨m, hword, hm, -⟩ := h.did.2
        exact ⟨howner, hne, m, hm, hword⟩
      · intro p t r h hret
        have hnext : Stage rank 1 (owner + 1) anyBlock (fun p => p.handles owner = r.out)
            (fun t => anyLog t ∧ Heard .token owner token t)
            { p with handles := Function.update p.handles owner r.out }
            (t ++ [⟨p, .check (.halMemImportFromShareableHandle owner token)
              "import peer as DEVICE", r⟩]) :=
          h.next ⟨rfl, rfl⟩ h.idle rfl trivial (Function.update_self _ _ _)
        have hdid : ∀ u : List SHEvent, (⟨p, .check (.halMemImportFromShareableHandle owner token)
            "import peer as DEVICE", r⟩ : SHEvent) ∈ u → Imported owner r.out u :=
          fun u hu => ⟨token, r, ⟨hret, p, _, hu⟩, rfl⟩
        exact ⟨r.out, (hnext.note hdid).mono (fun _ h => h) (fun _ h => h) fun _ h _ => h.2⟩
      · exact fun _ _ _ _ hret => fails_of_not_passes (by simp [passes, hret])
    · intro hown p t h
      exact ⟨p.handles owner, h.sent, h.received, h.idle, h.still, h.block, rfl,
        fun _ hne => absurd hne hown⟩
  refine Proc.triple_exists fun handle => Proc.triple_get_bind fun p₀ => ?_
  apply triple_check_set
  · rintro p t ⟨rfl, h⟩ hne
    rw [h.state]
    exact h.did hne
  · rintro p t r ⟨rfl, h⟩ hret
    exact (h.next (e := ⟨p, .check (.halMemMap owner (p.handles owner)) "map contiguous slice", r⟩)
      ⟨rfl, rfl⟩ h.idle rfl trivial trivial).mono (fun _ h => h) (fun _ h => h) fun _ _ => trivial
  · exact fun _ _ _ _ hret => fails_of_not_passes (by simp [passes, hret])

/-- The transfers between the block and a file: none is left in flight. -/
theorem stage_bufferedAio (htime : WriteTime cfg k j) (seed : UInt64) :
    Proc.Triple (InPlace cfg rank) (Stage rank k j H anyState anyLog) (bufferedAio cfg rank seed)
      (fun _ => Stage rank k j anyBlock anyState anyLog) (Fails cfg rank) := by
  have hprivate : ∀ (b : Buffer), b = .control → (∀ owner, b ≠ .host owner) ∨
      b = .host rank ∧ WriteTime cfg k j := by
    rintro b rfl
    exact .inl (by simp)
  have hown : (∀ owner, Buffer.host rank ≠ .host owner) ∨
      Buffer.host rank = .host rank ∧ WriteTime cfg k j := .inr ⟨rfl, htime⟩
  have htransfers : ∀ fd, Proc.Triple (InPlace cfg rank) (Stage rank k j H anyState anyLog)
      (aioTransfers cfg rank fd seed) (fun _ => Stage rank k j anyBlock anyState anyLog)
      (Fails cfg rank) := by
    intro fd
    unfold aioTransfers
    refine (triple_passes rfl).bind fun setup => ?_
    refine Proc.Triple.bind (Q := fun _ => Stage rank k j H anyState anyLog)
      (triple_sets fun _ _ => trivial) fun _ => ?_
    refine (triple_aio (hprivate _ rfl)).bind fun _ => ?_
    refine (triple_clear_block htime).bind fun _ => (triple_aio hown).bind fun _ => ?_
    refine (triple_verifies _ _ _ _).bind fun _ => (triple_passes rfl).bind fun _ => ?_
    refine (triple_aio hown).bind fun _ => ?_
    refine (triple_memory (c := .memset .control) rfl).bind fun _ => ?_
    exact (triple_aio (hprivate _ rfl)).bind fun _ => triple_verifies _ _ _ _
  unfold bufferedAio
  -- the file that is opened is unlinked at once
  refine (triple_fill_private (fun _ _ => rfl) _ _).bind fun _ => ?_
  refine (triple_got rfl).bind fun opened => ?_
  refine (triple_unless fun hret t h => ?_).bind fun _ => ?_
  · obtain ⟨p, hmem⟩ := h.2
    exact not_worked_of_mem hmem (by simp [passes, hret.le])
  refine (triple_got rfl).bind fun unlinked => ?_
  refine Proc.Triple.bind (Q := fun _ => Stage rank k j H anyState anyLog) ?_ fun _ => ?_
  · apply Proc.triple_onlyIf
    · intro hret
      refine Proc.Triple.weaken ((triple_fails_close _).bind fun _ => triple_fail fun _ _ h => h)
        (fun p t h => ?_) (fun _ _ _ h => h) fun _ _ h => h
      obtain ⟨p', hmem⟩ := h.did.2
      exact not_worked_of_mem hmem (by simpa [passes] using hret)
    · exact fun _ _ _ h => h.mono (fun _ h => h) (fun _ h => h) fun _ _ => trivial
  refine Proc.Triple.bind (Q := fun _ => Stage rank k j H anyState anyLog)
    (triple_sets fun _ _ => trivial) fun _ => ?_
  -- an exception destroys the context and closes the file
  refine Proc.Triple.bind (Q := fun _ => Stage rank k j anyBlock anyState anyLog) ?_ fun _ => ?_
  · refine (htransfers _).tryCatch fun error => ?_
    refine Proc.Triple.bind (Q := fun _ => Fails cfg rank) (Proc.triple_get fun _ _ h => h)
      fun p => ?_
    refine Proc.Triple.bind (Q := fun _ => Fails cfg rank)
      (Proc.triple_onlyIf (fun _ => triple_fails_cleanup rfl) fun _ _ _ h => h) fun _ => ?_
    exact (triple_fails_cleanup rfl).bind fun _ => triple_fails_throw error
  refine Proc.Triple.bind (Q := fun _ => Stage rank k j anyBlock anyState anyLog)
    (Proc.triple_get fun _ _ h => h) fun p => ?_
  exact (triple_cleans rfl).bind fun _ => triple_cleans rfl

theorem stage_testOwn :
    Proc.Triple (InPlace cfg rank) (Stage rank 2 j anyBlock anyState anyLog) (testOwn cfg rank)
      (fun _ => Stage rank 2 j anyBlock anyState anyLog) (Fails cfg rank) := by
  have htime : WriteTime cfg 2 j := fun round _ h => by omega
  unfold testOwn
  refine (triple_fill_block htime _).bind fun _ => ?_
  exact (triple_verifies _ _ _ _).bind fun _ => stage_bufferedAio htime _

/-- One block is read, in a round. -/
theorem stage_readBlock {round owner : ℕ} (hround : round < cfg.rounds)
    (howner : owner < cfg.count) :
    Proc.Triple (InPlace cfg rank)
      (Stage rank (2 * round + 4) (cfg.count + (2 * round + 3)) H K D) (readBlock cfg round owner)
      (fun _ => Stage rank (2 * round + 4) (cfg.count + (2 * round + 3)) H K D)
      (Fails cfg rank) := by
  unfold readBlock
  refine (triple_passes rfl).bind fun _ => ?_
  refine (stage_copy (by simp) fun owner' howner' => ?_).bind fun _ => ?_
  · cases howner'
    exact ⟨howner, hround, rfl, by omega⟩
  refine (triple_memory (c := .memset .staging) rfl).bind fun _ => ?_
  refine (stage_copy (by simp) fun owner' howner' => by cases howner').bind fun _ => ?_
  exact triple_verifies _ _ _ _

/-- One round: the block is filled before its first barrier, and read before the second one. -/
theorem stage_readRound {round : ℕ} (hround : round < cfg.rounds) :
    Proc.Triple (InPlace cfg rank)
      (Stage rank (2 * round + 3) (cfg.count + (2 * round + 2)) anyBlock anyState anyLog)
      (readRound cfg rank round)
      (fun _ => Stage rank (2 * (round + 1) + 3) (cfg.count + (2 * (round + 1) + 2)) anyBlock
        anyState anyLog) (Fails cfg rank) := by
  have htime : WriteTime cfg (2 * round + 3) (cfg.count + (2 * round + 2)) := by
    intro round' _ hsent
    omega
  have hbarriers : 2 * round + 4 < cfg.barriers := by
    unfold Config.barriers
    omega
  unfold readRound
  refine (triple_fill_block htime _).bind fun _ => (triple_verifies _ _ _ _).bind fun _ => ?_
  refine (triple_barrier (by omega) (fun round' _ h => ?_) fun h => by omega).bind fun _ => ?_
  · obtain rfl : round' = round := by omega
    exact fun l hl => hl
  refine Proc.Triple.bind (Q := fun _ => Stage rank (2 * round + 4) (cfg.count + (2 * round + 3))
    (Filled (cfg.bytes / 8) (cfg.seed round rank)) anyState anyLog) ?_ fun _ => ?_
  · exact Proc.triple_forM fun owner hmem =>
      stage_readBlock hround (List.mem_range.mp hmem)
  refine (triple_verifies _ _ _ _).bind fun _ => ?_
  exact (triple_barrier (by omega) (fun round' _ h => by omega) fun h => by omega).weaken
    (fun _ _ h => h) (fun _ _ _ h => h.mono (fun _ _ => trivial) (fun _ h => h) fun _ h => h)
    fun _ _ h => h

/-- The scope of `AclResources`. -/
theorem triple_scope {k' j' : ℕ} {body : SH PUnit}
    (hbody : Proc.Triple (InPlace cfg rank) (Stage rank k j H anyState D) body
      (fun _ => Stage rank k' j' H' anyState D') (Fails cfg rank)) :
    Proc.Triple (InPlace cfg rank) (Stage rank k j H anyState D) (withAcl body)
      (fun _ => Stage rank k' j' H' anyState D') (Fails cfg rank) := by
  unfold withAcl
  refine Proc.Triple.bind (Q := fun _ => Stage rank k j H anyState D)
    (triple_sets fun _ _ => trivial) fun _ => ?_
  refine Proc.Triple.bind (Q := fun _ => Stage rank k' j' H' anyState D') ?_ fun result => ?_
  · refine hbody.tryCatch fun error => ?_
    exact triple_fails_destroyAcl.bind fun _ => triple_fails_throw error
  · refine Proc.Triple.bind (Q := fun _ => Stage rank k' j' H' anyState D') ?_
      fun _ => Proc.triple_pure fun _ _ h => h
    exact triple_destroyAcl_keeps (keepsCleanup_stage rfl) (keepsCleanup_stage rfl)
      (keepsCleanup_stage rfl) (keepsCleanup_stage rfl)

theorem stage_readRounds :
    Proc.Triple (InPlace cfg rank) (Stage rank 3 (cfg.count + 2) anyBlock anyState anyLog)
      (readRounds cfg rank)
      (fun _ => Stage rank (2 * cfg.rounds + 3) (cfg.count + (2 * cfg.rounds + 2)) anyBlock anyState
        anyLog) (Fails cfg rank) := by
  apply triple_scope
  refine (triple_passes rfl).bind fun device => ?_
  refine Proc.Triple.bind (Q := fun _ => Stage rank 3 (cfg.count + 2) anyBlock anyState anyLog)
    (triple_sets fun _ _ => trivial) fun _ => ?_
  refine (triple_did rfl).bind fun attr => ?_
  refine (triple_unless fun hother t h => not_worked_of_did h.2 fun _ => ?_).bind fun _ => ?_
  · simp [passes, hother]
  refine (triple_passes rfl).bind fun stream => ?_
  refine Proc.Triple.bind (Q := fun _ => Stage rank 3 (cfg.count + 2) anyBlock anyState anyLog)
    ?_ fun _ => ?_
  · exact Proc.triple_modify fun p t h => ⟨h.sent, h.received, h.idle, h.still, h.block, trivial,
      fun _ => trivial⟩
  exact Proc.triple_forM_range (I := fun round => Stage rank (2 * round + 3)
    (cfg.count + (2 * round + 2)) anyBlock anyState anyLog) fun round hround =>
      stage_readRound hround

/-- The slices below `i` have been unmapped. -/
def UnmappedBelow (i : ℕ) (t : List SHEvent) : Prop := ∀ owner < i, HasUnmapped owner t

theorem stage_unmapSlice {i : ℕ} :
    Proc.Triple (InPlace cfg rank) (Stage rank k j H anyState (UnmappedBelow i)) (unmapSlice i)
      (fun _ => Stage rank k j H anyState (UnmappedBelow (i + 1))) (Fails cfg rank) := by
  unfold unmapSlice
  refine (triple_did rfl).bind fun r => ?_
  refine (triple_sets (A := anyState) fun _ _ => trivial).weaken (fun _ _ h => h)
    (fun _ _ _ h => h.mono (fun _ h => h) (fun _ h => h) fun t ht owner howner => ?_) fun _ _ h => h
  rcases Nat.lt_succ_iff_lt_or_eq.mp howner with hbelow | rfl
  · exact ht.1 owner hbelow
  · exact ⟨r, ht.2⟩

/-- The `try` block. -/
theorem stage_body :
    Proc.Triple (InPlace cfg rank) (Stage rank 0 0 anyBlock anyState anyLog) (workerBody cfg rank)
      (fun _ => Stage rank (cfg.barriers + 1) (cfg.count + cfg.barriers) anyBlock anyState anyLog)
      (Fails cfg rank) := by
  have hbarriers : cfg.barriers = 2 * cfg.rounds + 4 := rfl
  unfold workerBody
  refine stage_setUpDevice.bind fun _ => stage_exportOwn.bind fun _ => ?_
  refine Proc.Triple.bind (Q := fun _ => Stage rank 1 cfg.count anyBlock anyState anyLog) ?_
    fun _ => ?_
  · exact Proc.triple_forM_range (I := fun owner => Stage rank 1 owner anyBlock anyState anyLog)
      fun owner howner => stage_importSlice howner
  refine (triple_barrier (q := 0) (by omega) (fun round _ h => by omega) fun h => by omega).bind
    fun _ => ?_
  refine stage_testOwn.bind fun _ => ?_
  refine (triple_barrier (q := 1) (by omega) (fun round _ h => by omega) fun h => by omega).bind
    fun _ => ?_
  refine stage_readRounds.bind fun _ => ?_
  refine (triple_barrier (q := 2 * cfg.rounds + 2) (by omega) (fun round hround h => by omega)
    fun h => by omega).bind fun _ => ?_
  refine Proc.Triple.bind (Q := fun _ => Stage rank (2 * cfg.rounds + 4)
    (cfg.count + (2 * cfg.rounds + 3)) anyBlock anyState (UnmappedBelow cfg.count)) ?_ fun _ => ?_
  · refine (Proc.triple_forM_range (I := fun i => Stage rank (2 * cfg.rounds + 4)
      (cfg.count + (2 * cfg.rounds + 3)) anyBlock anyState (UnmappedBelow i))
      fun i _ => stage_unmapSlice).weaken (fun p t h => ?_) (fun _ _ _ h => h) fun _ _ h => h
    exact h.mono (fun _ h => h) (fun _ h => h) fun _ _ owner howner => absurd howner (by omega)
  exact (triple_barrier (q := 2 * cfg.rounds + 3) (by omega) (fun round _ h => by omega)
    fun _ t ht => ht).weaken (fun _ _ h => h)
    (fun _ _ _ h => h.mono (fun _ h => h) (fun _ h => h) fun _ _ => trivial) fun _ _ h => h

end Rules

/-! ## The worker -/

section Worker

variable {cfg : Config} {rank : ℕ} {p : Process} {t : List SHEvent}

theorem stage_start : Stage rank 0 0 anyBlock anyState anyLog {} [] :=
  ⟨rfl, rfl, ⟨rfl, rfl⟩, rfl, trivial, trivial, fun _ => trivial⟩

/-- If the `try` block has thrown, then some call has failed. -/
theorem not_worked_of_threw (h : BodyThrew cfg rank t) : ¬Worked cfg rank t := by
  obtain ⟨t₁, t₂, error, p, rfl, hruns⟩ := h
  have hbody := @stage_body cfg rank {} [] stage_start
  have hfails := Prog.Meets.post_of_runs hbody hruns
  intro hworked
  exact hfails fun e he => hworked e (List.mem_append_left _ he)

/-- The `try` block is over: all words have been sent and received, or it has thrown. -/
def Over (cfg : Config) (rank : ℕ) (_p : Process) (t : List SHEvent) : Prop :=
  (sentWords t = cfg.barriers + 1 ∧ receivedWords t = cfg.count + cfg.barriers) ∨
    BodyThrew cfg rank t

theorem over_of_worked (h : Over cfg rank p t) (hworked : Worked cfg rank t) :
    sentWords t = cfg.barriers + 1 ∧ receivedWords t = cfg.count + cfg.barriers :=
  h.resolve_right fun hthrew => not_worked_of_threw hthrew hworked

/-- The calls of the cleanup. -/
def tearsDown : Share.Call → Bool
  | .cleanup _ _ | .direct (.close _) => true
  | _ => false

theorem bodyThrew_append (h : BodyThrew cfg rank t) (u : List SHEvent) :
    BodyThrew cfg rank (t ++ u) := by
  obtain ⟨t₁, t₂, error, p, rfl, hruns⟩ := h
  exact ⟨t₁, t₂ ++ u, error, p, List.append_assoc _ _ _, hruns⟩

theorem over_concat {p' : Process} {e : SHEvent} (h : Over cfg rank p t)
    (he : tearsDown e.call = true) : Over cfg rank p' (t ++ [e]) := by
  rcases h with hsent | hthrew
  · obtain ⟨p₀, c, r⟩ := e
    have hwords : puts c r = none ∧ takes c r = none := by
      cases c with
      | cleanup op name => exact ⟨rfl, rfl⟩
      | direct op => exact ⟨rfl, rfl⟩
      | _ => cases he
    obtain ⟨hsame, hsame'⟩ := Pair.words_quiet (t := t) (e := ⟨p₀, c, r⟩) hwords.1 hwords.2
    exact .inl ⟨hsame.trans hsent.1, hsame'.trans hsent.2⟩
  · exact .inr (bodyThrew_append hthrew _)

/-- All calls of the cleanup are allowed. -/
theorem inPlace_of_over {c : Share.Call} (h : Over cfg rank p t) (hc : tearsDown c = true) :
    InPlace cfg rank t p c := by
  cases c with
  | cleanup op name =>
      cases op with
      | halMemRelease owner handle => exact fun _ hthrew => (h.resolve_right hthrew).2
      | _ => trivial
  | direct op =>
      cases op with
      | close fd => exact fun _ hworked => over_of_worked h hworked
      | _ => cases hc
  | _ => cases hc

theorem keepsCleanup_over (op : Share.Op) (name : String) :
    KeepsCleanup (InPlace cfg rank) (Over cfg rank) op name := by
  refine ⟨fun _ _ h => inPlace_of_over h rfl, fun _ _ _ h => ?_⟩
  split <;> exact over_concat h rfl

/-- What follows the `try` block closes the socket. -/
theorem triple_over {E : Process → List SHEvent → Prop} :
    Proc.Triple (InPlace cfg rank) (Over cfg rank) (finish cfg rank)
      (fun _ p t => Over cfg rank p t ∧ Closed t) E := by
  have hclean : ∀ {c : Prop} [Decidable c] (op : Share.Op) (name : String),
      Proc.Triple (InPlace cfg rank) (Over cfg rank) (Proc.onlyIf c (cleanup op name))
        (fun _ => Over cfg rank) E :=
    fun op name => Proc.triple_onlyIf (fun _ => triple_keeps_cleanup (keepsCleanup_over op name))
      fun _ _ _ h => h
  have hget : Proc.Triple (InPlace cfg rank) (Over cfg rank) (Proc.get : SH Process)
      (fun _ => Over cfg rank) E := Proc.triple_get fun _ _ h => h
  unfold finish workerCleanup
  refine Proc.Triple.bind (Q := fun _ p t => Over cfg rank p t ∧ Closed t) ?_ fun _ => ?_
  · refine Proc.Triple.bind (Q := fun _ => Over cfg rank) ?_ fun _ => ?_
    · apply Proc.triple_forM
      intro i _
      exact hget.bind fun p => (hclean _ _).bind fun _ => hclean _ _
    refine hget.bind fun p => (hclean _ _).bind fun _ => (hclean _ _).bind fun _ => ?_
    refine (hclean _ _).bind fun _ => ?_
    refine Proc.Triple.bind (Q := fun _ p t => Over cfg rank p t ∧ Closed t) ?_
      fun _ => Proc.triple_pure fun _ _ h => h
    refine Proc.triple_ask (fun _ _ h => inPlace_of_over h rfl) fun p t r h => ⟨?_, ?_⟩
    · exact over_concat (e := ⟨p, .direct (.close 0), r⟩) h rfl
    · exact (closed_concat _ _).mpr (.inr rfl)
  · refine Proc.Triple.bind (Q := fun _ p t => Over cfg rank p t ∧ Closed t)
      (Proc.triple_get fun _ _ h => h) fun p => Proc.triple_pure fun _ _ h => h

/-- What is known when a worker returns. -/
structure Ended (cfg : Config) (rank : ℕ) (x : Except String ℕ) (t : List SHEvent) : Prop where
  closed : Closed t
  code : Worked cfg rank t → x = .ok 0
  words : Worked cfg rank t →
    sentWords t = cfg.barriers + 1 ∧ receivedWords t = cfg.count + cfg.barriers

/-- All calls of a worker are in place. -/
theorem meets_worker (hrank : rank < cfg.count) : (worker cfg rank {}).Meets (InPlace cfg rank) []
    fun x t => Ended cfg rank x.1 t := by
  have hover : (worker cfg rank).Meets (InPlace cfg rank) {} [] fun _ p t =>
      Over cfg rank p t ∧ Closed t := by
    have hbody : (workerBody cfg rank).Meets (InPlace cfg rank) {} [] fun _ p t =>
        Over cfg rank p t := by
      refine Prog.Meets.mono ?_ (Prog.Meets.and_runs (stage_body {} [] stage_start))
      rintro ⟨x, p⟩ t ⟨⟨_, rfl, hruns⟩, hpost⟩
      cases x with
      | ok a => exact .inl ⟨hpost.sent, hpost.received⟩
      | error e => exact .inr ⟨t, [], e, p, by simp, hruns⟩
    have hfinish : ∀ p t, Over cfg rank p t → (finish cfg rank).Meets (InPlace cfg rank) p t
        fun _ p t => Over cfg rank p t ∧ Closed t := by
      intro p t hstart
      refine ((triple_over (E := fun _ _ => False)) p t hstart).mono fun x p' t' _ hx => ?_
      cases x with
      | ok code => exact hx
      | error e => exact hx.elim
    rw [worker_eq, Proc.meets_bind, Proc.meets_tryCatch]
    refine hbody.mono fun x p t _ hx => ?_
    cases x with
    | ok a => exact hfinish p t hx
    | error e => exact Proc.meets_modify.mpr (hfinish _ t hx)
  refine Prog.Meets.mono ?_ (Prog.Meets.and_runs hover)
  rintro ⟨x, p⟩ t ⟨⟨_, rfl, hruns⟩, hend, hclosed⟩
  refine ⟨hclosed, fun hworked => ?_, over_of_worked hend⟩
  obtain ⟨-, code, rfl, hcode⟩ := worker_ends hrank hruns
  by_contra hne
  rcases hcode.mp fun hzero => hne (by rw [hzero]) with hthrew | ⟨e, he, hfailed⟩
  · exact not_worked_of_threw hthrew hworked
  · obtain ⟨p', c, r⟩ := e
    have hpasses := hworked _ he
    cases c with
    | cleanup op name =>
        have hret : r.ret ≠ 0 := bne_iff_ne.mp hfailed
        exact hret (by simpa [passes] using hpasses)
    | _ => cases hfailed

end Worker

end SharingProbe.MultiShare
