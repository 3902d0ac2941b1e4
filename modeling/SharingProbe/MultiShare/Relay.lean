import SharingProbe.MultiShare.Rounds

/-!
# Where the coordinator is

The coordinator receives one token from every worker, in the order of the ranks, and sends all of
them to every worker.  Then it relays the barriers: it receives a word from every worker before it
sends one to any of them.  How many words it has received from a worker and sent to it says where
it is, as for a worker.
-/

namespace SharingProbe.MultiShare

open Interaction Network Share

/-! ## What is counted -/

section Counts

variable {n : ℕ} (st : Started n)

/-- How many words of a worker have been received. -/
def got (rank : Fin n) (t : List SHEvent) : ℕ := (heard st .coordinator (.up rank) t).length

/-- How many words have been sent to a worker. -/
def put (rank : Fin n) (t : List SHEvent) : ℕ := (said st .coordinator (.down rank) t).length

/-- The first word that was received from a worker. -/
def FirstWord (rank : Fin n) (word : UInt64) (t : List SHEvent) : Prop :=
  ∃ m : Message, (heard st .coordinator (.up rank) t).head? = some m ∧ m.word = word

/-- The socket of a worker has been closed. -/
def Hung (rank : Fin n) (t : List SHEvent) : Prop :=
    ∃ e ∈ t, e.call = .direct (.close (st.socket rank))

/-- A worker has been waited for, and has returned 0. -/
def Reaped (rank : Fin n) (t : List SHEvent) : Prop :=
  ∃ p, ∃ r : Answer, (⟨p, .direct (.waitpid (st.child rank)), r⟩ : SHEvent) ∈ t ∧ 0 ≤ r.ret ∧
    r.out = 0

/-- `x` for the ranks below `i`, and `y` for the others. -/
def below (i x y : ℕ) (rank : Fin n) : ℕ := if rank.val < i then x else y

omit st in
theorem below_count (x y : ℕ) : (below n x y : Fin n → ℕ) = fun _ => x :=
  funext fun rank => if_pos rank.isLt

omit st in
theorem below_self (x y : ℕ) (rank : Fin n) : below rank.val x y rank = y := if_neg (lt_irrefl _)

omit st in
/-- The next rank. -/
theorem update_below (x y : ℕ) (rank : Fin n) :
    Function.update (below rank.val x y) rank x = below (rank.val + 1) x y := by
  funext other
  by_cases hother : other = rank
  · subst hother
    rw [Function.update_self]
    exact (if_pos (Nat.lt_succ_self _)).symm
  · have hne : other.val ≠ rank.val := fun h => hother (Fin.ext h)
    rw [Function.update_of_ne hother]
    have hiff : other.val < rank.val ↔ other.val < rank.val + 1 := by omega
    simp only [below, hiff]

theorem putsOn_send (rank rank' : Fin n) (m : Message) (sent : Bool) :
    putsOn st .coordinator (.down rank') (.send (st.socket rank) m) sent =
      if rank = rank' ∧ sent = true then some m else none := by
  have hout : outgoing st .coordinator (.send (st.socket rank) m) = some (.down rank) := by
    simp [outgoing, (rankOf_eq_some st.socket_injective).mpr rfl]
  unfold putsOn
  rw [hout]
  by_cases hrank : rank = rank' <;> cases sent <;> simp [hrank, puts]

theorem takesFrom_receive (rank rank' : Fin n) (expects : Purpose) (received : Option Message) :
    takesFrom st .coordinator (.up rank') (.receive (st.socket rank) expects) received =
      if rank = rank' then received else none := by
  have hin : incoming st .coordinator (.receive (st.socket rank) expects) = some (.up rank) := by
    simp [incoming, (rankOf_eq_some st.socket_injective).mpr rfl]
  unfold takesFrom
  rw [hin]
  by_cases hrank : rank = rank' <;> simp [hrank, takes]

/-- A call that sends nothing. -/
theorem putsOn_of_puts {x : Member n} {wire : Wire n} {c : Share.Call} {r : Share.Call.Reply c}
    (h : puts c r = none) : putsOn st x wire c r = none := by
  rw [putsOn, h, ite_self]

theorem takesFrom_of_takes {x : Member n} {wire : Wire n} {c : Share.Call}
    {r : Share.Call.Reply c} (h : takes c r = none) : takesFrom st x wire c r = none := by
  rw [takesFrom, h, ite_self]

variable {st} {t : List SHEvent} {e : SHEvent} {rank : Fin n}

theorem got_concat : got st rank (t ++ [e]) =
    got st rank t + (takesFrom st .coordinator (.up rank) e.call e.reply).toList.length := by
  rw [got, heard_concat, List.length_append]
  rfl

theorem put_concat : put st rank (t ++ [e]) =
    put st rank t + (putsOn st .coordinator (.down rank) e.call e.reply).toList.length := by
  rw [put, said_concat, List.length_append]
  rfl

theorem FirstWord.concat {word : UInt64} (h : FirstWord st rank word t) :
    FirstWord st rank word (t ++ [e]) := by
  obtain ⟨m, hhead, hword⟩ := h
  obtain ⟨rest, hrest⟩ := List.head?_eq_some_iff.mp hhead
  refine ⟨m, ?_, hword⟩
  rw [heard_concat, hrest]
  rfl

theorem Hung.concat (h : Hung st rank t) : Hung st rank (t ++ [e]) := by
  obtain ⟨e', he', hcall⟩ := h
  exact ⟨e', List.mem_append_left _ he', hcall⟩

theorem Reaped.concat (h : Reaped st rank t) : Reaped st rank (t ++ [e]) := by
  obtain ⟨p, r, hmem, hr⟩ := h
  exact ⟨p, r, List.mem_append_left _ hmem, hr⟩

theorem exists_rank {number : Fin n → ℕ} {i m : ℕ}
    (h : ((List.finRange n).map number)[i]? = some m) :
    ∃ rank : Fin n, rank.val = i ∧ number rank = m := by
  rw [List.getElem?_map, Option.map_eq_some_iff] at h
  obtain ⟨rank, hrank, hnumber⟩ := h
  obtain ⟨hi, rfl⟩ := List.getElem?_eq_some_iff.mp hrank
  exact ⟨_, by simp, hnumber⟩

end Counts

/-! ## What the coordinator keeps to -/

section Relay

variable (cfg : Config) (st : Started cfg.count)

/-- A word is sent to a worker: the tokens in the order of the ranks, and then those of the
barriers, after all workers have arrived. -/
structure Forwards (rank : Fin cfg.count) (t : List SHEvent) (m : Message) : Prop where
  place : put st rank t < cfg.count + cfg.barriers
  token : ∀ owner : Fin cfg.count, put st rank t = owner.val →
    m.meant = .token ∧ FirstWord st owner m.word t
  barrier : cfg.count ≤ put st rank t →
    m = ⟨.barrier, 0⟩ ∧ ∀ other, put st rank t + 2 ≤ cfg.count + got st other t

/-- A word is received from a worker: its token, and then those of the barriers, after all words
of the barrier before have been sent. -/
structure Collects (rank : Fin cfg.count) (t : List SHEvent) (expects : Purpose) : Prop where
  token : got st rank t = 0 → put st rank t = 0 ∧ expects = .token
  barrier : got st rank t ≠ 0 → got st rank t ≤ cfg.barriers ∧
    put st rank t + 1 = cfg.count + got st rank t ∧ expects = .barrier

/-- All words have been received and sent. -/
def Relayed (t : List SHEvent) : Prop :=
  ∀ rank, got st rank t = cfg.barriers + 1 ∧ put st rank t = cfg.count + cfg.barriers

/-- What the calls of the coordinator keep to. -/
def Relays (t : List SHEvent) (_p : Process) : Share.Call → Prop
  | .send fd m => ∃ rank, st.socket rank = fd ∧ Forwards cfg st rank t m
  | .receive fd expects => ∃ rank, st.socket rank = fd ∧ Collects cfg st rank t expects
  | .direct op =>
      match op with
      | .close fd => (∃ rank, st.socket rank = fd) ∧ (Worked cfg 0 t → Relayed cfg st t)
      | .kill child => (∃ rank, st.child rank = child) ∧ ¬Worked cfg 0 t
      | .waitpid child => (∃ rank, st.child rank = child) ∧ ∀ rank, Hung st rank t
      | _ => False
  | _ => False

/-- So many words have been received from every worker and sent to it. -/
structure Tally (a b : Fin cfg.count → ℕ) (tokens : List UInt64) (p : Process)
    (t : List SHEvent) : Prop where
  state : p = st.process
  got : ∀ rank, got st rank t = a rank
  put : ∀ rank, put st rank t = b rank
  tokens : ∀ (rank : Fin cfg.count) word, tokens[rank.val]? = some word → FirstWord st rank word t

/-- The exception comes from a call that has failed. -/
def Broken (p : Process) (t : List SHEvent) : Prop := p = st.process ∧ ¬Worked cfg 0 t

/-- A word was received by a call that waits for this. -/
def Took (expects : Purpose) (word : UInt64) (t : List SHEvent) : Prop :=
  ∃ p fd, ∃ m : Message, m.word = word ∧ (⟨p, .receive fd expects, some m⟩ : SHEvent) ∈ t

variable {cfg st} {a b : Fin cfg.count → ℕ} {tokens : List UInt64} {rank : Fin cfg.count}

/-! ## Words -/

theorem triple_forward {m : Message} (hplace : b rank < cfg.count + cfg.barriers)
    (htoken : ∀ owner : Fin cfg.count, b rank = owner.val →
      m.meant = .token ∧ tokens[owner.val]? = some m.word)
    (hbarrier : cfg.count ≤ b rank →
      m = ⟨.barrier, 0⟩ ∧ ∀ other, b rank + 2 ≤ cfg.count + a other) :
    Proc.Triple (Relays cfg st) (Tally cfg st a b tokens) (sendWord (st.socket rank) m)
      (fun _ => Tally cfg st a (Function.update b rank (b rank + 1)) tokens) (Broken cfg st) := by
  apply triple_send
  · intro p t h
    refine ⟨rank, rfl, ?_, fun owner howner => ?_, fun hput => ?_⟩
    · rw [h.put]
      exact hplace
    · obtain ⟨hmeant, hword⟩ := htoken owner ((h.put rank).symm.trans howner)
      exact ⟨hmeant, h.tokens owner _ hword⟩
    · obtain ⟨hm, hall⟩ := hbarrier (h.put rank ▸ hput)
      refine ⟨hm, fun other => ?_⟩
      rw [h.put, h.got]
      exact hall other
  · intro p t h
    refine ⟨h.state, fun other => ?_, fun other => ?_, fun owner word hword => ?_⟩
    · rw [got_concat, takesFrom_of_takes st rfl, h.got]
      rfl
    · rw [put_concat, putsOn_send, h.put]
      by_cases hother : other = rank
      · subst hother
        simp
      · simp [Function.update_of_ne hother, Ne.symm hother]
    · exact (h.tokens owner word hword).concat
  · exact fun p t h => ⟨h.state, fails_of_not_passes (p := p) rfl⟩

theorem triple_collect {expects : Purpose} (htoken : a rank = 0 → b rank = 0 ∧ expects = .token)
    (hbarrier : a rank ≠ 0 →
      a rank ≤ cfg.barriers ∧ b rank + 1 = cfg.count + a rank ∧ expects = .barrier) :
    Proc.Triple (Relays cfg st) (Tally cfg st a b tokens) (receiveWord (st.socket rank) expects)
      (fun word p t => Tally cfg st (Function.update a rank (a rank + 1)) b tokens p t ∧
        Took expects word t ∧ (a rank = 0 → FirstWord st rank word t)) (Broken cfg st) := by
  apply triple_receive
  · intro p t h
    refine ⟨rank, rfl, ?_, ?_⟩
    · rw [h.got, h.put]
      exact htoken
    · rw [h.got, h.put]
      exact hbarrier
  · intro p t m h
    refine ⟨⟨h.state, fun other => ?_, fun other => ?_, fun owner word hword => ?_⟩,
      ⟨p, _, m, rfl, List.mem_concat_self⟩, fun hfirst => ⟨m, ?_, rfl⟩⟩
    · rw [got_concat, takesFrom_receive, h.got]
      by_cases hother : other = rank
      · subst hother
        simp
      · simp [Function.update_of_ne hother, Ne.symm hother]
    · rw [put_concat, putsOn_of_puts st rfl, h.put]
      rfl
    · exact (h.tokens owner word hword).concat
    · have hnone : heard st .coordinator (.up rank) t = [] :=
        List.length_eq_zero_iff.mp ((h.got rank).trans hfirst)
      rw [heard_concat, hnone, takesFrom_receive, if_pos rfl]
      rfl
  · exact fun p t h => ⟨h.state, fails_of_not_passes (p := p) rfl⟩

/-- A loop over the sockets or the children. -/
theorem triple_ranks {number : Fin cfg.count → ℕ} {xs : List ℕ}
    (hxs : xs = (List.finRange cfg.count).map number) {I : ℕ → Process → List SHEvent → Prop}
    {f : ℕ → SH PUnit} {E : Process → List SHEvent → Prop}
    (hbody : ∀ rank : Fin cfg.count, Proc.Triple (Relays cfg st) (I rank.val) (f (number rank))
      (fun _ => I (rank.val + 1)) E) :
    Proc.Triple (Relays cfg st) (I 0) (xs.forM f) (fun _ => I cfg.count) E := by
  have hlength : xs.length = cfg.count := by simp [hxs]
  rw [← hlength]
  refine Proc.triple_forM_index fun i x hx => ?_
  rw [hxs] at hx
  obtain ⟨rank, rfl, rfl⟩ := exists_rank hx
  exact hbody rank

theorem tally_collectTokens :
    Proc.Triple (Relays cfg st) (Tally cfg st (fun _ => 0) (fun _ => 0) [])
      (collectTokens st.process.sockets)
      (fun tokens p t => Tally cfg st (fun _ => 1) (fun _ => 0) tokens p t ∧
        tokens.length = cfg.count) (Broken cfg st) := by
  have hlength : st.process.sockets.length = cfg.count := by rw [st.sockets_eq]; simp
  unfold collectTokens
  refine (Proc.triple_foldlM_index (I := fun i tokens p t =>
    Tally cfg st (below i 1 0) (fun _ => 0) tokens p t ∧ tokens.length = i) ?_ []).weaken
    (fun p t h => ⟨h, rfl⟩) (fun tokens p t h => ?_) fun _ _ h => h
  · intro i fd tokens hfd
    rw [st.sockets_eq] at hfd
    obtain ⟨rank, rfl, rfl⟩ := exists_rank hfd
    refine Proc.Triple.assume (fun _ _ h => h.2) fun htokens => ?_
    have hzero : below rank.val 1 0 rank = 0 := below_self 1 0 rank
    refine Proc.Triple.bind ((triple_collect (fun _ => ⟨rfl, rfl⟩)
      fun h => absurd hzero h).weaken (fun _ _ h => h.1) (fun _ _ _ h => h) fun _ _ h => h) ?_
    intro word
    apply Proc.triple_pure
    rintro p t ⟨htally, -, hfirst⟩
    rw [hzero, Nat.zero_add, update_below] at htally
    refine ⟨⟨htally.state, htally.got, htally.put, fun owner word' hword => ?_⟩, by simp [htokens]⟩
    by_cases howner : owner.val < tokens.length
    · exact htally.tokens owner word' (by rwa [List.getElem?_append_left howner] at hword)
    · have hlt : owner.val < (tokens ++ [word]).length := (List.getElem?_eq_some_iff.mp hword).1
      rw [List.length_append, List.length_singleton] at hlt
      obtain rfl : owner = rank := Fin.ext (by omega)
      rw [← htokens, List.getElem?_concat_length, Option.some.injEq] at hword
      exact hword ▸ hfirst hzero
  · rw [hlength, below_count] at h
    exact h

theorem tally_tokens (htokens : tokens.length = cfg.count) :
    Proc.Triple (Relays cfg st) (Tally cfg st (fun _ => 1) (fun _ => 0) tokens)
      (st.process.sockets.forM fun fd => tokens.forM fun token => sendWord fd ⟨.token, token⟩)
      (fun _ => Tally cfg st (fun _ => 1) (fun _ => cfg.count) tokens) (Broken cfg st) := by
  refine (triple_ranks st.sockets_eq (I :=
    fun i => Tally cfg st (fun _ => 1) (below i cfg.count 0) tokens)
    fun rank => ?_).weaken (fun _ _ h => h) (fun _ p t h => ?_) fun _ _ h => h
  · refine (Proc.triple_forM_index (I := fun j => Tally cfg st (fun _ => 1)
      (Function.update (below rank.val cfg.count 0) rank j) tokens) fun j token htoken => ?_).weaken
      (fun p t h => ?_) (fun _ p t h => ?_) fun _ _ h => h
    · have hj : j < tokens.length := (List.getElem?_eq_some_iff.mp htoken).1
      refine (triple_forward (m := ⟨.token, token⟩) ?_ (fun owner howner => ⟨rfl, ?_⟩)
        fun hcount => ?_).weaken (fun _ _ h => h) (fun _ _ _ h => ?_) fun _ _ h => h
      · rw [Function.update_self]
        omega
      · rw [Function.update_self] at howner
        rw [← howner]
        exact htoken
      · rw [Function.update_self] at hcount
        omega
      · rw [Function.update_self, Function.update_idem] at h
        exact h
    · rw [Function.update_eq_self_iff.mpr (below_self cfg.count 0 rank).symm]
      exact h
    · rw [htokens, update_below] at h
      exact h
  · rw [below_count] at h
    exact h

/-- `relayBarrier`, after `q` of them. -/
theorem tally_relayBarrier {q : ℕ} (hq : q < cfg.barriers) :
    Proc.Triple (Relays cfg st) (Tally cfg st (fun _ => q + 1) (fun _ => cfg.count + q) tokens)
      (relayBarrier st.process.sockets)
      (fun _ => Tally cfg st (fun _ => q + 1 + 1) (fun _ => cfg.count + (q + 1)) tokens)
      (Broken cfg st) := by
  unfold relayBarrier
  refine Proc.Triple.bind (Q :=
    fun _ => Tally cfg st (fun _ => q + 2) (fun _ => cfg.count + q) tokens)
    ?_ fun _ => ?_
  · refine (triple_ranks st.sockets_eq (I := fun i => Tally cfg st (below i (q + 2) (q + 1))
      (fun _ => cfg.count + q) tokens) fun rank => ?_).weaken (fun _ _ h => h) (fun _ p t h => ?_)
      fun _ _ h => h
    · have hself : below rank.val (q + 2) (q + 1) rank = q + 1 := below_self _ _ rank
      refine (triple_collect (fun h => by omega) fun _ => ⟨by omega, by omega, rfl⟩).bind
        fun word => ?_
      refine Proc.triple_onlyIf (fun hword => triple_fail fun p t h => ⟨h.1.state, ?_⟩)
        fun _ p t h => ?_
      · obtain ⟨p', fd, m, rfl, hmem⟩ := h.2.1
        exact not_worked_of_mem hmem (by simp [passes, hword])
      · have htally := h.1
        rw [hself, update_below] at htally
        exact htally
    · rw [below_count] at h
      exact h
  · refine (triple_ranks st.sockets_eq (I := fun i => Tally cfg st (fun _ => q + 2)
      (below i (cfg.count + (q + 1)) (cfg.count + q)) tokens) fun rank => ?_).weaken
      (fun _ _ h => h) (fun _ p t h => ?_) fun _ _ h => h
    · have hself : below rank.val (cfg.count + (q + 1)) (cfg.count + q) rank = cfg.count + q :=
        below_self _ _ rank
      refine (triple_forward (by omega) (fun owner howner => ?_) fun _ =>
        ⟨rfl, fun other => by omega⟩).weaken (fun _ _ h => h) (fun _ _ _ h => ?_) fun _ _ h => h
      · have hlt := owner.isLt
        omega
      · rw [hself, Nat.add_assoc, update_below] at h
        exact h
    · rw [below_count] at h
      exact h

/-! ## The end -/

/-- All words have been relayed, or something has failed. -/
def Settled (cfg : Config) (st : Started cfg.count) (t : List SHEvent) : Prop :=
  Worked cfg 0 t → Relayed cfg st t

theorem settled_concat {t : List SHEvent} {e : SHEvent} (h : Settled cfg st t)
    (hputs : puts e.call e.reply = none) (htakes : takes e.call e.reply = none) :
    Settled cfg st (t ++ [e]) := by
  intro hworked rank
  rw [got_concat, put_concat, putsOn_of_puts st hputs, takesFrom_of_takes st htakes]
  exact h ((worked_concat _ _).mp hworked).1 rank

/-- The sockets of the ranks below `i` are closed. -/
def HungBelow (cfg : Config) (st : Started cfg.count) (i : ℕ) (t : List SHEvent) : Prop :=
  Settled cfg st t ∧ ∀ rank : Fin cfg.count, rank.val < i → Hung st rank t

theorem triple_close_all {E : Process → List SHEvent → Prop} {A : Process → List SHEvent → Prop}
    (hA : ∀ p t fd r, A p t → A p (t ++ [⟨p, .direct (.close fd), r⟩])) :
    Proc.Triple (Relays cfg st) (fun p t => A p t ∧ Settled cfg st t)
      (closeSockets st.process.sockets)
      (fun _ p t => A p t ∧ HungBelow cfg st cfg.count t) E := by
  unfold closeSockets
  refine (triple_ranks st.sockets_eq (I := fun i p t => A p t ∧
    HungBelow cfg st i t) fun rank => ?_).weaken
    (fun p t h => ⟨h.1, h.2, fun rank hrank => by omega⟩) (fun _ _ _ h => h) fun _ _ h => h
  refine Proc.Triple.bind (Q := fun _ p t => A p t ∧ HungBelow cfg st (rank.val + 1) t) ?_
    fun _ => Proc.triple_pure fun _ _ h => h
  apply Proc.triple_ask
  · exact fun p t h => ⟨⟨rank, rfl⟩, h.2.1⟩
  · rintro p t r ⟨hkept, hsettled, hhung⟩
    refine ⟨hA p t _ r hkept, settled_concat hsettled rfl rfl, fun other hother => ?_⟩
    rcases Nat.lt_succ_iff_lt_or_eq.mp hother with hlt | heq
    · exact (hhung other hlt).concat
    · obtain rfl : other = rank := Fin.ext heq
      exact ⟨_, List.mem_concat_self, rfl⟩

/-- A call after all sockets have been closed. -/
theorem hungBelow_concat {i : ℕ} {t : List SHEvent} {e : SHEvent} (h : HungBelow cfg st i t)
    (hputs : puts e.call e.reply = none) (htakes : takes e.call e.reply = none) :
    HungBelow cfg st i (t ++ [e]) :=
  ⟨settled_concat h.1 hputs htakes, fun rank hrank => (h.2 rank hrank).concat⟩

/-- What is known when the coordinator returns. -/
structure Concluded (cfg : Config) (st : Started cfg.count) (x : Except String ℕ)
    (t : List SHEvent) : Prop where
  hung : ∀ rank, Hung st rank t
  relayed : Settled cfg st t
  code : Worked cfg 0 t → x = .ok 0
  reaped : x = .ok 0 → ∀ rank, Reaped st rank t

theorem triple_reap {E : Process → List SHEvent → Prop} :
    Proc.Triple (Relays cfg st) (fun _ t => HungBelow cfg st cfg.count t)
      (waitChildren st.process.children)
      (fun failed _ t => Concluded cfg st (.ok failed) t) E := by
  have hlength : st.process.children.length = cfg.count := by rw [st.children_eq]; simp
  unfold waitChildren
  refine (Proc.triple_foldlM_index (I := fun i failed _ t => HungBelow cfg st cfg.count t ∧
    (Worked cfg 0 t → failed = 0) ∧
      (failed = 0 → ∀ rank : Fin cfg.count, rank.val < i → Reaped st rank t)) ?_ 0).weaken
    (fun p t h => ⟨h, fun _ => rfl, fun _ rank hrank => by omega⟩) (fun failed p t h => ?_)
    fun _ _ h => h
  · intro i child failed hchild
    rw [st.children_eq] at hchild
    obtain ⟨rank, rfl, rfl⟩ := exists_rank hchild
    refine Proc.Triple.bind (Q := fun (r : Answer) _ t' => ∃ p t, HungBelow cfg st cfg.count t' ∧
      (Worked cfg 0 t → failed = 0) ∧
      (failed = 0 → ∀ rank' : Fin cfg.count, rank'.val < rank.val → Reaped st rank' t) ∧
      t' = t ++ [⟨p, .direct (.waitpid (st.child rank)), r⟩]) ?_ fun r => ?_
    · apply Proc.triple_ask
      · exact fun p t h => ⟨⟨rank, rfl⟩, fun rank => h.1.2 rank rank.isLt⟩
      · rintro p t r ⟨hhung, hworked, hreaped⟩
        exact ⟨p, t, hungBelow_concat hhung rfl rfl, hworked, hreaped, rfl⟩
    · apply Proc.triple_pure
      rintro _ _ ⟨p, t, hhung, hworked, hreaped, rfl⟩
      -- the result stays 0 only as long as every child has exited with 0
      refine ⟨hhung, fun h => ?_, fun h rank' hrank' => ?_⟩
      · obtain ⟨hbefore, hpasses⟩ := (worked_concat _ _).mp h
        have hpasses : 0 ≤ r.ret ∧ r.out = 0 := by simpa [passes] using hpasses
        rw [if_neg (by omega)]
        exact hworked hbefore
      · by_cases hr : r.ret < 0 ∨ r.out ≠ 0
        · rw [if_pos hr] at h
          cases h
        · rw [if_neg hr] at h
          rcases Nat.lt_succ_iff_lt_or_eq.mp hrank' with hlt | heq
          · exact (hreaped h rank' hlt).concat
          · obtain rfl : rank' = rank := Fin.ext heq
            exact ⟨p, r, List.mem_concat_self, by omega, by omega⟩
  · rw [hlength] at h
    obtain ⟨hhung, hworked, hreaped⟩ := h
    refine ⟨fun rank => hhung.2 rank rank.isLt, hhung.1, fun hall => by rw [hworked hall], ?_⟩
    intro hzero rank
    exact hreaped (Except.ok.inj hzero) rank rank.isLt

/-- The rest of the `try` block of `main`. -/
theorem tally_coordinate :
    Proc.Triple (Relays cfg st) (Tally cfg st (fun _ => 0) (fun _ => 0) []) (coordinate cfg)
      (fun failed _ t => Concluded cfg st (.ok failed) t) (Broken cfg st) := by
  unfold coordinate
  refine Proc.triple_get_bind fun p => Proc.Triple.assume (A := p = st.process)
    (fun p' t h => by rw [← h.1, h.2.state]) ?_
  rintro rfl
  refine Proc.Triple.bind (tally_collectTokens.weaken (fun _ _ h => h.2) (fun _ _ _ h => h)
    fun _ _ h => h) fun tokens => ?_
  refine Proc.Triple.assume (fun _ _ h => h.2) fun htokens => ?_
  refine Proc.Triple.bind ((tally_tokens htokens).weaken (fun _ _ h => h.1) (fun _ _ _ h => h)
    fun _ _ h => h) fun _ => ?_
  refine Proc.Triple.bind (Q := fun _ => Tally cfg st (fun _ => cfg.barriers + 1)
    (fun _ => cfg.count + cfg.barriers) tokens) ?_ fun _ => ?_
  · exact (Proc.triple_forM_range (I := fun q => Tally cfg st (fun _ => q + 1)
      (fun _ => cfg.count + q) tokens) fun q hq => tally_relayBarrier hq).weaken
      (fun _ _ h => by simpa using h) (fun _ _ _ h => h) fun _ _ h => h
  refine Proc.Triple.bind (Q := fun _ _ t => HungBelow cfg st cfg.count t) ?_ fun _ => ?_
  · refine (triple_close_all (A := fun _ _ => True) fun _ _ _ _ h => h).weaken (fun p t h => ?_)
      (fun _ _ _ h => h.2) fun _ _ h => h
    exact ⟨trivial, fun _ rank => ⟨h.got rank, h.put rank⟩⟩
  exact Proc.Triple.bind (Q := fun _ _ t => HungBelow cfg st cfg.count t)
    (Proc.triple_modify fun _ _ h => h) fun _ => triple_reap

/-- The handler of `main`. -/
theorem triple_abandoned {E : Process → List SHEvent → Prop} :
    Proc.Triple (Relays cfg st) (Broken cfg st) abandon
      (fun code _ t => Concluded cfg st (.ok code) t) E := by
  unfold abandon
  refine Proc.triple_get_bind fun p => Proc.Triple.assume (A := p = st.process)
    (fun p' t h => by rw [← h.1, h.2.1]) ?_
  rintro rfl
  refine Proc.Triple.bind (Q := fun _ _ t => HungBelow cfg st cfg.count t ∧ ¬Worked cfg 0 t) ?_
    fun _ => ?_
  · refine (triple_close_all (A := fun p t => Fails cfg 0 p t) fun _ _ _ _ h => h.concat).weaken
      (fun p t h => ⟨h.2.2, fun hworked => absurd hworked h.2.2⟩)
      (fun _ _ _ h => ⟨h.2, h.1⟩) fun _ _ h => h
  have hkept : ∀ {p : Process} {t : List SHEvent} {op : Share.Op} {r : Answer},
      HungBelow cfg st cfg.count t ∧ ¬Worked cfg 0 t →
        HungBelow cfg st cfg.count (t ++ [⟨p, .direct op, r⟩]) ∧
          ¬Worked cfg 0 (t ++ [⟨p, .direct op, r⟩]) := by
    rintro p t op r ⟨hhung, hfails⟩
    exact ⟨hungBelow_concat hhung rfl rfl, fun h => hfails ((worked_concat _ _).mp h).1⟩
  refine Proc.Triple.bind (Q := fun _ _ t => HungBelow cfg st cfg.count t ∧ ¬Worked cfg 0 t) ?_
    fun _ => ?_
  · refine triple_ranks st.children_eq (I := fun _ _ t => HungBelow cfg st cfg.count t ∧
      ¬Worked cfg 0 t)
      fun rank => ?_
    exact (Proc.triple_ask (fun _ _ h => ⟨⟨rank, rfl⟩, h.2⟩) fun _ _ _ h => hkept h).bind
      fun _ => Proc.triple_pure fun _ _ h => h
  refine Proc.Triple.bind (Q := fun _ _ t => HungBelow cfg st cfg.count t ∧ ¬Worked cfg 0 t) ?_
    fun _ => ?_
  · refine triple_ranks st.children_eq (I := fun _ _ t => HungBelow cfg st cfg.count t ∧
      ¬Worked cfg 0 t)
      fun rank => ?_
    exact (Proc.triple_ask (fun _ _ h => ⟨⟨rank, rfl⟩, fun rank => h.1.2 rank rank.isLt⟩)
      fun _ _ _ h => hkept h).bind fun _ => Proc.triple_pure fun _ _ h => h
  apply Proc.triple_pure
  rintro p t ⟨hhung, hfails⟩
  refine ⟨fun rank => hhung.2 rank rank.isLt, hhung.1, fun h => absurd h hfails, fun h => ?_⟩
  split at h <;> cases h

/-- All calls of the coordinator are in place. -/
theorem meets_coordinator : (coordinator cfg st.process).Meets (Relays cfg st) []
    fun x t => Concluded cfg st x.1 t := by
  have htriple : Proc.Triple (Relays cfg st) (Tally cfg st (fun _ => 0) (fun _ => 0) [])
      (coordinator cfg) (fun code _ t => Concluded cfg st (.ok code) t) fun _ _ => False :=
    tally_coordinate.tryCatch fun _ => triple_abandoned
  have hstart : Tally cfg st (fun _ => 0) (fun _ => 0) [] st.process [] :=
    ⟨rfl, fun _ => rfl, fun _ => rfl, fun rank word h => by simp at h⟩
  refine Prog.Meets.mono ?_ (htriple st.process [] hstart)
  rintro ⟨x, p⟩ t hx
  cases x with
  | ok code => exact hx
  | error e => exact hx.elim

end Relay

end SharingProbe.MultiShare
