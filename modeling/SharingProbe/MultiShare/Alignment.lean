import SharingProbe.MultiShare.Barriers

/-!
# What the words are

A word carries nothing that says what it is.  What a process waits for is what the other one has
meant, because both count: the first word of a worker is its token, the first words for a worker
are the tokens in the order of the ranks, and all others belong to barriers.
-/

namespace SharingProbe.MultiShare

open Interaction Network Transition Share

/-! ## The words of one process -/

section Lists

/-- What is said of the word that comes next is said of all words. -/
theorem forall_getElem_concat {α : Type*} {A : ℕ → α → Prop} {xs : List α} {last : Option α}
    (hxs : ∀ j x, xs[j]? = some x → A j x) (hlast : ∀ x ∈ last, A xs.length x) {j : ℕ} {x : α}
    (hx : (xs ++ last.toList)[j]? = some x) : A j x := by
  cases last with
  | none =>
      rw [Option.toList_none, List.append_nil] at hx
      exact hxs j x hx
  | some y =>
      rw [Option.toList_some] at hx
      by_cases hj : j < xs.length
      · rw [List.getElem?_append_left hj] at hx
        exact hxs j x hx
      · have hlt : j < (xs ++ [y]).length := (List.getElem?_eq_some_iff.mp hx).1
        rw [List.length_append, List.length_singleton] at hlt
        obtain rfl : j = xs.length := by omega
        rw [List.getElem?_concat_length, Option.some.injEq] at hx
        exact hx ▸ hlast y rfl

end Lists

section Parties

variable {cfg : Config} {rank : ℕ} {st : Started cfg.count} {t : List SHEvent}

theorem sentList_concat (t : List SHEvent) (e : SHEvent) :
    sentList (t ++ [e]) = sentList t ++ (puts e.call e.reply).toList := by
  cases h : puts e.call e.reply <;> simp [sentList, List.filterMap_append, h]

/-- The word that an event receives has the number of those before it. -/
theorem getElem_receivedList {t₁ t₂ : List SHEvent} {e : SHEvent} {m : Message}
    (h : takes e.call e.reply = some m) :
    (receivedList (t₁ ++ e :: t₂))[receivedWords t₁]? = some m := by
  have hsplit : receivedList (t₁ ++ e :: t₂) = receivedList t₁ ++ m :: receivedList t₂ := by
    simp [receivedList, h]
  rw [hsplit, ← length_receivedList]
  simp

theorem Did.append {op : Share.Op} {r : Answer} (h : Did op r t) (u : List SHEvent) :
    Did op r (t ++ u) := by
  obtain ⟨hret, p, name, hmem⟩ := h
  exact ⟨hret, p, name, List.mem_append_left _ hmem⟩

theorem Exported.append {word : UInt64} (h : Exported word t) (u : List SHEvent) :
    Exported word (t ++ u) := by
  obtain ⟨handle, r, hdid, hword⟩ := h
  exact ⟨handle, r, hdid.append u, hword⟩

/-- A word of a worker, by its number. -/
def FromWorker (t : List SHEvent) (j : ℕ) (m : Message) : Prop :=
  (j = 0 → m.meant = .token ∧ Exported m.word t) ∧ (j ≠ 0 → m = ⟨.barrier, 0⟩)

/-- A word for a worker, by its number. -/
def ForWorker (st : Started cfg.count) (t : List SHEvent) (j : ℕ) (m : Message) : Prop :=
  (∀ owner : Fin cfg.count, j = owner.val → m.meant = .token ∧ FirstWord st owner m.word t) ∧
    (cfg.count ≤ j → m = ⟨.barrier, 0⟩)

theorem fromWorker_of_sent (h : Prog.Follows (InPlace cfg rank) t) {j : ℕ} {m : Message}
    (hm : (sentList t)[j]? = some m) : FromWorker t j m := by
  refine h.invariant (T := fun t => ∀ j m, (sentList t)[j]? = some m →
    FromWorker t j m) ?_ ?_ j m hm
  · intro j m hm
    simp [sentList] at hm
  · intro t e _ ih hin j m hm
    rw [sentList_concat] at hm
    refine forall_getElem_concat (A := fun j m => FromWorker (t ++ [e]) j m) (fun j m hm => ?_)
      (fun m hputs => ?_) hm
    · exact (ih j m hm).imp_left fun h hj => (h hj).imp_right fun h => h.append _
    · rw [length_sentList]
      obtain ⟨p, c, r⟩ := e
      obtain ⟨fd, rfl⟩ := Pair.exists_send hputs
      have hsends : Sends cfg rank t m := hin
      exact ⟨fun hj => (hsends.token hj).imp_right fun h => h.append _, hsends.barrier⟩

theorem forWorker_of_said (h : Prog.Follows (Relays cfg st) t) {receiver : Fin cfg.count} {j : ℕ}
    {m : Message} (hm : (said st .coordinator (.down receiver) t)[j]? = some m) :
    ForWorker st t j m := by
  refine h.invariant (T := fun t => ∀ j m, (said st .coordinator (.down receiver) t)[j]? = some m →
    ForWorker st t j m) ?_ ?_ j m hm
  · intro j m hm
    simp [said] at hm
  · intro t e _ ih hrelays j m hm
    rw [said_concat] at hm
    refine forall_getElem_concat (A := fun j m => ForWorker st (t ++ [e]) j m) (fun j m hm => ?_)
      (fun m hputs => ?_) hm
    · exact (ih j m hm).imp_left fun h owner hj => (h owner hj).imp_right FirstWord.concat
    · obtain ⟨p, c, r⟩ := e
      obtain ⟨hout, hputs⟩ := Option.ite_none_right_eq_some.mp hputs
      obtain ⟨fd, rfl⟩ := Pair.exists_send hputs
      obtain ⟨rank, rfl, hforwards⟩ := hrelays
      have hrank : rank = receiver := by simpa [outgoing,
        (rankOf_eq_some st.socket_injective).mpr rfl] using hout
      subst hrank
      exact ⟨fun owner hj => (hforwards.token owner hj).imp_right FirstWord.concat,
        fun hj => (hforwards.barrier hj).1⟩

end Parties

/-! ## The processes together -/

section Network

variable {cfg : Config} {st : Started cfg.count} {blocks : Blocks} {admits : Admits cfg.count}
  {s : StarState cfg.count}

/-- A word that the coordinator has received. -/
theorem fromWorker_of_heard (h : Reachable (star cfg st blocks admits).system s)
    {rank : Fin cfg.count} {j : ℕ} {m : Message}
    (hm : (heard st .coordinator (.up rank) (s.trace .coordinator))[j]? = some m) :
    FromWorker (s.trace (.worker rank)) j m := by
  apply fromWorker_of_sent (worker_follows h rank)
  rw [up_eq h rank, List.getElem?_append_left (List.getElem?_eq_some_iff.mp hm).1]
  exact hm

/-- A word that a worker has received: the tokens are those that their owners have exported. -/
theorem received_cases (h : Reachable (star cfg st blocks admits).system s) {rank : Fin cfg.count}
    {j : ℕ} {m : Message} (hm : (receivedList (s.trace (.worker rank)))[j]? = some m) :
    (∀ owner : Fin cfg.count, j = owner.val →
      m.meant = .token ∧ Exported m.word (s.trace (.worker owner))) ∧
    (cfg.count ≤ j → m = ⟨.barrier, 0⟩) := by
  have hsaid : (said st .coordinator (.down rank) (s.trace .coordinator))[j]? = some m := by
    rw [down_eq h rank, List.getElem?_append_left (List.getElem?_eq_some_iff.mp hm).1]
    exact hm
  have hcases := forWorker_of_said (coordinator_follows h) hsaid
  refine ⟨fun owner hj => ?_, hcases.2⟩
  obtain ⟨hmeant, m', hfirst, hword⟩ := hcases.1 owner hj
  rw [List.head?_eq_getElem?] at hfirst
  refine ⟨hmeant, ?_⟩
  rw [← hword]
  exact ((fromWorker_of_heard h hfirst).1 rfl).2

/-- **No word is mistaken.**  A process receives what it waits for. -/
theorem meant_of_received (h : Reachable (star cfg st blocks admits).system s)
    {x : Member cfg.count} {p : Process} {fd : ℕ} {expects : Purpose} {m : Message}
    (hmem : (⟨p, .receive fd expects, some m⟩ : SHEvent) ∈ s.trace x) :
    m.meant = expects ∧ (expects = .barrier → m.word = 0) := by
  obtain ⟨t₁, t₂, ht⟩ := List.append_of_mem hmem
  cases x with
  | worker rank =>
      have hreceives : Receives cfg t₁ expects := worker_follows h rank t₁ _ t₂ ht
      have hm : (receivedList (s.trace (.worker rank)))[receivedWords t₁]? = some m := by
        rw [ht]
        exact getElem_receivedList rfl
      obtain ⟨htoken, hbarrier⟩ := received_cases h hm
      by_cases hplace : receivedWords t₁ < cfg.count
      · obtain ⟨hmeant, -⟩ := htoken ⟨_, hplace⟩ rfl
        rw [hmeant, hreceives.token hplace]
        exact ⟨rfl, fun hne => by cases hne⟩
      · rw [hbarrier (by omega), hreceives.barrier (by omega)]
        exact ⟨rfl, fun _ => rfl⟩
  | coordinator =>
      obtain ⟨rank, rfl, hcollects⟩ := coordinator_follows h t₁ _ t₂ ht
      have hm : (heard st .coordinator (.up rank) (s.trace .coordinator))[got st rank t₁]? =
          some m := by
        have hsplit : heard st .coordinator (.up rank) (s.trace .coordinator) =
            heard st .coordinator (.up rank) t₁ ++ m :: heard st .coordinator (.up rank) t₂ := by
          rw [ht]
          simp [heard, takesFrom_receive]
        rw [hsplit]
        simp [got]
      obtain ⟨htoken, hbarrier⟩ := fromWorker_of_heard h hm
      by_cases hfirst : got st rank t₁ = 0
      · rw [(htoken hfirst).1, (hcollects.token hfirst).2]
        exact ⟨rfl, fun hne => by cases hne⟩
      · rw [hbarrier hfirst, (hcollects.barrier hfirst).2.2]
        exact ⟨rfl, fun _ => rfl⟩

/-- A slice of another worker is that of the handle which was imported with the token that its
owner has exported. -/
theorem mapped_of_exported (h : Reachable (star cfg st blocks admits).system s)
    {reader : Fin cfg.count} {p : Process} {owner : ℕ} {handle : Ptr} {name : String} {r : Answer}
    (hmem : (⟨p, .check (.halMemMap owner handle) name, r⟩ : SHEvent) ∈ s.trace (.worker reader))
    (hother : owner ≠ reader.val) :
    ∃ exporter : Fin cfg.count, exporter.val = owner ∧ ∃ token r',
      Did (.halMemImportFromShareableHandle owner token) r' (s.trace (.worker reader)) ∧
      handle = r'.out ∧ Exported token (s.trace (.worker exporter)) := by
  obtain ⟨t₁, t₂, ht⟩ := List.append_of_mem hmem
  obtain ⟨token, r', hdid, hhandle⟩ := worker_follows h reader t₁ _ t₂ ht hother
  have hdid' : Did (.halMemImportFromShareableHandle owner token) r'
      (s.trace (.worker reader)) := ht ▸ hdid.append _
  obtain ⟨-, p', name', hmem'⟩ := hdid'
  obtain ⟨t₃, t₄, ht'⟩ := List.append_of_mem hmem'
  obtain ⟨howner, -, m, hm, hword⟩ := worker_follows h reader t₃ _ t₄ ht'
  refine ⟨⟨owner, howner⟩, rfl, token, r', ?_, hhandle, ?_⟩
  · exact ht ▸ hdid.append _
  have hm' : (receivedList (s.trace (.worker reader)))[owner]? = some m :=
    ht' ▸ received_append hm _
  rw [← hword]
  exact ((received_cases h hm').1 ⟨owner, howner⟩ rfl).2

end Network

end SharingProbe.MultiShare
