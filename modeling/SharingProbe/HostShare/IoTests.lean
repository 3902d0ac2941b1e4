import SharingProbe.HostShare.Cases

/-!
# What `io_tests` leaves behind

Wherever an exception is caught, no request is in flight: `aio_operation` has collected its
requests or destroyed the context.  Copies can be, and then the stream is synchronised before
the processor goes on.
-/

namespace SharingProbe.HostShare

open Interaction Share

/-! ## Calls that keep the books -/

section Keeps

variable {S : Process → Set Resource} {done : Set Case} {G : Process → List SHEvent → Prop}

/-- The books, and what else is known. -/
def With (S : Process → Set Resource) (done : Set Case) (G : Process → List SHEvent → Prop)
    (p : Process) (t : List SHEvent) : Prop :=
  Books S done p t ∧ G p t

theorem keeps_with {c : Share.Call} (hc : isPlain c = true)
    (hG : ∀ p t r, G p t → G p (t ++ [⟨p, c, r⟩])) : Keeps Allowed (With S done G) c := by
  refine ⟨fun p t h => ?_, fun p t r h => ⟨h.1.plain hc, hG p t r h.2⟩⟩
  unfold Allowed
  rw [plain_releases hc]
  exact Multiset.zero_le _

theorem keepsCleanup_with (hS : Steady S) {op : Share.Op} {name : String}
    (hc : isPlain (.cleanup op name) = true)
    (hG : ∀ p t (r : Answer), G p t → G (if r.ret = 0 then p else { p with cleanupFailed := true })
      (t ++ [⟨p, .cleanup op name, r⟩])) : KeepsCleanup Allowed (With S done G) op name := by
  refine ⟨fun p t h => ?_, fun p t r h => ⟨?_, hG p t r h.2⟩⟩
  · unfold Allowed
    rw [plain_releases hc]
    exact Multiset.zero_le _
  · refine (h.1.plain hc).congr ?_ ?_
    · split
      · rfl
      · exact (hS p true p.failures).symm
    · split <;> rfl

/-- Nothing is in flight. -/
def Landed (_p : Process) (t : List SHEvent) : Prop :=
  (flight t).requests = [] ∧ (NullStream t ∨ (flight t).copies = [])

/-- No request is in flight, and there is a stream to wait for. -/
def Streaming (p : Process) (t : List SHEvent) : Prop :=
  (flight t).requests = [] ∧ (NullStream t ∨ p.stream ≠ 0)

theorem requests_next {t : List SHEvent} {e : SHEvent} (h : (flight t).requests = [])
    (he : isPlain e.call = true) : (flight (t ++ [e])).requests = [] := by
  rw [flight_concat, plain_requests e.reply he, h]

theorem copies_next {t : List SHEvent} {e : SHEvent} (h : NullStream t ∨ (flight t).copies = [])
    (he : isCopy e.call = false) :
    NullStream (t ++ [e]) ∨ (flight (t ++ [e])).copies = [] := by
  rcases h with hnull | hcopies
  · exact .inl (hnull.concat _)
  · right
    rw [flight_concat]
    exact next_copies e.reply he hcopies

theorem Landed.next {p p' : Process} {t : List SHEvent} (h : Landed p t) {e : SHEvent}
    (hplain : isPlain e.call = true) (hcopy : isCopy e.call = false) : Landed p' (t ++ [e]) :=
  ⟨requests_next h.1 hplain, copies_next h.2 hcopy⟩

theorem Streaming.next {p p' : Process} {t : List SHEvent} (h : Streaming p t)
    (hstream : p'.stream = p.stream) {e : SHEvent} (hplain : isPlain e.call = true) :
    Streaming p' (t ++ [e]) := by
  refine ⟨requests_next h.1 hplain, ?_⟩
  rcases h.2 with hnull | hp
  · exact .inl (hnull.concat _)
  · exact .inr (hstream ▸ hp)

theorem keeps_landed {c : Share.Call} (hc : isPlain c = true) (hcopy : isCopy c = false) :
    Keeps Allowed (With S done Landed) c :=
  keeps_with hc fun _ _ _ h => h.next hc hcopy

theorem keeps_streaming {c : Share.Call} (hc : isPlain c = true) :
    Keeps Allowed (With S done Streaming) c :=
  keeps_with hc fun _ _ _ h => h.next rfl hc

theorem triple_count {done' : Set Case} (hS : Steady S) (hsubset : done ⊆ done')
    (hG : ∀ p t n, G p t → G { p with failures := n } t)
    (hnew : ∀ p t, With S done G p t → (∃ case ∈ done', case ∉ done) ∨ p.failures ≠ 0)
    {E : Process → List SHEvent → Prop} :
    Proc.Triple Allowed (With S done G) countFailure
      (fun _ => With S done' fun p t => G p t ∧ p.failures ≠ 0) E :=
  Proc.triple_modify fun p t h =>
    ⟨h.1.fail hS hsubset (hnew p t h), hG p t _ h.2, Nat.succ_ne_zero _⟩

theorem triple_pass {case : Case} (hcase : case ∉ done) {E : Process → List SHEvent → Prop} :
    Proc.Triple Allowed (With S done Landed) (caseResult case true)
      (fun _ => With S (insert case done) Landed) E := by
  apply Proc.triple_ask
  · exact fun p t h => Multiset.zero_le _
  · intro p t r h
    refine ⟨h.1.pass hcase r, ?_, copies_next h.2.2 rfl⟩
    rw [flight_concat]
    exact h.2.1

end Keeps

/-! ## The copies -/

section Copies

variable {bytes : ℕ} {seed : UInt64}

/-- What holds nothing. -/
def nothing (_p : Process) : Set Resource := ∅

theorem steady_const (B : Set Resource) : Steady fun _ => B := fun _ _ _ => rfl

theorem triple_backlog (back : Bool) :
    Proc.Triple Allowed (With nothing ∅ Streaming) (backlog back)
      (fun _ => With nothing ∅ fun p t => Streaming p t ∧ Landed p t)
      (With nothing ∅ Streaming) := by
  unfold backlog
  refine Proc.Triple.bind (Q := fun _ => With nothing ∅ Streaming) ?_ fun _ => ?_
  · apply Proc.triple_forM
    intro _ _
    refine Proc.Triple.bind (triple_keeps_check (keeps_streaming ?_)) fun _ =>
      Proc.triple_pure fun _ _ h => h
    cases back <;> rfl
  -- the event is recorded behind all copies, and they are over when it has been waited for
  refine Proc.Triple.bind (Q := fun _ => With nothing ∅ fun p t => Streaming p t ∧
    (flight t).recorded = (flight t).copies.length) ?_ fun _ => ?_
  · apply triple_check (keeps_streaming rfl).1
    · intro p t r h hret
      refine ⟨h.1.plain rfl, h.2.next rfl rfl, ?_⟩
      simp [Flight.next, hret]
    · exact fun p t r h _ => ⟨h.1.plain rfl, h.2.next rfl rfl⟩
  refine Proc.Triple.bind (Q := fun _ => With nothing ∅ fun p t => Streaming p t ∧
    (flight t).recorded = (flight t).copies.length) ?_ fun _ => ?_
  · refine (triple_keeps_check (keeps_with rfl fun p t r h => ⟨h.1.next rfl rfl, ?_⟩)).weaken
      (fun _ _ h => h) (fun _ _ _ h => h) fun _ _ h => ⟨h.1, h.2.1⟩
    rw [flight_concat]
    exact h.2
  refine Proc.Triple.bind ?_ fun _ => Proc.triple_pure fun _ _ h => h
  apply triple_check
  · exact fun p t h => (keeps_streaming rfl).1 p t ⟨h.1, h.2.1⟩
  · intro p t r h hret
    refine ⟨h.1.plain rfl, h.2.1.next rfl rfl, requests_next h.2.1.1 rfl, .inr ?_⟩
    simp [Flight.next, hret, h.2.2]
  · exact fun p t r h _ => ⟨h.1.plain rfl, h.2.1.next rfl rfl⟩

/-- What the handler finds: if copies are in flight, there is a stream. -/
def Left (p : Process) (t : List SHEvent) : Prop := Landed p t ∨ Streaming p t

theorem Left.next {p : Process} {t : List SHEvent} (h : Left p t) {e : SHEvent}
    (hplain : isPlain e.call = true) (hcopy : isCopy e.call = false) : Left p (t ++ [e]) := by
  rcases h with hlanded | hstreaming
  · exact .inl (hlanded.next hplain hcopy)
  · exact .inr (hstreaming.next rfl hplain)

theorem triple_aclCase :
    Proc.Triple Allowed (With nothing ∅ Landed) (aclCase bytes seed)
      (fun _ => With nothing {.acl} Landed) (With nothing ∅ Left) := by
  have hstream : ∀ {op name}, isPlain (.check op name) = true →
      Proc.Triple Allowed (With nothing ∅ Streaming) (check op name)
        (fun _ => With nothing ∅ Streaming) (With nothing ∅ Left) := by
    intro op name hc
    exact (triple_keeps_check (keeps_streaming hc)).weaken (fun _ _ h => h) (fun _ _ _ h => h)
      fun _ _ h => ⟨h.1, .inr h.2⟩
  unfold aclCase
  -- before there is a stream nothing can be in flight
  refine triple_check_modify (Q := fun _ => With nothing ∅ Landed) ?_ ?_ ?_ fun device => ?_
  · exact (keeps_landed rfl rfl).1
  · exact fun p t r h _ => ⟨(h.1.plain rfl).congr rfl rfl, h.2.next rfl rfl⟩
  · exact fun p t r h _ => ⟨h.1.plain rfl, .inl (h.2.next rfl rfl)⟩
  refine triple_check_modify (Q := fun _ => With nothing ∅ Streaming) ?_ ?_ ?_ fun stream => ?_
  · exact (keeps_landed rfl rfl).1
  · intro p t r h hret
    refine ⟨(h.1.plain rfl).congr rfl rfl, ?_⟩
    refine ⟨requests_next h.2.1 rfl, ?_⟩
    by_cases hout : r.out = 0
    · exact .inl ⟨_, List.mem_concat_self, hret, hout⟩
    · exact .inr hout
  · exact fun p t r h _ => ⟨h.1.plain rfl, .inl (h.2.next rfl rfl)⟩
  refine triple_check_modify (Q := fun _ => With nothing ∅ Streaming) ?_ ?_ ?_ fun event => ?_
  · exact (keeps_streaming rfl).1
  · exact fun p t r h _ => ⟨(h.1.plain rfl).congr rfl rfl, h.2.next rfl rfl⟩
  · exact fun p t r h _ => ⟨h.1.plain rfl, .inr (h.2.next rfl rfl)⟩
  refine (triple_fill fun i value => keeps_streaming rfl).bind fun _ => ?_
  refine (hstream rfl).bind fun _ => ?_
  refine (hstream rfl).bind fun _ => ?_
  refine (triple_keeps (keeps_streaming rfl)).bind fun _ => ?_
  refine (hstream rfl).bind fun _ => ?_
  refine (hstream rfl).bind fun _ => ?_
  have hverify : ∀ phase, Proc.Triple Allowed (With nothing ∅ Streaming)
      (verify shared bytes seed phase) (fun _ => With nothing ∅ Streaming)
      (With nothing ∅ Left) := by
    intro phase
    exact (triple_verify fun i value => keeps_streaming rfl).weaken (fun _ _ h => h)
      (fun _ _ _ h => h) fun _ _ h => ⟨h.1, .inr h.2⟩
  refine (hverify _).bind fun _ => ?_
  have hbacklog : ∀ back, Proc.Triple Allowed (With nothing ∅ Streaming) (backlog back)
      (fun _ => With nothing ∅ fun p t => Streaming p t ∧ Landed p t) (With nothing ∅ Left) := by
    intro back
    exact (triple_backlog back).weaken (fun _ _ h => h) (fun _ _ _ h => h)
      fun _ _ h => ⟨h.1, .inr h.2⟩
  -- the backlog ends with the stream synchronized
  refine Proc.Triple.bind (Q := fun _ => With nothing ∅ Landed) ?_ fun _ => ?_
  · refine (hbacklog false).bind fun _ => ?_
    refine Proc.Triple.bind ((hbacklog true).weaken (fun _ _ h => ⟨h.1, h.2.1⟩) (fun _ _ _ h => h)
      fun _ _ h => h) fun _ => ?_
    exact Proc.triple_pure fun _ _ h => ⟨h.1, h.2.2⟩
  refine Proc.Triple.bind ((triple_verify fun i value => keeps_landed rfl rfl).weaken
    (fun _ _ h => h) (fun _ _ _ h => h) fun _ _ h => ⟨h.1, .inl h.2⟩) fun _ => ?_
  rw [← insert_empty_eq]
  exact triple_pass (Set.notMem_empty Case.acl)

/-- The first `try` block with its handler. -/
theorem triple_acl :
    Proc.Triple Allowed (With nothing ∅ Landed)
      (Proc.tryCatch (aclCase bytes seed) fun _ => aclFailed) (fun _ => With nothing {.acl} Landed)
      fun _ => Uncaught := by
  refine triple_aclCase.tryCatch fun _ => ?_
  refine Proc.Triple.bind (Q := fun _ => With nothing {.acl} Left) ?_ fun _ => ?_
  · refine (triple_count (steady_const ∅) (Set.empty_subset _) (fun _ _ _ h => h) ?_).weaken
      (fun _ _ h => h) (fun _ _ _ h => ⟨h.1, h.2.1⟩) fun _ _ h => h
    exact fun _ _ _ => .inl ⟨.acl, rfl, id⟩
  refine (triple_keeps (keeps_with rfl fun _ _ r h => h.next rfl rfl)).bind fun _ => ?_
  apply Proc.triple_get_bind
  intro p₀
  apply Proc.triple_onlyIf
  · intro hstream
    refine Proc.Triple.bind ?_ fun _ => Proc.triple_pure fun _ _ h => h
    apply triple_check
    · rintro p t ⟨rfl, h⟩
      exact (keeps_with (G := Left) rfl fun _ _ r h => h.next rfl rfl).1 p t h
    · rintro p t r ⟨rfl, h⟩ hret
      have hrequests : (flight t).requests = [] := by
        rcases h.2 with hlanded | hstreaming
        · exact hlanded.1
        · exact hstreaming.1
      refine ⟨h.1.plain rfl, requests_next hrequests rfl, .inr ?_⟩
      simp [Flight.next, hret]
    · exact fun p t r _ hret => uncaught_last (by simpa [uncaught] using hret)
  · rintro hstream p t ⟨rfl, h, hleft⟩
    refine ⟨h, ?_⟩
    rcases hleft with hlanded | ⟨hrequests, hnull | hp⟩
    · exact hlanded
    · exact ⟨hrequests, .inl hnull⟩
    · exact absurd hp hstream

end Copies

/-! ## The requests -/

section Requests

variable {bytes : ℕ} {seed : UInt64} {B : Set Resource} {done : Set Case}

/-- What is held besides `B`: the context, unless it is null. -/
def holding (B : Set Resource) (p : Process) : Set Resource :=
  {x | x ∈ B ∨ x = .context p.ctx ∧ p.ctx ≠ 0}

theorem steady_holding (B : Set Resource) : Steady (holding B) := fun _ _ _ => rfl

theorem holding_null {p : Process} (hctx : p.ctx = 0) : holding B p = B := by
  ext x
  simp [holding, hctx]

/-- Only requests of the context are in flight. -/
def Owned (p : Process) (t : List SHEvent) : Prop :=
  (∀ request ∈ (flight t).requests, request.1 = p.ctx) ∧
    (NullStream t ∨ (flight t).copies = [])

theorem Landed.owned {p : Process} {t : List SHEvent} (h : Landed p t) : Owned p t :=
  ⟨by simp [h.1], h.2⟩

theorem finish_owned {f : Flight} {ctx : ℕ} (h : ∀ request ∈ f.requests, request.1 = ctx) :
    (f.finish ctx).requests = [] := by
  unfold Flight.finish
  refine List.filter_eq_nil_iff.mpr fun request hrequest => ?_
  simp [h request hrequest]

/-- The context is destroyed, and with it the requests are over. -/
theorem triple_ioDestroy (hB : ∀ ctx, Resource.context ctx ∉ B) {ctx : ℕ} {name : String}
    {E : Process → List SHEvent → Prop} :
    Proc.Triple Allowed (fun p t => p.ctx = ctx ∧ With (holding B) done Owned p t)
      (cleanup (.ioDestroy ctx) name) (fun _ => With (fun _ => B) done Landed) E := by
  have hafter : ∀ p t (r : Answer), p.ctx = ctx → With (holding B) done Owned p t →
      With (fun _ => B) done Landed p (t ++ [⟨p, .cleanup (.ioDestroy ctx) name, r⟩]) := by
    rintro p t r rfl ⟨h, howned⟩
    refine ⟨h.concat ?_ (fun _ h => by cases h) rfl, ?_,
      copies_next howned.2 rfl⟩
    · by_cases hctx : p.ctx = 0
      · have htracks := h.tracks
        rw [holding_null hctx] at htracks
        refine htracks.quiet rfl ?_
        simp [accounts, releases, hctx]
      · refine (h.tracks.release (r := .context p.ctx) rfl ?_).congr fun x => ?_
        · simp [accounts, releases, hctx]
        · simp only [holding, Set.mem_sdiff, Set.mem_ofPred_eq, Set.mem_singleton_iff]
          constructor
          · rintro ⟨hx | hx, hne⟩
            · exact hx
            · exact absurd hx.1 hne
          · intro hx
            refine ⟨.inl hx, fun heq => hB p.ctx (heq ▸ hx)⟩
    · rw [flight_concat]
      exact finish_owned howned.1
  apply triple_cleanup
  · rintro p t ⟨rfl, h, -⟩
    change (if p.ctx ≠ 0 then {Resource.context p.ctx} else 0) ≤ accounts.held t
    split
    · rename_i hctx
      exact h.tracks.singleton_le (.inr ⟨rfl, hctx⟩)
    · exact Multiset.zero_le _
  · exact fun p t r h _ => hafter p t r h.1 h.2
  · intro p t r h _
    have h' := hafter p t r h.1 h.2
    exact ⟨h'.1.congr rfl rfl, h'.2⟩

theorem triple_quiesce (hB : ∀ ctx, Resource.context ctx ∉ B) {ctx : ℕ} {name what : String}
    {Q : PUnit → Process → List SHEvent → Prop} :
    Proc.Triple Allowed (fun p t => p.ctx = ctx ∧ With (holding B) done Owned p t)
      (do
        cleanup (.ioDestroy ctx) name
        Proc.modify fun p => { p with ctx := 0 }
        fail what : SH PUnit) Q (With (holding B) done Landed) := by
  refine (triple_ioDestroy hB).bind fun _ => ?_
  refine Proc.Triple.bind (Q := fun _ => With (holding B) done Landed) ?_
    fun _ => triple_keeps_fail
  apply Proc.triple_modify
  exact fun p t h => ⟨h.1.congr (holding_null rfl).symm rfl, h.2⟩

/-- Whatever becomes of the requests, none is left in flight. -/
theorem triple_aio (hB : ∀ ctx, Resource.context ctx ∉ B) (fd : ℕ) (buffer : Buffer)
    (write : Bool) :
    Proc.Triple Allowed (With (holding B) done Landed) (aioOperation fd buffer bytes write)
      (fun _ => With (holding B) done Landed) (With (holding B) done Landed) := by
  unfold aioOperation
  apply Proc.triple_get_bind
  intro p₀
  -- `io_submit` brings as many requests under way as it reports
  refine Proc.Triple.bind (Q := fun (submitted : Answer) p t => (p.ctx = p₀.ctx ∧
    With (holding B) done Owned p t) ∧ (flight t).requests.length = min submitted.ret.toNat 4)
    ?_ fun submitted => ?_
  · apply Proc.triple_ask
    · exact fun p t h => Multiset.zero_le _
    · rintro p t r ⟨rfl, h, hlanded⟩
      refine ⟨⟨rfl, h.concat (h.tracks.quiet rfl rfl) (fun _ h => by cases h) rfl, ?_,
        copies_next hlanded.2 rfl⟩, ?_⟩
      · intro request hrequest
        rw [flight_concat] at hrequest
        change request ∈ (flight t).requests ++ _ at hrequest
        rw [hlanded.1, List.nil_append, List.mem_map] at hrequest
        obtain ⟨iocb, -, rfl⟩ := hrequest
        rfl
      · simp [Flight.next, hlanded.1, requests]
  refine Proc.Triple.bind (Q := fun _ p t => (p.ctx = p₀.ctx ∧
    With (holding B) done Owned p t) ∧ (flight t).requests.length = 4) ?_ fun _ => ?_
  · apply Proc.triple_onlyIf
    · intro _
      exact (triple_quiesce hB).weaken (fun _ _ h => h.1) (fun _ _ _ h => h) fun _ _ h => h
    · rintro hret p t ⟨h, hlength⟩
      rw [not_not.mp hret] at hlength
      exact ⟨h, hlength⟩
  -- `io_getevents` reaps all four if it reports four
  refine Proc.Triple.bind (Q := fun (completed : Answer) p t => (p.ctx = p₀.ctx ∧
    With (holding B) done Owned p t) ∧ (completed.ret = 4 → (flight t).requests = []))
    ?_ fun completed => ?_
  · apply Proc.triple_ask
    · exact fun p t h => Multiset.zero_le _
    · rintro p t r ⟨⟨hctx, h, howned⟩, hlength⟩
      have hcount : ((flight t).requests.countP fun request => request.1 = p₀.ctx) = 4 := by
        rw [← hlength, List.countP_eq_length]
        exact fun request hrequest => by simp [howned.1 request hrequest, hctx]
      refine ⟨⟨hctx, h.concat (h.tracks.quiet rfl rfl) (fun _ h => by cases h) rfl, ?_,
        copies_next howned.2 rfl⟩, ?_⟩
      · rw [flight_concat]
        unfold Flight.next
        dsimp only
        split
        · rw [finish_owned fun request hrequest => (howned.1 request hrequest).trans hctx]
          simp
        · exact howned.1
      · intro hret
        rw [flight_concat]
        unfold Flight.next
        dsimp only
        rw [hcount, hret, if_pos (by decide)]
        exact finish_owned fun request hrequest => (howned.1 request hrequest).trans hctx
  -- any other number is an exception, which destroys the context first
  refine Proc.Triple.bind (Q := fun _ => With (holding B) done Landed) ?_ fun _ => ?_
  · apply Proc.triple_onlyIf
    · intro _
      exact (triple_quiesce hB).weaken (fun _ _ h => h.1) (fun _ _ _ h => h) fun _ _ h => h
    · rintro hret p t ⟨⟨-, h, howned⟩, hdone⟩
      exact ⟨h, hdone (not_not.mp hret), howned.2⟩
  exact Proc.triple_onlyIf (fun _ => triple_keeps_fail) fun _ _ _ h => h

/-- One case: it has passed, or it is counted; an exception goes on only after that. -/
theorem triple_aioCase (hB : ∀ ctx, Resource.context ctx ∉ B) (fd : ℕ) {odirect write : Bool}
    (hcase : Case.aio odirect write ∉ done) :
    Proc.Triple Allowed (With (holding B) done Landed) (aioCase bytes seed fd odirect write)
      (fun _ => With (holding B) (insert (.aio odirect write) done) Landed)
      (With (holding B) (insert (.aio odirect write) done) fun p t =>
        Landed p t ∧ p.failures ≠ 0) := by
  have htransfers : Proc.Triple Allowed (With (holding B) done Landed)
      (aioTransfers bytes seed fd write) (fun _ => With (holding B) done Landed)
      (With (holding B) done Landed) := by
    unfold aioTransfers
    refine (triple_aio hB fd shared write).bind fun _ => ?_
    split
    · refine (triple_keeps_check (keeps_landed rfl rfl)).bind fun _ => ?_
      refine (triple_keeps (keeps_landed rfl rfl)).bind fun _ => ?_
      refine (triple_aio hB fd .control false).bind fun _ => ?_
      exact triple_verify fun i value => keeps_landed rfl rfl
    · exact triple_verify fun i value => keeps_landed rfl rfl
  unfold aioCase
  refine (triple_fill fun i value => keeps_landed rfl rfl).bind fun _ => ?_
  refine (htransfers.bind fun _ => triple_pass hcase).tryCatch fun error => ?_
  refine Proc.Triple.bind (triple_count (steady_holding B) (Set.subset_insert _ _)
    (fun _ _ _ h => h) fun _ _ _ => .inl ⟨_, Set.mem_insert _ _, hcase⟩) fun _ => ?_
  refine (triple_keeps (keeps_with rfl fun _ _ r h => ⟨h.1.next rfl rfl, h.2⟩)).bind fun _ => ?_
  refine Proc.Triple.bind (Proc.triple_get (Q := fun _ => With (holding B)
    (insert (.aio odirect write) done) fun p t => Landed p t ∧ p.failures ≠ 0) fun _ _ h => h)
    fun p => ?_
  exact Proc.triple_onlyIf (fun _ => Proc.triple_throw fun _ _ h => h)
    fun _ _ _ h => ⟨h.1, h.2.1⟩

/-- How a turn is left: some of its cases are not done with, or a failure has been counted. -/
def Broken (B : Set Resource) (done : Set Case) (p : Process) (t : List SHEvent) : Prop :=
  ∃ done' ⊆ done, With (holding B) done' Landed p t ∧
    ((∃ case ∈ done, case ∉ done') ∨ p.failures ≠ 0)

theorem triple_aioCases (hB : ∀ ctx, Resource.context ctx ∉ B) (fd : ℕ) {odirect : Bool}
    (hnew : ∀ case ∈ turn odirect, case ∉ done) :
    Proc.Triple Allowed (fun p t => p.ctx = 0 ∧ With (fun _ => B) done Landed p t)
      (aioCases bytes seed fd odirect)
      (fun _ => With (holding B) (done ∪ turn odirect) Landed)
      (Broken B (done ∪ turn odirect)) := by
  have hread : Case.aio odirect false ∉ done := hnew _ ⟨false, rfl⟩
  have hwrite : Case.aio odirect true ∉ insert (Case.aio odirect false) done := by
    rw [Set.mem_insert_iff, not_or]
    exact ⟨by simp, hnew _ ⟨true, rfl⟩⟩
  have hall : insert (Case.aio odirect true) (insert (Case.aio odirect false) done) =
      done ∪ turn odirect := by
    ext case
    simp only [turn, Set.mem_insert_iff, Set.mem_union, Set.mem_ofPred_eq, Bool.exists_bool]
    tauto
  -- what fails before the first case leaves both cases out
  have hstart : ∀ p t, With (holding B) done Landed p t → Broken B (done ∪ turn odirect) p t :=
    fun p t h => ⟨done, Set.subset_union_left, h,
      .inl ⟨.aio odirect false, .inr ⟨false, rfl⟩, hread⟩⟩
  have hcheck : ∀ {m : SH PUnit}, Proc.Triple Allowed (With (holding B) done Landed) m
      (fun _ => With (holding B) done Landed) (With (holding B) done Landed) →
      Proc.Triple Allowed (With (holding B) done Landed) m
        (fun _ => With (holding B) done Landed) (Broken B (done ∪ turn odirect)) :=
    fun h => h.weaken (fun _ _ h => h) (fun _ _ _ h => h) hstart
  unfold aioCases
  -- a context that is null is not one that is held
  refine triple_check_modify (Q := fun _ => With (holding B) done Landed) ?_ ?_ ?_ fun setup => ?_
  · exact fun p t h => Multiset.zero_le _
  · rintro p t r ⟨-, h, hlanded⟩ hret
    refine ⟨h.concat ?_ (fun _ h => by cases h) rfl, ?_, copies_next hlanded.2 rfl⟩
    · by_cases hout : r.out = 0
      · rw [holding_null hout]
        refine h.tracks.quiet ?_ rfl
        exact if_neg fun h => h.2 hout
      · have hacquires : accounts.acquires ⟨p, .check .ioSetup "io_setup", r⟩ =
            {.context r.out} := if_pos ⟨hret, hout⟩
        refine (h.tracks.acquire hacquires rfl (hB _)).congr fun x => ?_
        simp only [holding, Set.mem_insert_iff, Set.mem_ofPred_eq, or_comm, hout, ne_eq,
          not_false_eq_true, and_true]
    · rw [flight_concat]
      exact hlanded.1
  · rintro p t r ⟨hctx, h, hlanded⟩ hret
    refine hstart p _ ⟨h.concat ?_ (fun _ h => by cases h) rfl, ?_, copies_next hlanded.2 rfl⟩
    · rw [holding_null hctx]
      refine h.tracks.quiet ?_ rfl
      exact if_neg fun h => hret h.1
    · rw [flight_concat]
      exact hlanded.1
  refine (hcheck (triple_aio hB fd .control true)).bind fun _ => ?_
  refine Proc.Triple.bind ((triple_keeps_check (keeps_landed rfl rfl)).weaken (fun _ _ h => h)
    (fun _ _ _ h => h) hstart) fun _ => ?_
  refine (hcheck (triple_keeps (keeps_landed rfl rfl))).bind fun _ => ?_
  refine (hcheck (triple_aio hB fd .control false)).bind fun _ => ?_
  refine (hcheck (triple_verify fun i value => keeps_landed rfl rfl)).bind fun _ => ?_
  -- the two cases, one after the other
  refine Proc.Triple.bind ((triple_aioCase hB fd hread).weaken (fun _ _ h => h)
    (fun _ _ _ h => h) ?_) fun _ => ?_
  · intro p t h
    refine ⟨_, ?_, ⟨h.1, h.2.1⟩, .inr h.2.2⟩
    rw [← hall]
    exact Set.subset_insert _ _
  refine Proc.Triple.bind ((triple_aioCase hB fd hwrite).weaken (fun _ _ h => h)
    (fun _ _ _ h => h) ?_) fun _ => ?_
  · exact fun p t h => ⟨_, hall.subset, ⟨h.1, h.2.1⟩, .inr h.2.2⟩
  · rw [hall]
    exact Proc.triple_pure fun _ _ h => h

/-- The control buffer, and the file. -/
def fileAndControl (fd : ℕ) : Set Resource := {.file fd, .control}

theorem tracks_close {t : List SHEvent} {fd : ℕ} {e : SHEvent}
    (h : accounts.Tracks (fileAndControl fd) t) (hacquires : accounts.acquires e = 0)
    (hreleases : accounts.releases e = {.file fd}) : accounts.Tracks {.control} (t ++ [e]) := by
  refine (h.release hacquires hreleases).congr fun x => ?_
  simp only [fileAndControl, Set.mem_sdiff, Set.mem_insert_iff, Set.mem_singleton_iff]
  constructor
  · rintro ⟨hx | hx, hne⟩
    · exact absurd hx hne
    · exact hx
  · rintro rfl
    exact ⟨.inr rfl, by simp⟩

theorem triple_aioFile (fd : ℕ) {odirect : Bool} (hnew : ∀ case ∈ turn odirect, case ∉ done) :
    Proc.Triple Allowed (With (fun _ => fileAndControl fd) done Landed)
      (aioFile bytes seed fd odirect)
      (fun _ => With (fun _ => {.control}) (done ∪ turn odirect) Landed)
      fun _ => Uncaught := by
  have hB : ∀ ctx, Resource.context ctx ∉ fileAndControl fd := by simp [fileAndControl]
  have hheld : ∀ {done : Set Case} p t, With (fun _ => fileAndControl fd) done Landed p t →
      {Resource.file fd} ≤ accounts.held t :=
    fun p t h => h.1.tracks.singleton_le (.inl rfl)
  unfold aioFile
  refine Proc.Triple.bind (Q := fun (unlinked : Answer) p t =>
    With (fun _ => fileAndControl fd) done Landed p t ∧ (unlinked.ret ≠ 0 → Uncaught t)) ?_
    fun unlinked => ?_
  -- an `unlink` that fails lets the exception out of the tests
  · have hkeeps : Keeps Allowed (With (fun _ => fileAndControl fd) done Landed) (.direct .unlink) :=
      keeps_landed rfl rfl
    apply Proc.triple_ask hkeeps.1
    exact fun p t r h => ⟨hkeeps.2 p t r h, fun hret =>
      uncaught_last (by simpa [uncaught] using hret)⟩
  refine Proc.Triple.bind (Q := fun _ => With (fun _ => fileAndControl fd) done Landed) ?_
    fun _ => ?_
  · apply Proc.triple_onlyIf
    · intro hret
      refine Proc.Triple.bind (Q := fun _ _ t => accounts.Tracks {.control} t ∧ Uncaught t) ?_
        fun _ => ?_
      · exact Proc.triple_ask (fun p t h => hheld p t h.1) fun p t r h =>
          ⟨tracks_close h.1.1.tracks rfl rfl, (h.2 hret).concat _⟩
      refine Proc.Triple.bind (Q := fun _ _ => Uncaught) ?_ fun _ => triple_fail fun _ _ h => h
      exact Proc.triple_ask (fun p t h => h.1.singleton_le rfl) fun _ _ _ h => h.2.concat _
    · exact fun _ _ _ h => h.1
  refine Proc.Triple.bind (Q := fun _ p t => p.ctx = 0 ∧
    With (fun _ => fileAndControl fd) done Landed p t) ?_ fun _ => ?_
  · exact Proc.triple_modify fun p t h => ⟨rfl, h.1.congr rfl rfl, h.2⟩
  refine Proc.Triple.bind (Q := fun _ => With (holding (fileAndControl fd))
    (done ∪ turn odirect) Landed) ?_ fun _ => ?_
  -- whatever is thrown in the cases counts as a failure
  · refine (triple_aioCases hB fd hnew).tryCatch fun _ => ?_
    refine Proc.Triple.bind (Q := fun _ => With (holding (fileAndControl fd))
      (done ∪ turn odirect) Landed) ?_ fun _ => triple_keeps (keeps_landed rfl rfl)
    apply Proc.triple_modify
    rintro p t ⟨done', hsubset, h, hbroken⟩
    exact ⟨h.1.fail (steady_holding _) hsubset hbroken, h.2⟩
  apply Proc.triple_get_bind
  intro p₀
  -- the context is destroyed before the file is closed
  refine Proc.Triple.bind (Q := fun _ => With (fun _ => fileAndControl fd)
    (done ∪ turn odirect) Landed) ?_ fun _ => ?_
  · apply Proc.triple_onlyIf
    · intro _
      refine (triple_ioDestroy hB).weaken ?_ (fun _ _ _ h => h) fun _ _ h => h
      rintro p t ⟨rfl, h, hlanded⟩
      exact ⟨rfl, h, hlanded.owned⟩
    · rintro hctx p t ⟨rfl, h, hlanded⟩
      exact ⟨h.congr (holding_null (not_not.mp hctx)) rfl, hlanded⟩
  have hafter : ∀ p t (r : Answer), With (fun _ => fileAndControl fd)
    (done ∪ turn odirect) Landed p t →
      With (fun _ => {.control}) (done ∪ turn odirect) Landed p
        (t ++ [⟨p, .cleanup (.close fd) "close AIO file", r⟩]) := by
    intro p t r h
    refine ⟨h.1.concat (tracks_close h.1.tracks rfl rfl) (fun _ h => by cases h) rfl, ?_,
      copies_next h.2.2 rfl⟩
    rw [flight_concat]
    exact h.2.1
  apply triple_cleanup hheld
  · exact fun p t r h _ => hafter p t r h
  · intro p t r h _
    have h' := hafter p t r h
    exact ⟨h'.1.congr rfl rfl, h'.2⟩

/-- One turn of the loop over `direct`. -/
theorem triple_aioTests (aio : AioMode) {odirect : Bool}
    (hnew : ∀ case ∈ turn odirect, case ∉ done) :
    Proc.Triple Allowed (With (fun _ => {.control}) done Landed) (aioTests bytes seed aio odirect)
      (fun _ => With (fun _ => {.control})
        (done ∪ {case | aio.wants odirect = true ∧ case ∈ turn odirect}) Landed)
      fun _ => Uncaught := by
  unfold aioTests
  apply Proc.triple_onlyIf
  · intro hwants
    simp only [hwants, true_and, Set.ofPred_mem_eq]
    refine (triple_fill fun i value => keeps_landed rfl rfl).bind fun _ => ?_
    refine Proc.Triple.bind (Q := fun (opened : Answer) => if opened.ret < 0 then
      With (fun _ => {.control}) done Landed
      else With (fun _ => fileAndControl opened.ret.toNat) done Landed) ?_ fun opened => ?_
    · apply Proc.triple_ask
      · exact fun p t h => Multiset.zero_le _
      · intro p t r h
        have hlanded : Landed p (t ++ [⟨p, .direct (.openFile odirect), r⟩]) := by
          refine ⟨?_, copies_next h.2.2 rfl⟩
          rw [flight_concat]
          exact h.2.1
        split
        · rename_i hret
          refine ⟨h.1.concat (h.1.tracks.quiet ?_ rfl) (fun _ h => by cases h) rfl, hlanded⟩
          exact if_neg (not_le.mpr hret)
        · rename_i hret
          have hacquires : accounts.acquires ⟨p, .direct (.openFile odirect), r⟩ =
              {.file r.ret.toNat} := if_pos (not_lt.mp hret)
          refine ⟨h.1.concat ?_ (fun _ h => by cases h) rfl, hlanded⟩
          exact h.1.tracks.acquire hacquires rfl (by simp)
    split
    · refine (triple_keeps (keeps_landed rfl rfl)).bind fun _ => ?_
      refine (triple_count (steady_const _) Set.subset_union_left (fun _ _ _ h => h) ?_).weaken
        (fun _ _ h => h) (fun _ _ _ h => ⟨h.1, h.2.1⟩) fun _ _ h => h
      exact fun _ _ _ => .inl ⟨.aio odirect false, .inr ⟨false, rfl⟩, hnew _ ⟨false, rfl⟩⟩
    · exact triple_aioFile _ hnew
  · intro hwants p t h
    simpa [hwants] using h

end Requests

/-! ## The whole -/

section Whole

variable {bytes : ℕ} {seed : UInt64} {S : Process → Set Resource} {done : Set Case}

/-- The first `k` words of the shared buffer are known to be those of the pattern. -/
def Filled (seed : UInt64) (k : ℕ) (t : List SHEvent) : Prop :=
  NullStream t ∨ ∀ i < k, known t shared i = some (pattern i seed)

theorem Landed.known_next {p : Process} {t : List SHEvent} (h : Landed p t) {e : SHEvent}
    (hafter : Landed p (t ++ [e])) :
    NullStream (t ++ [e]) ∨ known (t ++ [e]) shared = learn (known t) e.call shared := by
  rcases hafter.2 with hnull | hcopies'
  · exact .inl hnull
  rcases h.2 with hnull | hcopies
  · exact .inl (hnull.concat e)
  right
  rw [known_concat, if_neg]
  rintro (hinto | hinto)
  · exact Flight.Idle.not_into ⟨hcopies, h.1⟩ shared hinto
  · exact Flight.Idle.not_into ⟨hcopies', hafter.1⟩ shared hinto

/-- What is known of the first words of the shared buffer, if they are filled while nothing is in
flight. -/
structure Restores (seed : UInt64) (R : ℕ → List SHEvent → Prop) : Prop where
  start : ∀ t, R 0 t
  store : ∀ p t k r, Landed p t → R k t →
    R (k + 1) (t ++ [⟨p, .store shared k (pattern k seed), r⟩])
  quiet : ∀ p t k op name r, Landed p t → isPlain (.cleanup op name) = true → R k t →
    R k (t ++ [⟨p, .cleanup op name, r⟩])

theorem restores_filled : Restores seed (Filled seed) := by
  refine ⟨fun t => .inr fun i hi => absurd hi (by omega), ?_, ?_⟩
  · intro p t k r hlanded hfilled
    have hafter : Landed p (t ++ [⟨p, .store shared k (pattern k seed), r⟩]) :=
      hlanded.next rfl rfl
    rcases hlanded.known_next hafter with hnull | hknown
    · exact .inl hnull
    rcases hfilled with hnull | hfilled
    · exact .inl (hnull.concat _)
    refine .inr fun i hi => ?_
    rw [hknown]
    by_cases hik : i = k
    · subst hik
      simp [learn]
    · simpa [learn, Function.update_of_ne hik] using hfilled i (by omega)
  · intro p t k op name r hlanded hc hfilled
    have hnext : Landed p (t ++ [⟨p, .cleanup op name, r⟩]) := hlanded.next hc rfl
    rcases hlanded.known_next hnext with hnull | hknown
    · exact .inl hnull
    rcases hfilled with hnull | hfilled
    · exact .inl (hnull.concat _)
    right
    rw [hknown]
    exact hfilled

variable {R : ℕ → List SHEvent → Prop} (hR : Restores seed R)
include hR

/-- The buffer is filled while nothing is in flight. -/
theorem triple_fill_shared {E : Process → List SHEvent → Prop} :
    Proc.Triple Allowed (With S done Landed) (fill shared bytes seed)
      (fun _ => With S done fun p t => Landed p t ∧ R (bytes / 8) t) E := by
  unfold fill
  refine Proc.Triple.weaken (Proc.triple_forM_range (I := fun k => With S done fun p t =>
    Landed p t ∧ R k t) ?_) ?_ (fun _ _ _ h => h) fun _ _ h => h
  · intro k _
    apply Proc.triple_ask
    · exact fun p t h => Multiset.zero_le _
    · rintro p t r ⟨h, hlanded, hfilled⟩
      exact ⟨h.plain rfl, hlanded.next rfl rfl, hR.store p t k r hlanded hfilled⟩
  · exact fun p t h => ⟨h.1, h.2, hR.start t⟩

omit hR in
/-- How `io_tests` returns. -/
def Restored (R : ℕ → List SHEvent → Prop) (bytes n : ℕ) (p : Process) (t : List SHEvent) : Prop :=
  Landed p t ∧ R (bytes / 8) t ∧ p.failures = n

theorem keepsCleanup_restored (hS : Steady S) {n : ℕ} {op : Share.Op} {name : String}
    (hc : isPlain (.cleanup op name) = true) :
    KeepsCleanup Allowed (With S done (Restored R bytes n)) op name := by
  refine keepsCleanup_with hS hc fun p t r h => ?_
  obtain ⟨hlanded, hfilled, hfailures⟩ := h
  refine ⟨hlanded.next hc rfl, hR.quiet p t _ op name r hlanded hc hfilled, ?_⟩
  split
  · exact hfailures
  · exact hfailures

omit hR

theorem turn_notMem {odirect : Bool} : ∀ case ∈ turn odirect, case ∉ ({.acl} : Set Case) := by
  rintro _ ⟨write, rfl⟩
  simp

theorem requested_eq (aio : AioMode) : requested aio =
    {.acl} ∪ {case | aio.wants false = true ∧ case ∈ turn false} ∪
      {case | aio.wants true = true ∧ case ∈ turn true} := by
  ext case
  simp only [requested, Bool.exists_bool, Set.mem_ofPred_eq, Set.mem_union, Set.mem_singleton_iff,
    or_assoc]

/-- The requests, with a control buffer. -/
theorem triple_requests {aio : AioMode} :
    Proc.Triple Allowed (With nothing {.acl} Landed) (aioRequests bytes seed aio)
      (fun _ => With nothing (requested aio) Landed) fun _ => Uncaught := by
  refine Proc.Triple.bind (Q := fun _ => With (fun _ => {.control}) {.acl} Landed) ?_ fun _ => ?_
  · apply triple_check
    · exact fun p t h => Multiset.zero_le _
    · rintro p t r ⟨h, hlanded⟩ hret
      have hacquires : accounts.acquires ⟨p,
        .check (.posixMemalign bytes) "allocate IO control", r⟩ =
          {.control} := if_pos hret
      refine ⟨h.concat ?_ (fun _ h => by cases h) rfl, ?_, copies_next hlanded.2 rfl⟩
      · exact (h.tracks.acquire hacquires rfl id).congr fun x => by simp [nothing]
      · rw [flight_concat]
        exact hlanded.1
    · exact fun p t r _ hret => uncaught_last (by simpa [uncaught] using hret)
  refine (triple_fill fun i value => keeps_landed rfl rfl).bind fun _ => ?_
  refine Proc.Triple.bind (Q := fun _ => With (fun _ => {.control}) (requested aio) Landed) ?_
    fun _ => ?_
  · refine (triple_aioTests aio turn_notMem).bind fun _ => ?_
    refine Proc.Triple.bind (triple_aioTests aio ?_) fun _ => ?_
    · rintro _ ⟨write, rfl⟩ (hcase | ⟨-, write', hcase⟩)
      · cases hcase
      · cases hcase
    · rw [← requested_eq]
      exact Proc.triple_pure fun _ _ h => h
  refine Proc.Triple.bind ?_ fun _ => Proc.triple_pure fun _ _ h => h
  apply Proc.triple_ask
  · exact fun p t h => h.1.tracks.singleton_le rfl
  · rintro p t r ⟨h, hlanded⟩
    refine ⟨h.concat ?_ (fun _ h => by cases h) rfl, ?_, copies_next hlanded.2 rfl⟩
    · exact (h.tracks.release (r := .control) rfl rfl).congr fun x => by simp [nothing]
    · rw [flight_concat]
      exact hlanded.1

/-- What `io_tests` starts from: nothing is in flight, nothing is held, and no case has passed. -/
def Unstarted (p : Process) (t : List SHEvent) : Prop :=
  Landed p t ∧ accounts.Tracks ∅ t ∧ ∀ case, ¬Passed case t

include hR

variable (bytes) in
theorem triple_ioTests (aio : AioMode) :
    Proc.Triple Allowed Unstarted (ioTests bytes seed aio)
      (fun n => With nothing (requested aio) (Restored R bytes n)) fun _ => Uncaught := by
  have hdestroy : ∀ {I : Process → List SHEvent → Prop} {E : Process → List SHEvent → Prop},
      (∀ {op name}, isPlain (.cleanup op name) = true → KeepsCleanup Allowed I op name) →
      Proc.Triple Allowed I destroyAcl (fun _ => I) E :=
    fun h => triple_destroyAcl_keeps (h rfl) (h rfl) (h rfl) (h rfl)
  unfold ioTests withAcl
  refine Proc.Triple.bind (Q := fun _ p t => With nothing ∅ Landed p t) ?_ fun _ => ?_
  · apply Proc.triple_modify
    rintro p t ⟨hlanded, htracks, hnone⟩
    exact ⟨⟨htracks, by simp, fun case _ => hnone case⟩, hlanded⟩
  refine Proc.Triple.bind (Q := fun _ p t => With nothing ∅ Landed p t) ?_ fun _ => ?_
  · exact Proc.triple_modify fun p t h => ⟨h.1.congr rfl rfl, h.2⟩
  refine Proc.Triple.bind (Q := fun n => With nothing (requested aio) (Restored R bytes n)) ?_
    fun n => ?_
  -- the destructor runs on both ways out
  · refine Proc.Triple.tryCatch (E := fun _ => Uncaught) ?_ fun error => ?_
    · refine triple_acl.bind fun _ => ?_
      refine Proc.Triple.bind (Q := fun _ => With nothing (requested aio) Landed) ?_ fun _ => ?_
      · apply Proc.triple_onlyIf
        · exact fun _ => triple_requests
        · intro haio p t h
          have hnone : aio = .none := not_not.mp haio
          subst hnone
          have hrequested : requested .none = {.acl} := by
            rw [requested_eq]
            simp [AioMode.wants]
          rwa [hrequested]
      refine (triple_fill_shared hR).bind fun _ => ?_
      apply Proc.triple_get_bind
      intro p₀
      apply Proc.triple_pure
      rintro p t ⟨rfl, h, hlanded, hfilled⟩
      exact ⟨h, hlanded, hfilled, rfl⟩
    · refine Proc.Triple.bind (Q := fun _ _ => Uncaught) (hdestroy fun hc => ?_) fun _ =>
        Proc.triple_throw fun _ _ h => h
      refine ⟨fun p t _ => ?_, fun _ _ _ h => h.concat _⟩
      unfold Allowed
      rw [plain_releases hc]
      exact Multiset.zero_le _
  · exact (hdestroy (keepsCleanup_restored hR (steady_const ∅))).bind fun _ =>
      Proc.triple_pure fun _ _ h => h

end Whole

/-- **`io_tests` restores the buffer.**  If it returns, nothing is in flight, the shared buffer
holds the pattern in every world that its calls can lead to, what it has opened, set up and
allocated has been given back once, and it returns 0 if and only if every requested case has
passed.  A stream that has been created is taken not to be null. -/
theorem io_tests_restores {bytes : ℕ} {seed : UInt64} {aio : AioMode} {p₀ p : Process}
    {t : List SHEvent} {n : ℕ} (hrun : (ioTests bytes seed aio p₀).Runs t (.ok n, p))
    (hstream : ¬NullStream t) :
    (flight t).Idle ∧
    (∀ words s, Evolution.Along Turns ({}, words) t s →
      ∀ i < bytes / 8, s.2 shared i = pattern i seed) ∧
    accounts.held t = 0 ∧ accounts.Disciplined t ∧ accounts.acquired t = accounts.released t ∧
    (n = 0 ↔ ∀ case ∈ requested aio, Passed case t) := by
  have hunstarted : Unstarted p₀ [] :=
    ⟨⟨rfl, .inr rfl⟩, Ledger.Accounts.Tracks.nil, by simp [Passed]⟩
  have hrestores : Restores seed (Filled seed) := restores_filled
  have hmeets := triple_ioTests bytes hrestores aio p₀ [] hunstarted
  have hpost := Prog.Meets.post_of_runs hmeets hrun
  obtain ⟨hbooks, ⟨hrequests, hcopies⟩, hfilled, hfailures⟩ := hpost
  have hdisciplined : accounts.Disciplined t := by
    intro t₁ e t₂ ht
    have hallowed := Prog.Meets.ok_of_visits hmeets hrun.visits t₁ e t₂ ht
    rwa [List.nil_append] at hallowed
  have hheld : accounts.held t = 0 := hbooks.tracks.held_eq_zero
  refine ⟨⟨hcopies.resolve_left hstream, hrequests⟩, fun words s hworld i hi => ?_, hheld,
    hdisciplined, hdisciplined.acquired_eq_released hheld, ?_⟩
  · exact (known_sound hworld).2 shared i _ (hfilled.resolve_left hstream i hi)
  · rw [← hfailures]
    exact hbooks.counted

/-- An environment in which everything succeeds. -/
def obliging (_t : List SHEvent) : (c : Share.Call) → Share.Call.Reply c
  | .check .ioSetup _ | .check (.aclrtMalloc _) _ | .check .aclrtCreateStream _
  | .check .aclrtCreateEvent _ => { out := 1 }
  | .direct (.openFile _) => { ret := 3 }
  | .direct (.ioSubmit _ _) => { ret := 4 }
  | .direct (.ioGetevents _) => { ret := 4, events := fun i => { data := i, res := 2 } }
  | .check _ _ | .cleanup _ _ | .direct _ => {}
  | .compare _ _ expected _ => expected
  | .store _ _ _ | .memset _ | .caseResult _ _ => ()
  | .send _ _ => true
  | .receive _ _ => none

instance (c : Share.Call) (r : Share.Call.Reply c) : Decidable (nullStream c r) := by
  unfold nullStream
  split <;> infer_instance

instance (t : List SHEvent) : Decidable (NullStream t) :=
  inferInstanceAs (Decidable (∃ e ∈ t, nullStream e.call e.reply))

/-- One word, through the buffered file. -/
def oneWord : List SHEvent := (Prog.exec obliging (ioTests 8 7 .buffered {}) []).1

theorem oneWord_runs : ∃ p, (ioTests 8 7 .buffered {}).Runs oneWord (.ok 0, p) := by
  have hresult : (Prog.exec obliging (ioTests 8 7 .buffered {}) []).2.map
      (fun x => x.1.toOption) = some (some 0) := by decide +kernel
  obtain ⟨⟨x, p⟩, hexec, hx⟩ := Option.map_eq_some_iff.mp hresult
  cases x with
  | error e => cases hx
  | ok n =>
      cases hx
      exact ⟨p, Prog.runs_of_exec hexec⟩

theorem io_tests_restores_oneWord :
    (flight oneWord).Idle ∧
    (∀ words s, Evolution.Along Turns ({}, words) oneWord s →
      ∀ i < 8 / 8, s.2 shared i = pattern i 7) ∧
    accounts.held oneWord = 0 ∧ accounts.Disciplined oneWord ∧
    accounts.acquired oneWord = accounts.released oneWord ∧
    ((0 : ℕ) = 0 ↔ ∀ case ∈ requested .buffered, Passed case oneWord) := by
  obtain ⟨p, hrun⟩ := oneWord_runs
  exact io_tests_restores hrun (by decide +kernel)
end SharingProbe.HostShare
