import SharingProbe.DataStrategy.Exchange
import SharingProbe.DataStrategy.Options

/-!
# One deadline for all peers

`CrossRankSetup` fixes the deadline before it exports anything, and every peer gets
what is left of it.  A peer that is reached late still gets one attempt; a further
attempt is made only while the clock is below the deadline.
-/

namespace SharingProbe.DataStrategy

open Interaction

/-! ## Places in a list -/

section Throughout

variable {α : Type} {P : List α → α → List α → Prop}

/-- What holds of every element, given what is before it and after it. -/
def Throughout (P : List α → α → List α → Prop) (l : List α) : Prop :=
  ∀ l₁ x l₂, l = l₁ ++ x :: l₂ → P l₁ x l₂

theorem throughout_nil : Throughout P [] := fun l₁ x l₂ h => by simp at h

theorem throughout_cons {a : α} {l : List α} :
    Throughout P (a :: l) ↔ P [] a l ∧ Throughout (fun l₁ => P (a :: l₁)) l := by
  constructor
  · intro h
    exact ⟨h [] a l rfl, fun l₁ x l₂ hl => h (a :: l₁) x l₂ (by rw [hl]; rfl)⟩
  · rintro ⟨hhead, htail⟩ l₁ x l₂ hl
    cases l₁ with
    | nil =>
        obtain ⟨rfl, rfl⟩ := List.cons.inj hl
        exact hhead
    | cons b l₁ =>
        obtain ⟨rfl, htl⟩ := List.cons.inj hl
        exact htail l₁ x l₂ htl

theorem throughout_append {l l' : List α} :
    Throughout P (l ++ l') ↔
      Throughout (fun l₁ x l₂ => P l₁ x (l₂ ++ l')) l ∧ Throughout (fun l₁ => P (l ++ l₁)) l' := by
  induction l generalizing P with
  | nil => exact ⟨fun h => ⟨throughout_nil, h⟩, fun h => h.2⟩
  | cons a l ih =>
      rw [List.cons_append, throughout_cons, throughout_cons, ih]
      simp only [and_assoc, List.cons_append]

end Throughout

/-! ## Attempts and readings -/

/-- The peer that a step concerns. -/
def Note.peer? : Note → Option ℕ
  | .attempt rank _ => some rank
  | .imported rank _ => some rank
  | .mapped rank => some rank
  | .reading _ => none
  | .pause _ => none

/-- The replies to the attempts for a peer. -/
def attempts (rank : ℕ) (ns : List Note) : List (Except Exn (Except Status UInt64)) :=
  ns.filterMap fun
    | .attempt other reply => if other = rank then some reply else none
    | _ => none

/-- The readings of the clock. -/
def readings (ns : List Note) : List ℕ :=
  ns.filterMap fun
    | .reading now => some now
    | _ => none

@[simp] theorem attempts_nil (rank : ℕ) : attempts rank [] = [] := rfl

@[simp] theorem attempts_append (rank : ℕ) (ns ns' : List Note) :
    attempts rank (ns ++ ns') = attempts rank ns ++ attempts rank ns' := List.filterMap_append

@[simp] theorem attempts_cons_self (rank : ℕ) (reply : Except Exn (Except Status UInt64))
    (ns : List Note) : attempts rank (.attempt rank reply :: ns) = reply :: attempts rank ns := by
  simp [attempts]

theorem attempts_cons_of_ne {rank : ℕ} {note : Note} (hne : ∀ reply, note ≠ .attempt rank reply)
    (ns : List Note) : attempts rank (note :: ns) = attempts rank ns := by
  cases note with
  | attempt other reply =>
      have hother : other ≠ rank := fun h => hne reply (by rw [h])
      simp [attempts, hother]
  | _ => rfl

@[simp] theorem attempts_cons_reading (rank now : ℕ) (ns : List Note) :
    attempts rank (.reading now :: ns) = attempts rank ns := rfl

@[simp] theorem attempts_cons_pause (rank time : ℕ) (ns : List Note) :
    attempts rank (.pause time :: ns) = attempts rank ns := rfl

@[simp] theorem attempts_cons_imported (rank other : ℕ) (token : UInt64) (ns : List Note) :
    attempts rank (.imported other token :: ns) = attempts rank ns := rfl

@[simp] theorem attempts_cons_mapped (rank other : ℕ) (ns : List Note) :
    attempts rank (.mapped other :: ns) = attempts rank ns := rfl

theorem attempts_eq_nil {rank : ℕ} {ns : List Note}
    (h : ∀ note ∈ ns, ∀ reply, note ≠ .attempt rank reply) : attempts rank ns = [] := by
  induction ns with
  | nil => rfl
  | cons note ns ih =>
      rw [attempts_cons_of_ne (h note List.mem_cons_self)]
      exact ih fun note hmem => h note (List.mem_cons_of_mem _ hmem)

theorem exists_attempt {rank : ℕ} {ns : List Note} (h : attempts rank ns ≠ []) :
    ∃ ns₁ reply ns₂, ns = ns₁ ++ .attempt rank reply :: ns₂ := by
  by_contra hnone
  refine h (attempts_eq_nil fun note hmem reply hnote => hnone ?_)
  obtain ⟨ns₁, ns₂, hns⟩ := List.append_of_mem hmem
  exact ⟨ns₁, reply, ns₂, by rw [hns, hnote]⟩

/-- A second attempt has one before it. -/
theorem exists_second_attempt {rank : ℕ} {ns : List Note} (h : 2 ≤ (attempts rank ns).length) :
    ∃ ns₁ reply ns₂, ns = ns₁ ++ .attempt rank reply :: ns₂ ∧ attempts rank ns₁ ≠ [] := by
  have hne : attempts rank ns ≠ [] := List.ne_nil_of_length_pos (Nat.lt_of_lt_of_le (by decide) h)
  obtain ⟨ns₁, reply, ns₂, rfl⟩ := exists_attempt hne
  have hmore : attempts rank ns₂ ≠ [] ∨ attempts rank ns₁ ≠ [] := by
    by_contra hnone
    simp only [not_or, not_not] at hnone
    rw [attempts_append, attempts_cons_self, hnone.1, hnone.2] at h
    simp at h
  rcases hmore with hafter | hbefore
  · obtain ⟨ns₃, reply', ns₄, rfl⟩ := exists_attempt hafter
    refine ⟨ns₁ ++ .attempt rank reply :: ns₃, reply', ns₄, by simp, ?_⟩
    simp
  · exact ⟨ns₁, reply, ns₂, rfl, hbefore⟩

/-! ## One peer -/

section Polled

variable {rank deadline fuel : ℕ} {first : Except Status UInt64} {ns : List Note}
  {o : Option (Except Exn (Except Status UInt64))}

theorem Polled.peer (h : Polled rank deadline fuel first ns o) :
    ∀ note ∈ ns, note.peer? = none ∨ ∃ reply, note = .attempt rank reply := by
  induction h with
  | read | cut | late | woken => simp [Note.peer?]
  | threw => simp [Note.peer?]
  | again status hnow hlater hrest ih =>
      intro note hmem
      simp only [List.mem_cons] at hmem
      rcases hmem with rfl | rfl | rfl | rfl | hmem
      · exact .inl rfl
      · exact .inl rfl
      · exact .inl rfl
      · exact .inr ⟨_, rfl⟩
      · exact ih note hmem

/-- The last attempt decides what the loop returns. -/
theorem Polled.last (h : Polled rank deadline fuel first ns o)
    {reply : Except Exn (Except Status UInt64)}
    (ho : o = some reply) : (attempts rank (.attempt rank (.ok first) :: ns)).getLast? =
      some reply := by
  induction h with
  | read fuel handle => cases ho; simp
  | cut status => cases ho
  | late fuel status hnow => cases ho; simp [attempts]
  | woken fuel status hnow hlater => cases ho; simp [attempts]
  | threw fuel status hnow hlater => cases ho; simp [attempts]
  | again status hnow hlater hrest ih =>
      have hlast := ih ho
      simp only [attempts_cons_self, attempts_cons_reading, attempts_cons_pause] at hlast ⊢
      rw [List.getLast?_cons_cons]
      exact hlast

/-- A further attempt comes right after a reading below the deadline. -/
def AfterReading (deadline : ℕ) (before : List Note) : Prop :=
  ∃ ns₀ now, before = ns₀ ++ [.reading now] ∧ now < deadline

theorem AfterReading.append {before : List Note} (h : AfterReading deadline before)
    (ns : List Note) :
    AfterReading deadline (ns ++ before) := by
  obtain ⟨ns₀, now, rfl, hnow⟩ := h
  exact ⟨ns ++ ns₀, now, (List.append_assoc _ _ _).symm, hnow⟩

theorem Polled.again_after (h : Polled rank deadline fuel first ns o) :
    Throughout (fun before note _ => ∀ peer reply, note = .attempt peer reply →
      AfterReading deadline before) ns := by
  induction h with
  | read | cut => exact throughout_nil
  | late | woken => simp [throughout_cons, throughout_nil]
  | @threw fuel status now later e hnow hlater =>
      simp only [throughout_cons]
      refine ⟨nofun, nofun, nofun, fun _ _ _ => ⟨[_, _], later, rfl, hlater⟩, throughout_nil⟩
  | @again fuel status now later next ns o hnow hlater hrest ih =>
      simp only [throughout_cons]
      refine ⟨nofun, nofun, nofun, fun _ _ _ => ⟨[_, _], later, rfl, hlater⟩, ?_⟩
      intro ns₁ note ns₂ hns peer reply hnote
      exact (ih ns₁ note ns₂ hns peer reply hnote).append [_, _, _, _]

/-- An attempt that succeeds is the last one, and its handle is returned. -/
theorem Polled.accepted (h : Polled rank deadline fuel first ns o) :
    Throughout (fun _ note after => ∀ peer handle, note = .attempt peer (.ok (.ok handle)) →
      peer = rank ∧ after = [] ∧
        o = some (.ok (.ok handle))) (.attempt rank (.ok first) :: ns) := by
  induction h with
  | read fuel handle =>
      simp only [throughout_cons, throughout_nil, and_true]
      intro peer handle' h
      cases h
      exact ⟨rfl, trivial, rfl⟩
  | cut | late | woken | threw => simp [throughout_cons, throughout_nil]
  | @again fuel status now later next ns o hnow hlater hrest ih =>
      simp only [throughout_cons] at ih ⊢
      refine ⟨nofun, nofun, nofun, nofun, ih.1, ih.2⟩

/-- A peer that is given up is given up at a reading at or past the deadline. -/
theorem Polled.late_reading (h : Polled rank deadline fuel first ns o) {status : Status}
    (ho : o = some (.ok (.error status))) :
    ∃ ns₀ now, ns = ns₀ ++ [.reading now] ∧ deadline ≤ now := by
  induction h with
  | read | cut | threw => cases ho
  | @late fuel status now hnow => exact ⟨[], now, rfl, hnow⟩
  | @woken fuel status now later hnow hlater => exact ⟨[_, _], later, rfl, hlater⟩
  | again status hnow hlater hrest ih =>
      obtain ⟨ns₀, now, rfl, hlate⟩ := ih ho
      exact ⟨_ :: _ :: _ :: _ :: ns₀, now, rfl, hlate⟩

end Polled

/-! ## All peers -/

section Exchanged

variable {owner deadline fuel : ℕ} {ranks : List ℕ} {ns : List Note}
  {o : Option (Except Exn Status)}

/-- The steps of an exchange concern its peers. -/
theorem Exchanged.peer (h : Exchanged owner deadline fuel ranks ns o) :
    ∀ note ∈ ns, ∀ rank, note.peer? = some rank → rank ∈ ranks := by
  have hone : ∀ {rank : ℕ} {first : Except Status UInt64} {ns : List Note}
      {o : Option (Except Exn (Except Status UInt64))}, Polled rank deadline fuel first ns o →
        ∀ note ∈ .attempt rank (.ok first) :: ns, ∀ other, note.peer? = some other →
          other = rank := by
    intro rank first ns o hpolled note hmem other hother
    rcases List.mem_cons.mp hmem with rfl | hmem
    · exact (Option.some.inj hother).symm
    · rcases hpolled.peer note hmem with hnone | ⟨reply, rfl⟩
      · rw [hnone] at hother
        cases hother
      · exact (Option.some.inj hother).symm
  induction h with
  | done => simp
  | own hrest ih => exact fun note hmem rank hrank =>
      List.mem_cons_of_mem _ (ih note hmem rank hrank)
  | threw ranks hpeer =>
      intro note hmem rank hrank
      rw [List.mem_singleton.mp hmem] at hrank
      cases hrank
      exact List.mem_cons_self
  | cut ranks hpeer hpolled | pollThrew ranks hpeer hpolled
  | timedOut ranks message hpeer hpolled =>
      intro note hmem rank hrank
      rw [hone hpolled note hmem rank hrank]
      exact List.mem_cons_self
  | @imported rank ranks first ns ns' handle o hpeer hpolled hrest ih =>
      intro note hmem other hother
      rw [← List.cons_append, List.mem_append] at hmem
      rcases hmem with hmem | hmem
      · rw [hone hpolled note hmem other hother]
        exact List.mem_cons_self
      · rcases List.mem_cons.mp hmem with rfl | hmem
        · cases hother
          exact List.mem_cons_self
        · rcases List.mem_cons.mp hmem with rfl | hmem
          · cases hother
            exact List.mem_cons_self
          · exact List.mem_cons_of_mem _ (ih note hmem other hother)

theorem Exchanged.attempts_eq_nil (h : Exchanged owner deadline fuel ranks ns o) {rank : ℕ}
    (hrank : rank ∉ ranks) : attempts rank ns = [] :=
  DataStrategy.attempts_eq_nil fun note hmem reply hnote =>
    hrank (h.peer note hmem rank (by rw [hnote]; rfl))

theorem Polled.attempts_other {rank other : ℕ} {first : Except Status UInt64}
    {o : Option (Except Exn (Except Status UInt64))} (h : Polled rank deadline fuel first ns o)
    (hne : other ≠ rank) : attempts other (.attempt rank (.ok first) :: ns) = [] := by
  refine DataStrategy.attempts_eq_nil fun note hmem reply hnote => ?_
  rcases List.mem_cons.mp hmem with rfl | hmem
  · cases hnote
    exact hne rfl
  · rcases h.peer note hmem with hnone | ⟨reply', rfl⟩
    · rw [hnote] at hnone
      cases hnone
    · cases hnote
      exact hne rfl

/-- Nobody is mapped while a peer is polled. -/
theorem Polled.not_mapped {rank other : ℕ} {first : Except Status UInt64}
    {o : Option (Except Exn (Except Status UInt64))} (h : Polled rank deadline fuel first ns o) :
    .mapped other ∉ .attempt rank (.ok first) :: ns := by
  intro hmem
  rcases List.mem_cons.mp hmem with heq | hmem
  · cases heq
  · rcases h.peer _ hmem with hnone | ⟨reply', heq⟩
    · cases hnone
    · cases heq

/-- The exchange attempts the peers that it reaches, and no others: a peer is reached
when all peers before it have been mapped. -/
def Reaches (owner : ℕ) (ns : List Note) (before : List ℕ) (rank : ℕ) : Prop :=
  rank ≠ owner ∧ ∀ other ∈ before, other ≠ owner → .mapped other ∈ ns

/-- An exchange that ends with its first peer. -/
theorem attempted_iff_single {first : ℕ} {reply : Except Exn (Except Status UInt64)}
    (hfirst : first ≠ owner) (hnodup : (first :: ranks).Nodup)
    (hother : ∀ other ≠ first, attempts other (.attempt first reply :: ns) = [])
    (hmapped : ∀ other, .mapped other ∉ .attempt first reply :: ns) {before after : List ℕ}
    {rank : ℕ}
    (hranks : first :: ranks = before ++ rank :: after) :
    attempts rank (.attempt first reply :: ns) ≠ [] ↔
      Reaches owner (.attempt first reply :: ns) before rank := by
  cases before with
  | nil =>
      obtain ⟨rfl, -⟩ := List.cons.inj hranks
      simp [Reaches, hfirst]
  | cons head before =>
      obtain ⟨rfl, rfl⟩ := List.cons.inj hranks
      have hne : rank ≠ first := fun heq => (List.nodup_cons.mp hnodup).1 (by simp [heq])
      rw [hother rank hne]
      constructor
      · exact fun h => absurd rfl h
      · rintro ⟨-, hall⟩
        exact absurd (hall first List.mem_cons_self hfirst) (hmapped first)

theorem Exchanged.attempted_iff (h : Exchanged owner deadline fuel ranks ns o)
    (hnodup : ranks.Nodup)
    {before after : List ℕ} {rank : ℕ} (hranks : ranks = before ++ rank :: after) :
    attempts rank ns ≠ [] ↔ Reaches owner ns before rank := by
  induction h generalizing before after rank with
  | done => simp at hranks
  | @own ranks ns o hrest ih =>
      cases before with
      | nil =>
          obtain ⟨rfl, rfl⟩ := List.cons.inj hranks
          rw [hrest.attempts_eq_nil (List.nodup_cons.mp hnodup).1]
          simp [Reaches]
      | cons head before =>
          obtain ⟨rfl, htail⟩ := List.cons.inj hranks
          rw [ih (List.nodup_cons.mp hnodup).2 htail]
          simp [Reaches]
  | @threw rank ranks e hpeer =>
      refine attempted_iff_single hpeer hnodup (fun other hother => ?_) ?_ hranks
      · exact attempts_cons_of_ne (fun reply heq => hother (by cases heq; rfl)) []
      · simp
  | cut ranks hpeer hpolled | pollThrew ranks hpeer hpolled
  | timedOut ranks message hpeer hpolled =>
      exact attempted_iff_single hpeer hnodup (fun other => hpolled.attempts_other)
        (fun other => hpolled.not_mapped) hranks
  | @imported first ranks reply ns ns' handle o hpeer hpolled hrest ih =>
      cases before with
      | nil =>
          obtain ⟨rfl, rfl⟩ := List.cons.inj hranks
          simp [Reaches, hpeer]
      | cons head before =>
          obtain ⟨rfl, htail⟩ := List.cons.inj hranks
          -- this rank has been imported before, so the entries are about the later ones only
          have hnotin : first ∉ ranks := (List.nodup_cons.mp hnodup).1
          have hne : rank ≠ first := fun heq => hnotin (by simp [htail, heq])
          rw [← List.cons_append, attempts_append, hpolled.attempts_other hne, List.nil_append,
            attempts_cons_imported, attempts_cons_mapped, ih (List.nodup_cons.mp hnodup).2 htail]
          have hmem : ∀ other ∈ before, (.mapped other ∈ .attempt first (.ok reply) :: ns ++
              .imported first handle :: .mapped first :: ns' ↔ .mapped other ∈ ns') := by
            intro other hother
            have hfirst : other ≠ first := fun heq => hnotin (by simp [htail, ← heq, hother])
            simp only [List.mem_append, hpolled.not_mapped, false_or, List.mem_cons, reduceCtorEq,
              Note.mapped.injEq, hfirst]
          unfold Reaches
          simp only [List.mem_cons, forall_eq_or_imp]
          constructor
          · rintro ⟨hrank, hall⟩
            refine ⟨hrank, by simp, fun other hother hne' => ?_⟩
            exact (hmem other hother).mpr (hall other hother hne')
          · rintro ⟨hrank, -, hall⟩
            exact ⟨hrank, fun other hother hne' => (hmem other hother).mp (hall other hother hne')⟩

/-- The exchange times out if and only if the last attempt for some peer has failed. -/
theorem Exchanged.timeout_iff (h : Exchanged owner deadline fuel ranks ns o) (hnodup : ranks.Nodup)
    {status : Status} (ho : o = some (.ok status)) :
    status.code = Status.timeout.code ↔
      ∃ rank ∈ ranks, ∃ error, (attempts rank ns).getLast? = some (.ok (.error error)) := by
  induction h with
  | done =>
      cases ho
      simp [Status.timeout, Status.ok, Status.makeStatusCode]
  | @own ranks ns o hrest ih =>
      have hnotin : owner ∉ ranks := (List.nodup_cons.mp hnodup).1
      rw [ih (List.nodup_cons.mp hnodup).2 ho]
      simp [hrest.attempts_eq_nil hnotin]
  | threw | cut | pollThrew => cases ho
  | @timedOut first ranks reply ns error message hpeer hpolled =>
      cases ho
      exact iff_of_true rfl ⟨first, List.mem_cons_self, error, hpolled.last rfl⟩
  | @imported first ranks reply ns ns' handle o hpeer hpolled hrest ih =>
      have hnotin : first ∉ ranks := (List.nodup_cons.mp hnodup).1
      have hfirst : (attempts first (.attempt first (.ok reply) :: (ns ++
          .imported first handle :: .mapped first :: ns'))).getLast? = some (.ok (.ok handle)) := by
        rw [← List.cons_append, attempts_append, attempts_cons_imported, attempts_cons_mapped,
          hrest.attempts_eq_nil hnotin, List.append_nil]
        exact hpolled.last rfl
      have hother : ∀ rank ∈ ranks, attempts rank (.attempt first (.ok reply) :: (ns ++
          .imported first handle :: .mapped first :: ns')) = attempts rank ns' := by
        intro rank hrank
        rw [← List.cons_append, attempts_append, attempts_cons_imported, attempts_cons_mapped,
          hpolled.attempts_other fun heq => hnotin (heq ▸ hrank), List.nil_append]
      rw [ih (List.nodup_cons.mp hnodup).2 ho]
      constructor
      · rintro ⟨rank, hrank, error, hlast⟩
        exact ⟨rank, List.mem_cons_of_mem _ hrank, error, by rw [hother rank hrank, hlast]⟩
      · rintro ⟨rank, hrank, error, hlast⟩
        rcases List.mem_cons.mp hrank with rfl | hrank
        · rw [hfirst] at hlast
          cases hlast
        · exact ⟨rank, hrank, error, by rw [← hother rank hrank, hlast]⟩

theorem Exchanged.late_reading (h : Exchanged owner deadline fuel ranks ns o) {status : Status}
    (ho : o = some (.ok status)) (htimeout : status.code = Status.timeout.code) :
    ∃ ns₀ now, ns = ns₀ ++ [.reading now] ∧ deadline ≤ now := by
  induction h with
  | done =>
      cases ho
      simp [Status.timeout, Status.ok, Status.makeStatusCode] at htimeout
  | own hrest ih => exact ih ho
  | threw | cut | pollThrew => cases ho
  | timedOut ranks message hpeer hpolled =>
      obtain ⟨ns₀, now, rfl, hlate⟩ := hpolled.late_reading rfl
      exact ⟨_ :: ns₀, now, rfl, hlate⟩
  | @imported first ranks reply ns ns' handle o hpeer hpolled hrest ih =>
      obtain ⟨ns₀, now, rfl, hlate⟩ := ih ho
      refine ⟨.attempt first (.ok reply) :: (ns ++ .imported first handle :: .mapped first :: ns₀),
        now,
        ?_, hlate⟩
      simp

/-- A further attempt for a peer comes right after a reading below the deadline. -/
theorem Exchanged.again_after (h : Exchanged owner deadline fuel ranks ns o)
    (hnodup : ranks.Nodup) :
    Throughout (fun before note _ => ∀ peer reply, note = .attempt peer reply →
      attempts peer before ≠ [] → AfterReading deadline before) ns := by
  have hone : ∀ {rank : ℕ} {first : Except Status UInt64} {ns : List Note}
      {o : Option (Except Exn (Except Status UInt64))}, Polled rank deadline fuel first ns o →
        Throughout (fun before note _ => ∀ peer reply, note = .attempt peer reply →
          attempts peer before ≠ [] → AfterReading deadline before)
          (.attempt rank (.ok first) :: ns) := by
    intro rank first ns o hpolled
    refine throughout_cons.mpr ⟨fun peer reply _ hne => absurd rfl hne, ?_⟩
    intro ns₁ note ns₂ hns peer reply hnote _
    exact (hpolled.again_after ns₁ note ns₂ hns peer reply hnote).append [_]
  induction h with
  | done => exact throughout_nil
  | own hrest ih => exact ih (List.nodup_cons.mp hnodup).2
  | threw ranks hpeer =>
      exact throughout_cons.mpr ⟨fun peer reply _ hne => absurd rfl hne, throughout_nil⟩
  | cut ranks hpeer hpolled | pollThrew ranks hpeer hpolled
  | timedOut ranks message hpeer hpolled =>
      exact hone hpolled
  | @imported first ranks reply ns ns' handle o hpeer hpolled hrest ih =>
      have hnotin : first ∉ ranks := (List.nodup_cons.mp hnodup).1
      rw [← List.cons_append]
      refine throughout_append.mpr ⟨hone hpolled, ?_⟩
      simp only [throughout_cons]
      refine ⟨nofun, nofun, ?_⟩
      intro ns₁ note ns₂ hns peer reply' hnote hattempted
      subst hns
      have hne : peer ≠ first := by
        rintro rfl
        exact hnotin (hrest.peer note (by simp) peer (by rw [hnote]; rfl))
      have hbefore : attempts peer ns₁ ≠ [] := by
        rwa [attempts_append, hpolled.attempts_other hne, List.nil_append, attempts_cons_imported,
          attempts_cons_mapped] at hattempted
      have hafter := ih (List.nodup_cons.mp hnodup).2 ns₁ note ns₂ rfl peer reply' hnote hbefore
      have hpast := hafter.append (.attempt first (.ok reply) :: ns ++
        [.imported first handle, .mapped first])
      rwa [List.append_assoc] at hpast

/-- An attempt that succeeds is accepted: the peer is imported and mapped next. -/
theorem Exchanged.accepted (h : Exchanged owner deadline fuel ranks ns o) :
    Throughout (fun _ note after => ∀ peer handle, note = .attempt peer (.ok (.ok handle)) →
      ∃ rest, after = .imported peer handle :: .mapped peer :: rest) ns := by
  induction h with
  | done => exact throughout_nil
  | own hrest ih => exact ih
  | threw ranks hpeer => exact throughout_cons.mpr ⟨nofun, throughout_nil⟩
  | cut ranks hpeer hpolled | pollThrew ranks hpeer hpolled
  | timedOut ranks message hpeer hpolled =>
      intro ns₁ note ns₂ hns peer handle hnote
      obtain ⟨-, -, ho⟩ := hpolled.accepted ns₁ note ns₂ hns peer handle hnote
      cases ho
  | @imported first ranks reply ns ns' handle o hpeer hpolled hrest ih =>
      rw [← List.cons_append]
      refine throughout_append.mpr ⟨?_, ?_⟩
      · intro ns₁ note ns₂ hns peer handle' hnote
        obtain ⟨rfl, rfl, ho⟩ := hpolled.accepted ns₁ note ns₂ hns peer handle' hnote
        cases ho
        exact ⟨ns', rfl⟩
      · simp only [throughout_cons]
        exact ⟨nofun, nofun, ih⟩

/-! ## Enough iterations -/

/-- After a pause the clock shows at least the time that the pause was to end. -/
def PausesLast (ns : List Note) : Prop :=
  Throughout (fun _ note after => ∀ time now rest, note = .pause time →
    after = .reading now :: rest → time ≤ now) ns

theorem Polled.fuel_lt {rank start : ℕ} {first : Except Status UInt64}
    {o : Option (Except Exn (Except Status UInt64))} (h : Polled rank deadline fuel first ns o)
    (ho : o = none) (hsorted : (readings ns).Pairwise (· ≤ ·))
    (hstart : ∀ now ∈ readings ns, start ≤ now)
    (hpauses : PausesLast ns) : fuel = 0 ∨ start + fuel * (10 * 1000000) < deadline := by
  induction h generalizing start with
  | read | late | woken | threw => cases ho
  | cut => exact .inl rfl
  | @again fuel status now later next ns o hnow hlater hrest ih =>
      have hnow' : start ≤ now := hstart now (by simp [readings])
      change (now :: later :: readings ns).Pairwise (· ≤ ·) at hsorted
      simp only [List.pairwise_cons] at hsorted
      unfold PausesLast at hpauses
      simp only [throughout_cons] at hpauses
      obtain ⟨-, hpause, -, -, hpauses⟩ := hpauses
      have hslept := hpause _ later _ rfl rfl
      unfold pauseUntil at hslept
      rcases ih ho hsorted.2.2 hsorted.2.1 hpauses with rfl | hlt
      · omega
      · omega

theorem Exchanged.fuel_lt {start : ℕ} (h : Exchanged owner deadline fuel ranks ns o) (ho : o = none)
    (hsorted : (readings ns).Pairwise (· ≤ ·)) (hstart : ∀ now ∈ readings ns, start ≤ now)
    (hpauses : PausesLast ns) : fuel = 0 ∨ start + fuel * (10 * 1000000) < deadline := by
  induction h with
  | done | threw | pollThrew | timedOut => cases ho
  | own hrest ih => exact ih ho hsorted hstart hpauses
  | cut ranks hpeer hpolled =>
      exact hpolled.fuel_lt rfl hsorted hstart (throughout_cons.mp hpauses).2
  | @imported first ranks reply ns ns' handle o hpeer hpolled hrest ih =>
      have hreadings : readings (.attempt first (.ok reply) :: (ns ++ .imported first handle ::
          .mapped first :: ns')) = readings ns ++ readings ns' := List.filterMap_append
      rw [hreadings] at hsorted hstart
      refine ih ho (List.pairwise_append.mp hsorted).2.1
        (fun now hmem => hstart now (List.mem_append_right _ hmem)) ?_
      have hlast := (throughout_append.mp (throughout_cons.mp hpauses).2).2
      simp only [throughout_cons] at hlast
      exact hlast.2.2

end Exchanged

/-! ## The law -/

/-- What the deadline means for the steps after it has been fixed, and for what is
returned.  There are `n` ranks, and the loop over the peers goes up. -/
structure OneDeadline (owner n deadline timeoutMs fuel : ℕ) (ns : List Note)
    (o : Option (Except Exn Status)) : Prop where
  attempted : ∀ rank < n, attempts rank ns ≠ [] ↔ Reaches owner ns (List.range rank) rank
  accepted : Throughout (fun _ note after =>
    ∀ peer handle, note = .attempt peer (.ok (.ok handle)) →
    ∃ rest, after = .imported peer handle :: .mapped peer :: rest) ns
  again : Throughout (fun before note _ => ∀ peer reply, note = .attempt peer reply →
    attempts peer before ≠ [] → AfterReading deadline before) ns
  once : timeoutMs = 0 → ∀ rank < n, Reaches owner ns (List.range rank) rank →
    (attempts rank ns).length = 1
  timeout : ∀ status, o = some (.ok status) → (status.code = Status.timeout.code ↔
    ∃ rank < n, Reaches owner ns (List.range rank) rank ∧
      ∃ error, (attempts rank ns).getLast? = some (.ok (.error error)))
  late : ∀ status, o = some (.ok status) → status.code = Status.timeout.code →
    ∃ ns₀ now, ns = ns₀ ++ [.reading now] ∧ deadline ≤ now
  returns : PausesLast ns → 0 < fuel → timeoutMs ≤ 10 * fuel → o ≠ none

theorem exists_range_split {rank n : ℕ} (h : rank < n) :
    ∃ after, List.range n = List.range rank ++ rank :: after := by
  obtain ⟨k, rfl⟩ := Nat.exists_eq_add_of_lt h
  refine ⟨(List.range k).map (rank + 1 + ·), ?_⟩
  rw [show rank + k + 1 = rank + (1 + k) by omega, List.range_add, Nat.add_comm 1 k,
    List.range_succ_eq_map]
  simp only [List.map_cons, List.map_map, Nat.add_zero]
  congr 2
  refine List.map_congr_left fun i _ => ?_
  simp only [Function.comp_apply]
  omega

/-- **One deadline for all peers.**  The clock is read first, and if the calls of HAL
succeed and the clock does not go back, the deadline that this reading fixes governs
all peers. -/
theorem one_deadline {data : DataStrategy} {fuel timeoutMs : ℕ} {t : List DSEvent}
    {o : Option (Except Exn Status × DataStrategy)}
    (h : (crossRankSetup fuel timeoutMs data).Stops t o) (hok : ∀ e ∈ t, succeeds e = true)
    (hclock : (readings (notes t)).Pairwise (· ≤ ·)) :
    ∃ start ns, notes t = .reading start :: ns ∧
      OneDeadline data.owner data.mappings.length (start + timeoutMs * 1000000) timeoutMs fuel ns
        (o.map Prod.fst) := by
  obtain ⟨start, ns, hnotes, hexchanged⟩ := crossRankSetup_exchanged hok h
  refine ⟨start, ns, hnotes, ?_⟩
  rw [hnotes] at hclock
  obtain ⟨hstart, hsorted⟩ := List.pairwise_cons.mp hclock
  have hnodup := List.nodup_range (n := data.mappings.length)
  have hreaches : ∀ rank < data.mappings.length,
      attempts rank ns ≠ [] ↔ Reaches data.owner ns (List.range rank) rank := by
    intro rank hrank
    obtain ⟨after, hsplit⟩ := exists_range_split hrank
    exact hexchanged.attempted_iff hnodup hsplit
  have hagain := hexchanged.again_after hnodup
  refine ⟨hreaches, hexchanged.accepted, hagain, ?_, ?_, ?_, ?_⟩
  -- with the deadline at the start, a second attempt would have been made too late
  · intro hzero rank hrank hreached
    have hpos := List.length_pos_of_ne_nil ((hreaches rank hrank).mpr hreached)
    by_contra hne
    obtain ⟨ns₁, reply, ns₂, hns, hbefore⟩ := exists_second_attempt
      (show 2 ≤ (attempts rank ns).length by omega)
    obtain ⟨ns₀, now, rfl, hnow⟩ := hagain ns₁ _ ns₂ hns rank reply rfl hbefore
    have hge : start ≤ now := hstart now (by simp [hns])
    omega
  · intro status ho
    rw [hexchanged.timeout_iff hnodup ho]
    constructor
    · rintro ⟨rank, hmem, error, hlast⟩
      have hrank := List.mem_range.mp hmem
      have hne : attempts rank ns ≠ [] := by
        intro hnil
        rw [hnil] at hlast
        cases hlast
      exact ⟨rank, hrank, (hreaches rank hrank).mp hne, error, hlast⟩
    · rintro ⟨rank, hrank, -, error, hlast⟩
      exact ⟨rank, List.mem_range.mpr hrank, error, hlast⟩
  · exact fun status ho htimeout => hexchanged.late_reading ho htimeout
  · intro hpauses hfuel henough ho
    rcases hexchanged.fuel_lt ho hsorted hstart hpauses with hzero | hlt
    · omega
    · omega

/-- An environment of rank 0 in which the descriptor of rank 1 comes with the second
attempt and that of rank 2 never does.  The clock counts a millisecond for each call. -/
def secondAttempt (t : List DSEvent) : (call : Call) → call.Reply
  | ⟨_, _, .getRankDesc rank⟩ =>
      if rank = 1 ∧ 4 < t.length then .ok (.ok 8) else .ok (.error (.error "not there yet"))
  | ⟨_, _, .steadyClockNow⟩ => t.length * 1000000
  | ⟨site, rank, op⟩ => hugeFails 0 t ⟨site, rank, op⟩

/-- Rank 0 of three after its own allocation. -/
def threeRanksData : DataStrategy where
  mappings := [⟨some 1, 2 ^ 30, true⟩, {}, {}]
  deviceId := 0
  rankStride := 2 ^ 30

theorem one_deadline_threeRanks :
    ∃ start ns, notes (Prog.exec secondAttempt (crossRankSetup 1 10 threeRanksData) []).1 =
      .reading start :: ns ∧ OneDeadline 0 3 (start + 10 * 1000000) 10 1 ns
        ((Prog.exec secondAttempt (crossRankSetup 1 10 threeRanksData) []).2.map Prod.fst) := by
  have hend : ((Prog.exec secondAttempt (crossRankSetup 1 10 threeRanksData) []).2).isSome := by
    decide +kernel
  obtain ⟨x, hx⟩ := Option.isSome_iff_exists.mp hend
  have hstops := (Prog.runs_of_exec hx).stops
  rw [← hx] at hstops
  exact one_deadline hstops (by decide +kernel) (by decide +kernel)

end SharingProbe.DataStrategy
