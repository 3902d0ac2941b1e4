import Mathlib.Data.List.Nodup
import SharingProbe.MultiShare.Model

/-!
# The descriptors of the coordinator

Descriptors are numbers; what they stand for are the ends of the socket pairs.  Which of
them are open follows from the calls, as long as the kernel hands out numbers that are
not in use.
-/

namespace SharingProbe.MultiShare

open Interaction Network Share

/-! ## What the calls do -/

/-- An end of the socket pair of a rank. -/
structure End where
  rank : ℕ
  worker : Bool
  deriving DecidableEq, Repr

/-- The descriptors of a process. -/
abbrev Files : Type := ℕ → Option End

/-- What the coordinator's calls have done: its open descriptors, the number of socket
pairs, the children, what each `close` has closed, and whom it has waited for. -/
structure Books where
  files : Files := fun _ => none
  pairs : ℕ := 0
  forked : List ℕ := []
  closed : List (Option End) := []
  waited : List ℕ := []

/-- What one call does. -/
def Books.after (b : Books) : (c : Share.Call) → Share.Call.Reply c → Books
  | .direct .socketpair, r =>
      if r.ret ≠ 0 then b
      else
        { b with
          files := Function.update (Function.update b.files r.out (some ⟨b.pairs, false⟩)) r.more
            (some ⟨b.pairs, true⟩)
          pairs := b.pairs + 1 }
  | .direct .fork, r => if r.ret < 0 then b else { b with forked := b.forked ++ [r.out] }
  | .direct (.close fd), _ =>
      { b with files := Function.update b.files fd none, closed := b.closed ++ [b.files fd] }
  | .direct (.waitpid child), _ => { b with waited := b.waited ++ [child] }
  | _, _ => b

/-- What the calls of a trace have done. -/
def books (t : List SHEvent) : Books := t.foldl (fun b e => b.after e.call e.reply) {}

@[simp] theorem books_concat (t : List SHEvent) (e : SHEvent) :
    books (t ++ [e]) = (books t).after e.call e.reply := by
  simp [books]

/-- The kernel hands out two different numbers that are not in use. -/
def freshAnswer (b : Books) : (c : Share.Call) → Share.Call.Reply c → Bool
  | .direct .socketpair, r =>
      r.ret ≠ 0 || ((b.files r.out).isNone && (b.files r.more).isNone && r.out ≠ r.more)
  | _, _ => true

/-- Every answer of a trace was fresh. -/
inductive Fresh : List SHEvent → Prop
  | nil : Fresh []
  | concat {t : List SHEvent} {e : SHEvent} (ht : Fresh t)
      (he : freshAnswer (books t) e.call e.reply = true) : Fresh (t ++ [e])

theorem Fresh.of_concat {t : List SHEvent} {e : SHEvent} (h : Fresh (t ++ [e])) :
    Fresh t ∧ freshAnswer (books t) e.call e.reply = true := by
  generalize hall : t ++ [e] = all at h
  cases h with
  | nil => simp at hall
  | concat ht he =>
      obtain ⟨rfl, hlast⟩ := List.append_inj' hall rfl
      cases hlast
      exact ⟨ht, he⟩

/-! ## What is open at the boundaries -/

/-- The coordinator holds the ends in `sockets`, in the order of the ranks, and has waited
for no child. -/
structure Holds (p : Process) (b : Books) : Prop where
  files : ∀ fd e, b.files fd = some e ↔ ∃ i : ℕ, p.sockets[i]? = some fd ∧ e = ⟨i, false⟩
  forked : b.forked = p.children
  waited : b.waited = []

/-- The state between two turns of the loop. -/
structure Between (n : ℕ) (p : Process) (b : Books) : Prop extends Holds p b where
  pairs : b.pairs = n
  sockets : p.sockets.length = n
  children : p.children.length = n

/-- The state inside of a turn: the new pair is open too. -/
structure Paired (n : ℕ) (p : Process) (b : Books) : Prop where
  files : ∀ fd e, b.files fd = some e ↔ (∃ i : ℕ, p.sockets[i]? = some fd ∧ e = ⟨i, false⟩) ∨
    (fd = p.pair.1 ∧ e = ⟨n, false⟩) ∨ (fd = p.pair.2 ∧ e = ⟨n, true⟩)
  forked : b.forked = p.children
  waited : b.waited = []
  pairs : b.pairs = n + 1
  sockets : p.sockets.length = n
  children : p.children.length = n

variable {n : ℕ} {p : Process} {b : Books}

theorem Holds.nodup (h : Holds p b) : p.sockets.Nodup := by
  rw [List.nodup_iff_injective_getElem]
  intro i j hsame
  have hi := (h.files _ _).mpr ⟨i, List.getElem?_eq_getElem i.isLt, rfl⟩
  have hj := (h.files _ _).mpr ⟨j, List.getElem?_eq_getElem j.isLt, rfl⟩
  have hends : some (End.mk i false) = some (End.mk j false) := by
    rw [← hi, ← hj]
    exact congrArg b.files hsame
  exact Fin.ext (End.mk.inj (Option.some.inj hends)).1

/-- The numbers of a pair differ from each other and from those of the sockets. -/
theorem Paired.distinct (h : Paired n p b) :
    p.pair.1 ≠ p.pair.2 ∧ p.pair.1 ∉ p.sockets ∧ p.pair.2 ∉ p.sockets := by
  have hfirst := (h.files p.pair.1 ⟨n, false⟩).mpr (Or.inr (Or.inl ⟨rfl, rfl⟩))
  have hsecond := (h.files p.pair.2 ⟨n, true⟩).mpr (Or.inr (Or.inr ⟨rfl, rfl⟩))
  have hbelow : ∀ fd ∈ p.sockets, ∃ i < n, b.files fd = some ⟨i, false⟩ := by
    intro fd hfd
    obtain ⟨i, hi⟩ := List.mem_iff_getElem?.mp hfd
    have hlt : i < p.sockets.length := (List.getElem?_eq_some_iff.mp hi).1
    exact ⟨i, h.sockets ▸ hlt, (h.files _ _).mpr (Or.inl ⟨i, hi, rfl⟩)⟩
  refine ⟨fun hsame => ?_, fun hmem => ?_, fun hmem => ?_⟩
  · rw [hsame, hsecond] at hfirst
    simp at hfirst
  · obtain ⟨i, hi, hfiles⟩ := hbelow _ hmem
    rw [hfirst] at hfiles
    simp at hfiles
    omega
  · obtain ⟨i, hi, hfiles⟩ := hbelow _ hmem
    rw [hsecond] at hfiles
    simp at hfiles

/-! ## One turn of the loop -/

/-- A new pair. -/
theorem Between.paired (h : Between n p b) {r : Answer} (hret : r.ret = 0)
    (hfresh : freshAnswer b (.direct .socketpair) r = true) :
    Paired n { p with pair := (r.out, r.more) } (b.after (.direct .socketpair) r) where
  files fd e := by
    simp only [freshAnswer, hret, ne_eq, not_true_eq_false, decide_false, Bool.false_or,
      Bool.and_eq_true, Option.isNone_iff_eq_none, decide_eq_true_eq] at hfresh
    obtain ⟨⟨hout, hmore⟩, hne⟩ := hfresh
    simp only [Books.after, hret, ne_eq, not_true_eq_false, if_false, h.pairs]
    rw [← h.files]
    by_cases hfd : fd = r.more
    · subst hfd
      simp [hmore, Ne.symm hne, eq_comm]
    · by_cases hfd' : fd = r.out
      · subst hfd'
        simp [hout, hne, eq_comm]
      · simp [hfd, hfd']
  forked := by simp [Books.after, hret, h.forked]
  waited := by simp [Books.after, hret, h.waited]
  pairs := by simp [Books.after, hret, h.pairs]
  sockets := h.sockets
  children := h.children

/-- Both ends of the pair are closed again. -/
theorem Paired.close_both (h : Paired n p b) (r r' : Answer) :
    Holds p ((b.after (.direct (.close p.pair.1)) r).after (.direct (.close p.pair.2)) r') where
  files fd e := by
    obtain ⟨hne, hfirst, hsecond⟩ := h.distinct
    have hmem : ∀ {i : ℕ}, p.sockets[i]? = some fd → fd ∈ p.sockets := fun hi =>
      List.mem_of_getElem? hi
    simp only [Books.after]
    by_cases hfd : fd = p.pair.2
    · subst hfd
      simp only [Function.update_self, reduceCtorEq, false_iff]
      rintro ⟨i, hi, -⟩
      exact hsecond (hmem hi)
    · rw [Function.update_of_ne hfd]
      by_cases hfd' : fd = p.pair.1
      · subst hfd'
        simp only [Function.update_self, reduceCtorEq, false_iff]
        rintro ⟨i, hi, -⟩
        exact hfirst (hmem hi)
      · rw [Function.update_of_ne hfd', h.files]
        simp [hfd, hfd']
  forked := h.forked
  waited := h.waited

/-- The child has been started and the worker's end is closed. -/
theorem Paired.started (h : Paired n p b) {r : Answer} (hret : ¬r.ret < 0) (r' : Answer) :
    Between (n + 1)
      { p with sockets := p.sockets ++ [p.pair.1], children := p.children ++ [r.out] }
      ((b.after (.direct .fork) r).after (.direct (.close p.pair.2)) r') where
  files fd e := by
    obtain ⟨hne, hfirst, hsecond⟩ := h.distinct
    have hsockets : (∃ i : ℕ, (p.sockets ++ [p.pair.1])[i]? = some fd ∧ e = ⟨i, false⟩) ↔
        (∃ i : ℕ, p.sockets[i]? = some fd ∧ e = ⟨i, false⟩) ∨
          (fd = p.pair.1 ∧ e = ⟨n, false⟩) := by
      constructor
      · rintro ⟨i, hi, rfl⟩
        by_cases hlt : i < p.sockets.length
        · rw [List.getElem?_append_left hlt] at hi
          exact Or.inl ⟨i, hi, rfl⟩
        · rw [List.getElem?_append_right (not_lt.mp hlt), List.getElem?_singleton] at hi
          have hi' := Option.ite_none_right_eq_some.mp hi
          have hin : i = n := by have := h.sockets; omega
          exact Or.inr ⟨(Option.some.inj hi'.2).symm, by rw [hin]⟩
      · rintro (⟨i, hi, rfl⟩ | ⟨rfl, rfl⟩)
        · exact ⟨i, by rw [List.getElem?_append_left (List.getElem?_eq_some_iff.mp hi).1, hi], rfl⟩
        · exact ⟨n, by simp [← h.sockets], rfl⟩
    simp only [Books.after, hret, if_false]
    rw [hsockets]
    by_cases hfd : fd = p.pair.2
    · subst hfd
      simp only [Function.update_self, reduceCtorEq, Ne.symm hne, false_and, or_false, false_iff]
      rintro ⟨i, hi, -⟩
      exact hsecond (List.mem_of_getElem? hi)
    · rw [Function.update_of_ne hfd, h.files]
      simp [hfd]
  forked := by simp [Books.after, hret, h.forked]
  waited := by simp [Books.after, hret, h.waited]
  pairs := by simp [Books.after, hret, h.pairs]
  sockets := by simp [h.sockets]
  children := by simp [h.children]

/-! ## What the coordinator does, call by call -/

/-- What holds at a call: a descriptor is closed only if it is open, a child is started
with the new pair and the sockets open, and otherwise only the sockets are. -/
def Orderly (cfg : Config) (t : List SHEvent) (p : Process) (c : Share.Call) : Prop :=
  Fresh t →
    match c with
    | .direct .socketpair => Between (books t).pairs p (books t)
    | .direct .fork => Paired (books t).forked.length p (books t)
    | .direct (.close fd) => ∃ e, (books t).files fd = some e
    | .send _ _ | .receive _ _ => Between cfg.count p (books t)
    | _ => True

section Programs

variable {cfg : Config} {I : Process → Books → Prop}

/-- What holds of the books, for fresh answers. -/
def OnBooks (I : Process → Books → Prop) (p : Process) (t : List SHEvent) : Prop :=
  Fresh t → I p (books t)

/-- A call turns one condition on the books into another. -/
theorem triple_call {c : Share.Call} {J : Share.Call.Reply c → Process → Books → Prop}
    {E : Process → List SHEvent → Prop} (hok : ∀ t p, OnBooks I p t → Orderly cfg t p c)
    (h : ∀ p b r, I p b → freshAnswer b c r = true → J r p (b.after c r)) :
    Proc.Triple (Orderly cfg) (OnBooks I)
    (Proc.ask (R := Share.Call.Reply) c : SH (Share.Call.Reply c))
      (fun r => OnBooks (J r)) E := by
  apply Proc.triple_ask
  · exact fun p t hI => hok t p hI
  · intro p t r hI hfresh
    rw [books_concat]
    exact h p _ r (hI hfresh.of_concat.1) hfresh.of_concat.2

/-- The pair is open, and these are its numbers. -/
def PairedAs (n : ℕ) (pair : ℕ × ℕ) (p : Process) (b : Books) : Prop :=
  Paired n p b ∧ p.pair = pair

theorem triple_closePair {n : ℕ} {pair : ℕ × ℕ} {what : String}
    {Q : PUnit → Process → List SHEvent → Prop} :
    Proc.Triple (Orderly cfg) (OnBooks (PairedAs n pair)) (closePair pair what) Q
      (OnBooks Holds) := by
  unfold closePair
  refine Proc.Triple.bind (triple_call (J := fun r p b' => ∃ b, PairedAs n pair p b ∧
    b' = b.after (.direct (.close pair.1)) r) ?_ ?_) fun r => ?_
  · intro t p h hfresh
    obtain ⟨hpaired, rfl⟩ := h hfresh
    exact ⟨_, (hpaired.files _ _).mpr (Or.inr (Or.inl ⟨rfl, rfl⟩))⟩
  · exact fun p b r h _ => ⟨b, h, rfl⟩
  refine Proc.Triple.bind (triple_call (J := fun _ => Holds) ?_ ?_) fun r' => ?_
  · intro t p h hfresh
    obtain ⟨b, ⟨hpaired, rfl⟩, hb⟩ := h hfresh
    refine ⟨⟨n, true⟩, ?_⟩
    rw [hb]
    change Function.update b.files p.pair.1 none p.pair.2 = _
    rw [Function.update_of_ne (Ne.symm hpaired.distinct.1)]
    exact (hpaired.files _ _).mpr (Or.inr (Or.inr ⟨rfl, rfl⟩))
  · rintro p b' r' ⟨b, ⟨hpaired, rfl⟩, rfl⟩ _
    exact hpaired.close_both r r'
  exact Proc.triple_throw fun p t h => h

theorem triple_setTimeout {n fd : ℕ} {pair : ℕ × ℕ} :
    Proc.Triple (Orderly cfg) (OnBooks (PairedAs n pair)) (setTimeout pair fd)
      (fun _ => OnBooks (PairedAs n pair)) (OnBooks Holds) := by
  have hcall : ∀ receive, Proc.Triple (Orderly cfg) (OnBooks (PairedAs n pair))
      (direct (.setsockopt fd receive)) (fun _ => OnBooks (PairedAs n pair)) (OnBooks Holds) :=
    fun receive => triple_call (fun _ _ _ _ => trivial) fun _ _ _ h _ => h
  unfold setTimeout
  refine (hcall true).bind fun r => ?_
  refine Proc.Triple.bind (Q := fun _ => OnBooks (PairedAs n pair))
    (Proc.triple_onlyIf (fun _ => triple_closePair) fun _ _ _ h => h) fun _ => ?_
  refine (hcall false).bind fun r' => ?_
  exact Proc.triple_onlyIf (fun _ => triple_closePair) fun _ _ _ h => h

/-- One turn of the loop starts one worker; a turn that fails closes its own pair. -/
theorem triple_startWorker (n : ℕ) :
    Proc.Triple (Orderly cfg) (OnBooks (Between n)) startWorker
      (fun _ => OnBooks (Between (n + 1))) (OnBooks Holds) := by
  unfold startWorker
  -- `socketpair` opens the two ends of the next pair
  refine Proc.Triple.bind (triple_call (J := fun (r : Answer) p b =>
    (r.ret ≠ 0 → Holds p b) ∧ (r.ret = 0 → Paired n { p with pair := (r.out, r.more) } b))
      ?_ ?_) fun made => ?_
  · intro t p h hfresh
    have hbetween := h hfresh
    exact hbetween.pairs ▸ hbetween
  · intro p b r h hfresh
    refine ⟨fun hret => ?_, fun hret => h.paired hret hfresh⟩
    simp only [Books.after, hret, if_true, ne_eq, not_false_eq_true]
    exact h.toHolds
  refine Proc.Triple.bind (Q := fun _ => OnBooks fun p b =>
    Paired n { p with pair := (made.out, made.more) } b) ?_ fun _ => ?_
  · apply Proc.triple_onlyIf
    · exact fun hret => Proc.triple_throw fun p t h hfresh => (h hfresh).1 hret
    · exact fun hret p t h hfresh => (h hfresh).2 (not_not.mp hret)
  refine Proc.Triple.bind (Q := fun _ => OnBooks (PairedAs n (made.out, made.more))) ?_
    fun _ => ?_
  · exact Proc.triple_modify fun p t h hfresh => ⟨h hfresh, rfl⟩
  refine triple_setTimeout.bind fun _ => triple_setTimeout.bind fun _ => ?_
  -- the child is born with both ends open
  refine Proc.Triple.bind (triple_call (J := fun r p b' => ∃ b,
    PairedAs n (made.out, made.more) p b ∧ b' = b.after (.direct .fork) r) ?_ ?_) fun forked => ?_
  · intro t p h hfresh
    have hpaired := (h hfresh).1
    have hcount : (books t).forked.length = n := by rw [hpaired.forked, hpaired.children]
    exact hcount.symm ▸ hpaired
  · exact fun p b r h _ => ⟨b, h, rfl⟩
  refine Proc.Triple.bind (Q := fun _ => OnBooks fun p b' => ∃ b,
    PairedAs n (made.out, made.more) p b ∧ ¬forked.ret < 0 ∧
      b' = b.after (.direct .fork) forked) ?_ fun _ => ?_
  · apply Proc.triple_onlyIf
    · intro hret
      -- without a child, both ends are closed again
      refine (triple_closePair (n := n)).weaken (fun p t h hfresh => ?_) (fun _ _ _ h => h)
        fun _ _ h => h
      obtain ⟨b, hpaired, hb⟩ := h hfresh
      rw [hb]
      simp only [Books.after, hret, if_true]
      exact hpaired
    · intro hret p t h hfresh
      obtain ⟨b, hpaired, hb⟩ := h hfresh
      exact ⟨b, hpaired, hret, hb⟩
  -- the coordinator keeps its own end only
  refine Proc.Triple.bind (triple_call (J := fun r' p b' => ∃ b,
    PairedAs n (made.out, made.more) p b ∧ ¬forked.ret < 0 ∧
      b' = (b.after (.direct .fork) forked).after (.direct (.close made.more)) r') ?_ ?_)
    fun r' => ?_
  · intro t p h hfresh
    obtain ⟨b, ⟨hpaired, hpair⟩, hret, hb⟩ := h hfresh
    refine ⟨⟨n, true⟩, ?_⟩
    rw [hb]
    simp only [Books.after, hret, if_false]
    exact (hpaired.files _ _).mpr (Or.inr (Or.inr ⟨by rw [hpair], rfl⟩))
  · rintro p b' r' ⟨b, hpaired, hret, rfl⟩ _
    exact ⟨b, hpaired, hret, rfl⟩
  refine Proc.triple_modify fun p t h hfresh => ?_
  obtain ⟨b, ⟨hpaired, hpair⟩, hret, hb⟩ := h hfresh
  have hstarted := hpaired.started hret r'
  have hfirst : p.pair.1 = made.out := by rw [hpair]
  have hsecond : p.pair.2 = made.more := by rw [hpair]
  rw [hfirst, hsecond, ← hb] at hstarted
  exact hstarted

/-- All workers have been started, and the coordinator is this process. -/
def Session (cfg : Config) (p₀ : Process) : Process → List SHEvent → Prop :=
  OnBooks fun p b => p = p₀ ∧ Between cfg.count p b

theorem triple_receiveWord {p₀ : Process} (fd : ℕ) (expects : Purpose) :
    Proc.Triple (Orderly cfg) (Session cfg p₀) (receiveWord fd expects)
      (fun _ => Session cfg p₀) (Session cfg p₀) := by
  unfold receiveWord
  refine Proc.Triple.bind (triple_call (J := fun _ p b => p = p₀ ∧ Between cfg.count p b)
    (fun _ _ h hfresh => (h hfresh).2) fun _ _ _ h _ => h) fun received => ?_
  cases received with
  | some message => exact Proc.triple_pure fun _ _ h => h
  | none => exact Proc.triple_throw fun _ _ h => h

theorem triple_sendWord {p₀ : Process} (fd : ℕ) (message : Message) :
    Proc.Triple (Orderly cfg) (Session cfg p₀) (sendWord fd message)
      (fun _ => Session cfg p₀) (Session cfg p₀) := by
  unfold sendWord
  refine Proc.Triple.bind (triple_call (J := fun _ p b => p = p₀ ∧ Between cfg.count p b)
    (fun _ _ h hfresh => (h hfresh).2) fun _ _ _ h _ => h) fun sent => ?_
  exact Proc.triple_onlyIf (fun _ => Proc.triple_throw fun _ _ h => h) fun _ _ _ h => h

theorem triple_relayBarrier {p₀ : Process} (sockets : List ℕ) :
    Proc.Triple (Orderly cfg) (Session cfg p₀) (relayBarrier sockets)
      (fun _ => Session cfg p₀) (Session cfg p₀) := by
  unfold relayBarrier
  refine Proc.Triple.bind (Q := fun _ => Session cfg p₀) ?_ fun _ => ?_
  · apply Proc.triple_forM
    intro fd _
    refine (triple_receiveWord fd .barrier).bind fun word => ?_
    exact Proc.triple_onlyIf (fun _ => Proc.triple_throw fun _ _ h => h) fun _ _ _ h => h
  · exact Proc.triple_forM fun fd _ => triple_sendWord fd _

theorem triple_collectTokens {p₀ : Process} (sockets : List ℕ) :
    Proc.Triple (Orderly cfg) (Session cfg p₀) (collectTokens sockets)
      (fun _ => Session cfg p₀) (Session cfg p₀) := by
  unfold collectTokens
  refine Proc.triple_foldlM (fun tokens fd _ => ?_) []
  exact (triple_receiveWord fd .token).bind fun token => Proc.triple_pure fun _ _ h => h

/-- The open descriptors are those in the list. -/
def Open (children rest : List ℕ) (b : Books) : Prop :=
  (∀ fd, b.files fd ≠ none ↔ fd ∈ rest) ∧ rest.Nodup ∧ b.forked = children ∧ b.waited = []

theorem Holds.open (h : Holds p b) : Open p.children p.sockets b := by
  refine ⟨fun fd => ?_, h.nodup, h.forked, h.waited⟩
  rw [Option.ne_none_iff_exists']
  constructor
  · rintro ⟨e, he⟩
    obtain ⟨i, hi, -⟩ := (h.files fd e).mp he
    exact List.mem_of_getElem? hi
  · intro hmem
    obtain ⟨i, hi⟩ := List.mem_iff_getElem?.mp hmem
    exact ⟨_, (h.files fd ⟨i, false⟩).mpr ⟨i, hi, rfl⟩⟩

/-- The loop over the sockets closes what is open. -/
theorem triple_closeSockets (children sockets : List ℕ) {E : Process → List SHEvent → Prop} :
    Proc.Triple (Orderly cfg) (OnBooks fun _ b => Open children sockets b)
      (closeSockets sockets) (fun _ => OnBooks fun _ b => Open children [] b) E := by
  unfold closeSockets
  apply Proc.triple_forM_rest (I := fun rest => OnBooks fun _ b => Open children rest b)
  intro fd rest
  refine Proc.Triple.bind (triple_call (J := fun _ _ b => Open children rest b) ?_ ?_)
    fun _ => Proc.triple_pure fun _ _ h => h
  · intro t p h hfresh
    exact Option.ne_none_iff_exists'.mp (((h hfresh).1 fd).mpr List.mem_cons_self)
  · rintro p b r ⟨hfiles, hnodup, hforked, hwaited⟩ _
    refine ⟨fun fd' => ?_, (List.nodup_cons.mp hnodup).2, hforked, hwaited⟩
    change Function.update b.files fd none fd' ≠ none ↔ _
    by_cases hfd : fd' = fd
    · subst hfd
      simp [(List.nodup_cons.mp hnodup).1]
    · rw [Function.update_of_ne hfd, hfiles, List.mem_cons]
      simp [hfd]

/-- Everything is closed, and these children have not been waited for yet. -/
def Waiting (children : List ℕ) (_ : Process) (b : Books) : Prop :=
  (∀ fd, b.files fd = none) ∧ b.waited ++ children = b.forked

theorem Open.waiting {children : List ℕ} (h : Open children [] b) : Waiting children p b := by
  obtain ⟨hfiles, -, hforked, hwaited⟩ := h
  refine ⟨fun fd => ?_, by simp [hforked, hwaited]⟩
  by_contra hopen
  simpa using (hfiles fd).mp hopen

theorem triple_waitpid (child : ℕ) (children : List ℕ) {E : Process → List SHEvent → Prop} :
    Proc.Triple (Orderly cfg) (OnBooks (Waiting (child :: children))) (direct (.waitpid child))
      (fun _ => OnBooks (Waiting children)) E := by
  apply triple_call (fun _ _ _ _ => trivial)
  rintro p b r ⟨hfiles, hwaited⟩ _
  exact ⟨hfiles, by simp [Books.after, ← hwaited]⟩

theorem triple_waitChildren (children : List ℕ) {E : Process → List SHEvent → Prop} :
    Proc.Triple (Orderly cfg) (OnBooks (Waiting children)) (waitChildren children)
      (fun _ => OnBooks (Waiting [])) E := by
  unfold waitChildren
  refine Proc.triple_foldlM_rest (I := fun rest => OnBooks (Waiting rest)) ?_ children 0
  intro failed child rest
  exact (triple_waitpid child rest).bind fun _ => Proc.triple_pure fun _ _ h => h

/-- After the workers have been started, an exception leaves the sockets open, and a normal
end leaves nothing. -/
theorem triple_coordinate :
    Proc.Triple (Orderly cfg) (OnBooks (Between cfg.count)) (coordinate cfg)
      (fun _ => OnBooks (Waiting [])) (OnBooks Holds) := by
  unfold coordinate
  apply Proc.triple_get_bind
  intro p₀
  -- until the sockets are closed, an exception finds them open
  have hthrows : ∀ p t, Session cfg p₀ p t → OnBooks Holds p t :=
    fun p t h hfresh => (h hfresh).2.toHolds
  refine Proc.Triple.bind (Q := fun _ => Session cfg p₀)
    ((triple_collectTokens p₀.sockets).weaken ?_ (fun _ _ _ h => h) hthrows) fun tokens => ?_
  · rintro p t ⟨rfl, h⟩ hfresh
    exact ⟨rfl, h hfresh⟩
  refine Proc.Triple.bind (Q := fun _ => Session cfg p₀) ?_ fun _ => ?_
  · refine (Proc.triple_forM fun fd _ => ?_).weaken (fun _ _ h => h) (fun _ _ _ h => h) hthrows
    exact Proc.triple_forM fun token _ => triple_sendWord fd _
  refine Proc.Triple.bind (Q := fun _ => Session cfg p₀) ?_ fun _ => ?_
  · refine (Proc.triple_forM fun phase _ => ?_).weaken (fun _ _ h => h) (fun _ _ _ h => h) hthrows
    exact triple_relayBarrier p₀.sockets
  refine Proc.Triple.bind (Q := fun _ => OnBooks fun _ b => Open p₀.children [] b) ?_ fun _ => ?_
  · refine (triple_closeSockets p₀.children p₀.sockets).weaken ?_ (fun _ _ _ h => h) fun _ _ h => h
    intro p t h hfresh
    obtain ⟨rfl, hbetween⟩ := h hfresh
    exact hbetween.open
  refine Proc.Triple.bind (Q := fun _ => OnBooks (Waiting p₀.children)) ?_ fun _ => ?_
  · exact Proc.triple_modify fun p t h hfresh => (h hfresh).waiting
  exact triple_waitChildren p₀.children

/-- The handler closes the sockets and waits for every child. -/
theorem triple_abandon {E : Process → List SHEvent → Prop} :
    Proc.Triple (Orderly cfg) (OnBooks Holds) abandon (fun _ => OnBooks (Waiting [])) E := by
  unfold abandon
  apply Proc.triple_get_bind
  intro p₀
  refine Proc.Triple.bind (Q := fun _ => OnBooks fun _ b => Open p₀.children [] b) ?_ fun _ => ?_
  · refine (triple_closeSockets p₀.children p₀.sockets).weaken ?_ (fun _ _ _ h => h) fun _ _ h => h
    rintro p t ⟨rfl, h⟩ hfresh
    exact (h hfresh).open
  refine Proc.Triple.bind (Q := fun _ => OnBooks fun _ b => Open p₀.children [] b) ?_ fun _ => ?_
  · apply Proc.triple_forM
    intro child _
    exact (triple_call (fun _ _ _ _ => trivial) fun _ _ _ h _ => h).bind
      fun _ => Proc.triple_pure fun _ _ h => h
  refine Proc.Triple.bind (Q := fun _ => OnBooks (Waiting [])) ?_
    fun _ => Proc.triple_pure fun _ _ h => h
  refine Proc.Triple.weaken (P := OnBooks (Waiting p₀.children)) ?_
    (fun p t h hfresh => (h hfresh).waiting) (fun _ _ _ h => h) fun _ _ h => h
  apply Proc.triple_forM_rest (I := fun rest => OnBooks (Waiting rest))
  intro child rest
  exact (triple_waitpid child rest).bind fun _ => Proc.triple_pure fun _ _ h => h

/-- The loop that starts the workers. -/
theorem triple_startWorkers :
    Proc.Triple (Orderly cfg) (fun p t => p = {} ∧ t = [])
      ((List.range cfg.count).forM fun _ => startWorker) (fun _ => OnBooks (Between cfg.count))
      (OnBooks Holds) := by
  refine (Proc.triple_forM_range (I := fun n => OnBooks (Between n)) fun n _ =>
    triple_startWorker n).weaken ?_ (fun _ _ _ h => h) fun _ _ h => h
  rintro p t ⟨rfl, rfl⟩ _
  exact { files := by simp [books], forked := rfl, waited := rfl, pairs := rfl, sockets := rfl,
          children := rfl }

/-- `main` closes what it opens and waits for every child, however it ends. -/
theorem triple_main :
    Proc.Triple (Orderly cfg) (fun p t => p = {} ∧ t = []) (main cfg)
      (fun _ => OnBooks (Waiting [])) (OnBooks (Waiting [])) := by
  unfold main
  refine Proc.Triple.tryCatch (E := OnBooks Holds) ?_ fun _ => triple_abandon
  exact triple_startWorkers.bind fun _ => triple_coordinate

end Programs

/-! ## Each end is closed once -/

/-- An end has one number, and what has been closed are the ends that are not open. -/
structure Books.Sound (b : Books) : Prop where
  injective : ∀ {fd fd' e}, b.files fd = some e → b.files fd' = some e → fd = fd'
  rank_lt : ∀ {fd e}, b.files fd = some e → e.rank < b.pairs
  nodup : b.closed.Nodup
  mem : ∀ x, x ∈ b.closed ↔ ∃ e, x = some e ∧ e.rank < b.pairs ∧ ∀ fd, b.files fd ≠ some e

theorem Books.Sound.empty : Books.Sound {} := ⟨by simp, by simp, by simp, by simp⟩

theorem Books.Sound.socketpair (h : b.Sound) {r : Answer} (hret : r.ret = 0)
    (hfresh : freshAnswer b (.direct .socketpair) r = true) :
    (b.after (.direct .socketpair) r).Sound := by
  simp only [freshAnswer, hret, ne_eq, not_true_eq_false, decide_false, Bool.false_or,
    Bool.and_eq_true, Option.isNone_iff_eq_none, decide_eq_true_eq] at hfresh
  obtain ⟨⟨hout, hmore⟩, hne⟩ := hfresh
  -- the two descriptors are new, so the old ones keep their ends
  have hfiles : ∀ fd e, (b.after (.direct .socketpair) r).files fd = some e ↔
      (b.files fd = some e ∧ e.rank < b.pairs) ∨ (fd = r.out ∧ e = ⟨b.pairs, false⟩) ∨
        (fd = r.more ∧ e = ⟨b.pairs, true⟩) := by
    intro fd e
    have hold : b.files fd = some e ∧ e.rank < b.pairs ↔ b.files fd = some e :=
      and_iff_left_of_imp h.rank_lt
    rw [hold]
    simp only [Books.after, hret, ne_eq, not_true_eq_false, if_false]
    by_cases hfd : fd = r.more
    · subst hfd
      simp [hmore, Ne.symm hne, eq_comm]
    · by_cases hfd' : fd = r.out
      · subst hfd'
        simp [hout, hne, eq_comm]
      · simp [hfd, hfd']
  have hpairs : (b.after (.direct .socketpair) r).pairs = b.pairs + 1 := by
    simp [Books.after, hret]
  have hclosed : (b.after (.direct .socketpair) r).closed = b.closed := by
    simp [Books.after, hret]
  refine ⟨?_, ?_, hclosed ▸ h.nodup, ?_⟩
  · intro fd fd' e hfd hfd'
    rw [hfiles] at hfd hfd'
    rcases hfd with ⟨hfd, hlt⟩ | ⟨rfl, rfl⟩ | ⟨rfl, rfl⟩ <;>
      rcases hfd' with ⟨hfd', hlt'⟩ | ⟨rfl, he⟩ | ⟨rfl, he⟩
    · exact h.injective hfd hfd'
    · exact absurd hlt (by simp [he])
    · exact absurd hlt (by simp [he])
    · exact absurd hlt' (by simp)
    · rfl
    · simp at he
    · exact absurd hlt' (by simp)
    · simp at he
    · rfl
  · intro fd e hfd
    rw [hpairs]
    rcases (hfiles fd e).mp hfd with ⟨-, hlt⟩ | ⟨-, rfl⟩ | ⟨-, rfl⟩
    · exact Nat.lt_succ_of_lt hlt
    · exact Nat.lt_succ_self _
    · exact Nat.lt_succ_self _
  · intro x
    rw [hclosed, h.mem, hpairs]
    constructor
    · rintro ⟨e, rfl, hlt, hnot⟩
      refine ⟨e, rfl, Nat.lt_succ_of_lt hlt, fun fd hfd => ?_⟩
      rcases (hfiles fd e).mp hfd with ⟨hopen, -⟩ | ⟨-, rfl⟩ | ⟨-, rfl⟩
      · exact hnot fd hopen
      · exact absurd hlt (lt_irrefl _)
      · exact absurd hlt (lt_irrefl _)
    -- an end of the new pair is not closed, since it is open
    · rintro ⟨⟨rank, worker⟩, rfl, hlt, hnot⟩
      have hold : rank ≠ b.pairs := by
        rintro rfl
        cases worker with
        | false => exact hnot r.out ((hfiles _ _).mpr (Or.inr (Or.inl ⟨rfl, rfl⟩)))
        | true => exact hnot r.more ((hfiles _ _).mpr (Or.inr (Or.inr ⟨rfl, rfl⟩)))
      have hlt' : rank < b.pairs := lt_of_le_of_ne (Nat.lt_succ_iff.mp hlt) hold
      exact ⟨_, rfl, hlt', fun fd hfd => hnot fd ((hfiles _ _).mpr (Or.inl ⟨hfd, hlt'⟩))⟩

theorem Books.Sound.close (h : b.Sound) {fd : ℕ} {e : End} (hopen : b.files fd = some e)
    (r : Answer) : (b.after (.direct (.close fd)) r).Sound := by
  have hfiles : ∀ fd' e', (b.after (.direct (.close fd)) r).files fd' = some e' ↔
      b.files fd' = some e' ∧ fd' ≠ fd := by
    intro fd' e'
    simp only [Books.after]
    by_cases hfd : fd' = fd
    · subst hfd
      simp
    · simp [hfd]
  have hclosed : (b.after (.direct (.close fd)) r).closed = b.closed ++ [some e] := by
    simp [Books.after, hopen]
  -- an end that is open has not been closed before
  have hnew : some e ∉ b.closed := by
    intro hmem
    obtain ⟨e', he', -, hnot⟩ := (h.mem _).mp hmem
    exact hnot fd (hopen.trans he')
  refine ⟨?_, ?_, ?_, ?_⟩
  · intro fd₁ fd₂ e' h₁ h₂
    exact h.injective ((hfiles _ _).mp h₁).1 ((hfiles _ _).mp h₂).1
  · intro fd' e' hfd'
    exact h.rank_lt ((hfiles _ _).mp hfd').1
  · rw [hclosed]
    exact List.nodup_append.mpr ⟨h.nodup, by simp, by
      intro x hx y hy hxy
      rw [List.mem_singleton.mp hy] at hxy
      exact hnew (hxy ▸ hx)⟩
  · intro x
    rw [hclosed, List.mem_append, List.mem_singleton, h.mem]
    constructor
    · rintro (⟨e', rfl, hlt, hnot⟩ | rfl)
      · exact ⟨e', rfl, hlt, fun fd' hfd' => hnot fd' ((hfiles _ _).mp hfd').1⟩
      · refine ⟨e, rfl, h.rank_lt hopen, fun fd' hfd' => ?_⟩
        obtain ⟨hsame, hne⟩ := (hfiles _ _).mp hfd'
        exact hne (h.injective hsame hopen)
    · rintro ⟨e', rfl, hlt, hnot⟩
      by_cases he : e' = e
      · exact Or.inr (by rw [he])
      · refine Or.inl ⟨e', rfl, hlt, fun fd' hfd' => hnot fd' ((hfiles _ _).mpr ⟨hfd', ?_⟩)⟩
        rintro rfl
        rw [hopen] at hfd'
        exact he (Option.some.inj hfd').symm

/-- Whatever the coordinator calls, the books stay sound. -/
theorem Books.Sound.after {cfg : Config} {t : List SHEvent} {c : Share.Call} (h : (books t).Sound)
    (ht : Fresh t) (hok : Orderly cfg t p c) {r : Share.Call.Reply c}
    (hfresh : freshAnswer (books t) c r = true) : ((books t).after c r).Sound := by
  have hok' := hok ht
  cases c with
  | direct op =>
      cases op with
      | socketpair =>
          by_cases hret : Answer.ret r = 0
          · exact h.socketpair hret hfresh
          · simp only [Books.after, hret, ne_eq, not_false_eq_true, if_true]
            exact h
      | fork =>
          simp only [Books.after]
          split
          · exact h
          · exact ⟨h.injective, h.rank_lt, h.nodup, h.mem⟩
      | close fd =>
          obtain ⟨e, he⟩ := hok'
          exact h.close he r
      | waitpid child => exact ⟨h.injective, h.rank_lt, h.nodup, h.mem⟩
      | _ => exact h
  | _ => exact h

end SharingProbe.MultiShare
