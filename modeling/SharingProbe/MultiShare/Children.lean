import SharingProbe.MultiShare.Descriptors

/-!
# The coordinator and its children

`main` forks one child after the other.  A child has a copy of the descriptors of that
moment; it closes all of them but the worker's end, and executes the worker.  All
processes go on independently.
-/

namespace SharingProbe.MultiShare

open Interaction Network Share

variable {n : ℕ} {p : Process} {b : Books}

/-! ## The coordinator and its children -/

/-- Where a child is. -/
inductive Phase where
  | unborn
  | closing (rest : List ℕ)
  | running
  | exited

/-- A child: its descriptors, and the number that `--worker-fd` gives it. -/
structure Child where
  phase : Phase := .unborn
  files : Files := fun _ => none
  workerFd : ℕ := 0

/-- All processes. -/
structure Machine where
  rest : Prog Process Share.Call Share.Call.Reply (Except String ℕ × Process)
  trace : List SHEvent
  child : ℕ → Child

/-- A call of the coordinator, or a step of the child of a rank.  A child may exit at any
time. -/
inductive MachineStep where
  | call (answer : (c : Share.Call) → Share.Call.Reply c)
  | closes (rank : ℕ)
  | executes (rank : ℕ)
  | exits (rank : ℕ)

/-- A successful `fork` copies the descriptors. -/
def forkChild (b : Books) (p : Process) (child : ℕ → Child) : (c : Share.Call) →
    Share.Call.Reply c → ℕ → Child
  | .direct .fork, r =>
      if r.ret < 0 then child
      else
        Function.update child b.forked.length
          { phase := .closing (childCloses p), files := b.files, workerFd := p.pair.2 }
  | _, _ => child

/-- All interleavings of `main` and the children. -/
def machine (cfg : Config) : Transition.System Machine MachineStep where
  init := { rest := main cfg {}, trace := [], child := fun _ => {} }
  step m
    | .call answer =>
        match m.rest with
        | .call p c next =>
            if freshAnswer (books m.trace) c (answer c) then
              some { rest := next (answer c)
                     trace := m.trace ++ [⟨p, c, answer c⟩]
                     child := forkChild (books m.trace) p m.child c (answer c) }
            else none
        | _ => none
    | .closes rank =>
        match (m.child rank).phase with
        | .closing (fd :: rest) =>
            some { m with child := Function.update m.child rank { m.child rank with
              phase := .closing rest
              files := Function.update (m.child rank).files fd none } }
        | _ => none
    | .executes rank =>
        match (m.child rank).phase with
        | .closing [] =>
            some { m with
              child := Function.update m.child rank { m.child rank with phase := .running } }
        | _ => none
    | .exits rank =>
        match (m.child rank).phase with
        | .closing _ | .running =>
            some { m with child := Function.update m.child rank { m.child rank with
              phase := .exited
              files := fun _ => none } }
        | _ => none

/-- The descriptors of the child of a rank. -/
def Child.Ok (rank : ℕ) (c : Child) : Prop :=
  match c.phase with
  | .unborn | .exited => ∀ fd, c.files fd = none
  | .closing rest => c.files c.workerFd = some ⟨rank, true⟩ ∧ c.workerFd ∉ rest ∧
      ∀ fd e, c.files fd = some e →
        (fd = c.workerFd ∧ e = ⟨rank, true⟩) ∨ (fd ∈ rest ∧ e.worker = false)
  | .running => ∀ fd e, c.files fd = some e ↔ fd = c.workerFd ∧ e = ⟨rank, true⟩

/-- No other rank's worker end is open in a child. -/
theorem Child.Ok.rank_eq {rank : ℕ} {c : Child} (h : c.Ok rank) {fd r : ℕ}
    (hfd : c.files fd = some ⟨r, true⟩) : r = rank := by
  unfold Child.Ok at h
  split at h
  · rw [h fd] at hfd
    cases hfd
  · rw [h fd] at hfd
    cases hfd
  · rcases h.2.2 fd _ hfd with ⟨-, he⟩ | ⟨-, he⟩
    · exact (End.mk.inj he).1
    · cases he
  · exact (End.mk.inj ((h fd _).mp hfd).2).1

/-- A child starts with the sockets and the pair, of which it keeps the worker's end. -/
theorem Paired.child (h : Paired n p b) :
    Child.Ok n { phase := .closing (childCloses p), files := b.files, workerFd := p.pair.2 } := by
  obtain ⟨hne, -, hsecond⟩ := h.distinct
  refine ⟨(h.files _ _).mpr (Or.inr (Or.inr ⟨rfl, rfl⟩)), ?_, fun fd e hfd => ?_⟩
  · simp [childCloses, hsecond, Ne.symm hne]
  · rcases (h.files fd e).mp hfd with ⟨i, hi, rfl⟩ | ⟨rfl, rfl⟩ | hworker
    · exact Or.inr ⟨List.mem_append_left _ (List.mem_of_getElem? hi), rfl⟩
    · exact Or.inr ⟨by simp [childCloses], rfl⟩
    · exact Or.inl hworker

theorem Child.Ok.closes {rank fd : ℕ} {rest : List ℕ} {c : Child} (h : c.Ok rank)
    (hphase : c.phase = .closing (fd :: rest)) :
    Child.Ok rank
      { c with phase := .closing rest, files := Function.update c.files fd none } := by
  unfold Child.Ok at h
  rw [hphase] at h
  obtain ⟨hworker, hnot, honly⟩ := h
  rw [List.mem_cons, not_or] at hnot
  refine ⟨(Function.update_of_ne hnot.1 _ _).trans hworker, hnot.2, fun fd' e hfd' => ?_⟩
  change Function.update c.files fd none fd' = some e at hfd'
  by_cases hsame : fd' = fd
  · subst hsame
    simp at hfd'
  · rw [Function.update_of_ne hsame] at hfd'
    rcases honly fd' e hfd' with hkept | ⟨hmem, he⟩
    · exact Or.inl hkept
    · exact Or.inr ⟨(List.mem_cons.mp hmem).resolve_left hsame, he⟩

theorem Child.Ok.executes {rank : ℕ} {c : Child} (h : c.Ok rank)
    (hphase : c.phase = .closing []) : Child.Ok rank { c with phase := .running } := by
  unfold Child.Ok at h
  rw [hphase] at h
  obtain ⟨hworker, -, honly⟩ := h
  intro fd e
  constructor
  · intro hfd
    exact (honly fd e hfd).resolve_right fun hmem => List.not_mem_nil hmem.1
  · rintro ⟨rfl, rfl⟩
    exact hworker

/-- What holds of all processes. -/
structure Machine.Sound (cfg : Config) (m : Machine) : Prop where
  fresh : Fresh m.trace
  meets : m.rest.Meets (Orderly cfg) m.trace fun x t => OnBooks (Waiting []) x.2 t
  books : (books m.trace).Sound
  child : ∀ r, (m.child r).Ok r

theorem Machine.Sound.init (cfg : Config) : Machine.Sound cfg (machine cfg).init where
  fresh := .nil
  meets := by
    refine Prog.Meets.mono ?_ (triple_main {} [] ⟨rfl, rfl⟩)
    rintro ⟨x, p⟩ t h
    cases x <;> exact h
  books := .empty
  child _ _ := rfl

/-- The cases are the steps: one call of the coordinator, or one of a child's. -/
theorem Machine.Sound.step {cfg : Config} {m m' : Machine} {a : MachineStep}
    (h : m.Sound cfg) (hstep : (machine cfg).step m a = some m') : m'.Sound cfg := by
  -- a child changes alone
  have hchild : ∀ rank (c : Child), c.Ok rank →
      Machine.Sound cfg { m with child := Function.update m.child rank c } := by
    intro rank c hc
    refine ⟨h.fresh, h.meets, h.books, fun r => ?_⟩
    by_cases hr : r = rank
    · subst hr
      simpa using hc
    · simpa [Function.update_of_ne hr] using h.child r
  cases a with
  | call answer =>
      change (match m.rest with
        | .call p c next => if _ then _ else _
        | _ => none) = _ at hstep
      split at hstep
      · rename_i p c next hrest
        split at hstep
        · rename_i hfresh
          cases hstep
          have hmeets := h.meets
          rw [hrest] at hmeets
          refine ⟨h.fresh.concat hfresh, hmeets.2 _, ?_, ?_⟩
          · rw [books_concat]
            exact h.books.after h.fresh hmeets.1 hfresh
          -- only `fork` makes a child, and its descriptors are those of this moment
          · intro r
            have hok := hmeets.1 h.fresh
            unfold forkChild
            split
            · split
              · exact h.child r
              · by_cases hr : r = (MultiShare.books m.trace).forked.length
                · subst hr
                  simpa using Paired.child hok
                · simpa [Function.update_of_ne hr] using h.child r
            · exact h.child r
        · cases hstep
      · cases hstep
  | closes rank =>
      change (match (m.child rank).phase with
        | .closing (fd :: rest) => _
        | _ => none) = _ at hstep
      split at hstep
      · rename_i fd rest hphase
        cases hstep
        exact hchild rank _ ((h.child rank).closes hphase)
      · cases hstep
  | executes rank =>
      change (match (m.child rank).phase with
        | .closing [] => _
        | _ => none) = _ at hstep
      split at hstep
      · rename_i hphase
        cases hstep
        exact hchild rank _ ((h.child rank).executes hphase)
      · cases hstep
  | exits rank =>
      change (match (m.child rank).phase with
        | .closing _ | .running => _
        | _ => none) = _ at hstep
      split at hstep
      · cases hstep
        exact hchild rank _ fun _ => rfl
      · cases hstep
        exact hchild rank _ fun _ => rfl
      · cases hstep

/-! ## The bookkeeping -/

/-- The coordinator starts a turn of its loop or uses a socket. -/
def AtBoundary (m : Machine) : Prop :=
  ∃ p c next, m.rest = .call p c next ∧
    (c = .direct .socketpair ∨ (∃ fd message, c = .send fd message) ∨
      ∃ fd expects, c = .receive fd expects)

/-- A child that runs has its own worker end and nothing else; between the turns the
coordinator has the coordinator ends of the workers started so far; the worker end of a
worker that has exited is nowhere open; and when `main` ends, each end of each pair has
been closed once and each child has been waited for once. -/
structure Machine.Bookkeeping (m : Machine) : Prop where
  executed : ∀ r, (m.child r).phase = .running → ∀ fd e,
    (m.child r).files fd = some e ↔ fd = (m.child r).workerFd ∧ e = ⟨r, true⟩
  boundary : AtBoundary m → ∀ e, (∃ fd, (books m.trace).files fd = some e) ↔
    e.worker = false ∧ e.rank < (books m.trace).forked.length
  hangup : AtBoundary m → ∀ r, (m.child r).phase = .exited →
    (∀ fd, (books m.trace).files fd ≠ some ⟨r, true⟩) ∧
      ∀ k fd, (m.child k).files fd ≠ some ⟨r, true⟩
  ended : ∀ x, m.rest = .ret x → (books m.trace).closed.Nodup ∧
    (∀ y, y ∈ (books m.trace).closed ↔ ∃ e : End, y = some e ∧ e.rank < (books m.trace).pairs) ∧
    (books m.trace).waited = (books m.trace).forked

/-- At a boundary the coordinator has the ends of the workers that it has started. -/
theorem Machine.Sound.boundary {cfg : Config} {m : Machine} (h : m.Sound cfg)
    (hat : AtBoundary m) (e : End) : (∃ fd, (MultiShare.books m.trace).files fd = some e) ↔
      e.worker = false ∧ e.rank < (MultiShare.books m.trace).forked.length := by
  obtain ⟨p, c, next, hrest, hc⟩ := hat
  have hmeets := h.meets
  rw [hrest] at hmeets
  have hok := hmeets.1 h.fresh
  obtain ⟨n, hbetween⟩ : ∃ n, Between n p (MultiShare.books m.trace) := by
    rcases hc with rfl | ⟨fd, message, rfl⟩ | ⟨fd, expects, rfl⟩
    · exact ⟨_, hok⟩
    · exact ⟨_, hok⟩
    · exact ⟨_, hok⟩
  have hcount : (MultiShare.books m.trace).forked.length = p.sockets.length := by
    rw [hbetween.forked, hbetween.children, hbetween.sockets]
  rw [hcount]
  constructor
  · rintro ⟨fd, hfd⟩
    obtain ⟨i, hi, rfl⟩ := (hbetween.files fd e).mp hfd
    exact ⟨rfl, (List.getElem?_eq_some_iff.mp hi).1⟩
  · rintro ⟨hworker, hlt⟩
    refine ⟨p.sockets[e.rank], (hbetween.files _ e).mpr ⟨e.rank, List.getElem?_eq_getElem hlt, ?_⟩⟩
    rw [← hworker]

/-- In every interleaving. -/
theorem descriptors_kept {cfg : Config} {m : Machine}
    (h : Transition.Reachable (machine cfg) m) : m.Bookkeeping := by
  have hsound : m.Sound cfg := h.invariant (Machine.Sound cfg) (.init cfg)
    fun m a m' _ hm hstep => hm.step hstep
  refine ⟨?_, hsound.boundary, ?_, ?_⟩
  · intro r hphase
    have hok := hsound.child r
    unfold Child.Ok at hok
    rw [hphase] at hok
    exact hok
  · intro hat r hphase
    constructor
    · intro fd hfd
      have hworker := ((hsound.boundary hat _).mp ⟨fd, hfd⟩).1
      cases hworker
    · intro k fd hfd
      have hrk := (hsound.child k).rank_eq hfd
      subst hrk
      have hok := hsound.child r
      unfold Child.Ok at hok
      rw [hphase] at hok
      rw [hok fd] at hfd
      cases hfd
  · intro x hrest
    have hmeets := hsound.meets
    rw [hrest] at hmeets
    obtain ⟨hclosed, hwaited⟩ := hmeets hsound.fresh
    refine ⟨hsound.books.nodup, fun y => ?_, by simpa using hwaited⟩
    rw [hsound.books.mem]
    simp [hclosed]

/-- Two workers. -/
def twoWorkers : Config where
  count := 2
  rounds := 2
  bytes := 2 ^ 21
  hostNumaSide := 0
  devices := id
  nodes := id

/-- A kernel that gives these descriptors to a pair, and this number to a child. -/
def started (pair : ℕ × ℕ) (child : ℕ) : (c : Share.Call) → Share.Call.Reply c
  | .direct .socketpair => { out := pair.1, more := pair.2 }
  | .direct .fork => { out := child }
  | .direct _ | .check _ _ | .cleanup _ _ => {}
  | .store _ _ _ | .memset _ | .caseResult _ _ => ()
  | .compare _ _ _ _ => 0
  | .send _ _ => true
  | .receive _ _ => none

/-- The first worker is started and runs.  When the second one is forked, it has the first socket of
the coordinator as well, and closes it, while the coordinator still has both ends of the new
pair. -/
def startTwo : List MachineStep :=
  List.replicate 7 (.call (started (3, 4) 100)) ++ [.closes 0, .executes 0] ++
    List.replicate 6 (.call (started (4, 5) 101)) ++ [.closes 1, .closes 1, .executes 1]

theorem descriptors_kept_startTwo :
    (Transition.replay (machine twoWorkers) startTwo).Bookkeeping :=
  descriptors_kept (Transition.reachable_replay startTwo)

example : ((Transition.replay (machine twoWorkers) startTwo).child 1).files 3 = none ∧
    ((Transition.replay (machine twoWorkers) startTwo).child 1).files 5 = some ⟨1, true⟩ ∧
      (books (Transition.replay (machine twoWorkers) startTwo).trace).files 5 = some ⟨1, true⟩ :=
  ⟨rfl, rfl, rfl⟩

end SharingProbe.MultiShare
