import Mathlib.Data.List.Basic
import SharingProbe.Library.Ensures

/-!
# Command lines of options and values

A command line is read from left to right in pairs, an option and its value, into what has been
read so far.  One option has no value and ends the reading.

A command line is accepted if it is a list of such pairs, and every option takes its value
(`read_eq_run_iff`); so what every option keeps holds of the result (`read_invariant`).
-/

namespace CommandLine

open Fallible

universe u

variable {O : Type u}

/-- What a command line asks for. -/
inductive Read (O : Type u) where
  | help
  | run (opt : O)

/-- The arguments of options with their values. -/
def arguments (options : List (String × String)) : List String :=
  options.flatMap fun option => [option.1, option.2]

@[simp] theorem arguments_nil : arguments [] = [] := rfl

@[simp] theorem arguments_cons (option : String × String) (options : List (String × String)) :
    arguments (option :: options) = option.1 :: option.2 :: arguments options := rfl

section

variable (help : String) (missing : String → String) (set : O → String → String → Except String O)

/-- The argument loop. -/
def read (opt : O) : List String → Except String (Read O)
  | [] => .ok (.run opt)
  | [key] => if key = help then .ok .help else .error (missing key)
  | key :: value :: rest =>
      if key = help then .ok .help else set opt key value >>= fun opt => read opt rest

/-- The loop over the options. -/
def setAll (opt : O) (options : List (String × String)) : Except String O :=
  options.foldlM (fun opt option => set opt option.1 option.2) opt

end

variable {help : String} {missing : String → String} {set : O → String → String → Except String O}
  {opt opt' : O} {options : List (String × String)} {args : List String}

theorem setAll_cons {option : String × String} : setAll set opt (option :: options) =
    set opt option.1 option.2 >>= fun opt => setAll set opt options := List.foldlM_cons

theorem setAll_invariant {I : O → Prop}
    (hset : ∀ opt key value, I opt → Ensures I (set opt key value))
    (hopt : I opt) : Ensures I (setAll set opt options) := by
  induction options generalizing opt with
  | nil => exact ensures_ok hopt
  | cons option options ih =>
      rw [setAll_cons]
      exact (hset opt option.1 option.2 hopt).bind fun _ hnext => ih hnext

/-- **What is accepted.**  The induction follows the pairs of arguments. -/
theorem read_eq_run_iff : read help missing set opt args = .ok (.run opt') ↔
    ∃ options, args = arguments options ∧ (∀ option ∈ options, option.1 ≠ help) ∧
      setAll set opt options = .ok opt' := by
  induction opt, args using read.induct help with
  | case1 opt =>
      constructor
      · intro h
        cases h
        exact ⟨[], rfl, by simp, rfl⟩
      · rintro ⟨options, hargs, -, hset⟩
        cases options with
        | nil =>
            cases hset
            rfl
        | cons option options => simp at hargs
  -- an argument without a value
  | case2 opt =>
      constructor
      · intro h
        simp [read] at h
      · rintro ⟨options, hargs, -, -⟩
        cases options with
        | nil => simp at hargs
        | cons option options => simp at hargs
  | case3 opt key hkey =>
      constructor
      · intro h
        simp [read, hkey] at h
      · rintro ⟨options, hargs, -, -⟩
        cases options with
        | nil => simp at hargs
        | cons option options => simp at hargs
  -- the option that asks for help is not set
  | case4 opt value rest =>
      constructor
      · intro h
        simp [read] at h
      · rintro ⟨options, hargs, hhelp, -⟩
        cases options with
        | nil => simp at hargs
        | cons option options =>
            simp only [arguments_cons, List.cons.injEq] at hargs
            exact absurd hargs.1.symm (hhelp option List.mem_cons_self)
  -- one option is set, and the rest is read with it
  | case5 opt key value rest hkey ih =>
      rw [read, if_neg hkey, bind_eq_ok_iff]
      constructor
      · rintro ⟨next, hnext, hrest⟩
        obtain ⟨options, hargs, hhelp, hset⟩ := (ih next).mp hrest
        refine ⟨(key, value) :: options, by rw [hargs, arguments_cons], ?_, ?_⟩
        · exact List.forall_mem_cons.mpr ⟨hkey, hhelp⟩
        · rw [setAll_cons, hnext]
          exact hset
      · rintro ⟨options, hargs, hhelp, hset⟩
        cases options with
        | nil => simp at hargs
        | cons option options =>
            simp only [arguments_cons, List.cons.injEq] at hargs
            obtain ⟨rfl, rfl, rfl⟩ := hargs
            rw [setAll_cons] at hset
            obtain ⟨next, hnext, hrest⟩ := bind_eq_ok_iff.mp hset
            exact ⟨next, hnext, (ih next).mpr
              ⟨options, rfl, (List.forall_mem_cons.mp hhelp).2, hrest⟩⟩

/-- What every option keeps holds of what a command line asks for. -/
theorem read_invariant {I : O → Prop}
    (hset : ∀ opt key value, I opt → Ensures I (set opt key value))
    (hopt : I opt) (h : read help missing set opt args = .ok (.run opt')) : I opt' := by
  obtain ⟨options, -, -, hall⟩ := read_eq_run_iff.mp h
  exact setAll_invariant hset hopt opt' hall

end CommandLine
