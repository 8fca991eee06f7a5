import Mathlib.Data.List.Infix

/-!
# The compiler wrapper `sancc`

The environment, `realpath` and how each compiler process ends are taken as given.
-/

namespace SliceAnalyzer.Sancc

/-- What `sancc` reads of its process: the environment variables and what `realpath` resolves. -/
structure Env where
  getenv : List Char → Option (List Char)
  realpath : List Char → Option (List Char)

/-- How a compiler process ends, as `execute_command` sees it. -/
inductive ChildStatus where
  | forkFailed
  | execFailed
  | exited (code : Fin 256)
  | signaled
  | waitFailed
  deriving DecidableEq

/-- `execute_command(compiler_path, argv)`. -/
def executeCommand : ChildStatus → Int
  | .forkFailed => -1
  | .execFailed => 1
  | .exited code => code.val
  | .signaled => -1
  | .waitFailed => -1

/-- The arguments the instrumented compile drops. -/
def dropped (arg : List Char) : Bool :=
  "-O".toList.isPrefixOf arg || "-g".toList.isPrefixOf arg ||
    ("-fsanitize=".toList.isPrefixOf arg && !"-fsanitize=fuzzer".toList.isPrefixOf arg) ||
    "-Werror".toList.isPrefixOf arg

/-- `filtered_argv` in `build`. -/
def filteredArgv (orig : List (List Char)) : List (List Char) := orig.filter (!dropped ·)

/-- `no_werror_argv` in `build`. -/
def noWerrorArgv (orig : List (List Char)) : List (List Char) :=
  orig.filter (!"-Werror".toList.isPrefixOf ·)

/-- `path.substr(path.find_last_of('/') + 1)`: the part after the last `/`, or all of it. -/
def baseName (path : List Char) : List Char := (path.reverse.takeWhile (· != '/')).reverse

/-- `compiler_settings[compiler_name]`, for the names the table has. -/
def compilerSettings (llvmPass : List Char) (name : List Char) : Option (List (List Char)) :=
  if name = "gcc".toList ∨ name = "g++".toList then
    some ["-O0".toList, "-g".toList, "-fsanitize-coverage=trace-pc".toList]
  else if name = "clang".toList ∨ name = "clang++".toList then
    some ["-O2".toList, "-g".toList, "-fpass-plugin=".toList ++ llvmPass, "-lpthread".toList]
  else none

/-- `LLVM_PASS_DIR + "/writebc.so"`. -/
def defaultPass : List Char := "/usr/local/lib//writebc.so".toList

/-- How the wrapper ends: with an exit status, or by an uncaught `std::runtime_error`. -/
inductive Outcome where
  | exit (status : Nat)
  | abort (message : List Char)
  deriving DecidableEq

/-- A command the wrapper runs: the compiler's path and its arguments. -/
abbrev Command := List Char × List (List Char)

/-- `build(compiler_path, orig_argv)`: the commands run, and how it ends (`none`: returns). -/
def build (env : Env) (child : Command → ChildStatus) (compilerPath : List Char)
    (orig : List (List Char)) : List Command × Option Outcome :=
  match env.realpath defaultPass with
  | none => ([], some (.abort ("[sancc] Failed to resolve real path for ".toList ++ defaultPass)))
  | some resolved =>
      match compilerSettings ((env.getenv "LLVM_PASS".toList).getD resolved) (baseName compilerPath) with
      | none => ([], some (.abort "[sancc] Original compiler does not support".toList))
      | some settings =>
          let first : Command := (compilerPath, filteredArgv orig ++ settings)
          if executeCommand (child first) = 0 then ([first], none)
          else
            let second : Command := (compilerPath, noWerrorArgv orig)
            let result := executeCommand (child second)
            if result = 0 then ([first, second], none)
            else ([first, second], some (.exit (result % 256).toNat))

/-- `compiler_mapping` in `main`, in the order it is searched. -/
def compilerMapping : List (List Char × List Char) :=
  [("clang++".toList, "BAKCXX".toList), ("clang".toList, "BAKCC".toList),
    ("g++".toList, "BAKCXX".toList), ("gcc".toList, "BAKCC".toList)]

/-- `main(argc, argv)`: the commands run and how the process ends. -/
def main (env : Env) (child : Command → ChildStatus) (argv0 : List Char) (args : List (List Char)) :
    List Command × Outcome :=
  match compilerMapping.find? (fun entry => decide (entry.1 <:+: baseName argv0)) with
  | none => ([], .exit 1)
  | some (key, var) =>
      let built := build env child ((env.getenv var).getD key) args
      (built.1, built.2.getD (.exit 0))

theorem executeCommand_exit_ne_zero (status : ChildStatus) (failed : executeCommand status ≠ 0) :
    (executeCommand status % 256).toNat ≠ 0 := by
  cases status with
  | exited code =>
      have bound := code.isLt
      simp only [executeCommand] at failed ⊢
      omega
  | _ => simp [executeCommand]

theorem build_spec (env : Env) (child : Command → ChildStatus) (compilerPath : List Char)
    (orig : List (List Char)) :
    (build env child compilerPath orig).1.length ≤ 2 ∧
      ((build env child compilerPath orig).2 = none ↔
        ∃ cmd ∈ (build env child compilerPath orig).1, executeCommand (child cmd) = 0) ∧
      (build env child compilerPath orig).2 ≠ some (.exit 0) := by
  unfold build
  split
  · simp
  · split
    · simp
    · dsimp only
      split
      · rename_i compiled
        simp [compiled]
      · rename_i failed
        split
        · rename_i compiled
          simp [compiled]
        · rename_i failed'
          simp only [List.length_cons, List.length_nil, List.mem_cons, List.mem_nil_iff, or_false,
            exists_eq_or_imp, exists_eq_left, ne_eq, Option.some.injEq, Outcome.exit.injEq]
          exact ⟨by omega, iff_of_false (by simp) (by tauto), executeCommand_exit_ne_zero _ failed'⟩

theorem main_exit_zero_iff (env : Env) (child : Command → ChildStatus) (argv0 : List Char)
    (args : List (List Char)) :
    (main env child argv0 args).1.length ≤ 2 ∧
      ((main env child argv0 args).2 = .exit 0 ↔
        ∃ cmd ∈ (main env child argv0 args).1, executeCommand (child cmd) = 0) := by
  unfold main
  split
  · simp
  · rename_i key var _
    obtain ⟨few, returned, notZero⟩ := build_spec env child ((env.getenv var).getD key) args
    refine ⟨few, Iff.trans ?_ returned⟩
    cases ended : (build env child ((env.getenv var).getD key) args).2 with
    | none => simp [ended]
    | some outcome =>
        rw [ended] at notZero
        simpa [ended] using notZero

end SliceAnalyzer.Sancc
