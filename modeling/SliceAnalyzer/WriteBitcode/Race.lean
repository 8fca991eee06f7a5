import SliceAnalyzer.WriteBitcode.Pass
import Mathlib.Data.List.FinRange

/-!
# Concurrent compiles writing one bitcode file

One path through any interleaving of the steps of `writeModuleBitcodeToFile` in several compiles.
-/

namespace SliceAnalyzer.WriteBitcode

/-- Where a compile is in `writeModuleBitcodeToFile`. -/
inductive Pc where
  /-- Before `llvm::sys::fs::exists(path)`. -/
  | start
  /-- The path did not exist. -/
  | checked
  /-- `lockFile` returned a locked descriptor. -/
  | locked
  /-- `WriteBitcodeToFile` has written the bitcode. -/
  | written
  /-- Returned. -/
  | finished
  deriving DecidableEq

/-- The shared state of `n` compiles writing one path, with the compiles that wrote it. -/
structure World (n : Nat) where
  file : Option String
  holder : Option (Fin n)
  pc : Fin n → Pc
  writers : List (Fin n)

/-- Every compile before its check, nothing at the path, and no lock held. -/
def World.initial (n : Nat) : World n := ⟨none, none, fun _ => .start, []⟩

section

variable {n : Nat} (bitcode : Fin n → String)

/-- One step of compile `i`, which writes `bitcode i`. -/
def step (w : World n) (i : Fin n) : World n :=
  match w.pc i with
  | .start =>
      { w with pc := Function.update w.pc i (if w.file.isSome then .finished else .checked) }
  | .checked =>
      match w.holder with
      | none =>
          { w with file := some (w.file.getD ""), holder := some i,
                   pc := Function.update w.pc i .locked }
      | some _ => { w with file := some (w.file.getD ""), pc := Function.update w.pc i .finished }
  | .locked =>
      { w with file := some (bitcode i), pc := Function.update w.pc i .written,
               writers := w.writers ++ [i] }
  | .written => { w with holder := none, pc := Function.update w.pc i .finished }
  | .finished => w

/-- The state after the compiles take the steps of `schedule`, in order. -/
def runSchedule (w : World n) (schedule : List (Fin n)) : World n :=
  schedule.foldl (step bitcode) w

theorem runSchedule_append (w : World n) (first later : List (Fin n)) :
    runSchedule bitcode w (first ++ later) = runSchedule bitcode (runSchedule bitcode w first) later :=
  List.foldl_append _ _ _ _

/-! ## The lock is exclusive -/

/-- The lock is held exactly by the compile between `lockFile` and `unlockFile`. -/
def Exclusive (w : World n) : Prop :=
  ∀ i, (w.pc i = .locked ∨ w.pc i = .written) ↔ w.holder = some i

theorem exclusive_initial : Exclusive (World.initial n) := fun i => by simp [World.initial]

theorem step_exclusive {w : World n} (exclusive : Exclusive w) (i : Fin n) :
    Exclusive (step bitcode w i) := by
  have own := exclusive i
  intro j
  unfold step
  split
  · rename_i started
    by_cases same : j = i
    · subst same
      simp only [Function.update_same]
      split <;> simp_all
    · simpa [Function.update_noteq same] using exclusive j
  · rename_i checking
    split
    · rename_i free
      by_cases same : j = i
      · subst same
        simp
      · have other := exclusive j
        simp_all [Function.update_noteq same, Ne.symm same]
    · rename_i k held
      by_cases same : j = i
      · subst same
        simp_all
      · simpa [Function.update_noteq same] using exclusive j
  · rename_i writing
    by_cases same : j = i
    · subst same
      simp_all
    · simpa [Function.update_noteq same] using exclusive j
  · rename_i wrote
    by_cases same : j = i
    · subst same
      simp
    · have other := exclusive j
      have held : w.holder = some i := own.1 (.inr wrote)
      simp_all [Function.update_noteq same, Ne.symm same]
  · exact exclusive j

theorem runSchedule_exclusive {w : World n} (exclusive : Exclusive w) (schedule : List (Fin n)) :
    Exclusive (runSchedule bitcode w schedule) := by
  induction schedule generalizing w with
  | nil => exact exclusive
  | cons i schedule ih => exact ih (step_exclusive bitcode exclusive i)

/-! ## The checks before the lock -/

theorem runSchedule_checks : ∀ (l : List (Fin n)) (w : World n), l.Nodup → w.file = none →
    (∀ i ∈ l, w.pc i = .start) →
    (runSchedule bitcode w l).file = none ∧ (runSchedule bitcode w l).holder = w.holder ∧
      (runSchedule bitcode w l).writers = w.writers ∧
      (∀ i ∈ l, (runSchedule bitcode w l).pc i = .checked) ∧
      ∀ j ∉ l, (runSchedule bitcode w l).pc j = w.pc j
  | [], w, _, absent, _ => ⟨absent, rfl, rfl, by simp, fun _ _ => rfl⟩
  | i :: l, w, nodup, absent, started => by
      obtain ⟨fresh, nodup⟩ := List.nodup_cons.1 nodup
      have stepped : step bitcode w i = { w with pc := Function.update w.pc i .checked } := by
        simp [step, started i (.head _), absent]
      have later : ∀ j ∈ l, (step bitcode w i).pc j = .start := fun j member => by
        rw [stepped]
        dsimp only
        rw [Function.update_noteq (ne_of_mem_of_not_mem member fresh)]
        exact started j (.tail _ member)
      obtain ⟨file, holder, writers, checked, others⟩ :=
        runSchedule_checks l (step bitcode w i) nodup (by rw [stepped]; exact absent) later
      refine ⟨file, by rw [runSchedule, List.foldl_cons, ← runSchedule, holder, stepped],
        by rw [runSchedule, List.foldl_cons, ← runSchedule, writers, stepped], fun j member => ?_,
        fun j outside => ?_⟩
      · rw [runSchedule, List.foldl_cons, ← runSchedule]
        rcases List.mem_cons.1 member with rfl | member
        · rw [others j fresh, stepped]
          simp
        · exact checked j member
      · rw [runSchedule, List.foldl_cons, ← runSchedule, others j fun member => outside (.tail _ member),
          stepped]
        exact Function.update_noteq (List.ne_of_not_mem_cons outside) _ _

theorem runSchedule_turn (w : World n) {i : Fin n} (checked : w.pc i = .checked)
    (free : w.holder = none) :
    runSchedule bitcode w [i, i, i] =
      { file := some (bitcode i), holder := none, pc := Function.update w.pc i .finished,
        writers := w.writers ++ [i] } := by
  simp [runSchedule, step, checked, free]

theorem runSchedule_turns : ∀ (l : List (Fin n)) (w : World n), l.Nodup → w.holder = none →
    (∀ i ∈ l, w.pc i = .checked) →
    (runSchedule bitcode w (l.flatMap fun i => [i, i, i])).writers = w.writers ++ l ∧
      (runSchedule bitcode w (l.flatMap fun i => [i, i, i])).file = (l.getLast?.map bitcode).or w.file
  | [], w, _, _, _ => by simp [runSchedule]
  | i :: l, w, nodup, free, checked => by
      obtain ⟨fresh, nodup⟩ := List.nodup_cons.1 nodup
      have turn := runSchedule_turn bitcode w (checked i (.head _)) free
      rw [List.flatMap_cons, runSchedule_append, turn]
      obtain ⟨writers, file⟩ := runSchedule_turns l
        ⟨some (bitcode i), none, Function.update w.pc i .finished, w.writers ++ [i]⟩ nodup rfl
        fun j member => by
          dsimp only
          rw [Function.update_noteq (ne_of_mem_of_not_mem member fresh)]
          exact checked j (.tail _ member)
      refine ⟨by simp [writers], ?_⟩
      rw [file]
      cases last : l.getLast? with
      | none => simp [List.getLast?_eq_none_iff.1 last]
      | some k => simp [List.getLast?_cons, last]

/-! ## One compile after another -/

theorem runSchedule_skips (w : World n) {i : Fin n} (started : w.pc i = .start)
    (present : w.file.isSome = true) :
    runSchedule bitcode w [i, i, i, i] = { w with pc := Function.update w.pc i .finished } := by
  simp [runSchedule, step, started, present]

theorem runAlone_eq_writeModuleBitcodeToFile (w : World n) {i : Fin n} (started : w.pc i = .start)
    (free : w.holder = none) (fs : FileSystem) (M : Module) (path : List String)
    (nonroot : normal path ≠ []) (inDir : fs.entries (normal path).dropLast = some .dir)
    (same : w.file.map Entry.file = fs.lookup path) (own : bitcode i = M.bitcode) :
    (runSchedule bitcode w [i, i, i, i]).file.map Entry.file =
      (writeModuleBitcodeToFile fs M path).lookup path := by
  cases file : w.file with
  | some c =>
      rw [file] at same
      rw [runSchedule_skips bitcode w started (by simp [file]), writeModuleBitcodeToFile,
        if_pos (by simp [FileSystem.fileExists, ← same]), ← same, file]
  | none =>
      rw [file] at same
      obtain ⟨fs', written⟩ := fs.write_of_fresh M.bitcode nonroot inDir same.symm
      have run : (runSchedule bitcode w [i, i, i, i]).file = some (bitcode i) := by
        simp [runSchedule, step, started, file, free]
      rw [run, writeModuleBitcodeToFile, if_neg (by simp [FileSystem.fileExists, ← same]), written]
      simp [FileSystem.lookup, FileSystem.write_entries written, own]

theorem every_compile_writes (n : Nat) (bitcode : Fin n → String) :
    (∀ schedule, Exclusive (runSchedule bitcode (World.initial n) schedule)) ∧
    (∀ i (fs : FileSystem) (M : Module) path, normal path ≠ [] →
      fs.entries (normal path).dropLast = some .dir → fs.lookup path = none →
      bitcode i = M.bitcode → (runSchedule bitcode (World.initial n) [i, i, i, i]).file.map Entry.file =
        (writeModuleBitcodeToFile fs M path).lookup path) ∧
    ∃ schedule, (runSchedule bitcode (World.initial n) schedule).writers = List.finRange n ∧
      (runSchedule bitcode (World.initial n) schedule).file = (List.finRange n).getLast?.map bitcode := by
  refine ⟨runSchedule_exclusive bitcode exclusive_initial,
    fun i fs M path nonroot inDir absent own => runAlone_eq_writeModuleBitcodeToFile bitcode _ rfl rfl
      fs M path nonroot inDir absent.symm own, ?_⟩
  obtain ⟨file, holder, writers, checked, -⟩ := runSchedule_checks bitcode (List.finRange n)
    (World.initial n) (List.nodup_finRange n) rfl fun _ _ => rfl
  obtain ⟨writers', file'⟩ := runSchedule_turns bitcode (List.finRange n) _ (List.nodup_finRange n)
    holder checked
  refine ⟨List.finRange n ++ (List.finRange n).flatMap fun i => [i, i, i], ?_, ?_⟩
  · rw [runSchedule_append, writers', writers]
    rfl
  · rw [runSchedule_append, file', file]
    simp

end

end SliceAnalyzer.WriteBitcode
