import SliceAnalyzer.Slicer.Forward
import SliceAnalyzer.Paths
import SliceAnalyzer.CallGraph.Dump

/-!
# The output files of `dump`

Each file is a `std::set` of lines, modelled as the list of its lines.
-/

namespace SliceAnalyzer

/-- The five files of `Slicing::dump`, each as the list of its lines. -/
structure SliceFiles where
  slice : List String
  sliceVerbose : List String
  func : List String
  funcVerbose : List String
  funcBlacklist : List String

section

variable (P : Program)

/-- The line of a function in the `.func` files: its name and a newline. -/
def funcLine (F : Func) : String := (P.function F).name ++ "\n"

/-- The `block:` line `Slicing::dump` writes for a visited block. -/
def blockLine (BB : BasicBlock) : Option String :=
  ((P.block BB).insts.findSome? fun I =>
    (P.inst I).debugLoc.bind fun loc => if loc.line = 0 then none else some loc).map fun loc =>
      let file := if hasDotDot loc.filename.toList then normalizePath loc.filename else loc.filename
      "block:" ++ loc.directory ++ "/" ++ file ++ ":" ++ toString loc.line ++ ":100" ++ "\n"

/-- `Slicing::cacheAllLLVMObjects`, of which `dump` reads `fullFunc`. -/
def cacheAllLLVMObjects (s : Slicing) : Slicing :=
  { s with fullFunc := (s.ctx.modules.flatMap fun M =>
      M.functions.filter fun F => (P.function F).subprogram.isSome).map (funcLine P) }

/-- The five files `Slicing::dump` writes from the state its forward walks leave. -/
def sliceFiles (s : Slicing) : SliceFiles :=
  let visitedFuncsWithDepth := s.verboseF.foldl (fun visited F =>
    forwardSlicingFunctionWithDepth P s.ctx F 1 visited) []
  let blockLines := s.visitedBB.filterMap (blockLine P)
  let func := (s.verboseF ++ visitedFuncsWithDepth ++
    s.visitedBB.map fun BB => (P.block BB).parent).map (funcLine P)
  let funcVerbose := (s.visitedBB ++ s.verboseBB).map fun BB => funcLine P (P.block BB).parent
  { slice := blockLines, sliceVerbose := blockLines, func, funcVerbose,
    funcBlacklist := s.fullFunc.filter (· ∉ funcVerbose) }

/-- `Slicing::dump`: the forward walks from `verboseF`, then the five files. -/
def dump (s : Slicing) : Option (Slicing × SliceFiles) :=
  (s.verboseF.foldlM (forwardSlicingFunction P) s).map fun s => (s, sliceFiles P s)

variable {P}

theorem dump_spec (s : Slicing) :
    ∃ s', dump P s = some (s', sliceFiles P s') ∧ ForwardFrame s s' := by
  obtain ⟨s', walked, frame⟩ := foldlM_inv (ForwardFrame s) s.verboseF
    (fun t F _ framed => by
      obtain ⟨t', walked, frame⟩ := forwardSlicingFunction_spec (P := P) t F
      exact ⟨t', walked, framed.trans frame⟩) s (ForwardFrame.refl s)
  exact ⟨s', by rw [dump, walked]; rfl, frame⟩

theorem dump_slice {roots : List Func} {s : Slicing} (prior : ForwardSlice P s.ctx roots s) :
    ∃ s', dump P s = some (s', sliceFiles P s') ∧ ForwardFrame s s' ∧
      ForwardSlice P s.ctx (roots ++ s.verboseF) s' := by
  suffices walks : ∀ (Fs : List Func) (t : Slicing) (roots : List Func), t.ctx = s.ctx →
      ForwardSlice P s.ctx roots t → ∃ t', Fs.foldlM (forwardSlicingFunction P) t = some t' ∧
        ForwardFrame t t' ∧ ForwardSlice P s.ctx (roots ++ Fs) t' by
    obtain ⟨s', walked, frame, slice⟩ := walks s.verboseF s roots rfl prior
    exact ⟨s', by rw [dump, walked]; rfl, frame, slice⟩
  intro Fs
  induction Fs with
  | nil => exact fun t roots _ slice => ⟨t, rfl, .refl t, by simpa using slice⟩
  | cons F Fs walks =>
      intro t roots same slice
      obtain ⟨t₁, walked, frame, slice₁⟩ := forwardSlicingFunction_slice (same ▸ slice) F
      obtain ⟨t', rest, frame', slice'⟩ := walks t₁ _ (frame.ctx.trans same) (same ▸ slice₁)
      exact ⟨t', by rw [List.foldlM_cons, walked]; exact rest, frame.trans frame',
        by simpa using slice'⟩

end

end SliceAnalyzer
