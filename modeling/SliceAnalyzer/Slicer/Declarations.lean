import SliceAnalyzer.Slicer.Driver

/-!
# Declarations and definitions

Where the slicer takes a function whether it has a body or not: the stubs, and the `.func` files.
-/

namespace SliceAnalyzer

section

variable {P : Program}

theorem forwardSlicingFunction_of_bodiless {F : Func} (bodiless : (P.function F).blocks = [])
    (s : Slicing) : forwardSlicingFunction P s F = some s := by
  rw [forwardSlicingFunction, bodiless]
  rfl

theorem forwardSlicingFunctionStub_of_declaration {s : Slicing} {funcName : String} {F : Func}
    (found : s.ctx.modules.findSome? (getFunction P · funcName) = some F)
    (bodiless : (P.function F).blocks = []) : forwardSlicingFunctionStub P s funcName = some s := by
  simp only [forwardSlicingFunctionStub, found]
  exact forwardSlicingFunction_of_bodiless bodiless s

theorem mem_visitedFuncsWithDepth (ctx : GlobalContext) (Fs : List Func) (g : Func) :
    g ∈ Fs.foldl (fun visited F => forwardSlicingFunctionWithDepth P ctx F 1 visited) [] ↔
      ∃ F ∈ Fs, g = F ∨ ∃ I ∈ P.instructions F, (P.inst I).call.isSome ∧ g ∈ ctx.callees I := by
  rw [foldl_iff_of_grow _ (fun _ : List Func => True) (g ∈ ·)
    (fun F => g = F ∨ ∃ I ∈ P.instructions F, (P.inst I).call.isSome ∧ g ∈ ctx.callees I)
    (fun _ _ _ => trivial) (fun visited F _ => mem_forwardSlicingFunctionWithDepth_one ctx F visited g)
    _ _ trivial]
  simp

end

/-- `target` calls `helper`, which `util.bc` defines as weak; `harness.bc` is the harness. -/
def harnessArena : Arena where
  functions := [
    { name := "target", blocks := [⟨0⟩], subprogram := some ⟨2, "main.c", "/src"⟩,
      moduleIdentifier := "main.bc" },
    { name := "helper", moduleIdentifier := "main.bc" },
    { name := "LLVMFuzzerTestOneInput", moduleIdentifier := "main.bc" },
    { name := "helper", linkage := .weakAnyLinkage, blocks := [⟨1⟩],
      subprogram := some ⟨7, "util.c", "/src"⟩, moduleIdentifier := "util.bc" },
    { name := "LLVMFuzzerTestOneInput", blocks := [⟨2⟩],
      subprogram := some ⟨5, "harness.c", "/src"⟩, moduleIdentifier := "harness.bc" }]
  blocks := [{ parent := ⟨0⟩, insts := [⟨0⟩] }, { parent := ⟨3⟩ }, { parent := ⟨4⟩ }]
  insts := [{ parent := ⟨0⟩, call := some { calledFunction := some ⟨1⟩ } }]

def harnessProgram : Program := ⟨harnessArena, by decide⟩

def harnessInputs : List (Option Module) :=
  [some ⟨"main.bc", [⟨0⟩, ⟨1⟩, ⟨2⟩]⟩, some ⟨"util.bc", [⟨3⟩]⟩, some ⟨"harness.bc", [⟨4⟩]⟩]

theorem stub_seeds_declaration : ∃ ctx,
    callGraphPhase harnessProgram 1 harnessInputs = some ctx ∧
    (∃ M ∈ ctx.modules, (⟨4⟩ : Func) ∈ M.functions) ∧
    (harnessProgram.function ⟨4⟩).name = "LLVMFuzzerTestOneInput" ∧
    (harnessProgram.function ⟨4⟩).blocks = [⟨2⟩] ∧
    forwardSlicingFunctionStub harnessProgram (Slicing.new ctx) "LLVMFuzzerTestOneInput" =
      some (Slicing.new ctx) ∧
    ∃ s, forwardSlicingFunction harnessProgram (Slicing.new ctx) ⟨4⟩ = some s ∧
      s.verboseBB = [⟨2⟩] :=
  ⟨_, rfl, by decide, rfl, rfl, forwardSlicingFunctionStub_of_declaration (F := ⟨2⟩) rfl rfl,
    exists_eq_some_of_any (by decide)⟩

theorem func_lines_verbose (P : Program) (fuel : Nat) (inputs : List (Option Module))
    (ctx : GlobalContext) (phase : callGraphPhase P (fuel + 1) inputs = some ctx)
    (calls : List SliceCall) :
    ∃ files, (runCalls P (cacheAllLLVMObjects P (Slicing.new ctx)) calls >>= fun s =>
      (dump P s).map Prod.snd) = some files ∧ ∀ line ∈ files.func,
        line ∈ files.funcVerbose ∨ ∃ F, (P.function F).blocks = [] ∧ funcLine P F = line := by
  obtain ⟨ctx', phased, result⟩ := callGraphPhase_result P fuel inputs
  obtain rfl : ctx' = ctx := Option.some.inj (phased.symm.trans phase)
  obtain ⟨s, ran, touched, slice⟩ := runCalls_forward result.callSiteBlocks calls
    (cacheAllLLVMObjects P (Slicing.new ctx')) [] (.refl _) (.fresh rfl rfl)
  obtain ⟨s', dumped, frame, slice'⟩ := dump_slice (slice.of_callees touched.callees)
  obtain ⟨fVisitedF, verboseBB, rfl, -, -⟩ := frame
  refine ⟨sliceFiles P { s with fVisitedF, verboseBB }, by
    simp only [ran, dumped, Option.bind_eq_bind, Option.some_bind, Option.map_some'],
    fun line member => ?_⟩
  have walked : ∀ F, (F ∈ [] ++ calls.filterMap (SliceCall.forwardRoot P ctx') ++ s.verboseF ∨
      F ∈ fVisitedF) → funcLine P F ∈ (sliceFiles P { s with fVisitedF, verboseBB }).funcVerbose ∨
        ∃ G, (P.function G).blocks = [] ∧ funcLine P G = funcLine P F := by
    intro F owner
    cases blocks : (P.function F).blocks with
    | nil => exact .inr ⟨F, blocks, rfl⟩
    | cons b _ =>
        have block : b ∈ (P.function F).blocks := by simp [blocks]
        refine .inl (List.mem_map.2 ⟨b, List.mem_append_right _ ((slice'.verboseBB b).2
          ⟨F, owner, block⟩), by rw [P.block_parent block]⟩)
  simp only [sliceFiles, List.mem_map, List.mem_append, mem_visitedFuncsWithDepth] at member
  obtain ⟨F, (verbose | ⟨G, verbose, rfl | ⟨I, inst, call, callee⟩⟩) | ⟨b, visited, rfl⟩, rfl⟩ :=
    member
  · exact walked F (.inl (List.mem_append_right _ verbose))
  · exact walked F (.inl (List.mem_append_right _ verbose))
  · obtain ⟨b, block, inst⟩ := P.mem_instructions.1 inst
    have step : CalleeStep P s.ctx G F := ⟨b, block, I, inst, call, callee⟩
    exact walked F (.inr (slice'.closed G F (.inl (List.mem_append_right _ verbose)) step))
  · exact .inl (List.mem_map.2 ⟨b, List.mem_append_left _ visited, rfl⟩)

theorem func_lines_verbose_harness : ∃ ctx,
    callGraphPhase harnessProgram 1 harnessInputs = some ctx ∧
    ∃ files, (runCalls harnessProgram (cacheAllLLVMObjects harnessProgram (Slicing.new ctx))
      (targetCalls ⟨0⟩) >>= fun s => (dump harnessProgram s).map Prod.snd) = some files ∧
      ∀ line ∈ files.func, line ∈ files.funcVerbose ∨
        ∃ F, (harnessProgram.function F).blocks = [] ∧ funcLine harnessProgram F = line :=
  let ⟨ctx, phase, _⟩ := callGraphPhase_result harnessProgram 0 harnessInputs
  ⟨ctx, phase, func_lines_verbose harnessProgram 0 harnessInputs ctx phase _⟩

theorem func_name_blacklisted : ∃ ctx,
    callGraphPhase harnessProgram 1 harnessInputs = some ctx ∧
    ∃ files, sliceTarget harnessProgram ctx ⟨0⟩ = some files ∧
      "helper\n" ∈ files.func ∧ "helper\n" ∉ files.funcVerbose ∧ "helper\n" ∈ files.funcBlacklist :=
  ⟨_, rfl, exists_eq_some_of_any (by decide)⟩

end SliceAnalyzer
