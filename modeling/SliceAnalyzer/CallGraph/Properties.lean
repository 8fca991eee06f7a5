import SliceAnalyzer.CallGraph.Phase

/-!
# Properties of the call graph

What the registry after the call-graph phase says about callers, indirect calls, declarations,
variadic candidates and `.init.text`.
-/

namespace SliceAnalyzer

section

variable {P : Program} {inputs : List (Option Module)} {ctx : GlobalContext}

theorem PhaseResult.site_of_mem_callees (result : PhaseResult P inputs ctx) {s : Inst} {f : Func}
    (callee : f ∈ ctx.callees s) :
    InModules P (loaded inputs) s ∧
      ∃ c, (P.inst s).call = some c ∧ isDbgInfoIntrinsic P c = false := by
  obtain ⟨c, ⟨⟨M, module, F, function, -, mem⟩, call, -, intrinsic⟩, -⟩ :=
    (result.mem_callees s f).1 callee
  refine ⟨⟨M, module, F, function, mem⟩, c, call, Bool.eq_false_iff.2 fun debug => ?_⟩
  rw [callsIntrinsic_of_isDbgInfoIntrinsic debug] at intrinsic
  cases intrinsic

end

section

variable (P : Program)

theorem callers_eq_inverse_callees (fuel : Nat) (inputs : List (Option Module)) :
    ∃ ctx, callGraphPhase P (fuel + 1) inputs = some ctx ∧
      (∀ s f, s ∈ ctx.callers.get f ↔ f ∈ ctx.callees s) ∧
      ∀ s f, f ∈ ctx.callees s → InModules P (loaded inputs) s ∧
        ∃ c, (P.inst s).call = some c ∧ isDbgInfoIntrinsic P c = false := by
  obtain ⟨ctx, phase, result⟩ := callGraphPhase_result P fuel inputs
  refine ⟨ctx, phase, fun s f => ?_, fun _ _ => result.site_of_mem_callees⟩
  rw [result.mem_callers]
  refine ⟨fun linked => linked.2.2, fun callee => ?_⟩
  obtain ⟨inModules, kept⟩ := result.site_of_mem_callees callee
  exact ⟨inModules, kept, callee⟩

theorem exactSignature_mem_callees (fuel : Nat) (inputs : List (Option Module)) {S : Inst}
    {c : CallData} {F : Func}
    (site : ∃ M ∈ loaded inputs, ∃ G ∈ M.functions,
      (P.function G).inInitText = false ∧ S ∈ P.instructions G)
    (call : (P.inst S).call = some c) (indirect : c.calledFunction = none)
    (notAsm : c.isInlineAsm = false) (candidate : ∃ M ∈ loaded inputs, F ∈ M.functions)
    (notInitText : (P.function F).inInitText = false) (taken : (P.function F).hasAddressTaken = true)
    (notIntrinsic : (P.function F).isIntrinsic = false) (fixed : (P.function F).isVarArg = false)
    (ret : (P.function F).returnType = c.type) (params : (P.function F).params = c.argTypes) :
    ∃ ctx, callGraphPhase P (fuel + 1) inputs = some ctx ∧ F ∈ ctx.callees S := by
  obtain ⟨ctx, phase, result⟩ := callGraphPhase_result P fuel inputs
  refine ⟨ctx, phase, (result.mem_callees S F).2 ⟨c, ⟨site, call, notAsm, ?_⟩, ?_⟩⟩
  · simp [callsIntrinsic, indirect]
  · simp only [ResolvesTo, indirect]
    exact ⟨(result.mem_addressTakenFuncs F).2 ⟨candidate, notInitText, taken⟩,
      matchesCall_of_exact fixed notIntrinsic ret params⟩

/-- `main` of `calc.bc` calls through an `i32 (i32, i32)` pointer; `add` has that type. -/
def calcArena : Arena where
  functions := [
    { name := "main", blocks := [⟨0⟩], moduleIdentifier := "calc.bc" },
    { name := "add", hasAddressTaken := true, returnType := .integer 32,
      params := [.integer 32, .integer 32], blocks := [⟨1⟩], moduleIdentifier := "calc.bc" }]
  blocks := [{ parent := ⟨0⟩, insts := [⟨0⟩] }, { parent := ⟨1⟩ }]
  insts := [
    { parent := ⟨0⟩,
      call := some
        { calledFunction := none, type := .integer 32,
          argTypes := [.integer 32, .integer 32] } }]

def calcProgram : Program := ⟨calcArena, by decide⟩

def calcModule : Module := ⟨"calc.bc", [⟨0⟩, ⟨1⟩]⟩

theorem indirect_call_reaches_add :
    ∃ ctx, callGraphPhase calcProgram 1 [some calcModule] = some ctx ∧ ⟨1⟩ ∈ ctx.callees ⟨0⟩ :=
  exactSignature_mem_callees calcProgram 0 [some calcModule]
    (c := { calledFunction := none, type := .integer 32, argTypes := [.integer 32, .integer 32] })
    (by decide) rfl rfl rfl (by decide) (by decide) rfl (by decide) rfl rfl rfl

/-- `a.bc` declares `foo` and `bar` and calls them; `b.bc` defines them, `foo` as weak. -/
def declArena : Arena where
  functions := [
    { name := "main", blocks := [⟨0⟩], moduleIdentifier := "a.bc" },
    { name := "foo", moduleIdentifier := "a.bc" },
    { name := "bar", hasAddressTaken := true, returnType := .integer 32,
      params := [.integer 32, .integer 32], moduleIdentifier := "a.bc" },
    { name := "foo", linkage := .weakAnyLinkage, blocks := [⟨1⟩], moduleIdentifier := "b.bc" },
    { name := "bar", returnType := .integer 32, params := [.integer 32, .integer 32],
      blocks := [⟨2⟩], moduleIdentifier := "b.bc" }]
  blocks := [{ parent := ⟨0⟩, insts := [⟨0⟩, ⟨1⟩] }, { parent := ⟨3⟩ }, { parent := ⟨4⟩ }]
  insts := [
    { parent := ⟨0⟩, call := some { calledFunction := some ⟨1⟩ } },
    { parent := ⟨0⟩,
      call := some
        { calledFunction := none, type := .integer 32,
          argTypes := [.integer 32, .integer 32] } }]

def declProgram : Program := ⟨declArena, by decide⟩

def declInputs : List (Option Module) :=
  [some ⟨"a.bc", [⟨0⟩, ⟨1⟩, ⟨2⟩]⟩, some ⟨"b.bc", [⟨3⟩, ⟨4⟩]⟩]

theorem callees_hold_declarations :
    (declProgram.function ⟨1⟩).hasBody = false ∧ (declProgram.function ⟨2⟩).hasBody = false ∧
    (declProgram.function ⟨3⟩).hasBody = true ∧ (declProgram.function ⟨4⟩).hasBody = true ∧
    (declProgram.function ⟨3⟩).name = (declProgram.function ⟨1⟩).name ∧
    (declProgram.function ⟨4⟩).name = (declProgram.function ⟨2⟩).name ∧
    (declProgram.function ⟨3⟩).linkage = .weakAnyLinkage ∧
    (declProgram.function ⟨4⟩).linkage = .externalLinkage ∧
    ∃ ctx, callGraphPhase declProgram 1 declInputs = some ctx ∧
      ⟨1⟩ ∈ ctx.callees ⟨0⟩ ∧ ⟨3⟩ ∉ ctx.callees ⟨0⟩ ∧ ⟨2⟩ ∈ ctx.callees ⟨1⟩ ∧ ⟨4⟩ ∉ ctx.callees ⟨1⟩ :=
  ⟨rfl, rfl, rfl, rfl, rfl, rfl, rfl, rfl, _, rfl, by decide, by decide, by decide, by decide⟩

/-- `main` of `log.bc` calls through an `i32 ()` pointer; `logf` is variadic and returns `void`. -/
def varArgArena : Arena where
  functions := [
    { name := "main", blocks := [⟨0⟩], moduleIdentifier := "log.bc" },
    { name := "logf", hasAddressTaken := true, isVarArg := true, blocks := [⟨1⟩],
      moduleIdentifier := "log.bc" }]
  blocks := [{ parent := ⟨0⟩, insts := [⟨0⟩] }, { parent := ⟨1⟩ }]
  insts := [{ parent := ⟨0⟩, call := some { calledFunction := none, type := .integer 32 } }]

def varArgProgram : Program := ⟨varArgArena, by decide⟩

def varArgModule : Module := ⟨"log.bc", [⟨0⟩, ⟨1⟩]⟩

theorem varArg_callee_return_mismatch :
    isCompatibleType (varArgProgram.function ⟨1⟩).returnType (.integer 32) = false ∧
      ∃ ctx, callGraphPhase varArgProgram 1 [some varArgModule] = some ctx ∧
        ⟨1⟩ ∈ ctx.callees ⟨0⟩ :=
  ⟨rfl, _, rfl, by decide⟩

/-- `main` of `logv.bc` passes one argument to `void (i32, ...)`; `logv` has two fixed ones. -/
def shortCallArena : Arena where
  functions := [
    { name := "main", blocks := [⟨0⟩], moduleIdentifier := "logv.bc" },
    { name := "logv", hasAddressTaken := true, isVarArg := true,
      params := [.integer 32, .integer 32], blocks := [⟨1⟩], moduleIdentifier := "logv.bc" }]
  blocks := [{ parent := ⟨0⟩, insts := [⟨0⟩] }, { parent := ⟨1⟩ }]
  insts := [{ parent := ⟨0⟩, call := some { calledFunction := none, argTypes := [.integer 32] } }]

def shortCallProgram : Program := ⟨shortCallArena, by decide⟩

def shortCallModule : Module := ⟨"logv.bc", [⟨0⟩, ⟨1⟩]⟩

theorem varArg_params_past_args :
    ∃ ctx, callGraphPhase shortCallProgram 1 [some shortCallModule] = some ctx ∧
      ⟨1⟩ ∈ ctx.addressTakenFuncs ∧
      ResolvedSite shortCallProgram [shortCallModule] ⟨0⟩
        { calledFunction := none, argTypes := [.integer 32] } ∧
      (shortCallProgram.function ⟨1⟩).isVarArg = true ∧
      (shortCallProgram.function ⟨1⟩).isIntrinsic = false ∧
      paramsMatch (shortCallProgram.function ⟨1⟩).params [.integer 32] = none :=
  ⟨_, rfl, by decide, ⟨⟨shortCallModule, .head _, ⟨0⟩, .head _, rfl, by decide⟩, rfl, rfl, rfl⟩,
    rfl, rfl, rfl⟩

/-- `main` of `boot.bc` calls `setup` directly; `setup` is in `.init.text`. -/
def initArena : Arena where
  functions := [
    { name := "main", blocks := [⟨0⟩], moduleIdentifier := "boot.bc" },
    { name := "setup", sectionName := ".init.text", blocks := [⟨1⟩], moduleIdentifier := "boot.bc" }]
  blocks := [{ parent := ⟨0⟩, insts := [⟨0⟩] }, { parent := ⟨1⟩ }]
  insts := [{ parent := ⟨0⟩, call := some { calledFunction := some ⟨1⟩ } }]

def initProgram : Program := ⟨initArena, by decide⟩

def initModule : Module := ⟨"boot.bc", [⟨0⟩, ⟨1⟩]⟩

theorem initText_direct_callee :
    (initProgram.function ⟨1⟩).inInitText = true ∧
      ∃ ctx, callGraphPhase initProgram 1 [some initModule] = some ctx ∧
        ⟨1⟩ ∈ ctx.callees ⟨0⟩ ∧ ⟨0⟩ ∈ ctx.callers.get ⟨1⟩ :=
  ⟨rfl, _, rfl, by decide, by decide⟩

end

end SliceAnalyzer
