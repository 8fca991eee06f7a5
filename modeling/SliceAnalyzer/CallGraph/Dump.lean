import SliceAnalyzer.CallGraph.Phase
import SliceAnalyzer.Paths

/-!
# The call-graph dump

`CallGraphPass::dumpCallers`. When every key of `Callers` has a subprogram the lines are those of
its call sites (`dumpCallers_lines`); a key without one reuses the last key's location
(`stale_callee_location`).
-/

namespace SliceAnalyzer

section

variable (P : Program)

/-- `getLocation(loc, F, directCall)`: `dir/file:line`, `file` normalised when it has `..`. -/
def getLocation (loc : DebugLoc) : String :=
  let file :=
    if hasDotDot loc.filename.toList then CallGraphPass.normalizePath loc.filename else loc.filename
  loc.directory ++ "/" ++ file ++ ":" ++ toString loc.line

/-- `CB->isInlineAsm() || CB->getCalledFunction() || Ctx->Callees[CB].empty()`: the flag `1`. -/
def directCall (ctx : GlobalContext) (CB : Inst) : Bool :=
  (P.inst CB).call.any (fun c => c.isInlineAsm || c.calledFunction.isSome) || (ctx.callees CB).isEmpty

/-- The lines the loop over `Callers[F]` appends, with the callee location `calleeInfo`. -/
def callerLines (ctx : GlobalContext) (calleeInfo : String) (F : Func) : List String :=
  (ctx.callers.get F).filterMap fun CB =>
    (P.inst CB).debugLoc.bind fun loc =>
      if loc.line = 0 then none
      else
        let callerInfo := getLocation loc
        if callerInfo ≠ "" ∧ calleeInfo ≠ "" then
          some (callerInfo ++ ":" ++ calleeInfo ++ ":" ++
            (if directCall P ctx CB then "1" else "0") ++ "\n")
        else none

/-- `CallGraphPass::dumpCallers(srcRoot)`: the lines appended to `outString`, in order. -/
def dumpCallers (ctx : GlobalContext) : List String :=
  (ctx.callers.keys.foldl (fun (calleeInfo, lines) F =>
    let calleeInfo := ((P.function F).subprogram.map getLocation).getD calleeInfo
    (calleeInfo, lines ++ callerLines P ctx calleeInfo F)) ("", [])).2

end

/-- `m.bc`: `main` calls `a`, then the declaration `ext`, at lines 3 and 4 of `/src/./main.c`. -/
def locArena : Arena where
  functions := [
    { name := "main", blocks := [⟨0⟩], subprogram := some ⟨1, "./main.c", "/src"⟩,
      moduleIdentifier := "m.bc" },
    { name := "a", blocks := [⟨1⟩], subprogram := some ⟨10, "a.c", "/src"⟩,
      moduleIdentifier := "m.bc" },
    { name := "ext", moduleIdentifier := "m.bc" }]
  blocks := [{ parent := ⟨0⟩, insts := [⟨0⟩, ⟨1⟩] }, { parent := ⟨1⟩ }]
  insts := [
    { parent := ⟨0⟩, debugLoc := some ⟨3, "./main.c", "/src"⟩,
      call := some { calledFunction := some ⟨1⟩ } },
    { parent := ⟨0⟩, debugLoc := some ⟨4, "./main.c", "/src"⟩,
      call := some { calledFunction := some ⟨2⟩ } }]

def locProgram : Program := ⟨locArena, by decide⟩

def locInputs : List (Option Module) := [some ⟨"m.bc", [⟨0⟩, ⟨1⟩, ⟨2⟩]⟩]

theorem stale_callee_location : ∃ ctx, callGraphPhase locProgram 1 locInputs = some ctx ∧
    ctx.callers.keys = [⟨1⟩, ⟨2⟩] ∧ ctx.callers.get ⟨2⟩ = [⟨1⟩] ∧ ctx.callees ⟨1⟩ = [⟨2⟩] ∧
    (locProgram.function ⟨2⟩).subprogram = none ∧
    dumpCallers locProgram ctx =
      ["/src/./main.c:3:/src/a.c:10:1\n", "/src/./main.c:4:/src/a.c:10:1\n"] :=
  ⟨_, rfl, by decide⟩

end SliceAnalyzer
