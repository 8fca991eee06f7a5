import SliceAnalyzer.CallGraph.Registry
import SliceAnalyzer.Loops

/-!
# The type-based call-graph pass

`CallGraphPass` as compiled with `TYPE_BASED`, and the driver `IterativeModulePass::run`; the
`while (changed)` loops run under fuel (`untilStable`).
-/

namespace SliceAnalyzer

/-- The parameter loop of `findCalleesByType`; `none` where the source reads past the arguments. -/
def paramsMatch : List Ty → List Ty → Option Bool
  | [], _ => some true
  | _ :: _, [] => none
  | formal :: formals, actual :: actuals =>
      if isCompatibleType formal actual then paramsMatch formals actuals else some false

/-- The checks `findCalleesByType` makes on one address-taken function, in the source's order. -/
def matchesCall (c : CallData) (F : FunctionData) : Bool :=
  (if F.isVarArg then true
    else if F.params.length ≠ c.argTypes.length then false
    else isCompatibleType F.returnType c.type)
  && !F.isIntrinsic
  && paramsMatch F.params c.argTypes == some true

/-- `F->isIntrinsic()` of the called function: the intrinsic calls `runOnFunction` skips. -/
def callsIntrinsic (P : Program) (c : CallData) : Bool :=
  c.calledFunction.any fun g => (P.function g).isIntrinsic

/-- `isa<DbgInfoIntrinsic>(CB)`: a `CallInst` of one of the `llvm.dbg.` intrinsics. -/
def isDbgInfoIntrinsic (P : Program) (c : CallData) : Bool :=
  c.isCallInst && c.calledFunction.any fun g => "llvm.dbg.".toList.isPrefixOf (P.function g).name.toList

theorem paramsMatch_eq_none_iff : ∀ formals actuals : List Ty,
    paramsMatch formals actuals = none ↔ actuals.length < formals.length ∧
      (formals.zip actuals).all (fun (formal, actual) => isCompatibleType formal actual) = true
  | [], _ => by simp [paramsMatch]
  | _ :: _, [] => by simp [paramsMatch]
  | formal :: formals, actual :: actuals => by
      rw [paramsMatch]
      split
      · rename_i compatible
        simp [paramsMatch_eq_none_iff formals actuals, compatible]
      · rename_i incompatible
        simp [incompatible]

theorem paramsMatch_self (ts : List Ty) : paramsMatch ts ts = some true := by
  induction ts with
  | nil => rfl
  | cons t ts ih => simp [paramsMatch, isCompatibleType_self, ih]

theorem matchesCall_of_exact {c : CallData} {F : FunctionData} (fixed : F.isVarArg = false)
    (notIntrinsic : F.isIntrinsic = false) (ret : F.returnType = c.type)
    (params : F.params = c.argTypes) : matchesCall c F = true := by
  simp [matchesCall, fixed, notIntrinsic, ret, ← params, isCompatibleType_self, paramsMatch_self]

theorem callsIntrinsic_of_isDbgInfoIntrinsic {P : Program} {c : CallData}
    (debug : isDbgInfoIntrinsic P c = true) : callsIntrinsic P c = true := by
  obtain ⟨_ | g, _, _, _, _⟩ := c
  · simp [isDbgInfoIntrinsic] at debug
  · simp only [isDbgInfoIntrinsic, callsIntrinsic, FunctionData.isIntrinsic, Option.any_some,
      Bool.and_eq_true, List.isPrefixOf_iff_prefix] at debug ⊢
    exact List.IsPrefix.trans ⟨"dbg.".toList, rfl⟩ debug.2

section

variable (P : Program)

/-- `CallGraphPass::findCalleesByType(CB, FS)`. -/
def findCalleesByType (ctx : GlobalContext) (c : CallData) (FS : List Func) : List Func :=
  ctx.addressTakenFuncs.foldl (fun FS f => if matchesCall c (P.function f) then FS.insert f else FS) FS

/-- `CallGraphPass::findCallees(CB, FS)` with `FS = Callees[CB]`. -/
def findCallees (ctx : GlobalContext) (cb : Inst) (c : CallData) : GlobalContext × Bool :=
  match c.calledFunction with
  | some cf =>
      let cf := getFuncDef P ctx cf
      ({ ctx with callees := Function.update ctx.callees cb ((ctx.callees cb).insert cf) },
        cf ∉ ctx.callees cb)
  | none =>
      let ctx := { ctx with indirectCallInsts := ctx.indirectCallInsts ++ [cb] }
      ({ ctx with callees := Function.update ctx.callees cb (findCalleesByType P ctx c (ctx.callees cb)) },
        false)

/-- `CallGraphPass::runOnFunction(F)`. -/
def runOnFunction (ctx : GlobalContext) (f : Func) : GlobalContext × Bool :=
  if (P.function f).inInitText then (ctx, false)
  else ((P.instructions f).foldl (fun ctx i => match (P.inst i).call with
    | none => ctx
    | some c => if c.isInlineAsm || callsIntrinsic P c then ctx else (findCallees P ctx i c).1) ctx,
    false)

/-- `CallGraphPass::doInitialization(M)`: the address-taken functions outside `.init.text`. -/
def doInitialization (ctx : GlobalContext) (M : Module) : GlobalContext × Bool :=
  (M.functions.foldl (fun ctx f =>
    if (P.function f).inInitText then ctx
    else if (P.function f).hasAddressTaken then
      { ctx with addressTakenFuncs := ctx.addressTakenFuncs.insert f }
    else ctx) ctx, false)

/-- `CallGraphPass::doFinalization(M)`. -/
def doFinalization (ctx : GlobalContext) (M : Module) : GlobalContext × Bool :=
  (M.functions.foldl (fun ctx f => (P.instructions f).foldl (fun ctx i =>
    match (P.inst i).call with
    | none => ctx
    | some c => if isDbgInfoIntrinsic P c then ctx
      else { ctx with callers := (ctx.callees i).foldl (fun m cf => m.insert cf i) ctx.callers })
    ctx) ctx, false)

/-- `CallGraphPass::doModulePass(M)`. -/
def doModulePass (fuel : Nat) (ctx : GlobalContext) (M : Module) : Option (GlobalContext × Bool) :=
  untilStable (sweepList (fun ctx f => some (runOnFunction P ctx f)) M.functions) fuel ctx

/-- `IterativeModulePass::run(modules)`. -/
def run (fuel : Nat) (ctx : GlobalContext) : Option GlobalContext := do
  let (ctx, _) ← untilStable (sweepList (fun ctx M => some (doInitialization P ctx M)) ctx.modules)
    fuel ctx
  let (ctx, _) ← untilStable (sweepList (doModulePass P fuel) ctx.modules) fuel ctx
  let (ctx, _) ← untilStable (sweepList (fun ctx M => some (doFinalization P ctx M)) ctx.modules)
    fuel ctx
  pure ctx

/-- The call-graph phase of `main`: load the parsed modules, then `CGPass.run(GlobalCtx.Modules)`. -/
def callGraphPhase (fuel : Nat) (inputs : List (Option Module)) : Option GlobalContext :=
  run P fuel (loadModules P inputs)

end

end SliceAnalyzer
