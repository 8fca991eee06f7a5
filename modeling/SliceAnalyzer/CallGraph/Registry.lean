import SliceAnalyzer.IR.Program

/-!
# The process-wide registry

`GlobalContext`, the loader that fills `Funcs` (`doBasicInitialization`), and `getFuncDef`.
`Callers` keeps its key order, since the slicer iterates it and `operator[]` adds keys.
-/

namespace SliceAnalyzer

/-- `Ctx->Callers`: the call sites calling each function, with the map's keys in iteration order. -/
structure CallerMap where
  keys : List Func
  get : Func → List Inst
  get_of_not_mem : ∀ f, f ∉ keys → get f = []

namespace CallerMap

def empty : CallerMap := ⟨[], fun _ => [], fun _ _ => rfl⟩

/-- `Callers[F]` read through `operator[]`: a missing `F` becomes a key with an empty set. -/
def touch (m : CallerMap) (f : Func) : CallerMap :=
  if f ∈ m.keys then m else ⟨m.keys ++ [f], m.get, fun g absent =>
    m.get_of_not_mem g fun member => absent (List.mem_append_left _ member)⟩

/-- `Callers[F].insert(CB)`. -/
def insert (m : CallerMap) (f : Func) (cb : Inst) : CallerMap where
  keys := if f ∈ m.keys then m.keys else m.keys ++ [f]
  get := Function.update m.get f ((m.get f).insert cb)
  get_of_not_mem g absent := by
    by_cases same : g = f
    · subst same; split at absent <;> simp_all
    · rw [Function.update_noteq same]
      exact m.get_of_not_mem g fun member => absent (by split <;> simp [member])

@[simp] theorem touch_get (m : CallerMap) (f : Func) : (m.touch f).get = m.get := by
  unfold touch; split <;> rfl

theorem keys_touch (m : CallerMap) (f : Func) :
    (m.touch f).keys = if f ∈ m.keys then m.keys else m.keys ++ [f] := by
  unfold touch; split <;> rfl

@[simp] theorem mem_insert_get (m : CallerMap) (f g : Func) (cb cb' : Inst) :
    cb' ∈ (m.insert f cb).get g ↔ cb' ∈ m.get g ∨ (g = f ∧ cb' = cb) := by
  by_cases same : g = f
  · subst same; simp [insert, or_comm]
  · simp [insert, Function.update_noteq same, same]

end CallerMap

/-- `GlobalContext`: the loaded modules in load order and the tables the passes share. -/
structure GlobalContext where
  modules : List Module
  funcs : String → Option Func
  addressTakenFuncs : List Func
  callees : Inst → List Func
  callers : CallerMap
  indirectCallInsts : List Inst

/-- The context before any module is loaded. -/
def GlobalContext.empty : GlobalContext :=
  ⟨[], fun _ => none, [], fun _ => [], .empty, []⟩

/-- `llvm::sys::path::stem` of a module identifier. -/
def pathStem (path : String) : String :=
  let filename := (path.splitOn "/").getLastD ""
  if filename = "." ∨ filename = ".." then filename
  else match filename.revPosOf '.' with
    | some dot => filename.extract 0 dot
    | none => filename

section

variable (P : Program)

/-- `getScopeName(GV)`: the bare name for external linkage, else `_<module stem>.<name>`. -/
def getScopeName (f : Func) : String :=
  let F := P.function f
  if F.linkage = .externalLinkage then F.name
  else "_" ++ pathStem F.moduleIdentifier ++ "." ++ F.name

/-- The key `doBasicInitialization` registers a definition under: `__sys_<x>` becomes `sys_<x>`. -/
def registrationKey (name : String) : String :=
  if "__sys_".toList.isPrefixOf name.toList then "sys_" ++ name.drop 6 else name

/-- Whether `doBasicInitialization` enters a function into `Funcs`. -/
def isRegistered (f : Func) : Bool :=
  (P.function f).linkage = .externalLinkage && (P.function f).hasBody

/-- `doBasicInitialization(M)`: every external definition of `M` under its registration key. -/
def doBasicInitialization (ctx : GlobalContext) (M : Module) : GlobalContext :=
  { ctx with funcs := M.functions.foldl (fun funcs f =>
      if isRegistered P f then
        Function.update funcs (registrationKey (P.function f).name) (some f)
      else funcs) ctx.funcs }

/-- One iteration of the loading loop of `main`; a module that failed to parse is `none`. -/
def loadStep (ctx : GlobalContext) : Option Module → GlobalContext
  | none => ctx
  | some M => doBasicInitialization P { ctx with modules := ctx.modules ++ [M] } M

/-- The loading loop of `main` over the parse results of the input files. -/
def loadModules (inputs : List (Option Module)) : GlobalContext :=
  inputs.foldl (loadStep P) .empty

/-- `CallGraphPass::getFuncDef(F)`: the definition registered under `F`'s scope name, else `F`. -/
def getFuncDef (ctx : GlobalContext) (f : Func) : Func := (ctx.funcs (getScopeName P f)).getD f

end

end SliceAnalyzer
