import SliceAnalyzer.IR.Program
import Mathlib

/-!
# The call hooks of SeedMind

`SeedMindCFPass` over a module given as its functions' blocks. It refines the calls of the code it
instruments (`run_refines`) and is not idempotent (`size_run_lt_size_run_run`).
-/

namespace SliceAnalyzer.SeedMind

/-- A function as the pass reads it: its name and its `DISubprogram`. -/
structure FunctionRef where
  name : String
  subprogram : Option DebugLoc
  deriving DecidableEq

/-- The path `should_skip` tests: the directory and the file name of the subprogram. -/
def fullPath (sp : DebugLoc) : String :=
  if sp.directory.isEmpty then sp.filename else sp.directory ++ "/" ++ sp.filename

/-- `should_skip(func)`: the function is compiled from a path starting with `/usr`. -/
def shouldSkip (f : FunctionRef) : Bool :=
  match f.subprogram with
  | some sp => "/usr".toList.isPrefixOf (fullPath sp).toList
  | none => false

/-- `Function::isIntrinsic()`. -/
def FunctionRef.isIntrinsic (f : FunctionRef) : Bool := "llvm.".toList.isPrefixOf f.name.toList

/-- The called operand of a call. -/
inductive Operand where
  | function (f : FunctionRef)
  | constant (id : Nat)
  | inlineAsm (id : Nat)
  | value (id : Nat)
  deriving DecidableEq

/-- An instruction: a `CallBase` with its called operand and its arguments, or another. -/
inductive Inst where
  | call (callee : Operand) (args : List Operand)
  | other (id : Nat)
  deriving DecidableEq

structure Function where
  ref : FunctionRef
  blocks : List (List Inst)

structure Module where
  functions : List Function

def hookName : String := "__seedmind_record_func_call"

/-- `M.getOrInsertFunction("__seedmind_record_func_call", ...)`. -/
def getOrInsertFunction (M : Module) : Module × FunctionRef :=
  match M.functions.find? (·.ref.name == hookName) with
  | some F => (M, F.ref)
  | none => (⟨M.functions ++ [⟨⟨hookName, none⟩, []⟩]⟩, ⟨hookName, none⟩)

/-- The callee the hook of a call records, or `none` when the pass leaves the call alone. -/
def hookedCallee : Operand → Option Operand
  | .value v => some (.value v)
  | .function f => if f.isIntrinsic || shouldSkip f then none else some (.function f)
  | .constant _ => none
  | .inlineAsm _ => none

/-- The hook call `IRBuilder` inserts before an instruction, if any. -/
def hookCall (hook caller : FunctionRef) : Inst → Option Inst
  | .call callee _ => (hookedCallee callee).map fun c => .call (.function hook) [.function caller, c]
  | .other _ => none

/-- The loop over the instructions of a block. -/
def instrumentBlock (hook caller : FunctionRef) (bb : List Inst) : List Inst :=
  bb.flatMap fun i => (hookCall hook caller i).toList ++ [i]

/-- The body of the loop over the functions of the module. -/
def instrumentFunction (hook : FunctionRef) (F : Function) : Function :=
  if shouldSkip F.ref then F else { F with blocks := F.blocks.map (instrumentBlock hook F.ref) }

/-- `SeedMindCFPass::run(M, AM)`. -/
def run (M : Module) : Module :=
  ⟨(getOrInsertFunction M).1.functions.map (instrumentFunction (getOrInsertFunction M).2)⟩

/-! ## Runs of the code -/

/-- A call a run makes: the called operand and the arguments. -/
abbrev Call := Operand × List Operand

/-- The calls a block makes when it runs to its end. -/
def calls (bb : List Inst) : List Call :=
  bb.filterMap fun
    | .call callee args => some (callee, args)
    | .other _ => none

/-- The calls of a run through the blocks at the indices of `path`. -/
def runCalls (blocks : List (List Inst)) (path : List Nat) : List Call :=
  path.flatMap fun k => calls (blocks.getD k [])

def IsHookCall (c : Call) : Bool :=
  match c.1 with
  | .function f => f.name == hookName
  | _ => false

/-- What the hook receives in a run: the two arguments of each of its calls. -/
def hookLog (run : List Call) : List (Operand × Operand) :=
  run.filterMap fun
    | (.function f, [caller, callee]) => if f.name == hookName then some (caller, callee) else none
    | _ => none

/-- The log a run of the original code should leave. -/
def expectedLog (caller : FunctionRef) (run : List Call) : List (Operand × Operand) :=
  run.filterMap fun c => (hookedCallee c.1).map (.function caller, ·)

/-! ## The instrumented code makes the original calls, and the hook logs the kept ones -/

/-- The calls of a run of instrumented code, from those of the original. -/
def withHooks (hook caller : FunctionRef) (run : List Call) : List Call :=
  run.flatMap fun c =>
    ((hookedCallee c.1).map fun h => ((.function hook : Operand), [.function caller, h])).toList ++ [c]

theorem calls_append (a b : List Inst) : calls (a ++ b) = calls a ++ calls b :=
  List.filterMap_append a b _

theorem calls_instrumentBlock (hook caller : FunctionRef) : ∀ bb : List Inst,
    calls (instrumentBlock hook caller bb) = withHooks hook caller (calls bb)
  | [] => rfl
  | i :: bb => by
      rw [instrumentBlock, List.flatMap_cons, ← instrumentBlock, calls_append,
        calls_instrumentBlock hook caller bb]
      cases i with
      | call callee args =>
          cases hooked : hookedCallee callee <;> simp [hookCall, hooked, calls, withHooks]
      | other => simp [hookCall, calls, withHooks]

theorem withHooks_append (hook caller : FunctionRef) (a b : List Call) :
    withHooks hook caller (a ++ b) = withHooks hook caller a ++ withHooks hook caller b :=
  List.flatMap_append a b _

theorem runCalls_instrumentBlock (hook caller : FunctionRef) (blocks : List (List Inst))
    (path : List Nat) : runCalls (blocks.map (instrumentBlock hook caller)) path =
      withHooks hook caller (runCalls blocks path) := by
  induction path with
  | nil => rfl
  | cons k path ih =>
      have block : (blocks.map (instrumentBlock hook caller)).getD k [] =
          instrumentBlock hook caller (blocks.getD k []) := List.getD_map blocks [] _
      show calls ((blocks.map (instrumentBlock hook caller)).getD k []) ++ runCalls _ path =
        withHooks hook caller (calls (blocks.getD k []) ++ runCalls blocks path)
      rw [ih, block, calls_instrumentBlock, withHooks_append]

theorem hookLog_append (a b : List Call) : hookLog (a ++ b) = hookLog a ++ hookLog b :=
  List.filterMap_append a b _

theorem hookLog_singleton {c : Call} (own : IsHookCall c = false) : hookLog [c] = [] := by
  obtain ⟨callee, args⟩ := c
  cases callee with
  | function f =>
      match args with
      | [_, _] =>
          simp only [IsHookCall] at own
          simp only [hookLog, List.filterMap_cons, own, List.filterMap_nil]
          rfl
      | [] | [_] | _ :: _ :: _ :: _ => rfl
  | _ => rfl

theorem expectedLog_cons (caller : FunctionRef) (c : Call) (run : List Call) :
    expectedLog caller (c :: run) =
      ((hookedCallee c.1).map (.function caller, ·)).toList ++ expectedLog caller run := by
  unfold expectedLog
  cases hooked : hookedCallee c.1 <;> simp [List.filterMap_cons, hooked]

section Refinement

variable (hook caller : FunctionRef) (named : hook.name = hookName)
include named

theorem isHookCall_hook (args : List Operand) : IsHookCall ((.function hook : Operand), args) = true := by
  simp [IsHookCall, named]

theorem filter_withHooks (run : List Call) (own : ∀ c ∈ run, IsHookCall c = false) :
    (withHooks hook caller run).filter (!IsHookCall ·) = run := by
  induction run with
  | nil => rfl
  | cons c run ih =>
      rw [withHooks, List.flatMap_cons, ← withHooks, List.filter_append,
        ih fun d member => own d (List.mem_cons_of_mem c member)]
      have own' := own c (List.mem_cons_self c run)
      cases hookedCallee c.1 <;> simp [own', isHookCall_hook hook named]

theorem hookLog_withHooks (run : List Call) (own : ∀ c ∈ run, IsHookCall c = false) :
    hookLog (withHooks hook caller run) = expectedLog caller run := by
  induction run with
  | nil => rfl
  | cons c run ih =>
      rw [withHooks, List.flatMap_cons, ← withHooks, hookLog_append,
        ih fun d member => own d (List.mem_cons_of_mem c member), expectedLog_cons, hookLog_append,
        hookLog_singleton (own c (List.mem_cons_self c run)), List.append_nil]
      cases hookedCallee c.1 with
      | none => rfl
      | some h => simp only [hookLog, Option.map_some', Option.toList_some, List.filterMap_cons,
          named, beq_self_eq_true, if_true, List.filterMap_nil]

end Refinement

theorem mem_getOrInsertFunction {M : Module} {F : Function} (member : F ∈ M.functions) :
    F ∈ (getOrInsertFunction M).1.functions := by
  unfold getOrInsertFunction
  split
  · exact member
  · exact List.mem_append_left _ member

theorem run_refines (M : Module) (F : Function) (member : F ∈ M.functions)
    (kept : shouldSkip F.ref = false) (own : ∀ bb ∈ F.blocks, ∀ c ∈ calls bb, IsHookCall c = false) :
    ∃ F' ∈ (run M).functions, F'.ref = F.ref ∧ ∀ path : List Nat,
      (runCalls F'.blocks path).filter (!IsHookCall ·) = runCalls F.blocks path ∧
      hookLog (runCalls F'.blocks path) = expectedLog F.ref (runCalls F.blocks path) := by
  have named : (getOrInsertFunction M).2.name = hookName := by
    unfold getOrInsertFunction
    split
    · rename_i found
      have named := List.find?_some found
      exact beq_iff_eq.1 named
    · rfl
  refine ⟨_, List.mem_map_of_mem _ (mem_getOrInsertFunction member), by simp [instrumentFunction, kept], fun path => ?_⟩
  have own' : ∀ c ∈ runCalls F.blocks path, IsHookCall c = false := fun c made => by
    obtain ⟨k, -, made⟩ := List.mem_flatMap.1 made
    by_cases bound : k < F.blocks.length
    · rw [List.getD_eq_getElem _ _ bound] at made
      exact own _ (List.getElem_mem bound) c made
    · rw [List.getD_eq_default _ _ (Nat.le_of_not_lt bound)] at made
      cases made
  simp only [instrumentFunction, kept, Bool.false_eq_true, if_false, runCalls_instrumentBlock]
  exact ⟨filter_withHooks _ _ named _ own', hookLog_withHooks _ _ named _ own'⟩

/-- A function `main` that calls `parse` directly and a function pointer. -/
def mainFunction : Function :=
  ⟨⟨"main", none⟩, [[.call (.function ⟨"parse", none⟩) [], .other 0, .call (.value 1) [.value 2]]]⟩

theorem run_refines_main : mainFunction ∈ (⟨[mainFunction]⟩ : Module).functions ∧
    shouldSkip mainFunction.ref = false ∧
    (∀ bb ∈ mainFunction.blocks, ∀ c ∈ calls bb, IsHookCall c = false) ∧
    ∃ F' ∈ (run ⟨[mainFunction]⟩).functions, F'.ref = mainFunction.ref ∧ ∀ path : List Nat,
      (runCalls F'.blocks path).filter (!IsHookCall ·) = runCalls mainFunction.blocks path ∧
      hookLog (runCalls F'.blocks path) = expectedLog mainFunction.ref (runCalls mainFunction.blocks path) :=
  ⟨List.mem_singleton_self _, rfl, by decide,
    run_refines ⟨[mainFunction]⟩ mainFunction (List.mem_singleton_self _) rfl (by decide)⟩

/-! ## Running the pass twice -/

/-- Whether the pass hooks an instruction. -/
def Inst.isHooked : Inst → Bool
  | .call callee _ => (hookedCallee callee).isSome
  | .other _ => false

def Function.size (F : Function) : Nat := (F.blocks.map List.length).sum

def Module.size (M : Module) : Nat := (M.functions.map Function.size).sum

theorem length_instrumentBlock (hook caller : FunctionRef) (bb : List Inst) :
    (instrumentBlock hook caller bb).length = bb.length + bb.countP Inst.isHooked := by
  induction bb with
  | nil => rfl
  | cons i bb ih =>
      rw [instrumentBlock, List.flatMap_cons, ← instrumentBlock, List.length_append, ih,
        List.countP_cons]
      cases i with
      | call callee args =>
          cases hooked : hookedCallee callee <;> simp [hookCall, Inst.isHooked, hooked] <;> omega
      | other =>
          simp [hookCall, Inst.isHooked]
          omega

theorem size_getOrInsertFunction (M : Module) : (getOrInsertFunction M).1.size = M.size := by
  unfold getOrInsertFunction
  split
  · rfl
  · simp [Module.size, Function.size]

theorem size_le_instrumentFunction (hook : FunctionRef) (G : Function) :
    G.size ≤ (instrumentFunction hook G).size := by
  unfold instrumentFunction Function.size
  split
  · exact le_rfl
  · simp only [List.map_map]
    exact List.sum_le_sum fun bb _ => by simp [length_instrumentBlock]

theorem size_lt_instrumentFunction (hook : FunctionRef) (F : Function)
    (kept : shouldSkip F.ref = false) (bb : List Inst) (block : bb ∈ F.blocks) (i : Inst)
    (inst : i ∈ bb) (hooked : i.isHooked = true) : F.size < (instrumentFunction hook F).size := by
  simp only [instrumentFunction, kept, Bool.false_eq_true, if_false, Function.size, List.map_map]
  refine List.sum_lt_sum _ _ (fun bb _ => by simp [length_instrumentBlock]) ⟨bb, block, ?_⟩
  have := List.countP_pos_iff.2 ⟨i, inst, hooked⟩
  simp only [Function.comp, length_instrumentBlock]
  omega

theorem size_lt_run (M : Module) (F : Function) (member : F ∈ M.functions)
    (kept : shouldSkip F.ref = false) (bb : List Inst) (block : bb ∈ F.blocks) (i : Inst)
    (inst : i ∈ bb) (hooked : i.isHooked = true) : M.size < (run M).size := by
  rw [← size_getOrInsertFunction M]
  unfold run Module.size
  rw [List.map_map]
  exact List.sum_lt_sum _ _ (fun G _ => size_le_instrumentFunction _ G)
    ⟨F, mem_getOrInsertFunction member, size_lt_instrumentFunction _ F kept bb block i inst hooked⟩

theorem size_run_lt_size_run_run (M : Module) (F : Function) (member : F ∈ M.functions)
    (kept : shouldSkip F.ref = false) (bb : List Inst) (block : bb ∈ F.blocks) (i : Inst)
    (inst : i ∈ bb) (hooked : i.isHooked = true) : (run M).size < (run (run M)).size := by
  let hook := (getOrInsertFunction M).2
  refine size_lt_run (run M) (instrumentFunction hook F)
    (List.mem_map_of_mem _ (mem_getOrInsertFunction member)) (by simp [instrumentFunction, kept])
    (instrumentBlock hook F.ref bb) ?_ i ?_ hooked
  · simp only [instrumentFunction, kept, Bool.false_eq_true, if_false]
    exact List.mem_map_of_mem _ block
  · exact List.mem_flatMap.2 ⟨i, inst, by simp⟩

theorem size_run_lt_size_run_run_main : mainFunction ∈ (⟨[mainFunction]⟩ : Module).functions ∧
    shouldSkip mainFunction.ref = false ∧
    [.call (.function ⟨"parse", none⟩) [], .other 0, .call (.value 1) [.value 2]] ∈ mainFunction.blocks ∧
    Inst.call (.function ⟨"parse", none⟩) [] ∈
      [.call (.function ⟨"parse", none⟩) [], .other 0, .call (.value 1) [.value 2]] ∧
    (Inst.call (.function ⟨"parse", none⟩) []).isHooked = true ∧
    (run ⟨[mainFunction]⟩).size < (run (run ⟨[mainFunction]⟩)).size :=
  ⟨List.mem_singleton_self _, rfl, List.mem_singleton_self _, List.mem_cons_self _ _, by decide,
    size_run_lt_size_run_run ⟨[mainFunction]⟩ mainFunction (List.mem_singleton_self _) rfl _
      (List.mem_singleton_self _) _ (List.mem_cons_self _ _) (by decide)⟩

end SliceAnalyzer.SeedMind
