import SliceAnalyzer.CallGraph.Sweeps

/-!
# The call graph the phase produces

The registry after loading and `IterativeModulePass::run`, read off the loaded modules
(`callGraphPhase_result`, `PhaseResult`).
-/

namespace SliceAnalyzer

/-- The modules `main` keeps: the inputs that parsed, in load order. -/
abbrev loaded (inputs : List (Option Module)) : List Module := inputs.filterMap id

section

variable (P : Program)

/-- A function `doBasicInitialization` enters into `Funcs` under `key`, from one of `ms`. -/
def RegisteredIn (ms : List Module) (key : String) (d : Func) : Prop :=
  (∃ M ∈ ms, d ∈ M.functions) ∧ isRegistered P d = true ∧
    registrationKey (P.function d).name = key

theorem loadModules_frame (inputs : List (Option Module)) :
    ∃ funcs, loadModules P inputs = { GlobalContext.empty with modules := loaded inputs, funcs } := by
  suffices step : ∀ (inputs : List (Option Module)) (ctx : GlobalContext), ∃ funcs,
      inputs.foldl (loadStep P) ctx = { ctx with modules := ctx.modules ++ loaded inputs, funcs } from
    step inputs _
  intro inputs
  induction inputs with
  | nil => exact fun ctx => ⟨ctx.funcs, by simp⟩
  | cons parsed inputs ih =>
      intro ctx
      cases parsed with
      | none => simpa using ih ctx
      | some M =>
          obtain ⟨funcs, eq⟩ := ih (loadStep P ctx (some M))
          exact ⟨funcs, by simpa [loadStep, doBasicInitialization] using eq⟩

theorem doBasicInitialization_funcs (ctx : GlobalContext) (M : Module) (key : String) (d : Func)
    (stored : (doBasicInitialization P ctx M).funcs key = some d) :
    ctx.funcs key = some d ∨ RegisteredIn P [M] key d := by
  unfold doBasicInitialization at stored
  refine foldl_inv_of_mem (fun funcs : String → Option Func =>
      funcs key = some d → ctx.funcs key = some d ∨ RegisteredIn P [M] key d)
    M.functions ?_ ctx.funcs (fun old => Or.inl old) stored
  intro funcs f member earlier now
  split at now
  · rename_i registered
    by_cases same : registrationKey (P.function f).name = key
    · subst same
      simp only [Function.update_same, Option.some.injEq] at now
      subst now
      exact Or.inr ⟨⟨M, .head _, member⟩, registered, rfl⟩
    · exact earlier (by rwa [Function.update_noteq (Ne.symm same)] at now)
  · exact earlier now

theorem doBasicInitialization_isSome (ctx : GlobalContext) (M : Module) (key : String) :
    ((doBasicInitialization P ctx M).funcs key).isSome ↔ (ctx.funcs key).isSome ∨
      ∃ d ∈ M.functions, isRegistered P d = true ∧ registrationKey (P.function d).name = key := by
  unfold doBasicInitialization
  refine foldl_iff_of_grow _ (fun _ => True) (fun funcs => (funcs key).isSome = true) _
    (fun _ _ _ => trivial) ?_ M.functions ctx.funcs trivial
  intro funcs f _
  dsimp only
  split
  · by_cases same : registrationKey (P.function f).name = key
    · subst same; simp_all
    · simp [Function.update_noteq (Ne.symm same), same]
  · simp_all

theorem loadModules_funcs (inputs : List (Option Module)) (key : String) (d : Func)
    (stored : (loadModules P inputs).funcs key = some d) :
    RegisteredIn P (loaded inputs) key d := by
  obtain ⟨funcs, loadedCtx⟩ := loadModules_frame P inputs
  have modules : (loadModules P inputs).modules = loaded inputs := by rw [loadedCtx]
  rw [← modules]
  refine foldl_inv (fun ctx : GlobalContext =>
    ctx.funcs key = some d → RegisteredIn P ctx.modules key d) ?_ inputs .empty
      (fun none => by cases none) stored
  intro ctx parsed earlier now
  cases parsed with
  | none => exact earlier now
  | some M =>
      rcases doBasicInitialization_funcs P _ M key d now with old | new
      · obtain ⟨⟨N, member, function⟩, rest⟩ := earlier old
        exact ⟨⟨N, List.mem_append_left _ member, function⟩, rest⟩
      · obtain ⟨⟨N, member, function⟩, rest⟩ := new
        exact ⟨⟨N, List.mem_append_right _ member, function⟩, rest⟩

theorem loadModules_funcs_isSome (inputs : List (Option Module)) (key : String) :
    ((loadModules P inputs).funcs key).isSome ↔ ∃ d, RegisteredIn P (loaded inputs) key d := by
  unfold loadModules
  rw [foldl_iff_of_grow (loadStep P) (fun _ => True) (fun ctx => (ctx.funcs key).isSome = true)
    (fun parsed => ∃ M, parsed = some M ∧ ∃ d ∈ M.functions, isRegistered P d = true ∧
      registrationKey (P.function d).name = key) (fun _ _ _ => trivial) ?_ inputs _ trivial]
  · simp only [GlobalContext.empty, Option.isSome_none, Bool.false_eq_true, false_or, RegisteredIn]
    constructor
    · rintro ⟨_, parsed, M, rfl, d, function, registered, named⟩
      exact ⟨d, ⟨M, List.mem_filterMap.2 ⟨_, parsed, rfl⟩, function⟩, registered, named⟩
    · rintro ⟨d, ⟨M, member, function⟩, registered, named⟩
      obtain ⟨parsed, input, same⟩ := List.mem_filterMap.1 member
      exact ⟨parsed, input, M, by simpa using same, d, function, registered, named⟩
  · intro ctx parsed _
    cases parsed with
    | none => simp [loadStep]
    | some M => simp [loadStep, doBasicInitialization_isSome]

/-- The registry after the call-graph phase, read off the loaded modules. -/
structure PhaseResult (inputs : List (Option Module)) (ctx : GlobalContext) : Prop where
  modules : ctx.modules = loaded inputs
  funcs : ctx.funcs = (loadModules P inputs).funcs
  mem_addressTakenFuncs : ∀ f, f ∈ ctx.addressTakenFuncs ↔ (∃ M ∈ loaded inputs, f ∈ M.functions) ∧
    (P.function f).inInitText = false ∧ (P.function f).hasAddressTaken = true
  mem_callees : ∀ i f, f ∈ ctx.callees i ↔ ∃ c, ResolvedSite P (loaded inputs) i c ∧ ResolvesTo P ctx c f
  mem_callers : ∀ f i, i ∈ ctx.callers.get f ↔ InModules P (loaded inputs) i ∧
    (∃ c, (P.inst i).call = some c ∧ isDbgInfoIntrinsic P c = false) ∧ f ∈ ctx.callees i

theorem callGraphPhase_result (fuel : Nat) (inputs : List (Option Module)) :
    ∃ ctx, callGraphPhase P (fuel + 1) inputs = some ctx ∧ PhaseResult P inputs ctx := by
  obtain ⟨funcs, loadedCtx⟩ := loadModules_frame P inputs
  have modules : (loadModules P inputs).modules = loaded inputs := by rw [loadedCtx]
  refine ⟨_, by rw [callGraphPhase, run_succ, modules], ⟨by simp [modules], by simp, ?_, ?_, ?_⟩⟩
  · intro f
    simp [mem_addressTakenFuncs_initializeAll, loadedCtx, GlobalContext.empty]
  · intro i f
    rw [resolvesTo_congr P (t := initializeAll P (loaded inputs) (loadModules P inputs)) (by simp)
      (by simp)]
    simp [mem_callees_resolveAll, loadedCtx, GlobalContext.empty]
  · intro f i
    simp [mem_callers_finalizeAll, loadedCtx, GlobalContext.empty, CallerMap.empty]

theorem run_of_phaseResult (fuel : Nat) (inputs : List (Option Module)) (ctx : GlobalContext)
    (result : PhaseResult P inputs ctx) :
    ∃ ctx', run P (fuel + 1) ctx = some ctx' ∧ PhaseResult P inputs ctx' := by
  have taken : ∀ f, f ∈ (initializeAll P ctx.modules ctx).addressTakenFuncs ↔
      f ∈ ctx.addressTakenFuncs := by
    intro f
    rw [mem_addressTakenFuncs_initializeAll, result.modules, ← result.mem_addressTakenFuncs, or_self]
  have resolves : ResolvesTo P (initializeAll P ctx.modules ctx) = ResolvesTo P ctx :=
    resolvesTo_congr P (by simp) taken
  have callees : ∀ i f,
      f ∈ (resolveAll P ctx.modules (initializeAll P ctx.modules ctx)).callees i ↔
        f ∈ ctx.callees i := by
    intro i f
    rw [mem_callees_resolveAll, resolves, initializeAll_callees, result.modules,
      ← result.mem_callees, or_self]
  refine ⟨_, run_succ P fuel ctx, ⟨by simp [result.modules], by simp [result.funcs], ?_, ?_, ?_⟩⟩
  · intro f
    rw [finalizeAll_addressTakenFuncs, resolveAll_addressTakenFuncs, taken, result.mem_addressTakenFuncs]
  · intro i f
    rw [finalizeAll_callees, callees, result.mem_callees, ← resolves,
      resolvesTo_congr P (s := finalizeAll P _ _) (t := initializeAll P ctx.modules ctx) (by simp)
        (by simp)]
  · intro f i
    rw [mem_callers_finalizeAll, resolveAll_callers, initializeAll_callers, result.mem_callers,
      finalizeAll_callees, callees, result.modules, or_self]

end

end SliceAnalyzer
