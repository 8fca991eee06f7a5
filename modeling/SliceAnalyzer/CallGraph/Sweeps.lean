import SliceAnalyzer.CallGraph.Pass

/-!
# The call-graph phase in closed form

No hook of the type-based pass reports a change, so each loop of the driver stops after one sweep
(`run_succ`), and each sweep's table is read off the modules.
-/

namespace SliceAnalyzer

section

variable (P : Program)

/-- One sweep of `doInitialization` over the modules `ms`. -/
def initializeAll (ms : List Module) (ctx : GlobalContext) : GlobalContext :=
  ms.foldl (fun ctx M => (doInitialization P ctx M).1) ctx

/-- One sweep of `runOnFunction` over the functions of `M`. -/
def resolveModule (ctx : GlobalContext) (M : Module) : GlobalContext :=
  M.functions.foldl (fun ctx f => (runOnFunction P ctx f).1) ctx

/-- One sweep of `doModulePass` over the modules `ms`, each running `runOnFunction` once. -/
def resolveAll (ms : List Module) (ctx : GlobalContext) : GlobalContext :=
  ms.foldl (resolveModule P) ctx

/-- One sweep of `doFinalization` over the modules `ms`. -/
def finalizeAll (ms : List Module) (ctx : GlobalContext) : GlobalContext :=
  ms.foldl (fun ctx M => (doFinalization P ctx M).1) ctx

/-- The callees `findCallees` gives a resolved call. -/
def ResolvesTo (ctx : GlobalContext) (c : CallData) (f : Func) : Prop :=
  match c.calledFunction with
  | some g => f = getFuncDef P ctx g
  | none => f ∈ ctx.addressTakenFuncs ∧ matchesCall c (P.function f) = true

/-- An instruction of a function of one of the modules `ms`. -/
def InModules (ms : List Module) (i : Inst) : Prop :=
  ∃ M ∈ ms, ∃ F ∈ M.functions, i ∈ P.instructions F

/-- A call site `runOnFunction` resolves. -/
def ResolvedSite (ms : List Module) (i : Inst) (c : CallData) : Prop :=
  (∃ M ∈ ms, ∃ F ∈ M.functions, (P.function F).inInitText = false ∧ i ∈ P.instructions F) ∧
    (P.inst i).call = some c ∧ c.isInlineAsm = false ∧ callsIntrinsic P c = false

theorem runOnFunction_snd (ctx : GlobalContext) (f : Func) : (runOnFunction P ctx f).2 = false := by
  unfold runOnFunction; split <;> rfl

theorem doModulePass_succ (fuel : Nat) :
    doModulePass P (fuel + 1) = fun ctx M => some (resolveModule P ctx M, false) := by
  funext ctx M
  unfold doModulePass
  rw [sweepList_of_stable (runOnFunction P) (runOnFunction_snd P)]
  exact untilStable_of_stable rfl fuel

/-! ## Frames: each sweep writes one table -/

theorem initializeAll_frame (ms : List Module) (ctx : GlobalContext) :
    ∃ taken, initializeAll P ms ctx = { ctx with addressTakenFuncs := taken } := by
  refine foldl_inv (fun s => ∃ taken, s = { ctx with addressTakenFuncs := taken })
    ?_ ms ctx ⟨ctx.addressTakenFuncs, rfl⟩
  rintro _ M ⟨taken, rfl⟩
  refine foldl_inv (fun s => ∃ taken, s = { ctx with addressTakenFuncs := taken })
    ?_ M.functions _ ⟨taken, rfl⟩
  rintro _ f ⟨taken, rfl⟩
  split
  · exact ⟨_, rfl⟩
  · split <;> exact ⟨_, rfl⟩

theorem findCallees_frame (ctx : GlobalContext) (i : Inst) (c : CallData) :
    ∃ callees calls, (findCallees P ctx i c).1 =
      { ctx with callees := callees, indirectCallInsts := calls } := by
  unfold findCallees; split <;> exact ⟨_, _, rfl⟩

theorem runOnFunction_frame (ctx : GlobalContext) (f : Func) :
    ∃ callees calls, (runOnFunction P ctx f).1 =
      { ctx with callees := callees, indirectCallInsts := calls } := by
  unfold runOnFunction
  split
  · exact ⟨_, _, rfl⟩
  · refine foldl_inv (fun s => ∃ callees calls,
      s = { ctx with callees := callees, indirectCallInsts := calls }) ?_ _ ctx
      ⟨ctx.callees, ctx.indirectCallInsts, rfl⟩
    rintro _ i ⟨callees, calls, rfl⟩
    split
    · exact ⟨_, _, rfl⟩
    · split
      · exact ⟨_, _, rfl⟩
      · obtain ⟨callees', calls', same⟩ := findCallees_frame P
          { ctx with callees := callees, indirectCallInsts := calls } i _
        exact ⟨callees', calls', same⟩

theorem resolveAll_frame (ms : List Module) (ctx : GlobalContext) :
    ∃ callees calls, resolveAll P ms ctx =
      { ctx with callees := callees, indirectCallInsts := calls } := by
  have step : ∀ (s : GlobalContext) (f : Func), (∃ callees calls,
      s = { ctx with callees := callees, indirectCallInsts := calls }) →
      ∃ callees calls, (runOnFunction P s f).1 =
        { ctx with callees := callees, indirectCallInsts := calls } := by
    rintro _ f ⟨callees, calls, rfl⟩
    exact runOnFunction_frame P _ f
  refine foldl_inv (fun s => ∃ callees calls,
    s = { ctx with callees := callees, indirectCallInsts := calls }) ?_ ms ctx
    ⟨ctx.callees, ctx.indirectCallInsts, rfl⟩
  intro s M framed
  exact foldl_inv _ step M.functions s framed

theorem finalizeAll_frame (ms : List Module) (ctx : GlobalContext) :
    ∃ callers, finalizeAll P ms ctx = { ctx with callers := callers } := by
  refine foldl_inv (fun s => ∃ callers, s = { ctx with callers := callers })
    ?_ ms ctx ⟨ctx.callers, rfl⟩
  rintro _ M ⟨callers, rfl⟩
  refine foldl_inv (fun s => ∃ callers, s = { ctx with callers := callers })
    ?_ M.functions _ ⟨callers, rfl⟩
  rintro _ f ⟨callers, rfl⟩
  refine foldl_inv (fun s => ∃ callers, s = { ctx with callers := callers })
    ?_ _ _ ⟨callers, rfl⟩
  rintro _ i ⟨callers, rfl⟩
  split
  · exact ⟨_, rfl⟩
  · split <;> exact ⟨_, rfl⟩

section Fields

variable (ms : List Module) (ctx : GlobalContext)

@[simp] theorem initializeAll_modules : (initializeAll P ms ctx).modules = ctx.modules := by
  obtain ⟨_, framed⟩ := initializeAll_frame P ms ctx; rw [framed]

@[simp] theorem initializeAll_funcs : (initializeAll P ms ctx).funcs = ctx.funcs := by
  obtain ⟨_, framed⟩ := initializeAll_frame P ms ctx; rw [framed]

@[simp] theorem initializeAll_callees : (initializeAll P ms ctx).callees = ctx.callees := by
  obtain ⟨_, framed⟩ := initializeAll_frame P ms ctx; rw [framed]

@[simp] theorem initializeAll_callers : (initializeAll P ms ctx).callers = ctx.callers := by
  obtain ⟨_, framed⟩ := initializeAll_frame P ms ctx; rw [framed]

@[simp] theorem resolveAll_modules : (resolveAll P ms ctx).modules = ctx.modules := by
  obtain ⟨_, _, framed⟩ := resolveAll_frame P ms ctx; rw [framed]

@[simp] theorem resolveAll_funcs : (resolveAll P ms ctx).funcs = ctx.funcs := by
  obtain ⟨_, _, framed⟩ := resolveAll_frame P ms ctx; rw [framed]

@[simp] theorem resolveAll_addressTakenFuncs :
    (resolveAll P ms ctx).addressTakenFuncs = ctx.addressTakenFuncs := by
  obtain ⟨_, _, framed⟩ := resolveAll_frame P ms ctx; rw [framed]

@[simp] theorem resolveAll_callers : (resolveAll P ms ctx).callers = ctx.callers := by
  obtain ⟨_, _, framed⟩ := resolveAll_frame P ms ctx; rw [framed]

@[simp] theorem finalizeAll_modules : (finalizeAll P ms ctx).modules = ctx.modules := by
  obtain ⟨_, framed⟩ := finalizeAll_frame P ms ctx; rw [framed]

@[simp] theorem finalizeAll_funcs : (finalizeAll P ms ctx).funcs = ctx.funcs := by
  obtain ⟨_, framed⟩ := finalizeAll_frame P ms ctx; rw [framed]

@[simp] theorem finalizeAll_addressTakenFuncs :
    (finalizeAll P ms ctx).addressTakenFuncs = ctx.addressTakenFuncs := by
  obtain ⟨_, framed⟩ := finalizeAll_frame P ms ctx; rw [framed]

@[simp] theorem finalizeAll_callees : (finalizeAll P ms ctx).callees = ctx.callees := by
  obtain ⟨_, framed⟩ := finalizeAll_frame P ms ctx; rw [framed]

end Fields

theorem run_succ (fuel : Nat) (ctx : GlobalContext) :
    run P (fuel + 1) ctx =
      some (finalizeAll P ctx.modules (resolveAll P ctx.modules (initializeAll P ctx.modules ctx))) := by
  have init : untilStable (sweepList (fun ctx M => some (doInitialization P ctx M)) ctx.modules)
      (fuel + 1) ctx = some (initializeAll P ctx.modules ctx, false) := by
    rw [sweepList_of_stable (doInitialization P) (fun _ _ => rfl)]
    exact untilStable_of_stable rfl fuel
  have pass : ∀ c, untilStable (sweepList (doModulePass P (fuel + 1)) ctx.modules) (fuel + 1) c =
      some (resolveAll P ctx.modules c, false) := by
    intro c
    rw [doModulePass_succ, sweepList_of_pure (resolveModule P)]
    exact untilStable_of_stable rfl fuel
  have final : ∀ c, untilStable (sweepList (fun ctx M => some (doFinalization P ctx M)) ctx.modules)
      (fuel + 1) c = some (finalizeAll P ctx.modules c, false) := by
    intro c
    rw [sweepList_of_stable (doFinalization P) (fun _ _ => rfl)]
    exact untilStable_of_stable rfl fuel
  simp only [run, init, Option.bind_eq_bind, Option.some_bind, initializeAll_modules, pass,
    resolveAll_modules, final]
  rfl

/-! ## What each sweep adds -/

theorem mem_addressTakenFuncs_initializeAll (ms : List Module) (ctx : GlobalContext) (f : Func) :
    f ∈ (initializeAll P ms ctx).addressTakenFuncs ↔ f ∈ ctx.addressTakenFuncs ∨
      (∃ M ∈ ms, f ∈ M.functions) ∧ (P.function f).inInitText = false ∧
        (P.function f).hasAddressTaken = true := by
  have inner : ∀ s M, f ∈ (doInitialization P s M).1.addressTakenFuncs ↔ f ∈ s.addressTakenFuncs ∨
      f ∈ M.functions ∧ (P.function f).inInitText = false ∧
        (P.function f).hasAddressTaken = true := by
    refine fun s M => (foldl_iff_of_grow _ (fun _ => True) (fun s => f ∈ s.addressTakenFuncs)
      (fun g => ((P.function f).inInitText = false ∧ (P.function f).hasAddressTaken = true) ∧ g = f)
      (fun _ _ _ => trivial) (fun s g _ => ?_) M.functions s trivial).trans
      (by rw [exists_eq_right_right])
    dsimp only
    split_ifs with init taken
    · exact (or_iff_left_of_imp fun ⟨⟨outside, _⟩, same⟩ => absurd init (by simp [same, outside])).symm
    · rw [List.mem_insert_iff, or_comm]
      refine or_congr_right ⟨fun same => ⟨?_, same.symm⟩, fun ⟨_, same⟩ => same.symm⟩
      subst same
      exact ⟨Bool.eq_false_iff.2 init, taken⟩
    · exact (or_iff_left_of_imp fun ⟨⟨_, taken'⟩, same⟩ => absurd taken' (by simp [← same, taken])).symm
  unfold initializeAll
  rw [foldl_iff_of_grow _ (fun _ => True) (fun s => f ∈ s.addressTakenFuncs) _
    (fun _ _ _ => trivial) (fun s M _ => inner s M) ms ctx trivial]
  simp only [← and_assoc, exists_and_right]

theorem mem_findCalleesByType (ctx : GlobalContext) (c : CallData) (FS : List Func) (f : Func) :
    f ∈ findCalleesByType P ctx c FS ↔
      f ∈ FS ∨ f ∈ ctx.addressTakenFuncs ∧ matchesCall c (P.function f) = true := by
  refine (foldl_iff_of_grow _ (fun _ => True) (fun FS => f ∈ FS)
    (fun g => matchesCall c (P.function f) = true ∧ g = f) (fun _ _ _ => trivial)
    (fun FS g _ => ?_) _ FS trivial).trans (by rw [exists_eq_right_right])
  dsimp only
  split_ifs with matched
  · rw [List.mem_insert_iff, or_comm]
    exact or_congr_right ⟨fun same => ⟨same ▸ matched, same.symm⟩, fun ⟨_, same⟩ => same.symm⟩
  · exact (or_iff_left_of_imp fun ⟨matched', same⟩ => (matched (same ▸ matched')).elim).symm

theorem resolvesTo_congr {s t : GlobalContext} (funcs : s.funcs = t.funcs)
    (taken : ∀ f, f ∈ s.addressTakenFuncs ↔ f ∈ t.addressTakenFuncs) :
    ResolvesTo P s = ResolvesTo P t := by
  funext c f
  unfold ResolvesTo getFuncDef
  rw [funcs, taken]

theorem mem_callees_findCallees (ctx : GlobalContext) (i : Inst) (c : CallData) (i' : Inst)
    (f : Func) : f ∈ (findCallees P ctx i c).1.callees i' ↔
      f ∈ ctx.callees i' ∨ i' = i ∧ ResolvesTo P ctx c f := by
  unfold findCallees ResolvesTo
  by_cases same : i' = i
  · subst same
    cases c.calledFunction <;> simp [mem_findCalleesByType, or_comm]
  · cases c.calledFunction <;> simp [Function.update_noteq same, same]

theorem mem_callees_runOnFunction (ctx : GlobalContext) (F : Func) (i : Inst) (f : Func) :
    f ∈ (runOnFunction P ctx F).1.callees i ↔ f ∈ ctx.callees i ∨
      (P.function F).inInitText = false ∧ i ∈ P.instructions F ∧ ∃ c, (P.inst i).call = some c ∧
        c.isInlineAsm = false ∧ callsIntrinsic P c = false ∧ ResolvesTo P ctx c f := by
  unfold runOnFunction
  split
  · rename_i init
    exact (or_iff_left_of_imp fun ⟨outside, _⟩ => absurd init (by simp [outside])).symm
  · rename_i outside
    rw [foldl_iff_of_grow _ (fun s => s.funcs = ctx.funcs ∧
        s.addressTakenFuncs = ctx.addressTakenFuncs) (fun s => f ∈ s.callees i)
      (fun j => (∃ c, (P.inst i).call = some c ∧ c.isInlineAsm = false ∧
        callsIntrinsic P c = false ∧ ResolvesTo P ctx c f) ∧ j = i) ?_ ?_ _ ctx ⟨rfl, rfl⟩,
      exists_eq_right_right, and_iff_right (Bool.eq_false_iff.2 outside)]
    · intro s j same
      split
      · exact same
      · split
        · exact same
        · obtain ⟨_, _, framed⟩ := findCallees_frame P s j _
          rw [framed]
          exact same
    · intro s j same
      dsimp only
      split
      · rename_i none
        exact (or_iff_left_of_imp fun ⟨⟨c, call, _⟩, same⟩ => by rw [← same, none] at call; cases call).symm
      · rename_i c call
        split
        · rename_i skipped
          refine (or_iff_left_of_imp fun ⟨⟨c', call', asm, intrinsic, _⟩, same⟩ => ?_).symm
          rw [← same, call, Option.some.injEq] at call'
          simp [call', asm, intrinsic] at skipped
        · rename_i kept
          simp only [Bool.or_eq_true, not_or, Bool.not_eq_true] at kept
          rw [mem_callees_findCallees, resolvesTo_congr P same.1 (by rw [same.2]; simp)]
          refine or_congr_right ⟨fun ⟨same, resolves⟩ => ⟨⟨c, same ▸ call, kept.1, kept.2, resolves⟩,
            same.symm⟩, fun ⟨⟨c', call', _, _, resolves⟩, same⟩ => ⟨same.symm, ?_⟩⟩
          rw [← same, call, Option.some.injEq] at call'
          exact call' ▸ resolves

theorem mem_callees_resolveAll (ms : List Module) (ctx : GlobalContext) (i : Inst) (f : Func) :
    f ∈ (resolveAll P ms ctx).callees i ↔
      f ∈ ctx.callees i ∨ ∃ c, ResolvedSite P ms i c ∧ ResolvesTo P ctx c f := by
  let Frozen := fun s : GlobalContext =>
    s.funcs = ctx.funcs ∧ s.addressTakenFuncs = ctx.addressTakenFuncs
  have keep : ∀ s F, Frozen s → Frozen (runOnFunction P s F).1 := by
    intro s F frozen
    obtain ⟨_, _, framed⟩ := runOnFunction_frame P s F
    rw [framed]
    exact frozen
  have perModule : ∀ s M, Frozen s → (f ∈ (resolveModule P s M).callees i ↔ f ∈ s.callees i ∨
      ∃ F ∈ M.functions, (P.function F).inInitText = false ∧ i ∈ P.instructions F ∧
        ∃ c, (P.inst i).call = some c ∧ c.isInlineAsm = false ∧ callsIntrinsic P c = false ∧
          ResolvesTo P ctx c f) := by
    intro s M frozen
    refine foldl_iff_of_grow _ _ (fun s => f ∈ s.callees i) _ keep ?_ M.functions s frozen
    intro s F frozen
    dsimp only
    rw [mem_callees_runOnFunction, resolvesTo_congr P frozen.1 (by rw [frozen.2]; simp)]
  unfold resolveAll
  rw [foldl_iff_of_grow (resolveModule P) _ (fun s => f ∈ s.callees i) _
    (fun s M frozen => foldl_inv _ (keep · · ·) M.functions s frozen) perModule ms ctx ⟨rfl, rfl⟩]
  refine or_congr_right ⟨?_, ?_⟩
  · rintro ⟨M, module, F, function, outside, mem, c, call, asm, intrinsic, resolves⟩
    exact ⟨c, ⟨⟨M, module, F, function, outside, mem⟩, call, asm, intrinsic⟩, resolves⟩
  · rintro ⟨c, ⟨⟨M, module, F, function, outside, mem⟩, call, asm, intrinsic⟩, resolves⟩
    exact ⟨M, module, F, function, outside, mem, c, call, asm, intrinsic, resolves⟩

theorem mem_get_foldl_insert (l : List Func) (m : CallerMap) (j : Inst) (f : Func) (i : Inst) :
    i ∈ (l.foldl (fun m cf => m.insert cf j) m).get f ↔ i ∈ m.get f ∨ f ∈ l ∧ i = j := by
  rw [foldl_iff_of_grow _ (fun _ => True) (fun m => i ∈ m.get f) (fun cf => i = j ∧ f = cf)
    (fun _ _ _ => trivial) (fun _ _ _ => (CallerMap.mem_insert_get _ _ _ _ _).trans
      (or_congr_right and_comm)) l m trivial, exists_eq_right_right']

theorem mem_callers_finalizeAll (ms : List Module) (ctx : GlobalContext) (f : Func) (i : Inst) :
    i ∈ (finalizeAll P ms ctx).callers.get f ↔ i ∈ ctx.callers.get f ∨
      InModules P ms i ∧ (∃ c, (P.inst i).call = some c ∧ isDbgInfoIntrinsic P c = false) ∧
        f ∈ ctx.callees i := by
  let Frozen := fun s : GlobalContext => s.callees = ctx.callees
  let Linked := fun j : Inst =>
    j = i ∧ (∃ c, (P.inst i).call = some c ∧ isDbgInfoIntrinsic P c = false) ∧ f ∈ ctx.callees i
  let step := fun (s : GlobalContext) (j : Inst) => match (P.inst j).call with
    | none => s
    | some c => if isDbgInfoIntrinsic P c then s
      else { s with callers := (s.callees j).foldl (fun m cf => m.insert cf j) s.callers }
  have keep : ∀ s j, Frozen s → Frozen (step s j) := by
    intro s j frozen
    simp only [step]
    split
    · exact frozen
    · split <;> exact frozen
  have grow : ∀ s j, Frozen s →
      (i ∈ (step s j).callers.get f ↔ i ∈ s.callers.get f ∨ Linked j) := by
    intro s j frozen
    simp only [step, Linked]
    split
    · rename_i none
      exact (or_iff_left_of_imp fun ⟨same, ⟨c, call, _⟩, _⟩ => by
        rw [← same, none] at call; cases call).symm
    · rename_i c call
      split
      · rename_i debug
        refine (or_iff_left_of_imp fun ⟨same, ⟨c', call', kept⟩, _⟩ => ?_).symm
        rw [← same, call, Option.some.injEq] at call'
        simp [← call', debug] at kept
      · rename_i kept
        rw [mem_get_foldl_insert, frozen]
        refine or_congr_right ⟨?_, ?_⟩
        · rintro ⟨callee, rfl⟩
          exact ⟨rfl, ⟨c, call, by simpa using kept⟩, callee⟩
        · rintro ⟨rfl, -, callee⟩
          exact ⟨callee, rfl⟩
  have perFunction : ∀ s F, Frozen s → (i ∈ ((P.instructions F).foldl step s).callers.get f ↔
      i ∈ s.callers.get f ∨ ∃ j ∈ P.instructions F, Linked j) :=
    fun s F frozen => foldl_iff_of_grow _ _ (fun s => i ∈ s.callers.get f) _ keep grow _ s frozen
  have perModule : ∀ s M, Frozen s → (i ∈ (doFinalization P s M).1.callers.get f ↔
      i ∈ s.callers.get f ∨ ∃ F ∈ M.functions, ∃ j ∈ P.instructions F, Linked j) :=
    fun s M frozen => foldl_iff_of_grow _ _ (fun s => i ∈ s.callers.get f) _
      (fun s F frozen => foldl_inv _ keep _ s frozen) perFunction M.functions s frozen
  unfold finalizeAll
  rw [foldl_iff_of_grow (fun ctx M => (doFinalization P ctx M).1) _ (fun s => i ∈ s.callers.get f) _
    (fun s M frozen => foldl_inv _ (fun s F frozen => foldl_inv _ keep _ s frozen) M.functions s frozen)
    perModule ms ctx rfl]
  refine or_congr_right ⟨?_, ?_⟩
  · rintro ⟨M, module, F, function, j, mem, rfl, kept, callee⟩
    exact ⟨⟨M, module, F, function, mem⟩, kept, callee⟩
  · rintro ⟨⟨M, module, F, function, mem⟩, kept, callee⟩
    exact ⟨M, module, F, function, i, mem, rfl, kept, callee⟩

end

end SliceAnalyzer
