import SliceAnalyzer.CallGraph.Phase

/-!
# The call graph and the order of loading

Of two definitions registered under one key the later wins, so the call graph depends on the load
order only through such pairs (`callGraph_load_order_invariant`, `sys_rename_load_order`).
-/

namespace SliceAnalyzer

section

variable (P : Program)

/-- No two different definitions of the modules `ms` are registered under one key. -/
def UniqueRegistration (ms : List Module) : Prop :=
  ∀ M ∈ ms, ∀ N ∈ ms, ∀ d ∈ M.functions, ∀ d' ∈ N.functions, isRegistered P d = true →
    isRegistered P d' = true →
    registrationKey (P.function d).name = registrationKey (P.function d').name → d = d'

instance (ms : List Module) : Decidable (UniqueRegistration P ms) := by
  unfold UniqueRegistration; infer_instance

/-- `n` further runs of `IterativeModulePass::run` over the modules already loaded. -/
def rerun (fuel : Nat) : Nat → GlobalContext → Option GlobalContext
  | 0, ctx => some ctx
  | n + 1, ctx => run P fuel ctx >>= rerun fuel n

variable {P}

theorem UniqueRegistration.eq {ms : List Module} (unique : UniqueRegistration P ms) {key : String}
    {d d' : Func} (first : RegisteredIn P ms key d) (second : RegisteredIn P ms key d') : d = d' := by
  obtain ⟨⟨M, module, function⟩, registered, named⟩ := first
  obtain ⟨⟨N, module', function'⟩, registered', named'⟩ := second
  exact unique M module N module' d function d' function' registered registered'
    (named.trans named'.symm)

theorem uniqueRegistration_congr {ms ms' : List Module} (same : ∀ M, M ∈ ms ↔ M ∈ ms') :
    UniqueRegistration P ms ↔ UniqueRegistration P ms' := by
  simp only [UniqueRegistration, same]

theorem registeredIn_congr {ms ms' : List Module} (same : ∀ M, M ∈ ms ↔ M ∈ ms') :
    RegisteredIn P ms = RegisteredIn P ms' := by
  funext key d
  simp only [RegisteredIn, same]

theorem loadModules_funcs_iff {inputs : List (Option Module)}
    (unique : UniqueRegistration P (loaded inputs)) (key : String) (d : Func) :
    (loadModules P inputs).funcs key = some d ↔ RegisteredIn P (loaded inputs) key d := by
  refine ⟨loadModules_funcs P inputs key d, fun registered => ?_⟩
  obtain ⟨d', stored⟩ := Option.isSome_iff_exists.1
    ((loadModules_funcs_isSome P inputs key).2 ⟨d, registered⟩)
  rw [stored, unique.eq (loadModules_funcs P inputs key d' stored) registered]

theorem loadModules_funcs_perm {inputs₁ inputs₂ : List (Option Module)} (perm : inputs₁.Perm inputs₂)
    (unique : UniqueRegistration P (loaded inputs₁)) :
    (loadModules P inputs₁).funcs = (loadModules P inputs₂).funcs := by
  have same : ∀ M, M ∈ loaded inputs₁ ↔ M ∈ loaded inputs₂ := fun _ => (perm.filterMap id).mem_iff
  funext key
  refine Option.ext fun d => ?_
  rw [Option.mem_def, Option.mem_def, loadModules_funcs_iff unique,
    loadModules_funcs_iff ((uniqueRegistration_congr same).1 unique), registeredIn_congr same]

theorem PhaseResult.callGraph_eq {inputs₁ inputs₂ : List (Option Module)} {ctx₁ ctx₂ : GlobalContext}
    (result₁ : PhaseResult P inputs₁ ctx₁) (result₂ : PhaseResult P inputs₂ ctx₂)
    (same : ∀ M, M ∈ loaded inputs₁ ↔ M ∈ loaded inputs₂)
    (funcs : (loadModules P inputs₁).funcs = (loadModules P inputs₂).funcs) :
    (∀ i f, f ∈ ctx₁.callees i ↔ f ∈ ctx₂.callees i) ∧
      ∀ f i, i ∈ ctx₁.callers.get f ↔ i ∈ ctx₂.callers.get f := by
  have taken : ∀ f, f ∈ ctx₁.addressTakenFuncs ↔ f ∈ ctx₂.addressTakenFuncs := by
    intro f
    simp only [result₁.mem_addressTakenFuncs, result₂.mem_addressTakenFuncs, same]
  have resolves : ResolvesTo P ctx₁ = ResolvesTo P ctx₂ :=
    resolvesTo_congr P (by rw [result₁.funcs, result₂.funcs, funcs]) taken
  have sites : ResolvedSite P (loaded inputs₁) = ResolvedSite P (loaded inputs₂) := by
    funext i c
    simp only [ResolvedSite, same]
  have callees : ∀ i f, f ∈ ctx₁.callees i ↔ f ∈ ctx₂.callees i := by
    intro i f
    rw [result₁.mem_callees, result₂.mem_callees, resolves, sites]
  refine ⟨callees, fun f i => ?_⟩
  rw [result₁.mem_callers, result₂.mem_callers, callees]
  simp only [InModules, same]

theorem rerun_of_phaseResult (fuel n : Nat) {inputs : List (Option Module)} {ctx : GlobalContext}
    (result : PhaseResult P inputs ctx) :
    ∃ ctx', rerun P (fuel + 1) n ctx = some ctx' ∧ PhaseResult P inputs ctx' := by
  induction n generalizing ctx with
  | zero => exact ⟨ctx, rfl, result⟩
  | succ n ih =>
      obtain ⟨ctx₁, ran, result₁⟩ := run_of_phaseResult P fuel inputs ctx result
      obtain ⟨ctx', reran, result'⟩ := ih result₁
      exact ⟨ctx', by simp [rerun, ran, reran], result'⟩

variable (P)

theorem callGraph_load_order_invariant (fuel₁ fuel₂ n₁ n₂ : Nat)
    {inputs₁ inputs₂ : List (Option Module)} (perm : inputs₁.Perm inputs₂)
    (unique : UniqueRegistration P (loaded inputs₁)) :
    ∃ ctx₁ ctx₂, (callGraphPhase P (fuel₁ + 1) inputs₁ >>= rerun P (fuel₁ + 1) n₁) = some ctx₁ ∧
      (callGraphPhase P (fuel₂ + 1) inputs₂ >>= rerun P (fuel₂ + 1) n₂) = some ctx₂ ∧
      (∀ i f, f ∈ ctx₁.callees i ↔ f ∈ ctx₂.callees i) ∧
      ∀ f i, i ∈ ctx₁.callers.get f ↔ i ∈ ctx₂.callers.get f := by
  obtain ⟨phased₁, phase₁, result₁⟩ := callGraphPhase_result P fuel₁ inputs₁
  obtain ⟨phased₂, phase₂, result₂⟩ := callGraphPhase_result P fuel₂ inputs₂
  obtain ⟨ctx₁, reran₁, final₁⟩ := rerun_of_phaseResult fuel₁ n₁ result₁
  obtain ⟨ctx₂, reran₂, final₂⟩ := rerun_of_phaseResult fuel₂ n₂ result₂
  refine ⟨ctx₁, ctx₂, by rw [phase₁]; exact reran₁, by rw [phase₂]; exact reran₂,
    final₁.callGraph_eq final₂ (fun _ => (perm.filterMap id).mem_iff)
      (loadModules_funcs_perm perm unique)⟩

/-- `a.bc` defines `caller` and `sys_x`, `b.bc` defines `__sys_x`, `c.bc` defines `helper`. -/
def renameArena : Arena where
  functions := [
    { name := "caller", blocks := [⟨0⟩], moduleIdentifier := "a.bc" },
    { name := "sys_x", blocks := [⟨1⟩], moduleIdentifier := "a.bc" },
    { name := "__sys_x", blocks := [⟨2⟩], moduleIdentifier := "b.bc" },
    { name := "helper", blocks := [⟨3⟩], moduleIdentifier := "c.bc" }]
  blocks := [{ parent := ⟨0⟩, insts := [⟨0⟩] }, { parent := ⟨1⟩ }, { parent := ⟨2⟩ },
    { parent := ⟨3⟩ }]
  insts := [{ parent := ⟨0⟩, call := some { calledFunction := some ⟨1⟩ } }]

def renameProgram : Program := ⟨renameArena, by decide⟩

def renameA : Module := ⟨"a.bc", [⟨0⟩, ⟨1⟩]⟩

def renameB : Module := ⟨"b.bc", [⟨2⟩]⟩

def renameC : Module := ⟨"c.bc", [⟨3⟩]⟩

theorem load_order_invariant_a_c : ∃ ctx₁ ctx₂,
    (callGraphPhase renameProgram 1 [some renameA, some renameC] >>= rerun renameProgram 1 0) =
      some ctx₁ ∧
    (callGraphPhase renameProgram 1 [some renameC, some renameA] >>= rerun renameProgram 1 2) =
      some ctx₂ ∧
    (∀ i f, f ∈ ctx₁.callees i ↔ f ∈ ctx₂.callees i) ∧
    ∀ f i, i ∈ ctx₁.callers.get f ↔ i ∈ ctx₂.callers.get f :=
  callGraph_load_order_invariant renameProgram 0 0 0 2 (List.Perm.swap _ _ []) (by decide)

/-- Two definitions of one name are one function: the hypothesis of distinct definition names. -/
def DistinctDefinitionNames (ms : List Module) : Prop :=
  ∀ M ∈ ms, ∀ N ∈ ms, ∀ d ∈ M.functions, ∀ d' ∈ N.functions, isRegistered P d = true →
    isRegistered P d' = true → (P.function d).name = (P.function d').name → d = d'

instance (ms : List Module) : Decidable (DistinctDefinitionNames P ms) := by
  unfold DistinctDefinitionNames; infer_instance

theorem sys_rename_load_order :
    DistinctDefinitionNames renameProgram [renameA, renameB] ∧ ∃ ctx₁ ctx₂,
      callGraphPhase renameProgram 1 [some renameA, some renameB] = some ctx₁ ∧
      callGraphPhase renameProgram 1 [some renameB, some renameA] = some ctx₂ ∧
      ctx₁.callees ⟨0⟩ = [⟨2⟩] ∧ ctx₂.callees ⟨0⟩ = [⟨1⟩] :=
  ⟨by decide, _, _, rfl, rfl, by decide, by decide⟩

end

end SliceAnalyzer
