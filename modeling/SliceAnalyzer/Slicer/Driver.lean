import SliceAnalyzer.Slicer.Backward
import SliceAnalyzer.Slicer.Output
import SliceAnalyzer.CallGraph.Phase

/-!
# The slicing drivers of `main`

Sequences of top-level calls on one `Slicing` object, then `dump`; `BackwardSlice` holds after
every call (`backwardSlice_exact`).
-/

namespace SliceAnalyzer

/-- A top-level call of `main` on the `Slicing` object. -/
inductive SliceCall where
  | sliceFunction (F : Func)
  | backtracking (BB : BasicBlock)
  | forwardSlicingFunction (F : Func)
  | forwardSlicingFunctionStub (funcName : String)
  deriving DecidableEq

section

variable (P : Program)

/-- One top-level call; a backward slice starts with the fuel `sliceFuel`. -/
def runCall (s : Slicing) : SliceCall → Option Slicing
  | .sliceFunction F => sliceFunction P (sliceFuel P) s F
  | .backtracking BB => backtracking P (sliceFuel P) s BB
  | .forwardSlicingFunction F => forwardSlicingFunction P s F
  | .forwardSlicingFunctionStub funcName => forwardSlicingFunctionStub P s funcName

def runCalls (s : Slicing) (calls : List SliceCall) : Option Slicing := calls.foldlM (runCall P) s

/-- The calls of `main` for the target function `F`. -/
def targetCalls (F : Func) : List SliceCall :=
  [.sliceFunction F, .forwardSlicingFunction F,
    .forwardSlicingFunctionStub "LLVMFuzzerInitialize",
    .forwardSlicingFunctionStub "LLVMFuzzerTestOneInput",
    .forwardSlicingFunctionStub "LLVMFuzzerRunDriver"]

/-- `main` with a target function: the files of `dump`. -/
def sliceTarget (ctx : GlobalContext) (F : Func) : Option SliceFiles := do
  let s ← runCalls P (cacheAllLLVMObjects P (Slicing.new ctx)) (targetCalls F)
  (dump P s).map Prod.snd

/-- `main` with a target line in the block `BB`. -/
def sliceLine (ctx : GlobalContext) (BB : BasicBlock) : Option SliceFiles := do
  let s ← runCalls P (cacheAllLLVMObjects P (Slicing.new ctx)) [.backtracking BB]
  (dump P s).map Prod.snd

/-- The batch mode of `main`: the calls of every target in turn on one object, then one `dump`. -/
def sliceBatch (ctx : GlobalContext) (targets : List Func) : Option SliceFiles := do
  let s ← runCalls P (cacheAllLLVMObjects P (Slicing.new ctx)) (targets.flatMap targetCalls)
  (dump P s).map Prod.snd

/-- The function a top-level call slices backward from, if it slices backward. -/
def SliceCall.root : SliceCall → Option Func
  | .sliceFunction F => some F
  | .backtracking BB => some (P.block BB).parent
  | _ => none

/-- The function a top-level call slices forward from, if it slices forward. -/
def SliceCall.forwardRoot (ctx : GlobalContext) : SliceCall → Option Func
  | .forwardSlicingFunction F => some F
  | .forwardSlicingFunctionStub funcName => ctx.modules.findSome? (getFunction P · funcName)
  | _ => none

/-- What the calls so far have made of the backward slice over the registry `ctx₀`. -/
structure BackwardSlice (ctx₀ : GlobalContext) (roots verbose₀ : List Func) (s : Slicing) :
    Prop where
  touched : Touched ctx₀ s.ctx
  visitedF : ∀ f, f ∈ s.visitedF ↔ ∃ r ∈ roots, Relation.ReflTransGen (CallerStep P ctx₀) r f
  blocks : BlocksOfVisited P s
  verbose_visited : ∀ f ∈ s.visitedF, f ∈ s.verboseF
  verboseF : ∀ g ∈ s.verboseF, g ∈ verbose₀ ∨ g ∈ s.visitedF ∨
    ∃ f ∈ s.visitedF, SiblingCallee P ctx₀ f g

variable {P}

theorem mem_of_reflTransGen {R : Func → Func → Prop} {S : Func → Prop}
    (closed : ∀ f E, S f → R f E → S E) {r f : Func} (path : Relation.ReflTransGen R r f)
    (start : S r) : S f := by
  induction path with
  | refl => exact start
  | tail _ step reached => exact closed _ _ reached step

theorem PhaseResult.callSiteBlocks {inputs : List (Option Module)} {ctx : GlobalContext}
    (result : PhaseResult P inputs ctx) (G : Func) (cb : Inst) (caller : cb ∈ ctx.callers.get G) :
    (P.parentBlock cb).id < P.blocks.length := by
  obtain ⟨⟨M, -, F, -, site⟩, -, -⟩ := (result.mem_callers G cb).1 caller
  exact P.block_lt_of_mem (P.parentFunc_of_mem_instructions site).2

variable {ctx₀ : GlobalContext} {roots verbose₀ : List Func} {s : Slicing}

namespace BackwardSlice

theorem fresh {s₀ : Slicing} (noFuncs : s₀.visitedF = []) (noBlocks : s₀.visitedBB = []) :
    BackwardSlice P s₀.ctx [] s₀.verboseF s₀ :=
  ⟨Touched.refl s₀.ctx, by simp [noFuncs], by simp [BlocksOfVisited, noFuncs, noBlocks],
    by simp [noFuncs], fun _ member => .inl member⟩

theorem closed (slice : BackwardSlice P ctx₀ roots verbose₀ s) {f E : Func} (member : f ∈ s.visitedF)
    (step : CallerStep P ctx₀ f E) : E ∈ s.visitedF := by
  obtain ⟨r, root, path⟩ := (slice.visitedF f).1 member
  exact (slice.visitedF E).2 ⟨r, root, path.tail step⟩

theorem sliced (slice : BackwardSlice P ctx₀ roots verbose₀ s) {F : Func} {s' : Slicing}
    (sliced : Sliced P ctx₀ s F s') : BackwardSlice P ctx₀ (roots ++ [F]) verbose₀ s' := by
  refine ⟨slice.touched.trans sliced.touched, fun f => ⟨fun member => ?_, fun ⟨r, root, path⟩ => ?_⟩,
    sliced.blocks, fun f member => ?_, fun g member => ?_⟩
  · rcases sliced.reached f member with old | path
    · obtain ⟨r, root, path⟩ := (slice.visitedF f).1 old
      exact ⟨r, List.mem_append_left _ root, path⟩
    · exact ⟨F, List.mem_append_right _ (List.mem_singleton_self F), path⟩
  · have closed : ∀ f E, f ∈ s'.visitedF → CallerStep P ctx₀ f E → E ∈ s'.visitedF := by
      intro f E member step
      by_cases old : f ∈ s.visitedF
      · exact sliced.visitedF_mono E (slice.closed old step)
      · exact sliced.closed f member old E step
    refine mem_of_reflTransGen closed path ?_
    rcases List.mem_append.1 root with old | new
    · exact sliced.visitedF_mono r ((slice.visitedF r).2 ⟨r, old, .refl⟩)
    · rw [List.mem_singleton.1 new]
      exact sliced.mem_visitedF
  · exact (sliced.verbose_visited f member).elim
      (fun old => sliced.verboseF_mono f (slice.verbose_visited f old)) id
  · rcases sliced.verboseF_sound g member with old | visited | sibling
    · rcases slice.verboseF g old with start | visited | ⟨f, sliced', sibling⟩
      · exact .inl start
      · exact .inr (.inl (sliced.visitedF_mono g visited))
      · exact .inr (.inr ⟨f, sliced.visitedF_mono f sliced', sibling⟩)
    · exact .inr (.inl visited)
    · exact .inr (.inr sibling)

theorem forward (slice : BackwardSlice P ctx₀ roots verbose₀ s) {s' : Slicing} (frame : ForwardFrame s s') :
    BackwardSlice P ctx₀ roots verbose₀ s' := by
  obtain ⟨fVisitedF, verboseBB, rfl, -, -⟩ := frame
  exact { slice with }

theorem mem_blockLines (slice : BackwardSlice P ctx₀ roots verbose₀ s) (line : String) :
    line ∈ s.visitedBB.filterMap (blockLine P) ↔ ∃ r ∈ roots, ∃ f,
      Relation.ReflTransGen (CallerStep P ctx₀) r f ∧
        ∃ BB ∈ (P.function f).blocks, blockLine P BB = some line := by
  rw [List.mem_filterMap]
  constructor
  · rintro ⟨BB, visited, written⟩
    obtain ⟨f, sliced, block⟩ := (slice.blocks BB).1 visited
    obtain ⟨r, root, path⟩ := (slice.visitedF f).1 sliced
    exact ⟨r, root, f, path, BB, block, written⟩
  · rintro ⟨r, root, f, path, BB, block, written⟩
    exact ⟨BB, (slice.blocks BB).2 ⟨f, (slice.visitedF f).2 ⟨r, root, path⟩, block⟩, written⟩

end BackwardSlice

theorem ForwardSlice.backward (slice : ForwardSlice P ctx₀ roots s) {s' : Slicing}
    (frame : BackwardFrame s s') : ForwardSlice P ctx₀ roots s' :=
  ⟨by rw [frame.fVisitedF]; exact slice.reached, by rw [frame.fVisitedF]; exact slice.closed,
    by rw [frame.fVisitedF, frame.verboseBB]; exact slice.verboseBB⟩

section

variable (inArena : ∀ G cb, cb ∈ ctx₀.callers.get G → (P.parentBlock cb).id < P.blocks.length)
include inArena

theorem runCall_spec (slice : BackwardSlice P ctx₀ roots verbose₀ s) (call : SliceCall)
    (line : ∀ BB, call = .backtracking BB → BB.id < P.blocks.length) :
    ∃ s', runCall P s call = some s' ∧
      BackwardSlice P ctx₀ (roots ++ (SliceCall.root P call).toList) verbose₀ s' := by
  have enough := unsliced_le_length (P := P) s
  cases call with
  | sliceFunction F =>
      obtain ⟨s', sliced, result⟩ := sliceFunction_spec inArena (sliceFuel P) s F slice.touched
        (slice.blocks.marked F) (by unfold sliceFuel; split <;> omega)
      exact ⟨s', sliced, slice.sliced result⟩
  | backtracking BB =>
      obtain ⟨s', sliced, result⟩ := backtracking_spec inArena (sliceFuel P) s BB slice.touched
        slice.blocks (line BB rfl) (by unfold sliceFuel; omega)
      exact ⟨s', sliced, slice.sliced result⟩
  | forwardSlicingFunction F =>
      obtain ⟨s', walked, frame⟩ := forwardSlicingFunction_spec s F
      exact ⟨s', walked, by simpa [SliceCall.root] using slice.forward frame⟩
  | forwardSlicingFunctionStub funcName =>
      obtain ⟨s', walked, frame⟩ := forwardSlicingFunctionStub_spec s funcName
      exact ⟨s', walked, by simpa [SliceCall.root] using slice.forward frame⟩

theorem runCalls_spec : ∀ (calls : List SliceCall) (s : Slicing) (roots : List Func),
    BackwardSlice P ctx₀ roots verbose₀ s →
    (∀ BB, .backtracking BB ∈ calls → BB.id < P.blocks.length) →
    ∃ s', runCalls P s calls = some s' ∧
      BackwardSlice P ctx₀ (roots ++ calls.filterMap (SliceCall.root P)) verbose₀ s'
  | [], s, roots, slice, _ => ⟨s, rfl, by simpa using slice⟩
  | call :: calls, s, roots, slice, lines => by
      obtain ⟨s₁, ran, slice₁⟩ := runCall_spec inArena slice call
        (fun BB same => lines BB (same ▸ List.mem_cons_self _ _))
      obtain ⟨s', rest, slice'⟩ := runCalls_spec calls s₁ _ slice₁
        (fun BB member => lines BB (List.mem_cons_of_mem _ member))
      refine ⟨s', by rw [runCalls, List.foldlM_cons, ran]; exact rest, ?_⟩
      cases root : SliceCall.root P call <;> simpa [List.filterMap_cons, root] using slice'

theorem runCall_forward (touched : Touched ctx₀ s.ctx) (slice : ForwardSlice P ctx₀ roots s)
    (call : SliceCall) :
    ∃ s', runCall P s call = some s' ∧ Touched ctx₀ s'.ctx ∧
      ForwardSlice P ctx₀ (roots ++ (SliceCall.forwardRoot P ctx₀ call).toList) s' := by
  have here : ForwardSlice P s.ctx roots s := slice.of_callees touched.callees
  cases call with
  | sliceFunction F =>
      obtain ⟨s', sliced, frame⟩ :=
        sliceFunction_terminates inArena _ s F touched (unsliced_lt_sliceFuel s F)
      exact ⟨s', sliced, touched.trans frame.touched,
        by simpa [SliceCall.forwardRoot] using slice.backward frame⟩
  | backtracking BB =>
      obtain ⟨s', back, frame⟩ := backtrackingWith_terminates (sliceFunction_terminates inArena _)
        s BB touched (unsliced_lt_sliceFuel s _)
      exact ⟨s', back, touched.trans frame.touched,
        by simpa [SliceCall.forwardRoot] using slice.backward frame⟩
  | forwardSlicingFunction F =>
      obtain ⟨s', walked, frame, slice'⟩ := forwardSlicingFunction_slice here F
      exact ⟨s', walked, frame.ctx ▸ touched, slice'.of_callees touched.callees.symm⟩
  | forwardSlicingFunctionStub funcName =>
      obtain ⟨s', walked, frame, slice'⟩ := forwardSlicingFunctionStub_slice here funcName
      rw [touched.modules] at slice'
      exact ⟨s', walked, frame.ctx ▸ touched, slice'.of_callees touched.callees.symm⟩

theorem runCalls_forward : ∀ (calls : List SliceCall) (s : Slicing) (roots : List Func),
    Touched ctx₀ s.ctx → ForwardSlice P ctx₀ roots s →
    ∃ s', runCalls P s calls = some s' ∧ Touched ctx₀ s'.ctx ∧
      ForwardSlice P ctx₀ (roots ++ calls.filterMap (SliceCall.forwardRoot P ctx₀)) s'
  | [], s, roots, touched, slice => ⟨s, rfl, touched, by simpa using slice⟩
  | call :: calls, s, roots, touched, slice => by
      obtain ⟨s₁, ran, touched₁, slice₁⟩ := runCall_forward inArena touched slice call
      obtain ⟨s', rest, touched', slice'⟩ := runCalls_forward calls s₁ _ touched₁ slice₁
      refine ⟨s', by rw [runCalls, List.foldlM_cons, ran]; exact rest, touched', ?_⟩
      cases root : SliceCall.forwardRoot P ctx₀ call <;>
        simpa [List.filterMap_cons, root] using slice'

end

theorem runCalls_fresh {fuel : Nat} {inputs : List (Option Module)} {s₀ : Slicing}
    (phase : callGraphPhase P (fuel + 1) inputs = some s₀.ctx) (noFuncs : s₀.visitedF = [])
    (noBlocks : s₀.visitedBB = []) (calls : List SliceCall)
    (lines : ∀ BB, .backtracking BB ∈ calls → BB.id < P.blocks.length) :
    ∃ s, runCalls P s₀ calls = some s ∧
      BackwardSlice P s₀.ctx (calls.filterMap (SliceCall.root P)) s₀.verboseF s := by
  obtain ⟨ctx, phased, result⟩ := callGraphPhase_result P fuel inputs
  obtain rfl : ctx = s₀.ctx := Option.some.inj (phased.symm.trans phase)
  simpa using runCalls_spec result.callSiteBlocks calls s₀ [] (.fresh noFuncs noBlocks) lines

theorem sliceFiles_of_calls {fuel : Nat} {inputs : List (Option Module)} {ctx : GlobalContext}
    (phase : callGraphPhase P (fuel + 1) inputs = some ctx) (calls : List SliceCall)
    (lines : ∀ BB, .backtracking BB ∈ calls → BB.id < P.blocks.length) :
    ∃ s, (runCalls P (cacheAllLLVMObjects P (Slicing.new ctx)) calls >>= fun s =>
      (dump P s).map Prod.snd) = some (sliceFiles P s) ∧
      BackwardSlice P ctx (calls.filterMap (SliceCall.root P)) [] s := by
  obtain ⟨s, ran, slice⟩ :=
    @runCalls_fresh P fuel inputs (cacheAllLLVMObjects P (Slicing.new ctx)) phase rfl rfl calls lines
  obtain ⟨s', dumped, frame⟩ := dump_spec (P := P) s
  exact ⟨s', by simp only [ran, dumped, Option.bind_eq_bind, Option.some_bind, Option.map_some'],
    slice.forward frame⟩

theorem sliceFiles_slice {fuel : Nat} {inputs : List (Option Module)} {ctx : GlobalContext}
    (phase : callGraphPhase P (fuel + 1) inputs = some ctx) (calls : List SliceCall)
    (lines : ∀ BB, .backtracking BB ∈ calls → BB.id < P.blocks.length) :
    ∃ files, (runCalls P (cacheAllLLVMObjects P (Slicing.new ctx)) calls >>= fun s =>
      (dump P s).map Prod.snd) = some files ∧ files.sliceVerbose = files.slice ∧ ∀ line,
        line ∈ files.slice ↔ ∃ r ∈ calls.filterMap (SliceCall.root P), ∃ f,
          Relation.ReflTransGen (CallerStep P ctx) r f ∧
            ∃ BB ∈ (P.function f).blocks, blockLine P BB = some line := by
  obtain ⟨s, ran, slice⟩ := sliceFiles_of_calls phase calls lines
  exact ⟨_, ran, rfl, slice.mem_blockLines⟩

theorem sliceTarget_slice {fuel : Nat} {inputs : List (Option Module)} {ctx : GlobalContext}
    (phase : callGraphPhase P (fuel + 1) inputs = some ctx) (T : Func) :
    ∃ files, sliceTarget P ctx T = some files ∧ files.sliceVerbose = files.slice ∧ ∀ line,
      line ∈ files.slice ↔ ∃ f, Relation.ReflTransGen (CallerStep P ctx) T f ∧
        ∃ BB ∈ (P.function f).blocks, blockLine P BB = some line := by
  obtain ⟨files, ran, verbose, lines⟩ := sliceFiles_slice phase (targetCalls T)
    fun BB member => by simp [targetCalls] at member
  exact ⟨files, ran, verbose, fun line => (lines line).trans (by simp [targetCalls, SliceCall.root])⟩

end

/-- `entry` calls `foo` and `target`; `other` calls `foo` and `sys_x`, resolved to `__sys_x`. -/
def siblingArena : Arena where
  functions := [
    { name := "target", blocks := [⟨0⟩], moduleIdentifier := "main.bc" },
    { name := "entry", blocks := [⟨1⟩], moduleIdentifier := "main.bc" },
    { name := "foo", blocks := [⟨2⟩], moduleIdentifier := "main.bc" },
    { name := "other", blocks := [⟨3⟩], moduleIdentifier := "main.bc" },
    { name := "sys_x", blocks := [⟨4⟩], subprogram := some ⟨3, "sys.c", "/src"⟩,
      moduleIdentifier := "main.bc" },
    { name := "__sys_x", blocks := [⟨5⟩], moduleIdentifier := "sys.bc" }]
  blocks := [{ parent := ⟨0⟩ }, { parent := ⟨1⟩, insts := [⟨0⟩, ⟨1⟩] },
    { parent := ⟨2⟩, insts := [⟨2⟩] }, { parent := ⟨3⟩, insts := [⟨3⟩, ⟨4⟩] }, { parent := ⟨4⟩ },
    { parent := ⟨5⟩ }]
  insts := [
    { parent := ⟨1⟩, call := some { calledFunction := some ⟨2⟩ } },
    { parent := ⟨1⟩, call := some { calledFunction := some ⟨0⟩ } },
    { parent := ⟨2⟩, call := some { calledFunction := some ⟨0⟩ } },
    { parent := ⟨3⟩, call := some { calledFunction := some ⟨2⟩ } },
    { parent := ⟨3⟩, call := some { calledFunction := some ⟨4⟩ } }]

def siblingProgram : Program := ⟨siblingArena, by decide⟩

def siblingInputs : List (Option Module) :=
  [some ⟨"main.bc", [⟨0⟩, ⟨1⟩, ⟨2⟩, ⟨3⟩, ⟨4⟩]⟩, some ⟨"sys.bc", [⟨5⟩]⟩]

/-- The registry of the call-graph phase over `siblingProgram`. -/
def siblingCtx : GlobalContext := (callGraphPhase siblingProgram 1 siblingInputs).getD .empty

theorem siblingCtx_phase : callGraphPhase siblingProgram 1 siblingInputs = some siblingCtx := by
  obtain ⟨ctx, phase, -⟩ := callGraphPhase_result siblingProgram 0 siblingInputs
  rw [siblingCtx, phase]
  rfl

theorem exists_eq_some_of_any {α : Type} {o : Option α} {p : α → Prop} [DecidablePred p]
    (evaluated : o.any (fun a => decide (p a)) = true) : ∃ a, o = some a ∧ p a := by
  cases o with
  | none => cases evaluated
  | some a => exact ⟨a, rfl, of_decide_eq_true evaluated⟩

theorem backwardSlice_exact (P : Program) (fuel : Nat) (inputs : List (Option Module))
    (s₀ : Slicing) (calls : List SliceCall)
    (phase : callGraphPhase P (fuel + 1) inputs = some s₀.ctx)
    (noFuncs : s₀.visitedF = []) (noBlocks : s₀.visitedBB = [])
    (lines : ∀ BB, .backtracking BB ∈ calls → BB.id < P.blocks.length) :
    ∃ s, runCalls P s₀ calls = some s ∧
      (∀ f, f ∈ s.visitedF ↔ ∃ r ∈ calls.filterMap (SliceCall.root P),
        Relation.ReflTransGen (CallerStep P s₀.ctx) r f) ∧
      ∀ b, b ∈ s.visitedBB ↔ ∃ f ∈ s.visitedF, b ∈ (P.function f).blocks :=
  let ⟨s, ran, slice⟩ := runCalls_fresh phase noFuncs noBlocks calls lines
  ⟨s, ran, slice.visitedF, slice.blocks⟩

theorem backwardSlice_exact_foo_other : ∃ ctx, callGraphPhase siblingProgram 1 siblingInputs = some ctx ∧
    ∃ s, runCalls siblingProgram (Slicing.new ctx) [.sliceFunction ⟨2⟩, .backtracking ⟨3⟩] = some s ∧
      (∀ f, f ∈ s.visitedF ↔ ∃ r ∈ [SliceCall.sliceFunction ⟨2⟩, .backtracking ⟨3⟩].filterMap
        (SliceCall.root siblingProgram), Relation.ReflTransGen (CallerStep siblingProgram ctx) r f) ∧
      ∀ b, b ∈ s.visitedBB ↔ ∃ f ∈ s.visitedF, b ∈ (siblingProgram.function f).blocks :=
  let ⟨ctx, phase, _⟩ := callGraphPhase_result siblingProgram 0 siblingInputs
  ⟨ctx, phase, backwardSlice_exact siblingProgram 0 siblingInputs (Slicing.new ctx) _ phase rfl rfl
    fun BB member => by simp at member; subst member; decide⟩

theorem slicing_touches_registry_only (P : Program) (fuel : Nat) (inputs : List (Option Module))
    (s₀ : Slicing) (calls : List SliceCall)
    (phase : callGraphPhase P (fuel + 1) inputs = some s₀.ctx)
    (noFuncs : s₀.visitedF = []) (noBlocks : s₀.visitedBB = [])
    (lines : ∀ BB, .backtracking BB ∈ calls → BB.id < P.blocks.length) :
    ∃ s s' files, runCalls P s₀ calls = some s ∧ dump P s = some (s', files) ∧
      Touched s₀.ctx s'.ctx := by
  obtain ⟨s, ran, slice⟩ := runCalls_fresh phase noFuncs noBlocks calls lines
  obtain ⟨s', dumped, _, _, rfl, -, -⟩ := dump_spec (P := P) s
  exact ⟨s, _, _, ran, dumped, slice.touched⟩

theorem slicing_touches_registry_only_target : ∃ ctx,
    callGraphPhase siblingProgram 1 siblingInputs = some ctx ∧
    ∃ s s' files, runCalls siblingProgram (Slicing.new ctx) (targetCalls ⟨0⟩) = some s ∧
      dump siblingProgram s = some (s', files) ∧ Touched ctx s'.ctx :=
  let ⟨ctx, phase, _⟩ := callGraphPhase_result siblingProgram 0 siblingInputs
  ⟨ctx, phase, slicing_touches_registry_only siblingProgram 0 siblingInputs (Slicing.new ctx) _
    phase rfl rfl fun BB member => by simp [targetCalls] at member⟩

theorem sliceFunction_adds_callers_key :
    callGraphPhase siblingProgram 1 siblingInputs = some siblingCtx ∧
    ∃ s, runCalls siblingProgram (Slicing.new siblingCtx) [.sliceFunction ⟨0⟩] = some s ∧
      ⟨1⟩ ∉ siblingCtx.callers.keys ∧ ⟨1⟩ ∈ s.ctx.callers.keys :=
  ⟨siblingCtx_phase, exists_eq_some_of_any (by decide)⟩

theorem verbose_slice_bounds (P : Program) (fuel : Nat) (inputs : List (Option Module))
    (s₀ : Slicing) (calls : List SliceCall)
    (phase : callGraphPhase P (fuel + 1) inputs = some s₀.ctx)
    (noFuncs : s₀.visitedF = []) (noBlocks : s₀.visitedBB = []) (noVerbose : s₀.verboseF = [])
    (lines : ∀ BB, .backtracking BB ∈ calls → BB.id < P.blocks.length) :
    ∃ s, runCalls P s₀ calls = some s ∧ (∀ f ∈ s.visitedF, f ∈ s.verboseF) ∧
      ∀ g ∈ s.verboseF, g ∈ s.visitedF ∨ ∃ f ∈ s.visitedF, SiblingCallee P s₀.ctx f g := by
  obtain ⟨s, ran, slice⟩ := runCalls_fresh phase noFuncs noBlocks calls lines
  refine ⟨s, ran, slice.verbose_visited, fun g member => ?_⟩
  rcases slice.verboseF g member with start | bounded
  · rw [noVerbose] at start
    cases start
  · exact bounded

theorem verbose_slice_bounds_target : ∃ ctx,
    callGraphPhase siblingProgram 1 siblingInputs = some ctx ∧
    ∃ s, runCalls siblingProgram (Slicing.new ctx) (targetCalls ⟨0⟩) = some s ∧
      (∀ f ∈ s.visitedF, f ∈ s.verboseF) ∧
      ∀ g ∈ s.verboseF, g ∈ s.visitedF ∨ ∃ f ∈ s.visitedF, SiblingCallee siblingProgram ctx f g :=
  let ⟨ctx, phase, _⟩ := callGraphPhase_result siblingProgram 0 siblingInputs
  ⟨ctx, phase, verbose_slice_bounds siblingProgram 0 siblingInputs (Slicing.new ctx) _
    phase rfl rfl rfl fun BB member => by simp [targetCalls] at member⟩

theorem sibling_expansion_skipped :
    callGraphPhase siblingProgram 1 siblingInputs = some siblingCtx ∧
    siblingProgram.parentFunc ⟨4⟩ = siblingProgram.parentFunc ⟨3⟩ ∧
    (siblingProgram.inst ⟨4⟩).call = some { calledFunction := some ⟨4⟩ } ∧
    isIntrinsicInst siblingProgram { calledFunction := some ⟨4⟩ } = false ∧
    intraCanReach siblingProgram (siblingProgram.parentBlock ⟨4⟩)
      (siblingProgram.parentBlock ⟨3⟩) = some true ∧
    ∃ s, runCalls siblingProgram (Slicing.new siblingCtx) [.sliceFunction ⟨0⟩] = some s ∧
      ⟨2⟩ ∈ s.visitedF ∧ ⟨3⟩ ∈ siblingCtx.callers.get ⟨2⟩ ∧ ⟨4⟩ ∉ s.verboseF :=
  ⟨siblingCtx_phase, rfl, rfl, rfl, rfl, exists_eq_some_of_any (by decide)⟩

theorem batch_slice_union (P : Program) (fuel : Nat) (inputs : List (Option Module))
    (ctx : GlobalContext) (targets : List Func)
    (phase : callGraphPhase P (fuel + 1) inputs = some ctx) :
    ∃ merged, sliceBatch P ctx targets = some merged ∧ ∀ line,
      (line ∈ merged.slice ↔
        ∃ T ∈ targets, ∃ files, sliceTarget P ctx T = some files ∧ line ∈ files.slice) ∧
      (line ∈ merged.sliceVerbose ↔
        ∃ T ∈ targets, ∃ files, sliceTarget P ctx T = some files ∧ line ∈ files.sliceVerbose) := by
  have roots : ∀ targets : List Func,
      (targets.flatMap targetCalls).filterMap (SliceCall.root P) = targets := by
    intro targets
    induction targets with
    | nil => rfl
    | cons T targets rest => simp [targetCalls, SliceCall.root, rest]
  obtain ⟨merged, ran, verbose, lines⟩ := sliceFiles_slice phase (targets.flatMap targetCalls)
    fun BB member => by simp [targetCalls] at member
  have union : ∀ line, line ∈ merged.slice ↔
      ∃ T ∈ targets, ∃ files, sliceTarget P ctx T = some files ∧ line ∈ files.slice := by
    intro line
    rw [lines, roots]
    refine exists_congr fun T => and_congr_right fun _ => ⟨fun reached => ?_, ?_⟩
    · obtain ⟨files, single, -, written⟩ := sliceTarget_slice phase T
      exact ⟨files, single, (written line).2 reached⟩
    · rintro ⟨files, single, member⟩
      obtain ⟨files', single', -, written⟩ := sliceTarget_slice phase T
      cases single.symm.trans single'
      exact (written line).1 member
  refine ⟨merged, ran, fun line => ⟨union line, ?_⟩⟩
  rw [verbose, union]
  refine exists_congr fun T => and_congr_right fun _ => exists_congr fun files =>
    and_congr_right fun single => ?_
  obtain ⟨files', single', sameVerbose, -⟩ := sliceTarget_slice phase T
  cases single.symm.trans single'
  rw [sameVerbose]

theorem batch_slice_union_loc : ∃ ctx, callGraphPhase locProgram 1 locInputs = some ctx ∧
    ∃ merged, sliceBatch locProgram ctx [⟨1⟩, ⟨0⟩] = some merged ∧ ∀ line,
      (line ∈ merged.slice ↔ ∃ T ∈ [(⟨1⟩ : Func), ⟨0⟩], ∃ files,
        sliceTarget locProgram ctx T = some files ∧ line ∈ files.slice) ∧
      (line ∈ merged.sliceVerbose ↔ ∃ T ∈ [(⟨1⟩ : Func), ⟨0⟩], ∃ files,
        sliceTarget locProgram ctx T = some files ∧ line ∈ files.sliceVerbose) :=
  let ⟨ctx, phase, _⟩ := callGraphPhase_result locProgram 0 locInputs
  ⟨ctx, phase, batch_slice_union locProgram 0 locInputs ctx _ phase⟩

theorem batch_not_union :
    callGraphPhase siblingProgram 1 siblingInputs = some siblingCtx ∧
    ∃ merged alone, sliceBatch siblingProgram siblingCtx [⟨0⟩, ⟨2⟩] = some merged ∧
      sliceTarget siblingProgram siblingCtx ⟨2⟩ = some alone ∧
      "sys_x\n" ∈ alone.func ∧ "sys_x\n" ∉ merged.func ∧
      "sys_x\n" ∈ merged.funcBlacklist ∧ "sys_x\n" ∉ alone.funcBlacklist := by
  obtain ⟨merged, batch, missing⟩ := exists_eq_some_of_any
    (o := sliceBatch siblingProgram siblingCtx [⟨0⟩, ⟨2⟩])
    (p := fun merged => "sys_x\n" ∉ merged.func ∧ "sys_x\n" ∈ merged.funcBlacklist) (by decide)
  obtain ⟨alone, single, present⟩ := exists_eq_some_of_any
    (o := sliceTarget siblingProgram siblingCtx ⟨2⟩)
    (p := fun alone => "sys_x\n" ∈ alone.func ∧ "sys_x\n" ∉ alone.funcBlacklist) (by decide)
  exact ⟨siblingCtx_phase, merged, alone, batch, single, present.1, missing.1, missing.2,
    present.2⟩

theorem backward_calls_terminate (P : Program) (s : Slicing)
    (inArena : ∀ G cb, cb ∈ s.ctx.callers.get G → (P.parentBlock cb).id < P.blocks.length) :
    (∀ F, ∃ s', sliceFunction P (sliceFuel P) s F = some s') ∧
      ∀ BB, ∃ s', backtracking P (sliceFuel P) s BB = some s' := by
  refine ⟨fun F => ?_, fun BB => ?_⟩
  · obtain ⟨s', sliced, -⟩ :=
      sliceFunction_terminates inArena _ s F (.refl _) (unsliced_lt_sliceFuel s F)
    exact ⟨s', sliced⟩
  · obtain ⟨s', back, -⟩ := backtrackingWith_terminates (sliceFunction_terminates inArena _) s BB
      (.refl _) (unsliced_lt_sliceFuel s _)
    exact ⟨s', back⟩

theorem forwardSlice_exact (P : Program) (s₀ : Slicing) (calls : List SliceCall)
    (inArena : ∀ G cb, cb ∈ s₀.ctx.callers.get G → (P.parentBlock cb).id < P.blocks.length)
    (noFuncs : s₀.fVisitedF = []) (noBlocks : s₀.verboseBB = []) :
    ∃ s, runCalls P s₀ calls = some s ∧
      (∀ g, g ∈ s.fVisitedF ↔ ∃ r ∈ calls.filterMap (SliceCall.forwardRoot P s₀.ctx),
        Relation.TransGen (CalleeStep P s₀.ctx) r g) ∧
      ∀ b, b ∈ s.verboseBB ↔ ∃ f, (f ∈ calls.filterMap (SliceCall.forwardRoot P s₀.ctx) ∨
        f ∈ s.fVisitedF) ∧ b ∈ (P.function f).blocks := by
  obtain ⟨s, ran, -, slice⟩ :=
    runCalls_forward inArena calls s₀ [] (.refl _) (.fresh noFuncs noBlocks)
  rw [List.nil_append] at slice
  exact ⟨s, ran, slice.mem_fVisitedF, slice.verboseBB⟩

theorem forwardSlice_exact_sibling : ∃ s,
    runCalls siblingProgram (Slicing.new siblingCtx)
      [.forwardSlicingFunction ⟨1⟩, .sliceFunction ⟨0⟩, .forwardSlicingFunction ⟨3⟩] = some s ∧
    (∀ g, g ∈ s.fVisitedF ↔ ∃ r ∈ [(⟨1⟩ : Func), ⟨3⟩],
      Relation.TransGen (CalleeStep siblingProgram siblingCtx) r g) ∧
    ∀ b, b ∈ s.verboseBB ↔ ∃ f, (f ∈ [(⟨1⟩ : Func), ⟨3⟩] ∨ f ∈ s.fVisitedF) ∧
      b ∈ (siblingProgram.function f).blocks := by
  obtain ⟨ctx, phase, result⟩ := callGraphPhase_result siblingProgram 0 siblingInputs
  rw [siblingCtx_phase] at phase
  cases phase
  exact forwardSlice_exact siblingProgram _ _ result.callSiteBlocks rfl rfl

theorem backward_calls_terminate_unmarked :
    (∀ F, ∃ s', sliceFunction siblingProgram (sliceFuel siblingProgram)
      { Slicing.new siblingCtx with visitedF := [⟨2⟩] } F = some s') ∧
    ∀ BB, ∃ s', backtracking siblingProgram (sliceFuel siblingProgram)
      { Slicing.new siblingCtx with visitedF := [⟨2⟩] } BB = some s' := by
  obtain ⟨ctx, phase, result⟩ := callGraphPhase_result siblingProgram 0 siblingInputs
  rw [siblingCtx_phase] at phase
  cases phase
  exact backward_calls_terminate siblingProgram _ result.callSiteBlocks

end SliceAnalyzer
