import SliceAnalyzer.Slicer.Driver

/-!
# The slicing part of `main`

The option checks, the three ways of naming a target, and the files `main` writes
(`multiTarget_batch`, `main_target_line`, `main_target_func`).
-/

namespace SliceAnalyzer

/-- `s.find(sub) != std::string::npos`: `sub` occurs in `s`. -/
def stringFind (s sub : String) : Bool := decide (sub.toList <:+: s.toList)

/-- `Loc.getLine() == line`, the `int` line converted to `unsigned` to be compared. -/
def atLine (line : Int) (loc : DebugLoc) : Bool := (loc.line : Int) == line % 2 ^ 32

/-- The test of `Slicing::findTargetByFunctionName` on the name of a function. -/
def nameMatches (name funcName : String) : Bool :=
  name == funcName || (stringFind name funcName && stringFind name "_Z")

/-- `std::getline(iss, file_, ' ') && std::getline(iss, func_)` on a line of the `-multi` file. -/
def parseTargetPair (line : String) : Option (String × String) :=
  match line.toList.span (· != ' ') with
  | (_, []) | (_, [_]) => none
  | (file, _ :: func) => some (String.mk file, String.mk func)

theorem span_space {file rest : List Char} (noSpace : ' ' ∉ file) :
    (file ++ ' ' :: rest).span (· != ' ') = (file, ' ' :: rest) := by
  have kept : ∀ c ∈ file, (c != ' ') = true := fun c member =>
    bne_iff_ne.2 fun same => noSpace (same ▸ member)
  rw [List.span_eq_take_drop, List.takeWhile_append_of_pos kept, List.dropWhile_append_of_pos kept]
  simp [List.takeWhile_cons, List.dropWhile_cons]

theorem parseTargetPair_iff (line file func : String) :
    parseTargetPair line = some (file, func) ↔
      line = file ++ " " ++ func ∧ ' ' ∉ file.toList ∧ func ≠ "" := by
  constructor
  · intro parsed
    have whole := List.takeWhile_append_dropWhile (· != ' ') line.toList
    have kept : ' ' ∉ line.toList.takeWhile (· != ' ') := fun member =>
      absurd (List.mem_takeWhile_imp member) (by simp)
    have first := List.head_dropWhile_not (· != ' ') line.toList
    rw [parseTargetPair, List.span_eq_take_drop] at parsed
    match rest : line.toList.dropWhile (· != ' '), parsed, first with
    | [], parsed, _ => simp at parsed
    | [_], parsed, _ => simp at parsed
    | c :: d :: func', parsed, first =>
        simp only [Option.some.injEq, Prod.mk.injEq] at parsed
        obtain ⟨rfl, rfl⟩ := parsed
        have space : c = ' ' := by simpa using first (by simp)
        subst space
        refine ⟨?_, kept, fun empty => by cases congrArg String.toList empty⟩
        rw [rest] at whole
        exact String.ext (by simpa using whole.symm)
  · rintro ⟨rfl, noSpace, nonempty⟩
    obtain ⟨func⟩ := func
    cases func with
    | nil => exact absurd rfl nonempty
    | cons c func =>
        rw [parseTargetPair]
        simp only [String.data_append, String.toList, List.append_assoc, List.singleton_append]
          at noSpace ⊢
        rw [span_space noSpace]

example : parseTargetPair "fuzz.c LLVMFuzzerTestOneInput" =
    some ("fuzz.c", "LLVMFuzzerTestOneInput") := by decide

/-- The command-line options `main` reads, with their defaults. -/
structure SliceOptions where
  targetName : String := ""
  srcRoot : String := ""
  callGraph : Bool := false
  programSlicing : Bool := false
  targetLine : Int := 0
  targetFunc : String := ""
  multiTargetPairsConfig : String := ""

section

variable (P : Program)

/-- `Slicing::findTargetByLine(fileName, line)`. -/
def findTargetByLine (s : Slicing) (fileName : String) (line : Int) : Option BasicBlock :=
  s.ctx.modules.findSome? fun M =>
    if stringFind M.identifier fileName then
      M.functions.findSome? fun F => (P.function F).blocks.find? fun BB =>
        (P.block BB).insts.any fun I => (P.inst I).debugLoc.any (atLine line)
    else none

/-- `Slicing::findTargetByFunctionName(fileName, funcName)`. -/
def findTargetByFunctionName (s : Slicing) (_fileName funcName : String) : Option Func :=
  s.ctx.modules.findSome? fun M => M.functions.find? fun F =>
    (P.function F).blocks.any fun _ => nameMatches (P.function F).name funcName

/-- The loop of `main` over the lines of the `-multi` file. -/
def multiTargetLoop (s : Slicing) (configLines : List String) : Option Slicing :=
  configLines.foldlM (fun s line =>
    match parseTargetPair line with
    | none => some s
    | some (file, func) =>
        match findTargetByFunctionName P s file func with
        | none => some s
        | some targetFunc => runCalls P s (targetCalls targetFunc)) s

/-- `Sl.dump(...)` at the end of `main`: none when the files do not open. -/
def dumpFiles (opened : Bool) (s : Slicing) : Option (Except String (Option SliceFiles)) :=
  if opened then (dump P s).map fun dumped => .ok (some dumped.2) else some (.ok none)

/-- `main` after the call-graph phase: its `-1` message, or the files `dump` writes. -/
def sliceMain (ctx : GlobalContext) (opts : SliceOptions) (configLines : List String)
    (opened : Bool) : Option (Except String (Option SliceFiles)) :=
  if opts.targetName == "" && opts.multiTargetPairsConfig == "" then
    some (.error "Please provide the target file name with --file or -multi.\n")
  else if opts.targetLine == 0 && opts.targetFunc == "" && opts.multiTargetPairsConfig == "" then
    some (.error ("Please provide the target line number or target func name with --line or " ++
      "--func or -multi.\n"))
  else if opts.srcRoot == "" then
    some (.error "Please provide the target source directory with --srcroot.\n")
  else if !opts.programSlicing then some (.ok none)
  else
    let s := cacheAllLLVMObjects P (Slicing.new ctx)
    if !opts.callGraph then some (.error "Please set callgraph to true!\n")
    else if opts.multiTargetPairsConfig != "" then multiTargetLoop P s configLines >>= dumpFiles P opened
    else if opts.targetLine != 0 then
      match findTargetByLine P s opts.targetName opts.targetLine with
      | none => some (.error "Can\x27t find the target. Retry with the target function name\n")
      | some targetBB => runCalls P s [.backtracking targetBB] >>= dumpFiles P opened
    else if opts.targetFunc != "" then
      match findTargetByFunctionName P s opts.targetName opts.targetFunc with
      | none => some (.error ("Can\x27t find the targetFunc " ++ opts.targetName ++ ":" ++
          opts.targetFunc ++ "\n"))
      | some targetFunc => runCalls P s (targetCalls targetFunc) >>= dumpFiles P opened
    else some (.error "Unreachable\n")

/-- A block `findTargetByLine` may find. -/
def LineTarget (modules : List Module) (fileName : String) (line : Int) (BB : BasicBlock) : Prop :=
  ∃ M ∈ modules, stringFind M.identifier fileName = true ∧ ∃ F ∈ M.functions,
    BB ∈ (P.function F).blocks ∧ ∃ I ∈ (P.block BB).insts, (P.inst I).debugLoc.any (atLine line)

/-- A function `findTargetByFunctionName` may find. -/
def NameTarget (modules : List Module) (funcName : String) (F : Func) : Prop :=
  ∃ M ∈ modules, F ∈ M.functions ∧ (P.function F).blocks ≠ [] ∧
    nameMatches (P.function F).name funcName

variable {P}

theorem findTargetByLine_some {s : Slicing} {fileName : String} {line : Int} {BB : BasicBlock}
    (found : findTargetByLine P s fileName line = some BB) :
    LineTarget P s.ctx.modules fileName line BB := by
  obtain ⟨M, module, inModule⟩ := List.exists_of_findSome?_eq_some found
  split at inModule
  · obtain ⟨F, function, block⟩ := List.exists_of_findSome?_eq_some inModule
    have located := List.find?_some block
    obtain ⟨I, inst, located⟩ := List.any_eq_true.1 located
    exact ⟨M, module, by assumption, F, function, List.mem_of_find?_eq_some block, I, inst, located⟩
  · cases inModule

theorem findTargetByLine_eq_none {s : Slicing} {fileName : String} {line : Int} :
    findTargetByLine P s fileName line = none ↔
      ∀ BB, ¬LineTarget P s.ctx.modules fileName line BB := by
  refine ⟨fun none BB ⟨M, module, named, F, function, block, I, inst, located⟩ => ?_,
    fun absent => ?_⟩
  · have inModule := List.findSome?_eq_none_iff.1 none M module
    rw [if_pos named, List.findSome?_eq_none_iff] at inModule
    exact List.find?_eq_none.1 (inModule F function) BB block
      (List.any_eq_true.2 ⟨I, inst, located⟩)
  · cases found : findTargetByLine P s fileName line with
    | none => rfl
    | some BB => exact (absent BB (findTargetByLine_some found)).elim

theorem findTargetByFunctionName_some {s : Slicing} {fileName funcName : String} {F : Func}
    (found : findTargetByFunctionName P s fileName funcName = some F) :
    NameTarget P s.ctx.modules funcName F := by
  obtain ⟨M, module, inModule⟩ := List.exists_of_findSome?_eq_some found
  have named := List.find?_some inModule
  obtain ⟨_, block, named⟩ := List.any_eq_true.1 named
  exact ⟨M, module, List.mem_of_find?_eq_some inModule, List.ne_nil_of_mem block, named⟩

theorem findTargetByFunctionName_eq_none {s : Slicing} {fileName funcName : String} :
    findTargetByFunctionName P s fileName funcName = none ↔
      ∀ F, ¬NameTarget P s.ctx.modules funcName F := by
  refine ⟨fun none F ⟨M, module, function, body, named⟩ => ?_, fun absent => ?_⟩
  · obtain ⟨BB, block⟩ := List.exists_mem_of_ne_nil _ body
    exact List.find?_eq_none.1 (List.findSome?_eq_none_iff.1 none M module) F function
      (List.any_eq_true.2 ⟨BB, block, named⟩)
  · cases found : findTargetByFunctionName P s fileName funcName with
    | none => rfl
    | some F => exact (absent F (findTargetByFunctionName_some found)).elim

end

section

variable {P : Program} {ctx₀ : GlobalContext} {verbose₀ : List Func}

theorem dumpFiles_of_dump {s : Slicing} {calls : List SliceCall} {files : SliceFiles}
    (wrote : (runCalls P s calls >>= fun s => (dump P s).map Prod.snd) = some files)
    (opened : Bool) : runCalls P s calls >>= dumpFiles P opened =
      some (.ok (if opened then some files else none)) := by
  obtain ⟨s₁, ran, dumped⟩ := Option.bind_eq_some.1 wrote
  obtain ⟨⟨s₂, f⟩, walked, rfl⟩ := Option.map_eq_some'.1 dumped
  cases opened <;> simp [ran, dumpFiles, walked]

theorem runCalls_append (s : Slicing) (calls calls' : List SliceCall) :
    runCalls P s (calls ++ calls') = runCalls P s calls >>= fun s => runCalls P s calls' :=
  List.foldlM_append _ _ _ _

theorem findTargetByFunctionName_congr {s t : Slicing} (modules : s.ctx.modules = t.ctx.modules) :
    findTargetByFunctionName P s = findTargetByFunctionName P t := by
  unfold findTargetByFunctionName
  rw [modules]

variable (inArena : ∀ G cb, cb ∈ ctx₀.callers.get G → (P.parentBlock cb).id < P.blocks.length)

include inArena in
theorem multiTargetLoop_eq (s₀ : Slicing) (modules : s₀.ctx.modules = ctx₀.modules) :
    ∀ (configLines : List String) (s : Slicing) (roots : List Func),
      BackwardSlice P ctx₀ roots verbose₀ s →
      multiTargetLoop P s configLines = runCalls P s
        (((configLines.filterMap parseTargetPair).filterMap fun target =>
          findTargetByFunctionName P s₀ target.1 target.2).flatMap targetCalls)
  | [], _, _, _ => rfl
  | line :: configLines, s, roots, slice => by
      have lookup := findTargetByFunctionName_congr (P := P)
        (slice.touched.modules.trans modules.symm)
      rw [multiTargetLoop, List.foldlM_cons]
      cases parsed : parseTargetPair line with
      | none =>
          simpa [parsed] using multiTargetLoop_eq s₀ modules configLines s roots slice
      | some target =>
          cases found : findTargetByFunctionName P s₀ target.1 target.2 with
          | none =>
              simpa [parsed, lookup, found] using
                multiTargetLoop_eq s₀ modules configLines s roots slice
          | some F =>
              obtain ⟨s₁, ran, slice₁⟩ := runCalls_spec inArena (targetCalls F) s roots slice
                (by simp [targetCalls])
              simp only [parsed, lookup, found, List.filterMap_cons, List.flatMap_cons,
                runCalls_append, ran, Option.bind_eq_bind, Option.some_bind]
              exact multiTargetLoop_eq s₀ modules configLines s₁ _ slice₁

end

theorem multiTarget_batch (P : Program) (fuel : Nat) (inputs : List (Option Module))
    (ctx : GlobalContext) (phase : callGraphPhase P (fuel + 1) inputs = some ctx)
    (opts : SliceOptions) (configLines : List String) (opened : Bool) (srcRoot : opts.srcRoot ≠ "")
    (slicing : opts.programSlicing = true) (enabled : opts.callGraph = true)
    (multi : opts.multiTargetPairsConfig ≠ "") :
    ∃ files, sliceBatch P ctx ((configLines.filterMap parseTargetPair).filterMap fun target =>
        findTargetByFunctionName P (Slicing.new ctx) target.1 target.2) = some files ∧
      sliceMain P ctx opts configLines opened = some (.ok (if opened then some files else none)) := by
  obtain ⟨ctx', phased, result⟩ := callGraphPhase_result P fuel inputs
  obtain rfl : ctx' = ctx := Option.some.inj (phased.symm.trans phase)
  have loop := multiTargetLoop_eq result.callSiteBlocks (Slicing.new ctx') rfl configLines
    (cacheAllLLVMObjects P (Slicing.new ctx')) []
    (@BackwardSlice.fresh P (cacheAllLLVMObjects P (Slicing.new ctx')) rfl rfl)
  obtain ⟨s, wrote, -⟩ := sliceFiles_of_calls phase (((configLines.filterMap parseTargetPair).filterMap
    fun target => findTargetByFunctionName P (Slicing.new ctx') target.1 target.2).flatMap targetCalls)
    (by simp [targetCalls])
  refine ⟨_, wrote, ?_⟩
  simp only [sliceMain, multi, srcRoot, slicing, enabled, beq_iff_eq, bne_iff_ne, ne_eq,
    not_false_eq_true, Bool.and_eq_true, and_false, false_and, if_false, if_true, Bool.not_true,
    Bool.false_eq_true, loop]
  exact dumpFiles_of_dump wrote opened

/-- `-srcroot /src -callgraph -slicing -multi targets`. -/
def multiOptions : SliceOptions :=
  { srcRoot := "/src", callGraph := true, programSlicing := true, multiTargetPairsConfig := "targets" }

theorem multiTarget_batch_loc : ∃ ctx, callGraphPhase locProgram 1 locInputs = some ctx ∧
    multiOptions.srcRoot ≠ "" ∧ multiOptions.programSlicing = true ∧ multiOptions.callGraph = true ∧
    multiOptions.multiTargetPairsConfig ≠ "" ∧
    ∃ files, sliceBatch locProgram ctx ((["m.c a"].filterMap parseTargetPair).filterMap fun target =>
        findTargetByFunctionName locProgram (Slicing.new ctx) target.1 target.2) = some files ∧
      sliceMain locProgram ctx multiOptions ["m.c a"] true =
        some (.ok (if true then some files else none)) :=
  let ⟨ctx, phase, _⟩ := callGraphPhase_result locProgram 0 locInputs
  ⟨ctx, phase, by decide, rfl, rfl, by decide,
    multiTarget_batch locProgram 0 locInputs ctx phase _ _ true (by decide) rfl rfl (by decide)⟩

theorem main_target_line (P : Program) (fuel : Nat) (inputs : List (Option Module))
    (ctx : GlobalContext) (phase : callGraphPhase P (fuel + 1) inputs = some ctx)
    (opts : SliceOptions) (configLines : List String) (opened : Bool)
    (named : opts.targetName ≠ "") (srcRoot : opts.srcRoot ≠ "") (slicing : opts.programSlicing = true)
    (enabled : opts.callGraph = true) (single : opts.multiTargetPairsConfig = "")
    (lineSet : opts.targetLine ≠ 0) :
    (sliceMain P ctx opts configLines opened =
        some (.error "Can\x27t find the target. Retry with the target function name\n") ∧
      ∀ BB, ¬LineTarget P ctx.modules opts.targetName opts.targetLine BB) ∨
    ∃ BB files, LineTarget P ctx.modules opts.targetName opts.targetLine BB ∧
      sliceMain P ctx opts configLines opened = some (.ok (if opened then some files else none)) ∧
        ∀ line, line ∈ files.slice ↔
          ∃ f, Relation.ReflTransGen (CallerStep P ctx) (P.block BB).parent f ∧
            ∃ BB' ∈ (P.function f).blocks, blockLine P BB' = some line := by
  have checks : sliceMain P ctx opts configLines opened =
        match findTargetByLine P (cacheAllLLVMObjects P (Slicing.new ctx)) opts.targetName
          opts.targetLine with
        | none => some (.error "Can\x27t find the target. Retry with the target function name\n")
        | some targetBB => runCalls P (cacheAllLLVMObjects P (Slicing.new ctx))
            [.backtracking targetBB] >>= dumpFiles P opened := by
    simp [sliceMain, named, srcRoot, slicing, enabled, single, lineSet]
  cases found : findTargetByLine P (cacheAllLLVMObjects P (Slicing.new ctx)) opts.targetName
    opts.targetLine with
  | none => exact .inl ⟨by rw [checks, found], findTargetByLine_eq_none.1 found⟩
  | some BB =>
      obtain ⟨-, -, -, F, -, block, -⟩ := findTargetByLine_some found
      obtain ⟨files, wrote, -, lines⟩ := sliceFiles_slice phase [.backtracking BB]
        (by simpa using P.block_lt_of_mem block)
      refine .inr ⟨BB, files, findTargetByLine_some found, ?_, fun line => (lines line).trans ?_⟩
      · rw [checks, found]
        exact dumpFiles_of_dump wrote opened
      · simp [SliceCall.root]

/-- `-file m.bc -srcroot /src -callgraph -slicing -line 3`. -/
def lineOptions : SliceOptions :=
  { targetName := "m.bc", srcRoot := "/src", callGraph := true, programSlicing := true, targetLine := 3 }

theorem main_target_line_loc : ∃ ctx, callGraphPhase locProgram 1 locInputs = some ctx ∧
    lineOptions.targetName ≠ "" ∧ lineOptions.srcRoot ≠ "" ∧ lineOptions.programSlicing = true ∧
    lineOptions.callGraph = true ∧ lineOptions.multiTargetPairsConfig = "" ∧
    lineOptions.targetLine ≠ 0 ∧
    ((sliceMain locProgram ctx lineOptions [] true =
        some (.error "Can\x27t find the target. Retry with the target function name\n") ∧
      ∀ BB, ¬LineTarget locProgram ctx.modules lineOptions.targetName lineOptions.targetLine BB) ∨
    ∃ BB files, LineTarget locProgram ctx.modules lineOptions.targetName lineOptions.targetLine BB ∧
      sliceMain locProgram ctx lineOptions [] true = some (.ok (if true then some files else none)) ∧
        ∀ line, line ∈ files.slice ↔
          ∃ f, Relation.ReflTransGen (CallerStep locProgram ctx) (locProgram.block BB).parent f ∧
            ∃ BB' ∈ (locProgram.function f).blocks, blockLine locProgram BB' = some line) :=
  let ⟨ctx, phase, _⟩ := callGraphPhase_result locProgram 0 locInputs
  ⟨ctx, phase, by decide, by decide, rfl, rfl, rfl, by decide,
    main_target_line locProgram 0 locInputs ctx phase _ [] true (by decide) (by decide) rfl rfl rfl
      (by decide)⟩

theorem main_target_func (P : Program) (fuel : Nat) (inputs : List (Option Module))
    (ctx : GlobalContext) (phase : callGraphPhase P (fuel + 1) inputs = some ctx)
    (opts : SliceOptions) (configLines : List String) (opened : Bool)
    (named : opts.targetName ≠ "") (srcRoot : opts.srcRoot ≠ "") (slicing : opts.programSlicing = true)
    (enabled : opts.callGraph = true) (single : opts.multiTargetPairsConfig = "")
    (noLine : opts.targetLine = 0) (funcSet : opts.targetFunc ≠ "") :
    (sliceMain P ctx opts configLines opened = some (.error ("Can\x27t find the targetFunc " ++
        opts.targetName ++ ":" ++ opts.targetFunc ++ "\n")) ∧
      ∀ F, ¬NameTarget P ctx.modules opts.targetFunc F) ∨
    ∃ F files, NameTarget P ctx.modules opts.targetFunc F ∧
      sliceMain P ctx opts configLines opened = some (.ok (if opened then some files else none)) ∧
        ∀ line, line ∈ files.slice ↔ ∃ f, Relation.ReflTransGen (CallerStep P ctx) F f ∧
          ∃ BB ∈ (P.function f).blocks, blockLine P BB = some line := by
  have checks : sliceMain P ctx opts configLines opened =
      match findTargetByFunctionName P (cacheAllLLVMObjects P (Slicing.new ctx)) opts.targetName
        opts.targetFunc with
      | none => some (.error ("Can\x27t find the targetFunc " ++ opts.targetName ++ ":" ++
          opts.targetFunc ++ "\n"))
      | some targetFunc => runCalls P (cacheAllLLVMObjects P (Slicing.new ctx))
          (targetCalls targetFunc) >>= dumpFiles P opened := by
    simp [sliceMain, named, srcRoot, slicing, enabled, single, noLine, funcSet]
  cases found : findTargetByFunctionName P (cacheAllLLVMObjects P (Slicing.new ctx))
    opts.targetName opts.targetFunc with
  | none => exact .inl ⟨by rw [checks, found], findTargetByFunctionName_eq_none.1 found⟩
  | some F =>
      obtain ⟨files, wrote, -, lines⟩ := sliceTarget_slice phase F
      refine .inr ⟨F, files, findTargetByFunctionName_some found, ?_, lines⟩
      rw [checks, found]
      exact dumpFiles_of_dump wrote opened

/-- `-file m.c -srcroot /src -callgraph -slicing -func a`. -/
def funcOptions : SliceOptions :=
  { targetName := "m.c", srcRoot := "/src", callGraph := true, programSlicing := true, targetFunc := "a" }

theorem main_target_func_loc : ∃ ctx, callGraphPhase locProgram 1 locInputs = some ctx ∧
    funcOptions.targetName ≠ "" ∧ funcOptions.srcRoot ≠ "" ∧ funcOptions.programSlicing = true ∧
    funcOptions.callGraph = true ∧ funcOptions.multiTargetPairsConfig = "" ∧
    funcOptions.targetLine = 0 ∧ funcOptions.targetFunc ≠ "" ∧
    ((sliceMain locProgram ctx funcOptions [] true = some (.error ("Can\x27t find the targetFunc " ++
        funcOptions.targetName ++ ":" ++ funcOptions.targetFunc ++ "\n")) ∧
      ∀ F, ¬NameTarget locProgram ctx.modules funcOptions.targetFunc F) ∨
    ∃ F files, NameTarget locProgram ctx.modules funcOptions.targetFunc F ∧
      sliceMain locProgram ctx funcOptions [] true = some (.ok (if true then some files else none)) ∧
        ∀ line, line ∈ files.slice ↔ ∃ f, Relation.ReflTransGen (CallerStep locProgram ctx) F f ∧
          ∃ BB ∈ (locProgram.function f).blocks, blockLine locProgram BB = some line) :=
  let ⟨ctx, phase, _⟩ := callGraphPhase_result locProgram 0 locInputs
  ⟨ctx, phase, by decide, by decide, rfl, rfl, rfl, rfl, by decide,
    main_target_func locProgram 0 locInputs ctx phase _ [] true (by decide) (by decide) rfl rfl rfl rfl
      (by decide)⟩

end SliceAnalyzer
