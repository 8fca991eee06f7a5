import SliceAnalyzer.IR.Types
import Mathlib.Data.List.GetD

/-!
# Loaded IR

The LLVM objects the analyzer reads, by handle. `Arena.WellFormed` is the part of LLVM's verifier
the analyzer relies on.
-/

namespace SliceAnalyzer

/-- A `Function *`. -/
structure Func where
  id : Nat
  deriving DecidableEq, Repr, Inhabited

/-- A `BasicBlock *`. -/
structure BasicBlock where
  id : Nat
  deriving DecidableEq, Repr, Inhabited

/-- An `Instruction *`; the call sites of the call graph are instructions. -/
structure Inst where
  id : Nat
  deriving DecidableEq, Repr, Inhabited

/-- `GlobalValue::LinkageTypes`. -/
inductive Linkage where
  | externalLinkage | availableExternallyLinkage | linkOnceAnyLinkage | linkOnceODRLinkage
  | weakAnyLinkage | weakODRLinkage | appendingLinkage | internalLinkage | privateLinkage
  | externalWeakLinkage | commonLinkage
  deriving DecidableEq, Repr, Inhabited

/-- A `DebugLoc` or the location part of a `DISubprogram`. -/
structure DebugLoc where
  line : Nat
  filename : String
  directory : String
  deriving DecidableEq, Repr

/-- What the analyzer reads of a `Function`. -/
structure FunctionData where
  name : String
  linkage : Linkage := .externalLinkage
  sectionName : String := ""
  hasAddressTaken : Bool := false
  returnType : Ty := .other .void
  params : List Ty := []
  isVarArg : Bool := false
  blocks : List BasicBlock := []
  subprogram : Option DebugLoc := none
  moduleIdentifier : String := ""
  deriving Inhabited

/-- What the analyzer reads of a `CallBase`. -/
structure CallData where
  calledFunction : Option Func
  isInlineAsm : Bool := false
  isCallInst : Bool := true
  type : Ty := .other .void
  argTypes : List Ty := []

/-- An instruction: its block, its debug location, and its call data when it is a `CallBase`. -/
structure InstData where
  parent : BasicBlock
  debugLoc : Option DebugLoc := none
  call : Option CallData := none
  deriving Inhabited

/-- A basic block, with its CFG edges in the order `predecessors` and `successors` list them. -/
structure BlockData where
  parent : Func
  insts : List Inst := []
  preds : List BasicBlock := []
  succs : List BasicBlock := []
  deriving Inhabited

/-- An LLVM `Module`: its identifier (the input path) and its functions in order. -/
structure Module where
  identifier : String
  functions : List Func

/-- The objects of the loaded modules, each stored at the index of its handle. -/
structure Arena where
  functions : List FunctionData
  blocks : List BlockData
  insts : List InstData

namespace Arena

variable (A : Arena)

def function (f : Func) : FunctionData := A.functions.getD f.id default

def block (b : BasicBlock) : BlockData := A.blocks.getD b.id default

def inst (i : Inst) : InstData := A.insts.getD i.id default

/-- The invariants of LLVM's IR the analyzer relies on, over the stored objects. -/
structure WellFormed : Prop where
  block_lt : ∀ i < A.functions.length, ∀ b ∈ (A.function ⟨i⟩).blocks, b.id < A.blocks.length
  block_parent : ∀ i < A.functions.length, ∀ b ∈ (A.function ⟨i⟩).blocks, (A.block b).parent = ⟨i⟩
  inst_parent : ∀ i < A.blocks.length, ∀ x ∈ (A.block ⟨i⟩).insts, (A.inst x).parent = ⟨i⟩
  pred_mem : ∀ i < A.blocks.length, ∀ p ∈ (A.block ⟨i⟩).preds,
    p ∈ (A.function (A.block ⟨i⟩).parent).blocks
  succ_mem : ∀ i < A.blocks.length, ∀ s ∈ (A.block ⟨i⟩).succs,
    s ∈ (A.function (A.block ⟨i⟩).parent).blocks
  pred_iff_succ : ∀ i < A.blocks.length, ∀ j < A.blocks.length,
    ⟨j⟩ ∈ (A.block ⟨i⟩).preds ↔ ⟨i⟩ ∈ (A.block ⟨j⟩).succs
  parent_mem : ∀ i < A.blocks.length, ⟨i⟩ ∈ (A.function (A.block ⟨i⟩).parent).blocks

instance : Decidable A.WellFormed :=
  decidable_of_iff (_ ∧ _ ∧ _ ∧ _ ∧ _ ∧ _ ∧ _)
    ⟨fun ⟨a, b, c, d, e, f, g⟩ => ⟨a, b, c, d, e, f, g⟩,
      fun ⟨a, b, c, d, e, f, g⟩ => ⟨a, b, c, d, e, f, g⟩⟩

end Arena

structure Program extends Arena where
  wellFormed : toArena.WellFormed

namespace Program

variable (P : Program)

abbrev function (f : Func) : FunctionData := P.toArena.function f

abbrev block (b : BasicBlock) : BlockData := P.toArena.block b

abbrev inst (i : Inst) : InstData := P.toArena.inst i

/-- The block of an instruction: `I->getParent()`. -/
abbrev parentBlock (i : Inst) : BasicBlock := (P.inst i).parent

/-- The enclosing function of an instruction: `I->getParent()->getParent()`. -/
abbrev parentFunc (i : Inst) : Func := (P.block (P.parentBlock i)).parent

/-- The instructions of a function, block by block: `inst_begin(F)` to `inst_end(F)`. -/
def instructions (f : Func) : List Inst := (P.function f).blocks.flatMap fun b => (P.block b).insts

theorem function_of_le {f : Func} (past : P.functions.length ≤ f.id) : P.function f = default :=
  List.getD_eq_default _ _ past

theorem block_of_le {b : BasicBlock} (past : P.blocks.length ≤ b.id) : P.block b = default :=
  List.getD_eq_default _ _ past

theorem block_parent {f : Func} {b : BasicBlock} (member : b ∈ (P.function f).blocks) :
    (P.block b).parent = f := by
  by_cases bound : f.id < P.functions.length
  · exact P.wellFormed.block_parent f.id bound b member
  · rw [P.function_of_le (Nat.le_of_not_lt bound)] at member
    cases member

theorem inst_parent {b : BasicBlock} {i : Inst} (member : i ∈ (P.block b).insts) :
    P.parentBlock i = b := by
  by_cases bound : b.id < P.blocks.length
  · exact P.wellFormed.inst_parent b.id bound i member
  · rw [P.block_of_le (Nat.le_of_not_lt bound)] at member
    cases member

theorem pred_mem {b p : BasicBlock} (member : p ∈ (P.block b).preds) :
    p ∈ (P.function (P.block b).parent).blocks := by
  by_cases bound : b.id < P.blocks.length
  · exact P.wellFormed.pred_mem b.id bound p member
  · rw [P.block_of_le (Nat.le_of_not_lt bound)] at member
    cases member

theorem function_lt_of_mem {f : Func} {b : BasicBlock} (member : b ∈ (P.function f).blocks) :
    f.id < P.functions.length := by
  by_contra past
  rw [P.function_of_le (Nat.le_of_not_lt past)] at member
  cases member

theorem block_lt_of_mem {f : Func} {b : BasicBlock} (member : b ∈ (P.function f).blocks) :
    b.id < P.blocks.length :=
  P.wellFormed.block_lt f.id (P.function_lt_of_mem member) b member

theorem mem_blocks_parent {b : BasicBlock} (bound : b.id < P.blocks.length) :
    b ∈ (P.function (P.block b).parent).blocks :=
  P.wellFormed.parent_mem b.id bound

theorem succ_mem {b s : BasicBlock} (member : s ∈ (P.block b).succs) :
    s ∈ (P.function (P.block b).parent).blocks := by
  by_cases bound : b.id < P.blocks.length
  · exact P.wellFormed.succ_mem b.id bound s member
  · rw [P.block_of_le (Nat.le_of_not_lt bound)] at member
    cases member

theorem pred_parent {b p : BasicBlock} (member : p ∈ (P.block b).preds) :
    (P.block p).parent = (P.block b).parent :=
  P.block_parent (P.pred_mem member)

theorem mem_preds_iff {b p : BasicBlock} (bBound : b.id < P.blocks.length)
    (pBound : p.id < P.blocks.length) : p ∈ (P.block b).preds ↔ b ∈ (P.block p).succs :=
  P.wellFormed.pred_iff_succ b.id bBound p.id pBound

theorem mem_instructions {f : Func} {i : Inst} :
    i ∈ P.instructions f ↔ ∃ b ∈ (P.function f).blocks, i ∈ (P.block b).insts := by
  simp [instructions]

theorem parentFunc_of_mem_instructions {f : Func} {i : Inst} (member : i ∈ P.instructions f) :
    P.parentFunc i = f ∧ P.parentBlock i ∈ (P.function f).blocks := by
  obtain ⟨b, block, inst⟩ := P.mem_instructions.1 member
  have parent : P.parentBlock i = b := P.inst_parent inst
  rw [parentFunc, parent]
  exact ⟨P.block_parent block, block⟩

end Program

/-- `Function::isIntrinsic()`: the name is in LLVM's reserved `llvm.` namespace. -/
def FunctionData.isIntrinsic (F : FunctionData) : Bool := "llvm.".toList.isPrefixOf F.name.toList

/-- `F->hasSection() && F->getSection().str() == ".init.text"`. -/
def FunctionData.inInitText (F : FunctionData) : Bool := F.sectionName == ".init.text"

/-- `F->empty()` is false: the function has a body. -/
def FunctionData.hasBody (F : FunctionData) : Bool := !F.blocks.isEmpty

end SliceAnalyzer
