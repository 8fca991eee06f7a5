import SliceAnalyzer.CallGraph.Pass
import SliceAnalyzer.Slicer.Searches

/-!
# The slicer's state and `addToVerbose`

`addToVerbose` reads `Callers[F]` through `operator[]`; `Touched` says that adding empty keys is
all it does to the registry (`addToVerbose_spec`).
-/

namespace SliceAnalyzer

/-- `Slicing`: the registry `Ctx_` and the sets of one session. -/
structure Slicing where
  ctx : GlobalContext
  slicedFuncCnt : Nat
  visitedF : List Func
  verboseF : List Func
  visitedBB : List BasicBlock
  fVisitedF : List Func
  verboseBB : List BasicBlock
  fullFunc : List String

/-- `Slicing(Ctx, srcRoot)`: an empty session over the registry `ctx`. -/
def Slicing.new (ctx : GlobalContext) : Slicing := ⟨ctx, 1, [], [], [], [], [], []⟩

/-- `ctx'` is the registry `ctx` with possibly more keys in `Callers`, each with no call sites. -/
structure Touched (ctx ctx' : GlobalContext) : Prop where
  modules : ctx'.modules = ctx.modules
  funcs : ctx'.funcs = ctx.funcs
  addressTakenFuncs : ctx'.addressTakenFuncs = ctx.addressTakenFuncs
  callees : ctx'.callees = ctx.callees
  indirectCallInsts : ctx'.indirectCallInsts = ctx.indirectCallInsts
  callers_get : ctx'.callers.get = ctx.callers.get
  keys_subset : ∀ f ∈ ctx.callers.keys, f ∈ ctx'.callers.keys

namespace Touched

theorem refl (ctx : GlobalContext) : Touched ctx ctx := ⟨rfl, rfl, rfl, rfl, rfl, rfl, fun _ => id⟩

theorem trans {ctx ctx' ctx'' : GlobalContext} (first : Touched ctx ctx')
    (second : Touched ctx' ctx'') : Touched ctx ctx'' :=
  ⟨second.1.trans first.1, second.2.trans first.2, second.3.trans first.3, second.4.trans first.4,
    second.5.trans first.5, second.6.trans first.6, fun f key => second.7 f (first.7 f key)⟩

theorem mem_keys {ctx ctx' : GlobalContext} (touched : Touched ctx ctx') {f : Func} {cb : Inst}
    (caller : cb ∈ ctx.callers.get f) : f ∈ ctx'.callers.keys :=
  touched.keys_subset f (by_contra fun absent => by
    rw [ctx.callers.get_of_not_mem f absent] at caller
    cases caller)

end Touched

theorem touched_touch (ctx : GlobalContext) (f : Func) :
    Touched ctx { ctx with callers := ctx.callers.touch f } :=
  ⟨rfl, rfl, rfl, rfl, rfl, CallerMap.touch_get _ _, fun g key => by
    rw [CallerMap.keys_touch]; split <;> simp [key]⟩

section

variable (P : Program)

/-- `isa<IntrinsicInst>(CB_)`: a call instruction whose called function is an intrinsic. -/
def isIntrinsicInst (c : CallData) : Bool := c.isCallInst && callsIntrinsic P c

/-- `g` is a sibling callee of the call site `cb`. -/
def SiblingOf (cb : Inst) (g : Func) : Prop :=
  ∃ i ∈ P.instructions (P.parentFunc cb), ∃ c, (P.inst i).call = some c ∧
    isIntrinsicInst P c = false ∧ intraCanReach P (P.parentBlock i) (P.parentBlock cb) = some true ∧
    c.calledFunction = some g

/-- `g` is a sibling callee of a call site of `F` in the registry `ctx`. -/
def SiblingCallee (ctx : GlobalContext) (F g : Func) : Prop :=
  ∃ cb ∈ ctx.callers.get F, SiblingOf P cb g

/-- The loops of `Slicing::addToVerbose` over one call site `cb` of `F`. -/
def addSiblingCallees (s : Slicing) (cb : Inst) : Option Slicing :=
  let fBB := P.parentBlock cb
  (P.instructions (P.block fBB).parent).foldlM (fun s i =>
    match (P.inst i).call with
    | none => some s
    | some c =>
        if isIntrinsicInst P c then some s
        else (intraCanReach P (P.parentBlock i) fBB).map fun canReach =>
          match canReach, c.calledFunction with
          | true, some otherF => { s with verboseF := s.verboseF.insert otherF }
          | _, _ => s) s

/-- `Slicing::addToVerbose(F)`. -/
def addToVerbose (s : Slicing) (F : Func) : Option Slicing :=
  if F ∈ s.verboseF then some s
  else
    let callers := s.ctx.callers.touch F
    (callers.get F).foldlM (addSiblingCallees P)
      { s with verboseF := s.verboseF.insert F, ctx := { s.ctx with callers } }

theorem addSiblingCallees_spec (s : Slicing) (cb : Inst) :
    ∃ verboseF, addSiblingCallees P s cb = some { s with verboseF } ∧
      (∀ f ∈ s.verboseF, f ∈ verboseF) ∧ ∀ g ∈ verboseF, g ∈ s.verboseF ∨ SiblingOf P cb g := by
  let Grown := fun t : Slicing => ∃ verboseF, t = { s with verboseF } ∧
    (∀ f ∈ s.verboseF, f ∈ verboseF) ∧ ∀ g ∈ verboseF, g ∈ s.verboseF ∨ SiblingOf P cb g
  suffices walked : ∃ t, addSiblingCallees P s cb = some t ∧ Grown t by
    obtain ⟨t, folded, verboseF, rfl, grown, added⟩ := walked
    exact ⟨verboseF, folded, grown, added⟩
  refine foldlM_inv Grown _ (fun t i site => ?_) s ⟨s.verboseF, rfl, fun _ => id, fun _ => .inl⟩
  rintro ⟨verboseF, rfl, grown, added⟩
  have kept : Grown { s with verboseF } := ⟨verboseF, rfl, grown, added⟩
  dsimp only
  cases call : (P.inst i).call with
  | none => exact ⟨_, rfl, kept⟩
  | some c =>
      dsimp only
      by_cases intrinsic : isIntrinsicInst P c = true
      · exact ⟨_, by rw [if_pos intrinsic], kept⟩
      obtain ⟨canReach, reached⟩ := Option.isSome_iff_exists.1
        (intraCanReach_isSome P (P.parentBlock i) (P.parentBlock cb))
      rw [if_neg intrinsic, reached]
      refine ⟨_, rfl, ?_⟩
      match canReach, called : c.calledFunction with
      | true, some g =>
          exact ⟨_, rfl, fun f member => List.mem_insert_of_mem (grown f member),
            fun g' member => (List.mem_insert_iff.1 member).elim
              (fun same => .inr ⟨i, site, c, call, Bool.eq_false_iff.2 intrinsic, reached,
                same ▸ called⟩) (added g')⟩
      | true, none => exact kept
      | false, _ => exact kept

theorem addToVerbose_spec (s : Slicing) (F : Func) :
    ∃ verboseF ctx, addToVerbose P s F = some { s with verboseF, ctx } ∧
      (∀ f ∈ s.verboseF, f ∈ verboseF) ∧ F ∈ verboseF ∧
      (∀ g ∈ verboseF, g ∈ s.verboseF ∨ g = F ∨ SiblingCallee P s.ctx F g) ∧
      Touched s.ctx ctx := by
  unfold addToVerbose
  split
  · exact ⟨s.verboseF, s.ctx, rfl, fun _ => id, by assumption, fun _ => .inl, Touched.refl _⟩
  let Added := fun t : Slicing => ∃ verboseF, t = { s with verboseF, ctx := { s.ctx with
      callers := s.ctx.callers.touch F } } ∧ (∀ f ∈ s.verboseF, f ∈ verboseF) ∧ F ∈ verboseF ∧
      ∀ g ∈ verboseF, g ∈ s.verboseF ∨ g = F ∨ SiblingCallee P s.ctx F g
  suffices walked : ∃ t, ((s.ctx.callers.touch F).get F).foldlM (addSiblingCallees P)
      { s with verboseF := s.verboseF.insert F, ctx := { s.ctx with
        callers := s.ctx.callers.touch F } } = some t ∧ Added t by
    obtain ⟨t, folded, verboseF, rfl, grown, self, added⟩ := walked
    exact ⟨verboseF, _, folded, grown, self, added, touched_touch s.ctx F⟩
  refine foldlM_inv Added _ (fun t cb caller => ?_) _ ⟨_, rfl,
    fun f member => List.mem_insert_of_mem member, List.mem_insert_self F _,
    fun g member => (List.mem_insert_iff.1 member).elim (.inr ∘ .inl) .inl⟩
  rintro ⟨verboseF, rfl, grown, self, added⟩
  obtain ⟨verboseF', sibling, grown', added'⟩ := addSiblingCallees_spec P
    { s with verboseF, ctx := { s.ctx with callers := s.ctx.callers.touch F } } cb
  rw [CallerMap.touch_get] at caller
  exact ⟨_, sibling, verboseF', rfl, fun f member => grown' f (grown f member), grown' F self,
    fun g member => (added' g member).elim (added g) fun sib => .inr (.inr ⟨cb, caller, sib⟩)⟩

end

end SliceAnalyzer
