import SliceAnalyzer.Slicer.State

/-!
# Forward slicing

`Slicing::forwardSlicingFunction` and its variants, under a fuel bound they finish within
(`forwardSlicingLoop_spec`).
-/

namespace SliceAnalyzer

section

variable (P : Program)

/-- The blocks of the functions of the arena not in `fVisitedF`: what the walk may still queue. -/
def pendingBlocks (fVisitedF : List Func) : Nat :=
  pending Func.mk P.functions.length (fun f => (P.function f).blocks.length) fVisitedF

/-- The loops of `Slicing::forwardSlicingFunction` over the instructions of a block. -/
def visitCallees (s : Slicing) (current : BasicBlock) (toVisit : List BasicBlock) :
    Slicing × List BasicBlock :=
  (P.block current).insts.foldl (fun (s, toVisit) I =>
    match (P.inst I).call with
    | none => (s, toVisit)
    | some _ => (s.ctx.callees I).foldl (fun (s, toVisit) callee =>
        if callee ∈ s.fVisitedF then (s, toVisit)
        else ({ s with fVisitedF := callee :: s.fVisitedF },
          toVisit ++ (P.function callee).blocks)) (s, toVisit)) (s, toVisit)

/-- The loop of `Slicing::forwardSlicingFunction`; `none` when the fuel runs out. -/
def forwardSlicingLoop : Nat → List BasicBlock → Slicing → List BasicBlock → Option Slicing
  | 0, _, _, _ => none
  | _ + 1, _, s, [] => some s
  | fuel + 1, visited, s, current :: toVisit =>
      let s := { s with verboseBB := s.verboseBB.insert current }
      if current ∈ visited then forwardSlicingLoop fuel visited s toVisit
      else
        let (s, toVisit) := visitCallees P s current toVisit
        forwardSlicingLoop fuel (current :: visited) s toVisit

/-- Fuel for the walk from `F`: the blocks of `F`, those the walk may still queue, and one more. -/
def forwardFuel (s : Slicing) (F : Func) : Nat :=
  (P.function F).blocks.length + pendingBlocks P s.fVisitedF + 1

/-- `Slicing::forwardSlicingFunction(F)`: queue the blocks of `F` and walk. -/
def forwardSlicingFunction (s : Slicing) (F : Func) : Option Slicing :=
  forwardSlicingLoop P (forwardFuel P s F) [] s (P.function F).blocks

/-- `Slicing::forwardSlicingFunctionWithDepth(F, depth, visited)`. -/
def forwardSlicingFunctionWithDepth (ctx : GlobalContext) (F : Func) : Nat → List Func → List Func
  | 0, visited => visited.insert F
  | depth + 1, visited =>
      (P.instructions F).foldl (fun visited I =>
        match (P.inst I).call with
        | none => visited
        | some _ => (ctx.callees I).foldl (fun visited callee =>
            forwardSlicingFunctionWithDepth ctx callee depth visited) visited) (visited.insert F)

/-- `Module::getFunction(Name)`. -/
def getFunction (M : Module) (name : String) : Option Func :=
  M.functions.find? fun f => (P.function f).name = name

/-- `Slicing::forwardSlicingFunctionStub(funcName)`. -/
def forwardSlicingFunctionStub (s : Slicing) (funcName : String) : Option Slicing :=
  match s.ctx.modules.findSome? (getFunction P · funcName) with
  | none => some s
  | some F => forwardSlicingFunction P s F

/-- The step of the forward slice: from `F` to each callee of a call site in a block of `F`. -/
def CalleeStep (ctx : GlobalContext) (F g : Func) : Prop :=
  ∃ b ∈ (P.function F).blocks, ∃ I ∈ (P.block b).insts, (P.inst I).call.isSome ∧ g ∈ ctx.callees I

/-- What the forward walks from `roots` have made of `fVisitedF` and `verboseBB`. -/
structure ForwardSlice (ctx : GlobalContext) (roots : List Func) (s : Slicing) : Prop where
  reached : ∀ g ∈ s.fVisitedF, ∃ r ∈ roots, Relation.TransGen (CalleeStep P ctx) r g
  closed : ∀ f g, f ∈ roots ∨ f ∈ s.fVisitedF → CalleeStep P ctx f g → g ∈ s.fVisitedF
  verboseBB : ∀ b, b ∈ s.verboseBB ↔ ∃ f, (f ∈ roots ∨ f ∈ s.fVisitedF) ∧ b ∈ (P.function f).blocks

variable {P}

theorem pendingBlocks_cons {fVisitedF : List Func} {f : Func} (fresh : f ∉ fVisitedF) :
    pendingBlocks P fVisitedF = pendingBlocks P (f :: fVisitedF) + (P.function f).blocks.length := by
  rw [pendingBlocks, pendingBlocks,
    pending_cons _ _ _ (fun _ _ same => Func.mk.inj same) (k := f.id) fresh]
  split
  · rfl
  · rename_i past
    rw [P.function_of_le (Nat.le_of_not_lt past)]
    rfl

/-- A forward operation changes only `fVisitedF` and `verboseBB`, and both grow. -/
def ForwardFrame (s s' : Slicing) : Prop :=
  ∃ fVisitedF verboseBB, s' = { s with fVisitedF, verboseBB } ∧
    (∀ f ∈ s.fVisitedF, f ∈ fVisitedF) ∧ ∀ b ∈ s.verboseBB, b ∈ verboseBB

variable (P) in
/-- The invariant of the walk from `F` that started in the state `s₀`. -/
structure Walking (roots : List Func) (F : Func) (s₀ : Slicing) (visited : List BasicBlock)
    (s : Slicing) (toVisit : List BasicBlock) : Prop where
  frame : ForwardFrame s₀ s
  reached : ∀ g ∈ s.fVisitedF, ∃ r ∈ F :: roots, Relation.TransGen (CalleeStep P s₀.ctx) r g
  expanded : ∀ b ∈ visited, ∀ I ∈ (P.block b).insts, (P.inst I).call.isSome →
    ∀ g ∈ s₀.ctx.callees I, g ∈ s.fVisitedF
  covered : ∀ f, f = F ∨ f ∈ s.fVisitedF ∧ f ∉ s₀.fVisitedF → ∀ b ∈ (P.function f).blocks,
    b ∈ visited ∨ b ∈ toVisit
  queued : ∀ b ∈ toVisit, ∃ f, (f = F ∨ f ∈ s.fVisitedF) ∧ b ∈ (P.function f).blocks
  popped : ∀ b ∈ visited, b ∈ s.verboseBB
  verboseBB : ∀ b ∈ s.verboseBB, b ∈ s₀.verboseBB ∨
    ∃ f, (f = F ∨ f ∈ s.fVisitedF) ∧ b ∈ (P.function f).blocks

theorem ForwardFrame.refl (s : Slicing) : ForwardFrame s s :=
  ⟨s.fVisitedF, s.verboseBB, rfl, fun _ => id, fun _ => id⟩

theorem ForwardFrame.trans {s t u : Slicing} (first : ForwardFrame s t)
    (second : ForwardFrame t u) : ForwardFrame s u := by
  obtain ⟨fVisitedF, verboseBB, rfl, grown, grownBB⟩ := first
  obtain ⟨fVisitedF', verboseBB', rfl, grown', grownBB'⟩ := second
  exact ⟨fVisitedF', verboseBB', rfl, fun f member => grown' f (grown f member),
    fun b member => grownBB' b (grownBB b member)⟩

theorem ForwardFrame.mem_fVisitedF {s s' : Slicing} (frame : ForwardFrame s s') {f : Func}
    (member : f ∈ s.fVisitedF) : f ∈ s'.fVisitedF := by
  obtain ⟨_, _, rfl, grown, -⟩ := frame
  exact grown f member

theorem ForwardFrame.mem_verboseBB {s s' : Slicing} (frame : ForwardFrame s s') {b : BasicBlock}
    (member : b ∈ s.verboseBB) : b ∈ s'.verboseBB := by
  obtain ⟨_, _, rfl, -, grown⟩ := frame
  exact grown b member

theorem visitCallees_spec (s : Slicing) (current : BasicBlock) (toVisit : List BasicBlock) :
    ForwardFrame s (visitCallees P s current toVisit).1 ∧
      (visitCallees P s current toVisit).1.verboseBB = s.verboseBB ∧
      pendingBlocks P (visitCallees P s current toVisit).1.fVisitedF +
          (visitCallees P s current toVisit).2.length =
        pendingBlocks P s.fVisitedF + toVisit.length := by
  let Kept := fun (acc : Slicing × List BasicBlock) => ForwardFrame s acc.1 ∧
    acc.1.verboseBB = s.verboseBB ∧
    pendingBlocks P acc.1.fVisitedF + acc.2.length = pendingBlocks P s.fVisitedF + toVisit.length
  have callee : ∀ (acc : Slicing × List BasicBlock) (callee : Func), Kept acc →
      Kept (if callee ∈ acc.1.fVisitedF then acc
        else ({ acc.1 with fVisitedF := callee :: acc.1.fVisitedF },
          acc.2 ++ (P.function callee).blocks)) := by
    rintro ⟨t, queue⟩ f ⟨frame, sameBB, bound⟩
    split
    · exact ⟨frame, sameBB, bound⟩
    · rename_i fresh
      refine ⟨frame.trans ⟨_, _, rfl, fun _ => List.mem_cons_of_mem f, fun _ => id⟩, sameBB, ?_⟩
      rw [pendingBlocks_cons fresh] at bound
      simp only [List.length_append] at bound ⊢
      omega
  refine foldl_inv Kept (fun acc I kept => ?_) _ _ ⟨ForwardFrame.refl s, rfl, rfl⟩
  dsimp only
  split
  · exact kept
  · exact foldl_inv Kept (fun acc f kept => callee acc f kept) _ _ kept

theorem visitCallees_mem (s : Slicing) (current : BasicBlock) (toVisit : List BasicBlock) :
    (∀ g, g ∈ (visitCallees P s current toVisit).1.fVisitedF ↔ g ∈ s.fVisitedF ∨
      ∃ I ∈ (P.block current).insts, (P.inst I).call.isSome ∧ g ∈ s.ctx.callees I) ∧
    ∀ b, b ∈ (visitCallees P s current toVisit).2 ↔ b ∈ toVisit ∨
      ∃ g ∈ (visitCallees P s current toVisit).1.fVisitedF, g ∉ s.fVisitedF ∧
        b ∈ (P.function g).blocks := by
  constructor
  · intro g
    refine foldl_iff_of_grow _ (fun acc : Slicing × List BasicBlock => acc.1.ctx = s.ctx)
      (fun acc => g ∈ acc.1.fVisitedF) _ (fun acc I same => ?_) (fun acc I same => ?_) _ _ rfl
    · dsimp only
      split
      · exact same
      · exact foldl_inv (fun acc : Slicing × List BasicBlock => acc.1.ctx = s.ctx)
          (fun acc f same => by dsimp only; split <;> exact same) _ _ same
    · dsimp only
      split
      · rename_i none
        simp [none]
      · rename_i some
        refine (foldl_iff_of_grow _ (fun _ : Slicing × List BasicBlock => True)
          (fun acc : Slicing × List BasicBlock => g ∈ acc.1.fVisitedF) (· = g) (fun _ _ _ => trivial)
          ?_ _ _ trivial).trans ?_
        · intro acc f _
          dsimp only
          split
          · rename_i old
            exact ⟨.inl, (·.elim id (· ▸ old))⟩
          · simp [eq_comm, or_comm]
        · simp [some, same]
  · let Queued := fun acc : Slicing × List BasicBlock => (∀ f ∈ s.fVisitedF, f ∈ acc.1.fVisitedF) ∧
      ∀ b, b ∈ acc.2 ↔ b ∈ toVisit ∨
        ∃ g ∈ acc.1.fVisitedF, g ∉ s.fVisitedF ∧ b ∈ (P.function g).blocks
    have callee : ∀ (acc : Slicing × List BasicBlock) (callee : Func), Queued acc →
        Queued (if callee ∈ acc.1.fVisitedF then acc
          else ({ acc.1 with fVisitedF := callee :: acc.1.fVisitedF },
            acc.2 ++ (P.function callee).blocks)) := by
      rintro ⟨t, queue⟩ f ⟨grown, queued⟩
      dsimp only at grown queued ⊢
      split
      · exact ⟨grown, queued⟩
      · rename_i fresh
        refine ⟨fun g member => List.mem_cons_of_mem f (grown g member), fun b => ?_⟩
        have older : f ∉ s.fVisitedF := fun old => fresh (grown f old)
        simp only [List.mem_append, queued, List.mem_cons, or_and_right, exists_or, exists_eq_left,
          older, not_false_eq_true, true_and, or_assoc]
        exact or_congr_right or_comm
    exact (foldl_inv Queued (fun acc I queued => by
      dsimp only; split
      · exact queued
      · exact foldl_inv Queued callee _ _ queued) _ _
      ⟨fun _ => id, fun b => by simp +contextual⟩).2

theorem ForwardFrame.ctx {s s' : Slicing} (frame : ForwardFrame s s') : s'.ctx = s.ctx := by
  obtain ⟨_, _, rfl, -, -⟩ := frame
  rfl

theorem ForwardFrame.insert_verboseBB (s : Slicing) (b : BasicBlock) :
    ForwardFrame s { s with verboseBB := s.verboseBB.insert b } :=
  ⟨_, _, rfl, fun _ => id, fun _ => List.mem_insert_of_mem⟩

theorem forwardSlicingLoop_inv (inv : List BasicBlock → Slicing → List BasicBlock → Prop)
    (skip : ∀ visited s current toVisit, current ∈ visited → inv visited s (current :: toVisit) →
      inv visited { s with verboseBB := s.verboseBB.insert current } toVisit)
    (visit : ∀ visited s current toVisit, current ∉ visited → inv visited s (current :: toVisit) →
      inv (current :: visited)
        (visitCallees P { s with verboseBB := s.verboseBB.insert current } current toVisit).1
        (visitCallees P { s with verboseBB := s.verboseBB.insert current } current toVisit).2) :
    ∀ fuel visited (s : Slicing) toVisit, pendingBlocks P s.fVisitedF + toVisit.length < fuel →
      inv visited s toVisit →
      ∃ visited' s', forwardSlicingLoop P fuel visited s toVisit = some s' ∧ inv visited' s' []
  | 0, _, _, _, enough, _ => absurd enough (Nat.not_lt_zero _)
  | _ + 1, visited, s, [], _, holds => ⟨visited, s, rfl, holds⟩
  | fuel + 1, visited, s, current :: toVisit, enough, holds => by
      simp only [List.length_cons] at enough
      unfold forwardSlicingLoop
      dsimp only
      split
      · rename_i old
        exact forwardSlicingLoop_inv inv skip visit fuel visited _ toVisit (by dsimp only; omega)
          (skip _ _ _ _ old holds)
      · rename_i fresh
        obtain ⟨-, -, bound⟩ := visitCallees_spec (P := P)
          { s with verboseBB := s.verboseBB.insert current } current toVisit
        dsimp only at bound
        exact forwardSlicingLoop_inv inv skip visit fuel _ _ _ (by omega) (visit _ _ _ _ fresh holds)

theorem forwardSlicingLoop_spec (fuel : Nat) (visited : List BasicBlock) (s : Slicing)
    (toVisit : List BasicBlock) (enough : pendingBlocks P s.fVisitedF + toVisit.length < fuel) :
    ∃ s', forwardSlicingLoop P fuel visited s toVisit = some s' ∧ ForwardFrame s s' := by
  obtain ⟨-, s', walked, frame⟩ := forwardSlicingLoop_inv (fun _ t _ => ForwardFrame s t)
    (fun _ t current _ _ frame => frame.trans (.insert_verboseBB t current))
    (fun _ t current toVisit _ frame => (frame.trans (.insert_verboseBB t current)).trans
      (visitCallees_spec _ current toVisit).1) fuel visited s toVisit enough (.refl s)
  exact ⟨s', walked, frame⟩

/-! ## The forward slice -/

section Walk

variable {roots : List Func} {F : Func} {s₀ : Slicing}

theorem ForwardSlice.mem_fVisitedF {ctx : GlobalContext} {s : Slicing}
    (slice : ForwardSlice P ctx roots s) (g : Func) :
    g ∈ s.fVisitedF ↔ ∃ r ∈ roots, Relation.TransGen (CalleeStep P ctx) r g := by
  refine ⟨slice.reached g, ?_⟩
  rintro ⟨r, root, path⟩
  induction path with
  | single step => exact slice.closed _ _ (.inl root) step
  | tail _ step reached => exact slice.closed _ _ (.inr reached) step

theorem Walking.start (F : Func) (prior : ForwardSlice P s₀.ctx roots s₀) :
    Walking P roots F s₀ [] s₀ (P.function F).blocks where
  frame := .refl s₀
  reached g member := let ⟨r, root, path⟩ := prior.reached g member; ⟨r, .tail _ root, path⟩
  expanded _ absurd := (List.not_mem_nil _ absurd).elim
  covered f owner b block := by
    rcases owner with rfl | ⟨added, fresh⟩
    · exact .inr block
    · exact absurd added fresh
  queued _ block := ⟨F, .inl rfl, block⟩
  popped _ absurd := (List.not_mem_nil _ absurd).elim
  verboseBB _ member := .inl member

theorem Walking.skip {visited : List BasicBlock} {s : Slicing} {current : BasicBlock}
    {toVisit : List BasicBlock} (walking : Walking P roots F s₀ visited s (current :: toVisit))
    (old : current ∈ visited) :
    Walking P roots F s₀ visited { s with verboseBB := s.verboseBB.insert current } toVisit where
  frame := walking.frame.trans (.insert_verboseBB s current)
  reached := walking.reached
  expanded := walking.expanded
  covered f owner b block := by
    rcases walking.covered f owner b block with done | queued
    · exact .inl done
    · rcases List.mem_cons.1 queued with rfl | queued
      · exact .inl old
      · exact .inr queued
  queued b member := walking.queued b (.tail _ member)
  popped b member := List.mem_insert_of_mem (walking.popped b member)
  verboseBB b member := by
    rcases List.mem_insert_iff.1 member with rfl | member
    · exact .inr (walking.queued b (.head _))
    · exact walking.verboseBB b member

theorem Walking.visit {visited : List BasicBlock} {s : Slicing} {current : BasicBlock}
    {toVisit : List BasicBlock} (walking : Walking P roots F s₀ visited s (current :: toVisit)) :
    Walking P roots F s₀ (current :: visited)
      (visitCallees P { s with verboseBB := s.verboseBB.insert current } current toVisit).1
      (visitCallees P { s with verboseBB := s.verboseBB.insert current } current toVisit).2 := by
  obtain ⟨frame, sameBB, -⟩ :=
    visitCallees_spec (P := P) { s with verboseBB := s.verboseBB.insert current } current toVisit
  obtain ⟨callees, queue⟩ :=
    visitCallees_mem (P := P) { s with verboseBB := s.verboseBB.insert current } current toVisit
  dsimp only at sameBB callees queue
  have sameCallees : s.ctx.callees = s₀.ctx.callees := by rw [walking.frame.ctx]
  rw [sameCallees] at callees
  have grown : ∀ f, f = F ∨ f ∈ s.fVisitedF → f = F ∨
      f ∈ (visitCallees P { s with verboseBB := s.verboseBB.insert current } current toVisit).1.fVisitedF :=
    fun f => Or.imp_right fun old => (callees f).2 (.inl old)
  obtain ⟨owner, owned, block⟩ := walking.queued current (.head _)
  exact {
    frame := (walking.frame.trans (.insert_verboseBB s current)).trans frame
    reached := fun g member => by
      rcases (callees g).1 member with old | ⟨I, inst, call, callee⟩
      · exact walking.reached g old
      · have step : CalleeStep P s₀.ctx owner g := ⟨current, block, I, inst, call, callee⟩
        rcases owned with rfl | added
        · exact ⟨owner, .head _, .single step⟩
        · obtain ⟨r, root, path⟩ := walking.reached owner added
          exact ⟨r, root, .tail path step⟩
    expanded := fun b member I inst call g callee => by
      rcases List.mem_cons.1 member with rfl | member
      · exact (callees g).2 (.inr ⟨I, inst, call, callee⟩)
      · exact (callees g).2 (.inl (walking.expanded b member I inst call g callee))
    covered := fun f owner' b block' => by
      by_cases before : f = F ∨ f ∈ s.fVisitedF ∧ f ∉ s₀.fVisitedF
      · rcases walking.covered f before b block' with done | queued
        · exact .inl (.tail _ done)
        · rcases List.mem_cons.1 queued with rfl | queued
          · exact .inl (.head _)
          · exact .inr ((queue b).2 (.inl queued))
      · have fresh := owner'.resolve_left fun same => before (.inl same)
        exact .inr ((queue b).2 (.inr ⟨f, fresh.1, fun old => before (.inr ⟨old, fresh.2⟩), block'⟩))
    queued := fun b member => by
      rcases (queue b).1 member with queued | ⟨g, added, -, block'⟩
      · obtain ⟨f, owned', block'⟩ := walking.queued b (.tail _ queued)
        exact ⟨f, grown f owned', block'⟩
      · exact ⟨g, .inr added, block'⟩
    popped := fun b member => by
      rw [sameBB]
      rcases List.mem_cons.1 member with rfl | member
      · exact List.mem_insert_self _ _
      · exact List.mem_insert_of_mem (walking.popped b member)
    verboseBB := fun b member => by
      rw [sameBB] at member
      rcases List.mem_insert_iff.1 member with rfl | member
      · exact .inr ⟨owner, grown owner owned, block⟩
      · exact (walking.verboseBB b member).imp_right
          fun ⟨f, owned', block'⟩ => ⟨f, grown f owned', block'⟩ }

theorem Walking.slice {visited : List BasicBlock} {s : Slicing}
    (walking : Walking P roots F s₀ visited s []) (prior : ForwardSlice P s₀.ctx roots s₀) :
    ForwardSlice P s₀.ctx (roots ++ [F]) s := by
  have walked : ∀ f, f ∈ roots ++ [F] ∨ f ∈ s.fVisitedF →
      (f ∈ roots ∨ f ∈ s₀.fVisitedF) ∨ ∀ b ∈ (P.function f).blocks, b ∈ visited := by
    intro f owner
    by_cases early : f ∈ roots ∨ f ∈ s₀.fVisitedF
    · exact .inl early
    · refine .inr fun b block => (walking.covered f ?_ b block).resolve_right (List.not_mem_nil b)
      simp only [List.mem_append, List.mem_singleton] at owner
      tauto
  refine ⟨fun g member => ?_, fun f g owner step => ?_, fun b => ⟨fun member => ?_, ?_⟩⟩
  · obtain ⟨r, root, path⟩ := walking.reached g member
    exact ⟨r, by simpa [or_comm] using root, path⟩
  · rcases walked f owner with early | done
    · exact walking.frame.mem_fVisitedF (prior.closed f g early step)
    · obtain ⟨b, block, I, inst, call, callee⟩ := step
      exact walking.expanded b (done b block) I inst call g callee
  · rcases walking.verboseBB b member with early | ⟨f, owned, block⟩
    · obtain ⟨f, owned, block⟩ := (prior.verboseBB b).1 early
      exact ⟨f, owned.imp (List.mem_append_left _) walking.frame.mem_fVisitedF, block⟩
    · exact ⟨f, owned.imp_left fun same => List.mem_append_right _ (List.mem_singleton.2 same), block⟩
  · rintro ⟨f, owner, block⟩
    rcases walked f owner with early | done
    · exact walking.frame.mem_verboseBB ((prior.verboseBB b).2 ⟨f, early, block⟩)
    · exact walking.popped b (done b block)

theorem forwardSlicingFunction_slice (prior : ForwardSlice P s₀.ctx roots s₀) (F : Func) :
    ∃ s', forwardSlicingFunction P s₀ F = some s' ∧ ForwardFrame s₀ s' ∧
      ForwardSlice P s₀.ctx (roots ++ [F]) s' := by
  obtain ⟨_, s', walked, walking⟩ := forwardSlicingLoop_inv (Walking P roots F s₀)
    (fun _ _ _ _ old walking => walking.skip old) (fun _ _ _ _ _ walking => walking.visit)
    (forwardFuel P s₀ F) [] s₀ _ (by simp only [forwardFuel]; omega) (.start F prior)
  exact ⟨s', walked, walking.frame, walking.slice prior⟩

theorem CalleeStep.congr {ctx ctx' : GlobalContext} (callees : ctx'.callees = ctx.callees) :
    CalleeStep P ctx' = CalleeStep P ctx := by
  funext F g
  simp only [CalleeStep, callees]

theorem ForwardSlice.of_callees {ctx ctx' : GlobalContext} {s : Slicing}
    (callees : ctx'.callees = ctx.callees) (slice : ForwardSlice P ctx roots s) :
    ForwardSlice P ctx' roots s :=
  ⟨by rw [CalleeStep.congr callees]; exact slice.reached,
    by rw [CalleeStep.congr callees]; exact slice.closed, slice.verboseBB⟩

theorem ForwardSlice.fresh {ctx : GlobalContext} {s : Slicing} (noFuncs : s.fVisitedF = [])
    (noBlocks : s.verboseBB = []) : ForwardSlice P ctx [] s :=
  ⟨by simp [noFuncs], by simp [noFuncs], by simp [noFuncs, noBlocks]⟩

end Walk

theorem forwardSlicingFunction_spec (s : Slicing) (F : Func) :
    ∃ s', forwardSlicingFunction P s F = some s' ∧ ForwardFrame s s' :=
  forwardSlicingLoop_spec _ _ _ _ (by simp only [forwardFuel]; omega)

theorem forwardSlicingFunctionStub_spec (s : Slicing) (funcName : String) :
    ∃ s', forwardSlicingFunctionStub P s funcName = some s' ∧ ForwardFrame s s' := by
  unfold forwardSlicingFunctionStub
  split
  · exact ⟨s, rfl, ForwardFrame.refl s⟩
  · exact forwardSlicingFunction_spec s _

theorem forwardSlicingFunctionStub_slice {roots : List Func} {s₀ : Slicing}
    (prior : ForwardSlice P s₀.ctx roots s₀) (funcName : String) :
    ∃ s', forwardSlicingFunctionStub P s₀ funcName = some s' ∧ ForwardFrame s₀ s' ∧
      ForwardSlice P s₀.ctx (roots ++ (s₀.ctx.modules.findSome? (getFunction P · funcName)).toList)
        s' := by
  unfold forwardSlicingFunctionStub
  split
  · rename_i missing
    exact ⟨s₀, rfl, .refl s₀, by simpa [missing] using prior⟩
  · rename_i F found
    simpa [found] using forwardSlicingFunction_slice prior F

theorem mem_forwardSlicingFunctionWithDepth_one (ctx : GlobalContext) (F : Func)
    (visited : List Func) (g : Func) :
    g ∈ forwardSlicingFunctionWithDepth P ctx F 1 visited ↔ g ∈ visited ∨ g = F ∨
      ∃ I ∈ P.instructions F, (P.inst I).call.isSome ∧ g ∈ ctx.callees I := by
  rw [forwardSlicingFunctionWithDepth]
  refine (foldl_iff_of_grow _ (fun _ : List Func => True) (g ∈ ·)
    (fun I => (P.inst I).call.isSome ∧ g ∈ ctx.callees I) (fun _ _ _ => trivial)
    (fun visited I _ => ?_) _ _ trivial).trans ?_
  · dsimp only
    split
    · rename_i none
      simp [none]
    · rename_i some
      refine (foldl_iff_of_grow _ (fun _ : List Func => True) (g ∈ ·) (· = g)
        (fun _ _ _ => trivial) (fun visited callee _ => ?_) _ _ trivial).trans ?_
      · simp [forwardSlicingFunctionWithDepth, List.mem_insert_iff, eq_comm, or_comm]
      · simp [some]
  · rw [List.mem_insert_iff, or_assoc, or_left_comm]

end

end SliceAnalyzer
