import SliceAnalyzer.Slicer.State

/-!
# Backward slicing

`Slicing::sliceFunction` and `Slicing::backtracking`, which call each other; `sliceFunction`
recurses on a fuel bound on the nesting (`sliceFunction_spec`, `sliceFunction_terminates`).
-/

namespace SliceAnalyzer

section

variable (P : Program)

/-- The first steps of `Slicing::sliceFunction(F)`. -/
def markSliced (s : Slicing) (F : Func) : Slicing :=
  { s with
    visitedF := s.visitedF.insert F
    visitedBB := (P.function F).blocks.foldl (fun visitedBB b => visitedBB.insert b) s.visitedBB }

/-- `matchingCBS` of `Slicing::sliceFunction(F)`. -/
def matchingCBS (ctx : GlobalContext) (F : Func) : List (List Inst) :=
  (ctx.callers.keys.filter fun G => (P.function G).name = (P.function F).name).map ctx.callers.get

/-- The body of `Slicing::backtracking(BB)`. -/
def backtrackingWith (slice : Slicing → Func → Option Slicing) (s : Slicing) (BB : BasicBlock) :
    Option Slicing := do
  let visitedBB ← backtrackingSearch P (predFuel P) s.visitedBB [BB]
  slice { s with visitedBB } (P.block BB).parent

/-- `Slicing::sliceFunction(F)`; `none` when the fuel runs out. -/
def sliceFunction : Nat → Slicing → Func → Option Slicing
  | 0, _, _ => none
  | fuel + 1, s, F =>
      if F ∈ s.visitedF then some s
      else do
        let s ← addToVerbose P (markSliced P s F) F
        let matching := matchingCBS P s.ctx F
        if matching.isEmpty then some s
        else
          let toProcess :=
            (matching.flatMap fun CBS => CBS.map P.parentBlock).filter (· ∉ s.visitedBB)
          let s ← toProcess.foldlM (backtrackingWith P (sliceFunction fuel)) s
          some (if matching.any (!·.isEmpty) then { s with slicedFuncCnt := s.slicedFuncCnt + 1 }
            else s)

/-- `Slicing::backtracking(BB)`, whose `sliceFunction` has the fuel `fuel`. -/
def backtracking (fuel : Nat) : Slicing → BasicBlock → Option Slicing :=
  backtrackingWith P (sliceFunction P fuel)

/-- Fuel for a call from `main`: one nesting level per function of the arena, and two more. -/
def sliceFuel : Nat := P.functions.length + 2

/-- From `F` to the enclosing function of each call site of a function named like `F`. -/
def CallerStep (ctx : GlobalContext) (F E : Func) : Prop :=
  ∃ G cb, (P.function G).name = (P.function F).name ∧ cb ∈ ctx.callers.get G ∧ E = P.parentFunc cb

/-- The functions of the arena not sliced yet. -/
def unsliced (s : Slicing) : Nat := pending Func.mk P.functions.length (fun _ => 1) s.visitedF

/-- `visitedBB` holds exactly the blocks of the functions of `visitedF`. -/
def BlocksOfVisited (s : Slicing) : Prop :=
  ∀ b, b ∈ s.visitedBB ↔ ∃ f ∈ s.visitedF, b ∈ (P.function f).blocks

/-- How `backtracking` leaves the state for `sliceFunction` on the function `F` it walked. -/
structure Marked (s : Slicing) (F : Func) : Prop where
  sound : ∀ b ∈ s.visitedBB, b ∈ (P.function F).blocks ∨ ∃ f ∈ s.visitedF, b ∈ (P.function f).blocks
  complete : ∀ f ∈ s.visitedF, ∀ b ∈ (P.function f).blocks, b ∈ s.visitedBB

/-- What a call of `sliceFunction` on `F` from `s` has done in `s'`, over the call graph `ctx`. -/
structure Sliced (ctx : GlobalContext) (s : Slicing) (F : Func) (s' : Slicing) : Prop where
  touched : Touched s.ctx s'.ctx
  visitedF_mono : ∀ f ∈ s.visitedF, f ∈ s'.visitedF
  mem_visitedF : F ∈ s'.visitedF
  blocks : BlocksOfVisited P s'
  closed : ∀ f ∈ s'.visitedF, f ∉ s.visitedF → ∀ E, CallerStep P ctx f E → E ∈ s'.visitedF
  reached : ∀ f ∈ s'.visitedF, f ∈ s.visitedF ∨ Relation.ReflTransGen (CallerStep P ctx) F f
  verboseF_mono : ∀ f ∈ s.verboseF, f ∈ s'.verboseF
  verboseF_sound : ∀ g ∈ s'.verboseF, g ∈ s.verboseF ∨ g ∈ s'.visitedF ∨
    ∃ f ∈ s'.visitedF, SiblingCallee P ctx f g
  verbose_visited : ∀ f ∈ s'.visitedF, f ∈ s.visitedF ∨ f ∈ s'.verboseF
  fVisitedF : s'.fVisitedF = s.fVisitedF
  verboseBB : s'.verboseBB = s.verboseBB
  fullFunc : s'.fullFunc = s.fullFunc

variable {P}

theorem CallerStep.congr {ctx ctx' : GlobalContext} (touched : Touched ctx ctx') :
    CallerStep P ctx' = CallerStep P ctx := by
  funext F E
  simp only [CallerStep, touched.callers_get]

theorem SiblingCallee.congr {ctx ctx' : GlobalContext} (touched : Touched ctx ctx') :
    SiblingCallee P ctx' = SiblingCallee P ctx := by
  funext F g
  simp only [SiblingCallee, touched.callers_get]

theorem mem_foldl_insert {α : Type} [DecidableEq α] (l visited : List α) (x : α) :
    x ∈ l.foldl (fun visited b => visited.insert b) visited ↔ x ∈ visited ∨ x ∈ l := by
  rw [foldl_iff_of_grow _ (fun _ => True) (fun visited => x ∈ visited) (fun b => b = x)
    (fun _ _ _ => trivial) (fun _ _ _ => by simp [or_comm, eq_comm]) l visited trivial]
  simp

theorem BlocksOfVisited.marked {s : Slicing} (blocks : BlocksOfVisited P s) (F : Func) :
    Marked P s F :=
  ⟨fun b member => .inr ((blocks b).1 member), fun f member b block => (blocks b).2 ⟨f, member, block⟩⟩

theorem Marked.blocks_markSliced {s : Slicing} {F : Func} (marked : Marked P s F) :
    BlocksOfVisited P (markSliced P s F) := by
  intro b
  simp only [markSliced, mem_foldl_insert, List.mem_insert_iff, exists_eq_or_imp]
  constructor
  · rintro (old | new)
    · exact (marked.sound b old).imp_right id
    · exact .inl new
  · rintro (new | ⟨f, member, block⟩)
    · exact .inr new
    · exact .inl (marked.complete f member b block)

theorem unsliced_le {s s' : Slicing} (sub : ∀ f ∈ s.visitedF, f ∈ s'.visitedF) :
    unsliced P s' ≤ unsliced P s :=
  pending_le_of_subset _ _ _ sub

theorem unsliced_le_length (s : Slicing) : unsliced P s ≤ P.functions.length :=
  calc unsliced P s ≤ unsliced P (Slicing.new s.ctx) :=
        unsliced_le fun _ absurd => (List.not_mem_nil _ absurd).elim
    _ = P.functions.length := by simp [unsliced, pending, Slicing.new]

theorem unsliced_markSliced {s : Slicing} {F : Func} (fresh : F ∉ s.visitedF) :
    unsliced P s = unsliced P (markSliced P s F) + if F.id < P.functions.length then 1 else 0 := by
  rw [unsliced, unsliced, markSliced, List.insert_of_not_mem fresh]
  exact pending_cons _ _ _ (fun _ _ same => Func.mk.inj same) (k := F.id) fresh

variable {ctx₀ : GlobalContext}

theorem Sliced.of_mem {s : Slicing} {F : Func} (blocks : BlocksOfVisited P s)
    (member : F ∈ s.visitedF) : Sliced P ctx₀ s F s :=
  ⟨Touched.refl _, fun _ => id, member, blocks, fun _ member' absent => absurd member' absent,
    fun _ member' => .inl member', fun _ => id, fun _ member' => .inl member',
    fun _ member' => .inl member', rfl, rfl, rfl⟩

theorem Sliced.trans {s t t' : Slicing} {F E : Func} (outer : Sliced P ctx₀ s F t)
    (inner : Sliced P ctx₀ t E t') (step : Relation.ReflTransGen (CallerStep P ctx₀) F E) :
    Sliced P ctx₀ s F t' where
  touched := outer.touched.trans inner.touched
  visitedF_mono f member := inner.visitedF_mono f (outer.visitedF_mono f member)
  mem_visitedF := inner.visitedF_mono F outer.mem_visitedF
  blocks := inner.blocks
  closed f member fresh E' caller := by
    by_cases old : f ∈ t.visitedF
    · exact inner.visitedF_mono E' (outer.closed f old fresh E' caller)
    · exact inner.closed f member old E' caller
  reached f member := by
    rcases inner.reached f member with old | new
    · exact outer.reached f old
    · exact .inr (step.trans new)
  verboseF_mono f member := inner.verboseF_mono f (outer.verboseF_mono f member)
  verboseF_sound g member := by
    rcases inner.verboseF_sound g member with old | visited | sibling
    · rcases outer.verboseF_sound g old with older | visited | ⟨f, sliced, sibling⟩
      · exact .inl older
      · exact .inr (.inl (inner.visitedF_mono g visited))
      · exact .inr (.inr ⟨f, inner.visitedF_mono f sliced, sibling⟩)
    · exact .inr (.inl visited)
    · exact .inr (.inr sibling)
  verbose_visited f member := by
    rcases inner.verbose_visited f member with old | verbose
    · exact (outer.verbose_visited f old).imp_right (inner.verboseF_mono f)
    · exact .inr verbose
  fVisitedF := inner.fVisitedF.trans outer.fVisitedF
  verboseBB := inner.verboseBB.trans outer.verboseBB
  fullFunc := inner.fullFunc.trans outer.fullFunc

theorem Marked.blocksOfVisited {s : Slicing} {F : Func} (marked : Marked P s F)
    (member : F ∈ s.visitedF) : BlocksOfVisited P s := fun b =>
  ⟨fun visited => (marked.sound b visited).elim (fun block => ⟨F, member, block⟩) id,
    fun ⟨f, member', block⟩ => marked.complete f member' b block⟩

theorem mem_matchingCBS {ctx : GlobalContext} {F : Func} {CBS : List Inst} :
    CBS ∈ matchingCBS P ctx F ↔ ∃ G ∈ ctx.callers.keys,
      (P.function G).name = (P.function F).name ∧ ctx.callers.get G = CBS := by
  simp [matchingCBS, and_assoc]

theorem mem_callerBlocks {ctx : GlobalContext} {F : Func} {BB : BasicBlock}
    {visitedBB : List BasicBlock}
    (pushed : BB ∈ ((matchingCBS P ctx F).flatMap fun CBS => CBS.map P.parentBlock).filter
      (· ∉ visitedBB)) :
    ∃ G cb, (P.function G).name = (P.function F).name ∧ cb ∈ ctx.callers.get G ∧
      BB = P.parentBlock cb := by
  rw [List.mem_filter, List.mem_flatMap] at pushed
  obtain ⟨⟨CBS, matching, caller⟩, -⟩ := pushed
  obtain ⟨cb, site, rfl⟩ := List.mem_map.1 caller
  obtain ⟨G, -, named, rfl⟩ := mem_matchingCBS.1 matching
  exact ⟨G, cb, named, site, rfl⟩

theorem Sliced.of_visitedBB {s s' : Slicing} {F : Func} {visitedBB : List BasicBlock}
    (sliced : Sliced P ctx₀ { s with visitedBB } F s') : Sliced P ctx₀ s F s' :=
  { sliced with }

theorem Sliced.count {s s' : Slicing} {F : Func} (sliced : Sliced P ctx₀ s F s') (n : Nat) :
    Sliced P ctx₀ s F { s' with slicedFuncCnt := n } :=
  { sliced with }

theorem Sliced.of_marked {s s' : Slicing} {F : Func} {verboseF : List Func} {ctx₁ : GlobalContext}
    (grown : ∀ f ∈ s.verboseF, f ∈ verboseF) (self : F ∈ verboseF)
    (added : ∀ g ∈ verboseF, g ∈ s.verboseF ∨ g = F ∨ SiblingCallee P ctx₀ F g)
    (touched : Touched s.ctx ctx₁)
    (rest : Sliced P ctx₀ { markSliced P s F with verboseF, ctx := ctx₁ } F s')
    (closedF : ∀ E, CallerStep P ctx₀ F E → E ∈ s'.visitedF) : Sliced P ctx₀ s F s' where
  touched := touched.trans rest.touched
  visitedF_mono f member := rest.visitedF_mono f (List.mem_insert_of_mem member)
  mem_visitedF := rest.mem_visitedF
  blocks := rest.blocks
  closed f member fresh E caller := by
    by_cases same : f = F
    · subst same; exact closedF E caller
    · refine rest.closed f member (fun marked => ?_) E caller
      rcases List.mem_insert_iff.1 marked with same' | old
      · exact same same'
      · exact fresh old
  reached f member := by
    rcases rest.reached f member with marked | reached
    · rcases List.mem_insert_iff.1 marked with rfl | old
      · exact .inr .refl
      · exact .inl old
    · exact .inr reached
  verboseF_mono f member := rest.verboseF_mono f (grown f member)
  verboseF_sound g member := by
    rcases rest.verboseF_sound g member with early | visited | sibling
    · rcases added g early with old | rfl | sibling
      · exact .inl old
      · exact .inr (.inl rest.mem_visitedF)
      · exact .inr (.inr ⟨F, rest.mem_visitedF, sibling⟩)
    · exact .inr (.inl visited)
    · exact .inr (.inr sibling)
  verbose_visited f member := by
    rcases rest.verbose_visited f member with marked | verbose
    · rcases List.mem_insert_iff.1 marked with rfl | old
      · exact .inr (rest.verboseF_mono f self)
      · exact .inl old
    · exact .inr verbose
  fVisitedF := rest.fVisitedF
  verboseBB := rest.verboseBB
  fullFunc := rest.fullFunc

variable (inArena : ∀ G cb, cb ∈ ctx₀.callers.get G → (P.parentBlock cb).id < P.blocks.length)

theorem backtrackingWith_spec {slice : Slicing → Func → Option Slicing} {fuel : Nat}
    (sliced : ∀ s F, Touched ctx₀ s.ctx → Marked P s F →
      unsliced P s + (if F.id < P.functions.length then 0 else 1) < fuel →
      ∃ s', slice s F = some s' ∧ Sliced P ctx₀ s F s')
    (s : Slicing) (BB : BasicBlock) (touched : Touched ctx₀ s.ctx) (blocks : BlocksOfVisited P s)
    (bound : BB.id < P.blocks.length) (enough : unsliced P s < fuel) :
    ∃ s', backtrackingWith P slice s BB = some s' ∧ Sliced P ctx₀ s (P.block BB).parent s' := by
  have inside := P.mem_blocks_parent bound
  obtain ⟨visitedBB, searched, kept, visited⟩ := backtrackingSearch_spec P (P.block BB).parent
    (predFuel P) s.visitedBB [BB] (pendingEdges_lt_predFuel P s.visitedBB)
    (by simpa using inside)
  have marked : Marked P { s with visitedBB } (P.block BB).parent :=
    ⟨fun b member => (visited b member).elim (fun old => .inr ((blocks b).1 old)) .inl,
      fun f member b block => kept b ((blocks b).2 ⟨f, member, block⟩)⟩
  obtain ⟨s', sliced, result⟩ := sliced { s with visitedBB } _ touched marked (by
    simpa [P.function_lt_of_mem inside, unsliced] using enough)
  exact ⟨s', by simpa only [backtrackingWith, searched, Option.bind_eq_bind, Option.some_bind],
    result.of_visitedBB⟩

include inArena in
theorem sliceFunction_spec_of {fuel : Nat}
    (back : ∀ s BB, Touched ctx₀ s.ctx → BlocksOfVisited P s → BB.id < P.blocks.length →
      unsliced P s < fuel → ∃ s', backtrackingWith P (sliceFunction P fuel) s BB = some s' ∧
        Sliced P ctx₀ s (P.block BB).parent s')
    (s : Slicing) (F : Func) (touched : Touched ctx₀ s.ctx) (marked : Marked P s F)
    (enough : unsliced P s + (if F.id < P.functions.length then 0 else 1) < fuel + 1) :
    ∃ s', sliceFunction P (fuel + 1) s F = some s' ∧ Sliced P ctx₀ s F s' := by
  by_cases member : F ∈ s.visitedF
  · exact ⟨s, by simp [sliceFunction, member], Sliced.of_mem (marked.blocksOfVisited member) member⟩
  obtain ⟨verboseF, ctx₁, added, grown, self, sound, touched₁⟩ :=
    addToVerbose_spec P (markSliced P s F) F
  have sound₀ : ∀ g ∈ verboseF, g ∈ s.verboseF ∨ g = F ∨ SiblingCallee P ctx₀ F g := by
    rw [← SiblingCallee.congr touched]
    exact sound
  have blocks₁ : BlocksOfVisited P { markSliced P s F with verboseF, ctx := ctx₁ } :=
    marked.blocks_markSliced
  have touched₀₁ : Touched ctx₀ ctx₁ := touched.trans touched₁
  have callerBlocks : ∀ E, CallerStep P ctx₀ F E → ∃ cb,
      P.parentBlock cb ∈ (matchingCBS P ctx₁ F).flatMap (fun CBS => CBS.map P.parentBlock) ∧
        E = P.parentFunc cb := by
    rintro E ⟨G, cb, named, caller, rfl⟩
    refine ⟨cb, List.mem_flatMap.2 ⟨ctx₀.callers.get G, mem_matchingCBS.2
      ⟨G, touched₀₁.mem_keys caller, named, congrFun touched₀₁.callers_get G⟩,
        List.mem_map_of_mem _ caller⟩, rfl⟩
  rw [sliceFunction, if_neg member, added, Option.bind_eq_bind, Option.some_bind]
  dsimp only
  split
  · rename_i empty
    refine ⟨_, rfl, Sliced.of_marked (s := s) grown self sound₀ touched₁ (Sliced.of_mem blocks₁
      (List.mem_insert_self F s.visitedF)) fun E caller => ?_⟩
    obtain ⟨cb, matched, -⟩ := callerBlocks E caller
    rw [List.isEmpty_iff.1 empty] at matched
    cases matched
  · obtain ⟨s₂, folded, rest, done, -⟩ := foldlM_done
      (fun t => Sliced P ctx₀ { markSliced P s F with verboseF, ctx := ctx₁ } F t)
      (fun BB t => (P.block BB).parent ∈ t.visitedF)
      (((matchingCBS P ctx₁ F).flatMap fun CBS => CBS.map P.parentBlock).filter
        (· ∉ (markSliced P s F).visitedBB)) (by
        intro t BB pushed sliced
        obtain ⟨G, cb, named, site, rfl⟩ := mem_callerBlocks pushed
        rw [congrFun touched₀₁.callers_get G] at site
        have fewer : unsliced P t ≤ unsliced P (markSliced P s F) :=
          unsliced_le sliced.visitedF_mono
        have marking := unsliced_markSliced (P := P) member
        obtain ⟨t', stepped, inner⟩ := back t _ (touched₀₁.trans sliced.touched) sliced.blocks
          (inArena G cb site) (by split at enough <;> split at marking <;> omega)
        exact ⟨t', stepped, sliced.trans inner (.single ⟨G, cb, named, site, rfl⟩),
          inner.mem_visitedF, fun _ earlier => inner.visitedF_mono _ earlier⟩)
      _ (Sliced.of_mem blocks₁ (List.mem_insert_self F s.visitedF))
    rw [folded, Option.some_bind]
    have whole := Sliced.of_marked (s := s) grown self sound₀ touched₁ rest fun E caller => by
      obtain ⟨cb, matched, rfl⟩ := callerBlocks E caller
      by_cases visited : P.parentBlock cb ∈ (markSliced P s F).visitedBB
      · obtain ⟨f, sliced, block⟩ := (blocks₁ _).1 visited
        rw [Program.parentFunc, P.block_parent block]
        exact rest.visitedF_mono f sliced
      · exact done _ (List.mem_filter.2 ⟨matched, by simpa using visited⟩)
    split
    · exact ⟨_, rfl, whole.count _⟩
    · exact ⟨_, rfl, whole⟩

include inArena in
theorem sliceFunction_spec : ∀ fuel s F, Touched ctx₀ s.ctx → Marked P s F →
    unsliced P s + (if F.id < P.functions.length then 0 else 1) < fuel →
    ∃ s', sliceFunction P fuel s F = some s' ∧ Sliced P ctx₀ s F s'
  | 0, _, _, _, _, enough => absurd enough (Nat.not_lt_zero _)
  | fuel + 1, s, F, touched, marked, enough =>
      sliceFunction_spec_of inArena (backtrackingWith_spec (sliceFunction_spec fuel)) s F touched
        marked enough

include inArena in
theorem backtracking_spec (fuel : Nat) (s : Slicing) (BB : BasicBlock) (touched : Touched ctx₀ s.ctx)
    (blocks : BlocksOfVisited P s) (bound : BB.id < P.blocks.length) (enough : unsliced P s < fuel) :
    ∃ s', backtracking P fuel s BB = some s' ∧ Sliced P ctx₀ s (P.block BB).parent s' :=
  backtrackingWith_spec (sliceFunction_spec inArena fuel) s BB touched blocks bound enough

/-! ## Termination from any state -/

/-- What a backward call does to the parts of the state it does not compute. -/
structure BackwardFrame (s s' : Slicing) : Prop where
  touched : Touched s.ctx s'.ctx
  visitedF : ∀ f ∈ s.visitedF, f ∈ s'.visitedF
  fVisitedF : s'.fVisitedF = s.fVisitedF
  verboseBB : s'.verboseBB = s.verboseBB

theorem BackwardFrame.refl (s : Slicing) : BackwardFrame s s :=
  ⟨Touched.refl _, fun _ => id, rfl, rfl⟩

theorem BackwardFrame.trans {s t u : Slicing} (first : BackwardFrame s t)
    (second : BackwardFrame t u) : BackwardFrame s u :=
  ⟨first.touched.trans second.touched, fun f member => second.visitedF f (first.visitedF f member),
    second.fVisitedF.trans first.fVisitedF, second.verboseBB.trans first.verboseBB⟩

theorem unsliced_lt_sliceFuel (s : Slicing) (F : Func) :
    unsliced P s + (if F.id < P.functions.length then 0 else 1) < sliceFuel P := by
  have := unsliced_le_length (P := P) s
  unfold sliceFuel
  split <;> omega

theorem backtrackingWith_terminates {slice : Slicing → Func → Option Slicing} {fuel : Nat}
    (sliced : ∀ s F, Touched ctx₀ s.ctx →
      unsliced P s + (if F.id < P.functions.length then 0 else 1) < fuel →
      ∃ s', slice s F = some s' ∧ BackwardFrame s s')
    (s : Slicing) (BB : BasicBlock) (touched : Touched ctx₀ s.ctx)
    (enough : unsliced P s + (if (P.block BB).parent.id < P.functions.length then 0 else 1) < fuel) :
    ∃ s', backtrackingWith P slice s BB = some s' ∧ BackwardFrame s s' := by
  obtain ⟨visitedBB, searched⟩ :=
    Option.isSome_iff_exists.1 (backtrackingSearch_predFuel P s.visitedBB BB)
  obtain ⟨s', sliced, frame⟩ := sliced { s with visitedBB } _ touched (by simpa [unsliced] using enough)
  exact ⟨s', by simpa only [backtrackingWith, searched, Option.bind_eq_bind, Option.some_bind],
    { frame with }⟩

include inArena in
theorem sliceFunction_terminates : ∀ fuel s F, Touched ctx₀ s.ctx →
    unsliced P s + (if F.id < P.functions.length then 0 else 1) < fuel →
    ∃ s', sliceFunction P fuel s F = some s' ∧ BackwardFrame s s'
  | 0, _, _, _, enough => absurd enough (Nat.not_lt_zero _)
  | fuel + 1, s, F, touched, enough => by
      by_cases member : F ∈ s.visitedF
      · exact ⟨s, by simp [sliceFunction, member], .refl s⟩
      obtain ⟨verboseF, ctx₁, added, -, -, -, touched₁⟩ := addToVerbose_spec P (markSliced P s F) F
      have marked : BackwardFrame s { markSliced P s F with verboseF, ctx := ctx₁ } :=
        ⟨touched₁, fun _ => List.mem_insert_of_mem, rfl, rfl⟩
      rw [sliceFunction, if_neg member, added, Option.bind_eq_bind, Option.some_bind]
      dsimp only
      split
      · exact ⟨_, rfl, marked⟩
      obtain ⟨s₂, folded, rest⟩ := foldlM_inv
        (fun t => BackwardFrame { markSliced P s F with verboseF, ctx := ctx₁ } t)
        (((matchingCBS P ctx₁ F).flatMap fun CBS => CBS.map P.parentBlock).filter
          (· ∉ (markSliced P s F).visitedBB)) (by
          intro t BB pushed framed
          obtain ⟨G, cb, -, site, rfl⟩ := mem_callerBlocks pushed
          have touched₀ := (touched.trans touched₁).trans framed.touched
          rw [congrFun (touched.trans touched₁).callers_get G] at site
          have inside := P.mem_blocks_parent (inArena G cb site)
          have fewer : unsliced P t ≤ unsliced P (markSliced P s F) := unsliced_le framed.visitedF
          have marking := unsliced_markSliced (P := P) member
          obtain ⟨t', stepped, frame⟩ := backtrackingWith_terminates (sliceFunction_terminates fuel)
            t _ touched₀ (by
              rw [if_pos (P.function_lt_of_mem inside)]
              split at enough <;> split at marking <;> omega)
          exact ⟨t', stepped, framed.trans frame⟩)
        _ (.refl _)
      rw [folded, Option.some_bind]
      split
      · exact ⟨_, rfl, marked.trans { rest with }⟩
      · exact ⟨_, rfl, marked.trans rest⟩

end

theorem backtracking_skips_pred (fuel : Nat) (ctx : GlobalContext) :
    backtracking branchProgram fuel (Slicing.new ctx) ⟨3⟩ =
      sliceFunction branchProgram fuel { Slicing.new ctx with visitedBB := [⟨0⟩, ⟨1⟩, ⟨3⟩] } ⟨0⟩ ∧
    (branchProgram.block ⟨3⟩).preds = [⟨1⟩, ⟨1⟩, ⟨2⟩] ∧
    (⟨2⟩ : BasicBlock) ∈ (branchProgram.function (branchProgram.block ⟨3⟩).parent).blocks ∧
    Relation.ReflTransGen (SuccEdge branchProgram) ⟨2⟩ ⟨3⟩ :=
  ⟨rfl, rfl, by decide, .single (by decide)⟩

end SliceAnalyzer
