import SliceAnalyzer.IR.Program
import SliceAnalyzer.Loops

/-!
# The slicer's searches over the control-flow graph

`Slicing::intraCanReach` and the reverse walk of `Slicing::backtracking`, both a DFS with an
explicit stack under fuel (`intraCanReach_reachable`, `backtrackingSearch_reaches`).
-/
namespace SliceAnalyzer

section

variable (P : Program)

/-- The edges out of the blocks a search has not visited. -/
def pendingEdges (edges : BlockData → List BasicBlock) (visited : List BasicBlock) : Nat :=
  pending BasicBlock.mk P.blocks.length (fun b => (edges (P.block b)).length) visited

variable {P}

theorem pendingEdges_cons {edges : BlockData → List BasicBlock} (noEdges : edges default = [])
    {visited : List BasicBlock} {b : BasicBlock} (fresh : b ∉ visited) :
    pendingEdges P edges visited =
      pendingEdges P edges (b :: visited) + (edges (P.block b)).length := by
  rw [pendingEdges, pendingEdges,
    pending_cons _ _ _ (fun _ _ same => BasicBlock.mk.inj same) (k := b.id) fresh]
  split
  · rfl
  · rename_i past
    rw [P.block_of_le (Nat.le_of_not_lt past), noEdges]
    rfl

theorem pendingEdges_le (edges : BlockData → List BasicBlock) (visited : List BasicBlock) :
    pendingEdges P edges visited ≤ pendingEdges P edges [] :=
  pending_le_of_subset _ _ _ fun _ absurd => (List.not_mem_nil _ absurd).elim

variable (P)

/-! ## `intraCanReach` -/

/-- The loop of `Slicing::intraCanReach(src, dst)`; `none` when the fuel runs out. -/
def intraCanReachLoop (dst : BasicBlock) : Nat → List BasicBlock → List BasicBlock → Option Bool
  | 0, _, _ => none
  | _ + 1, _, [] => some false
  | fuel + 1, visited, current :: toVisit =>
      if current ∈ visited then intraCanReachLoop dst fuel visited toVisit
      else if current = dst then some true
      else intraCanReachLoop dst fuel (current :: visited) ((P.block current).succs.reverse ++ toVisit)

/-- Fuel for a search along successor edges: every successor edge of the arena, and two more. -/
def succFuel : Nat := pendingEdges P BlockData.succs [] + 2

/-- `Slicing::intraCanReach(src, dst)`: the DFS from `src`, answering whether it meets `dst`. -/
def intraCanReach (src dst : BasicBlock) : Option Bool :=
  intraCanReachLoop P dst (succFuel P) [] [src]

theorem intraCanReachLoop_isSome (dst : BasicBlock) : ∀ fuel visited toVisit,
    pendingEdges P BlockData.succs visited + toVisit.length < fuel →
      (intraCanReachLoop P dst fuel visited toVisit).isSome
  | 0, _, _, enough => absurd enough (Nat.not_lt_zero _)
  | _ + 1, _, [], _ => rfl
  | fuel + 1, visited, current :: toVisit, enough => by
      unfold intraCanReachLoop
      split
      · exact intraCanReachLoop_isSome dst fuel visited toVisit (by simp at enough; omega)
      · split
        · rfl
        · rename_i fresh _
          refine intraCanReachLoop_isSome dst fuel _ _ ?_
          rw [pendingEdges_cons rfl fresh] at enough
          simp only [List.length_cons, List.length_append, List.length_reverse] at enough ⊢
          omega

theorem intraCanReach_isSome (src dst : BasicBlock) : (intraCanReach P src dst).isSome :=
  intraCanReachLoop_isSome P dst _ _ _ (by simp [succFuel])

/-! ### What `intraCanReach` answers -/

/-- A control-flow edge: `b` is among `successors(a)`. -/
def SuccEdge (a b : BasicBlock) : Prop := b ∈ (P.block a).succs

instance : DecidableRel (SuccEdge P) := fun a b => inferInstanceAs (Decidable (b ∈ (P.block a).succs))

/-- The invariant of the DFS of `intraCanReach` toward `dst`. -/
structure ReachFrontier (dst : BasicBlock) (visited toVisit : List BasicBlock) : Prop where
  unseen : dst ∉ visited
  closed : ∀ v ∈ visited, ∀ w, SuccEdge P v w → w ∈ visited ∨ w ∈ toVisit

variable {P}

theorem mem_or_mem_of_pop {x current : BasicBlock} {visited toVisit : List BasicBlock}
    (seen : current ∈ visited) : x ∈ visited ∨ x ∈ current :: toVisit → x ∈ visited ∨ x ∈ toVisit
  | .inl old => .inl old
  | .inr (.head _) => .inl seen
  | .inr (.tail _ stacked) => .inr stacked

theorem mem_or_mem_of_visit {x current : BasicBlock} {visited toVisit : List BasicBlock}
    (pushed : List BasicBlock) :
    x ∈ visited ∨ x ∈ current :: toVisit → x ∈ current :: visited ∨ x ∈ pushed ++ toVisit
  | .inl old => .inl (.tail _ old)
  | .inr (.head _) => .inl (.head _)
  | .inr (.tail _ stacked) => .inr (List.mem_append_right _ stacked)

theorem reaches_iff_succ {a dst : BasicBlock} (ne : a ≠ dst) :
    Relation.ReflTransGen (SuccEdge P) a dst ↔
      ∃ w ∈ (P.block a).succs, Relation.ReflTransGen (SuccEdge P) w dst := by
  rw [Relation.ReflTransGen.cases_head_iff, or_iff_right ne]
  rfl

namespace ReachFrontier

variable {dst current : BasicBlock} {visited toVisit : List BasicBlock}

theorem escape (frontier : ReachFrontier P dst visited toVisit) {v : BasicBlock} (seen : v ∈ visited)
    (path : Relation.ReflTransGen (SuccEdge P) v dst) :
    ∃ b ∈ toVisit, Relation.ReflTransGen (SuccEdge P) b dst := by
  induction path using Relation.ReflTransGen.head_induction_on with
  | refl => exact absurd seen frontier.unseen
  | head edge rest ih =>
      rcases frontier.closed _ seen _ edge with old | stacked
      · exact ih old
      · exact ⟨_, stacked, rest⟩

theorem pop (frontier : ReachFrontier P dst visited (current :: toVisit)) (seen : current ∈ visited) :
    ReachFrontier P dst visited toVisit where
  unseen := frontier.unseen
  closed v member w edge := mem_or_mem_of_pop seen (frontier.closed v member w edge)

theorem visit (frontier : ReachFrontier P dst visited (current :: toVisit)) (ne : current ≠ dst) :
    ReachFrontier P dst (current :: visited) ((P.block current).succs.reverse ++ toVisit) where
  unseen member := (List.mem_cons.1 member).elim (fun same => ne same.symm) frontier.unseen
  closed v member w edge := by
    rcases List.mem_cons.1 member with rfl | old
    · exact .inr (List.mem_append_left _ (List.mem_reverse.2 edge))
    · exact mem_or_mem_of_visit _ (frontier.closed v old w edge)

end ReachFrontier

variable (P)

theorem intraCanReachLoop_spec (dst : BasicBlock) : ∀ fuel visited toVisit canReach,
    ReachFrontier P dst visited toVisit → intraCanReachLoop P dst fuel visited toVisit = some canReach →
      (canReach = true ↔ ∃ b ∈ toVisit, Relation.ReflTransGen (SuccEdge P) b dst)
  | 0, _, _, _, _, answered => nomatch answered
  | _ + 1, _, [], _, _, answered => by
      cases answered
      simp
  | fuel + 1, visited, current :: toVisit, canReach, frontier, answered => by
      unfold intraCanReachLoop at answered
      simp only [List.mem_cons, or_and_right, exists_or, exists_eq_left]
      split at answered
      · rename_i seen
        rw [intraCanReachLoop_spec dst fuel _ _ canReach (frontier.pop seen) answered]
        exact (or_iff_right_of_imp ((frontier.pop seen).escape seen)).symm
      · split at answered
        · rename_i found
          cases answered
          exact iff_of_true rfl (.inl (found ▸ .refl))
        · rename_i ne
          rw [intraCanReachLoop_spec dst fuel _ _ canReach (frontier.visit ne) answered,
            reaches_iff_succ ne]
          simp only [List.mem_append, List.mem_reverse, or_and_right, exists_or]

theorem intraCanReach_reachable (src dst : BasicBlock) : ∃ canReach,
    intraCanReach P src dst = some canReach ∧
      (canReach = true ↔ Relation.ReflTransGen (SuccEdge P) src dst) := by
  obtain ⟨canReach, answered⟩ := Option.isSome_iff_exists.1 (intraCanReach_isSome P src dst)
  refine ⟨canReach, answered, (intraCanReachLoop_spec P dst _ [] [src] canReach
    ⟨List.not_mem_nil _, fun _ absurd => (List.not_mem_nil _ absurd).elim⟩ answered).trans ?_⟩
  simp

/-! ## The reverse walk of `backtracking` -/

/-- `predecessors(current)` up to where `Pred == lastPred` breaks the loop of `backtracking`. -/
def predsUntilRepeat : Option BasicBlock → List BasicBlock → List BasicBlock
  | _, [] => []
  | lastPred, pred :: preds =>
      if lastPred = some pred then [] else pred :: predsUntilRepeat (some pred) preds

theorem predsUntilRepeat_sublist : ∀ (lastPred : Option BasicBlock) (preds : List BasicBlock),
    (predsUntilRepeat lastPred preds).Sublist preds
  | _, [] => .slnil
  | lastPred, pred :: preds => by
      unfold predsUntilRepeat
      split
      · exact List.nil_sublist _
      · exact (predsUntilRepeat_sublist (some pred) preds).cons₂ pred

/-- The reverse walk of `Slicing::backtracking(BB)`. -/
def backtrackingSearch : Nat → List BasicBlock → List BasicBlock → Option (List BasicBlock)
  | 0, _, _ => none
  | _ + 1, visitedBB, [] => some visitedBB
  | fuel + 1, visitedBB, current :: toVisit =>
      if current ∈ visitedBB then backtrackingSearch fuel visitedBB toVisit
      else
        backtrackingSearch fuel (current :: visitedBB)
          (((predsUntilRepeat none (P.block current).preds).filter
            (· ∉ current :: visitedBB)).reverse ++ toVisit)

/-- Fuel for a search along predecessor edges: every predecessor edge of the arena, and two more. -/
def predFuel : Nat := pendingEdges P BlockData.preds [] + 2

theorem backtrackingSearch_isSome : ∀ fuel visitedBB toVisit,
    pendingEdges P BlockData.preds visitedBB + toVisit.length < fuel →
      (backtrackingSearch P fuel visitedBB toVisit).isSome
  | 0, _, _, enough => absurd enough (Nat.not_lt_zero _)
  | _ + 1, _, [], _ => rfl
  | fuel + 1, visitedBB, current :: toVisit, enough => by
      unfold backtrackingSearch
      split
      · exact backtrackingSearch_isSome fuel visitedBB toVisit (by simp at enough; omega)
      · rename_i fresh
        refine backtrackingSearch_isSome fuel _ _ ?_
        rw [pendingEdges_cons rfl fresh] at enough
        simp only [List.length_cons, List.length_append, List.length_reverse] at enough ⊢
        have := ((List.filter_sublist (p := fun b => decide (b ∉ current :: visitedBB)) _).trans
          (predsUntilRepeat_sublist none (P.block current).preds)).length_le
        omega

theorem backtrackingSearch_inv (Inv : List BasicBlock → List BasicBlock → Prop)
    (pop : ∀ current visitedBB toVisit, current ∈ visitedBB → Inv visitedBB (current :: toVisit) →
      Inv visitedBB toVisit)
    (visit : ∀ current visitedBB toVisit, Inv visitedBB (current :: toVisit) →
      Inv (current :: visitedBB) (((predsUntilRepeat none (P.block current).preds).filter
        (· ∉ current :: visitedBB)).reverse ++ toVisit)) :
    ∀ fuel visitedBB toVisit visitedBB', Inv visitedBB toVisit →
      backtrackingSearch P fuel visitedBB toVisit = some visitedBB' → Inv visitedBB' []
  | 0, _, _, _, _, searched => nomatch searched
  | _ + 1, _, [], _, inv, searched => by
      cases searched
      exact inv
  | fuel + 1, visitedBB, current :: toVisit, visitedBB', inv, searched => by
      unfold backtrackingSearch at searched
      split at searched
      · exact backtrackingSearch_inv Inv pop visit fuel _ _ _ (pop _ _ _ ‹_› inv) searched
      · exact backtrackingSearch_inv Inv pop visit fuel _ _ _ (visit _ _ _ inv) searched

theorem pendingEdges_lt_predFuel (visitedBB : List BasicBlock) :
    pendingEdges P BlockData.preds visitedBB + 1 < predFuel P :=
  Nat.lt_succ_of_le (Nat.add_le_add_right (pendingEdges_le BlockData.preds visitedBB) 1)

theorem backtrackingSearch_predFuel (visitedBB : List BasicBlock) (BB : BasicBlock) :
    (backtrackingSearch P (predFuel P) visitedBB [BB]).isSome :=
  backtrackingSearch_isSome P _ visitedBB [BB] (pendingEdges_lt_predFuel P visitedBB)

/-! ### What the reverse walk visits -/

/-- A predecessor edge the reverse walk follows. -/
def FollowedPred (p c : BasicBlock) : Prop := p ∈ predsUntilRepeat none (P.block c).preds

instance : DecidableRel (FollowedPred P) := fun p c =>
  inferInstanceAs (Decidable (p ∈ predsUntilRepeat none (P.block c).preds))

/-- The invariant of the reverse walk toward `B`. -/
structure ReverseFrontier (B : BasicBlock) (visitedBB₀ visitedBB toVisit : List BasicBlock) :
    Prop where
  kept : ∀ b ∈ visitedBB₀, b ∈ visitedBB
  added : ∀ b ∈ visitedBB, b ∈ visitedBB₀ ∨ Relation.ReflTransGen (FollowedPred P) b B
  stacked : ∀ b ∈ toVisit, Relation.ReflTransGen (FollowedPred P) b B
  target : B ∈ visitedBB ∨ B ∈ toVisit
  closed : ∀ v ∈ visitedBB, Relation.ReflTransGen (FollowedPred P) v B →
    ∀ p, FollowedPred P p v → p ∈ visitedBB ∨ p ∈ toVisit

variable {P}

theorem predsUntilRepeat_of_chain : ∀ {pred : BasicBlock} {preds : List BasicBlock},
    List.Chain (· ≠ ·) pred preds → predsUntilRepeat (some pred) preds = preds
  | _, [], _ => rfl
  | _, _ :: _, .cons ne chain => by
      rw [predsUntilRepeat, if_neg (ne ∘ Option.some.inj), predsUntilRepeat_of_chain chain]

theorem predsUntilRepeat_of_chain' {preds : List BasicBlock} (chain : preds.Chain' (· ≠ ·)) :
    predsUntilRepeat none preds = preds := by
  cases preds with
  | nil => rfl
  | cons pred preds =>
      rw [predsUntilRepeat, if_neg Option.noConfusion, predsUntilRepeat_of_chain chain]

theorem FollowedPred.succEdge {p c : BasicBlock} (followed : FollowedPred P p c) : SuccEdge P p c := by
  have pred : p ∈ (P.block c).preds := (predsUntilRepeat_sublist none _).subset followed
  by_cases bound : c.id < P.blocks.length
  · exact (P.mem_preds_iff bound (P.block_lt_of_mem (P.pred_mem pred))).1 pred
  · rw [P.block_of_le (Nat.le_of_not_lt bound)] at pred
    cases pred

theorem FollowedPred.mem_blocks {p c : BasicBlock} {F : Func} (followed : FollowedPred P p c)
    (member : c ∈ (P.function F).blocks) : p ∈ (P.function F).blocks := by
  have := P.pred_mem ((predsUntilRepeat_sublist none _).subset followed)
  rwa [P.block_parent member] at this

theorem followedPred_of_mem_pushed {b current : BasicBlock} {visitedBB : List BasicBlock}
    (pushed : b ∈ ((predsUntilRepeat none (P.block current).preds).filter
      (· ∉ current :: visitedBB)).reverse) : FollowedPred P b current :=
  (List.mem_filter.1 (List.mem_reverse.1 pushed)).1

variable (P) in
theorem backtrackingSearch_spec (E : Func) (fuel : Nat) (visitedBB toVisit : List BasicBlock)
    (enough : pendingEdges P BlockData.preds visitedBB + toVisit.length < fuel)
    (inside : ∀ b ∈ toVisit, b ∈ (P.function E).blocks) :
    ∃ visitedBB', backtrackingSearch P fuel visitedBB toVisit = some visitedBB' ∧
      (∀ b ∈ visitedBB, b ∈ visitedBB') ∧
      ∀ b ∈ visitedBB', b ∈ visitedBB ∨ b ∈ (P.function E).blocks := by
  obtain ⟨visitedBB', searched⟩ :=
    Option.isSome_iff_exists.1 (backtrackingSearch_isSome P fuel visitedBB toVisit enough)
  obtain ⟨kept, visited, -⟩ := backtrackingSearch_inv P (fun visited stack =>
      (∀ b ∈ visitedBB, b ∈ visited) ∧ (∀ b ∈ visited, b ∈ visitedBB ∨ b ∈ (P.function E).blocks) ∧
        ∀ b ∈ stack, b ∈ (P.function E).blocks)
    (fun _ _ _ _ ⟨kept, visited, stack⟩ => ⟨kept, visited, fun b member => stack b (.tail _ member)⟩)
    (fun _ _ _ ⟨kept, visited, stack⟩ => ⟨fun b member => .tail _ (kept b member),
      fun b member => (List.mem_cons.1 member).elim (fun same => .inr (same ▸ stack _ (.head _)))
        (visited b),
      fun b member => (List.mem_append.1 member).elim
        (fun pushed => (followedPred_of_mem_pushed pushed).mem_blocks (stack _ (.head _)))
        (fun rest => stack b (.tail _ rest))⟩)
    fuel visitedBB toVisit visitedBB' ⟨fun _ => id, fun _ => .inl, inside⟩ searched
  exact ⟨visitedBB', searched, kept, visited⟩

theorem SuccEdge.followedPred {F : Func}
    (noRepeat : ∀ b ∈ (P.function F).blocks, (P.block b).preds.Chain' (· ≠ ·)) {p c : BasicBlock}
    (member : p ∈ (P.function F).blocks) (edge : SuccEdge P p c) :
    c ∈ (P.function F).blocks ∧ FollowedPred P p c := by
  have target : c ∈ (P.function F).blocks := by
    have := P.succ_mem edge
    rwa [P.block_parent member] at this
  refine ⟨target, ?_⟩
  rw [FollowedPred, predsUntilRepeat_of_chain' (noRepeat c target)]
  exact (P.mem_preds_iff (P.block_lt_of_mem target) (P.block_lt_of_mem member)).2 edge

section

variable {F : Func} {B : BasicBlock}

theorem followedReach_succReach (target : B ∈ (P.function F).blocks) {b : BasicBlock}
    (path : Relation.ReflTransGen (FollowedPred P) b B) :
    b ∈ (P.function F).blocks ∧ Relation.ReflTransGen (SuccEdge P) b B := by
  induction path using Relation.ReflTransGen.head_induction_on with
  | refl => exact ⟨target, .refl⟩
  | head followed _ ih => exact ⟨followed.mem_blocks ih.1, .head followed.succEdge ih.2⟩

theorem succReach_followedReach
    (noRepeat : ∀ b ∈ (P.function F).blocks, (P.block b).preds.Chain' (· ≠ ·)) {b : BasicBlock}
    (member : b ∈ (P.function F).blocks) (path : Relation.ReflTransGen (SuccEdge P) b B) :
    Relation.ReflTransGen (FollowedPred P) b B := by
  induction path using Relation.ReflTransGen.head_induction_on with
  | refl => exact .refl
  | head edge _ ih =>
      obtain ⟨target, followed⟩ := edge.followedPred noRepeat member
      exact .head followed (ih target)

end

namespace ReverseFrontier

variable {B current : BasicBlock} {visitedBB₀ visitedBB toVisit : List BasicBlock}

theorem start (fresh : ∀ b ∈ visitedBB₀, ¬Relation.ReflTransGen (FollowedPred P) b B) :
    ReverseFrontier P B visitedBB₀ visitedBB₀ [B] where
  kept _ := id
  added _ := .inl
  stacked b member := by
    obtain rfl := List.mem_singleton.1 member
    exact .refl
  target := .inr (.head _)
  closed v member path := absurd path (fresh v member)

theorem pop (frontier : ReverseFrontier P B visitedBB₀ visitedBB (current :: toVisit))
    (seen : current ∈ visitedBB) : ReverseFrontier P B visitedBB₀ visitedBB toVisit where
  kept := frontier.kept
  added := frontier.added
  stacked b member := frontier.stacked b (.tail _ member)
  target := mem_or_mem_of_pop seen frontier.target
  closed v member path p followed := mem_or_mem_of_pop seen (frontier.closed v member path p followed)

theorem visit (frontier : ReverseFrontier P B visitedBB₀ visitedBB (current :: toVisit)) :
    ReverseFrontier P B visitedBB₀ (current :: visitedBB)
      (((predsUntilRepeat none (P.block current).preds).filter (· ∉ current :: visitedBB)).reverse ++
        toVisit) where
  kept b member := .tail _ (frontier.kept b member)
  added b member := by
    rcases List.mem_cons.1 member with rfl | old
    · exact .inr (frontier.stacked b (.head _))
    · exact frontier.added b old
  stacked b member := by
    rcases List.mem_append.1 member with pushed | old
    · exact .head (followedPred_of_mem_pushed pushed) (frontier.stacked _ (.head _))
    · exact frontier.stacked b (.tail _ old)
  target := mem_or_mem_of_visit _ frontier.target
  closed v member path p followed := by
    rcases List.mem_cons.1 member with rfl | old
    · by_cases seen : p ∈ v :: visitedBB
      · exact .inl seen
      · exact .inr (List.mem_append_left _
          (List.mem_reverse.2 (List.mem_filter.2 ⟨followed, decide_eq_true seen⟩)))
    · exact mem_or_mem_of_visit _ (frontier.closed v old path p followed)

theorem mem_of_reaches (frontier : ReverseFrontier P B visitedBB₀ visitedBB []) {b : BasicBlock}
    (path : Relation.ReflTransGen (FollowedPred P) b B) : b ∈ visitedBB := by
  induction path using Relation.ReflTransGen.head_induction_on with
  | refl => exact frontier.target.resolve_right (List.not_mem_nil _)
  | head followed rest ih =>
      exact (frontier.closed _ ih rest _ followed).resolve_right (List.not_mem_nil _)

theorem mem_iff (frontier : ReverseFrontier P B visitedBB₀ visitedBB []) (b : BasicBlock) :
    b ∈ visitedBB ↔ b ∈ visitedBB₀ ∨ Relation.ReflTransGen (FollowedPred P) b B :=
  ⟨frontier.added b, fun member => member.elim (frontier.kept b) frontier.mem_of_reaches⟩

end ReverseFrontier

variable (P)

theorem backtrackingSearch_followed (B : BasicBlock) (visitedBB : List BasicBlock)
    (fresh : ∀ b ∈ visitedBB, ¬Relation.ReflTransGen (FollowedPred P) b B) :
    ∃ visitedBB', backtrackingSearch P (predFuel P) visitedBB [B] = some visitedBB' ∧
      ∀ b, b ∈ visitedBB' ↔ b ∈ visitedBB ∨ Relation.ReflTransGen (FollowedPred P) b B := by
  obtain ⟨visitedBB', searched⟩ := Option.isSome_iff_exists.1 (backtrackingSearch_predFuel P visitedBB B)
  exact ⟨visitedBB', searched,
    (backtrackingSearch_inv P (ReverseFrontier P B visitedBB) (fun _ _ _ seen frontier =>
      frontier.pop seen) (fun _ _ _ frontier => frontier.visit) _ _ _ _ (.start fresh) searched).mem_iff⟩

theorem backtrackingSearch_reaches (B : BasicBlock) (bound : B.id < P.blocks.length)
    (visitedBB : List BasicBlock)
    (fresh : ∀ b ∈ (P.function (P.block B).parent).blocks, b ∉ visitedBB) :
    ∃ visitedBB', backtrackingSearch P (predFuel P) visitedBB [B] = some visitedBB' ∧
      (∀ b ∈ visitedBB', b ∈ visitedBB ∨ b ∈ (P.function (P.block B).parent).blocks ∧
        Relation.ReflTransGen (SuccEdge P) b B) ∧
      ((∀ b ∈ (P.function (P.block B).parent).blocks, (P.block b).preds.Chain' (· ≠ ·)) →
        ∀ b, b ∈ visitedBB' ↔ b ∈ visitedBB ∨ b ∈ (P.function (P.block B).parent).blocks ∧
          Relation.ReflTransGen (SuccEdge P) b B) := by
  have target := P.mem_blocks_parent bound
  obtain ⟨visitedBB', searched, visited⟩ := backtrackingSearch_followed P B visitedBB
    fun b member path => fresh b (followedReach_succReach target path).1 member
  refine ⟨visitedBB', searched,
    fun b member => ((visited b).1 member).imp_right (followedReach_succReach target),
    fun noRepeat b => (visited b).trans (or_congr_right ⟨followedReach_succReach target,
      fun ⟨member, path⟩ => succReach_followedReach noRepeat member path⟩)⟩

end

/-- `predecessors(exit)` lists `left` twice and then `right`. -/
def branchArena : Arena where
  functions := [{ name := "f", blocks := [⟨0⟩, ⟨1⟩, ⟨2⟩, ⟨3⟩] }]
  blocks := [
    { parent := ⟨0⟩, succs := [⟨1⟩, ⟨2⟩] },
    { parent := ⟨0⟩, preds := [⟨0⟩], succs := [⟨3⟩, ⟨3⟩] },
    { parent := ⟨0⟩, preds := [⟨0⟩], succs := [⟨3⟩] },
    { parent := ⟨0⟩, preds := [⟨1⟩, ⟨1⟩, ⟨2⟩] }]
  insts := []

def branchProgram : Program := ⟨branchArena, by decide⟩

/-- A diamond `entry`, `left`, `right`, `exit`: no block lists a predecessor twice in a row. -/
def diamondArena : Arena where
  functions := [{ name := "g", blocks := [⟨0⟩, ⟨1⟩, ⟨2⟩, ⟨3⟩] }]
  blocks := [
    { parent := ⟨0⟩, succs := [⟨1⟩, ⟨2⟩] },
    { parent := ⟨0⟩, preds := [⟨0⟩], succs := [⟨3⟩] },
    { parent := ⟨0⟩, preds := [⟨0⟩], succs := [⟨3⟩] },
    { parent := ⟨0⟩, preds := [⟨1⟩, ⟨2⟩] }]
  insts := []

def diamondProgram : Program := ⟨diamondArena, by decide⟩

theorem backtrackingSearch_reaches_diamond :
    (⟨3⟩ : BasicBlock).id < diamondProgram.blocks.length ∧
    (∀ b ∈ (diamondProgram.function (diamondProgram.block ⟨3⟩).parent).blocks, b ∉ []) ∧
    ∃ visitedBB', backtrackingSearch diamondProgram (predFuel diamondProgram) [] [⟨3⟩] =
        some visitedBB' ∧
      (∀ b ∈ visitedBB', b ∈ [] ∨
        b ∈ (diamondProgram.function (diamondProgram.block ⟨3⟩).parent).blocks ∧
          Relation.ReflTransGen (SuccEdge diamondProgram) b ⟨3⟩) ∧
      ((∀ b ∈ (diamondProgram.function (diamondProgram.block ⟨3⟩).parent).blocks,
          (diamondProgram.block b).preds.Chain' (· ≠ ·)) →
        ∀ b, b ∈ visitedBB' ↔ b ∈ [] ∨
          b ∈ (diamondProgram.function (diamondProgram.block ⟨3⟩).parent).blocks ∧
            Relation.ReflTransGen (SuccEdge diamondProgram) b ⟨3⟩) :=
  ⟨by decide, by decide, backtrackingSearch_reaches diamondProgram ⟨3⟩ (by decide) [] (by decide)⟩

end SliceAnalyzer
