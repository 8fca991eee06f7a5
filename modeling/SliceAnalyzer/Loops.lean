import Mathlib.Algebra.Order.BigOperators.Group.Finset

/-!
# Loops of the analyzer

The `while (changed)` loops under fuel, `for` loops that only add to sets (`foldl_iff_of_grow`), and
the measure of the slicer's worklist searches (`pending`).
-/

namespace SliceAnalyzer

/-- `while (changed) { changed = false; changed |= sweep }`, at most `fuel` sweeps. -/
def untilStable {σ : Type} (sweep : σ → Option (σ × Bool)) : Nat → σ → Option (σ × Bool)
  | 0, _ => none
  | fuel + 1, s => do
      let (s, changed) ← sweep s
      if changed then
        let (s, _) ← untilStable sweep fuel s
        pure (s, true)
      else pure (s, false)

/-- One pass over a list, or-ing the change flags: `for (...) changed |= pass(x)`. -/
def sweepList {σ α : Type} (pass : σ → α → Option (σ × Bool)) (xs : List α) (s : σ) :
    Option (σ × Bool) :=
  xs.foldlM (fun (s, changed) x => do
    let (s, c) ← pass s x
    pure (s, changed || c)) (s, false)

section

variable {σ α β : Type}

theorem untilStable_of_stable {sweep : σ → Option (σ × Bool)} {s s' : σ}
    (stable : sweep s = some (s', false)) (fuel : Nat) :
    untilStable sweep (fuel + 1) s = some (s', false) := by
  simp [untilStable, stable]

theorem sweepList_of_stable (pass : σ → α → σ × Bool) (stable : ∀ s x, (pass s x).2 = false)
    (xs : List α) :
    sweepList (fun s x => some (pass s x)) xs =
      fun s => some (xs.foldl (fun s x => (pass s x).1) s, false) := by
  funext s
  unfold sweepList
  induction xs generalizing s with
  | nil => rfl
  | cons x xs ih =>
      rcases split : pass s x with ⟨s', changed⟩
      obtain rfl : changed = false := by simpa [split] using stable s x
      simpa [split] using ih s'

theorem sweepList_of_pure (pass : σ → α → σ) (xs : List α) :
    sweepList (fun s x => some (pass s x, false)) xs = fun s => some (xs.foldl pass s, false) :=
  sweepList_of_stable (fun s x => (pass s x, false)) (fun _ _ => rfl) xs

theorem foldl_inv {step : σ → α → σ} (inv : σ → Prop)
    (preserve : ∀ s x, inv s → inv (step s x)) :
    ∀ (xs : List α) (s : σ), inv s → inv (xs.foldl step s)
  | [], _, holds => holds
  | x :: xs, s, holds => foldl_inv inv preserve xs (step s x) (preserve s x holds)

theorem foldl_inv_of_mem {step : σ → α → σ} (inv : σ → Prop) :
    ∀ (xs : List α), (∀ s, ∀ x ∈ xs, inv s → inv (step s x)) → ∀ s, inv s → inv (xs.foldl step s)
  | [], _, _, holds => holds
  | x :: xs, preserve, s, holds =>
      foldl_inv_of_mem inv xs (fun s y member => preserve s y (.tail _ member)) (step s x)
        (preserve s x (.head _) holds)

theorem foldl_iff_of_grow (step : σ → α → σ) (inv obs : σ → Prop) (new : α → Prop)
    (preserve : ∀ s x, inv s → inv (step s x))
    (grow : ∀ s x, inv s → (obs (step s x) ↔ obs s ∨ new x)) :
    ∀ (xs : List α) (s : σ), inv s → (obs (xs.foldl step s) ↔ obs s ∨ ∃ x ∈ xs, new x)
  | [], _, _ => by simp
  | x :: xs, s, holds => by
      rw [List.foldl_cons, foldl_iff_of_grow step inv obs new preserve grow xs _ (preserve s x holds),
        grow s x holds]
      simp only [List.mem_cons, exists_eq_or_imp]
      tauto

theorem foldlM_inv {step : σ → α → Option σ} (inv : σ → Prop) :
    ∀ (xs : List α), (∀ s, ∀ x ∈ xs, inv s → ∃ s', step s x = some s' ∧ inv s') →
      ∀ s, inv s → ∃ s', xs.foldlM step s = some s' ∧ inv s'
  | [], _, s, holds => ⟨s, rfl, holds⟩
  | x :: xs, preserve, s, holds => by
      obtain ⟨s₁, stepped, holds₁⟩ := preserve s x (.head _) holds
      obtain ⟨s', rest, holds'⟩ :=
        foldlM_inv inv xs (fun s y member => preserve s y (.tail _ member)) s₁ holds₁
      exact ⟨s', by rw [List.foldlM_cons, stepped]; exact rest, holds'⟩

theorem foldlM_done {step : σ → α → Option σ} (inv : σ → Prop) (done : α → σ → Prop) :
    ∀ (xs : List α), (∀ s, ∀ x ∈ xs, inv s → ∃ s', step s x = some s' ∧ inv s' ∧ done x s' ∧
      ∀ y, done y s → done y s') →
      ∀ s, inv s → ∃ s', xs.foldlM step s = some s' ∧ inv s' ∧ (∀ x ∈ xs, done x s') ∧
        ∀ y, done y s → done y s'
  | [], _, s, holds => ⟨s, rfl, holds, fun _ absurd => (List.not_mem_nil _ absurd).elim, fun _ => id⟩
  | x :: xs, preserve, s, holds => by
      obtain ⟨s₁, stepped, holds₁, done₁, kept₁⟩ := preserve s x (.head _) holds
      obtain ⟨s', rest, holds', doneRest, kept'⟩ :=
        foldlM_done inv done xs (fun s y member => preserve s y (.tail _ member)) s₁ holds₁
      refine ⟨s', by rw [List.foldlM_cons, stepped]; exact rest, holds', fun y member => ?_,
        fun y earlier => kept' y (kept₁ y earlier)⟩
      rcases List.mem_cons.1 member with rfl | later
      · exact kept' y done₁
      · exact doneRest y later

end

section Pending

variable {α : Type} [DecidableEq α] (mk : Nat → α) (n : Nat) (weight : α → Nat)

/-- The weights of the handles a search has not visited. -/
def pending (visited : List α) : Nat :=
  ∑ i ∈ Finset.range n, if mk i ∈ visited then 0 else weight (mk i)

theorem pending_le_of_subset {visited visited' : List α} (sub : ∀ x ∈ visited, x ∈ visited') :
    pending mk n weight visited' ≤ pending mk n weight visited :=
  Finset.sum_le_sum fun i _ => by
    by_cases mem : mk i ∈ visited
    · simp [mem, sub _ mem]
    · by_cases mem' : mk i ∈ visited' <;> simp [mem, mem']

theorem pending_cons (injective : Function.Injective mk) {visited : List α} {k : Nat}
    (fresh : mk k ∉ visited) :
    pending mk n weight visited =
      pending mk n weight (mk k :: visited) + if k < n then weight (mk k) else 0 := by
  have single : (if k < n then weight (mk k) else 0) =
      ∑ i ∈ Finset.range n, if i = k then weight (mk i) else 0 := by
    simp [Finset.sum_ite_eq']
  rw [pending, pending, single, ← Finset.sum_add_distrib]
  refine Finset.sum_congr rfl fun i _ => ?_
  by_cases same : i = k
  · subst same; simp [fresh]
  · have different : mk i ≠ mk k := fun h => same (injective h)
    simp [same, different]

end Pending

end SliceAnalyzer
