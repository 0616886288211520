/-!
# Binary search

* `partitionPoint p lo hi` halves `lo..hi` to find where `p` stops holding, for a predicate that
  holds up to some index and fails from there on.
* `partitionPointOf xs p` does so for the elements of an array.
* `lt_partitionPoint_iff` is the contract: below the result `p` holds, from it on `p` fails.
  `lt_partitionPointOf_iff` says so of the elements of an array.
-/

namespace Munch.Search

/-- The index in `lo..hi` from which on `p` fails. -/
def partitionPoint (p : Nat → Bool) (lo hi : Nat) : Nat :=
  if lo < hi then
    let mid := lo + (hi - lo) / 2
    if p mid then partitionPoint p (mid + 1) hi else partitionPoint p lo mid
  else lo
termination_by hi - lo

/-- The number of leading elements of `xs` that satisfy `p`. -/
def partitionPointOf {α : Type} (xs : Array α) (p : α → Bool) : Nat :=
  partitionPoint (fun i => xs[i]?.any p) 0 xs.size

/-- The search stays inside its interval. -/
theorem partitionPoint_mem (p : Nat → Bool) (lo hi : Nat) (h : lo ≤ hi) :
    lo ≤ partitionPoint p lo hi ∧ partitionPoint p lo hi ≤ hi := by
  fun_induction partitionPoint p lo hi with
  | case1 lo hi hlt mid hp ih => have := ih (by omega); omega
  | case2 lo hi hlt mid hp ih => have := ih (by omega); omega
  | case3 lo hi hlt => omega

/-- If `p` holds up to some index and fails from there on, the search finds that index. -/
theorem lt_partitionPoint_iff (p : Nat → Bool) (lo hi : Nat)
    (mono : ∀ i j, lo ≤ i → i ≤ j → j < hi → p j = true → p i = true)
    (i : Nat) (hlo : lo ≤ i) (hhi : i < hi) : i < partitionPoint p lo hi ↔ p i = true := by
  fun_induction partitionPoint p lo hi with
  | case1 lo hi hlt mid hp ih =>
    by_cases hi' : i ≤ mid
    · -- left of a hit everything is a hit
      have hpi := mono i mid hlo hi' (by omega) hp
      have := (partitionPoint_mem p (mid + 1) hi (by omega)).1
      exact ⟨fun _ => hpi, fun _ => by omega⟩
    · exact ih (fun a b h₁ h₂ h₃ => mono a b (by omega) h₂ h₃) (by omega) hhi
  | case2 lo hi hlt mid hp ih =>
    by_cases hi' : i < mid
    · exact ih (fun a b h₁ h₂ h₃ => mono a b h₁ h₂ (by omega)) hlo hi'
    · -- right of a miss everything is a miss
      have hmiss : ¬p i = true := fun h => hp (mono mid i (by omega) (by omega) hhi h)
      have := (partitionPoint_mem p lo mid (by omega)).2
      exact ⟨fun _ => by omega, fun h => absurd h hmiss⟩
  | case3 lo hi hlt => omega

/-- The search over an array does not leave it. -/
theorem partitionPointOf_le {α : Type} (xs : Array α) (p : α → Bool) :
    partitionPointOf xs p ≤ xs.size :=
  (partitionPoint_mem _ 0 xs.size (Nat.zero_le _)).2

/-- An element lies before the point found if and only if it satisfies `p`. -/
theorem lt_partitionPointOf_iff {α : Type} {xs : Array α} {p : α → Bool}
    (mono : ∀ i j (hi : i < xs.size) (hj : j < xs.size), i ≤ j → p xs[j] = true → p xs[i] = true)
    {i : Nat} (hi : i < xs.size) : i < partitionPointOf xs p ↔ p xs[i] = true := by
  unfold partitionPointOf
  rw [lt_partitionPoint_iff _ _ _ ?_ i (Nat.zero_le _) hi]
  · simp [hi]
  · intro a b _ hab hb h
    have ha : a < xs.size := by omega
    simp only [Array.getElem?_eq_getElem ha, Array.getElem?_eq_getElem hb, Option.any_some] at h ⊢
    exact mono a b ha hb hab h

end Munch.Search
