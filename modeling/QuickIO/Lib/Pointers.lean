import Mathlib.Data.List.Range
import Mathlib.Data.Set.Card
import Mathlib.Logic.Function.Basic

/-!
# Counting pointers

Numbered objects that each may point at something: how many of them point at a
given target, and what writing one pointer does to that number.
-/
namespace QuickIO.Lib

variable {α : Type} [DecidableEq α]

/-- How many of the first `n` pointers point at `a`. -/
def pointersTo (n : Nat) (p : Nat → Option α) (a : α) : Nat :=
  (List.range n).countP fun i => p i = some a

theorem pointersTo_succ (n : Nat) (p : Nat → Option α) (a : α) :
    pointersTo (n + 1) p a = pointersTo n p a + if p n = some a then 1 else 0 := by
  simp [pointersTo, List.range_succ]

/-- A pointer past the end counts for nothing. -/
theorem pointersTo_update_ge (n : Nat) (p : Nat → Option α) (a : α) (i : Nat) (beyond : n ≤ i)
    (v : Option α) : pointersTo n (Function.update p i v) a = pointersTo n p a := by
  induction n with
  | zero => rfl
  | succ n ih =>
    have other : n ≠ i := Nat.ne_of_lt beyond
    rw [pointersTo_succ, pointersTo_succ, ih (Nat.le_of_lt beyond), Function.update_of_ne other]

/-- Writing one pointer takes its old target's share and adds to the new one's. -/
theorem pointersTo_update (n : Nat) (p : Nat → Option α) (a : α) (i : Nat) (inside : i < n)
    (v : Option α) :
    pointersTo n (Function.update p i v) a + (if p i = some a then 1 else 0) =
      pointersTo n p a + if v = some a then 1 else 0 := by
  induction n with
  | zero => exact absurd inside (Nat.not_lt_zero i)
  | succ n ih =>
    rw [pointersTo_succ, pointersTo_succ]
    rcases Nat.lt_succ_iff_lt_or_eq.mp inside with earlier | last
    · have other : n ≠ i := Nat.ne_of_gt earlier
      have before := ih earlier
      rw [Function.update_of_ne other]
      omega
    · subst last
      rw [pointersTo_update_ge i p a i (Nat.le_refl i), Function.update_self]
      omega

/-- Nobody points at `a`. -/
theorem pointersTo_eq_zero (n : Nat) (p : Nat → Option α) (a : α)
    (nobody : ∀ i, i < n → p i ≠ some a) : pointersTo n p a = 0 := by
  rw [pointersTo, List.countP_eq_zero]
  intro i member
  simpa using nobody i (List.mem_range.mp member)

/-- Where nothing past the end points at `a`, all pointers at it are counted. -/
theorem pointersTo_eq_ncard (n : Nat) (p : Nat → Option α) (a : α)
    (inside : ∀ i, p i = some a → i < n) : pointersTo n p a = {i | p i = some a}.ncard := by
  have same : {i | p i = some a} = ((Finset.range n).filter fun i => p i = some a : Finset Nat) := by
    ext i
    simp only [Set.mem_ofPred_eq, Finset.coe_filter, Finset.mem_range]
    exact ⟨fun points => ⟨inside i points, points⟩, And.right⟩
  rw [same, Set.ncard_coe_finset, pointersTo, List.countP_eq_length_filter]
  rfl

end QuickIO.Lib
