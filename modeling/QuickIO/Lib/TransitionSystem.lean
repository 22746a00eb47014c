import Mathlib.Data.List.Basic
import Mathlib.Order.Defs.PartialOrder

/-!
# Labelled transition systems

Executable step functions over an arbitrary state and label type. A label
that is not enabled has no successor. The rules below turn what one step
preserves into what every run preserves.
-/
namespace QuickIO.Lib

/-- A deterministic labelled transition system: the nondeterminism of the
modelled program is in the choice of the next label. -/
structure TransitionSystem (State Label : Type) where
  init : State → Prop
  step : State → Label → Option State

namespace TransitionSystem

variable {State Label : Type} (M : TransitionSystem State Label)

/-- Execute a list of labels; `none` as soon as one is not enabled. -/
def run (s : State) : List Label → Option State
  | [] => some s
  | l :: ls =>
    match M.step s l with
    | none => none
    | some t => run t ls

/-- The states some run from an initial state ends in. -/
def Reachable (t : State) : Prop :=
  ∃ s ls, M.init s ∧ M.run s ls = some t

@[simp] theorem run_nil (s : State) : M.run s [] = some s := rfl

theorem run_cons_iff (s t : State) (l : Label) (ls : List Label) :
    M.run s (l :: ls) = some t ↔ ∃ u, M.step s l = some u ∧ M.run u ls = some t := by
  simp only [run]
  cases h : M.step s l with
  | none => simp
  | some u => simp

theorem run_append (s : State) (ls ms : List Label) :
    M.run s (ls ++ ms) = (M.run s ls).bind fun t => M.run t ms := by
  induction ls generalizing s with
  | nil => rfl
  | cons l ls ih =>
    simp only [List.cons_append, run]
    cases M.step s l with
    | none => rfl
    | some u => exact ih u

theorem run_append_iff (s t : State) (ls ms : List Label) :
    M.run s (ls ++ ms) = some t ↔ ∃ u, M.run s ls = some u ∧ M.run u ms = some t := by
  rw [run_append, Option.bind_eq_some_iff]

/-- What a reachable state steps to is reachable. -/
theorem Reachable.step {M : TransitionSystem State Label} {s t : State} {l : Label}
    (reached : M.Reachable s) (stepped : M.step s l = some t) : M.Reachable t := by
  obtain ⟨start, ls, init, ran⟩ := reached
  refine ⟨start, ls ++ [l], init, (M.run_append_iff start t ls [l]).mpr ⟨s, ran, ?_⟩⟩
  exact (M.run_cons_iff s t l []).mpr ⟨t, stepped, rfl⟩

/-- What every enabled step preserves, every run preserves. -/
theorem run_invariant (P : State → Prop)
    (preserved : ∀ s l t, P s → M.step s l = some t → P t)
    (s t : State) (ls : List Label) (initial : P s) (ran : M.run s ls = some t) : P t := by
  induction ls generalizing s with
  | nil =>
    cases ran
    exact initial
  | cons l ls ih =>
    obtain ⟨u, stepped, rest⟩ := (M.run_cons_iff s t l ls).mp ran
    exact ih u (preserved s l u initial stepped) rest

/-- The invariant rule: established initially and preserved by every step. -/
theorem reachable_invariant (P : State → Prop) (initial : ∀ s, M.init s → P s)
    (preserved : ∀ s l t, P s → M.step s l = some t → P t)
    (t : State) (reached : M.Reachable t) : P t := by
  obtain ⟨s, ls, start, ran⟩ := reached
  exact M.run_invariant P preserved s t ls (initial s start) ran

/-- The invariant rule for runs that meet a condition in every state they
pass through: a step only has to preserve the invariant into such a state. -/
theorem run_invariant_through (P Q : State → Prop)
    (preserved : ∀ s l t, P s → Q s → Q t → M.step s l = some t → P t)
    (s t : State) (ls : List Label) (initial : P s) (ran : M.run s ls = some t)
    (through : ∀ ms u, ms <+: ls → M.run s ms = some u → Q u) : P t := by
  induction ls generalizing s with
  | nil =>
    cases ran
    exact initial
  | cons l ls ih =>
    obtain ⟨u, stepped, rest⟩ := (M.run_cons_iff s t l ls).mp ran
    have here : Q s := through [] s (List.nil_prefix) rfl
    have there : Q u :=
      through [l] u (by simp) ((M.run_cons_iff s u l []).mpr ⟨u, stepped, rfl⟩)
    apply ih u (preserved s l u initial here there stepped) rest
    intro ms v pre ranMs
    refine through (l :: ms) v ?_ ((M.run_cons_iff s v l ms).mpr ⟨u, stepped, ranMs⟩)
    simpa using pre

/-- Every step of a run meets a condition on its state and its label. -/
def Throughout (Q : State → Label → Prop) (s : State) : List Label → Prop
  | [] => True
  | l :: ls => Q s l ∧ ∀ t ∈ M.step s l, Throughout Q t ls

instance decidableThroughout (Q : State → Label → Prop) [∀ s l, Decidable (Q s l)] (s : State)
    (ls : List Label) : Decidable (M.Throughout Q s ls) :=
  match ls with
  | [] => .isTrue trivial
  | l :: ls =>
    match h : M.step s l with
    | none => decidable_of_iff (Q s l) (by simp [Throughout, h])
    | some t =>
      have := decidableThroughout Q t ls
      decidable_of_iff (Q s l ∧ M.Throughout Q t ls) (by simp [Throughout, h])

theorem throughout_append_iff (Q : State → Label → Prop) (s : State) (ls ms : List Label) :
    M.Throughout Q s (ls ++ ms) ↔
      M.Throughout Q s ls ∧ ∀ t ∈ M.run s ls, M.Throughout Q t ms := by
  induction ls generalizing s with
  | nil => simp [Throughout]
  | cons l ls ih =>
    simp only [List.cons_append, Throughout, run]
    cases M.step s l with
    | none => simp
    | some u => simp [ih, and_assoc]

/-- A quantity that no step lets fall, and that a step leaves as it is exactly
when it meets a condition, is after a run what it was before exactly when every
step of the run met the condition. -/
theorem throughout_iff_of_monotone {Q : State → Label → Prop} {Quantity : Type*}
    [PartialOrder Quantity] (P : State → Prop) (f : State → Quantity)
    (stepped : ∀ s l t, P s → M.step s l = some t → P t ∧ f s ≤ f t ∧ (Q s l ↔ f t = f s))
    (s t : State) (ls : List Label) (initial : P s) (ran : M.run s ls = some t) :
    f s ≤ f t ∧ (M.Throughout Q s ls ↔ f t = f s) := by
  induction ls generalizing s with
  | nil =>
    cases ran
    exact ⟨le_refl _, fun _ => rfl, fun _ => trivial⟩
  | cons l ls ih =>
    obtain ⟨u, first, rest⟩ := (M.run_cons_iff s t l ls).mp ran
    obtain ⟨kept, rises, met⟩ := stepped s l u initial first
    obtain ⟨risesOn, metOn⟩ := ih u kept rest
    refine ⟨le_trans rises risesOn, ?_⟩
    simp only [Throughout, first, Option.mem_def, Option.some.injEq, forall_eq', met, metOn]
    constructor
    · rintro ⟨here, later⟩
      exact later.trans here
    · -- what is the same at both ends has been the same in between
      intro same
      have between : f u = f s := le_antisymm (le_of_le_of_eq risesOn same) rises
      exact ⟨between, same.trans between.symm⟩

end TransitionSystem

end QuickIO.Lib
