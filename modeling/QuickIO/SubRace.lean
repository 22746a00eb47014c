import Mathlib.Data.List.Count
import Mathlib.Data.List.Infix
import Mathlib.Logic.Function.Basic
import QuickIO.CString
import QuickIO.Lib.TransitionSystem

/-!
# Subscription objects under concurrent threads

`sub_get`, `sub_ref` and `sub_unref` of one event, cut into the steps that the
reader lock, the writer lock and the atomic operations make indivisible. The
reference count is the `guint` of the source, so it wraps at 2³². As long as
fewer references than that are held, `sub_unique` shows that live objects are
unique, stored and never resurrected; `sub_unique_overflow` is the run that
breaks this with 2³² references to one object.
-/
namespace QuickIO.SubRace

open Lib

abbrev Thread := Nat

abbrev SubId := Nat

/-- The fields of `struct subscription` these functions touch. `freed` records
that the memory has been given back. -/
structure Subscription where
  evExtra : Bytes
  refs : UInt32
  freed : Bool
deriving DecidableEq

/-- Where a thread stands inside one of the functions. -/
inductive Pc where
  | idle
  /-- `sub_get` found nothing live under the reader lock and will create. -/
  | creating (evExtra : Bytes)
  /-- `sub_unref` dropped the last reference. -/
  | removing (sub : SubId)
  /-- `sub_unref` left the writer lock. -/
  | freeing (sub : SubId)
deriving DecidableEq

/-- The objects allocated so far, `ev->subs`, the threads, and for every
reference handed out who holds it. -/
structure State where
  heap : SubId → Subscription
  next : SubId
  subs : Bytes → Option SubId
  pc : Thread → Pc
  held : List (Thread × SubId)

def initial : State where
  heap := fun _ => ⟨[], 0, false⟩
  next := 0
  subs := fun _ => none
  pc := fun _ => .idle
  held := []

inductive Label where
  | getRead (t : Thread) (evExtra : Option Bytes) (orCreate : Bool)
  | getWrite (t : Thread)
  | ref (t : Thread) (sub : SubId)
  | pass (t u : Thread) (sub : SubId)
  | dec (t : Thread) (sub : SubId)
  | remove (t : Thread)
  | free (t : Thread)

namespace State

variable (σ : State)

def setPc (t : Thread) (pc : Pc) : State := { σ with pc := Function.update σ.pc t pc }

/-- Count one more reference and hand it to the thread. -/
def acquire (t : Thread) (s : SubId) : State :=
  { σ with
    heap := Function.update σ.heap s { σ.heap s with refs := (σ.heap s).refs + 1 }
    held := (t, s) :: σ.held }

/-- `_get_if_exists`: look up, then `atomic_inc_not_zero`. -/
def getIfExists (t : Thread) (evExtra : Bytes) : Option State :=
  match σ.subs evExtra with
  | none => none
  | some s => if (σ.heap s).refs = 0 then none else some (σ.acquire t s)

/-- Allocate a subscription with one reference and replace what is stored. -/
def create (t : Thread) (evExtra : Bytes) : State :=
  { σ with
    heap := Function.update σ.heap σ.next ⟨evExtra, 1, false⟩
    next := σ.next + 1
    subs := Function.update σ.subs evExtra (some σ.next)
    held := (t, σ.next) :: σ.held }

/-- `g_atomic_int_dec_and_test` -/
def release (t : Thread) (s : SubId) : State :=
  { σ with
    heap := Function.update σ.heap s { σ.heap s with refs := (σ.heap s).refs - 1 }
    held := σ.held.erase (t, s) }

/-- Play nice: only take out what is still this object. -/
def removeIfMine (s : SubId) : State :=
  if σ.subs (σ.heap s).evExtra = some s then
    { σ with subs := Function.update σ.subs (σ.heap s).evExtra none }
  else σ

def freeSub (s : SubId) : State :=
  { σ with heap := Function.update σ.heap s { σ.heap s with freed := true } }

/-- One indivisible step. A thread runs one function at a time, and only a
holder of a reference may take another, pass it on or drop it. -/
def step : Label → Option State
  -- Under the reader lock; what it missed is made under the writer lock.
  | .getRead t evExtra orCreate =>
    match σ.pc t with
    | .idle =>
      match σ.getIfExists t (evExtra.getD []) with
      | some τ => some τ
      | none => some (if orCreate then σ.setPc t (.creating (evExtra.getD [])) else σ)
    | _ => none
  | .getWrite t =>
    match σ.pc t with
    | .creating evExtra =>
      -- Somebody else was first.
      match σ.getIfExists t evExtra with
      | some τ => some (τ.setPc t .idle)
      | none => some ((σ.create t evExtra).setPc t .idle)
    | _ => none
  | .ref t s => if σ.pc t = .idle ∧ (t, s) ∈ σ.held then some (σ.acquire t s) else none
  -- A reference is handed to another thread, as an event or a broadcast does.
  | .pass t u s =>
    if (t, s) ∈ σ.held then some { σ with held := (u, s) :: σ.held.erase (t, s) } else none
  | .dec t s =>
    if σ.pc t = .idle ∧ (t, s) ∈ σ.held then
      -- The last reference: the lock is not held yet.
      some (if (σ.heap s).refs - 1 = 0 then (σ.release t s).setPc t (.removing s)
        else σ.release t s)
    else none
  | .remove t =>
    match σ.pc t with
    -- The table may hold a new subscription by now, which stays.
    | .removing s => some ((σ.removeIfMine s).setPc t (.freeing s))
    | _ => none
  | .free t =>
    match σ.pc t with
    | .freeing s => some ((σ.freeSub s).setPc t .idle)
    | _ => none

/-- How many references to an object are held. -/
def holders (s : SubId) : Nat := σ.held.countP fun h => h.2 == s

/-- No object has as many references as its counter can count to. -/
def Bounded : Prop := ∀ s, σ.holders s < 2 ^ 32

/-- An allocated object with a positive count. -/
def Live (s : SubId) : Prop := s < σ.next ∧ (σ.heap s).refs ≠ 0

end State

/-- All threads start idle on an event without subscriptions. -/
def system : TransitionSystem State Label where
  init σ := σ = initial
  step := State.step

/-! ### The invariant -/

/-- Counts agree with the references held, live objects are the stored ones,
and an object on its way out is neither live nor coming back. -/
structure Inv (σ : State) : Prop where
  held_alloc : ∀ t s, (t, s) ∈ σ.held → s < σ.next
  subs_alloc : ∀ e s, σ.subs e = some s → s < σ.next
  count : ∀ s, s < σ.next → (σ.heap s).refs = UInt32.ofNat (σ.holders s)
  stored : ∀ s, σ.Live s → σ.subs (σ.heap s).evExtra = some s
  own : ∀ e s, σ.subs e = some s → (σ.heap s).evExtra = e ∧ (σ.heap s).freed = false
  removing : ∀ t s, σ.pc t = .removing s → s < σ.next ∧ (σ.heap s).refs = 0
  freeing : ∀ t s, σ.pc t = .freeing s →
    s < σ.next ∧ (σ.heap s).refs = 0 ∧ ∀ e, σ.subs e ≠ some s

theorem inv_initial : Inv initial := by
  constructor <;> simp [initial, State.Live]

/-- While counts do not wrap, a held object is live. -/
theorem Inv.live_of_held {σ : State} (inv : Inv σ) (bounded : σ.Bounded) {t : Thread} {s : SubId}
    (held : (t, s) ∈ σ.held) : σ.Live s := by
  refine ⟨inv.held_alloc t s held, ?_⟩
  rw [inv.count s (inv.held_alloc t s held)]
  have positive : 0 < σ.holders s := List.countP_pos_iff.mpr ⟨(t, s), held, by simp⟩
  have small := bounded s
  intro zero
  have zero := congrArg UInt32.toNat zero
  rw [UInt32.toNat_ofNat', Nat.mod_eq_of_lt small] at zero
  simp at zero
  omega

theorem Inv.setPc_idle {σ : State} (inv : Inv σ) (t : Thread) : Inv (σ.setPc t .idle) := by
  obtain ⟨held_alloc, subs_alloc, count, stored, own, removing, freeing⟩ := inv
  refine ⟨held_alloc, subs_alloc, count, stored, own, ?_, ?_⟩
  · intro u s at_
    simp only [State.setPc, Function.update_apply] at at_
    split at at_
    · cases at_
    · exact removing u s at_
  · intro u s at_
    simp only [State.setPc, Function.update_apply] at at_
    split at at_
    · cases at_
    · exact freeing u s at_

theorem Inv.setPc_creating {σ : State} (inv : Inv σ) (t : Thread) (e : Bytes) :
    Inv (σ.setPc t (.creating e)) := by
  obtain ⟨held_alloc, subs_alloc, count, stored, own, removing, freeing⟩ := inv
  refine ⟨held_alloc, subs_alloc, count, stored, own, ?_, ?_⟩
  · intro u s at_
    simp only [State.setPc, Function.update_apply] at at_
    split at at_
    · cases at_
    · exact removing u s at_
  · intro u s at_
    simp only [State.setPc, Function.update_apply] at at_
    split at at_
    · cases at_
    · exact freeing u s at_

/-! ### What each step preserves -/

section Steps

variable {σ : State}

theorem holders_erase {t : Thread} {s : SubId} (held : (t, s) ∈ σ.held) (r : SubId) :
    (σ.held.erase (t, s)).countP (fun h => h.2 == r) + (if s = r then 1 else 0) =
      σ.holders r := by
  have perm := List.perm_cons_erase held
  rw [State.holders, perm.countP_eq, List.countP_cons]
  simp

theorem holders_eq_zero (inv : Inv σ) {s : SubId} (fresh : σ.next ≤ s) : σ.holders s = 0 := by
  rw [State.holders, List.countP_eq_zero]
  rintro ⟨t, r⟩ held same
  simp only [beq_iff_eq] at same
  exact absurd (inv.held_alloc t r held) (Nat.not_lt.mpr (same ▸ fresh))

/-- Counting up an object that is live. -/
theorem Inv.acquire (inv : Inv σ) (t : Thread) {s : SubId} (live : σ.Live s) :
    Inv (σ.acquire t s) := by
  obtain ⟨allocated, positive⟩ := live
  obtain ⟨held_alloc, subs_alloc, count, stored, own, removing, freeing⟩ := inv
  -- Only the count of `s` changes, by the one that the thread now holds.
  have heap_ne : ∀ r, r ≠ s → (σ.acquire t s).heap r = σ.heap r := fun r other => by
    simp [State.acquire, other]
  have heap_eq : (σ.acquire t s).heap s = { σ.heap s with refs := (σ.heap s).refs + 1 } := by
    simp [State.acquire]
  have holders : ∀ r, (σ.acquire t s).holders r = σ.holders r + if s = r then 1 else 0 :=
    fun r => by simp [State.acquire, State.holders, List.countP_cons]
  refine ⟨?_, subs_alloc, ?_, ?_, ?_, ?_, ?_⟩
  · intro u r held
    rcases List.mem_cons.mp held with same | held
    · cases same
      exact allocated
    · exact held_alloc u r held
  · intro r allocated
    rw [holders]
    by_cases other : r = s
    · subst other
      rw [heap_eq, if_pos rfl, UInt32.ofNat_add, ← count r allocated]
      rfl
    · rw [heap_ne r other, if_neg (Ne.symm other), count r allocated, Nat.add_zero]
  · rintro r ⟨allocated, live⟩
    by_cases other : r = s
    · subst other
      rw [heap_eq]
      exact stored r ⟨allocated, positive⟩
    · rw [heap_ne r other] at live ⊢
      exact stored r ⟨allocated, live⟩
  · intro e r at_
    by_cases other : r = s
    · subst other
      rw [heap_eq]
      exact own e r at_
    · rw [heap_ne r other]
      exact own e r at_
  · -- a retired object has a count of zero, so it is not `s`
    intro u r at_
    obtain ⟨allocated, zero⟩ := removing u r at_
    have other : r ≠ s := fun same => positive (same ▸ zero)
    exact ⟨allocated, by rw [heap_ne r other, zero]⟩
  · intro u r at_
    obtain ⟨allocated, zero, absent⟩ := freeing u r at_
    have other : r ≠ s := fun same => positive (same ▸ zero)
    exact ⟨allocated, by rw [heap_ne r other, zero], absent⟩

/-- Storing a new object where nothing live was stored. -/
theorem Inv.create (inv : Inv σ) (t : Thread) {e : Bytes}
    (dead : ∀ s, σ.subs e = some s → (σ.heap s).refs = 0) : Inv (σ.create t e) := by
  -- Nobody can hold the object yet.
  have none_held := holders_eq_zero inv (Nat.le_refl σ.next)
  obtain ⟨held_alloc, subs_alloc, count, stored, own, removing, freeing⟩ := inv
  have heap_old : ∀ r, r < σ.next → (σ.create t e).heap r = σ.heap r := fun r allocated => by
    simp [State.create, Nat.ne_of_lt allocated]
  have heap_new : (σ.create t e).heap σ.next = ⟨e, 1, false⟩ := by simp [State.create]
  have holders : ∀ r, (σ.create t e).holders r = σ.holders r + if σ.next = r then 1 else 0 :=
    fun r => by simp [State.create, State.holders, List.countP_cons]
  refine ⟨?_, ?_, ?_, ?_, ?_, ?_, ?_⟩
  · intro u r held
    simp only [State.create] at held ⊢
    rcases List.mem_cons.mp held with same | held
    · cases same
      exact Nat.lt_succ_self σ.next
    · exact Nat.lt_succ_of_lt (held_alloc u r held)
  · intro e' r at_
    simp only [State.create, Function.update_apply] at at_ ⊢
    split at at_
    · cases at_
      exact Nat.lt_succ_self σ.next
    · exact Nat.lt_succ_of_lt (subs_alloc e' r at_)
  · intro r allocated
    rw [holders]
    rcases Nat.lt_succ_iff_lt_or_eq.mp allocated with old | rfl
    · rw [heap_old r old, if_neg (Nat.ne_of_gt old), count r old, Nat.add_zero]
    · rw [heap_new, if_pos rfl, none_held]
      rfl
  · -- what it replaces in the table is not live
    rintro r ⟨allocated, live⟩
    rcases Nat.lt_succ_iff_lt_or_eq.mp allocated with old | rfl
    · rw [heap_old r old] at live ⊢
      have here := stored r ⟨old, live⟩
      have other : (σ.heap r).evExtra ≠ e := fun same => live (dead r (same ▸ here))
      simpa [State.create, other] using here
    · rw [heap_new]
      simp [State.create]
  · intro e' r at_
    simp only [State.create, Function.update_apply] at at_
    split at at_
    next same =>
      cases at_
      simp [State.create, same]
    next other =>
      rw [heap_old r (subs_alloc e' r at_)]
      exact own e' r at_
  · intro u r at_
    obtain ⟨allocated, zero⟩ := removing u r at_
    exact ⟨Nat.lt_succ_of_lt allocated, by rw [heap_old r allocated, zero]⟩
  · intro u r at_
    obtain ⟨allocated, zero, absent⟩ := freeing u r at_
    refine ⟨Nat.lt_succ_of_lt allocated, by rw [heap_old r allocated, zero], ?_⟩
    intro e' at_
    simp only [State.create, Function.update_apply] at at_
    split at at_
    · cases at_
      exact Nat.lt_irrefl _ allocated
    · exact absent e' at_

theorem State.getIfExists_some {t : Thread} {e : Bytes} {τ : State}
    (found : σ.getIfExists t e = some τ) :
    ∃ s, σ.subs e = some s ∧ (σ.heap s).refs ≠ 0 ∧ τ = σ.acquire t s := by
  unfold State.getIfExists at found
  split at found
  next => cases found
  next s stored =>
    split at found
    next => cases found
    next positive =>
      cases found
      exact ⟨s, stored, positive, rfl⟩

theorem State.getIfExists_none {t : Thread} {e : Bytes} (missing : σ.getIfExists t e = none)
    (s : SubId) (stored : σ.subs e = some s) : (σ.heap s).refs = 0 := by
  simp only [State.getIfExists, stored] at missing
  split at missing
  next zero => exact zero
  next => cases missing

theorem Inv.getIfExists (inv : Inv σ) (t : Thread) {e : Bytes} {τ : State}
    (found : σ.getIfExists t e = some τ) : Inv τ := by
  obtain ⟨s, stored, positive, rfl⟩ := State.getIfExists_some found
  exact inv.acquire t ⟨inv.subs_alloc e s stored, positive⟩

/-- Handing a reference over changes no count. -/
theorem Inv.pass (inv : Inv σ) {t : Thread} (u : Thread) {s : SubId} (held : (t, s) ∈ σ.held) :
    Inv { σ with held := (u, s) :: σ.held.erase (t, s) } := by
  have holders : ∀ r, ({ σ with held := (u, s) :: σ.held.erase (t, s) } : State).holders r =
      σ.holders r := fun r => by
    rw [← holders_erase held r]
    simp [State.holders, List.countP_cons]
  obtain ⟨held_alloc, subs_alloc, count, stored, own, removing, freeing⟩ := inv
  refine ⟨?_, subs_alloc, ?_, stored, own, removing, freeing⟩
  · intro v r here
    rcases List.mem_cons.mp here with same | here
    · cases same
      exact held_alloc t s held
    · exact held_alloc v r (List.mem_of_mem_erase here)
  · intro r allocated
    rw [holders]
    exact count r allocated

/-- Counting down an object somebody holds. -/
theorem Inv.release (inv : Inv σ) (bounded : σ.Bounded) {t : Thread} {s : SubId}
    (held : (t, s) ∈ σ.held) : Inv (σ.release t s) := by
  obtain ⟨allocated, positive⟩ := inv.live_of_held bounded held
  obtain ⟨held_alloc, subs_alloc, count, stored, own, removing, freeing⟩ := inv
  have heap_ne : ∀ r, r ≠ s → (σ.release t s).heap r = σ.heap r := fun r other => by
    simp [State.release, other]
  have heap_eq : (σ.release t s).heap s = { σ.heap s with refs := (σ.heap s).refs - 1 } := by
    simp [State.release]
  -- one holder of `s` less, and of no other
  have holders : ∀ r, (σ.release t s).holders r + (if s = r then 1 else 0) = σ.holders r :=
    fun r => holders_erase held r
  refine ⟨?_, subs_alloc, ?_, ?_, ?_, ?_, ?_⟩
  · exact fun u r here => held_alloc u r (List.mem_of_mem_erase here)
  · intro r allocated
    by_cases other : r = s
    · subst other
      -- the counter of `s` goes down with its holders
      rw [heap_eq, count r allocated, ← holders r, if_pos rfl, UInt32.ofNat_add]
      exact UInt32.add_sub_cancel _ _
    · have same := holders r
      rw [if_neg (Ne.symm other), Nat.add_zero] at same
      rw [heap_ne r other, count r allocated, same]
  · rintro r ⟨allocated, live⟩
    by_cases other : r = s
    · subst other
      rw [heap_eq]
      -- it was live before, so the table has it
      exact stored r ⟨allocated, positive⟩
    · rw [heap_ne r other] at live ⊢
      exact stored r ⟨allocated, live⟩
  · intro e r at_
    by_cases other : r = s
    · subst other
      rw [heap_eq]
      exact own e r at_
    · rw [heap_ne r other]
      exact own e r at_
  · intro u r at_
    obtain ⟨allocated, zero⟩ := removing u r at_
    -- whoever removes `r` has seen its count at zero, and `s` still had a holder
    have other : r ≠ s := fun same => positive (same ▸ zero)
    exact ⟨allocated, by rw [heap_ne r other, zero]⟩
  · intro u r at_
    obtain ⟨allocated, zero, absent⟩ := freeing u r at_
    have other : r ≠ s := fun same => positive (same ▸ zero)
    exact ⟨allocated, by rw [heap_ne r other, zero], absent⟩

theorem Inv.setPc_removing (inv : Inv σ) (t : Thread) {s : SubId} (allocated : s < σ.next)
    (zero : (σ.heap s).refs = 0) : Inv (σ.setPc t (.removing s)) := by
  obtain ⟨held_alloc, subs_alloc, count, stored, own, removing, freeing⟩ := inv
  refine ⟨held_alloc, subs_alloc, count, stored, own, ?_, ?_⟩
  · intro u r at_
    simp only [State.setPc, Function.update_apply] at at_
    split at at_
    · cases at_
      exact ⟨allocated, zero⟩
    · exact removing u r at_
  · intro u r at_
    simp only [State.setPc, Function.update_apply] at at_
    split at at_
    · cases at_
    · exact freeing u r at_

/-- Taking a dead object out of the table, if it is still the one stored. -/
theorem Inv.removeIfMine (inv : Inv σ) {t : Thread} {s : SubId} (at_ : σ.pc t = .removing s) :
    Inv ((σ.removeIfMine s).setPc t (.freeing s)) := by
  obtain ⟨allocated, zero⟩ := inv.removing t s at_
  obtain ⟨held_alloc, subs_alloc, count, stored, own, removing, freeing⟩ := inv
  -- Only the table changes, and there at most the entry that was `s`.
  obtain ⟨subs, same, after⟩ : ∃ subs, σ.removeIfMine s = { σ with subs := subs } ∧
      ∀ e r, subs e = some r ↔ σ.subs e = some r ∧ r ≠ s := by
    unfold State.removeIfMine
    split
    next mine =>
      refine ⟨_, rfl, fun e r => ?_⟩
      simp only [Function.update_apply]
      split
      next here => subst here; simp [mine, eq_comm]
      next other =>
        refine ⟨fun here => ⟨here, ?_⟩, And.left⟩
        rintro rfl
        exact other (own e r here).1.symm
    next other =>
      refine ⟨σ.subs, rfl, fun e r => ⟨fun here => ⟨here, ?_⟩, And.left⟩⟩
      rintro rfl
      rw [(own e r here).1] at other
      exact other here
  rw [same]
  refine ⟨held_alloc, ?_, count, ?_, ?_, ?_, ?_⟩
  · exact fun e r here => subs_alloc e r ((after e r).mp here).1
  · intro r live
    have other : r ≠ s := by
      rintro rfl
      exact live.2 zero
    exact (after _ r).mpr ⟨stored r live, other⟩
  · exact fun e r here => own e r ((after e r).mp here).1
  · intro u r here
    simp only [State.setPc, Function.update_apply] at here
    split at here
    · cases here
    · exact removing u r here
  · intro u r here
    simp only [State.setPc, Function.update_apply] at here
    split at here
    · cases here
      exact ⟨allocated, zero, fun e left => ((after e s).mp left).2 rfl⟩
    · obtain ⟨allocated, zero, absent⟩ := freeing u r here
      exact ⟨allocated, zero, fun e left => absent e ((after e r).mp left).1⟩

theorem Inv.freeSub (inv : Inv σ) {t : Thread} {s : SubId} (at_ : σ.pc t = .freeing s) :
    Inv (σ.freeSub s) := by
  obtain ⟨-, -, absent⟩ := inv.freeing t s at_
  obtain ⟨held_alloc, subs_alloc, count, stored, own, removing, freeing⟩ := inv
  -- only the memory goes: counts and keys are kept
  have refs : ∀ r, ((σ.freeSub s).heap r).refs = (σ.heap r).refs := fun r => by
    simp only [State.freeSub, Function.update_apply]
    split
    next same => rw [same]
    next => rfl
  have evExtra : ∀ r, ((σ.freeSub s).heap r).evExtra = (σ.heap r).evExtra := fun r => by
    simp only [State.freeSub, Function.update_apply]
    split
    next same => rw [same]
    next => rfl
  refine ⟨held_alloc, subs_alloc, ?_, ?_, ?_, ?_, ?_⟩
  · exact fun r allocated => (refs r).trans (count r allocated)
  · rintro r ⟨allocated, live⟩
    rw [refs] at live
    rw [evExtra]
    exact stored r ⟨allocated, live⟩
  · intro e r here
    -- the table no longer has `s`
    have other : r ≠ s := fun same => absent e (same ▸ here)
    simp only [State.freeSub, Function.update_of_ne other]
    exact own e r here
  · exact fun u r here => ⟨(removing u r here).1, (refs r).trans (removing u r here).2⟩
  · intro u r here
    obtain ⟨allocated, zero, gone⟩ := freeing u r here
    exact ⟨allocated, (refs r).trans zero, gone⟩

end Steps

/-! ### Runs -/

/-- What a step can do, with where its thread stood before it. -/
inductive Stepped (σ : State) : Label → State → Prop
  | found (t : Thread) (evExtra : Option Bytes) (orCreate : Bool) (τ : State)
      (idle : σ.pc t = .idle) (found : σ.getIfExists t (evExtra.getD []) = some τ) :
      Stepped σ (.getRead t evExtra orCreate) τ
  | creates (t : Thread) (evExtra : Option Bytes) (idle : σ.pc t = .idle) :
      Stepped σ (.getRead t evExtra true) (σ.setPc t (.creating (evExtra.getD [])))
  | absent (t : Thread) (evExtra : Option Bytes) (idle : σ.pc t = .idle) :
      Stepped σ (.getRead t evExtra false) σ
  | raced (t : Thread) (e : Bytes) (τ : State) (creating : σ.pc t = .creating e)
      (found : σ.getIfExists t e = some τ) : Stepped σ (.getWrite t) (τ.setPc t .idle)
  | created (t : Thread) (e : Bytes) (creating : σ.pc t = .creating e)
      (missing : σ.getIfExists t e = none) :
      Stepped σ (.getWrite t) ((σ.create t e).setPc t .idle)
  | ref (t : Thread) (s : SubId) (idle : σ.pc t = .idle) (held : (t, s) ∈ σ.held) :
      Stepped σ (.ref t s) (σ.acquire t s)
  | pass (t u : Thread) (s : SubId) (held : (t, s) ∈ σ.held) :
      Stepped σ (.pass t u s) { σ with held := (u, s) :: σ.held.erase (t, s) }
  | last (t : Thread) (s : SubId) (idle : σ.pc t = .idle) (held : (t, s) ∈ σ.held)
      (last : (σ.heap s).refs - 1 = 0) :
      Stepped σ (.dec t s) ((σ.release t s).setPc t (.removing s))
  | dec (t : Thread) (s : SubId) (idle : σ.pc t = .idle) (held : (t, s) ∈ σ.held) :
      Stepped σ (.dec t s) (σ.release t s)
  | remove (t : Thread) (s : SubId) (removing : σ.pc t = .removing s) :
      Stepped σ (.remove t) ((σ.removeIfMine s).setPc t (.freeing s))
  | free (t : Thread) (s : SubId) (freeing : σ.pc t = .freeing s) :
      Stepped σ (.free t) ((σ.freeSub s).setPc t .idle)

theorem step_cases {l : Label} {τ : State} (stepped : σ.step l = some τ) : Stepped σ l τ := by
  cases l with
  | getRead t evExtra orCreate =>
    simp only [State.step] at stepped
    split at stepped
    next idle =>
      split at stepped
      next found =>
        cases stepped
        exact .found t evExtra orCreate τ idle found
      next =>
        cases orCreate with
        | true =>
          cases stepped
          exact .creates t evExtra idle
        | false =>
          cases stepped
          exact .absent t evExtra idle
    next => cases stepped
  | getWrite t =>
    simp only [State.step] at stepped
    split at stepped
    next e creating =>
      split at stepped
      next found =>
        cases stepped
        exact .raced t e _ creating found
      next missing =>
        cases stepped
        exact .created t e creating missing
    next => cases stepped
  | ref t s =>
    obtain ⟨⟨idle, held⟩, ⟨⟩⟩ := Option.ite_none_right_eq_some.mp stepped
    exact .ref t s idle held
  | pass t u s =>
    obtain ⟨held, ⟨⟩⟩ := Option.ite_none_right_eq_some.mp stepped
    exact .pass t u s held
  | dec t s =>
    obtain ⟨⟨idle, held⟩, dropped⟩ := Option.ite_none_right_eq_some.mp stepped
    rw [← Option.some.inj dropped]
    split
    next last => exact .last t s idle held last
    next => exact .dec t s idle held
  | remove t =>
    simp only [State.step] at stepped
    split at stepped
    next s removing =>
      cases stepped
      exact .remove t s removing
    next => cases stepped
  | free t =>
    simp only [State.step] at stepped
    split at stepped
    next s freeing =>
      cases stepped
      exact .free t s freeing
    next => cases stepped

/-- One step keeps the invariant, unless a count wraps. -/
theorem inv_step (σ : State) (l : Label) (τ : State) (inv : Inv σ) (bounded : σ.Bounded)
    (stepped : σ.step l = some τ) : Inv τ := by
  cases step_cases stepped with
  | found t evExtra orCreate _ idle found => exact inv.getIfExists t found
  | creates t evExtra idle => exact inv.setPc_creating t _
  | absent t evExtra idle => exact inv
  | raced t e ρ creating found => exact (inv.getIfExists t found).setPc_idle t
  | created t e creating missing =>
    have made := inv.create t (State.getIfExists_none missing)
    exact made.setPc_idle t
  | ref t s idle held => exact inv.acquire t (inv.live_of_held bounded held)
  | pass t u s held => exact inv.pass u held
  | last t s idle held last =>
    -- The count is at zero, so nobody can take the object up again.
    have after := inv.release bounded held
    apply after.setPc_removing t (inv.held_alloc t s held)
    simp [State.release, last]
  | dec t s idle held => exact inv.release bounded held
  | remove t s removing => exact inv.removeIfMine removing
  | free t s freeing => exact (inv.freeSub freeing).setPc_idle t

/-- An allocated object whose count is at zero. -/
def State.Retired (σ : State) (s : SubId) : Prop := s < σ.next ∧ (σ.heap s).refs = 0

theorem State.Retired.acquire {σ : State} {s r : SubId} (retired : σ.Retired s) (t : Thread)
    (positive : (σ.heap r).refs ≠ 0) : (σ.acquire t r).Retired s := by
  have other : s ≠ r := fun same => positive (same ▸ retired.2)
  exact ⟨retired.1, by simp [State.acquire, other, retired.2]⟩

theorem State.Retired.create {σ : State} {s : SubId} (retired : σ.Retired s) (t : Thread)
    (e : Bytes) : (σ.create t e).Retired s :=
  ⟨Nat.lt_succ_of_lt retired.1, by simp [State.create, Nat.ne_of_lt retired.1, retired.2]⟩

theorem State.Retired.release {σ : State} {s r : SubId} (retired : σ.Retired s) (t : Thread)
    (live : σ.Live r) : (σ.release t r).Retired s := by
  have other : s ≠ r := fun same => live.2 (same ▸ retired.2)
  exact ⟨retired.1, by simp [State.release, other, retired.2]⟩

theorem State.Retired.removeIfMine {σ : State} {s : SubId} (retired : σ.Retired s) (r : SubId) :
    (σ.removeIfMine r).Retired s := by
  unfold State.removeIfMine
  split
  · exact retired
  · exact retired

theorem State.Retired.freeSub {σ : State} {s : SubId} (retired : σ.Retired s) (r : SubId) :
    (σ.freeSub r).Retired s := by
  refine ⟨retired.1, ?_⟩
  simp only [State.freeSub, Function.update_apply]
  split
  next same => exact same ▸ retired.2
  next => exact retired.2

theorem State.Retired.getIfExists {σ τ : State} {s : SubId} (retired : σ.Retired s) {t : Thread}
    {e : Bytes} (found : σ.getIfExists t e = some τ) : τ.Retired s := by
  obtain ⟨r, -, positive, rfl⟩ := State.getIfExists_some found
  exact retired.acquire t positive

/-- No step brings a count back from zero. -/
theorem retired_step (s : SubId) (σ : State) (l : Label) (τ : State) (inv : Inv σ)
    (bounded : σ.Bounded) (stepped : σ.step l = some τ) (retired : σ.Retired s) :
    τ.Retired s := by
  -- A held object has a positive count, so it is not this one.
  cases step_cases stepped with
  | found t evExtra orCreate _ idle found => exact retired.getIfExists found
  | creates t evExtra idle => exact retired
  | absent t evExtra idle => exact retired
  | raced t e ρ creating found =>
    have after : ρ.Retired s := retired.getIfExists found
    exact after
  | created t e creating missing => exact retired.create t e
  | ref t r idle held => exact retired.acquire t (inv.live_of_held bounded held).2
  | pass t u r held => exact retired
  | last t r idle held last => exact retired.release t (inv.live_of_held bounded held)
  | dec t r idle held => exact retired.release t (inv.live_of_held bounded held)
  | remove t r removing => exact retired.removeIfMine r
  | free t r freeing => exact retired.freeSub r

/-- In every state of the run the references to each object can be counted. -/
def NeverWraps (ls : List Label) : Prop :=
  ∀ ms σ, ms <+: ls → system.run initial ms = some σ → σ.Bounded

theorem NeverWraps.take {ls ms : List Label} (never : NeverWraps ls) (first : ms <+: ls) :
    NeverWraps ms :=
  fun ns σ earlier ran => never ns σ (earlier.trans first) ran

theorem run_inv {ls : List Label} {σ : State} (ran : system.run initial ls = some σ)
    (never : NeverWraps ls) : Inv σ :=
  system.run_invariant_through Inv State.Bounded
    (fun σ l τ inv bounded _ stepped => inv_step σ l τ inv bounded stepped)
    initial σ ls inv_initial ran never

theorem run_retired {ls ms : List Label} {σ τ : State} {s : SubId}
    (ran : system.run initial ls = some σ) (never : NeverWraps ls) (first : ms <+: ls)
    (earlier : system.run initial ms = some τ) (retired : τ.Retired s) : σ.Retired s := by
  obtain ⟨ns, rfl⟩ := first
  obtain ⟨_, start, rest⟩ := (system.run_append_iff initial σ ms ns).mp ran
  cases earlier.symm.trans start
  have inv := run_inv earlier (never.take (List.prefix_append ms ns))
  refine (system.run_invariant_through (fun υ => Inv υ ∧ υ.Retired s) State.Bounded ?_
    τ σ ns ⟨inv, retired⟩ rest ?_).2
  · rintro υ l ρ ⟨inv, retired⟩ bounded - stepped
    exact ⟨inv_step υ l ρ inv bounded stepped, retired_step s υ l ρ inv bounded stepped retired⟩
  · intro os υ before ranOs
    exact never (ms ++ os) υ ((List.prefix_append_right_inj ms).mpr before)
      ((system.run_append_iff initial υ ms os).mpr ⟨τ, earlier, ranOs⟩)

/-- Objects of one `ev_extra` are unique while they live, live objects are the
ones stored, a count that reached zero stays there, and a freed object is no
longer stored: in every run whose reference counts do not wrap. -/
theorem sub_unique (ls : List Label) (σ : State) (ran : system.run initial ls = some σ)
    (never : NeverWraps ls) :
    (∀ s r, σ.Live s → σ.Live r → (σ.heap s).evExtra = (σ.heap r).evExtra → s = r) ∧
    (∀ s, σ.Live s → σ.subs (σ.heap s).evExtra = some s) ∧
    (∀ ms τ s, ms <+: ls → system.run initial ms = some τ → s < τ.next →
      (τ.heap s).refs = 0 → (σ.heap s).refs = 0) ∧
    (∀ s e, (σ.heap s).freed = true → σ.subs e ≠ some s) := by
  have inv := run_inv ran never
  refine ⟨?_, inv.stored, ?_, ?_⟩
  · intro s r liveS liveR same
    have stored := inv.stored s liveS
    rw [same, inv.stored r liveR] at stored
    exact (Option.some.inj stored).symm
  · intro ms τ s first earlier allocated zero
    exact (run_retired ran never first earlier ⟨allocated, zero⟩).2
  · intro s e freed stored
    rw [(inv.own e s stored).2] at freed
    cases freed

/-- Thread 1 finds the object thread 0 is about to take out, and replaces it. -/
def replaced : List Label := [
  .getRead 0 none true, .getWrite 0, .dec 0 0,
  .getRead 1 none true, .getWrite 1, .remove 0, .free 0]

theorem replaced_bounded (ms : List Label) (σ : State) (first : ms <+: replaced)
    (ran : system.run initial ms = some σ) : σ.Bounded := by
  have few : σ.held.length < 2 ^ 32 := by
    have listed : ms ∈ replaced.inits := (List.mem_inits ms replaced).mpr first
    have all : ∀ ms ∈ replaced.inits, ∀ σ ∈ system.run initial ms, σ.held.length < 2 ^ 32 := by
      decide
    exact all ms listed σ ran
  exact fun s => Nat.lt_of_le_of_lt (List.countP_le_length) few

theorem sub_unique_replaced :
    ∃ σ, system.run initial replaced = some σ ∧ σ.Live 1 ∧ (σ.heap 0).freed = true ∧
      σ.subs [] = some 1 ∧ σ.subs [] ≠ some 0 := by
  cases ran : system.run initial replaced with
  | none => exact absurd ran (by decide)
  | some σ =>
    have freed : ∀ σ ∈ system.run initial replaced,
        σ.Live 1 ∧ (σ.heap 0).freed = true ∧ (σ.heap 1).evExtra = [] := by
      unfold State.Live
      decide
    obtain ⟨live, freed, extra⟩ := freed σ ran
    obtain ⟨-, stored, -, gone⟩ := sub_unique replaced σ ran replaced_bounded
    have here := stored 1 live
    rw [extra] at here
    exact ⟨σ, rfl, live, freed, here, gone 0 [] freed⟩

/-- Taking `n` more references counts up by `n`, modulo 2³². -/
theorem run_replicate_ref (n : Nat) (t : Thread) (s : SubId) (σ : State) (idle : σ.pc t = .idle)
    (held : (t, s) ∈ σ.held) :
    ∃ τ, system.run σ (List.replicate n (.ref t s)) = some τ ∧
      τ.heap s = { σ.heap s with refs := (σ.heap s).refs + UInt32.ofNat n } ∧
      τ.next = σ.next ∧ τ.subs = σ.subs ∧ τ.pc = σ.pc ∧ (t, s) ∈ τ.held := by
  induction n generalizing σ with
  | zero => exact ⟨σ, rfl, by simp, rfl, rfl, rfl, held⟩
  | succ n ih =>
    obtain ⟨τ, ran, heap, next, subs, pc, still⟩ :=
      ih (σ.acquire t s) idle (List.mem_cons_of_mem _ held)
    have stepped : system.step σ (.ref t s) = some (σ.acquire t s) := if_pos ⟨idle, held⟩
    refine ⟨τ, ?_, ?_, next, subs, pc, still⟩
    · rw [List.replicate_succ]
      exact (system.run_cons_iff σ τ _ _).mpr ⟨_, stepped, ran⟩
    · rw [heap]
      simp [State.acquire, UInt32.ofNat_add, UInt32.add_assoc, UInt32.add_comm 1]

/-- With 2³² references its count reads zero, so a living object is replaced. -/
theorem sub_unique_overflow :
    ¬∀ (ls : List Label) (σ : State), system.run initial ls = some σ →
      ∀ s r, σ.Live s → σ.Live r → (σ.heap s).evExtra = (σ.heap r).evExtra → s = r := by
  intro claim
  have first : ∃ σ, system.run initial [.getRead 0 none true, .getWrite 0] = some σ ∧
      σ.pc 0 = .idle ∧ σ.pc 1 = .idle ∧ (0, 0) ∈ σ.held ∧ σ.heap 0 = ⟨[], 1, false⟩ ∧
      σ.next = 1 ∧ σ.subs [] = some 0 :=
    ⟨_, rfl, by decide, by decide, by decide, by decide, by decide, by decide⟩
  obtain ⟨σ, created, idle, other, held, heap, next, stored⟩ := first
  obtain ⟨τ, counted, heap', next', subs', pc', held'⟩ :=
    run_replicate_ref (2 ^ 32 - 1) 0 0 σ idle held
  have wrapped : τ.heap 0 = ⟨[], 0, false⟩ := by
    rw [heap', heap]
    congr 1
  -- Thread 1 now takes object 0 for a dying one and stores object 1 in its place.
  have missed : system.step τ (.getRead 1 none true) = some (τ.setPc 1 (.creating [])) := by
    simp [system, State.step, State.getIfExists, pc', other, subs', stored, wrapped]
  have replaces : system.step (τ.setPc 1 (.creating [])) (.getWrite 1) =
      some (((τ.setPc 1 (.creating [])).create 1 []).setPc 1 .idle) := by
    simp [system, State.step, State.getIfExists, State.setPc, subs', stored, wrapped]
  generalize eq : ((τ.setPc 1 (.creating [])).create 1 []).setPc 1 .idle = ρ at replaces
  have refed : system.step ρ (.ref 0 0) = some (ρ.acquire 0 0) := by
    refine if_pos ⟨?_, ?_⟩
    · simp [← eq, State.setPc, State.create, pc', idle]
    · simp [← eq, State.setPc, State.create, held']
  have ran : system.run τ [.getRead 1 none true, .getWrite 1, .ref 0 0] =
      some (ρ.acquire 0 0) := by
    simp only [TransitionSystem.run, missed, replaces, refed]
  have revived : (ρ.acquire 0 0).heap 0 = ⟨[], 1, false⟩ := by
    simp [State.acquire, ← eq, State.setPc, State.create, next', next, wrapped]
  have fresh : (ρ.acquire 0 0).heap 1 = ⟨[], 1, false⟩ := by
    simp [State.acquire, ← eq, State.setPc, State.create, next', next]
  have allocated : (ρ.acquire 0 0).next = 2 := by
    simp [State.acquire, ← eq, State.setPc, State.create, next', next]
  have whole := (system.run_append_iff initial _ _ _).mpr
    ⟨τ, (system.run_append_iff initial τ _ _).mpr ⟨σ, created, counted⟩, ran⟩
  refine absurd (claim _ _ whole 0 1 ?_ ?_ (by rw [revived, fresh])) (by decide)
  · simp [State.Live, revived, allocated]
  · simp [State.Live, fresh, allocated]

end QuickIO.SubRace
