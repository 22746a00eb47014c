import Mathlib.Data.List.Count
import Mathlib.Data.List.Perm.Basic
import Mathlib.Logic.Function.Basic
import Mathlib.Order.Nat
import QuickIO.Lib.TransitionSystem

/-!
# The data of a client

`client_set` and the functions beside it keep values by name on a client. A value is a
`GVariant`, which is freed with its last reference. Each function holds the lock of the
client while it is at the table, and not while it takes its own reference: threads come
between.
-/
namespace QuickIO

open Lib

abbrev GQuark := UInt32

/-- `GVariant`, as far as its references go. -/
structure GVariant where
  refs : Nat
  floating : Bool

/-- `g_variant_ref` -/
def GVariant.ref (val : GVariant) : GVariant := { val with refs := val.refs + 1 }

/-- `g_variant_unref` -/
def GVariant.unref (val : GVariant) : GVariant := { val with refs := val.refs - 1 }

/-- `g_variant_ref_sink`: a floating reference becomes a full one. -/
def GVariant.refSink (val : GVariant) : GVariant :=
  if val.floating then { val with floating := false } else val.ref

/-- The data of a client, with the values, by number, and those who work on it. -/
structure ClientData where
  /-- `client->data` -/
  data : Option (List (GQuark × Nat))
  heap : Nat → GVariant
  next : Nat
  /-- the references that callers have -/
  held : List Nat
  /-- `client_set` before it has the lock -/
  setting : List (GQuark × Nat)
  /-- `client_get` behind its lock, with no reference yet -/
  getting : List Nat
  /-- how often a value was referenced that had been freed -/
  faults : Nat
  /-- `client_free_all` has run -/
  freed : Bool

namespace ClientData

/-- A client that is new, and no values. -/
def start : ClientData where
  data := none
  heap _ := ⟨0, false⟩
  next := 0
  held := []
  setting := []
  getting := []
  faults := 0
  freed := false

section Operations

variable (σ : ClientData)

def setVariant (v : Nat) (val : GVariant) : ClientData :=
  { σ with heap := Function.update σ.heap v val }

/-- A caller makes a value, for instance with `g_variant_new_boolean`. -/
def variantNew : ClientData :=
  { σ.setVariant σ.next ⟨1, true⟩ with next := σ.next + 1, held := σ.held ++ [σ.next] }

/-- A caller gives its reference up. -/
def variantUnref (v : Nat) : ClientData :=
  { σ.setVariant v (σ.heap v).unref with held := σ.held.erase v }

/-- What is in the table, if there is one. -/
def entries : List (GQuark × Nat) := σ.data.getD []

/-- `g_hash_table_lookup` -/
def lookup (key : GQuark) : Option Nat := σ.entries.lookup key

/-- The `g_variant_unref` that the table calls for the values it drops. -/
def unrefs (dropped : List (GQuark × Nat)) : ClientData :=
  { σ with heap := dropped.foldl (fun heap entry =>
      Function.update heap entry.2 (heap entry.2).unref) σ.heap }

/-- The entries of a name, and the others. -/
def named (key : GQuark) : List (GQuark × Nat) := σ.entries.filter (·.1 = key)

def others (key : GQuark) : List (GQuark × Nat) := σ.entries.filter (·.1 ≠ key)

/-- `client_set` up to its lock. A floating reference is taken over. -/
def clientSet (key : GQuark) (v : Nat) : ClientData :=
  { σ.setVariant v (σ.heap v).refSink with
    held := if (σ.heap v).floating then σ.held.erase v else σ.held
    setting := σ.setting ++ [(key, v)] }

/-- `client_set` under its lock: `g_hash_table_insert`, in a table that is made if there
is none. -/
def clientSetLocked (key : GQuark) (v : Nat) : ClientData :=
  { σ.unrefs (σ.named key) with
    data := some ((key, v) :: σ.others key)
    setting := σ.setting.erase (key, v) }

/-- `client_get` under its lock. -/
def clientGetLocked (key : GQuark) : ClientData :=
  { σ with getting := σ.getting ++ (σ.lookup key).toList }

/-- The end of `client_get`. -/
def clientGet (v : Nat) : ClientData :=
  let σ := { σ with getting := σ.getting.erase v }
  if (σ.heap v).refs = 0 then { σ with faults := σ.faults + 1 }
  else { σ.setVariant v (σ.heap v).ref with held := σ.held ++ [v] }

/-- `client_has` -/
def clientHas (key : GQuark) : Bool := (σ.lookup key).isSome

/-- `client_del`: a table that is empty goes as well. -/
def clientDel (key : GQuark) : ClientData :=
  match σ.data with
  | none => σ
  | some _ =>
    { σ.unrefs (σ.named key) with
      data := if σ.others key = [] then none else some (σ.others key) }

/-- `client_free_all`, which needs no lock: nobody has the client any more. -/
def clientFreeAll : ClientData := { σ.unrefs σ.entries with data := none, freed := true }

end Operations

/-- A thread goes on. -/
inductive Label
  | new
  | unref (v : Nat)
  | set (key : GQuark) (v : Nat)
  | setLocked (key : GQuark) (v : Nat)
  | getLocked (key : GQuark)
  | get (v : Nat)
  | del (key : GQuark)
  | freeAll
deriving DecidableEq

/-- What a step does. Callers use values they have a reference to, and the client while
there is one. -/
def step (σ : ClientData) : Label → Option ClientData
  | .new => some σ.variantNew
  | .unref v => if v ∈ σ.held then some (σ.variantUnref v) else none
  | .set key v => if v ∈ σ.held ∧ σ.freed = false then some (σ.clientSet key v) else none
  | .setLocked key v => if (key, v) ∈ σ.setting then some (σ.clientSetLocked key v) else none
  | .getLocked key => if σ.freed then none else some (σ.clientGetLocked key)
  | .get v => if v ∈ σ.getting then some (σ.clientGet v) else none
  | .del key => if σ.freed then none else some (σ.clientDel key)
  | .freeAll =>
    if σ.setting = [] ∧ σ.getting = [] ∧ σ.freed = false then some σ.clientFreeAll else none

def system : TransitionSystem ClientData Label where
  init σ := σ = start
  step := step

/-! ### Owners -/

/-- Everyone who has a reference: callers, `client_set` on its way, and the table. -/
def owners (σ : ClientData) : List Nat :=
  σ.held ++ σ.setting.map Prod.snd ++ σ.entries.map Prod.snd

/-! ### The table -/

section Table

variable {σ : ClientData} {key k : GQuark} {v : Nat}

theorem lookup_others (σ : ClientData) (key k : GQuark) :
    (σ.others key).lookup k = if k = key then none else σ.lookup k := by
  rw [others, lookup]
  induction σ.entries with
  | nil => simp
  | cons e entries ih =>
    obtain ⟨name, v⟩ := e
    by_cases same : name = key
    · subst same
      rw [List.filter_cons_of_neg (by simp), ih, List.lookup_cons]
      by_cases here : k = name
      · rw [if_pos here, if_pos here]
      · rw [if_neg here, if_neg here, beq_false_of_ne here]
    · rw [List.filter_cons_of_pos (by simpa using same), List.lookup_cons, List.lookup_cons, ih]
      by_cases here : k = name
      · subst here
        simp [same]
      · rw [beq_false_of_ne here]

theorem count_named (σ : ClientData) (key : GQuark) (v : Nat) :
    (σ.entries.map Prod.snd).count v =
      ((σ.named key).map Prod.snd).count v + ((σ.others key).map Prod.snd).count v := by
  rw [named, others]
  induction σ.entries with
  | nil => rfl
  | cons e entries ih =>
    by_cases same : e.1 = key
    · rw [List.filter_cons_of_pos (by simpa using same), List.filter_cons_of_neg (by simp [same]),
        List.map_cons, List.map_cons, List.count_cons, List.count_cons, ih]
      omega
    · rw [List.filter_cons_of_neg (by simpa using same),
        List.filter_cons_of_pos (by simpa using same), List.map_cons, List.map_cons,
        List.count_cons, List.count_cons, ih]
      omega

/-- Dropped values lose a reference for each entry. -/
theorem refs_unrefs (σ : ClientData) (dropped : List (GQuark × Nat)) (v : Nat) :
    ((σ.unrefs dropped).heap v).refs = (σ.heap v).refs - (dropped.map Prod.snd).count v := by
  rw [unrefs]
  dsimp only
  induction dropped generalizing σ with
  | nil => rfl
  | cons e dropped ih =>
    refine (ih (σ.setVariant e.2 (σ.heap e.2).unref)).trans ?_
    rw [List.map_cons, List.count_cons]
    by_cases here : v = e.2
    · subst here
      simp only [setVariant, Function.update_self, GVariant.unref, beq_self_eq_true, if_true]
      omega
    · have other : (e.2 == v) = false := beq_false_of_ne (Ne.symm here)
      simp [setVariant, Function.update_of_ne here, other]

end Table

/-- Each value has as many references as owners, values to come have none, and there is
no table without entries, nor one when the client is freed. -/
structure Inv (σ : ClientData) : Prop where
  balanced : ∀ v, (σ.heap v).refs = σ.owners.count v
  unknown : ∀ v, σ.next ≤ v → σ.owners.count v = 0
  nonempty : σ.data ≠ some []
  done : σ.freed = true → σ.setting = [] ∧ σ.data = none

theorem inv_start : Inv start := by
  refine ⟨fun v => rfl, fun v _ => rfl, ?_, ?_⟩
  · simp [start]
  · simp [start]

theorem owners_count (σ : ClientData) (v : Nat) : σ.owners.count v =
    σ.held.count v + (σ.setting.map Prod.snd).count v + (σ.entries.map Prod.snd).count v := by
  rw [owners, List.count_append, List.count_append]

namespace Inv

variable {σ τ : ClientData} {key : GQuark} {v : Nat}

/-- A step that makes no value. -/
theorem transfer (inv : Inv σ) (balanced : ∀ v, (τ.heap v).refs = τ.owners.count v)
    (next : τ.next = σ.next) (kept : ∀ v, σ.owners.count v = 0 → τ.owners.count v = 0)
    (nonempty : τ.data ≠ some []) (done : τ.freed = true → τ.setting = [] ∧ τ.data = none) :
    Inv τ where
  balanced := balanced
  unknown v above := kept v (inv.unknown v (next ▸ above))
  nonempty := nonempty
  done := done

theorem variantNew (inv : Inv σ) : Inv σ.variantNew := by
  have count : ∀ v, σ.variantNew.owners.count v =
      σ.owners.count v + if σ.next = v then 1 else 0 := by
    intro v
    rw [owners_count, owners_count]
    simp only [ClientData.variantNew, entries, setVariant, List.count_append,
      List.count_singleton, beq_iff_eq]
    omega
  refine ⟨fun v => ?_, fun v above => ?_, inv.nonempty, inv.done⟩
  · rw [count]
    by_cases here : σ.next = v
    · have none_ := inv.unknown v (Nat.le_of_eq here)
      simp [ClientData.variantNew, setVariant, here, none_]
    · simp [ClientData.variantNew, setVariant, Function.update_of_ne (Ne.symm here),
        inv.balanced v, here]
  · have later : σ.next + 1 ≤ v := above
    rw [count, if_neg (by omega), inv.unknown v (by omega)]

theorem variantUnref (inv : Inv σ) (has : v ∈ σ.held) : Inv (σ.variantUnref v) := by
  have positive : 0 < σ.held.count v := List.count_pos_iff.mpr has
  have count : ∀ w, (σ.variantUnref v).owners.count w =
      σ.owners.count w - if v = w then 1 else 0 := by
    intro w
    rw [owners_count, owners_count]
    simp only [ClientData.variantUnref, entries, setVariant, List.count_erase, beq_iff_eq]
    split
    next here =>
      subst here
      omega
    next => omega
  refine inv.transfer (τ := σ.variantUnref v) ?_ rfl ?_ inv.nonempty inv.done
  · intro w
    rw [count, ← inv.balanced w]
    by_cases here : v = w
    · simp [ClientData.variantUnref, setVariant, here, GVariant.unref]
    · simp [ClientData.variantUnref, setVariant, Function.update_of_ne (Ne.symm here), here]
  · intro w none_
    rw [count, none_, Nat.zero_sub]

theorem clientSet (inv : Inv σ) (key : GQuark) (has : v ∈ σ.held) (freed : σ.freed = false) :
    Inv (σ.clientSet key v) := by
  have positive : 0 < σ.held.count v := List.count_pos_iff.mpr has
  -- a floating reference moves, of another there is one more
  have count : ∀ w, (σ.clientSet key v).owners.count w =
      σ.owners.count w + if v = w ∧ (σ.heap v).floating = false then 1 else 0 := by
    intro w
    rw [owners_count, owners_count]
    simp only [ClientData.clientSet, entries, setVariant, List.map_append, List.map_singleton,
      List.count_append, List.count_singleton, beq_iff_eq]
    cases (σ.heap v).floating with
    | true =>
      simp only [if_true, List.count_erase, beq_iff_eq]
      split
      next here =>
        subst here
        simp
        omega
      next => simp
    | false =>
      simp only [and_true, Bool.false_eq_true, if_false]
      omega
  have closed : (σ.clientSet key v).freed = true →
      (σ.clientSet key v).setting = [] ∧ (σ.clientSet key v).data = none := by
    intro done
    cases freed.symm.trans done
  refine inv.transfer (τ := σ.clientSet key v) ?_ rfl ?_ inv.nonempty closed
  · intro w
    rw [count, ← inv.balanced w]
    by_cases here : v = w
    · subst here
      cases floating : (σ.heap v).floating with
      | true => simp [ClientData.clientSet, setVariant, GVariant.refSink, floating]
      | false => simp [ClientData.clientSet, setVariant, GVariant.refSink, GVariant.ref, floating]
    · simp [ClientData.clientSet, setVariant, Function.update_of_ne (Ne.symm here), here]
  · intro w none_
    rw [count, none_, if_neg]
    rintro ⟨rfl, -⟩
    rw [owners_count] at none_
    omega

/-- The table drops the entries of a name and gets others for it, which owned already. -/
theorem drops (inv : Inv σ) (key : GQuark) (more : List (GQuark × Nat))
    (table : τ.entries = more ++ σ.others key) (heap : τ.heap = (σ.unrefs (σ.named key)).heap)
    (held : τ.held = σ.held) (next : τ.next = σ.next)
    (setting : ∀ v, (τ.setting.map Prod.snd).count v + (more.map Prod.snd).count v =
      (σ.setting.map Prod.snd).count v)
    (nonempty : τ.data ≠ some []) (done : τ.freed = true → τ.setting = [] ∧ τ.data = none) :
    Inv τ := by
  have count : ∀ v, τ.owners.count v =
      σ.owners.count v - ((σ.named key).map Prod.snd).count v := by
    intro v
    have before := σ.count_named key v
    have moved := setting v
    rw [owners_count, owners_count, table, held, List.map_append, List.count_append]
    omega
  refine inv.transfer ?_ next ?_ nonempty done
  · intro v
    rw [count, heap, σ.refs_unrefs (σ.named key), inv.balanced v]
  · intro v none_
    rw [count, none_, Nat.zero_sub]

theorem clientSetLocked (inv : Inv σ) (asked : (key, v) ∈ σ.setting) :
    Inv (σ.clientSetLocked key v) := by
  apply inv.drops (τ := σ.clientSetLocked key v) key [(key, v)] rfl rfl rfl rfl
  · intro w
    have counts := ((List.perm_cons_erase asked).map Prod.snd).count_eq w
    rw [counts]
    simp [ClientData.clientSetLocked, List.count_cons]
  · simp [ClientData.clientSetLocked]
  · intro freed
    have none_ := (inv.done freed).1
    rw [none_] at asked
    cases asked

theorem clientDel (inv : Inv σ) (key : GQuark) (freed : σ.freed = false) :
    Inv (σ.clientDel key) := by
  simp only [ClientData.clientDel]
  split
  next => exact inv
  next entries stored =>
    refine inv.drops key [] ?_ rfl rfl rfl (fun v => rfl) ?_ fun done => ?_
    · simp only [ClientData.entries, List.nil_append]
      split
      next empty => exact empty.symm
      next => rfl
    · simp only
      split
      next => simp
      next some_ => simpa using some_
    · cases freed.symm.trans done

theorem clientGetLocked (inv : Inv σ) (key : GQuark) : Inv (σ.clientGetLocked key) :=
  inv.transfer (τ := σ.clientGetLocked key) inv.balanced rfl (fun _ none_ => none_) inv.nonempty
    inv.done

theorem clientGet (inv : Inv σ) (v : Nat) : Inv (σ.clientGet v) := by
  simp only [ClientData.clientGet]
  split
  next => exact inv.transfer inv.balanced rfl (fun _ none_ => none_) inv.nonempty inv.done
  next alive =>
    have positive : σ.owners.count v ≠ 0 := by
      rw [← inv.balanced v]
      exact alive
    refine inv.transfer (fun w => ?_) rfl (fun w none_ => ?_) inv.nonempty inv.done
    · have count := inv.balanced w
      rw [owners_count] at count ⊢
      simp only [entries, setVariant, List.count_append, List.count_singleton, beq_iff_eq] at count ⊢
      by_cases here : v = w
      · subst here
        simp only [Function.update_self, GVariant.ref, if_true]
        omega
      · simp only [Function.update_of_ne (Ne.symm here), if_neg here]
        omega
    · have other : v ≠ w := by
        rintro rfl
        exact positive none_
      rw [owners_count] at none_ ⊢
      simp only [entries, setVariant, List.count_append, List.count_singleton, beq_iff_eq,
        if_neg other] at none_ ⊢
      omega

theorem clientFreeAll (inv : Inv σ) (settled : σ.setting = []) : Inv σ.clientFreeAll := by
  have count : ∀ v, σ.clientFreeAll.owners.count v =
      σ.owners.count v - (σ.entries.map Prod.snd).count v := by
    intro v
    rw [owners_count, owners_count]
    simp [ClientData.clientFreeAll, ClientData.entries, unrefs]
  refine inv.transfer (τ := σ.clientFreeAll) (fun v => ?_) rfl (fun v none_ => ?_)
    (by simp [ClientData.clientFreeAll]) fun _ => ⟨settled, rfl⟩
  · rw [count, ← inv.balanced v]
    exact σ.refs_unrefs σ.entries v
  · rw [count, none_, Nat.zero_sub]

/-- What one step keeps. -/
theorem step (inv : Inv σ) (l : Label) (stepped : σ.step l = some τ) : Inv τ := by
  cases l with
  | new =>
    cases stepped
    exact inv.variantNew
  | unref v =>
    obtain ⟨has, same⟩ := Option.ite_none_right_eq_some.mp stepped
    cases same
    exact inv.variantUnref has
  | set key v =>
    obtain ⟨⟨has, freed⟩, same⟩ := Option.ite_none_right_eq_some.mp stepped
    cases same
    exact inv.clientSet key has freed
  | setLocked key v =>
    obtain ⟨asked, same⟩ := Option.ite_none_right_eq_some.mp stepped
    cases same
    exact inv.clientSetLocked asked
  | getLocked key =>
    obtain ⟨-, same⟩ := Option.ite_none_left_eq_some.mp stepped
    cases same
    exact inv.clientGetLocked key
  | get v =>
    obtain ⟨-, same⟩ := Option.ite_none_right_eq_some.mp stepped
    cases same
    exact inv.clientGet v
  | del key =>
    obtain ⟨freed, same⟩ := Option.ite_none_left_eq_some.mp stepped
    cases same
    exact inv.clientDel key (by simpa using freed)
  | freeAll =>
    obtain ⟨⟨settled, -, -⟩, same⟩ := Option.ite_none_right_eq_some.mp stepped
    cases same
    exact inv.clientFreeAll settled

end Inv

/-! ### What is kept by a name -/

/-- What a step leaves by a name where `old` was. -/
def Label.leaves (key : GQuark) (old : Option Nat) : Label → Option Nat
  | .setLocked k v => if k = key then some v else old
  | .del k => if k = key then none else old
  | .freeAll => none
  | _ => old

theorem lookup_clientSetLocked (σ : ClientData) (k : GQuark) (v : Nat) (key : GQuark) :
    (σ.clientSetLocked k v).lookup key = if k = key then some v else σ.lookup key := by
  have table : (σ.clientSetLocked k v).entries = (k, v) :: σ.others k := rfl
  rw [lookup, table, List.lookup_cons, lookup_others]
  by_cases here : key = k
  · subst here
    simp
  · rw [beq_false_of_ne here, if_neg here, if_neg (Ne.symm here)]

theorem lookup_clientDel (σ : ClientData) (k key : GQuark) :
    (σ.clientDel k).lookup key = if k = key then none else σ.lookup key := by
  have others := σ.lookup_others k key
  simp only [clientDel]
  cases stored : σ.data with
  | none => simp [lookup, entries, stored]
  | some table =>
    have same : (({ σ.unrefs (σ.named k) with
        data := if σ.others k = [] then none else some (σ.others k) } : ClientData).lookup key) =
        (σ.others k).lookup key := by
      simp only [lookup, entries]
      split
      next empty => simp [empty]
      next => rfl
    rw [same, others]
    by_cases here : key = k
    · rw [if_pos here, if_pos here.symm]
    · rw [if_neg here, if_neg (Ne.symm here)]

theorem lookup_step {σ τ : ClientData} (l : Label) (stepped : σ.step l = some τ) (key : GQuark) :
    τ.lookup key = l.leaves key (σ.lookup key) := by
  cases l with
  | new =>
    cases stepped
    rfl
  | unref v =>
    obtain ⟨-, same⟩ := Option.ite_none_right_eq_some.mp stepped
    cases same
    rfl
  | set k v =>
    obtain ⟨-, same⟩ := Option.ite_none_right_eq_some.mp stepped
    cases same
    rfl
  | setLocked k v =>
    obtain ⟨-, same⟩ := Option.ite_none_right_eq_some.mp stepped
    cases same
    exact σ.lookup_clientSetLocked k v key
  | getLocked k =>
    obtain ⟨-, same⟩ := Option.ite_none_left_eq_some.mp stepped
    cases same
    rfl
  | get v =>
    obtain ⟨-, same⟩ := Option.ite_none_right_eq_some.mp stepped
    cases same
    simp only [clientGet]
    split <;> rfl
  | del k =>
    obtain ⟨-, same⟩ := Option.ite_none_left_eq_some.mp stepped
    cases same
    exact σ.lookup_clientDel k key
  | freeAll =>
    obtain ⟨-, same⟩ := Option.ite_none_right_eq_some.mp stepped
    cases same
    rfl

theorem lookup_run {σ τ : ClientData} {ls : List Label} (ran : system.run σ ls = some τ)
    (key : GQuark) : τ.lookup key = ls.foldl (fun old l => l.leaves key old) (σ.lookup key) := by
  induction ls generalizing σ with
  | nil =>
    cases ran
    rfl
  | cons l ls ih =>
    obtain ⟨υ, stepped, later⟩ := (system.run_cons_iff σ τ l ls).mp ran
    rw [ih later, List.foldl_cons, lookup_step l stepped key]

/-! ### References that come too late -/

/-- A step of `client_get` finds the value with an owner. -/
def Timely (σ : ClientData) : Label → Prop
  | .get v => v ∈ σ.owners
  | _ => True

instance (σ : ClientData) (l : Label) : Decidable (Timely σ l) := by
  cases l <;> unfold Timely <;> infer_instance

theorem faults_step {σ τ : ClientData} (inv : Inv σ) (l : Label) (stepped : σ.step l = some τ) :
    σ.faults ≤ τ.faults ∧ (Timely σ l ↔ τ.faults = σ.faults) := by
  have still : τ.faults = σ.faults → Timely σ l →
      σ.faults ≤ τ.faults ∧ (Timely σ l ↔ τ.faults = σ.faults) :=
    fun same timely => ⟨Nat.le_of_eq same.symm, iff_of_true timely same⟩
  cases l with
  | new =>
    cases stepped
    exact still rfl trivial
  | unref v =>
    obtain ⟨-, same⟩ := Option.ite_none_right_eq_some.mp stepped
    cases same
    exact still rfl trivial
  | set k v =>
    obtain ⟨-, same⟩ := Option.ite_none_right_eq_some.mp stepped
    cases same
    exact still rfl trivial
  | setLocked k v =>
    obtain ⟨-, same⟩ := Option.ite_none_right_eq_some.mp stepped
    cases same
    exact still rfl trivial
  | getLocked k =>
    obtain ⟨-, same⟩ := Option.ite_none_left_eq_some.mp stepped
    cases same
    exact still rfl trivial
  | get v =>
    obtain ⟨-, same⟩ := Option.ite_none_right_eq_some.mp stepped
    cases same
    have owned : (σ.heap v).refs = 0 ↔ v ∉ σ.owners := by
      rw [inv.balanced v, List.count_eq_zero]
    simp only [clientGet, Timely]
    split
    next gone =>
      refine ⟨Nat.le_succ _, iff_of_false (owned.mp gone) ?_⟩
      exact Nat.succ_ne_self _
    next alive =>
      have member : v ∈ σ.owners := not_not.mp fun absent => alive (owned.mpr absent)
      exact ⟨Nat.le_refl _, iff_of_true member rfl⟩
  | del k =>
    obtain ⟨-, same⟩ := Option.ite_none_left_eq_some.mp stepped
    cases same
    refine still ?_ trivial
    simp only [clientDel]
    split <;> rfl
  | freeAll =>
    obtain ⟨-, same⟩ := Option.ite_none_right_eq_some.mp stepped
    cases same
    exact still rfl trivial

/-- However threads come between each other: a name has what the last of them left there
under the lock, and `client->data` is `NULL` when no name has anything; a value lives as
long as somebody owns it, and no longer; and `client_get` takes a reference to a freed
value exactly when the last owner has gone between its lock and its reference. -/
theorem data_kept (t : ClientData) (ls : List Label) (ran : system.run start ls = some t) :
    (∀ key, t.lookup key = ls.foldl (fun old l => l.leaves key old) none) ∧
    (t.data = none ↔ ∀ key, t.clientHas key = false) ∧
    (∀ v, (t.heap v).refs = t.owners.count v) ∧
    (t.freed = true → t.held = [] → ∀ v, (t.heap v).refs = 0) ∧
    (t.faults = 0 ↔ system.Throughout Timely start ls) := by
  have kept : ∀ σ l τ, Inv σ → system.step σ l = some τ → Inv τ :=
    fun _ l _ inv stepped => inv.step l stepped
  have inv := system.run_invariant Inv kept start t ls inv_start ran
  refine ⟨fun key => lookup_run ran key, ?_, inv.balanced, ?_, ?_⟩
  · constructor
    · intro none_ key
      simp [clientHas, lookup, entries, none_]
    · intro nothing
      cases stored : t.data with
      | none => rfl
      | some table =>
        cases table with
        | nil => exact absurd stored inv.nonempty
        | cons e rest =>
          have here := nothing e.1
          simp [clientHas, lookup, entries, stored] at here
  · intro freed held v
    obtain ⟨setting, data⟩ := inv.done freed
    rw [inv.balanced, owners_count, held, setting, entries, data]
    rfl
  · have counted := (system.throughout_iff_of_monotone Inv ClientData.faults
      (fun σ l τ inv stepped => ⟨inv.step l stepped, faults_step inv l stepped⟩) start t ls
      inv_start ran).2
    exact counted.symm

/-- Two threads get a value while a third one replaces it, and one of them is too late. -/
def racing : List Label := [.new, .set 1 0, .setLocked 1 0, .getLocked 1, .getLocked 1, .get 0,
  .new, .set 1 1, .unref 0, .setLocked 1 1, .get 0]

theorem data_kept_racing : ∃ t, system.run start racing = some t ∧ t.lookup 1 = some 1 ∧
    (t.heap 0).refs = 0 ∧ ¬system.Throughout Timely start racing := by
  have some_ : (system.run start racing).isSome := by decide
  obtain ⟨t, ran⟩ := Option.isSome_iff_exists.mp some_
  obtain ⟨names, -, balanced, -, timely⟩ := data_kept t racing ran
  have late : ∀ t ∈ system.run start racing, t.owners.count 0 = 0 ∧ t.faults = 1 := by decide
  obtain ⟨gone, fault⟩ := late t ran
  refine ⟨t, ran, names 1, ?_, ?_⟩
  · rw [balanced 0]
    exact gone
  · rw [← timely, fault]
    decide

end ClientData

end QuickIO
