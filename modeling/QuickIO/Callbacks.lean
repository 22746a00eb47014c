import Mathlib.Algebra.GroupWithZero.Nat
import Mathlib.Data.Fintype.Basic
import Mathlib.Data.List.FinRange
import Mathlib.Data.List.Nodup
import QuickIO.CString
import QuickIO.Lib.TransitionSystem

/-!
# Server callbacks of a client

The four callback slots of a client and the functions that fill, fire and
prune them. The id given to a client packs the slot and a 16-bit counter, and
`client_cb_fire` unpacks whatever 64-bit number comes back. Its slot variable
keeps 16 bits only, so `client_cb_fire_iff` needs the number to stay below 2³²
or not to agree with a stored callback on its lower half.
-/
namespace QuickIO

open Lib

/-- `evs_cb_t` -/
abbrev EvsCb := UInt64

/-- `EVS_NO_CALLBACK` -/
def evsNoCallback : EvsCb := 0

/-- `enum evs_code`: without a negative member it is an unsigned int. -/
abbrev EvsCode := UInt32

def codeNotFound : EvsCode := 404

variable {Fn Data FreeFn : Type}

/-- `struct client_cb`: only callbacks with a function are ever stored. -/
structure ClientCb (Fn Data FreeFn : Type) where
  id : UInt16
  cbFn : Fn
  cbData : Option Data
  freeFn : Option FreeFn
  created : Int

/-- The fields of `struct client` that hold its callbacks. -/
structure Callbacks (Fn Data FreeFn : Type) where
  cbs : Fin 4 → Option (ClientCb Fn Data FreeFn)
  cbsId : UInt16

/-- There is a first slot. -/
instance slots_neZero : NeZero 4 := ⟨by decide⟩

/-- `_cb_data_free`: the calls of a free function it makes. -/
def cbDataFree (cbData : Option Data) (freeFn : Option FreeFn) : List (FreeFn × Data) :=
  match cbData, freeFn with
  | some data, some free => [(free, data)]
  | _, _ => []

/-- The data `_cb_free` gives back when it empties a slot. -/
def cbFree (client : Callbacks Fn Data FreeFn) (i : Fin 4) : List (FreeFn × Data) :=
  match client.cbs i with
  | none => []
  | some cb => cbDataFree cb.cbData cb.freeFn

/-- `_cb_remove` -/
def cbRemove (client : Callbacks Fn Data FreeFn) (i : Fin 4) : Callbacks Fn Data FreeFn :=
  { client with cbs := Function.update client.cbs i none }

/-- `(i << 16) | cb.id` -/
def packCb (i : Fin 4) (id : UInt16) : EvsCb :=
  (UInt64.ofNat i.val <<< 16) ||| id.toUInt64

/-- The first empty slot, and past the last one a random one to evict. -/
def newSlot (client : Callbacks Fn Data FreeFn) (random : Fin 4) : Fin 4 :=
  ((List.finRange 4).find? fun i => (client.cbs i).isNone).getD random

/-- `client->cbs_id++` and `MAX(1, client->cbs_id)` -/
def nextCbId (cbsId : UInt16) : UInt16 :=
  if 1 > cbsId + 1 then 1 else cbsId + 1

/-- `client_cb_new` at monotonic time `now`: the client, the data freed on the
way and the id to give out. -/
def clientCbNew (client : Callbacks Fn Data FreeFn) (random : Fin 4) (now : Int)
    (cbFn : Option Fn) (cbData : Option Data) (freeFn : Option FreeFn) :
    Callbacks Fn Data FreeFn × List (FreeFn × Data) × EvsCb :=
  match cbFn with
  | none => (client, cbDataFree cbData freeFn, evsNoCallback)
  | some cbFn =>
    -- The first free slot, or a random one whose callback is evicted.
    let i := newSlot client random
    let id := nextCbId client.cbsId
    let cb : ClientCb Fn Data FreeFn := { id, cbFn, cbData, freeFn, created := now }
    ({ cbs := Function.update client.cbs i (some cb), cbsId := id }, cbFree client i, packCb i id)

/-- What `client_cb_fire` does: call the function of a slot it emptied, or call
`evs_err_cb`. -/
inductive Fired (Fn Data FreeFn : Type) where
  | ran (slot : Fin 4) (cb : ClientCb Fn Data FreeFn) (clientCb : EvsCb) (json : Bytes)
  | error (clientCb : EvsCb) (code : EvsCode) (errMsg : Bytes)

/-- `guint16 slot = server_cb >> 16` -/
def slotOf (serverCb : EvsCb) : UInt16 := (serverCb >>> 16).toUInt16

/-- `guint16 id = server_cb & 0xffff` -/
def idOf (serverCb : EvsCb) : UInt16 := (serverCb &&& 0xffff).toUInt16

def noSuchCb (clientCb : EvsCb) : Fired Fn Data FreeFn :=
  .error clientCb codeNotFound (str "callback doesn't exist")

/-- `client_cb_fire`: the client when the callback is called, the call, and the
data freed after it. -/
def clientCbFire (client : Callbacks Fn Data FreeFn) (serverCb clientCb : EvsCb) (json : Bytes) :
    Callbacks Fn Data FreeFn × Fired Fn Data FreeFn × List (FreeFn × Data) :=
  if inside : (slotOf serverCb).toNat < 4 then
    let slot : Fin 4 := ⟨(slotOf serverCb).toNat, inside⟩
    match client.cbs slot with
    | none => (client, noSuchCb clientCb, [])
    | some cb =>
      if cb.id = idOf serverCb then
        -- The slot is emptied before the function is called: it fires once.
        (cbRemove client slot, .ran slot cb clientCb json, cbDataFree cb.cbData cb.freeFn)
      -- The slot was taken by a later callback.
      else (client, noSuchCb clientCb, [])
  else (client, noSuchCb clientCb, [])

/-- `client_cb_prune`: the client and the data freed. -/
def clientCbPrune (client : Callbacks Fn Data FreeFn) (before : Int) :
    Callbacks Fn Data FreeFn × List (FreeFn × Data) :=
  let old (cb : ClientCb Fn Data FreeFn) : Bool := cb.created < before
  ({ client with cbs := fun i => (client.cbs i).filter fun cb => !old cb },
    (List.finRange 4).flatMap fun i => if (client.cbs i).any old then cbFree client i else [])

/-! ### Packing -/

theorem packCb_toNat (i : Fin 4) (id : UInt16) :
    (packCb i id).toNat = i.val * 2 ^ 16 + id.toNat := by
  have small := id.toNat_lt
  have bound := i.isLt
  have slot : (UInt64.ofNat i.val).toNat = i.val := by
    rw [UInt64.toNat_ofNat']
    omega
  have joined := Nat.two_pow_add_eq_or_of_lt (i := 16) (b := id.toNat) small i.val
  rw [packCb, UInt64.toNat_or, UInt64.toNat_shiftLeft, slot, UInt16.toNat_toUInt64,
    Nat.shiftLeft_eq]
  simp only [UInt64.toNat_ofNat, Nat.reducePow, Nat.reduceMod] at joined ⊢
  rw [Nat.mod_eq_of_lt (by omega), Nat.mul_comm, ← joined]

theorem packCb_lt (i : Fin 4) (id : UInt16) : (packCb i id).toNat < 2 ^ 32 := by
  have small := id.toNat_lt
  have bound := i.isLt
  rw [packCb_toNat]
  omega

/-- A number unpacks to a slot and an id when its lower half packs them. -/
theorem unpack_iff (v : EvsCb) (i : Fin 4) (id : UInt16) :
    (slotOf v).toNat = i.val ∧ idOf v = id ↔ v.toNat % 2 ^ 32 = (packCb i id).toNat := by
  have small := id.toNat_lt
  have bound := i.isLt
  have slot : (slotOf v).toNat = v.toNat / 2 ^ 16 % 2 ^ 16 := by
    simp [slotOf, Nat.shiftRight_eq_div_pow]
  have low : (idOf v).toNat = v.toNat % 2 ^ 16 := by
    simp only [idOf, UInt64.toNat_toUInt16, UInt64.toNat_and]
    rw [show (0xffff : UInt64).toNat = 2 ^ 16 - 1 from rfl, Nat.and_two_pow_sub_one_eq_mod]
    omega
  rw [packCb_toNat, slot, ← UInt16.toNat_inj, low]
  omega

/-! ### Firing -/

section Fire

variable (client : Callbacks Fn Data FreeFn) (serverCb clientCb : EvsCb) (json : Bytes)

/-- A stored callback whose packed id is the lower half of the number runs. -/
theorem clientCbFire_hit (i : Fin 4) (cb : ClientCb Fn Data FreeFn) (stored : client.cbs i = some cb)
    (packed : serverCb.toNat % 2 ^ 32 = (packCb i cb.id).toNat) :
    clientCbFire client serverCb clientCb json =
      (cbRemove client i, .ran i cb clientCb json, cbDataFree cb.cbData cb.freeFn) := by
  obtain ⟨slot, id⟩ := (unpack_iff serverCb i cb.id).mpr packed
  have inside : (slotOf serverCb).toNat < 4 := slot ▸ i.isLt
  have same : (⟨(slotOf serverCb).toNat, inside⟩ : Fin 4) = i := Fin.ext slot
  simp only [clientCbFire, dif_pos inside, same, stored, id, if_pos]

/-- Otherwise nothing runs and nothing changes. -/
theorem clientCbFire_miss
    (missed : ∀ i cb, client.cbs i = some cb →
      serverCb.toNat % 2 ^ 32 ≠ (packCb i cb.id).toNat) :
    clientCbFire client serverCb clientCb json = (client, noSuchCb clientCb, []) := by
  unfold clientCbFire
  split
  next inside =>
    dsimp only
    cases stored : client.cbs ⟨(slotOf serverCb).toNat, inside⟩ with
    | none => rfl
    | some cb =>
      have other : cb.id ≠ idOf serverCb := fun same =>
        missed _ cb stored ((unpack_iff serverCb _ cb.id).mp ⟨rfl, same.symm⟩)
      exact if_neg other
  next => rfl

end Fire

/-- Firing either runs what its lower half names or leaves the client alone. -/
theorem clientCbFire_cases (client : Callbacks Fn Data FreeFn) (serverCb clientCb : EvsCb)
    (json : Bytes) :
    (∃ i cb, client.cbs i = some cb ∧ clientCbFire client serverCb clientCb json =
      (cbRemove client i, .ran i cb clientCb json, cbDataFree cb.cbData cb.freeFn)) ∨
    clientCbFire client serverCb clientCb json = (client, noSuchCb clientCb, []) := by
  by_cases hit : ∃ i cb, client.cbs i = some cb ∧
      serverCb.toNat % 2 ^ 32 = (packCb i cb.id).toNat
  · obtain ⟨i, cb, stored, packed⟩ := hit
    exact Or.inl ⟨i, cb, stored, clientCbFire_hit client serverCb clientCb json i cb stored packed⟩
  · refine Or.inr (clientCbFire_miss client serverCb clientCb json fun i cb stored packed => ?_)
    exact hit ⟨i, cb, stored, packed⟩

/-! ### Runs -/

namespace CbRun

/-- One of the three functions, with the slot drawn, the time and the values
an application or the client passes. -/
inductive Label (Fn Data FreeFn : Type) where
  | new (random : Fin 4) (now : Int) (cbFn : Option Fn) (cbData : Option Data)
      (freeFn : Option FreeFn)
  | fire (serverCb clientCb : EvsCb) (json : Bytes)
  | prune (before : Int)

/-- The client's callbacks and the history of the run: what each creation
returned, which creation each slot holds, and which creations have run. -/
structure State (Fn Data FreeFn : Type) where
  client : Callbacks Fn Data FreeFn
  returned : List EvsCb
  creation : Fin 4 → Nat
  fired : List Nat

/-- A client without callbacks, its counter anywhere. -/
def initial (cbsId : UInt16) : State Fn Data FreeFn where
  client := { cbs := fun _ => none, cbsId }
  returned := []
  creation := fun _ => 0
  fired := []

def step (σ : State Fn Data FreeFn) : Label Fn Data FreeFn → State Fn Data FreeFn
  | .new random now cbFn cbData freeFn =>
    let (client, _, returned) := clientCbNew σ.client random now cbFn cbData freeFn
    match cbFn with
    | none => { σ with client }
    | some _ =>
      { client
        returned := σ.returned ++ [returned]
        creation := Function.update σ.creation (newSlot σ.client random) σ.returned.length
        fired := σ.fired }
  | .fire serverCb clientCb json =>
    match clientCbFire σ.client serverCb clientCb json with
    | (client, .ran slot _ _ _, _) => { σ with client, fired := σ.creation slot :: σ.fired }
    | (client, .error _ _ _, _) => { σ with client }
  | .prune before => { σ with client := (clientCbPrune σ.client before).1 }

def system (Fn Data FreeFn : Type) : TransitionSystem (State Fn Data FreeFn) (Label Fn Data FreeFn)
    where
  init σ := ∃ cbsId, σ = initial cbsId
  step σ l := some (step σ l)

/-- `client_cb_new` returned `v` for the callback stored in slot `i`. -/
def Holds (σ : State Fn Data FreeFn) (v : EvsCb) (i : Fin 4) (cb : ClientCb Fn Data FreeFn) :
    Prop :=
  σ.client.cbs i = some cb ∧ σ.returned[σ.creation i]? = some v

/-- Firing `v` runs and removes the callback `v` was returned for, and without
one runs nothing, changes nothing and answers 404. -/
structure FiresOwn (σ : State Fn Data FreeFn) (v clientCb : EvsCb) (json : Bytes) : Prop where
  own : ∀ i cb, Holds σ v i cb →
    clientCbFire σ.client v clientCb json =
      (cbRemove σ.client i, .ran i cb clientCb json, cbDataFree cb.cbData cb.freeFn)
  other : (∀ i cb, ¬Holds σ v i cb) →
    clientCbFire σ.client v clientCb json = (σ.client, noSuchCb clientCb, [])

/-- `v` fits in 32 bits, or its lower 32 bits name no stored callback. -/
def Unaliased (client : Callbacks Fn Data FreeFn) (v : EvsCb) : Prop :=
  v.toNat < 2 ^ 32 ∨
    ∀ i cb, client.cbs i = some cb → v.toNat % 2 ^ 32 ≠ (packCb i cb.id).toNat

/-- Every stored callback packs to what was returned for it, slots hold
different creations, and none of those has run. -/
structure Inv (σ : State Fn Data FreeFn) : Prop where
  packed : ∀ i cb, σ.client.cbs i = some cb →
    σ.returned[σ.creation i]? = some (packCb i cb.id)
  apart : ∀ i j cb cb', σ.client.cbs i = some cb → σ.client.cbs j = some cb' →
    σ.creation i = σ.creation j → i = j
  unfired : ∀ i cb, σ.client.cbs i = some cb → σ.creation i ∉ σ.fired
  created : ∀ n ∈ σ.fired, n < σ.returned.length
  once : σ.fired.Nodup

theorem inv_initial (cbsId : UInt16) : Inv (initial cbsId : State Fn Data FreeFn) := by
  constructor <;> simp [initial]

/-- Emptying slots keeps the invariant. -/
theorem Inv.clear {σ : State Fn Data FreeFn} (inv : Inv σ) (client : Callbacks Fn Data FreeFn)
    (fewer : ∀ i cb, client.cbs i = some cb → σ.client.cbs i = some cb) :
    Inv { σ with client } where
  packed i cb stored := inv.packed i cb (fewer i cb stored)
  apart i j cb cb' left right := inv.apart i j cb cb' (fewer i cb left) (fewer j cb' right)
  unfired i cb stored := inv.unfired i cb (fewer i cb stored)
  created := inv.created
  once := inv.once

theorem Inv.lt_length {σ : State Fn Data FreeFn} (inv : Inv σ) {i : Fin 4}
    {cb : ClientCb Fn Data FreeFn} (stored : σ.client.cbs i = some cb) :
    σ.creation i < σ.returned.length :=
  (List.getElem?_eq_some_iff.mp (inv.packed i cb stored)).1

/-- A creation fills one slot with the next creation number. -/
theorem Inv.new {σ : State Fn Data FreeFn} (inv : Inv σ) (i : Fin 4)
    (cb : ClientCb Fn Data FreeFn) (cbsId : UInt16) :
    Inv { client := { cbs := Function.update σ.client.cbs i (some cb), cbsId }
          returned := σ.returned ++ [packCb i cb.id]
          creation := Function.update σ.creation i σ.returned.length
          fired := σ.fired } := by
  constructor
  · intro j cb' stored
    by_cases same : j = i
    · subst same
      -- the new callback is the last that was returned
      simp only [Function.update_self, Option.some.injEq] at stored
      subst stored
      simp
    · simp only [Function.update_of_ne same] at stored ⊢
      -- an older one is where it was
      rw [List.getElem?_append_left (inv.lt_length stored)]
      exact inv.packed j cb' stored
  · intro j k cb' cb'' left right same
    by_cases atJ : j = i
    · by_cases atK : k = i
      · -- a creation number that is new cannot be an old one
        exact atJ.trans atK.symm
      · subst atJ
        simp only [Function.update_self, Function.update_of_ne atK] at right same
        exact absurd (inv.lt_length right) (same ▸ Nat.lt_irrefl _)
    · by_cases atK : k = i
      · subst atK
        simp only [Function.update_self, Function.update_of_ne atJ] at left same
        exact absurd (inv.lt_length left) (same ▸ Nat.lt_irrefl _)
      · simp only [Function.update_of_ne atJ, Function.update_of_ne atK] at left right same
        exact inv.apart j k cb' cb'' left right same
  · intro j cb' stored
    by_cases same : j = i
    · subst same
      simp only [Function.update_self]
      -- what has fired was created before
      exact fun member => Nat.lt_irrefl _ (inv.created _ member)
    · simp only [Function.update_of_ne same] at stored ⊢
      exact inv.unfired j cb' stored
  · intro n member
    -- one more has been created
    have earlier := inv.created n member
    simp only [List.length_append, List.length_singleton]
    omega
  · exact inv.once

/-- Running the callback of a slot empties that slot. -/
theorem Inv.ran {σ : State Fn Data FreeFn} (inv : Inv σ) {i : Fin 4}
    {cb : ClientCb Fn Data FreeFn} (stored : σ.client.cbs i = some cb) :
    Inv { σ with client := cbRemove σ.client i, fired := σ.creation i :: σ.fired } := by
  -- every slot but the emptied one is as it was
  have fewer : ∀ j cb', (cbRemove σ.client i).cbs j = some cb' →
      σ.client.cbs j = some cb' ∧ j ≠ i := by
    intro j cb' left
    by_cases same : j = i
    · subst same
      simp [cbRemove] at left
    · simp only [cbRemove, Function.update_of_ne same] at left
      exact ⟨left, same⟩
  have cleared := inv.clear (cbRemove σ.client i) fun j cb' left => (fewer j cb' left).1
  refine ⟨cleared.packed, cleared.apart, ?_, ?_, ?_⟩
  · intro j cb' left member
    obtain ⟨before, other⟩ := fewer j cb' left
    rcases List.mem_cons.mp member with same | member
    · -- two slots with one creation would be the same
      exact other (inv.apart j i cb' cb before stored same)
    · exact inv.unfired j cb' before member
  · intro n member
    rcases List.mem_cons.mp member with rfl | member
    · exact inv.lt_length stored
    · exact inv.created n member
  · exact List.nodup_cons.mpr ⟨inv.unfired i cb stored, inv.once⟩

theorem inv_step (σ : State Fn Data FreeFn) (l : Label Fn Data FreeFn) (inv : Inv σ) :
    Inv (step σ l) := by
  cases l with
  | new random now cbFn cbData freeFn =>
    cases cbFn with
    | none => exact inv
    | some cbFn =>
      exact inv.new (newSlot σ.client random)
        { id := nextCbId σ.client.cbsId, cbFn, cbData, freeFn, created := now } _
  | fire serverCb clientCb json =>
    rcases clientCbFire_cases σ.client serverCb clientCb json with ⟨i, cb, stored, ran⟩ | missed
    · simp only [step, ran]
      exact inv.ran stored
    · simp only [step, missed, noSuchCb]
      exact inv
  | prune before =>
    refine inv.clear _ fun i cb stored => ?_
    exact (Option.filter_eq_some_iff.mp stored).1

/-- In every reachable state no callback has run twice, and firing a number
does what it was returned for exactly when it is not aliased. -/
theorem client_cb_fire_iff (σ : State Fn Data FreeFn)
    (reached : (system Fn Data FreeFn).Reachable σ) :
    σ.fired.Nodup ∧
    ∀ v clientCb json, FiresOwn σ v clientCb json ↔ Unaliased σ.client v := by
  have inv : Inv σ := by
    refine (system Fn Data FreeFn).reachable_invariant Inv ?_ ?_ σ reached
    · rintro σ ⟨cbsId, rfl⟩
      exact inv_initial cbsId
    · intro σ l τ inv stepped
      cases stepped
      exact inv_step σ l inv
  -- Among the stored callbacks the returned values are the packed ids.
  have holds_iff : ∀ v i cb, Holds σ v i cb ↔ σ.client.cbs i = some cb ∧ packCb i cb.id = v := by
    intro v i cb
    constructor
    · rintro ⟨stored, returned⟩
      rw [inv.packed i cb stored] at returned
      exact ⟨stored, Option.some.inj returned⟩
    · rintro ⟨stored, rfl⟩
      exact ⟨stored, inv.packed i cb stored⟩
  refine ⟨inv.once, fun v clientCb json => ⟨fun fires => ?_, fun clear => ⟨?_, ?_⟩⟩⟩
  · refine or_iff_not_imp_left.mpr fun large i cb stored packed => ?_
    have unheld : ∀ i cb, ¬Holds σ v i cb := by
      intro j cb' held
      obtain ⟨-, rfl⟩ := (holds_iff v j cb').mp held
      exact large (packCb_lt j cb'.id)
    have missed := fires.other unheld
    rw [clientCbFire_hit σ.client v clientCb json i cb stored packed] at missed
    cases congrArg (fun result => result.2.1) missed
  · intro i cb held
    obtain ⟨stored, rfl⟩ := (holds_iff v i cb).mp held
    exact clientCbFire_hit σ.client _ clientCb json i cb stored
      (Nat.mod_eq_of_lt (packCb_lt i cb.id))
  · intro unheld
    refine clientCbFire_miss σ.client v clientCb json fun i cb stored packed => ?_
    rcases clear with small | unnamed
    · rw [Nat.mod_eq_of_lt small] at packed
      exact unheld i cb ((holds_iff v i cb).mpr ⟨stored, (UInt64.toNat_inj.mp packed).symm⟩)
    · exact unnamed i cb stored packed

/-- A client after one `client_cb_new`, which returned 1. -/
def created : State Unit Unit Unit := step (initial 0) (.new 0 0 (some ()) none none)

theorem created_reachable : (system Unit Unit Unit).Reachable created :=
  ⟨initial 0, [.new 0 0 (some ()) none none], ⟨0, rfl⟩, rfl⟩

theorem client_cb_fire_iff_created :
    Unaliased created.client 1 ∧ FiresOwn created 1 7 [] := by
  have clear : Unaliased created.client 1 := Or.inl (by decide)
  exact ⟨clear, ((client_cb_fire_iff created created_reachable).2 1 7 []).mpr clear⟩

/-- 2³² + 1 was never returned and still runs the callback that 1 names. -/
theorem client_cb_fire_aliased :
    ¬∀ (σ : State Unit Unit Unit), (system Unit Unit Unit).Reachable σ →
      ∀ v clientCb json, FiresOwn σ v clientCb json := by
  intro claim
  have fires := claim created created_reachable (2 ^ 32 + 1) 7 []
  have unheld : ∀ i cb, ¬Holds created (2 ^ 32 + 1) i cb := by
    rintro i cb ⟨-, returned⟩
    have only := List.mem_of_getElem? returned
    revert only
    decide
  have missed := congrArg (fun result => result.1.cbs 0) (fires.other unheld)
  have stored : (created.client.cbs 0).isSome := by decide
  have emptied : (clientCbFire created.client (2 ^ 32 + 1) 7 []).1.cbs 0 = none := by rfl
  rw [emptied] at missed
  rw [← missed] at stored
  cases stored

end CbRun

end QuickIO
