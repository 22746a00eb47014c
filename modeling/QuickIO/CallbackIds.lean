import QuickIO.Callbacks

/-!
# Callback ids over a run

The ids of a client's callbacks come from a counter that goes through 1 to 65535 and round
again. So fewer than 65535 creations apart they are different, and a callback that is gone
cannot be fired by its id while fewer than 65535 callbacks have been created after it.
-/
namespace QuickIO

namespace CbRun

variable {Fn Data FreeFn : Type}

/-- The id of the `n`-th creation, for a counter that stood at `cbsId`. -/
def idAt (cbsId : UInt16) (n : Nat) : Nat := (cbsId.toNat + n) % 65535 + 1

theorem nextCbId_toNat (cbsId : UInt16) : (nextCbId cbsId).toNat = cbsId.toNat % 65535 + 1 := by
  have small := cbsId.toNat_lt
  have sum : (cbsId + 1).toNat = (cbsId.toNat + 1) % 65536 := by
    rw [UInt16.toNat_add]
    rfl
  rw [nextCbId]
  split
  next wrapped =>
    -- the counter was at its end and comes to 0
    have zero : (cbsId + 1).toNat < 1 := UInt16.lt_iff_toNat_lt.mp wrapped
    rw [sum] at zero
    have last : cbsId.toNat = 65535 := by omega
    rw [last]
    rfl
  next above =>
    have positive : 1 ≤ (cbsId + 1).toNat := by
      have atMost := UInt16.not_lt.mp above
      exact UInt16.le_iff_toNat_le.mp atMost
    rw [sum] at positive ⊢
    omega

/-- Fewer than 65535 creations apart, ids are different. -/
theorem idAt_ne (cbsId : UInt16) {m n : Nat} (later : m < n) (near : n < m + 65535) :
    idAt cbsId m ≠ idAt cbsId n := by
  unfold idAt
  omega

theorem idAt_bounds (cbsId : UInt16) (n : Nat) : 0 < idAt cbsId n ∧ idAt cbsId n < 2 ^ 16 := by
  unfold idAt
  omega

/-- What a run from a counter at `cbsId` keeps: the counter is at the last id, every
returned value packs the id of its creation, and a slot holds the last callback that was
put in it. -/
structure Counted (cbsId : UInt16) (σ : State Fn Data FreeFn) : Prop where
  inv : Inv σ
  counter : (nextCbId σ.client.cbsId).toNat = idAt cbsId σ.returned.length
  ids : ∀ n v, σ.returned[n]? = some v →
    ∃ i id, v = packCb i id ∧ id.toNat = idAt cbsId n
  last : ∀ i cb n id, σ.client.cbs i = some cb → σ.returned[n]? = some (packCb i id) →
    n ≤ σ.creation i

theorem packCb_inj {i j : Fin 4} {id id' : UInt16} (same : packCb i id = packCb j id') :
    i = j ∧ id = id' := by
  have small := id.toNat_lt
  have small' := id'.toNat_lt
  have values := congrArg UInt64.toNat same
  rw [packCb_toNat, packCb_toNat] at values
  constructor
  · apply Fin.ext
    omega
  · rw [← UInt16.toNat_inj]
    omega

theorem packCb_ne_zero {i : Fin 4} {id : UInt16} (positive : 0 < id.toNat) :
    packCb i id ≠ evsNoCallback := by
  intro zero
  have value := congrArg UInt64.toNat zero
  rw [packCb_toNat] at value
  have none : evsNoCallback.toNat = 0 := rfl
  omega

theorem counted_initial (cbsId : UInt16) :
    Counted cbsId (initial cbsId : State Fn Data FreeFn) where
  inv := inv_initial cbsId
  counter := nextCbId_toNat cbsId
  ids n v returned := by simp [initial] at returned
  last i cb n id stored := by simp [initial] at stored

/-- Emptying slots keeps it. -/
theorem Counted.clear {cbsId : UInt16} {σ τ : State Fn Data FreeFn} (counted : Counted cbsId σ)
    (inv : Inv τ) (counter : τ.client.cbsId = σ.client.cbsId) (returned : τ.returned = σ.returned)
    (creation : τ.creation = σ.creation)
    (fewer : ∀ i cb, τ.client.cbs i = some cb → σ.client.cbs i = some cb) : Counted cbsId τ where
  inv := inv
  counter := by rw [counter, returned]; exact counted.counter
  ids := by rw [returned]; exact counted.ids
  last i cb n id stored := by
    rw [returned, creation]
    exact counted.last i cb n id (fewer i cb stored)

/-- A creation takes the next id. -/
theorem Counted.new {cbsId : UInt16} {σ : State Fn Data FreeFn} (counted : Counted cbsId σ)
    (i : Fin 4) (cb : ClientCb Fn Data FreeFn) (next : cb.id = nextCbId σ.client.cbsId) :
    Counted cbsId
      { client := { cbs := Function.update σ.client.cbs i (some cb),
                    cbsId := nextCbId σ.client.cbsId }
        returned := σ.returned ++ [packCb i cb.id]
        creation := Function.update σ.creation i σ.returned.length
        fired := σ.fired } where
  inv := counted.inv.new i cb _
  counter := by
    rw [nextCbId_toNat, counted.counter, List.length_append, List.length_singleton]
    unfold idAt
    omega
  ids n v returned := by
    rcases Nat.lt_trichotomy n σ.returned.length with before | rfl | after
    · rw [List.getElem?_append_left before] at returned
      exact counted.ids n v returned
    · rw [List.getElem?_concat_length, Option.some.injEq] at returned
      exact ⟨i, cb.id, returned.symm, by rw [next, counted.counter]⟩
    · rw [List.getElem?_eq_none (by simp; omega)] at returned
      cases returned
  last j cb' n id stored returned := by
    have bound : n < σ.returned.length + 1 := by
      have inside := (List.getElem?_eq_some_iff.mp returned).1
      simpa using inside
    by_cases same : j = i
    · -- the new callback is the last of all
      subst same
      simp only [Function.update_self]
      omega
    · simp only [Function.update_of_ne same] at stored ⊢
      rcases Nat.lt_or_eq_of_le (Nat.lt_succ_iff.mp bound) with before | rfl
      · rw [List.getElem?_append_left before] at returned
        exact counted.last j cb' n id stored returned
      · -- and it is in another slot
        rw [List.getElem?_concat_length, Option.some.injEq] at returned
        exact absurd (packCb_inj returned).1.symm same

theorem counted_step {cbsId : UInt16} (σ : State Fn Data FreeFn) (l : Label Fn Data FreeFn)
    (counted : Counted cbsId σ) : Counted cbsId (step σ l) := by
  have inv := inv_step σ l counted.inv
  cases l with
  | new random now cbFn cbData freeFn =>
    cases cbFn with
    | none => exact counted
    | some cbFn =>
      exact counted.new (newSlot σ.client random)
        { id := nextCbId σ.client.cbsId, cbFn, cbData, freeFn, created := now } rfl
  | fire serverCb clientCb json =>
    rcases clientCbFire_cases σ.client serverCb clientCb json with ⟨i, cb, stored, ran⟩ | missed
    · simp only [step, ran] at inv ⊢
      refine counted.clear inv rfl rfl rfl fun j cb' left => ?_
      by_cases same : j = i
      · subst same
        simp [cbRemove] at left
      · simpa only [cbRemove, Function.update_of_ne same] using left
    · simp only [step, missed, noSuchCb] at inv ⊢
      exact counted
  | prune before =>
    refine counted.clear inv rfl rfl rfl fun i cb left => ?_
    exact (Option.filter_eq_some_iff.mp left).1

/-- The callback of a creation has fired, or was evicted or pruned: no slot holds it. -/
def Gone (σ : State Fn Data FreeFn) (n : Nat) : Prop :=
  n < σ.returned.length ∧ ∀ i cb, σ.client.cbs i = some cb → σ.creation i ≠ n

/-- What has fired is gone. -/
theorem Inv.gone_of_fired {σ : State Fn Data FreeFn} (inv : Inv σ) {n : Nat} (fired : n ∈ σ.fired) :
    Gone σ n :=
  ⟨inv.created n fired, fun i cb stored same => inv.unfired i cb stored (same ▸ fired)⟩

/-- What is gone stays gone. -/
theorem gone_step (σ : State Fn Data FreeFn) (l : Label Fn Data FreeFn) (n : Nat)
    (gone : Gone σ n) : Gone (step σ l) n := by
  obtain ⟨created, absent⟩ := gone
  cases l with
  | new random now cbFn cbData freeFn =>
    cases cbFn with
    | none => exact ⟨created, absent⟩
    | some cbFn =>
      refine ⟨?_, fun i cb stored => ?_⟩
      · simp only [step, List.length_append]
        omega
      · simp only [step, clientCbNew] at stored ⊢
        by_cases same : i = newSlot σ.client random
        · -- the slot is for a creation that was not there yet
          rw [same, Function.update_self]
          omega
        · rw [Function.update_of_ne same] at stored ⊢
          exact absent i cb stored
  | fire serverCb clientCb json =>
    rcases clientCbFire_cases σ.client serverCb clientCb json with ⟨i, cb, stored, ran⟩ | missed
    · simp only [step, ran]
      refine ⟨created, fun j cb' left => ?_⟩
      by_cases same : j = i
      · subst same
        simp [cbRemove] at left
      · simp only [cbRemove, Function.update_of_ne same] at left
        exact absent j cb' left
    · simp only [step, missed, noSuchCb]
      exact ⟨created, absent⟩
  | prune before =>
    exact ⟨created, fun i cb left => absent i cb (Option.filter_eq_some_iff.mp left).1⟩

/-- Firing the value of a creation that is gone runs nothing, unless a later creation took
its id: the slot it was in holds only later ones. -/
theorem Counted.fire_gone {cbsId : UInt16} {τ : State Fn Data FreeFn} (counted : Counted cbsId τ)
    {n : Nat} (gone : Gone τ n) (few : τ.returned.length ≤ n + 65535) {v : EvsCb}
    (returned : τ.returned[n]? = some v) (clientCb : EvsCb) (json : Bytes) :
    clientCbFire τ.client v clientCb json = (τ.client, noSuchCb clientCb, []) := by
  refine clientCbFire_miss τ.client v clientCb json fun i cb stored packed => ?_
  obtain ⟨j, id, rfl, value⟩ := counted.ids n v returned
  rw [Nat.mod_eq_of_lt (packCb_lt j id)] at packed
  have same := UInt64.toNat_inj.mp packed
  rw [same] at returned
  -- the slot holds a creation with the same id, and not an earlier one
  have held := counted.inv.packed i cb stored
  have earlier := counted.last i cb n cb.id stored returned
  have other := gone.2 i cb stored
  have inside := counted.inv.lt_length stored
  obtain ⟨k, id', packs, value'⟩ := counted.ids _ _ held
  rw [← (packCb_inj packs).2, ← (packCb_inj same).2, value] at value'
  exact idAt_ne cbsId (by omega : n < τ.creation i) (by omega) value'

theorem counted_run {cbsId : UInt16} {σ τ : State Fn Data FreeFn} {ls : List (Label Fn Data FreeFn)}
    (counted : Counted cbsId σ) (ran : (system Fn Data FreeFn).run σ ls = some τ) :
    Counted cbsId τ := by
  refine (system Fn Data FreeFn).run_invariant (Counted cbsId) ?_ σ τ ls counted ran
  intro σ l τ counted stepped
  cases stepped
  exact counted_step σ l counted

theorem gone_run {σ τ : State Fn Data FreeFn} {ls : List (Label Fn Data FreeFn)} {n : Nat}
    (gone : Gone σ n) (ran : (system Fn Data FreeFn).run σ ls = some τ) : Gone τ n := by
  refine (system Fn Data FreeFn).run_invariant (fun σ => Gone σ n) ?_ σ τ ls gone ran
  intro σ l τ gone stepped
  cases stepped
  exact gone_step σ l n gone

/-- Nothing that was returned before changes. -/
theorem returned_step (σ : State Fn Data FreeFn) (l : Label Fn Data FreeFn) :
    σ.returned <+: (step σ l).returned := by
  cases l with
  | new random now cbFn cbData freeFn =>
    cases cbFn with
    | none => exact List.prefix_refl _
    | some cbFn => exact List.prefix_append _ _
  | fire serverCb clientCb json =>
    rcases clientCbFire_cases σ.client serverCb clientCb json with ⟨i, cb, stored, ran⟩ | missed
    · simp only [step, ran]
      exact List.prefix_refl _
    · simp only [step, missed, noSuchCb]
      exact List.prefix_refl _
  | prune before => exact List.prefix_refl _

theorem returned_run {σ τ : State Fn Data FreeFn} {ls : List (Label Fn Data FreeFn)}
    (ran : (system Fn Data FreeFn).run σ ls = some τ) : σ.returned <+: τ.returned := by
  refine (system Fn Data FreeFn).run_invariant (fun υ => σ.returned <+: υ.returned) ?_ σ τ ls
    (List.prefix_refl _) ran
  intro υ l τ kept stepped
  cases stepped
  exact kept.trans (returned_step υ l)

/-- Callback ids are not reused early: in every run, from every value of the counter, no
returned id is `EVS_NO_CALLBACK`, ids fewer than 65535 creations apart are different, and
the id of a callback that has fired, or was evicted or pruned, fires nothing while fewer
than 65535 callbacks have been created after that callback. -/
theorem callback_ids (cbsId : UInt16) (σ : State Fn Data FreeFn) (ls : List (Label Fn Data FreeFn))
    (ran : (system Fn Data FreeFn).run (initial cbsId) ls = some σ) :
    (∀ v ∈ σ.returned, v ≠ evsNoCallback) ∧
    (∀ m n v w, m < n → n < m + 65535 → σ.returned[m]? = some v → σ.returned[n]? = some w →
      v ≠ w) ∧
    ∀ n v, Gone σ n → σ.returned[n]? = some v →
      ∀ ms τ, (system Fn Data FreeFn).run σ ms = some τ →
        τ.returned.length - (n + 1) < 65535 →
        ∀ clientCb json, clientCbFire τ.client v clientCb json = (τ.client, noSuchCb clientCb, []) := by
  have counted := counted_run (counted_initial cbsId) ran
  refine ⟨?_, ?_, ?_⟩
  · intro v member
    obtain ⟨n, inside, rfl⟩ := List.getElem_of_mem member
    obtain ⟨i, id, packs, value⟩ := counted.ids n _ (List.getElem?_eq_getElem inside)
    rw [packs]
    exact packCb_ne_zero (value ▸ (idAt_bounds cbsId n).1)
  · intro m n v w later near first second same
    obtain ⟨i, id, rfl, value⟩ := counted.ids m v first
    obtain ⟨j, id', rfl, value'⟩ := counted.ids n w second
    rw [(packCb_inj same).2, value'] at value
    exact idAt_ne cbsId later near value.symm
  · intro n v gone returned ms τ continued few clientCb json
    have still : τ.returned[n]? = some v := by
      obtain ⟨more, eq⟩ := returned_run continued
      rw [← eq, List.getElem?_append_left gone.1, returned]
    exact (counted_run counted continued).fire_gone (gone_run gone continued) (by omega) still
      clientCb json

/-- The first callback is pruned, and its id then fires nothing. -/
theorem callback_ids_pruned :
    ∃ σ : State Unit Unit Unit, (system Unit Unit Unit).run (initial 65535)
        [.new 0 5 (some ()) none none, .prune 6, .new 0 7 (some ()) none none] = some σ ∧
      σ.returned = [1, 2] ∧ (clientCbFire σ.client 1 9 []).2.1 = noSuchCb 9 := by
  have ran : (system Unit Unit Unit).run (initial 65535)
      [.new 0 5 (some ()) none none, .prune 6, .new 0 7 (some ()) none none] = some _ := rfl
  refine ⟨_, ran, by decide, ?_⟩
  have quiet := (callback_ids 65535 _ _ ran).2.2 0 1 ⟨by decide, by decide⟩ (by decide) [] _ rfl
    (by decide) 9 []
  rw [quiet]

/-! ### Counted from when the callback was gone -/

/-- A creation while every slot is taken, which evicts the second slot. -/
def evicting : Label Unit Unit Unit := .new 1 0 (some ()) none none

/-- Such creations leave the first slot alone. -/
theorem run_evicting (k : Nat) (σ : State Unit Unit Unit) (full : ∀ i, σ.client.cbs i ≠ none) :
    ∃ τ, (system Unit Unit Unit).run σ (List.replicate k evicting) = some τ ∧
      (∀ i, τ.client.cbs i ≠ none) ∧ τ.client.cbs 0 = σ.client.cbs 0 ∧
      τ.creation 0 = σ.creation 0 ∧ τ.returned.length = σ.returned.length + k := by
  induction k generalizing σ with
  | zero => exact ⟨σ, rfl, full, rfl, rfl, rfl⟩
  | succ k ih =>
    have taken : newSlot σ.client 1 = 1 := by
      have none_free : ((List.finRange 4).find? fun i => (σ.client.cbs i).isNone) = none := by
        rw [List.find?_eq_none]
        intro i _
        simpa using full i
      rw [newSlot, none_free]
      rfl
    have other : (0 : Fin 4) ≠ 1 := by decide
    obtain ⟨τ, ran, full', first, creation, length⟩ := ih (step σ evicting) (by
      intro i
      simp only [step, evicting, clientCbNew, taken]
      by_cases same : i = 1
      · rw [same, Function.update_self]
        exact Option.some_ne_none _
      · rw [Function.update_of_ne same]
        exact full i)
    refine ⟨τ, ?_, full', first.trans ?_, creation.trans ?_, length.trans ?_⟩
    · rw [List.replicate_succ]
      exact ((system Unit Unit Unit).run_cons_iff σ τ evicting _).mpr ⟨_, rfl, ran⟩
    · simp only [step, evicting, clientCbNew, taken, Function.update_of_ne other]
    · simp only [step, evicting, taken, Function.update_of_ne other]
    · simp only [step, evicting, List.length_append, List.length_singleton]
      omega

/-- A creation, in the first slot that is free. -/
def creating : Label Unit Unit Unit := .new 0 0 (some ()) none none

/-- A client whose four slots have just been filled. -/
def filled : State Unit Unit Unit :=
  step (step (step (step (initial 0) creating) creating) creating) creating

theorem filled_run :
    (system Unit Unit Unit).run (initial 0) [creating, creating, creating, creating] = some filled :=
  rfl

theorem filled_full : ∀ i, filled.client.cbs i ≠ none := by
  have some_ : ∀ i, (filled.client.cbs i).isSome = true := by decide
  intro i none
  have here := some_ i
  rw [none] at here
  cases here

/-- The first of 65535 callbacks fires, and the next one gets its slot and its id: fired
again at once, the id runs that one. -/
theorem callback_ids_reused :
    ¬∀ (cbsId : UInt16) (σ : State Unit Unit Unit) (ls : List (Label Unit Unit Unit)),
      (system Unit Unit Unit).run (initial cbsId) ls = some σ →
        (∀ v ∈ σ.returned, v ≠ evsNoCallback) ∧
        (∀ m n v w, m < n → n < m + 65535 → σ.returned[m]? = some v → σ.returned[n]? = some w →
          v ≠ w) ∧
        ∀ n v, Gone σ n → σ.returned[n]? = some v →
          ∀ ms τ, (system Unit Unit Unit).run σ ms = some τ →
            τ.returned.length - σ.returned.length < 65535 →
            ∀ clientCb json,
              clientCbFire τ.client v clientCb json = (τ.client, noSuchCb clientCb, []) := by
  intro claim
  obtain ⟨τ, ran, -, first, creation, length⟩ := run_evicting 65531 filled filled_full
  have whole := ((system Unit Unit Unit).run_append_iff _ _ _ _).mpr ⟨filled, filled_run, ran⟩
  have counted := counted_run (counted_initial 0) whole
  -- the first callback fires
  have held : τ.client.cbs 0 = some ⟨1, (), none, none, 0⟩ := first.trans rfl
  have fires := clientCbFire_hit τ.client 1 9 [] 0 _ held rfl
  obtain ⟨υ, shot, client, returned', history⟩ : ∃ υ : State Unit Unit Unit,
      (system Unit Unit Unit).run τ [.fire 1 9 []] = some υ ∧ υ.client = cbRemove τ.client 0 ∧
        υ.returned = τ.returned ∧ υ.fired = 0 :: τ.fired := by
    refine ⟨step τ (.fire 1 9 []), rfl, ?_, ?_, ?_⟩
    · simp only [step, fires]
    · simp only [step, fires]
    · simp only [step, fires, creation]
      rfl
  have fired := ((system Unit Unit Unit).run_append_iff _ _ _ _).mpr ⟨τ, whole, shot⟩
  have gone : Gone υ 0 := by
    apply (counted_run (counted_initial 0) fired).inv.gone_of_fired
    rw [history]
    exact List.mem_cons_self
  have returned : υ.returned[0]? = some 1 := by
    obtain ⟨more, eq⟩ := returned_run ran
    rw [returned', ← eq]
    rfl
  -- one more is created, and gets the same id in the same slot
  have quiet := (claim 0 υ _ fired).2.2 0 1 gone returned [creating] _ rfl
    (by simp [step, creating]) 9 []
  have free : newSlot υ.client 0 = 0 := by
    have here : υ.client.cbs 0 = none := by simp [client, cbRemove]
    simp [newSlot, List.finRange_succ, here]
  have id : nextCbId υ.client.cbsId = 1 := by
    have same : υ.client.cbsId = τ.client.cbsId := by rw [client]; rfl
    rw [← UInt16.toNat_inj, same, counted.counter, length]
    rfl
  have stored : (step υ creating).client.cbs 0 = some ⟨1, (), none, none, 0⟩ := by
    simp only [step, creating, clientCbNew, free, Function.update_self, id]
  rw [clientCbFire_hit (step υ creating).client 1 9 [] 0 _ stored rfl] at quiet
  cases congrArg (fun result => result.2.1) quiet

end CbRun

end QuickIO
