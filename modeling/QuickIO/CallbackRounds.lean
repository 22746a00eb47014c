import QuickIO.CallbackAges
import QuickIO.HttpRounds
import QuickIO.Server

/-!
# The rounds of the callbacks

`periodic_run` takes the threshold when a round begins, and `client_cb_prune` goes by
it at each client, while applications create callbacks and clients answer them. So a
callback is called in time or not at all, and none is pruned before its time.
-/
namespace QuickIO

open Lib

namespace CallbackRounds

open HttpRounds (sampleRounds)

variable {Fn Data FreeFn : Type}

/-- The clients with their callbacks, those of them `qev_foreach` goes over, and the
round: its threshold, and whom it has not visited yet. -/
structure State (Fn Data FreeFn : Type) where
  now : Int64
  nextClient : ClientId
  callbacks : ClientId → Callbacks Fn Data FreeFn
  listed : List ClientId
  beganAt : Int
  before : Int
  left : List ClientId

inductive Label (Fn Data FreeFn : Type)
  | tick (usec : Nat)
  | opened
  | new (c : ClientId) (random : Fin 4) (cbFn : Option Fn) (cbData : Option Data)
      (freeFn : Option FreeFn)
  | fire (c : ClientId) (serverCb clientCb : EvsCb) (json : Bytes)
  | closed (c : ClientId)
  | freed (c : ClientId)
  | periodicRun (order : List ClientId)
  | visit (c : ClientId)

namespace State

variable (d : State Fn Data FreeFn)

def round : Rounds.Round ClientId := ⟨d.now.toInt, d.beganAt, d.left⟩

def setCallbacks (c : ClientId) (callbacks : Callbacks Fn Data FreeFn) : State Fn Data FreeFn :=
  { d with callbacks := Function.update d.callbacks c callbacks }

variable {d} in
theorem setCallbacks_self {c : ClientId} {callbacks : Callbacks Fn Data FreeFn} :
    (d.setCallbacks c callbacks).callbacks c = callbacks :=
  Function.update_self ..

variable {d} in
theorem setCallbacks_other {c other : ClientId} (apart : other ≠ c)
    {callbacks : Callbacks Fn Data FreeFn} :
    (d.setCallbacks c callbacks).callbacks other = d.callbacks other :=
  Function.update_of_ne apart ..

/-- Neither the round nor the next one is late. -/
def onTime (w : Rounds) (now : Int) : Bool :=
  now ≤ d.beganAt + w.period && (d.left = [] || now ≤ d.beganAt + w.lasts)

end State

/-- Nobody has connected, and a round has just ended. A client begins without callbacks. -/
def start (maxAge : UInt64) : State Fn Data FreeFn where
  now := 0
  nextClient := 0
  callbacks _ := { cbs := fun _ => none, cbsId := 0 }
  listed := []
  beganAt := 0
  before := (clientCbPruneGetBefore 0 maxAge).toInt
  left := []

variable (maxAge : UInt64) (w : Rounds)

def step (d : State Fn Data FreeFn) : Label Fn Data FreeFn → Option (State Fn Data FreeFn)
  -- The clock of `qev_monotonic` does not wrap.
  | .tick usec =>
    if d.now.toInt + usec < 2 ^ 63 ∧ d.onTime w (d.now.toInt + usec) = true then
      some { d with now := Int64.ofInt (d.now.toInt + usec) }
    else none
  | .opened =>
    some { d with nextClient := d.nextClient + 1, listed := d.nextClient :: d.listed }
  | .new c random cbFn cbData freeFn =>
    if c < d.nextClient then
      some (d.setCallbacks c
        (clientCbNew (d.callbacks c) random d.now.toInt cbFn cbData freeFn).1)
    else none
  | .fire c serverCb clientCb json =>
    some (d.setCallbacks c (clientCbFire (d.callbacks c) serverCb clientCb json).1)
  | .closed c =>
    some { d with listed := d.listed.filter (· != c), left := d.left.filter (· != c) }
  -- `client_free_all`, when nobody has a reference to the client any more
  | .freed c =>
    if c ∈ d.listed then none
    else some (d.setCallbacks c { d.callbacks c with cbs := fun _ => none })
  | .periodicRun order =>
    if d.left = [] ∧ order.Perm d.listed then
      some { d with
        beganAt := d.now.toInt
        before := (clientCbPruneGetBefore d.now maxAge).toInt
        left := order }
    else none
  | .visit c =>
    if c ∈ d.left then
      some { d.setCallbacks c (clientCbPrune (d.callbacks c) d.before).1 with
        left := d.left.erase c }
    else none

def system : TransitionSystem (State Fn Data FreeFn) (Label Fn Data FreeFn) where
  init d := d = start maxAge
  step := step maxAge w

/-- A step that does not answer the callback in the slot, does not evict it, and does
not free its client. -/
def spares (c : ClientId) (i : Fin 4) (cb : ClientCb Fn Data FreeFn) (d : State Fn Data FreeFn) :
    Label Fn Data FreeFn → Bool
  | .new other random cbFn _ _ =>
    other != c || cbFn.isNone || newSlot (d.callbacks c) random != i
  | .fire other serverCb _ _ =>
    other != c || serverCb.toNat % 2 ^ 32 != (packCb i cb.id).toNat
  | .freed other => other != c
  | _ => true

/-! ### The age that is kept -/

theorem keptAge_le (now : Int) (age : Nat) : keptAge now age ≤ age * 1000000 := by
  have whole := Int.emod_add_mul_ediv (age * 1000000) (2 ^ 64)
  have quotient : (0 : Int) ≤ age * 1000000 / 2 ^ 64 := Int.ediv_nonneg (by omega) (by decide)
  simp only [keptAge]
  split
  · omega
  · omega

/-! ### What is in the slots -/

/-- A client that is gone over has a callback that was created then. -/
def Created (d : State Fn Data FreeFn) (c : ClientId) (t : Int) : Prop :=
  c ∈ d.listed ∧ ∃ i cb, (d.callbacks c).cbs i = some cb ∧ cb.created = t

/-- After `client_cb_new` a slot holds what it held, or what was created now. -/
theorem clientCbNew_cbs (client : Callbacks Fn Data FreeFn) (random : Fin 4) (now : Int)
    (cbFn : Option Fn) (cbData : Option Data) (freeFn : Option FreeFn) (i : Fin 4) :
    (clientCbNew client random now cbFn cbData freeFn).1.cbs i = client.cbs i ∨
      (cbFn.isSome ∧ newSlot client random = i ∧
        ∃ cb, (clientCbNew client random now cbFn cbData freeFn).1.cbs i = some cb ∧
          cb.created = now) := by
  cases cbFn with
  | none => exact .inl rfl
  | some cbFn =>
    by_cases same : i = newSlot client random
    · subst same
      exact .inr ⟨rfl, rfl, _, Function.update_self .., rfl⟩
    · exact .inl (Function.update_of_ne same ..)

/-- After `client_cb_fire` a slot holds what it held, or nothing. -/
theorem clientCbFire_cbs (client : Callbacks Fn Data FreeFn) (serverCb clientCb : EvsCb)
    (json : Bytes) (i : Fin 4) :
    (clientCbFire client serverCb clientCb json).1.cbs i = client.cbs i ∨
      (clientCbFire client serverCb clientCb json).1.cbs i = none := by
  rcases clientCbFire_cases client serverCb clientCb json with ⟨slot, cb, -, fired⟩ | missed
  · rw [fired]
    by_cases same : i = slot
    · subst same
      exact .inr (Function.update_self ..)
    · exact .inl (Function.update_of_ne same ..)
  · rw [missed]
    exact .inl rfl

/-- A number that does not name the callback leaves it in its slot. -/
theorem clientCbFire_spares {client : Callbacks Fn Data FreeFn} {serverCb : EvsCb} {i : Fin 4}
    {cb : ClientCb Fn Data FreeFn} (stored : client.cbs i = some cb)
    (other : serverCb.toNat % 2 ^ 32 ≠ (packCb i cb.id).toNat) (clientCb : EvsCb) (json : Bytes) :
    (clientCbFire client serverCb clientCb json).1.cbs i = some cb := by
  by_cases hit : ∃ j cb', client.cbs j = some cb' ∧
      serverCb.toNat % 2 ^ 32 = (packCb j cb'.id).toNat
  · obtain ⟨j, cb', there, packed⟩ := hit
    rw [clientCbFire_hit client serverCb clientCb json j cb' there packed]
    have apart : i ≠ j := by
      rintro rfl
      cases stored.symm.trans there
      exact other packed
    exact (Function.update_of_ne apart ..).trans stored
  · rw [clientCbFire_miss client serverCb clientCb json fun j cb' there packed =>
      hit ⟨j, cb', there, packed⟩]
    exact stored

theorem clientCbPrune_cbs_iff {client : Callbacks Fn Data FreeFn} {before : Int} {i : Fin 4}
    {cb : ClientCb Fn Data FreeFn} :
    (clientCbPrune client before).1.cbs i = some cb ↔
      client.cbs i = some cb ∧ before ≤ cb.created := by
  simp [clientCbPrune, Option.filter_eq_some_iff]

/-! ### The invariant -/

variable {maxAge : UInt64} {w : Rounds} {d d' : State Fn Data FreeFn} {l : Label Fn Data FreeFn}

/-- Between any two steps, those of a round included. -/
structure Inv (maxAge : UInt64) (w : Rounds) (d : State Fn Data FreeFn) : Prop where
  inTime : w.InTime d.round
  clock : 0 ≤ d.beganAt
  threshold : d.before = d.beganAt - keptAge d.beganAt maxAge.toNat
  fresh : ∀ c i cb, (d.callbacks c).cbs i = some cb → c < d.nextClient
  young : w.Since (maxAge.toNat * 1000000) d.round (Created d)

theorem inv_start : Inv maxAge w (start maxAge : State Fn Data FreeFn) where
  inTime := Rounds.InTime.start 0 []
  clock := le_refl _
  threshold := clientCbPruneGetBefore_toInt 0 maxAge
  fresh c i cb stored := by cases stored
  young := by
    constructor
    · rintro c t ⟨member, -⟩
      cases member
    · rintro c t ⟨member, -⟩
      cases member

/-- The callbacks of one client change: there are fewer, or some were created now. -/
theorem Inv.setCallbacks (inv : Inv maxAge w d) (c : ClientId)
    (callbacks : Callbacks Fn Data FreeFn)
    (stored : ∀ i cb, callbacks.cbs i = some cb →
      (d.callbacks c).cbs i = some cb ∨ (c < d.nextClient ∧ cb.created = d.now.toInt)) :
    Inv maxAge w (d.setCallbacks c callbacks) := by
  refine ⟨inv.inTime, inv.clock, inv.threshold, fun other i cb there => ?_,
    inv.young.keep inv.inTime (by omega) ?_⟩
  · by_cases same : other = c
    · subst same
      rw [State.setCallbacks_self] at there
      rcases stored i cb there with old | new
      · exact inv.fresh other i cb old
      · exact new.1
    · rw [State.setCallbacks_other same] at there
      exact inv.fresh other i cb there
  · rintro other t ⟨member, i, cb, there, rfl⟩
    by_cases same : other = c
    · subst same
      rw [State.setCallbacks_self] at there
      rcases stored i cb there with old | new
      · exact .inl ⟨member, i, cb, old, rfl⟩
      · exact .inr new.2
    · rw [State.setCallbacks_other same] at there
      exact .inl ⟨member, i, cb, there, rfl⟩

/-- Time goes by. -/
theorem Inv.tick (inv : Inv maxAge w d) {usec : Nat} (clock : d.now.toInt + usec < 2 ^ 63)
    (onTime : d.onTime w (d.now.toInt + usec) = true) :
    Inv maxAge w { d with now := Int64.ofInt (d.now.toInt + usec) } := by
  have low := d.now.le_toInt
  have now : (Int64.ofInt (d.now.toInt + usec)).toInt = d.now.toInt + usec :=
    Int64.toInt_ofInt_of_le (by omega) clock
  obtain ⟨soon, rest⟩ := Bool.and_eq_true_iff.mp onTime
  refine ⟨?_, inv.clock, inv.threshold, inv.fresh, ⟨inv.young.visited, inv.young.waiting⟩⟩
  simp only [State.round, now]
  refine inv.inTime.tick (Int.le_add_of_nonneg_right (Int.natCast_nonneg usec))
    (of_decide_eq_true soon) fun more => ?_
  rcases Bool.or_eq_true_iff.mp rest with done | early
  · exact absurd (of_decide_eq_true done) more
  · exact of_decide_eq_true early

/-- A client is gone over no more. -/
theorem Inv.closed (inv : Inv maxAge w d) (c : ClientId) :
    Inv maxAge w
      { d with listed := d.listed.filter (· != c), left := d.left.filter (· != c) } := by
  have fewer : ∀ x t,
      Created { d with listed := d.listed.filter (· != c), left := d.left.filter (· != c) } x t →
      Created d x t ∧ x ≠ c := by
    rintro x t ⟨member, stored⟩
    obtain ⟨here, other⟩ := List.mem_filter.mp member
    exact ⟨⟨here, stored⟩, by simpa using other⟩
  refine ⟨inv.inTime.visit ?_, inv.clock, inv.threshold, inv.fresh, ?_, ?_⟩
  · rintro more (none_ : d.left = [])
    exact more (by simp [none_])
  · intro x t here gone
    obtain ⟨before, other⟩ := fewer x t here
    refine inv.young.visited x t before fun member => gone ?_
    exact List.mem_filter.mpr ⟨member, by simpa using other⟩
  · intro x t here
    exact inv.young.waiting x t (fewer x t here).1

/-- A round begins. -/
theorem Inv.periodicRun (inv : Inv maxAge w d) {order : List ClientId} (ended : d.left = [])
    (all : order.Perm d.listed) :
    Inv maxAge w { d with
      beganAt := d.now.toInt
      before := (clientCbPruneGetBefore d.now maxAge).toInt
      left := order } where
  inTime := Rounds.InTime.start d.now.toInt order
  clock := inv.clock.trans inv.inTime.past
  threshold := clientCbPruneGetBefore_toInt d.now maxAge
  fresh := inv.fresh
  young := inv.young.start inv.inTime ended fun _ _ here => all.mem_iff.mpr here.1

/-- A client is visited. -/
theorem Inv.visit (inv : Inv maxAge w d) (c : ClientId) :
    Inv maxAge w { d.setCallbacks c (clientCbPrune (d.callbacks c) d.before).1 with
      left := d.left.erase c } := by
  have after := inv.setCallbacks c (clientCbPrune (d.callbacks c) d.before).1
    fun i cb stored => .inl (clientCbPrune_cbs_iff.mp stored).1
  refine ⟨after.inTime.visit ?_, inv.clock, inv.threshold, after.fresh,
    after.young.visit c ?_ ?_⟩
  · rintro more (none_ : d.left = [])
    exact more (by simp [none_])
  · exact fun y member other => (List.mem_erase_of_ne other).mpr member
  · -- What the threshold leaves is not older than the age.
    rintro t ⟨-, i, cb, stored, rfl⟩
    rw [State.setCallbacks_self, clientCbPrune_cbs_iff, inv.threshold] at stored
    have kept := keptAge_le d.beganAt maxAge.toNat
    have young := stored.2
    simp only [State.round, State.setCallbacks]
    omega

theorem inv_step (inv : Inv maxAge w d) (stepped : step maxAge w d l = some d') :
    Inv maxAge w d' := by
  cases l with
  | tick usec =>
    obtain ⟨⟨clock, onTime⟩, ⟨⟩⟩ := Option.ite_none_right_eq_some.mp stepped
    exact inv.tick clock onTime
  | opened =>
    cases stepped
    have known := inv.fresh
    refine ⟨inv.inTime, inv.clock, inv.threshold, fun c i cb stored => ?_,
      inv.young.keep inv.inTime (by omega) ?_⟩
    · exact Nat.lt_succ_of_lt (known c i cb stored)
    · rintro c t ⟨member, i, cb, stored, rfl⟩
      have other : c ≠ d.nextClient := Nat.ne_of_lt (known c i cb stored)
      exact .inl ⟨List.mem_of_ne_of_mem other member, i, cb, stored, rfl⟩
  | new c random cbFn cbData freeFn =>
    obtain ⟨there, ⟨⟩⟩ := Option.ite_none_right_eq_some.mp stepped
    apply inv.setCallbacks
    intro i cb stored
    rcases clientCbNew_cbs (d.callbacks c) random d.now.toInt cbFn cbData freeFn i with
      same | ⟨-, -, cb', new, created⟩
    · exact .inl (same ▸ stored)
    · cases new.symm.trans stored
      exact .inr ⟨there, created⟩
  | fire c serverCb clientCb json =>
    cases stepped
    apply inv.setCallbacks
    intro i cb stored
    rcases clientCbFire_cbs (d.callbacks c) serverCb clientCb json i with same | gone
    · exact .inl (same ▸ stored)
    · cases gone.symm.trans stored
  | closed c =>
    cases stepped
    exact inv.closed c
  | freed c =>
    obtain ⟨-, same⟩ := Option.ite_none_left_eq_some.mp stepped
    cases same
    apply inv.setCallbacks
    intro i cb stored
    cases stored
  | periodicRun order =>
    obtain ⟨⟨ended, all⟩, ⟨⟩⟩ := Option.ite_none_right_eq_some.mp stepped
    exact inv.periodicRun ended all
  | visit c =>
    obtain ⟨-, ⟨⟩⟩ := Option.ite_none_right_eq_some.mp stepped
    exact inv.visit c

/-! ### What is left alone -/

theorem step_later (stepped : step maxAge w d l = some d') : d.now.toInt ≤ d'.now.toInt := by
  cases l with
  | tick usec =>
    obtain ⟨⟨clock, -⟩, ⟨⟩⟩ := Option.ite_none_right_eq_some.mp stepped
    have low := d.now.le_toInt
    rw [Int64.toInt_ofInt_of_le (by omega) clock]
    omega
  | opened | fire | closed =>
    cases stepped
    exact le_refl _
  | new | periodicRun | visit =>
    obtain ⟨-, ⟨⟩⟩ := Option.ite_none_right_eq_some.mp stepped
    exact le_refl _
  | freed =>
    obtain ⟨-, same⟩ := Option.ite_none_left_eq_some.mp stepped
    cases same
    exact le_refl _

theorem run_later {ls : List (Label Fn Data FreeFn)} (ran : (system maxAge w).run d ls = some d') :
    d.now.toInt ≤ d'.now.toInt :=
  (system maxAge w).run_invariant (fun e => d.now.toInt ≤ e.now.toInt)
    (fun _ _ _ later stepped => later.trans (step_later stepped)) d d' ls (le_refl _) ran

/-- The callbacks of one client change, but not this one. -/
theorem setCallbacks_spares {c other : ClientId} {i : Fin 4} {cb : ClientCb Fn Data FreeFn}
    (stored : (d.callbacks c).cbs i = some cb) {callbacks : Callbacks Fn Data FreeFn}
    (spared : other = c → callbacks.cbs i = some cb) :
    ((d.setCallbacks other callbacks).callbacks c).cbs i = some cb := by
  by_cases same : c = other
  · subst same
    rw [State.setCallbacks_self]
    exact spared rfl
  · rw [State.setCallbacks_other same]
    exact stored

/-- A callback that a step spares is in its slot afterwards, or was too old. -/
theorem step_spares (inv : Inv maxAge w d) (fits : maxAge.toNat * 1000000 ≤ 2 ^ 63)
    {c : ClientId} {i : Fin 4} {cb : ClientCb Fn Data FreeFn}
    (stored : (d.callbacks c).cbs i = some cb) (spared : spares c i cb d l = true)
    (stepped : step maxAge w d l = some d') :
    (d'.callbacks c).cbs i = some cb ∨ cb.Old d.now.toInt maxAge.toNat := by
  cases l with
  | tick =>
    obtain ⟨-, ⟨⟩⟩ := Option.ite_none_right_eq_some.mp stepped
    exact .inl stored
  | opened | closed =>
    cases stepped
    exact .inl stored
  | periodicRun =>
    obtain ⟨-, ⟨⟩⟩ := Option.ite_none_right_eq_some.mp stepped
    exact .inl stored
  | new other random cbFn cbData freeFn =>
    obtain ⟨-, ⟨⟩⟩ := Option.ite_none_right_eq_some.mp stepped
    refine .inl (setCallbacks_spares stored ?_)
    rintro rfl
    rcases clientCbNew_cbs (d.callbacks other) random d.now.toInt cbFn cbData freeFn i with
      same | ⟨some_, slot, -⟩
    · exact same.trans stored
    · -- the new one would have its slot
      cases cbFn with
      | none => cases some_
      | some => simp [spares, slot] at spared
  | fire other serverCb clientCb json =>
    cases stepped
    refine .inl (setCallbacks_spares stored ?_)
    rintro rfl
    have unnamed : serverCb.toNat % 2 ^ 32 ≠ (packCb i cb.id).toNat := by
      simpa [spares] using spared
    exact clientCbFire_spares stored unnamed clientCb json
  | freed other =>
    obtain ⟨-, same⟩ := Option.ite_none_left_eq_some.mp stepped
    cases same
    refine .inl (setCallbacks_spares stored ?_)
    rintro rfl
    simp [spares] at spared
  | visit other =>
    obtain ⟨-, ⟨⟩⟩ := Option.ite_none_right_eq_some.mp stepped
    by_cases young : d.before ≤ cb.created
    · refine .inl (setCallbacks_spares stored ?_)
      rintro rfl
      exact clientCbPrune_cbs_iff.mpr ⟨stored, young⟩
    · right
      have past : d.beganAt ≤ d.now.toInt := inv.inTime.past
      have high := d.now.toInt_lt
      have clock := inv.clock
      rw [inv.threshold, keptAge_of_le (by omega) (by omega)] at young
      rw [ClientCb.Old]
      omega

/-- A callback that a run spares is in its slot afterwards, or too old. -/
theorem run_spares {ls : List (Label Fn Data FreeFn)} (inv : Inv maxAge w d)
    (fits : maxAge.toNat * 1000000 ≤ 2 ^ 63) {c : ClientId} {i : Fin 4}
    {cb : ClientCb Fn Data FreeFn} (stored : (d.callbacks c).cbs i = some cb)
    (spared : (system maxAge w).Throughout (fun e l => spares c i cb e l = true) d ls)
    (ran : (system maxAge w).run d ls = some d') :
    (d'.callbacks c).cbs i = some cb ∨ cb.Old d'.now.toInt maxAge.toNat := by
  induction ls generalizing d with
  | nil =>
    cases ran
    exact .inl stored
  | cons l ls ih =>
    obtain ⟨e, stepped, rest⟩ := ((system maxAge w).run_cons_iff d d' l ls).mp ran
    obtain ⟨here, later⟩ := spared
    rcases step_spares inv fits stored here stepped with kept | old
    · exact ih (inv_step inv stepped) kept (later e stepped) rest
    · right
      have time := run_later ran
      simp only [ClientCb.Old] at old ⊢
      omega

/-! ### The rounds -/

/-- In every run, with a round on its way or not: each callback of a client that is gone
over was created within the setting, ten seconds and the time that a round lasts, and so
was each that an answer of the client calls. A callback is in its slot for as long as the
setting says, unless it is answered before, evicted by a later one, or freed with its
client. -/
theorem callbacks_keep_time (maxAge : UInt64) (w : Rounds) (ls : List (Label Fn Data FreeFn))
    (d : State Fn Data FreeFn) (period : w.period = periodicIntervalUsec)
    (ran : (system maxAge w).run (start maxAge) ls = some d) :
    (∀ c ∈ d.listed, ∀ i cb, (d.callbacks c).cbs i = some cb →
      d.now.toInt - cb.created ≤ maxAge.toNat * 1000000 + periodicIntervalUsec + w.lasts) ∧
    (∀ c ∈ d.listed, ∀ serverCb clientCb json slot cb,
      (clientCbFire (d.callbacks c) serverCb clientCb json).2.1 = .ran slot cb clientCb json →
      d.now.toInt - cb.created ≤ maxAge.toNat * 1000000 + periodicIntervalUsec + w.lasts) ∧
    (maxAge.toNat * 1000000 ≤ 2 ^ 63 →
      ∀ c i cb, (d.callbacks c).cbs i = some cb → ∀ ms d',
        (system maxAge w).Throughout (fun e l => spares c i cb e l = true) d ms →
        (system maxAge w).run d ms = some d' → ¬cb.Old d'.now.toInt maxAge.toNat →
        (d'.callbacks c).cbs i = some cb) := by
  have inv : Inv maxAge w d := (system maxAge w).run_invariant (Inv maxAge w)
    (fun _ _ _ inv stepped => inv_step inv stepped) (start maxAge) d ls inv_start ran
  have stored : ∀ c ∈ d.listed, ∀ i cb, (d.callbacks c).cbs i = some cb →
      d.now.toInt - cb.created ≤ maxAge.toNat * 1000000 + periodicIntervalUsec + w.lasts := by
    intro c member i cb there
    have age := inv.young.age_le inv.inTime ⟨member, i, cb, there, rfl⟩
    rw [period] at age
    exact age
  refine ⟨stored, ?_, ?_⟩
  · intro c member serverCb clientCb json slot cb called
    rcases clientCbFire_cases (d.callbacks c) serverCb clientCb json with
      ⟨i, cb', there, fired⟩ | missed
    · rw [fired] at called
      cases called
      exact stored c member slot cb there
    · rw [missed] at called
      cases called
  · intro fits c i cb there ms d' spared went young
    rcases run_spares inv fits there spared went with kept | old
    · exact kept
    · exact absurd old young

/-- A callback is created, and later a round begins. -/
def pending : List (Label Unit Unit Unit) :=
  [.opened, .new 0 0 (some ()) none none, .tick 10000000, .periodicRun [0], .tick 1000000]

/-- The round goes on, and another callback is answered. -/
def passing : List (Label Unit Unit Unit) :=
  [.visit 0, .fire 0 65537 0 [], .tick 9000000]

theorem callbacks_keep_time_pending :
    ∃ d d', (system 60 sampleRounds).run (start 60) pending = some d ∧
      (system 60 sampleRounds).run d passing = some d' ∧ ∃ cb, (d.callbacks 0).cbs 0 = some cb ∧
        d.now.toInt - cb.created ≤ 60000000 + periodicIntervalUsec + Http.secToUsec 1 ∧
        (d'.callbacks 0).cbs 0 = some cb := by
  have runs : ((system 60 sampleRounds).run (start 60) pending).isSome := by decide
  obtain ⟨d, ran⟩ := Option.isSome_iff_exists.mp runs
  have goes : ∀ d ∈ (system 60 sampleRounds).run (start 60) pending,
      ((system 60 sampleRounds).run d passing).isSome ∧ ((d.callbacks 0).cbs 0).isSome ∧
        0 ∈ d.listed := by decide
  obtain ⟨went, filled, listed⟩ := goes d ran
  obtain ⟨d', went⟩ := Option.isSome_iff_exists.mp went
  obtain ⟨cb, stored⟩ := Option.isSome_iff_exists.mp filled
  have spared : ∀ d ∈ (system 60 sampleRounds).run (start 60) pending,
      ∀ cb ∈ (d.callbacks 0).cbs 0,
        (system 60 sampleRounds).Throughout (fun e l => spares 0 0 cb e l = true) d passing ∧
          ∀ d' ∈ (system 60 sampleRounds).run d passing,
            ¬cb.Old d'.now.toInt (60 : UInt64).toNat := by
    decide
  obtain ⟨spared, young⟩ := spared d ran cb stored
  have kept := callbacks_keep_time 60 sampleRounds pending d rfl ran
  exact ⟨d, d', ran, went, cb, stored, kept.1 0 listed 0 cb stored,
    kept.2.2 (by decide) 0 0 cb stored passing d' spared went (young d' went)⟩

end CallbackRounds

end QuickIO
