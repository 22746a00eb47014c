import QuickIO.Lib.TransitionSystem
import QuickIO.Wrapping

/-!
# The last request wins

On, off and on again may all arrive before the first approval does. Once no
approval is outstanding for a subscription, the client is subscribed exactly
if its last request was on and the last completion a success, as long as no
subscription had more references than its count holds.
-/
namespace QuickIO

open Lib Server

section Effects

variable {σ τ : Server} {held : List SubId} {waiting : List (ClientId × SubId)}

/-- One entry becomes `new`; all other entries stay. -/
def ChangesTo (σ τ : Server) (c : ClientId) (s : SubId) (new : Option ClientSub) : Prop :=
  ∀ c' s', τ.entry c' s' = if c' = c ∧ s' = s then new else σ.entry c' s'

theorem ChangesTo.same {c : ClientId} {s : SubId} {old : Option ClientSub}
    (entry : ∀ c s, τ.entry c s = σ.entry c s) (stored : σ.entry c s = old) :
    ChangesTo σ τ c s old := by
  intro c' s'
  rw [entry]
  split
  next here =>
    obtain ⟨rfl, rfl⟩ := here
    exact stored
  next => rfl

theorem ChangesTo.trans {υ : Server} {c : ClientId} {s : SubId} {mid new : Option ClientSub}
    (first : ChangesTo σ τ c s mid) (second : ChangesTo τ υ c s new) : ChangesTo σ υ c s new := by
  intro c' s'
  rw [second, first]
  split <;> rfl

/-- What a request leaves: the entry it found, wanted again, or a new one that
waits for its completion or has had it. -/
inductive Requested (c : ClientId) (s : SubId) (old : Option ClientSub) (outcome : Outcome) :
    Option ClientSub → Prop where
  | again (csub : ClientSub) (found : old = some csub) (unasked : outcome.approval = none)
      (uncompleted : outcome.completed = none) :
      Requested c s old outcome (some { csub with tombstone := false })
  | waits (idx : Nat) (info : EvsOnInfo) (absent : old = none)
      (kept : outcome.approval = some info) (client : info.client = c) (sub : info.sub = s)
      (uncompleted : outcome.completed = none) :
      Requested c s old outcome (some ⟨idx, true, false⟩)
  | done (idx : Nat) (success : Bool) (absent : old = none) (unasked : outcome.approval = none)
      (completed : outcome.completed = some success) :
      Requested c s old outcome (completedEntry ⟨idx, true, false⟩ success)

theorem evsOnCreated_effect {env : Env} (listOk : env.listOk = true) (info : EvsOnInfo) {idx : Nat}
    (stored : σ.entry info.client info.sub = some ⟨idx, true, false⟩) (answer : OnAnswer) :
    Keeps σ (σ.evsOnCreated env info answer).server ∧
    ∃ new, ChangesTo σ (σ.evsOnCreated env info answer).server info.client info.sub new ∧
      Requested info.client info.sub none (σ.evsOnCreated env info answer) new := by
  have completed : ∀ success, Keeps σ (σ.evsOnCb env success info).1 ∧
      ChangesTo σ (σ.evsOnCb env success info).1 info.client info.sub
        (completedEntry ⟨idx, true, false⟩ success) := fun success =>
    ⟨Keeps.framed.evsOnCb env σ success info, entry_evsOnCb listOk stored success⟩
  cases answer with
  | ok => exact ⟨(completed true).1, _, (completed true).2, .done idx true rfl rfl rfl⟩
  | err => exact ⟨(completed false).1, _, (completed false).2, .done idx false rfl rfl rfl⟩
  | now success =>
    exact ⟨(completed success).1, _, (completed success).2, .done idx success rfl rfl rfl⟩
  | later =>
    exact ⟨Keeps.framed.subRef σ info.sub, _, .same (fun _ _ => rfl) stored,
      .waits idx info rfl rfl rfl rfl rfl⟩

/-- `evs_on` of an open client, when neither the quota nor the list refuses. -/
theorem Inv.evsOn_effect (inv : Inv σ held waiting) {env : Env} (fairUse : env.fairUse = true)
    (listOk : env.listOk = true) {c : ClientId} (notClosing : (σ.clients c).closing = false)
    (ev : Event Handlers) (evExtra : Bytes) (clientCb : EvsCb) (json : Option Bytes) :
    ∃ s new, Keeps σ (σ.evsOn env c ev evExtra clientCb json).server ∧
      (σ.evsOn env c ev evExtra clientCb json).server.key s = (ev.evPath, evExtra) ∧
      (σ.wrapped = false →
        ∀ r, σ.entry c r ≠ none → σ.key r = (ev.evPath, evExtra) → r = s) ∧
      ChangesTo σ (σ.evsOn env c ev evExtra clientCb json).server c s new ∧
      Requested c s (σ.entry c s) (σ.evsOn env c ev evExtra clientCb json) new := by
  unfold Server.evsOn
  cases got : σ.subGet ev evExtra true with
  | none =>
    unfold Server.subGet at got
    split at got <;> cases got
  | some found =>
    obtain ⟨s, τ⟩ := found
    obtain ⟨kept, entry, allocated, key, only⟩ := inv.subGet_spec got
    have notClosing : (τ.clients c).closing = false := by
      rw [← notClosing]
      exact closing_of_standing kept.standing c
    dsimp only
    -- The reference taken first is given back after the switch.
    have finish : ∀ (outcome : Outcome) (new : Option ClientSub), Keeps τ outcome.server →
        ChangesTo τ outcome.server c s new → Requested c s (τ.entry c s) outcome new →
        ∃ r new, Keeps σ (outcome.server.subUnref s) ∧
          (outcome.server.subUnref s).key r = (ev.evPath, evExtra) ∧
          (σ.wrapped = false →
            ∀ q, σ.entry c q ≠ none → σ.key q = (ev.evPath, evExtra) → q = r) ∧
          ChangesTo σ (outcome.server.subUnref s) c r new ∧
          Requested c r (σ.entry c r) { outcome with server := outcome.server.subUnref s } new := by
      intro outcome new keeps changes requested
      have released := keeps.trans (Keeps.framed.subUnref outcome.server s)
      refine ⟨s, new, kept.trans released, ?_, fun fits => only fits c, ?_, ?_⟩
      · rw [released.key s allocated, key]
      · intro c' s'
        rw [entry_subUnref, changes, entry]
      · rw [entry] at requested
        cases requested with
        | again csub found unasked uncompleted => exact .again csub found unasked uncompleted
        | waits idx info absent kept client sub uncompleted =>
          exact .waits idx info absent kept client sub uncompleted
        | done idx success absent unasked completed =>
          exact .done idx success absent unasked completed
    cases stored : τ.entry c s with
    | some csub =>
      rw [clientSubAdd_stored notClosing stored]
      obtain ⟨idx, pending, tombstone⟩ := csub
      -- The entry is wanted again, pending or not.
      have again : ∀ result : Server × List Send,
          SameSubs (τ.hashInsert c s ⟨idx, pending, false⟩) result.1 →
          ∃ r new, Keeps σ (result.1.subUnref s) ∧
            (result.1.subUnref s).key r = (ev.evPath, evExtra) ∧
            (σ.wrapped = false →
              ∀ q, σ.entry c q ≠ none → σ.key q = (ev.evPath, evExtra) → q = r) ∧
            ChangesTo σ (result.1.subUnref s) c r new ∧
            Requested c r (σ.entry c r)
              { Outcome.reply result with server := result.1.subUnref s } new := by
        intro result same
        refine finish (.reply result) (some ⟨idx, pending, false⟩) ?_ ?_ ?_
        · exact (Keeps.framed.hashInsert τ c s _).trans same.keeps
        · intro c' s'
          exact (same.entry c' s').trans (τ.entry_hashInsert c c' s s' _)
        · rw [stored]
          exact .again ⟨idx, pending, tombstone⟩ rfl rfl rfl
      cases pending with
      | true => exact again _ (sameSubs_evsErrCb env _ c clientCb _ _ none)
      | false => exact again _ (sameSubs_evsCb env _ c clientCb none)
    | none =>
      rw [fairUse, clientSubAdd_created notClosing stored]
      have added : ChangesTo τ (τ.added c s) c s (some ⟨τ.nextIdx, true, false⟩) :=
        fun c' s' => entry_hashInsert _ c c' s s' _
      have keeps : Keeps τ (τ.added c s) := by
        have kept := Keeps.framed.clientSubAdd τ c s true
        rwa [clientSubAdd_created notClosing stored] at kept
      obtain ⟨keeps', new, changes, requested⟩ :=
        evsOnCreated_effect listOk ⟨evExtra, json, s, c, clientCb⟩
          ((added c s).trans (if_pos ⟨rfl, rfl⟩)) (onAnswer env ev)
      refine finish _ new (keeps.trans keeps') (added.trans changes) ?_
      rw [stored]
      exact requested

/-- What unsubscribing leaves of an entry: a tombstone while it is pending. -/
def givenUp : Option ClientSub → Option ClientSub
  | none => none
  | some csub => if csub.pending then some { csub with tombstone := true } else none

/-- `evs_off`, with or without a subscription for the key. -/
theorem Inv.evsOff_effect (inv : Inv σ held waiting) (c : ClientId) (ev : Event Handlers)
    (evExtra : Bytes) :
    (σ.evsOff c ev evExtra = σ ∧ (σ.wrapped = false →
      ∀ r, σ.key r = (ev.evPath, evExtra) → σ.entry c r = none)) ∨
    ∃ s, Keeps σ (σ.evsOff c ev evExtra) ∧
      (σ.evsOff c ev evExtra).key s = (ev.evPath, evExtra) ∧
      (σ.wrapped = false →
        ∀ r, σ.entry c r ≠ none → σ.key r = (ev.evPath, evExtra) → r = s) ∧
      ChangesTo σ (σ.evsOff c ev evExtra) c s (givenUp (σ.entry c s)) := by
  unfold Server.evsOff
  cases got : σ.subGet ev evExtra false with
  | none => exact Or.inl ⟨rfl, fun fits => inv.subGet_none fits got c⟩
  | some found =>
    obtain ⟨s, τ⟩ := found
    obtain ⟨kept, entry, allocated, key, only⟩ := inv.subGet_spec got
    have released := (Keeps.framed.subRemove τ c s false).trans (Keeps.framed.subUnref _ s)
    refine Or.inr ⟨s, kept.trans released, (released.key s allocated).trans key,
      fun fits => only fits c, ?_⟩
    -- `client_sub_remove` on the one entry of the key
    have removed : ChangesTo τ (τ.subRemove c s false).1 c s (givenUp (τ.entry c s)) := by
      cases stored : τ.entry c s with
      | none =>
        rw [subRemove_absent stored]
        exact .same (fun _ _ => rfl) stored
      | some csub =>
        cases pending : csub.pending with
        | true =>
          -- the approval is outstanding: a tombstone
          rw [subRemove_pending stored pending, givenUp, if_pos pending]
          exact fun c' s' => entry_hashInsert τ c c' s s' _
        | false =>
          rw [subRemove_removed stored (Or.inr pending), givenUp, if_neg (by simp [pending])]
          exact fun c' s' => entry_subCleanup τ c c' s s' csub
    intro c' s'
    rw [entry_subUnref, ← entry, ← entry]
    exact removed c' s'

end Effects

/-! ### The last request of each client for each key -/

inductive Request where
  | on
  | off
deriving DecidableEq

/-- A client and the path and `ev_extra` it asks for. -/
abbrev Key := ClientId × Bytes × Bytes

/-- An entry agrees with the last request and the last completion. -/
def Fits (request : Option Request) (completion : Option Bool) : Option ClientSub → Prop
  | none => ¬(request = some .on ∧ completion = some true)
  | some csub =>
    if csub.pending then request = some (if csub.tombstone then .off else .on)
    else request = some .on ∧ completion = some true

theorem fits_some (request : Option Request) (completion : Option Bool) (csub : ClientSub) :
    Fits request completion (some csub) ↔
      if csub.pending = true then request = some (if csub.tombstone then .off else .on)
      else request = some .on ∧ completion = some true := Iff.rfl

theorem not_fits_off (completion : Option Bool) : Fits (some .off) completion none := by
  rintro ⟨⟨⟩, -⟩

theorem Requested.fits {c : ClientId} {s : SubId} {old new : Option ClientSub}
    {outcome : Outcome} (requested : Requested c s old outcome new) {request : Option Request}
    {completion : Option Bool} (before : Fits request completion old) :
    Fits (some .on) (match outcome.completed with
      | none => completion
      | some success => some success) new := by
  cases requested with
  | again csub found unasked uncompleted =>
    -- the entry was there, and `tombstone` is now off
    subst found
    rw [uncompleted]
    rw [fits_some] at before ⊢
    cases pending : csub.pending with
    | true => simp
    | false =>
      rw [if_neg (by simp [pending])] at before
      simpa using before.2
  | waits idx info absent kept client sub uncompleted => exact rfl
  | done idx success absent unasked completed =>
    rw [completed]
    -- accepted unless the approval failed
    cases success with
    | true => exact ⟨rfl, rfl⟩
    | false =>
      rintro ⟨-, ⟨⟩⟩

/-- Every entry agrees, and so does every key without one. -/
structure Last (σ : Server) (request : Key → Option Request) (completion : Key → Option Bool) :
    Prop where
  present : ∀ c s csub, σ.entry c s = some csub →
    Fits (request (c, σ.key s)) (completion (c, σ.key s)) (some csub)
  absent : ∀ c k, (∀ s, σ.key s = k → σ.entry c s = none) →
    Fits (request (c, k)) (completion (c, k)) none

section Last

variable {σ τ : Server} {request request' : Key → Option Request}
  {completion completion' : Key → Option Bool} {c : ClientId} {s : SubId} {k : Bytes × Bytes}

/-- The entry a request or a completion is about. -/
theorem Last.here (last : Last σ request completion)
    (key : σ.entry c s ≠ none → σ.key s = k)
    (only : ∀ r, σ.entry c r ≠ none → σ.key r = k → r = s) :
    Fits (request (c, k)) (completion (c, k)) (σ.entry c s) := by
  cases stored : σ.entry c s with
  | some csub =>
    rw [← key (by rw [stored]; exact Option.some_ne_none _)]
    exact last.present c s csub stored
  | none =>
    refine last.absent c k fun r same => ?_
    by_contra used
    obtain rfl := only r used same
    exact used stored

/-- Only the entry of one client for one key changes. -/
theorem Last.step (last : Last σ request completion) {new : Option ClientSub}
    (allocated : ∀ c r, σ.entry c r ≠ none → r < σ.nextSub) (keeps : Keeps σ τ)
    (key : τ.key s = k) (only : ∀ r, σ.entry c r ≠ none → σ.key r = k → r = s)
    (changes : ChangesTo σ τ c s new)
    (fits : Fits (request' (c, k)) (completion' (c, k)) new)
    (others : ∀ k', k' ≠ (c, k) → request' k' = request k' ∧ completion' k' = completion k') :
    Last τ request' completion' := by
  refine ⟨?_, ?_⟩
  · intro c' s' csub at_
    rw [changes] at at_
    split at at_
    next here =>
      obtain ⟨rfl, rfl⟩ := here
      rw [key]
      exact at_ ▸ fits
    next other =>
      -- an entry of another key: no request was about it
      have used : σ.entry c' s' ≠ none := by rw [at_]; exact Option.some_ne_none _
      have same := keeps.key s' (allocated c' s' used)
      have ne : (c', τ.key s') ≠ (c, k) := by
        intro both
        obtain ⟨rfl, sameKey⟩ := Prod.mk.inj both
        exact other ⟨rfl, only s' used (same ▸ sameKey)⟩
      obtain ⟨requests, completions⟩ := others _ ne
      rw [requests, completions, same]
      exact last.present c' s' csub at_
  · intro c' k' none_
    by_cases here : (c', k') = (c, k)
    · obtain ⟨rfl, rfl⟩ := Prod.mk.inj here
      -- the key of the request itself
      have gone := none_ s key
      rw [changes, if_pos ⟨rfl, rfl⟩] at gone
      exact gone ▸ fits
    · obtain ⟨requests, completions⟩ := others _ here
      rw [requests, completions]
      -- another key without an entry had none before either
      refine last.absent c' k' fun r same => ?_
      by_contra used
      have kept := keeps.key r (allocated c' r used)
      have gone := none_ r (kept.trans same)
      rw [changes] at gone
      split at gone
      next at_ =>
        obtain ⟨rfl, rfl⟩ := at_
        exact here (by rw [← same, ← kept, key])
      next => exact used gone

/-- A request for a key nobody has an entry for. -/
theorem Last.off_absent (last : Last σ request completion)
    (none_ : ∀ r, σ.key r = k → σ.entry c r = none) :
    Last σ (Function.update request (c, k) (some .off)) completion := by
  refine ⟨?_, ?_⟩
  · intro c' s' csub at_
    have ne : (c', σ.key s') ≠ (c, k) := by
      intro both
      obtain ⟨rfl, sameKey⟩ := Prod.mk.inj both
      rw [none_ s' sameKey] at at_
      cases at_
    rw [Function.update_of_ne ne]
    exact last.present c' s' csub at_
  · intro c' k' gone
    by_cases here : (c', k') = (c, k)
    · rw [here, Function.update_self]
      rintro ⟨⟨⟩, -⟩
    · rw [Function.update_of_ne here]
      exact last.absent c' k' gone

end Last

/-! ### Runs -/

namespace LastRequest

/-- The server, the infos kept for a later `evs_on_cb` with their keys, and the
last request and the last completion of every key. -/
structure State where
  server : Server
  approvals : List (Key × EvsOnInfo)
  request : Key → Option Request
  completion : Key → Option Bool

inductive Label where
  | on (env : Env) (c : ClientId) (ev : Event Handlers) (evExtra : Bytes) (clientCb : EvsCb)
      (json : Option Bytes)
  | off (c : ClientId) (ev : Event Handlers) (evExtra : Bytes)
  | onCb (env : Env) (k : Key) (info : EvsOnInfo) (success : Bool)

/-- The steps in which neither the quota nor a list refuses. Clients do not
close, and an info that was kept is completed once. -/
def step (m : State) : Label → Option State
  | .on env c ev evExtra clientCb json =>
    -- The limits that qev and `clients_subs_fair_use` set are not hit.
    if env.fairUse ∧ env.listOk then
      let outcome := m.server.evsOn env c ev evExtra clientCb json
      let k : Key := (c, ev.evPath, evExtra)
      some
        { server := outcome.server
          -- A request is the last one, whatever it is answered.
          approvals :=
            match outcome.approval with
            | none => m.approvals
            | some info => (k, info) :: m.approvals
          request := Function.update m.request k (some .on)
          completion :=
            match outcome.completed with
            | none => m.completion
            | some success => Function.update m.completion k (some success) }
    else none
  | .off c ev evExtra =>
    some { m with
      server := m.server.evsOff c ev evExtra
      request := Function.update m.request (c, ev.evPath, evExtra) (some .off) }
  | .onCb env k info success =>
    -- Each info is answered once.
    if env.listOk ∧ (k, info) ∈ m.approvals then
      some { m with
        server := (m.server.evsOnCbLate env success info).1
        approvals := m.approvals.erase (k, info)
        completion := Function.update m.completion k (some success) }
    else none

def system : TransitionSystem State Label where
  init m := m.server.Blank ∧ m.approvals = [] ∧ m.request = (fun _ => none) ∧
    m.completion = fun _ => none
  step := step

/-- `client_sub_active` for the subscription of a key, if there is one. -/
def active (m : State) : Key → Bool
  | (c, evPath, evExtra) =>
    match m.server.table evPath evExtra with
    | none => false
    | some s => m.server.clientSubActive c s

/-- The references and completions the kept infos stand for. -/
def heldBy (approvals : List (Key × EvsOnInfo)) : List SubId := approvals.map fun a => a.2.sub

def awaitedBy (approvals : List (Key × EvsOnInfo)) : List (ClientId × SubId) :=
  approvals.map fun a => (a.2.client, a.2.sub)

structure Invariant (m : State) : Prop where
  inv : Inv m.server (heldBy m.approvals) (awaitedBy m.approvals)
  opened : ∀ c, (m.server.clients c).closing = false
  keyed : ∀ k info, (k, info) ∈ m.approvals → k = (info.client, m.server.key info.sub)
  last : m.server.wrapped = false → Last m.server m.request m.completion

theorem Invariant.allocated {m : State} (invariant : Invariant m) (c : ClientId) (r : SubId)
    (used : m.server.entry c r ≠ none) : r < m.server.nextSub := by
  obtain ⟨users, counted⟩ := invariant.inv.counted
  obtain ⟨csub, stored⟩ := Option.ne_none_iff_exists'.mp used
  exact (counted.of_entry stored).2

/-- What changes nothing about closing and keys keeps the simple parts. -/
theorem Invariant.opened_of {m : State} (invariant : Invariant m) {τ : Server}
    (keeps : Keeps m.server τ) (c : ClientId) : (τ.clients c).closing = false := by
  rw [← invariant.opened c]
  exact closing_of_standing keeps.standing c

theorem Invariant.keyed_of {m : State} (invariant : Invariant m) {τ : Server}
    (keeps : Keeps m.server τ) (k : Key) (info : EvsOnInfo) (member : (k, info) ∈ m.approvals) :
    k = (info.client, τ.key info.sub) := by
  obtain ⟨users, counted⟩ := invariant.inv.counted
  have held : info.sub ∈ heldBy m.approvals := List.mem_map.mpr ⟨(k, info), member, rfl⟩
  rw [keeps.key info.sub (counted.of_held held).2]
  exact invariant.keyed k info member

theorem invariant_on {m m' : State} (invariant : Invariant m) {env : Env} {c : ClientId}
    {ev : Event Handlers} {evExtra : Bytes} {clientCb : EvsCb} {json : Option Bytes}
    (stepped : step m (.on env c ev evExtra clientCb json) = some m') : Invariant m' := by
  obtain ⟨⟨fairUse, listOk⟩, ⟨⟩⟩ := Option.ite_none_right_eq_some.mp stepped
  -- One subscription is concerned, the one of the key.
  obtain ⟨s, new, keeps, key, only, changes, requested⟩ := invariant.inv.evsOn_effect fairUse
    listOk (invariant.opened c) ev evExtra clientCb json
  have after := invariant.inv.evsOn env c ev evExtra clientCb json
  generalize m.server.evsOn env c ev evExtra clientCb json = outcome at *
  refine ⟨?_, invariant.opened_of keeps, ?_, ?_⟩
  · -- the new approval, if there is one, is held and awaited
    cases kept : outcome.approval with
    | none => simpa [Outcome.holds, Outcome.awaits, kept] using after
    | some info => simpa [Outcome.holds, Outcome.awaits, kept, heldBy, awaitedBy] using after
  · -- and is kept under the key of its subscription
    intro k info member
    cases kept : outcome.approval with
    | none =>
      rw [kept] at member
      exact invariant.keyed_of keeps k info member
    | some info' =>
      rw [kept] at member
      rcases List.mem_cons.mp member with new | old
      · cases new
        cases requested with
        | again csub found unasked => rw [kept] at unasked; cases unasked
        | waits idx info'' absent same client sub =>
          cases kept.symm.trans same
          rw [client, sub, key]
        | done idx success absent unasked => rw [kept] at unasked; cases unasked
      · exact invariant.keyed_of keeps k info old
  · -- the request fits what the client has at the key; other keys are untouched
    intro fits
    have unwrapped := keeps.unwrapped fits
    have last := invariant.last unwrapped
    have used : m.server.entry c s ≠ none → m.server.key s = (ev.evPath, evExtra) := fun used => by
      rw [← keeps.key s (invariant.allocated c s used), key]
    have before := last.here used (only unwrapped)
    refine last.step invariant.allocated keeps key (only unwrapped) changes ?_ ?_
    · have fits := requested.fits before
      dsimp only
      rw [Function.update_self]
      cases completed : outcome.completed with
      | none => rwa [completed] at fits
      | some success =>
        rw [completed] at fits
        simpa only [Function.update_self] using fits
    · intro k' other
      refine ⟨Function.update_of_ne other _ _, ?_⟩
      cases outcome.completed with
      | none => rfl
      | some success => exact Function.update_of_ne other _ _

theorem invariant_off {m m' : State} (invariant : Invariant m) {c : ClientId}
    {ev : Event Handlers} {evExtra : Bytes} (stepped : step m (.off c ev evExtra) = some m') :
    Invariant m' := by
  cases stepped
  have after := invariant.inv.evsOff c ev evExtra
  rcases invariant.inv.evsOff_effect c ev evExtra with ⟨same, none_⟩ | ⟨s, keeps, key, only, changes⟩
  · rw [same]
    exact ⟨invariant.inv, invariant.opened, invariant.keyed,
      fun fits => (invariant.last fits).off_absent (none_ fits)⟩
  · -- whatever entry there is, it is the one of this key
    have used : m.server.entry c s ≠ none → m.server.key s = (ev.evPath, evExtra) := fun used => by
      rw [← keeps.key s (invariant.allocated c s used), key]
    refine ⟨after, invariant.opened_of keeps, invariant.keyed_of keeps, fun fits => ?_⟩
    have unwrapped := keeps.unwrapped fits
    refine (invariant.last unwrapped).step invariant.allocated keeps key (only unwrapped) changes
      ?_ ?_
    · dsimp only
      rw [Function.update_self]
      cases m.server.entry c s with
      -- without an entry there is nothing to give up
      | none => exact not_fits_off _
      | some csub =>
        unfold givenUp
        dsimp only
        split
        next pending => simp [fits_some, pending]
        next => exact not_fits_off _
    · exact fun k' other => ⟨Function.update_of_ne other _ _, rfl⟩

theorem invariant_onCb {m m' : State} (invariant : Invariant m) {env : Env} {k : Key}
    {info : EvsOnInfo} {success : Bool}
    (stepped : step m (.onCb env k info success) = some m') : Invariant m' := by
  obtain ⟨⟨listOk, member⟩, ⟨⟩⟩ := Option.ite_none_right_eq_some.mp stepped
  obtain ⟨users, counted⟩ := invariant.inv.counted
  have holding : info.sub ∈ heldBy m.approvals := List.mem_map.mpr ⟨(k, info), member, rfl⟩
  have waiting : (info.client, info.sub) ∈ awaitedBy m.approvals :=
    List.mem_map.mpr ⟨(k, info), member, rfl⟩
  have allocated := (counted.of_held holding).2
  have keeps : Keeps m.server (m.server.evsOnCbLate env success info).1 :=
    Keeps.framed.evsOnCbLate env m.server success info
  have after := invariant.inv.evsOnCbLate env success info holding waiting
  have perm := List.perm_cons_erase member
  refine ⟨?_, invariant.opened_of keeps, ?_, ?_⟩
  · refine after.perm ?_ ?_
    · have mapped := (perm.map fun a => a.2.sub).erase info.sub
      rwa [List.map_cons, List.erase_cons_head] at mapped
    · have mapped := (perm.map fun a => (a.2.client, a.2.sub)).erase (info.client, info.sub)
      rwa [List.map_cons, List.erase_cons_head] at mapped
  · exact fun k' info' left => invariant.keyed_of keeps k' info' (List.mem_of_mem_erase left)
  · intro fits
    have unwrapped := keeps.unwrapped fits
    have last := invariant.last unwrapped
    obtain rfl := invariant.keyed k info member
    -- The client is open, so the completion finds its entry.
    obtain ⟨csub, stored, pending⟩ : ∃ csub, m.server.entry info.client info.sub = some csub ∧
        csub.pending = true := by
      rcases invariant.inv.waits.answered info.client info.sub waiting with found | gone
      · exact found
      · have closing := invariant.inv.waits.closing info.client gone
        rw [invariant.opened] at closing
        cases closing
    have only : ∀ r, m.server.entry info.client r ≠ none →
        m.server.key r = m.server.key info.sub → r = info.sub := by
      intro r used same
      exact invariant.inv.entry_unique unwrapped used (by rw [stored]; exact Option.some_ne_none _) same
    have before := last.present info.client info.sub csub stored
    have changes : ChangesTo m.server (m.server.evsOnCbLate env success info).1 info.client
        info.sub (completedEntry csub success) := fun c' s' => by
      rw [evsOnCbLate, entry_subUnref]
      exact entry_evsOnCb listOk stored success c' s'
    refine last.step invariant.allocated keeps (keeps.key info.sub allocated) only
      changes ?_ fun k' other => ⟨rfl, Function.update_of_ne other _ _⟩
    rw [fits_some, if_pos pending] at before
    dsimp only
    rw [Function.update_self, before]
    unfold completedEntry
    cases success <;> cases csub.tombstone <;> simp [Fits]

theorem invariant_reachable (m : State) (reached : system.Reachable m) : Invariant m := by
  refine system.reachable_invariant Invariant ?_ ?_ m reached
  · rintro m ⟨blank, approvals, request, completion⟩
    have entry : ∀ c s, m.server.entry c s = none := fun c s => by
      simp [Server.entry, Client.subGet, (blank.client c).1]
    refine ⟨?_, fun c => (blank.client c).2.1, ?_, fun _ => ⟨?_, ?_⟩⟩
    · rw [approvals]
      exact Inv.of_blank blank
    · simp [approvals]
    · simp [entry]
    · simp [Fits, request]
  · intro m l m' invariant stepped
    cases l with
    | on env c ev evExtra clientCb json => exact invariant_on invariant stepped
    | off c ev evExtra => exact invariant_off invariant stepped
    | onCb env k info success => exact invariant_onCb invariant stepped

/-- Between approvals, as long as no reference count has wrapped, a client is
subscribed exactly if its last request was on and the last completion a success. -/
theorem last_request_wins (m : State) (reached : system.Reachable m)
    (fits : m.server.wrapped = false) (k : Key) (quiet : ∀ info, (k, info) ∉ m.approvals) :
    active m k = true ↔ m.request k = some .on ∧ m.completion k = some true := by
  have invariant := invariant_reachable m reached
  have last := invariant.last fits
  obtain ⟨c, evPath, evExtra⟩ := k
  obtain ⟨users, counted⟩ := invariant.inv.counted
  -- An entry keeps its subscription in the table.
  have stored_of : ∀ r, m.server.entry c r ≠ none → m.server.key r = (evPath, evExtra) →
      m.server.table evPath evExtra = some r := by
    intro r used key
    have stored := invariant.inv.table_of_entry fits used
    rwa [key] at stored
  cases stored : m.server.table evPath evExtra with
  -- no subscription at all: nothing is active
  | none =>
    have agrees := last.absent c (evPath, evExtra) fun r key => by
      by_contra used
      rw [stored_of r used key] at stored
      cases stored
    simpa [Fits, active, stored] using agrees
  | some s =>
    obtain ⟨-, -, path, extra⟩ := (counted.ledger.stored fits evPath evExtra s).mp stored
    have key : m.server.key s = (evPath, evExtra) := by rw [Server.key, path, extra]
    have agrees := last.here (fun _ => key) fun r used same =>
      Option.some.inj ((stored_of r used same).symm.trans stored)
    have answer : active m (c, evPath, evExtra) = m.server.clientSubActive c s := by
      simp only [active, stored]
    rw [answer, Server.clientSubActive]
    cases entry : m.server.entry c s with
    | none =>
      rw [entry] at agrees
      simpa [Fits] using agrees
    | some csub =>
      -- With no approval outstanding, an entry is not pending.
      have listed : csub.pending = false := by
        by_contra pending
        simp only [Bool.not_eq_false] at pending
        have member := invariant.inv.waits.waits c s csub entry pending
        obtain ⟨⟨k, info⟩, kept, same⟩ := List.mem_map.mp member
        obtain ⟨rfl, rfl⟩ := Prod.mk.inj same
        obtain rfl := invariant.keyed k info kept
        exact quiet info (key ▸ kept)
      -- Nor is it a tombstone, which only a pending entry can be.
      have wanted : csub.tombstone = false := by
        by_contra tombstone
        simp only [Bool.not_eq_false] at tombstone
        rw [invariant.inv.lists.tombstoned c s csub entry tombstone] at listed
        cases listed
      rw [entry, fits_some, if_neg (by simp [listed])] at agrees
      simp [listed, wanted, agrees]

/-- An event whose subscriptions an application approves. -/
def approvedEvent : Event Handlers := ⟨str "/a", ⟨none, some (.app 0), none⟩, false⟩

/-- On, off and on again before the approval. -/
def flipped : List Label := [
  .on lateEnv 3 approvedEvent [] 7 none, .off 3 approvedEvent [],
  .on lateEnv 3 approvedEvent [] 8 none,
  .onCb lateEnv (3, str "/a", []) ⟨[], none, 0, 3, 7⟩ true]

theorem last_request_wins_flipped :
    ∃ m, system.Reachable m ∧ m.request (3, str "/a", []) = some .on ∧
      m.completion (3, str "/a", []) = some true ∧ active m (3, str "/a", []) = true := by
  cases ran : system.run ⟨Server.new, [], fun _ => none, fun _ => none⟩ flipped with
  | none => exact absurd ran (by decide)
  | some m =>
    have reached : system.Reachable m :=
      ⟨_, flipped, ⟨Server.new_blank, rfl, rfl, rfl⟩, ran⟩
    have finished : ∀ m ∈ system.run ⟨Server.new, [], fun _ => none, fun _ => none⟩ flipped,
        m.approvals = [] ∧ m.server.wrapped = false ∧
          m.request (3, str "/a", []) = some .on ∧
          m.completion (3, str "/a", []) = some true := by
      decide
    obtain ⟨quiet, fits, request, completion⟩ := finished m ran
    refine ⟨m, reached, request, completion, ?_⟩
    exact (last_request_wins m reached fits _ (by simp [quiet])).mpr ⟨request, completion⟩

end LastRequest

/-! ### More clients than a count of references holds -/

namespace LastRequest

/-- The clients below `k` subscribe to it, one after the other. -/
def crowd (k : Nat) : List Label :=
  (List.range k).map fun c => .on lateEnv c freeEvent [] 0 none

/-- The subscription they all have, as long as its count fits. -/
structure Crowd (m : State) (k : Nat) : Prop where
  stored : m.server.table (str "/a") [] = some 0
  refs : (m.server.heap 0).refs = UInt32.ofNat k
  source : m.server.source 0 = (freeEvent, [])
  newcomer : ∀ c, k ≤ c → m.server.entry c 0 = none
  asked : m.request (0, str "/a", []) = some .on
  completed : m.completion (0, str "/a", []) = some true
  approvals : m.approvals = []

/-- The next client finds the subscription, unless its count reads zero. -/
theorem Crowd.on {m : State} {k : Nat} (crowd : Crowd m k)
    (opened : (m.server.clients k).closing = false) (live : UInt32.ofNat k ≠ 0) :
    ∃ m', system.step m (.on lateEnv k freeEvent [] 0 none) = some m' ∧ m'.approvals = [] ∧
      m'.request (0, str "/a", []) = some .on ∧ m'.completion (0, str "/a", []) = some true ∧
      m'.server = ((m.server.subRef 0).accepted 0 k).subUnref 0 := by
  have got := m.server.subGet_live freeEvent crowd.stored (by rw [crowd.refs]; exact live) true
  have outcome := evsOn_accepted lateEnv got opened (crowd.newcomer k (Nat.le_refl k)) rfl rfl rfl
    none
  simp only [system, step, outcome]
  refine ⟨_, if_pos ⟨rfl, rfl⟩, crowd.approvals, ?_, ?_, rfl⟩
  · simp [Function.update_apply, crowd.asked]
  · simp [Function.update_apply, crowd.completed]

theorem Crowd.succ {m m' : State} {k : Nat} (crowd : Crowd m k) (fits : k + 1 < 2 ^ 32)
    (approvals : m'.approvals = []) (asked : m'.request (0, str "/a", []) = some .on)
    (completed : m'.completion (0, str "/a", []) = some true)
    (server : m'.server = ((m.server.subRef 0).accepted 0 k).subUnref 0) : Crowd m' (k + 1) := by
  obtain ⟨refs, source, table⟩ := accepted_rest (m.server.subRef 0) 0 k
  have count : (((m.server.subRef 0).accepted 0 k).heap 0).refs - 1 = UInt32.ofNat (k + 1) := by
    rw [refs, UInt32.add_sub_cancel, refs_subRef, refs_succ crowd.refs]
  refine ⟨?_, ?_, ?_, ?_, asked, completed, approvals⟩
  · rw [server, table_subUnref, if_neg, table]
    · exact crowd.stored
    · rintro ⟨zero, -⟩
      rw [count, refs_eq_zero_iff fits] at zero
      cases zero
  · rw [server, refs_subUnref, count]
  · rw [server, source_subUnref, source, source_subRef]
    exact crowd.source
  · intro c above
    rw [server, entry_subUnref, entry_accepted, if_neg]
    · exact crowd.newcomer c (by omega)
    · rintro ⟨rfl, -⟩
      omega

theorem run_crowd (k : Nat) (fits : k + 1 < 2 ^ 32) :
    ∃ m, system.run ⟨Server.new, [], fun _ => none, fun _ => none⟩ (crowd (k + 1)) = some m ∧
      Crowd m (k + 1) := by
  induction k with
  | zero =>
    obtain ⟨s, new, -, -, -, changes, -⟩ := (Inv.of_blank Server.new_blank).evsOn_effect
      (show lateEnv.fairUse = true from rfl) rfl (show (Server.new.clients 0).closing = false from rfl)
      freeEvent [] 0 none
    refine ⟨_, rfl, by decide, by decide, by decide, fun c above => ?_, by decide, by decide, rfl⟩
    -- only the entry of the first client is new
    refine (changes c 0).trans (if_neg ?_)
    rintro ⟨rfl, -⟩
    cases above
  | succ k ih =>
    obtain ⟨m, ran, crowded⟩ := ih (by omega)
    have opened := (invariant_reachable m ⟨_, _, ⟨Server.new_blank, rfl, rfl, rfl⟩, ran⟩).opened
    obtain ⟨m', stepped, approvals, asked, completed, server⟩ := crowded.on (opened _)
      (mt (refs_eq_zero_iff (by omega)).mp (Nat.succ_ne_zero k))
    refine ⟨m', ?_, crowded.succ fits approvals asked completed server⟩
    rw [crowd, List.range_succ, List.map_append]
    exact (system.run_append_iff _ _ _ _).mpr ⟨m, ran, by simp [TransitionSystem.run, stepped]⟩

/-- The 2³²-th client takes the count through zero, and the subscription all of
them have is freed. -/
theorem last_request_wins_crowd :
    ∃ m, system.Reachable m ∧ m.approvals = [] ∧ m.request (0, str "/a", []) = some .on ∧
      m.completion (0, str "/a", []) = some true ∧ active m (0, str "/a", []) = false := by
  obtain ⟨m, ran, crowded⟩ := run_crowd (2 ^ 32 - 2) (by decide)
  have reached : system.Reachable m := ⟨_, _, ⟨Server.new_blank, rfl, rfl, rfl⟩, ran⟩
  obtain ⟨m', stepped, approvals, asked, completed, server⟩ :=
    crowded.on ((invariant_reachable m reached).opened _) (by decide)
  refine ⟨m', reached.step stepped, approvals, asked, completed, ?_⟩
  have gone : m'.server.table (str "/a") [] = none := by
    rw [server]
    refine (m.server.accepted_full 0 crowded.stored ?_ ?_).2
    · rw [crowded.source]
      exact ⟨rfl, rfl⟩
    · rw [crowded.refs]
      decide
  simp only [active, gone]

end LastRequest

end QuickIO
