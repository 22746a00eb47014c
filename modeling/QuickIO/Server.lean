import Mathlib.Data.List.AList
import Mathlib.Logic.Function.Basic
import QuickIO.Callbacks
import QuickIO.Query

/-!
# Clients and their subscriptions

The state behind the events: clients with the subscriptions they asked for,
the subscription objects with their subscribers, and the table of each event.
The functions of sub.c and the subscription half of client.c, every operation
atomic. An object that is freed keeps its contents, so that a use after the
free would show.
-/
namespace QuickIO

abbrev ClientId := Nat

abbrev SubId := Nat

/-- The address of a function or of data the server never looks into. -/
abbrev Ptr := Nat

/-- The handlers an event can have: those of evs_qio.c, or an application's. -/
inductive HandlerFn where
  | callback
  | hostname
  | on
  | off
  | ping
  | app (fn : Ptr)
deriving DecidableEq

/-- `evs_on_fn`: the refusing `evs_no_on`, or an application's. -/
inductive OnFn where
  | noOn
  | app (fn : Ptr)
deriving DecidableEq

/-- The functions of `struct event`, each possibly `NULL`. -/
structure Handlers where
  handlerFn : Option HandlerFn
  onFn : Option OnFn
  offFn : Option Ptr
deriving DecidableEq

/-- `struct client_sub`, `idx` by its address: what the subscriber list knows. -/
structure ClientSub where
  idx : Nat
  pending : Bool
  tombstone : Bool
deriving DecidableEq

/-- `struct subscription`, with the items of its subscriber list. `refs` is a
`guint`, so it wraps at 2³². -/
structure Subscription where
  ev : Event Handlers
  evExtra : Bytes
  subscribers : List (Nat × ClientId)
  refs : UInt32
  freed : Bool

/-- `struct client`: whether it is closing, its subscriptions and callbacks.
`closed` records that `client_closed` has run. -/
structure Client where
  closing : Bool
  closed : Bool
  subs : Option (AList fun _ : SubId => ClientSub)
  callbacks : Callbacks Ptr Ptr Ptr

/-- A call of an off function, with the subscription it is for. -/
structure OffCall where
  offFn : Ptr
  client : ClientId
  sub : SubId
  evExtra : Bytes
deriving DecidableEq

/-- The server: `table` is `ev->subs` for each `ev_path`, `fairUsed` what has
been taken from `_fair_subs`. Every call of an off function and every free of
callback data is recorded, and in `wrapped` that a count of references has
gone from 2³² - 1 to 0. -/
structure Server where
  events : Ptrie Handlers
  clients : ClientId → Client
  heap : SubId → Subscription
  nextSub : SubId
  nextIdx : Nat
  table : Bytes → Bytes → Option SubId
  fairUsed : Nat
  offCalls : List OffCall
  dataFreed : List (Ptr × Ptr)
  wrapped : Bool

/-- `enum client_sub_state` -/
inductive ClientSubState where
  | pending
  | tombstoned
  | created
  | active
  | null
deriving DecidableEq

/-- `_sub_get` of client.c -/
def Client.subGet (client : Client) (sub : SubId) : Option ClientSub :=
  client.subs.bind (AList.lookup sub)

namespace Server

variable (σ : Server)

/-- Change one client. -/
def setClient (c : ClientId) (client : Client) : Server :=
  { σ with clients := Function.update σ.clients c client }

/-- Change one subscription object. -/
def setSub (s : SubId) (sub : Subscription) : Server :=
  { σ with heap := Function.update σ.heap s sub }

/-- What `client` has stored for `sub`. -/
def entry (c : ClientId) (s : SubId) : Option ClientSub := (σ.clients c).subGet s

/-! ### sub.c -/

/-- `sub_ref` -/
def subRef (s : SubId) : Server :=
  let refs := (σ.heap s).refs + 1
  { σ.setSub s { σ.heap s with refs } with wrapped := σ.wrapped || refs == 0 }

/-- `_get_if_exists`, with `atomic_inc_not_zero` -/
def getIfExists (ev : Event Handlers) (evExtra : Bytes) : Option (SubId × Server) :=
  match σ.table ev.evPath evExtra with
  | none => none
  | some s => if (σ.heap s).refs = 0 then none else some (s, σ.subRef s)

/-- The part of `sub_get` that allocates a subscription with one reference. -/
def subCreate (ev : Event Handlers) (evExtra : Bytes) : Server :=
  let sub : Subscription := { ev, evExtra, subscribers := [], refs := 1, freed := false }
  { σ.setSub σ.nextSub sub with
    nextSub := σ.nextSub + 1
    table := Function.update σ.table ev.evPath
      (Function.update (σ.table ev.evPath) evExtra (some σ.nextSub)) }

/-- `sub_get`. Nothing happens between its two lookups here, so the second one
finds what the first one found. -/
def subGet (ev : Event Handlers) (evExtra : Bytes) (orCreate : Bool) : Option (SubId × Server) :=
  match σ.getIfExists ev evExtra with
  | some found => some found
  | none => if orCreate then some (σ.nextSub, σ.subCreate ev evExtra) else none

/-- `sub_unref` -/
def subUnref (s : SubId) : Server :=
  let sub := σ.heap s
  -- `g_atomic_int_dec_and_test`
  if sub.refs - 1 = 0 then
    let path := sub.ev.evPath
    -- A new subscription may have replaced this one: play nice and let it live.
    let table := if σ.table path sub.evExtra = some s then
        Function.update σ.table path (Function.update (σ.table path) sub.evExtra none)
      else σ.table
    { σ.setSub s { sub with refs := sub.refs - 1, freed := true } with table }
  else σ.setSub s { sub with refs := sub.refs - 1 }

/-! ### The subscriptions of client.c -/

/-- `qev_list_add` of the client under the item `idx`, when it succeeds. -/
def listAdd (s : SubId) (idx : Nat) (c : ClientId) : Server :=
  σ.setSub s { σ.heap s with subscribers := (σ.heap s).subscribers ++ [(idx, c)] }

/-- `qev_list_remove` of the item `idx`, if it is there. -/
def listRemove (s : SubId) (idx : Nat) : Server :=
  σ.setSub s { σ.heap s with
    subscribers := (σ.heap s).subscribers.filter fun item => item.1 != idx }

/-- `g_hash_table_insert(client->subs, sub, csub)`, the table made on demand. -/
def hashInsert (c : ClientId) (s : SubId) (csub : ClientSub) : Server :=
  let subs := ((σ.clients c).subs.getD ∅).insert s csub
  σ.setClient c { σ.clients c with subs := some subs }

/-- `g_hash_table_remove(client->subs, sub)` -/
def hashRemove (c : ClientId) (s : SubId) : Server :=
  σ.setClient c { σ.clients c with subs := (σ.clients c).subs.map (AList.erase s) }

/-- Let go of a table that has become empty. -/
def dropEmpty (c : ClientId) : Server :=
  σ.setClient c { σ.clients c with
    subs := (σ.clients c).subs.filter fun subs => subs.keys.length != 0 }

/-- `evs_client_off` -/
def clientOff (c : ClientId) (s : SubId) : Server :=
  match (σ.heap s).ev.handlers.offFn with
  | none => σ
  | some offFn => { σ with offCalls := σ.offCalls ++ [⟨offFn, c, s, (σ.heap s).evExtra⟩] }

/-- `_sub_free` -/
def subFree : Server := { σ with fairUsed := σ.fairUsed - 1 }

/-- `_sub_cleanup` -/
def subCleanup (c : ClientId) (s : SubId) (csub : ClientSub) (cleanupHashtable : Bool) : Server :=
  let σ := (((σ.listRemove s csub.idx).clientOff c s).subFree).subUnref s
  if cleanupHashtable then (σ.hashRemove c s).dropEmpty c else σ

/-- `_sub_remove` -/
def subRemove (c : ClientId) (s : SubId) (rejected : Bool) : Server × Bool :=
  match σ.entry c s with
  | none => (σ, false)
  | some csub =>
    if !rejected && csub.pending then
      (σ.hashInsert c s { csub with tombstone := true }, false)
    else (σ.subCleanup c s csub true, true)

/-- `client_sub_active` -/
def clientSubActive (c : ClientId) (s : SubId) : Bool :=
  match σ.entry c s with
  | none => false
  | some csub => !csub.pending && !csub.tombstone

/-- `_sub_alloc`; `fairUse` is what `qev_fair_use` says. -/
def subAlloc (fairUse : Bool) : Option (ClientSub × Server) :=
  if fairUse then
    some ({ idx := σ.nextIdx, pending := false, tombstone := false },
      { σ with fairUsed := σ.fairUsed + 1, nextIdx := σ.nextIdx + 1 })
  else none

/-- `client_sub_add` -/
def clientSubAdd (c : ClientId) (s : SubId) (fairUse : Bool) : Server × ClientSubState :=
  if (σ.clients c).closing then (σ, .null)
  else
    match σ.entry c s with
    | some csub =>
      -- Asked for again, so a removal in between is forgotten.
      (σ.hashInsert c s { csub with tombstone := false },
        if csub.pending then .pending else .active)
    | none =>
      match σ.subAlloc fairUse with
      | none => (σ, .null)
      -- Pending until it is accepted, with a reference of the client's own.
      | some (csub, σ) => ((σ.subRef s).hashInsert c s { csub with pending := true }, .created)

/-- `client_sub_accept`; `listOk` is what `qev_list_add` says. -/
def clientSubAccept (c : ClientId) (s : SubId) (listOk : Bool) : Server × ClientSubState :=
  match σ.entry c s with
  -- The client closed before the callback came through.
  | none => (σ, .null)
  | some csub =>
    if listOk then
      let csub' : ClientSub := { csub with pending := false }
      let σ := (σ.listAdd s csub.idx c).hashInsert c s csub'
      -- It was removed while it was pending: it goes now.
      if csub.tombstone then (σ.subCleanup c s csub' true, .tombstoned) else (σ, .active)
    -- The list is full.
    else (σ.subCleanup c s csub true, .null)

/-- `client_sub_reject` -/
def clientSubReject (c : ClientId) (s : SubId) : Server := (σ.subRemove c s true).1

/-- `client_sub_remove` -/
def clientSubRemove (c : ClientId) (s : SubId) : Server × Bool := σ.subRemove c s false

/-- One turn of the loop of `client_closed`: the entry leaves the table first. -/
def closeEntry (c : ClientId) (σ : Server) (item : Sigma fun _ : SubId => ClientSub) : Server :=
  (σ.hashRemove c item.1).subCleanup c item.1 item.2 false

/-- `client_closed` -/
def clientClosed (c : ClientId) : Server :=
  match (σ.clients c).subs with
  | none => σ.setClient c { σ.clients c with closed := true }
  | some subs =>
    let σ := subs.entries.foldl (closeEntry c) σ
    σ.setClient c { σ.clients c with subs := none, closed := true }

/-- `qev_close`: the client is marked, `client_closed` comes later. -/
def qevClose (c : ClientId) : Server := σ.setClient c { σ.clients c with closing := true }

/-! ### What the operations do to an entry -/

@[simp] theorem entry_setSub (s : SubId) (sub : Subscription) (c : ClientId) :
    (σ.setSub s sub).entry c = σ.entry c := rfl

theorem entry_hashInsert (c c' : ClientId) (s s' : SubId) (csub : ClientSub) :
    (σ.hashInsert c s csub).entry c' s' =
      if c' = c ∧ s' = s then some csub else σ.entry c' s' := by
  by_cases client : c' = c
  · subst client
    by_cases sub : s' = s
    · subst sub
      simp [entry, hashInsert, setClient, Client.subGet]
    · simp only [entry, hashInsert, setClient, Client.subGet, Function.update_self,
        Option.bind_some, AList.lookup_insert_ne sub, sub, and_false, if_false]
      cases (σ.clients c').subs <;> simp
  · simp [entry, hashInsert, setClient, client]

theorem entry_hashRemove (c c' : ClientId) (s s' : SubId) :
    (σ.hashRemove c s).entry c' s' = if c' = c ∧ s' = s then none else σ.entry c' s' := by
  by_cases client : c' = c
  · subst client
    by_cases sub : s' = s
    · subst sub
      cases subs : (σ.clients c').subs <;>
        simp [entry, hashRemove, setClient, Client.subGet, subs]
    · simp only [entry, hashRemove, setClient, Client.subGet, Function.update_self, sub,
        and_false, if_false]
      cases (σ.clients c').subs with
      | none => rfl
      | some subs => exact AList.lookup_erase_ne sub
  · simp [entry, hashRemove, setClient, client]

@[simp] theorem entry_dropEmpty (c c' : ClientId) (s : SubId) :
    (σ.dropEmpty c).entry c' s = σ.entry c' s := by
  by_cases client : c' = c
  · subst client
    simp only [entry, dropEmpty, setClient, Client.subGet, Function.update_self]
    cases (σ.clients c').subs with
    | none => rfl
    | some subs =>
      by_cases empty : subs.keys.length = 0
      · have gone : subs.lookup s = none := by
          rw [AList.lookup_eq_none]
          intro member
          rw [AList.mem_keys, List.length_eq_zero_iff.mp empty] at member
          cases member
        simp [Option.filter, empty, gone]
      · simp [Option.filter, empty]
  · simp [entry, dropEmpty, setClient, client]

@[simp] theorem entry_listAdd (s : SubId) (idx : Nat) (c c' : ClientId) :
    (σ.listAdd s idx c).entry c' = σ.entry c' := rfl

@[simp] theorem entry_listRemove (s : SubId) (idx : Nat) (c : ClientId) :
    (σ.listRemove s idx).entry c = σ.entry c := rfl

@[simp] theorem entry_subRef (s : SubId) (c : ClientId) : (σ.subRef s).entry c = σ.entry c := rfl

@[simp] theorem entry_subFree (c : ClientId) : σ.subFree.entry c = σ.entry c := rfl

@[simp] theorem entry_clientOff (c c' : ClientId) (s : SubId) :
    (σ.clientOff c s).entry c' = σ.entry c' := by
  unfold clientOff
  split <;> rfl

@[simp] theorem entry_subUnref (s : SubId) (c : ClientId) :
    (σ.subUnref s).entry c = σ.entry c := by
  unfold subUnref
  dsimp only
  split <;> rfl

theorem entry_subCleanup (c c' : ClientId) (s s' : SubId) (csub : ClientSub) :
    (σ.subCleanup c s csub true).entry c' s' =
      if c' = c ∧ s' = s then none else σ.entry c' s' := by
  simp only [subCleanup, if_true, entry_dropEmpty, entry_hashRemove, entry_subUnref,
    entry_subFree, entry_clientOff, entry_listRemove]

theorem entry_closeEntry (c c' : ClientId) (s' : SubId) (item : Sigma fun _ : SubId => ClientSub) :
    (closeEntry c σ item).entry c' s' =
      if c' = c ∧ s' = item.1 then none else σ.entry c' s' := by
  simp only [closeEntry, subCleanup, Bool.false_eq_true, if_false, entry_subUnref, entry_subFree,
    entry_clientOff, entry_listRemove, entry_hashRemove]

@[simp] theorem clients_subUnref (s : SubId) : (σ.subUnref s).clients = σ.clients := by
  unfold subUnref
  dsimp only
  split <;> rfl

@[simp] theorem clients_clientOff (c : ClientId) (s : SubId) :
    (σ.clientOff c s).clients = σ.clients := by
  unfold clientOff
  split <;> rfl

/-- The client has a table only while it has an entry. -/
def Tidy (c : ClientId) : Prop := (σ.clients c).subs ≠ none ↔ ∃ s, σ.entry c s ≠ none

theorem tidy_of_entry {c : ClientId} {s : SubId} (stored : σ.entry c s ≠ none) : σ.Tidy c := by
  refine ⟨fun _ => ⟨s, stored⟩, fun _ none_ => stored ?_⟩
  simp [entry, Client.subGet, none_]

theorem tidy_of_subs {τ : Server} {c : ClientId} (tidy : σ.Tidy c)
    (same : (τ.clients c).subs = (σ.clients c).subs) : τ.Tidy c := by
  simpa [Tidy, entry, Client.subGet, same] using tidy

theorem tidy_setClient_ne {c c' : ClientId} (other : c' ≠ c) (client : Client)
    (tidy : σ.Tidy c') : (σ.setClient c client).Tidy c' :=
  σ.tidy_of_subs tidy (by simp [setClient, other])

/-- An empty table has been dropped. -/
theorem tidy_dropEmpty (c : ClientId) : (σ.dropEmpty c).Tidy c := by
  have dropped : ((σ.dropEmpty c).clients c).subs =
      (σ.clients c).subs.filter fun subs => subs.keys.length != 0 := by
    simp [dropEmpty, setClient]
  cases left : ((σ.dropEmpty c).clients c).subs with
  | none => simp [Tidy, entry, Client.subGet, left]
  | some subs =>
    rw [left] at dropped
    obtain ⟨-, filled⟩ := Option.filter_eq_some_iff.mp dropped.symm
    obtain ⟨s, keys, eq⟩ : ∃ s keys, subs.keys = s :: keys := by
      cases eq : subs.keys with
      | nil => simp [eq] at filled
      | cons s keys => exact ⟨s, keys, rfl⟩
    refine tidy_of_entry _ (s := s) ?_
    simp only [entry, Client.subGet, left, Option.bind_some, ne_eq, AList.lookup_eq_none,
      not_not, AList.mem_keys, eq]
    exact List.mem_cons_self

theorem tidy_hashInsert (c c' : ClientId) (s : SubId) (csub : ClientSub)
    (tidy : σ.Tidy c') : (σ.hashInsert c s csub).Tidy c' := by
  by_cases client : c' = c
  · subst client
    refine tidy_of_entry _ (s := s) ?_
    rw [entry_hashInsert, if_pos ⟨rfl, rfl⟩]
    exact Option.some_ne_none _
  · exact σ.tidy_setClient_ne client _ tidy

theorem tidy_subCleanup (c c' : ClientId) (s : SubId) (csub : ClientSub) (tidy : σ.Tidy c') :
    (σ.subCleanup c s csub true).Tidy c' := by
  by_cases client : c' = c
  · subst client
    exact tidy_dropEmpty _ c'
  · refine tidy_setClient_ne _ client _ (tidy_setClient_ne _ client _ ?_)
    refine σ.tidy_of_subs tidy ?_
    rw [clients_subUnref]
    simp only [subFree, clients_clientOff]
    rfl

/-! ### Which case an operation takes -/

section Cases

variable {σ : Server} {c : ClientId} {s : SubId} {csub : ClientSub}

theorem clientSubAdd_closing (closing : (σ.clients c).closing = true) (fairUse : Bool) :
    σ.clientSubAdd c s fairUse = (σ, .null) := by
  simp [clientSubAdd, closing]

theorem clientSubAdd_stored (notClosing : (σ.clients c).closing = false)
    (stored : σ.entry c s = some csub) (fairUse : Bool) :
    σ.clientSubAdd c s fairUse =
      (σ.hashInsert c s { csub with tombstone := false },
        if csub.pending then .pending else .active) := by
  simp [clientSubAdd, notClosing, stored]

theorem clientSubAdd_refused (notClosing : (σ.clients c).closing = false)
    (absent : σ.entry c s = none) : σ.clientSubAdd c s false = (σ, .null) := by
  simp [clientSubAdd, notClosing, absent, subAlloc]

/-- The state after `CLIENT_SUB_CREATED`. -/
def added (σ : Server) (c : ClientId) (s : SubId) : Server :=
  (({ σ with fairUsed := σ.fairUsed + 1, nextIdx := σ.nextIdx + 1 } : Server).subRef s).hashInsert
    c s ⟨σ.nextIdx, true, false⟩

theorem clientSubAdd_created (notClosing : (σ.clients c).closing = false)
    (absent : σ.entry c s = none) : σ.clientSubAdd c s true = (σ.added c s, .created) := by
  simp [clientSubAdd, notClosing, absent, subAlloc, added]

theorem clientSubAccept_absent (absent : σ.entry c s = none) (listOk : Bool) :
    σ.clientSubAccept c s listOk = (σ, .null) := by
  simp [clientSubAccept, absent]

theorem clientSubAccept_failed (stored : σ.entry c s = some csub) :
    σ.clientSubAccept c s false = (σ.subCleanup c s csub true, .null) := by
  simp [clientSubAccept, stored]

/-- The state in which an accepted entry has joined the list. -/
def joined (σ : Server) (c : ClientId) (s : SubId) (csub : ClientSub) : Server :=
  (σ.listAdd s csub.idx c).hashInsert c s { csub with pending := false }

theorem clientSubAccept_active (stored : σ.entry c s = some csub)
    (wanted : csub.tombstone = false) :
    σ.clientSubAccept c s true = (σ.joined c s csub, .active) := by
  simp [clientSubAccept, stored, wanted, joined]

theorem clientSubAccept_tombstoned (stored : σ.entry c s = some csub)
    (tombstone : csub.tombstone = true) :
    σ.clientSubAccept c s true =
      ((σ.joined c s csub).subCleanup c s { csub with pending := false } true, .tombstoned) := by
  simp [clientSubAccept, stored, tombstone, joined]

theorem subRemove_absent (absent : σ.entry c s = none) (rejected : Bool) :
    σ.subRemove c s rejected = (σ, false) := by
  simp [subRemove, absent]

theorem subRemove_pending (stored : σ.entry c s = some csub) (pending : csub.pending = true) :
    σ.subRemove c s false = (σ.hashInsert c s { csub with tombstone := true }, false) := by
  simp [subRemove, stored, pending]

theorem subRemove_removed (stored : σ.entry c s = some csub) {rejected : Bool}
    (removed : rejected = true ∨ csub.pending = false) :
    σ.subRemove c s rejected = (σ.subCleanup c s csub true, true) := by
  rcases removed with rfl | listed
  · simp [subRemove, stored]
  · simp [subRemove, stored, listed]

end Cases

/-! ### What the operations do to a subscriber list -/

/-- The items of a subscription's list. -/
def subscribers (s : SubId) : List (Nat × ClientId) := (σ.heap s).subscribers

theorem subscribers_setSub (s s' : SubId) (sub : Subscription) :
    (σ.setSub s sub).subscribers s' = if s' = s then sub.subscribers else σ.subscribers s' := by
  by_cases same : s' = s
  · subst same
    simp [subscribers, setSub]
  · simp [subscribers, setSub, same]

@[simp] theorem subscribers_subRef (s : SubId) : (σ.subRef s).subscribers = σ.subscribers := by
  funext s'
  change (σ.setSub s { σ.heap s with refs := (σ.heap s).refs + 1 }).subscribers s' = _
  rw [subscribers_setSub]
  split
  next same => subst same; rfl
  next => rfl

@[simp] theorem subscribers_subUnref (s : SubId) : (σ.subUnref s).subscribers = σ.subscribers := by
  have kept : ∀ (refs : UInt32) (freed : Bool),
      (σ.setSub s { σ.heap s with refs, freed }).subscribers = σ.subscribers := by
    intro refs freed
    funext s'
    rw [subscribers_setSub]
    split
    next same => subst same; rfl
    next => rfl
  unfold subUnref
  dsimp only
  split
  · exact kept _ true
  · exact kept _ _

@[simp] theorem subscribers_clientOff (c : ClientId) (s : SubId) :
    (σ.clientOff c s).subscribers = σ.subscribers := by
  unfold clientOff
  split <;> rfl

theorem subscribers_subCleanup (c : ClientId) (s s' : SubId) (csub : ClientSub) (table : Bool) :
    (σ.subCleanup c s csub table).subscribers s' =
      if s' = s then (σ.subscribers s).filter fun item => item.1 != csub.idx
      else σ.subscribers s' := by
  have inner : ((((σ.listRemove s csub.idx).clientOff c s).subFree).subUnref s).subscribers s' =
      if s' = s then (σ.subscribers s).filter fun item => item.1 != csub.idx
      else σ.subscribers s' := by
    rw [subscribers_subUnref]
    change ((σ.listRemove s csub.idx).clientOff c s).subscribers s' = _
    rw [subscribers_clientOff, listRemove, subscribers_setSub]
    rfl
  cases table
  · exact inner
  · exact inner

theorem subscribers_subCreate (ev : Event Handlers) (evExtra : Bytes) (s : SubId) :
    (σ.subCreate ev evExtra).subscribers s = if s = σ.nextSub then [] else σ.subscribers s :=
  σ.subscribers_setSub σ.nextSub s _

/-! ### What the operations do to the rest -/

@[simp] theorem nextIdx_subUnref (s : SubId) : (σ.subUnref s).nextIdx = σ.nextIdx := by
  unfold subUnref
  dsimp only
  split <;> rfl

@[simp] theorem nextIdx_clientOff (c : ClientId) (s : SubId) :
    (σ.clientOff c s).nextIdx = σ.nextIdx := by
  unfold clientOff
  split <;> rfl

@[simp] theorem nextIdx_subCleanup (c : ClientId) (s : SubId) (csub : ClientSub) (table : Bool) :
    (σ.subCleanup c s csub table).nextIdx = σ.nextIdx := by
  have inner : ((((σ.listRemove s csub.idx).clientOff c s).subFree).subUnref s).nextIdx =
      σ.nextIdx := by
    rw [nextIdx_subUnref]
    exact nextIdx_clientOff _ c s
  cases table
  · exact inner
  · exact inner

@[simp] theorem nextSub_subUnref (s : SubId) : (σ.subUnref s).nextSub = σ.nextSub := by
  unfold subUnref
  dsimp only
  split <;> rfl

@[simp] theorem nextSub_clientOff (c : ClientId) (s : SubId) :
    (σ.clientOff c s).nextSub = σ.nextSub := by
  unfold clientOff
  split <;> rfl

@[simp] theorem nextSub_subCleanup (c : ClientId) (s : SubId) (csub : ClientSub) (table : Bool) :
    (σ.subCleanup c s csub table).nextSub = σ.nextSub := by
  have inner : ((((σ.listRemove s csub.idx).clientOff c s).subFree).subUnref s).nextSub =
      σ.nextSub := by
    rw [nextSub_subUnref]
    exact nextSub_clientOff _ c s
  cases table
  · exact inner
  · exact inner

/-- Whether each client is closing, and whether it has been closed. -/
def standing (c : ClientId) : Bool × Bool := ((σ.clients c).closing, (σ.clients c).closed)

theorem closing_of_standing {σ τ : Server} (same : τ.standing = σ.standing) (c : ClientId) :
    (τ.clients c).closing = (σ.clients c).closing :=
  congrArg Prod.fst (congrFun same c)

theorem closed_of_standing {σ τ : Server} (same : τ.standing = σ.standing) (c : ClientId) :
    (τ.clients c).closed = (σ.clients c).closed :=
  congrArg Prod.snd (congrFun same c)

theorem standing_setClient (c : ClientId) (client : Client)
    (closing : client.closing = (σ.clients c).closing)
    (closed : client.closed = (σ.clients c).closed) :
    (σ.setClient c client).standing = σ.standing := by
  funext c'
  by_cases same : c' = c
  · subst same
    simp [standing, setClient, closing, closed]
  · simp [standing, setClient, same]

@[simp] theorem standing_hashInsert (c : ClientId) (s : SubId) (csub : ClientSub) :
    (σ.hashInsert c s csub).standing = σ.standing :=
  σ.standing_setClient c _ rfl rfl

@[simp] theorem standing_hashRemove (c : ClientId) (s : SubId) :
    (σ.hashRemove c s).standing = σ.standing :=
  σ.standing_setClient c _ rfl rfl

@[simp] theorem standing_dropEmpty (c : ClientId) : (σ.dropEmpty c).standing = σ.standing :=
  σ.standing_setClient c _ rfl rfl

theorem standing_subCleanup (c : ClientId) (s : SubId) (csub : ClientSub) (table : Bool) :
    (σ.subCleanup c s csub table).standing = σ.standing := by
  have inner : ((((σ.listRemove s csub.idx).clientOff c s).subFree).subUnref s).standing =
      σ.standing := by
    funext c'
    simp only [standing, clients_subUnref]
    simp only [subFree, clients_clientOff]
    rfl
  cases table
  · exact inner
  · exact (standing_dropEmpty _ c).trans ((standing_hashRemove _ c s).trans inner)

end Server

end QuickIO
