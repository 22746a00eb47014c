import QuickIO.Approvals
import QuickIO.Replies

/-!
# Nothing survives a close

`client_closed` releases the subscriptions of a client, and `client_free_all` looks for
none. Approvals that arrive afterwards hold the client and the subscription still, so
each operation has to refuse on its own: `client_sub_add` because the client is closing,
the others because there is no entry.
-/
namespace QuickIO

open Lib Server

/-! ### What holds of every client -/

/-- Whoever is on a subscriber list has an entry with that item, and a client that has
been closed is closing and has no subscriptions. -/
structure Stands (σ : Server) : Prop where
  listed : ∀ c s i, (i, c) ∈ σ.subscribers s → ∃ csub, σ.entry c s = some csub ∧ csub.idx = i
  gone : ∀ c, (σ.clients c).closed = true →
    (σ.clients c).closing = true ∧ (σ.clients c).subs = none

section Stands

variable {σ τ : Server} {c : ClientId} {s : SubId} {csub : ClientSub}

theorem Stands.of_blank (blank : σ.Blank) : Stands σ where
  listed c s i member := by
    rw [blank.subscribers] at member
    cases member
  gone c closed := by
    rw [(blank.client c).2.2] at closed
    cases closed

/-- An entry belongs to a client that has not been closed. -/
theorem Stands.open_of_entry (stands : Stands σ) (stored : σ.entry c s = some csub) :
    (σ.clients c).closed = false := by
  cases closed : (σ.clients c).closed with
  | false => rfl
  | true =>
    rw [Server.entry, Client.subGet, (stands.gone c closed).2] at stored
    cases stored

/-- A client without subscriptions has no entry. -/
theorem entry_of_subs (none_ : (σ.clients c).subs = none) (s : SubId) : σ.entry c s = none := by
  rw [Server.entry, Client.subGet, none_]
  rfl

/-- No client changes, and no list grows. -/
theorem Stands.of_clients (stands : Stands σ) (clients : τ.clients = σ.clients)
    (lists : ∀ s item, item ∈ τ.subscribers s → item ∈ σ.subscribers s) : Stands τ where
  listed c s i member := by
    rw [Server.entry, clients]
    exact stands.listed c s i (lists s _ member)
  gone c closed := by
    rw [clients] at closed ⊢
    exact stands.gone c closed

/-- The subscriptions of a client change that has not been closed. -/
theorem Stands.change (stands : Stands σ) (open_ : (σ.clients c).closed = false)
    (others : ∀ d, d ≠ c → τ.clients d = σ.clients d) (standing : τ.standing = σ.standing)
    (listed : ∀ d s i, (i, d) ∈ τ.subscribers s →
      ∃ csub, τ.entry d s = some csub ∧ csub.idx = i) : Stands τ where
  listed := listed
  gone d closed := by
    rw [closed_of_standing standing] at closed
    -- `d` is closed and `c` is not
    have other : d ≠ c := by
      rintro rfl
      rw [open_] at closed
      cases closed
    rw [others d other]
    exact stands.gone d closed

theorem clients_hashInsert_ne {d : ClientId} (other : d ≠ c) :
    (σ.hashInsert c s csub).clients d = σ.clients d := by
  simp [hashInsert, setClient, other]

theorem clients_subCleanup_ne {d : ClientId} (other : d ≠ c) (table : Bool) :
    (σ.subCleanup c s csub table).clients d = σ.clients d := by
  have inner : ((((σ.listRemove s csub.idx).clientOff c s).subFree).subUnref s).clients =
      σ.clients := by
    rw [clients_subUnref]
    simp only [subFree, clients_clientOff]
    rfl
  cases table with
  | false => exact congrFun inner d
  | true => simpa [subCleanup, dropEmpty, hashRemove, setClient, other] using congrFun inner d

/-- An entry is written that is new, or keeps its item. -/
theorem Stands.hashInsert (stands : Stands σ) (open_ : (σ.clients c).closed = false)
    (item : ∀ old, σ.entry c s = some old → csub.idx = old.idx) :
    Stands (σ.hashInsert c s csub) := by
  refine stands.change open_ (fun d other => clients_hashInsert_ne other)
    (standing_hashInsert σ c s csub) ?_
  intro d r i member
  obtain ⟨old, stored, idx⟩ := stands.listed d r i member
  rw [entry_hashInsert]
  split
  next here =>
    obtain ⟨rfl, rfl⟩ := here
    exact ⟨csub, rfl, (item old stored).trans idx⟩
  next => exact ⟨old, stored, idx⟩

/-- The client joins the list with the item of its entry. -/
theorem Stands.listAdd (stands : Stands σ) (stored : σ.entry c s = some csub) :
    Stands (σ.listAdd s csub.idx c) where
  listed d r i member := by
    rw [Server.listAdd, subscribers_setSub] at member
    split at member
    next here =>
      subst here
      rcases List.mem_append.mp member with earlier | new
      · exact stands.listed d r i earlier
      · cases List.mem_singleton.mp new
        exact ⟨csub, stored, rfl⟩
    next => exact stands.listed d r i member
  gone := stands.gone

/-- What is left of a list when an item is taken off it, with the entry the item
belongs to. -/
theorem Stands.off_list (stands : Stands σ) (stored : σ.entry c s = some csub) {d : ClientId}
    {r : SubId} {i : Nat}
    (member : (i, d) ∈ if r = s then (σ.subscribers s).filter fun item => item.1 != csub.idx
      else σ.subscribers r) :
    ∃ csub', (if d = c ∧ r = s then none else σ.entry d r) = some csub' ∧ csub'.idx = i := by
  by_cases sub : r = s
  · subst sub
    rw [if_pos rfl] at member
    obtain ⟨member, other⟩ := List.mem_filter.mp member
    obtain ⟨csub', stored', idx⟩ := stands.listed d r i member
    refine ⟨csub', ?_, idx⟩
    rw [if_neg, stored']
    -- the client's own item is the one that was taken off
    rintro ⟨rfl, -⟩
    cases stored.symm.trans stored'
    simp [idx] at other
  · rw [if_neg sub] at member
    rw [if_neg fun here => sub here.2]
    exact stands.listed d r i member

/-- `_sub_cleanup` takes the entry and the item. -/
theorem Stands.subCleanup (stands : Stands σ) (stored : σ.entry c s = some csub) :
    Stands (σ.subCleanup c s csub true) := by
  refine stands.change (stands.open_of_entry stored)
    (fun d other => clients_subCleanup_ne other true) (standing_subCleanup σ c s csub true) ?_
  intro d r i member
  rw [subscribers_subCleanup] at member
  rw [entry_subCleanup]
  exact stands.off_list stored member

theorem Stands.closeEntry (stands : Stands σ) (stored : σ.entry c s = some csub) :
    Stands (closeEntry c σ ⟨s, csub⟩) := by
  refine stands.change (stands.open_of_entry stored) (fun d other => ?_) ?_ ?_
  · rw [Server.closeEntry, clients_subCleanup_ne other]
    simp [hashRemove, setClient, other]
  · rw [Server.closeEntry, standing_subCleanup, standing_hashRemove]
  · intro d r i member
    rw [Server.closeEntry, subscribers_subCleanup] at member
    rw [entry_closeEntry]
    exact stands.off_list stored member

/-- The loop of `client_closed` leaves no entry it went over. -/
theorem Stands.closeEntries (stands : Stands σ)
    (rest : List (Sigma fun _ : SubId => ClientSub)) (distinct : rest.NodupKeys)
    (stored : ∀ item ∈ rest, σ.entry c item.1 = some item.2) :
    Stands (rest.foldl (Server.closeEntry c) σ) ∧
      ∀ s csub, (rest.foldl (Server.closeEntry c) σ).entry c s = some csub →
        σ.entry c s = some csub ∧ ⟨s, csub⟩ ∉ rest := by
  induction rest generalizing σ with
  | nil => exact ⟨stands, fun s csub at_ => ⟨at_, List.not_mem_nil⟩⟩
  | cons item rest ih =>
    -- the entry of this turn goes, and the rest are of other subscriptions
    obtain ⟨s, csub⟩ := item
    obtain ⟨fresh, distinct⟩ := List.nodupKeys_cons.mp distinct
    have turned : Stands (Server.closeEntry c σ ⟨s, csub⟩) :=
      stands.closeEntry (stored _ List.mem_cons_self)
    obtain ⟨after, left⟩ := ih turned distinct (by
      intro other member
      have apart : other.1 ≠ s := by
        have key := List.mem_keys_of_mem member
        rintro rfl
        exact fresh key
      rw [entry_closeEntry, if_neg fun here => apart here.2]
      exact stored other (List.mem_cons_of_mem _ member))
    refine ⟨after, fun r csub' at_ => ?_⟩
    obtain ⟨before, unlisted⟩ := left r csub' at_
    rw [entry_closeEntry] at before
    -- what is left at the end was there before and is none of these
    obtain ⟨other, before⟩ := Option.ite_none_left_eq_some.mp before
    refine ⟨before, fun member => ?_⟩
    rcases List.mem_cons.mp member with same | member
    · cases same
      exact other ⟨rfl, rfl⟩
    · exact unlisted member

theorem Stands.emptied (stands : Stands σ) (c : ClientId) :
    Stands (σ.emptied c) ∧ ∀ s, (σ.emptied c).entry c s = none := by
  simp only [Server.emptied]
  cases table : (σ.clients c).subs with
  | none => exact ⟨stands, entry_of_subs table⟩
  | some subs =>
    have stored : ∀ s csub, σ.entry c s = some csub ↔ ⟨s, csub⟩ ∈ subs.entries := by
      intro s csub
      simp only [Server.entry, Client.subGet, table, Option.bind_some]
      exact AList.mem_lookup_iff
    obtain ⟨after, left⟩ := stands.closeEntries (c := c) subs.entries subs.nodupKeys
      fun item member => (stored item.1 item.2).mpr member
    refine ⟨after, fun s => ?_⟩
    cases at_ : (subs.entries.foldl (Server.closeEntry c) σ).entry c s with
    | none => rfl
    | some csub =>
      obtain ⟨before, unlisted⟩ := left s csub at_
      exact absurd ((stored s csub).mp before) unlisted

/-- `client_closed` of a client that is closing. -/
theorem Stands.clientClosed (stands : Stands σ) (closing : (σ.clients c).closing = true) :
    Stands (σ.clientClosed c) := by
  obtain ⟨after, absent⟩ := stands.emptied c
  have standing := (Keeps.framed.emptied σ c).standing
  rw [clientClosed_eq]
  -- `τ` is the server after the loop, without an entry of `c`
  generalize σ.emptied c = τ at after standing absent
  have same := closing_of_standing standing c
  constructor
  · intro d s i member
    obtain ⟨csub, stored, idx⟩ := after.listed d s i member
    refine ⟨csub, ?_, idx⟩
    by_cases client : d = c
    · subst client
      rw [absent s] at stored
      cases stored
    · simpa [Server.entry, setClient, client] using stored
  · intro d closed
    by_cases client : d = c
    · subst client
      simp [setClient, same, closing]
    · simp only [setClient, Function.update_of_ne client] at closed ⊢
      exact after.gone d closed

theorem Stands.qevClose (stands : Stands σ) (c : ClientId) : Stands (σ.qevClose c) := by
  constructor
  · intro d s i member
    rw [entry_qevClose]
    exact stands.listed d s i member
  · intro d closed
    by_cases client : d = c
    · subst client
      have before : (σ.clients d).closed = true := by
        simpa [Server.qevClose, setClient] using closed
      simp [Server.qevClose, setClient, (stands.gone d before).2]
    · simp only [Server.qevClose, setClient, Function.update_of_ne client] at closed ⊢
      exact stands.gone d closed

/-! ### The functions of client.c and sub.c -/

/-- `sub_get` changes no client, and the list of a new subscription is empty. -/
theorem subGet_clients {ev : Event Handlers} {evExtra : Bytes} {orCreate : Bool}
    (got : σ.subGet ev evExtra orCreate = some (s, τ)) :
    τ.clients = σ.clients ∧ ∀ r item, item ∈ τ.subscribers r → item ∈ σ.subscribers r := by
  have created : ∀ r item, item ∈ (σ.subCreate ev evExtra).subscribers r →
      item ∈ σ.subscribers r := by
    intro r item member
    rw [subscribers_subCreate] at member
    split at member
    next => cases member
    next => exact member
  simp only [Server.subGet, Server.getIfExists] at got
  cases stored : σ.table ev.evPath evExtra with
  | none =>
    simp only [stored] at got
    obtain ⟨-, ⟨⟩⟩ := Option.ite_none_right_eq_some.mp got
    exact ⟨rfl, created⟩
  | some r =>
    by_cases dead : (σ.heap r).refs = 0
    · -- its last reference is gone, and a new one replaces it
      simp only [stored, dead, if_true] at got
      obtain ⟨-, ⟨⟩⟩ := Option.ite_none_right_eq_some.mp got
      exact ⟨rfl, created⟩
    · simp only [stored, dead, if_false, Option.some.injEq, Prod.mk.injEq] at got
      obtain ⟨-, rfl⟩ := got
      refine ⟨rfl, fun r' item member => ?_⟩
      rwa [subscribers_subRef] at member

theorem Stands.subGet (stands : Stands σ) {ev : Event Handlers} {evExtra : Bytes}
    {orCreate : Bool} (got : σ.subGet ev evExtra orCreate = some (s, τ)) : Stands τ :=
  stands.of_clients (subGet_clients got).1 (subGet_clients got).2

theorem Stands.subRef (stands : Stands σ) (s : SubId) : Stands (σ.subRef s) :=
  stands.of_clients rfl fun r item member => by rwa [subscribers_subRef] at member

theorem Stands.subUnref (stands : Stands σ) (s : SubId) : Stands (σ.subUnref s) :=
  stands.of_clients (clients_subUnref σ s) fun r item member => by
    rwa [subscribers_subUnref] at member

/-- A client that is closing is refused. Otherwise it has not been closed. -/
theorem Stands.clientSubAdd (stands : Stands σ) (c : ClientId) (s : SubId) (fairUse : Bool) :
    Stands (σ.clientSubAdd c s fairUse).1 := by
  cases closing : (σ.clients c).closing with
  | true =>
    rw [clientSubAdd_closing closing]
    exact stands
  | false =>
    -- a closed client would be closing
    have open_ : (σ.clients c).closed = false := by
      by_contra closed
      rw [(stands.gone c (by simpa using closed)).1] at closing
      cases closing
    cases stored : σ.entry c s with
    | some csub =>
      rw [clientSubAdd_stored closing stored]
      refine stands.hashInsert open_ fun old at_ => ?_
      -- the entry keeps its item
      cases stored.symm.trans at_
      rfl
    | none =>
      cases fairUse with
      | false =>
        rw [clientSubAdd_refused closing stored]
        exact stands
      | true =>
        rw [clientSubAdd_created closing stored]
        have alloc : Stands { σ with fairUsed := σ.fairUsed + 1, nextIdx := σ.nextIdx + 1 } :=
          stands.of_clients rfl fun _ _ member => member
        -- a new item, and no entry that had one
        refine (alloc.subRef s).hashInsert open_ fun old at_ => ?_
        cases stored.symm.trans at_

/-- Without an entry nothing is accepted. -/
theorem Stands.clientSubAccept (stands : Stands σ) (c : ClientId) (s : SubId) (listOk : Bool) :
    Stands (σ.clientSubAccept c s listOk).1 := by
  cases stored : σ.entry c s with
  | none =>
    rw [clientSubAccept_absent stored]
    exact stands
  | some csub =>
    cases listOk with
    | false =>
      rw [clientSubAccept_failed stored]
      exact stands.subCleanup stored
    | true =>
      -- the entry and its item join together, even if a tombstone takes both away again
      have joined : Stands (σ.joined c s csub) := by
        refine (stands.listAdd stored).hashInsert (stands.open_of_entry stored) fun old at_ => ?_
        cases stored.symm.trans at_
        rfl
      cases wanted : csub.tombstone with
      | false =>
        rw [clientSubAccept_active stored wanted]
        exact joined
      | true =>
        rw [clientSubAccept_tombstoned stored wanted]
        refine joined.subCleanup ?_
        rw [Server.joined, entry_hashInsert, if_pos ⟨rfl, rfl⟩]

/-- Without an entry nothing is removed. -/
theorem Stands.subRemove (stands : Stands σ) (c : ClientId) (s : SubId) (rejected : Bool) :
    Stands (σ.subRemove c s rejected).1 := by
  cases stored : σ.entry c s with
  | none =>
    rw [subRemove_absent stored]
    exact stands
  | some csub =>
    by_cases removed : rejected = true ∨ csub.pending = false
    · rw [subRemove_removed stored removed]
      exact stands.subCleanup stored
    · obtain ⟨kept, pending⟩ := not_or.mp removed
      rw [Bool.not_eq_true] at kept
      rw [Bool.not_eq_false] at pending
      rw [kept, subRemove_pending stored pending]
      refine stands.hashInsert (stands.open_of_entry stored) fun old at_ => ?_
      cases stored.symm.trans at_
      rfl

/-! ### The functions of evs.c -/

theorem Stands.sameSubs (stands : Stands σ) (same : SameSubs σ τ) : Stands τ where
  listed c s i member := by
    rw [same.entry]
    refine stands.listed c s i ?_
    simpa only [Server.subscribers, same.heap] using member
  gone c closed := by
    rw [closed_of_standing same.standing] at closed
    rw [closing_of_standing same.standing, same.subs]
    exact stands.gone c closed

theorem Stands.evsOnCb (stands : Stands σ) (env : Env) (success : Bool) (info : EvsOnInfo) :
    Stands (σ.evsOnCb env success info).1 := by
  have same := sameSubs_evsOnCb env σ success info
  cases success with
  | false => exact (stands.subRemove info.client info.sub true).sameSubs same
  | true => exact (stands.clientSubAccept info.client info.sub env.listOk).sameSubs same

theorem Stands.evsOnCreated (stands : Stands σ) (env : Env) (info : EvsOnInfo)
    (answer : OnAnswer) : Stands (σ.evsOnCreated env info answer).server := by
  cases answer with
  | ok => exact stands.evsOnCb env true info
  | err => exact stands.evsOnCb env false info
  | now success => exact stands.evsOnCb env success info
  | later => exact stands.subRef info.sub

theorem Stands.evsOn (stands : Stands σ) (env : Env) (c : ClientId) (ev : Event Handlers)
    (evExtra : Bytes) (clientCb : EvsCb) (json : Option Bytes) :
    Stands (σ.evsOn env c ev evExtra clientCb json).server := by
  obtain ⟨s, τ, got⟩ := subGet_isSome σ ev evExtra
  have added := (stands.subGet got).clientSubAdd c s env.fairUse
  simp only [Server.evsOn, got]
  revert added
  rcases τ.clientSubAdd c s env.fairUse with ⟨υ, state⟩
  intro added
  cases state with
  | pending => exact (added.sameSubs (sameSubs_evsErrCb env υ c clientCb _ _ none)).subUnref s
  | tombstoned => exact (added.sameSubs (sameSubs_evsErrCb env υ c clientCb _ none none)).subUnref s
  | null => exact (added.sameSubs (sameSubs_evsErrCb env υ c clientCb _ none none)).subUnref s
  | active => exact (added.sameSubs (sameSubs_evsCb env υ c clientCb none)).subUnref s
  | created =>
    exact (added.evsOnCreated env ⟨evExtra, json, s, c, clientCb⟩ (onAnswer env ev)).subUnref s

theorem Stands.evsOff (stands : Stands σ) (c : ClientId) (ev : Event Handlers)
    (evExtra : Bytes) : Stands (σ.evsOff c ev evExtra) := by
  simp only [Server.evsOff]
  split
  next => exact stands
  next s τ got => exact ((stands.subGet got).subRemove c s false).subUnref s

end Stands

/-! ### Who has been closed -/

/-- `client_closed` of `d` does not reopen `c`. -/
theorem closed_clientClosed {σ : Server} {c : ClientId} (closed : (σ.clients c).closed = true)
    (d : ClientId) : ((σ.clientClosed d).clients c).closed = true := by
  have standing := (Keeps.framed.emptied σ d).standing
  rw [clientClosed_eq]
  by_cases client : c = d
  · subst client
    simp [setClient]
  · simp only [setClient, Function.update_of_ne client]
    exact (closed_of_standing standing c).trans closed

/-! ### Refusals -/

/-- The answer 420. A client that gave no callback is not answered. -/
def calmReply (env : Env) (c : ClientId) (clientCb : EvsCb) : List Send :=
  if clientCb = 0 then []
  else [⟨c, cbPath clientCb, [], evsNoCallback, cbJson env codeEnhanceCalm none none⟩]

section Refusals

variable (env : Env) (σ : Server) (c : ClientId)

theorem evsErrCb_calm (clientCb : EvsCb) :
    σ.evsErrCb env c clientCb codeEnhanceCalm none none = (σ, calmReply env c clientCb) := by
  have failure : codeEnhanceCalm ≠ codeOk := by decide
  simp only [evsErrCb, evsCbFull, cbNew_none, failure, if_false, calmReply]
  split <;> rfl

variable {σ c}

/-- `evs_on_cb` of a client without the entry: it is only told. -/
theorem evsOnCb_absent {info : EvsOnInfo} (absent : σ.entry info.client info.sub = none)
    (success : Bool) :
    (σ.evsOnCb env success info).1 = σ ∧
      (success = true → (σ.evsOnCb env success info).2 = calmReply env info.client info.clientCb) := by
  cases success with
  | false =>
    refine ⟨?_, Bool.noConfusion⟩
    simp only [Server.evsOnCb, Bool.false_eq_true, if_false, evsErrCb_server,
      Server.clientSubReject, subRemove_absent absent]
  | true =>
    have told : σ.evsOnCb env true info = (σ, calmReply env info.client info.clientCb) := by
      simp only [Server.evsOnCb, if_true, clientSubAccept_absent absent, evsErrCb_calm]
    rw [told]
    exact ⟨rfl, fun _ => rfl⟩

/-- `evs_on` of a client that is closing. -/
theorem evsOn_closing (closing : (σ.clients c).closing = true) (ev : Event Handlers)
    (evExtra : Bytes) (clientCb : EvsCb) (json : Option Bytes) :
    ∃ τ, σ.evsOn env c ev evExtra clientCb json = .reply (τ, calmReply env c clientCb) := by
  obtain ⟨s, τ, got⟩ := subGet_isSome σ ev evExtra
  have still : (τ.clients c).closing = true := by rw [(subGet_clients got).1, closing]
  refine ⟨τ.subUnref s, ?_⟩
  simp only [Server.evsOn, got, clientSubAdd_closing still, evsErrCb_calm, Outcome.reply]

end Refusals

/-! ### Runs -/

namespace Closing

/-- One call. Events are subscribed to and left, subscriptions are used by the
application, and `evs_on_cb` is called at any time and with any info. -/
inductive Label where
  | on (env : Env) (c : ClientId) (ev : Event Handlers) (evExtra : Bytes) (clientCb : EvsCb)
      (json : Option Bytes)
  | off (c : ClientId) (ev : Event Handlers) (evExtra : Bytes)
  | onCb (env : Env) (success : Bool) (info : EvsOnInfo)
  | get (ev : Event Handlers) (evExtra : Bytes) (orCreate : Bool)
  | ref (s : SubId)
  | unref (s : SubId)
  | close (c : ClientId)
  | closed (c : ClientId)

/-- Only `client_closed` waits for something: the client has to be closing. -/
def step (σ : Server) : Label → Option Server
  | .on env c ev evExtra clientCb json => some (σ.evsOn env c ev evExtra clientCb json).server
  | .off c ev evExtra => some (σ.evsOff c ev evExtra)
  | .onCb env success info => some (σ.evsOnCb env success info).1
  | .get ev evExtra orCreate =>
    match σ.subGet ev evExtra orCreate with
    | none => some σ
    | some (_, σ) => some σ
  | .ref s => some (σ.subRef s)
  | .unref s => some (σ.subUnref s)
  | .close c => some (σ.qevClose c)
  | .closed c => if (σ.clients c).closing then some (σ.clientClosed c) else none

def system : TransitionSystem Server Label where
  init := Server.Blank
  step := step

theorem stands_step (σ : Server) (l : Label) (τ : Server) (stands : Stands σ)
    (stepped : step σ l = some τ) : Stands τ := by
  cases l with
  | on env c ev evExtra clientCb json =>
    cases stepped
    exact stands.evsOn env c ev evExtra clientCb json
  | off c ev evExtra =>
    cases stepped
    exact stands.evsOff c ev evExtra
  | onCb env success info =>
    cases stepped
    exact stands.evsOnCb env success info
  | get ev evExtra orCreate =>
    -- `sub_get` may find nothing
    simp only [step] at stepped
    split at stepped
    next =>
      cases stepped
      exact stands
    next s υ got =>
      cases stepped
      exact stands.subGet got
  | ref s =>
    cases stepped
    exact stands.subRef s
  | unref s =>
    cases stepped
    exact stands.subUnref s
  | close c =>
    cases stepped
    exact stands.qevClose c
  | closed c =>
    obtain ⟨closing, ⟨⟩⟩ := Option.ite_none_right_eq_some.mp stepped
    exact stands.clientClosed closing

/-- No function but `client_closed` says that a client has been closed, and none takes
it back. -/
theorem closed_step (σ : Server) (l : Label) (τ : Server) (c : ClientId)
    (closed : (σ.clients c).closed = true) (stepped : step σ l = some τ) :
    (τ.clients c).closed = true := by
  have of_standing : ∀ {υ : Server}, υ.standing = σ.standing → (υ.clients c).closed = true :=
    fun same => (closed_of_standing same c).trans closed
  -- whether a client has been closed is part of `standing`, which all but the last two keep
  cases l with
  | on env d ev evExtra clientCb json =>
    cases stepped
    exact of_standing (Keeps.framed.evsOn env σ d ev evExtra clientCb json).standing
  | off d ev evExtra =>
    cases stepped
    exact of_standing (Keeps.framed.evsOff σ d ev evExtra).standing
  | onCb env success info =>
    cases stepped
    exact of_standing (Keeps.framed.evsOnCb env σ success info).standing
  | get ev evExtra orCreate =>
    simp only [step] at stepped
    split at stepped
    next =>
      cases stepped
      exact closed
    next s υ got =>
      cases stepped
      rwa [(subGet_clients got).1]
  | ref s =>
    cases stepped
    exact closed
  | unref s =>
    cases stepped
    rwa [clients_subUnref]
  | close d =>
    cases stepped
    by_cases client : c = d
    · subst client
      simpa [Server.qevClose, setClient] using closed
    · simpa [Server.qevClose, setClient, client] using closed
  | closed d =>
    obtain ⟨-, ⟨⟩⟩ := Option.ite_none_right_eq_some.mp stepped
    exact closed_clientClosed closed d

theorem stands_reachable (σ : Server) (reached : system.Reachable σ) : Stands σ :=
  system.reachable_invariant Stands (fun _ blank => Stands.of_blank blank) stands_step σ reached

/-- The client stays closed whatever happens. -/
theorem closed_run {σ τ : Server} {c : ClientId} (stands : Stands σ)
    (closed : (σ.clients c).closed = true) {after : List Label}
    (ran : system.run σ after = some τ) : Stands τ ∧ (τ.clients c).closed = true :=
  system.run_invariant (fun σ => Stands σ ∧ (σ.clients c).closed = true)
    (fun σ l τ kept stepped => ⟨stands_step σ l τ kept.1 stepped,
      closed_step σ l τ c kept.2 stepped⟩) σ τ after ⟨stands, closed⟩ ran

/-- Once `client_closed` has run on a client that was closing, in whatever state its
subscriptions were, then after any calls: it has no subscriptions and is on no list, an
`evs_on` is answered 420, and an `evs_on_cb` changes nothing and, when it approves,
answers 420. -/
theorem nothing_survives (σ τ υ : Server) (c : ClientId) (reached : system.Reachable σ)
    (closed : step σ (.closed c) = some τ) (after : List Label)
    (ran : system.run τ after = some υ) :
    (υ.clients c).subs = none ∧ (∀ s i, (i, c) ∉ υ.subscribers s) ∧
    (∀ env ev evExtra clientCb json, ∃ ρ : Server,
      υ.evsOn env c ev evExtra clientCb json = .reply (ρ, calmReply env c clientCb)) ∧
    ∀ env success info, info.client = c →
      (υ.evsOnCb env success info).1 = υ ∧
      (success = true → (υ.evsOnCb env success info).2 = calmReply env c info.clientCb) := by
  have stands := stands_step σ (.closed c) τ (stands_reachable σ reached) closed
  have gone : (τ.clients c).closed = true := by
    obtain ⟨-, ⟨⟩⟩ := Option.ite_none_right_eq_some.mp closed
    simp [clientClosed_eq, setClient]
  obtain ⟨still, closed⟩ := closed_run stands gone ran
  obtain ⟨closing, empty⟩ := still.gone c closed
  refine ⟨empty, ?_, ?_, ?_⟩
  · intro s i member
    -- an item would be of an entry
    obtain ⟨csub, stored, -⟩ := still.listed c s i member
    rw [entry_of_subs empty] at stored
    cases stored
  · exact fun env ev evExtra clientCb json => evsOn_closing env closing ev evExtra clientCb json
  · rintro env success info rfl
    exact evsOnCb_absent env (entry_of_subs empty info.sub) success

def busyEvent : Event Handlers := ⟨str "/a", ⟨none, some (.app 0), none⟩, true⟩

/-- An active, a pending and a tombstoned subscription of a client that is closing. -/
def busy : List Label := [
  .on { lateEnv with onFn := .now true } 3 busyEvent (str "/x") 7 none,
  .on lateEnv 3 busyEvent (str "/y") 8 none, .on lateEnv 3 busyEvent (str "/z") 9 none,
  .off 3 busyEvent (str "/z"), .close 3]

/-- The two approvals come, and the client tries again. -/
def late : List Label := [
  .onCb lateEnv true ⟨str "/y", none, 1, 3, 8⟩, .unref 1,
  .on lateEnv 3 busyEvent (str "/x") 10 none,
  .onCb lateEnv false ⟨str "/z", none, 2, 3, 9⟩, .unref 2, .off 3 busyEvent (str "/x")]

theorem nothing_survives_busy : ∃ σ υ : Server,
    system.run Server.new busy = some σ ∧
    system.run Server.new (busy ++ .closed 3 :: late) = some υ ∧
    (σ.clientSubActive 3 0 = true ∧ σ.entry 3 1 = some ⟨1, true, false⟩ ∧
      σ.entry 3 2 = some ⟨2, true, true⟩) ∧
    (υ.clients 3).subs = none ∧ (∀ s i, (i, 3) ∉ υ.subscribers s) ∧
    (υ.evsOnCb lateEnv true ⟨str "/y", none, 1, 3, 8⟩).1 = υ := by
  have some_ : (system.run Server.new (busy ++ .closed 3 :: late)).isSome := by decide
  obtain ⟨υ, ran⟩ := Option.isSome_iff_exists.mp some_
  obtain ⟨σ, before, rest⟩ := (system.run_append_iff _ _ busy _).mp ran
  obtain ⟨τ, closed, after⟩ := (system.run_cons_iff _ _ _ _).mp rest
  have states : ∀ σ ∈ system.run Server.new busy, σ.clientSubActive 3 0 = true ∧
      σ.entry 3 1 = some ⟨1, true, false⟩ ∧ σ.entry 3 2 = some ⟨2, true, true⟩ := by decide
  obtain ⟨empty, unlisted, -, refused⟩ :=
    nothing_survives σ τ υ 3 ⟨_, busy, Server.new_blank, before⟩ closed late after
  exact ⟨σ, υ, before, ran, states σ before, empty, unlisted,
    (refused lateEnv true ⟨str "/y", none, 1, 3, 8⟩ rfl).1⟩

end Closing

end QuickIO
