import QuickIO.Frames

/-!
# Subscribing, unsubscribing and approving

What `evs_on`, `evs_off` and `evs_on_cb` do to the one entry they are about.
They keep the invariant, where every copy of an info counts as a reference and
as an outstanding completion.
-/
namespace QuickIO

open Server

/-- The path and `ev_extra` a subscription was created for. -/
def Server.key (σ : Server) (s : SubId) : Bytes × Bytes :=
  ((σ.heap s).ev.evPath, (σ.heap s).evExtra)

/-- The event and `ev_extra` of a subscription. -/
def Server.source (σ : Server) (s : SubId) : Event Handlers × Bytes :=
  ((σ.heap s).ev, (σ.heap s).evExtra)

/-- Subscriptions stay what they were created for, no client closes, and a
count that has wrapped is not forgotten. -/
structure Keeps (σ τ : Server) : Prop where
  source : ∀ s, s < σ.nextSub → τ.source s = σ.source s
  nextSub : σ.nextSub ≤ τ.nextSub
  standing : τ.standing = σ.standing
  unwrapped : τ.wrapped = false → σ.wrapped = false

namespace Keeps

variable {σ τ υ : Server}

theorem key (kept : Keeps σ τ) (s : SubId) (below : s < σ.nextSub) : τ.key s = σ.key s :=
  congrArg (fun source => (source.1.evPath, source.2)) (kept.source s below)

theorem trans (first : Keeps σ τ) (second : Keeps τ υ) : Keeps σ υ where
  source s below := by
    rw [second.source s (Nat.lt_of_lt_of_le below first.nextSub), first.source s below]
  nextSub := Nat.le_trans first.nextSub second.nextSub
  standing := second.standing.trans first.standing
  unwrapped fits := first.unwrapped (second.unwrapped fits)

/-- Every function that subscribes, unsubscribes or answers keeps them. -/
theorem framed : Framed Keeps where
  trans first second := first.trans second
  books σ _ _ _ _ _ grows := ⟨fun _ _ => rfl, Nat.le_refl _, rfl, grows⟩
  setSub σ s sub ev evExtra := by
    refine ⟨fun r _ => ?_, Nat.le_refl _, rfl, id⟩
    by_cases same : r = s
    · subst same
      simp [Server.source, Server.setSub, ev, evExtra]
    · simp [Server.source, Server.setSub, same]
  setSubs σ c _ := ⟨fun _ _ => rfl, Nat.le_refl _, σ.standing_setClient c _ rfl rfl, id⟩
  subCreate σ ev evExtra := by
    refine ⟨fun s below => ?_, Nat.le_succ _, rfl, id⟩
    simp [Server.source, Server.subCreate, Server.setSub, Nat.ne_of_lt below]

end Keeps

theorem Server.source_subUnref (σ : Server) (s : SubId) : (σ.subUnref s).source = σ.source := by
  funext r
  simp only [subUnref]
  by_cases same : r = s
  · subst same
    split <;> simp [source, setSub]
  · split <;> simp [source, setSub, same]

/-! ### Callbacks do not touch subscriptions -/

/-- The two servers agree on everything about subscriptions. -/
structure SameSubs (σ τ : Server) : Prop where
  subs : ∀ c, (τ.clients c).subs = (σ.clients c).subs
  standing : τ.standing = σ.standing
  heap : τ.heap = σ.heap
  table : τ.table = σ.table
  nextSub : τ.nextSub = σ.nextSub
  nextIdx : τ.nextIdx = σ.nextIdx
  fairUsed : τ.fairUsed = σ.fairUsed
  offCalls : τ.offCalls = σ.offCalls
  wrapped : τ.wrapped = σ.wrapped

namespace SameSubs

variable {σ τ : Server}

theorem entry (same : SameSubs σ τ) (c : ClientId) (s : SubId) : τ.entry c s = σ.entry c s := by
  simp only [Server.entry, Client.subGet, same.subs]

theorem keeps (same : SameSubs σ τ) : Keeps σ τ where
  source s _ := by simp only [Server.source, same.heap]
  nextSub := Nat.le_of_eq same.nextSub.symm
  standing := same.standing
  unwrapped fits := same.wrapped ▸ fits

theorem inv {held : List SubId} {waiting : List (ClientId × SubId)} (same : SameSubs σ τ)
    (inv : Inv σ held waiting) : Inv τ held waiting := by
  obtain ⟨users, counted⟩ := inv.counted
  obtain ⟨tombstoned, listed, once, fresh, distinct⟩ := inv.lists
  have subscribers : τ.subscribers = σ.subscribers := by
    funext s
    simp only [Server.subscribers, same.heap]
  refine ⟨⟨?_, ?_, ?_, ?_, ?_⟩, inv.waits.congr same.entry same.standing, ⟨users, ?_⟩,
    fun c => σ.tidy_of_subs (inv.tidy c) (same.subs c)⟩
  · simpa only [same.entry] using tombstoned
  · simpa only [same.entry, subscribers] using listed
  · simpa only [subscribers] using once
  · simpa only [same.entry, same.nextIdx] using fresh
  · simpa only [same.entry] using distinct
  · exact counted.congr (fun c s => by rw [same.entry]) same.nextSub
      (counted.ledger.congr τ same.nextSub same.table same.wrapped fun s => by simp [same.heap])

end SameSubs

section Callbacks

variable (env : Env) (σ : Server) (c : ClientId)

theorem sameSubs_cbNew (cbFn cbData freeFn : Option Ptr) :
    SameSubs σ (σ.cbNew env c cbFn cbData freeFn).1 := by
  refine ⟨fun c' => ?_, σ.standing_setClient c _ rfl rfl, rfl, rfl, rfl, rfl, rfl, rfl, rfl⟩
  by_cases client : c' = c
  · subst client
    simp [cbNew, setClient]
  · simp [cbNew, setClient, client]

theorem sameSubs_evsCbFull (clientCb : EvsCb) (code : EvsCode) (errMsg json : Option Bytes)
    (cbFn cbData freeFn : Option Ptr) :
    SameSubs σ (σ.evsCbFull env c clientCb code errMsg json cbFn cbData freeFn).1 := by
  unfold evsCbFull
  split
  next => exact sameSubs_cbNew env σ c none cbData freeFn
  next =>
    dsimp only
    split
    next => exact sameSubs_cbNew env σ c cbFn cbData freeFn
    next => exact sameSubs_cbNew env σ c none cbData freeFn

theorem sameSubs_evsCb (clientCb : EvsCb) (json : Option Bytes) :
    SameSubs σ (σ.evsCb env c clientCb json).1 :=
  sameSubs_evsCbFull env σ c clientCb codeOk none json none none none

theorem sameSubs_evsErrCb (clientCb : EvsCb) (code : EvsCode) (errMsg json : Option Bytes) :
    SameSubs σ (σ.evsErrCb env c clientCb code errMsg json).1 :=
  sameSubs_evsCbFull env σ c clientCb code errMsg json none none none

/-- `evs_on_cb` accepts or rejects, and answers. -/
theorem sameSubs_evsOnCb (success : Bool) (info : EvsOnInfo) :
    SameSubs (if success then (σ.clientSubAccept info.client info.sub env.listOk).1
      else σ.clientSubReject info.client info.sub) (σ.evsOnCb env success info).1 := by
  unfold evsOnCb
  cases success with
  | false => exact sameSubs_evsErrCb env _ info.client info.clientCb _ none none
  | true =>
    rcases accepted : σ.clientSubAccept info.client info.sub env.listOk with ⟨τ, state⟩
    cases state <;> exact sameSubs_evsErrCb env τ info.client info.clientCb _ none none

end Callbacks

/-! ### The specifications -/

section Specifications

variable {σ τ : Server} {held : List SubId} {waiting : List (ClientId × SubId)} {c : ClientId}
  {s : SubId}

/-- A subscription that is used is the one the table holds for its key. -/
theorem Counted.table_eq {users : List (ClientId × SubId)} (counted : Counted σ held users)
    (fits : σ.wrapped = false) (positive : 0 < total users held s) (allocated : s < σ.nextSub) :
    σ.table (σ.key s).1 (σ.key s).2 = some s :=
  (counted.ledger.stored fits _ _ s).mpr ⟨allocated, Nat.ne_of_gt positive, rfl, rfl⟩

/-- Whoever has an entry for a subscription, the table of its key holds it. -/
theorem Inv.table_of_entry (inv : Inv σ held waiting) (fits : σ.wrapped = false)
    (used : σ.entry c s ≠ none) : σ.table (σ.key s).1 (σ.key s).2 = some s := by
  obtain ⟨users, counted⟩ := inv.counted
  obtain ⟨csub, stored⟩ := Option.ne_none_iff_exists'.mp used
  obtain ⟨member, allocated⟩ := counted.of_entry stored
  exact counted.table_eq fits (total_erase_user users held c s member).1 allocated

/-- Among the subscriptions with entries, each key has one. -/
theorem Inv.entry_unique (inv : Inv σ held waiting) (fits : σ.wrapped = false) {c' : ClientId}
    {r : SubId} (left : σ.entry c r ≠ none) (right : σ.entry c' s ≠ none)
    (same : σ.key r = σ.key s) : r = s := by
  have stored := inv.table_of_entry fits left
  rw [same, inv.table_of_entry fits right] at stored
  exact (Option.some.inj stored).symm

/-- `sub_get` changes no entry and returns a subscription of its key, the only
one that can have an entry. -/
theorem Inv.subGet_spec (inv : Inv σ held waiting) {ev : Event Handlers} {evExtra : Bytes}
    {orCreate : Bool} (got : σ.subGet ev evExtra orCreate = some (s, τ)) :
    Keeps σ τ ∧ (∀ c r, τ.entry c r = σ.entry c r) ∧ s < τ.nextSub ∧
    τ.key s = (ev.evPath, evExtra) ∧
    (σ.wrapped = false →
      ∀ c r, σ.entry c r ≠ none → σ.key r = (ev.evPath, evExtra) → r = s) := by
  -- the table has at most one subscription for the key
  have stored : σ.wrapped = false → ∀ c r, σ.entry c r ≠ none →
      σ.key r = (ev.evPath, evExtra) → σ.table ev.evPath evExtra = some r := by
    intro fits c r used key
    have stored := inv.table_of_entry fits used
    rwa [key] at stored
  obtain ⟨users, counted⟩ := inv.counted
  rcases subGet_cases got with ⟨found, -, rfl⟩ | ⟨dead, rfl, rfl⟩
  · -- found: nobody has an entry for another one of the key
    obtain ⟨allocated, path, extra⟩ := counted.ledger.keyed _ _ s found
    have kept := Keeps.framed.subRef σ s
    refine ⟨kept, fun _ _ => rfl, allocated, ?_, ?_⟩
    · rw [kept.key s allocated, Server.key, path, extra]
    · intro fits c r used key
      exact Option.some.inj ((stored fits c r used key).symm.trans found)
  · -- created: nobody had an entry for the key
    refine ⟨Keeps.framed.subCreate σ ev evExtra, fun _ _ => rfl, Nat.lt_succ_self _, ?_, ?_⟩
    · simp [Server.key, subCreate, setSub]
    · intro fits c r used key
      obtain ⟨allocated, live, -⟩ := (counted.ledger.stored fits _ _ r).mp (stored fits c r used key)
      have zero := dead r (stored fits c r used key)
      exact absurd ((counted.ledger.refs_eq_zero fits allocated).mp zero) live

/-- Without a subscription for the key, nobody has an entry for it. -/
theorem Inv.subGet_none (inv : Inv σ held waiting) (fits : σ.wrapped = false)
    {ev : Event Handlers} {evExtra : Bytes} (none_ : σ.subGet ev evExtra false = none)
    (c : ClientId) (r : SubId) (key : σ.key r = (ev.evPath, evExtra)) : σ.entry c r = none := by
  by_contra used
  have stored := inv.table_of_entry fits used
  rw [key] at stored
  obtain ⟨users, counted⟩ := inv.counted
  rw [counted.ledger.subGet_eq fits, stored] at none_
  cases none_

theorem entry_clientSubAccept {csub : ClientSub} (stored : σ.entry c s = some csub) (c' : ClientId)
    (s' : SubId) :
    (σ.clientSubAccept c s true).1.entry c' s' =
      if c' = c ∧ s' = s then
        if csub.tombstone then none else some { csub with pending := false }
      else σ.entry c' s' := by
  have joined : ∀ c' s', (σ.joined c s csub).entry c' s' =
      if c' = c ∧ s' = s then some { csub with pending := false } else σ.entry c' s' :=
    fun c' s' => entry_hashInsert _ c c' s s' _
  cases wanted : csub.tombstone with
  | false =>
    rw [clientSubAccept_active stored wanted, joined]
    simp [wanted]
  | true =>
    rw [clientSubAccept_tombstoned stored wanted, entry_subCleanup, joined]
    split <;> simp_all

theorem entry_clientSubReject {csub : ClientSub} (stored : σ.entry c s = some csub)
    (c' : ClientId) (s' : SubId) :
    (σ.clientSubReject c s).entry c' s' =
      if c' = c ∧ s' = s then none else σ.entry c' s' := by
  rw [Server.clientSubReject, subRemove_removed stored (Or.inl rfl), entry_subCleanup]

/-- `evs_on_cb` for a completion that was outstanding. -/
theorem Inv.evsOnCb (inv : Inv σ held waiting) (env : Env) (success : Bool) (info : EvsOnInfo)
    (member : (info.client, info.sub) ∈ waiting) :
    Inv (σ.evsOnCb env success info).1 held (waiting.erase (info.client, info.sub)) := by
  refine (sameSubs_evsOnCb env σ success info).inv ?_
  cases success with
  | false => exact inv.clientSubReject member
  | true => exact inv.clientSubAccept member env.listOk

/-- The entry a completion leaves behind: an accepted one, unless it was given
up in the meantime. -/
def completedEntry (csub : ClientSub) (success : Bool) : Option ClientSub :=
  if success && !csub.tombstone then some { csub with pending := false } else none

theorem entry_evsOnCb {env : Env} (listOk : env.listOk = true) {info : EvsOnInfo}
    {csub : ClientSub} (stored : σ.entry info.client info.sub = some csub) (success : Bool)
    (c' : ClientId) (s' : SubId) :
    (σ.evsOnCb env success info).1.entry c' s' =
      if c' = info.client ∧ s' = info.sub then completedEntry csub success
      else σ.entry c' s' := by
  rw [(sameSubs_evsOnCb env σ success info).entry]
  cases success with
  | false => exact entry_clientSubReject stored c' s'
  | true =>
    simp only [listOk, if_true, completedEntry, Bool.true_and]
    rw [entry_clientSubAccept stored]
    cases csub.tombstone <;> rfl

/-! ### `evs_on` -/

/-- References and completions that an outcome leaves outstanding. -/
def Server.Outcome.holds (outcome : Outcome) (held : List SubId) : List SubId :=
  match outcome.approval with
  | none => held
  | some info => info.sub :: held

def Server.Outcome.awaits (outcome : Outcome) (waiting : List (ClientId × SubId)) :
    List (ClientId × SubId) :=
  match outcome.approval with
  | none => waiting
  | some info => (info.client, info.sub) :: waiting

theorem Inv.evsOnCreated (env : Env) (info : EvsOnInfo)
    (inv : Inv σ (info.sub :: held) ((info.client, info.sub) :: waiting)) (answer : OnAnswer) :
    Inv (σ.evsOnCreated env info answer).server
      (info.sub :: (σ.evsOnCreated env info answer).holds held)
      ((σ.evsOnCreated env info answer).awaits waiting) := by
  have completed : ∀ success, Inv (σ.evsOnCb env success info).1 (info.sub :: held) waiting := by
    intro success
    have after := inv.evsOnCb env success info List.mem_cons_self
    rwa [List.erase_cons_head] at after
  cases answer with
  | ok => exact completed true
  | err => exact completed false
  | now success => exact completed success
  | later =>
    obtain ⟨users, counted⟩ := inv.counted
    obtain ⟨positive, allocated⟩ := counted.of_held List.mem_cons_self
    refine inv.of_clients (σ.subRef info.sub) rfl (fun r => by rw [subscribers_subRef]) rfl
      ⟨users, ?_⟩
    exact counted.hold (fun _ => rfl) (Nat.le_refl _) allocated
      (counted.ledger.subRef allocated positive)

/-- `evs_on` keeps the invariant; a copied info is a reference and an
outstanding completion. -/
theorem Inv.evsOn (inv : Inv σ held waiting) (env : Env) (c : ClientId) (ev : Event Handlers)
    (evExtra : Bytes) (clientCb : EvsCb) (json : Option Bytes) :
    Inv (σ.evsOn env c ev evExtra clientCb json).server
      ((σ.evsOn env c ev evExtra clientCb json).holds held)
      ((σ.evsOn env c ev evExtra clientCb json).awaits waiting) := by
  unfold Server.evsOn
  cases got : σ.subGet ev evExtra true with
  | none => exact inv
  | some found =>
    obtain ⟨s, τ⟩ := found
    have invτ := inv.subGet got
    dsimp only
    have added := invτ.clientSubAdd c List.mem_cons_self env.fairUse
    -- What is left once the outcome of the switch is known.
    have unref : ∀ outcome : Outcome,
        Inv outcome.server (s :: outcome.holds held) (outcome.awaits waiting) →
        Inv (outcome.server.subUnref s) (outcome.holds held) (outcome.awaits waiting) := by
      intro outcome after
      have released := after.subUnref List.mem_cons_self
      rwa [List.erase_cons_head] at released
    revert added
    rcases τ.clientSubAdd c s env.fairUse with ⟨υ, state⟩
    intro added
    cases state with
    | pending => exact unref (.reply _) ((sameSubs_evsErrCb env υ c clientCb _ _ none).inv added)
    | tombstoned => exact unref (.reply _) ((sameSubs_evsErrCb env υ c clientCb _ _ none).inv added)
    | null => exact unref (.reply _) ((sameSubs_evsErrCb env υ c clientCb _ _ none).inv added)
    | active => exact unref (.reply _) ((sameSubs_evsCb env υ c clientCb none).inv added)
    | created =>
      exact unref _ (Inv.evsOnCreated env ⟨evExtra, json, s, c, clientCb⟩ added (onAnswer env ev))

/-- `evs_off` keeps the invariant. -/
theorem Inv.evsOff (inv : Inv σ held waiting) (c : ClientId) (ev : Event Handlers)
    (evExtra : Bytes) : Inv (σ.evsOff c ev evExtra) held waiting := by
  unfold Server.evsOff
  split
  next => exact inv
  next s τ got =>
    have released := ((inv.subGet got).clientSubRemove c s).subUnref List.mem_cons_self
    rwa [List.erase_cons_head] at released

/-- A later `evs_on_cb` uses up the copied info. -/
theorem Inv.evsOnCbLate (inv : Inv σ held waiting) (env : Env) (success : Bool) (info : EvsOnInfo)
    (holding : info.sub ∈ held) (member : (info.client, info.sub) ∈ waiting) :
    Inv (σ.evsOnCbLate env success info).1 (held.erase info.sub)
      (waiting.erase (info.client, info.sub)) :=
  (inv.evsOnCb env success info member).subUnref holding

/-- Only how often something is held or awaited matters. -/
theorem Inv.perm (inv : Inv σ held waiting) {held' : List SubId}
    {waiting' : List (ClientId × SubId)} (sameHeld : held.Perm held')
    (sameWaiting : waiting.Perm waiting') : Inv σ held' waiting' := by
  obtain ⟨lists, ⟨waits, answered, once, closing, left⟩, ⟨users, counted⟩, tidy⟩ := inv
  refine ⟨lists, ⟨?_, ?_, ?_, closing, left⟩, ⟨users, ?_⟩, tidy⟩
  · exact fun c s csub stored pending => sameWaiting.mem_iff.mp (waits c s csub stored pending)
  · exact fun c s member => answered c s (sameWaiting.mem_iff.mpr member)
  · exact sameWaiting.nodup_iff.mp once
  · have same : total users held' = total users held := by
      funext s
      rw [total, total, sameHeld.count_eq]
    refine ⟨counted.once, counted.entries, ?_, ?_⟩
    · rw [same]
      exact counted.allocated
    · rw [same]
      exact counted.ledger

end Specifications

end QuickIO
