import QuickIO.ClientSubs
import QuickIO.Wrapping

/-!
# What a subscription costs

Every entry of a client has been paid for from the fair pool and holds a
reference, and its end is told to the off function of its event. Whichever way
an entry ends, all three are settled exactly once. The references are counted
modulo 2³², so a table is only exact until a count wraps.
-/
namespace QuickIO

open Lib Server

namespace Server

variable (σ : Server)

/-- The function that is called when an entry for the subscription ends. -/
def offFn (s : SubId) : Option Ptr := (σ.source s).1.handlers.offFn

/-- How often the end of an entry has been told. -/
def offCount (c : ClientId) (s : SubId) : Nat :=
  σ.offCalls.countP fun call => call.client = c ∧ call.sub = s

/-- The call for an entry that ends. -/
def offCall (c : ClientId) (s : SubId) : List OffCall :=
  (σ.offFn s).toList.map fun offFn => ⟨offFn, c, s, (σ.source s).2⟩

@[simp] theorem fairUsed_subUnref (s : SubId) : (σ.subUnref s).fairUsed = σ.fairUsed := by
  simp only [subUnref]
  split <;> rfl

@[simp] theorem offCalls_subUnref (s : SubId) : (σ.subUnref s).offCalls = σ.offCalls := by
  simp only [subUnref]
  split <;> rfl

@[simp] theorem fairUsed_clientOff (c : ClientId) (s : SubId) :
    (σ.clientOff c s).fairUsed = σ.fairUsed := by
  simp only [clientOff]
  split <;> rfl

theorem offCalls_clientOff (c : ClientId) (s : SubId) :
    (σ.clientOff c s).offCalls = σ.offCalls ++ σ.offCall c s := by
  simp only [clientOff, offCall, offFn, source]
  split
  next none_ => simp [none_]
  next offFn some_ => simp [some_]

theorem fairUsed_subCleanup (c : ClientId) (s : SubId) (csub : ClientSub) (table : Bool) :
    (σ.subCleanup c s csub table).fairUsed = σ.fairUsed - 1 := by
  have inner : ((((σ.listRemove s csub.idx).clientOff c s).subFree).subUnref s).fairUsed =
      σ.fairUsed - 1 := by
    rw [fairUsed_subUnref, subFree, fairUsed_clientOff]
    rfl
  cases table
  · exact inner
  · exact inner

theorem offCalls_subCleanup (c : ClientId) (s : SubId) (csub : ClientSub) (table : Bool) :
    (σ.subCleanup c s csub table).offCalls = σ.offCalls ++ σ.offCall c s := by
  have removed : (σ.listRemove s csub.idx).offCall c s = σ.offCall c s := by
    simp [offCall, offFn, source, listRemove, setSub]
  have inner : ((((σ.listRemove s csub.idx).clientOff c s).subFree).subUnref s).offCalls =
      σ.offCalls ++ σ.offCall c s := by
    rw [offCalls_subUnref, subFree, ← removed]
    exact offCalls_clientOff _ c s
  cases table
  · exact inner
  · exact inner

end Server

/-- The books: what was taken from the pool is the number of entries, and every
entry that was created is still there or its end was told. `created` are the
results `CLIENT_SUB_CREATED` so far. -/
structure Balanced (σ : Server) (created : List (ClientId × SubId)) : Prop where
  fair : ∀ users : List (ClientId × SubId), users.Nodup →
    (∀ c s, (c, s) ∈ users ↔ σ.entry c s ≠ none) → σ.fairUsed = users.length
  told : ∀ c s, s < σ.nextSub → σ.offFn s ≠ none →
    σ.offCount c s + (if σ.entry c s = none then 0 else 1) = created.count (c, s)
  calls : ∀ call ∈ σ.offCalls, call.sub < σ.nextSub ∧
    σ.offFn call.sub = some call.offFn ∧ (σ.source call.sub).2 = call.evExtra
  known : ∀ c s, (c, s) ∈ created → s < σ.nextSub

/-- No subscription has become another one. -/
def Lasts (σ τ : Server) : Prop :=
  (∀ s, s < σ.nextSub → τ.source s = σ.source s) ∧ σ.nextSub ≤ τ.nextSub

theorem Keeps.lasts {σ τ : Server} (kept : Keeps σ τ) : Lasts σ τ := ⟨kept.source, kept.nextSub⟩

theorem Lasts.trans {σ τ υ : Server} (first : Lasts σ τ) (second : Lasts τ υ) : Lasts σ υ := by
  refine ⟨fun s below => ?_, Nat.le_trans first.2 second.2⟩
  rw [second.1 s (Nat.lt_of_lt_of_le below first.2), first.1 s below]

theorem Lasts.framed : Framed Lasts where
  trans first second := first.trans second
  books σ _ _ _ _ _ grows := (Keeps.framed.books σ _ _ _ _ _ grows).lasts
  setSub σ s sub ev evExtra := (Keeps.framed.setSub σ s sub ev evExtra).lasts
  setSubs σ c subs := (Keeps.framed.setSubs σ c subs).lasts
  subCreate σ ev evExtra := (Keeps.framed.subCreate σ ev evExtra).lasts

namespace Balanced

variable {σ τ : Server} {created : List (ClientId × SubId)} {c : ClientId} {s : SubId}

/-- Subscriptions that are new have no history. -/
theorem unused (books : Balanced σ created) (above : σ.nextSub ≤ s) :
    σ.offCount c s = 0 ∧ created.count (c, s) = 0 := by
  constructor
  · rw [Server.offCount, List.countP_eq_zero]
    intro call member about
    have below := (books.calls call member).1
    rw [(of_decide_eq_true about).2] at below
    exact absurd below (Nat.not_lt.mpr above)
  · rw [List.count_eq_zero]
    exact fun member => absurd (books.known c s member) (Nat.not_lt.mpr above)

theorem calls_last (books : Balanced σ created) (lasts : Lasts σ τ) :
    ∀ call ∈ σ.offCalls, call.sub < τ.nextSub ∧
      τ.offFn call.sub = some call.offFn ∧ (τ.source call.sub).2 = call.evExtra := by
  intro call member
  obtain ⟨below, offFn, extra⟩ := books.calls call member
  have source := lasts.1 call.sub below
  refine ⟨Nat.lt_of_lt_of_le below lasts.2, ?_, ?_⟩
  · rwa [Server.offFn, source]
  · rwa [source]

/-- Nothing was created and nothing has ended. -/
theorem keep (books : Balanced σ created) (lasts : Lasts σ τ)
    (entry : ∀ c s, τ.entry c s = none ↔ σ.entry c s = none)
    (fresh : ∀ c s, σ.nextSub ≤ s → σ.entry c s = none)
    (fairUsed : τ.fairUsed = σ.fairUsed) (offCalls : τ.offCalls = σ.offCalls) :
    Balanced τ created := by
  refine ⟨?_, ?_, ?_, ?_⟩
  · intro users once exact_
    rw [fairUsed]
    apply books.fair users once
    intro c s
    rw [exact_, ne_eq, ne_eq, entry]
  · intro c s below told
    have count : τ.offCount c s = σ.offCount c s := by rw [Server.offCount, offCalls]; rfl
    rw [count]
    by_cases old : s < σ.nextSub
    · rw [Server.offFn, lasts.1 s old] at told
      rw [← books.told c s old told]
      simp only [entry]
    · -- the subscription has just been allocated
      have above := Nat.le_of_not_lt old
      obtain ⟨silent, none_⟩ := books.unused (c := c) above
      rw [silent, none_, if_pos ((entry c s).mpr (fresh c s above))]
  · rw [offCalls]
    exact books.calls_last lasts
  · exact fun c s member => Nat.lt_of_lt_of_le (books.known c s member) lasts.2

/-- `CLIENT_SUB_CREATED`: one more entry, and one more taken from the pool. -/
theorem insert (books : Balanced σ created) (absent : σ.entry c s = none) (below : s < σ.nextSub)
    (lasts : Lasts σ τ) (next : τ.nextSub = σ.nextSub)
    (entry : ∀ c' s', τ.entry c' s' = none ↔ ¬(c' = c ∧ s' = s) ∧ σ.entry c' s' = none)
    (fairUsed : τ.fairUsed = σ.fairUsed + 1) (offCalls : τ.offCalls = σ.offCalls) :
    Balanced τ ((c, s) :: created) := by
  refine ⟨?_, ?_, ?_, ?_⟩
  · intro users once exact_
    have member : (c, s) ∈ users := (exact_ c s).mpr fun none_ => ((entry c s).mp none_).1 ⟨rfl, rfl⟩
    rw [fairUsed, books.fair (users.erase (c, s)) (once.erase _), List.length_erase_of_mem member]
    · -- one entry more, and one more taken from the pool
      have positive := List.length_pos_of_mem member
      omega
    · intro c' s'
      rw [once.mem_erase_iff, exact_, ne_eq, ne_eq, ne_eq, entry, Prod.mk.injEq]
      constructor
      · rintro ⟨other, used⟩ none_
        exact used ⟨other, none_⟩
      · intro used
        refine ⟨?_, fun none_ => used none_.2⟩
        rintro ⟨rfl, rfl⟩
        exact used absent
  · intro c' s' below' told
    have count : τ.offCount c' s' = σ.offCount c' s' := by rw [Server.offCount, offCalls]; rfl
    rw [next] at below'
    rw [Server.offFn, lasts.1 s' below'] at told
    have before := books.told c' s' below' told
    rw [count]
    by_cases here : c' = c ∧ s' = s
    · obtain ⟨rfl, rfl⟩ := here
      -- the new entry: it was not there, and is now created once more
      rw [if_pos absent] at before
      rw [if_neg fun none_ => ((entry c' s').mp none_).1 ⟨rfl, rfl⟩, List.count_cons_self, ← before]
    · have other : (c, s) ≠ (c', s') := by
        rintro ⟨⟩
        exact here ⟨rfl, rfl⟩
      rw [List.count_cons_of_ne other, ← before]
      simp only [entry, here, not_false_eq_true, true_and]
  · rw [offCalls]
    exact books.calls_last lasts
  · intro c' s' member
    rw [next]
    rcases List.mem_cons.mp member with same | member
    · cases same
      exact below
    · exact books.known c' s' member

/-- An entry ends: the pool gets its share back and the off function is called. -/
theorem remove (books : Balanced σ created) (stored : σ.entry c s ≠ none) (below : s < σ.nextSub)
    (lasts : Lasts σ τ) (next : τ.nextSub = σ.nextSub)
    (entry : ∀ c' s', τ.entry c' s' = none ↔ (c' = c ∧ s' = s) ∨ σ.entry c' s' = none)
    (fairUsed : τ.fairUsed = σ.fairUsed - 1)
    (offCalls : τ.offCalls = σ.offCalls ++ σ.offCall c s) : Balanced τ created := by
  refine ⟨?_, ?_, ?_, ?_⟩
  · intro users once exact_
    -- Without the pair the users are the users of before, one fewer.
    have absent : (c, s) ∉ users := fun member =>
      (exact_ c s).mp member ((entry c s).mpr (Or.inl ⟨rfl, rfl⟩))
    have used := books.fair ((c, s) :: users) (List.nodup_cons.mpr ⟨absent, once⟩) (by
      intro c' s'
      rw [List.mem_cons, exact_, ne_eq, ne_eq, entry, Prod.mk.injEq, not_or]
      constructor
      · rintro (⟨rfl, rfl⟩ | ⟨-, used⟩)
        · exact stored
        · exact used
      · intro used
        by_cases here : c' = c ∧ s' = s
        · exact Or.inl here
        · exact Or.inr ⟨here, used⟩)
    rw [fairUsed, used, List.length_cons]
    omega
  · intro c' s' below' told
    rw [next] at below'
    rw [Server.offFn, lasts.1 s' below'] at told
    have before := books.told c' s' below' told
    have count : τ.offCount c' s' =
        σ.offCount c' s' + (σ.offCall c s).countP fun call => call.client = c' ∧ call.sub = s' := by
      rw [Server.offCount, offCalls, List.countP_append]
      rfl
    rw [count]
    -- The pair is told once, if its event asks to be told.
    by_cases here : c' = c ∧ s' = s
    · obtain ⟨rfl, rfl⟩ := here
      obtain ⟨offFn, some_⟩ := Option.ne_none_iff_exists'.mp told
      have once : (σ.offCall c' s').countP (fun call => call.client = c' ∧ call.sub = s') = 1 := by
        rw [Server.offCall, Server.offFn, some_]
        simp
      rw [if_neg stored] at before
      rw [if_pos ((entry c' s').mpr (Or.inl ⟨rfl, rfl⟩)), once, Nat.add_zero, before]
    · have none_ : (σ.offCall c s).countP (fun call => call.client = c' ∧ call.sub = s') = 0 := by
        rw [List.countP_eq_zero]
        intro call member about
        obtain ⟨offFn, -, rfl⟩ := List.mem_map.mp member
        exact here ((of_decide_eq_true about).imp Eq.symm Eq.symm)
      rw [none_, Nat.add_zero, ← before]
      simp only [entry, here, false_or]
  · -- a call names a subscription that lasts
    intro call member
    rw [offCalls] at member
    rcases List.mem_append.mp member with earlier | now
    · exact books.calls_last lasts call earlier
    · obtain ⟨offFn, some_, rfl⟩ := List.mem_map.mp now
      have source := lasts.1 s below
      refine ⟨next ▸ below, ?_, ?_⟩
      · rw [Server.offFn, source]
        exact Option.mem_toList.mp some_
      · rw [source]
  · exact fun c' s' member => next ▸ books.known c' s' member

end Balanced

/-! ### Every operation keeps the books -/

section Operations

variable {σ τ : Server} {held : List SubId} {waiting created : List (ClientId × SubId)}
  {c : ClientId} {s : SubId}

/-- Nobody has an entry for a subscription that does not exist. -/
theorem Inv.fresh (inv : Inv σ held waiting) (c : ClientId) (s : SubId) (above : σ.nextSub ≤ s) :
    σ.entry c s = none := by
  obtain ⟨users, counted⟩ := inv.counted
  cases stored : σ.entry c s with
  | none => rfl
  | some csub => exact absurd (counted.of_entry stored).2 (Nat.not_lt.mpr above)

theorem Inv.below (inv : Inv σ held waiting) {csub : ClientSub}
    (stored : σ.entry c s = some csub) : s < σ.nextSub := by
  by_contra above
  rw [inv.fresh c s (Nat.le_of_not_lt above)] at stored
  cases stored

theorem Balanced.subGet (books : Balanced σ created) (inv : Inv σ held waiting)
    {ev : Event Handlers} {evExtra : Bytes} {orCreate : Bool}
    (got : σ.subGet ev evExtra orCreate = some (s, τ)) : Balanced τ created := by
  have kept := (inv.subGet_spec got).1
  rcases subGet_cases got with ⟨-, -, rfl⟩ | ⟨-, rfl, rfl⟩
  · exact books.keep kept.lasts (fun _ _ => Iff.rfl) inv.fresh rfl rfl
  · exact books.keep kept.lasts (fun _ _ => Iff.rfl) inv.fresh rfl rfl

theorem Balanced.subUnref (books : Balanced σ created) (inv : Inv σ held waiting) (s : SubId) :
    Balanced (σ.subUnref s) created :=
  books.keep (Lasts.framed.subUnref σ s) (fun c s' => by rw [entry_subUnref]) inv.fresh
    (fairUsed_subUnref σ s) (offCalls_subUnref σ s)

theorem Balanced.sameSubs (books : Balanced σ created) (inv : Inv σ held waiting)
    (same : SameSubs σ τ) : Balanced τ created :=
  books.keep same.keeps.lasts (fun c s => by rw [same.entry]) inv.fresh same.fairUsed
    same.offCalls

/-- An entry that is there is written again. -/
theorem Balanced.hashInsert (books : Balanced σ created) (inv : Inv σ held waiting)
    (stored : σ.entry c s ≠ none) (csub : ClientSub) :
    Balanced (σ.hashInsert c s csub) created := by
  refine books.keep (Lasts.framed.hashInsert σ c s csub) (fun c' s' => ?_) inv.fresh rfl rfl
  rw [entry_hashInsert]
  split
  next here =>
    obtain ⟨rfl, rfl⟩ := here
    simp [stored]
  next => rfl

theorem Balanced.subCleanup (books : Balanced σ created) {csub : ClientSub}
    (stored : σ.entry c s ≠ none) (below : s < σ.nextSub) :
    Balanced (σ.subCleanup c s csub true) created := by
  refine books.remove stored below (Lasts.framed.subCleanup σ c s csub true)
    (nextSub_subCleanup σ c s csub true) (fun c' s' => ?_) (fairUsed_subCleanup σ c s csub true)
    (offCalls_subCleanup σ c s csub true)
  rw [entry_subCleanup]
  split <;> simp [*]

theorem Balanced.clientSubAdd (books : Balanced σ created) (inv : Inv σ held waiting)
    (c : ClientId) (below : s < σ.nextSub) (fairUse : Bool) :
    Balanced (σ.clientSubAdd c s fairUse).1
      (if (σ.clientSubAdd c s fairUse).2 = .created then (c, s) :: created else created) := by
  cases closing : (σ.clients c).closing with
  | true =>
    rw [clientSubAdd_closing closing]
    exact books
  | false =>
    cases stored : σ.entry c s with
    | some csub =>
      have earlier : (if csub.pending = true then ClientSubState.pending else .active) ≠
          .created := by
        split <;> decide
      rw [clientSubAdd_stored closing stored, if_neg earlier]
      -- the entry was there, so nothing is created
      exact books.hashInsert inv (by rw [stored]; exact Option.some_ne_none _) _
    | none =>
      cases fairUse with
      | false =>
        rw [clientSubAdd_refused closing stored]
        exact books
      | true =>
        have kept := Keeps.framed.clientSubAdd σ c s true
        rw [clientSubAdd_created closing stored] at kept ⊢
        have entry : ∀ c' s', (σ.added c s).entry c' s' =
            if c' = c ∧ s' = s then some ⟨σ.nextIdx, true, false⟩ else σ.entry c' s' :=
          fun c' s' => entry_hashInsert _ c c' s s' _
        refine books.insert stored below kept.lasts rfl (fun c' s' => ?_) rfl rfl
        rw [entry]
        split <;> simp [*]

theorem Balanced.clientSubAccept (books : Balanced σ created) (inv : Inv σ held waiting)
    (c : ClientId) (s : SubId) (listOk : Bool) :
    Balanced (σ.clientSubAccept c s listOk).1 created := by
  cases stored : σ.entry c s with
  | none =>
    rw [clientSubAccept_absent stored]
    exact books
  | some csub =>
    have used : σ.entry c s ≠ none := by rw [stored]; exact Option.some_ne_none _
    have below := inv.below stored
    cases listOk with
    | false =>
      -- not even on the list: the entry ends here
      rw [clientSubAccept_failed stored]
      exact books.subCleanup used below
    | true =>
      -- an accepted entry is the same one to the pool and to the off function
      have joined : Balanced (σ.joined c s csub) created := by
        refine books.keep (Lasts.framed.joined σ c s csub) (fun c' s' => ?_) inv.fresh rfl rfl
        rw [Server.joined, entry_hashInsert]
        split
        next here =>
          obtain ⟨rfl, rfl⟩ := here
          simp [stored]
        next => rfl
      cases wanted : csub.tombstone with
      | false =>
        rw [clientSubAccept_active stored wanted]
        exact joined
      | true =>
        rw [clientSubAccept_tombstoned stored wanted]
        refine joined.subCleanup ?_ below
        rw [Server.joined, entry_hashInsert, if_pos ⟨rfl, rfl⟩]
        exact Option.some_ne_none _

theorem Balanced.subRemove (books : Balanced σ created) (inv : Inv σ held waiting)
    (c : ClientId) (s : SubId) (rejected : Bool) :
    Balanced (σ.subRemove c s rejected).1 created := by
  cases stored : σ.entry c s with
  | none =>
    rw [subRemove_absent stored]
    exact books
  | some csub =>
    have used : σ.entry c s ≠ none := by rw [stored]; exact Option.some_ne_none _
    by_cases removed : rejected = true ∨ csub.pending = false
    · rw [subRemove_removed stored removed]
      exact books.subCleanup used (inv.below stored)
    · obtain ⟨kept, pending⟩ := not_or.mp removed
      rw [Bool.not_eq_true] at kept
      rw [Bool.not_eq_false] at pending
      rw [kept, subRemove_pending stored pending]
      exact books.hashInsert inv used _

/-- The loop of `client_closed`. -/
theorem Balanced.closeEntries (books : Balanced σ created) (c : ClientId)
    (rest : List (Sigma fun _ : SubId => ClientSub)) (distinct : rest.NodupKeys)
    (stored : ∀ item ∈ rest, σ.entry c item.1 ≠ none ∧ item.1 < σ.nextSub) :
    Balanced (rest.foldl (closeEntry c) σ) created := by
  induction rest generalizing σ with
  | nil => exact books
  | cons item rest ih =>
    obtain ⟨used, below⟩ := stored item List.mem_cons_self
    have next : (closeEntry c σ item).nextSub = σ.nextSub :=
      nextSub_subCleanup (σ.hashRemove c item.1) c item.1 item.2 false
    have closed : Balanced (closeEntry c σ item) created := by
      refine books.remove used below (Lasts.framed.closeEntry σ c item) next (fun c' s' => ?_)
        (fairUsed_subCleanup (σ.hashRemove c item.1) c item.1 item.2 false)
        (offCalls_subCleanup (σ.hashRemove c item.1) c item.1 item.2 false)
      rw [entry_closeEntry]
      split <;> simp [*]
    obtain ⟨fresh, distinct⟩ := List.nodupKeys_cons.mp distinct
    -- the entries still to come are of other subscriptions
    refine ih closed distinct fun other member => ?_
    have apart : other.1 ≠ item.1 := fun same => fresh (same ▸ List.mem_keys_of_mem member)
    obtain ⟨used, below⟩ := stored other (List.mem_cons_of_mem item member)
    rw [entry_closeEntry, if_neg fun here => apart here.2, next]
    exact ⟨used, below⟩

/-- `client_closed` -/
theorem Balanced.clientClosed (books : Balanced σ created) (inv : Inv σ held waiting)
    (c : ClientId) : Balanced (σ.clientClosed c) created := by
  have emptied := inv.emptied c
  have done : Balanced (σ.emptied c) created := by
    simp only [Server.emptied]
    cases table : (σ.clients c).subs with
    | none => exact books
    | some subs =>
      refine books.closeEntries c subs.entries subs.nodupKeys fun item member => ?_
      have stored : σ.entry c item.1 = some item.2 := by
        simp only [Server.entry, Client.subGet, table, Option.bind_some]
        exact AList.mem_lookup_iff.mpr member
      exact ⟨by rw [stored]; exact Option.some_ne_none _, inv.below stored⟩
  rw [clientClosed_eq]
  generalize σ.emptied c = τ at emptied done ⊢
  -- the table that is dropped holds no entry any more
  have absent : ∀ s, τ.entry c s = none := by
    intro s
    cases at_ : τ.entry c s with
    | none => rfl
    | some csub => cases (emptied.left s csub).mp at_
  refine done.keep ⟨fun _ _ => rfl, Nat.le_refl _⟩ (fun c' s => ?_) (fun c' s above => ?_) rfl rfl
  · by_cases client : c' = c
    · subst client
      rw [absent s]
      simp [Server.entry, setClient, Client.subGet]
    · simp [Server.entry, setClient, client]
  · obtain ⟨users, counted⟩ := emptied.counted
    cases stored : τ.entry c' s with
    | none => rfl
    | some csub => exact absurd (counted.of_entry stored).2 (Nat.not_lt.mpr above)

/-- `evs_on_cb` -/
theorem Balanced.evsOnCb (books : Balanced σ created) (inv : Inv σ held waiting) (env : Env)
    (success : Bool) (info : EvsOnInfo) (member : (info.client, info.sub) ∈ waiting) :
    Balanced (σ.evsOnCb env success info).1 created := by
  have same := sameSubs_evsOnCb env σ success info
  cases success with
  | false =>
    exact (books.subRemove inv info.client info.sub true).sameSubs (inv.clientSubReject member) same
  | true =>
    exact (books.clientSubAccept inv info.client info.sub env.listOk).sameSubs
      (inv.clientSubAccept member env.listOk) same

/-- A later `evs_on_cb` with the end of its info. -/
theorem Balanced.evsOnCbLate (books : Balanced σ created) (inv : Inv σ held waiting) (env : Env)
    (success : Bool) (info : EvsOnInfo) (member : (info.client, info.sub) ∈ waiting) :
    Balanced (σ.evsOnCbLate env success info).1 created :=
  (books.evsOnCb inv env success info member).subUnref (inv.evsOnCb env success info member)
    info.sub

theorem Balanced.evsOnCreated (books : Balanced σ created) (env : Env) (info : EvsOnInfo)
    (inv : Inv σ held ((info.client, info.sub) :: waiting)) (answer : OnAnswer) :
    Balanced (σ.evsOnCreated env info answer).server created := by
  have completed := fun success => books.evsOnCb inv env success info List.mem_cons_self
  cases answer with
  | ok => exact completed true
  | err => exact completed false
  | now success => exact completed success
  | later =>
    exact books.keep (Lasts.framed.subRef σ info.sub) (fun _ _ => Iff.rfl) inv.fresh rfl rfl

/-- `evs_off` -/
theorem Balanced.evsOff (books : Balanced σ created) (inv : Inv σ held waiting) (c : ClientId)
    (ev : Event Handlers) (evExtra : Bytes) : Balanced (σ.evsOff c ev evExtra) created := by
  simp only [Server.evsOff]
  split
  next => exact books
  next s τ got =>
    have invτ := inv.subGet got
    exact ((books.subGet inv got).subRemove invτ c s false).subUnref (invτ.clientSubRemove c s) s

end Operations

/-- The entry that `evs_on` creates, if `client_sub_add` returns
`CLIENT_SUB_CREATED`. -/
def Server.createdBy (env : Env) (σ : Server) (c : ClientId) (ev : Event Handlers)
    (evExtra : Bytes) : List (ClientId × SubId) :=
  match σ.subGet ev evExtra true with
  | none => []
  | some (s, σ) => if (σ.clientSubAdd c s env.fairUse).2 = .created then [(c, s)] else []

/-- `evs_on` -/
theorem Balanced.evsOn {σ : Server} {held : List SubId} {waiting created : List (ClientId × SubId)}
    (books : Balanced σ created) (inv : Inv σ held waiting) (env : Env) (c : ClientId)
    (ev : Event Handlers) (evExtra : Bytes) (clientCb : EvsCb) (json : Option Bytes) :
    Balanced (σ.evsOn env c ev evExtra clientCb json).server
      (σ.createdBy env c ev evExtra ++ created) := by
  simp only [Server.evsOn, Server.createdBy]
  cases got : σ.subGet ev evExtra true with
  | none => exact books
  | some found =>
    obtain ⟨s, τ⟩ := found
    have invτ := inv.subGet got
    have below : s < τ.nextSub := (inv.subGet_spec got).2.2.1
    have booksAdded := (books.subGet inv got).clientSubAdd invτ c below env.fairUse
    have added := invτ.clientSubAdd c List.mem_cons_self env.fairUse
    dsimp only
    revert added booksAdded
    rcases τ.clientSubAdd c s env.fairUse with ⟨υ, state⟩
    intro booksAdded added
    -- the answer touches no entry, and the first reference is given back
    have answered : ∀ {ρ : Server}, SameSubs υ ρ → state ≠ .created →
        Balanced (ρ.subUnref s) created := by
      intro ρ same other
      rw [if_neg other] at booksAdded added
      exact (booksAdded.sameSubs added same).subUnref (same.inv added) s
    cases state with
    | pending => exact answered (sameSubs_evsErrCb env υ c clientCb _ _ none) (by decide)
    | tombstoned => exact answered (sameSubs_evsErrCb env υ c clientCb _ none none) (by decide)
    | null => exact answered (sameSubs_evsErrCb env υ c clientCb _ none none) (by decide)
    | active => exact answered (sameSubs_evsCb env υ c clientCb none) (by decide)
    | created =>
      rw [if_pos rfl] at booksAdded added
      have after := booksAdded.evsOnCreated env ⟨evExtra, json, s, c, clientCb⟩ added
        (onAnswer env ev)
      exact after.subUnref (Inv.evsOnCreated env ⟨evExtra, json, s, c, clientCb⟩ added
        (onAnswer env ev)) s

theorem Balanced.evsBroadcast {σ : Server} {held : List SubId}
    {waiting created : List (ClientId × SubId)} (books : Balanced σ created)
    (inv : Inv σ held waiting) (ev : Event Handlers) (evExtra : Bytes) (json : Option Bytes) :
    Balanced (σ.evsBroadcast ev evExtra json).1 created := by
  simp only [Server.evsBroadcast]
  split
  next => exact books
  next s τ got => exact books.subGet inv got

theorem Balanced.evsBroadcastTick {σ : Server} {held : List SubId}
    {waiting created : List (ClientId × SubId)} (queue : List Broadcast)
    (books : Balanced σ created) (inv : Inv σ (queue.map Broadcast.sub ++ held) waiting) :
    Balanced (σ.evsBroadcastTick queue).1 created := by
  induction queue generalizing σ with
  | nil => exact books
  | cons bc queue ih =>
    have released := inv.subUnref List.mem_cons_self
    rw [List.map_cons, List.cons_append, List.erase_cons_head] at released
    exact ih (books.subUnref inv bc.sub) released

/-! ### Runs -/

namespace Resources

/-- The server; the infos that were copied for a later `evs_on_cb`; what other
copies refer to; the queue of broadcasts; and every entry that was created. -/
structure State where
  server : Server
  approvals : List EvsOnInfo
  copies : List SubId
  queue : List Broadcast
  created : List (ClientId × SubId)

/-- The references held outside the clients. -/
def State.holders (m : State) : List SubId :=
  m.approvals.map EvsOnInfo.sub ++ m.copies ++ m.queue.map Broadcast.sub

/-- The completions still to come. -/
def State.waiting (m : State) : List (ClientId × SubId) :=
  m.approvals.map fun info => (info.client, info.sub)

/-- An on function may keep a copy of its info beside its answer. That takes a
reference to the subscription: `copy` does so before the call. -/
inductive Label where
  | on (env : Env) (c : ClientId) (ev : Event Handlers) (evExtra : Bytes) (clientCb : EvsCb)
      (json : Option Bytes)
  | off (c : ClientId) (ev : Event Handlers) (evExtra : Bytes)
  | onCb (env : Env) (success : Bool) (info : EvsOnInfo)
  | copy (ev : Event Handlers) (evExtra : Bytes)
  | free (s : SubId)
  | broadcast (ev : Event Handlers) (evExtra : Bytes) (json : Option Bytes)
  | tick
  | close (c : ClientId)
  | closed (c : ClientId)

/-- A completion uses up the info that was copied for it, and a client is
closing before it is closed. -/
def step (m : State) : Label → Option State
  | .on env c ev evExtra clientCb json =>
    let outcome := m.server.evsOn env c ev evExtra clientCb json
    some { m with
      server := outcome.server
      approvals := outcome.approval.toList ++ m.approvals
      created := m.server.createdBy env c ev evExtra ++ m.created }
  | .off c ev evExtra => some { m with server := m.server.evsOff c ev evExtra }
  | .onCb env success info =>
    -- The application answers with a copy it owns.
    if info ∈ m.approvals then
      some { m with
        server := (m.server.evsOnCbLate env success info).1
        approvals := m.approvals.erase info }
    else none
  | .copy ev evExtra =>
    (m.server.subGet ev evExtra true).map fun (s, server) =>
      { m with server, copies := s :: m.copies }
  | .free s =>
    if s ∈ m.copies then
      some { m with server := m.server.subUnref s, copies := m.copies.erase s }
    else none
  | .broadcast ev evExtra json =>
    -- The broadcast holds a reference until the tick.
    let (server, bc) := m.server.evsBroadcast ev evExtra json
    some { m with server, queue := m.queue ++ bc.toList }
  | .tick => some { m with server := (m.server.evsBroadcastTick m.queue).1, queue := [] }
  | .close c => some { m with server := m.server.qevClose c }
  | .closed c =>
    if (m.server.clients c).closing then some { m with server := m.server.clientClosed c }
    else none

/-- One step, for a relation that also lets a client close. -/
theorem framed_step {R : Server → Server → Prop} (framed : Framed R)
    (close : ∀ (σ : Server) (c : ClientId) (client : Client),
      client.callbacks = (σ.clients c).callbacks → R σ (σ.setClient c client))
    {m m' : State} {l : Label} (stepped : step m l = some m') : R m.server m'.server := by
  cases l with
  | on env c ev evExtra clientCb json =>
    cases stepped
    exact framed.evsOn env m.server c ev evExtra clientCb json
  | off c ev evExtra =>
    cases stepped
    exact framed.evsOff m.server c ev evExtra
  | onCb env success info =>
    obtain ⟨-, ⟨⟩⟩ := Option.ite_none_right_eq_some.mp stepped
    exact framed.evsOnCbLate env m.server success info
  | copy ev evExtra =>
    obtain ⟨⟨s, server⟩, got, rfl⟩ := Option.map_eq_some_iff.mp stepped
    exact framed.subGet got
  | free s =>
    obtain ⟨-, ⟨⟩⟩ := Option.ite_none_right_eq_some.mp stepped
    exact framed.subUnref m.server s
  | broadcast ev evExtra json =>
    cases stepped
    exact framed.evsBroadcast m.server ev evExtra json
  | tick =>
    cases stepped
    exact framed.evsBroadcastTick m.server m.queue
  | close c =>
    cases stepped
    exact close m.server c _ rfl
  | closed c =>
    obtain ⟨-, ⟨⟩⟩ := Option.ite_none_right_eq_some.mp stepped
    simp only [clientClosed_eq]
    exact framed.trans (framed.emptied m.server c) (close _ c _ rfl)

/-- It begins with a server nobody has subscribed on. -/
def system : TransitionSystem State Label where
  init m := m.server.Blank ∧ m.server.fairUsed = 0 ∧ m.server.offCalls = [] ∧
    m.approvals = [] ∧ m.copies = [] ∧ m.queue = [] ∧ m.created = []
  step := step

/-- The server is consistent, and its books are balanced. -/
structure Kept (m : State) : Prop where
  inv : Inv m.server m.holders m.waiting
  books : Balanced m.server m.created

theorem kept_init (m : State) (init : system.init m) : Kept m := by
  obtain ⟨server, approvals, copies, queue, created⟩ := m
  obtain ⟨blank, fairUsed, offCalls, rfl, rfl, rfl, rfl⟩ := init
  have inv := Inv.of_blank blank
  refine ⟨inv, ?_, ?_, ?_, ?_⟩
  · intro users _ exact_
    have none_ : users = [] := by
      rw [List.eq_nil_iff_forall_not_mem]
      rintro ⟨c, s⟩ member
      exact (exact_ c s).mp member (inv.fresh c s (blank.nextSub ▸ Nat.zero_le s))
    rw [fairUsed, none_]
    rfl
  · intro c s below
    rw [blank.nextSub] at below
    exact absurd below (Nat.not_lt_zero s)
  · rw [offCalls]
    exact List.forall_mem_nil _
  · intro c s member
    cases member

theorem kept_step (m : State) (l : Label) (m' : State) (kept : Kept m)
    (stepped : step m l = some m') : Kept m' := by
  obtain ⟨inv, books⟩ := kept
  cases l with
  | on env c ev evExtra clientCb json =>
    cases stepped
    have after := inv.evsOn env c ev evExtra clientCb json
    have balanced := books.evsOn inv env c ev evExtra clientCb json
    refine ⟨?_, balanced⟩
    simp only [State.holders, State.waiting]
    cases kept : (m.server.evsOn env c ev evExtra clientCb json).approval with
    | none =>
      simp only [Outcome.holds, Outcome.awaits, kept] at after
      exact after
    | some info =>
      simp only [Outcome.holds, Outcome.awaits, kept] at after
      exact after
  | off c ev evExtra =>
    cases stepped
    exact ⟨inv.evsOff c ev evExtra, books.evsOff inv c ev evExtra⟩
  | onCb env success info =>
    obtain ⟨member, ⟨⟩⟩ := Option.ite_none_right_eq_some.mp stepped
    have split := List.perm_cons_erase member
    -- the info in front of all others
    have first : Inv m.server
        (info.sub :: State.holders { m with approvals := m.approvals.erase info })
        ((info.client, info.sub) :: State.waiting { m with approvals := m.approvals.erase info }) :=
      inv.perm (((split.map _).append_right _).append_right _) (split.map _)
    have after := first.evsOnCbLate env success info List.mem_cons_self List.mem_cons_self
    rw [List.erase_cons_head, List.erase_cons_head] at after
    exact ⟨after, books.evsOnCbLate first env success info List.mem_cons_self⟩
  | copy ev evExtra =>
    obtain ⟨⟨s, server⟩, got, rfl⟩ := Option.map_eq_some_iff.mp stepped
    refine ⟨(inv.subGet got).perm ?_ (.refl _), books.subGet inv got⟩
    exact (List.perm_middle.symm).append_right _
  | free s =>
    obtain ⟨member, ⟨⟩⟩ := Option.ite_none_right_eq_some.mp stepped
    have first : Inv m.server (s :: State.holders { m with copies := m.copies.erase s }) m.waiting :=
      inv.perm ((((List.perm_cons_erase member).append_left _).trans
        List.perm_middle).append_right _) (.refl _)
    have after := first.subUnref List.mem_cons_self
    rw [List.erase_cons_head] at after
    exact ⟨after, books.subUnref inv s⟩
  | broadcast ev evExtra json =>
    have after := inv.evsBroadcast ev evExtra json
    have balanced := books.evsBroadcast inv ev evExtra json
    simp only [step] at stepped
    generalize m.server.evsBroadcast ev evExtra json = result at after balanced stepped
    cases stepped
    refine ⟨after.perm ?_ (.refl _), balanced⟩
    simp only [State.holders, List.map_append]
    rw [← List.append_assoc _ _ (result.2.toList.map Broadcast.sub)]
    exact List.perm_append_comm
  | tick =>
    cases stepped
    have last : Inv m.server (m.queue.map Broadcast.sub ++
        State.holders { m with queue := [] }) m.waiting := by
      refine inv.perm ?_ (.refl _)
      simp only [State.holders, List.map_nil, List.append_nil]
      exact List.perm_append_comm
    exact ⟨last.evsBroadcastTick m.queue, books.evsBroadcastTick m.queue last⟩
  | close c =>
    cases stepped
    exact ⟨inv.qevClose c, books.keep ⟨fun _ _ => rfl, Nat.le_refl _⟩
      (fun c' s => by rw [entry_qevClose]) inv.fresh rfl rfl⟩
  | closed c =>
    obtain ⟨closing, ⟨⟩⟩ := Option.ite_none_right_eq_some.mp stepped
    exact ⟨inv.clientClosed closing, books.clientClosed inv c⟩

theorem kept_reachable (m : State) (reached : system.Reachable m) : Kept m :=
  system.reachable_invariant Kept kept_init kept_step m reached

/-- The references to a subscription, of its entries, broadcasts and infos. -/
def State.references (m : State) (users : List (ClientId × SubId)) (s : SubId) : Nat :=
  (users.map Prod.snd).count s + (m.queue.map Broadcast.sub).count s +
    ((m.approvals.map EvsOnInfo.sub).count s + m.copies.count s)

/-- Someone holds the subscription. -/
def State.Held (m : State) (s : SubId) : Prop :=
  (∃ c, m.server.entry c s ≠ none) ∨ s ∈ m.queue.map Broadcast.sub ∨
    s ∈ m.approvals.map EvsOnInfo.sub ∨ s ∈ m.copies

theorem State.references_eq (m : State) (users : List (ClientId × SubId)) (s : SubId) :
    m.references users s = total users m.holders s := by
  rw [State.references, total, State.holders, List.count_append, List.count_append]
  omega

theorem State.references_ne_zero (m : State) {users : List (ClientId × SubId)}
    (entries : ∀ c s, (c, s) ∈ users ↔ m.server.entry c s ≠ none) (s : SubId) :
    m.references users s ≠ 0 ↔ m.Held s := by
  have listed : s ∈ users.map Prod.snd ↔ ∃ c, m.server.entry c s ≠ none := by
    simp only [List.mem_map, Prod.exists, exists_eq_right, entries]
  simp only [State.references, State.Held, ← listed, ← List.count_pos_iff]
  omega

/-- In every reachable state: the end of each entry that was created and is no
longer there has been told to the off function once; the pool has given out one
subscription for each entry; and each subscription counts its entries, queued
broadcasts and copied infos modulo 2³². As long as no count has wrapped, it is
their number, and a table holds exactly the subscriptions in use. -/
theorem resources_balance (m : State) (reached : system.Reachable m) :
    (∀ c s, s < m.server.nextSub →
      if m.server.offFn s = none then m.server.offCount c s = 0
      else m.server.offCount c s + (if m.server.entry c s = none then 0 else 1) =
        m.created.count (c, s)) ∧
    (∀ call ∈ m.server.offCalls, m.server.offFn call.sub = some call.offFn ∧
      (m.server.source call.sub).2 = call.evExtra) ∧
    ∃ users : List (ClientId × SubId), users.Nodup ∧
      (∀ c s, (c, s) ∈ users ↔ m.server.entry c s ≠ none) ∧
      m.server.fairUsed = users.length ∧
      (∀ s, s < m.server.nextSub →
        (m.server.heap s).refs = UInt32.ofNat (m.references users s)) ∧
      (∀ p e s, m.server.table p e = some s →
        s < m.server.nextSub ∧ m.server.key s = (p, e) ∧ m.Held s) ∧
      (m.server.wrapped = false →
        (∀ s, s < m.server.nextSub → (m.server.heap s).refs.toNat = m.references users s) ∧
        ∀ p e s, m.server.table p e = some s ↔
          s < m.server.nextSub ∧ m.server.key s = (p, e) ∧ m.Held s) := by
  obtain ⟨inv, books⟩ := kept_reachable m reached
  obtain ⟨users, counted⟩ := inv.counted
  have held := m.references_ne_zero counted.entries
  refine ⟨?_, fun call member => (books.calls call member).2, users, counted.once,
    counted.entries, books.fair users counted.once counted.entries, ?_, ?_, fun fits => ⟨?_, ?_⟩⟩
  · intro c s below
    split
    next silent =>
      rw [Server.offCount, List.countP_eq_zero]
      intro call member about
      have told := (books.calls call member).2.1
      rw [(of_decide_eq_true about).2, silent] at told
      cases told
    next told => exact books.told c s below told
  · intro s below
    rw [m.references_eq]
    exact counted.ledger.count s below
  · intro p e s stored
    obtain ⟨below, path, extra⟩ := counted.ledger.keyed p e s stored
    refine ⟨below, by rw [Server.key, path, extra], (held s).mp ?_⟩
    rw [m.references_eq]
    exact Nat.ne_of_gt (counted.ledger.positive stored)
  · intro s below
    rw [m.references_eq]
    exact counted.ledger.refs_toNat fits below
  · intro p e s
    rw [counted.ledger.stored fits p e s, ← m.references_eq, held, Server.key, Prod.mk.injEq]
    tauto

/-- An event whose approvals come late, with an off function. -/
def lateEvent : Event Handlers := ⟨str "/a", ⟨none, some (.app 0), some 9⟩, true⟩

/-- Given up before the approval comes, while a broadcast is queued; then
subscribed again and rejected. -/
def givenUpTwice : List Label := [
  .on lateEnv 3 lateEvent (str "/x") 7 none, .off 3 lateEvent (str "/x"),
  .broadcast lateEvent (str "/x") none,
  .onCb lateEnv true ⟨str "/x", none, 0, 3, 7⟩, .on lateEnv 3 lateEvent (str "/x") 8 none,
  .onCb lateEnv false ⟨str "/x", none, 0, 3, 8⟩]

theorem resources_balance_givenUpTwice :
    ∃ m, system.Reachable m ∧ m.server.offCount 3 0 = 2 ∧ m.server.fairUsed = 0 ∧
      (m.server.heap 0).refs = 1 ∧ m.server.table (str "/a") (str "/x") = some 0 := by
  have some_ : (system.run ⟨Server.new, [], [], [], []⟩ givenUpTwice).isSome := by decide
  obtain ⟨m, ran⟩ := Option.isSome_iff_exists.mp some_
  have reached : system.Reachable m :=
    ⟨_, givenUpTwice, ⟨Server.new_blank, rfl, rfl, rfl, rfl, rfl, rfl⟩, ran⟩
  have finished : ∀ m ∈ system.run ⟨Server.new, [], [], [], []⟩ givenUpTwice,
      m.created = [(3, 0), (3, 0)] ∧ m.queue = [⟨0, str "null"⟩] ∧ m.server.nextSub = 1 ∧
        m.server.offFn 0 = some 9 ∧ m.server.entry 3 0 = none ∧ m.server.fairUsed = 0 ∧
        (m.server.heap 0).refs = 1 ∧ m.server.key 0 = (str "/a", str "/x") ∧
        m.server.wrapped = false := by decide
  obtain ⟨created, queue, next, offFn, absent, fairUsed, refs, key, fits⟩ := finished m ran
  obtain ⟨told, -, users, -, -, -, -, -, exact_⟩ := resources_balance m reached
  have below : 0 < m.server.nextSub := by rw [next]; exact Nat.one_pos
  have count := told 3 0 below
  rw [offFn, if_neg (Option.some_ne_none 9), if_pos absent, created] at count
  refine ⟨m, reached, count, fairUsed, refs, ?_⟩
  rw [(exact_ fits).2]
  exact ⟨below, key, Or.inr (Or.inl (by rw [queue]; exact List.mem_cons_self))⟩

/-- A run of broadcasts to a subscription whose count does not pass through zero. -/
theorem run_broadcasts (k : Nat) (m : State) (ev : Event Handlers) {evExtra : Bytes} {s : SubId}
    (json : Option Bytes) (stored : m.server.table ev.evPath evExtra = some s)
    (live : ∀ i, i < k → (m.server.heap s).refs + UInt32.ofNat i ≠ 0) :
    system.run m (List.replicate k (.broadcast ev evExtra json)) =
      some { m with
        server := m.server.subRefs s k
        queue := m.queue ++ List.replicate k ⟨s, jsonOrNull json⟩ } := by
  induction k with
  | zero => simp [subRefs]
  | succ k ih =>
    have before := ih fun i below => live i (Nat.lt_succ_of_lt below)
    obtain ⟨refs, -, -, table, -, -⟩ := m.server.subRefs_rest s k
    have found : (m.server.subRefs s k).evsBroadcast ev evExtra json =
        ((m.server.subRefs s k).subRef s, some ⟨s, jsonOrNull json⟩) := by
      refine evsBroadcast_live _ ev (table ▸ stored) ?_ json
      rw [refs]
      exact live k (Nat.lt_succ_self k)
    rw [List.replicate_succ', system.run_append, before, Option.bind_some]
    simp only [TransitionSystem.run, system, step, found, subRefs, List.replicate_succ',
      List.append_assoc, Option.toList_some]

/-- One client subscribes, and `k` broadcasts are queued. -/
def crowded (k : Nat) : List Label :=
  .on lateEnv 3 freeEvent [] 0 none :: List.replicate k (.broadcast freeEvent [] none)

/-- What is left of it, and of two clients that have asked for nothing. -/
structure Crowded (m : State) (k : Nat) : Prop where
  refs : (m.server.heap 0).refs = UInt32.ofNat (k + 1)
  stored : m.server.table (str "/a") [] = some 0
  source : m.server.source 0 = (freeEvent, [])
  nextSub : m.server.nextSub = 1
  entry : m.server.entry 3 0 ≠ none
  newcomers : ∀ c ∈ [4, 5], (m.server.clients c).closing = false ∧ (m.server.clients c).subs = none
  queue : m.queue = List.replicate k ⟨0, str "null"⟩

theorem run_crowded (k : Nat) (fits : k < 2 ^ 32) :
    ∃ m, system.run ⟨Server.new, [], [], [], []⟩ (crowded k) = some m ∧ Crowded m k := by
  cases ran : system.run ⟨Server.new, [], [], [], []⟩ (crowded 0) with
  | none => exact absurd ran (by decide)
  | some m =>
    have finished : ∀ m ∈ system.run ⟨Server.new, [], [], [], []⟩ (crowded 0),
        (m.server.heap 0).refs = 1 ∧ m.server.table (str "/a") [] = some 0 ∧
          m.server.source 0 = (freeEvent, []) ∧ m.server.nextSub = 1 ∧ m.queue = [] := by
      decide
    have clients : ∀ m ∈ system.run ⟨Server.new, [], [], [], []⟩ (crowded 0),
        m.server.entry 3 0 ≠ none ∧ ∀ c ∈ [4, 5],
          (m.server.clients c).closing = false ∧ (m.server.clients c).subs.isNone := by
      decide
    obtain ⟨refs, stored, source, nextSub, queue⟩ := finished m ran
    obtain ⟨entry, newcomers⟩ := clients m ran
    have count : ∀ i, (m.server.heap 0).refs + UInt32.ofNat i = UInt32.ofNat (i + 1) := by
      intro i
      rw [refs, UInt32.add_comm]
      exact refs_succ rfl
    have broadcasts := run_broadcasts k m freeEvent none stored fun i below => by
      rw [count]
      exact mt (refs_eq_zero_iff (by omega)).mp (Nat.succ_ne_zero i)
    obtain ⟨refs', source', -, table', nextSub', clients'⟩ := m.server.subRefs_rest 0 k
    refine ⟨_, (system.run_append_iff _ _ (crowded 0) _).mpr ⟨m, ran, broadcasts⟩,
      refs'.trans (count k), table' ▸ stored, source' ▸ source, nextSub'.trans nextSub, ?_, ?_, ?_⟩
    · simpa only [Server.entry, clients'] using entry
    · simpa only [clients', Option.isNone_iff_eq_none] using newcomers
    · rw [queue, List.nil_append]
      rfl

/-- With 2³² references the count is zero. -/
theorem resources_balance_wrapped :
    ∃ m, system.Reachable m ∧ (m.server.heap 0).refs = 0 ∧ m.server.entry 3 0 ≠ none ∧
      m.queue.length = 2 ^ 32 - 1 ∧ ∀ bc ∈ m.queue, bc.sub = 0 := by
  obtain ⟨m, ran, crowded⟩ := run_crowded (2 ^ 32 - 1) (by decide)
  have reached : system.Reachable m :=
    ⟨_, _, ⟨Server.new_blank, rfl, rfl, rfl, rfl, rfl, rfl⟩, ran⟩
  refine ⟨m, reached, crowded.refs.trans (by decide), crowded.entry, ?_, ?_⟩
  · rw [crowded.queue, List.length_replicate]
  · rw [crowded.queue]
    intro bc member
    rw [List.eq_of_mem_replicate member]

end Resources

end QuickIO
