import QuickIO.Broadcasts

/-!
# More references than a count holds

The count of a subscription object is a `guint`: the 2³²-th reference takes it
to zero while all the others are held. What `sub_ref`, `sub_get` and `evs_on` do
to one object, step by step, up to that point and beyond it.
-/
namespace QuickIO

namespace Server

variable (σ : Server) (s : SubId)

/-! ### Many references -/

/-- `k` calls of `sub_ref`. -/
def subRefs : Nat → Server
  | 0 => σ
  | k + 1 => (subRefs k).subRef s

theorem refs_subRef : ((σ.subRef s).heap s).refs = (σ.heap s).refs + 1 := by
  simp [subRef, setSub]

theorem source_subRef : (σ.subRef s).source = σ.source := by
  funext r
  by_cases same : r = s
  · subst same
    simp [source, subRef, setSub]
  · simp [source, subRef, setSub, same]

/-- They change the count and nothing else that is looked at. -/
theorem subRefs_rest (k : Nat) :
    ((σ.subRefs s k).heap s).refs = (σ.heap s).refs + UInt32.ofNat k ∧
      (σ.subRefs s k).source = σ.source ∧ (σ.subRefs s k).subscribers = σ.subscribers ∧
      (σ.subRefs s k).table = σ.table ∧ (σ.subRefs s k).nextSub = σ.nextSub ∧
      (σ.subRefs s k).clients = σ.clients := by
  induction k with
  | zero => exact ⟨by simp [subRefs], rfl, rfl, rfl, rfl, rfl⟩
  | succ k ih =>
    obtain ⟨refs, source, subscribers, table, nextSub, clients⟩ := ih
    refine ⟨?_, ?_, ?_, table, nextSub, clients⟩
    · rw [subRefs, refs_subRef, refs, UInt32.ofNat_add, UInt32.add_assoc]
      rfl
    · rw [subRefs, source_subRef, source]
    · rw [subRefs, subscribers_subRef, subscribers]

/-- Broadcasts find the object as long as its count is not zero. -/
theorem evsBroadcast_live (ev : Event Handlers) {evExtra : Bytes} {s : SubId}
    (stored : σ.table ev.evPath evExtra = some s) (live : (σ.heap s).refs ≠ 0)
    (json : Option Bytes) :
    σ.evsBroadcast ev evExtra json = (σ.subRef s, some ⟨s, jsonOrNull json⟩) := by
  rw [evsBroadcast, σ.subGet_live ev stored live]

/-! ### A client that is accepted at once -/

/-- The server on which a client that is new to a subscription has been accepted. -/
def accepted (c : ClientId) : Server := (σ.added c s).joined c s ⟨σ.nextIdx, true, false⟩

theorem entry_accepted (c c' : ClientId) (s' : SubId) :
    (σ.accepted s c).entry c' s' =
      if c' = c ∧ s' = s then some ⟨σ.nextIdx, false, false⟩ else σ.entry c' s' := by
  rw [accepted, joined, entry_hashInsert, entry_listAdd, added, entry_hashInsert]
  split
  next => rfl
  next => rfl

/-- The client has one more reference, and is on the list. -/
theorem accepted_rest (c : ClientId) :
    ((σ.accepted s c).heap s).refs = (σ.heap s).refs + 1 ∧
      (σ.accepted s c).source = σ.source ∧ (σ.accepted s c).table = σ.table := by
  refine ⟨?_, ?_, rfl⟩
  · simp [accepted, joined, added, listAdd, hashInsert, setClient, setSub, subRef]
  · funext r
    by_cases same : r = s
    · subst same
      simp [accepted, joined, added, listAdd, hashInsert, setClient, setSub, subRef, source]
    · simp [accepted, joined, added, listAdd, hashInsert, setClient, setSub, subRef, source, same]

/-- When the reference of `sub_get` brings the count to zero, the client's own is the
first one again, and `sub_unref` takes it for the last. -/
theorem accepted_full {c : ClientId} {p e : Bytes} (stored : σ.table p e = some s)
    (key : (σ.source s).1.evPath = p ∧ (σ.source s).2 = e) (full : (σ.heap s).refs + 1 = 0) :
    ((((σ.subRef s).accepted s c).subUnref s).heap s).freed = true ∧
      (((σ.subRef s).accepted s c).subUnref s).table p e = none := by
  obtain ⟨refs, source, table⟩ := accepted_rest (σ.subRef s) s c
  have last : (((σ.subRef s).accepted s c).heap s).refs - 1 = 0 := by
    rw [refs, refs_subRef, full]
    rfl
  have same := congrFun (source.trans (σ.source_subRef s)) s
  rw [← same] at key
  refine ⟨freed_subUnref _ last, ?_⟩
  rw [table_subUnref, if_pos]
  exact ⟨last, ⟨key.1.symm, key.2.symm⟩, table ▸ stored⟩

end Server

open Server

/-- `evs_on` of a client without an entry for the object `sub_get` returns. -/
theorem evsOn_accepted {σ τ : Server} {c : ClientId} {s : SubId} (env : Env) {ev : Event Handlers}
    {evExtra : Bytes} (got : σ.subGet ev evExtra true = some (s, τ))
    (opened : (τ.clients c).closing = false) (absent : τ.entry c s = none)
    (fairUse : env.fairUse = true) (listOk : env.listOk = true)
    (plain : onAnswer env ev = .ok) (json : Option Bytes) :
    σ.evsOn env c ev evExtra 0 json =
      ⟨(τ.accepted s c).subUnref s, [], none, some true, false⟩ := by
  have found : (τ.added c s).entry c s = some ⟨τ.nextIdx, true, false⟩ := by
    rw [added, entry_hashInsert, if_pos ⟨rfl, rfl⟩]
  have added : τ.clientSubAdd c s true = (τ.added c s, .created) :=
    clientSubAdd_created opened absent
  have joined : (τ.added c s).clientSubAccept c s true = (τ.accepted s c, .active) :=
    clientSubAccept_active found rfl
  simp only [Server.evsOn, got, fairUse, added, plain, evsOnCreated, evsOnCb, if_true, listOk,
    joined, evsErrCb, evsCbFull, cbNew_none]

/-- An event whose subscriptions need no approval. -/
def freeEvent : Event Handlers := ⟨str "/a", ⟨none, none, none⟩, false⟩

end QuickIO
