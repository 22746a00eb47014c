import QuickIO.Approvals

/-!
# Broadcasts

A broadcast waits in a queue, with a reference to its subscription, until the
next tick writes it to the subscribers of that moment.
-/
namespace QuickIO

/-- `struct _broadcast` -/
structure Broadcast where
  sub : SubId
  json : Bytes
deriving DecidableEq

/-- A call of `protocols_bcast_write`, with what its frames are made of. -/
structure BcastWrite where
  client : ClientId
  path : Bytes
  json : Bytes
deriving DecidableEq

namespace Server

variable (σ : Server)

/-- `evs_broadcast`: what is pushed to the queue, if anything. -/
def evsBroadcast (ev : Event Handlers) (evExtra : Bytes) (json : Option Bytes) :
    Server × Option Broadcast :=
  match σ.subGet ev evExtra false with
  | none => (σ, none)
  | some (sub, σ) => (σ, some { sub, json := jsonOrNull json })

/-- `evs_broadcast_path` -/
def evsBroadcastPath (evPath : Bytes) (json : Option Bytes) :
    Except Fault (Server × Option Broadcast) :=
  match evsQuery σ.events evPath with
  | .error fault => .error fault
  | .ok none => .ok (σ, none)
  | .ok (some (ev, evExtra)) => .ok (σ.evsBroadcast ev evExtra json)

/-- The writes one broadcast leads to, `_broadcast` for each subscriber. -/
def broadcastWrites (bc : Broadcast) : List BcastWrite :=
  (σ.heap bc.sub).subscribers.map fun item =>
    ⟨item.2, (σ.heap bc.sub).ev.evPath ++ (σ.heap bc.sub).evExtra, bc.json⟩

/-- `evs_broadcast_tick` on what the queue holds. Each broadcast is freed when
it has been written. -/
def evsBroadcastTick : Server → List Broadcast → Server × List BcastWrite
  | σ, [] => (σ, [])
  | σ, bc :: queue =>
    let (τ, writes) := evsBroadcastTick (σ.subUnref bc.sub) queue
    (τ, σ.broadcastWrites bc ++ writes)

end Server

section Specifications

variable {σ : Server} {held : List SubId} {waiting : List (ClientId × SubId)}

/-- A queued broadcast is one more reference. -/
theorem Inv.evsBroadcast (inv : Inv σ held waiting) (ev : Event Handlers) (evExtra : Bytes)
    (json : Option Bytes) :
    Inv (σ.evsBroadcast ev evExtra json).1
      ((σ.evsBroadcast ev evExtra json).2.toList.map Broadcast.sub ++ held) waiting := by
  simp only [Server.evsBroadcast]
  split
  next => exact inv
  next s τ got => exact inv.subGet got

/-- The tick gives all of them back. -/
theorem Inv.evsBroadcastTick (queue : List Broadcast)
    (inv : Inv σ (queue.map Broadcast.sub ++ held) waiting) :
    Inv (σ.evsBroadcastTick queue).1 held waiting := by
  induction queue generalizing σ with
  | nil => exact inv
  | cons bc queue ih =>
    have released := inv.subUnref List.mem_cons_self
    rw [List.map_cons, List.cons_append, List.erase_cons_head] at released
    exact ih released

theorem Framed.evsBroadcast {R : Server → Server → Prop} (framed : Framed R) (σ : Server)
    (ev : Event Handlers) (evExtra : Bytes) (json : Option Bytes) :
    R σ (σ.evsBroadcast ev evExtra json).1 := by
  simp only [Server.evsBroadcast]
  split
  next => exact framed.refl σ
  next s τ got => exact framed.subGet got

theorem Framed.evsBroadcastTick {R : Server → Server → Prop} (framed : Framed R) (σ : Server)
    (queue : List Broadcast) : R σ (σ.evsBroadcastTick queue).1 := by
  induction queue generalizing σ with
  | nil => exact framed.refl σ
  | cons bc queue ih => exact framed.trans (framed.subUnref σ bc.sub) (ih _)

/-- What `sub_get` found is what the table of the event holds. -/
theorem Inv.evsBroadcast_of_entry (inv : Inv σ held waiting) (fits : σ.wrapped = false)
    {c : ClientId} {s : SubId} (used : σ.entry c s ≠ none) {ev : Event Handlers} {evExtra : Bytes}
    (key : σ.key s = (ev.evPath, evExtra)) (json : Option Bytes) :
    σ.evsBroadcast ev evExtra json = (σ.subRef s, some ⟨s, jsonOrNull json⟩) := by
  have stored := inv.table_of_entry fits used
  obtain ⟨users, counted⟩ := inv.counted
  rw [key] at stored
  simp only [Server.evsBroadcast, counted.ledger.subGet_eq fits, stored]

end Specifications

end QuickIO
