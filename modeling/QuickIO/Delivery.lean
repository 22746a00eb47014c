import QuickIO.Resources

/-!
# Who receives a broadcast

A broadcast is queued with its subscription, and whoever is on the subscriber list at the
next tick is written to. In the meantime clients come and go. The queue holds a reference,
so that the subscription stays the one of its key, as long as no count wraps: a client that
leaves and joins again, even if all of them do, joins the list the tick will go over.
-/
namespace QuickIO

open Lib Server

namespace Server

variable (σ : Server)

/-- There is a subscription object for the `ev_extra` of the event. -/
def HasSub (ev : Event Handlers) (evExtra : Bytes) : Prop :=
  ∃ s, s < σ.nextSub ∧ σ.key s = (ev.evPath, evExtra) ∧ (σ.heap s).freed = false

theorem broadcastWrites_subUnref (s : SubId) :
    (σ.subUnref s).broadcastWrites = σ.broadcastWrites := by
  funext bc
  have source := congrFun (σ.source_subUnref s) bc.sub
  have listed := congrFun (σ.subscribers_subUnref s) bc.sub
  simp only [Server.source, Prod.mk.injEq] at source
  simp only [subscribers] at listed
  rw [broadcastWrites, broadcastWrites, listed, source.1, source.2]

/-- Freeing one broadcast takes nothing from the next. -/
theorem evsBroadcastTick_writes (queue : List Broadcast) :
    (σ.evsBroadcastTick queue).2 = queue.flatMap σ.broadcastWrites := by
  induction queue generalizing σ with
  | nil => rfl
  | cons bc queue ih =>
    have rest := ih (σ.subUnref bc.sub)
    rw [broadcastWrites_subUnref] at rest
    rw [List.flatMap_cons, ← rest]
    rfl

end Server

/-! ### One broadcast at a tick -/

section Tick

variable {σ : Server} {held : List SubId} {waiting : List (ClientId × SubId)} {s : SubId}

/-- While a reference to a subscription is held, the table of its key holds it. -/
theorem Inv.table_of_held (inv : Inv σ held waiting) (fits : σ.wrapped = false)
    (member : s ∈ held) :
    σ.table (σ.key s).1 (σ.key s).2 = some s ∧ (σ.heap s).freed = false := by
  obtain ⟨users, counted⟩ := inv.counted
  obtain ⟨positive, allocated⟩ := counted.of_held member
  have stored := counted.table_eq fits positive allocated
  exact ⟨stored, counted.ledger.live _ _ s stored⟩

/-- Whoever has an entry for the key of a subscription that is held has it for that one. -/
theorem Inv.entry_held (inv : Inv σ held waiting) (fits : σ.wrapped = false) (member : s ∈ held)
    {c : ClientId} {r : SubId} (used : σ.entry c r ≠ none) (same : σ.key r = σ.key s) : r = s := by
  have stored := inv.table_of_entry fits used
  rw [same, (inv.table_of_held fits member).1] at stored
  exact (Option.some.inj stored).symm

/-- An active client has not been closed. -/
theorem Inv.open_of_active (inv : Inv σ held waiting) {c : ClientId}
    (active : σ.clientSubActive c s = true) :
    σ.entry c s ≠ none ∧ (σ.clients c).closed = false := by
  rw [Server.clientSubActive] at active
  split at active
  next => cases active
  next csub stored => exact ⟨by rw [stored]; exact Option.some_ne_none _, inv.waits.open_of_entry stored⟩

/-- The list goes to each active client once. -/
theorem Inv.broadcastWrites_count (inv : Inv σ held waiting) (bc : Broadcast) (c : ClientId) :
    ((σ.broadcastWrites bc).countP fun write => write.client == c) =
      if (σ.clients c).closed = false ∧ σ.clientSubActive c bc.sub = true then 1 else 0 := by
  rw [Server.broadcastWrites, List.countP_map]
  refine (inv.count c bc.sub).trans ?_
  cases active : σ.clientSubActive c bc.sub with
  | false => simp
  | true => simp [(inv.open_of_active active).2]

/-- What is found is a subscription object of the key, and as long as no count has
wrapped it is found when there is one. -/
theorem Inv.evsBroadcast_spec (inv : Inv σ held waiting) (ev : Event Handlers)
    (evExtra : Bytes) (json : Option Bytes) :
    (¬σ.HasSub ev evExtra → (σ.evsBroadcast ev evExtra json).2 = none) ∧
    (σ.wrapped = false → σ.HasSub ev evExtra → (σ.evsBroadcast ev evExtra json).2 ≠ none) ∧
    ∀ bc, (σ.evsBroadcast ev evExtra json).2 = some bc →
      bc.json = jsonOrNull json ∧ bc.sub < σ.nextSub ∧ σ.key bc.sub = (ev.evPath, evExtra) := by
  obtain ⟨users, counted⟩ := inv.counted
  have found : ∀ bc, (σ.evsBroadcast ev evExtra json).2 = some bc →
      bc.json = jsonOrNull json ∧ σ.table ev.evPath evExtra = some bc.sub := by
    intro bc pushed
    simp only [Server.evsBroadcast] at pushed
    cases got : σ.subGet ev evExtra false with
    | none =>
      rw [got] at pushed
      cases pushed
    | some result =>
      obtain ⟨s, τ⟩ := result
      rw [got] at pushed
      cases pushed
      refine ⟨rfl, ?_⟩
      -- it is not created, so it was in the table
      cases stored : σ.table ev.evPath evExtra with
      | none => simp [Server.subGet, getIfExists, stored] at got
      | some r =>
        rcases subGet_cases got with ⟨here, -, -⟩ | ⟨dead, -, -⟩
        · exact stored.symm.trans here
        · simp [Server.subGet, getIfExists, stored, dead r stored] at got
  refine ⟨fun missing => ?_, fun fits has => ?_, fun bc pushed => ?_⟩
  · refine Option.eq_none_iff_forall_ne_some.mpr fun bc pushed => missing ?_
    have stored := (found bc pushed).2
    obtain ⟨allocated, path, extra⟩ := counted.ledger.keyed _ _ _ stored
    refine ⟨bc.sub, allocated, ?_, counted.ledger.live _ _ _ stored⟩
    rw [Server.key, path, extra]
  · -- an object that has not been freed has references, so the table has it
    obtain ⟨s, allocated, key, live⟩ := has
    have used : 0 < total users held s := by
      refine Nat.pos_of_ne_zero fun unused => ?_
      rw [(counted.ledger.unused s allocated unused).1] at live
      cases live
    have stored := counted.table_eq fits used allocated
    rw [key] at stored
    simp [Server.evsBroadcast, counted.ledger.subGet_eq fits, stored]
  · obtain ⟨data, stored⟩ := found bc pushed
    obtain ⟨allocated, path, extra⟩ := counted.ledger.keyed _ _ _ stored
    exact ⟨data, allocated, by rw [Server.key, path, extra]⟩

end Tick

/-! ### What a run of the server does to a subscription and to the queue -/

theorem Lasts.key {σ τ : Server} (lasts : Lasts σ τ) {s : SubId} (below : s < σ.nextSub) :
    τ.key s = σ.key s :=
  congrArg (fun source => (source.1.evPath, source.2)) (lasts.1 s below)

namespace Resources

theorem lasts_step (m : State) (l : Label) (m' : State) (stepped : step m l = some m') :
    Lasts m.server m'.server :=
  framed_step Lasts.framed (fun _ _ _ _ => ⟨fun _ _ => rfl, Nat.le_refl _⟩) stepped

end Resources

/-! ### Runs -/

namespace Delivery

/-- One call of `evs_broadcast`: the server it was made on, and how many ticks there had
been. -/
structure Made where
  ev : Event Handlers
  evExtra : Bytes
  json : Option Bytes
  before : Server
  ticks : Nat

/-- What the call pushed to the queue. -/
def Made.queued (a : Made) : Option Broadcast := (a.before.evsBroadcast a.ev a.evExtra a.json).2

/-- The server with its history: every broadcast in the order of the calls, the server as it
was at each tick, and all that was written. -/
structure State where
  base : Resources.State
  made : List Made
  ticked : List Server
  written : List BcastWrite

/-- What a call that led to `base` adds to the history. -/
def State.record (w : State) (base : Resources.State) : Resources.Label → State
  | .broadcast ev evExtra json =>
    { w with base, made := w.made ++ [⟨ev, evExtra, json, w.base.server, w.ticked.length⟩] }
  | .tick =>
    { w with
      base
      ticked := w.ticked ++ [w.base.server]
      written := w.written ++ (w.base.server.evsBroadcastTick w.base.queue).2 }
  | _ => { w with base }

def step (w : State) (l : Resources.Label) : Option State :=
  (Resources.step w.base l).map fun base => w.record base l

def system : TransitionSystem State Resources.Label where
  init w := Resources.system.init w.base ∧ w.made = [] ∧ w.ticked = [] ∧ w.written = []
  step := step

/-- The writes of a broadcast: what it leads to at the first tick after it, if there was one. -/
def State.delivery (w : State) (a : Made) : List BcastWrite :=
  match a.queued, w.ticked[a.ticks]? with
  | some bc, some σ => σ.broadcastWrites bc
  | _, _ => []

/-- The broadcast, at a tick that found the server in `σ`: one write to each open client that
is active and none to any other, where a client is open until `client_closed` has run. And
whoever is active for the event and `ev_extra` is so through the subscription it was queued
with, which has not been freed: these two as long as no reference count has wrapped. -/
structure Received (a : Made) (bc : Broadcast) (σ : Server) : Prop where
  once : ∀ c, ((σ.broadcastWrites bc).countP fun write => write.client == c) =
    if (σ.clients c).closed = false ∧ σ.clientSubActive c bc.sub = true then 1 else 0
  what : ∀ write ∈ σ.broadcastWrites bc,
    write.path = a.ev.evPath ++ a.evExtra ∧ write.json = jsonOrNull a.json
  key : σ.key bc.sub = (a.ev.evPath, a.evExtra)
  live : σ.wrapped = false → (σ.heap bc.sub).freed = false
  only : σ.wrapped = false →
    ∀ c s, σ.clientSubActive c s = true → σ.key s = (a.ev.evPath, a.evExtra) → s = bc.sub

/-- The broadcasts in `recent` were made since the last tick, and are what is in the queue. -/
structure Sound (w : State) (past recent : List Made) : Prop where
  kept : Resources.Kept w.base
  made : w.made = past ++ recent
  ticked : ∀ a ∈ past, a.ticks < w.ticked.length
  unticked : ∀ a ∈ recent, a.ticks = w.ticked.length
  queue : w.base.queue = recent.filterMap Made.queued
  found : ∀ a ∈ w.made, (¬a.before.HasSub a.ev a.evExtra → a.queued = none) ∧
    (a.before.wrapped = false → a.before.HasSub a.ev a.evExtra → a.queued ≠ none)
  live : ∀ a ∈ recent, ∀ bc, a.queued = some bc → bc.json = jsonOrNull a.json ∧
    bc.sub < w.base.server.nextSub ∧ w.base.server.key bc.sub = (a.ev.evPath, a.evExtra)
  written : w.written = w.made.flatMap w.delivery
  received : ∀ a ∈ past, ∀ bc σ, a.queued = some bc → w.ticked[a.ticks]? = some σ →
    Received a bc σ

section Sound

variable {w : State} {past recent : List Made}

theorem Sound.init (init : system.init w) : Sound w [] [] := by
  obtain ⟨base, made, ticked, written⟩ := init
  have none_ : ∀ P : Made → Prop, ∀ a ∈ [], P a := List.forall_mem_nil
  refine ⟨Resources.kept_init w.base base, made, none_ _, none_ _, ?_, ?_, none_ _, ?_, none_ _⟩
  · exact base.2.2.2.2.2.1
  · rw [made]
    exact none_ _
  · rw [written, made]
    rfl

/-- What has been ticked does not depend on later ticks, and what has not is not written. -/
theorem delivery_past {a : Made} {w' : State} {later : List Server}
    (ticks : a.ticks < w.ticked.length) (ticked : w'.ticked = w.ticked ++ later) :
    w'.delivery a = w.delivery a := by
  rw [State.delivery, State.delivery, ticked, List.getElem?_append_left ticks]

theorem delivery_recent {a : Made} (ticks : a.ticks = w.ticked.length) : w.delivery a = [] := by
  rw [State.delivery, ticks, List.getElem?_eq_none (Nat.le_refl _)]
  cases a.queued <;> rfl

/-- A call that neither broadcasts nor ticks. -/
theorem Sound.quiet (sound : Sound w past recent) {base : Resources.State}
    (kept : Resources.Kept base) (queue : base.queue = w.base.queue)
    (lasts : Lasts w.base.server base.server) : Sound { w with base } past recent where
  kept := kept
  made := sound.made
  ticked := sound.ticked
  unticked := sound.unticked
  queue := queue.trans sound.queue
  found := sound.found
  live a member bc queued := by
    obtain ⟨json, below, key⟩ := sound.live a member bc queued
    exact ⟨json, Nat.lt_of_lt_of_le below lasts.2, (lasts.key below).trans key⟩
  written := sound.written
  received := sound.received

/-- `evs_broadcast` finds the subscription of its key, or nothing. -/
theorem Sound.broadcast (sound : Sound w past recent) (ev : Event Handlers) (evExtra : Bytes)
    (json : Option Bytes) {base : Resources.State}
    (stepped : Resources.step w.base (.broadcast ev evExtra json) = some base) :
    Sound (w.record base (.broadcast ev evExtra json)) past
      (recent ++ [⟨ev, evExtra, json, w.base.server, w.ticked.length⟩]) := by
  have kept := Resources.kept_step w.base _ base sound.kept stepped
  have lasts := Resources.lasts_step w.base _ base stepped
  obtain ⟨missing, has, some_⟩ := sound.kept.inv.evsBroadcast_spec ev evExtra json
  -- the call appends what it pushed
  have queue : base.queue =
      w.base.queue ++ (w.base.server.evsBroadcast ev evExtra json).2.toList := by
    cases stepped
    rfl
  simp only [State.record]
  refine ⟨kept, ?_, sound.ticked, ?_, ?_, ?_, ?_, ?_, sound.received⟩
  · simp only [sound.made, List.append_assoc]
  · intro a member
    rcases List.mem_append.mp member with earlier | new
    · exact sound.unticked a earlier
    · cases List.mem_singleton.mp new
      rfl
  · rw [List.filterMap_append, ← sound.queue]
    refine queue.trans (congrArg (w.base.queue ++ ·) ?_)
    cases pushed : (w.base.server.evsBroadcast ev evExtra json).2 with
    | none => simp [Made.queued, pushed]
    | some bc => simp [Made.queued, pushed]
  · intro a member
    rcases List.mem_append.mp member with earlier | new
    · exact sound.found a earlier
    · cases List.mem_singleton.mp new
      exact ⟨missing, has⟩
  · intro a member bc queued
    rcases List.mem_append.mp member with earlier | new
    · -- the older ones are for the same subscriptions
      obtain ⟨data, below, key⟩ := sound.live a earlier bc queued
      exact ⟨data, Nat.lt_of_lt_of_le below lasts.2, (lasts.key below).trans key⟩
    · cases List.mem_singleton.mp new
      -- the new one is for the subscription that was found
      obtain ⟨data, below, key⟩ := some_ bc queued
      exact ⟨data, Nat.lt_of_lt_of_le below lasts.2, (lasts.key below).trans key⟩
  · -- its tick has not come
    have unwritten : w.delivery ⟨ev, evExtra, json, w.base.server, w.ticked.length⟩ = [] :=
      delivery_recent rfl
    change w.written = (w.made ++ [_]).flatMap w.delivery
    rw [List.flatMap_append, List.flatMap_singleton, unwritten, List.append_nil]
    exact sound.written

/-- The tick goes over the queue: what was made since the last one is written. -/
theorem Sound.tick (sound : Sound w past recent) {base : Resources.State}
    (stepped : Resources.step w.base .tick = some base) : Sound (w.record base .tick) w.made [] := by
  have kept := Resources.kept_step w.base _ base sound.kept stepped
  have inv := sound.kept.inv
  have ticks : ∀ a ∈ w.made, a.ticks < (w.record base .tick).ticked.length := by
    intro a member
    rw [State.record, List.length_append, List.length_singleton, Nat.lt_succ_iff]
    rw [sound.made] at member
    rcases List.mem_append.mp member with earlier | new
    · exact Nat.le_of_lt (sound.ticked a earlier)
    · exact Nat.le_of_eq (sound.unticked a new)
  have now : ∀ a ∈ recent, (w.record base .tick).ticked[a.ticks]? = some w.base.server := by
    intro a member
    simp [State.record, sound.unticked a member]
  have held : ∀ a ∈ recent, ∀ bc, a.queued = some bc → bc.sub ∈ w.base.holders := by
    intro a member bc queued
    have queue : bc ∈ w.base.queue := by
      rw [sound.queue, List.mem_filterMap]
      exact ⟨a, member, queued⟩
    exact List.mem_append.mpr (Or.inr (List.mem_map_of_mem queue))
  refine ⟨kept, (List.append_nil _).symm, ticks, List.forall_mem_nil _, ?_, sound.found,
    List.forall_mem_nil _, ?_, ?_⟩
  · cases stepped
    rfl
  · -- what is written now is what the recent ones lead to on this server
    have earlier : past.flatMap (w.record base .tick).delivery = past.flatMap w.delivery :=
      List.flatMap_congr fun a member => delivery_past (sound.ticked a member) rfl
    have before : w.made.flatMap w.delivery = past.flatMap w.delivery := by
      have unwritten : recent.flatMap w.delivery = [] := by
        rw [List.flatMap_eq_nil_iff]
        exact fun a member => delivery_recent (sound.unticked a member)
      rw [sound.made, List.flatMap_append, unwritten, List.append_nil]
    have fresh : recent.flatMap (w.record base .tick).delivery =
        (recent.filterMap Made.queued).flatMap w.base.server.broadcastWrites := by
      rw [List.filterMap_eq_flatMap_toList, List.flatMap_assoc]
      refine List.flatMap_congr fun a member => ?_
      rw [State.delivery, now a member]
      cases a.queued with
      | none => rfl
      | some bc => exact (List.flatMap_singleton w.base.server.broadcastWrites bc).symm
    change w.written ++ (w.base.server.evsBroadcastTick w.base.queue).2 = _
    rw [evsBroadcastTick_writes, sound.queue, ← fresh, sound.written, before, ← earlier,
      ← List.flatMap_append, ← sound.made]
    rfl
  · intro a member bc σ queued found
    rw [sound.made] at member
    rcases List.mem_append.mp member with earlier | new
    · rw [State.record, List.getElem?_append_left (sound.ticked a earlier)] at found
      exact sound.received a earlier bc σ queued found
    · obtain rfl : w.base.server = σ := Option.some.inj ((now a new).symm.trans found)
      obtain ⟨data, -, key⟩ := sound.live a new bc queued
      have queued := held a new bc queued
      refine ⟨inv.broadcastWrites_count bc, ?_, key,
        fun fits => (inv.table_of_held fits queued).2, fun fits => ?_⟩
      · intro write written
        obtain ⟨item, -, rfl⟩ := List.mem_map.mp written
        rw [Server.key, Prod.mk.injEq] at key
        exact ⟨by rw [key.1, key.2], data⟩
      · intro c s active same
        exact inv.entry_held fits queued (inv.open_of_active active).1 (same.trans key.symm)

end Sound

end Delivery

end QuickIO
