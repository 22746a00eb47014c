import QuickIO.Subscribers

/-!
# Runs of the subscription functions

Clients subscribe, unsubscribe and close in any order while approvals come
back late. In every reachable state the subscriber lists contain exactly the
active clients.
-/
namespace QuickIO

open Lib

/-- A server nobody has subscribed on. Its events and the callbacks of its
clients can be anything. -/
structure Server.Blank (σ : Server) : Prop where
  nextSub : σ.nextSub = 0
  table : ∀ p e, σ.table p e = none
  subscribers : ∀ s, σ.subscribers s = []
  client : ∀ c, (σ.clients c).subs = none ∧ (σ.clients c).closing = false ∧
    (σ.clients c).closed = false
  wrapped : σ.wrapped = false

theorem Inv.of_blank {σ : Server} (blank : σ.Blank) : Inv σ [] [] := by
  have entry : ∀ c s, σ.entry c s = none := fun c s => by
    simp [Server.entry, Client.subGet, (blank.client c).1]
  have open_ : ∀ c, (σ.clients c).closed = false := fun c => (blank.client c).2.2
  refine ⟨⟨?_, ?_, ?_, ?_, ?_⟩, ⟨?_, ?_, List.nodup_nil, ?_, ?_⟩, ⟨[], ⟨List.nodup_nil, ?_, ?_,
    ⟨?_, ?_, ?_, ?_, fun _ => ⟨?_, ?_⟩⟩⟩⟩, ?_⟩
  all_goals simp [entry, open_, blank.nextSub, blank.table, blank.subscribers, total, Server.Tidy,
    fun c => (blank.client c).1]

namespace ClientSubs

/-- The server, the references its callers hold, and the completions that are
still to come, one for each `CLIENT_SUB_CREATED`. -/
structure State where
  server : Server
  held : List SubId
  waiting : List (ClientId × SubId)

/-- One call, with what `qev_fair_use` or `qev_list_add` answer in it. A caller
gets its reference to a subscription with `get` and gives it back with `unref`. -/
inductive Label where
  | get (ev : Event Handlers) (evExtra : Bytes)
  | unref (s : SubId)
  | add (c : ClientId) (s : SubId) (fairUse : Bool)
  | accept (c : ClientId) (s : SubId) (listOk : Bool)
  | reject (c : ClientId) (s : SubId)
  | remove (c : ClientId) (s : SubId)
  | close (c : ClientId)
  | closed (c : ClientId)

/-- A subscription is only used by someone who holds a reference to it, a
completion needs a `CLIENT_SUB_CREATED` it answers, and a client is closing
before it is closed. -/
def step (m : State) : Label → Option State
  | .get ev evExtra =>
    (m.server.subGet ev evExtra true).map fun (s, server) => { m with server, held := s :: m.held }
  | .unref s =>
    if s ∈ m.held then some { m with server := m.server.subUnref s, held := m.held.erase s }
    else none
  | .add c s fairUse =>
    if s ∈ m.held then
      match m.server.clientSubAdd c s fairUse with
      -- `CLIENT_SUB_CREATED` is the only answer that owes an accept or a reject.
      | (server, .created) => some { m with server, waiting := (c, s) :: m.waiting }
      | (server, _) => some { m with server }
    else none
  | .accept c s listOk =>
    if s ∈ m.held ∧ (c, s) ∈ m.waiting then
      some { m with
        -- The caller keeps its own reference.
        server := (m.server.clientSubAccept c s listOk).1
        waiting := m.waiting.erase (c, s) }
    else none
  | .reject c s =>
    if s ∈ m.held ∧ (c, s) ∈ m.waiting then
      some { m with
        server := m.server.clientSubReject c s
        waiting := m.waiting.erase (c, s) }
    else none
  | .remove c s =>
    if s ∈ m.held then some { m with server := (m.server.clientSubRemove c s).1 } else none
  | .close c => some { m with server := m.server.qevClose c }
  -- Qev gets to a client some time after it was closed.
  | .closed c =>
    if (m.server.clients c).closing then some { m with server := m.server.clientClosed c }
    else none

def system : TransitionSystem State Label where
  init m := m.server.Blank ∧ m.held = [] ∧ m.waiting = []
  step := step

theorem inv_step (m : State) (l : Label) (m' : State) (inv : Inv m.server m.held m.waiting)
    (stepped : step m l = some m') : Inv m'.server m'.held m'.waiting := by
  cases l with
  | get ev evExtra =>
    obtain ⟨⟨s, server⟩, got, rfl⟩ := Option.map_eq_some_iff.mp stepped
    exact inv.subGet got
  | unref s =>
    obtain ⟨member, ⟨⟩⟩ := Option.ite_none_right_eq_some.mp stepped
    exact inv.subUnref member
  -- only `created` owes an answer, so the others leave `waiting` alone
  | add c s fairUse =>
    obtain ⟨member, added⟩ := Option.ite_none_right_eq_some.mp stepped
    have after := inv.clientSubAdd c member fairUse
    revert added after
    rcases m.server.clientSubAdd c s fairUse with ⟨server, state⟩
    cases state <;> rintro ⟨⟩ after <;> exact after
  | accept c s listOk =>
    obtain ⟨⟨-, member⟩, ⟨⟩⟩ := Option.ite_none_right_eq_some.mp stepped
    exact inv.clientSubAccept member listOk
  | reject c s =>
    obtain ⟨⟨-, member⟩, ⟨⟩⟩ := Option.ite_none_right_eq_some.mp stepped
    exact inv.clientSubReject member
  | remove c s =>
    obtain ⟨-, ⟨⟩⟩ := Option.ite_none_right_eq_some.mp stepped
    exact inv.clientSubRemove c s
  | close c =>
    cases stepped
    exact inv.qevClose c
  -- the client is closing, so it is owed no list
  | closed c =>
    obtain ⟨closing, ⟨⟩⟩ := Option.ite_none_right_eq_some.mp stepped
    exact inv.clientClosed closing

theorem inv_reachable (m : State) (reached : system.Reachable m) :
    Inv m.server m.held m.waiting := by
  refine system.reachable_invariant (fun m => Inv m.server m.held m.waiting) ?_ ?_ m reached
  · rintro m ⟨blank, held, waiting⟩
    rw [held, waiting]
    exact Inv.of_blank blank
  · exact fun m l m' inv stepped => inv_step m l m' inv stepped

end ClientSubs

/-- How often a client occurs in a list of distinct items of which at most one
is its own. -/
theorem countP_client {items : List (Nat × ClientId)} (once : items.Nodup) (c : ClientId)
    (i : Nat) (only : ∀ j, (j, c) ∈ items ↔ j = i) :
    (items.countP fun item => item.2 == c) = 1 := by
  have perm := List.perm_cons_erase ((only i).mpr rfl)
  rw [perm.countP_eq, List.countP_cons_of_pos (by simp), Nat.add_eq_right, List.countP_eq_zero]
  rintro ⟨j, c'⟩ member same
  simp only [beq_iff_eq] at same
  subst same
  obtain rfl := (only j).mp (List.mem_of_mem_erase member)
  exact once.not_mem_erase member

theorem Inv.count {σ : Server} {held : List SubId} {waiting : List (ClientId × SubId)}
    (inv : Inv σ held waiting) (c : ClientId) (s : SubId) :
    ((σ.subscribers s).countP fun item => item.2 == c) =
      if σ.clientSubActive c s then 1 else 0 := by
  -- a list only holds entries that are no longer pending
  have none_of : (∀ csub, σ.entry c s = some csub → csub.pending = true) →
      ((σ.subscribers s).countP fun item => item.2 == c) = 0 := by
    intro unlisted
    rw [List.countP_eq_zero]
    rintro ⟨i, c'⟩ member same
    simp only [beq_iff_eq] at same
    subst same
    obtain ⟨csub, stored, -, listed⟩ := (inv.lists.listed c' s i).mp member
    rw [unlisted csub stored] at listed
    cases listed
  unfold Server.clientSubActive
  cases stored : σ.entry c s with
  | none => exact none_of fun csub at_ => by rw [stored] at at_; cases at_
  | some csub =>
    cases pending : csub.pending with
    | true =>
      simp only [pending, Bool.not_true, Bool.false_and, Bool.false_eq_true, if_false]
      refine none_of fun csub' at_ => ?_
      cases stored.symm.trans at_
      exact pending
    | false =>
      -- an entry that is not pending has no tombstone
      have wanted : csub.tombstone = false := by
        cases tombstone : csub.tombstone with
        | false => rfl
        | true => exact (inv.lists.tombstoned c s csub stored tombstone).symm.trans pending
      simp only [pending, wanted, Bool.not_false, Bool.and_self, if_true]
      refine countP_client (inv.lists.once s) c csub.idx fun j => ?_
      rw [inv.lists.listed]
      constructor
      · rintro ⟨csub', at_, idx, -⟩
        cases stored.symm.trans at_
        exact idx.symm
      · rintro rfl
        exact ⟨csub, stored, rfl, pending⟩

namespace ClientSubs

/-- In every reachable state a list holds each active client once and no other,
a tombstoned entry is pending, a completion finds a pending and unlisted entry
or a client that was closed, and a client without entries has no table. -/
theorem subscribers_exact (m : State) (reached : system.Reachable m) :
    (∀ c s, ((m.server.subscribers s).countP fun item => item.2 == c) =
      if m.server.clientSubActive c s then 1 else 0) ∧
    (∀ c s csub, m.server.entry c s = some csub → csub.tombstone = true →
      csub.pending = true) ∧
    (∀ c s, (c, s) ∈ m.waiting →
      (∃ csub, m.server.entry c s = some csub ∧ csub.pending = true ∧
        ∀ i, (i, c) ∉ m.server.subscribers s) ∨
      (m.server.entry c s = none ∧ (m.server.clients c).closed = true)) ∧
    (∀ c, (m.server.clients c).subs = none ↔ ∀ s, m.server.entry c s = none) := by
  have inv := inv_reachable m reached
  refine ⟨inv.count, inv.lists.tombstoned, ?_, ?_⟩
  · intro c s member
    cases stored : m.server.entry c s with
    | none => exact Or.inr ⟨rfl, (inv.waits.late stored member).1⟩
    | some csub =>
      have pending := inv.waits.pending member stored
      -- a pending entry is on no list
      refine Or.inl ⟨csub, rfl, pending, fun i listed => ?_⟩
      obtain ⟨csub', at_, -, unpending⟩ := (inv.lists.listed c s i).mp listed
      cases stored.symm.trans at_
      rw [pending] at unpending
      cases unpending
  · intro c
    -- a table is dropped with its last entry
    have tidy : (m.server.clients c).subs ≠ none ↔ ∃ s, m.server.entry c s ≠ none := inv.tidy c
    rw [← not_iff_not, ← ne_eq, tidy, not_forall]

end ClientSubs

/-- A server without events, subscriptions or callbacks. -/
def Server.new : Server where
  events := Lib.PrefixTree.empty
  clients := fun _ =>
    { closing := false, closed := false, subs := none, callbacks := ⟨fun _ => none, 0⟩ }
  heap := fun _ => ⟨⟨[], ⟨none, none, none⟩, false⟩, [], [], 0, false⟩
  nextSub := 0
  nextIdx := 0
  table := fun _ _ => none
  fairUsed := 0
  offCalls := []
  dataFreed := []
  wrapped := false

theorem Server.new_blank : Server.new.Blank where
  nextSub := rfl
  table _ _ := rfl
  subscribers _ := rfl
  client _ := ⟨rfl, rfl, rfl⟩
  wrapped := rfl

namespace ClientSubs

/-- Off and on again before the approval, then accepted. -/
def flipped : List Label := [
  .get ⟨str "/a", ⟨none, none, none⟩, false⟩ [],
  .add 7 0 true, .remove 7 0, .add 7 0 true, .accept 7 0 true]

theorem subscribers_exact_flipped :
    ∃ m, system.Reachable m ∧ m.server.clientSubActive 7 0 = true ∧
      ((m.server.subscribers 0).countP fun item => item.2 == 7) = 1 := by
  cases ran : system.run ⟨Server.new, [], []⟩ flipped with
  | none => exact absurd ran (by decide)
  | some m =>
    have reached : system.Reachable m := ⟨_, flipped, ⟨Server.new_blank, rfl, rfl⟩, ran⟩
    have active : ∀ m ∈ system.run ⟨Server.new, [], []⟩ flipped,
        m.server.clientSubActive 7 0 = true := by
      decide
    have count := (subscribers_exact m reached).1 7 0
    rw [active m ran] at count
    exact ⟨m, reached, active m ran, count⟩

end ClientSubs

end QuickIO
