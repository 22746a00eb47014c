import QuickIO.Transfers

/-!
# Who frees callback data

Runs of the functions that take callback data, with the callbacks fired,
evicted, pruned and given up in any order while clients subscribe and
unsubscribe. When a client has been freed, each data handed over with it has
been freed once, unless a sender dropped it.
-/
namespace QuickIO

open Lib

namespace CallbackData

/-- What a call hands over: `cb_data` with the function that frees it, when
there are both. -/
def handOver (cbData freeFn : Option Ptr) : List (Ptr × Ptr) :=
  (freeFn.bind fun free => cbData.map fun data => (free, data)).toList

theorem cbDataFree_eq (cbData freeFn : Option Ptr) :
    cbDataFree cbData freeFn = handOver cbData freeFn := by
  cases cbData <;> cases freeFn <;> rfl

/-- The server with its subscriptions, and for each client: the data handed over
so far, the callbacks whose functions are running, the data freed, and whether
the client itself has been freed. -/
structure State where
  resources : Resources.State
  handed : ClientId → List (Ptr × Ptr)
  running : ClientId → List (ClientCb Ptr Ptr Ptr)
  freed : ClientId → List (Ptr × Ptr)
  gone : ClientId → Bool

def State.server (m : State) : Server := m.resources.server

/-- The data that running functions use. -/
def State.used (m : State) (c : ClientId) : List (Ptr × Ptr) :=
  (m.running c).flatMap fun cb => handOver cb.cbData cb.freeFn

/-- A call about one client leaves the server as `τ`. The frees it made are
those at the end of the server's log. -/
def State.after (m : State) (c : ClientId) (τ : Server) : State :=
  { m with
    resources := { m.resources with server := τ }
    freed := Function.update m.freed c
      (m.freed c ++ τ.dataFreed.drop m.server.dataFreed.length) }

/-- A fire is two steps, so that anything can happen while the function runs. -/
inductive Label where
  | subscriptions (l : Resources.Label)
  | transfer (env : Env) (t : Transfer) (cbFn cbData freeFn : Option Ptr)
  | fire (env : Env) (c : ClientId) (serverCb clientCb : EvsCb) (json : Bytes)
  | returned (c : ClientId) (i : Nat)
  | prune (c : ClientId) (before : Int)
  | freeAll (c : ClientId)

/-- Nobody has a reference to a client that is freed: no function runs for it,
and nothing is called with it again. -/
def step (m : State) : Label → Option State
  | .subscriptions l => (Resources.step m.resources l).map fun resources => { m with resources }
  | .transfer env t cbFn cbData freeFn =>
    if m.gone t.client then none
    else
      some { m.after t.client (t.run env m.server cbFn cbData freeFn) with
        handed := Function.update m.handed t.client
          (m.handed t.client ++ handOver cbData freeFn) }
  -- The lookup is under the client's lock, the call is not.
  | .fire env c serverCb clientCb json =>
    if m.gone c then none
    else
      let call := m.server.cbFireCall env c serverCb clientCb json
      some { m.after c call.1 with
        running := Function.update m.running c (m.running c ++ call.2.1.toList) }
  -- The function that was called returns, and only then is its data freed.
  | .returned c i =>
    (m.running c)[i]?.map fun cb =>
      { m.after c (m.server.cbFireReturn cb) with
        running := Function.update m.running c ((m.running c).eraseIdx i) }
  | .prune c before => if m.gone c then none else some (m.after c (m.server.cbPrune c before))
  -- The last reference to the client is gone, so no call of its callbacks is running.
  | .freeAll c =>
    if m.gone c || !(m.running c).isEmpty then none
    else
      some { m.after c (m.server.freeAll c) with gone := Function.update m.gone c true }

/-- It begins with a server nobody has subscribed on and no callback waits on. -/
def system : TransitionSystem State Label where
  init m := Resources.system.init m.resources ∧ ∀ c,
    (m.server.clients c).callbacks.owned = [] ∧ m.handed c = [] ∧ m.running c = [] ∧
      m.freed c = [] ∧ m.gone c = false
  step := step

/-- The data of a client that is stored, used or freed. -/
def State.accounted (m : State) (c : ClientId) : List (Ptr × Ptr) :=
  m.freed c ++ m.used c ++ (m.server.clients c).callbacks.owned

/-- The call hands over nothing that has to be freed, or takes it. -/
def Taken (c : ClientId) (m : State) : Label → Prop
  | .transfer _ t _ cbData freeFn =>
    t.client = c → handOver cbData freeFn ≠ [] → t.Subscribed m.server
  | _ => True

instance decidableTaken (c : ClientId) (m : State) : (l : Label) → Decidable (Taken c m l)
  | .transfer _ t _ cbData freeFn =>
    inferInstanceAs (Decidable (t.client = c → handOver cbData freeFn ≠ [] → t.Subscribed m.server))
  | .subscriptions _ => isTrue trivial
  | .fire _ _ _ _ _ => isTrue trivial
  | .returned _ _ => isTrue trivial
  | .prune _ _ => isTrue trivial
  | .freeAll _ => isTrue trivial

/-! ### One step -/

/-- At a client a call leaves, next to what came in and went out, what was
there. -/
theorem after_counts {m : State} {τ : Server} {c : ClientId} {given taken : List (Ptr × Ptr)}
    (moves : Moves m.server τ c given taken) (c' : ClientId) (x : Ptr × Ptr) :
    ((m.after c τ).freed c').count x + (τ.clients c').callbacks.owned.count x +
        (if c' = c then taken.count x else 0) =
      (m.freed c').count x + (m.server.clients c').callbacks.owned.count x +
        (if c' = c then given.count x else 0) := by
  by_cases same : c' = c
  · subst same
    obtain ⟨freed, logged, balance⟩ := moves.own
    have counts := balance.count_eq x
    have here : (m.after c' τ).freed c' = m.freed c' ++ freed := by
      simp [State.after, logged]
    simp only [List.count_append] at counts
    rw [here, List.count_append, if_pos rfl, if_pos rfl]
    omega
  · have here : (m.after c τ).freed c' = m.freed c' := by simp [State.after, same]
    rw [here, moves.others c' same, if_neg same, if_neg same]

/-- A client's list grows at the end. -/
theorem count_update {α β : Type} [BEq β] (lists : ClientId → List α) (f : α → List β)
    (c c' : ClientId) (more : List α) (x : β) :
    ((Function.update lists c (lists c ++ more) c').flatMap f).count x =
      ((lists c').flatMap f).count x + if c' = c then (more.flatMap f).count x else 0 := by
  by_cases same : c' = c
  · subst same
    simp
  · simp [same]

/-- A client's list loses an item. -/
theorem count_eraseIdx {α β : Type} [BEq β] (lists : ClientId → List α) (f : α → List β)
    (c c' : ClientId) {i : Nat} {a : α} (found : (lists c)[i]? = some a) (x : β) :
    ((Function.update lists c ((lists c).eraseIdx i) c').flatMap f).count x +
        (if c' = c then (f a).count x else 0) = ((lists c').flatMap f).count x := by
  by_cases same : c' = c
  · subst same
    obtain ⟨inside, rfl⟩ := List.getElem?_eq_some_iff.mp found
    have counts := ((List.getElem_cons_eraseIdx_perm inside).flatMap_right f).count_eq x
    rw [List.flatMap_cons, List.count_append] at counts
    rw [Function.update_self, if_pos rfl]
    omega
  · simp [same]

/-- Every step accounts for what is handed over, but for what it drops. -/
theorem step_counts {m m' : State} {l : Label} (stepped : step m l = some m') (c : ClientId) :
    ∃ dropped : List (Ptr × Ptr), (Taken c m l ↔ dropped = []) ∧
      ∀ x, (m'.accounted c).count x + dropped.count x + (m.handed c).count x =
        (m.accounted c).count x + (m'.handed c).count x := by
  simp only [State.accounted, List.count_append]
  cases l with
  | subscriptions l =>
    obtain ⟨resources, moved, rfl⟩ := Option.map_eq_some_iff.mp stepped
    have same : (resources.server.clients c).callbacks = (m.server.clients c).callbacks :=
      congrFun (congrArg Prod.fst (Resources.step_cbs moved)) c
    refine ⟨[], ⟨fun _ => rfl, fun _ => trivial⟩, fun x => ?_⟩
    simp only [State.server, State.used] at same ⊢
    rw [same]
    rfl
  | transfer env t cbFn cbData freeFn =>
    obtain ⟨-, ⟨⟩⟩ := Option.ite_none_left_eq_some.mp stepped
    have handed := count_update m.handed (fun x => [x]) t.client c (handOver cbData freeFn)
    simp only [List.flatMap_singleton'] at handed
    -- Only a transfer can drop data: to a client that is not subscribed.
    by_cases subscribed : t.Subscribed m.server
    · have moves := Moves.run env m.server cbFn cbData freeFn subscribed
      rw [cbDataFree_eq] at moves
      refine ⟨[], ⟨fun _ => rfl, fun _ _ _ => subscribed⟩, fun x => ?_⟩
      have counts := after_counts moves c x
      have now := handed x
      simp only [State.server, State.used, State.after, List.count_nil, ite_self] at counts now ⊢
      omega
    · have moves := (Moves.refl m.server t.client).congr rfl
        (Transfer.run_unsubscribed env m.server cbFn cbData freeFn subscribed)
      refine ⟨if c = t.client then handOver cbData freeFn else [], ?_, fun x => ?_⟩
      · by_cases same : c = t.client
        · subst same
          simp [Taken, subscribed]
        · simp [Taken, same, Ne.symm same]
      · have counts := after_counts moves c x
        have now := handed x
        rw [apply_ite (List.count x)]
        simp only [State.server, State.used, State.after, List.count_nil, ite_self] at counts now ⊢
        omega
  -- a callback that fires takes its data along, into the running calls
  | fire env c' serverCb clientCb json =>
    obtain ⟨-, ⟨⟩⟩ := Option.ite_none_left_eq_some.mp stepped
    refine ⟨[], ⟨fun _ => rfl, fun _ => trivial⟩, fun x => ?_⟩
    have moves := Moves.cbFireCall env m.server c' serverCb clientCb json
    simp only [cbDataFree_eq] at moves
    have counts := after_counts moves c x
    have used := count_update m.running (fun cb => handOver cb.cbData cb.freeFn) c' c
      (m.server.cbFireCall env c' serverCb clientCb json).2.1.toList x
    simp only [State.server, State.used, State.after, List.count_nil, ite_self] at counts used ⊢
    omega
  -- and the data is freed when the call returns
  | returned c' i =>
    obtain ⟨cb, found, rfl⟩ := Option.map_eq_some_iff.mp stepped
    refine ⟨[], ⟨fun _ => rfl, fun _ => trivial⟩, fun x => ?_⟩
    have moves := Moves.cbFireReturn m.server c' cb
    rw [cbDataFree_eq] at moves
    have counts := after_counts moves c x
    have used := count_eraseIdx m.running (fun cb => handOver cb.cbData cb.freeFn) c' c found x
    simp only [State.server, State.used, State.after, List.count_nil, ite_self] at counts used ⊢
    omega
  | prune c' before =>
    obtain ⟨-, ⟨⟩⟩ := Option.ite_none_left_eq_some.mp stepped
    refine ⟨[], ⟨fun _ => rfl, fun _ => trivial⟩, fun x => ?_⟩
    have counts := after_counts (Moves.cbPrune m.server c' before) c x
    simp only [State.server, State.used, State.after, List.count_nil, ite_self] at counts ⊢
    omega
  | freeAll c' =>
    obtain ⟨-, ⟨⟩⟩ := Option.ite_none_left_eq_some.mp stepped
    refine ⟨[], ⟨fun _ => rfl, fun _ => trivial⟩, fun x => ?_⟩
    have counts := after_counts (Moves.freeAll m.server c') c x
    simp only [State.server, State.used, State.after, List.count_nil, ite_self] at counts ⊢
    omega

/-- A client that has been freed has no callback, stored or running. -/
def Quiet (m : State) : Prop :=
  ∀ c, m.gone c = true → m.running c = [] ∧ (m.server.clients c).callbacks.owned = []

/-- A call about another client keeps it that way. -/
theorem Quiet.after {m : State} (quiet : Quiet m) {τ : Server} {c c' : ClientId}
    {given taken : List (Ptr × Ptr)} (moves : Moves m.server τ c given taken)
    (present : m.gone c = false) (gone : m.gone c' = true) :
    c' ≠ c ∧ m.running c' = [] ∧ (τ.clients c').callbacks.owned = [] := by
  have other : c' ≠ c := by
    rintro rfl
    rw [present] at gone
    cases gone
  obtain ⟨running, stored⟩ := quiet c' gone
  exact ⟨other, running, (moves.others c' other).symm ▸ stored⟩

theorem quiet_step {m m' : State} {l : Label} (stepped : step m l = some m') (quiet : Quiet m) :
    Quiet m' := by
  intro c gone
  cases l with
  | subscriptions l =>
    obtain ⟨resources, moved, rfl⟩ := Option.map_eq_some_iff.mp stepped
    have same : (resources.server.clients c).callbacks = (m.server.clients c).callbacks :=
      congrFun (congrArg Prod.fst (Resources.step_cbs moved)) c
    obtain ⟨running, stored⟩ := quiet c gone
    exact ⟨running, same.symm ▸ stored⟩
  | transfer env t cbFn cbData freeFn =>
    obtain ⟨present, ⟨⟩⟩ := Option.ite_none_left_eq_some.mp stepped
    obtain ⟨given, moves⟩ : ∃ given,
        Moves m.server (t.run env m.server cbFn cbData freeFn) t.client given [] := by
      by_cases subscribed : t.Subscribed m.server
      · exact ⟨_, Moves.run env m.server cbFn cbData freeFn subscribed⟩
      · exact ⟨[], (Moves.refl m.server t.client).congr rfl
          (Transfer.run_unsubscribed env m.server cbFn cbData freeFn subscribed)⟩
    exact (quiet.after moves (Bool.not_eq_true _ ▸ present) gone).2
  | fire env c' serverCb clientCb json =>
    obtain ⟨present, ⟨⟩⟩ := Option.ite_none_left_eq_some.mp stepped
    obtain ⟨other, running, stored⟩ := quiet.after
      (Moves.cbFireCall env m.server c' serverCb clientCb json) (Bool.not_eq_true _ ▸ present) gone
    exact ⟨by simpa [other] using running, stored⟩
  -- a running call keeps its client
  | returned c' i =>
    obtain ⟨cb, found, rfl⟩ := Option.map_eq_some_iff.mp stepped
    have present : m.gone c' = false := by
      cases gone' : m.gone c' with
      | false => rfl
      | true => simp [(quiet c' gone').1] at found
    obtain ⟨other, running, stored⟩ := quiet.after (Moves.cbFireReturn m.server c' cb) present gone
    exact ⟨by simpa [other] using running, stored⟩
  | prune c' before =>
    obtain ⟨present, ⟨⟩⟩ := Option.ite_none_left_eq_some.mp stepped
    exact (quiet.after (Moves.cbPrune m.server c' before) (Bool.not_eq_true _ ▸ present) gone).2
  -- the client has no running call, and its slots are emptied now
  | freeAll c' =>
    obtain ⟨possible, ⟨⟩⟩ := Option.ite_none_left_eq_some.mp stepped
    obtain ⟨present, idle⟩ : m.gone c' = false ∧ m.running c' = [] := by simpa using possible
    by_cases same : c = c'
    · subst same
      refine ⟨idle, ?_⟩
      simpa [State.server, State.after, Server.freeAll, Server.setClient] using
        (owned_clientFreeAll (m.server.clients c).callbacks).1
    · have before : m.gone c = true := by simpa [State.after, same] using gone
      exact (quiet.after (Moves.freeAll m.server c') present before).2

/-! ### Runs -/

/-- No data is accounted for more often than it was handed over. -/
structure Kept (c : ClientId) (m : State) : Prop where
  quiet : Quiet m
  within : ∀ x, (m.accounted c).count x ≤ (m.handed c).count x

/-- How often data was handed over that is not accounted for any more. -/
def lost (c : ClientId) (m : State) (x : Ptr × Ptr) : Nat :=
  (m.handed c).count x - (m.accounted c).count x

theorem kept_init {m : State} (init : system.init m) (c : ClientId) :
    Kept c m ∧ lost c m = fun _ => 0 := by
  obtain ⟨stored, handed, running, freed, -⟩ := init.2 c
  have accounted : m.accounted c = [] := by
    simp [State.accounted, State.used, stored, running, freed]
  refine ⟨⟨fun c' gone => ?_, fun x => ?_⟩, funext fun x => ?_⟩
  · rw [(init.2 c').2.2.2.2] at gone
    cases gone
  · rw [accounted]
    exact Nat.zero_le _
  · rw [lost, handed, accounted]
    rfl

/-- A step never finds lost data again, and loses none exactly when what it
hands over is taken. -/
theorem kept_step {m m' : State} {l : Label} {c : ClientId} (kept : Kept c m)
    (stepped : step m l = some m') :
    Kept c m' ∧ lost c m ≤ lost c m' ∧ (Taken c m l ↔ lost c m' = lost c m) := by
  obtain ⟨dropped, taken, counts⟩ := step_counts stepped c
  -- what is lost grows by what the step drops
  have more : ∀ x, lost c m' x = lost c m x + dropped.count x := by
    intro x
    have balance := counts x
    have within := kept.within x
    simp only [lost]
    omega
  refine ⟨⟨quiet_step stepped kept.quiet, fun x => ?_⟩, fun x => ?_, ?_⟩
  · have balance := counts x
    have within := kept.within x
    omega
  · rw [more x]
    exact Nat.le_add_right _ _
  · rw [taken]
    constructor
    · rintro rfl
      -- nothing dropped, nothing lost
      exact funext fun x => more x
    · intro same
      rw [List.eq_nil_iff_forall_not_mem]
      -- what is dropped would be lost
      intro x member
      have none_ := (more x).symm.trans (congrFun same x)
      have some_ := List.count_pos_iff.mpr member
      omega

/-- Every data handed over with the client is freed once, and none of it while
a function that was called with it has not returned. -/
structure FreedOnce (start : State) (ls : List Label) (m : State) (c : ClientId) : Prop where
  once : ∀ x, (m.freed c).count x = (m.handed c).count x
  inTime : ∀ ms u, ms <+: ls → system.run start ms = some u →
    ∀ x, (u.freed c).count x + (u.used c).count x ≤ (u.handed c).count x

/-- In every run that frees a client at its end: what was handed over with it is
freed once and in time if and only if each sender that was given data to free
found a subscription active for the client. -/
theorem data_freed_once_iff (start : State) (init : system.init start) (ls : List Label)
    (m : State) (ran : system.run start ls = some m) (c : ClientId) (gone : m.gone c = true) :
    FreedOnce start ls m c ↔ system.Throughout (Taken c) start ls := by
  obtain ⟨keptStart, none_⟩ := kept_init init c
  have step := fun u l v (kept : Kept c u) (stepped : system.step u l = some v) =>
    kept_step kept stepped
  have kept : Kept c m :=
    system.run_invariant (Kept c) (fun u l v before stepped => (step u l v before stepped).1)
      start m ls keptStart ran
  obtain ⟨-, throughout⟩ :=
    system.throughout_iff_of_monotone (Kept c) (lost c) step start m ls keptStart ran
  -- nothing is stored or in use any more
  obtain ⟨running, stored⟩ := kept.quiet c gone
  have accounted : m.accounted c = m.freed c := by
    simp [State.accounted, State.used, running, stored]
  rw [throughout, none_]
  constructor
  · intro freedOnce
    funext x
    rw [lost, accounted, freedOnce.once x, Nat.sub_self]
  · intro nothing
    refine ⟨fun x => ?_, fun ms u first ran x => ?_⟩
    · have balance := congrFun nothing x
      have within := kept.within x
      rw [lost, accounted] at balance
      rw [accounted] at within
      omega
    · have within := (system.run_invariant (Kept c)
        (fun u l v before stepped => (step u l v before stepped).1)
        start u ms keptStart ran).within x
      simp only [State.accounted, List.count_append] at within
      omega

/-- A server without subscriptions and callbacks. -/
def start : State where
  resources := ⟨Server.new, [], [], [], []⟩
  handed _ := []
  running _ := []
  freed _ := []
  gone _ := false

theorem start_init : system.init start :=
  ⟨⟨Server.new_blank, rfl, rfl, rfl, rfl, rfl, rfl⟩, fun _ => ⟨rfl, rfl, rfl, rfl, rfl⟩⟩

/-- An event anybody can subscribe to. -/
def openEvent : Event Handlers := ⟨str "/a", ⟨none, none, none⟩, true⟩

/-- The client gets an event with a callback, calls it, and goes. -/
def answered : List Label := [
  .subscriptions (.on lateEnv 3 openEvent (str "/x") 7 none),
  .transfer lateEnv (.sendFull 3 openEvent (some (str "/x")) none) (some 1) (some 5) (some 9),
  .fire lateEnv 3 1 0 [], .prune 3 100, .returned 3 0, .freeAll 3]

theorem data_freed_once_iff_answered : ∃ m, system.run start answered = some m ∧
    m.handed 3 = [(9, 5)] ∧ FreedOnce start answered m 3 := by
  have some_ : (system.run start answered).isSome := by decide
  obtain ⟨m, ran⟩ := Option.isSome_iff_exists.mp some_
  have finished : ∀ m ∈ system.run start answered, m.gone 3 = true ∧ m.handed 3 = [(9, 5)] := by
    decide
  obtain ⟨gone, handed⟩ := finished m ran
  have taken : system.Throughout (Taken 3) start answered := by decide
  exact ⟨m, ran, handed, (data_freed_once_iff start start_init answered m ran 3 gone).mpr taken⟩

/-- An event is sent to a client that has not subscribed to it. -/
def unsubscribed : List Label := [
  .transfer lateEnv (.sendFull 3 openEvent (some (str "/x")) none) (some 1) (some 5) (some 9),
  .freeAll 3]

/-- The data is never freed. -/
theorem data_freed_once_unsubscribed :
    ¬∀ start, system.init start → ∀ ls m, system.run start ls = some m →
      ∀ c, m.gone c = true → FreedOnce start ls m c := by
  intro claim
  have some_ : (system.run start unsubscribed).isSome := by decide
  obtain ⟨m, ran⟩ := Option.isSome_iff_exists.mp some_
  have finished : ∀ m ∈ system.run start unsubscribed,
      m.gone 3 = true ∧ m.handed 3 = [(9, 5)] ∧ m.freed 3 = [] := by
    decide
  obtain ⟨gone, handed, freed⟩ := finished m ran
  have once := (claim start start_init unsubscribed m ran 3 gone).once (9, 5)
  rw [handed, freed] at once
  revert once
  decide

end CallbackData

end QuickIO
