import QuickIO.Closing
import QuickIO.Resources

/-!
# A subscribe that fails

`evs_on` can fail before anything was allocated for the client, when the pool refuses, when
the event does, or when the subscriber list is full. `failed_leaves_no_trace` says that
whatever had been taken by then has been given back, as long as the reference `sub_get`
takes does not bring the count to zero.
-/
namespace QuickIO

open Server

/-- The ways in which `evs_on` fails for a client that has no entry yet. -/
inductive Refusal (env : Env) (σ : Server) (c : ClientId) (ev : Event Handlers) : Prop
  | closing (closing : (σ.clients c).closing = true)
  | calm (quota : env.fairUse = false)
  | rejected (answer : onAnswer env ev = .err ∨ onAnswer env ev = .now false)
  | full (answer : onAnswer env ev = .ok ∨ onAnswer env ev = .now true)
      (list : env.listOk = false)

/-- Clients, tables, subscriptions and the pool are as before. A subscription that was
allocated in between has been freed. -/
structure NoTrace (σ τ : Server) : Prop where
  clients : τ.clients = σ.clients
  table : τ.table = σ.table
  heap : ∀ s, s < σ.nextSub → τ.heap s = σ.heap s
  freed : ∀ s, σ.nextSub ≤ s → s < τ.nextSub → (τ.heap s).freed = true
  fairUsed : τ.fairUsed = σ.fairUsed

/-- One callback that is not a success, for a client that asked for one. -/
def ToldFailure (env : Env) (c : ClientId) (clientCb : EvsCb) (sends : List Send) : Prop :=
  if clientCb = 0 then sends = []
  else ∃ code, code ≠ codeOk ∧
    sends = [⟨c, cbPath clientCb, [], evsNoCallback, cbJson env code none none⟩]

/-! ### What was created is undone -/

/-- The subscriptions are as they were, also those that are new. -/
structure Undone (σ τ : Server) : Prop where
  clients : τ.clients = σ.clients
  table : τ.table = σ.table
  heap : τ.heap = σ.heap
  nextSub : τ.nextSub = σ.nextSub
  fairUsed : τ.fairUsed = σ.fairUsed

section Undo

variable {σ τ : Server} {c : ClientId} {s : SubId}

/-- The entry was the first of the table, or its only one. -/
theorem erase_inserted {subs : Option (AList fun _ : SubId => ClientSub)} {csub : ClientSub}
    (absent : subs.bind (AList.lookup s) = none)
    (filled : ∀ l, subs = some l → l.keys.length ≠ 0) :
    ((some ((subs.getD ∅).insert s csub)).map (AList.erase s)).filter
      (fun l => l.keys.length != 0) = subs := by
  have erased : ∀ l : AList fun _ : SubId => ClientSub, l.lookup s = none →
      (l.insert s csub).erase s = l := by
    intro l none_
    have unstored : s ∉ l := AList.lookup_eq_none.mp none_
    apply AList.ext
    have entries : ((l.insert s csub).erase s).entries = (l.insert s csub).entries.kerase s := rfl
    rw [entries, AList.entries_insert_of_notMem unstored]
    exact List.kerase_cons_eq rfl
  cases subs with
  | none =>
    rw [Option.getD_none, Option.map_some, erased ∅ (AList.lookup_empty s)]
    rfl
  | some l =>
    rw [Option.getD_some, Option.map_some, erased l absent, Option.filter_some,
      if_pos (by simpa using filled l rfl)]

/-- Giving back the reference that was taken last. -/
theorem unref_again {sub : Subscription} (live : sub.refs ≠ 0)
    (heap : σ.heap s = { sub with refs := sub.refs + 1 }) : σ.subUnref s = σ.setSub s sub := by
  simp only [subUnref, heap, UInt32.add_sub_cancel, if_neg live]

theorem heap_clientOff (υ : Server) : (υ.clientOff c s).heap = υ.heap := by
  unfold clientOff
  split <;> rfl

theorem table_clientOff (υ : Server) : (υ.clientOff c s).table = υ.table := by
  unfold clientOff
  split <;> rfl

/-- The subscription while the client holds its reference. -/
theorem heap_added (unlisted : ∀ item ∈ σ.subscribers s, item.1 ≠ σ.nextIdx) :
    ((σ.added c s).listRemove s σ.nextIdx).heap =
      Function.update σ.heap s { σ.heap s with refs := (σ.heap s).refs + 1 } := by
  have list : (σ.heap s).subscribers.filter (fun item => item.1 != σ.nextIdx) =
      (σ.heap s).subscribers := by
    rw [List.filter_eq_self]
    intro item member
    simpa using unlisted item member
  simp only [listRemove, added, subRef, hashInsert, setSub, setClient, Function.update_self,
    Function.update_idem, list]

/-- `_sub_cleanup` of the entry that `client_sub_add` has created. -/
theorem added_undone (live : (σ.heap s).refs ≠ 0) (absent : σ.entry c s = none)
    (unlisted : ∀ item ∈ σ.subscribers s, item.1 ≠ σ.nextIdx) (tidy : σ.Tidy c) :
    Undone σ ((σ.added c s).subCleanup c s ⟨σ.nextIdx, true, false⟩ true) := by
  -- what `sub_unref` finds
  let υ := (((σ.added c s).listRemove s σ.nextIdx).clientOff c s).subFree
  have heap : υ.heap = Function.update σ.heap s { σ.heap s with refs := (σ.heap s).refs + 1 } :=
    (heap_clientOff _).trans (heap_added unlisted)
  have unref : υ.subUnref s = υ.setSub s (σ.heap s) := by
    apply unref_again live
    rw [heap, Function.update_self]
  have same : (σ.added c s).subCleanup c s ⟨σ.nextIdx, true, false⟩ true =
      ((υ.setSub s (σ.heap s)).hashRemove c s).dropEmpty c := by
    rw [← unref]
    rfl
  have clients : υ.clients = (σ.added c s).clients := clients_clientOff _ c s
  rw [same]
  refine ⟨?_, table_clientOff _, ?_, nextSub_clientOff _ c s, ?_⟩
  · funext d
    by_cases client : d = c
    · subst client
      have filled : ∀ l, (σ.clients d).subs = some l → l.keys.length ≠ 0 := by
        intro l stored empty
        obtain ⟨r, used⟩ := tidy.mp (by rw [stored]; exact Option.some_ne_none _)
        apply used
        simp only [entry, Client.subGet, stored, Option.bind_some, AList.lookup_eq_none,
          AList.mem_keys, List.length_eq_zero_iff.mp empty]
        exact List.not_mem_nil
      have stored : υ.clients d = { σ.clients d with
          subs := some (((σ.clients d).subs.getD ∅).insert s ⟨σ.nextIdx, true, false⟩) } := by
        rw [clients]
        exact Function.update_self d _ _
      simp only [dropEmpty, hashRemove, setClient, setSub, Function.update_self, stored,
        erase_inserted absent filled]
    · have other : υ.clients d = σ.clients d := by
        rw [clients]
        exact Function.update_of_ne client _ _
      simp only [dropEmpty, hashRemove, setClient, setSub, Function.update_of_ne client, other]
  · change Function.update υ.heap s (σ.heap s) = σ.heap
    rw [heap, Function.update_idem, Function.update_eq_self]
  · change (((σ.added c s).listRemove s σ.nextIdx).clientOff c s).fairUsed - 1 = σ.fairUsed
    rw [fairUsed_clientOff]
    rfl

/-- Where the table has a subscription, `sub_get` finds it, and one more reference can be
counted. -/
def Room (σ : Server) (ev : Event Handlers) (evExtra : Bytes) : Prop :=
  ∀ s, σ.table ev.evPath evExtra = some s → (σ.heap s).refs ≠ 0 ∧ (σ.heap s).refs + 1 ≠ 0

/-- `sub_get` at the start of `evs_on` and `sub_unref` at its end. -/
theorem subGet_returned {υ : Server} {ev : Event Handlers} {evExtra : Bytes}
    (room : Room σ ev evExtra) (got : σ.subGet ev evExtra true = some (s, τ))
    (undone : Undone τ υ) : NoTrace σ (υ.subUnref s) := by
  obtain ⟨clients, table, heap, nextSub, fairUsed⟩ := undone
  rcases subGet_cases got with ⟨stored, live, rfl⟩ | ⟨dead, rfl, rfl⟩
  · -- it was in use before: one reference more, and one fewer
    have unref : υ.subUnref s = υ.setSub s (σ.heap s) := by
      apply unref_again live
      rw [heap]
      exact Function.update_self s _ _
    have before : (υ.setSub s (σ.heap s)).heap = σ.heap := by
      change Function.update υ.heap s (σ.heap s) = σ.heap
      rw [heap]
      simp only [subRef, setSub, Function.update_idem, Function.update_eq_self]
    rw [unref]
    refine ⟨clients, table, fun r _ => congrFun before r, ?_, fairUsed⟩
    intro r above below
    exact absurd (nextSub ▸ below) (Nat.not_lt.mpr above)
  · -- it was allocated: the reference is its last one
    have absent : σ.table ev.evPath evExtra = none :=
      Option.eq_none_iff_forall_ne_some.mpr fun r stored => (room r stored).1 (dead r stored)
    have new : υ.heap σ.nextSub = ⟨ev, evExtra, [], 1, false⟩ := by
      rw [heap]
      exact Function.update_self σ.nextSub _ _
    have here : υ.table ev.evPath evExtra = some σ.nextSub := by
      rw [table]
      simp [subCreate]
    have unstored : Function.update υ.table ev.evPath
        (Function.update (υ.table ev.evPath) evExtra none) = σ.table := by
      rw [table]
      simp only [subCreate, Function.update_self, Function.update_idem]
      rw [← absent, Function.update_eq_self, Function.update_eq_self]
    have unref : υ.subUnref σ.nextSub =
        { υ.setSub σ.nextSub ⟨ev, evExtra, [], 0, true⟩ with table := σ.table } := by
      simp only [subUnref, new, here, UInt32.sub_self, if_true, unstored]
    rw [unref]
    refine ⟨clients, rfl, ?_, ?_, fairUsed⟩
    · intro r below
      have old : r ≠ σ.nextSub := Nat.ne_of_lt below
      simp [setSub, heap, subCreate, old]
    · intro r above below
      have last : r = σ.nextSub := by
        change r < υ.nextSub at below
        rw [nextSub] at below
        exact Nat.le_antisymm (Nat.le_of_lt_succ below) above
      simp [setSub, last]

end Undo

/-! ### The four depths -/

section Fails

variable {env : Env} {σ : Server} {c : ClientId} {s : SubId}

theorem evsErrCb_told {code : EvsCode} (failure : code ≠ codeOk) (clientCb : EvsCb) :
    ToldFailure env c clientCb (σ.evsErrCb env c clientCb code none none).2 := by
  unfold ToldFailure
  simp only [evsErrCb, evsCbFull, cbNew_none, if_neg failure]
  split
  next => rfl
  next => exact ⟨code, failure, rfl⟩

/-- `evs_on_cb` for the entry that was created, when the event or the list refuses it. -/
theorem evsOnCb_failed (info : EvsOnInfo) (live : (σ.heap info.sub).refs ≠ 0)
    (absent : σ.entry info.client info.sub = none)
    (unlisted : ∀ item ∈ σ.subscribers info.sub, item.1 ≠ σ.nextIdx) (tidy : σ.Tidy info.client)
    {success : Bool} (failed : success = true → env.listOk = false) :
    Undone σ ((σ.added info.client info.sub).evsOnCb env success info).1 ∧
      ToldFailure env info.client info.clientCb
        ((σ.added info.client info.sub).evsOnCb env success info).2 := by
  have stored : (σ.added info.client info.sub).entry info.client info.sub =
      some ⟨σ.nextIdx, true, false⟩ := by
    rw [added, entry_hashInsert, if_pos ⟨rfl, rfl⟩]
  have undone := added_undone live absent unlisted tidy
  cases success with
  | false =>
    simp only [evsOnCb, Bool.false_eq_true, if_false, clientSubReject,
      subRemove_removed stored (.inl rfl), evsErrCb_server]
    refine ⟨undone, evsErrCb_told ?_ _⟩
    split <;> decide
  | true =>
    rw [evsOnCb, failed rfl]
    simp only [if_true, clientSubAccept_failed stored, evsErrCb_server]
    exact ⟨undone, evsErrCb_told (by decide) _⟩

/-- What is left to `evs_on_cb` when the pool has granted the subscription. -/
theorem Refusal.completed {ev : Event Handlers} (refusal : Refusal env σ c ev)
    (notClosing : (σ.clients c).closing = false) (quota : env.fairUse = true) :
    ∃ success, (success = true → env.listOk = false) ∧
      ∀ (τ : Server) (info : EvsOnInfo), τ.evsOnCreated env info (onAnswer env ev) =
        ⟨(τ.evsOnCb env success info).1, (τ.evsOnCb env success info).2, none, some success, false⟩ := by
  cases refusal with
  | closing closing => exact absurd (notClosing.symm.trans closing) (by decide)
  | calm refused => exact absurd (quota.symm.trans refused) (by decide)
  | rejected answer =>
    refine ⟨false, Bool.noConfusion, fun τ info => ?_⟩
    rcases answer with err | now
    · rw [err]
      rfl
    · rw [now]
      rfl
  | full answer list =>
    refine ⟨true, fun _ => list, fun τ info => ?_⟩
    rcases answer with ok | now
    · rw [ok]
      rfl
    · rw [now]
      rfl

/-- In every reachable state, when `evs_on` fails for a client without an entry and the count
has room for its reference: clients, tables, subscriptions and the pool are as before the call,
and a client that gave a callback is sent one failure. -/
theorem failed_leaves_no_trace (m : Resources.State) (reached : Resources.system.Reachable m)
    (env : Env) (c : ClientId) (ev : Event Handlers) (evExtra : Bytes) (clientCb : EvsCb)
    (json : Option Bytes)
    (absent : ∀ s, m.server.table ev.evPath evExtra = some s → m.server.entry c s = none)
    (room : Room m.server ev evExtra) (refusal : Refusal env m.server c ev) :
    NoTrace m.server (m.server.evsOn env c ev evExtra clientCb json).server ∧
      ToldFailure env c clientCb (m.server.evsOn env c ev evExtra clientCb json).sends := by
  have inv := (Resources.kept_reachable m reached).inv
  generalize m.server = σ at *
  obtain ⟨s, τ, got⟩ := subGet_isSome σ ev evExtra
  have clients := (subGet_clients got).1
  have returned : ∀ υ, Undone τ υ → NoTrace σ (υ.subUnref s) :=
    fun _ undone => subGet_returned room got undone
  have noEntry : τ.entry c s = none := by
    rw [(inv.subGet_spec got).2.1 c s]
    rcases subGet_cases got with ⟨stored, -, -⟩ | ⟨-, rfl, -⟩
    · exact absent s stored
    · -- nobody can have an entry for it yet
      exact inv.fresh c σ.nextSub (Nat.le_refl _)
  simp only [Server.evsOn, got]
  cases closing : (τ.clients c).closing with
  | true =>
    simp only [clientSubAdd_closing closing, Outcome.reply, evsErrCb_server]
    exact ⟨returned τ ⟨rfl, rfl, rfl, rfl, rfl⟩, evsErrCb_told (by decide) clientCb⟩
  | false =>
    cases quota : env.fairUse with
    | false =>
      simp only [clientSubAdd_refused closing noEntry, Outcome.reply, evsErrCb_server]
      exact ⟨returned τ ⟨rfl, rfl, rfl, rfl, rfl⟩, evsErrCb_told (by decide) clientCb⟩
    | true =>
      obtain ⟨success, failed, completed⟩ := refusal.completed (by rw [← clients, closing]) quota
      simp only [clientSubAdd_created closing noEntry, completed]
      have invτ := inv.subGet got
      have live : (τ.heap s).refs ≠ 0 := by
        rcases subGet_cases got with ⟨stored, -, rfl⟩ | ⟨-, rfl, rfl⟩
        · rw [refs_subRef]
          exact (room s stored).2
        · simp [subCreate, setSub]
      have unlisted : ∀ item ∈ τ.subscribers s, item.1 ≠ τ.nextIdx := by
        rintro ⟨i, d⟩ member
        obtain ⟨csub, stored, idx, -⟩ := (invτ.lists.listed d s i).mp member
        exact Nat.ne_of_lt (idx ▸ invτ.lists.fresh d s csub stored)
      obtain ⟨undone, told⟩ := evsOnCb_failed ⟨evExtra, json, s, c, clientCb⟩ live
        noEntry unlisted (invτ.tidy c) failed
      exact ⟨returned _ undone, told⟩

/-- Without that room a subscription in use is freed: its reference for the client is the
first one again, and the last one when the list refuses. -/
theorem table_evsOn_full {ev : Event Handlers} {evExtra : Bytes}
    (stored : σ.table ev.evPath evExtra = some s)
    (key : (σ.heap s).ev.evPath = ev.evPath ∧ (σ.heap s).evExtra = evExtra)
    (live : (σ.heap s).refs ≠ 0) (wraps : (σ.heap s).refs + 1 = 0)
    (opened : (σ.clients c).closing = false) (absent : σ.entry c s = none)
    (fairUse : env.fairUse = true) (listOk : env.listOk = false) (plain : onAnswer env ev = .ok)
    (clientCb : EvsCb) (json : Option Bytes) :
    (σ.evsOn env c ev evExtra clientCb json).server.table ev.evPath evExtra = none := by
  have found : ((σ.subRef s).added c s).entry c s = some ⟨σ.nextIdx, true, false⟩ := by
    rw [added, entry_hashInsert, if_pos ⟨rfl, rfl⟩]
    rfl
  have created : (σ.subRef s).clientSubAdd c s true = ((σ.subRef s).added c s, .created) :=
    clientSubAdd_created opened absent
  -- what `_sub_cleanup` gives back the reference in
  let υ := ((((σ.subRef s).added c s).listRemove s σ.nextIdx).clientOff c s).subFree
  have before : (υ.heap s).refs = 1 ∧ (υ.heap s).ev = (σ.heap s).ev ∧
      (υ.heap s).evExtra = (σ.heap s).evExtra := by
    have heap : υ.heap = (((σ.subRef s).added c s).listRemove s σ.nextIdx).heap := heap_clientOff _
    rw [heap]
    simp [listRemove, added, subRef, hashInsert, setSub, setClient, wraps]
  have gone : (((υ.subUnref s).hashRemove c s).dropEmpty c).table ev.evPath evExtra = none := by
    change (υ.subUnref s).table _ _ = none
    rw [table_subUnref, if_pos]
    refine ⟨by rw [before.1]; rfl, by rw [before.2.1, before.2.2, key.1, key.2]; exact ⟨rfl, rfl⟩, ?_⟩
    exact (congrFun (congrFun (table_clientOff _) _) _).trans stored
  have cleaned : ((σ.subRef s).added c s).subCleanup c s ⟨σ.nextIdx, true, false⟩ true =
      ((υ.subUnref s).hashRemove c s).dropEmpty c := rfl
  simp only [Server.evsOn, σ.subGet_live ev stored live, fairUse, created, plain, evsOnCreated,
    evsOnCb, if_true, listOk, clientSubAccept_failed found, evsErrCb_server, cleaned]
  rw [table_subUnref, gone]
  exact ite_self none

end Fails

namespace Resources

/-- The list of subscribers is full. -/
def fullEnv : Env := { lateEnv with onFn := .ok, listOk := false }

/-- Another client waits for its approval meanwhile, so the subscription is kept. -/
theorem failed_leaves_no_trace_full :
    ∃ m, system.Reachable m ∧ (m.server.heap 0).refs = 2 ∧
      NoTrace m.server (m.server.evsOn fullEnv 4 lateEvent (str "/x") 8 none).server ∧
      ToldFailure fullEnv 4 8 (m.server.evsOn fullEnv 4 lateEvent (str "/x") 8 none).sends := by
  let asked : List Label := [.on lateEnv 3 lateEvent (str "/x") 7 none]
  have some_ : (system.run ⟨Server.new, [], [], [], []⟩ asked).isSome := by decide
  obtain ⟨m, ran⟩ := Option.isSome_iff_exists.mp some_
  have reached : system.Reachable m :=
    ⟨_, asked, ⟨Server.new_blank, rfl, rfl, rfl, rfl, rfl, rfl⟩, ran⟩
  have finished : ∀ m ∈ system.run ⟨Server.new, [], [], [], []⟩ asked,
      (m.server.heap 0).refs = 2 ∧ m.server.table (str "/a") (str "/x") = some 0 ∧
        m.server.entry 4 0 = none := by decide
  obtain ⟨refs, stored, noEntry⟩ := finished m ran
  have room : Room m.server lateEvent (str "/x") := by
    intro s here
    cases stored.symm.trans here
    rw [refs]
    decide
  have absent : ∀ s, m.server.table lateEvent.evPath (str "/x") = some s →
      m.server.entry 4 s = none := by
    intro s here
    cases stored.symm.trans here
    exact noEntry
  exact ⟨m, reached, refs, failed_leaves_no_trace m reached fullEnv 4 lateEvent (str "/x") 8 none
    absent room (.full (.inl rfl) rfl)⟩

/-- With 2³² - 1 references, of an active client and of broadcasts, a client that is
refused takes the subscription from all of them. -/
theorem failed_leaves_no_trace_wrapped :
    ∃ m, system.Reachable m ∧ Refusal fullEnv m.server 4 freeEvent ∧
      m.server.entry 3 0 ≠ none ∧ m.server.entry 4 0 = none ∧
      m.server.table (str "/a") [] = some 0 ∧
      (m.server.evsOn fullEnv 4 freeEvent [] 8 none).server.table (str "/a") [] = none := by
  obtain ⟨m, ran, crowded⟩ := run_crowded (2 ^ 32 - 2) (by decide)
  have reached : system.Reachable m :=
    ⟨_, _, ⟨Server.new_blank, rfl, rfl, rfl, rfl, rfl, rfl⟩, ran⟩
  obtain ⟨opened, asked⟩ := crowded.newcomers 4 List.mem_cons_self
  have absent : m.server.entry 4 0 = none := by
    simp [Server.entry, Client.subGet, asked]
  have key := crowded.source
  rw [Server.source, Prod.mk.injEq] at key
  refine ⟨m, reached, .full (.inl rfl) rfl, crowded.entry, absent, crowded.stored, ?_⟩
  refine table_evsOn_full crowded.stored ?_ ?_ ?_ opened absent rfl rfl rfl 8 none
  · exact ⟨congrArg Event.evPath key.1, key.2⟩
  · rw [crowded.refs]
    decide
  · rw [crowded.refs]
    decide

end Resources

end QuickIO
