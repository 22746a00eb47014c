import Mathlib.Data.List.Perm.Basic
import QuickIO.Resources

/-!
# Callback data

The functions that take `cb_data` for their own, and where the data is after
each of them: with a stored callback, with a function that is running, or
freed. The senders of evs.c that find no active subscription return without
having taken it.
-/
namespace QuickIO

open scoped List

section Slots

variable {Fn Data FreeFn : Type}

/-- The loop of `client_free_all`: the client and the data freed. -/
def clientFreeAll (client : Callbacks Fn Data FreeFn) :
    Callbacks Fn Data FreeFn × List (FreeFn × Data) :=
  ({ client with cbs := fun _ => none }, (List.finRange 4).flatMap (cbFree client))

/-- The data of the stored callbacks. -/
def Callbacks.owned (client : Callbacks Fn Data FreeFn) : List (FreeFn × Data) :=
  (List.finRange 4).flatMap (cbFree client)

/-- Over distinct indices, a function that is empty at one of them leaves out
what the other one has there. -/
theorem flatMap_perm_of_empty {ι α : Type} [DecidableEq ι] {indices : List ι}
    (once : indices.Nodup) {i : ι} (member : i ∈ indices) {f g : ι → List α} (empty : g i = [])
    (same : ∀ j, j ≠ i → g j = f j) :
    indices.flatMap f ~ f i ++ indices.flatMap g := by
  have first := List.perm_cons_erase member
  have rest : (indices.erase i).flatMap g = (indices.erase i).flatMap f := by
    refine List.flatMap_congr fun j other => same j ?_
    rintro rfl
    exact once.not_mem_erase other
  calc indices.flatMap f
    _ ~ (i :: indices.erase i).flatMap f := first.flatMap_right f
    _ = f i ++ (i :: indices.erase i).flatMap g := by
      rw [List.flatMap_cons, List.flatMap_cons, empty, List.nil_append, rest]
    _ ~ f i ++ indices.flatMap g := (first.symm.flatMap_right g).append_left (f i)

theorem owned_congr {client client' : Callbacks Fn Data FreeFn} (same : client'.cbs = client.cbs) :
    client'.owned = client.owned := by
  refine List.flatMap_congr fun i _ => ?_
  rw [cbFree, cbFree, same]

/-- Emptying a slot takes out the data of its callback. -/
theorem owned_cbRemove (client : Callbacks Fn Data FreeFn) (i : Fin 4) :
    client.owned ~ cbFree client i ++ (cbRemove client i).owned := by
  refine flatMap_perm_of_empty (List.nodup_finRange 4) (List.mem_finRange i) ?_ ?_
  · simp [cbFree, cbRemove]
  · intro j other
    simp [cbFree, cbRemove, other]

/-- `client_cb_new` stores the data or frees it, and frees what it evicts. -/
theorem owned_clientCbNew (client : Callbacks Fn Data FreeFn) (random : Fin 4) (now : Int)
    (cbFn : Option Fn) (cbData : Option Data) (freeFn : Option FreeFn) :
    (clientCbNew client random now cbFn cbData freeFn).2.1 ++
      (clientCbNew client random now cbFn cbData freeFn).1.owned ~
      cbDataFree cbData freeFn ++ client.owned := by
  cases cbFn with
  | none => exact .refl _
  | some cbFn =>
    simp only [clientCbNew]
    generalize newSlot client random = i
    generalize stored : (⟨Function.update client.cbs i (some _), _⟩ :
      Callbacks Fn Data FreeFn) = client'
    -- apart from slot `i` both clients store the same
    have filled : cbFree client' i = cbDataFree cbData freeFn := by simp [← stored, cbFree]
    have others : (cbRemove client' i).owned = (cbRemove client i).owned :=
      owned_congr (by simp [← stored, cbRemove])
    have before := owned_cbRemove client i
    have after := owned_cbRemove client' i
    rw [filled, others] at after
    calc cbFree client i ++ client'.owned
      _ ~ cbFree client i ++ (cbDataFree cbData freeFn ++ (cbRemove client i).owned) :=
        after.append_left _
      _ ~ cbDataFree cbData freeFn ++ (cbFree client i ++ (cbRemove client i).owned) := by
        rw [← List.append_assoc, ← List.append_assoc]
        exact List.perm_append_comm.append_right _
      _ ~ cbDataFree cbData freeFn ++ client.owned := before.symm.append_left _

/-- `client_cb_prune` frees what it takes out. -/
theorem owned_clientCbPrune (client : Callbacks Fn Data FreeFn) (before : Int) :
    (clientCbPrune client before).2 ++ (clientCbPrune client before).1.owned ~ client.owned := by
  refine (List.flatMap_append_perm _ _ _).trans ?_
  refine .of_eq (List.flatMap_congr fun i _ => ?_)
  simp only [cbFree, clientCbPrune]
  cases client.cbs i with
  | none => rfl
  | some cb => by_cases old : cb.created < before <;> simp [old, Option.filter]

/-- `client_free_all` frees all of it. -/
theorem owned_clientFreeAll (client : Callbacks Fn Data FreeFn) :
    (clientFreeAll client).1.owned = [] ∧ (clientFreeAll client).2 = client.owned := by
  refine ⟨?_, rfl⟩
  simp [Callbacks.owned, clientFreeAll, cbFree]

end Slots

namespace Server

variable (env : Env) (σ : Server)

/-- `client_cb_fire` up to the call of the function: the callback whose function
is called, or the answer that there is none. -/
def cbFireCall (c : ClientId) (serverCb clientCb : EvsCb) (json : Bytes) :
    Server × Option (ClientCb Ptr Ptr Ptr) × List Send :=
  match clientCbFire (σ.clients c).callbacks serverCb clientCb json with
  | (callbacks, .ran _ cb _ _, _) => (σ.setClient c { σ.clients c with callbacks }, some cb, [])
  | (callbacks, .error clientCb code errMsg, _) =>
    let (τ, sends) :=
      (σ.setClient c { σ.clients c with callbacks }).evsErrCb env c clientCb code (some errMsg) none
    (τ, none, sends)

/-- What `client_cb_fire` does when the function has returned. -/
def cbFireReturn (cb : ClientCb Ptr Ptr Ptr) : Server :=
  { σ with dataFreed := σ.dataFreed ++ cbDataFree cb.cbData cb.freeFn }

/-- `client_free_all` on a client of the server. -/
def freeAll (c : ClientId) : Server :=
  let (callbacks, freed) := clientFreeAll (σ.clients c).callbacks
  { σ.setClient c { σ.clients c with callbacks } with dataFreed := σ.dataFreed ++ freed }

section Senders

variable (json : Option Bytes) (cbFn cbData freeFn : Option Ptr)

/-- `evs_send_sub_full` -/
def evsSendSubFull (c : ClientId) (sub : SubId) : Server × List Send :=
  if σ.clientSubActive c sub then
    let (τ, serverCb) := σ.cbNew env c cbFn cbData freeFn
    (τ, [⟨c, (σ.heap sub).ev.evPath, (σ.heap sub).evExtra, serverCb, jsonOrNull json⟩])
  else (σ, [])

/-- `evs_send_full`; `none` for `ev_extra` is `NULL`. -/
def evsSendFull (c : ClientId) (ev : Event Handlers) (evExtra : Option Bytes) :
    Server × List Send :=
  -- No subscription to it was possible.
  if !ev.handleChildren && evExtra.getD [] != [] then (σ, [])
  else
    match σ.subGet ev (evExtra.getD []) false with
    | none => (σ, [])
    | some (sub, σ) =>
      let (σ, sends) := σ.evsSendSubFull env json cbFn cbData freeFn c sub
      -- The reference of `sub_get`.
      (σ.subUnref sub, sends)

/-- `evs_send_info_full` -/
def evsSendInfoFull (info : EvsOnInfo) : Server × List Send :=
  σ.evsSendSubFull env json cbFn cbData freeFn info.client info.sub

/-- `evs_send_bruteforce` -/
def evsSendBruteforce (c : ClientId) (evPrefix evPath evExtra : Option Bytes) :
    Server × List Send :=
  let (τ, serverCb) := σ.cbNew env c cbFn cbData freeFn
  (τ, [⟨c, evsMakePath evPrefix evPath evExtra, [], serverCb, jsonOrNull json⟩])

/-- `evs_cb_with_cb` -/
def evsCbWithCb (c : ClientId) (clientCb : EvsCb) : Server × List Send :=
  σ.evsCbFull env c clientCb codeOk none json cbFn cbData freeFn

end Senders

end Server

/-- A call of one of the functions that take `cb_data` for their own. -/
inductive Transfer where
  | sendFull (c : ClientId) (ev : Event Handlers) (evExtra json : Option Bytes)
  | sendInfoFull (info : EvsOnInfo) (json : Option Bytes)
  | sendSubFull (c : ClientId) (sub : SubId) (json : Option Bytes)
  | sendBruteforce (c : ClientId) (evPrefix evPath evExtra json : Option Bytes)
  | cbWithCb (c : ClientId) (clientCb : EvsCb) (json : Option Bytes)
  | cbFull (c : ClientId) (clientCb : EvsCb) (code : EvsCode) (errMsg json : Option Bytes)
  | cbNew (c : ClientId)

namespace Transfer

/-- The client it is for. -/
def client : Transfer → ClientId
  | sendFull c _ _ _ => c
  | sendInfoFull info _ => info.client
  | sendSubFull c _ _ => c
  | sendBruteforce c _ _ _ _ => c
  | cbWithCb c _ _ => c
  | cbFull c _ _ _ _ => c
  | cbNew c => c

def run (env : Env) (σ : Server) (cbFn cbData freeFn : Option Ptr) : Transfer → Server
  | sendFull c ev evExtra json => (σ.evsSendFull env json cbFn cbData freeFn c ev evExtra).1
  | sendInfoFull info json => (σ.evsSendInfoFull env json cbFn cbData freeFn info).1
  | sendSubFull c sub json => (σ.evsSendSubFull env json cbFn cbData freeFn c sub).1
  | sendBruteforce c evPrefix evPath evExtra json =>
    (σ.evsSendBruteforce env json cbFn cbData freeFn c evPrefix evPath evExtra).1
  | cbWithCb c clientCb json => (σ.evsCbWithCb env json cbFn cbData freeFn c clientCb).1
  | cbFull c clientCb code errMsg json =>
    (σ.evsCbFull env c clientCb code errMsg json cbFn cbData freeFn).1
  | cbNew c => (σ.cbNew env c cbFn cbData freeFn).1

/-- A sender finds a subscription that is active for the client. `evs_send_full`
looks it up, and only where the event can have one. -/
def Subscribed (σ : Server) : Transfer → Prop
  | sendFull c ev evExtra _ => (ev.handleChildren = true ∨ evExtra.getD [] = []) ∧
      ∃ sub ∈ σ.table ev.evPath (evExtra.getD []),
        (σ.heap sub).refs ≠ 0 ∧ σ.clientSubActive c sub = true
  | sendInfoFull info _ => σ.clientSubActive info.client info.sub = true
  | sendSubFull c sub _ => σ.clientSubActive c sub = true
  | _ => True

instance decidableSubscribed (σ : Server) : (t : Transfer) → Decidable (t.Subscribed σ)
  | sendFull c ev evExtra _ =>
    inferInstanceAs (Decidable ((ev.handleChildren = true ∨ evExtra.getD [] = []) ∧
      ∃ sub ∈ σ.table ev.evPath (evExtra.getD []),
        (σ.heap sub).refs ≠ 0 ∧ σ.clientSubActive c sub = true))
  | sendInfoFull info _ => inferInstanceAs (Decidable (σ.clientSubActive info.client info.sub = true))
  | sendSubFull c sub _ => inferInstanceAs (Decidable (σ.clientSubActive c sub = true))
  | sendBruteforce _ _ _ _ _ => isTrue trivial
  | cbWithCb _ _ _ => isTrue trivial
  | cbFull _ _ _ _ _ => isTrue trivial
  | cbNew _ => isTrue trivial

end Transfer

/-! ### What leaves callback data alone -/

namespace Server

section Frames

variable (σ : Server)

/-- The callbacks of every client, and the data freed so far. -/
def cbs : (ClientId → Callbacks Ptr Ptr Ptr) × List (Ptr × Ptr) :=
  (fun c => (σ.clients c).callbacks, σ.dataFreed)

theorem cbs_setClient (c : ClientId) (client : Client)
    (same : client.callbacks = (σ.clients c).callbacks) : (σ.setClient c client).cbs = σ.cbs := by
  refine Prod.ext (funext fun c' => ?_) rfl
  by_cases at_ : c' = c
  · subst at_
    simp [cbs, setClient, same]
  · simp [cbs, setClient, at_]

theorem cbs_framed : Framed fun σ τ => τ.cbs = σ.cbs where
  trans first second := second.trans first
  books _ _ _ _ _ _ _ := rfl
  setSub _ _ _ _ _ := rfl
  setSubs σ c _ := σ.cbs_setClient c _ rfl
  subCreate _ _ _ := rfl

end Frames

end Server

/-- No subscription function touches callback data. -/
theorem Resources.step_cbs {m m' : Resources.State} {l : Resources.Label}
    (stepped : Resources.step m l = some m') : m'.server.cbs = m.server.cbs :=
  framed_step Server.cbs_framed Server.cbs_setClient stepped

/-! ### Where the data goes -/

/-- From `σ` to `τ` the data `given` came in with a client and `taken` went out.
All other data of the client is still stored, or has been freed. -/
structure Moves (σ τ : Server) (c : ClientId) (given taken : List (Ptr × Ptr)) : Prop where
  others : ∀ c', c' ≠ c → (τ.clients c').callbacks = (σ.clients c').callbacks
  own : ∃ freed, τ.dataFreed = σ.dataFreed ++ freed ∧
    freed ++ (τ.clients c).callbacks.owned ++ taken ~ given ++ (σ.clients c).callbacks.owned

namespace Moves

variable {σ τ : Server} {c : ClientId} {given taken : List (Ptr × Ptr)}

theorem congr {σ' τ' : Server} (moves : Moves σ τ c given taken) (left : σ'.cbs = σ.cbs)
    (right : τ'.cbs = τ.cbs) : Moves σ' τ' c given taken := by
  have callbacks : ∀ {ρ ρ' : Server}, ρ'.cbs = ρ.cbs → ∀ c,
      (ρ'.clients c).callbacks = (ρ.clients c).callbacks :=
    fun same c => congrFun (congrArg Prod.fst same) c
  have freedLeft : σ'.dataFreed = σ.dataFreed := congrArg Prod.snd left
  have freedRight : τ'.dataFreed = τ.dataFreed := congrArg Prod.snd right
  refine ⟨fun c' other => ?_, ?_⟩
  · rw [callbacks left, callbacks right]
    exact moves.others c' other
  · rw [callbacks left, callbacks right, freedLeft, freedRight]
    exact moves.own

/-- Nothing happens to callback data. -/
theorem refl (σ : Server) (c : ClientId) : Moves σ σ c [] [] := by
  refine ⟨fun _ _ => rfl, [], (List.append_nil _).symm, ?_⟩
  rw [List.nil_append, List.append_nil]

/-- The callbacks of one client change, and `freed` is freed. -/
theorem setCallbacks (σ : Server) (c : ClientId) {callbacks : Callbacks Ptr Ptr Ptr}
    {freed : List (Ptr × Ptr)}
    (balance : freed ++ callbacks.owned ++ taken ~ given ++ (σ.clients c).callbacks.owned) :
    Moves σ { σ.setClient c { σ.clients c with callbacks } with dataFreed := σ.dataFreed ++ freed }
      c given taken := by
  refine ⟨fun c' other => ?_, freed, rfl, ?_⟩
  · simp [Server.setClient, other]
  · simpa [Server.setClient] using balance

section Functions

variable (env : Env) (σ : Server) (c : ClientId)

theorem cbNew (cbFn cbData freeFn : Option Ptr) :
    Moves σ (σ.cbNew env c cbFn cbData freeFn).1 c (cbDataFree cbData freeFn) [] := by
  refine setCallbacks σ c ?_
  rw [List.append_nil]
  exact owned_clientCbNew _ env.random env.now cbFn cbData freeFn

theorem cbPrune (before : Int) : Moves σ (σ.cbPrune c before) c [] [] := by
  refine setCallbacks σ c ?_
  rw [List.append_nil]
  exact owned_clientCbPrune _ before

theorem freeAll : Moves σ (σ.freeAll c) c [] [] := by
  obtain ⟨none_, all⟩ := owned_clientFreeAll (σ.clients c).callbacks
  have balance : (clientFreeAll (σ.clients c).callbacks).2 ++
      (clientFreeAll (σ.clients c).callbacks).1.owned ++ [] ~ [] ++ (σ.clients c).callbacks.owned := by
    rw [none_, all, List.append_nil, List.append_nil, List.nil_append]
  exact setCallbacks σ c balance

/-- The data of the callback whose function is called goes out of its slot. -/
theorem cbFireCall (serverCb clientCb : EvsCb) (json : Bytes) :
    Moves σ (σ.cbFireCall env c serverCb clientCb json).1 c []
      ((σ.cbFireCall env c serverCb clientCb json).2.1.toList.flatMap
        fun cb => cbDataFree cb.cbData cb.freeFn) := by
  simp only [Server.cbFireCall]
  rcases clientCbFire_cases (σ.clients c).callbacks serverCb clientCb json with
    ⟨i, cb, stored, ran⟩ | missed
  · rw [ran]
    have slot : cbFree (σ.clients c).callbacks i = cbDataFree cb.cbData cb.freeFn := by
      simp [cbFree, stored]
    have balance := owned_cbRemove (σ.clients c).callbacks i
    rw [slot] at balance
    refine ⟨fun c' other => ?_, [], (List.append_nil _).symm, ?_⟩
    · simp [Server.setClient, other]
    · simpa [Server.setClient] using List.perm_append_comm.trans balance.symm
  · rw [missed]
    refine (refl σ c).congr rfl ?_
    dsimp only [noSuchCb, Server.Outcome.reply]
    rw [evsErrCb_server]
    exact σ.cbs_setClient c _ rfl

/-- It comes back when the function has returned. -/
theorem cbFireReturn (cb : ClientCb Ptr Ptr Ptr) :
    Moves σ (σ.cbFireReturn cb) c (cbDataFree cb.cbData cb.freeFn) [] := by
  refine ⟨fun _ _ => rfl, cbDataFree cb.cbData cb.freeFn, rfl, ?_⟩
  rw [List.append_nil]
  rfl

end Functions

section Transfers

variable (env : Env) (σ : Server) (c : ClientId) (json : Option Bytes)
  (cbFn cbData freeFn : Option Ptr)

theorem evsCbFull (clientCb : EvsCb) (code : EvsCode) (errMsg : Option Bytes) :
    Moves σ (σ.evsCbFull env c clientCb code errMsg json cbFn cbData freeFn).1 c
      (cbDataFree cbData freeFn) [] := by
  simp only [Server.evsCbFull]
  split
  next => exact cbNew env σ c none cbData freeFn
  next =>
    split
    next => exact cbNew env σ c cbFn cbData freeFn
    next => exact cbNew env σ c none cbData freeFn

theorem evsSendSubFull {sub : SubId} (active : σ.clientSubActive c sub = true) :
    Moves σ (σ.evsSendSubFull env json cbFn cbData freeFn c sub).1 c
      (cbDataFree cbData freeFn) [] := by
  simp only [Server.evsSendSubFull, if_pos active]
  exact cbNew env σ c cbFn cbData freeFn

theorem evsSendSubFull_inactive {sub : SubId} (inactive : ¬σ.clientSubActive c sub = true) :
    (σ.evsSendSubFull env json cbFn cbData freeFn c sub).1 = σ := by
  simp only [Server.evsSendSubFull, if_neg inactive]

theorem evsSendFull {ev : Event Handlers} {evExtra : Option Bytes}
    (subscribed : (Transfer.sendFull c ev evExtra json).Subscribed σ) :
    Moves σ (σ.evsSendFull env json cbFn cbData freeFn c ev evExtra).1 c
      (cbDataFree cbData freeFn) [] := by
  obtain ⟨possible, sub, stored, live, active⟩ := subscribed
  have accepts : ¬(!ev.handleChildren && evExtra.getD [] != []) = true := by
    rcases possible with children | plain
    · simp [children]
    · simp [plain]
  have got := σ.subGet_live ev stored live false
  have sent := evsSendSubFull env (σ.subRef sub) c json cbFn cbData freeFn active
  simp only [Server.evsSendFull, if_neg accepts, got]
  exact sent.congr rfl (Server.cbs_framed.subUnref _ sub)

theorem evsSendFull_unsubscribed {ev : Event Handlers} {evExtra : Option Bytes}
    (unsubscribed : ¬(Transfer.sendFull c ev evExtra json).Subscribed σ) :
    (σ.evsSendFull env json cbFn cbData freeFn c ev evExtra).1.cbs = σ.cbs := by
  simp only [Server.evsSendFull]
  split
  next => rfl
  next accepts =>
    have possible : ev.handleChildren = true ∨ evExtra.getD [] = [] := by
      cases children : ev.handleChildren <;> simp_all
    cases look : σ.table ev.evPath (evExtra.getD []) with
    | none => simp [Server.subGet, Server.getIfExists, look]
    | some sub =>
      by_cases live : (σ.heap sub).refs = 0
      · simp [Server.subGet, Server.getIfExists, look, live]
      · have inactive : ¬(σ.subRef sub).clientSubActive c sub = true := fun active =>
          unsubscribed ⟨possible, sub, look, live, active⟩
        rw [σ.subGet_live ev look live false]
        refine (Server.cbs_framed.subUnref _ sub).trans ?_
        rw [evsSendSubFull_inactive env _ c json cbFn cbData freeFn inactive]
        rfl

/-- A call that finds a subscription, or needs none, takes its data. -/
theorem run {t : Transfer} (subscribed : t.Subscribed σ) :
    Moves σ (t.run env σ cbFn cbData freeFn) t.client (cbDataFree cbData freeFn) [] := by
  cases t with
  | sendFull c ev evExtra json => exact evsSendFull env σ c json cbFn cbData freeFn subscribed
  | sendInfoFull info json =>
    exact evsSendSubFull env σ info.client json cbFn cbData freeFn subscribed
  | sendSubFull c sub json => exact evsSendSubFull env σ c json cbFn cbData freeFn subscribed
  | sendBruteforce c evPrefix evPath evExtra json => exact cbNew env σ c cbFn cbData freeFn
  | cbWithCb c clientCb json =>
    exact evsCbFull env σ c json cbFn cbData freeFn clientCb codeOk none
  | cbFull c clientCb code errMsg json =>
    exact evsCbFull env σ c json cbFn cbData freeFn clientCb code errMsg
  | cbNew c => exact cbNew env σ c cbFn cbData freeFn

end Transfers

end Moves

/-- Any other call returns without having touched it. -/
theorem Transfer.run_unsubscribed (env : Env) (σ : Server) (cbFn cbData freeFn : Option Ptr)
    {t : Transfer} (unsubscribed : ¬t.Subscribed σ) :
    (t.run env σ cbFn cbData freeFn).cbs = σ.cbs := by
  cases t with
  | sendFull c ev evExtra json =>
    exact Moves.evsSendFull_unsubscribed env σ c json cbFn cbData freeFn unsubscribed
  | sendInfoFull info json =>
    exact congrArg Server.cbs
      (Moves.evsSendSubFull_inactive env σ info.client json cbFn cbData freeFn unsubscribed)
  | sendSubFull c sub json =>
    exact congrArg Server.cbs
      (Moves.evsSendSubFull_inactive env σ c json cbFn cbData freeFn unsubscribed)
  | sendBruteforce => exact absurd trivial unsubscribed
  | cbWithCb => exact absurd trivial unsubscribed
  | cbFull => exact absurd trivial unsubscribed
  | cbNew => exact absurd trivial unsubscribed

/-- `client_cb_fire` is the call and the return, when the function it calls does
nothing in between. -/
theorem Server.cbFire_server (env : Env) (σ : Server) (c : ClientId) (serverCb clientCb : EvsCb)
    (json : Bytes) :
    (σ.cbFire env c serverCb clientCb json).1.server =
      match σ.cbFireCall env c serverCb clientCb json with
      | (τ, some cb, _) => τ.cbFireReturn cb
      | (τ, none, _) => τ := by
  simp only [Server.cbFire, Server.cbFireCall]
  rcases clientCbFire_cases (σ.clients c).callbacks serverCb clientCb json with
    ⟨i, cb, -, ran⟩ | missed
  · rw [ran]
    rfl
  · rw [missed]
    simp [noSuchCb, Outcome.reply, setClient]

end QuickIO
