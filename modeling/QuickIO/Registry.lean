import QuickIO.TrieIndices

/-!
# The registry of a running server

Events are routed, subscribed to and broadcast while others are registered. None of that
changes the trie but `evs_add_handler`, so in every state it stands for what has been
registered so far, and a call comes to an end exactly if it `Fits`.
-/
namespace QuickIO

open Lib

/-! ### What leaves the trie as it is -/

section Events

open Server

variable {σ : Server}

theorem events_framed : Framed fun σ τ => τ.events = σ.events where
  trans first second := second.trans first
  books _ _ _ _ _ _ _ := rfl
  setSub _ _ _ _ _ := rfl
  setSubs _ _ _ := rfl
  subCreate _ _ _ := rfl

variable (env : Env)

theorem events_evsCbFull (σ : Server) (c : ClientId) (clientCb : EvsCb) (code : EvsCode)
    (errMsg json : Option Bytes) (cbFn cbData freeFn : Option Ptr) :
    (σ.evsCbFull env c clientCb code errMsg json cbFn cbData freeFn).1.events = σ.events := by
  simp only [evsCbFull]
  split
  next => rfl
  next =>
    split
    next => rfl
    next => rfl

theorem events_qioCallback (σ : Server) (c : ClientId) (evExtra : Bytes)
    (clientCb : EvsCb) (json : Bytes) :
    (σ.qioCallback env c evExtra clientCb json).1.server.events = σ.events := by
  simp only [qioCallback]
  split
  next => exact events_evsCbFull env σ c clientCb _ _ _ _ _ _
  next =>
    simp only [cbFire]
    split
    next => rfl
    next => exact events_evsCbFull env _ c _ _ _ _ _ _ _

theorem events_qioOn {c : ClientId} {clientCb : EvsCb} {json : Bytes} {result : Outcome × EvsStatus}
    (called : σ.qioOn env c clientCb json = .ok result) :
    result.1.server.events = σ.events := by
  simp only [qioOn] at called
  split at called
  next =>
    cases called
    exact events_evsCbFull env σ c clientCb _ _ _ _ _ _
  next =>
    split at called
    next => cases called
    next =>
      cases called
      exact events_evsCbFull env σ c clientCb _ _ _ _ _ _
    next ev evExtra _ =>
      cases called
      exact events_framed.evsOn env σ c ev evExtra clientCb _

theorem events_qioOff {c : ClientId} {clientCb : EvsCb} {json : Bytes}
    {result : Outcome × EvsStatus} (called : σ.qioOff env c clientCb json = .ok result) :
    result.1.server.events = σ.events := by
  simp only [qioOff] at called
  split at called
  next =>
    split at called
    next => cases called
    next =>
      cases called
      exact events_evsCbFull env σ c clientCb _ _ _ _ _ _
    next ev evExtra _ =>
      cases called
      exact events_framed.evsOff σ c ev evExtra
  next =>
    cases called
    exact events_evsCbFull env σ c clientCb _ _ _ _ _ _

theorem events_handle {c : ClientId} {evExtra : Bytes} {clientCb : EvsCb} {json : Bytes}
    {handlerFn : HandlerFn} {result : Outcome × EvsStatus}
    (called : σ.handle env c evExtra clientCb json handlerFn = .ok result) :
    result.1.server.events = σ.events := by
  cases handlerFn with
  | callback =>
    cases called
    exact events_qioCallback env σ c evExtra clientCb json
  | hostname =>
    cases called
    exact events_evsCbFull env σ c clientCb _ _ _ _ _ _
  | on => exact events_qioOn env called
  | off => exact events_qioOff env called
  | ping =>
    cases called
    rfl
  | app fn =>
    cases called
    rfl

theorem events_answer (outcome : Outcome) (c : ClientId) (clientCb : EvsCb) (code : EvsCode)
    (status : EvsStatus) :
    (answer env outcome c clientCb code status).server.events = outcome.server.events := by
  cases status with
  | ok =>
    simp only [answer, evsCb]
    exact events_evsCbFull env outcome.server c clientCb _ _ _ _ _ _
  | err =>
    simp only [answer, evsErrCb]
    exact events_evsCbFull env outcome.server c clientCb _ _ _ _ _ _
  | handled => rfl

theorem events_evsRoute {c : ClientId} {evPath : Bytes} {clientCb : EvsCb} {json : Bytes}
    {outcome : Outcome} (routed : σ.evsRoute env c evPath clientCb json = .ok outcome) :
    outcome.server.events = σ.events := by
  simp only [evsRoute] at routed
  split at routed
  next => cases routed
  next =>
    cases routed
    exact events_answer env _ c clientCb _ _
  next ev evExtra _ =>
    split at routed
    next =>
      cases routed
      exact events_answer env _ c clientCb _ _
    next handlerFn _ =>
      split at routed
      next => cases routed
      next result status called =>
        cases routed
        exact (events_answer env _ c clientCb _ _).trans (events_handle env called)

end Events

/-! ### Calls in any order -/

namespace PathCall

/-- What a call adds to the registry. -/
def registers : PathCall → List (Registration Handlers)
  | .addHandler evPrefix evPath handlers handleChildren =>
    [⟨evPrefix, evPath, none, handlers, handleChildren⟩]
  | _ => []

/-- Only `evs_add_handler` changes the trie. -/
theorem run_represents {env : Env} {σ τ : Server} {rs : List (Registration Handlers)}
    (holds : Represents σ.events rs) (call : PathCall) (ran : call.run env σ = .ok τ) :
    Represents τ.events (rs ++ call.registers) := by
  have still : call.registers = [] → τ.events = σ.events →
      Represents τ.events (rs ++ call.registers) := by
    intro nothing same
    rw [nothing, List.append_nil, same]
    exact holds
  cases call with
  | addHandler evPrefix evPath handlers handleChildren =>
    obtain ⟨u, inserted, extended⟩ := represents_insert σ.events rs
      ⟨evPrefix, evPath, none, handlers, handleChildren⟩ holds
    rw [run, evsAddHandler_eq, inserted] at ran
    cases ran
    exact extended
  | route c evPath clientCb json =>
    obtain ⟨outcome, routed, -⟩ := evsRoute_settled env σ c clientCb evPath json
    rw [run, routed] at ran
    cases ran
    exact still rfl (events_evsRoute env routed)
  | on c clientCb json =>
    obtain ⟨result, called, -⟩ := qioOn_handled env σ c clientCb json
    rw [run, called] at ran
    cases ran
    exact still rfl (events_qioOn env called)
  | off c clientCb json =>
    obtain ⟨result, called, -⟩ := qioOff_handled env σ c clientCb json
    rw [run, called] at ran
    cases ran
    exact still rfl (events_qioOff env called)
  | broadcastPath evPath json =>
    refine still rfl ?_
    simp only [run, Server.evsBroadcastPath] at ran
    split at ran
    next => cases ran
    next =>
      cases ran
      rfl
    next ev evExtra _ =>
      cases ran
      exact events_framed.evsBroadcast σ ev evExtra json

end PathCall

namespace Registry

/-- The server, and what has been registered. -/
structure State where
  server : Server
  registered : List (Registration Handlers)

abbrev Label := Env × PathCall

/-- One call; behind a fault nothing is defined. -/
def step (m : State) (l : Label) : Option State :=
  match l.2.run l.1 m.server with
  | .error _ => none
  | .ok server => some ⟨server, m.registered ++ l.2.registers⟩

def system : TransitionSystem State Label where
  init m := m.server.events = PrefixTree.empty ∧ m.registered = []
  step := step

/-- The trie stands for what has been registered. -/
def Kept (m : State) : Prop := Represents m.server.events m.registered

theorem kept_step (m : State) (l : Label) (m' : State) (kept : Kept m)
    (stepped : step m l = some m') : Kept m' := by
  simp only [step] at stepped
  split at stepped
  next => cases stepped
  next server ran =>
    cases stepped
    exact l.2.run_represents kept ran

theorem kept_reachable (m : State) (reached : system.Reachable m) : Kept m := by
  refine system.reachable_invariant Kept ?_ kept_step m reached
  rintro m ⟨events, registered⟩
  rw [Kept, events, registered]
  exact represents_empty

/-- A call comes to an end exactly if it fits what has been registered. -/
theorem step_isSome_iff (m : State) (kept : Kept m) (env : Env) (call : PathCall) :
    (step m (env, call)).isSome = true ↔ call.Fits m.registered := by
  rw [← call.indices_inRange_iff kept env, (call.run_computes env m.server).inRange_iff, step]
  cases call.run env m.server with
  | error fault => simp
  | ok server => simp

/-- Each call of a run fits what the calls before it have registered. -/
def FitAll (rs : List (Registration Handlers)) : List Label → Prop
  | [] => True
  | (_, call) :: ls => call.Fits rs ∧ FitAll (rs ++ call.registers) ls

/-- From every reachable state a run of calls comes to an end exactly if each of them fits. -/
theorem run_isSome_iff (m : State) (kept : Kept m) (ls : List Label) :
    (system.run m ls).isSome = true ↔ FitAll m.registered ls := by
  induction ls generalizing m with
  | nil => exact iff_of_true rfl trivial
  | cons l ls ih =>
    obtain ⟨env, call⟩ := l
    have fits := step_isSome_iff m kept env call
    rw [FitAll, ← fits, TransitionSystem.run, show system.step = step from rfl]
    cases stepped : step m (env, call) with
    | none => simp
    | some m' =>
      have next : m'.registered = m.registered ++ call.registers := by
        simp only [step] at stepped
        split at stepped
        next => cases stepped
        next =>
          cases stepped
          rfl
      rw [← next]
      simpa using ih m' (kept_step m (env, call) m' kept stepped)

end Registry

end QuickIO
