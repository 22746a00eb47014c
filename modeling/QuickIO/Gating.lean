import QuickIO.HttpSteps
import QuickIO.Protocols

/-!
# Nothing before the handshake

Events, frames and heartbeats of a client come after a handshake of the protocol
it has. A socket that HTTP has upgraded is linked to no session and polls for
none, so no response can reach it any more.
-/
namespace QuickIO

open Lib

/-- An entry that has to wait for the handshake. -/
def Entry.Gated : Entry → Prop
  | .event _ | .frame _ | .broadcast _ | .heartbeat _ => True
  | .protocol _ | .handshake _ _ | .closed _ | .bye _ => False

/-- The protocol that was set last, and what happened since. -/
def Current (log : List Entry) (prot : Prot) (since : List Entry) : Prop :=
  (∃ before, log = before ++ .protocol prot :: since) ∧ ∀ other, .protocol other ∉ since

/-- The handshake of the current protocol has returned `PROT_OK`; HTTP has none. -/
def Shaken (log : List Entry) : Prop :=
  ∃ prot since, Current log prot since ∧ (prot = .http ∨ .handshake prot .ok ∈ since)

/-- Whatever has to wait for the handshake came after it. -/
inductive GatedLog : List Entry → Prop
  | nil : GatedLog []
  | snoc {log : List Entry} {e : Entry} (gated : GatedLog log) (shaken : e.Gated → Shaken log) :
      GatedLog (log ++ [e])

theorem Current.snoc {log since : List Entry} {prot : Prot} (current : Current log prot since)
    (e : Entry) (same : ∀ other, e ≠ .protocol other) :
    Current (log ++ [e]) prot (since ++ [e]) := by
  obtain ⟨⟨before, rfl⟩, last⟩ := current
  refine ⟨⟨before, by simp⟩, ?_⟩
  intro other member
  rcases List.mem_append.mp member with earlier | here
  · exact last other earlier
  · exact same other (List.mem_singleton.mp here).symm

theorem Shaken.snoc {log : List Entry} (shaken : Shaken log) (e : Entry)
    (same : ∀ other, e ≠ .protocol other) : Shaken (log ++ [e]) := by
  obtain ⟨prot, since, current, agreed⟩ := shaken
  exact ⟨prot, since ++ [e], current.snoc e same, agreed.imp id (List.mem_append_left [e])⟩

/-- At every place of a gated log. -/
theorem GatedLog.before {log : List Entry} (gated : GatedLog log) {before after : List Entry}
    {e : Entry} (place : log = before ++ e :: after) (waits : e.Gated) : Shaken before := by
  induction gated generalizing after with
  | nil => simp at place
  | snoc gated shaken ih =>
    rcases List.eq_nil_or_concat after with rfl | ⟨rest, last, rfl⟩
    · obtain ⟨rfl, same⟩ := List.append_inj' place rfl
      cases same
      exact shaken waits
    · have shape : before ++ e :: rest ++ [last] = before ++ e :: (rest ++ [last]) := by simp
      rw [List.concat_eq_append, ← shape] at place
      exact ih (List.append_inj' place rfl).1

/-- What holds of a client at any time. -/
structure Gating (p : Peer) : Prop where
  gated : GatedLog p.log
  current : ∀ prot, p.prot = some prot → ∃ since, Current p.log prot since
  fresh : p.prot = none → p.handshaked = false
  shaken : p.handshaked = true → Shaken p.log

namespace Gating

variable {p : Peer}

/-- Buffers and times do not matter. -/
theorem congr (gating : Gating p) {q : Peer} (prot : q.prot = p.prot)
    (handshaked : q.handshaked = p.handshaked) (log : q.log = p.log) : Gating q := by
  obtain ⟨gated, current, fresh, shaken⟩ := gating
  rw [← log] at gated current shaken
  rw [← prot] at current fresh
  rw [← handshaked] at fresh shaken
  exact ⟨gated, current, fresh, shaken⟩

/-- Something happens to a client, which waits for the handshake if it must. -/
theorem record (gating : Gating p) (e : Entry) (same : ∀ other, e ≠ .protocol other)
    (waits : e.Gated → p.handshaked = true) : Gating (p.record e) where
  gated := gating.gated.snoc fun gated => gating.shaken (waits gated)
  current prot is := by
    obtain ⟨since, current⟩ := gating.current prot is
    exact ⟨since ++ [e], current.snoc e same⟩
  fresh := gating.fresh
  shaken ready := (gating.shaken ready).snoc e same

theorem setConn (gating : Gating p) (conn : Conn) : Gating (p.setConn conn) := by
  have given : Gating { p with conn } := gating.congr rfl rfl rfl
  simp only [Peer.setConn]
  split
  next reason _ _ => exact given.record (.closed reason) (fun _ => by simp) (by rintro ⟨⟩)
  next => exact given

theorem qevClose (gating : Gating p) (reason : CloseReason) : Gating (p.qevClose reason) :=
  gating.setConn _

/-- A protocol is set, and the client is not handshaked. -/
theorem setProt (gating : Gating p) (prot : Prot) (unready : p.handshaked = false) :
    Gating (p.setProt prot) where
  gated := gating.gated.snoc (by rintro ⟨⟩)
  current := by
    rintro other ⟨⟩
    exact ⟨[], ⟨p.log, rfl⟩, fun _ => List.not_mem_nil⟩
  fresh := by rintro ⟨⟩
  shaken ready := by
    rw [show (p.setProt prot).handshaked = p.handshaked from rfl, unready] at ready
    cases ready

theorem protocolsSwitch (gating : Gating p) (prot : Prot) : Gating (p.protocolsSwitch prot) where
  gated := gating.gated.snoc (by rintro ⟨⟩)
  current := by
    rintro other ⟨⟩
    exact ⟨[], ⟨p.log, rfl⟩, fun _ => List.not_mem_nil⟩
  fresh := by rintro ⟨⟩
  shaken ready := by cases ready

theorem protocolsSend (gating : Gating p) (now : Int) (m : Message) :
    Gating (p.protocolsSend now m) := by
  simp only [Peer.protocolsSend]
  split
  next ready =>
    split
    next => exact gating
    next bytes _ =>
      have sent : Gating { p with lastSend := now } := gating.congr rfl rfl rfl
      exact sent.record (.frame bytes) (fun _ => by simp) fun _ => ready
  next => exact gating

theorem protocolsBcastWrite (gating : Gating p) (now : Int) (evPath json : Bytes) :
    Gating (p.protocolsBcastWrite now evPath json) := by
  simp only [Peer.protocolsBcastWrite]
  split
  next ready =>
    split
    next => exact gating
    next bytes _ =>
      have sent : Gating { p with lastSend := now } := gating.congr rfl rfl rfl
      exact sent.record (.broadcast bytes) (fun _ => by simp) fun _ => ready
  next => exact gating

theorem protocolRawDoHeartbeat (gating : Gating p) (now : Int) (heartbeat : Bytes)
    (serverCb : EvsCb) (ready : p.handshaked = true) :
    Gating (p.protocolRawDoHeartbeat now heartbeat serverCb) := by
  simp only [Peer.protocolRawDoHeartbeat]
  split
  next => exact gating.qevClose .heartattack
  next =>
    split
    next => exact gating.protocolsSend now _
    next =>
      split
      next =>
        have sent : Gating { p with lastSend := now } := gating.congr rfl rfl rfl
        exact sent.record (.heartbeat heartbeat) (fun _ => by simp) fun _ => ready
      next => exact gating

theorem act (gating : Gating p) (now : Int) (a : PeerAct) : Gating (Peer.act now p a) := by
  cases a with
  | send m => exact gating.protocolsSend now m
  | close reason => exact gating.qevClose reason

theorem acts (gating : Gating p) (now : Int) (as : List PeerAct) :
    Gating (as.foldl (Peer.act now) p) := by
  induction as generalizing p with
  | nil => exact gating
  | cons a as ih => exact ih (gating.act now a)

theorem setHandshaked (gating : Gating p) (now : Int) (prot : p.prot ≠ none)
    (shaken : Shaken p.log) : Gating (p.setHandshaked now) where
  gated := gating.gated
  current := gating.current
  fresh none := absurd none prot
  shaken _ := shaken

theorem findHandler (gating : Gating p) (unready : p.handshaked = false) :
    Gating p.findHandler := by
  simp only [Peer.findHandler]
  split
  next prot _ => exact gating.setProt prot unready
  next =>
    split
    next => exact gating
    next => exact gating.qevClose .notSupported

theorem protHandshake (gating : Gating p) (prot : Prot) : Gating (p.protHandshake prot).1 := by
  have emptied : ∀ conn : Conn, Gating { p with conn } := fun _ => gating.congr rfl rfl rfl
  cases prot with
  | http => exact gating
  | flash => exact (emptied _).qevClose .done
  | raw => exact emptied _
  | rfc6455 =>
    simp only [Peer.protHandshake]
    split
    next => exact gating
    next conn _ _ => exact gating.setConn conn
    next =>
      split
      next => exact emptied _
      next => exact (emptied _).qevClose .invalidHandshake

theorem handshake (gating : Gating p) (now : Int) (prot : Prot) (is : p.prot = some prot) :
    Gating (p.handshake now prot) := by
  have shook := gating.protHandshake prot
  have sameProt := p.protHandshake_prot prot
  simp only [Peer.handshake]
  generalize (p.protHandshake prot).2 = status
  have entered := shook.record (.handshake prot status) (fun _ => by simp) (by rintro ⟨⟩)
  have still : ((p.protHandshake prot).1.record (.handshake prot status)).prot = some prot :=
    sameProt.trans is
  cases status with
  | ok =>
    apply entered.setHandshaked now (by simp [still])
    obtain ⟨since, current⟩ := shook.current prot (sameProt.trans is)
    have longer := current.snoc (.handshake prot .ok) fun _ => by simp
    exact ⟨prot, _, longer, Or.inr (List.mem_append_right since List.mem_cons_self)⟩
  | again => exact entered
  | fatal => exact entered.qevClose .notSupported

end Gating

namespace Served

variable {α : Type} {app : App α} {s : Served α}

theorem handled_gating (app : App α) (gating : Gating s.peer) (ready : s.peer.handshaked = true) (now : Int)
    (r : Routed) : Gating (s.handled app now r).peer ∧
      (s.handled app now r).peer.handshaked = true := by
  have moved := gating.setConn r.conn
  have still := (s.peer.setConn_handshaked r.conn).trans ready
  simp only [Served.handled]
  split
  next => exact ⟨moved, still⟩
  next event _ =>
    have given := moved.record (.event event) (fun _ => by simp) fun _ => still
    obtain ⟨-, same, -⟩ := Peer.acts_rest now (app.rawHandle s.state event).acts
      ((s.peer.setConn r.conn).record (.event event))
    exact ⟨given.acts now _, same.trans still⟩

/-- A route function that wants to go on leaves the client handshaked. -/
theorem protRoute_gating (app : App α) (gating : Gating s.peer) (ready : s.peer.handshaked = true) (now : Int)
    (used : Nat) : Gating (s.protRoute app now used).1.peer ∧
      ((s.protRoute app now used).2.2 = .ok →
        (s.protRoute app now used).1.peer.handshaked = true) := by
  simp only [Served.protRoute]
  split
  next =>
    obtain ⟨after, still⟩ := handled_gating app gating ready now
      (protocolRawRoute (app.handleAt s.state used) s.peer.conn used)
    exact ⟨after, fun _ => still⟩
  next =>
    obtain ⟨after, still⟩ := handled_gating app gating ready now
      (rfc6455Route (app.handleAt s.state used) s.peer.conn used)
    exact ⟨after, fun _ => still⟩
  next =>
    split
    next => exact ⟨gating, fun _ => ready⟩
    next state used status reason _ =>
      exact ⟨gating.qevClose reason, fun _ => (s.peer.setConn_handshaked _).trans ready⟩
    next => exact ⟨gating.protocolsSwitch .rfc6455, by rintro ⟨⟩⟩
  next => exact ⟨gating, fun _ => ready⟩

theorem routeLoop_gating (now : Int) (fuel : Nat) (s : Served α) (gating : Gating s.peer)
    (ready : s.peer.handshaked = true) (used : Nat) :
    Gating (routeLoop app now fuel s used).peer := by
  induction fuel generalizing s used with
  | zero => exact gating
  | succ fuel ih =>
    obtain ⟨after, still⟩ := protRoute_gating app gating ready now used
    simp only [routeLoop]
    generalize s.protRoute app now used = result at after still ⊢
    obtain ⟨τ, used, status⟩ := result
    cases status with
    | ok =>
      have received : Gating { τ.peer with lastRecv := now } := after.congr rfl rfl rfl
      dsimp only
      split
      next => exact ih { τ with peer := { τ.peer with lastRecv := now } } received (still rfl) used
      next => exact received.congr rfl rfl rfl
    | again => exact after.congr rfl rfl rfl
    | fatal => exact (after.qevClose .unknownError).congr rfl rfl rfl

theorem shakeOrRoute_gating (now : Int) (gating : Gating s.peer) (prot : Prot)
    (is : s.peer.prot = some prot) : Gating (s.shakeOrRoute app now prot).peer := by
  simp only [Served.shakeOrRoute]
  split
  next ready => exact routeLoop_gating now _ s gating ready 0
  next =>
    split
    next =>
      -- HTTP has no handshake
      obtain ⟨since, current⟩ := gating.current .http is
      have begun := gating.setHandshaked now (by simp [is])
        ⟨.http, since, current, Or.inl rfl⟩
      exact routeLoop_gating now _ _ begun rfl 0
    next => exact gating.handshake now prot is

theorem protocolsRoute_gating (now : Int) (gating : Gating s.peer) :
    Gating (s.protocolsRoute app now).peer := by
  have received : Gating { s.peer with lastRecv := now } := gating.congr rfl rfl rfl
  simp only [Served.protocolsRoute]
  split
  next prot is => exact shakeOrRoute_gating now received prot is
  next none =>
    have found := received.findHandler (gating.fresh none)
    split
    next => exact found
    next prot is => exact shakeOrRoute_gating now found prot is

theorem step_gating {l : Label} {t : Served α} (gating : Gating s.peer)
    (stepped : s.step app l = some t) : Gating t.peer := by
  cases l with
  | read now bytes =>
    cases stepped
    simp only [Served.read]
    split
    -- `protocols_route` of a client without a protocol shakes hands first
    next => exact gating
    next => exact protocolsRoute_gating now (gating.congr rfl rfl rfl)
  | protocolsSwitch prot =>
    cases stepped
    exact gating.protocolsSwitch prot
  | send now m =>
    cases stepped
    exact gating.protocolsSend now m
  | bcastWrite now evPath json =>
    obtain ⟨-, ⟨⟩⟩ := Option.ite_none_left_eq_some.mp stepped
    exact gating.protocolsBcastWrite now evPath json
  | heartbeat now serverCb =>
    cases stepped
    simp only [Served.protocolsHeartbeat]
    split
    -- a heartbeat is only sent to a client that is handshaked
    next ready =>
      split
      next => exact gating
      next =>
        split
        next => exact gating
        next reason _ => exact gating.qevClose reason
      next =>
        split
        next => exact gating
        next bytes _ => exact gating.protocolRawDoHeartbeat now bytes serverCb ready
    next => exact gating
  | close reason =>
    cases stepped
    exact gating.qevClose reason

theorem start_gating : Gating {} where
  gated := .nil
  current := by rintro prot ⟨⟩
  fresh _ := rfl
  shaken := by rintro ⟨⟩

end Served

namespace Http

/-- A step sends no response on a socket that has been upgraded, and the socket
stays upgraded. -/
theorem step_upgraded {env : HttpEnv} {σ τ : Http} {l : Label}
    (inv : Owing nothing σ ∧ Linked σ []) (stepped : σ.step env l = some τ) {c : SockId}
    (upgraded : (σ.socks c).upgraded = true) :
    (τ.socks c).upgraded = true ∧ τ.responses c = σ.responses c := by
  have frame := (step_moves inv.1 inv.2 stepped).frame
  have other : ¬σ.Touched l c := by
    rintro (⟨-, http⟩ | ⟨s, polls⟩)
    · rw [upgraded] at http
      cases http
    · have http := (inv.2.tied.polled s c polls).2.1
      rw [upgraded] at http
      cases http
  obtain ⟨-, -, -, still, -⟩ := frame.socks c other
  refine ⟨still.trans upgraded, ?_⟩
  obtain ⟨es, sent, theirs⟩ := frame.sent
  have none : es.filter (fun e => e.sock = c) = [] := by
    rw [List.filter_eq_nil_iff]
    intro e member mine
    exact other (of_decide_eq_true mine ▸ theirs e member)
  rw [responses, sent, List.filter_append, none, List.append_nil]
  rfl

theorem run_upgraded {env : HttpEnv} {σ τ : Http} {ls : List Label}
    (inv : Owing nothing σ ∧ Linked σ []) (ran : (system env).run σ ls = some τ) {c : SockId}
    (upgraded : (σ.socks c).upgraded = true) : τ.responses c = σ.responses c := by
  induction ls generalizing σ with
  | nil =>
    cases ran
    rfl
  | cons l ls ih =>
    obtain ⟨υ, stepped, rest⟩ := ((system env).run_cons_iff σ τ l ls).mp ran
    obtain ⟨still, same⟩ := step_upgraded inv stepped upgraded
    have next : Owing nothing υ ∧ Linked υ [] :=
      ⟨inv.1.step stepped, (step_moves inv.1 inv.2 stepped).linked inv.2⟩
    exact (ih next rest still).trans same

end Http

/-- Every event of a client and every event, broadcast and heartbeat frame that
is written to it come after the handshake of its protocol at the time. And once
HTTP has upgraded a socket, no response is written to it any more. -/
theorem handshake_gates {α : Type} (app : App α) (env : HttpEnv) :
    (∀ ls (s t : Served α), s.peer = {} → (Served.system app).run s ls = some t →
      ∀ before e after, t.peer.log = before ++ e :: after → e.Gated → Shaken before) ∧
    ∀ ls ms σ τ, (Http.system env).run Http.start ls = some σ →
      (Http.system env).run σ ms = some τ →
      ∀ c, (σ.socks c).upgraded = true → τ.responses c = σ.responses c := by
  constructor
  · intro ls s t start ran before e after place waits
    have gating : Gating t.peer := (Served.system app).run_invariant (fun s => Gating s.peer)
      (fun _ _ _ gating stepped => Served.step_gating gating stepped) s t ls
      (start ▸ Served.start_gating) ran
    exact gating.gated.before place waits
  · intro ls ms σ τ ran later c upgraded
    exact Http.run_upgraded (Http.run_linked env ls σ ran) later upgraded

/-- Handlers that answer every event, and no HTTP. -/
def answering : App Unit where
  erange _ := false
  evsRoute _ ev := ((), [.send ⟨str "/qio/callback/", decimal ev.clientCb, 0, str "null"⟩], [])
  refused _ _ := ()
  httpRoute _ _ used := .routed () used .again none
  httpHeartbeat _ _ := none

/-- An event frame, a heartbeat and a switch of the protocol. -/
def shakingHands : List Served.Label := [
  .read 1 (str "/qio/ohai"), .read 2 ([0, 0, 0, 0, 0, 0, 0, 0x10] ++ str "/qio/ping:1=null"),
  .heartbeat 60000000 0, .protocolsSwitch .rfc6455, .heartbeat 120000000 0,
  .bcastWrite 120000001 (str "/a") (str "1")]

/-- The first request of a socket is answered, the second upgrades it, and its
session goes on. -/
def upgrading : List Http.Label := [
  .opened, .header 0 (Http.samplePost "0") true, .body 0 [] [],
  .header 0 { method := str "GET", url := str "/", headers := [
    (str "Sec-WebSocket-Key", str "k"), (str "Sec-WebSocket-Protocol", str "quickio"),
    (str "Sec-WebSocket-Version", str "13"), (str "Upgrade", str "websocket"),
    (str "Connection", str "Upgrade")] } true]

theorem handshake_gates_upgrading :
    (∃ t : Served Unit, (Served.system answering).run ⟨(), {}⟩ shakingHands = some t ∧
      t.peer.log.length = 6 ∧
      ∀ before e after, t.peer.log = before ++ e :: after → e.Gated → Shaken before) ∧
    ∃ σ τ, (Http.system Http.sampleEnv).run Http.start upgrading = some σ ∧
      (Http.system Http.sampleEnv).run σ
        [.act (.send 0 ⟨str "/a", [], 0, str "1"⟩), .act (.closeSurr 0 .hup), .onCloseSurr 0] =
          some τ ∧
      (σ.socks 0).upgraded = true ∧ τ.responses 0 = σ.responses 0 := by
  obtain ⟨gates, silent⟩ := handshake_gates answering Http.sampleEnv
  constructor
  · have runs : ((Served.system answering).run ⟨(), {}⟩ shakingHands).isSome := by decide
    obtain ⟨t, ran⟩ := Option.isSome_iff_exists.mp runs
    have finished : ∀ t ∈ (Served.system answering).run ⟨(), {}⟩ shakingHands,
        t.peer.log.length = 6 := by decide
    exact ⟨t, ran, finished t ran, gates shakingHands ⟨(), {}⟩ t rfl ran⟩
  · have runs : ((Http.system Http.sampleEnv).run Http.start (upgrading ++
        [.act (.send 0 ⟨str "/a", [], 0, str "1"⟩), .act (.closeSurr 0 .hup),
          .onCloseSurr 0])).isSome := by decide
    obtain ⟨τ, ran⟩ := Option.isSome_iff_exists.mp runs
    obtain ⟨σ, first, second⟩ := ((Http.system Http.sampleEnv).run_append_iff _ _ _ _).mp ran
    have upgraded : ∀ σ ∈ (Http.system Http.sampleEnv).run Http.start upgrading,
        (σ.socks 0).upgraded = true := by decide
    exact ⟨σ, τ, first, second, upgraded σ first,
      silent upgrading _ σ τ first second 0 (upgraded σ first)⟩

end QuickIO
