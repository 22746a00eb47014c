import Mathlib.Logic.Relation
import QuickIO.BroadcastFrames

/-!
# What a read does

However the bytes of a read are cut into messages, the read comes down to a few kinds of
acts: a protocol is found, hands are shaken, an event is handled, and bookkeeping that
neither handles nor writes anything. What each act preserves, a read preserves.
-/
namespace QuickIO

/-- The events that were handed to `protocol_raw_handle`. -/
def Peer.events (p : Peer) : List Bytes :=
  p.log.filterMap fun
    | .event event => some event
    | _ => none

/-- `FLASH_POLICY_RESPONSE` -/
def flashPolicyResponse : Bytes :=
  str "<cross-domain-policy><allow-access-from domain=\"*\" to-ports=\"*\" /></cross-domain-policy>"

/-- What a handshake that succeeds is answered with: `HANDSHAKE` of the raw protocol,
`QIO_HANDSHAKE` of RFC 6455. -/
def Prot.handshakeReply : Prot → Bytes
  | .raw => handshakeText
  | .rfc6455 => [0x81, 0x09] ++ handshakeText
  | _ => []

/-- What is handed to `qev_write` when something happens. -/
def Entry.bytes : Entry → Bytes
  | .handshake .flash _ => flashPolicyResponse
  | .handshake prot .ok => prot.handshakeReply
  | .frame bytes | .broadcast bytes | .heartbeat bytes | .bye bytes => bytes
  | _ => []

/-- What the protocol wrote when the client was closed. -/
def Peer.byes (p : Peer) : List Bytes :=
  p.log.filterMap fun
    | .bye bytes => some bytes
    | _ => none

/-- All that was written to the client while it did not speak HTTP. -/
def Peer.wire (p : Peer) : Bytes := p.log.flatMap Entry.bytes

/-- The same protocol, the same handshake, and neither handled nor written anything. A
client that is closing stays so. -/
structure Peer.Aside (p q : Peer) : Prop where
  prot : q.prot = p.prot
  handshaked : q.handshaked = p.handshaked
  closed : q.closed = p.closed
  closing : p.conn.closing ≠ none → q.conn.closing ≠ none
  written : q.written = p.written
  events : q.events = p.events
  byes : q.byes = p.byes
  /-- only Flash is answered without a handshake -/
  wire : p.prot ≠ some .flash → q.wire = p.wire

namespace Peer

variable {p q r : Peer}

theorem Aside.refl (p : Peer) : p.Aside p := ⟨rfl, rfl, rfl, id, rfl, rfl, rfl, fun _ => rfl⟩

theorem Aside.trans (first : p.Aside q) (second : q.Aside r) : p.Aside r where
  prot := second.prot.trans first.prot
  handshaked := second.handshaked.trans first.handshaked
  closed := second.closed.trans first.closed
  closing gone := second.closing (first.closing gone)
  written := second.written.trans first.written
  events := second.events.trans first.events
  byes := second.byes.trans first.byes
  wire plain := (second.wire (first.prot ▸ plain)).trans (first.wire plain)

/-- Buffers and times do not count. -/
theorem Aside.same (prot : q.prot = p.prot) (handshaked : q.handshaked = p.handshaked)
    (closed : q.closed = p.closed) (closing : q.conn.closing = p.conn.closing)
    (log : q.log = p.log) : p.Aside q where
  prot := prot
  handshaked := handshaked
  closed := closed
  closing gone := by rwa [closing]
  written := by rw [Peer.written, log, Peer.written]
  events := by rw [Peer.events, log, Peer.events]
  byes := by rw [Peer.byes, log, Peer.byes]
  wire _ := by rw [Peer.wire, log, Peer.wire]

theorem written_record (e : Entry) :
    (p.record e).written = p.written ++ match e with
      | .frame bytes | .broadcast bytes | .heartbeat bytes => [bytes]
      | _ => [] := by
  simp only [written, record, List.filterMap_append]
  cases e <;> rfl

theorem events_record (e : Entry) :
    (p.record e).events = p.events ++ match e with
      | .event event => [event]
      | _ => [] := by
  simp only [events, record, List.filterMap_append]
  cases e <;> rfl

theorem byes_record (e : Entry) :
    (p.record e).byes = p.byes ++ match e with
      | .bye bytes => [bytes]
      | _ => [] := by
  simp only [byes, record, List.filterMap_append]
  cases e <;> rfl

theorem wire_record (e : Entry) : (p.record e).wire = p.wire ++ e.bytes := by
  simp only [wire, record, List.flatMap_append, List.flatMap_cons, List.flatMap_nil, List.append_nil]

theorem Aside.record_closed (p : Peer) (reason : CloseReason) : p.Aside (p.record (.closed reason)) :=
  ⟨rfl, rfl, rfl, id, by simp [written_record], by simp [events_record], by simp [byes_record],
    fun _ => (p.wire_record _).trans (List.append_nil _)⟩

theorem Aside.setConn (p : Peer) (conn : Conn)
    (closing : p.conn.closing ≠ none → conn.closing ≠ none) : p.Aside (p.setConn conn) := by
  have moved : p.Aside { p with conn } := by
    refine ⟨rfl, rfl, rfl, closing, ?_, ?_, ?_, fun _ => ?_⟩
    · rw [Peer.written, Peer.written]
    · rw [Peer.events, Peer.events]
    · rw [Peer.byes, Peer.byes]
    · rw [Peer.wire, Peer.wire]
  simp only [Peer.setConn]
  split
  next reason _ _ => exact moved.trans (.record_closed _ reason)
  next => exact moved

theorem Aside.qevClose (p : Peer) (reason : CloseReason) : p.Aside (p.qevClose reason) := by
  apply Aside.setConn
  intro gone open_
  exact gone (Option.or_eq_none_iff.mp open_).1

/-- A send leaves the buffer and the closing alone. -/
theorem conn_protocolsSend (now : Int) (m : Message) : (p.protocolsSend now m).conn = p.conn := by
  simp only [protocolsSend]
  split
  next => split <;> rfl
  next => rfl

theorem conn_sends (now : Int) (messages : List Message) :
    ((messages.map PeerAct.send).foldl (act now) p).conn = p.conn := by
  induction messages generalizing p with
  | nil => rfl
  | cons m messages ih => exact (ih (p := p.protocolsSend now m)).trans (conn_protocolsSend now m)

theorem closed_sends (now : Int) (messages : List Message) :
    ((messages.map PeerAct.send).foldl (act now) p).closed = p.closed := by
  induction messages generalizing p with
  | nil => rfl
  | cons m messages ih =>
    refine (ih (p := p.protocolsSend now m)).trans ?_
    simp only [protocolsSend]
    split
    next => split <;> rfl
    next => rfl

theorem Aside.protHandshake (p : Peer) (open_ : p.conn.closing = none) (prot : Prot) :
    p.Aside (p.protHandshake prot).1 := by
  have emptied : ∀ conn, p.Aside { p with conn } := fun conn =>
    ⟨rfl, rfl, rfl, fun gone => absurd open_ gone, rfl, rfl, rfl, fun _ => rfl⟩
  cases prot with
  | http => exact .refl p
  | flash => exact (emptied _).trans (.qevClose _ .done)
  | raw => exact emptied _
  | rfc6455 =>
    simp only [Peer.protHandshake]
    split
    next => exact .refl p
    next conn _ _ => exact .setConn p conn fun gone => absurd open_ gone
    next =>
      split
      next => exact emptied _
      next => exact (emptied _).trans (.qevClose _ .invalidHandshake)

end Peer

/-- The sockets of the server: events come in raw frames or in those of a WebSocket. -/
def Prot.Framed (prot : Option Prot) : Prop := prot = some .raw ∨ prot = some .rfc6455

namespace Served

variable {α : Type}

/-- An event that was handed over has been handled. -/
def handle (app : App α) (now : Int) (s : Served α) (event : Bytes) : Served α :=
  let reaction := app.rawHandle s.state event
  { state := reaction.state
    peer := reaction.acts.foldl (Peer.act now) (s.peer.record (.event event)) }

/-- One act of a read. -/
inductive Acts (app : App α) (now : Int) : Served α → Served α → Prop
  | aside (s : Served α) (q : Peer) (aside : s.peer.Aside q) : Acts app now s { s with peer := q }
  | found (s : Served α) (prot : Prot) (first : s.peer.prot = none)
      (unready : s.peer.handshaked = false) :
      Acts app now s { s with peer := s.peer.setProt prot }
  | http (s : Served α) (is : s.peer.prot = some .http) (unready : s.peer.handshaked = false) :
      Acts app now s { s with peer := s.peer.setHandshaked now }
  | shaken (s : Served α) (prot : Prot) (is : s.peer.prot = some prot)
      (unready : s.peer.handshaked = false) :
      Acts app now s { s with peer := (s.peer.record (.handshake prot .ok)).setHandshaked now }
  | event (s : Served α) (event : Bytes) (framed : Prot.Framed s.peer.prot)
      (ready : s.peer.handshaked = true) (open_ : s.peer.conn.closing = none) :
      Acts app now s (s.handle app now event)

/-- Acts one after the other. -/
abbrev Does (app : App α) (now : Int) : Served α → Served α → Prop :=
  Relation.ReflTransGen (Acts app now)

/-- HTTP is not routed here, and handlers only send. -/
structure Plain (app : App α) : Prop where
  http : ∀ state p used, app.httpRoute state p used = .routed state used .again none
  sends : ∀ state ev, ∃ messages : List Message,
    (app.evsRoute state ev).2.1 = messages.map PeerAct.send

section Reads

variable {app : App α} {now : Int} {s t : Served α}

theorem Does.aside (done : Does app now s t) {q : Peer} (aside : t.peer.Aside q) :
    Does app now s { t with peer := q } :=
  done.tail (.aside t q aside)

/-- A client that took its event is still open. -/
theorem handle_open (plain : Plain app) {event : Bytes} (open_ : s.peer.conn.closing = none)
    (taken : (app.rawHandle s.state event).status = .ok) :
    (s.handle app now event).peer.conn.closing = none := by
  simp only [handle, App.rawHandle] at taken ⊢
  split at taken
  next => cases taken
  next ev _ =>
    obtain ⟨messages, sends⟩ := plain.sends s.state ev
    rw [sends, Peer.conn_sends]
    exact open_

/-- Handlers keep the protocol and the handshake. -/
theorem handle_rest (s : Served α) (event : Bytes) :
    (s.handle app now event).peer.prot = s.peer.prot ∧
      (s.handle app now event).peer.handshaked = s.peer.handshaked := by
  obtain ⟨prot, handshaked, -⟩ := Peer.acts_rest now (app.rawHandle s.state event).acts
    (s.peer.record (.event event))
  exact ⟨prot, handshaked⟩

/-- A client whose messages are routed. -/
structure Talks (s : Served α) : Prop where
  framed : Prot.Framed s.peer.prot
  ready : s.peer.handshaked = true
  open_ : s.peer.conn.closing = none

/-- A route function handed an event over and leaves the client as the handler does, or
it asks for more or gives up. -/
def Hands (app : App α) (s : Served α) (r : Routed) : Prop :=
  match r.handed with
  | none => r.status ≠ .ok
  | some event => r.conn.closing = none ∧ r.status = (app.rawHandle s.state event).status

theorem handled_does (plain : Plain app) (routes : s.Talks) {r : Routed}
    (hands : Hands app s r) :
    Does app now s (s.handled app now r) ∧
      (r.status = .ok → (s.handled app now r).Talks) := by
  have moved : Does app now s { s with peer := s.peer.setConn r.conn } :=
    .single (.aside s _ (.setConn s.peer r.conn fun gone => absurd routes.open_ gone))
  have framed : Prot.Framed (s.peer.setConn r.conn).prot := by
    rw [Peer.setConn_prot]
    exact routes.framed
  have ready := (s.peer.setConn_handshaked r.conn).trans routes.ready
  simp only [Hands] at hands
  simp only [Served.handled]
  cases handed : r.handed with
  | none =>
    rw [handed] at hands
    exact ⟨moved, fun ok => absurd ok hands⟩
  | some event =>
    rw [handed] at hands
    obtain ⟨closing, status⟩ := hands
    let t : Served α := { s with peer := s.peer.setConn r.conn }
    have open_ : t.peer.conn.closing = none := by
      rw [Peer.setConn_conn]
      exact closing
    obtain ⟨prot, handshaked⟩ := @handle_rest α app now t event
    refine ⟨moved.tail (.event t event framed ready open_), fun ok => ?_⟩
    exact ⟨prot ▸ framed, handshaked.trans ready, handle_open plain open_ (status ▸ ok)⟩

/-- `protocol_raw_route` itself closes nobody. -/
theorem rawRoute_hands (routes : s.Talks) (used : Nat) :
    Hands app s (protocolRawRoute (app.handleAt s.state used) s.peer.conn used) := by
  simp only [protocolRawRoute]
  split
  next => simp [Hands]
  next =>
    split
    next => simp [Hands]
    next =>
      split
      next => simp [Hands]
      next => exact ⟨routes.open_, rfl⟩

/-- A frame that is decoded leaves the client open. -/
theorem decode_closing {conn after : Conn} {offset len frameLen : Nat}
    (decoded : decode conn offset = .ok after len frameLen) : after.closing = conn.closing := by
  have payload : ∀ headerLen len' mask,
      decodePayload conn offset headerLen len' mask = .ok after len frameLen →
        after.closing = conn.closing := by
    intro headerLen len' mask is
    simp only [decodePayload] at is
    split at is
    next => cases is
    next =>
      split at is
      next => cases is
      next =>
        split at is
        next =>
          cases is
          rfl
        next => cases is
  simp only [decode] at decoded
  split at decoded
  next => cases decoded
  next => cases decoded
  next headerLen len' mask head => exact payload headerLen len' mask decoded

theorem wsRoute_hands (routes : s.Talks) (used : Nat) :
    Hands app s (rfc6455Route (app.handleAt s.state used) s.peer.conn used) := by
  simp only [rfc6455Route]
  split
  next => simp [Hands]
  next => simp [Hands]
  next conn len frameLen decoded => exact ⟨(decode_closing decoded).trans routes.open_, rfl⟩

theorem protRoute_does (plain : Plain app) (ready : s.peer.handshaked = true)
    (open_ : s.peer.conn.closing = none) (used : Nat) :
    Does app now s (s.protRoute app now used).1 ∧
      ((s.protRoute app now used).2.2 = .ok → (s.protRoute app now used).1.Talks) := by
  simp only [Served.protRoute]
  split
  next raw =>
    have routes : s.Talks := ⟨Or.inl raw, ready, open_⟩
    exact handled_does plain routes (rawRoute_hands routes used)
  next rfc6455 =>
    have routes : s.Talks := ⟨Or.inr rfc6455, ready, open_⟩
    exact handled_does plain routes (wsRoute_hands routes used)
  next =>
    rw [plain.http]
    exact ⟨.refl, by simp⟩
  next => exact ⟨.refl, by simp⟩

theorem routeLoop_does (plain : Plain app) (fuel : Nat) (ready : s.peer.handshaked = true)
    (open_ : s.peer.conn.closing = none) (used : Nat) :
    Does app now s (routeLoop app now fuel s used) := by
  induction fuel generalizing s used with
  | zero => exact .refl
  | succ fuel ih =>
    obtain ⟨done, still⟩ := protRoute_does plain ready open_ used
    simp only [routeLoop]
    generalize s.protRoute app now used = result at done still ⊢
    obtain ⟨τ, used, status⟩ := result
    cases status with
    | ok =>
      have routes := still rfl
      have received : Does app now s { τ with peer := { τ.peer with lastRecv := now } } :=
        done.aside (.same rfl rfl rfl rfl rfl)
      dsimp only
      split
      next =>
        exact received.trans (ih (s := { τ with peer := { τ.peer with lastRecv := now } })
          routes.ready routes.open_ used)
      next => exact received.aside (.same rfl rfl rfl rfl rfl)
    | again => exact done.aside (.same rfl rfl rfl rfl rfl)
    | fatal =>
      exact (done.aside (.qevClose τ.peer .unknownError)).aside (.same rfl rfl rfl rfl rfl)

theorem handshake_does (prot : Prot) (is : s.peer.prot = some prot)
    (unready : s.peer.handshaked = false) (open_ : s.peer.conn.closing = none) :
    Does app now s { s with peer := s.peer.handshake now prot } := by
  have tried := Peer.Aside.protHandshake s.peer open_ prot
  have known := tried.prot.trans is
  -- a handshake that does not succeed is not answered
  have failed : (s.peer.protHandshake prot).2 ≠ .ok →
      (s.peer.protHandshake prot).1.Aside ((s.peer.protHandshake prot).1.record
        (.handshake prot (s.peer.protHandshake prot).2)) := by
    intro failed
    refine ⟨rfl, rfl, rfl, id, by simp [Peer.written_record], by simp [Peer.events_record],
      by simp [Peer.byes_record], fun plain => ?_⟩
    rw [Peer.wire_record]
    cases prot with
    | flash => exact absurd known plain
    | http => exact absurd rfl failed
    | raw => exact absurd rfl failed
    | rfc6455 =>
      cases status : (s.peer.protHandshake .rfc6455).2 with
      | ok => exact absurd status failed
      | again => exact List.append_nil _
      | fatal => exact List.append_nil _
  have done : Does app now s { s with peer := (s.peer.protHandshake prot).1 } :=
    .single (.aside s _ tried)
  simp only [Peer.handshake]
  cases status : (s.peer.protHandshake prot).2 with
  | ok =>
    exact done.tail (.shaken { s with peer := (s.peer.protHandshake prot).1 } prot known
      (tried.handshaked.trans unready))
  | again =>
    rw [status] at failed
    exact done.aside (failed (fun same => ProtocolStatus.noConfusion same))
  | fatal =>
    rw [status] at failed
    exact (done.aside (failed (fun same => ProtocolStatus.noConfusion same))).aside
      (.qevClose _ .notSupported)

theorem shakeOrRoute_does (plain : Plain app) (prot : Prot) (is : s.peer.prot = some prot)
    (open_ : s.peer.conn.closing = none) : Does app now s (s.shakeOrRoute app now prot) := by
  simp only [Served.shakeOrRoute]
  split
  next ready => exact routeLoop_does plain _ ready open_ 0
  next unready =>
    have unready : s.peer.handshaked = false := Bool.not_eq_true _ ▸ unready
    split
    next =>
      -- HTTP has no handshake
      have begun : Does app now s { s with peer := s.peer.setHandshaked now } :=
        .single (.http s is unready)
      exact begun.trans (routeLoop_does (s := { s with peer := s.peer.setHandshaked now }) plain _
        rfl open_ 0)
    next => exact handshake_does prot is unready open_

/-- A protocol is found, more has to come, or the client is turned away. -/
theorem findHandler_does (first : s.peer.prot = none) (unready : s.peer.handshaked = false)
    (open_ : s.peer.conn.closing = none) :
    Does app now s { s with peer := s.peer.findHandler } ∧
      (s.peer.findHandler.prot ≠ none → s.peer.findHandler.conn.closing = none) := by
  simp only [Peer.findHandler]
  split
  next prot _ => exact ⟨.single (.found s prot first unready), fun _ => open_⟩
  next =>
    split
    next => exact ⟨.refl, fun _ => open_⟩
    next =>
      refine ⟨.single (.aside s _ (.qevClose s.peer .notSupported)), fun found => ?_⟩
      rw [(Peer.Aside.qevClose s.peer .notSupported).prot, first] at found
      exact absurd rfl found

/-- A read is nothing but such acts. -/
theorem read_does (plain : Plain app) (fresh : s.peer.prot = none → s.peer.handshaked = false)
    (bytes : Bytes) : Does app now s (s.read app now bytes) := by
  simp only [Served.read]
  split
  next => exact .refl
  next closing =>
    have open_ : s.peer.conn.closing = none := by simpa using closing
    let arrived : Served α := { s with peer :=
      { s.peer with
        conn := { s.peer.conn with rbuff := s.peer.conn.rbuff ++ bytes }
        lastRecv := now } }
    have begun : Does app now s arrived := .single (.aside s _ (.same rfl rfl rfl rfl rfl))
    apply begun.trans
    simp only [Served.protocolsRoute]
    split
    next prot is => exact shakeOrRoute_does (s := arrived) plain prot is open_
    next none_ =>
      obtain ⟨done, still⟩ := @findHandler_does α app now arrived none_
        (fresh none_) open_
      split
      next => exact done
      next prot is =>
        have routed := @shakeOrRoute_does α app now
          { arrived with peer := arrived.peer.findHandler } plain prot is
        exact done.trans (routed (still fun none_ => by simp [arrived, none_] at is))

end Reads

end Served

end QuickIO
