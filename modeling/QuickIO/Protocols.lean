import QuickIO.Http
import QuickIO.Rfc6455

/-!
# Choosing a protocol, reading and writing

The functions of `protocols.c` on one client: a protocol is found for what was
read first, it shakes hands, and from then on every read goes to its route
function. What is handed over and what is written is kept in a log. HTTP's route
function and the handlers are given by an `App`.
-/
namespace QuickIO

open Lib

/-- The entries of `_protocols`, in order of preference. -/
inductive Prot
  | http
  | flash
  | raw
  | rfc6455
deriving DecidableEq, Repr

/-- Something that happened to a client. -/
inductive Entry
  /-- `protocol.prot` was set -/
  | protocol (p : Prot)
  /-- the handshake function of a protocol returned -/
  | handshake (p : Prot) (status : ProtocolStatus)
  /-- `protocol_raw_handle` was given an event -/
  | event (event : Bytes)
  /-- an event frame, a broadcast frame or a heartbeat was written -/
  | frame (bytes : Bytes)
  | broadcast (bytes : Bytes)
  | heartbeat (bytes : Bytes)
  /-- the client was closed -/
  | closed (reason : CloseReason)
  /-- its protocol wrote why -/
  | bye (bytes : Bytes)
deriving DecidableEq, Repr

/-- A client as `protocols.c` sees it, with what happened to it, oldest first. -/
structure Peer where
  prot : Option Prot := none
  handshaked : Bool := false
  conn : Conn := { rbuff := [] }
  lastSend : Int := 0
  lastRecv : Int := 0
  /-- `qev_on_close` has been called -/
  closed : Bool := false
  log : List Entry := []
deriving DecidableEq, Repr

/-- What a handler does to the client its event came from. -/
inductive PeerAct
  | send (m : Message)
  | close (reason : CloseReason)
deriving DecidableEq, Repr

/-- What an event leads to. `left` is what the handlers leave in its bytes. -/
structure Reaction (α : Type) where
  state : α
  acts : List PeerAct
  left : Bytes
  status : ProtocolStatus

/-- What `protocol_http_route` comes to: it returns a status with the offset, or
it upgrades the client, which uses up the buffer. -/
inductive HttpRouted (α : Type)
  | routed (state : α) (used : Nat) (status : ProtocolStatus) (closes : Option CloseReason)
  | upgraded (state : α)

/-- What is behind the protocols: the handlers, with `errno` as a part of their
state, and HTTP. -/
structure App (α : Type) where
  erange : α → Bool
  evsRoute : α → RawEvent → α × List PeerAct × Bytes
  refused : α → Bytes → α
  httpRoute : α → Peer → Nat → HttpRouted α
  httpHeartbeat : α → Peer → Option CloseReason

/-- `protocol_raw_handle`: the event is cut at its first colon, and routed or
refused. -/
def App.rawHandle {α : Type} (app : App α) (state : α) (event : Bytes) : Reaction α :=
  match parseEvent (app.erange state) event with
  | none =>
    { state := app.refused state event
      acts := [.close .invalidEventFormat]
      left := if 0x3a ∈ event then event.takeWhile (· ≠ 0x3a) ++ [0] else []
      status := .fatal }
  | some ev =>
    let (state, acts, left) := app.evsRoute state ev
    { state, acts, left, status := .ok }

/-- The bytes of an event, as far as something was left in them. -/
def overlay (left event : Bytes) : Bytes := (left ++ event.drop left.length).take event.length

/-- What `protocol_raw_handle` does to the buffer, for an event that starts at
`start`: it stays inside its own bytes. -/
def App.handleAt {α : Type} (app : App α) (state : α) (start : Nat) : RawHandle :=
  fun conn event =>
    let reaction := app.rawHandle state event
    ({ conn with rbuff := writeAt conn.rbuff start (overlay reaction.left event) },
      reaction.status)

/-- `protocol_raw_route` -/
def protocolRawRoute (handle : RawHandle) (conn : Conn) (used : Nat) : Routed :=
  let rbuffLen := conn.rbuff.length - used
  if rbuffLen < 8 then { conn, used, status := .again, handed := none }
  else
    let len := loadBE (readAt conn.rbuff used 8)
    match qevSafeUadd len 8 with
    | none => { conn, used, status := .fatal, handed := none }
    | some totalLen =>
      if rbuffLen < totalLen then { conn, used, status := .again, handed := none }
      else
        -- `memmove`
        let rbuff := writeAt conn.rbuff used (readAt conn.rbuff (used + 8) len)
        let rbuff := writeAt rbuff (used + len) [0]
        let event := (rbuff.drop used).takeWhile (· ≠ 0)
        let (conn, status) := handle { conn with rbuff } event
        { conn, used := used + totalLen, status, handed := some event }

/-! ### Frames -/

/-- `protocol_raw_frame` -/
def protocolRawFrame (m : Message) : Bytes :=
  let buff := protocolRawFormat m.evPath m.evExtra m.serverCb m.json
  storeBE 8 buff.length ++ buff

/-- `protocol_rfc6455_frame` -/
def protocolRfc6455Frame (m : Message) : Bytes :=
  let raw := protocolRawFormat m.evPath m.evExtra m.serverCb m.json
  let len :=
    if raw.length ≤ 125 then [UInt8.ofNat raw.length]
    else if raw.length ≤ 0xffff then 126 :: storeBE 2 raw.length
    else 127 :: storeBE 8 raw.length
  0x81 :: (len ++ raw)

/-- `prot->frame`, and what `_send` writes of it. Flash has none. -/
def Prot.frame : Prot → Message → Option Bytes
  | .http, m => some (protocolHttpFrame m).raw
  | .flash, _ => none
  | .raw, m => some (protocolRawFrame m)
  | .rfc6455, m => some (protocolRfc6455Frame m)

/-- `PROTOCOLS_HEARTBEAT` -/
def protocolsHeartbeatText : Bytes := str "/qio/heartbeat:0=null"

/-- `HEARTBEAT` of the raw protocol and of RFC 6455. -/
def Prot.heartbeatFrame : Prot → Option Bytes
  | .raw => some ([0, 0, 0, 0, 0, 0, 0, 0x15] ++ protocolsHeartbeatText)
  | .rfc6455 => some ([0x81, 0x15] ++ protocolsHeartbeatText)
  | _ => none

/-- `protocol_rfc6455_close` -/
def protocolRfc6455Close : CloseReason → Bytes
  -- 1001
  | .exiting => [0x88, 0x02, 0x03, 0xe9]
  -- 1002
  | .invalidHandshake => [0x88, 0x13, 0x03, 0xea] ++ str "invalid handshake"
  | .invalidEventFormat => [0x88, 0x16, 0x03, 0xea] ++ str "invalid event format"
  | .noMask => [0x88, 0x17, 0x03, 0xea] ++ str "client must mask data"
  -- 1003
  | .unsupportedOpcode => [0x88, 0x02, 0x03, 0xeb]
  -- 1007
  | .notUtf8 => [0x88, 0x02, 0x03, 0xef]
  | .timeout => [0x88, 0x10, 0x03, 0xf0] ++ str "client timeout"
  -- 1009
  | .outOfMem => [0x88, 0x02, 0x03, 0xf1]
  | _ => [0x88, 0x00]

/-- What `prot->close` writes. That of HTTP is a step of HTTP; flash and raw have none. -/
def Prot.close : Prot → CloseReason → Option Bytes
  | .rfc6455, reason => some (protocolRfc6455Close reason)
  | _, _ => none

/-- The limits that `protocol_raw_do_heartbeat` reads. -/
structure HeartbeatLimits where
  heartbeat : Int
  challenge : Int
  dead : Int
deriving DecidableEq, Repr

/-- `protocols_heartbeat_get_intervals` -/
def protocolsHeartbeatGetIntervals (now : Int) : HeartbeatLimits where
  heartbeat := now - 61000000 + 10000000
  challenge := now - 900000000
  dead := now - 960000000

namespace Peer

variable (now : Int) (p : Peer)

def record (e : Entry) : Peer := { p with log := p.log ++ [e] }

/-- A function of the protocol was given the connection and left `conn`. -/
def setConn (conn : Conn) : Peer :=
  match p.conn.closing, conn.closing with
  | none, some reason => { p with conn }.record (.closed reason)
  | _, _ => { p with conn }

@[simp] theorem setConn_conn (conn : Conn) : (p.setConn conn).conn = conn := by
  simp only [setConn]
  split <;> rfl

@[simp] theorem setConn_prot (conn : Conn) : (p.setConn conn).prot = p.prot := by
  simp only [setConn]
  split <;> rfl

@[simp] theorem setConn_handshaked (conn : Conn) : (p.setConn conn).handshaked = p.handshaked := by
  simp only [setConn]
  split <;> rfl

def qevClose (reason : CloseReason) : Peer := p.setConn (p.conn.qevClose reason)

/-- `protocols_switch`, and what `_find_handler` does with the protocol it found. -/
def setProt (prot : Prot) : Peer := { p with prot := some prot }.record (.protocol prot)

/-- `protocols_switch` -/
def protocolsSwitch (prot : Prot) : Peer := { p.setProt prot with handshaked := false }

/-- `protocols_send` -/
def protocolsSend (m : Message) : Peer :=
  if p.handshaked then
    match p.prot.bind fun prot => prot.frame m with
    | none => p
    | some bytes => { p with lastSend := now }.record (.frame bytes)
  else p

/-- `protocols_bcast_write`, with the frame that `protocols_bcast` made for the
client's protocol. -/
def protocolsBcastWrite (evPath json : Bytes) : Peer :=
  if p.handshaked then
    match p.prot.bind fun prot => prot.frame ⟨evPath, [], evsNoCallback, json⟩ with
    | none => p
    | some bytes => { p with lastSend := now }.record (.broadcast bytes)
  else p

/-- `protocol_raw_do_heartbeat`. The challenge is an event like others; the last
argument is its callback. -/
def protocolRawDoHeartbeat (heartbeat : Bytes) (serverCb : EvsCb) : Peer :=
  let hb := protocolsHeartbeatGetIntervals now
  if p.lastRecv < hb.dead then p.qevClose .heartattack
  else if p.lastRecv < hb.challenge then
    p.protocolsSend now ⟨str "/qio/heartbeat", [], serverCb, str "null"⟩
  else if p.lastSend < hb.heartbeat then { p with lastSend := now }.record (.heartbeat heartbeat)
  else p

/-- `protocols_closed` -/
def protocolsClosed (reason : CloseReason) : Peer :=
  match p.prot.bind fun prot => prot.close reason with
  | none => p
  | some bytes => p.record (.bye bytes)

/-- `qev_on_close` as the protocol sees it: it is called once, with the reason the client
was closed for. -/
def onClose : Option Peer :=
  if p.closed then none
  else p.conn.closing.map fun reason => { p.protocolsClosed reason with closed := true }

/-- What a handler does to the client. -/
def act : Peer → PeerAct → Peer
  | p, .send m => p.protocolsSend now m
  | p, .close reason => p.qevClose reason

/-- A handler neither changes the protocol nor its handshake. -/
theorem acts_rest (acts : List PeerAct) (p : Peer) :
    (acts.foldl (act now) p).prot = p.prot ∧
      (acts.foldl (act now) p).handshaked = p.handshaked ∧
      (acts.foldl (act now) p).conn.rbuff = p.conn.rbuff := by
  induction acts generalizing p with
  | nil => exact ⟨rfl, rfl, rfl⟩
  | cons a acts ih =>
    have one : (act now p a).prot = p.prot ∧ (act now p a).handshaked = p.handshaked ∧
        (act now p a).conn.rbuff = p.conn.rbuff := by
      cases a with
      | send m =>
        simp only [act, protocolsSend]
        split
        next => split <;> exact ⟨rfl, rfl, rfl⟩
        next => exact ⟨rfl, rfl, rfl⟩
      | close reason => simp [act, qevClose, Conn.qevClose]
    obtain ⟨prot, handshaked, rbuff⟩ := ih (act now p a)
    exact ⟨prot.trans one.1, handshaked.trans one.2.1, rbuff.trans one.2.2⟩

/-- `_set_handshaked` -/
def setHandshaked : Peer := { p with lastSend := now, handshaked := true }

/-- The C string at the start of the buffer. -/
def rbuffStr : Bytes := p.conn.rbuff.takeWhile (· ≠ 0)

end Peer

/-- `enum protocol_handles` -/
inductive ProtocolHandles
  | yes
  | maybe
  | no
deriving DecidableEq, Repr

/-- `/qio/ohai` -/
def handshakeText : Bytes := str "/qio/ohai"

/-- `<policy-file-request/>` -/
def flashPolicyRequest : Bytes := str "<policy-file-request/>"

/-- `_has_complete_header` -/
def hasCompleteHeader (s : Bytes) : Bool :=
  (strstr (str "\r\n\r\n") s).isSome || (strstr (str "\n\n") s).isSome

/-- `prot->handles`, of the C string that was read. -/
def Prot.handles (s : Bytes) : Prot → ProtocolHandles
  | .http =>
    if !hasCompleteHeader s then .maybe
    else if [str "GET /", str "POST /", str "OPTIONS /", str "PUT /", str "HEAD /",
        str "DELETE /"].any (hasPrefix s) then .yes
    else .no
  | .flash =>
    if s = flashPolicyRequest then .yes
    else if s.getD 0 0 = 0x3c then .maybe
    else .no
  | .raw =>
    if s = handshakeText then .yes
    else if hasPrefix handshakeText s then .maybe
    else .no
  | .rfc6455 => .no

/-- `_find_handler` -/
def Peer.findHandler (p : Peer) : Peer :=
  let prots := [Prot.http, .flash, .raw, .rfc6455]
  match prots.find? fun prot => prot.handles p.rbuffStr = .yes with
  | some prot => p.setProt prot
  | none =>
    if prots.any fun prot => prot.handles p.rbuffStr = .maybe then p
    else p.qevClose .notSupported

/-- `prot->handshake`, for a protocol that has one. -/
def Peer.protHandshake (p : Peer) : Prot → Peer × ProtocolStatus
  | .http => (p, .ok)
  | .flash => ({ p with conn := { p.conn with rbuff := [] } }.qevClose .done, .fatal)
  | .raw => ({ p with conn := { p.conn with rbuff := [] } }, .ok)
  | .rfc6455 =>
    match decode p.conn 0 with
    | .again => (p, .again)
    | .fatal conn _ => (p.setConn conn, .fatal)
    | .ok conn _ _ =>
      -- `protocol_raw_check_handshake`
      let good := conn.rbuff.takeWhile (· ≠ 0) = handshakeText
      let p := { p with conn := { conn with rbuff := [] } }
      if good then (p, .ok) else (p.qevClose .invalidHandshake, .fatal)

/-- No handshake changes the protocol. -/
theorem Peer.protHandshake_prot (p : Peer) (prot : Prot) :
    (p.protHandshake prot).1.prot = p.prot := by
  cases prot with
  | http => rfl
  | flash => exact Peer.setConn_prot _ _
  | raw => rfl
  | rfc6455 =>
    simp only [Peer.protHandshake]
    split
    next => rfl
    next conn _ _ => exact p.setConn_prot conn
    next =>
      split
      next => rfl
      next => exact Peer.setConn_prot _ _

/-- `_handshake` -/
def Peer.handshake (now : Int) (p : Peer) (prot : Prot) : Peer :=
  let (p, status) := p.protHandshake prot
  let p := p.record (.handshake prot status)
  match status with
  | .ok => p.setHandshaked now
  | .again => p
  | .fatal => p.qevClose .notSupported

/-- A client, and the state of what serves it. -/
structure Served (α : Type) where
  state : α
  peer : Peer

namespace Served

variable {α : Type} (app : App α) (now : Int) (s : Served α)

/-- The event that a route function handed over has been handled. -/
def handled (r : Routed) : Served α :=
  let peer := s.peer.setConn r.conn
  match r.handed with
  | none => { s with peer }
  | some event =>
    let reaction := app.rawHandle s.state event
    { state := reaction.state
      peer := reaction.acts.foldl (Peer.act now) (peer.record (.event event)) }

/-- `prot->route` -/
def protRoute (used : Nat) : Served α × Nat × ProtocolStatus :=
  match s.peer.prot with
  | some .raw =>
    let r := protocolRawRoute (app.handleAt s.state used) s.peer.conn used
    (s.handled app now r, r.used, r.status)
  | some .rfc6455 =>
    let r := rfc6455Route (app.handleAt s.state used) s.peer.conn used
    (s.handled app now r, r.used, r.status)
  -- The HTTP protocol is a parameter here: it reads the buffer itself.
  | some .http =>
    match app.httpRoute s.state s.peer used with
    | .routed state used status none => ({ s with state }, used, status)
    | .routed state used status (some reason) =>
      ({ state, peer := s.peer.qevClose reason }, used, status)
    | .upgraded state =>
      -- `*used = rbuff->len` after an upgrade.
      ({ state, peer := s.peer.protocolsSwitch .rfc6455 }, s.peer.conn.rbuff.length, .again)
  -- No protocol, or the flash one, which has no `route`.
  | _ => (s, used, .fatal)

/-- `g_string_erase(rbuff, 0, used)` -/
def erase (used : Nat) : Served α :=
  { s with peer := { s.peer with conn := { s.peer.conn with rbuff := s.peer.conn.rbuff.drop used } } }

/-- The loop of `_route`. -/
def routeLoop (app : App α) (now : Int) : Nat → Served α → Nat → Served α
  | 0, s, _ => s
  | fuel + 1, s, used =>
    match s.protRoute app now used with
    | (s, used, .ok) =>
      -- `PROT_OK` counts as heard from, once for every message.
      let s := { s with peer := { s.peer with lastRecv := now } }
      if used < s.peer.conn.rbuff.length then routeLoop app now fuel s used else s.erase used
    | (s, used, .again) => s.erase used
    | (s, used, .fatal) => { s with peer := s.peer.qevClose .unknownError }.erase used

/-- `_route`. Every round but the last uses up some bytes. -/
def route : Served α := s.routeLoop app now (s.peer.conn.rbuff.length + 1) 0

/-- The end of `protocols_route`, with the protocol known. -/
def shakeOrRoute (prot : Prot) : Served α :=
  if s.peer.handshaked then s.route app now
  else
    match prot with
    -- HTTP has no `handshake`.
    | .http => { s with peer := s.peer.setHandshaked now }.route app now
    -- `_handshake` returns: nothing is routed before the next read.
    | prot => { s with peer := s.peer.handshake now prot }

/-- `protocols_route` -/
def protocolsRoute : Served α :=
  let s := { s with peer := { s.peer with lastRecv := now } }
  match s.peer.prot with
  | some prot => s.shakeOrRoute app now prot
  | none =>
    -- The first bytes, or too few of them before.
    let s := { s with peer := s.peer.findHandler }
    match s.peer.prot with
    | none => s
    | some prot => s.shakeOrRoute app now prot

/-- Bytes arrive. From a client that is closing nothing is read. -/
def read (bytes : Bytes) : Served α :=
  if s.peer.conn.closing.isSome then s
  else
    { s with peer := { s.peer with conn := { s.peer.conn with
      rbuff := s.peer.conn.rbuff ++ bytes } } }.protocolsRoute app now

/-- `protocols_heartbeat` -/
def protocolsHeartbeat (serverCb : EvsCb) : Served α :=
  if s.peer.handshaked then
    match s.peer.prot with
    | none => s
    | some .http =>
      match app.httpHeartbeat s.state s.peer with
      | none => s
      | some reason => { s with peer := s.peer.qevClose reason }
    | some prot =>
      -- The protocol has no `heartbeat`.
      match prot.heartbeatFrame with
      | none => s
      | some bytes => { s with peer := s.peer.protocolRawDoHeartbeat now bytes serverCb }
  else s

/-- An atomic step of a client. -/
inductive Label
  | read (now : Int) (bytes : Bytes)
  | protocolsSwitch (prot : Prot)
  | send (now : Int) (m : Message)
  | bcastWrite (now : Int) (evPath json : Bytes)
  | heartbeat (now : Int) (serverCb : EvsCb)
  | close (reason : CloseReason)
deriving DecidableEq, Repr

/-- What a step does. A broadcast is for subscribers, which have a protocol. -/
def step (s : Served α) : Label → Option (Served α)
  | .read now bytes => some (s.read app now bytes)
  | .protocolsSwitch prot => some { s with peer := s.peer.protocolsSwitch prot }
  | .send now m => some { s with peer := s.peer.protocolsSend now m }
  | .bcastWrite now evPath json =>
    -- `client->protocol.prot` is read without a test.
    if s.peer.prot = none then none
    else some { s with peer := s.peer.protocolsBcastWrite now evPath json }
  | .heartbeat now serverCb => some (s.protocolsHeartbeat app now serverCb)
  | .close reason => some { s with peer := s.peer.qevClose reason }

/-- A client that has just connected. -/
def system : TransitionSystem (Served α) Label where
  init s := s.peer = {}
  step := step app

end Served

end QuickIO
