import QuickIO.BroadcastFrames
import QuickIO.Heartbeats
import QuickIO.Replies
import QuickIO.Transfers

/-!
# The server as a whole

What qev.c, periodic.c and the event loop make of the parts. Bytes come in on sockets,
requests on those that speak HTTP; the events in them go through `evs_route` to the
handlers, and what is sent to a client goes out in the frames of its protocol. Clients
come and go, applications answer later, or more than once, and a tick writes the
broadcasts.
-/
namespace QuickIO

open Lib Server

/-! ### Clients -/

/-- The number of a client: sockets have the even ones, sessions of HTTP the odd. -/
def Recipient.client : Recipient → ClientId
  | .peer i => 2 * i
  | .surrogate s => 2 * s + 1

/-- Who has the number. -/
def recipient (c : ClientId) : Recipient :=
  if c % 2 = 0 then .peer (c / 2) else .surrogate (c / 2)

/-- What is handed to `protocols_send` or `protocols_bcast_write` for a client, and
which event it answers. -/
structure Post where
  client : ClientId
  message : Message
  answers : Option Nat
deriving DecidableEq

/-- The arguments of a call of `protocols_send`, but for the client. -/
def Send.message (m : Send) : Message where
  evPath := m.evPath
  evExtra := m.evExtra
  serverCb := m.serverCb
  json := m.json

def Send.post (answers : Option Nat) (m : Send) : Post := ⟨m.client, m.message, answers⟩

/-- The call again. -/
def Post.send (post : Post) : Send :=
  let m := post.message
  ⟨post.client, m.evPath, m.evExtra, m.serverCb, m.json⟩

/-- The call with the event it answers, if any. -/
def Post.answer (post : Post) : Option (Nat × Send) := post.answers.map fun n => (n, post.send)

/-- What the frames of a broadcast are made of. -/
def BcastWrite.message (write : BcastWrite) : Message where
  evPath := write.path
  evExtra := []
  serverCb := evsNoCallback
  json := write.json

def BcastWrite.post (write : BcastWrite) : Post := ⟨write.client, write.message, none⟩

/-! ### Events -/

/-- What one event meets outside of the server: the answers of the environment,
whether `errno` is `ERANGE`, and what the handlers leave in the bytes of the event. -/
structure Call where
  env : Env
  erange : Bool
  left : Bytes

/-- The events, with what was posted on their account and otherwise. -/
structure Core where
  replies : Replies.State
  posts : List Post

namespace Core

variable (core : Core)

def server : Server := core.replies.server

def setServer (server : Server) : Core :=
  { core with replies := { core.replies with server } }

/-- The number the next event gets. -/
def next : Nat := core.replies.requests.length

/-- A client that an application has been handed with an event. -/
def Known (c : ClientId) : Prop := ∃ clientCb, (c, clientCb) ∈ core.replies.requests

instance (c : ClientId) : Decidable (core.Known c) :=
  decidable_of_iff (∃ request ∈ core.replies.requests, request.1 = c) <| by
    constructor
    · rintro ⟨⟨_, clientCb⟩, member, rfl⟩
      exact ⟨clientCb, member⟩
    · rintro ⟨clientCb, member⟩
      exact ⟨_, member, rfl⟩

/-- `evs_route` -/
def route (env : Env) (c : ClientId) (ev : RawEvent) : Core × List Message :=
  match core.server.evsRoute env c ev.evPath ev.clientCb ev.json with
  -- Only for a path with bytes the trie has no place for, and it has been cleaned.
  | .error _ => (core, [])
  | .ok outcome =>
    ({ replies := Replies.record core.replies c ev.clientCb outcome
       posts := core.posts ++ outcome.sends.map (Send.post core.next) },
      outcome.sends.map Send.message)

/-- What a socket that does not speak HTTP has behind its protocol. A socket that does
is only found to here; its requests are steps of their own. -/
def app (c : ClientId) (plan : Nat → Call) : App Core where
  erange core := (plan core.next).erange
  evsRoute core ev :=
    let (core', messages) := core.route (plan core.next).env c ev
    (core', messages.map PeerAct.send, (plan core.next).left)
  refused core _ := core
  httpRoute core _ used := .routed core used .again none
  httpHeartbeat _ _ := none

/-- The events of a body that is posted to a session, up to a line that is refused, and
what `_surr_route` meets at each of its lines. -/
def lines (plan : Nat → Call) (s : SurrId) : Core → List Bytes → Core × List Http.Turn
  | core, [] => (core, [])
  | core, line :: rest =>
    let call := plan core.next
    match parseEvent call.erange line with
    | none => (core, [{ erange := call.erange }])
    | some ev =>
      let (core, messages) := core.route call.env (Recipient.client (.surrogate s)) ev
      let (core, turns) := lines plan s core rest
      (core, { erange := call.erange, acts := messages.map (.send s) } :: turns)

end Core

/-! ### The sockets and the sessions -/

/-- The session that the body read on a socket is for, where `_do_body` gets that far. -/
def Http.bodyOf (env : HttpEnv) (σ : Http) (i : SockId) : Option SurrId :=
  if env.publicAddress = none then none
  else if (σ.socks i).iframeRequested then none
  else if !(σ.socks i).isPost then none
  else (σ.socks i).client

namespace World

variable (w : World)

/-- `qev_is_closing` -/
def closing : Recipient → Bool
  | .peer i => (w.peers i).conn.closing.isSome || (w.http.socks i).closing.isSome
  | .surrogate s => (w.http.surrs s).closing.isSome

/-- `qev_close` -/
def qevClose (reason : CloseReason) : Recipient → World
  | .peer i =>
    if (w.peers i).prot = some .http then { w with http := w.http.act (.closeSock i reason) }
    else w.setPeer i ((w.peers i).qevClose reason)
  | .surrogate s => { w with http := w.http.act (.closeSurr s reason) }

/-- All clients there are. -/
def everyone : List Recipient :=
  (List.range w.http.nextSock).map .peer ++ (List.range w.http.nextSurr).map .surrogate

/-- The numbers of those that are closing. -/
def closers : List ClientId := (w.everyone.filter w.closing).map Recipient.client

/-- A socket whose bytes go to `protocol_http_route`. -/
def SpeaksHttp (i : Nat) : Prop :=
  (w.peers i).prot = some .http ∧ (w.peers i).conn.closing = none

instance (i : Nat) : Decidable (w.SpeaksHttp i) := by
  unfold SpeaksHttp
  infer_instance

/-- What `protocol_http_route` leaves of a socket: an upgraded one has a new protocol,
and everything that was read has been used up. -/
def upgraded (http : Http) (i : Nat) : World :=
  if (http.socks i).upgraded then
    { peers := Function.update w.peers i
        ({ w.peers i with conn := { (w.peers i).conn with rbuff := [] } }.protocolsSwitch .rfc6455)
      http }
  else { w with http }

end World

/-- The heartbeat of a raw client or a WebSocket is a challenge. -/
def Peer.challenged (now : Int) (p : Peer) : Bool :=
  let hb := protocolsHeartbeatGetIntervals now
  p.handshaked && (p.prot.bind Prot.heartbeatFrame).isSome &&
    !decide (p.lastRecv < hb.dead) && decide (p.lastRecv < hb.challenge)

/-- Its heartbeat writes something: the challenge, or `HEARTBEAT`. -/
def Peer.beats (now : Int) (p : Peer) : Bool :=
  let hb := protocolsHeartbeatGetIntervals now
  p.handshaked && (p.prot.bind Prot.heartbeatFrame).isSome &&
    !decide (p.lastRecv < hb.dead) &&
    (decide (p.lastRecv < hb.challenge) || decide (p.lastSend < hb.heartbeat))

/-- `_heartbeat_cb` -/
def heartbeatCb : Ptr := 0

structure Daemon where
  core : Core
  queue : List Broadcast
  world : World

namespace Daemon

variable (env : HttpEnv) (d : Daemon)

def server : Server := d.core.server

/-- Calls of `protocols_send`. -/
def send (server : Server) (sends : List Send) (answers : Option Nat) : Daemon :=
  { d with
    core := { d.core.setServer server with posts := d.core.posts ++ sends.map (Send.post answers) }
    world := sends.foldl (fun w m => w.protocolsSend m.message (recipient m.client)) d.world }

/-- `qev_on_read` -/
def read (i : Nat) (bytes : Bytes) (plan : Nat → Call) : Daemon :=
  let c := Recipient.client (.peer i)
  let s := Served.read (Core.app c plan) d.world.http.now ⟨d.core, d.world.peers i⟩ bytes
  { d with core := s.state, world := d.world.setPeer i s.peer }

/-- A step of HTTP. -/
def http (l : Http.Label) : Option Daemon :=
  (d.world.http.step env l).map fun http => { d with world := { d.world with http } }

/-- The body of a request has been read; its events are those of the session. -/
def body (i : Nat) (bytes : Bytes) (plan : Nat → Call) : Option Daemon :=
  match d.world.http.bodyOf env i with
  | none => d.http env (.body i bytes [])
  | some s =>
    let (core, turns) := d.core.lines plan s (Http.bodyLines bytes)
    { d with core }.http env (.body i bytes turns)

/-- `evs_broadcast_tick` -/
def tick : Daemon :=
  let (server, writes) := d.server.evsBroadcastTick d.queue
  { core := { d.core.setServer server with posts := d.core.posts ++ writes.map BcastWrite.post }
    queue := []
    world := writes.foldl (fun w write =>
      w.protocolsBcastWrite (protocolsBcast write.path write.json) (recipient write.client)) d.world }

/-- `protocols_heartbeat` on a raw client or a WebSocket. The challenge has a callback. -/
def heartbeatPeer (event : Env) (i : Nat) : Daemon :=
  let c := Recipient.client (.peer i)
  let p := d.world.peers i
  let now := d.world.http.now
  let (server, serverCb) :=
    if p.challenged now then d.server.cbNew event c (some heartbeatCb) none none
    else (d.server, evsNoCallback)
  let s := Served.protocolsHeartbeat (Core.app c fun _ => ⟨event, false, []⟩) now ⟨d.core, p⟩
    serverCb
  let posts := if p.beats now then [⟨c, heartbeatEvent serverCb, none⟩] else []
  { d with
    core := { d.core.setServer server with posts := d.core.posts ++ posts }
    world := d.world.setPeer i s.peer }

/-- `_foreach_cb`: the heartbeat of a client, and then its callbacks are pruned. -/
def periodic (event : Env) (c : ClientId) (before : Int) : Daemon :=
  let beaten :=
    match recipient c with
    | .peer i =>
      if d.world.SpeaksHttp i then (d.http env (.heartbeatSock i)).getD d
      else d.heartbeatPeer event i
    | .surrogate s => (d.http env (.heartbeatSurr s)).getD d
  { beaten with core := beaten.core.setServer (beaten.server.cbPrune c before) }

/-- `qev_on_close`: the protocol is told and writes why, and then the subscriptions go. -/
def closed (c : ClientId) : Option Daemon :=
  let told : Option Daemon :=
    match recipient c with
    | .peer i =>
      if (d.world.peers i).prot = some .http then d.http env (.onCloseSock i)
      else (d.world.peers i).onClose.map fun p => { d with world := d.world.setPeer i p }
    | .surrogate s => d.http env (.onCloseSurr s)
  told.map fun d => { d with core := d.core.setServer (d.server.clientClosed c) }

/-- What the loop of quick-event does next, or an application. -/
inductive Label where
  | time (usec : Nat)
  | opened
  | read (i : Nat) (bytes : Bytes) (plan : Nat → Call)
  | again (i : Nat)
  | header (i : Nat) (req : HttpRequest) (room : Bool)
  | bodyOverflow (i : Nat) (used : Nat)
  | body (i : Nat) (bytes : Bytes) (plan : Nat → Call)
  | onCb (event : Env) (n : Nat) (success : Bool)
  | cb (event : Env) (n : Nat) (code : EvsCode) (errMsg json : Option Bytes)
      (cbFn cbData freeFn : Option Ptr)
  | sendFull (event : Env) (c : ClientId) (ev : Event Handlers) (evExtra json : Option Bytes)
      (cbFn cbData freeFn : Option Ptr)
  | sendSubFull (event : Env) (c : ClientId) (sub : SubId) (json : Option Bytes)
      (cbFn cbData freeFn : Option Ptr)
  | sendBruteforce (event : Env) (c : ClientId) (evPrefix evPath evExtra json : Option Bytes)
      (cbFn cbData freeFn : Option Ptr)
  | broadcast (ev : Event Handlers) (evExtra : Bytes) (json : Option Bytes)
  | tick
  | periodic (event : Env) (c : ClientId) (before : Int)
  | close (c : ClientId) (reason : CloseReason)
  | closed (c : ClientId)

/-- What happens then, where it can. -/
def handle (d : Daemon) : Label → Option Daemon
  | .time usec => d.http env (.tick usec)
  | .opened => d.http env .opened
  | .read i bytes plan =>
    if i < d.world.http.nextSock ∧ (d.world.peers i).prot ≠ some .http then
      some (d.read i bytes plan)
    else none
  | .again i => if d.world.SpeaksHttp i then d.http env (.again i) else none
  | .header i req room =>
    if d.world.SpeaksHttp i then
      (d.world.http.step env (.header i req room)).map fun http =>
        { d with world := d.world.upgraded http i }
    else none
  | .bodyOverflow i used => if d.world.SpeaksHttp i then d.http env (.bodyOverflow i used) else none
  | .body i bytes plan => if d.world.SpeaksHttp i then d.body env i bytes plan else none
  | .onCb event n success =>
    match d.core.replies.approvals.lookup n with
    | none => none
    | some info =>
      let (server, sends) := d.server.evsOnCbLate event success info
      (Replies.step d.core.replies (.onCb event n success)).map fun replies =>
        { d with core := { d.core with replies } }.send server sends (some n)
  | .cb event n code errMsg json cbFn cbData freeFn =>
    match d.core.replies.requests[n]? with
    | none => none
    | some (c, clientCb) =>
      let (server, sends) := d.server.evsCbFull event c clientCb code errMsg json cbFn cbData freeFn
      (Replies.step d.core.replies (.cb event n code errMsg json cbFn cbData freeFn)).map
        fun replies => { d with core := { d.core with replies } }.send server sends (some n)
  | .sendFull event c ev evExtra json cbFn cbData freeFn =>
    let (server, sends) := d.server.evsSendFull event json cbFn cbData freeFn c ev evExtra
    some (d.send server sends none)
  | .sendSubFull event c sub json cbFn cbData freeFn =>
    let (server, sends) := d.server.evsSendSubFull event json cbFn cbData freeFn c sub
    some (d.send server sends none)
  | .sendBruteforce event c evPrefix evPath evExtra json cbFn cbData freeFn =>
    if d.core.Known c then
      let (server, sends) :=
        d.server.evsSendBruteforce event json cbFn cbData freeFn c evPrefix evPath evExtra
      some (d.send server sends none)
    else none
  | .broadcast ev evExtra json =>
    let (server, bc) := d.server.evsBroadcast ev evExtra json
    some { d with core := d.core.setServer server, queue := d.queue ++ bc.toList }
  | .tick => some d.tick
  | .periodic event c before => some (d.periodic env event c before)
  | .close c reason => some { d with world := d.world.qevClose reason (recipient c) }
  | .closed c =>
    if c ∈ d.world.closers ∧ (d.server.clients c).closed = false then d.closed env c
    else none

/-- `qev_close` marks a client for all that hold it. -/
def marked : Daemon :=
  { d with core := d.core.setServer (d.world.closers.foldl Server.qevClose d.server) }

def step (d : Daemon) (l : Label) : Option Daemon := (d.handle env l).map marked

/-- Nobody has connected, and nobody subscribed. -/
def system : TransitionSystem Daemon Label where
  init d := d.server.Blank ∧ d.server.fairUsed = 0 ∧ d.server.offCalls = [] ∧
    d.core.replies.requests = [] ∧ d.core.replies.approvals = [] ∧ d.core.replies.kept = [] ∧
    d.core.replies.sent = [] ∧
    d.core.posts = [] ∧ d.queue = [] ∧ d.world = ⟨fun _ => {}, Http.start⟩
  step := step env

end Daemon

end QuickIO
