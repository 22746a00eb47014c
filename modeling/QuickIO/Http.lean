import Mathlib.Logic.Function.Basic
import QuickIO.Lib.TransitionSystem
import QuickIO.Raw

/-!
# HTTP sessions

Requests on any number of sockets, and the surrogates that stand for their
sessions. A surrogate keeps the messages that no socket is waiting for, and
remembers the socket that polls for the next one. The functions of
`protocols_http.c`, each on the whole state.
-/
namespace QuickIO

open Lib

abbrev SockId := Nat
abbrev SurrId := Nat

/-- `enum status` -/
inductive HttpStatus
  | status200
  | status400
  | status403
  | status405
  | status411
  | status413
  | status426
  | status501
deriving DecidableEq, Repr

/-- What `_build_response_full` is given: it writes the same head around every
body but for the status line and the content type. -/
structure Response where
  status : HttpStatus
  body : Bytes
  isIframe : Bool
deriving DecidableEq, Repr

def buildResponse (status : HttpStatus) (body : Bytes) : Response :=
  { status, body, isIframe := false }

/-- A client with an open socket, while HTTP is its protocol. -/
structure Socket where
  /-- `protocol.handshaked`, set by the first call of the route function -/
  handshaked : Bool := false
  /-- `protocol.prot` is `protocol_rfc6455` -/
  upgraded : Bool := false
  /-- `http.client` -/
  client : Option SurrId := none
  bodyLen : Nat := 0
  isPost : Bool := false
  iframeRequested : Bool := false
  keepAlive : Bool := false
  inRequest : Bool := false
  /-- the headers have been routed and the body is waited for -/
  inBody : Bool := false
  lastSend : Int := 0
  /-- references the surrogates hold: one dropped twice would leave too few -/
  refs : Int := 0
  closing : Option CloseReason := none
  /-- `qev_on_close` has run -/
  closed : Bool := false
  /-- how many requests had their headers processed -/
  requests : Nat := 0
deriving DecidableEq, Repr

/-- A response has been written. Without keep-alive it was the last one. -/
def Socket.answered (k : Socket) (now : Int) : Socket :=
  { k with
    inRequest := false
    lastSend := now
    closing := if k.keepAlive then k.closing else k.closing.or (some .httpDone) }

/-- A client without a socket of its own. -/
structure Surrogate where
  /-- `http.client` -/
  client : Option SockId := none
  incoming : Bool := false
  sid : Nat := 0
  tbl : Nat := 0
  wbuff : Bytes := []
  lastSend : Int := 0
  /-- references the sockets hold -/
  refs : Int := 0
  closing : Option CloseReason := none
  closed : Bool := false
  /-- the messages `protocol_http_send` was given -/
  given : List Bytes := []
deriving DecidableEq, Repr

/-- A response that was written: for which of the socket's requests, and the
session the socket was linked to. -/
structure Sent where
  sock : SockId
  response : Response
  session : Option SurrId
  request : Nat
deriving DecidableEq, Repr

structure Http where
  socks : SockId → Socket
  surrs : SurrId → Surrogate
  nextSock : SockId
  nextSurr : SurrId
  /-- `_clients`: the sessions by bucket and key -/
  clients : Nat → Nat → Option SurrId
  /-- `qev_monotonic` -/
  now : Int
  /-- what was written, oldest first -/
  sent : List Sent
  /-- the lines `protocol_raw_handle` was given, with their surrogate -/
  handled : List (SurrId × Bytes)
  /-- an assertion failed -/
  aborted : Bool

/-- What a parsed request says. `ok` is the result of `qev_http_request_parse`,
`version` the minor one. -/
structure HttpRequest where
  ok : Bool := true
  method : Bytes
  url : Bytes
  version : Nat := 1
  headers : List (Bytes × Bytes) := []
deriving DecidableEq, Repr

/-- `qev_http_request_header` -/
def HttpRequest.header (req : HttpRequest) (name : Bytes) : Option Bytes :=
  (req.headers.find? (·.1 = name)).map (·.2)

/-- Configuration, static pages, and `qev_safe_strtoull`. -/
structure HttpEnv where
  publicAddress : Option Bytes
  iframePage : Bytes
  errorPage : Bytes
  safeStrtoull : Bytes → Option Nat
  /-- `qev_cfg_get_timeout`, in milliseconds -/
  timeout : Int

/-- `_iframe_source` -/
def HttpEnv.iframeSource (env : HttpEnv) : Response :=
  { status := .status200, body := env.iframePage, isIframe := true }

/-- `_status_responses` -/
def HttpEnv.statusResponses (env : HttpEnv) (status : HttpStatus) : Response :=
  buildResponse status (if status = .status501 then env.errorPage else [])

/-- A message for a client: the arguments of `protocols_send`. -/
structure Message where
  evPath : Bytes
  evExtra : Bytes
  serverCb : EvsCb
  json : Bytes
deriving DecidableEq, Repr

/-- `struct protocol_frames` -/
structure HttpFrames where
  defn : Response
  raw : Bytes
deriving DecidableEq, Repr

/-- `protocol_http_frame` -/
def protocolHttpFrame (m : Message) : HttpFrames :=
  let raw := protocolRawFormat m.evPath m.evExtra m.serverCb m.json ++ str "\n"
  { defn := buildResponse .status200 raw, raw }

namespace Http

variable (env : HttpEnv) (σ : Http)

def setSock (c : SockId) (f : Socket → Socket) : Http :=
  { σ with socks := Function.update σ.socks c (f (σ.socks c)) }

def setSurr (s : SurrId) (f : Surrogate → Surrogate) : Http :=
  { σ with surrs := Function.update σ.surrs s (f (σ.surrs s)) }

def refSock (c : SockId) : Http := σ.setSock c fun k => { k with refs := k.refs + 1 }

def unrefSock (c : SockId) : Http := σ.setSock c fun k => { k with refs := k.refs - 1 }

def refSurr (s : SurrId) : Http := σ.setSurr s fun r => { r with refs := r.refs + 1 }

def unrefSurr (s : SurrId) : Http := σ.setSurr s fun r => { r with refs := r.refs - 1 }

/-- `qev_close` on a socket: only the first reason counts. -/
def closeSock (c : SockId) (reason : CloseReason) : Http :=
  σ.setSock c fun k => { k with closing := k.closing.or (some reason) }

/-- `qev_close` on a surrogate. -/
def closeSurr (s : SurrId) (reason : CloseReason) : Http :=
  σ.setSurr s fun r => { r with closing := r.closing.or (some reason) }

/-- `_surr_release_client` -/
def surrReleaseClient (surrogate : Option SurrId) (client : SockId) : Http :=
  match surrogate with
  | none => σ
  | some s =>
    if (σ.surrs s).client = some client then
      (σ.setSurr s fun r => { r with client := none }).unrefSock client
    else σ

/-- The part of `_send_response` for a socket that owes a response. -/
def answer (c : SockId) (surrogate : Option SurrId) (resp : Response) : Http :=
  let σ := { σ with sent := σ.sent ++ [Sent.mk c resp surrogate (σ.socks c).requests] }
  let σ := σ.setSock c fun k => k.answered σ.now
  match surrogate with
  | none => σ
  | some s => σ.setSurr s fun r => { r with lastSend := σ.now }

/-- `_send_response` -/
def sendResponse (client : Option SockId) (resp : Response) : Http × Bool :=
  match client with
  | none => (σ, false)
  | some c =>
    -- `_steal_client(client)`
    let surrogate := (σ.socks c).client
    let σ := σ.setSock c fun k => { k with client := none }
    let sent := (σ.socks c).inRequest
    let σ := if sent then σ.answer c surrogate resp else σ
    let σ := σ.surrReleaseClient surrogate c
    match surrogate with
    | none => (σ, sent)
    | some s => (σ.unrefSurr s, sent)

/-- `_send_error` -/
def sendError (client : Option SockId) (status : HttpStatus) : Http × Bool :=
  σ.sendResponse client (env.statusResponses status)

/-- Write `http.client` of a surrogate, with a reference to what it points at. -/
def setPoller (surrogate : SurrId) (poller : Option SockId) : Http :=
  let σ := σ.setSurr surrogate fun r => { r with client := poller }
  match poller with
  | none => σ
  | some c => σ.refSock c

/-- A poller that was taken from a surrogate gets an empty response and is let
go, as `_surr_replace` and `protocol_http_close` do. -/
def dismiss (poller : Option SockId) (status : HttpStatus) : Http :=
  match poller with
  | none => σ
  | some c => (σ.sendError env (some c) status).1.unrefSock c

/-- `_surr_replace` -/
def surrReplace (surrogate : SurrId) (newPoller : SockId) : Http :=
  let oldPoller := (σ.surrs surrogate).client
  let closing := (σ.surrs surrogate).closing.isSome || (σ.socks newPoller).closing.isSome
  -- The new poller is not seated: it is answered, and then the old one.
  if closing then
    let σ := σ.setPoller surrogate none
    let σ := (σ.sendError env (some newPoller) .status403).1
    σ.dismiss env oldPoller .status403
  else
    let σ := σ.setPoller surrogate (some newPoller)
    σ.dismiss env oldPoller .status200

/-- Steal the poller of a surrogate, send it a response and let go of it, as
`_surr_send` and `protocol_http_send` do. -/
def sendPoller (surrogate : SurrId) (resp : Response) : Http × Bool :=
  let poller := (σ.surrs surrogate).client
  let σ := σ.setPoller surrogate none
  match poller with
  | none => (σ, false)
  | some p =>
    let (σ, sent) := σ.sendResponse (some p) resp
    (σ.unrefSock p, sent)

/-- `_surr_send` -/
def surrSend (surrogate : SurrId) (newPoller : SockId) (msgs : Bytes) : Http :=
  let resp := buildResponse .status200 msgs
  let (σ, sent) := σ.sendPoller surrogate resp
  if sent then σ.surrReplace env surrogate newPoller
  else
    let (σ, sent) := σ.sendResponse (some newPoller) resp
    { σ with aborted := σ.aborted || !sent }

/-- `protocol_http_send` -/
def protocolHttpSend (surrogate : SurrId) (pframes : HttpFrames) : Http :=
  let σ := σ.setSurr surrogate fun r => { r with given := r.given ++ [pframes.raw] }
  let (σ, sent) :=
    if (σ.surrs surrogate).incoming then (σ, false) else σ.sendPoller surrogate pframes.defn
  if sent then σ
  else σ.setSurr surrogate fun r => { r with wbuff := r.wbuff ++ pframes.raw }

/-- `protocols_send` to a surrogate, which is always handshaked. -/
def protocolsSend (surrogate : SurrId) (m : Message) : Http :=
  let σ := σ.setSurr surrogate fun r => { r with lastSend := σ.now }
  σ.protocolHttpSend surrogate (protocolHttpFrame m)

/-- What a handler, or any other thread, does to the clients there are. -/
inductive Act
  | send (s : SurrId) (m : Message)
  | closeSurr (s : SurrId) (reason : CloseReason)
  | closeSock (c : SockId) (reason : CloseReason)
deriving DecidableEq, Repr

def act : Act → Http
  | .send s m => if s < σ.nextSurr then σ.protocolsSend s m else σ
  | .closeSurr s reason => if s < σ.nextSurr then σ.closeSurr s reason else σ
  | .closeSock c reason => if c < σ.nextSock then σ.closeSock c reason else σ

def acts (as : List Act) : Http := as.foldl act σ

/-- What one line of a body meets: whether `errno` is `ERANGE`, and what the
handler of its event does. -/
structure Turn where
  erange : Bool := false
  acts : List Act := []
deriving DecidableEq, Repr

/-- The loop of `_surr_route`. The result says whether every line was taken. -/
def surrLines (surrogate : SurrId) : Http → List Bytes → List Turn → Http × Bool
  | σ, [], _ => (σ, true)
  | σ, msg :: msgs, turns =>
    let turn := turns.headD {}
    let σ := { σ with handled := σ.handled ++ [(surrogate, msg)] }
    match parseEvent turn.erange msg with
    | none => (σ.closeSurr surrogate .invalidEventFormat, false)
    | some _ => surrLines surrogate (σ.acts turn.acts) msgs turns.tail

/-- The end of `_surr_route`: what the surrogate has is sent, or `from` polls. -/
def surrFlush (surrogate : SurrId) (sock : SockId) : Http :=
  let σ := σ.setSurr surrogate fun r => { r with incoming := false }
  -- `qev_surrogate_flush`
  let msgs := (σ.surrs surrogate).wbuff
  let σ := σ.setSurr surrogate fun r => { r with wbuff := [] }
  if msgs = [] then σ.surrReplace env surrogate sock else σ.surrSend env surrogate sock msgs

/-- `strtok_r(body, "\n", &saveptr)` until it returns `NULL` -/
def bodyLines (body : Bytes) : List Bytes :=
  ((body.takeWhile (· ≠ 0)).splitOn 0x0a).filter (· ≠ [])

/-- `_surr_route` -/
def surrRoute (surrogate : SurrId) (sock : SockId) (body : Bytes) (turns : List Turn) : Http :=
  let σ := σ.setSurr surrogate fun r => { r with incoming := true }
  match surrLines surrogate σ (bodyLines body) turns with
  | (σ, false) => (σ.sendError env (some sock) .status400).1
  | (σ, true) => σ.surrFlush env surrogate sock

/-- The surrogate `_surr_find` makes for a key, stored under it. -/
def surrNew (sid : Nat) : Http :=
  let which := sid % 64
  let entries := Function.update (σ.clients which) sid (some σ.nextSurr)
  { σ with
    nextSurr := σ.nextSurr + 1
    surrs := Function.update σ.surrs σ.nextSurr { sid, tbl := which, lastSend := σ.now }
    clients := Function.update σ.clients which entries }

/-- `_surr_find`. The last argument says whether `qev_surrogate_new` succeeds. -/
def surrFind (sid : Nat) (orCreate room : Bool) : Http × Option SurrId :=
  match σ.clients (sid % 64) sid with
  | some s => (σ, some s)
  | none => if orCreate && room then (σ.surrNew sid, some σ.nextSurr) else (σ, none)

end Http

/-- `strstr(haystack, needle)`: what follows the start of the first occurrence. -/
def strstr (needle : Bytes) : Bytes → Option Bytes
  | [] => if needle = [] then some [] else none
  | c :: rest => if needle.isPrefixOf (c :: rest) then some (c :: rest) else strstr needle rest

/-- `tolower` in the C locale -/
def toLower (c : UInt8) : UInt8 := if 0x41 ≤ c && c ≤ 0x5a then c + 0x20 else c

/-- `strcasestr(haystack, needle) != NULL` -/
def strcasestr (haystack needle : Bytes) : Bool :=
  (strstr (needle.map toLower) (haystack.map toLower)).isSome

/-- `g_ascii_xdigit_value`, `none` for any other byte -/
def xdigitValue (c : UInt8) : Option Nat :=
  if 0x30 ≤ c && c ≤ 0x39 then some (c.toNat - 0x30)
  else if 0x41 ≤ c && c ≤ 0x46 then some (c.toNat - 0x41 + 10)
  else if 0x61 ≤ c && c ≤ 0x66 then some (c.toNat - 0x61 + 10)
  else none

/-- The loop over the hexadecimal digits: `n` of them, the first one lowest. -/
def xdigits : Nat → Bytes → Option Nat
  | 0, _ => some 0
  | _ + 1, [] => none
  | n + 1, c :: rest =>
    match xdigitValue c with
    | none => none
    | some v => (xdigits n rest).map fun uuid => v + 16 * uuid

/-- The key in a URL. `strtok` only cuts the URL behind the digits. -/
def urlSid (url : Bytes) : Option Nat :=
  match strstr (str "sid=") url with
  | none => none
  | some sid => xdigits 32 (sid.drop 4)

/-- `g_str_has_prefix` -/
def hasPrefix (s p : Bytes) : Bool := p.isPrefixOf s

namespace Http

variable (env : HttpEnv) (σ : Http)

/-- `_get_surrogate` -/
def getSurrogate (url : Bytes) (room : Bool) : Http × Option SurrId :=
  match urlSid url with
  | none => (σ, none)
  | some sid => σ.surrFind sid (strstr (str "connect=true") url).isSome room

/-- `_do_body` -/
def doBody (c : SockId) (body : Bytes) (turns : List Turn) : Http :=
  if env.publicAddress = none then (σ.sendError env (some c) .status501).1
  -- The iframe answers any method.
  else if (σ.socks c).iframeRequested then (σ.sendResponse (some c) env.iframeSource).1
  else if !(σ.socks c).isPost then (σ.sendError env (some c) .status405).1
  else
    match (σ.socks c).client with
    -- No surrogate was found for this body.
    | none => (σ.sendError env (some c) .status403).1
    | some s => σ.surrRoute env s c body turns

/-- `protocol_rfc6455_upgrade`: the 101 is written, and the protocol switched. -/
def upgrade (c : SockId) : Http :=
  σ.setSock c fun k => { k with upgraded := true, handshaked := false }

/-- `_do_headers_websocket` -/
def doHeadersWebsocket (c : SockId) (req : HttpRequest) (connection : Option Bytes) :
    Http × ProtocolStatus :=
  let protocol := req.header (str "Sec-WebSocket-Protocol")
  let upgrade := req.header (str "Upgrade")
  let version := req.header (str "Sec-WebSocket-Version")
  -- `connection == NULL`, or it does not speak of an upgrade.
  if upgrade = none || !(connection.any fun k => strcasestr k (str "Upgrade")) then
    ((σ.sendError env (some c) .status426).1, .ok)
  -- `g_strcmp0` takes a header that is missing for a difference.
  else if protocol ≠ some (str "quickio") || version ≠ some (str "13") then
    ((σ.sendError env (some c) .status400).1, .ok)
  else (σ.upgrade c, .again)

/-- The link `_do_headers_http` makes between the socket and the surrogate. -/
def link (c : SockId) (surrogate : Option SurrId) : Http :=
  match surrogate with
  | none => σ
  | some s =>
    -- The lookup holds no lock on either: one of them may be closing by now.
    if (σ.surrs s).closing.isSome || (σ.socks c).closing.isSome then σ
    else (σ.setSock c fun k => { k with client := some s }).refSurr s

/-- The end of `_do_headers_http`, with the length of the body known. -/
def openRequest (c : SockId) (req : HttpRequest) (bodyLen : Nat) (room : Bool) : Http :=
  let (σ, surrogate) := σ.getSurrogate req.url room
  (σ.link c surrogate).setSock c fun k => { k with
    bodyLen
    isPost := req.method = str "POST"
    iframeRequested := hasPrefix req.url (str "/iframe") }

/-- `_do_headers_http` -/
def doHeadersHttp (c : SockId) (req : HttpRequest) (room : Bool) : Http × ProtocolStatus :=
  match req.header (str "Content-Length") with
  | some contentLen =>
    match env.safeStrtoull contentLen with
    -- Not closed here: `protocol_http_route` does it for `PROT_FATAL`.
    | none => (σ, .fatal)
    | some bodyLen => (σ.openRequest c req bodyLen room, .ok)
  | none =>
    -- Closed with a reason of its own, which the close after `PROT_FATAL` cannot replace.
    if req.method = str "POST" then (σ.closeSock c .lengthRequired, .fatal)
    else (σ.openRequest c req 0 room, .ok)

/-- The `keep_alive` that `protocol_http_route` reads from the headers. -/
def keepAlive (req : HttpRequest) : Bool :=
  match req.header (str "Connection") with
  | none => req.version = 1
  | some connection =>
    if req.version = 1 then !strcasestr connection (str "close")
    else strcasestr connection (str "keep-alive")

/-- What every call of `protocol_http_route` begins with. The first one also
makes the client handshaked. -/
def routeBegin (c : SockId) : Http :=
  σ.setSock c fun k => { k with handshaked := true, lastSend := σ.now }

/-- The block of `protocol_http_route` for a whole header, up to where its fields are
acted on. -/
def requestBegin (c : SockId) (req : HttpRequest) : Http :=
  -- A request that nobody answered makes room for this one.
  ((σ.routeBegin c).sendError env (some c) .status200).1.setSock c fun k => { k with
    inRequest := true
    keepAlive := keepAlive req
    requests := k.requests + 1 }

/-- The same block up to where its status is looked at. -/
def headerBlock (c : SockId) (req : HttpRequest) (room : Bool) : Http × ProtocolStatus :=
  let σ := σ.requestBegin env c req
  if req.ok then
    -- The challenge key alone decides for a websocket.
    match req.header (str "Sec-WebSocket-Key") with
    | some _ => σ.doHeadersWebsocket env c req (req.header (str "Connection"))
    | none => σ.doHeadersHttp env c req room
  else (σ, .fatal)

/-- The whole block. -/
def routeHeader (c : SockId) (req : HttpRequest) (room : Bool) : Http :=
  let (σ, status) := σ.headerBlock env c req room
  match status with
  | .ok => σ.setSock c fun k => { k with inBody := true }
  | .again => σ
  | .fatal => σ.closeSock c .badRequest

theorem routeHeader_eq (c : SockId) (req : HttpRequest) (room : Bool) :
    σ.routeHeader env c req room =
      match (σ.headerBlock env c req room).2 with
      | .ok => (σ.headerBlock env c req room).1.setSock c fun k => { k with inBody := true }
      | .again => (σ.headerBlock env c req room).1
      | .fatal => (σ.headerBlock env c req room).1.closeSock c .badRequest := rfl

theorem headerBlock_cases (c : SockId) (req : HttpRequest) (room : Bool) :
    σ.headerBlock env c req room = (σ.requestBegin env c req).doHeadersWebsocket env c req
        (req.header (str "Connection")) ∨
      σ.headerBlock env c req room = (σ.requestBegin env c req).doHeadersHttp env c req room ∨
      σ.headerBlock env c req room = (σ.requestBegin env c req, .fatal) := by
  simp only [headerBlock]
  split
  next =>
    split
    next => exact Or.inl rfl
    next => exact Or.inr (Or.inl rfl)
  next => exact Or.inr (Or.inr rfl)

/-- The block of `protocol_http_route` for a body that is all there. -/
def routeBody (c : SockId) (body : Bytes) (turns : List Turn) : Http :=
  let σ := (σ.routeBegin c).setSock c fun k => { k with inBody := false }
  (σ.doBody env c body turns).setSock c fun k => { k with bodyLen := 0 }

/-- `QEV_SEC_TO_USEC` -/
def secToUsec (sec : Int) : Int := sec * 1000000

/-- The fields of `protocols_heartbeat_get_intervals` that HTTP reads. -/
structure Intervals where
  timeout : Int
  poll : Int
  heartbeat : Int
deriving DecidableEq, Repr

/-- `protocols_heartbeat_get_intervals` -/
def heartbeatGetIntervals : Intervals where
  timeout := σ.now - env.timeout * 1000
  poll := σ.now - secToUsec 55 + secToUsec 10
  heartbeat := σ.now - secToUsec 61 + secToUsec 10

/-- `protocol_http_heartbeat` on a surrogate. -/
def heartbeatSurr (s : SurrId) : Http :=
  if (σ.surrs s).client = none ∧ (σ.surrs s).lastSend < (σ.heartbeatGetIntervals env).timeout then
    σ.closeSurr s .heartattack
  else σ

/-- `protocol_http_heartbeat` on a socket. -/
def heartbeatSock (c : SockId) : Http :=
  match (σ.socks c).client with
  | none =>
    -- Nobody to poll for.
    if (σ.socks c).lastSend < (σ.heartbeatGetIntervals env).heartbeat then
      σ.closeSock c .heartattack
    else σ
  | some _ =>
    -- A poll that waited long enough is answered with nothing.
    if (σ.socks c).lastSend < (σ.heartbeatGetIntervals env).poll then
      (σ.sendError env (some c) .status200).1
    else σ

/-- `protocol_http_close` on a surrogate. -/
def onCloseSurr (s : SurrId) : Http :=
  let r := σ.surrs s
  -- By its key alone, whoever holds it.
  let entries := Function.update (σ.clients r.tbl) r.sid none
  let σ := { σ with clients := Function.update σ.clients r.tbl entries }
  let σ := σ.setSurr s fun r => { r with closed := true }
  (σ.setPoller s none).dismiss env r.client .status403

/-- What a request is answered when its socket closes, if anything. -/
def closeStatus : CloseReason → Option HttpStatus
  | .badRequest => some .status400
  | .lengthRequired => some .status411
  | .outOfMem => some .status413
  | _ => none

/-- `protocol_http_close` on a socket. -/
def onCloseSock (c : SockId) (reason : CloseReason) : Http :=
  let surrogate := (σ.socks c).client
  -- `_steal_client`
  let σ := σ.setSock c fun k => { k with client := none, closed := true }
  let σ :=
    match closeStatus reason with
    | none => σ
    | some status => (σ.sendError env (some c) status).1
  match surrogate with
  | none => σ
  -- The surrogate ends with its socket.
  | some s => (σ.closeSurr s .httpDone).unrefSurr s

/-- A socket lets go of its surrogate, is told why it closes, and then closes the surrogate. -/
theorem onCloseSock_cases (c : SockId) (reason : CloseReason) :
    ∃ υ : Http,
      (υ = (σ.setSock c fun k => { k with client := none, closed := true }) ∨
        ∃ status, υ = ((σ.setSock c fun k => { k with client := none, closed := true }).sendError
          env (some c) status).1) ∧
      (σ.onCloseSock env c reason = υ ∨
        ∃ s, σ.onCloseSock env c reason = (υ.closeSurr s .httpDone).unrefSurr s) := by
  simp only [onCloseSock]
  cases closeStatus reason with
  | none =>
    refine ⟨_, Or.inl rfl, ?_⟩
    cases (σ.socks c).client with
    | none => exact Or.inl rfl
    | some s => exact Or.inr ⟨s, rfl⟩
  | some status =>
    refine ⟨_, Or.inr ⟨status, rfl⟩, ?_⟩
    cases (σ.socks c).client with
    | none => exact Or.inl rfl
    | some s => exact Or.inr ⟨s, rfl⟩

/-- An atomic step. A request takes two: its header, and its body once that is
all there. `again` is a read that completes neither. -/
inductive Label
  | tick (usec : Nat)
  | opened
  | again (c : SockId)
  | header (c : SockId) (req : HttpRequest) (room : Bool)
  | body (c : SockId) (body : Bytes) (turns : List Turn)
  | bodyOverflow (c : SockId) (used : Nat)
  | act (a : Act)
  | heartbeatSock (c : SockId)
  | heartbeatSurr (s : SurrId)
  | onCloseSock (c : SockId)
  | onCloseSurr (s : SurrId)
deriving DecidableEq, Repr

/-- The socket's data still goes to `protocol_http_route`. -/
def Routes (c : SockId) : Prop :=
  c < σ.nextSock ∧ (σ.socks c).closed = false ∧ (σ.socks c).upgraded = false

instance (c : SockId) : Decidable (σ.Routes c) := by
  unfold Routes
  infer_instance

/-- What a step does, where it can be taken. -/
def step (σ : Http) (l : Label) : Option Http :=
  if σ.aborted then none
  else
    match l with
    | .tick usec => some { σ with now := σ.now + usec }
    | .opened => some { σ with nextSock := σ.nextSock + 1 }
    | .again c => if σ.Routes c then some (σ.routeBegin c) else none
    | .header c req room =>
      -- `body_len` is 0 until a header sets it, and is 0 again after the body.
      if σ.Routes c ∧ (σ.socks c).inBody = false ∧ (σ.socks c).bodyLen = 0 then
        some (σ.routeHeader env c req room)
      else none
    | .body c body turns =>
      if σ.Routes c ∧ (σ.socks c).inBody = true ∧ body.length = (σ.socks c).bodyLen then
        some (σ.routeBody env c body turns)
      else none
    | .bodyOverflow c used =>
      -- `qev_safe_uadd` overflows.
      if σ.Routes c ∧ (σ.socks c).inBody = true ∧ 2 ^ 64 ≤ (σ.socks c).bodyLen + used then
        some ((σ.routeBegin c).closeSock c .unknownError)
      else none
    | .act a => some (σ.act a)
    | .heartbeatSock c =>
      if σ.Routes c ∧ (σ.socks c).handshaked then some (σ.heartbeatSock env c) else none
    | .heartbeatSurr s =>
      if s < σ.nextSurr ∧ (σ.surrs s).closed = false then some (σ.heartbeatSurr env s) else none
    | .onCloseSock c =>
      if (σ.socks c).closed then none
      else
        match (σ.socks c).closing with
        | none => none
        | some reason =>
          -- A websocket closes through its own protocol.
          if (σ.socks c).upgraded then
            some (σ.setSock c fun k => { k with closed := true })
          else some (σ.onCloseSock env c reason)
    | .onCloseSurr s =>
      if (σ.surrs s).closed then none
      else if (σ.surrs s).closing.isSome then some (σ.onCloseSurr env s)
      else none

/-- What a step can do, and where it can be taken. -/
inductive Stepped (env : HttpEnv) (σ : Http) : Label → Http → Prop
  | tick (usec : Nat) : Stepped env σ (.tick usec) { σ with now := σ.now + usec }
  | opened : Stepped env σ .opened { σ with nextSock := σ.nextSock + 1 }
  | again (c : SockId) (routes : σ.Routes c) : Stepped env σ (.again c) (σ.routeBegin c)
  | header (c : SockId) (req : HttpRequest) (room : Bool) (routes : σ.Routes c)
      (ready : (σ.socks c).inBody = false) (done : (σ.socks c).bodyLen = 0) :
      Stepped env σ (.header c req room) (σ.routeHeader env c req room)
  | body (c : SockId) (body : Bytes) (turns : List Turn) (routes : σ.Routes c)
      (waits : (σ.socks c).inBody = true) (whole : body.length = (σ.socks c).bodyLen) :
      Stepped env σ (.body c body turns) (σ.routeBody env c body turns)
  | bodyOverflow (c : SockId) (used : Nat) (routes : σ.Routes c)
      (waits : (σ.socks c).inBody = true) (beyond : 2 ^ 64 ≤ (σ.socks c).bodyLen + used) :
      Stepped env σ (.bodyOverflow c used) ((σ.routeBegin c).closeSock c .unknownError)
  | act (a : Act) : Stepped env σ (.act a) (σ.act a)
  | heartbeatSock (c : SockId) (routes : σ.Routes c) (shook : (σ.socks c).handshaked = true) :
      Stepped env σ (.heartbeatSock c) (σ.heartbeatSock env c)
  | heartbeatSurr (s : SurrId) (there : s < σ.nextSurr) (open_ : (σ.surrs s).closed = false) :
      Stepped env σ (.heartbeatSurr s) (σ.heartbeatSurr env s)
  | leave (c : SockId) (upgraded : (σ.socks c).upgraded = true) :
      Stepped env σ (.onCloseSock c) (σ.setSock c fun k => { k with closed := true })
  | onCloseSock (c : SockId) (reason : CloseReason) (http : (σ.socks c).upgraded = false)
      (closing : (σ.socks c).closing = some reason) :
      Stepped env σ (.onCloseSock c) (σ.onCloseSock env c reason)
  | onCloseSurr (s : SurrId) (open_ : (σ.surrs s).closed = false)
      (closing : (σ.surrs s).closing ≠ none) :
      Stepped env σ (.onCloseSurr s) (σ.onCloseSurr env s)

theorem step_cases {env : HttpEnv} {σ τ : Http} {l : Label} (stepped : σ.step env l = some τ) :
    Stepped env σ l τ := by
  obtain ⟨-, stepped⟩ := Option.ite_none_left_eq_some.mp stepped
  cases l with
  | tick usec =>
    cases stepped
    exact .tick usec
  | opened =>
    cases stepped
    exact .opened
  | again c =>
    obtain ⟨routes, ⟨⟩⟩ := Option.ite_none_right_eq_some.mp stepped
    exact .again c routes
  | header c req room =>
    obtain ⟨⟨routes, ready, done⟩, ⟨⟩⟩ := Option.ite_none_right_eq_some.mp stepped
    exact .header c req room routes ready done
  | body c body turns =>
    obtain ⟨⟨routes, waits, whole⟩, ⟨⟩⟩ := Option.ite_none_right_eq_some.mp stepped
    exact .body c body turns routes waits whole
  | bodyOverflow c used =>
    obtain ⟨⟨routes, waits, beyond⟩, ⟨⟩⟩ := Option.ite_none_right_eq_some.mp stepped
    exact .bodyOverflow c used routes waits beyond
  | act a =>
    cases stepped
    exact .act a
  | heartbeatSock c =>
    obtain ⟨⟨routes, shook⟩, ⟨⟩⟩ := Option.ite_none_right_eq_some.mp stepped
    exact .heartbeatSock c routes shook
  | heartbeatSurr s =>
    obtain ⟨⟨there, open_⟩, ⟨⟩⟩ := Option.ite_none_right_eq_some.mp stepped
    exact .heartbeatSurr s there open_
  | onCloseSock c =>
    obtain ⟨-, stepped⟩ := Option.ite_none_left_eq_some.mp stepped
    split at stepped
    next => cases stepped
    next reason closing =>
      split at stepped
      next upgraded =>
        cases stepped
        exact .leave c upgraded
      next http =>
        cases stepped
        exact .onCloseSock c reason (Bool.not_eq_true _ ▸ http) closing
  | onCloseSurr s =>
    obtain ⟨open_, stepped⟩ := Option.ite_none_left_eq_some.mp stepped
    obtain ⟨closing, ⟨⟩⟩ := Option.ite_none_right_eq_some.mp stepped
    exact .onCloseSurr s (Bool.not_eq_true _ ▸ open_) (Option.isSome_iff_ne_none.mp closing)

/-- Nobody has connected. -/
def start : Http where
  socks _ := {}
  surrs _ := {}
  nextSock := 0
  nextSurr := 0
  clients _ _ := none
  now := 0
  sent := []
  handled := []
  aborted := false

def system : TransitionSystem Http Label where
  init σ := σ = start
  step := step env

end Http

end QuickIO
