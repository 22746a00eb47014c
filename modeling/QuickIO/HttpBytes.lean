import QuickIO.HttpKept
import QuickIO.Reads

/-!
# Requests in a buffer

`protocol_http_route` on the bytes of a socket. A call takes what is there of
the next request, and a rejected WebSocket upgrade takes all there is.
-/
namespace QuickIO

open Lib

/-- `qev_http_request_parse`: the headers are incomplete, or the first block of
headers was read, up to the address that is returned. -/
abbrev HttpParser := Framer UInt8 HttpRequest Empty

/-- What the block for headers, or the one for a body, used up of the stream. -/
inductive Piece
  | head (bytes : Bytes)
  | body (bytes : Bytes)
deriving DecidableEq, Repr

/-- What a request meets: whether a surrogate can be made, and the handlers. -/
structure Choice where
  room : Bool := true
  turns : List Http.Turn := []
deriving DecidableEq, Repr

/-- A socket that speaks HTTP. `plan` says what its requests meet, one by one. -/
structure HttpSide where
  env : HttpEnv
  parser : HttpParser
  sock : SockId
  plan : Nat → Choice

/-- The sessions, and what was processed of the socket's stream, oldest first. -/
structure HttpSock where
  http : Http
  pieces : List Piece

namespace HttpSide

variable (h : HttpSide)

/-- The choice for the request that is there. -/
def choice (σ : Http) : Choice := h.plan (σ.socks h.sock).requests

/-- The block of `protocol_http_route` for headers. -/
def header (σ : Http) (req : HttpRequest) : Http :=
  σ.routeHeader h.env h.sock req (h.choice σ).room

/-- The block of `protocol_http_route` for a body. -/
def body (σ : Http) (bytes : Bytes) : Http :=
  σ.routeBody h.env h.sock bytes (h.choice σ).turns

/-- What `protocol_http_route` returns, and whether it closed the client. -/
def routed (s : HttpSock) (used : Nat) (status : ProtocolStatus) : HttpRouted HttpSock :=
  .routed s used status (s.http.socks h.sock).closing

/-- The second half of `protocol_http_route`. While the body is routed the byte
behind it is a NUL; it is put back. -/
def routeRest (s : HttpSock) (rbuff : Bytes) (used : Nat) : HttpRouted HttpSock :=
  let bodyLen := (s.http.socks h.sock).bodyLen
  match qevSafeUadd bodyLen used with
  | none => h.routed { s with http := s.http.closeSock h.sock .unknownError } used .fatal
  | some len =>
    if rbuff.length < len then h.routed s used .again
    else
      let bytes := readAt rbuff used bodyLen
      h.routed { http := h.body s.http bytes, pieces := s.pieces ++ [.body bytes] }
        (used + bodyLen) .ok

/-- `protocol_http_route`. An upgrade, also a rejected one, uses up the buffer. -/
def protocolHttpRoute (s : HttpSock) (rbuff : Bytes) (used : Nat) : HttpRouted HttpSock :=
  if (s.http.socks h.sock).bodyLen = 0 then
    match h.parser.next (rbuff.drop used) with
    | .more => h.routed { s with http := s.http.routeBegin h.sock } used .again
    | .bad why => nomatch why
    | .item n req =>
      let key := req.header (str "Sec-WebSocket-Key")
      -- The head is what the parser took, up to `headers.body`.
      let next := if key.isSome then rbuff.length else used + n
      let t : HttpSock := { http := h.header s.http req,
                            pieces := s.pieces ++ [.head (readAt rbuff used (next - used))] }
      match (s.http.headerBlock h.env h.sock req (h.choice s.http).room).2 with
      -- A header that failed is no piece of the stream.
      | .fatal => h.routed { t with pieces := s.pieces } used .fatal
      | .again => .upgraded t
      | .ok => h.routeRest t rbuff next
  -- The rest of a body whose header was read before.
  else h.routeRest { s with http := s.http.routeBegin h.sock } rbuff used

/-- A server whose HTTP is this one. -/
def app {α : Type} (base : App α) : App (α × HttpSock) where
  erange s := base.erange s.1
  evsRoute s ev :=
    let (a, acts, left) := base.evsRoute s.1 ev
    ((a, s.2), acts, left)
  refused s event := (base.refused s.1 event, s.2)
  httpRoute s p used :=
    match h.protocolHttpRoute s.2 p.conn.rbuff used with
    | .routed t used status closes => .routed (s.1, t) used status closes
    | .upgraded t => .upgraded (s.1, t)
  httpHeartbeat s _ := ((s.2.http.heartbeatSock h.env h.sock).socks h.sock).closing

/-- Some time passes, and bytes arrive. -/
def arrive {α : Type} (base : App α) (s : Served (α × HttpSock)) (read : Nat × Bytes) :
    Served (α × HttpSock) :=
  let http := { s.state.2.http with now := s.state.2.http.now + read.1 }
  { s with state := (s.state.1, { s.state.2 with http }) }.read (h.app base) http.now read.2

end HttpSide

/-- A request as its client writes it. -/
structure WireRequest where
  head : Bytes
  req : HttpRequest
  body : Bytes

namespace WireRequest

def bytes (r : WireRequest) : Bytes := r.head ++ r.body

/-- The request asks for a WebSocket. -/
def Upgrades (r : WireRequest) : Prop := (r.req.header (str "Sec-WebSocket-Key")).isSome

instance (r : WireRequest) : Decidable r.Upgrades := by
  unfold Upgrades
  infer_instance

/-- What the block for headers uses up of a request that comes alone. -/
def front (r : WireRequest) : Bytes := if r.Upgrades then r.bytes else r.head

/-- And the block for a body: `body_len` stays 0 for an upgrade. -/
def rest (r : WireRequest) : Bytes := if r.Upgrades then [] else r.body

def pieces (r : WireRequest) : List Piece := [.head r.front, .body r.rest]

theorem front_rest (r : WireRequest) : r.front ++ r.rest = r.bytes := by
  rw [front, rest]
  split
  next => exact List.append_nil r.bytes
  next => rfl

end WireRequest

/-- The length of the body, where `_do_headers_http` takes the headers. -/
def HttpRequest.bodyLength (env : HttpEnv) (req : HttpRequest) : Option Nat :=
  match req.header (str "Content-Length") with
  | some contentLen => env.safeStrtoull contentLen
  | none => if req.method = str "POST" then none else some 0

/-- `_do_headers_websocket` rejects the upgrade. -/
def HttpRequest.Rejected (req : HttpRequest) : Prop :=
  (req.header (str "Upgrade") = none ||
      !((req.header (str "Connection")).any fun k => strcasestr k (str "Upgrade"))) ∨
    (req.header (str "Sec-WebSocket-Protocol") ≠ some (str "quickio") ||
      req.header (str "Sec-WebSocket-Version") ≠ some (str "13"))

/-- A request that leaves a socket open: with a body of the length it says, or
an upgrade that is rejected, with a body or without. -/
structure WireRequest.Plain (h : HttpSide) (r : WireRequest) : Prop where
  parsed : h.parser.next r.head = .item r.head.length r.req
  ok : r.req.ok = true
  keepAlive : QuickIO.Http.keepAlive r.req = true
  length : ¬ r.Upgrades → r.req.bodyLength h.env = some r.body.length
  rejected : r.Upgrades → r.req.Rejected

namespace HttpSide

variable {h : HttpSide} {σ : Http} {r : WireRequest}

theorem doHeadersHttp_ok (env : HttpEnv) (τ : Http) (c : SockId) (req : HttpRequest) (n : Nat)
    (room : Bool) (length : req.bodyLength env = some n) :
    τ.doHeadersHttp env c req room = (τ.openRequest c req n room, .ok) := by
  simp only [HttpRequest.bodyLength] at length
  simp only [Http.doHeadersHttp]
  split
  next contentLen is =>
    rw [is] at length
    simp only [length]
  next none =>
    rw [none] at length
    simp only [] at length
    split at length
    next => cases length
    next notPost =>
      cases length
      rw [if_neg notPost]

theorem doHeadersWebsocket_ok (env : HttpEnv) (τ : Http) (c : SockId) (req : HttpRequest)
    (rejected : req.Rejected) :
    ∃ status, τ.doHeadersWebsocket env c req (req.header (str "Connection")) =
      ((τ.sendError env (some c) status).1, .ok) := by
  simp only [Http.doHeadersWebsocket]
  split
  next => exact ⟨.status426, rfl⟩
  next asked =>
    rw [if_pos (rejected.resolve_left asked)]
    exact ⟨.status400, rfl⟩

/-- What the headers of a request lead to. -/
theorem header_plain (plain : r.Plain h) (lasting : (σ.socks h.sock).Lasting)
    (idle : (σ.socks h.sock).bodyLen = 0) :
    (σ.headerBlock h.env h.sock r.req (h.choice σ).room).2 = .ok ∧
      ((h.header σ r.req).socks h.sock).bodyLen = r.rest.length ∧
      ((h.header σ r.req).socks h.sock).Lasting := by
  have stable := fun τ : Http => Http.Keeps.stable (c := h.sock) (σ := τ) h.env
  have flushed := (stable σ).sendError (some h.sock) .status200
    ((stable σ).routeBegin h.sock (Http.Keeps.refl σ))
  -- the request is entered: from here on the socket owes a response
  have entered : ((σ.requestBegin h.env h.sock r.req).socks h.sock).bodyLen = 0 ∧
      ((σ.requestBegin h.env h.sock r.req).socks h.sock).Lasting := by
    rw [Http.requestBegin, Http.socks_setSock, if_pos rfl]
    exact ⟨flushed.bodyLen.trans idle, (flushed.lasting lasting).1, fun _ => plain.keepAlive⟩
  have block : (σ.headerBlock h.env h.sock r.req (h.choice σ).room).2 = .ok ∧
      (((σ.headerBlock h.env h.sock r.req (h.choice σ).room).1.socks h.sock).bodyLen =
        r.rest.length) ∧
      ((σ.headerBlock h.env h.sock r.req (h.choice σ).room).1.socks h.sock).Lasting := by
    simp only [Http.headerBlock, plain.ok, if_true]
    obtain ⟨empty, lasts⟩ := entered
    generalize σ.requestBegin h.env h.sock r.req = τ at empty lasts ⊢
    cases key : r.req.header (str "Sec-WebSocket-Key") with
    | some _ =>
      have upgrades : r.Upgrades := by simp [WireRequest.Upgrades, key]
      obtain ⟨status, refused⟩ := doHeadersWebsocket_ok h.env τ h.sock r.req
        (plain.rejected upgrades)
      have kept : Http.Keeps h.sock τ (τ.sendError h.env (some h.sock) status).1 :=
        (stable τ).sendError _ _ (Http.Keeps.refl τ)
      simp only [refused, WireRequest.rest, if_pos upgrades]
      exact ⟨trivial, kept.bodyLen.trans empty, kept.lasting lasts⟩
    | none =>
      have http : ¬ r.Upgrades := by simp [WireRequest.Upgrades, key]
      have kept : Http.Keeps h.sock τ ((τ.getSurrogate r.req.url (h.choice σ).room).1.link h.sock
          (τ.getSurrogate r.req.url (h.choice σ).room).2) :=
        (stable τ).link _ _ ((stable τ).getSurrogate _ _ (Http.Keeps.refl τ))
      simp only [doHeadersHttp_ok h.env τ h.sock r.req _ _ (plain.length http), Http.openRequest,
        Http.socks_setSock, if_true, WireRequest.rest, if_neg http]
      exact ⟨trivial, trivial, kept.lasting lasts⟩
  obtain ⟨ok, bodyLen, lasts⟩ := block
  refine ⟨ok, ?_⟩
  simp only [header, Http.routeHeader_eq, ok, Http.socks_setSock, if_true]
  exact ⟨bodyLen, lasts⟩

/-- And its body, when no handler closes the socket. -/
theorem body_plain (bytes : Bytes) (spare : ∀ n, Http.Spare h.sock (h.plan n).turns)
    (lasting : (σ.socks h.sock).Lasting) :
    ((h.body σ bytes).socks h.sock).bodyLen = 0 ∧ ((h.body σ bytes).socks h.sock).Lasting := by
  have stable := Http.Keeps.stable (c := h.sock) (σ := σ) h.env
  have entered := stable.sock h.sock (fun k => { k with inBody := false })
    (fun _ => ⟨rfl, rfl, rfl, rfl, rfl, rfl⟩) (stable.routeBegin h.sock (Http.Keeps.refl σ))
  have others : ∀ turn ∈ (h.choice σ).turns, ∀ c reason,
      .closeSock c reason ∈ turn.acts → c ≠ h.sock := by
    rintro turn member _ reason closes rfl
    exact spare _ turn member reason closes
  have done := stable.doBody (fun _ _ kept => kept.trans (Http.Keeps.same rfl)) h.sock bytes
    (h.choice σ).turns others entered
  simp only [body, Http.routeBody, Http.socks_setSock, if_true]
  exact ⟨trivial, done.lasting lasting⟩

end HttpSide

/-! ### Where the processing stands -/

/-- The bytes of some requests. -/
def stream (rs : List WireRequest) : Bytes := rs.flatMap WireRequest.bytes

/-- Some of the requests are done; the next one may have been begun. -/
structure Progress where
  done : List WireRequest
  begun : Option WireRequest
  rem : List WireRequest

namespace Progress

def all (p : Progress) : List WireRequest := p.done ++ (p.begun.toList ++ p.rem)

/-- The bytes that have not been processed. -/
def unread (p : Progress) : Bytes := p.begun.elim [] WireRequest.rest ++ stream p.rem

def pieces (p : Progress) : List Piece :=
  p.done.flatMap WireRequest.pieces ++ (p.begun.map fun r => .head r.front).toList

/-- A request stays begun only while its body is waited for. -/
def Partial (p : Progress) : Prop := ∀ r, p.begun = some r → r.rest ≠ []

/-- So many bytes are not enough to go on. -/
def Idle (p : Progress) (n : Nat) : Prop :=
  match p.begun, p.rem with
  | some r, _ => n < r.rest.length
  | none, r :: _ => n < r.head.length
  | none, [] => True

end Progress

namespace HttpSide

variable (h : HttpSide)

/-- A request is processed. -/
def serve (σ : Http) (r : WireRequest) : Http := h.body (h.header σ r.req) r.rest

def serves (σ : Http) (rs : List WireRequest) : Http := rs.foldl h.serve σ

/-- The state after the progress that was made from `σ`. -/
def reached (σ : Http) (p : Progress) : Http :=
  match p.begun with
  | none => h.serves σ p.done
  | some r => h.header (h.serves σ p.done) r.req

/-- A socket that is open, and between two requests. -/
def Ready (σ : Http) : Prop := (σ.socks h.sock).Lasting ∧ (σ.socks h.sock).bodyLen = 0

/-- What matters to the socket: not the times, and not whether its first call of
the route function is still to come. -/
def settled (σ : Http) : Http := (σ.routeBegin h.sock).still

/-- The state is the one after `p`. -/
structure Serving (σ : Http) (logged : List Piece) (p : Progress) (s : HttpSock) : Prop where
  http : h.settled s.http = h.settled (h.reached σ p)
  pieces : s.pieces = logged ++ p.pieces

/-- The requests are well formed, and nothing closes the socket meanwhile. -/
structure Accepts (σ : Http) (rs : List WireRequest) : Prop where
  ready : h.Ready σ
  plain : ∀ r ∈ rs, r.Plain h
  spare : ∀ n, Http.Spare h.sock (h.plan n).turns

variable {h}

theorem routeBegin_routeBegin (σ : Http) (c : SockId) :
    (σ.routeBegin c).routeBegin c = σ.routeBegin c := by
  have socks : ((σ.routeBegin c).routeBegin c).socks = (σ.routeBegin c).socks := by
    funext d
    simp only [Http.routeBegin, Http.socks_setSock]
    split <;> rfl
  exact congrArg (fun socks => { σ.routeBegin c with socks }) socks

/-- The time of the first call does not matter. -/
theorem settled_begin (σ : Http) : h.settled (σ.routeBegin h.sock) = h.settled σ := by
  rw [settled, settled, routeBegin_routeBegin]

theorem settled_now (σ : Http) (now : Int) : h.settled { σ with now } = h.settled σ :=
  (Http.still_routeBegin _ _).trans (Http.still_routeBegin σ _).symm

theorem settled_choice (σ : Http) : h.choice (h.settled σ) = h.choice σ := by
  simp [choice, settled, Http.routeBegin, Socket.still]

theorem settled_header (σ : Http) (req : HttpRequest) :
    h.settled (h.header σ req) = (h.header (h.settled σ) req).routeBegin h.sock := by
  have begun : σ.routeHeader h.env h.sock req (h.choice σ).room =
      (σ.routeBegin h.sock).routeHeader h.env h.sock req (h.choice σ).room := by
    simp only [Http.routeHeader, Http.headerBlock, Http.requestBegin, routeBegin_routeBegin]
  rw [header, header, settled_choice, begun, settled, settled, Http.still_routeBegin,
    Http.still_routeHeader]

theorem settled_body (σ : Http) (bytes : Bytes) :
    h.settled (h.body σ bytes) = (h.body (h.settled σ) bytes).routeBegin h.sock := by
  have begun : σ.routeBody h.env h.sock bytes (h.choice σ).turns =
      (σ.routeBegin h.sock).routeBody h.env h.sock bytes (h.choice σ).turns := by
    simp only [Http.routeBody, routeBegin_routeBegin]
  rw [body, body, settled_choice, begun, settled, settled, Http.still_routeBegin,
    Http.still_routeBody]

theorem serves_ready {σ : Http} {rs : List WireRequest} (accepts : h.Accepts σ rs) :
    h.Ready (h.serves σ rs) := by
  induction rs generalizing σ with
  | nil => exact accepts.ready
  | cons r rs ih =>
    obtain ⟨-, -, lasting⟩ := header_plain (accepts.plain r List.mem_cons_self) accepts.ready.1
      accepts.ready.2
    obtain ⟨empty, lasting⟩ := body_plain r.rest accepts.spare lasting
    have rest : h.Accepts (h.serve σ r) rs :=
      ⟨⟨lasting, empty⟩, fun r member => accepts.plain r (List.mem_cons_of_mem _ member),
        accepts.spare⟩
    exact ih rest

theorem accepts_done {σ : Http} {p : Progress} (accepts : h.Accepts σ p.all) :
    h.Accepts σ p.done :=
  ⟨accepts.ready, fun r member => accepts.plain r (List.mem_append_left _ member), accepts.spare⟩

/-- What is known of the socket when a request has been begun. -/
theorem reached_begun {σ : Http} {p : Progress} (accepts : h.Accepts σ p.all) {r : WireRequest}
    (begun : p.begun = some r) :
    ((h.reached σ p).socks h.sock).bodyLen = r.rest.length ∧
      ((h.reached σ p).socks h.sock).Lasting := by
  have member : r ∈ p.all := by simp [Progress.all, begun]
  have ready := serves_ready (accepts_done accepts)
  rw [reached, begun]
  exact (header_plain (accepts.plain r member) ready.1 ready.2).2

theorem reached_between {σ : Http} {p : Progress} (accepts : h.Accepts σ p.all)
    (begun : p.begun = none) : h.Ready (h.reached σ p) := by
  rw [reached, begun]
  exact serves_ready (accepts_done accepts)

/-- States that settle the same have the same length of the body, and the socket
lasts in both. -/
theorem same_sock {σ τ : Http} (same : h.settled σ = h.settled τ) :
    (σ.socks h.sock).bodyLen = (τ.socks h.sock).bodyLen ∧
      ((τ.socks h.sock).Lasting → (σ.socks h.sock).Lasting) := by
  have settles : ∀ υ : Http, (h.settled υ).socks h.sock =
      { υ.socks h.sock with handshaked := true, lastSend := 0 } := by
    intro υ
    simp [settled, Http.routeBegin, Socket.still]
  have sock := congrArg (fun υ => υ.socks h.sock) same
  simp only [settles, Socket.mk.injEq] at sock
  obtain ⟨-, -, -, bodyLen, -, -, keeps, owes, -, -, -, closing, -⟩ := sock
  refine ⟨bodyLen, ?_⟩
  rw [Socket.Lasting, Socket.Lasting, closing, owes, keeps]
  exact id

/-! ### One call of the route function -/

variable {σ : Http} {logged : List Piece} {s : HttpSock} {rbuff future : Bytes} {used : Nat}

theorem routed_open {t : HttpSock} (lasting : (t.http.socks h.sock).Lasting) (used : Nat)
    (status : ProtocolStatus) : h.routed t used status = .routed t used status none := by
  rw [routed, lasting.1]

/-- What stands at the offset is the body. -/
theorem body_here {bytes rest : Bytes} (unread : bytes ++ rest = rbuff.drop used ++ future)
    (whole : bytes.length ≤ (rbuff.drop used).length) :
    readAt rbuff used bytes.length = bytes := by
  have cut := congrArg (List.take bytes.length) unread
  rw [List.take_left, List.take_append_of_le_length whole] at cut
  exact cut.symm

/-- And behind it, the rest. -/
theorem behind_body {bytes rest : Bytes} (unread : bytes ++ rest = rbuff.drop used ++ future)
    (whole : bytes.length ≤ (rbuff.drop used).length) :
    rest = rbuff.drop (used + bytes.length) ++ future := by
  have cut := congrArg (List.drop bytes.length) unread
  rw [List.drop_left, List.drop_append_of_le_length whole, List.drop_drop] at cut
  exact cut

/-- With a request begun: its body is there and is processed, or it is not. -/
theorem rest_served {done rem : List WireRequest} {r : WireRequest}
    (accepts : h.Accepts σ (Progress.all ⟨done, some r, rem⟩))
    (http : h.settled s.http = h.settled (h.reached σ ⟨done, some r, rem⟩))
    (inside : used ≤ rbuff.length)
    (here : r.rest.length ≤ (rbuff.drop used).length →
      readAt rbuff used r.rest.length = r.rest)
    (sized : r.rest.length + used < 2 ^ 64) :
    ((rbuff.drop used).length < r.rest.length ∧
        h.routeRest s rbuff used = .routed s used .again none) ∨
      (r.rest.length ≤ (rbuff.drop used).length ∧
        ∃ t, h.routeRest s rbuff used = .routed t (used + r.rest.length) .ok none ∧
          h.settled t.http = h.settled (h.reached σ ⟨done ++ [r], none, rem⟩) ∧
          t.pieces = s.pieces ++ [.body r.rest]) := by
  -- The head has set `body_len` to the size of this body.
  obtain ⟨bodyLen, lasting⟩ := reached_begun accepts (p := ⟨done, some r, rem⟩) rfl
  obtain ⟨same, lasts⟩ := same_sock http
  have lasting := lasts lasting
  rw [bodyLen] at same
  simp only [routeRest, same, qevSafeUadd, if_pos sized, routed_open lasting]
  rw [List.length_drop]
  -- Either the buffer ends inside the body, or the body is routed whole.
  by_cases short : rbuff.length < r.rest.length + used
  · left
    rw [if_pos short]
    exact ⟨by omega, rfl⟩
  · right
    rw [if_neg short]
    refine ⟨by omega, ⟨h.body s.http r.rest, s.pieces ++ [.body r.rest]⟩, ?_, ?_, rfl⟩
    · rw [here (by rw [List.length_drop]; omega)]
      exact routed_open (body_plain r.rest accepts.spare lasting).2 _ _
    · have served : h.reached σ ⟨done ++ [r], none, rem⟩ =
          h.body (h.reached σ ⟨done, some r, rem⟩) r.rest := by
        simp only [reached, serves, List.foldl_append, List.foldl_cons, List.foldl_nil, serve]
      rw [served, settled_body, settled_body, http]

theorem serving_finished {done rem : List WireRequest} {r : WireRequest} {t : HttpSock}
    (serving : h.Serving σ logged ⟨done, some r, rem⟩ s)
    (http : h.settled t.http = h.settled (h.reached σ ⟨done ++ [r], none, rem⟩))
    (pieces : t.pieces = s.pieces ++ [.body r.rest]) :
    h.Serving σ logged ⟨done ++ [r], none, rem⟩ t where
  http := http
  pieces := by
    rw [pieces, serving.pieces]
    simp [Progress.pieces, WireRequest.pieces]

/-- Between two requests: the next head is there and begun, or it is not. -/
theorem route_between {done rem : List WireRequest} {r : WireRequest}
    (accepts : h.Accepts σ (Progress.all ⟨done, none, r :: rem⟩))
    (serving : h.Serving σ logged ⟨done, none, r :: rem⟩ s)
    (unread : stream (r :: rem) = rbuff.drop used ++ future) :
    ((rbuff.drop used).length < r.head.length ∧
        ∃ t, h.protocolHttpRoute s rbuff used = .routed t used .again none ∧
          h.Serving σ logged ⟨done, none, r :: rem⟩ t) ∨
      (r.head.length ≤ (rbuff.drop used).length ∧
        ∃ t next, next = (if r.Upgrades then rbuff.length else used + r.head.length) ∧
          h.settled t.http = h.settled (h.reached σ ⟨done, some r, rem⟩) ∧
          t.pieces = s.pieces ++ [.head (readAt rbuff used (next - used))] ∧
          h.protocolHttpRoute s rbuff used = h.routeRest t rbuff next) := by
  have plain : r.Plain h := accepts.plain r (by simp [Progress.all])
  obtain ⟨same, lasts⟩ := same_sock serving.http
  have ready := reached_between accepts (p := ⟨done, none, r :: rem⟩) rfl
  have idle := same.trans ready.2
  have lasting := lasts ready.1
  have bytes : r.head ++ (r.body ++ stream rem) = rbuff.drop used ++ future := by
    rw [← unread, ← List.append_assoc]
    rfl
  -- The buffer may end inside the head, and then it is a proper prefix of it.
  by_cases short : (rbuff.drop used).length < r.head.length
  · left
    obtain ⟨missing, head⟩ : ∃ missing, r.head = rbuff.drop used ++ missing := by
      have front : rbuff.drop used <+: r.head :=
        List.prefix_of_prefix_length_le ⟨future, bytes.symm⟩ ⟨_, rfl⟩ short.le
      exact ⟨_, front.choose_spec.symm⟩
    have none : missing ≠ [] := by
      rintro rfl
      rw [head, List.append_nil] at short
      exact absurd short (lt_irrefl _)
    have more : h.parser.next (rbuff.drop used) = .more :=
      h.parser.next_short (head ▸ plain.parsed) none
    have begun : Http.Keeps h.sock s.http (s.http.routeBegin h.sock) :=
      Http.Keeps.write h.sock _ fun _ => ⟨rfl, id⟩
    refine ⟨short, ⟨s.http.routeBegin h.sock, s.pieces⟩, ?_, ?_, serving.pieces⟩
    · simp only [protocolHttpRoute, idle, if_true, more]
      exact routed_open (begun.lasting lasting) _ _
    · rw [settled_begin, serving.http]
  · right
    have whole : r.head.length ≤ (rbuff.drop used).length := Nat.le_of_not_lt short
    -- The whole head is there, with some of what follows.
    obtain ⟨rest, here⟩ : ∃ rest, rbuff.drop used = r.head ++ rest := by
      have front : r.head <+: rbuff.drop used :=
        List.prefix_of_prefix_length_le ⟨_, rfl⟩ ⟨future, bytes.symm⟩ whole
      exact ⟨_, front.choose_spec.symm⟩
    have item : h.parser.next (rbuff.drop used) = .item r.head.length r.req := by
      rw [here]
      exact h.parser.item_append plain.parsed rest
    refine ⟨whole, ⟨h.header s.http r.req, s.pieces ++ [.head _]⟩, _, rfl, ?_, rfl, ?_⟩
    · rw [settled_header, serving.http, ← settled_header]
      rfl
    · have ok := (header_plain plain lasting idle).1
      simp only [protocolHttpRoute, idle, if_true, item, ok, WireRequest.Upgrades]

/-- With a body to come, no headers are looked for. -/
theorem route_within {done rem : List WireRequest} {r : WireRequest}
    (accepts : h.Accepts σ (Progress.all ⟨done, some r, rem⟩))
    (serving : h.Serving σ logged ⟨done, some r, rem⟩ s) (nonempty : r.rest ≠ []) (rbuff : Bytes)
    (used : Nat) :
    ∃ t, h.Serving σ logged ⟨done, some r, rem⟩ t ∧
      h.protocolHttpRoute s rbuff used = h.routeRest t rbuff used := by
  have bodyLen := (same_sock serving.http).1.trans
    (reached_begun accepts (p := ⟨done, some r, rem⟩) rfl).1
  have awaited : ¬ (s.http.socks h.sock).bodyLen = 0 := by
    rw [bodyLen]
    exact fun none => nonempty (List.length_eq_zero_iff.mp none)
  refine ⟨⟨s.http.routeBegin h.sock, s.pieces⟩, ⟨?_, serving.pieces⟩, ?_⟩
  · rw [settled_begin, serving.http]
  · rw [protocolHttpRoute, if_neg awaited]

end HttpSide

/-! ### Where upgrades end -/

/-- So many bytes follow the header of one of the upgrades, and so many the upgrade. -/
def Ends (rs : List WireRequest) (m n : Nat) : Prop :=
  ∃ before r after, rs = before ++ r :: after ∧ r.Upgrades ∧
    r.body.length + (stream after).length = m ∧ (stream after).length = n

theorem ends_nil (m n : Nat) : ¬ Ends [] m n := by
  rintro ⟨before, r, after, split, -⟩
  simp at split

theorem ends_cons (r : WireRequest) (rs : List WireRequest) (m n : Nat) :
    Ends (r :: rs) m n ↔
      (r.Upgrades ∧ r.body.length + (stream rs).length = m ∧ (stream rs).length = n) ∨
        Ends rs m n := by
  constructor
  · rintro ⟨before, u, after, split, upgrades, behind⟩
    cases before with
    | nil =>
      obtain ⟨rfl, rfl⟩ := List.cons.inj split
      exact .inl ⟨upgrades, behind⟩
    | cons v before => exact .inr ⟨before, u, after, (List.cons.inj split).2, upgrades, behind⟩
  · rintro (⟨upgrades, behind⟩ | ⟨before, u, after, rfl, upgrades, behind⟩)
    · exact ⟨[], r, rs, rfl, upgrades, behind⟩
    · exact ⟨r :: before, u, after, rfl, upgrades, behind⟩

theorem stream_cons (r : WireRequest) (rs : List WireRequest) :
    (stream (r :: rs)).length = r.head.length + r.body.length + (stream rs).length := by
  rw [stream, List.flatMap_cons, WireRequest.bytes, List.length_append, List.length_append]
  rfl

theorem ends_le {rs : List WireRequest} {m n : Nat} (ends : Ends rs m n) :
    n ≤ m ∧ m ≤ (stream rs).length := by
  induction rs with
  | nil => exact absurd ends (ends_nil m n)
  | cons r rs ih =>
    rw [stream_cons]
    rcases (ends_cons r rs m n).mp ends with ⟨-, header, behind⟩ | later
    · omega
    · have rest := ih later
      omega

/-- The processing goes on from `p` to `q`, over no upgrade but one that is
followed by `n` bytes. -/
structure Advances (n : Nat) (p q : Progress) : Prop where
  all : q.all = p.all
  passed : ∀ l m, Ends p.rem l m → Ends q.rem l m ∨ m = n
  kept : ∀ l m, Ends q.rem l m → Ends p.rem l m

namespace Advances

variable {n : Nat} {p q r : Progress}

theorem refl (p : Progress) : Advances n p p := ⟨rfl, fun _ _ => .inl, fun _ _ => id⟩

theorem trans (first : Advances n p q) (second : Advances n q r) : Advances n p r where
  all := second.all.trans first.all
  passed l m ends := by
    rcases first.passed l m ends with still | here
    · exact second.passed l m still
    · exact .inr here
  kept l m ends := first.kept l m (second.kept l m ends)

/-- The body of the request that was begun is processed. -/
theorem finish (done rem : List WireRequest) (r : WireRequest) :
    Advances n ⟨done, some r, rem⟩ ⟨done ++ [r], none, rem⟩ :=
  ⟨by simp [Progress.all], fun _ _ => .inl, fun _ _ => id⟩

/-- The head of the next request is processed. -/
theorem begin (done rem : List WireRequest) (r : WireRequest)
    (upgrade : r.Upgrades → (stream rem).length = n) :
    Advances n ⟨done, none, r :: rem⟩ ⟨done, some r, rem⟩ where
  all := by simp [Progress.all]
  passed l m ends := by
    rcases (ends_cons r rem l m).mp ends with ⟨upgrades, -, behind⟩ | later
    · exact .inr (behind.symm.trans (upgrade upgrades))
    · exact .inl later
  kept l m ends := (ends_cons r rem l m).mpr (.inr ends)

end Advances

/-- What was processed and what was not is all there is. -/
theorem Progress.all_unread (p : Progress) :
    p.unread.length ≤ (stream p.all).length := by
  obtain ⟨done, begun, rem⟩ := p
  simp only [Progress.unread, Progress.all, stream, List.flatMap_append, List.length_append]
  cases begun with
  | none => simp
  | some r =>
    have whole := congrArg List.length r.front_rest
    rw [List.length_append] at whole
    simp only [Option.elim, Option.toList_some, List.flatMap_cons, List.flatMap_nil,
      List.append_nil]
    omega

namespace HttpSide

variable {h : HttpSide} {σ : Http} {logged : List Piece} {rbuff future : Bytes} {used : Nat}

/-- What was used up is not what the requests, one by one, use up. -/
def Astray (logged : List Piece) (requests : List WireRequest) (t : HttpSock) : Prop :=
  ¬ t.pieces <+: logged ++ requests.flatMap WireRequest.pieces

/-- What a call of the route function comes to, with `waiting` at the offset: it
waits for more; it has taken a request, or the rest of one, and there is more; or
an upgrade, whose header is there, has taken less than itself or more. -/
inductive Call (h : HttpSide) (σ : Http) (logged : List Piece) (future : Bytes) (p : Progress)
    (rbuff : Bytes) (used : Nat) : HttpRouted HttpSock → Prop
  | again {t : HttpSock} {q : Progress} (next : Nat) (serving : h.Serving σ logged q t)
      (advances : Advances future.length p q) (unread : q.unread = rbuff.drop next ++ future)
      (idle : q.Idle (rbuff.drop next).length) (inside : next ≤ rbuff.length) :
      Call h σ logged future p rbuff used (.routed t next .again none)
  | taken {t : HttpSock} {q : Progress} (next : Nat) (serving : h.Serving σ logged q t)
      (advances : Advances future.length p q) (unread : q.unread = rbuff.drop next ++ future)
      (between : q.begun = none) (further : used < next) (inside : next ≤ rbuff.length) :
      Call h σ logged future p rbuff used (.routed t next .ok none)
  | lost {t : HttpSock} (astray : Astray logged p.all t) (m n : Nat) (ends : Ends p.rem m n)
      (begun : future.length ≤ m) (apart : n ≠ future.length) :
      Call h σ logged future p rbuff used (.routed t rbuff.length .ok none)

theorem call_within {done rem : List WireRequest} {r : WireRequest} {s : HttpSock}
    (accepts : h.Accepts σ (Progress.all ⟨done, some r, rem⟩))
    (serving : h.Serving σ logged ⟨done, some r, rem⟩ s) (inside : used ≤ rbuff.length)
    (nonempty : r.rest ≠ []) (unread : r.rest ++ stream rem = rbuff.drop used ++ future)
    (sized : r.rest.length + used < 2 ^ 64) :
    Call h σ logged future ⟨done, some r, rem⟩ rbuff used (h.protocolHttpRoute s rbuff used) := by
  obtain ⟨t, serving, call⟩ := route_within accepts serving nonempty rbuff used
  have some_body : 0 < r.rest.length := List.length_pos_iff.mpr nonempty
  rw [call]
  rcases rest_served accepts serving.http inside (body_here unread) sized with
    ⟨short, result⟩ | ⟨whole, u, result, http, pieces⟩
  · rw [result]
    exact .again used serving (Advances.refl _) unread short inside
  · rw [result]
    rw [List.length_drop] at whole
    exact .taken _ (serving_finished serving http pieces) (Advances.finish done rem r)
      (behind_body unread (by rw [List.length_drop]; exact whole)) rfl (by omega) (by omega)

/-- A request that is no upgrade, with its head there. -/
theorem call_request {done rem : List WireRequest} {r : WireRequest} {t : HttpSock}
    (accepts : h.Accepts σ (Progress.all ⟨done, none, r :: rem⟩)) (http : ¬ r.Upgrades)
    (served : h.Serving σ logged ⟨done, some r, rem⟩ t)
    (room : used + r.head.length ≤ rbuff.length) (head : 0 < r.head.length)
    (behind : r.body ++ stream rem = rbuff.drop (used + r.head.length) ++ future)
    (sized : r.body.length + (used + r.head.length) < 2 ^ 64) :
    Call h σ logged future ⟨done, none, r :: rem⟩ rbuff used
      (h.routeRest t rbuff (used + r.head.length)) := by
  have begun : h.Accepts σ (Progress.all ⟨done, some r, rem⟩) := by
    simpa [Progress.all] using accepts
  have advances : Advances future.length ⟨done, none, r :: rem⟩ ⟨done, some r, rem⟩ :=
    Advances.begin done rem r fun upgrades => absurd upgrades http
  have rest : r.rest = r.body := if_neg http
  rw [← rest] at behind sized
  rcases rest_served begun served.http room (body_here behind) sized with
    ⟨short, result⟩ | ⟨there, u, result, settles, pieces⟩
  · rw [result]
    exact .again _ served advances behind short room
  · rw [result]
    rw [List.length_drop] at there
    exact .taken _ (serving_finished served settles pieces)
      (advances.trans (Advances.finish _ rem r))
      (behind_body behind (by rw [List.length_drop]; exact there)) rfl (by omega) (by omega)

/-- A rejected upgrade, which takes whatever is there. -/
theorem call_upgrade {done rem : List WireRequest} {r : WireRequest} {s t : HttpSock}
    (accepts : h.Accepts σ (Progress.all ⟨done, none, r :: rem⟩)) (upgrades : r.Upgrades)
    (serving : h.Serving σ logged ⟨done, none, r :: rem⟩ s)
    (http : h.settled t.http = h.settled (h.reached σ ⟨done, some r, rem⟩))
    (pieces : t.pieces = s.pieces ++ [.head (readAt rbuff used (rbuff.length - used))])
    (bytes : r.head ++ (r.body ++ stream rem) = rbuff.drop used ++ future)
    (whole : r.head.length ≤ (rbuff.drop used).length) (head : 0 < r.head.length)
    (sized : rbuff.length < 2 ^ 64) :
    Call h σ logged future ⟨done, none, r :: rem⟩ rbuff used (h.routeRest t rbuff rbuff.length) := by
  have begun : h.Accepts σ (Progress.all ⟨done, some r, rem⟩) := by
    simpa [Progress.all] using accepts
  have rest : r.rest = [] := if_pos upgrades
  have front : r.front = r.head ++ r.body := if_pos upgrades
  have size := congrArg List.length bytes
  simp only [List.length_append, List.length_drop] at size whole
  have all : readAt rbuff used (rbuff.length - used) = rbuff.drop used := by
    rw [readAt, ← List.length_drop, List.take_length]
  rw [all] at pieces
  rcases rest_served begun http (le_refl rbuff.length) (fun _ => by rw [rest]; rfl)
      (by rw [rest, List.length_nil]; omega) with ⟨short, -⟩ | ⟨-, u, result, settles, finished⟩
  · rw [rest, List.length_nil] at short
    omega
  rw [rest, List.length_nil, Nat.add_zero] at result
  rw [result]
  by_cases last : rbuff.length = used + (r.head ++ r.body).length
  -- the read ends with the upgrade
  · rw [List.length_append] at last
    rw [← List.append_assoc] at bytes
    obtain ⟨same, behind⟩ := List.append_inj bytes (by
      rw [List.length_append, List.length_drop]
      omega)
    have served : h.Serving σ logged ⟨done, some r, rem⟩ t := by
      refine ⟨http, ?_⟩
      rw [pieces, serving.pieces, ← same, ← front]
      simp [Progress.pieces]
    have advances : Advances future.length ⟨done, none, r :: rem⟩ ⟨done, some r, rem⟩ :=
      Advances.begin done rem r fun _ => by rw [behind]
    refine .taken _ (serving_finished served settles finished)
      (advances.trans (Advances.finish _ rem r)) ?_ rfl (by omega) (le_refl _)
    rw [List.drop_length]
    exact behind
  · rw [List.length_append] at last
    refine .lost ?_ _ _ ((ends_cons r rem _ _).mpr (.inl ⟨upgrades, rfl, rfl⟩)) (by omega)
      (by omega)
    -- the piece that was used up is not the one of this request
    intro front_of
    rw [finished, pieces, serving.pieces] at front_of
    simp only [Progress.pieces, Progress.all, Option.map_none, Option.toList_none, List.append_nil,
      List.nil_append, List.flatMap_append, List.flatMap_cons, WireRequest.pieces,
      List.append_assoc, List.prefix_append_right_inj, List.cons_append,
      List.cons_prefix_cons] at front_of
    have same := congrArg List.length (Piece.head.inj front_of.1)
    rw [front, List.length_drop, List.length_append] at same
    omega

theorem call_between {done rem : List WireRequest} {s : HttpSock}
    (accepts : h.Accepts σ (Progress.all ⟨done, none, rem⟩))
    (serving : h.Serving σ logged ⟨done, none, rem⟩ s) (inside : used ≤ rbuff.length)
    (unread : stream rem = rbuff.drop used ++ future)
    (sized : used + (stream rem).length < 2 ^ 64) :
    Call h σ logged future ⟨done, none, rem⟩ rbuff used (h.protocolHttpRoute s rbuff used) := by
  cases rem with
  | nil =>
    -- nothing is left to be read
    have empty : rbuff.drop used = [] := (List.append_eq_nil_iff.mp unread.symm).1
    have ready := reached_between accepts (p := ⟨done, none, []⟩) rfl
    obtain ⟨same, lasts⟩ := same_sock serving.http
    have begun : Http.Keeps h.sock s.http (s.http.routeBegin h.sock) :=
      Http.Keeps.write h.sock _ fun _ => ⟨rfl, id⟩
    have more : h.parser.next [] = .more := h.parser.next_nil
    have result : h.protocolHttpRoute s rbuff used =
        .routed ⟨s.http.routeBegin h.sock, s.pieces⟩ used .again none := by
      simp only [protocolHttpRoute, same.trans ready.2, if_true, empty, more]
      exact routed_open (begun.lasting (lasts ready.1)) _ _
    rw [result]
    refine .again used ⟨?_, serving.pieces⟩ (Advances.refl _) unread trivial inside
    rw [settled_begin, serving.http]
  | cons r rem =>
    have plain : r.Plain h := accepts.plain r (by simp [Progress.all])
    have head := (h.parser.size plain.parsed).1
    rw [stream_cons] at sized
    have bytes : r.head ++ (r.body ++ stream rem) = rbuff.drop used ++ future := by
      rw [← unread, ← List.append_assoc]
      rfl
    have size := congrArg List.length bytes
    simp only [List.length_append, List.length_drop] at size
    rcases route_between accepts serving unread with
      ⟨short, t, result, waits⟩ | ⟨whole, t, next, start, http, pieces, result⟩
    · rw [result]
      exact .again used waits (Advances.refl _) unread short inside
    · rw [result, start]
      have there := whole
      rw [List.length_drop] at there
      by_cases upgrades : r.Upgrades
      · rw [if_pos upgrades] at start ⊢
        rw [start] at pieces
        exact call_upgrade accepts upgrades serving http pieces bytes whole head (by omega)
      · rw [if_neg upgrades] at start ⊢
        rw [start, Nat.add_sub_cancel_left, body_here bytes whole] at pieces
        refine call_request accepts upgrades ⟨http, ?_⟩ (by omega) head (behind_body bytes whole)
          (by omega)
        rw [pieces, serving.pieces, show r.head = r.front from (if_neg upgrades).symm]
        simp [Progress.pieces]

theorem call_served {p : Progress} {s : HttpSock} (accepts : h.Accepts σ p.all)
    (serving : h.Serving σ logged p s) (inside : used ≤ rbuff.length) (partially : p.Partial)
    (unread : p.unread = rbuff.drop used ++ future) (sized : rbuff.length + future.length < 2 ^ 64) :
    Call h σ logged future p rbuff used (h.protocolHttpRoute s rbuff used) := by
  have size := congrArg List.length unread
  obtain ⟨done, begun, rem⟩ := p
  cases begun with
  | none =>
    simp only [Progress.unread, Option.elim, List.nil_append, List.length_append,
      List.length_drop] at size unread
    exact call_between accepts serving inside unread (by omega)
  | some r =>
    simp only [Progress.unread, Option.elim, List.length_append, List.length_drop] at size unread
    exact call_within accepts serving inside (partially r rfl) unread (by omega)

theorem idle_empty {p : Progress} (accepts : h.Accepts σ p.all) (between : p.begun = none) :
    p.Idle 0 := by
  obtain ⟨done, begun, rem⟩ := p
  cases between
  cases rem with
  | nil => trivial
  | cons r rem =>
    have plain : r.Plain h := accepts.plain r (by simp [Progress.all])
    exact (h.parser.size plain.parsed).1

theorem idle_partial {p : Progress} {n : Nat} (idle : p.Idle n) : p.Partial := by
  obtain ⟨done, begun, rem⟩ := p
  rintro r rfl empty
  have inside : n < r.rest.length := idle
  rw [empty] at inside
  exact absurd inside (Nat.not_lt_zero n)

end HttpSide

end QuickIO
