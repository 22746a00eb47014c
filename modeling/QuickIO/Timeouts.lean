import QuickIO.Heartbeats
import QuickIO.RouteBounds

/-!
# The timeout of a client

A client has one timeout. It is set when the client connects and when a message it has
begun is not all there, and cleared when it has shaken hands and when a message is
done. So it is set while the client owes something, and only then.
-/
namespace QuickIO

open Lib

/-! ### Bodies that are waited for -/

namespace Http

/-- The socket whose bytes the step hands to `protocol_http_route`. -/
def Label.routes : Label → Option SockId
  | .again c | .header c _ _ | .body c _ _ | .bodyOverflow c _ => some c
  | _ => none

section Bodies

variable {env : HttpEnv} {σ τ : Http} {c d : SockId} {n : Nat}

/-- The socket waits for a body of this length. -/
def Expects (c : SockId) (n : Nat) (σ : Http) : Prop := (σ.socks c).bodyLen = n

theorem Expects.setSock (expects : Expects c n σ) (d : SockId) (f : Socket → Socket)
    (kept : c = d → ∀ k, (f k).bodyLen = k.bodyLen) : Expects c n (σ.setSock d f) := by
  rw [Expects, socks_setSock]
  split
  next here =>
    subst here
    exact (kept rfl _).trans expects
  next => exact expects

/-- Nothing but its own requests changes the length. -/
theorem Expects.stable (env : HttpEnv) (c : SockId) (n : Nat) :
    Stable env (fun _ => True) (fun _ => True) (Expects c n) where
  respond d resp _ expects := (Keeps.sendResponse (some d) resp).bodyLen.trans expects
  sock d f aside expects := expects.setSock d f fun _ k => (aside k).2.2.2.1
  surr _ _ _ expects := expects
  give _ _ expects := expects
  keep _ _ expects := expects
  flush _ expects := expects
  created _ expects := expects
  close d reason _ expects :=
    expects.setSock d (fun k => { k with closing := k.closing.or (some reason) }) fun _ _ => rfl
  aborts _ expects := expects
  clients _ expects := expects
  held _ _ := trivial
  status _ := trivial
  iframe := trivial
  frame _ := trivial

theorem Expects.openRequest (env : HttpEnv) (other : c ≠ d) (req : HttpRequest) (bodyLen : Nat)
    (room : Bool) (expects : Expects c n σ) : Expects c n (σ.openRequest d req bodyLen room) := by
  have stable := Expects.stable env c n
  have linked := stable.link d (σ.getSurrogate req.url room).2
    (stable.getSurrogate req.url room expects)
  simp only [Http.openRequest]
  exact linked.setSock d _ fun here => absurd here other

theorem Expects.headerBlock (other : c ≠ d) (req : HttpRequest) (room : Bool)
    (expects : Expects c n σ) : Expects c n (σ.headerBlock env d req room).1 := by
  have stable := Expects.stable env c n
  have begun : Expects c n (σ.requestBegin env d req) := by
    have flushed := stable.sendError (some d) .status200 (stable.routeBegin d expects)
    simp only [Http.requestBegin]
    apply flushed.setSock
    exact fun _ _ => rfl
  rcases σ.headerBlock_cases env d req room with upgrade | plain | failed
  · rw [upgrade, doHeadersWebsocket]
    split_ifs
    · exact stable.sendError (some d) .status426 begun
    · exact stable.sendError (some d) .status400 begun
    · exact begun.setSock d (fun k => { k with upgraded := true, handshaked := false })
        fun _ _ => rfl
  · rw [plain]
    simp only [doHeadersHttp]
    split
    next =>
      split
      next => exact begun
      next length _ => exact begun.openRequest env other req length room
    next =>
      split
      next => exact stable.close d .lengthRequired trivial begun
      next => exact begun.openRequest env other req 0 room
  · rw [failed]
    exact begun

theorem Expects.routeHeader (other : c ≠ d) (req : HttpRequest) (room : Bool)
    (expects : Expects c n σ) : Expects c n (σ.routeHeader env d req room) := by
  have block := @Expects.headerBlock env σ c d n other req room expects
  rw [routeHeader_eq]
  split
  next =>
    apply block.setSock
    exact fun _ _ => rfl
  next => exact block
  next => exact (Expects.stable env c n).close d .badRequest trivial block

theorem Expects.routeBody (other : c ≠ d) (body : Bytes) (turns : List Turn)
    (expects : Expects c n σ) : Expects c n (σ.routeBody env d body turns) := by
  have stable := Expects.stable env c n
  have begun := (stable.routeBegin d expects).setSock d (fun k => { k with inBody := false })
    fun _ _ => rfl
  have done := stable.doBody (fun _ _ expects => expects) d body turns (fun _ _ _ _ _ => trivial) begun
  simp only [Http.routeBody]
  exact done.setSock d _ fun here => absurd here other

theorem Expects.onCloseSock (reason : CloseReason) (expects : Expects c n σ) :
    Expects c n (σ.onCloseSock env d reason) := by
  have stable := Expects.stable env c n
  have unlinked := expects.setSock d (fun k => { k with client := none, closed := true })
    fun _ _ => rfl
  obtain ⟨υ, answer, closed⟩ := onCloseSock_cases env σ d reason
  have told : Expects c n υ := by
    obtain rfl | ⟨status, rfl⟩ := answer
    · exact unlinked
    · exact stable.sendError (some d) status unlinked
  obtain same | ⟨s, same⟩ := closed
  · rw [same]
    exact told
  · rw [same]
    exact stable.surr s _ (fun _ => ⟨rfl, rfl⟩) (stable.closeSurr s .httpDone told)

/-- What is done for other sockets leaves the length alone. -/
theorem Expects.step {l : Label} (expects : Expects c n σ) (stepped : σ.step env l = some τ)
    (other : l.routes ≠ some c) : Expects c n τ := by
  have stable := Expects.stable env c n
  have apart : ∀ d, l.routes = some d → c ≠ d := by
    rintro d routes rfl
    exact other routes
  cases step_cases stepped with
  | tick usec => exact expects
  | opened => exact expects
  | again d routes => exact stable.routeBegin d expects
  | header d req room routes ready done => exact expects.routeHeader (apart d rfl) req room
  | body d body turns routes waits whole => exact expects.routeBody (apart d rfl) body turns
  | bodyOverflow d used routes waits beyond =>
    exact stable.close d .unknownError trivial (stable.routeBegin d expects)
  | act a => exact stable.act a (fun _ _ _ => trivial) expects
  | heartbeatSock d routes shook => exact stable.heartbeatSock d trivial expects
  | heartbeatSurr s there open_ => exact stable.heartbeatSurr s expects
  | leave d upgraded => exact expects.setSock d (fun k => { k with closed := true }) fun _ _ => rfl
  | onCloseSock d reason http closing => exact expects.onCloseSock reason
  | onCloseSurr s open_ closing => exact stable.onCloseSurr s expects

end Bodies

end Http

/-! ### The timeout -/

/-- A client with its timeout. -/
structure Timed (α : Type) where
  served : Served α
  /-- `client->timeout` is set -/
  timeout : Bool := false
  /-- `qev_on_close` has run -/
  closed : Bool := false

namespace Timed

section Reading

variable {α : Type} (app : App α) (now : Int) (t : Timed α)

def setPeer (peer : Peer) : Timed α := { t with served := { t.served with peer } }

/-- `_set_handshaked` -/
def setHandshaked : Timed α :=
  { t.setPeer (t.served.peer.setHandshaked now) with timeout := false }

/-- `_handshake` -/
def handshake (prot : Prot) : Timed α :=
  let (p, status) := t.served.peer.protHandshake prot
  let p := p.record (.handshake prot status)
  match status with
  | .ok => (t.setPeer p).setHandshaked now
  | .again => t.setPeer p
  | .fatal => t.setPeer (p.qevClose .notSupported)

/-- The loop of `_route`. -/
def routeLoop (app : App α) (now : Int) : Nat → Timed α → Nat → Timed α
  | 0, t, _ => t
  | fuel + 1, t, used =>
    match t.served.protRoute app now used with
    | (s, used, .ok) =>
      let t := { t with
        served := { s with peer := { s.peer with lastRecv := now } }
        timeout := false }
      if used < s.peer.conn.rbuff.length then routeLoop app now fuel t used
      else { t with served := t.served.erase used }
    | (s, used, .again) => { t with served := s.erase used, timeout := true }
    | (s, used, .fatal) =>
      { t with served := { s with peer := s.peer.qevClose .unknownError }.erase used }

/-- `_route` -/
def route : Timed α := t.routeLoop app now (t.served.peer.conn.rbuff.length + 1) 0

/-- The end of `protocols_route`, with the protocol known. -/
def shakeOrRoute (prot : Prot) : Timed α :=
  if t.served.peer.handshaked then t.route app now
  else
    match prot with
    | .http => (t.setHandshaked now).route app now
    | prot => t.handshake now prot

/-- `protocols_route` -/
def protocolsRoute : Timed α :=
  let t := t.setPeer { t.served.peer with lastRecv := now }
  match t.served.peer.prot with
  | some prot => t.shakeOrRoute app now prot
  | none =>
    let t := t.setPeer t.served.peer.findHandler
    match t.served.peer.prot with
    | none => t
    | some prot => t.shakeOrRoute app now prot

/-- `qev_on_read` -/
def qevOnRead (bytes : Bytes) : Timed α :=
  let p := t.served.peer
  if p.conn.closing.isSome then t
  else
    (t.setPeer { p with conn := { p.conn with rbuff := p.conn.rbuff ++ bytes } }).protocolsRoute
      app now

end Reading

/-! ### What a read does to it -/

section Reads

variable {α : Type} {app : App α} {now : Int} {t : Timed α}

theorem handshake_served (prot : Prot) :
    (t.handshake now prot).served = { t.served with peer := t.served.peer.handshake now prot } := by
  simp only [handshake, Peer.handshake]
  generalize t.served.peer.protHandshake prot = result
  obtain ⟨p, status⟩ := result
  cases status with
  | ok => rfl
  | again => rfl
  | fatal => rfl

theorem routeLoop_served (fuel used : Nat) :
    (t.routeLoop app now fuel used).served = t.served.routeLoop app now fuel used := by
  induction fuel generalizing t used with
  | zero => rfl
  | succ fuel ih =>
    simp only [routeLoop, Served.routeLoop]
    generalize t.served.protRoute app now used = result
    obtain ⟨s, next, status⟩ := result
    cases status with
    | ok =>
      simp only []
      split
      next => exact ih next
      next => rfl
    | again => rfl
    | fatal => rfl

theorem shakeOrRoute_served (prot : Prot) :
    (t.shakeOrRoute app now prot).served = t.served.shakeOrRoute app now prot := by
  simp only [shakeOrRoute, Served.shakeOrRoute]
  split
  next => exact routeLoop_served _ 0
  next =>
    cases prot with
    | http => exact routeLoop_served _ 0
    | flash => exact handshake_served .flash
    | raw => exact handshake_served .raw
    | rfc6455 => exact handshake_served .rfc6455

theorem closed_routeLoop (fuel used : Nat) :
    (t.routeLoop app now fuel used).closed = t.closed := by
  induction fuel generalizing t used with
  | zero => rfl
  | succ fuel ih =>
    simp only [routeLoop]
    split
    next =>
      split
      next => exact ih _
      next => rfl
    next => rfl
    next => rfl

theorem closed_shakeOrRoute (prot : Prot) :
    (t.shakeOrRoute app now prot).closed = t.closed := by
  have shook : ∀ prot, (t.handshake now prot).closed = t.closed := by
    intro prot
    simp only [handshake]
    split
    next => rfl
    next => rfl
    next => rfl
  simp only [shakeOrRoute]
  split
  next => exact closed_routeLoop _ 0
  next =>
    cases prot with
    | http => exact closed_routeLoop _ 0
    | flash => exact shook .flash
    | raw => exact shook .raw
    | rfc6455 => exact shook .rfc6455

theorem closed_qevOnRead (bytes : Bytes) : (t.qevOnRead app now bytes).closed = t.closed := by
  simp only [qevOnRead]
  split
  next => rfl
  next =>
    simp only [protocolsRoute]
    split
    next prot _ => exact closed_shakeOrRoute prot
    next =>
      split
      next => rfl
      next prot _ => exact closed_shakeOrRoute prot

/-- The timeout changes nothing else. -/
theorem qevOnRead_served (bytes : Bytes) :
    (t.qevOnRead app now bytes).served = t.served.read app now bytes := by
  simp only [qevOnRead, Served.read]
  split
  next => rfl
  next =>
    simp only [protocolsRoute, Served.protocolsRoute, setPeer]
    cases t.served.peer.prot with
    | some prot => exact shakeOrRoute_served prot
    | none =>
      simp only []
      generalize Peer.findHandler _ = found
      cases found.prot with
      | none => rfl
      | some prot => exact shakeOrRoute_served prot

end Reads

end Timed

/-! ### What a client owes -/

namespace Served

section Owing

variable {α : Type} {h : HttpSide} {base : App α} {s : Served (α × HttpSock)}

/-- Something is still to come from the client: its handshake, the rest of a message, or
the body of a request. -/
def Owes (h : HttpSide) (s : Served (α × HttpSock)) : Prop :=
  s.peer.handshaked = false ∨ s.peer.conn.rbuff ≠ [] ∨
    s.peer.prot = some .http ∧ (s.state.2.http.socks h.sock).bodyLen ≠ 0

instance (h : HttpSide) (s : Served (α × HttpSock)) : Decidable (s.Owes h) := by
  unfold Owes
  infer_instance

/-- A client is asked for nothing by a call that returns `PROT_OK`, and owes something
after one that returns `PROT_AGAIN`. -/
structure Settles (h : HttpSide) (r : Served (α × HttpSock) × Nat × ProtocolStatus) : Prop where
  ready : r.2.2 = .ok → r.1.peer.handshaked = true
  done : r.2.2 = .ok → r.1.peer.prot = some .http →
    (r.1.state.2.http.socks h.sock).bodyLen = 0
  owes : r.2.2 = .again → (r.1.erase r.2.1).Owes h

theorem rawHandle_again (app : App α) (state : α) (event : Bytes) :
    (app.rawHandle state event).status ≠ .again := by
  simp only [App.rawHandle]
  split
  next => exact fun absurd_ => ProtocolStatus.noConfusion absurd_
  next => exact fun absurd_ => ProtocolStatus.noConfusion absurd_

/-- Bytes that were read and not used up are owed the rest of their message. -/
theorem owes_erase {used : Nat} (left : used < s.peer.conn.rbuff.length) :
    (s.erase used).Owes h := by
  right
  left
  intro none_
  have empty : s.peer.conn.rbuff.drop used = [] := none_
  rw [List.drop_eq_nil_iff] at empty
  exact absurd left (Nat.not_lt.mpr empty)

theorem routes_settles {prot : Prot} {F : EventFramer}
    {routeFn : RawHandle → Conn → Nat → Routed} (routes : Routes (h.app base) prot F routeFn)
    (now : Int) (used : Nat) (speaks : s.peer.prot = some prot) (framed : prot ≠ .http)
    (ready : s.peer.handshaked = true) (left : used < s.peer.conn.rbuff.length) :
    Settles h (s.protRoute (h.app base) now used) := by
  cases next : F.next (s.peer.conn.rbuff.drop used) with
  | more =>
    rw [routes.route s now used speaks, routes.follows.more next]
    obtain ⟨rbuff, -⟩ := handled_peer (h.app base) now s
      { conn := s.peer.conn, used, status := .again, handed := none }
    refine ⟨fun ok => ProtocolStatus.noConfusion ok, fun ok => ProtocolStatus.noConfusion ok,
      fun _ => owes_erase ?_⟩
    rw [rbuff]
    exact left
  | bad why =>
    obtain ⟨rest, routed⟩ := routes.follows.bad ((h.app base).handleAt s.state used) next left.le
    rw [routes.route s now used speaks, routed]
    exact ⟨fun ok => ProtocolStatus.noConfusion ok, fun ok => ProtocolStatus.noConfusion ok,
      fun again => ProtocolStatus.noConfusion again⟩
  | item n event =>
    obtain ⟨t, found, took⟩ := protRoute_item routes now s speaks left.le next
    rw [found]
    refine ⟨fun _ => took.handshaked.trans ready, fun _ http => ?_, fun again => ?_⟩
    · rw [took.prot, speaks] at http
      exact absurd (Option.some.inj http) framed
    · exact absurd again (rawHandle_again _ _ _)

theorem routeRest_settles (t : HttpSock) {rbuff : Bytes} {used : Nat}
    (inside : used ≤ rbuff.length) :
    ∃ u next status closes, h.routeRest t rbuff used = .routed u next status closes ∧
      (status = .ok → (u.http.socks h.sock).bodyLen = 0) ∧
      (status = .again → (u.http.socks h.sock).bodyLen ≠ 0) := by
  simp only [HttpSide.routeRest, HttpSide.routed]
  split
  next =>
    exact ⟨_, _, _, _, rfl, fun ok => ProtocolStatus.noConfusion ok,
      fun again => ProtocolStatus.noConfusion again⟩
  next total sum =>
    have total := qevSafeUadd_eq_some sum
    split
    next short =>
      refine ⟨_, _, _, _, rfl, fun ok => ProtocolStatus.noConfusion ok, fun _ none_ => ?_⟩
      omega
    next =>
      refine ⟨_, _, _, _, rfl, fun _ => ?_, fun again => ProtocolStatus.noConfusion again⟩
      simp only [HttpSide.body, Http.routeBody, Http.socks_setSock, if_true]

theorem http_settles (now : Int) (used : Nat) (speaks : s.peer.prot = some .http)
    (ready : s.peer.handshaked = true) (left : used < s.peer.conn.rbuff.length) :
    Settles h (s.protRoute (h.app base) now used) := by
  -- what a status says of the state, the route function says
  have told : ∀ u next status closes,
      h.protocolHttpRoute s.state.2 s.peer.conn.rbuff used = .routed u next status closes →
      (status = .ok → (u.http.socks h.sock).bodyLen = 0) →
      (status = .again → next < s.peer.conn.rbuff.length ∨ (u.http.socks h.sock).bodyLen ≠ 0) →
      Settles h (s.protRoute (h.app base) now used) := by
    intro u next status closes result done owes
    cases closes with
    | none =>
      simp only [protRoute, speaks, HttpSide.app, result]
      refine ⟨fun _ => ready, fun ok _ => done ok, fun again => ?_⟩
      rcases owes again with more | body
      · exact owes_erase more
      · exact Or.inr (Or.inr ⟨speaks, body⟩)
    | some reason =>
      have kept : (s.peer.qevClose reason).conn.rbuff = s.peer.conn.rbuff := by
        simp [Peer.qevClose, Conn.qevClose]
      simp only [protRoute, speaks, HttpSide.app, result]
      refine ⟨fun _ => (Peer.setConn_handshaked _ _).trans ready, fun ok _ => done ok,
        fun again => ?_⟩
      rcases owes again with more | body
      · apply owes_erase
        rw [kept]
        exact more
      · exact Or.inr (Or.inr ⟨(Peer.setConn_prot _ _).trans speaks, body⟩)
  have rest : ∀ (t : HttpSock) (start : Nat), start ≤ s.peer.conn.rbuff.length →
      h.protocolHttpRoute s.state.2 s.peer.conn.rbuff used =
        h.routeRest t s.peer.conn.rbuff start →
      Settles h (s.protRoute (h.app base) now used) := by
    intro t start inside same
    obtain ⟨u, next, status, closes, result, done, owes⟩ := @routeRest_settles h t _ _ inside
    exact told u next status closes (same.trans result) done fun again => Or.inr (owes again)
  cases idle : decide ((s.state.2.http.socks h.sock).bodyLen = 0) with
  | false =>
    have awaited := of_decide_eq_false idle
    exact rest _ used left.le (by rw [HttpSide.protocolHttpRoute, if_neg awaited])
  | true =>
    have idle := of_decide_eq_true idle
    cases item : h.parser.next (s.peer.conn.rbuff.drop used) with
    | more =>
      refine told _ used .again _ (by simp only [HttpSide.protocolHttpRoute, if_pos idle, item]; rfl)
        (fun ok => ProtocolStatus.noConfusion ok) fun _ => Or.inl left
    | bad why => exact why.elim
    | item n req =>
      have head := (h.parser.size item).2
      rw [List.length_drop] at head
      cases status : (s.state.2.http.headerBlock h.env h.sock req
          (h.choice s.state.2.http).room).2 with
      | fatal =>
        refine told _ used .fatal _
          (by simp only [HttpSide.protocolHttpRoute, if_pos idle, item, status]; rfl)
          (fun ok => ProtocolStatus.noConfusion ok) fun again => ProtocolStatus.noConfusion again
      | again =>
        -- an upgrade starts over, with a handshake
        have result : ∃ u, h.protocolHttpRoute s.state.2 s.peer.conn.rbuff used = .upgraded u :=
          ⟨_, by simp only [HttpSide.protocolHttpRoute, if_pos idle, item, status]; rfl⟩
        obtain ⟨u, result⟩ := result
        simp only [protRoute, speaks, HttpSide.app, result]
        exact ⟨fun ok => ProtocolStatus.noConfusion ok, fun ok => ProtocolStatus.noConfusion ok,
          fun _ => Or.inl rfl⟩
      | ok =>
        apply rest _ (if (req.header (str "Sec-WebSocket-Key")).isSome then
            s.peer.conn.rbuff.length else used + n)
        · split <;> omega
        · simp only [HttpSide.protocolHttpRoute, if_pos idle, item, status]
          rfl

theorem protRoute_settles (now : Int) (used : Nat) (routable : s.Routable)
    (ready : s.peer.handshaked = true) (left : used < s.peer.conn.rbuff.length) :
    Settles h (s.protRoute (h.app base) now used) := by
  rcases routable with raw | rfc6455 | http
  · exact routes_settles (raw_routes _) now used raw (fun same => Prot.noConfusion same) ready left
  · exact routes_settles (rfc6455_routes _) now used rfc6455 (fun same => Prot.noConfusion same)
      ready left
  · exact http_settles now used http ready left

end Owing

end Served

namespace Timed

section Due

variable {α : Type} {h : HttpSide} {base : App α} {now : Int} {t : Timed (α × HttpSock)}

/-- While nobody has closed the client, its timeout is set if it owes something, and only
then. -/
def Due (h : HttpSide) (t : Timed (α × HttpSock)) : Prop :=
  t.served.peer.conn.closing = none → (t.timeout = true ↔ t.served.Owes h)

theorem Due.of_qevClose (p : Peer) (reason : CloseReason)
    (closed : t.served.peer.conn.closing = (p.qevClose reason).conn.closing) : Due h t := by
  intro open_
  rw [closed] at open_
  have closing := p.qevClose_closing reason
  rw [open_] at closing
  cases closing

theorem due_routeLoop (fuel used : Nat) (ready : t.served.peer.handshaked = true)
    (left : used < t.served.peer.conn.rbuff.length)
    (enough : t.served.peer.conn.rbuff.length - used < fuel) :
    Due h (t.routeLoop (h.app base) now fuel used) := by
  induction fuel generalizing t used with
  | zero => omega
  | succ fuel ih =>
    by_cases routable : t.served.Routable
    · have bounded := Served.protRoute_bounded h base now t.served used routable left.le
      have settles := @Served.protRoute_settles _ h base _ now used routable ready left
      simp only [routeLoop]
      generalize t.served.protRoute (h.app base) now used = result at bounded settles
      obtain ⟨s, next, status⟩ := result
      have length : s.peer.conn.rbuff.length = t.served.peer.conn.rbuff.length := bounded.length
      cases status with
      | ok =>
        have further : used < next := bounded.further rfl
        simp only []
        split
        next more => exact ih next (settles.ready rfl) more (by simp only []; omega)
        next all =>
          -- every message is done
          intro _
          constructor
          · exact fun set => Bool.noConfusion set
          · rintro (unready | more | ⟨http, body⟩)
            · exact absurd (unready.symm.trans (settles.ready rfl)) Bool.false_ne_true
            · exact absurd (List.drop_of_length_le (Nat.not_lt.mp all)) more
            · exact absurd (settles.done rfl http) body
      | again => exact fun _ => ⟨fun _ => settles.owes rfl, fun _ => rfl⟩
      | fatal => exact .of_qevClose s.peer .unknownError rfl
    · -- without a `route` the loop is left at once
      have fatal : t.served.protRoute (h.app base) now used = (t.served, used, .fatal) := by
        simp only [Served.Routable, not_or] at routable
        simp only [Served.protRoute]
        split
        next raw => exact absurd raw routable.1
        next rfc6455 => exact absurd rfc6455 routable.2.1
        next http => exact absurd http routable.2.2
        next => rfl
      simp only [routeLoop, fatal]
      exact .of_qevClose t.served.peer .unknownError rfl

theorem due_handshake (prot : Prot) (is : t.served.peer.prot = some prot) (framed : prot ≠ .http)
    (unready : t.served.peer.handshaked = false) (waits : t.timeout = true) :
    Due h (t.handshake now prot) := by
  have same := t.served.peer.protHandshake_prot prot
  have emptied : (t.served.peer.protHandshake prot).2 = .ok →
      (t.served.peer.protHandshake prot).1.conn.rbuff = [] := by
    intro ok
    cases prot with
    | http => exact absurd rfl framed
    | flash => cases ok
    | raw => rfl
    | rfc6455 =>
      simp only [Peer.protHandshake] at ok ⊢
      cases decoded : decode t.served.peer.conn 0 with
      | again => simp [decoded] at ok
      | fatal conn _ => simp [decoded] at ok
      | ok conn _ _ =>
        simp only [decoded] at ok ⊢
        split
        next => rfl
        next bad =>
          rw [if_neg bad] at ok
          cases ok
  have still := (Served.protHandshake_rest t.served.peer prot).1.trans unready
  simp only [handshake]
  generalize t.served.peer.protHandshake prot = result at same emptied still
  obtain ⟨p, status⟩ := result
  cases status with
  | ok =>
    intro _
    constructor
    · exact fun set => Bool.noConfusion set
    · rintro (unready | more | ⟨http, -⟩)
      · exact Bool.noConfusion unready
      · exact absurd (emptied rfl) more
      · have http : p.prot = some .http := http
        rw [same, is] at http
        exact absurd (Option.some.inj http) framed
  | again => exact fun _ => ⟨fun _ => Or.inl still, fun _ => waits⟩
  | fatal => exact .of_qevClose (p.record (.handshake prot .fatal)) .notSupported rfl

theorem due_shakeOrRoute (prot : Prot) (is : t.served.peer.prot = some prot)
    (more : t.served.peer.conn.rbuff ≠ [])
    (waits : t.served.peer.handshaked = false → t.timeout = true) :
    Due h (t.shakeOrRoute (h.app base) now prot) := by
  have left : 0 < t.served.peer.conn.rbuff.length := List.length_pos_iff.mpr more
  have enough : t.served.peer.conn.rbuff.length - 0 < t.served.peer.conn.rbuff.length + 1 :=
    Nat.lt_succ_self _
  simp only [shakeOrRoute]
  split
  next ready => exact due_routeLoop _ 0 ready left enough
  next unready =>
    have unready := Bool.eq_false_of_not_eq_true unready
    cases prot with
    | http => exact due_routeLoop _ 0 rfl left enough
    | flash => exact due_handshake .flash is (fun same => Prot.noConfusion same) unready (waits unready)
    | raw => exact due_handshake .raw is (fun same => Prot.noConfusion same) unready (waits unready)
    | rfc6455 =>
      exact due_handshake .rfc6455 is (fun same => Prot.noConfusion same) unready (waits unready)

/-- The first bytes find a protocol, no protocol yet, or none at all. -/
theorem findHandler_cases (p : Peer) :
    (∃ prot, p.findHandler = p.setProt prot) ∨ p.findHandler = p ∨
      p.findHandler = p.qevClose .notSupported := by
  simp only [Peer.findHandler]
  split
  next prot _ => exact Or.inl ⟨prot, rfl⟩
  next =>
    split
    next => exact Or.inr (Or.inl rfl)
    next => exact Or.inr (Or.inr rfl)

theorem due_protocolsRoute (more : t.served.peer.conn.rbuff ≠ [])
    (fresh : t.served.peer.prot = none → t.served.peer.handshaked = false)
    (waits : t.served.peer.handshaked = false → t.timeout = true) :
    Due h (t.protocolsRoute (h.app base) now) := by
  simp only [protocolsRoute, setPeer]
  cases is : t.served.peer.prot with
  | some prot => exact due_shakeOrRoute prot rfl more waits
  | none =>
    have unready := fresh is
    simp only []
    generalize arrived : Peer.mk none _ _ _ _ _ _ = p
    have none_ : p.prot = none := by rw [← arrived]
    have same : p.handshaked = t.served.peer.handshaked := by rw [← arrived]
    have read : p.conn.rbuff ≠ [] := by
      rw [← arrived]
      exact more
    rcases findHandler_cases p with ⟨prot, found⟩ | wait | refused
    · rw [found]
      exact due_shakeOrRoute prot rfl read fun unready => waits (same.symm.trans unready)
    · rw [wait, none_]
      exact fun _ => ⟨fun _ => Or.inl (same.trans unready), fun _ => waits unready⟩
    · have still : (p.qevClose .notSupported).prot = none := (Peer.setConn_prot _ _).trans none_
      rw [refused, still]
      exact .of_qevClose p .notSupported rfl

/-- A read, which is never empty. -/
theorem due_qevOnRead (due : Due h t) (bytes : Bytes) (some_ : bytes ≠ [])
    (fresh : t.served.peer.prot = none → t.served.peer.handshaked = false) :
    Due h (t.qevOnRead (h.app base) now bytes) := by
  simp only [qevOnRead]
  split
  next => exact due
  next closing =>
    have open_ : t.served.peer.conn.closing = none := by simpa using closing
    apply due_protocolsRoute
    · simp [setPeer, some_]
    · exact fresh
    · exact fun unready => (due open_).mpr (Or.inl unready)

/-- What is written to the client, or closes it, changes nothing of what it owes. -/
structure Unmoved (p q : Peer) : Prop where
  prot : q.prot = p.prot
  handshaked : q.handshaked = p.handshaked
  rbuff : q.conn.rbuff = p.conn.rbuff
  open_ : q.conn.closing = none → p.conn.closing = none

theorem unmoved_qevClose (p : Peer) (reason : CloseReason) : Unmoved p (p.qevClose reason) where
  prot := Peer.setConn_prot _ _
  handshaked := Peer.setConn_handshaked _ _
  rbuff := by simp [Peer.qevClose, Conn.qevClose]
  open_ open_ := by
    have closing := p.qevClose_closing reason
    rw [open_] at closing
    cases closing

theorem unmoved_protocolsSend (p : Peer) (m : Message) : Unmoved p (p.protocolsSend now m) := by
  simp only [Peer.protocolsSend]
  split
  next =>
    split
    next => exact ⟨rfl, rfl, rfl, id⟩
    next => exact ⟨rfl, rfl, rfl, id⟩
  next => exact ⟨rfl, rfl, rfl, id⟩

theorem unmoved_protocolsBcastWrite (p : Peer) (evPath json : Bytes) :
    Unmoved p (p.protocolsBcastWrite now evPath json) := by
  simp only [Peer.protocolsBcastWrite]
  split
  next =>
    split
    next => exact ⟨rfl, rfl, rfl, id⟩
    next => exact ⟨rfl, rfl, rfl, id⟩
  next => exact ⟨rfl, rfl, rfl, id⟩

theorem unmoved_protocolRawDoHeartbeat (p : Peer) (heartbeat : Bytes) (serverCb : EvsCb) :
    Unmoved p (p.protocolRawDoHeartbeat now heartbeat serverCb) := by
  simp only [Peer.protocolRawDoHeartbeat]
  split
  next => exact unmoved_qevClose p .heartattack
  next =>
    split
    next => exact unmoved_protocolsSend p _
    next =>
      split
      next => exact ⟨rfl, rfl, rfl, id⟩
      next => exact ⟨rfl, rfl, rfl, id⟩

theorem Due.unmoved (due : Due h t) {q : Peer} (same : Unmoved t.served.peer q) :
    Due h (t.setPeer q) := by
  intro open_
  have before := due (same.open_ open_)
  rw [Served.Owes, ← same.prot, ← same.handshaked, ← same.rbuff] at before
  exact before

/-- Another length of the same body is none. -/
theorem Due.setHttp (due : Due h t) {http : Http}
    (same : (http.socks h.sock).bodyLen = (t.served.state.2.http.socks h.sock).bodyLen) :
    Due h { t with served := { t.served with
      state := (t.served.state.1, { t.served.state.2 with http }) } } := by
  intro open_
  have before := due open_
  rw [Served.Owes, ← same] at before
  exact before

end Due

/-! ### Runs -/

section System

variable {α : Type} (h : HttpSide) (base : App α) (t : Timed (α × HttpSock))

/-- The sessions and sockets of HTTP, with the client's among them. -/
def http : Http := t.served.state.2.http

def setHttp (http : Http) : Timed (α × HttpSock) :=
  { t with served := { t.served with state := (t.served.state.1, { t.served.state.2 with http }) } }

/-- `qev_close` -/
def qevClose (reason : CloseReason) : Timed (α × HttpSock) :=
  let t := if t.served.peer.prot = some .http then t.setHttp (t.http.closeSock h.sock reason) else t
  t.setPeer (t.served.peer.qevClose reason)

/-- Where HTTP has closed the socket, the client is closed. -/
def mirror : Timed (α × HttpSock) :=
  match (t.http.socks h.sock).closing with
  | none => t
  | some reason =>
    if t.served.peer.prot = some .http then t.setPeer (t.served.peer.qevClose reason) else t

/-- What can happen to a client. `http` is for what HTTP does otherwise: the requests of
other sockets, the sessions, heartbeats, and the time that passes. -/
inductive Label
  | read (bytes : Bytes)
  | send (m : Message)
  | bcastWrite (evPath json : Bytes)
  | heartbeat (serverCb : EvsCb)
  | http (l : Http.Label)
  | close (reason : CloseReason)
  /-- the timeout has run out -/
  | timeout
  | onClose
deriving DecidableEq, Repr

/-- What a step does, where it can be taken. -/
def step (t : Timed (α × HttpSock)) : Label → Option (Timed (α × HttpSock))
  | .read bytes =>
    if bytes = [] ∨ t.closed then none else some (t.qevOnRead (h.app base) t.http.now bytes)
  | .send m => some (t.setPeer (t.served.peer.protocolsSend t.http.now m))
  | .bcastWrite evPath json =>
    if t.served.peer.prot = none then none
    else some (t.setPeer (t.served.peer.protocolsBcastWrite t.http.now evPath json))
  | .heartbeat serverCb =>
    if t.served.peer.prot = some .http then none
    else some { t with served := t.served.protocolsHeartbeat (h.app base) t.http.now serverCb }
  | .http l =>
    if l.routes = some h.sock then none
    else (t.http.step h.env l).map fun http => (t.setHttp http).mirror h
  | .close reason => some (t.qevClose h reason)
  | .timeout => if t.timeout then some (t.qevClose h .timeout) else none
  | .onClose =>
    if t.served.peer.conn.closing = none ∨ t.closed then none
    -- `qev_timeout_clear`
    else some { t with timeout := false, closed := true }

/-- `qev_on_open`: a client that is no surrogate gets its timeout at once. -/
def system : TransitionSystem (Timed (α × HttpSock)) Label where
  init t := t.served.peer = {} ∧ t.http.socks h.sock = {} ∧ t.timeout = true ∧ t.closed = false
  step := step h base

end System

section Runs

variable {α : Type} {h : HttpSide} {base : App α} {t t' : Timed (α × HttpSock)}

/-- What holds of a client at any time. -/
structure Inv (h : HttpSide) (t : Timed (α × HttpSock)) : Prop where
  due : Due h t
  gating : Gating t.served.peer
  closed : t.closed = true → t.timeout = false ∧ t.served.peer.conn.closing ≠ none

theorem Inv.unmoved (inv : Inv h t) {q : Peer} (same : Unmoved t.served.peer q) (gating : Gating q) :
    Inv h (t.setPeer q) where
  due := inv.due.unmoved same
  gating := gating
  closed closed :=
    ⟨(inv.closed closed).1, fun open_ => (inv.closed closed).2 (same.open_ open_)⟩

theorem Inv.setHttp (inv : Inv h t) {http : Http}
    (same : (http.socks h.sock).bodyLen = (t.http.socks h.sock).bodyLen) :
    Inv h (t.setHttp http) where
  due := inv.due.setHttp same
  gating := inv.gating
  closed := inv.closed

theorem Inv.qevClose (inv : Inv h t) (reason : CloseReason) : Inv h (t.qevClose h reason) := by
  simp only [Timed.qevClose]
  split
  next =>
    have same : ((t.http.closeSock h.sock reason).socks h.sock).bodyLen =
        (t.http.socks h.sock).bodyLen := by simp [Http.closeSock]
    exact (inv.setHttp same).unmoved (unmoved_qevClose _ reason) (inv.gating.qevClose reason)
  next => exact inv.unmoved (unmoved_qevClose _ reason) (inv.gating.qevClose reason)

theorem Inv.mirror (inv : Inv h t) : Inv h (t.mirror h) := by
  simp only [Timed.mirror]
  split
  next => exact inv
  next reason _ =>
    split
    next => exact inv.unmoved (unmoved_qevClose _ reason) (inv.gating.qevClose reason)
    next => exact inv

theorem Inv.read (inv : Inv h t) (bytes : Bytes) (some_ : bytes ≠ []) (up : t.closed = false) :
    Inv h (t.qevOnRead (h.app base) now bytes) := by
  have stepped : t.served.step (h.app base) (.read now bytes) =
      some (t.served.read (h.app base) now bytes) := rfl
  have gating := Served.step_gating inv.gating stepped
  rw [← qevOnRead_served] at gating
  refine ⟨due_qevOnRead inv.due bytes some_ inv.gating.fresh, gating, fun closed => ?_⟩
  rw [closed_qevOnRead, up] at closed
  cases closed

theorem Inv.heartbeat (inv : Inv h t) (serverCb : EvsCb) (framed : t.served.peer.prot ≠ some .http) :
    Inv h { t with served := t.served.protocolsHeartbeat (h.app base) now serverCb } := by
  have stays : ∃ q, t.served.protocolsHeartbeat (h.app base) now serverCb =
      { t.served with peer := q } ∧ Unmoved t.served.peer q := by
    have same : Unmoved t.served.peer t.served.peer := ⟨rfl, rfl, rfl, id⟩
    simp only [Served.protocolsHeartbeat]
    split
    next =>
      split
      next => exact ⟨_, rfl, same⟩
      next http => exact absurd http framed
      next =>
        split
        next => exact ⟨_, rfl, same⟩
        next bytes _ => exact ⟨_, rfl, unmoved_protocolRawDoHeartbeat _ bytes serverCb⟩
    next => exact ⟨_, rfl, same⟩
  have stepped : t.served.step (h.app base) (.heartbeat now serverCb) =
      some (t.served.protocolsHeartbeat (h.app base) now serverCb) := rfl
  have gating := Served.step_gating inv.gating stepped
  obtain ⟨q, beaten, same⟩ := stays
  rw [beaten] at gating ⊢
  exact inv.unmoved same gating

theorem Inv.step {l : Label} (inv : Inv h t) (stepped : t.step h base l = some t') : Inv h t' := by
  cases l with
  | read bytes =>
    obtain ⟨open_, ⟨⟩⟩ := Option.ite_none_left_eq_some.mp stepped
    rw [not_or] at open_
    exact inv.read bytes open_.1 (Bool.eq_false_of_not_eq_true open_.2)
  | send m =>
    cases stepped
    exact inv.unmoved (unmoved_protocolsSend _ m) (inv.gating.protocolsSend _ m)
  | bcastWrite evPath json =>
    obtain ⟨-, ⟨⟩⟩ := Option.ite_none_left_eq_some.mp stepped
    exact inv.unmoved (unmoved_protocolsBcastWrite _ evPath json)
      (inv.gating.protocolsBcastWrite _ evPath json)
  | heartbeat serverCb =>
    obtain ⟨framed, ⟨⟩⟩ := Option.ite_none_left_eq_some.mp stepped
    exact inv.heartbeat serverCb framed
  | http l =>
    obtain ⟨other, stepped⟩ := Option.ite_none_left_eq_some.mp stepped
    obtain ⟨τ, took, rfl⟩ := Option.map_eq_some_iff.mp stepped
    have expects : Http.Expects h.sock (t.http.socks h.sock).bodyLen t.http := rfl
    exact (inv.setHttp (expects.step took other)).mirror
  | close reason =>
    cases stepped
    exact inv.qevClose reason
  | timeout =>
    obtain ⟨-, ⟨⟩⟩ := Option.ite_none_right_eq_some.mp stepped
    exact inv.qevClose .timeout
  | onClose =>
    obtain ⟨closing, ⟨⟩⟩ := Option.ite_none_left_eq_some.mp stepped
    rw [not_or] at closing
    exact ⟨fun open_ => absurd open_ closing.1, inv.gating, fun _ => ⟨rfl, closing.1⟩⟩

theorem inv_reachable (reached : (system h base).Reachable t) : Inv h t := by
  refine (system h base).reachable_invariant (Inv h) ?_ (fun _ _ _ inv => inv.step) t reached
  rintro t ⟨peer, -, timeout, closed⟩
  refine ⟨fun _ => ⟨fun _ => Or.inl (by rw [peer]), fun _ => timeout⟩, peer ▸ Served.start_gating, ?_⟩
  rw [closed]
  exact fun absurd_ => Bool.noConfusion absurd_

/-- The timeout of a client that is open is set as long as the client owes something, and at
no other time: it has not shaken hands, or some bytes are there of a message that is not, or
the body of its request is still to come. Once `qev_on_close` has run it never is set. -/
theorem timeout_iff_owes (h : HttpSide) (base : App α) (t : Timed (α × HttpSock))
    (reached : (system h base).Reachable t) :
    (t.served.peer.conn.closing = none → (t.timeout = true ↔ t.served.Owes h)) ∧
      (t.closed = true → t.timeout = false) := by
  have inv := inv_reachable reached
  exact ⟨inv.due, fun closed => (inv.closed closed).1⟩

/-- A client that has just connected. -/
def sampleOpened : Timed (Unit × HttpSock) where
  served := { sampleServed with peer := {} }
  timeout := true

/-- A handshake, and an event without its end. -/
def stalling : List Label := [
  .read (str "/qio/ohai"), .send ⟨str "/a", [], 0, str "1"⟩,
  .read ([0, 0, 0, 0, 0, 0, 0, 0x10] ++ str "/qio/ping:1")]

theorem timeout_iff_owes_stalling : ∃ t t', (system sampleSide answering).Reachable t ∧
    (system sampleSide answering).step t (.read (str "=null")) = some t' ∧
    t.served.peer.handshaked = true ∧ t.timeout = true ∧ t'.timeout = false := by
  have init : (system sampleSide answering).init sampleOpened := ⟨rfl, rfl, rfl, rfl⟩
  have some_ : ((system sampleSide answering).run sampleOpened
      (stalling ++ [.read (str "=null")])).isSome := by decide
  obtain ⟨t', whole⟩ := Option.isSome_iff_exists.mp some_
  obtain ⟨t, ran, last⟩ := (TransitionSystem.run_append_iff _ _ _ _ _).mp whole
  obtain ⟨u, stepped, done⟩ := (TransitionSystem.run_cons_iff _ _ _ _ _).mp last
  obtain rfl : u = t' := Option.some.inj done
  have stalled : ∀ t ∈ (system sampleSide answering).run sampleOpened stalling,
      t.served.peer.handshaked = true ∧ t.served.peer.conn.closing = none ∧
      t.served.Owes sampleSide := by decide
  have finished : ∀ t ∈ (system sampleSide answering).run sampleOpened
      (stalling ++ [.read (str "=null")]),
      t.served.peer.conn.closing = none ∧ ¬t.served.Owes sampleSide := by decide
  obtain ⟨ready, open_, owes⟩ := stalled t ran
  obtain ⟨still, settled⟩ := finished u whole
  have before := timeout_iff_owes sampleSide answering t ⟨_, _, init, ran⟩
  have after := timeout_iff_owes sampleSide answering u ⟨_, _, init, whole⟩
  refine ⟨t, u, ⟨_, _, init, ran⟩, stepped, ready, (before.1 open_).mpr owes, ?_⟩
  exact Bool.eq_false_of_not_eq_true fun set => settled ((after.1 still).mp set)

end Runs

end Timed

end QuickIO
