import QuickIO.Callbacks
import QuickIO.Gating
import QuickIO.Lib.Watchdog

/-!
# Heartbeats

A client of the raw protocol or of RFC 6455 from its handshake on, with the runs
of `periodic.c` at most ten seconds apart and anything else between them. Beside
the client stands what an observer of its connection knows: when something was
written to it and received from it last, and whether it was challenged since.
-/
namespace QuickIO

open Lib

/-- `PERIODIC_INTERVAL_USEC` -/
def periodicIntervalUsec : Int := Http.secToUsec 10

/-- The entry is something that was written to the client. -/
def Entry.isWritten : Entry → Bool
  | .frame _ | .broadcast _ | .heartbeat _ | .bye _ => true
  | .protocol _ | .handshake _ _ | .event _ | .closed _ => false

/-- What has happened to a client since it was `p`. -/
def Peer.news (p p' : Peer) : List Entry := p'.log.drop p.log.length

/-- The event of a challenge. -/
def heartbeatEvent (serverCb : EvsCb) : Message :=
  { evPath := str "/qio/heartbeat", evExtra := [], serverCb, json := str "null" }

/-- It was sent a heartbeat that asks for a callback. -/
def Peer.isChallenged (p p' : Peer) (serverCb : EvsCb) : Bool :=
  serverCb ≠ evsNoCallback &&
    (p.news p').any fun e => some e = (p.prot.bind (·.frame (heartbeatEvent serverCb))).map .frame

/-- A client with the clock, the last run of `periodic_run`, and what has been seen
of its connection. -/
structure Watched (α : Type) where
  served : Served α
  now : Int
  ranAt : Int
  wroteAt : Int
  receivedAt : Int
  challenged : Bool

namespace Watched

variable {α : Type} (app : App α) (w : Watched α)

/-- `client` as it is served. -/
abbrev peer : Peer := w.served.peer

/-- The client is not closing. -/
def isOpen : Bool := w.peer.conn.closing.isNone

/-- Something has happened to the client. -/
def observe (served : Served α) : Watched α :=
  { w with
    served
    wroteAt := if (w.peer.news served.peer).any Entry.isWritten then w.now else w.wroteAt }

/-- An atomic step. A run of `periodic_run` makes a callback, in a slot of the
callbacks the client has at that time. -/
inductive Label
  | tick (usec : Nat)
  | read (bytes : Bytes)
  | send (m : Message)
  | bcastWrite (evPath json : Bytes)
  | close (reason : CloseReason)
  | periodic (callbacks : Callbacks Unit Unit Unit) (random : Fin 4)

/-- `protocols_heartbeat` in `_foreach_cb`. -/
def periodicRun (callbacks : Callbacks Unit Unit Unit) (random : Fin 4) : Watched α :=
  let serverCb := (clientCbNew callbacks random w.now (some ()) none none).2.2
  let served := w.served.protocolsHeartbeat app w.now serverCb
  { w.observe served with
    ranAt := w.now
    challenged := w.challenged || w.peer.isChallenged served.peer serverCb }

/-- Bytes arrive. -/
def read (bytes : Bytes) : Watched α :=
  let w' := w.observe (w.served.read app w.now bytes)
  if w.isOpen then { w' with receivedAt := w.now, challenged := false } else w'

/-- What a step does. The next run does not come later than an interval after the
last. -/
def step (w : Watched α) : Label → Option (Watched α)
  | .tick usec =>
    if w.now + usec ≤ w.ranAt + periodicIntervalUsec then some { w with now := w.now + usec }
    else none
  | .read bytes => some (w.read app bytes)
  | .send m => some (w.observe { w.served with peer := w.peer.protocolsSend w.now m })
  | .bcastWrite evPath json =>
    some (w.observe { w.served with peer := w.peer.protocolsBcastWrite w.now evPath json })
  | .close reason => some (w.observe { w.served with peer := w.peer.qevClose reason })
  | .periodic callbacks random => some (w.periodicRun app callbacks random)

/-- The client has just shaken hands, in a read of its own. -/
def Shook : Prop :=
  (∃ s bytes, s.peer.handshaked = false ∧ w.served = Served.read app w.now s bytes) ∧
    w.peer.handshaked = true ∧ (w.peer.prot = some .raw ∨ w.peer.prot = some .rfc6455) ∧
    w.ranAt ≤ w.now ∧ w.now ≤ w.ranAt + periodicIntervalUsec ∧
    w.wroteAt = w.now ∧ w.receivedAt = w.now ∧ w.challenged = false

def system : TransitionSystem (Watched α) Label where
  init := Shook app
  step := step app

end Watched

/-! ### What anything does to a client -/

/-- The connection may have been closed, but not for a heart attack. -/
def Conn.Ends (conn conn' : Conn) : Prop :=
  conn'.closing = conn.closing ∨
    ∃ reason, reason ≠ .heartattack ∧ conn'.closing = conn.closing.or (some reason)

theorem decodePayload_ends (conn : Conn) (offset headerLen len : Nat) (mask : Bytes) :
    match decodePayload conn offset headerLen len mask with
    | .again => True
    | .fatal conn' _ => conn.Ends conn'
    | .ok conn' _ _ => conn'.closing = conn.closing := by
  simp only [decodePayload]
  cases qevSafeUadd headerLen len with
  | none => exact Or.inl rfl
  | some totalLen =>
    dsimp only
    split_ifs
    · trivial
    · rfl
    · exact Or.inr ⟨.notUtf8, by decide, rfl⟩

theorem decode_ends (conn : Conn) (offset : Nat) :
    match decode conn offset with
    | .again => True
    | .fatal conn' _ => conn.Ends conn'
    | .ok conn' _ _ => conn'.closing = conn.closing := by
  simp only [decode]
  cases head : decodeHead (conn.rbuff.drop offset) with
  | again => trivial
  | fatal reason =>
    refine Or.inr ⟨reason, ?_, rfl⟩
    simp only [decodeHead] at head
    split_ifs at head <;> cases head <;> decide
  | frame headerLen len mask => exact decodePayload_ends conn offset headerLen len mask

/-- A later state of a client that has shaken hands. What was written to it since
counts as sent, and nothing but a handler that asks for it has closed it for a
heart attack. -/
structure Peer.Follows (now : Int) (asked : Prop) (p p' : Peer) : Prop where
  prot : p'.prot = p.prot
  handshaked : p'.handshaked = p.handshaked
  received : p'.lastRecv = p.lastRecv ∨ p'.lastRecv = now
  sent : ∃ news, p'.log = p.log ++ news ∧
    (p'.lastSend = p.lastSend ∨ p'.lastSend = now ∧ news.any Entry.isWritten)
  still : p'.conn.closing = none → p.conn.closing = none
  spared : p'.conn.closing = some .heartattack → p.conn.closing = some .heartattack ∨ asked

namespace Peer.Follows

variable {now : Int} {asked : Prop} {p p' p'' : Peer}

theorem refl (p : Peer) : Follows now asked p p :=
  ⟨rfl, rfl, Or.inl rfl, ⟨[], (List.append_nil _).symm, Or.inl rfl⟩, id, Or.inl⟩

theorem trans (first : Follows now asked p p') (second : Follows now asked p' p'') :
    Follows now asked p p'' := by
  refine ⟨second.prot.trans first.prot, second.handshaked.trans first.handshaked, ?_, ?_,
    fun open_ => first.still (second.still open_), fun dead => ?_⟩
  · rcases second.received with same | new
    · exact first.received.imp same.trans same.trans
    · exact Or.inr new
  · obtain ⟨news, log, sent⟩ := first.sent
    obtain ⟨more, log', sent'⟩ := second.sent
    refine ⟨news ++ more, by rw [log', log, List.append_assoc], ?_⟩
    rw [List.any_append, Bool.or_eq_true]
    rcases sent' with same | ⟨new, written⟩
    · exact sent.imp same.trans fun before => ⟨same.trans before.1, Or.inl before.2⟩
    · exact Or.inr ⟨new, Or.inr written⟩
  · rcases second.spared dead with before | wanted
    · exact first.spared before
    · exact Or.inr wanted

/-- Entries that say nothing was written, with the buffer changed. -/
theorem record (p : Peer) (e : Entry) : Follows now asked p (p.record e) :=
  ⟨rfl, rfl, Or.inl rfl, ⟨[e], rfl, Or.inl rfl⟩, id, Or.inl⟩

theorem setConn (p : Peer) {conn : Conn} (ends : p.conn.Ends conn) :
    Follows now asked p (p.setConn conn) := by
  have still : conn.closing = none → p.conn.closing = none := by
    intro open_
    rcases ends with same | ⟨reason, -, closing⟩
    · exact same.symm.trans open_
    · exact (Option.or_eq_none_iff.mp (closing.symm.trans open_)).1
  have spared : conn.closing = some .heartattack → p.conn.closing = some .heartattack := by
    intro dead
    rcases ends with same | ⟨reason, other, closing⟩
    · exact same.symm.trans dead
    · rw [closing] at dead
      rcases Option.or_eq_some_iff.mp dead with before | ⟨-, ⟨⟩⟩
      · exact before
      · exact absurd rfl other
  simp only [Peer.setConn]
  split
  next => exact ⟨rfl, rfl, Or.inl rfl, ⟨[_], rfl, Or.inl rfl⟩, still, fun dead => Or.inl (spared dead)⟩
  next =>
    exact ⟨rfl, rfl, Or.inl rfl, ⟨[], (List.append_nil _).symm, Or.inl rfl⟩, still,
      fun dead => Or.inl (spared dead)⟩

/-- `qev_close` with a reason that was asked for. -/
theorem qevClose (p : Peer) (reason : CloseReason) (wanted : reason = .heartattack → asked) :
    Follows now asked p (p.qevClose reason) := by
  by_cases heart : reason = .heartattack
  · have closed : (p.conn.qevClose reason).closing ≠ none := by
      simp [Conn.qevClose]
    simp only [Peer.qevClose, Peer.setConn]
    split
    next =>
      exact ⟨rfl, rfl, Or.inl rfl, ⟨[_], rfl, Or.inl rfl⟩, fun open_ => absurd open_ closed,
        fun _ => Or.inr (wanted heart)⟩
    next =>
      exact ⟨rfl, rfl, Or.inl rfl, ⟨[], (List.append_nil _).symm, Or.inl rfl⟩,
        fun open_ => absurd open_ closed, fun _ => Or.inr (wanted heart)⟩
  · exact setConn p (Or.inr ⟨reason, heart, rfl⟩)

/-- Something is written and the time noted. -/
theorem write (p : Peer) (e : Entry) (written : e.isWritten) :
    Follows now asked p ({ p with lastSend := now }.record e) :=
  ⟨rfl, rfl, Or.inl rfl, ⟨[e], rfl, Or.inr ⟨rfl, by simp [written]⟩⟩, id, Or.inl⟩

theorem protocolsSend (p : Peer) (m : Message) : Follows now asked p (p.protocolsSend now m) := by
  simp only [Peer.protocolsSend]
  split
  next =>
    split
    next => exact refl p
    next bytes _ => exact write p (.frame bytes) rfl
  next => exact refl p

theorem protocolsBcastWrite (p : Peer) (evPath json : Bytes) :
    Follows now asked p (p.protocolsBcastWrite now evPath json) := by
  simp only [Peer.protocolsBcastWrite]
  split
  next =>
    split
    next => exact refl p
    next bytes _ => exact write p (.broadcast bytes) rfl
  next => exact refl p

theorem acts (p : Peer) (as : List PeerAct) (wanted : .close .heartattack ∈ as → asked) :
    Follows now asked p (as.foldl (Peer.act now) p) := by
  induction as generalizing p with
  | nil => exact refl p
  | cons a as ih =>
    have first : Follows now asked p (Peer.act now p a) := by
      cases a with
      | send m => exact protocolsSend p m
      | close reason =>
        exact qevClose p reason fun same => wanted (same ▸ List.mem_cons_self)
    exact first.trans (ih _ fun member => wanted (List.mem_cons_of_mem a member))

end Peer.Follows

/-! ### Reads -/

/-- Some handler closes its client for a heart attack. -/
def App.Asks {α : Type} (app : App α) : Prop :=
  ∃ state ev, PeerAct.close .heartattack ∈ (app.evsRoute state ev).2.1

/-- The protocol is one of those with heartbeats of their own. -/
def Peer.Speaks (p : Peer) : Prop := p.prot = some .raw ∨ p.prot = some .rfc6455

theorem Peer.Follows.speaks {now : Int} {asked : Prop} {p p' : Peer}
    (follows : Follows now asked p p') (speaks : p.Speaks) : p'.Speaks := by
  rw [Peer.Speaks, follows.prot]
  exact speaks

namespace Served

variable {α : Type} (app : App α) (now : Int) (s : Served α)

theorem handled_follows (r : Routed) (ends : s.peer.conn.Ends r.conn) :
    s.peer.Follows now app.Asks (s.handled app now r).peer := by
  have routed : s.peer.Follows now app.Asks (s.peer.setConn r.conn) := .setConn _ ends
  simp only [handled]
  split
  next => exact routed
  next event _ =>
    have recorded := routed.trans (.record _ (.event event))
    refine recorded.trans (.acts _ _ ?_)
    simp only [App.rawHandle]
    split
    next =>
      intro member
      cases List.mem_singleton.mp member
    next ev _ => exact fun member => ⟨s.state, ev, member⟩

theorem protRoute_follows (used : Nat) (speaks : s.peer.Speaks) :
    s.peer.Follows now app.Asks (s.protRoute app now used).1.peer := by
  rcases speaks with raw | rfc6455
  · -- The raw protocol ends the connection in no branch of its own.
    simp only [protRoute, raw]
    apply handled_follows
    left
    simp only [protocolRawRoute]
    split
    next => rfl
    next =>
      split
      next => rfl
      next =>
        split
        next => rfl
        next => rfl
  · -- A frame of the websocket: decoding closes the connection on `fatal` alone.
    simp only [protRoute, rfc6455]
    apply handled_follows
    have decoded := decode_ends s.peer.conn used
    simp only [rfc6455Route]
    split
    next => exact Or.inl rfl
    next conn fatal =>
      rw [fatal] at decoded
      exact decoded
    next conn len frameLen ok =>
      rw [ok] at decoded
      exact Or.inl decoded

theorem routeLoop_follows (fuel used : Nat) (speaks : s.peer.Speaks) :
    s.peer.Follows now app.Asks (s.routeLoop app now fuel used).peer := by
  have erased : ∀ (t : Served α) (n : Nat), t.peer.Follows now app.Asks (t.erase n).peer :=
    fun t n => ⟨rfl, rfl, Or.inl rfl, ⟨[], (List.append_nil _).symm, Or.inl rfl⟩, id, Or.inl⟩
  induction fuel generalizing s used with
  | zero => exact .refl _
  | succ fuel ih =>
    have round := protRoute_follows app now s used speaks
    simp only [routeLoop]
    split
    -- An event: the peer was heard of, and the loop goes on with the bytes behind it.
    next t used' ok =>
      rw [ok] at round
      have heard : s.peer.Follows now app.Asks { t.peer with lastRecv := now } :=
        round.trans ⟨rfl, rfl, Or.inr rfl, ⟨[], (List.append_nil _).symm, Or.inl rfl⟩, id, Or.inl⟩
      split
      next =>
        exact heard.trans (ih { t with peer := { t.peer with lastRecv := now } } used'
          (heard.speaks speaks))
      next => exact heard.trans (erased { t with peer := { t.peer with lastRecv := now } } used')
    -- An incomplete frame: the loop waits.
    next t used' again =>
      rw [again] at round
      exact round.trans (erased t used')
    -- A bad frame: the client is closed.
    next t used' fatal =>
      rw [fatal] at round
      have closed := round.trans (.qevClose t.peer .unknownError (by rintro ⟨⟩))
      exact closed.trans (erased { t with peer := t.peer.qevClose .unknownError } used')

/-- A read that takes something: it counts as received now. -/
theorem read_follows (bytes : Bytes) (shook : s.peer.handshaked = true) (speaks : s.peer.Speaks)
    (open_ : s.peer.conn.closing = none) :
    s.peer.Follows now app.Asks (s.read app now bytes).peer ∧
      (s.read app now bytes).peer.lastRecv = now := by
  obtain ⟨t, began⟩ : ∃ t : Served α, t = { s with peer := { s.peer with
      lastRecv := now, conn := { s.peer.conn with rbuff := s.peer.conn.rbuff ++ bytes } } } :=
    ⟨_, rfl⟩
  have result : s.read app now bytes = t.route app now := by
    rw [read, if_neg (by simp [open_]), began]
    rcases speaks with raw | rfc6455
    · simp [protocolsRoute, shakeOrRoute, raw, shook]
    · simp [protocolsRoute, shakeOrRoute, rfc6455, shook]
  have heard : s.peer.Follows now app.Asks t.peer := by
    rw [began]
    exact ⟨rfl, rfl, Or.inr rfl, ⟨[], (List.append_nil _).symm, Or.inl rfl⟩, id, Or.inl⟩
  have routed := routeLoop_follows app now t (t.peer.conn.rbuff.length + 1) 0 (heard.speaks speaks)
  have already : t.peer.lastRecv = now := by rw [began]
  rw [result]
  exact ⟨heard.trans routed, routed.received.elim (·.trans already) id⟩

/-! ### The handshake -/

theorem protRoute_http (used : Nat) (http : s.peer.prot = some .http) :
    (s.protRoute app now used).1.peer.prot = some .http ∨
      (s.protRoute app now used).2.2 = .again ∧
        (s.protRoute app now used).1.peer.handshaked = false := by
  simp only [protRoute, http]
  split
  next => exact Or.inl http
  next => exact Or.inl ((Peer.setConn_prot _ _).trans http)
  next => exact Or.inr ⟨rfl, rfl⟩

/-- While HTTP is read, the protocol stays, or has no handshake yet. -/
theorem routeLoop_http (fuel used : Nat) (http : s.peer.prot = some .http) :
    (s.routeLoop app now fuel used).peer.prot = some .http ∨
      (s.routeLoop app now fuel used).peer.handshaked = false := by
  induction fuel generalizing s used with
  | zero => exact Or.inl http
  | succ fuel ih =>
    have round := protRoute_http app now s used http
    simp only [routeLoop]
    split
    next t used' ok =>
      rw [ok] at round
      have still := round.resolve_right fun upgraded => by cases upgraded.1
      split
      next => exact ih { t with peer := { t.peer with lastRecv := now } } used' still
      next => exact Or.inl still
    next t used' again =>
      rw [again] at round
      exact round.imp id fun upgraded => upgraded.2
    next t used' fatal =>
      rw [fatal] at round
      have still := round.resolve_right fun upgraded => by cases upgraded.1
      exact Or.inl ((Peer.setConn_prot _ _).trans still)

theorem setConn_lastRecv (p : Peer) (conn : Conn) : (p.setConn conn).lastRecv = p.lastRecv := by
  simp only [Peer.setConn]
  split
  next => rfl
  next => rfl

/-- No handshake function says that it is done, or that something was received. -/
theorem protHandshake_rest (p : Peer) (prot : Prot) :
    (p.protHandshake prot).1.handshaked = p.handshaked ∧
      (p.protHandshake prot).1.lastRecv = p.lastRecv := by
  cases prot with
  | http => exact ⟨rfl, rfl⟩
  | flash => exact ⟨Peer.setConn_handshaked _ _, setConn_lastRecv _ _⟩
  | raw => exact ⟨rfl, rfl⟩
  | rfc6455 =>
    simp only [Peer.protHandshake]
    split
    next => exact ⟨rfl, rfl⟩
    next conn _ _ => exact ⟨Peer.setConn_handshaked p conn, setConn_lastRecv p conn⟩
    next =>
      split
      next => exact ⟨rfl, rfl⟩
      next => exact ⟨Peer.setConn_handshaked _ _, setConn_lastRecv _ _⟩

/-- A handshake that succeeds counts as sent now. -/
theorem handshake_times (p : Peer) (prot : Prot) (before : p.handshaked = false)
    (after : (p.handshake now prot).handshaked = true) :
    (p.handshake now prot).lastSend = now ∧ (p.handshake now prot).lastRecv = p.lastRecv := by
  obtain ⟨shaken, received⟩ := protHandshake_rest p prot
  have notYet := shaken.trans before
  simp only [Peer.handshake] at after ⊢
  split at after
  next => exact ⟨rfl, received⟩
  next => exact Bool.noConfusion (notYet.symm.trans after)
  next =>
    rw [Peer.qevClose, Peer.setConn_handshaked] at after
    exact Bool.noConfusion (notYet.symm.trans after)

theorem findHandler_rest (p : Peer) :
    p.findHandler.handshaked = p.handshaked ∧ p.findHandler.lastRecv = p.lastRecv := by
  simp only [Peer.findHandler]
  split
  next => exact ⟨rfl, rfl⟩
  next =>
    split
    next => exact ⟨rfl, rfl⟩
    next => exact ⟨Peer.setConn_handshaked _ _, setConn_lastRecv _ _⟩

theorem shakeOrRoute_times (prot : Prot) (is : s.peer.prot = some prot)
    (before : s.peer.handshaked = false)
    (after : (s.shakeOrRoute app now prot).peer.handshaked = true)
    (speaks : (s.shakeOrRoute app now prot).peer.Speaks) :
    (s.shakeOrRoute app now prot).peer.lastSend = now ∧
      (s.shakeOrRoute app now prot).peer.lastRecv = s.peer.lastRecv := by
  have shakes : ¬ s.peer.handshaked = true := by simp [before]
  cases prot with
  | http =>
    -- HTTP has no handshake, and another protocol would still wait for its own
    exfalso
    simp only [shakeOrRoute, if_neg shakes] at after speaks
    have routed := routeLoop_http app now { s with peer := s.peer.setHandshaked now }
      (s.peer.conn.rbuff.length + 1) 0 is
    rcases routed with http | waits
    · rcases speaks with raw | rfc6455
      · cases http.symm.trans raw
      · cases http.symm.trans rfc6455
    · exact Bool.noConfusion (waits.symm.trans after)
  | flash | raw | rfc6455 =>
    simp only [shakeOrRoute, if_neg shakes] at after ⊢
    exact handshake_times now s.peer _ before after

theorem protocolsRoute_times (before : s.peer.handshaked = false)
    (after : (s.protocolsRoute app now).peer.handshaked = true)
    (speaks : (s.protocolsRoute app now).peer.Speaks) :
    (s.protocolsRoute app now).peer.lastSend = now ∧
      (s.protocolsRoute app now).peer.lastRecv = now := by
  obtain ⟨p, began⟩ : ∃ p : Peer, p = { s.peer with lastRecv := now } := ⟨_, rfl⟩
  have waits : p.handshaked = false := by rw [began]; exact before
  have heard : p.lastRecv = now := by rw [began]
  have same : p.prot = s.peer.prot := by rw [began]
  cases is : s.peer.prot with
  | some prot =>
    have result : s.protocolsRoute app now = Served.shakeOrRoute app now { s with peer := p } prot := by
      simp only [protocolsRoute, ← began]
      rw [is]
    rw [result] at after speaks ⊢
    have times := shakeOrRoute_times app now { s with peer := p } prot (same.trans is) waits after
      speaks
    exact ⟨times.1, times.2.trans heard⟩
  | none =>
    -- the protocol is looked for first
    obtain ⟨shaken, received⟩ := findHandler_rest p
    cases found : p.findHandler.prot with
    | none =>
      have result : s.protocolsRoute app now = { s with peer := p.findHandler } := by
        simp only [protocolsRoute, ← began, found]
        rw [is]
      rw [result] at after
      exact Bool.noConfusion ((shaken.trans waits).symm.trans after)
    | some prot =>
      have result : s.protocolsRoute app now =
          Served.shakeOrRoute app now { s with peer := p.findHandler } prot := by
        simp only [protocolsRoute, ← began, found]
        rw [is]
      rw [result] at after speaks ⊢
      have times := shakeOrRoute_times app now { s with peer := p.findHandler } prot found
        (shaken.trans waits) after speaks
      exact ⟨times.1, times.2.trans (received.trans heard)⟩

/-- A client that has just shaken hands was sent something now, and heard of. -/
theorem read_shook (bytes : Bytes) (before : s.peer.handshaked = false)
    (after : (s.read app now bytes).peer.handshaked = true)
    (speaks : (s.read app now bytes).peer.Speaks) :
    (s.read app now bytes).peer.lastSend = now ∧ (s.read app now bytes).peer.lastRecv = now := by
  rw [read] at after speaks ⊢
  split at after
  next => exact Bool.noConfusion (before.symm.trans after)
  next open_ =>
    rw [if_neg open_] at speaks ⊢
    exact protocolsRoute_times app now _ before after speaks

end Served

/-! ### The run of `periodic.c` -/

/-- The id of a callback that is made is not `EVS_NO_CALLBACK`. -/
theorem clientCbNew_ne {Fn Data FreeFn : Type} (client : Callbacks Fn Data FreeFn)
    (random : Fin 4) (now : Int) (cbFn : Fn) (cbData : Option Data) (freeFn : Option FreeFn) :
    (clientCbNew client random now (some cbFn) cbData freeFn).2.2 ≠ evsNoCallback := by
  intro none
  have id : 0 < (nextCbId client.cbsId).toNat := by
    rw [nextCbId]
    split
    next => decide
    next notSmaller => exact Nat.lt_of_lt_of_le Nat.one_pos (UInt16.le_iff_toNat_le.mp (UInt16.not_lt.mp notSmaller))
  have packed := congrArg UInt64.toNat none
  simp only [clientCbNew, packCb_toNat] at packed
  have zero : evsNoCallback.toNat = 0 := rfl
  omega

/-- `protocol_raw_do_heartbeat` does one of four things. -/
inductive Peer.Beats (now : Int) (serverCb : EvsCb) (p : Peer) : Peer → Prop
  | dead (silent : p.lastRecv < now - 960000000) : Beats now serverCb p (p.qevClose .heartattack)
  | challenge (bytes : Bytes) (alive : ¬ p.lastRecv < now - 960000000)
      (silent : p.lastRecv < now - 900000000)
      (frame : p.prot.bind (·.frame (heartbeatEvent serverCb)) = some bytes) :
      Beats now serverCb p ({ p with lastSend := now }.record (.frame bytes))
  | heartbeat (bytes : Bytes) (heard : ¬ p.lastRecv < now - 900000000) :
      Beats now serverCb p ({ p with lastSend := now }.record (.heartbeat bytes))
  | quiet (heard : ¬ p.lastRecv < now - 900000000)
      (recent : ¬ p.lastSend < now - 61000000 + 10000000) : Beats now serverCb p p

theorem Peer.protocolsSend_eq {p : Peer} {m : Message} {bytes : Bytes} (now : Int)
    (shook : p.handshaked = true) (frame : p.prot.bind (·.frame m) = some bytes) :
    p.protocolsSend now m = { p with lastSend := now }.record (.frame bytes) := by
  simp only [Peer.protocolsSend, if_pos shook, frame]

theorem Peer.protocolRawDoHeartbeat_beats (now : Int) (p : Peer) (heartbeat : Bytes)
    (serverCb : EvsCb) (shook : p.handshaked = true) (speaks : p.Speaks) :
    p.Beats now serverCb (p.protocolRawDoHeartbeat now heartbeat serverCb) := by
  obtain ⟨bytes, frame⟩ : ∃ bytes,
      p.prot.bind (·.frame (heartbeatEvent serverCb)) = some bytes := by
    rcases speaks with raw | rfc6455
    · exact ⟨_, by rw [raw]; rfl⟩
    · exact ⟨_, by rw [rfc6455]; rfl⟩
  have challenge := protocolsSend_eq now shook frame
  rw [heartbeatEvent] at challenge
  simp only [protocolRawDoHeartbeat, challenge]
  split
  next dead => exact .dead dead
  next alive =>
    split
    next silent => exact .challenge bytes alive silent frame
    next heard =>
      split
      next => exact .heartbeat heartbeat heard
      next recent => exact .quiet heard recent

theorem Served.protocolsHeartbeat_beats {α : Type} (app : App α) (now : Int) (s : Served α)
    (serverCb : EvsCb) (shook : s.peer.handshaked = true) (speaks : s.peer.Speaks) :
    s.peer.Beats now serverCb (s.protocolsHeartbeat app now serverCb).peer := by
  have beats := fun heartbeat =>
    Peer.protocolRawDoHeartbeat_beats now s.peer heartbeat serverCb shook speaks
  rcases speaks with raw | rfc6455
  · simp only [protocolsHeartbeat, if_pos shook, raw, Prot.heartbeatFrame]
    exact beats _
  · simp only [protocolsHeartbeat, if_pos shook, rfc6455, Prot.heartbeatFrame]
    exact beats _

/-- The limits of the heartbeats. -/
def watchdog : Watchdog where
  period := periodicIntervalUsec
  interval := 61000000
  challenge := 900000000
  dead := 960000000
  inside := by decide
  later := by decide
  spaced := by decide

namespace Watched

variable {α : Type} {app : App α} {w w' : Watched α}

/-- The clock that the watchdog goes by. -/
def clock (w : Watched α) : Watchdog.Clock where
  now := w.now
  ranAt := w.ranAt
  sentAt := w.peer.lastSend
  heardAt := w.peer.lastRecv
  challenged := w.challenged

/-- What holds from the handshake on. -/
structure Inv (w : Watched α) : Prop where
  shook : w.peer.handshaked = true
  speaks : w.peer.Speaks
  wrote : w.peer.lastSend ≤ w.wroteAt
  past : w.wroteAt ≤ w.now
  received : w.peer.lastRecv = w.receivedAt
  watches : w.peer.conn.closing = none → watchdog.Watches w.clock

/-- Something that is sent is seen. -/
theorem observe_wrote (inv : Inv w) {asked : Prop} {served : Served α}
    (follows : w.peer.Follows w.now asked served.peer) :
    served.peer.lastSend ≤ (w.observe served).wroteAt ∧ (w.observe served).wroteAt ≤ w.now := by
  obtain ⟨news, log, sent⟩ := follows.sent
  have since : w.peer.news served.peer = news := by
    rw [Peer.news, log, List.drop_left]
  have wrote := inv.wrote
  have past := inv.past
  simp only [observe, since]
  split
  next =>
    rcases sent with same | ⟨new, -⟩
    · exact ⟨same ▸ wrote.trans past, le_refl _⟩
    · exact ⟨new.le, le_refl _⟩
  next unwritten =>
    rcases sent with same | ⟨-, written⟩
    · exact ⟨same ▸ wrote, past⟩
    · exact absurd written unwritten

/-- What is sent is noted by the watchdog too. -/
theorem watches_sent {served : Served α} {asked : Prop} {c : Watchdog.Clock}
    (follows : w.peer.Follows w.now asked served.peer) (sentAt : c.sentAt = w.peer.lastSend)
    (now : c.now = w.now) (watches : watchdog.Watches c) :
    watchdog.Watches { c with sentAt := served.peer.lastSend } := by
  obtain ⟨news, -, sent⟩ := follows.sent
  rcases sent with same | ⟨new, -⟩
  · rw [same, ← sentAt]
    exact watches
  · rw [new, ← now]
    exact watches.send

/-- A step between two runs in which nothing is received. -/
theorem Inv.observe (inv : Inv w) (asked : Prop) {served : Served α}
    (follows : w.peer.Follows w.now asked served.peer)
    (received : served.peer.lastRecv = w.peer.lastRecv) : Inv (w.observe served) := by
  obtain ⟨wrote, past⟩ := observe_wrote inv follows
  refine ⟨follows.handshaked.trans inv.shook, follows.speaks inv.speaks, wrote, past,
    received.trans inv.received, fun open_ => ?_⟩
  have watches := watches_sent follows rfl rfl (inv.watches (follows.still open_))
  show watchdog.Watches
    { w.clock with sentAt := served.peer.lastSend, heardAt := served.peer.lastRecv }
  rw [received]
  exact watches

theorem read_peer (bytes : Bytes) :
    (w.read app bytes).peer = (w.served.read app w.now bytes).peer := by
  simp only [Watched.read]
  split
  next => rfl
  next => rfl

theorem Inv.read (inv : Inv w) (bytes : Bytes) : Inv (w.read app bytes) := by
  cases closing : w.peer.conn.closing with
  | some reason =>
    -- nothing is read any more
    have same : w.served.read app w.now bytes = w.served := by
      rw [Served.read, if_pos (by simp [closing])]
    have shut : w.isOpen = false := by simp [isOpen, closing]
    simp only [Watched.read, same, shut]
    exact inv.observe True (.refl _) rfl
  | none =>
    have isOpen_ : w.isOpen = true := by simp [isOpen, closing]
    obtain ⟨follows, received⟩ :=
      Served.read_follows app w.now w.served bytes inv.shook inv.speaks closing
    obtain ⟨wrote, past⟩ := observe_wrote inv follows
    have watches := watches_sent follows rfl rfl (inv.watches closing).hear
    simp only [Watched.read, isOpen_, if_true]
    refine ⟨follows.handshaked.trans inv.shook, follows.speaks inv.speaks, wrote, past, received,
      fun _ => ?_⟩
    show watchdog.Watches
      { w.clock with
        heardAt := (w.served.read app w.now bytes).peer.lastRecv
        challenged := false
        sentAt := (w.served.read app w.now bytes).peer.lastSend }
    rw [received]
    exact watches

/-! ### Runs -/

/-- A run of `periodic_run` leaves the client in one of four states. -/
theorem periodicRun_beats (app : App α) (inv : Inv w) (callbacks : Callbacks Unit Unit Unit) (random : Fin 4) :
    ∃ serverCb, serverCb ≠ evsNoCallback ∧
      w.peer.Beats w.now serverCb (w.periodicRun app callbacks random).peer ∧
      (w.periodicRun app callbacks random).challenged =
        (w.challenged || w.peer.isChallenged (w.periodicRun app callbacks random).peer serverCb) :=
  ⟨_, clientCbNew_ne callbacks random w.now () none none,
    Served.protocolsHeartbeat_beats app w.now w.served _ inv.shook inv.speaks, rfl⟩

/-- Of the frames, only the challenge is one. -/
theorem isChallenged_frame {p : Peer} {bytes : Bytes} {serverCb : EvsCb} (now : Int)
    (asks : serverCb ≠ evsNoCallback)
    (frame : p.prot.bind (·.frame (heartbeatEvent serverCb)) = some bytes) :
    p.isChallenged ({ p with lastSend := now }.record (.frame bytes)) serverCb = true := by
  have news : p.news ({ p with lastSend := now }.record (.frame bytes)) = [.frame bytes] :=
    List.drop_left
  simp [Peer.isChallenged, news, frame, asks]

theorem isChallenged_heartbeat (p : Peer) (bytes : Bytes) (serverCb : EvsCb) (now : Int) :
    p.isChallenged ({ p with lastSend := now }.record (.heartbeat bytes)) serverCb = false := by
  have news : p.news ({ p with lastSend := now }.record (.heartbeat bytes)) = [.heartbeat bytes] :=
    List.drop_left
  cases frame : p.prot.bind (·.frame (heartbeatEvent serverCb)) with
  | none => simp [Peer.isChallenged, news, frame]
  | some bytes => simp [Peer.isChallenged, news, frame]

theorem isChallenged_refl (p : Peer) (serverCb : EvsCb) : p.isChallenged p serverCb = false := by
  simp [Peer.isChallenged, Peer.news]

theorem beats_follows {now : Int} {serverCb : EvsCb} {p p' : Peer} (beats : p.Beats now serverCb p') :
    p.Follows now True p' ∧ p'.lastRecv = p.lastRecv := by
  cases beats with
  | dead => exact ⟨.qevClose p .heartattack fun _ => trivial, Served.setConn_lastRecv _ _⟩
  | challenge bytes => exact ⟨.write p (.frame bytes) rfl, rfl⟩
  | heartbeat bytes => exact ⟨.write p (.heartbeat bytes) rfl, rfl⟩
  | quiet => exact ⟨.refl p, rfl⟩

theorem Inv.periodicRun (inv : Inv w) (callbacks : Callbacks Unit Unit Unit) (random : Fin 4) :
    Inv (w.periodicRun app callbacks random) := by
  -- The pass does one of four things, and `Beats` says which.
  obtain ⟨serverCb, asks, beats, challenged⟩ := periodicRun_beats app inv callbacks random
  obtain ⟨follows, received⟩ := beats_follows beats
  have seen := observe_wrote inv follows
  refine ⟨follows.handshaked.trans inv.shook, follows.speaks inv.speaks, seen.1, seen.2,
    received.trans inv.received, fun open_ => ?_⟩
  have watches := inv.watches (follows.still open_)
  have clock : (w.periodicRun app callbacks random).clock =
      { now := w.now
        ranAt := w.now
        sentAt := (w.periodicRun app callbacks random).peer.lastSend
        heardAt := w.peer.lastRecv
        challenged := w.challenged ||
          w.peer.isChallenged (w.periodicRun app callbacks random).peer serverCb } := by
    rw [← received, ← challenged]
    rfl
  rw [clock]
  generalize (w.periodicRun app callbacks random).peer = p' at beats open_
  -- A client found dead is closed, against `open_`; the other three are steps of the clock.
  cases beats with
  | dead silent =>
    have closed : (w.peer.qevClose .heartattack).conn.closing ≠ none := by
      simp [Peer.qevClose, Conn.qevClose]
    exact absurd open_ closed
  | challenge bytes alive silent frame =>
    rw [isChallenged_frame w.now asks frame, Bool.or_true]
    exact watches.run (.challenge silent)
  | heartbeat bytes heard =>
    rw [isChallenged_heartbeat, Bool.or_false]
    exact watches.run (.send heard)
  | quiet heard recent =>
    rw [isChallenged_refl, Bool.or_false]
    exact watches.run (.pass heard recent)

theorem protocolsSend_lastRecv (now : Int) (p : Peer) (m : Message) :
    (p.protocolsSend now m).lastRecv = p.lastRecv := by
  simp only [Peer.protocolsSend]
  split
  next =>
    split
    next => rfl
    next => rfl
  next => rfl

theorem protocolsBcastWrite_lastRecv (now : Int) (p : Peer) (evPath json : Bytes) :
    (p.protocolsBcastWrite now evPath json).lastRecv = p.lastRecv := by
  simp only [Peer.protocolsBcastWrite]
  split
  next =>
    split
    next => rfl
    next => rfl
  next => rfl

theorem Inv.tick (inv : Inv w) (usec : Nat)
    (soon : w.now + usec ≤ w.ranAt + periodicIntervalUsec) :
    Inv { w with now := w.now + usec } := by
  have later : w.now ≤ w.now + usec := Int.le_add_of_nonneg_right (Int.natCast_nonneg usec)
  exact ⟨inv.shook, inv.speaks, inv.wrote, inv.past.trans later, inv.received,
    fun open_ => (inv.watches open_).tick later soon⟩

theorem Inv.step {l : Label} (inv : Inv w) (stepped : w.step app l = some w') : Inv w' := by
  cases l with
  | tick usec =>
    obtain ⟨soon, ⟨⟩⟩ := Option.ite_none_right_eq_some.mp stepped
    exact inv.tick usec soon
  | read bytes =>
    cases stepped
    exact inv.read bytes
  | send m =>
    cases stepped
    exact inv.observe False (.protocolsSend _ m) (protocolsSend_lastRecv _ _ m)
  | bcastWrite evPath json =>
    cases stepped
    exact inv.observe False (.protocolsBcastWrite _ evPath json)
      (protocolsBcastWrite_lastRecv _ _ evPath json)
  | close reason =>
    cases stepped
    exact inv.observe True (.qevClose _ reason fun _ => trivial)
      (Served.setConn_lastRecv _ _)
  | periodic callbacks random =>
    cases stepped
    exact inv.periodicRun callbacks random

theorem Shook.inv (shook : w.Shook app) : Inv w := by
  obtain ⟨⟨s, bytes, before, read⟩, after, speaks, past, soon, wrote, received, -⟩ := shook
  have done : (s.read app w.now bytes).peer = w.peer := congrArg (·.peer) read.symm
  have times := Served.read_shook app w.now s bytes before (done ▸ after) (done ▸ speaks)
  rw [done] at times
  exact ⟨after, speaks, (times.1.trans wrote.symm).le, wrote.le, times.2.trans received.symm,
    fun _ => .start past soon times.1 times.2⟩

/-- A raw or WebSocket client, from its handshake on. While it is open, something
was written to it within the last 61 seconds. And it is closed for a heart attack
by a run only, when nothing has come from it for more than 16 minutes and an
earlier run has challenged it since, unless it is a handler that closes it so. -/
theorem heartbeat_guarantee {α : Type} (app : App α) (w₀ w : Watched α) (ls : List Label)
    (shook : w₀.Shook app) (ran : (system app).run w₀ ls = some w)
    (isOpen : w.peer.conn.closing = none) :
    w.now - w.wroteAt ≤ 61000000 ∧
      ∀ l w', w.step app l = some w' → w'.peer.conn.closing = some .heartattack →
        ((∃ callbacks random, l = .periodic callbacks random) ∧
          960000000 < w.now - w.receivedAt ∧ w.challenged = true) ∨
        l = .close .heartattack ∨ (∃ bytes, l = .read bytes) ∧ app.Asks := by
  have inv : Inv w := (system app).run_invariant Inv (fun _ _ _ inv stepped => inv.step stepped)
    w₀ w ls shook.inv ran
  have watches := inv.watches isOpen
  -- An open client is watched: what it was sent last is recent.
  constructor
  · have age : w.now - w.peer.lastSend ≤ 61000000 := watches.age
    have wrote := inv.wrote
    omega
  · intro l w' stepped dead
    have notYet : w.peer.conn.closing ≠ some .heartattack := by simp [isOpen]
    cases l with
    | tick usec =>
      obtain ⟨-, ⟨⟩⟩ := Option.ite_none_right_eq_some.mp stepped
      exact absurd dead notYet
    -- a read closes with this reason only where the application asks for it
    | read bytes =>
      cases stepped
      have follows := (Served.read_follows app w.now w.served bytes inv.shook inv.speaks isOpen).1
      have closed : (w.served.read app w.now bytes).peer.conn.closing = some .heartattack := by
        rw [← read_peer]
        exact dead
      exact Or.inr (Or.inr ⟨⟨bytes, rfl⟩, (follows.spared closed).resolve_left notYet⟩)
    | send m =>
      cases stepped
      have follows : w.peer.Follows w.now False (w.peer.protocolsSend w.now m) := .protocolsSend _ m
      exact absurd ((follows.spared dead).resolve_right id) notYet
    | bcastWrite evPath json =>
      cases stepped
      have follows : w.peer.Follows w.now False (w.peer.protocolsBcastWrite w.now evPath json) :=
        .protocolsBcastWrite _ evPath json
      exact absurd ((follows.spared dead).resolve_right id) notYet
    | close reason =>
      cases stepped
      have follows : w.peer.Follows w.now (reason = .heartattack) (w.peer.qevClose reason) :=
        .qevClose _ reason id
      have same := (follows.spared dead).resolve_left notYet
      exact Or.inr (Or.inl (congrArg _ same))
    -- the pass found the client silent, and had challenged it
    | periodic callbacks random =>
      cases stepped
      obtain ⟨serverCb, -, beats, -⟩ := periodicRun_beats app inv callbacks random
      refine Or.inl ⟨⟨callbacks, random, rfl⟩, ?_⟩
      generalize (w.periodicRun app callbacks random).peer = p' at beats dead
      cases beats with
      | dead silent =>
        refine ⟨?_, watches.challenged silent⟩
        rw [← inv.received]
        omega
      | challenge => exact absurd dead notYet
      | heartbeat => exact absurd dead notYet
      | quiet => exact absurd dead notYet

/-- A raw client says hello. -/
def hello : Watched Unit where
  served := Served.read answering 0 ⟨(), {}⟩ (str "/qio/ohai")
  now := 0
  ranAt := 0
  wroteAt := 0
  receivedAt := 0
  challenged := false

/-- Then it says nothing for more than 16 minutes. -/
def silence : List Label :=
  (List.replicate 96 [.tick 10000000, .periodic { cbs := fun _ => none, cbsId := 0 } 0]).flatten ++
    [.tick 10000000]

theorem heartbeat_guarantee_silence :
    ∃ w w', (system answering).run hello silence = some w ∧ w.now - w.wroteAt ≤ 61000000 ∧
      w.step answering (.periodic { cbs := fun _ => none, cbsId := 0 } 0) = some w' ∧
      w'.peer.conn.closing = some .heartattack ∧ 960000000 < w.now - w.receivedAt := by
  have shook : hello.Shook answering :=
    ⟨⟨⟨(), {}⟩, str "/qio/ohai", rfl, rfl⟩, by decide, by decide, by decide, by decide, rfl, rfl,
      rfl⟩
  have runs : ((system answering).run hello silence).isSome := by decide +kernel
  obtain ⟨w, ran⟩ := Option.isSome_iff_exists.mp runs
  have open_ : ∀ w ∈ (system answering).run hello silence, w.peer.conn.closing = none := by
    decide +kernel
  have reaped : ∀ w ∈ (system answering).run hello silence,
      (w.periodicRun answering { cbs := fun _ => none, cbsId := 0 } 0).peer.conn.closing =
        some .heartattack := by
    decide +kernel
  obtain ⟨age, closes⟩ := heartbeat_guarantee answering hello w silence shook ran (open_ w ran)
  refine ⟨w, _, ran, age, rfl, reaped w ran, ?_⟩
  rcases closes (.periodic { cbs := fun _ => none, cbsId := 0 } 0) _ rfl (reaped w ran) with
    ⟨-, silent, -⟩ | ⟨⟨⟩⟩ | ⟨⟨_, ⟨⟩⟩, -⟩
  exact silent

end Watched

end QuickIO
