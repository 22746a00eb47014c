import QuickIO.Protocols

/-!
# Frames of a broadcast

`protocols_bcast` builds the frames of a broadcast once for each protocol, with the
path joined already, and `protocols_bcast_write` picks the frames of a client by the
id of its protocol. A client cannot tell this from a `protocols_send` of its own.
-/
namespace QuickIO

/-- `struct protocol_frames`, with both its buffers `NULL` or as its protocol made
them. Only HTTP has a `raw` buffer. -/
inductive ProtocolFrames
  | null
  | plain (defn : Bytes)
  | http (frames : HttpFrames)
deriving DecidableEq, Repr

/-- The `frame` function of a protocol; flash has none. -/
def Prot.frameFn : Prot → Option (Message → ProtocolFrames)
  | .http => some fun m => .http (protocolHttpFrame m)
  | .flash => none
  | .raw => some fun m => .plain (protocolRawFrame m)
  | .rfc6455 => some fun m => .plain (protocolRfc6455Frame m)

/-- `_protocols` -/
def protocols : List Prot := [.http, .flash, .raw, .rfc6455]

/-- `prot->id`, the index in `_protocols` -/
def Prot.id : Prot → Nat
  | .http => 0
  | .flash => 1
  | .raw => 2
  | .rfc6455 => 3

/-- `protocols_bcast` -/
def protocolsBcast (evPath json : Bytes) : List ProtocolFrames :=
  protocols.map fun prot =>
    match prot.frameFn with
    | none => .null
    | some frame => frame { evPath, evExtra := [], serverCb := evsNoCallback, json }

/-- Clients with a socket that speak the raw protocol or RFC 6455, and the sessions
of HTTP. There is one clock. -/
structure World where
  peers : Nat → Peer
  http : Http

/-- Whom an event is for. -/
inductive Recipient
  | peer (c : Nat)
  | surrogate (s : SurrId)
deriving DecidableEq, Repr

/-- `_send` on a client without a `send` function. -/
def Peer.send (now : Int) (p : Peer) (entry : Bytes → Entry) : ProtocolFrames → Peer
  | .plain defn => { p with lastSend := now }.record (entry defn)
  | _ => { p with lastSend := now }

/-- `_send` on a surrogate -/
def Http.send (σ : Http) (surrogate : SurrId) (pframes : ProtocolFrames) : Http :=
  let σ := σ.setSurr surrogate fun r => { r with lastSend := σ.now }
  match pframes with
  | .http frames => σ.protocolHttpSend surrogate frames
  | _ => σ

namespace World

variable (w : World)

def setPeer (c : Nat) (p : Peer) : World := { w with peers := Function.update w.peers c p }

/-- `protocols_send` -/
def protocolsSend (m : Message) : Recipient → World
  | .peer c => w.setPeer c ((w.peers c).protocolsSend w.http.now m)
  | .surrogate s => { w with http := w.http.protocolsSend s m }

/-- `protocols_bcast_write`. A subscriber has a protocol, and surrogates are always
handshaked. -/
def protocolsBcastWrite (frames : List ProtocolFrames) : Recipient → World
  | .peer c =>
    let p := w.peers c
    match p.prot with
    -- A subscriber has a protocol.
    | none => w
    | some prot =>
      if p.handshaked then
        w.setPeer c (p.send w.http.now .broadcast (frames.getD prot.id .null))
      else w
  | .surrogate s => { w with http := w.http.send s (frames.getD Prot.http.id .null) }

/-- The client is one that `Peer` models: it has a socket, and no HTTP. -/
def Framed : Recipient → Prop
  | .peer c => (w.peers c).prot = some .raw ∨ (w.peers c).prot = some .rfc6455
  | .surrogate _ => True

end World

/-- What was written to a client. -/
def Peer.written (p : Peer) : List Bytes :=
  p.log.filterMap fun
    | .frame bytes | .broadcast bytes | .heartbeat bytes => some bytes
    | _ => none

/-- Two clients that were written the same, and are the same but for what their logs
call it. -/
structure Peer.Alike (p q : Peer) : Prop where
  written : q.written = p.written
  rest : { q with log := [] } = { p with log := [] }

/-- Clients that are alike, and the same sessions. -/
structure World.Alike (w w' : World) : Prop where
  peers : ∀ c, (w.peers c).Alike (w'.peers c)
  http : w'.http = w.http

/-! ### The frames are the same -/

/-- It does not matter where the path was joined. -/
theorem protocolRawFormat_joined (evPath evExtra : Bytes) (serverCb : EvsCb) (json : Bytes) :
    protocolRawFormat (evPath ++ evExtra) [] serverCb json =
      protocolRawFormat evPath evExtra serverCb json := by
  simp [protocolRawFormat]

theorem frameFn_joined {prot : Prot} {frame : Message → ProtocolFrames}
    (is : prot.frameFn = some frame) (evPath evExtra json : Bytes) :
    frame { evPath := evPath ++ evExtra, evExtra := [], serverCb := evsNoCallback, json } =
      frame { evPath, evExtra, serverCb := evsNoCallback, json } := by
  have joined := protocolRawFormat_joined evPath evExtra evsNoCallback json
  cases prot with
  | http =>
    cases is
    simp only [protocolHttpFrame, joined]
  | flash => cases is
  | raw =>
    cases is
    simp only [protocolRawFrame, joined]
  | rfc6455 =>
    cases is
    simp only [protocolRfc6455Frame, joined]

/-- The frames at the id of a protocol are those of the protocol. -/
theorem protocolsBcast_id (prot : Prot) {frame : Message → ProtocolFrames}
    (is : prot.frameFn = some frame) (evPath evExtra json : Bytes) :
    (protocolsBcast (evPath ++ evExtra) json).getD prot.id .null =
      frame { evPath, evExtra, serverCb := evsNoCallback, json } := by
  rw [← frameFn_joined is]
  cases prot with
  | flash => cases is
  | http => cases is; rfl
  | raw => cases is; rfl
  | rfc6455 => cases is; rfl

/-! ### One write -/

namespace Peer

variable {p q : Peer}

theorem Alike.refl (p : Peer) : p.Alike p := ⟨rfl, rfl⟩

theorem Alike.prot (alike : p.Alike q) : q.prot = p.prot := by
  have same := congrArg Peer.prot alike.rest
  exact same

theorem Alike.handshaked (alike : p.Alike q) : q.handshaked = p.handshaked := by
  have same := congrArg Peer.handshaked alike.rest
  exact same

/-- The same bytes are written, under whatever name. -/
theorem Alike.record (alike : p.Alike q) (now : Int) (bytes : Bytes) :
    ({ p with lastSend := now }.record (.frame bytes)).Alike
      ({ q with lastSend := now }.record (.broadcast bytes)) where
  written := by
    have same := alike.written
    simp only [Peer.written] at same
    simp [Peer.written, Peer.record, same]
  rest := by
    have same := congrArg (fun p : Peer => { p with lastSend := now }) alike.rest
    exact same

theorem protocolsSend_frame {prot : Prot} {m : Message} {bytes : Bytes}
    (speaks : p.prot = some prot) (frame : prot.frame m = some bytes) (now : Int) :
    p.protocolsSend now m =
      if p.handshaked then { p with lastSend := now }.record (.frame bytes) else p := by
  have found : (p.prot.bind fun prot => prot.frame m) = some bytes := by
    rw [speaks]
    exact frame
  rw [Peer.protocolsSend, found]

/-- A raw client or a WebSocket is written the frames of its protocol. -/
theorem Alike.bcast (alike : p.Alike q) {prot : Prot} (speaks : p.prot = some prot)
    (framed : prot = .raw ∨ prot = .rfc6455) (now : Int) (evPath evExtra json : Bytes) :
    (p.protocolsSend now { evPath, evExtra, serverCb := evsNoCallback, json }).Alike
      (if q.handshaked then q.send now .broadcast
        ((protocolsBcast (evPath ++ evExtra) json).getD prot.id .null) else q) := by
  rw [alike.handshaked]
  rcases framed with rfl | rfl
  · rw [protocolsSend_frame speaks rfl, protocolsBcast_id .raw rfl]
    split
    next => exact alike.record now _
    next => exact alike
  · rw [protocolsSend_frame speaks rfl, protocolsBcast_id .rfc6455 rfl]
    split
    next => exact alike.record now _
    next => exact alike

/-- A send changes no protocol. -/
theorem protocolsSend_prot (now : Int) (m : Message) : (p.protocolsSend now m).prot = p.prot := by
  simp only [protocolsSend]
  split
  next => split <;> rfl
  next => rfl

end Peer

/-- A surrogate is given both forms of the frame, as by a send. -/
theorem Http.send_bcast (σ : Http) (s : SurrId) (evPath evExtra json : Bytes) :
    σ.send s ((protocolsBcast (evPath ++ evExtra) json).getD Prot.http.id .null) =
      σ.protocolsSend s { evPath, evExtra, serverCb := evsNoCallback, json } := by
  rw [protocolsBcast_id .http rfl]
  rfl

namespace World

variable {w w' : World}

theorem Alike.refl (w : World) : w.Alike w := ⟨fun c => .refl (w.peers c), rfl⟩

theorem Alike.setPeer (alike : w.Alike w') (c : Nat) {p q : Peer} (same : p.Alike q) :
    (w.setPeer c p).Alike (w'.setPeer c q) where
  peers d := by
    by_cases here : d = c
    · subst here
      simpa [World.setPeer] using same
    · simpa [World.setPeer, here] using alike.peers d
  http := alike.http

/-- One recipient of a broadcast. -/
theorem Alike.step (alike : w.Alike w') (r : Recipient) (framed : w.Framed r)
    (evPath evExtra json : Bytes) :
    (w.protocolsSend { evPath, evExtra, serverCb := evsNoCallback, json } r).Alike
      (w'.protocolsBcastWrite (protocolsBcast (evPath ++ evExtra) json) r) := by
  cases r with
  | surrogate s =>
    -- both are the frame of the HTTP protocol
    refine ⟨alike.peers, ?_⟩
    simp only [protocolsBcastWrite, World.protocolsSend]
    rw [Http.send_bcast, alike.http]
  | peer c =>
    have same := alike.peers c
    -- the frame at the id of the client's protocol is the one it would be sent
    obtain ⟨prot, speaks, framed⟩ : ∃ prot, (w.peers c).prot = some prot ∧
        (prot = .raw ∨ prot = .rfc6455) := by
      rcases framed with raw | rfc6455
      · exact ⟨.raw, raw, Or.inl rfl⟩
      · exact ⟨.rfc6455, rfc6455, Or.inr rfl⟩
    have speaks' := same.prot.trans speaks
    have written := same.bcast speaks framed w.http.now evPath evExtra json
    simp only [protocolsBcastWrite, World.protocolsSend, speaks', alike.http]
    split
    next ready =>
      rw [if_pos ready] at written
      exact alike.setPeer c written
    next unready =>
      rw [if_neg unready] at written
      -- a client that is not handshaked is written nothing
      have still : w'.setPeer c (w'.peers c) = w' := by simp [World.setPeer]
      rw [← still]
      exact alike.setPeer c written

theorem protocolsSend_framed (m : Message) (r r' : Recipient) (framed : w.Framed r') :
    (w.protocolsSend m r).Framed r' := by
  cases r' with
  | surrogate s => trivial
  | peer c =>
    cases r with
    | surrogate s => exact framed
    | peer d =>
      have prot : ((w.protocolsSend m (.peer d)).peers c).prot = (w.peers c).prot := by
        by_cases here : c = d
        · subst here
          simp [World.protocolsSend, World.setPeer, Peer.protocolsSend_prot]
        · simp [World.protocolsSend, World.setPeer, here]
      simp only [Framed, prot]
      exact framed

theorem Alike.foldl (alike : w.Alike w') (recipients : List Recipient)
    (framed : ∀ r ∈ recipients, w.Framed r) (evPath evExtra json : Bytes) :
    (recipients.foldl
        (fun w => w.protocolsSend { evPath, evExtra, serverCb := evsNoCallback, json }) w).Alike
      (recipients.foldl
        (fun w => w.protocolsBcastWrite (protocolsBcast (evPath ++ evExtra) json)) w') := by
  induction recipients generalizing w w' with
  | nil => exact alike
  | cons r recipients ih =>
    have first := alike.step r (framed r List.mem_cons_self) evPath evExtra json
    exact ih first fun r' member =>
      protocolsSend_framed _ r r' (framed r' (List.mem_cons_of_mem r member))

/-- The broadcast fast path: writing the frames that were built once to any clients,
in any state of theirs, leaves each of them as a send of its own would. -/
theorem bcast_eq_send (w : World) (recipients : List Recipient)
    (framed : ∀ r ∈ recipients, w.Framed r) (evPath evExtra json : Bytes) :
    (recipients.foldl
        (fun w => w.protocolsSend { evPath, evExtra, serverCb := evsNoCallback, json }) w).Alike
      (recipients.foldl
        (fun w => w.protocolsBcastWrite (protocolsBcast (evPath ++ evExtra) json)) w) :=
  (Alike.refl w).foldl recipients framed evPath evExtra json

/-- A raw client, a WebSocket, and a session with a poller. -/
def sample : World where
  peers c := { prot := some (if c = 0 then .raw else .rfc6455), handshaked := true }
  http := { Http.start with
    socks := fun _ => { inRequest := true, client := some 0 }
    surrs := fun _ => { client := some 0 } }

theorem bcast_eq_send_sample :
    let recipients : List Recipient := [.peer 0, .surrogate 0, .peer 1, .surrogate 0]
    let send := fun w : World => w.protocolsSend ⟨str "/a", str "/b", evsNoCallback, str "1"⟩
    let write := fun w : World => w.protocolsBcastWrite (protocolsBcast (str "/a/b") (str "1"))
    ((recipients.foldl write sample).http.sent.length = 1 ∧
      ((recipients.foldl write sample).http.surrs 0).wbuff = str "/a/b:0=1\n") ∧
      (recipients.foldl send sample).Alike (recipients.foldl write sample) := by
  refine ⟨by decide, bcast_eq_send sample _ ?_ (str "/a") (str "/b") (str "1")⟩
  intro r member
  simp only [List.mem_cons, List.not_mem_nil, or_false] at member
  rcases member with rfl | rfl | rfl | rfl
  · exact Or.inl rfl
  · trivial
  · exact Or.inr rfl
  · trivial

end World

end QuickIO
