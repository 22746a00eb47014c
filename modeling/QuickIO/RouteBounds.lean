import QuickIO.HttpReads

/-!
# The route loop stays in its buffer

Whatever is in the buffer, a call of a route function that returns `PROT_OK` uses up at
least a byte, and no call uses up more than there is. So `_route` comes to an end, and what
it erases is there.
-/
namespace QuickIO

open Lib

/-! ### One call -/

section Framed

variable {F : EventFramer} {routeFn : RawHandle → Conn → Nat → Routed}

/-- A route function leaves the buffer as long as it was when it finds no event. -/
def BadKeeps (F : EventFramer) (routeFn : RawHandle → Conn → Nat → Routed) : Prop :=
  ∀ (handle : RawHandle) (conn : Conn) (used : Nat) (why : Option CloseReason),
    F.next (conn.rbuff.drop used) = .bad why → used ≤ conn.rbuff.length →
      (routeFn handle conn used).conn.rbuff.length = conn.rbuff.length

theorem raw_badKeeps : BadKeeps rawFramer protocolRawRoute := by
  intro handle conn used why next inside
  have next : rawNext (conn.rbuff.drop used) = .bad why := next
  have here : readAt (conn.rbuff.drop used) 0 8 = readAt conn.rbuff used 8 := by simp [readAt]
  simp only [rawNext, List.length_drop, here] at next
  simp only [protocolRawRoute]
  split at next
  next => cases next
  next long =>
    rw [if_neg long]
    -- a whole header is bad only by its length
    cases sum : qevSafeUadd (loadBE (readAt conn.rbuff used 8)) 8 with
    | none => rfl
    | some total =>
      simp only [sum] at next
      split at next <;> cases next

theorem rfc6455_badKeeps : BadKeeps rfc6455Framer rfc6455Route := by
  intro handle conn used why next inside
  have next : rfc6455Next (conn.rbuff.drop used) = .bad why := next
  simp only [rfc6455Next] at next
  split at next
  next => cases next
  -- the header is bad already
  next reason head => simp only [rfc6455Route, decode, head, Conn.qevClose]
  next headerLen len mask head =>
    split at next
    next none => simp only [rfc6455Route, decode, head, decodePayload, none]
    next total sum =>
      obtain rfl := qevSafeUadd_eq_some sum
      split at next
      next => cases next
      next whole =>
        obtain ⟨rbuff, size, -, routed⟩ := rfc6455Route_whole handle conn used headerLen len mask
          inside head sum (by omega)
        split at next
        next => cases next
        -- the payload is no text, and was unmasked in place
        next invalid =>
          rw [routed, if_neg invalid]
          exact size

end Framed

namespace Served

variable {α : Type}

theorem handled_peer (app : App α) (now : Int) (s : Served α) (r : Routed) :
    (s.handled app now r).peer.conn.rbuff = r.conn.rbuff ∧
      (s.handled app now r).peer.prot = s.peer.prot := by
  simp only [handled]
  split
  next => exact ⟨by rw [Peer.setConn_conn], Peer.setConn_prot _ _⟩
  next event _ =>
    obtain ⟨prot, -, rbuff⟩ := Peer.acts_rest now (app.rawHandle s.state event).acts
      ((s.peer.setConn r.conn).record (.event event))
    refine ⟨rbuff.trans ?_, prot.trans (Peer.setConn_prot _ _)⟩
    exact congrArg Conn.rbuff (Peer.setConn_conn _ _)

/-- What a call keeps and how far it goes. -/
structure Bounded (s : Served α) (used : Nat) (r : Served α × Nat × ProtocolStatus) : Prop where
  length : r.1.peer.conn.rbuff.length = s.peer.conn.rbuff.length
  inside : r.2.1 ≤ s.peer.conn.rbuff.length
  grows : used ≤ r.2.1
  further : r.2.2 = .ok → used < r.2.1
  prot : r.2.2 = .ok → r.1.peer.prot = s.peer.prot

/-- A call of a route function that follows a framer. -/
theorem routes_bounded {app : App α} {prot : Prot} {F : EventFramer}
    {routeFn : RawHandle → Conn → Nat → Routed} (routes : Routes app prot F routeFn)
    (keeps : BadKeeps F routeFn) (now : Int) (s : Served α) (used : Nat)
    (speaks : s.peer.prot = some prot) (inside : used ≤ s.peer.conn.rbuff.length) :
    s.Bounded used (s.protRoute app now used) := by
  cases next : F.next (s.peer.conn.rbuff.drop used) with
  | more =>
    rw [routes.route s now used speaks, routes.follows.more next]
    obtain ⟨rbuff, prot⟩ := handled_peer app now s
      { conn := s.peer.conn, used, status := .again, handed := none }
    exact ⟨congrArg List.length rbuff, inside, le_refl used, by simp, by simp⟩
  | bad why =>
    have length := keeps (app.handleAt s.state used) s.peer.conn used why next inside
    obtain ⟨left, routed⟩ := routes.follows.bad (app.handleAt s.state used) next inside
    rw [routed] at length
    rw [routes.route s now used speaks, routed]
    obtain ⟨rbuff, prot⟩ := handled_peer app now s
      { conn := ({ s.peer.conn with rbuff := left } : Conn).closeWhy why, used, status := .fatal,
        handed := none }
    exact ⟨(congrArg List.length rbuff).trans length, inside, le_refl used, by simp, by simp⟩
  | item n event =>
    obtain ⟨positive, size⟩ := F.size next
    rw [List.length_drop] at size
    obtain ⟨t, found, took⟩ := protRoute_item routes now s speaks inside next
    rw [found]
    refine ⟨took.length, ?_, Nat.le_add_right used n, fun _ => ?_, fun _ => took.prot⟩
    · show used + n ≤ _
      omega
    · show used < used + n
      omega

variable (h : HttpSide) (base : App α)

/-- A call of `protocol_http_route`. -/
theorem http_bounded (now : Int) (s : Served (α × HttpSock)) (used : Nat)
    (speaks : s.peer.prot = some .http) (inside : used ≤ s.peer.conn.rbuff.length) :
    s.Bounded used (s.protRoute (h.app base) now used) := by
  have forward := HttpSide.protocolHttpRoute_forward (h := h) s.state.2 inside
  cases result : h.protocolHttpRoute s.state.2 s.peer.conn.rbuff used with
  | upgraded t =>
    simp only [protRoute, speaks, HttpSide.app, result]
    exact ⟨rfl, le_refl _, inside, by simp, by simp⟩
  | routed t next status closes =>
    rw [result] at forward
    obtain ⟨low, high⟩ := forward
    have further : status = .ok → used < next := by
      rintro rfl
      exact HttpSide.protocolHttpRoute_further inside result
    cases closes with
    | none =>
      simp only [protRoute, speaks, HttpSide.app, result]
      exact ⟨rfl, high, low, further, fun _ => rfl⟩
    | some reason =>
      have kept : (s.peer.qevClose reason).conn.rbuff = s.peer.conn.rbuff := by
        simp [Peer.qevClose, Conn.qevClose]
      simp only [protRoute, speaks, HttpSide.app, result]
      refine ⟨congrArg List.length kept, high, low, further, fun _ => ?_⟩
      exact Peer.setConn_prot _ _

/-- The protocols with a `route`. -/
def Routable (s : Served α) : Prop :=
  s.peer.prot = some .raw ∨ s.peer.prot = some .rfc6455 ∨ s.peer.prot = some .http

theorem protRoute_bounded (now : Int) (s : Served (α × HttpSock)) (used : Nat)
    (routable : s.Routable) (inside : used ≤ s.peer.conn.rbuff.length) :
    s.Bounded used (s.protRoute (h.app base) now used) := by
  rcases routable with raw | rfc6455 | http
  · exact routes_bounded (raw_routes (h.app base)) raw_badKeeps now s used raw inside
  · exact routes_bounded (rfc6455_routes (h.app base)) rfc6455_badKeeps now s used rfc6455 inside
  · exact http_bounded h base now s used http inside

/-! ### The loop -/

/-- `last_recv = qev_monotonic` -/
def heard (s : Served α) (now : Int) : Served α := { s with peer := { s.peer with lastRecv := now } }

/-- The loop of `_route`, from a call on, is left with `last` bytes used. -/
inductive Leaves (app : App α) (now : Int) : Served α → Nat → Served α → Nat → Prop
  | done {t u : Served α} {used next : Nat} (ok : t.protRoute app now used = (u, next, .ok))
      (all : ¬next < u.peer.conn.rbuff.length) : Leaves app now t used (u.heard now) next
  | again {t u : Served α} {used next : Nat}
      (waits : t.protRoute app now used = (u, next, .again)) : Leaves app now t used u next
  | fatal {t u : Served α} {used next : Nat}
      (failed : t.protRoute app now used = (u, next, .fatal)) :
      Leaves app now t used { u with peer := u.peer.qevClose .unknownError } next
  | next {t u v : Served α} {used next last : Nat}
      (ok : t.protRoute app now used = (u, next, .ok)) (more : next < u.peer.conn.rbuff.length)
      (rest : Leaves app now (u.heard now) next v last) : Leaves app now t used v last

variable {h base}

end Served

end QuickIO
