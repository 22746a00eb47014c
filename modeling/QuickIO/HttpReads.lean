import QuickIO.HttpBytes

/-!
# Requests in a stream

Requests may be cut anywhere, but for one thing: a rejected WebSocket upgrade
uses up the buffer when its header is there. Whatever follows in the same read is
lost, and what is left of a body is taken for the next request.
-/
namespace QuickIO

open Lib

namespace HttpSide

variable {h : HttpSide} {σ : Http} {logged : List Piece} {rbuff future : Bytes} {used : Nat}

/-! ### Reads -/

variable {α : Type} {base : App α}

/-- A client whose bytes were processed up to those that wait. -/
structure At (h : HttpSide) (σ : Http) (logged : List Piece) (future : Bytes) (p : Progress)
    (s : Served (α × HttpSock)) (waiting : Bytes) : Prop where
  prot : s.peer.prot = some .http
  isOpen : s.peer.conn.closing = none
  serving : h.Serving σ logged p s.state.2
  unread : p.unread = waiting ++ future
  partially : p.Partial

/-- What the loop of `_route` comes to for HTTP: everything was processed but for
a part that waits, or an upgrade whose header is there does not end with the read
that has used it up. -/
theorem loop_at (now : Int) (fuel : Nat) (s : Served (α × HttpSock)) (used : Nat) (p : Progress)
    (accepts : h.Accepts σ p.all)
    (stands : At h σ logged future p s (s.peer.conn.rbuff.drop used))
    (inside : used ≤ s.peer.conn.rbuff.length) (enough : s.peer.conn.rbuff.length - used < fuel)
    (sized : s.peer.conn.rbuff.length + future.length < 2 ^ 64) :
    let t := Served.routeLoop (h.app base) now fuel s used
    (∃ q, At h σ logged future q t t.peer.conn.rbuff ∧ Advances future.length p q ∧
        q.Idle t.peer.conn.rbuff.length) ∨
      (Astray logged p.all t.state.2 ∧
        ∃ m n, Ends p.rem m n ∧ future.length ≤ m ∧ n ≠ future.length) := by
  induction fuel generalizing s used p with
  | zero => omega
  | succ fuel ih =>
    -- Every call ends in one of three ways, and only `taken` may go round again.
    have call := call_served accepts stands.serving inside stands.partially stands.unread sized
    have routed : ∀ t next status, h.protocolHttpRoute s.state.2 s.peer.conn.rbuff used =
        .routed t next status none → s.protRoute (h.app base) now used =
          ({ s with state := (s.state.1, t) }, next, status) := by
      intro t next status result
      simp only [Served.protRoute, stands.prot, app, result]
    generalize result : h.protocolHttpRoute s.state.2 s.peer.conn.rbuff used = outcome at call
    cases call with
    -- the buffer ends inside a request: wait
    | @again t q next serving advances unread idle insideNext =>
      left
      simp only [Served.routeLoop, routed t next .again result]
      exact ⟨q, ⟨stands.prot, stands.isOpen, serving, unread, idle_partial idle⟩, advances, idle⟩
    -- a request was served, which took at least one byte
    | @taken t q next serving advances unread between further insideNext =>
      have partially : q.Partial := by
        intro r begun
        rw [between] at begun
        cases begun
      have accepted : h.Accepts σ q.all := advances.all ▸ accepts
      simp only [Served.routeLoop, routed t next .ok result]
      split
      next more =>
        have rest := ih ⟨(s.state.1, t), { s.peer with lastRecv := now }⟩ next q
          accepted ⟨stands.prot, stands.isOpen, serving, unread, partially⟩
          insideNext (show s.peer.conn.rbuff.length - next < fuel by omega) sized
        rcases rest with ⟨r, there, later, idle⟩ | ⟨astray, m, n, ends, behind⟩
        · exact .inl ⟨r, there, advances.trans later, idle⟩
        · exact .inr ⟨advances.all ▸ astray, m, n, advances.kept m n ends, behind⟩
      next all =>
        have none : s.peer.conn.rbuff.drop next = [] :=
          List.drop_of_length_le (Nat.not_lt.mp all)
        refine .inl ⟨q, ⟨stands.prot, stands.isOpen, serving, unread, partially⟩, advances, ?_⟩
        have empty : ((s.peer.conn.rbuff.drop next).length) = 0 := by rw [none]; rfl
        simpa [Served.erase, empty] using idle_empty accepted between
    -- a websocket header: the rest of the buffer is dropped
    | @lost t astray m n ends begun apart =>
      simp only [Served.routeLoop, routed t _ .ok result, lt_irrefl, if_false]
      exact .inr ⟨astray, m, n, ends, begun, apart⟩

/-- Bytes arrive on the socket: the loop runs over what waited and what arrived. -/
theorem arrive_loop (base : App α) (s : Served (α × HttpSock)) (read : Nat × Bytes)
    (prot : s.peer.prot = some .http) (isOpen : s.peer.conn.closing = none) :
    ∃ (now : Int) (t : Served (α × HttpSock)),
      h.arrive base s read =
        Served.routeLoop (h.app base) now (t.peer.conn.rbuff.length + 1) t 0 ∧
      t.peer.prot = some .http ∧ t.peer.conn.closing = none ∧
      t.peer.conn.rbuff = s.peer.conn.rbuff ++ read.2 ∧
      t.state.2.pieces = s.state.2.pieces ∧
      h.settled t.state.2.http = h.settled s.state.2.http := by
  have goes : ¬ s.peer.conn.closing.isSome := by simp [isOpen]
  simp only [arrive, Served.read, if_neg goes, Served.protocolsRoute, prot, Served.shakeOrRoute,
    Served.route]
  split
  next ready => exact ⟨_, _, rfl, rfl, isOpen, rfl, rfl, settled_now _ _⟩
  next => exact ⟨_, _, rfl, rfl, isOpen, rfl, rfl, settled_now _ _⟩

/-- What one read comes to. -/
theorem arrive_at (base : App α) (s : Served (α × HttpSock)) (read : Nat × Bytes) (p : Progress)
    (accepts : h.Accepts σ p.all)
    (stands : At h σ logged (read.2 ++ future) p s s.peer.conn.rbuff)
    (sized : s.peer.conn.rbuff.length + (read.2 ++ future).length < 2 ^ 64) :
    let t := h.arrive base s read
    (∃ q, At h σ logged future q t t.peer.conn.rbuff ∧ Advances future.length p q ∧
        q.Idle t.peer.conn.rbuff.length) ∨
      (Astray logged p.all t.state.2 ∧
        ∃ m n, Ends p.rem m n ∧ future.length ≤ m ∧ n ≠ future.length) := by
  obtain ⟨now, t, result, prot, isOpen, rbuff, pieces, http⟩ :=
    arrive_loop base s read stands.prot stands.isOpen
  rw [result]
  rw [List.length_append] at sized
  refine loop_at now _ t 0 p accepts ⟨prot, isOpen, ⟨?_, ?_⟩, ?_, stands.partially⟩
    (Nat.zero_le _) (Nat.lt_succ_self _) ?_
  · rw [http, stands.serving.http]
  · rw [pieces, stands.serving.pieces]
  · rw [List.drop_zero, rbuff, stands.unread, List.append_assoc]
  · rw [rbuff, List.length_append]
    omega

/-! ### What was used up stays used up -/

/-- A call goes on in the buffer, and not past its end. -/
def Forward (rbuff : Bytes) (used : Nat) : HttpRouted HttpSock → Prop
  | .routed _ next _ _ => used ≤ next ∧ next ≤ rbuff.length
  | .upgraded _ => True

theorem routeRest_forward (s : HttpSock) (inside : used ≤ rbuff.length) :
    Forward rbuff used (h.routeRest s rbuff used) := by
  simp only [routeRest]
  split
  next => exact ⟨le_refl used, inside⟩
  next len sum =>
    have len := qevSafeUadd_eq_some sum
    split
    next => exact ⟨le_refl used, inside⟩
    next whole => exact ⟨by omega, by omega⟩

theorem protocolHttpRoute_forward (s : HttpSock) (inside : used ≤ rbuff.length) :
    Forward rbuff used (h.protocolHttpRoute s rbuff used) := by
  simp only [protocolHttpRoute]
  split
  next =>
    split
    next => exact ⟨le_refl used, inside⟩
    next why _ => cases why
    next n req item =>
      have head := (h.parser.size item).2
      rw [List.length_drop] at head
      split
      next => exact ⟨le_refl used, inside⟩
      next => trivial
      next =>
        -- the body comes behind the head, or behind the whole buffer
        generalize start : (if (req.header (str "Sec-WebSocket-Key")).isSome = true then
          rbuff.length else used + n) = next
        have further : used + n ≤ next ∧ next ≤ rbuff.length := by
          rw [← start]
          split <;> omega
        have rest := routeRest_forward (h := h)
          ⟨h.header s.http req, s.pieces ++ [.head (readAt rbuff used (next - used))]⟩ further.2
        generalize h.routeRest _ rbuff next = outcome at rest
        cases outcome with
        | routed t last status closes => exact ⟨by have := rest.1; omega, rest.2⟩
        | upgraded t => trivial
  next => exact routeRest_forward ⟨s.http.routeBegin h.sock, s.pieces⟩ inside

/-- A call only adds to the pieces. -/
def Grows (s : HttpSock) : HttpRouted HttpSock → Prop
  | .routed t _ _ _ => s.pieces <+: t.pieces
  | .upgraded t => s.pieces <+: t.pieces

theorem Grows.trans {s t : HttpSock} {routed : HttpRouted HttpSock} (first : s.pieces <+: t.pieces)
    (rest : Grows t routed) : Grows s routed := by
  cases routed with
  | routed u next status closes => exact List.IsPrefix.trans first rest
  | upgraded u => exact List.IsPrefix.trans first rest

theorem routeRest_grows (s : HttpSock) : Grows s (h.routeRest s rbuff used) := by
  simp only [routeRest]
  split
  next => exact List.prefix_rfl
  next =>
    split
    next => exact List.prefix_rfl
    next => exact List.prefix_append _ _

theorem protocolHttpRoute_grows (s : HttpSock) : Grows s (h.protocolHttpRoute s rbuff used) := by
  simp only [protocolHttpRoute]
  split
  next =>
    split
    next => exact List.prefix_rfl
    next why _ => cases why
    next n req item =>
      split
      next => exact List.prefix_rfl
      next => exact List.prefix_append _ _
      next => exact Grows.trans (List.prefix_append _ _) (routeRest_grows _)
  next => exact routeRest_grows ⟨s.http.routeBegin h.sock, s.pieces⟩

theorem routeRest_further {s t : HttpSock} {next : Nat} {closes : Option CloseReason}
    (ok : h.routeRest s rbuff used = .routed t next .ok closes) :
    next = used + (s.http.socks h.sock).bodyLen := by
  simp only [routeRest, routed] at ok
  split at ok
  next => cases ok
  next =>
    split at ok
    next => cases ok
    next =>
      cases ok
      rfl

/-- A call after which the loop goes on has used some bytes. -/
theorem protocolHttpRoute_further {s t : HttpSock} {next : Nat} {closes : Option CloseReason}
    (inside : used ≤ rbuff.length)
    (ok : h.protocolHttpRoute s rbuff used = .routed t next .ok closes) : used < next := by
  simp only [protocolHttpRoute] at ok
  split at ok
  -- No request is under way: the head took at least one byte.
  next =>
    split at ok
    next => cases ok
    next why _ => cases why
    next n req item =>
      have head := h.parser.size item
      rw [List.length_drop] at head
      split at ok
      next => cases ok
      next => cases ok
      next =>
        have further := routeRest_further ok
        split at further <;> omega
  -- A body is awaited, and it is not empty.
  next awaited =>
    have further := routeRest_further ok
    have same : ((s.http.routeBegin h.sock).socks h.sock).bodyLen =
        (s.http.socks h.sock).bodyLen := by
      simp [Http.routeBegin]
    rw [same] at further
    omega

/-- Events of a client that HTTP has upgraded do not touch what HTTP did. -/
theorem rawHandle_rest (state : α × HttpSock) (event : Bytes) :
    ((h.app base).rawHandle state event).state.2 = state.2 := by
  simp only [App.rawHandle]
  split <;> rfl

theorem handled_rest (base : App α) (now : Int) (s : Served (α × HttpSock)) (r : Routed) :
    (s.handled (h.app base) now r).state.2 = s.state.2 ∧
      (s.handled (h.app base) now r).peer.prot = s.peer.prot := by
  simp only [Served.handled]
  split
  next => exact ⟨rfl, Peer.setConn_prot _ _⟩
  next event _ =>
    obtain ⟨prot, -, -⟩ := Peer.acts_rest now ((h.app base).rawHandle s.state event).acts
      ((s.peer.setConn r.conn).record (.event event))
    exact ⟨rawHandle_rest s.state event, prot.trans (Peer.setConn_prot _ _)⟩

theorem protRoute_grows (base : App α) (now : Int) (s : Served (α × HttpSock)) (used : Nat) :
    s.state.2.pieces <+: (s.protRoute (h.app base) now used).1.state.2.pieces := by
  cases prot : s.peer.prot with
  | none =>
    simp only [Served.protRoute, prot]
    exact List.prefix_rfl
  | some prot' =>
    cases prot' with
    | flash =>
      simp only [Served.protRoute, prot]
      exact List.prefix_rfl
    | raw =>
      simp only [Served.protRoute, prot, handled_rest]
      exact List.prefix_rfl
    | rfc6455 =>
      simp only [Served.protRoute, prot, handled_rest]
      exact List.prefix_rfl
    | http =>
      have grows : Grows s.state.2 (h.protocolHttpRoute s.state.2 s.peer.conn.rbuff used) :=
        protocolHttpRoute_grows s.state.2
      cases result : h.protocolHttpRoute s.state.2 s.peer.conn.rbuff used with
      | upgraded t =>
        rw [result] at grows
        simp only [Served.protRoute, prot, app, result]
        exact grows
      | routed t next status closes =>
        rw [result] at grows
        cases closes with
        | none =>
          simp only [Served.protRoute, prot, app, result]
          exact grows
        | some reason =>
          simp only [Served.protRoute, prot, app, result]
          exact grows

theorem routeLoop_grows (base : App α) (now : Int) (fuel : Nat) (s : Served (α × HttpSock))
    (used : Nat) :
    s.state.2.pieces <+: (Served.routeLoop (h.app base) now fuel s used).state.2.pieces := by
  induction fuel generalizing s used with
  | zero => exact List.prefix_rfl
  | succ fuel ih =>
    have grows := protRoute_grows (h := h) base now s used
    simp only [Served.routeLoop]
    generalize s.protRoute (h.app base) now used = call at grows ⊢
    obtain ⟨t, next, status⟩ := call
    cases status with
    | ok =>
      dsimp only
      split
      next => exact grows.trans (ih ⟨t.state, { t.peer with lastRecv := now }⟩ next)
      next => exact grows
    | again => exact grows
    | fatal => exact grows

theorem shakeOrRoute_grows (base : App α) (now : Int) (s : Served (α × HttpSock)) (prot : Prot) :
    s.state.2.pieces <+: (s.shakeOrRoute (h.app base) now prot).state.2.pieces := by
  simp only [Served.shakeOrRoute]
  split
  next => exact routeLoop_grows base now _ s 0
  next =>
    cases prot with
    | http => exact routeLoop_grows base now _ ⟨s.state, s.peer.setHandshaked now⟩ 0
    | flash => exact List.prefix_rfl
    | raw => exact List.prefix_rfl
    | rfc6455 => exact List.prefix_rfl

theorem read_grows (base : App α) (now : Int) (s : Served (α × HttpSock)) (bytes : Bytes) :
    s.state.2.pieces <+: (s.read (h.app base) now bytes).state.2.pieces := by
  have shook : ∀ (peer : Peer) (prot : Prot), s.state.2.pieces <+:
      (Served.shakeOrRoute (h.app base) now ⟨s.state, peer⟩ prot).state.2.pieces :=
    fun peer prot => shakeOrRoute_grows base now ⟨s.state, peer⟩ prot
  simp only [Served.read]
  split
  next => exact List.prefix_rfl
  next =>
    simp only [Served.protocolsRoute]
    split
    next prot _ => exact shook _ prot
    next =>
      generalize Peer.findHandler _ = peer
      split
      next => exact List.prefix_rfl
      next prot _ => exact shook peer prot

/-- Whatever a client sends, what has been used up of its stream stays so. -/
theorem arrive_grows (base : App α) (s : Served (α × HttpSock)) (read : Nat × Bytes) :
    s.state.2.pieces <+: (h.arrive base s read).state.2.pieces := by
  simp only [arrive]
  generalize ({ s.state.2.http with now := s.state.2.http.now + read.1 } : Http) = http
  exact read_grows base _ ⟨(s.state.1, ⟨http, s.state.2.pieces⟩), s.peer⟩ read.2

theorem arrivals_grow (base : App α) (s : Served (α × HttpSock)) (reads : List (Nat × Bytes)) :
    s.state.2.pieces <+: (reads.foldl (h.arrive base) s).state.2.pieces := by
  induction reads generalizing s with
  | nil => exact List.prefix_rfl
  | cons read reads ih => exact (arrive_grows base s read).trans (ih (h.arrive base s read))

/-- The header of an upgrade still to come ends behind the bytes that have been read. -/
theorem ends_ahead {p : Progress} {s : Served (α × HttpSock)}
    (stands : At h σ logged future p s s.peer.conn.rbuff) (idle : p.Idle s.peer.conn.rbuff.length)
    {m n : Nat} (ends : Ends p.rem m n) : m < future.length := by
  have size := congrArg List.length stands.unread
  obtain ⟨done, begun, rem⟩ := p
  cases begun with
  -- What is buffered is short of the body under way, which ends first.
  | some r =>
    have short : s.peer.conn.rbuff.length < r.rest.length := idle
    have last := (ends_le ends).2
    simp only [Progress.unread, Option.elim, List.length_append] at size last
    omega
  | none =>
    cases rem with
    | nil => exact absurd ends (ends_nil m n)
    -- What is buffered is short of the next head, and that request ends behind its head.
    | cons r rem =>
      have short : s.peer.conn.rbuff.length < r.head.length := idle
      simp only [Progress.unread, Option.elim, List.nil_append, List.length_append, stream_cons]
        at size
      rcases (ends_cons r rem m n).mp ends with ⟨-, header, -⟩ | later
      · omega
      · have last := (ends_le later).2
        omega

/-- With nothing more to come, everything has been processed. -/
theorem idle_finished {p : Progress} {s : Served (α × HttpSock)}
    (stands : At h σ logged [] p s s.peer.conn.rbuff) (idle : p.Idle s.peer.conn.rbuff.length) :
    p.begun = none ∧ p.rem = [] := by
  have size := congrArg List.length stands.unread
  obtain ⟨done, begun, rem⟩ := p
  cases begun with
  | some r =>
    have short : s.peer.conn.rbuff.length < r.rest.length := idle
    simp only [Progress.unread, Option.elim, List.append_nil, List.length_append] at size
    omega
  | none =>
    cases rem with
    | nil => exact ⟨rfl, rfl⟩
    | cons r rem =>
      have short : s.peer.conn.rbuff.length < r.head.length := idle
      simp only [Progress.unread, Option.elim, List.nil_append, List.append_nil, stream_cons]
        at size
      omega

/-- All requests were processed, in order, each with its own bytes, and answered as
one after another. -/
def Processed (h : HttpSide) (σ : Http) (logged : List Piece) (requests : List WireRequest)
    (t : HttpSock) : Prop :=
  t.pieces = logged ++ requests.flatMap WireRequest.pieces ∧
    t.http.sent = (h.serves σ requests).sent

theorem processed_iff (reads : List (Nat × Bytes)) (s : Served (α × HttpSock)) (p : Progress)
    (accepts : h.Accepts σ p.all)
    (stands : At h σ logged (reads.map Prod.snd).flatten p s s.peer.conn.rbuff)
    (idle : p.Idle s.peer.conn.rbuff.length)
    (sized : (stream p.all).length < 2 ^ 64) :
    Processed h σ logged p.all (reads.foldl (h.arrive base) s).state.2 ↔
      ∀ m n, Ends p.rem m n → ∃ k, m < ((reads.drop k).map Prod.snd).flatten.length ∧
        ((reads.drop (k + 1)).map Prod.snd).flatten.length = n := by
  induction reads generalizing s p with
  | nil =>
    obtain ⟨begun, rem⟩ := idle_finished stands idle
    obtain ⟨done, _, _⟩ := p
    cases begun
    cases rem
    constructor
    · intro _ m n ends
      exact absurd ends (ends_nil m n)
    · intro _
      constructor
      · simpa [Progress.pieces, Progress.all] using stands.serving.pieces
      · have sent := congrArg Http.sent stands.serving.http
        simpa [settled, Http.routeBegin, reached, Progress.all] using sent
  | cons read reads ih =>
    have ahead := fun m n ends => ends_ahead stands idle (m := m) (n := n) ends
    rw [List.map_cons, List.flatten_cons] at stands ahead
    have account := p.all_unread
    have size := congrArg List.length stands.unread
    rw [List.length_append] at size
    rcases arrive_at base s read p accepts stands (by omega) with
      ⟨q, there, advances, still⟩ | ⟨astray, m, n, ends, begun, apart⟩
    · have later := ih (h.arrive base s read) q (advances.all ▸ accepts) there still
        (advances.all ▸ sized)
      rw [List.foldl_cons, ← advances.all, later]
      constructor
      · intro aligned m n ends
        rcases advances.passed m n ends with waits | here
        · obtain ⟨k, at_k⟩ := aligned m n waits
          exact ⟨k + 1, at_k⟩
        · exact ⟨0, ahead m n ends, here.symm⟩
      · intro aligned m n ends
        obtain ⟨k, before, at_k⟩ := aligned m n (advances.kept m n ends)
        cases k with
        | zero =>
          -- the header is not complete with this read
          have behind := ends_ahead there still ends
          have order := (ends_le ends).1
          have at_k : (reads.map Prod.snd).flatten.length = n := at_k
          omega
        | succ k => exact ⟨k, before, at_k⟩
    · constructor
      · rintro ⟨pieces, -⟩
        have grows := arrivals_grow (h := h) base (h.arrive base s read) reads
        rw [List.foldl_cons] at pieces
        rw [pieces] at grows
        exact absurd grows astray
      · intro aligned
        obtain ⟨k, before, at_k⟩ := aligned m n ends
        cases k with
        | zero => exact absurd at_k.symm apart
        | succ k =>
          have inside : ((reads.drop k).map Prod.snd).flatten.length ≤
              (reads.map Prod.snd).flatten.length := by
            conv => rhs; rw [← List.take_append_drop k reads]
            rw [List.map_append, List.flatten_append, List.length_append]
            omega
          rw [List.drop_succ_cons] at before
          omega

/-- However the bytes of some requests are cut into reads, all of them are
processed, in order, and answered as if each had come alone, if and only if for
every rejected upgrade one read completes its header and ends with the upgrade. -/
theorem requests_cut_anywhere_iff (h : HttpSide) (base : App α) (s : Served (α × HttpSock))
    (requests : List WireRequest) (reads : List (Nat × Bytes)) (prot : s.peer.prot = some .http)
    (isOpen : s.peer.conn.closing = none) (empty : s.peer.conn.rbuff = [])
    (accepts : h.Accepts s.state.2.http requests)
    (cut : (reads.map Prod.snd).flatten = stream requests)
    (countable : (stream requests).length < 2 ^ 64) :
    Processed h s.state.2.http s.state.2.pieces requests
        (reads.foldl (h.arrive base) s).state.2 ↔
      ∀ before r after, requests = before ++ r :: after → r.Upgrades →
        ∃ k, ((reads.take k).map Prod.snd).flatten.length < (stream before ++ r.head).length ∧
          ((reads.take (k + 1)).map Prod.snd).flatten = stream (before ++ [r]) := by
  have stands : At h s.state.2.http s.state.2.pieces (reads.map Prod.snd).flatten
      ⟨[], none, requests⟩ s s.peer.conn.rbuff := by
    refine ⟨prot, isOpen, ⟨rfl, by simp [Progress.pieces]⟩, ?_, by rintro r ⟨⟩⟩
    rw [empty, cut]
    rfl
  have idle : Progress.Idle ⟨[], none, requests⟩ s.peer.conn.rbuff.length := by
    rw [empty]
    exact idle_empty (p := ⟨[], none, requests⟩) accepts rfl
  refine (processed_iff reads s ⟨[], none, requests⟩ accepts stands idle countable).trans ?_
  -- bytes before a place and bytes behind it are two ways to say where it is
  have halves : ∀ k, ((reads.take k).map Prod.snd).flatten ++
      ((reads.drop k).map Prod.snd).flatten = stream requests := by
    intro k
    rw [← List.flatten_append, ← List.map_append, List.take_append_drop, cut]
  have split : ∀ before r after, requests = before ++ r :: after →
      stream (before ++ [r]) ++ stream after = stream requests := by
    rintro before r after rfl
    simp [stream]
  have header : ∀ before r after, requests = before ++ r :: after →
      (stream before ++ r.head).length + (r.body.length + (stream after).length) =
        (stream requests).length := by
    rintro before r after rfl
    simp only [stream, List.flatMap_append, List.flatMap_cons, WireRequest.bytes,
      List.length_append]
    omega
  have sizes := fun k => congrArg List.length (halves k)
  simp only [List.length_append] at sizes
  constructor
  · intro aligned before r after here upgrades
    obtain ⟨k, incomplete, behind⟩ := aligned _ _ ⟨before, r, after, here, upgrades, rfl, rfl⟩
    have total := header before r after here
    have cut := sizes k
    exact ⟨k, by omega,
      (List.append_inj' ((halves (k + 1)).trans (split before r after here).symm) behind).1⟩
  · rintro aligned m n ⟨before, r, after, here, upgrades, rfl, rfl⟩
    obtain ⟨k, incomplete, front⟩ := aligned before r after here upgrades
    have total := header before r after here
    have cut := sizes k
    refine ⟨k, by omega, congrArg List.length ?_⟩
    exact (List.append_inj ((halves (k + 1)).trans (split before r after here).symm)
      (congrArg List.length front)).2

end HttpSide

/-! ### A parser, and an upgrade that swallows a request -/

/-- Where the first block of headers ends. -/
def headEnd : Bytes → Option Nat
  | [] => none
  | c :: rest =>
    if (str "\r\n\r\n").isPrefixOf (c :: rest) then some 4 else (headEnd rest).map (· + 1)

/-- The request line and the headers, line by line. -/
def parseHead (head : Bytes) : HttpRequest :=
  let lines := (head.splitOn 0x0a).map (·.dropLast)
  let words := (lines.headD []).splitOn 0x20
  { method := words.getD 0 []
    url := words.getD 1 []
    version := if words.getD 2 [] = str "HTTP/1.1" then 1 else 0
    headers := (lines.tail.filter (· ≠ [])).map fun line =>
      (line.takeWhile (· ≠ 0x3a), (line.dropWhile (· ≠ 0x3a)).drop 2) }

theorem headEnd_append (bs cs : Bytes) (n : Nat) (ends : headEnd bs = some n) :
    0 < n ∧ n ≤ bs.length ∧ 4 ≤ bs.length ∧ headEnd (bs ++ cs) = some n := by
  induction bs generalizing n with
  | nil => cases ends
  | cons c rest ih =>
    simp only [headEnd, List.cons_append] at ends ⊢
    split at ends
    -- The blank line is here, and more bytes do not move it.
    next here =>
      cases ends
      have front := List.isPrefixOf_iff_prefix.mp here
      have whole : (str "\r\n\r\n").isPrefixOf (c :: (rest ++ cs)) :=
        List.isPrefixOf_iff_prefix.mpr (front.trans (List.prefix_append (c :: rest) cs))
      have size : 4 ≤ (c :: rest).length := front.length_le
      exact ⟨by decide, size, size, by rw [if_pos whole]⟩
    -- It is not here: an earlier one could only come from bytes that were there already.
    next later =>
      obtain ⟨m, found, rfl⟩ := Option.map_eq_some_iff.mp ends
      obtain ⟨positive, inside, size, still⟩ := ih m found
      have notHere : ¬ (str "\r\n\r\n").isPrefixOf (c :: (rest ++ cs)) := by
        intro here
        apply later
        have front := List.isPrefixOf_iff_prefix.mp here
        exact List.isPrefixOf_iff_prefix.mpr (List.prefix_of_prefix_length_le front
          (List.prefix_append (c :: rest) cs) (show 4 ≤ rest.length + 1 by omega))
      rw [if_neg notHere, still]
      exact ⟨by omega, by simpa using inside, by simp; omega, rfl⟩

/-- A parser of requests without mistakes. -/
def sampleParser : HttpParser where
  next bs :=
    match headEnd bs with
    | none => .more
    | some n => .item n (parseHead (bs.take n))
  size := by
    intro bs n req next
    split at next
    next => cases next
    next m ends =>
      cases next
      obtain ⟨positive, inside, -⟩ := headEnd_append bs [] n ends
      exact ⟨positive, inside⟩
  item_append := by
    intro bs n req next cs
    split at next
    next => cases next
    next m ends =>
      cases next
      obtain ⟨-, inside, -, still⟩ := headEnd_append bs cs n ends
      simp only [still, List.take_append_of_le_length inside]
  bad_append := by
    intro bs why
    cases why

def sampleSide : HttpSide where
  env := Http.sampleEnv
  parser := sampleParser
  sock := 0
  plan _ := {}

/-- A socket that has just been opened. -/
def sampleServed : Served (Unit × HttpSock) where
  state := ((), ⟨{ Http.start with nextSock := 1 }, []⟩)
  peer := { prot := some .http }

def wireRequest (head body : String) : WireRequest := ⟨str head, parseHead (str head), str body⟩

/-- An upgrade that does not say what to, with a body, and a plain request. -/
def upgradeAndGet : List WireRequest :=
  [wireRequest "POST / HTTP/1.1\r\nSec-WebSocket-Key: k\r\nContent-Length: 4\r\n\r\n" "abcd",
    wireRequest "GET /iframe HTTP/1.1\r\n\r\n" ""]

theorem upgradeAndGet_plain : ∀ r ∈ upgradeAndGet, r.Plain sampleSide := by
  have ends : ∀ r ∈ upgradeAndGet, headEnd r.head = some r.head.length := by decide +kernel
  have rest : ∀ r ∈ upgradeAndGet, r.req = parseHead r.head ∧ r.req.ok = true ∧
      Http.keepAlive r.req = true ∧
      r.req.bodyLength sampleSide.env = some r.body.length ∧
      r.req.header (str "Upgrade") = none := by decide +kernel
  intro r member
  obtain ⟨parsed, ok, keepAlive, length, upgrade⟩ := rest r member
  refine ⟨?_, ok, keepAlive, fun _ => length, fun _ => .inl (by simp [upgrade])⟩
  simp only [sampleSide, sampleParser, ends r member, List.take_length, parsed]

/-- Cut inside the upgrade's header, and behind its body, both are processed. -/
theorem requests_cut_anywhere_apart :
    HttpSide.Processed sampleSide sampleServed.state.2.http [] upgradeAndGet
      ([(5, str "POST / HT"),
        (0, str "TP/1.1\r\nSec-WebSocket-Key: k\r\nContent-Length: 4\r\n\r\nabcd"),
        (9, str "GET /iframe HTTP/1.1\r\n\r\n")].foldl
          (sampleSide.arrive answering) sampleServed).state.2 := by
  have accepts : sampleSide.Accepts sampleServed.state.2.http upgradeAndGet :=
    ⟨⟨⟨rfl, by rintro ⟨⟩⟩, rfl⟩, upgradeAndGet_plain, by rintro n turn ⟨⟩⟩
  refine (HttpSide.requests_cut_anywhere_iff sampleSide answering sampleServed upgradeAndGet _ rfl rfl
    rfl accepts (by decide) (by decide)).mpr ?_
  intro before r after split upgrades
  -- only the first request is an upgrade
  have first : before = [] := by
    match before, split with
    | [], _ => rfl
    | [_], split =>
      obtain ⟨rfl, -⟩ := List.cons.inj (List.cons.inj split).2
      exact absurd upgrades (by decide +kernel)
    | _ :: _ :: before, split =>
      have rest := (List.cons.inj (List.cons.inj split).2).2
      simp at rest
  subst first
  obtain ⟨rfl, -⟩ := List.cons.inj split
  exact ⟨1, by decide, by decide⟩

/-- In one read, the upgrade swallows the other request. -/
theorem requests_cut_anywhere_swallowed :
    ¬ ∀ reads : List (Nat × Bytes), (reads.map Prod.snd).flatten = stream upgradeAndGet →
      HttpSide.Processed sampleSide sampleServed.state.2.http [] upgradeAndGet
        (reads.foldl (sampleSide.arrive answering) sampleServed).state.2 := by
  intro processed
  have both := (processed [(0, stream upgradeAndGet)] (by simp)).1
  have one : ([(0, stream upgradeAndGet)].foldl (sampleSide.arrive answering)
      sampleServed).state.2.pieces.length = 2 := by decide +kernel
  rw [both] at one
  exact absurd one (by decide)

end QuickIO
