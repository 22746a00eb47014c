import QuickIO.HttpStable

/-!
# One response per request

Every response goes through `_send_response`, which takes the link to the
surrogate away and writes only while the socket owes a response. So the
responses on a socket count the requests it is through with.
-/
namespace QuickIO

open Lib

/-- The part of a socket that its requests are about. -/
def Socket.SameRequest (k k' : Socket) : Prop :=
  k'.client = k.client ∧ k'.inRequest = k.inRequest ∧ k'.inBody = k.inBody ∧
    k'.closed = k.closed ∧ k'.requests = k.requests ∧ k'.upgraded = k.upgraded

/-- The part of a surrogate that its messages are about. -/
def Surrogate.SameSession (r r' : Surrogate) : Prop :=
  r'.incoming = r.incoming ∧ r'.wbuff = r.wbuff ∧ r'.given = r.given ∧ r'.closing = r.closing

namespace Http

@[simp] theorem socks_setSock (σ : Http) (c d : SockId) (f : Socket → Socket) :
    (σ.setSock c f).socks d = if d = c then f (σ.socks c) else σ.socks d := by
  simp only [setSock, Function.update_apply]

@[simp] theorem surrs_setSurr (σ : Http) (s r : SurrId) (f : Surrogate → Surrogate) :
    (σ.setSurr s f).surrs r = if r = s then f (σ.surrs s) else σ.surrs r := by
  simp only [setSurr, Function.update_apply]

@[simp] theorem surrs_setSock (σ : Http) (c : SockId) (f : Socket → Socket) :
    (σ.setSock c f).surrs = σ.surrs := rfl

@[simp] theorem sent_setSock (σ : Http) (c : SockId) (f : Socket → Socket) :
    (σ.setSock c f).sent = σ.sent := rfl

@[simp] theorem nextSurr_setSock (σ : Http) (c : SockId) (f : Socket → Socket) :
    (σ.setSock c f).nextSurr = σ.nextSurr := rfl

@[simp] theorem clients_setSock (σ : Http) (c : SockId) (f : Socket → Socket) :
    (σ.setSock c f).clients = σ.clients := rfl

@[simp] theorem socks_setSurr (σ : Http) (s : SurrId) (f : Surrogate → Surrogate) :
    (σ.setSurr s f).socks = σ.socks := rfl

@[simp] theorem sent_setSurr (σ : Http) (s : SurrId) (f : Surrogate → Surrogate) :
    (σ.setSurr s f).sent = σ.sent := rfl

@[simp] theorem nextSurr_setSurr (σ : Http) (s : SurrId) (f : Surrogate → Surrogate) :
    (σ.setSurr s f).nextSurr = σ.nextSurr := rfl

@[simp] theorem clients_setSurr (σ : Http) (s : SurrId) (f : Surrogate → Surrogate) :
    (σ.setSurr s f).clients = σ.clients := rfl

theorem surrs_surrNew (σ : Http) (sid : Nat) (s : SurrId) (old : s ≠ σ.nextSurr) :
    (σ.surrNew sid).surrs s = σ.surrs s :=
  Function.update_of_ne old _ _

theorem surrs_surrNew_self (σ : Http) (sid : Nat) :
    (σ.surrNew sid).surrs σ.nextSurr = { sid, tbl := sid % 64, lastSend := σ.now } :=
  Function.update_self _ _ _

/-! ### `_send_response` -/

/-- The state after `_send_response` to a socket. -/
structure Responded (σ τ : Http) (c : SockId) (resp : Response) : Prop where
  others : ∀ d, d ≠ c → τ.socks d = σ.socks d
  answered : Socket.SameRequest { σ.socks c with client := none, inRequest := false } (τ.socks c)
  away : ∀ s, (σ.socks c).client ≠ some s → τ.surrs s = σ.surrs s
  released : ∀ s, (σ.socks c).client = some s → (τ.surrs s).client =
    if (σ.surrs s).client = some c then none else (σ.surrs s).client
  session : ∀ s, Surrogate.SameSession (σ.surrs s) (τ.surrs s)
  sent : τ.sent = σ.sent ++ if (σ.socks c).inRequest then
    [⟨c, resp, (σ.socks c).client, (σ.socks c).requests⟩] else []
  nextSurr : τ.nextSurr = σ.nextSurr
  clients : τ.clients = σ.clients

theorem answer_socks (σ : Http) (c d : SockId) (surrogate : Option SurrId) (resp : Response) :
    (σ.answer c surrogate resp).socks d =
      if d = c then (σ.socks c).answered σ.now else σ.socks d := by
  cases surrogate with
  | none => simp [answer]
  | some s => simp [answer]

theorem answer_surrs (σ : Http) (c : SockId) (surrogate : Option SurrId) (resp : Response)
    (s : SurrId) : (σ.answer c surrogate resp).surrs s =
      if surrogate = some s then { σ.surrs s with lastSend := σ.now } else σ.surrs s := by
  cases surrogate with
  | none => simp [answer]
  | some r =>
    by_cases same : s = r
    · simp [answer, same]
      rfl
    · have other : ¬ r = s := fun eq => same eq.symm
      simp [answer, same, other]

theorem answer_rest (σ : Http) (c : SockId) (surrogate : Option SurrId) (resp : Response) :
    (σ.answer c surrogate resp).sent =
        σ.sent ++ [⟨c, resp, surrogate, (σ.socks c).requests⟩] ∧
      (σ.answer c surrogate resp).nextSurr = σ.nextSurr ∧
      (σ.answer c surrogate resp).clients = σ.clients := by
  cases surrogate with
  | none => exact ⟨rfl, rfl, rfl⟩
  | some s => exact ⟨rfl, rfl, rfl⟩

/-- The first half of `_send_response`: the link is stolen, and a response that
is owed is written. -/
theorem replied (σ : Http) (c : SockId) (resp : Response) (τ : Http)
    (first : τ = if (σ.socks c).inRequest then
        (σ.setSock c fun k => { k with client := none }).answer c (σ.socks c).client resp
      else σ.setSock c fun k => { k with client := none }) :
    (∀ d, d ≠ c → τ.socks d = σ.socks d) ∧
      Socket.SameRequest { σ.socks c with client := none, inRequest := false } (τ.socks c) ∧
      (∀ s, (σ.socks c).client ≠ some s → τ.surrs s = σ.surrs s) ∧
      (∀ s, (τ.surrs s).client = (σ.surrs s).client) ∧
      (∀ s, Surrogate.SameSession (σ.surrs s) (τ.surrs s)) ∧
      (τ.sent = σ.sent ++ if (σ.socks c).inRequest then
        [⟨c, resp, (σ.socks c).client, (σ.socks c).requests⟩] else []) ∧
      τ.nextSurr = σ.nextSurr ∧ τ.clients = σ.clients := by
  cases owes : (σ.socks c).inRequest with
  -- no request is open: the socket only lets go of its session
  | false =>
    rw [owes, if_neg Bool.false_ne_true] at first
    subst first
    simp +contextual [Socket.SameRequest, Surrogate.SameSession, owes]
  -- the open request is answered, for the session it had
  | true =>
    rw [owes, if_pos rfl] at first
    subst first
    obtain ⟨sent, nextSurr, clients⟩ := answer_rest
      (σ.setSock c fun k => { k with client := none }) c (σ.socks c).client resp
    refine ⟨?_, ?_, ?_, ?_, ?_, by simp [sent], by simp [nextSurr], by simp [clients]⟩
    · intro d other
      simp [answer_socks, other]
    · simp [answer_socks, Socket.answered, Socket.SameRequest]
    · intro s unlinked
      simp [answer_surrs, unlinked]
    · intro s
      rw [answer_surrs]
      split
      · rfl
      · rfl
    · intro s
      rw [answer_surrs]
      split
      · exact ⟨rfl, rfl, rfl, rfl⟩
      · exact ⟨rfl, rfl, rfl, rfl⟩

/-- The second half: the surrogate lets go of the socket, and both references
are given back. -/
theorem releasedSock (σ : Http) (s : SurrId) (c : SockId) :
    (∀ d, d ≠ c → ((σ.surrReleaseClient (some s) c).unrefSurr s).socks d = σ.socks d) ∧
      Socket.SameRequest (σ.socks c) (((σ.surrReleaseClient (some s) c).unrefSurr s).socks c) := by
  unfold surrReleaseClient unrefSurr unrefSock
  dsimp only
  split
  · simp +contextual [Socket.SameRequest]
  · simp [Socket.SameRequest]

theorem releasedSurr (σ : Http) (s : SurrId) (c : SockId) (τ : Http)
    (second : τ = (σ.surrReleaseClient (some s) c).unrefSurr s) :
    (∀ r, r ≠ s → τ.surrs r = σ.surrs r) ∧
      ((τ.surrs s).client = if (σ.surrs s).client = some c then none else (σ.surrs s).client) ∧
      Surrogate.SameSession (σ.surrs s) (τ.surrs s) ∧
      τ.sent = σ.sent ∧ τ.nextSurr = σ.nextSurr ∧ τ.clients = σ.clients := by
  subst second
  unfold surrReleaseClient unrefSurr unrefSock
  dsimp only
  split
  next polls => simp +contextual [Surrogate.SameSession]
  next => simp +contextual [Surrogate.SameSession]

theorem sendResponse_responded (σ : Http) (c : SockId) (resp : Response) :
    Responded σ (σ.sendResponse (some c) resp).1 c resp := by
  obtain ⟨τ, first⟩ : ∃ τ : Http, τ = if (σ.socks c).inRequest then
        (σ.setSock c fun k => { k with client := none }).answer c (σ.socks c).client resp
      else σ.setSock c fun k => { k with client := none } := ⟨_, rfl⟩
  obtain ⟨others, answered, away, kept, session, sent, nextSurr, clients⟩ :=
    replied σ c resp τ first
  cases linked : (σ.socks c).client with
  -- an unlinked socket: nothing is released
  | none =>
    have result : (σ.sendResponse (some c) resp).1 = τ := by
      simp [sendResponse, surrReleaseClient, first, linked]
    rw [result]
    exact ⟨others, answered, away, by simp [linked], session, sent, nextSurr, clients⟩
  -- the surrogate is released, and its reference dropped
  | some s =>
    have result : (σ.sendResponse (some c) resp).1 =
        (τ.surrReleaseClient (some s) c).unrefSurr s := by
      simp [sendResponse, first, linked]
    obtain ⟨othersRel, sameRel⟩ := releasedSock τ s c
    obtain ⟨awayRel, releasedRel, sessionRel, sentRel, nextRel, clientsRel⟩ :=
      releasedSurr τ s c _ rfl
    rw [result]
    have elsewhere : ∀ r, (σ.socks c).client ≠ some r →
        ((τ.surrReleaseClient (some s) c).unrefSurr s).surrs r = σ.surrs r := by
      intro r unlinked
      have other : r ≠ s := fun same => unlinked (same ▸ linked)
      rw [awayRel r other, away r unlinked]
    constructor
    · intro d other
      rw [othersRel d other, others d other]
    · obtain ⟨h1, h2, h3, h4, h5, h6⟩ := sameRel
      obtain ⟨g1, g2, g3, g4, g5, g6⟩ := answered
      exact ⟨h1.trans g1, h2.trans g2, h3.trans g3, h4.trans g4, h5.trans g5, h6.trans g6⟩
    · exact elsewhere
    · intro r here
      obtain rfl : s = r := Option.some.inj (linked.symm.trans here)
      rw [releasedRel, kept]
    · intro r
      by_cases same : r = s
      · subst same
        obtain ⟨h1, h2, h3, h4⟩ := sessionRel
        obtain ⟨g1, g2, g3, g4⟩ := session r
        exact ⟨h1.trans g1, h2.trans g2, h3.trans g3, h4.trans g4⟩
      · rw [awayRel r same]
        exact session r
    · rw [sentRel, sent]
    · rw [nextRel, nextSurr]
    · rw [clientsRel, clients]

/-- `_send_response` tells whether it wrote. -/
theorem sendResponse_sent (σ : Http) (c : SockId) (resp : Response) :
    (σ.sendResponse (some c) resp).2 = (σ.socks c).inRequest := by
  unfold sendResponse
  cases linked : (σ.socks c).client with
  | none => simp [linked]
  | some s => simp [linked]

/-! ### Counting -/

/-- The responses written on a socket, oldest first. -/
def responses (σ : Http) (c : SockId) : List Sent := σ.sent.filter (·.sock = c)

/-- After `count c` requests on socket `c`, all of them have been answered in
order, but for the last one while the socket is in a request. -/
structure Counted (count : SockId → Nat) (σ : Http) : Prop where
  requests : ∀ c, (σ.socks c).requests = count c
  pending : ∀ c, (σ.socks c).inRequest = true → 0 < count c
  answered : ∀ c, (σ.responses c).map (·.request) =
    List.range' 1 (count c - if (σ.socks c).inRequest then 1 else 0)

namespace Counted

variable {count : SockId → Nat} {σ : Http}

theorem same (counted : Counted count σ) {τ : Http} (sent : τ.sent = σ.sent)
    (socks : ∀ c, (τ.socks c).inRequest = (σ.socks c).inRequest ∧
      (τ.socks c).requests = (σ.socks c).requests) : Counted count τ := by
  constructor
  · intro c
    rw [(socks c).2, counted.requests c]
  · intro c owes
    rw [(socks c).1] at owes
    exact counted.pending c owes
  · intro c
    rw [(socks c).1, ← counted.answered c, responses, responses, sent]

theorem setSock (counted : Counted count σ) (c : SockId) (f : Socket → Socket)
    (inRequest : (f (σ.socks c)).inRequest = (σ.socks c).inRequest)
    (requests : (f (σ.socks c)).requests = (σ.socks c).requests) :
    Counted count (σ.setSock c f) := by
  apply counted.same (sent_setSock σ c f)
  intro d
  rw [socks_setSock]
  split
  next here =>
    subst here
    exact ⟨inRequest, requests⟩
  next => exact ⟨rfl, rfl⟩

/-- A response closes the request that is owed one, or is not written. -/
theorem sendResponse (counted : Counted count σ) (client : Option SockId) (resp : Response) :
    Counted count (σ.sendResponse client resp).1 := by
  cases client with
  | none => exact counted
  | some c =>
    have done := sendResponse_responded σ c resp
    generalize (σ.sendResponse (some c) resp).1 = τ at done ⊢
    obtain ⟨-, inRequest, -, -, requests, -⟩ := done.answered
    constructor
    · intro d
      by_cases here : d = c
      · subst here
        rw [requests]
        exact counted.requests d
      · rw [done.others d here, counted.requests d]
    · intro d owes
      by_cases here : d = c
      · subst here
        rw [inRequest] at owes
        cases owes
      · rw [done.others d here] at owes
        exact counted.pending d owes
    · intro d
      have before := counted.answered d
      have numbered := counted.requests d
      by_cases here : d = c
      · subst here
        rw [inRequest]
        cases owes : (σ.socks d).inRequest with
        | false =>
          rw [owes] at before
          simpa [responses, done.sent, owes] using before
        | true =>
          -- the response answers the request that was owed one
          have last : 1 + (count d - 1) = count d := by
            have positive := counted.pending d owes
            omega
          rw [owes, if_pos rfl] at before
          have grown : List.range' 1 (count d) =
              List.range' 1 (count d - 1) ++ [count d] := by
            rw [← Nat.sub_add_cancel (counted.pending d owes), List.range'_concat]
            simp [Nat.add_comm]
          simp only [responses, done.sent, owes, if_true, List.filter_append, List.map_append,
            Bool.false_eq_true, if_false, Nat.sub_zero]
          rw [grown, ← before]
          simp [responses, numbered]
      · have elsewhere : ¬ c = d := fun eq => here eq.symm
        rw [done.others d here, ← before]
        simp only [responses, done.sent]
        split
        · simp [elsewhere]
        · simp

/-- Only the response to a request and the next header are counted. -/
theorem loose (env : HttpEnv) (count : SockId → Nat) :
    Loose env (fun _ => True) (Counted count) where
  respond c resp _ counted := counted.sendResponse (some c) resp
  sock c f aside counted := counted.setSock c f (aside _).1 (aside _).2.1
  surr _ _ _ counted := counted.same rfl fun _ => ⟨rfl, rfl⟩
  give _ _ counted := counted.same rfl fun _ => ⟨rfl, rfl⟩
  keep _ _ counted := counted.same rfl fun _ => ⟨rfl, rfl⟩
  flush _ counted := counted.same rfl fun _ => ⟨rfl, rfl⟩
  created _ counted := counted.same rfl fun _ => ⟨rfl, rfl⟩
  close c _ _ counted := counted.setSock c _ rfl rfl
  aborts _ counted := counted.same rfl fun _ => ⟨rfl, rfl⟩
  clients _ counted := counted.same rfl fun _ => ⟨rfl, rfl⟩
  held _ _ := trivial
  status _ := trivial
  iframe := trivial
  frame _ := trivial
  quiet c f same counted := counted.setSock c f (same _).1 (same _).2
  logged _ _ counted := counted.same rfl fun _ => ⟨rfl, rfl⟩
  tick _ counted := counted.same rfl fun _ => ⟨rfl, rfl⟩
  opened _ counted := counted.same rfl fun _ => ⟨rfl, rfl⟩

/-- A request comes in on a socket that owes nothing. -/
theorem request (counted : Counted count σ) (c : SockId) (keepAlive : Bool)
    (idle : (σ.socks c).inRequest = false) :
    Counted (Function.update count c (count c + 1)) (σ.setSock c fun k => { k with
      inRequest := true
      keepAlive := keepAlive
      requests := k.requests + 1 }) := by
  constructor
  · -- one request more on this socket
    intro d
    have before := counted.requests d
    by_cases here : d = c
    · subst here
      simp [before]
    · simp [here, before]
  · -- it is pending now
    intro d owes
    by_cases here : d = c
    · subst here
      simp
    · simp only [socks_setSock, here, if_false] at owes
      simpa [here] using counted.pending d owes
  · -- and was not answered yet
    intro d
    have before := counted.answered d
    by_cases here : d = c
    · subst here
      simpa [responses, idle] using before
    · simpa [responses, here] using before

/-- A header is one more request, whatever becomes of it. -/
theorem routeHeader (counted : Counted count σ) (env : HttpEnv) (c : SockId) (req : HttpRequest)
    (room : Bool) :
    Counted (Function.update count c (count c + 1)) (σ.routeHeader env c req room) := by
  -- what the previous request still waited for is flushed first
  have flushed := (loose env count).sendError (some c) .status200
    ((loose env count).routeBegin c counted)
  have idle : (((σ.routeBegin c).sendError env (some c) .status200).1.socks c).inRequest = false :=
    (sendResponse_responded _ c _).answered.2.1
  exact (loose env _).routeHeader c req room (flushed.request c (keepAlive req) idle)

end Counted

/-- How many headers arrived on a socket in a run. -/
def headers (c : SockId) (ls : List Label) : Nat :=
  ls.countP fun l =>
    match l with
    | .header d _ _ => d = c
    | _ => false

/-- One step counts the header it takes. -/
theorem Counted.step {count : SockId → Nat} {σ τ : Http} {env : HttpEnv} {l : Label}
    (counted : Counted count σ) (stepped : σ.step env l = some τ) :
    Counted (fun c => count c + headers c [l]) τ := by
  by_cases header : ∃ c req room, l = .header c req room
  · -- a header counts its request
    obtain ⟨c, req, room, rfl⟩ := header
    cases step_cases stepped
    have after := counted.routeHeader env c req room
    have same : Function.update count c (count c + 1) =
        fun d => count d + headers d [.header c req room] := by
      funext d
      by_cases here : d = c
      · subst here
        simp [headers]
      · have elsewhere : ¬ c = d := fun eq => here eq.symm
        simp [headers, here, elsewhere]
    rwa [same] at after
  · -- no other label does
    have other : ∀ c req room, l ≠ .header c req room :=
      fun c req room same => header ⟨c, req, room, same⟩
    have uncounted : ∀ c, headers c [l] = 0 := by
      intro c
      cases l with
      | header d req room => exact absurd rfl (other d req room)
      | _ => rfl
    have after := (loose env count).step stepped other counted
    simpa [uncounted] using after

theorem headers_cons (c : SockId) (l : Label) (ls : List Label) :
    headers c (l :: ls) = headers c [l] + headers c ls := by
  rw [headers, headers, headers, ← List.countP_append]
  rfl

/-- A run counts the headers it takes. -/
theorem Counted.run {count : SockId → Nat} {σ τ : Http} {env : HttpEnv} {ls : List Label}
    (counted : Counted count σ) (ran : (system env).run σ ls = some τ) :
    Counted (fun c => count c + headers c ls) τ := by
  induction ls generalizing count σ with
  | nil =>
    cases ran
    simpa [headers] using counted
  | cons l ls ih =>
    obtain ⟨υ, stepped, rest⟩ := ((system env).run_cons_iff σ τ l ls).mp ran
    have after := ih (counted.step stepped) rest
    simpa only [headers_cons _ l ls, Nat.add_assoc] using after

theorem start_counted : Counted (fun _ => 0) start := by
  constructor
  · intro c
    rfl
  · intro c owes
    cases owes
  · intro c
    rfl

/-- In every run, a socket has been sent a response for each of its requests,
in the order of the requests, but for the last one while it is in a request. -/
theorem one_response_per_request (env : HttpEnv) (ls : List Label) (σ : Http)
    (ran : (system env).run start ls = some σ) (c : SockId) :
    (σ.responses c).length + (if (σ.socks c).inRequest then 1 else 0) = headers c ls ∧
      (σ.responses c).map (·.request) = List.range' 1 (σ.responses c).length := by
  have counted := start_counted.run ran
  have answered := counted.answered c
  have number := congrArg List.length answered
  rw [List.length_map, List.length_range', Nat.zero_add] at number
  constructor
  · rw [number]
    cases owes : (σ.socks c).inRequest with
    | false => simp
    | true =>
      have positive := counted.pending c owes
      rw [Nat.zero_add] at positive
      simp
      omega
  · rw [answered, number, Nat.zero_add]

/-- A server that serves HTTP and takes any decimal length. -/
def sampleEnv : HttpEnv where
  publicAddress := some (str "localhost")
  iframePage := []
  errorPage := []
  safeStrtoull s := if s.all isDigit then some (digitsValue s) else none
  timeout := 10000

/-- A `POST` that polls for the session whose key is all zeros. -/
def samplePost (contentLen : String) : HttpRequest where
  method := str "POST"
  url := str "/?connect=true&sid=00000000000000000000000000000000"
  headers := [(str "Content-Length", str contentLen)]

/-- A poll that the next request on the socket flushes, and one that a send
from outside answers. -/
def pipelined : List Label := [
  .opened, .header 0 (samplePost "0") true, .body 0 [] [],
  .header 0 (samplePost "0") true, .body 0 [] [],
  .act (.send 0 ⟨str "/a", [], 0, str "1"⟩), .header 0 { samplePost "0" with ok := false } true]

theorem one_response_per_request_pipelined :
    ∃ σ, (system sampleEnv).run start pipelined = some σ ∧ (σ.socks 0).inRequest = true ∧
      (σ.responses 0).length + 1 = 3 ∧ (σ.responses 0).map (·.request) = [1, 2] := by
  have some : ((system sampleEnv).run start pipelined).isSome := by decide
  obtain ⟨σ, ran⟩ := Option.isSome_iff_exists.mp some
  have finished : ∀ σ ∈ (system sampleEnv).run start pipelined,
      (σ.socks 0).inRequest = true := by decide
  have owes := finished σ ran
  obtain ⟨count, order⟩ := one_response_per_request sampleEnv pipelined σ ran 0
  rw [owes] at count
  have two : (σ.responses 0).length = 2 := Nat.succ.inj count
  refine ⟨σ, ran, owes, count, ?_⟩
  rw [order, two]
  rfl

end Http

end QuickIO
