import QuickIO.Heartbeats
import QuickIO.HttpPaces
import QuickIO.Lib.Rounds

/-!
# The rounds of HTTP

`periodic_run` goes over all clients, with limits taken when it begins, while
the threads that read and send go on. The clients are visited in any order, and
a visit is `protocols_heartbeat`. So no poll is left without an answer, no
connection idle, and no session without a poller for longer than its limit.
-/
namespace QuickIO

open Lib

/-- A client that `qev_foreach` visits. -/
inductive HttpClient
  | sock (c : SockId)
  | surr (s : SurrId)
deriving DecidableEq, Repr

namespace Http

variable (env : HttpEnv) (σ : Http)

/-- `protocol_http_heartbeat` on a surrogate, with the limits of its round. -/
def surrHeartbeat (hb : Intervals) (s : SurrId) : Http :=
  if (σ.surrs s).client = none ∧ (σ.surrs s).lastSend < hb.timeout then
    σ.closeSurr s .heartattack
  else σ

/-- `protocol_http_heartbeat` on a socket, with the limits of its round. -/
def sockHeartbeat (hb : Intervals) (c : SockId) : Http :=
  match (σ.socks c).client with
  | none => if (σ.socks c).lastSend < hb.heartbeat then σ.closeSock c .heartattack else σ
  | some _ => if (σ.socks c).lastSend < hb.poll then (σ.sendError env (some c) .status200).1 else σ

/-- `_foreach_cb`: `protocols_heartbeat` looks at a client that has shaken hands,
which a surrogate always has. -/
def foreachCb (hb : Intervals) : HttpClient → Http
  | .sock c =>
    if σ.Routes c ∧ (σ.socks c).handshaked then σ.sockHeartbeat env hb c else σ
  | .surr s =>
    if s < σ.nextSurr ∧ (σ.surrs s).closed = false then σ.surrHeartbeat hb s else σ

/-- The clients there are. -/
def everybody : List HttpClient :=
  (List.range σ.nextSock).map .sock ++ (List.range σ.nextSurr).map .surr

end Http

/-- The sessions with the round they are in, the limits of that round, and the
clients it has not visited yet. -/
structure HttpRounds where
  http : Http
  beganAt : Int
  hb : Http.Intervals
  left : List HttpClient

namespace HttpRounds

variable (env : HttpEnv) (w : Rounds) (d : HttpRounds)

def round : Rounds.Round HttpClient := ⟨d.http.now, d.beganAt, d.left⟩

/-- An atomic step. Between the visits of a round anything else happens. -/
inductive Label
  | http (l : Http.Label)
  | periodicRun (order : List HttpClient)
  | visit (x : HttpClient)
deriving DecidableEq, Repr

/-- Time goes by, but neither the round nor the next one is late. -/
def onTime (now : Int) : Bool :=
  now ≤ d.beganAt + w.period && (d.left = [] || now ≤ d.beganAt + w.lasts)

/-- What happens beside the visits. The heartbeats are those of the rounds. -/
def allows : Http.Label → Bool
  | .tick usec => d.onTime w (d.http.now + usec)
  | .heartbeatSock _ | .heartbeatSurr _ => false
  | _ => true

def step (d : HttpRounds) : Label → Option HttpRounds
  | .http l =>
    if d.allows w l then (d.http.step env l).map fun http => { d with http } else none
  -- `qev_foreach` visits every client once, in an order of its own.
  | .periodicRun order =>
    if d.left = [] ∧ order.Perm d.http.everybody then
      some { d with
        beganAt := d.http.now
        hb := d.http.heartbeatGetIntervals env
        left := order }
    else none
  | .visit x =>
    if x ∈ d.left ∧ d.http.aborted = false then
      some { d with http := d.http.foreachCb env d.hb x, left := d.left.erase x }
    else none

/-- Nobody has connected, and a round has just ended. -/
def start : HttpRounds where
  http := Http.start
  beganAt := 0
  hb := Http.start.heartbeatGetIntervals env
  left := []

def system : TransitionSystem HttpRounds Label where
  init d := d = start env
  step := step env w


end HttpRounds

namespace Http

variable {env : HttpEnv} {σ τ : Http}

/-! ### What is waited for -/

/-- The socket waits for a response. -/
def Polling (σ : Http) : HttpClient → Int → Prop
  | .sock c, t => (σ.socks c).client ≠ none ∧ (σ.socks c).lastSend = t
  | .surr _, _ => False

/-- The socket is open, and has shaken hands. -/
def Connected (σ : Http) : HttpClient → Int → Prop
  | .sock c, t => (σ.socks c).handshaked = true ∧ (σ.socks c).Live ∧ (σ.socks c).lastSend = t
  | .surr _, _ => False

/-- The session is open, and no socket polls it. -/
def Unpolled (σ : Http) : HttpClient → Int → Prop
  | .sock _, _ => False
  | .surr s, t =>
    s < σ.nextSurr ∧ (σ.surrs s).closed = false ∧ (σ.surrs s).closing = none ∧
      (σ.surrs s).client = none ∧ (σ.surrs s).lastSend = t

/-- Whoever has shaken hands exists. -/
def Present (σ : Http) : Prop := ∀ c, (σ.socks c).handshaked = true → c < σ.nextSock

/-! ### Sessions -/

/-- Nothing takes it back that a session is closing. -/
theorem Move.stays {P : SockId → Prop} {a b : Http × List SockId} (move : Move P a b)
    {s : SurrId} (shut : s < a.1.nextSurr ∧ (a.1.surrs s).closing ≠ none) :
    s < b.1.nextSurr ∧ (b.1.surrs s).closing ≠ none := by
  obtain ⟨there, closing⟩ := shut
  cases move with
  | log τ socks surrs nextSock nextSurr sent aborted clients =>
    exact ⟨nextSurr ▸ there, surrs ▸ closing⟩
  | opened => exact ⟨there, closing⟩
  | closing c reason => exact ⟨there, closing⟩
  | keep c f mine request refs => exact ⟨there, closing⟩
  | own c f mine alone client refs closed linked => exact ⟨there, closing⟩
  | shut c unlinked => exact ⟨there, closing⟩
  | surr r f client refs closed kept =>
    refine ⟨there, ?_⟩
    rw [surrs_setSurr]
    split
    next here => exact kept (here ▸ closing)
    next => exact closing
  | created sid =>
    refine ⟨Nat.lt_succ_of_lt there, ?_⟩
    rw [surrs_surrNew _ _ _ (Nat.ne_of_lt there)]
    exact closing
  | retire r last =>
    refine ⟨there, ?_⟩
    rw [surrs_setSurr]
    split
    next => exact last
    next => exact closing
  | @respond σ held c resp mine =>
    have done := sendResponse_responded σ c resp
    exact ⟨done.nextSurr ▸ there, (done.session s).2.2.2 ▸ closing⟩
  | take r =>
    refine ⟨there, ?_⟩
    rw [Http.setPoller, surrs_setSurr]
    split
    next here => exact here ▸ closing
    next => exact closing
  | attach r c mine vacant open_ linked ready =>
    refine ⟨there, ?_⟩
    rw [Http.setPoller, refSock, surrs_setSock, surrs_setSurr]
    split
    next here => exact here ▸ closing
    next => exact closing
  | release c mine => exact ⟨there, closing⟩
  | link c r mine unlinked owes closed upgraded known there' =>
    refine ⟨there, ?_⟩
    rw [refSurr, surrs_setSurr, surrs_setSock]
    split
    next here => exact here ▸ closing
    next => exact closing
  | unlink c r mine linked last =>
    refine ⟨there, ?_⟩
    rw [surrs_setSock, unrefSurr, surrs_setSurr]
    split
    next => exact last
    next => exact closing

theorem Moves.stays {P : SockId → Prop} {a b : Http × List SockId} (moves : Moves P a b)
    {s : SurrId} (shut : s < a.1.nextSurr ∧ (a.1.surrs s).closing ≠ none) :
    s < b.1.nextSurr ∧ (b.1.surrs s).closing ≠ none := by
  induction moves with
  | refl => exact shut
  | tail _ move ih => exact move.stays ih

theorem link_surrs_lastSend (σ : Http) (c : SockId) (surrogate : Option SurrId) (s : SurrId) :
    ((σ.link c surrogate).surrs s).lastSend = (σ.surrs s).lastSend := by
  cases surrogate with
  | none => rfl
  | some r =>
    simp only [Http.link]
    split
    next => rfl
    next =>
      rw [refSurr, surrs_setSurr, surrs_setSock]
      split
      next here => rw [here]
      next => rfl

/-- A session that is made is made at the time of its request. -/
theorem openRequest_born {c : SockId} {req : HttpRequest} {bodyLen : Nat} {room : Bool}
    {s : SurrId} (new : σ.nextSurr ≤ s) (made : s < (σ.openRequest c req bodyLen room).nextSurr) :
    ((σ.openRequest c req bodyLen room).surrs s).lastSend = σ.now := by
  have links : (σ.openRequest c req bodyLen room).table =
      (σ.getSurrogate req.url room).1.table := by
    simp [Http.openRequest]
  have reached : s < (σ.getSurrogate req.url room).1.nextSurr :=
    lt_of_lt_of_eq made (congrArg Table.nextSurr links)
  rcases getSurrogate_cases σ req.url room with found | ⟨sid, created⟩
  · rw [found] at reached
    exact absurd reached (Nat.not_lt.mpr new)
  · rw [created] at reached
    have here : s = σ.nextSurr := Nat.le_antisymm (Nat.le_of_lt_succ reached) new
    have fresh : ((σ.getSurrogate req.url room).1.surrs s).lastSend = σ.now := by
      rw [created, here, surrs_surrNew_self]
    rw [← fresh]
    exact link_surrs_lastSend _ c _ s

theorem routeHeader_born {c : SockId} {req : HttpRequest} {room : Bool} {s : SurrId}
    (new : σ.nextSurr ≤ s) (made : s < (σ.routeHeader env c req room).nextSurr) :
    ((σ.routeHeader env c req room).surrs s).lastSend = σ.now := by
  have begun : (σ.requestBegin env c req).table = σ.table := by
    simp [requestBegin, Http.routeBegin]
  have later : (σ.requestBegin env c req).nextSurr ≤ s :=
    le_of_eq_of_le (congrArg Table.nextSurr begun) new
  have now : (σ.requestBegin env c req).now = σ.now := by
    simp [requestBegin, sendError, sendResponse_now, Http.routeBegin, setSock]
  -- What follows the block is about the socket.
  have surrs : (σ.routeHeader env c req room).surrs = (σ.headerBlock env c req room).1.surrs ∧
      (σ.routeHeader env c req room).nextSurr = (σ.headerBlock env c req room).1.nextSurr := by
    rw [routeHeader_eq]
    split
    next => exact ⟨rfl, rfl⟩
    next => exact ⟨rfl, rfl⟩
    next => exact ⟨rfl, rfl⟩
  rw [surrs.2] at made
  rw [surrs.1, ← now]
  have before : ∀ υ : Http, υ.table = (σ.requestBegin env c req).table → ¬ s < υ.nextSurr :=
    fun υ same => Nat.not_lt.mpr (le_of_eq_of_le (congrArg Table.nextSurr same) later)
  rcases headerBlock_cases env σ c req room with websocket | http | broken
  · rw [websocket] at made
    refine absurd made (before _ ?_)
    simp only [doHeadersWebsocket]
    split_ifs
    · exact table_sendError _ _ _ _
    · exact table_sendError _ _ _ _
    · rfl
  · rw [http] at made ⊢
    simp only [doHeadersHttp] at made ⊢
    cases length : req.header (str "Content-Length") with
    | some contentLen =>
      cases parsed : env.safeStrtoull contentLen with
      | none =>
        simp only [length, parsed] at made
        exact absurd made (before _ rfl)
      | some n =>
        simp only [length, parsed] at made ⊢
        exact openRequest_born later made
    | none =>
      simp only [length] at made ⊢
      by_cases post : req.method = str "POST"
      · rw [if_pos post] at made
        exact absurd made (before _ rfl)
      · rw [if_neg post] at made ⊢
        exact openRequest_born later made
  · rw [broken] at made
    exact absurd made (before _ rfl)

/-- What a step leaves unpolled was so before, or was touched now. -/
theorem step_unpolled {l : Label} (sound : Sound σ) (stepped : σ.step env l = some τ)
    (timeless : ∀ usec, l ≠ .tick usec) {x : HttpClient} {t : Int} (here : Unpolled τ x t) :
    Unpolled σ x t ∨ t = τ.now := by
  cases x with
  | sock c => exact here.elim
  | surr s =>
    obtain ⟨made, open_, closing, alone, last⟩ := here
    have writes := step_writes sound.valid stepped
    by_cases there : s < σ.nextSurr
    · have passes : Passes s l σ τ := step_passes sound.asks stepped
      rcases passes.send with same | fresh
      · have before : (σ.surrs s).closed = false := by
          by_contra gone
          have shut := writes.closed there (Bool.not_eq_false _ ▸ gone)
          exact absurd (open_.symm.trans shut) (by decide)
        have still : (σ.surrs s).closing = none := by
          by_contra shut
          have stays := (step_moves sound.owing sound.linked stepped).stays ⟨there, shut⟩
          exact stays.2 closing
        by_cases idle : (σ.surrs s).client = none
        · exact Or.inl ⟨there, before, still, idle, same.symm.trans last⟩
        · -- its poller has been answered just now
          have other : l ≠ .onCloseSurr s := by
            rintro rfl
            have shut : τ.table.closed s = true := by
              rw [writes.2.2]
              exact Function.update_self _ _ _
            exact absurd (open_.symm.trans shut) (by decide)
          have fresh := (passes.polled other idle).resolve_left fun polled => polled alone
          exact Or.inr (last.symm.trans fresh)
      · exact Or.inr (last.symm.trans fresh)
    · -- a session of this step
      have now : τ.now = σ.now := (Paces.step (c := 0) env stepped timeless).now
      have new : σ.nextSurr ≤ s := Nat.le_of_not_lt there
      cases l with
      | header c req room =>
        cases step_cases stepped
        have born := routeHeader_born new made
        exact Or.inr ((last.symm.trans born).trans now.symm)
      | onCloseSurr r =>
        have same : τ.nextSurr = σ.nextSurr := congrArg Table.nextSurr writes.2.2
        exact absurd (same ▸ made) there
      | _ =>
        have same : τ.nextSurr = σ.nextSurr := congrArg Table.nextSurr writes
        exact absurd (same ▸ made) there

/-! ### Visits -/

/-- The limits of a round that begins at a time. -/
def limits (env : HttpEnv) (beganAt : Int) : Intervals where
  timeout := beganAt - env.timeout * 1000
  poll := beganAt - secToUsec 55 + secToUsec 10
  heartbeat := beganAt - secToUsec 61 + secToUsec 10

theorem heartbeatGetIntervals_eq : σ.heartbeatGetIntervals env = limits env σ.now := rfl

/-- A visit is a heartbeat of this time, or nothing: whoever is late by limits
that are older is late by now. -/
theorem foreachCb_cases {beganAt : Int} (past : beganAt ≤ σ.now) (up : σ.aborted = false)
    (x : HttpClient) :
    σ.foreachCb env (limits env beganAt) x = σ ∨
      ∃ l, (∀ usec, l ≠ .tick usec) ∧
        σ.step env l = some (σ.foreachCb env (limits env beganAt) x) := by
  cases x with
  | sock c =>
    simp only [foreachCb]
    split
    next looks =>
      have stepped : σ.step env (.heartbeatSock c) = some (σ.heartbeatSock env c) := by
        simp [Http.step, up, looks]
      have poll : (limits env beganAt).poll ≤ (limits env σ.now).poll := by
        simp only [limits]
        omega
      have heartbeat : (limits env beganAt).heartbeat ≤ (limits env σ.now).heartbeat := by
        simp only [limits]
        omega
      cases link : (σ.socks c).client with
      | none =>
        simp only [sockHeartbeat, link]
        split
        next late =>
          refine Or.inr ⟨.heartbeatSock c, fun _ => by rintro ⟨⟩, stepped.trans (congrArg some ?_)⟩
          simp only [heartbeatSock, link]
          rw [if_pos (heartbeatGetIntervals_eq ▸ late.trans_le heartbeat)]
        next => exact Or.inl rfl
      | some s =>
        simp only [sockHeartbeat, link]
        split
        next late =>
          refine Or.inr ⟨.heartbeatSock c, fun _ => by rintro ⟨⟩, stepped.trans (congrArg some ?_)⟩
          simp only [heartbeatSock, link]
          rw [if_pos (heartbeatGetIntervals_eq ▸ late.trans_le poll)]
        next => exact Or.inl rfl
    next => exact Or.inl rfl
  | surr s =>
    simp only [foreachCb]
    split
    next looks =>
      have stepped : σ.step env (.heartbeatSurr s) = some (σ.heartbeatSurr env s) := by
        simp [Http.step, up, looks]
      have timeout : (limits env beganAt).timeout ≤ (limits env σ.now).timeout := by
        simp only [limits]
        omega
      simp only [surrHeartbeat]
      split
      next late =>
        refine Or.inr ⟨.heartbeatSurr s, fun _ => by rintro ⟨⟩, stepped.trans (congrArg some ?_)⟩
        simp only [heartbeatSurr]
        rw [if_pos ⟨late.1, heartbeatGetIntervals_eq ▸ late.2.trans_le timeout⟩]
      next => exact Or.inl rfl
    next => exact Or.inl rfl

theorem surrReleaseClient_sock (σ : Http) (surrogate : Option SurrId) (c : SockId) :
    ((σ.surrReleaseClient surrogate c).socks c).lastSend = (σ.socks c).lastSend ∧
      ((σ.surrReleaseClient surrogate c).socks c).closing = (σ.socks c).closing := by
  cases surrogate with
  | none => exact ⟨rfl, rfl⟩
  | some s =>
    simp only [surrReleaseClient]
    split
    next => simp [unrefSock]
    next => exact ⟨rfl, rfl⟩

/-- A socket is given up with its response, or without one. -/
theorem sendResponse_sock (σ : Http) (c : SockId) (resp : Response) :
    ((σ.sendResponse (some c) resp).1.socks c).lastSend =
        (if (σ.socks c).inRequest then σ.now else (σ.socks c).lastSend) ∧
      ((σ.sendResponse (some c) resp).1.socks c).closing =
        if (σ.socks c).inRequest && !(σ.socks c).keepAlive then
          (σ.socks c).closing.or (some .httpDone)
        else (σ.socks c).closing := by
  obtain ⟨τ, told⟩ : ∃ τ : Http, τ = if (σ.socks c).inRequest then
      (σ.setSock c fun k => { k with client := none }).answer c (σ.socks c).client resp
    else σ.setSock c fun k => { k with client := none } := ⟨_, rfl⟩
  have after : ((σ.sendResponse (some c) resp).1.socks c).lastSend = (τ.socks c).lastSend ∧
      ((σ.sendResponse (some c) resp).1.socks c).closing = (τ.socks c).closing := by
    have released := surrReleaseClient_sock τ (σ.socks c).client c
    have stolen : ((σ.setSock c fun k => { k with client := none }).socks c).inRequest =
        (σ.socks c).inRequest := by rw [socks_setSock, if_pos rfl]
    cases link : (σ.socks c).client with
    | none =>
      rw [link] at told released
      simp only [sendResponse, link, stolen, ← told]
      exact released
    | some s =>
      rw [link] at told released
      simp only [sendResponse, link, stolen, ← told]
      exact released
  rw [after.1, after.2, told]
  cases owes : (σ.socks c).inRequest with
  | false => simp
  | true =>
    cases keeps : (σ.socks c).keepAlive with
    | false => simp [answer_socks, Socket.answered, keeps, setSock]
    | true => simp [answer_socks, Socket.answered, keeps, setSock]

/-- A socket that waits is one that a round visits. -/
theorem Sound.looks (sound : Sound σ) {c : SockId} (waits : Waits c σ)
    (link : (σ.socks c).client ≠ none) : σ.Routes c ∧ (σ.socks c).handshaked = true := by
  obtain ⟨s, here⟩ := Option.ne_none_iff_exists'.mp link
  obtain ⟨-, closed, upgraded, -⟩ := sound.linked.tied.linked c s here
  have there : c < σ.nextSock := by
    by_contra beyond
    exact link (sound.linked.known.socks c (Nat.le_of_not_lt beyond))
  exact ⟨⟨there, closed, upgraded⟩, waits link⟩

/-- A socket that still waits after its visit was touched within the limit. -/
theorem foreachCb_polling (sound : Sound σ) {hb : Intervals} {c : SockId} (waits : Waits c σ)
    {t : Int} (here : Polling (σ.foreachCb env hb (.sock c)) (.sock c) t) : hb.poll ≤ t := by
  simp only [foreachCb] at here
  split at here
  next looks =>
    cases link : (σ.socks c).client with
    | none =>
      simp only [sockHeartbeat, link] at here
      split at here
      next =>
        have still := here.1
        rw [closeSock, socks_setSock, if_pos rfl] at still
        exact absurd link still
      next => exact absurd link here.1
    | some s =>
      simp only [sockHeartbeat, link] at here
      split at here
      next =>
        have gone := (sendResponse_responded σ c (env.statusResponses .status200)).answered.1
        exact absurd gone here.1
      next early =>
        rw [← here.2]
        exact Int.not_lt.mp early
  next blind => exact absurd (sound.looks waits here.1) blind

/-- A socket that is still open after its visit was touched within its limit. -/
theorem foreachCb_connected (sound : Sound σ) (present : Present σ) {beganAt : Int}
    (past : beganAt ≤ σ.now) {c : SockId} {t : Int}
    (here : Connected (σ.foreachCb env (limits env beganAt) (.sock c)) (.sock c) t) :
    beganAt - secToUsec 51 ≤ t := by
  have second : (0 : Int) ≤ secToUsec 1 := by decide
  simp only [foreachCb] at here
  split at here
  next looks =>
    cases link : (σ.socks c).client with
    | none =>
      simp only [sockHeartbeat, link] at here
      split at here
      next =>
        obtain ⟨-, ⟨-, -, closing⟩, -⟩ := here
        rw [closeSock, socks_setSock, if_pos rfl] at closing
        exact absurd (Option.or_eq_none_iff.mp closing).2 (Option.some_ne_none _)
      next early =>
        rw [← here.2.2]
        simp only [limits, secToUsec] at early ⊢
        omega
    | some s =>
      simp only [sockHeartbeat, link] at here
      split at here
      next =>
        have touched := (sendResponse_sock σ c (env.statusResponses .status200)).1
        rw [if_pos (sound.asks c s link)] at touched
        rw [← here.2.2]
        simp only [sendError, touched, secToUsec]
        omega
      next early =>
        rw [← here.2.2]
        simp only [limits, secToUsec] at early ⊢
        omega
  next blind =>
    obtain ⟨shook, ⟨upgraded, closed, -⟩, -⟩ := here
    exact absurd ⟨⟨present c shook, closed, upgraded⟩, shook⟩ blind

/-- A session that is still open and unpolled after its visit was touched within
the timeout. -/
theorem foreachCb_unpolled {hb : Intervals} {s : SurrId} {t : Int}
    (here : Unpolled (σ.foreachCb env hb (.surr s)) (.surr s) t) : hb.timeout ≤ t := by
  simp only [foreachCb] at here
  split at here
  next looks =>
    simp only [surrHeartbeat] at here
    split at here
    next =>
      obtain ⟨-, -, closing, -⟩ := here
      rw [closeSurr, surrs_setSurr, if_pos rfl] at closing
      exact absurd (Option.or_eq_none_iff.mp closing).2 (Option.some_ne_none _)
    next early =>
      obtain ⟨-, -, -, idle, last⟩ := here
      rw [← last]
      by_contra late
      exact early ⟨idle, Int.not_le.mp late⟩
  next blind =>
    obtain ⟨there, open_, -⟩ := here
    exact absurd ⟨there, open_⟩ blind

theorem polling_mem (sound : Sound σ) {x : HttpClient} {t : Int} (here : Polling σ x t) :
    x ∈ σ.everybody := by
  cases x with
  | surr s => exact here.elim
  | sock c =>
    have there : c < σ.nextSock := by
      by_contra beyond
      exact here.1 (sound.linked.known.socks c (Nat.le_of_not_lt beyond))
    simp [everybody, there]

theorem connected_mem (present : Present σ) {x : HttpClient} {t : Int} (here : Connected σ x t) :
    x ∈ σ.everybody := by
  cases x with
  | surr s => exact here.elim
  | sock c =>
    have there := present c here.1
    simp [everybody, there]

theorem unpolled_mem {x : HttpClient} {t : Int} (here : Unpolled σ x t) : x ∈ σ.everybody := by
  cases x with
  | sock c => exact here.elim
  | surr s =>
    have there := here.1
    simp [everybody, there]

/-! ### Timeless steps -/

theorem step_polling {l : Label} (stepped : σ.step env l = some τ)
    (timeless : ∀ usec, l ≠ .tick usec) {x : HttpClient} {t : Int} (here : Polling τ x t) :
    Polling σ x t ∨ t = τ.now := by
  cases x with
  | surr s => exact here.elim
  | sock c =>
    have paces : Paces (c < σ.nextSock) c σ τ := .step env stepped timeless
    obtain ⟨link, last⟩ := here
    rcases paces.linked link with before | timely
    · rcases paces.send with same | timely
      · exact Or.inl ⟨before, same.symm.trans last⟩
      · exact Or.inr (last.symm.trans timely)
    · exact Or.inr (last.symm.trans timely)

theorem step_connected {l : Label} (stepped : σ.step env l = some τ)
    (timeless : ∀ usec, l ≠ .tick usec) {x : HttpClient} {t : Int} (here : Connected τ x t) :
    Connected σ x t ∨ t = τ.now := by
  cases x with
  | surr s => exact here.elim
  | sock c =>
    have paces : Paces (c < σ.nextSock) c σ τ := .step env stepped timeless
    obtain ⟨shook, live, last⟩ := here
    rcases paces.shook shook with before | ⟨-, timely⟩
    · rcases paces.send with same | timely
      · exact Or.inl ⟨before, paces.live live, same.symm.trans last⟩
      · exact Or.inr (last.symm.trans timely)
    · exact Or.inr (last.symm.trans timely)

theorem step_present {l : Label} (present : Present σ) (stepped : σ.step env l = some τ)
    (timeless : ∀ usec, l ≠ .tick usec) : Present τ := by
  intro c shook
  have paces : Paces (c < σ.nextSock) c σ τ := .step env stepped timeless
  rcases paces.shook shook with before | ⟨there, -⟩
  · exact Nat.lt_of_lt_of_le (present c before) paces.more
  · exact Nat.lt_of_lt_of_le there paces.more

end Http

namespace HttpRounds

variable {env : HttpEnv} {w : Rounds} {d d' : HttpRounds}

/-! ### The invariant -/

/-- Between any two steps, those of a round included. -/
structure Inv (env : HttpEnv) (w : Rounds) (d : HttpRounds) : Prop where
  sound : Http.Sound d.http
  inTime : w.InTime d.round
  limits : d.hb = Http.limits env d.beganAt
  waits : ∀ c, Http.Waits c d.http
  present : Http.Present d.http
  polling : w.Since (Http.secToUsec 45) d.round (Http.Polling d.http)
  connected : w.Since (Http.secToUsec 51) d.round (Http.Connected d.http)
  unpolled : w.Since (env.timeout * 1000) d.round (Http.Unpolled d.http)

theorem inv_start : Inv env w (start env) where
  sound := ⟨Http.Owing.start_owing, Http.start_linked, Http.start_valid⟩
  inTime := Rounds.InTime.start 0 []
  limits := rfl
  waits _ link := absurd rfl link
  present _ shook := by cases shook
  polling := ⟨fun x t here => by cases x <;> simp [start, Http.Polling, Http.start] at here,
    fun x t here => by cases x <;> simp [start, Http.Polling, Http.start] at here⟩
  connected := ⟨fun x t here => by cases x <;> simp [start, Http.Connected, Http.start] at here,
    fun x t here => by cases x <;> simp [start, Http.Connected, Http.start] at here⟩
  unpolled := ⟨fun x t here => by cases x <;> simp [start, Http.Unpolled, Http.start] at here,
    fun x t here => by cases x <;> simp [start, Http.Unpolled, Http.start] at here⟩

/-- Anything that takes no time. -/
theorem Inv.timeless (inv : Inv env w d) (timeout : 0 ≤ env.timeout) {http : Http}
    {l : Http.Label} (stepped : d.http.step env l = some http)
    (timeless : ∀ usec, l ≠ .tick usec) : Inv env w { d with http } := by
  have now : http.now = d.http.now := (Http.Paces.step (c := 0) env stepped timeless).now
  have round : ({ d with http } : HttpRounds).round = d.round := by simp [HttpRounds.round, now]
  refine ⟨inv.sound.step stepped, round ▸ inv.inTime, inv.limits, fun c => ?_,
    Http.step_present inv.present stepped timeless, ?_, ?_, ?_⟩
  · exact (Http.Paces.step env stepped timeless).waits (inv.waits c)
  · rw [round]
    refine inv.polling.keep inv.inTime (by decide) fun x t here => ?_
    exact (Http.step_polling stepped timeless here).imp_right fun t => t.trans now
  · rw [round]
    refine inv.connected.keep inv.inTime (by decide) fun x t here => ?_
    exact (Http.step_connected stepped timeless here).imp_right fun t => t.trans now
  · rw [round]
    refine inv.unpolled.keep inv.inTime (by omega) fun x t here => ?_
    exact (Http.step_unpolled inv.sound stepped timeless here).imp_right fun t => t.trans now

/-- Time goes by. -/
theorem Inv.tick (inv : Inv env w d) {usec : Nat} {http : Http}
    (stepped : d.http.step env (.tick usec) = some http)
    (onTime : d.onTime w (d.http.now + usec) = true) : Inv env w { d with http } := by
  cases Http.step_cases stepped
  obtain ⟨soon, rest⟩ := Bool.and_eq_true_iff.mp onTime
  refine ⟨inv.sound.step stepped, ?_, inv.limits, inv.waits, inv.present,
    ⟨inv.polling.visited, inv.polling.waiting⟩, ⟨inv.connected.visited, inv.connected.waiting⟩,
    ⟨inv.unpolled.visited, inv.unpolled.waiting⟩⟩
  refine inv.inTime.tick (Int.le_add_of_nonneg_right (Int.natCast_nonneg usec))
    (of_decide_eq_true soon) fun more => ?_
  rcases Bool.or_eq_true_iff.mp rest with done | early
  · exact absurd (of_decide_eq_true done) more
  · exact of_decide_eq_true early

/-- A round begins. -/
theorem Inv.periodicRun (inv : Inv env w d) {order : List HttpClient} (ended : d.left = [])
    (all : order.Perm d.http.everybody) :
    Inv env w { d with
      beganAt := d.http.now, hb := d.http.heartbeatGetIntervals env, left := order } where
  sound := inv.sound
  inTime := Rounds.InTime.start d.http.now order
  limits := rfl
  waits := inv.waits
  present := inv.present
  polling := inv.polling.start inv.inTime ended fun _ _ here =>
    all.mem_iff.mpr (Http.polling_mem inv.sound here)
  connected := inv.connected.start inv.inTime ended fun _ _ here =>
    all.mem_iff.mpr (Http.connected_mem inv.present here)
  unpolled := inv.unpolled.start inv.inTime ended fun _ _ here =>
    all.mem_iff.mpr (Http.unpolled_mem here)

/-- A client is visited. -/
theorem Inv.visit (inv : Inv env w d) (timeout : 0 ≤ env.timeout) (up : d.http.aborted = false)
    (x : HttpClient) :
    Inv env w { d with http := d.http.foreachCb env d.hb x, left := d.left.erase x } := by
  -- The visit takes no time, so that all is as it was before, but for the client itself.
  have after : Inv env w { d with http := d.http.foreachCb env d.hb x } := by
    have past : d.beganAt ≤ d.http.now := inv.inTime.past
    have cases_ := @Http.foreachCb_cases env _ _ past up x
    rw [← inv.limits] at cases_
    rcases cases_ with same | ⟨l, timeless, stepped⟩
    · rw [same]
      exact inv
    · exact inv.timeless timeout stepped timeless
  have others : ∀ y ∈ d.left, y ≠ x → y ∈ d.left.erase x :=
    fun y member other => (List.mem_erase_of_ne other).mpr member
  refine ⟨after.sound, after.inTime.visit ?_, inv.limits, after.waits, after.present,
    after.polling.visit x others fun t here => ?_, after.connected.visit x others fun t here => ?_,
    after.unpolled.visit x others fun t here => ?_⟩
  · rintro more (none_ : d.left = [])
    exact more (by simp [none_])
  · cases x with
    | surr s => exact here.elim
    | sock c =>
      have young := Http.foreachCb_polling inv.sound (inv.waits c) here
      rw [inv.limits] at young
      simp only [Http.limits, Http.secToUsec, HttpRounds.round] at young ⊢
      omega
  · cases x with
    | surr s => exact here.elim
    | sock c =>
      have past : d.beganAt ≤ d.http.now := inv.inTime.past
      dsimp only at here
      rw [inv.limits] at here
      exact Http.foreachCb_connected inv.sound inv.present past here
  · cases x with
    | sock c => exact here.elim
    | surr s =>
      have young := @Http.foreachCb_unpolled env _ _ s t here
      rw [inv.limits] at young
      exact young

theorem inv_step {l : Label} (timeout : 0 ≤ env.timeout) (inv : Inv env w d)
    (stepped : step env w d l = some d') : Inv env w d' := by
  cases l with
  | http l =>
    obtain ⟨allowed, stepped⟩ := Option.ite_none_right_eq_some.mp stepped
    obtain ⟨http, done, rfl⟩ := Option.map_eq_some_iff.mp stepped
    by_cases tick : ∃ usec, l = .tick usec
    · obtain ⟨usec, rfl⟩ := tick
      exact inv.tick done allowed
    · exact inv.timeless timeout done fun usec same => tick ⟨usec, same⟩
  | periodicRun order =>
    obtain ⟨⟨ended, all⟩, ⟨⟩⟩ := Option.ite_none_right_eq_some.mp stepped
    exact inv.periodicRun ended all
  | visit x =>
    obtain ⟨⟨-, up⟩, ⟨⟩⟩ := Option.ite_none_right_eq_some.mp stepped
    exact inv.visit timeout up x

/-- Rounds that last a second at most. -/
def sampleRounds : Rounds where
  period := periodicIntervalUsec
  lasts := Http.secToUsec 1
  fits := by decide
  begins := by decide

/-- A poll waits while a round is on its way. -/
def waiting : List Label := [
  .http .opened, .http (.header 0 (Http.samplePost "0") true), .http (.body 0 [] []),
  .http (.tick 5000000), .periodicRun [.surr 0, .sock 0], .visit (.sock 0), .http (.tick 1000000)]

end HttpRounds

end QuickIO
