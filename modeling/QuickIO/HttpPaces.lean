import QuickIO.HttpPolls

/-!
# The pace of a socket

What anything does to `last_send` of a socket: it moves to the time of the step
only, and a socket that gets a link or shakes hands does so at the time of the
step. So a socket that waits for a response has been heard of, or been written
to, since it got its link.
-/
namespace QuickIO

open Lib

/-- The socket speaks HTTP, and nobody has closed it. -/
def Socket.Live (k : Socket) : Prop := k.upgraded = false ∧ k.closed = false ∧ k.closing = none

/-- An edit that neither links the socket nor is about its handshake. -/
def Socket.Paced (now : Int) (k k' : Socket) : Prop :=
  (k'.client = k.client ∨ k'.client = none) ∧ k'.handshaked = k.handshaked ∧
    (k'.lastSend = k.lastSend ∨ k'.lastSend = now) ∧ (k'.Live → k.Live)

theorem Socket.live_answered (k : Socket) (now : Int) (live : (k.answered now).Live) : k.Live := by
  obtain ⟨upgraded, closed, closing⟩ := live
  refine ⟨upgraded, closed, ?_⟩
  simp only [Socket.answered] at closing
  split at closing
  next => exact closing
  next => exact (Option.or_eq_none_iff.mp closing).1

namespace Http

/-- The socket has been heard of, or written to, just now. -/
def Timely (c : SockId) (σ : Http) : Prop := (σ.socks c).lastSend = σ.now

/-- A socket that waits for a response has shaken hands. -/
def Waits (c : SockId) (σ : Http) : Prop :=
  (σ.socks c).client ≠ none → (σ.socks c).handshaked = true

/-- What is done at one time, as far as a socket is concerned. It only shakes hands
where `P` holds. -/
structure Paces (P : Prop) (c : SockId) (σ τ : Http) : Prop where
  now : τ.now = σ.now
  send : (τ.socks c).lastSend = (σ.socks c).lastSend ∨ Timely c τ
  linked : (τ.socks c).client ≠ none → (σ.socks c).client ≠ none ∨ Timely c τ
  shook : (τ.socks c).handshaked = true → (σ.socks c).handshaked = true ∨ P ∧ Timely c τ
  waits : Waits c σ → Waits c τ
  live : (τ.socks c).Live → (σ.socks c).Live
  more : σ.nextSock ≤ τ.nextSock

namespace Paces

variable {P : Prop} {c : SockId} {σ τ υ : Http}

theorem timely (paces : Paces P c σ τ) (before : Timely c σ) : Timely c τ := by
  rcases paces.send with same | timely
  · exact same.trans (before.trans paces.now.symm)
  · exact timely

theorem refl (c : SockId) (σ : Http) : Paces P c σ σ :=
  ⟨rfl, Or.inl rfl, Or.inl, Or.inl, id, id, Nat.le_refl _⟩

theorem trans (first : Paces P c σ τ) (second : Paces P c τ υ) : Paces P c σ υ := by
  refine ⟨second.now.trans first.now, ?_, fun link => ?_, fun shook => ?_,
    fun waits => second.waits (first.waits waits), fun live => first.live (second.live live),
    Nat.le_trans first.more second.more⟩
  · rcases second.send with same | timely
    · rcases first.send with earlier | before
      · exact Or.inl (same.trans earlier)
      · exact Or.inr (second.timely before)
    · exact Or.inr timely
  · rcases second.linked link with before | timely
    · exact (first.linked before).imp_right second.timely
    · exact Or.inr timely
  · rcases second.shook shook with before | timely
    · exact (first.shook before).imp_right (And.imp_right second.timely)
    · exact Or.inr timely

/-- Nothing about the sockets. -/
theorem same (socks : τ.socks = σ.socks) (now : τ.now = σ.now) (more : σ.nextSock ≤ τ.nextSock) :
    Paces P c σ τ := by
  refine ⟨now, Or.inl (by rw [socks]), ?_, ?_, ?_, ?_, more⟩
  · rw [socks]
    exact Or.inl
  · rw [socks]
    exact Or.inl
  · rw [Waits, Waits, socks]
    exact id
  · rw [socks]
    exact id

theorem setSurr (s : SurrId) (f : Surrogate → Surrogate) : Paces P c σ (σ.setSurr s f) :=
  same rfl rfl (Nat.le_refl _)

theorem others (d : SockId) (f : Socket → Socket) (other : c ≠ d) : Paces P c σ (σ.setSock d f) := by
  have at_ : (σ.setSock d f).socks c = σ.socks c := by rw [socks_setSock, if_neg other]
  refine ⟨rfl, Or.inl (by rw [at_]), ?_, ?_, ?_, ?_, Nat.le_refl _⟩
  · rw [at_]
    exact Or.inl
  · rw [at_]
    exact Or.inl
  · rw [Waits, Waits, at_]
    exact id
  · rw [at_]
    exact id

/-- Whatever is done to a socket that is timely afterwards. -/
theorem own (f : Socket → Socket) (timely : (f (σ.socks c)).lastSend = σ.now)
    (waits : (f (σ.socks c)).client ≠ none → (f (σ.socks c)).handshaked = true)
    (shook : (f (σ.socks c)).handshaked = true → (σ.socks c).handshaked = true ∨ P)
    (live : (f (σ.socks c)).Live → (σ.socks c).Live) : Paces P c σ (σ.setSock c f) := by
  have at_ : (σ.setSock c f).socks c = f (σ.socks c) := by rw [socks_setSock, if_pos rfl]
  have now : Timely c (σ.setSock c f) := by
    rw [Timely, at_]
    exact timely
  refine ⟨rfl, Or.inr now, fun _ => Or.inr now, ?_, fun _ => ?_, ?_, Nat.le_refl _⟩
  · rw [at_]
    exact fun here => (shook here).imp_right fun holds => ⟨holds, now⟩
  · rw [Waits, at_]
    exact waits
  · rw [at_]
    exact live

theorem setSock (d : SockId) (f : Socket → Socket)
    (paced : Socket.Paced σ.now (σ.socks d) (f (σ.socks d))) : Paces P c σ (σ.setSock d f) := by
  by_cases here : c = d
  · subst here
    obtain ⟨client, handshaked, lastSend, live⟩ := paced
    have at_ : (σ.setSock c f).socks c = f (σ.socks c) := by rw [socks_setSock, if_pos rfl]
    have still : (f (σ.socks c)).client ≠ none → (σ.socks c).client ≠ none := by
      intro link
      exact client.elim (fun same => same ▸ link) fun gone => absurd gone link
    refine ⟨rfl, ?_, fun link => Or.inl ?_, fun shook => Or.inl ?_, fun waits link => ?_, ?_,
      Nat.le_refl _⟩
    · rw [Timely, at_]
      exact lastSend
    · rw [at_] at link
      exact still link
    · rw [at_, handshaked] at shook
      exact shook
    · rw [at_] at link ⊢
      rw [handshaked]
      exact waits (still link)
    · rw [at_]
      exact live
  · exact others d f here

/-- An edit that is about neither. -/
theorem keepSock (d : SockId) (f : Socket → Socket)
    (keeps : ∀ k : Socket, (f k).client = k.client ∧ (f k).handshaked = k.handshaked ∧
      (f k).lastSend = k.lastSend ∧ ((f k).Live → k.Live)) : Paces P c σ (σ.setSock d f) := by
  obtain ⟨client, handshaked, lastSend, live⟩ := keeps (σ.socks d)
  exact setSock d f ⟨Or.inl client, handshaked, Or.inl lastSend, live⟩

theorem refSock (d : SockId) : Paces P c σ (σ.refSock d) :=
  keepSock d _ fun _ => ⟨rfl, rfl, rfl, id⟩

theorem unrefSock (d : SockId) : Paces P c σ (σ.unrefSock d) :=
  keepSock d _ fun _ => ⟨rfl, rfl, rfl, id⟩

theorem closeSock (d : SockId) (reason : CloseReason) : Paces P c σ (σ.closeSock d reason) :=
  keepSock d _ fun _ => ⟨rfl, rfl, rfl, fun live =>
    ⟨live.1, live.2.1, (Option.or_eq_none_iff.mp live.2.2).1⟩⟩

theorem closeSurr (s : SurrId) (reason : CloseReason) : Paces P c σ (σ.closeSurr s reason) :=
  setSurr s _

theorem surrReleaseClient (surrogate : Option SurrId) (d : SockId) :
    Paces P c σ (σ.surrReleaseClient surrogate d) := by
  cases surrogate with
  | none => exact refl c σ
  | some s =>
    simp only [Http.surrReleaseClient]
    split
    next => exact (setSurr s _).trans (unrefSock d)
    next => exact refl c σ

theorem answer (d : SockId) (surrogate : Option SurrId) (resp : Response) :
    Paces P c σ (σ.answer d surrogate resp) := by
  have logged : Paces P c σ { σ with
      sent := σ.sent ++ [Sent.mk d resp surrogate (σ.socks d).requests] } := same rfl rfl (Nat.le_refl _)
  have answered := logged.trans (setSock (c := c) d (fun k => k.answered σ.now)
    ⟨Or.inl rfl, rfl, Or.inr rfl, Socket.live_answered _ _⟩)
  cases surrogate with
  | none => exact answered
  | some s => exact answered.trans (setSurr s fun r => { r with lastSend := σ.now })

theorem sendResponse (client : Option SockId) (resp : Response) :
    Paces P c σ (σ.sendResponse client resp).1 := by
  cases client with
  | none => exact refl c σ
  | some d =>
    have stolen : Paces P c σ (σ.setSock d fun k => { k with client := none }) :=
      setSock d _ ⟨Or.inr rfl, rfl, Or.inl rfl, id⟩
    simp only [Http.sendResponse]
    generalize (σ.setSock d fun k => { k with client := none }) = τ at stolen ⊢
    have told : Paces P c σ (if (τ.socks d).inRequest then τ.answer d (σ.socks d).client resp
        else τ) := by
      split
      next => exact stolen.trans (answer d _ resp)
      next => exact stolen
    have released := told.trans (surrReleaseClient (σ.socks d).client d)
    cases link : (σ.socks d).client with
    | none =>
      rw [link] at released
      exact released
    | some s =>
      rw [link] at released
      exact released.trans (setSurr s fun r => { r with refs := r.refs - 1 })

theorem sendResponse_handshaked (client : Option SockId) (resp : Response) :
    ((σ.sendResponse client resp).1.socks c).handshaked = (σ.socks c).handshaked := by
  cases client with
  | none => rfl
  | some d =>
    by_cases here : c = d
    · subst here
      cases link : (σ.socks c).client with
      | none =>
        simp only [Http.sendResponse, link, Http.surrReleaseClient]
        split
        next => simp [answer_socks, Socket.answered]
        next => simp
      | some s =>
        simp only [Http.sendResponse, link, Http.surrReleaseClient]
        split_ifs
        all_goals simp [answer_socks, Socket.answered, Http.unrefSock, Http.unrefSurr]
    · rw [(sendResponse_responded σ d resp).others c here]

variable (env : HttpEnv)

theorem sendError (client : Option SockId) (status : HttpStatus) :
    Paces P c σ (σ.sendError env client status).1 :=
  sendResponse client _

theorem setPoller (s : SurrId) (poller : Option SockId) : Paces P c σ (σ.setPoller s poller) := by
  have written : Paces P c σ (σ.setSurr s fun r => { r with client := poller }) := setSurr s _
  cases poller with
  | none => exact written
  | some d => exact written.trans (refSock d)

theorem dismiss (poller : Option SockId) (status : HttpStatus) :
    Paces P c σ (σ.dismiss env poller status) := by
  cases poller with
  | none => exact refl c σ
  | some d => exact (sendError env (some d) status).trans (unrefSock d)

theorem surrReplace (s : SurrId) (d : SockId) : Paces P c σ (σ.surrReplace env s d) := by
  simp only [Http.surrReplace]
  split
  next =>
    exact ((setPoller s none).trans (sendError env (some d) .status403)).trans (dismiss env _ _)
  next => exact (setPoller s (some d)).trans (dismiss env _ _)

theorem sendPoller (s : SurrId) (resp : Response) : Paces P c σ (σ.sendPoller s resp).1 := by
  have taken : Paces P c σ (σ.setPoller s none) := setPoller s none
  simp only [Http.sendPoller]
  split
  next => exact taken
  next p _ => exact (taken.trans (sendResponse (some p) resp)).trans (unrefSock p)

theorem surrSend (s : SurrId) (d : SockId) (msgs : Bytes) :
    Paces P c σ (σ.surrSend env s d msgs) := by
  have polled : Paces P c σ (σ.sendPoller s (buildResponse .status200 msgs)).1 := sendPoller s _
  simp only [Http.surrSend]
  split
  next => exact polled.trans (surrReplace env s d)
  next =>
    have told := polled.trans (sendResponse (some d) (buildResponse .status200 msgs))
    exact told.trans (same rfl rfl (Nat.le_refl _))

/-! ### Sends and bodies -/

theorem protocolsSend (s : SurrId) (m : Message) : Paces P c σ (σ.protocolsSend s m) := by
  have given : Paces P c σ ((σ.setSurr s fun r => { r with lastSend := σ.now }).setSurr s
      fun r => { r with given := r.given ++ [(protocolHttpFrame m).raw] }) :=
    (setSurr s _).trans (setSurr s _)
  simp only [Http.protocolsSend, Http.protocolHttpSend]
  generalize ((σ.setSurr s fun r => { r with lastSend := σ.now }).setSurr s
      fun r => { r with given := r.given ++ [(protocolHttpFrame m).raw] }) = τ at given ⊢
  have tried : Paces P c σ (if (τ.surrs s).incoming then (τ, false)
      else τ.sendPoller s (protocolHttpFrame m).defn).1 := by
    split
    next => exact given
    next => exact given.trans (sendPoller s _)
  generalize (if (τ.surrs s).incoming then (τ, false)
    else τ.sendPoller s (protocolHttpFrame m).defn) = result at tried ⊢
  split
  next => exact tried
  next => exact tried.trans (setSurr s _)

theorem act (a : Act) : Paces P c σ (σ.act a) := by
  cases a with
  | send s m =>
    simp only [Http.act]
    split
    next => exact protocolsSend s m
    next => exact refl c σ
  | closeSurr s reason =>
    simp only [Http.act]
    split
    next => exact closeSurr s reason
    next => exact refl c σ
  | closeSock d reason =>
    simp only [Http.act]
    split
    next => exact closeSock d reason
    next => exact refl c σ

theorem acts (as : List Act) : Paces P c σ (σ.acts as) := by
  induction as generalizing σ with
  | nil => exact refl c σ
  | cons a as ih => exact (act a).trans ih

theorem surrLines (s : SurrId) (msgs : List Bytes) (turns : List Turn) :
    Paces P c σ (Http.surrLines s σ msgs turns).1 := by
  induction msgs generalizing σ turns with
  | nil => exact refl c σ
  | cons msg msgs ih =>
    have taken : Paces P c σ { σ with handled := σ.handled ++ [(s, msg)] } := same rfl rfl (Nat.le_refl _)
    simp only [Http.surrLines]
    split
    next => exact taken.trans (closeSurr s .invalidEventFormat)
    next => exact (taken.trans (acts _)).trans (ih turns.tail)

theorem surrFlush (s : SurrId) (d : SockId) : Paces P c σ (σ.surrFlush env s d) := by
  have flushed : Paces P c σ ((σ.setSurr s fun r => { r with incoming := false }).setSurr s
      fun r => { r with wbuff := [] }) := (setSurr s _).trans (setSurr s _)
  simp only [Http.surrFlush]
  split
  next => exact flushed.trans (surrReplace env s d)
  next => exact flushed.trans (surrSend env s d _)

theorem surrRoute (s : SurrId) (d : SockId) (body : Bytes) (turns : List Turn) :
    Paces P c σ (σ.surrRoute env s d body turns) := by
  have entered : Paces P c σ (σ.setSurr s fun r => { r with incoming := true }) := setSurr s _
  have taken := entered.trans (surrLines s (bodyLines body) turns)
  simp only [Http.surrRoute]
  split
  next refused =>
    rw [refused] at taken
    exact taken.trans (sendError env (some d) .status400)
  next all =>
    rw [all] at taken
    exact taken.trans (surrFlush env s d)

theorem doBody (d : SockId) (body : Bytes) (turns : List Turn) :
    Paces P c σ (σ.doBody env d body turns) := by
  simp only [Http.doBody]
  split_ifs
  · exact sendError env (some d) .status501
  · exact sendResponse (some d) env.iframeSource
  · exact sendError env (some d) .status405
  · split
    next => exact sendError env (some d) .status403
    next s _ => exact surrRoute env s d body turns

/-! ### Requests -/

/-- The first call of the route function shakes hands, at its own time. -/
theorem routeBegin (d : SockId) (mine : c = d → P) : Paces P c σ (σ.routeBegin d) := by
  by_cases here : c = d
  · subst here
    exact own _ rfl (fun _ => rfl) (fun _ => Or.inr (mine rfl)) id
  · exact others d _ here

theorem routeBegin_timely (σ : Http) (d : SockId) :
    Timely d (σ.routeBegin d) ∧ ((σ.routeBegin d).socks d).handshaked = true := by
  have at_ : (σ.routeBegin d).socks d =
      { σ.socks d with handshaked := true, lastSend := σ.now } := by
    simp [Http.routeBegin]
  rw [Timely, at_]
  exact ⟨rfl, rfl⟩

theorem routeBody (d : SockId) (body : Bytes) (turns : List Turn) (mine : c = d → P) :
    Paces P c σ (σ.routeBody env d body turns) := by
  have begun : Paces P c σ ((σ.routeBegin d).setSock d fun k => { k with inBody := false }) :=
    (routeBegin d mine).trans (keepSock d _ fun _ => ⟨rfl, rfl, rfl, id⟩)
  simp only [Http.routeBody]
  exact (begun.trans (doBody env d body turns)).trans (keepSock d _ fun _ => ⟨rfl, rfl, rfl, id⟩)

theorem getSurrogate (url : Bytes) (room : Bool) : Paces P c σ (σ.getSurrogate url room).1 := by
  rcases getSurrogate_cases σ url room with found | ⟨sid, created⟩
  · rw [found]
    exact refl c σ
  · rw [created]
    exact same rfl rfl (Nat.le_refl _)

/-- The link is made while the header is routed. -/
theorem link (d : SockId) (surrogate : Option SurrId) (timely : Timely d σ)
    (shook : (σ.socks d).handshaked = true) : Paces P c σ (σ.link d surrogate) := by
  cases surrogate with
  | none => exact refl c σ
  | some s =>
    simp only [Http.link]
    split
    next => exact refl c σ
    next =>
      refine Paces.trans ?_ (setSurr s fun r => { r with refs := r.refs + 1 })
      by_cases here : c = d
      · subst here
        exact own _ timely (fun _ => shook) (fun _ => Or.inl shook) id
      · exact others d _ here

theorem openRequest (d : SockId) (req : HttpRequest) (bodyLen : Nat) (room : Bool)
    (timely : Timely d σ) (shook : (σ.socks d).handshaked = true) :
    Paces P c σ (σ.openRequest d req bodyLen room) := by
  have socks : (σ.getSurrogate req.url room).1.socks = σ.socks := by
    rcases getSurrogate_cases σ req.url room with found | ⟨sid, created⟩
    · rw [found]
    · rw [created]
      rfl
  have found : Paces P c σ (σ.getSurrogate req.url room).1 := getSurrogate req.url room
  have mine : Paces False d σ (σ.getSurrogate req.url room).1 := getSurrogate req.url room
  have linked := found.trans (link d (σ.getSurrogate req.url room).2 (mine.timely timely)
    (by rw [socks]; exact shook))
  simp only [Http.openRequest]
  exact linked.trans (keepSock d _ fun _ => ⟨rfl, rfl, rfl, id⟩)

theorem doHeadersHttp (d : SockId) (req : HttpRequest) (room : Bool) (timely : Timely d σ)
    (shook : (σ.socks d).handshaked = true) : Paces P c σ (σ.doHeadersHttp env d req room).1 := by
  simp only [Http.doHeadersHttp]
  split
  next =>
    split
    next => exact refl c σ
    next n _ => exact openRequest d req n room timely shook
  next =>
    split
    next => exact closeSock d .lengthRequired
    next => exact openRequest d req 0 room timely shook

/-- The protocol is switched on a socket without a link. -/
theorem doHeadersWebsocket (d : SockId) (req : HttpRequest) (connection : Option Bytes)
    (idle : (σ.socks d).client = none) (timely : Timely d σ) :
    Paces P c σ (σ.doHeadersWebsocket env d req connection).1 := by
  simp only [Http.doHeadersWebsocket]
  split_ifs
  · exact sendError env (some d) .status426
  · exact sendError env (some d) .status400
  · show Paces P c σ (σ.upgrade d)
    by_cases here : c = d
    · subst here
      exact own (fun k => { k with upgraded := true, handshaked := false }) timely
        (fun link => absurd idle link) (fun shook => by cases shook) fun live => by cases live.1
    · exact others d (fun k => { k with upgraded := true, handshaked := false }) here

theorem routeHeader (d : SockId) (req : HttpRequest) (room : Bool) (mine : c = d → P) :
    Paces P c σ (σ.routeHeader env d req room) := by
  have begins := routeBegin_timely σ d
  have after : ∀ e, Paces P e (σ.routeBegin d) (σ.requestBegin env d req) := by
    intro e
    exact Paces.trans (sendError env (some d) .status200) (keepSock d _ fun _ => ⟨rfl, rfl, rfl, id⟩)
  have begun : Paces P c σ (σ.requestBegin env d req) := (routeBegin d mine).trans (after c)
  -- The socket of the request is timely, and has lost the link of the request before.
  have timely : Timely d (σ.requestBegin env d req) := (after d).timely begins.1
  have idle : ((σ.requestBegin env d req).socks d).client = none := by
    rw [requestBegin, socks_setSock, if_pos rfl]
    exact (sendResponse_responded (σ.routeBegin d) d (env.statusResponses .status200)).answered.1
  have shook : ((σ.requestBegin env d req).socks d).handshaked = true := by
    rw [requestBegin, socks_setSock, if_pos rfl]
    exact (sendResponse_handshaked (some d) (env.statusResponses .status200)).trans begins.2
  have block : Paces P c σ (σ.headerBlock env d req room).1 := by
    rcases headerBlock_cases env σ d req room with websocket | http | broken
    · rw [websocket]
      exact begun.trans (doHeadersWebsocket env d req _ idle timely)
    · rw [http]
      exact begun.trans (doHeadersHttp env d req room timely shook)
    · rw [broken]
      exact begun
  rw [routeHeader_eq]
  split
  next => exact block.trans (keepSock d _ fun _ => ⟨rfl, rfl, rfl, id⟩)
  next => exact block
  next => exact block.trans (closeSock d .badRequest)

/-! ### Heartbeats and closes -/

theorem heartbeatSock (d : SockId) : Paces P c σ (σ.heartbeatSock env d) := by
  simp only [Http.heartbeatSock]
  split
  next =>
    split
    next => exact closeSock d .heartattack
    next => exact refl c σ
  next =>
    split
    next => exact sendError env (some d) .status200
    next => exact refl c σ

theorem heartbeatSurr (s : SurrId) : Paces P c σ (σ.heartbeatSurr env s) := by
  simp only [Http.heartbeatSurr]
  split
  next => exact closeSurr s .heartattack
  next => exact refl c σ

theorem onCloseSurr (s : SurrId) : Paces P c σ (σ.onCloseSurr env s) := by
  have removed : Paces P c σ ({ σ with
      clients := Function.update σ.clients (σ.surrs s).tbl
        (Function.update (σ.clients (σ.surrs s).tbl) (σ.surrs s).sid none) }) := same rfl rfl (Nat.le_refl _)
  have closed := removed.trans (setSurr s fun r => { r with closed := true })
  exact (closed.trans (setPoller s none)).trans (dismiss env (σ.surrs s).client .status403)

theorem onCloseSock (d : SockId) (reason : CloseReason) :
    Paces P c σ (σ.onCloseSock env d reason) := by
  have left : Paces P c σ (σ.setSock d fun k => { k with client := none, closed := true }) :=
    setSock d _ ⟨Or.inr rfl, rfl, Or.inl rfl, fun live => by cases live.2.1⟩
  obtain ⟨υ, answer, closed⟩ := onCloseSock_cases env σ d reason
  have told : Paces P c σ υ := by
    obtain rfl | ⟨status, rfl⟩ := answer
    · exact left
    · exact left.trans (sendError env (some d) status)
  obtain done | ⟨s, done⟩ := closed
  · rw [done]
    exact told
  · rw [done]
    exact (told.trans (closeSurr s .httpDone)).trans (setSurr s fun r => { r with refs := r.refs - 1 })

/-- Every step that takes no time: a socket that shakes hands exists. -/
theorem step {l : Label} (stepped : σ.step env l = some τ) (timeless : ∀ usec, l ≠ .tick usec) :
    Paces (c < σ.nextSock) c σ τ := by
  cases step_cases stepped with
  | tick usec => exact absurd rfl (timeless usec)
  | opened => exact same rfl rfl (Nat.le_succ _)
  | again d routes => exact routeBegin d fun here => here ▸ routes.1
  | header d req room routes ready done =>
    exact routeHeader env d req room fun here => here ▸ routes.1
  | body d body turns routes waits whole =>
    exact routeBody env d body turns fun here => here ▸ routes.1
  | bodyOverflow d used routes waits beyond =>
    have begun : Paces (c < σ.nextSock) c σ (σ.routeBegin d) :=
      routeBegin d fun here => here ▸ routes.1
    exact begun.trans (closeSock d .unknownError)
  | act a => exact act a
  | heartbeatSock d routes shook => exact heartbeatSock env d
  | heartbeatSurr s there open_ => exact heartbeatSurr env s
  | leave d upgraded => exact keepSock d _ fun _ => ⟨rfl, rfl, rfl, fun live => by cases live.2.1⟩
  | onCloseSock d reason http closing => exact onCloseSock env d reason
  | onCloseSurr s open_ closing => exact onCloseSurr env s

end Paces

end Http

end QuickIO
