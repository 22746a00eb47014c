import QuickIO.Http

/-!
# Stable properties

What the few writes all functions are made of preserve, the functions preserve.
A property is shown stable once, against these writes, and holds after whatever
a body, a send, a heartbeat or a close leads to.
-/
namespace QuickIO

open Lib

/-- The edit is about neither the request of the socket nor its closing. -/
def Socket.Aside (k k' : Socket) : Prop :=
  k'.inRequest = k.inRequest ∧ k'.requests = k.requests ∧ k'.keepAlive = k.keepAlive ∧
    k'.bodyLen = k.bodyLen ∧ k'.closing = k.closing ∧ k'.upgraded = k.upgraded

namespace Http

/-- A session is found, created or refused. -/
theorem getSurrogate_cases (σ : Http) (url : Bytes) (room : Bool) :
    (σ.getSurrogate url room).1 = σ ∨ ∃ sid, (σ.getSurrogate url room).1 = σ.surrNew sid := by
  simp only [getSurrogate, surrFind]
  split
  next => exact Or.inl rfl
  next sid _ =>
    split
    next => exact Or.inl rfl
    next =>
      split
      next => exact Or.inr ⟨sid, rfl⟩
      next => exact Or.inl rfl

/-- A property that the writes preserve. Only responses in `R` are sent, and no
handler closes a socket outside `Shut`. -/
structure Stable (env : HttpEnv) (R : Response → Prop) (Shut : SockId → Prop) (I : Http → Prop) :
    Prop where
  respond : ∀ {σ} c resp, R resp → I σ → I (σ.sendResponse (some c) resp).1
  sock : ∀ {σ} c f, (∀ k : Socket, k.Aside (f k)) → I σ → I (σ.setSock c f)
  surr : ∀ {σ} s f, (∀ r : Surrogate, (f r).wbuff = r.wbuff ∧ (f r).given = r.given) → I σ →
    I (σ.setSurr s f)
  give : ∀ {σ} s m, I σ →
    I (σ.setSurr s fun r => { r with given := r.given ++ [(protocolHttpFrame m).raw] })
  keep : ∀ {σ} s m, I σ →
    I (σ.setSurr s fun r => { r with wbuff := r.wbuff ++ (protocolHttpFrame m).raw })
  flush : ∀ {σ} s, I σ → I (σ.setSurr s fun r => { r with wbuff := [] })
  created : ∀ {σ} sid, I σ → I (σ.surrNew sid)
  close : ∀ {σ} c reason, Shut c → I σ → I (σ.closeSock c reason)
  aborts : ∀ {σ} aborted, I σ → I { σ with aborted }
  clients : ∀ {σ} clients, I σ → I { σ with clients }
  held : ∀ {σ} s, I σ → R (buildResponse .status200 (σ.surrs s).wbuff)
  status : ∀ status, R (env.statusResponses status)
  iframe : R env.iframeSource
  frame : ∀ m, R (protocolHttpFrame m).defn

namespace Stable

variable {env : HttpEnv} {R : Response → Prop} {Shut : SockId → Prop} {I : Http → Prop}
  (stable : Stable env R Shut I) {σ : Http}

include stable

theorem sendResponse (client : Option SockId) (resp : Response) (allowed : R resp) (inv : I σ) :
    I (σ.sendResponse client resp).1 := by
  cases client with
  | none => exact inv
  | some c => exact stable.respond c resp allowed inv

theorem sendError (client : Option SockId) (status : HttpStatus) (inv : I σ) :
    I (σ.sendError env client status).1 :=
  stable.sendResponse client _ (stable.status status) inv

theorem refSock (c : SockId) (inv : I σ) : I (σ.refSock c) :=
  stable.sock c _ (fun _ => ⟨rfl, rfl, rfl, rfl, rfl, rfl⟩) inv

theorem unrefSock (c : SockId) (inv : I σ) : I (σ.unrefSock c) :=
  stable.sock c _ (fun _ => ⟨rfl, rfl, rfl, rfl, rfl, rfl⟩) inv

theorem setPoller (s : SurrId) (poller : Option SockId) (inv : I σ) :
    I (σ.setPoller s poller) := by
  have written := stable.surr s (fun r => { r with client := poller }) (fun _ => ⟨rfl, rfl⟩) inv
  cases poller with
  | none => exact written
  | some c => exact stable.refSock c written

theorem dismiss (poller : Option SockId) (status : HttpStatus) (inv : I σ) :
    I (σ.dismiss env poller status) := by
  cases poller with
  | none => exact inv
  | some c => exact stable.unrefSock c (stable.sendError (some c) status inv)

theorem surrReplace (s : SurrId) (c : SockId) (inv : I σ) : I (σ.surrReplace env s c) := by
  simp only [Http.surrReplace]
  split
  next =>
    -- the session or the socket is closing: both sockets are turned away
    have released := stable.setPoller s none inv
    exact stable.dismiss _ _ (stable.sendError (some c) .status403 released)
  next => exact stable.dismiss _ _ (stable.setPoller s (some c) inv)

theorem sendPoller (s : SurrId) (resp : Response) (allowed : R resp) (inv : I σ) :
    I (σ.sendPoller s resp).1 := by
  have released := stable.setPoller s none inv
  simp only [Http.sendPoller]
  split
  next => exact released
  next p _ => exact stable.unrefSock p (stable.respond p resp allowed released)

theorem surrSend (s : SurrId) (c : SockId) (msgs : Bytes)
    (allowed : R (buildResponse .status200 msgs)) (inv : I σ) : I (σ.surrSend env s c msgs) := by
  have polled := stable.sendPoller s _ allowed inv
  simp only [Http.surrSend]
  split
  next => exact stable.surrReplace s c polled
  next => exact stable.aborts _ (stable.respond c _ allowed polled)

theorem protocolHttpSend (s : SurrId) (m : Message) (inv : I σ) :
    I (σ.protocolHttpSend s (protocolHttpFrame m)) := by
  have given := stable.give s m inv
  simp only [Http.protocolHttpSend]
  generalize σ.setSurr s (fun r => { r with given := r.given ++ [(protocolHttpFrame m).raw] }) = τ
    at given ⊢
  have tried : I (if (τ.surrs s).incoming then (τ, false)
      else τ.sendPoller s (protocolHttpFrame m).defn).1 := by
    split
    next => exact given
    next => exact stable.sendPoller s _ (stable.frame m) given
  generalize (if (τ.surrs s).incoming then (τ, false)
    else τ.sendPoller s (protocolHttpFrame m).defn) = result at tried ⊢
  split
  next => exact tried
  next => exact stable.keep s m tried

theorem protocolsSend (s : SurrId) (m : Message) (inv : I σ) : I (σ.protocolsSend s m) :=
  stable.protocolHttpSend s m (stable.surr s _ (fun _ => ⟨rfl, rfl⟩) inv)

theorem closeSurr (s : SurrId) (reason : CloseReason) (inv : I σ) : I (σ.closeSurr s reason) :=
  stable.surr s _ (fun _ => ⟨rfl, rfl⟩) inv

theorem act (a : Act) (spares : ∀ c reason, a = .closeSock c reason → Shut c) (inv : I σ) :
    I (σ.act a) := by
  cases a with
  | send s m =>
    simp only [Http.act]
    split
    next => exact stable.protocolsSend s m inv
    next => exact inv
  | closeSurr s reason =>
    simp only [Http.act]
    split
    next => exact stable.closeSurr s reason inv
    next => exact inv
  | closeSock c reason =>
    simp only [Http.act]
    split
    next => exact stable.close c reason (spares c reason rfl) inv
    next => exact inv

theorem acts (as : List Act) (spares : ∀ c reason, .closeSock c reason ∈ as → Shut c)
    (inv : I σ) : I (σ.acts as) := by
  induction as generalizing σ with
  | nil => exact inv
  | cons a as ih =>
    have first := stable.act a
      (fun c reason same => spares c reason (same ▸ List.mem_cons_self)) inv
    exact ih (fun c reason member => spares c reason (List.mem_cons_of_mem a member)) first

theorem surrFlush (s : SurrId) (c : SockId) (inv : I σ) : I (σ.surrFlush env s c) := by
  have opened := stable.surr s (fun r => { r with incoming := false }) (fun _ => ⟨rfl, rfl⟩) inv
  have allowed := stable.held s opened
  have flushed := stable.flush s opened
  simp only [Http.surrFlush]
  split
  next => exact stable.surrReplace s c flushed
  next => exact stable.surrSend s c _ allowed flushed

theorem getSurrogate (url : Bytes) (room : Bool) (inv : I σ) :
    I (σ.getSurrogate url room).1 := by
  rcases getSurrogate_cases σ url room with same | ⟨sid, created⟩
  · rw [same]
    exact inv
  · rw [created]
    exact stable.created sid inv

theorem link (c : SockId) (surrogate : Option SurrId) (inv : I σ) :
    I (σ.link c surrogate) := by
  cases surrogate with
  | none => exact inv
  | some s =>
    have linked := stable.sock c (fun k => { k with client := some s })
      (fun _ => ⟨rfl, rfl, rfl, rfl, rfl, rfl⟩) inv
    simp only [Http.link]
    split
    next => exact inv
    next => exact stable.surr s _ (fun _ => ⟨rfl, rfl⟩) linked

theorem routeBegin (c : SockId) (inv : I σ) : I (σ.routeBegin c) :=
  stable.sock c _ (fun _ => ⟨rfl, rfl, rfl, rfl, rfl, rfl⟩) inv

theorem heartbeatSurr (s : SurrId) (inv : I σ) : I (σ.heartbeatSurr env s) := by
  simp only [Http.heartbeatSurr]
  split
  next => exact stable.closeSurr s .heartattack inv
  next => exact inv

theorem heartbeatSock (c : SockId) (shut : Shut c) (inv : I σ) : I (σ.heartbeatSock env c) := by
  simp only [Http.heartbeatSock]
  split
  next =>
    split
    next => exact stable.close c .heartattack shut inv
    next => exact inv
  next =>
    split
    next => exact stable.sendError (some c) .status200 inv
    next => exact inv

theorem onCloseSurr (s : SurrId) (inv : I σ) : I (σ.onCloseSurr env s) := by
  have removed := stable.clients (Function.update σ.clients (σ.surrs s).tbl
    (Function.update (σ.clients (σ.surrs s).tbl) (σ.surrs s).sid none)) inv
  have closed := stable.surr s (fun r => { r with closed := true }) (fun _ => ⟨rfl, rfl⟩) removed
  exact stable.dismiss _ _ (stable.setPoller s none closed)

section Lines

variable (logged : ∀ {σ} s line, I σ → I { σ with handled := σ.handled ++ [(s, line)] })

include logged

theorem surrLines (s : SurrId) (msgs : List Bytes) (turns : List Turn)
    (spares : ∀ turn ∈ turns, ∀ c reason, .closeSock c reason ∈ turn.acts → Shut c)
    (inv : I σ) : I (Http.surrLines s σ msgs turns).1 := by
  induction msgs generalizing σ turns with
  | nil => exact inv
  | cons msg msgs ih =>
    have taken := logged s msg inv
    simp only [Http.surrLines]
    split
    next => exact stable.closeSurr s .invalidEventFormat taken
    next =>
      have acted : I (Http.acts { σ with handled := σ.handled ++ [(s, msg)] }
          (turns.headD {}).acts) := by
        apply stable.acts _ _ taken
        cases turns with
        | nil => exact fun _ _ => by rintro ⟨⟩
        | cons turn turns => exact spares turn List.mem_cons_self
      exact ih turns.tail (fun turn member => spares turn (List.mem_of_mem_tail member)) acted

theorem surrRoute (s : SurrId) (c : SockId) (body : Bytes) (turns : List Turn)
    (spares : ∀ turn ∈ turns, ∀ c reason, .closeSock c reason ∈ turn.acts → Shut c)
    (inv : I σ) : I (σ.surrRoute env s c body turns) := by
  have entered := stable.surr s (fun r => { r with incoming := true }) (fun _ => ⟨rfl, rfl⟩) inv
  have taken := stable.surrLines logged s (bodyLines body) turns spares entered
  simp only [Http.surrRoute]
  split
  next refused =>
    rw [refused] at taken
    exact stable.sendError (some c) .status400 taken
  next all =>
    rw [all] at taken
    exact stable.surrFlush s c taken

theorem doBody (c : SockId) (body : Bytes) (turns : List Turn)
    (spares : ∀ turn ∈ turns, ∀ c reason, .closeSock c reason ∈ turn.acts → Shut c)
    (inv : I σ) : I (σ.doBody env c body turns) := by
  simp only [Http.doBody]
  split_ifs
  · exact stable.sendError (some c) .status501 inv
  · exact stable.respond c env.iframeSource stable.iframe inv
  · exact stable.sendError (some c) .status405 inv
  · split
    next => exact stable.sendError (some c) .status403 inv
    next s _ => exact stable.surrRoute logged s c body turns spares inv

end Lines

end Stable

/-- A property for which of a socket only the requests count, and neither the
times nor the log. -/
structure Loose (env : HttpEnv) (R : Response → Prop) (I : Http → Prop) : Prop extends
    Stable env R (fun _ => True) I where
  quiet : ∀ {σ} c f, (∀ k : Socket, (f k).inRequest = k.inRequest ∧ (f k).requests = k.requests) →
    I σ → I (σ.setSock c f)
  logged : ∀ {σ} s line, I σ → I { σ with handled := σ.handled ++ [(s, line)] }
  tick : ∀ {σ} now, I σ → I { σ with now }
  opened : ∀ {σ} nextSock, I σ → I { σ with nextSock }

namespace Loose

variable {env : HttpEnv} {R : Response → Prop} {I : Http → Prop} (loose : Loose env R I) {σ : Http}

include loose

theorem openRequest (c : SockId) (req : HttpRequest) (bodyLen : Nat) (room : Bool) (inv : I σ) :
    I (σ.openRequest c req bodyLen room) := by
  simp only [Http.openRequest]
  exact loose.quiet c _ (fun _ => ⟨rfl, rfl⟩)
    (loose.link c _ (loose.getSurrogate req.url room inv))

theorem doHeadersHttp (c : SockId) (req : HttpRequest) (room : Bool) (inv : I σ) :
    I (σ.doHeadersHttp env c req room).1 := by
  simp only [Http.doHeadersHttp]
  split
  next =>
    -- with a length
    split
    next => exact inv
    next n _ => exact loose.openRequest c req n room inv
  next =>
    split
    next => exact loose.close c .lengthRequired trivial inv
    next => exact loose.openRequest c req 0 room inv

theorem doHeadersWebsocket (c : SockId) (req : HttpRequest) (connection : Option Bytes)
    (inv : I σ) : I (σ.doHeadersWebsocket env c req connection).1 := by
  have upgraded : I (σ.upgrade c) := loose.quiet c _ (fun _ => ⟨rfl, rfl⟩) inv
  simp only [Http.doHeadersWebsocket]
  split_ifs
  · exact loose.sendError (some c) .status426 inv
  · exact loose.sendError (some c) .status400 inv
  · exact upgraded

/-- What follows once the header has been counted as a request. -/
theorem routeHeader (c : SockId) (req : HttpRequest) (room : Bool)
    (entered : I (σ.requestBegin env c req)) : I (σ.routeHeader env c req room) := by
  have block : I (σ.headerBlock env c req room).1 := by
    simp only [Http.headerBlock]
    split
    next =>
      split
      next => exact loose.doHeadersWebsocket c req _ entered
      next => exact loose.doHeadersHttp c req room entered
    next => exact entered
  rw [routeHeader_eq]
  split
  next => exact loose.quiet c _ (fun _ => ⟨rfl, rfl⟩) block
  next => exact block
  next => exact loose.close c .badRequest trivial block

theorem routeBody (c : SockId) (body : Bytes) (turns : List Turn) (inv : I σ) :
    I (σ.routeBody env c body turns) := by
  have begun := loose.quiet c (fun k => { k with inBody := false }) (fun _ => ⟨rfl, rfl⟩)
    (loose.routeBegin c inv)
  have done := loose.doBody loose.logged c body turns (fun _ _ _ _ _ => trivial) begun
  simp only [Http.routeBody]
  exact loose.quiet c _ (fun _ => ⟨rfl, rfl⟩) done

theorem onCloseSock (c : SockId) (reason : CloseReason) (inv : I σ) :
    I (σ.onCloseSock env c reason) := by
  have unlinked := loose.quiet c (fun k => { k with client := none, closed := true })
    (fun _ => ⟨rfl, rfl⟩) inv
  obtain ⟨υ, answer, closed⟩ := onCloseSock_cases env σ c reason
  have told : I υ := by
    obtain rfl | ⟨status, rfl⟩ := answer
    · exact unlinked
    · exact loose.sendError (some c) status unlinked
  obtain same | ⟨s, same⟩ := closed
  · rw [same]
    exact told
  · rw [same]
    exact loose.surr s _ (fun _ => ⟨rfl, rfl⟩) (loose.closeSurr s .httpDone told)

/-- Every step keeps the property, but perhaps the one that counts a request. -/
theorem step {τ : Http} {l : Label} (stepped : σ.step env l = some τ)
    (other : ∀ c req room, l ≠ .header c req room) (inv : I σ) : I τ := by
  cases step_cases stepped with
  | tick usec => exact loose.tick _ inv
  | opened => exact loose.opened _ inv
  | again c routes => exact loose.routeBegin c inv
  | header c req room routes ready done => exact absurd rfl (other c req room)
  | body c body turns routes waits whole => exact loose.routeBody c body turns inv
  | bodyOverflow c used routes waits beyond =>
    exact loose.close c .unknownError trivial (loose.routeBegin c inv)
  | act a => exact loose.act a (fun _ _ _ => trivial) inv
  | heartbeatSock c routes shook => exact loose.heartbeatSock c trivial inv
  | heartbeatSurr s there open_ => exact loose.heartbeatSurr s inv
  -- an upgraded socket only leaves
  | leave c upgraded => exact loose.quiet c _ (fun _ => ⟨rfl, rfl⟩) inv
  | onCloseSock c reason http closing => exact loose.onCloseSock c reason inv
  | onCloseSurr s open_ closing => exact loose.onCloseSurr s inv

end Loose

/-- A property that is not about the sockets, nor about the times and the log. -/
structure Free (env : HttpEnv) (R : Response → Prop) (I : Http → Prop) : Prop extends
    Stable env R (fun _ => True) I where
  any : ∀ {σ} c f, I σ → I (σ.setSock c f)
  logged : ∀ {σ} s line, I σ → I { σ with handled := σ.handled ++ [(s, line)] }
  tick : ∀ {σ} now, I σ → I { σ with now }
  opened : ∀ {σ} nextSock, I σ → I { σ with nextSock }

namespace Free

variable {env : HttpEnv} {R : Response → Prop} {I : Http → Prop} (free : Free env R I) {σ : Http}

include free

theorem loose : Loose env R I where
  toStable := free.toStable
  quiet c f _ := free.any c f
  logged := free.logged
  tick := free.tick
  opened := free.opened

theorem step {τ : Http} {l : Label} (stepped : σ.step env l = some τ) (inv : I σ) : I τ := by
  by_cases header : ∃ c req room, l = .header c req room
  · obtain ⟨c, req, room, rfl⟩ := header
    cases step_cases stepped
    have flushed := free.sendError (some c) .status200 (free.routeBegin c inv)
    exact free.loose.routeHeader c req room (free.any c _ flushed)
  · exact free.loose.step stepped (fun c req room same => header ⟨c, req, room, same⟩) inv

theorem run {τ : Http} {ls : List Label} (ran : (system env).run σ ls = some τ) (inv : I σ) :
    I τ :=
  (system env).run_invariant I (fun _ _ _ before stepped => free.step stepped before) σ τ ls inv
    ran

end Free

end Http

end QuickIO
