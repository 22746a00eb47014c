import QuickIO.HttpResponses

/-!
# Times do not matter to a request

Only heartbeats read the time. Whatever a request leads to is the same at any
time, so that the functions that route it commute with forgetting the times.
-/
namespace QuickIO

open Lib

def Socket.still (k : Socket) : Socket := { k with lastSend := 0 }

def Surrogate.still (r : Surrogate) : Surrogate := { r with lastSend := 0 }

namespace Http

/-- The state without its times. -/
def still (σ : Http) : Http :=
  { σ with
    now := 0
    socks := fun c => (σ.socks c).still
    surrs := fun s => (σ.surrs s).still }

variable (env : HttpEnv) (σ : Http)

@[simp] theorem still_socks (c : SockId) : σ.still.socks c = (σ.socks c).still := rfl

@[simp] theorem still_surrs (s : SurrId) : σ.still.surrs s = (σ.surrs s).still := rfl

@[simp] theorem still_nextSurr : σ.still.nextSurr = σ.nextSurr := rfl

@[simp] theorem still_nextSock : σ.still.nextSock = σ.nextSock := rfl

@[simp] theorem still_sent : σ.still.sent = σ.sent := rfl

@[simp] theorem still_clients : σ.still.clients = σ.clients := rfl

theorem still_setSock (c : SockId) (f g : Socket → Socket)
    (same : (f (σ.socks c)).still = g (σ.socks c).still) :
    (σ.setSock c f).still = σ.still.setSock c g := by
  have socks : (fun d => ((σ.setSock c f).socks d).still) = (σ.still.setSock c g).socks := by
    funext d
    rw [socks_setSock, socks_setSock]
    split
    next => exact same
    next => rfl
  exact congrArg (fun socks => { σ.still with socks }) socks

theorem still_setSurr (s : SurrId) (f g : Surrogate → Surrogate)
    (same : (f (σ.surrs s)).still = g (σ.surrs s).still) :
    (σ.setSurr s f).still = σ.still.setSurr s g := by
  have surrs : (fun r => ((σ.setSurr s f).surrs r).still) = (σ.still.setSurr s g).surrs := by
    funext r
    rw [surrs_setSurr, surrs_setSurr]
    split
    next => exact same
    next => rfl
  exact congrArg (fun surrs => { σ.still with surrs }) surrs

theorem still_closeSock (c : SockId) (reason : CloseReason) :
    (σ.closeSock c reason).still = σ.still.closeSock c reason :=
  still_setSock σ c _ _ rfl

theorem still_closeSurr (s : SurrId) (reason : CloseReason) :
    (σ.closeSurr s reason).still = σ.still.closeSurr s reason :=
  still_setSurr σ s _ _ rfl

theorem still_refSock (c : SockId) : (σ.refSock c).still = σ.still.refSock c :=
  still_setSock σ c _ _ rfl

theorem still_unrefSock (c : SockId) : (σ.unrefSock c).still = σ.still.unrefSock c :=
  still_setSock σ c _ _ rfl

theorem still_unrefSurr (s : SurrId) : (σ.unrefSurr s).still = σ.still.unrefSurr s :=
  still_setSurr σ s _ _ rfl

theorem still_surrReleaseClient (surrogate : Option SurrId) (c : SockId) :
    (σ.surrReleaseClient surrogate c).still = σ.still.surrReleaseClient surrogate c := by
  cases surrogate with
  | none => rfl
  | some s =>
    have same : (σ.still.surrs s).client = (σ.surrs s).client := rfl
    simp only [surrReleaseClient, same]
    split
    next =>
      rw [still_unrefSock]
      exact congrArg (fun τ => unrefSock τ c) (still_setSurr σ s _ _ rfl)
    next => rfl

theorem still_answer (c : SockId) (surrogate : Option SurrId) (resp : Response) :
    (σ.answer c surrogate resp).still = σ.still.answer c surrogate resp := by
  have written : ∀ τ : Http, (τ.setSock c fun k => k.answered τ.now).still =
      τ.still.setSock c fun k => k.answered 0 :=
    fun τ => still_setSock τ c _ _ rfl
  cases surrogate with
  | none => exact written { σ with sent := σ.sent ++ [⟨c, resp, none, (σ.socks c).requests⟩] }
  | some s =>
    have linked := still_setSurr
      (({ σ with sent := σ.sent ++ [⟨c, resp, some s, (σ.socks c).requests⟩] } : Http).setSock c
        fun k => k.answered σ.now) s (fun r => { r with lastSend := σ.now })
      (fun r => { r with lastSend := 0 }) rfl
    exact linked.trans (congrArg (fun τ => setSurr τ s _)
      (written { σ with sent := σ.sent ++ [⟨c, resp, some s, (σ.socks c).requests⟩] }))

theorem still_sendResponse (client : Option SockId) (resp : Response) :
    (σ.sendResponse client resp).1.still = (σ.still.sendResponse client resp).1 ∧
      (σ.sendResponse client resp).2 = (σ.still.sendResponse client resp).2 := by
  cases client with
  | none => exact ⟨rfl, rfl⟩
  | some c =>
    -- The reply reads the link and `in_request` of the socket, which the times do not touch.
    have stolen : (σ.setSock c fun k => { k with client := none }).still =
        σ.still.setSock c fun k => { k with client := none } := still_setSock σ c _ _ rfl
    have linked : (σ.still.socks c).client = (σ.socks c).client := rfl
    have owes : ((σ.still.setSock c fun k => { k with client := none }).socks c).inRequest =
        ((σ.setSock c fun k => { k with client := none }).socks c).inRequest := by
      simp [Socket.still]
    simp only [sendResponse, linked, owes]
    rw [← stolen]
    generalize (σ.setSock c fun k => { k with client := none }) = τ
    have replied : (if (τ.socks c).inRequest then τ.answer c (σ.socks c).client resp else τ).still =
        if (τ.socks c).inRequest then τ.still.answer c (σ.socks c).client resp else τ.still := by
      split
      next => exact τ.still_answer c _ resp
      next => rfl
    rw [← replied, ← still_surrReleaseClient]
    cases (σ.socks c).client with
    | none => exact ⟨rfl, rfl⟩
    | some s => exact ⟨still_unrefSurr _ s, rfl⟩

theorem still_sendError (client : Option SockId) (status : HttpStatus) :
    (σ.sendError env client status).1.still = (σ.still.sendError env client status).1 :=
  (still_sendResponse σ client _).1

theorem still_setPoller (s : SurrId) (poller : Option SockId) :
    (σ.setPoller s poller).still = σ.still.setPoller s poller := by
  have written : (σ.setSurr s fun r => { r with client := poller }).still =
      σ.still.setSurr s fun r => { r with client := poller } := still_setSurr σ s _ _ rfl
  simp only [setPoller]
  rw [← written]
  cases poller with
  | none => rfl
  | some c => exact still_refSock _ c

theorem still_dismiss (poller : Option SockId) (status : HttpStatus) :
    (σ.dismiss env poller status).still = σ.still.dismiss env poller status := by
  cases poller with
  | none => rfl
  | some c => exact (still_unrefSock _ c).trans (congrArg (fun τ => unrefSock τ c)
      (still_sendError env σ (some c) status))

theorem still_surrReplace (s : SurrId) (c : SockId) :
    (σ.surrReplace env s c).still = σ.still.surrReplace env s c := by
  have polls : (σ.still.surrs s).client = (σ.surrs s).client := rfl
  have surr : (σ.still.surrs s).closing = (σ.surrs s).closing := rfl
  have sock : (σ.still.socks c).closing = (σ.socks c).closing := rfl
  simp only [surrReplace, polls, surr, sock]
  split
  next => rw [still_dismiss, still_sendError, still_setPoller]
  next => rw [still_dismiss, still_setPoller]

theorem still_sendPoller (s : SurrId) (resp : Response) :
    (σ.sendPoller s resp).1.still = (σ.still.sendPoller s resp).1 ∧
      (σ.sendPoller s resp).2 = (σ.still.sendPoller s resp).2 := by
  have polls : (σ.still.surrs s).client = (σ.surrs s).client := rfl
  have taken := still_setPoller σ s none
  simp only [sendPoller, polls]
  rw [← taken]
  cases (σ.surrs s).client with
  | none => exact ⟨rfl, rfl⟩
  | some p =>
    obtain ⟨state, sent⟩ := still_sendResponse (σ.setPoller s none) (some p) resp
    exact ⟨(still_unrefSock _ p).trans (congrArg (fun τ => unrefSock τ p) state), sent⟩

theorem still_surrSend (s : SurrId) (c : SockId) (msgs : Bytes) :
    (σ.surrSend env s c msgs).still = σ.still.surrSend env s c msgs := by
  obtain ⟨state, sent⟩ := still_sendPoller σ s (buildResponse .status200 msgs)
  simp only [surrSend, ← sent, ← state]
  split
  next => exact still_surrReplace env _ s c
  next =>
    obtain ⟨answered, owed⟩ := still_sendResponse
      (σ.sendPoller s (buildResponse .status200 msgs)).1 (some c) (buildResponse .status200 msgs)
    simp only [← answered, ← owed]
    rfl

theorem still_protocolHttpSend (s : SurrId) (pframes : HttpFrames) :
    (σ.protocolHttpSend s pframes).still = σ.still.protocolHttpSend s pframes := by
  have given : (σ.setSurr s fun r => { r with given := r.given ++ [pframes.raw] }).still =
      σ.still.setSurr s fun r => { r with given := r.given ++ [pframes.raw] } :=
    still_setSurr σ s _ _ rfl
  simp only [protocolHttpSend]
  rw [← given]
  generalize (σ.setSurr s fun r => { r with given := r.given ++ [pframes.raw] }) = τ
  have incoming : (τ.still.surrs s).incoming = (τ.surrs s).incoming := rfl
  obtain ⟨state, sent⟩ := still_sendPoller τ s pframes.defn
  rw [incoming]
  cases (τ.surrs s).incoming with
  | true =>
    simp only [if_true, Bool.false_eq_true, if_false]
    exact still_setSurr τ s _ _ rfl
  | false =>
    simp only [Bool.false_eq_true, if_false, ← sent, ← state]
    split
    next => rfl
    next => exact still_setSurr _ s _ _ rfl

theorem still_protocolsSend (s : SurrId) (m : Message) :
    (σ.protocolsSend s m).still = σ.still.protocolsSend s m := by
  have written : (σ.setSurr s fun r => { r with lastSend := σ.now }).still =
      σ.still.setSurr s fun r => { r with lastSend := 0 } := still_setSurr σ s _ _ rfl
  exact (still_protocolHttpSend _ s _).trans
    (congrArg (fun τ => protocolHttpSend τ s (protocolHttpFrame m)) written)

theorem still_act (a : Act) : (σ.act a).still = σ.still.act a := by
  cases a with
  | send s m =>
    have known : s < σ.still.nextSurr ↔ s < σ.nextSurr := Iff.rfl
    simp only [act]
    by_cases there : s < σ.nextSurr
    · rw [if_pos there, if_pos (known.mpr there), still_protocolsSend]
    · rw [if_neg there, if_neg (known.not.mpr there)]
  | closeSurr s reason =>
    have known : s < σ.still.nextSurr ↔ s < σ.nextSurr := Iff.rfl
    simp only [act]
    by_cases there : s < σ.nextSurr
    · rw [if_pos there, if_pos (known.mpr there), still_closeSurr]
    · rw [if_neg there, if_neg (known.not.mpr there)]
  | closeSock c reason =>
    have known : c < σ.still.nextSock ↔ c < σ.nextSock := Iff.rfl
    simp only [act]
    by_cases there : c < σ.nextSock
    · rw [if_pos there, if_pos (known.mpr there), still_closeSock]
    · rw [if_neg there, if_neg (known.not.mpr there)]

theorem still_acts (as : List Act) : (σ.acts as).still = σ.still.acts as := by
  induction as generalizing σ with
  | nil => rfl
  | cons a as ih =>
    have rest := ih (σ.act a)
    rw [still_act] at rest
    exact rest

theorem still_surrLines (s : SurrId) (msgs : List Bytes) (turns : List Turn) :
    (surrLines s σ msgs turns).1.still = (surrLines s σ.still msgs turns).1 ∧
      (surrLines s σ msgs turns).2 = (surrLines s σ.still msgs turns).2 := by
  induction msgs generalizing σ turns with
  | nil => exact ⟨rfl, rfl⟩
  | cons msg msgs ih =>
    simp only [surrLines]
    split
    next => exact ⟨still_closeSurr _ s _, rfl⟩
    next =>
      have rest := ih (acts { σ with handled := σ.handled ++ [(s, msg)] } (turns.headD {}).acts)
        turns.tail
      rw [still_acts] at rest
      exact rest

theorem still_surrFlush (s : SurrId) (c : SockId) :
    (σ.surrFlush env s c).still = σ.still.surrFlush env s c := by
  have opened : (σ.setSurr s fun r => { r with incoming := false }).still =
      σ.still.setSurr s fun r => { r with incoming := false } := still_setSurr σ s _ _ rfl
  simp only [surrFlush]
  rw [← opened]
  generalize (σ.setSurr s fun r => { r with incoming := false }) = τ
  have msgs : (τ.still.surrs s).wbuff = (τ.surrs s).wbuff := rfl
  have flushed : (τ.setSurr s fun r => { r with wbuff := [] }).still =
      τ.still.setSurr s fun r => { r with wbuff := [] } := still_setSurr τ s _ _ rfl
  rw [msgs, ← flushed]
  split
  next => exact still_surrReplace env _ s c
  next => exact still_surrSend env _ s c _

theorem still_surrRoute (s : SurrId) (c : SockId) (body : Bytes) (turns : List Turn) :
    (σ.surrRoute env s c body turns).still = σ.still.surrRoute env s c body turns := by
  have entered : (σ.setSurr s fun r => { r with incoming := true }).still =
      σ.still.setSurr s fun r => { r with incoming := true } := still_setSurr σ s _ _ rfl
  simp only [surrRoute]
  rw [← entered]
  generalize (σ.setSurr s fun r => { r with incoming := true }) = τ
  obtain ⟨state, all⟩ := still_surrLines τ s (bodyLines body) turns
  generalize surrLines s τ.still (bodyLines body) turns = result at state all
  obtain ⟨υ, done⟩ := result
  dsimp only at state all
  subst state all
  split
  next υ refused =>
    rw [refused]
    exact still_sendError env υ (some c) .status400
  next υ taken =>
    rw [taken]
    exact still_surrFlush env υ s c

theorem still_doBody (c : SockId) (body : Bytes) (turns : List Turn) :
    (σ.doBody env c body turns).still = σ.still.doBody env c body turns := by
  have iframe : (σ.still.socks c).iframeRequested = (σ.socks c).iframeRequested := rfl
  have post : (σ.still.socks c).isPost = (σ.socks c).isPost := rfl
  have linked : (σ.still.socks c).client = (σ.socks c).client := rfl
  simp only [doBody, iframe, post, linked]
  split_ifs
  · exact still_sendError env σ (some c) .status501
  · exact (still_sendResponse σ (some c) env.iframeSource).1
  · exact still_sendError env σ (some c) .status405
  · split
    next => exact still_sendError env σ (some c) .status403
    next s _ => exact still_surrRoute env σ s c body turns

theorem still_surrNew (sid : Nat) : (σ.surrNew sid).still = σ.still.surrNew sid := by
  have surrs : (fun s => ((σ.surrNew sid).surrs s).still) = (σ.still.surrNew sid).surrs := by
    funext s
    by_cases new : s = σ.nextSurr
    · subst new
      exact (congrArg Surrogate.still (surrs_surrNew_self σ sid)).trans
        (surrs_surrNew_self σ.still sid).symm
    · exact (congrArg Surrogate.still (surrs_surrNew σ sid s new)).trans
        (surrs_surrNew σ.still sid s new).symm
  exact congrArg (fun surrs => { σ.still.surrNew sid with surrs }) surrs

theorem still_getSurrogate (url : Bytes) (room : Bool) :
    (σ.getSurrogate url room).1.still = (σ.still.getSurrogate url room).1 ∧
      (σ.getSurrogate url room).2 = (σ.still.getSurrogate url room).2 := by
  simp only [getSurrogate]
  split
  next => exact ⟨rfl, rfl⟩
  next sid _ =>
    have bucket : σ.still.clients = σ.clients := rfl
    simp only [surrFind, bucket]
    split
    next => exact ⟨rfl, rfl⟩
    next =>
      split
      next => exact ⟨still_surrNew σ sid, rfl⟩
      next => exact ⟨rfl, rfl⟩

theorem still_link (c : SockId) (surrogate : Option SurrId) :
    (σ.link c surrogate).still = σ.still.link c surrogate := by
  cases surrogate with
  | none => rfl
  | some s =>
    have surr : (σ.still.surrs s).closing = (σ.surrs s).closing := rfl
    have sock : (σ.still.socks c).closing = (σ.socks c).closing := rfl
    have linked : (σ.setSock c fun k => { k with client := some s }).still =
        σ.still.setSock c fun k => { k with client := some s } := still_setSock σ c _ _ rfl
    simp only [link, surr, sock]
    split
    next => rfl
    next =>
      rw [← linked]
      exact still_setSurr _ s _ _ rfl

theorem still_openRequest (c : SockId) (req : HttpRequest) (bodyLen : Nat) (room : Bool) :
    (σ.openRequest c req bodyLen room).still = σ.still.openRequest c req bodyLen room := by
  obtain ⟨state, surrogate⟩ := still_getSurrogate σ req.url room
  simp only [openRequest, ← state, ← surrogate, ← still_link]
  exact still_setSock _ c _ _ rfl

theorem still_doHeadersHttp (c : SockId) (req : HttpRequest) (room : Bool) :
    (σ.doHeadersHttp env c req room).1.still = (σ.still.doHeadersHttp env c req room).1 ∧
      (σ.doHeadersHttp env c req room).2 = (σ.still.doHeadersHttp env c req room).2 := by
  simp only [doHeadersHttp]
  split
  next =>
    split
    next => exact ⟨rfl, rfl⟩
    next bodyLen _ => exact ⟨still_openRequest σ c req bodyLen room, rfl⟩
  next =>
    split
    next => exact ⟨still_closeSock σ c _, rfl⟩
    next => exact ⟨still_openRequest σ c req 0 room, rfl⟩

theorem still_doHeadersWebsocket (c : SockId) (req : HttpRequest) (connection : Option Bytes) :
    (σ.doHeadersWebsocket env c req connection).1.still =
        (σ.still.doHeadersWebsocket env c req connection).1 ∧
      (σ.doHeadersWebsocket env c req connection).2 =
        (σ.still.doHeadersWebsocket env c req connection).2 := by
  have switched : (σ.upgrade c).still = σ.still.upgrade c := still_setSock σ c _ _ rfl
  simp only [doHeadersWebsocket]
  split_ifs
  · exact ⟨still_sendError env σ (some c) .status426, rfl⟩
  · exact ⟨still_sendError env σ (some c) .status400, rfl⟩
  · exact ⟨switched, rfl⟩

theorem still_routeBegin (c : SockId) : (σ.routeBegin c).still = σ.still.routeBegin c :=
  still_setSock σ c _ _ rfl

theorem still_requestBegin (c : SockId) (req : HttpRequest) :
    (σ.requestBegin env c req).still = σ.still.requestBegin env c req := by
  -- The answer to the request before, then the entry of this one.
  rw [requestBegin, requestBegin, ← still_routeBegin, ← still_sendError]
  exact still_setSock _ c _ _ rfl

theorem still_headerBlock (c : SockId) (req : HttpRequest) (room : Bool) :
    (σ.headerBlock env c req room).1.still = (σ.still.headerBlock env c req room).1 ∧
      (σ.headerBlock env c req room).2 = (σ.still.headerBlock env c req room).2 := by
  simp only [headerBlock, ← still_requestBegin]
  split
  next =>
    split
    next => exact still_doHeadersWebsocket env _ c req _
    next => exact still_doHeadersHttp env _ c req room
  next => exact ⟨rfl, rfl⟩

theorem still_routeHeader (c : SockId) (req : HttpRequest) (room : Bool) :
    (σ.routeHeader env c req room).still = σ.still.routeHeader env c req room := by
  obtain ⟨state, status⟩ := still_headerBlock env σ c req room
  rw [routeHeader_eq, routeHeader_eq, ← state, ← status]
  cases (σ.headerBlock env c req room).2 with
  | ok => exact still_setSock _ c _ _ rfl
  | again => rfl
  | fatal => exact still_closeSock _ c _

theorem still_routeBody (c : SockId) (body : Bytes) (turns : List Turn) :
    (σ.routeBody env c body turns).still = σ.still.routeBody env c body turns := by
  have begun : ((σ.routeBegin c).setSock c fun k => { k with inBody := false }).still =
      (σ.still.routeBegin c).setSock c fun k => { k with inBody := false } := by
    rw [← still_routeBegin]
    exact still_setSock _ c _ _ rfl
  simp only [routeBody, ← begun, ← still_doBody]
  exact still_setSock _ c _ _ rfl

end Http

end QuickIO
