import QuickIO.HttpResponses

/-!
# What a session is given

Only `protocol_http_send` gives messages to a session. Whatever else happens to the
sockets and the sessions, what a session was given stays what it was.
-/
namespace QuickIO

open Lib

namespace Http

/-- Sessions that have not been made yet were given nothing. -/
def Unused (σ : Http) : Prop := ∀ s, σ.nextSurr ≤ s → (σ.surrs s).given = []

/-- No session is given anything, though some may be made. -/
structure Mute (σ τ : Http) : Prop where
  given : ∀ s, (τ.surrs s).given = (σ.surrs s).given
  nextSurr : σ.nextSurr ≤ τ.nextSurr

namespace Mute

variable {σ τ υ : Http}

theorem refl (σ : Http) : Mute σ σ := ⟨fun _ => rfl, Nat.le_refl _⟩

theorem trans (first : Mute σ τ) (second : Mute τ υ) : Mute σ υ :=
  ⟨fun s => (second.given s).trans (first.given s), Nat.le_trans first.nextSurr second.nextSurr⟩

theorem fresh (mute : Mute σ τ) (fresh : Unused σ) : Unused τ := by
  intro s above
  rw [mute.given]
  exact fresh s (Nat.le_trans mute.nextSurr above)

/-- A change to what is not about the sessions. -/
theorem same (surrs : τ.surrs = σ.surrs) (nextSurr : τ.nextSurr = σ.nextSurr) : Mute σ τ :=
  ⟨fun s => by rw [surrs], nextSurr ▸ Nat.le_refl _⟩

theorem setSock (c : SockId) (f : Socket → Socket) : Mute σ (σ.setSock c f) := same rfl rfl

theorem refSock (c : SockId) : Mute σ (σ.refSock c) := setSock c _

theorem unrefSock (c : SockId) : Mute σ (σ.unrefSock c) := setSock c _

theorem closeSock (c : SockId) (reason : CloseReason) : Mute σ (σ.closeSock c reason) :=
  setSock c _

theorem upgrade (c : SockId) : Mute σ (σ.upgrade c) := setSock c _

theorem setSurr (s : SurrId) (f : Surrogate → Surrogate) (keeps : ∀ r, (f r).given = r.given) :
    Mute σ (σ.setSurr s f) := by
  refine ⟨fun r => ?_, Nat.le_refl _⟩
  rw [surrs_setSurr]
  split
  next here => rw [keeps, here]
  next => rfl

theorem closeSurr (s : SurrId) (reason : CloseReason) : Mute σ (σ.closeSurr s reason) :=
  setSurr s _ fun _ => rfl

theorem unrefSurr (s : SurrId) : Mute σ (σ.unrefSurr s) := setSurr s _ fun _ => rfl

theorem sendResponse (client : Option SockId) (resp : Response) :
    Mute σ (σ.sendResponse client resp).1 := by
  cases client with
  | none => exact refl σ
  | some c =>
    have responded := sendResponse_responded σ c resp
    exact ⟨fun s => (responded.session s).2.2.1, responded.nextSurr ▸ Nat.le_refl _⟩

theorem sendError (env : HttpEnv) (client : Option SockId) (status : HttpStatus) :
    Mute σ (σ.sendError env client status).1 :=
  sendResponse client _

theorem setPoller (s : SurrId) (poller : Option SockId) : Mute σ (σ.setPoller s poller) := by
  have written : Mute σ (σ.setSurr s fun r => { r with client := poller }) :=
    setSurr s _ fun _ => rfl
  cases poller with
  | none => exact written
  | some c => exact written.trans (refSock c)

theorem dismiss (env : HttpEnv) (poller : Option SockId) (status : HttpStatus) :
    Mute σ (σ.dismiss env poller status) := by
  cases poller with
  | none => exact refl σ
  | some c => exact (sendError env (some c) status).trans (unrefSock c)

theorem surrReplace (env : HttpEnv) (s : SurrId) (c : SockId) :
    Mute σ (σ.surrReplace env s c) := by
  simp only [Http.surrReplace]
  split
  next => exact ((setPoller s none).trans (sendError env _ _)).trans (dismiss env _ _)
  next => exact (setPoller s (some c)).trans (dismiss env _ _)

theorem sendPoller (s : SurrId) (resp : Response) : Mute σ (σ.sendPoller s resp).1 := by
  have stolen : Mute σ (σ.setPoller s none) := setPoller s none
  simp only [Http.sendPoller]
  split
  next => exact stolen
  next p _ => exact (stolen.trans (sendResponse (some p) resp)).trans (unrefSock p)

theorem surrSend (env : HttpEnv) (s : SurrId) (c : SockId) (msgs : Bytes) :
    Mute σ (σ.surrSend env s c msgs) := by
  have polled : Mute σ (σ.sendPoller s (buildResponse .status200 msgs)).1 := sendPoller s _
  simp only [Http.surrSend]
  split
  next => exact polled.trans (surrReplace env s c)
  next => exact (polled.trans (sendResponse (some c) _)).trans (same rfl rfl)

theorem surrFlush (env : HttpEnv) (s : SurrId) (c : SockId) : Mute σ (σ.surrFlush env s c) := by
  have flushed : Mute σ ((σ.setSurr s fun r => { r with incoming := false }).setSurr s
      fun r => { r with wbuff := [] }) :=
    (setSurr s (fun r => { r with incoming := false }) fun _ => rfl).trans
      (setSurr s (fun r => { r with wbuff := [] }) fun _ => rfl)
  simp only [Http.surrFlush]
  split
  next => exact flushed.trans (surrReplace env s c)
  next => exact flushed.trans (surrSend env s c _)

/-- A session that is made takes a place where nothing was given. -/
theorem getSurrogate (fresh : Unused σ) (url : Bytes) (room : Bool) :
    Mute σ (σ.getSurrogate url room).1 := by
  rcases getSurrogate_cases σ url room with still | ⟨sid, made⟩
  · rw [still]
    exact refl σ
  · rw [made]
    refine ⟨fun s => ?_, Nat.le_succ _⟩
    by_cases new : s = σ.nextSurr
    · subst new
      rw [surrs_surrNew_self, fresh _ (Nat.le_refl _)]
    · rw [surrs_surrNew σ sid s new]

theorem link (c : SockId) (surrogate : Option SurrId) : Mute σ (σ.link c surrogate) := by
  cases surrogate with
  | none => exact refl σ
  | some s =>
    simp only [Http.link]
    split
    next => exact refl σ
    next => exact (setSock c _).trans (setSurr s _ fun _ => rfl)

theorem openRequest (fresh : Unused σ) (c : SockId) (req : HttpRequest) (bodyLen : Nat)
    (room : Bool) : Mute σ (σ.openRequest c req bodyLen room) := by
  simp only [Http.openRequest]
  exact ((getSurrogate fresh req.url room).trans (link c _)).trans (setSock c _)

theorem doHeadersHttp (env : HttpEnv) (fresh : Unused σ) (c : SockId) (req : HttpRequest)
    (room : Bool) : Mute σ (σ.doHeadersHttp env c req room).1 := by
  simp only [Http.doHeadersHttp]
  split
  next =>
    split
    next => exact refl σ
    next n _ => exact openRequest fresh c req n room
  next =>
    split
    next => exact closeSock c _
    next => exact openRequest fresh c req 0 room

theorem doHeadersWebsocket (env : HttpEnv) (c : SockId) (req : HttpRequest)
    (connection : Option Bytes) : Mute σ (σ.doHeadersWebsocket env c req connection).1 := by
  simp only [Http.doHeadersWebsocket]
  split_ifs
  · exact sendError env (some c) .status426
  · exact sendError env (some c) .status400
  · exact upgrade c

theorem routeHeader (env : HttpEnv) (fresh : Unused σ) (c : SockId) (req : HttpRequest)
    (room : Bool) : Mute σ (σ.routeHeader env c req room) := by
  have begun : Mute σ (σ.requestBegin env c req) :=
    ((setSock c _).trans (sendError env (some c) .status200)).trans (setSock c _)
  have block : Mute σ (σ.headerBlock env c req room).1 := by
    rcases headerBlock_cases env σ c req room with websocket | http | failed
    · rw [websocket]
      exact begun.trans (doHeadersWebsocket env c req _)
    · rw [http]
      exact begun.trans (doHeadersHttp env (begun.fresh fresh) c req room)
    · rw [failed]
      exact begun
  rw [routeHeader_eq]
  split
  next => exact block.trans (setSock c _)
  next => exact block
  next => exact block.trans (closeSock c _)

theorem heartbeatSurr (env : HttpEnv) (s : SurrId) : Mute σ (σ.heartbeatSurr env s) := by
  simp only [Http.heartbeatSurr]
  split
  next => exact closeSurr s _
  next => exact refl σ

theorem heartbeatSock (env : HttpEnv) (c : SockId) : Mute σ (σ.heartbeatSock env c) := by
  simp only [Http.heartbeatSock]
  split
  next =>
    split
    next => exact closeSock c _
    next => exact refl σ
  next =>
    split
    next => exact sendError env (some c) .status200
    next => exact refl σ

theorem onCloseSock (env : HttpEnv) (c : SockId) (reason : CloseReason) :
    Mute σ (σ.onCloseSock env c reason) := by
  obtain ⟨υ, told, closed⟩ := onCloseSock_cases env σ c reason
  have answered : Mute σ υ := by
    obtain rfl | ⟨status, rfl⟩ := told
    · exact setSock c _
    · exact (setSock c _).trans (sendError env (some c) status)
  obtain still | ⟨s, still⟩ := closed
  · rw [still]
    exact answered
  · rw [still]
    exact (answered.trans (closeSurr s .httpDone)).trans (unrefSurr s)

theorem onCloseSurr (env : HttpEnv) (s : SurrId) : Mute σ (σ.onCloseSurr env s) := by
  let entries := Function.update (σ.clients (σ.surrs s).tbl) (σ.surrs s).sid none
  let τ : Http := { σ with clients := Function.update σ.clients (σ.surrs s).tbl entries }
  have removed : Mute σ τ := same rfl rfl
  have closed := removed.trans (setSurr s (fun r => { r with closed := true }) fun _ => rfl)
  exact (closed.trans (setPoller s none)).trans (dismiss env _ _)

/-- Steps other than a body, and than what handlers do. -/
theorem step {env : HttpEnv} {l : Label} (unused : Unused σ) (stepped : σ.step env l = some τ)
    (header : ∀ c body turns, l ≠ .body c body turns) (alone : ∀ a, l ≠ .act a) : Mute σ τ := by
  cases step_cases stepped with
  | tick usec => exact same rfl rfl
  | opened => exact same rfl rfl
  | again c routes => exact setSock c _
  | header c req room routes ready done => exact routeHeader env unused c req room
  | body c body turns => exact absurd rfl (header c body turns)
  | bodyOverflow c used routes waits beyond => exact (setSock c _).trans (closeSock c _)
  | act a => exact absurd rfl (alone a)
  | heartbeatSock c routes shook => exact heartbeatSock env c
  | heartbeatSurr s there open_ => exact heartbeatSurr env s
  | leave c upgraded => exact setSock c _
  | onCloseSock c reason http closing => exact onCloseSock env c reason
  | onCloseSurr s open_ closing => exact onCloseSurr env s

end Mute

/-! ### Sends -/

/-- From `σ` to `τ` one session was given these messages. -/
structure Gives (σ τ : Http) (s : SurrId) (messages : List Message) : Prop where
  own : (τ.surrs s).given =
    (σ.surrs s).given ++ messages.map fun m => (protocolHttpFrame m).raw
  others : ∀ r, r ≠ s → (τ.surrs r).given = (σ.surrs r).given
  nextSurr : σ.nextSurr ≤ τ.nextSurr

namespace Gives

variable {σ τ υ : Http} {s : SurrId} {messages later : List Message}

theorem ofMute (mute : Mute σ τ) (s : SurrId) : Gives σ τ s [] where
  own := by rw [mute.given, List.map_nil, List.append_nil]
  others r _ := mute.given r
  nextSurr := mute.nextSurr

theorem trans (first : Gives σ τ s messages) (second : Gives τ υ s later) :
    Gives σ υ s (messages ++ later) where
  own := by rw [second.own, first.own, List.map_append, List.append_assoc]
  others r other := (second.others r other).trans (first.others r other)
  nextSurr := Nat.le_trans first.nextSurr second.nextSurr

theorem before (mute : Mute σ τ) (second : Gives τ υ s messages) : Gives σ υ s messages :=
  (ofMute mute s).trans second

theorem after (first : Gives σ τ s messages) (mute : Mute τ υ) : Gives σ υ s messages := by
  have done := first.trans (ofMute mute s)
  rwa [List.append_nil] at done

/-- Sessions that are made later are still fresh. -/
theorem fresh (gives : Gives σ τ s messages) (made : s < σ.nextSurr) (fresh : Unused σ) :
    Unused τ := by
  intro r above
  have later : r ≠ s := by
    rintro rfl
    exact absurd made (Nat.not_lt.mpr (Nat.le_trans gives.nextSurr above))
  rw [gives.others r later]
  exact fresh r (Nat.le_trans gives.nextSurr above)

/-- A message is given whether a poller takes it or the buffer keeps it. -/
theorem protocolsSend (s : SurrId) (m : Message) : Gives σ (σ.protocolsSend s m) s [m] := by
  have timed : Mute σ (σ.setSurr s fun r => { r with lastSend := σ.now }) :=
    Mute.setSurr s _ fun _ => rfl
  rw [Http.protocolsSend]
  apply before timed
  generalize (σ.setSurr s fun r => { r with lastSend := σ.now }) = υ
  have given : Gives υ (υ.setSurr s fun r =>
      { r with given := r.given ++ [(protocolHttpFrame m).raw] }) s [m] := by
    refine ⟨?_, fun r other => ?_, Nat.le_refl _⟩
    · rw [surrs_setSurr, if_pos rfl]
      rfl
    · rw [surrs_setSurr, if_neg other]
  simp only [Http.protocolHttpSend]
  generalize (υ.setSurr s fun r =>
    { r with given := r.given ++ [(protocolHttpFrame m).raw] }) = τ at given ⊢
  have tried : Mute τ (if (τ.surrs s).incoming then (τ, false)
      else τ.sendPoller s (protocolHttpFrame m).defn).1 := by
    split
    next => exact Mute.refl τ
    next => exact Mute.sendPoller s _
  generalize (if (τ.surrs s).incoming then (τ, false)
    else τ.sendPoller s (protocolHttpFrame m).defn) = result at tried ⊢
  split
  next => exact given.after tried
  next => exact (given.after tried).after (Mute.setSurr s _ fun _ => rfl)

/-- A handler that sends to one session. -/
theorem acts (made : s < σ.nextSurr) (messages : List Message) :
    Gives σ (σ.acts (messages.map (.send s))) s messages := by
  induction messages generalizing σ with
  | nil => exact ofMute (Mute.refl σ) s
  | cons m messages ih =>
    have first : Gives σ (σ.act (.send s m)) s [m] := by
      rw [Http.act, if_pos made]
      exact protocolsSend s m
    exact first.trans (ih (Nat.lt_of_lt_of_le made first.nextSurr))

end Gives

end Http

end QuickIO
