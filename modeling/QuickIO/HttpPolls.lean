import QuickIO.HttpSteps
import QuickIO.HttpTable

/-!
# A polled session is not reaped

The heartbeat of a surrogate closes it when nobody polls and nothing was sent
for the configured timeout. Whatever takes the poller away leaves `last_send` at
its own time: a poller that is answered is linked back, so that its response
counts for the surrogate, and where it is not, the socket that takes its place
is. So a session outlives its last poller by the timeout.
-/
namespace QuickIO

open Lib

namespace Http

/-- A link belongs to a request. -/
def Asks (σ : Http) : Prop :=
  ∀ c s, (σ.socks c).client = some s → (σ.socks c).inRequest = true

/-- Something has been sent to the surrogate just now. -/
def Fresh (s : SurrId) (σ : Http) : Prop := (σ.surrs s).lastSend = σ.now

/-- What is done at one time, as far as a surrogate is concerned: `last_send`
moves to that time only, and a link to the surrogate is only taken away by a
response that counts for it. -/
structure Counts (s : SurrId) (σ τ : Http) : Prop where
  now : τ.now = σ.now
  asks : τ.Asks
  send : (τ.surrs s).lastSend = (σ.surrs s).lastSend ∨ Fresh s τ
  linked : ∀ c, (σ.socks c).client = some s → (τ.socks c).client = some s ∨ Fresh s τ

/-- Its poller is not taken away either, but by such a response. -/
structure Spares (s : SurrId) (σ τ : Http) : Prop extends Counts s σ τ where
  polled : (σ.surrs s).client ≠ none → (τ.surrs s).client ≠ none ∨ Fresh s τ

/-- The socket is linked to the surrogate, or has just been answered for it. -/
def Due (s : SurrId) (c : SockId) (σ : Http) : Prop :=
  (σ.socks c).client = some s ∨ Fresh s σ

namespace Counts

variable {s : SurrId} {σ τ υ : Http}

theorem fresh (counts : Counts s σ τ) (before : Fresh s σ) : Fresh s τ := by
  rcases counts.send with same | fresh
  · exact same.trans (before.trans counts.now.symm)
  · exact fresh

theorem due (counts : Counts s σ τ) {c : SockId} (due : Due s c σ) : Due s c τ := by
  rcases due with link | before
  · exact counts.linked c link
  · exact Or.inr (counts.fresh before)

theorem trans (first : Counts s σ τ) (second : Counts s τ υ) : Counts s σ υ := by
  refine ⟨second.now.trans first.now, second.asks, ?_, fun c link => ?_⟩
  · rcases second.send with same | fresh
    · rcases first.send with earlier | before
      · exact Or.inl (same.trans earlier)
      · exact Or.inr (second.fresh before)
    · exact Or.inr fresh
  · exact second.due (first.linked c link)

/-- Where something has been sent, the poller does not matter. -/
theorem spares (counts : Counts s σ τ) (fresh : Fresh s τ) : Spares s σ τ :=
  ⟨counts, fun _ => Or.inr fresh⟩

end Counts

namespace Spares

variable {s : SurrId} {σ τ υ : Http}

theorem refl (asks : σ.Asks) : Spares s σ σ :=
  ⟨⟨rfl, asks, Or.inl rfl, fun _ => Or.inl⟩, Or.inl⟩

theorem trans (first : Spares s σ τ) (second : Spares s τ υ) : Spares s σ υ := by
  refine ⟨first.toCounts.trans second.toCounts, fun polled => ?_⟩
  rcases first.polled polled with still | before
  · exact second.polled still
  · exact Or.inr (second.fresh before)

/-- Neither sockets, surrogates nor the time change. -/
theorem log (asks : σ.Asks) (socks : τ.socks = σ.socks) (surrs : τ.surrs = σ.surrs)
    (now : τ.now = σ.now) : Spares s σ τ := by
  refine ⟨⟨now, ?_, Or.inl (by rw [surrs]), fun c link => Or.inl (by rwa [socks])⟩,
    fun polled => Or.inl (by rwa [surrs])⟩
  intro c r link
  rw [socks] at link ⊢
  exact asks c r link

theorem setSock (asks : σ.Asks) (c : SockId) (f : Socket → Socket)
    (client : (f (σ.socks c)).client = (σ.socks c).client)
    (inRequest : (f (σ.socks c)).inRequest = (σ.socks c).inRequest ∨
      (f (σ.socks c)).inRequest = true) : Spares s σ (σ.setSock c f) := by
  -- Only the socket `c` changes, and it keeps its client.
  refine ⟨⟨rfl, fun d r link => ?_, Or.inl rfl, fun d link => Or.inl ?_⟩, Or.inl⟩
  · rw [socks_setSock] at link ⊢
    split at link
    next here =>
      rw [if_pos here]
      rw [client] at link
      rcases inRequest with same | now
      · exact same.trans (asks c r link)
      · exact now
    next here =>
      rw [if_neg here]
      exact asks d r link
  · rw [socks_setSock]
    split
    next here =>
      rw [client, ← here]
      exact link
    next => exact link

theorem setSurr (asks : σ.Asks) (r : SurrId) (f : Surrogate → Surrogate)
    (client : (f (σ.surrs r)).client = (σ.surrs r).client)
    (lastSend : (f (σ.surrs r)).lastSend = (σ.surrs r).lastSend ∨
      (f (σ.surrs r)).lastSend = σ.now) : Spares s σ (σ.setSurr r f) := by
  refine ⟨⟨rfl, asks, ?_, fun _ => Or.inl⟩, fun polled => Or.inl ?_⟩
  · rw [Fresh, surrs_setSurr]
    split
    next here =>
      rw [here]
      exact lastSend
    next => exact Or.inl rfl
  · rw [surrs_setSurr]
    split
    next here =>
      rw [client, ← here]
      exact polled
    next => exact polled

theorem unrefSock (asks : σ.Asks) (c : SockId) : Spares s σ (σ.unrefSock c) :=
  setSock asks c _ rfl (Or.inl rfl)

theorem closeSock (asks : σ.Asks) (c : SockId) (reason : CloseReason) :
    Spares s σ (σ.closeSock c reason) :=
  setSock asks c _ rfl (Or.inl rfl)

theorem closeSurr (asks : σ.Asks) (r : SurrId) (reason : CloseReason) :
    Spares s σ (σ.closeSurr r reason) :=
  setSurr asks r _ rfl (Or.inl rfl)

/-- A poller takes the place of another, if there is one. -/
theorem attach (asks : σ.Asks) (r : SurrId) (c : SockId) :
    Spares s σ (σ.setPoller r (some c)) := by
  have put : Spares s σ (σ.setSurr r fun q => { q with client := some c }) := by
    refine ⟨⟨rfl, asks, ?_, fun _ => Or.inl⟩, fun polled => Or.inl ?_⟩
    · left
      rw [surrs_setSurr]
      split
      next here => rw [here]
      next => rfl
    · rw [surrs_setSurr]
      split
      next => exact Option.some_ne_none c
      next => exact polled
  have counted := setSock (s := s) put.asks c (fun k => { k with refs := k.refs + 1 }) rfl (Or.inl rfl)
  exact put.trans counted

end Spares

/-- The poller of a surrogate is taken, before it is answered. -/
theorem Counts.take {s : SurrId} {σ : Http} (asks : σ.Asks) (r : SurrId) :
    Counts s σ (σ.setPoller r none) := by
  refine ⟨rfl, asks, Or.inl ?_, fun _ => Or.inl⟩
  simp only [setPoller, surrs_setSurr]
  split
  next here => rw [here]
  next => rfl

theorem Spares.take {s : SurrId} {σ : Http} (asks : σ.Asks) {r : SurrId} (other : s ≠ r) :
    Spares s σ (σ.setPoller r none) := by
  refine ⟨.take asks r, fun polled => Or.inl ?_⟩
  simp only [setPoller, surrs_setSurr, if_neg other]
  exact polled

/-! ### `_send_response` -/

theorem sendResponse_now (σ : Http) (c : SockId) (resp : Response) :
    (σ.sendResponse (some c) resp).1.now = σ.now := by
  cases link : (σ.socks c).client with
  | none =>
    simp only [sendResponse, link, surrReleaseClient, answer]
    split
    next => rfl
    next => rfl
  | some s =>
    simp only [sendResponse, link, surrReleaseClient, answer]
    split_ifs
    all_goals rfl

theorem surrReleaseClient_lastSend (σ : Http) (r s : SurrId) (c : SockId) :
    (((σ.surrReleaseClient (some r) c).unrefSurr r).surrs s).lastSend = (σ.surrs s).lastSend := by
  simp only [surrReleaseClient, unrefSurr, unrefSock]
  split
  next =>
    by_cases here : s = r
    · simp [here]
    · simp [here]
  next =>
    by_cases here : s = r
    · simp [here]
    · simp [here]

/-- A response counts for the surrogate its socket is linked to. -/
theorem sendResponse_fresh {σ : Http} (asks : σ.Asks) {s : SurrId} {c : SockId}
    (link : (σ.socks c).client = some s) (resp : Response) :
    Fresh s (σ.sendResponse (some c) resp).1 := by
  have owes := asks c s link
  have result : (σ.sendResponse (some c) resp).1 =
      (((σ.setSock c fun k => { k with client := none }).answer c (some s) resp).surrReleaseClient
        (some s) c).unrefSurr s := by
    simp [sendResponse, link, owes]
  rw [Fresh, sendResponse_now, result, surrReleaseClient_lastSend, answer_surrs, if_pos rfl]
  rfl

namespace Spares

variable {s : SurrId} {σ : Http}

theorem sendResponse (asks : σ.Asks) (c : SockId) (resp : Response) :
    Spares s σ (σ.sendResponse (some c) resp).1 := by
  have done := sendResponse_responded σ c resp
  have fresh : (σ.socks c).client = some s → Fresh s (σ.sendResponse (some c) resp).1 :=
    fun link => sendResponse_fresh asks link resp
  refine ⟨⟨sendResponse_now σ c resp, ?_, ?_, ?_⟩, ?_⟩
  · intro d r link
    by_cases here : d = c
    · -- the link was stolen
      rw [here, done.answered.1] at link
      cases link
    · rw [done.others d here] at link ⊢
      exact asks d r link
  · by_cases link : (σ.socks c).client = some s
    · exact Or.inr (fresh link)
    · rw [done.away s link]
      exact Or.inl rfl
  · intro d link
    by_cases here : d = c
    · exact Or.inr (fresh (here ▸ link))
    · rw [done.others d here]
      exact Or.inl link
  · intro polled
    by_cases link : (σ.socks c).client = some s
    · exact Or.inr (fresh link)
    · rw [done.away s link]
      exact Or.inl polled

variable (env : HttpEnv)

theorem sendError (asks : σ.Asks) (c : SockId) (status : HttpStatus) :
    Spares s σ (σ.sendError env (some c) status).1 :=
  sendResponse asks c _

theorem dismiss (asks : σ.Asks) (poller : Option SockId) (status : HttpStatus) :
    Spares s σ (σ.dismiss env poller status) := by
  cases poller with
  | none => exact refl asks
  | some c =>
    have told := sendError (s := s) env asks c status
    exact told.trans (unrefSock told.asks c)

/-! ### Polls and sends -/

/-- A socket that is due is answered for the surrogate. -/
theorem answer_due (asks : σ.Asks) {c : SockId} (due : Due s c σ) (resp : Response) :
    Fresh s (σ.sendResponse (some c) resp).1 := by
  rcases due with link | fresh
  · exact sendResponse_fresh asks link resp
  · exact (sendResponse (s := s) asks c resp).fresh fresh

/-- A socket that is due takes the poller's place, or is turned away and counts. -/
theorem seat (asks : σ.Asks) (c : SockId) (due : Due s c σ) :
    Counts s σ (σ.surrReplace env s c) ∧
      (((σ.surrReplace env s c).surrs s).client ≠ none ∨ Fresh s (σ.surrReplace env s c)) := by
  simp only [Http.surrReplace]
  split
  next =>
    have taken : Counts s σ (σ.setPoller s none) := .take asks s
    have told := answer_due taken.asks (taken.due due) (env.statusResponses .status403)
    have both := taken.trans (sendError (s := s) env taken.asks c .status403).toCounts
    have rest := dismiss (s := s) env both.asks (σ.surrs s).client .status403
    exact ⟨both.trans rest.toCounts, Or.inr (rest.fresh told)⟩
  next =>
    have put : Spares s σ (σ.setPoller s (some c)) := attach asks s c
    have sits : ((σ.setPoller s (some c)).surrs s).client ≠ none := by
      simp [Http.setPoller, Http.refSock]
    have rest := dismiss (s := s) env put.asks (σ.surrs s).client .status200
    exact ⟨put.toCounts.trans rest.toCounts, rest.polled sits⟩

theorem surrReplace (asks : σ.Asks) (r : SurrId) (c : SockId) (due : s = r → Due s c σ) :
    Spares s σ (σ.surrReplace env r c) := by
  by_cases same : s = r
  · subst same
    obtain ⟨counts, kept⟩ := seat env asks c (due rfl)
    exact ⟨counts, fun _ => kept⟩
  · simp only [Http.surrReplace]
    split
    next =>
      have taken : Spares s σ (σ.setPoller r none) := .take asks same
      have told := taken.trans (sendError env taken.asks c .status403)
      exact told.trans (dismiss env told.asks _ .status403)
    next =>
      have put : Spares s σ (σ.setPoller r (some c)) := attach asks r c
      exact put.trans (dismiss env put.asks _ .status200)

end Spares

theorem Counts.sendPoller {s : SurrId} {σ : Http} (asks : σ.Asks) (r : SurrId)
    (resp : Response) : Counts s σ (σ.sendPoller r resp).1 := by
  have taken : Counts s σ (σ.setPoller r none) := .take asks r
  simp only [Http.sendPoller]
  split
  next => exact taken
  next p _ =>
    have told := taken.trans (Spares.sendResponse (s := s) taken.asks p resp).toCounts
    exact told.trans (Spares.unrefSock told.asks p).toCounts

namespace Spares

variable {s : SurrId} {σ : Http} (env : HttpEnv)

theorem sendPoller (asks : σ.Asks) {r : SurrId} (other : s ≠ r) (resp : Response) :
    Spares s σ (σ.sendPoller r resp).1 := by
  have taken : Spares s σ (σ.setPoller r none) := .take asks other
  simp only [Http.sendPoller]
  split
  next => exact taken
  next p _ =>
    have told := taken.trans (sendResponse taken.asks p resp)
    exact told.trans (unrefSock told.asks p)

/-- The old poller is answered and the new one takes its place, or the new one is
answered. -/
theorem surrSend (asks : σ.Asks) (r : SurrId) (c : SockId) (msgs : Bytes)
    (due : s = r → Due s c σ) : Spares s σ (σ.surrSend env r c msgs) := by
  have tried : Counts s σ (σ.sendPoller r (buildResponse .status200 msgs)).1 := .sendPoller asks r _
  have kept : s ≠ r → Spares s σ (σ.sendPoller r (buildResponse .status200 msgs)).1 :=
    fun other => sendPoller asks other _
  simp only [Http.surrSend]
  -- The poller is tried first, and then the socket that posted takes the answer.
  generalize σ.sendPoller r (buildResponse .status200 msgs) = result at tried kept ⊢
  obtain ⟨τ, sent⟩ := result
  dsimp only at tried kept ⊢
  -- The surrogate that posts may see its poller replaced: it is `Due`.
  by_cases same : s = r
  · subst same
    have stays := tried.due (due rfl)
    split
    next =>
      obtain ⟨counts, sits⟩ := seat env tried.asks c stays
      exact ⟨tried.trans counts, fun _ => sits⟩
    next =>
      have told := sendResponse (s := s) tried.asks c (buildResponse .status200 msgs)
      have fresh := answer_due tried.asks stays (buildResponse .status200 msgs)
      exact ((tried.trans told.toCounts).spares fresh).trans (log told.asks rfl rfl rfl)
  · -- Any other surrogate keeps its poller through the answer.
    have both := kept same
    split
    next => exact both.trans (surrReplace env both.asks r c fun here => absurd here same)
    next =>
      have told := both.trans (sendResponse both.asks c (buildResponse .status200 msgs))
      exact told.trans (log told.asks rfl rfl rfl)

theorem protocolsSend (asks : σ.Asks) (r : SurrId) (m : Message) :
    Spares s σ (σ.protocolsSend r m) := by
  have touched : Spares s σ (σ.setSurr r fun q => { q with lastSend := σ.now }) :=
    setSurr asks r _ rfl (Or.inr rfl)
  -- The send stamps `last_send`, so a poller released at this time is released fresh.
  have stamped : s = r → Fresh s (σ.setSurr r fun q => { q with lastSend := σ.now }) := by
    rintro rfl
    rw [Fresh, surrs_setSurr, if_pos rfl]
    rfl
  simp only [Http.protocolsSend, Http.protocolHttpSend]
  have given : Spares s σ ((σ.setSurr r fun q => { q with lastSend := σ.now }).setSurr r
      fun q => { q with given := q.given ++ [(protocolHttpFrame m).raw] }) :=
    touched.trans (setSurr touched.asks r _ rfl (Or.inl rfl))
  have known : s = r → Fresh s ((σ.setSurr r fun q => { q with lastSend := σ.now }).setSurr r
      fun q => { q with given := q.given ++ [(protocolHttpFrame m).raw] }) :=
    fun same => (setSurr (s := s) touched.asks r _ rfl (Or.inl rfl)).fresh (stamped same)
  generalize ((σ.setSurr r fun q => { q with lastSend := σ.now }).setSurr r
      fun q => { q with given := q.given ++ [(protocolHttpFrame m).raw] }) = τ at given known ⊢
  have tried : Spares s σ (if (τ.surrs r).incoming then (τ, false)
      else τ.sendPoller r (protocolHttpFrame m).defn).1 := by
    split
    next => exact given
    next =>
      have counts : Counts s τ (τ.sendPoller r (protocolHttpFrame m).defn).1 :=
        .sendPoller given.asks r _
      by_cases same : s = r
      · exact (given.toCounts.trans counts).spares (counts.fresh (known same))
      · exact given.trans (sendPoller given.asks same _)
  generalize (if (τ.surrs r).incoming then (τ, false)
    else τ.sendPoller r (protocolHttpFrame m).defn) = result at tried ⊢
  split
  next => exact tried
  next => exact tried.trans (setSurr tried.asks r _ rfl (Or.inl rfl))

theorem act (asks : σ.Asks) (a : Act) : Spares s σ (σ.act a) := by
  cases a with
  | send r m =>
    simp only [Http.act]
    split
    next => exact protocolsSend asks r m
    next => exact refl asks
  | closeSurr r reason =>
    simp only [Http.act]
    split
    next => exact closeSurr asks r reason
    next => exact refl asks
  | closeSock c reason =>
    simp only [Http.act]
    split
    next => exact closeSock asks c reason
    next => exact refl asks

theorem acts (asks : σ.Asks) (as : List Act) : Spares s σ (σ.acts as) := by
  induction as generalizing σ with
  | nil => exact refl asks
  | cons a as ih =>
    have first : Spares s σ (σ.act a) := act asks a
    exact first.trans (ih first.asks)

/-! ### Requests -/

theorem surrLines (asks : σ.Asks) (r : SurrId) (msgs : List Bytes) (turns : List Turn) :
    Spares s σ (Http.surrLines r σ msgs turns).1 := by
  induction msgs generalizing σ turns with
  | nil => exact refl asks
  | cons msg msgs ih =>
    have taken : Spares s σ { σ with handled := σ.handled ++ [(r, msg)] } :=
      log asks rfl rfl rfl
    simp only [Http.surrLines]
    split
    next => exact taken.trans (closeSurr taken.asks r .invalidEventFormat)
    next =>
      have acted := taken.trans (acts taken.asks (turns.headD {}).acts)
      exact acted.trans (ih acted.asks turns.tail)

theorem surrFlush (asks : σ.Asks) (r : SurrId) (c : SockId) (due : s = r → Due s c σ) :
    Spares s σ (σ.surrFlush env r c) := by
  have opened : Spares s σ (σ.setSurr r fun q => { q with incoming := false }) :=
    setSurr asks r _ rfl (Or.inl rfl)
  have flushed : Spares s σ ((σ.setSurr r fun q => { q with incoming := false }).setSurr r
      fun q => { q with wbuff := [] }) :=
    opened.trans (setSurr opened.asks r _ rfl (Or.inl rfl))
  simp only [Http.surrFlush]
  split
  next =>
    exact flushed.trans (surrReplace env flushed.asks r c fun same => flushed.due (due same))
  next =>
    exact flushed.trans (surrSend env flushed.asks r c _ fun same => flushed.due (due same))

theorem surrRoute (asks : σ.Asks) (r : SurrId) (c : SockId) (body : Bytes) (turns : List Turn)
    (link : (σ.socks c).client = some r) : Spares s σ (σ.surrRoute env r c body turns) := by
  have due : s = r → Due s c σ := by
    rintro rfl
    exact Or.inl link
  have entered : Spares s σ (σ.setSurr r fun q => { q with incoming := true }) :=
    setSurr asks r _ rfl (Or.inl rfl)
  have taken := entered.trans (surrLines entered.asks r (bodyLines body) turns)
  simp only [Http.surrRoute]
  split
  next refused =>
    rw [refused] at taken
    exact taken.trans (sendError env taken.asks c .status400)
  next all =>
    rw [all] at taken
    exact taken.trans (surrFlush env taken.asks r c fun same => taken.due (due same))

theorem doBody (asks : σ.Asks) (c : SockId) (body : Bytes) (turns : List Turn) :
    Spares s σ (σ.doBody env c body turns) := by
  simp only [Http.doBody]
  split_ifs
  · exact sendError env asks c .status501
  · exact sendResponse asks c env.iframeSource
  · exact sendError env asks c .status405
  · split
    next => exact sendError env asks c .status403
    next r link => exact surrRoute env asks r c body turns link

theorem routeBegin (asks : σ.Asks) (c : SockId) : Spares s σ (σ.routeBegin c) :=
  setSock asks c _ rfl (Or.inl rfl)

theorem routeBody (asks : σ.Asks) (c : SockId) (body : Bytes) (turns : List Turn) :
    Spares s σ (σ.routeBody env c body turns) := by
  have begun : Spares s σ ((σ.routeBegin c).setSock c fun k => { k with inBody := false }) :=
    (routeBegin asks c).trans (setSock (routeBegin (s := s) asks c).asks c _ rfl (Or.inl rfl))
  have routed := begun.trans (doBody env begun.asks c body turns)
  simp only [Http.routeBody]
  exact routed.trans (setSock routed.asks c _ rfl (Or.inl rfl))

theorem surrNew (asks : σ.Asks) (sid : Nat) : Spares s σ (σ.surrNew sid) := by
  by_cases new : s = σ.nextSurr
  · -- the time of its creation counts
    have fresh : Fresh s (σ.surrNew sid) := by
      rw [Fresh, new, surrs_surrNew_self]
      rfl
    exact ⟨⟨rfl, asks, Or.inr fresh, fun _ => Or.inl⟩, fun _ => Or.inr fresh⟩
  · have old := surrs_surrNew σ sid s new
    exact ⟨⟨rfl, asks, Or.inl (by rw [old]), fun _ => Or.inl⟩, fun polled => Or.inl (by rwa [old])⟩

theorem getSurrogate (asks : σ.Asks) (url : Bytes) (room : Bool) :
    Spares s σ (σ.getSurrogate url room).1 ∧ (σ.getSurrogate url room).1.socks = σ.socks := by
  rcases getSurrogate_cases σ url room with same | ⟨sid, created⟩
  · rw [same]
    exact ⟨refl asks, rfl⟩
  · rw [created]
    exact ⟨surrNew asks sid, rfl⟩

/-- A socket without a link gets one for its request. -/
theorem link (asks : σ.Asks) (c : SockId) (surrogate : Option SurrId)
    (idle : (σ.socks c).client = none) (owes : (σ.socks c).inRequest = true) :
    Spares s σ (σ.link c surrogate) := by
  cases surrogate with
  | none => exact refl asks
  | some r =>
    simp only [Http.link]
    split
    next => exact refl asks
    next =>
      have linked : Spares s σ (σ.setSock c fun k => { k with client := some r }) := by
        refine ⟨⟨rfl, fun d q link => ?_, Or.inl rfl, fun d link => Or.inl ?_⟩, Or.inl⟩
        · rw [socks_setSock] at link ⊢
          split at link
          next here =>
            rw [if_pos here]
            exact owes
          next here =>
            rw [if_neg here]
            exact asks d q link
        · -- A socket that was linked before is not `c`, which was idle.
          have other : d ≠ c := by
            rintro rfl
            rw [idle] at link
            cases link
          rw [socks_setSock, if_neg other]
          exact link
      exact linked.trans (setSurr linked.asks r _ rfl (Or.inl rfl))

theorem openRequest (asks : σ.Asks) (c : SockId) (req : HttpRequest) (bodyLen : Nat)
    (room : Bool) (idle : (σ.socks c).client = none) (owes : (σ.socks c).inRequest = true) :
    Spares s σ (σ.openRequest c req bodyLen room) := by
  obtain ⟨found, socks⟩ := getSurrogate (s := s) asks req.url room
  simp only [Http.openRequest]
  generalize σ.getSurrogate req.url room = result at found socks ⊢
  rw [← socks] at idle owes
  have linked := found.trans (link found.asks c result.2 idle owes)
  exact linked.trans (setSock linked.asks c _ rfl (Or.inl rfl))

theorem doHeadersHttp (asks : σ.Asks) (c : SockId) (req : HttpRequest) (room : Bool)
    (idle : (σ.socks c).client = none) (owes : (σ.socks c).inRequest = true) :
    Spares s σ (σ.doHeadersHttp env c req room).1 := by
  simp only [Http.doHeadersHttp]
  split
  next =>
    split
    next => exact refl asks
    next n _ => exact openRequest asks c req n room idle owes
  next =>
    split
    next => exact closeSock asks c .lengthRequired
    next => exact openRequest asks c req 0 room idle owes

theorem doHeadersWebsocket (asks : σ.Asks) (c : SockId) (req : HttpRequest)
    (connection : Option Bytes) :
    Spares s σ (σ.doHeadersWebsocket env c req connection).1 := by
  simp only [Http.doHeadersWebsocket]
  split_ifs
  · exact sendError env asks c .status426
  · exact sendError env asks c .status400
  · exact setSock asks c (fun k => { k with upgraded := true, handshaked := false }) rfl (Or.inl rfl)

theorem routeHeader (asks : σ.Asks) (c : SockId) (req : HttpRequest) (room : Bool) :
    Spares s σ (σ.routeHeader env c req room) := by
  have begun : Spares s σ (σ.routeBegin c) := routeBegin asks c
  -- An unfinished request on the socket is answered before the next one.
  have flushed := begun.trans (sendError env begun.asks c .status200)
  obtain ⟨τ, entered⟩ : ∃ τ, τ = σ.requestBegin env c req := ⟨_, rfl⟩
  have counted : Spares s σ τ := by
    rw [entered]
    exact flushed.trans (setSock flushed.asks c _ rfl (Or.inr rfl))
  -- That answer took the surrogate off the socket.
  have idle : (τ.socks c).client = none := by
    have responded := (sendResponse_responded (σ.routeBegin c) c
      (env.statusResponses .status200)).answered.1
    rw [entered, Http.requestBegin, socks_setSock, if_pos rfl]
    exact responded
  have owes : (τ.socks c).inRequest = true := by
    rw [entered, Http.requestBegin, socks_setSock, if_pos rfl]
  have block : Spares s σ (σ.headerBlock env c req room).1 := by
    simp only [Http.headerBlock, ← entered]
    split
    next =>
      split
      next => exact counted.trans (doHeadersWebsocket env counted.asks c req _)
      next => exact counted.trans (doHeadersHttp env counted.asks c req room idle owes)
    next => exact counted
  rw [routeHeader_eq]
  split
  next => exact block.trans (setSock block.asks c _ rfl (Or.inl rfl))
  next => exact block
  next => exact block.trans (closeSock block.asks c .badRequest)

/-! ### Heartbeats and closes -/

theorem heartbeatSock (asks : σ.Asks) (c : SockId) : Spares s σ (σ.heartbeatSock env c) := by
  simp only [Http.heartbeatSock]
  split
  next =>
    split
    next => exact closeSock asks c .heartattack
    next => exact refl asks
  next =>
    split
    next => exact sendError env asks c .status200
    next => exact refl asks

theorem heartbeatSurr (asks : σ.Asks) (r : SurrId) : Spares s σ (σ.heartbeatSurr env r) := by
  simp only [Http.heartbeatSurr]
  split
  next => exact closeSurr asks r .heartattack
  next => exact refl asks

end Spares

variable {σ τ : Http} (env : HttpEnv) (s : SurrId)

/-- The close of another surrogate. -/
theorem onCloseSurr_counts (asks : σ.Asks) (r : SurrId) :
    Counts s σ (σ.onCloseSurr env r) ∧ (s ≠ r → Spares s σ (σ.onCloseSurr env r)) := by
  have removed : Spares s σ ({ σ with
      clients := Function.update σ.clients (σ.surrs r).tbl
        (Function.update (σ.clients (σ.surrs r).tbl) (σ.surrs r).sid none) }) :=
    .log asks rfl rfl rfl
  have closed := removed.trans
    (.setSurr (f := fun q => { q with closed := true }) removed.asks r rfl (Or.inl rfl))
  have taken := closed.toCounts.trans (.take closed.asks r)
  refine ⟨taken.trans (Spares.dismiss env taken.asks _ .status403).toCounts, fun other => ?_⟩
  have spared := closed.trans (.take closed.asks other)
  exact spared.trans (.dismiss env spared.asks _ .status403)

/-- The close of a socket steals its link, and leaves the surrogate its poller. -/
theorem onCloseSock_spares (asks : σ.Asks) (c : SockId) (reason : CloseReason) :
    Spares s (σ.setSock c fun k => { k with client := none, closed := true })
      (σ.onCloseSock env c reason) := by
  -- The socket leaves its surrogate before its error is written.
  have unlinked : Asks (σ.setSock c fun k => { k with client := none, closed := true }) := by
    intro d r link
    rw [socks_setSock] at link ⊢
    split at link
    next => cases link
    next here =>
      rw [if_neg here]
      exact asks d r link
  obtain ⟨υ, answer, closed⟩ := onCloseSock_cases env σ c reason
  have told : Spares s (σ.setSock c fun k => { k with client := none, closed := true }) υ := by
    obtain rfl | ⟨status, rfl⟩ := answer
    · exact .refl unlinked
    · exact .sendError env unlinked c status
  obtain same | ⟨r, same⟩ := closed
  · rw [same]
    exact told
  · rw [same]
    have closing := told.trans (.closeSurr told.asks r .httpDone)
    exact closing.trans (.setSurr closing.asks r _ rfl (Or.inl rfl))

/-! ### Steps and runs -/

/-- What a step does to a surrogate: `last_send` moves to its time only, and the
poller is taken away at that time or in the surrogate's own close. -/
structure Passes (s : SurrId) (l : Label) (σ τ : Http) : Prop where
  now : σ.now ≤ τ.now
  send : (τ.surrs s).lastSend = (σ.surrs s).lastSend ∨ Fresh s τ
  polled : l ≠ .onCloseSurr s → (σ.surrs s).client ≠ none →
    (τ.surrs s).client ≠ none ∨ Fresh s τ

theorem Spares.passes {s : SurrId} {σ τ : Http} (spares : Spares s σ τ) (l : Label) :
    Passes s l σ τ :=
  ⟨spares.now.ge, spares.send, fun _ => spares.polled⟩

variable {env s}

theorem step_passes {l : Label} (asks : σ.Asks) (stepped : σ.step env l = some τ) :
    Passes s l σ τ := by
  cases step_cases stepped with
  | tick usec =>
    exact ⟨Int.le_add_of_nonneg_right (Int.natCast_nonneg usec), Or.inl rfl, fun _ => Or.inl⟩
  | opened => exact ⟨le_refl _, Or.inl rfl, fun _ => Or.inl⟩
  | again c routes => exact (Spares.routeBegin asks c).passes _
  | header c req room routes ready done =>
    exact (Spares.routeHeader env asks c req room).passes _
  | body c body turns routes waits whole =>
    exact (Spares.routeBody env asks c body turns).passes _
  | bodyOverflow c used routes waits beyond =>
    have begun : Spares s σ (σ.routeBegin c) := .routeBegin asks c
    exact (begun.trans (.closeSock begun.asks c .unknownError)).passes _
  | act a => exact (Spares.act asks a).passes _
  | heartbeatSock c routes shook => exact (Spares.heartbeatSock env asks c).passes _
  | heartbeatSurr r there open_ => exact (Spares.heartbeatSurr env asks r).passes _
  | leave c upgraded =>
    have left : Spares s σ (σ.setSock c fun k => { k with closed := true }) :=
      .setSock asks c _ rfl (Or.inl rfl)
    exact left.passes _
  | onCloseSock c reason http closing =>
    have closed := onCloseSock_spares env s asks c reason
    exact ⟨closed.now.ge, closed.send, fun _ => closed.polled⟩
  | onCloseSurr r open_ closing =>
    -- only the surrogate's own close takes its poller away
    obtain ⟨counts, spares⟩ := onCloseSurr_counts env s asks r
    refine ⟨counts.now.ge, counts.send, fun other => ?_⟩
    exact (spares fun same => other (congrArg _ same.symm)).polled

/-- The invariants of the links and of the table. -/
structure Sound (σ : Http) : Prop where
  owing : Owing nothing σ
  linked : Linked σ []
  valid : σ.table.Valid

theorem Sound.asks (sound : Sound σ) : σ.Asks :=
  fun c s link => (sound.linked.tied.linked c s link).1

theorem Sound.step {l : Label} (sound : Sound σ) (stepped : σ.step env l = some τ) : Sound τ where
  owing := sound.owing.step stepped
  linked := (step_moves sound.owing sound.linked stepped).linked sound.linked
  valid := (step_writes sound.valid stepped).valid sound.owing sound.valid

theorem run_sound {ls : List Label} (ran : (system env).run start ls = some σ) : Sound σ :=
  (system env).run_invariant Sound (fun _ _ _ sound stepped => sound.step stepped) start σ ls
    ⟨Owing.start_owing, start_linked, start_valid⟩ ran

/-- A surrogate that was polled at some time: it has closed, or is polled still,
or was last sent to no earlier. -/
structure Since (T : Int) (s : SurrId) (σ : Http) : Prop where
  clock : T ≤ σ.now
  there : s < σ.nextSurr
  kept : (σ.surrs s).closed = true ∨ (σ.surrs s).client ≠ none ∨ T ≤ (σ.surrs s).lastSend

theorem Since.step {T : Int} {l : Label} (since : Since T s σ) (sound : Sound σ)
    (stepped : σ.step env l = some τ) : Since T s τ := by
  have passes : Passes s l σ τ := step_passes sound.asks stepped
  have writes := step_writes sound.valid stepped
  have clock := since.clock.trans passes.now
  have fresh : Fresh s τ → T ≤ (τ.surrs s).lastSend := fun fresh => clock.trans_eq fresh.symm
  refine ⟨clock, (writes.sid since.there).2, ?_⟩
  rcases since.kept with gone | polled | sent
  · exact Or.inl (writes.closed since.there gone)
  · by_cases closes : l = .onCloseSurr s
    · subst closes
      have closed : τ.table.closed s = true := by
        rw [writes.2.2]
        exact Function.update_self _ _ _
      exact Or.inl closed
    · exact Or.inr ((passes.polled closes polled).imp_right fresh)
  · rcases passes.send with same | now
    · exact Or.inr (Or.inr (same ▸ sent))
    · exact Or.inr (Or.inr (fresh now))

/-- In every run, for every surrogate. If some socket polled it, and a heartbeat
closes it later, then by more than the configured timeout. And a step that takes
its poller away, other than its own close, leaves `last_send` at its time. -/
theorem polled_not_reaped (env : HttpEnv) (ls : List Label) (σ : Http)
    (ran : (system env).run start ls = some σ) (s : SurrId) (polled : (σ.surrs s).client ≠ none) :
    (∀ later τ υ, (system env).run σ later = some τ → τ.step env (.heartbeatSurr s) = some υ →
      (υ.surrs s).closing ≠ (τ.surrs s).closing → σ.now < τ.now - env.timeout * 1000) ∧
    ∀ l τ, σ.step env l = some τ → l ≠ .onCloseSurr s → (τ.surrs s).client = none →
      (τ.surrs s).lastSend = τ.now := by
  have sound := run_sound ran
  constructor
  · intro later τ υ ran' stepped closes
    obtain ⟨c, poller⟩ := Option.ne_none_iff_exists'.mp polled
    have now : Since σ.now s σ :=
      ⟨le_refl _, sound.linked.known.inside.1 poller, Or.inr (Or.inl polled)⟩
    obtain ⟨-, since⟩ := (system env).run_invariant (fun σ' => Sound σ' ∧ Since σ.now s σ')
      (fun _ _ _ inv stepped => ⟨inv.1.step stepped, inv.2.step inv.1 stepped⟩) σ τ later
      ⟨sound, now⟩ ran'
    cases step_cases stepped with
    | heartbeatSurr _ there open_ =>
      -- the heartbeat found the surrogate open, without a poller and late
      simp only [heartbeatSurr] at closes
      split at closes
      next late =>
        obtain ⟨idle, late⟩ := late
        rcases since.kept with gone | still | sent
        · rw [open_] at gone
          cases gone
        · exact absurd idle still
        · exact sent.trans_lt late
      next => exact absurd rfl closes
  · intro l τ stepped other gone
    have passes : Passes s l σ τ := step_passes sound.asks stepped
    exact (passes.polled other polled).resolve_left fun still => still gone

/-- A session is polled, with a timeout of a minute. -/
def minute : HttpEnv := { sampleEnv with timeout := 60000 }

def polls : List Label := [.opened, .header 0 (samplePost "0") true, .body 0 [] [], .tick 1000]

/-- Its poller gets a message, and no other follows. -/
def silence : List Label := [.act (.send 0 ⟨str "/a", [], 0, str "1"⟩), .tick 60000001]

theorem polled_not_reaped_silence :
    ∃ σ τ υ, (system minute).run start polls = some σ ∧ (system minute).run σ silence = some τ ∧
      τ.step minute (.heartbeatSurr 0) = some υ ∧ (υ.surrs 0).closing = some .heartattack ∧
      σ.now < τ.now - 60000 * 1000 ∧
      ∀ ω, σ.step minute (.act (.send 0 ⟨str "/a", [], 0, str "1"⟩)) = some ω →
        (ω.surrs 0).lastSend = ω.now := by
  have runs : ((system minute).run start (polls ++ silence ++ [.heartbeatSurr 0])).isSome := by
    decide
  obtain ⟨υ, ran⟩ := Option.isSome_iff_exists.mp runs
  obtain ⟨τ, before, last⟩ := ((system minute).run_append_iff start υ _ _).mp ran
  obtain ⟨σ, first, later⟩ := ((system minute).run_append_iff start τ _ _).mp before
  obtain ⟨_, stepped, ⟨⟩⟩ := ((system minute).run_cons_iff τ υ _ _).mp last
  have polled : ∀ σ ∈ (system minute).run start polls, (σ.surrs 0).client ≠ none := by decide
  have quiet : ∀ τ ∈ (system minute).run start (polls ++ silence),
      (τ.surrs 0).closing = none := by decide
  have reaped : ∀ υ ∈ (system minute).run start (polls ++ silence ++ [.heartbeatSurr 0]),
      (υ.surrs 0).closing = some .heartattack := by decide
  have taken : ∀ σ ∈ (system minute).run start polls,
      ∀ ω ∈ σ.step minute (.act (.send 0 ⟨str "/a", [], 0, str "1"⟩)),
        (ω.surrs 0).client = none := by decide
  obtain ⟨outlives, detached⟩ := polled_not_reaped minute polls σ first 0 (polled σ first)
  refine ⟨σ, τ, υ, first, later, stepped, reaped υ ran, ?_, ?_⟩
  · apply outlives silence τ υ later stepped
    rw [reaped υ ran, quiet τ before]
    exact Option.some_ne_none _
  · intro ω sends
    exact detached _ ω sends (by rintro ⟨⟩) (taken σ first ω sends)

end Http

end QuickIO
