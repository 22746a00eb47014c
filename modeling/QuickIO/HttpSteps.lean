import QuickIO.HttpLinks
import QuickIO.HttpSessions

/-!
# The steps as moves

Every function of `protocols_http.c` is a sequence of moves. A function may
answer the pollers there are, whatever else it may touch.
-/
namespace QuickIO

open Lib

namespace Http

/-- The pollers are among the sockets that may be answered. -/
def Covers (P : SockId → Prop) (σ : Http) : Prop := ∀ c, σ.Polled c → P c

variable {P : SockId → Prop} {σ τ : Http} {held left : List SockId}

theorem Covers.after (covers : Covers P σ) (moves : Moves P (σ, held) (τ, left)) :
    Covers P τ := by
  rintro c ⟨s, polls⟩
  rcases moves.frame.polled s c polls with before | mine
  · exact covers c ⟨s, before⟩
  · exact mine

namespace Moves

theorem log (τ : Http) (socks : τ.socks = σ.socks) (surrs : τ.surrs = σ.surrs)
    (nextSock : τ.nextSock = σ.nextSock) (nextSurr : τ.nextSurr = σ.nextSurr)
    (sent : τ.sent = σ.sent) (aborted : τ.aborted = σ.aborted)
    (clients : ∀ b sid s, τ.clients b sid = some s → σ.clients b sid = some s) :
    Moves P (σ, held) (τ, held) :=
  .single (.log τ socks surrs nextSock nextSurr sent aborted clients)

theorem keep (c : SockId) (f : Socket → Socket) (mine : P c)
    (request : (σ.socks c).SameRequest (f (σ.socks c)))
    (refs : (f (σ.socks c)).refs = (σ.socks c).refs) :
    Moves P (σ, held) (σ.setSock c f, held) :=
  .single (.keep c f mine request refs)

theorem surr (s : SurrId) (f : Surrogate → Surrogate)
    (client : (f (σ.surrs s)).client = (σ.surrs s).client)
    (refs : (f (σ.surrs s)).refs = (σ.surrs s).refs)
    (closed : (f (σ.surrs s)).closed = (σ.surrs s).closed)
    (closing : (σ.surrs s).closing ≠ none → (f (σ.surrs s)).closing ≠ none) :
    Moves P (σ, held) (σ.setSurr s f, held) :=
  .single (.surr s f client refs closed closing)

theorem closeSock (c : SockId) (reason : CloseReason) :
    Moves P (σ, held) (σ.closeSock c reason, held) :=
  .single (.closing c reason)

theorem closeSurr (s : SurrId) (reason : CloseReason) :
    Moves P (σ, held) (σ.closeSurr s reason, held) := by
  apply surr s _ rfl rfl rfl
  intro closing open_
  exact closing (Option.or_eq_none_iff.mp open_).1

theorem sendResponse (c : SockId) (resp : Response) (mine : P c) :
    Moves P (σ, held) ((σ.sendResponse (some c) resp).1, held) :=
  .single (.respond c resp mine)

theorem sendError (env : HttpEnv) (c : SockId) (status : HttpStatus) (mine : P c) :
    Moves P (σ, held) ((σ.sendError env (some c) status).1, held) :=
  sendResponse c _ mine

theorem unref (c : SockId) : Moves P (σ, c :: held) (σ.unrefSock c, held) := by
  have release : Move P (σ, c :: held) (σ.unrefSock c, (c :: held).erase c) :=
    .release c List.mem_cons_self
  rw [List.erase_cons_head] at release
  exact .single release

/-- A poller that was taken is answered, and its reference given back. -/
theorem dismiss (env : HttpEnv) (poller : Option SockId) (status : HttpStatus)
    (mine : ∀ c, poller = some c → P c) :
    Moves P (σ, poller.toList ++ held) (σ.dismiss env poller status, held) := by
  cases poller with
  | none => exact .refl
  | some c => exact (sendError env c status (mine c rfl)).trans (unref c)

theorem sendPoller (covers : Covers P σ) (s : SurrId) (resp : Response) :
    Moves P (σ, held) ((σ.sendPoller s resp).1, held) := by
  have take : Moves P (σ, held) (σ.setPoller s none, (σ.surrs s).client.toList ++ held) :=
    .single (.take s)
  cases polls : (σ.surrs s).client with
  | none =>
    rw [polls] at take
    simp only [Http.sendPoller, polls]
    exact take
  | some p =>
    rw [polls] at take
    simp only [Http.sendPoller, polls]
    exact (take.trans (sendResponse p resp (covers p ⟨s, polls⟩))).trans (unref p)

theorem surrReplace (covers : Covers P σ) (env : HttpEnv) (s : SurrId) (c : SockId) (mine : P c)
    (link : (σ.socks c).client = some s) (ready : (σ.socks c).inBody = false) :
    Moves P (σ, held) (σ.surrReplace env s c, held) := by
  have pollers : ∀ p, (σ.surrs s).client = some p → P p := fun p polls => covers p ⟨s, polls⟩
  have take : Moves P (σ, held) (σ.setPoller s none, (σ.surrs s).client.toList ++ held) :=
    .single (.take s)
  simp only [Http.surrReplace]
  split
  next => exact (take.trans (sendError env c .status403 mine)).trans (dismiss env _ _ pollers)
  next opened =>
    -- the old poller is taken before the new one is put in its place
    have both : σ.setPoller s (some c) = (σ.setPoller s none).setPoller s (some c) := by
      simp only [Http.setPoller, Owing.setSurr_setSurr]
    have vacant : ((σ.setPoller s none).surrs s).client = none := by simp [Http.setPoller]
    have still : ((σ.setPoller s none).surrs s).closing = none := by
      simp only [Bool.or_eq_true, not_or, Bool.not_eq_true, Option.isSome_eq_false_iff,
        Option.isNone_iff_eq_none] at opened
      simp [Http.setPoller, opened.1]
    have attach : Moves P (σ.setPoller s none, (σ.surrs s).client.toList ++ held)
        ((σ.setPoller s none).setPoller s (some c), (σ.surrs s).client.toList ++ held) :=
      .single (.attach s c mine vacant still link ready)
    rw [both]
    exact (take.trans attach).trans (dismiss env _ _ pollers)

theorem surrSend (covers : Covers P σ) (linked : Linked σ held) (env : HttpEnv) (s : SurrId)
    (c : SockId) (msgs : Bytes) (mine : P c) (route : Held c s σ) :
    Moves P (σ, held) (σ.surrSend env s c msgs, held) := by
  have first : Moves P (σ, held) ((σ.sendPoller s (buildResponse .status200 msgs)).1, held) :=
    sendPoller covers s _
  have kept := route.sendPoller s (buildResponse .status200 msgs)
  have owes := ((first.linked linked).tied.linked c s kept.link).1
  simp only [Http.surrSend]
  generalize σ.sendPoller s (buildResponse .status200 msgs) = result at first kept owes ⊢
  obtain ⟨τ, sent⟩ := result
  cases sent with
  | true => exact first.trans (surrReplace (covers.after first) env s c mine kept.link kept.ready)
  | false =>
    -- the new poller owes its response, so it is sent
    have result := sendResponse_sent τ c (buildResponse .status200 msgs)
    rw [owes] at result
    have answered : Moves P (τ, held)
        ((τ.sendResponse (some c) (buildResponse .status200 msgs)).1, held) :=
      sendResponse c _ mine
    refine (first.trans answered).trans (log _ rfl rfl rfl rfl rfl ?_ fun _ _ _ => id)
    simp only [Bool.false_eq_true, if_false, result, Bool.not_true, Bool.or_false]

theorem protocolHttpSend (covers : Covers P σ) (s : SurrId) (pframes : HttpFrames) :
    Moves P (σ, held) (σ.protocolHttpSend s pframes, held) := by
  have given : Moves P (σ, held)
      (σ.setSurr s fun r => { r with given := r.given ++ [pframes.raw] }, held) :=
    surr s _ rfl rfl rfl id
  have still := covers.after given
  simp only [Http.protocolHttpSend]
  generalize σ.setSurr s (fun r => { r with given := r.given ++ [pframes.raw] }) = τ
    at given still ⊢
  have tried : Moves P (τ, held)
      ((if (τ.surrs s).incoming then (τ, false) else τ.sendPoller s pframes.defn).1, held) := by
    split
    next => exact .refl
    next => exact sendPoller still s _
  generalize (if (τ.surrs s).incoming then (τ, false) else τ.sendPoller s pframes.defn) = result
    at tried ⊢
  split
  next => exact given.trans tried
  next => exact (given.trans tried).trans (surr s _ rfl rfl rfl id)

theorem act (covers : Covers P σ) (a : Act) : Moves P (σ, held) (σ.act a, held) := by
  cases a with
  | send s m =>
    simp only [Http.act]
    split
    next =>
      have touched : Moves P (σ, held)
          (σ.setSurr s fun r => { r with lastSend := σ.now }, held) :=
        surr s _ rfl rfl rfl id
      exact touched.trans (protocolHttpSend (covers.after touched) s _)
    next => exact .refl
  | closeSurr s reason =>
    simp only [Http.act]
    split
    next => exact closeSurr s reason
    next => exact .refl
  | closeSock c reason =>
    simp only [Http.act]
    split
    next => exact closeSock c reason
    next => exact .refl

theorem acts (covers : Covers P σ) (as : List Act) : Moves P (σ, held) (σ.acts as, held) := by
  induction as generalizing σ with
  | nil => exact .refl
  | cons a as ih =>
    have first : Moves P (σ, held) (σ.act a, held) := act covers a
    exact first.trans (ih (covers.after first))

theorem surrLines (covers : Covers P σ) (s : SurrId) (msgs : List Bytes) (turns : List Turn) :
    Moves P (σ, held) ((Http.surrLines s σ msgs turns).1, held) := by
  induction msgs generalizing σ turns with
  | nil => exact .refl
  | cons msg msgs ih =>
    have logged : Moves P (σ, held) ({ σ with handled := σ.handled ++ [(s, msg)] }, held) :=
      log _ rfl rfl rfl rfl rfl rfl fun _ _ _ => id
    simp only [Http.surrLines]
    split
    next => exact logged.trans (closeSurr s .invalidEventFormat)
    next =>
      have handled := logged.trans (acts (covers.after logged) (turns.headD {}).acts)
      exact handled.trans (ih (covers.after handled) turns.tail)

theorem surrFlush (covers : Covers P σ) (linked : Linked σ held) (env : HttpEnv) (s : SurrId)
    (c : SockId) (mine : P c) (route : Held c s σ) :
    Moves P (σ, held) (σ.surrFlush env s c, held) := by
  have flushed : Moves P (σ, held)
      ((σ.setSurr s fun r => { r with incoming := false }).setSurr s
        fun r => { r with wbuff := [] }, held) :=
    (surr s (fun r => { r with incoming := false }) rfl rfl rfl id).trans
      (surr s (fun r => { r with wbuff := [] }) rfl rfl rfl id)
  have still := (route.setSurr s (fun r => { r with incoming := false }) (Or.inr rfl)).setSurr s
    (fun r => { r with wbuff := [] }) (Or.inr rfl)
  simp only [Http.surrFlush]
  split
  next =>
    exact flushed.trans (surrReplace (covers.after flushed) env s c mine still.link still.ready)
  next =>
    exact flushed.trans (surrSend (covers.after flushed) (flushed.linked linked) env s c _ mine
      still)

theorem surrRoute (covers : Covers P σ) (linked : Linked σ held) (inv : Owing nothing σ)
    (env : HttpEnv) (s : SurrId) (c : SockId) (body : Bytes) (turns : List Turn) (mine : P c)
    (route : Held c s σ) : Moves P (σ, held) (σ.surrRoute env s c body turns, held) := by
  have began : Moves P (σ, held) (σ.setSurr s fun r => { r with incoming := true }, held) :=
    surr s _ rfl rfl rfl id
  have busy : Owing nothing (σ.setSurr s fun r => { r with incoming := true }) :=
    inv.setSurr s (inv.linked c s route.link).2.2 _
      ⟨rfl, rfl, fun never => Bool.noConfusion never, Or.inr rfl, id⟩
  have lines : Moves P (σ, held) _ :=
    began.trans (surrLines (covers.after began) s (bodyLines body) turns)
  have after := (busy.surrLines (route.setSurr s (fun r => { r with incoming := true })
    (Or.inr rfl)) (bodyLines body) turns).2
  simp only [Http.surrRoute]
  split
  next refused =>
    rw [refused] at lines
    exact lines.trans (sendError env c .status400 mine)
  next all =>
    rw [all] at lines after
    exact lines.trans (surrFlush (covers.after lines) (lines.linked linked) env s c mine after)

theorem doBody (covers : Covers P σ) (linked : Linked σ held) (inv : Owing nothing σ)
    (env : HttpEnv) (c : SockId) (body : Bytes) (turns : List Turn) (mine : P c)
    (ready : (σ.socks c).inBody = false) (alone : Detached c σ) :
    Moves P (σ, held) (σ.doBody env c body turns, held) := by
  simp only [Http.doBody]
  split_ifs
  · exact sendError env c .status501 mine
  · exact sendResponse c env.iframeSource mine
  · exact sendError env c .status405 mine
  · split
    next => exact sendError env c .status403 mine
    next s link => exact surrRoute covers linked inv env s c body turns mine ⟨link, ready, alone⟩

theorem getSurrogate (url : Bytes) (room : Bool) :
    Moves P (σ, held) ((σ.getSurrogate url room).1, held) := by
  rcases getSurrogate_cases σ url room with same | ⟨sid, created⟩
  · rw [same]
  · rw [created]
    exact .single (.created sid)

/-- A request on an open socket is linked to the surrogate it names. -/
theorem openRequest (inv : Owing nothing σ) (c : SockId)
    (req : HttpRequest) (bodyLen : Nat) (room : Bool) (mine : P c)
    (unlinked : (σ.socks c).client = none) (owes : (σ.socks c).inRequest = true)
    (open_ : (σ.socks c).Speaks) (inside : c < σ.nextSock) :
    Moves P (σ, held) (σ.openRequest c req bodyLen room, held) := by
  -- First the surrogate is found or made, and then the socket is linked to it.
  have found : Moves P (σ, held) ((σ.getSurrogate req.url room).1, held) :=
    getSurrogate req.url room
  obtain ⟨-, there, socks, -⟩ := inv.getSurrogate req.url room
  have known : (σ.getSurrogate req.url room).1.nextSock = σ.nextSock := by
    rcases getSurrogate_cases σ req.url room with same | ⟨sid, created⟩
    · rw [same]
    · rw [created]
      rfl
  simp only [Http.openRequest]
  generalize σ.getSurrogate req.url room = result at found there socks known ⊢
  obtain ⟨τ, surrogate⟩ := result
  dsimp only at found there socks known ⊢
  -- A request without a surrogate links nothing.
  have linking : Moves P (τ, held) (τ.link c surrogate, held) := by
    simp only [Http.link]
    split
    next => exact .refl
    next s =>
      split
      next => exact .refl
      next =>
        rw [← socks] at unlinked owes open_
        exact .single (.link c s mine unlinked owes open_.1 open_.2 (known ▸ inside) (there s rfl))
  exact (found.trans linking).trans (keep c _ mine ⟨rfl, rfl, rfl, rfl, rfl, rfl⟩ rfl)

theorem doHeadersHttp (inv : Owing nothing σ) (env : HttpEnv)
    (c : SockId) (req : HttpRequest) (room : Bool) (mine : P c)
    (unlinked : (σ.socks c).client = none) (owes : (σ.socks c).inRequest = true)
    (open_ : (σ.socks c).Speaks) (inside : c < σ.nextSock) :
    Moves P (σ, held) ((σ.doHeadersHttp env c req room).1, held) := by
  simp only [Http.doHeadersHttp]
  split
  next =>
    split
    next => exact .refl
    next => exact openRequest inv c req _ room mine unlinked owes open_ inside
  next =>
    split
    next => exact closeSock c .lengthRequired
    next => exact openRequest inv c req 0 room mine unlinked owes open_ inside

/-- A socket that nobody polls with and that has no link belongs to its own
requests alone. -/
theorem own (c : SockId) (f : Socket → Socket) (mine : P c) (alone : Detached c σ)
    (client : (f (σ.socks c)).client = (σ.socks c).client)
    (refs : (f (σ.socks c)).refs = (σ.socks c).refs)
    (closed : (f (σ.socks c)).closed = (σ.socks c).closed)
    (linked : (σ.socks c).client ≠ none → (f (σ.socks c)).inRequest = (σ.socks c).inRequest ∧
      (f (σ.socks c)).upgraded = (σ.socks c).upgraded) :
    Moves P (σ, held) (σ.setSock c f, held) := by
  refine .single (.own c f mine ?_ client refs closed linked)
  rintro ⟨s, polls⟩
  exact alone s polls

theorem doHeadersWebsocket (env : HttpEnv) (c : SockId) (req : HttpRequest)
    (connection : Option Bytes) (mine : P c) (unlinked : (σ.socks c).client = none)
    (alone : Detached c σ) :
    Moves P (σ, held) ((σ.doHeadersWebsocket env c req connection).1, held) := by
  simp only [Http.doHeadersWebsocket]
  split_ifs
  · exact sendError env c .status426 mine
  · exact sendError env c .status400 mine
  · exact own c (fun k => { k with upgraded := true, handshaked := false }) mine alone rfl rfl rfl
      fun link => absurd unlinked link

theorem routeHeader (inv : Owing nothing σ) (env : HttpEnv)
    (c : SockId) (req : HttpRequest) (room : Bool) (mine : P c) (routes : σ.Routes c) :
    Moves P (σ, held) (σ.routeHeader env c req room, held) := by
  obtain ⟨inside, open_⟩ := routes
  obtain ⟨openInv, free, waits, loose, stays⟩ := inv.requestBegin env c req open_
  -- the response before takes the socket off its surrogate
  have begun : Moves P (σ, held) (σ.routeBegin c, held) :=
    keep c _ mine ⟨rfl, rfl, rfl, rfl, rfl, rfl⟩ rfl
  have flush : Moves P (σ, held) (((σ.routeBegin c).sendError env (some c) .status200).1, held) :=
    begun.trans (sendError env c .status200 mine)
  have unlinked := (sendResponse_responded (σ.routeBegin c) c
    (env.statusResponses .status200)).answered.1
  have same := (sendResponse_released (σ.routeBegin c) c (env.statusResponses .status200)).rest.1
  have opened : Moves P (σ, held) (σ.requestBegin env c req, held) := by
    refine flush.trans (own c _ mine free rfl rfl rfl ?_)
    intro link
    exact absurd unlinked link
  have there : c < (σ.requestBegin env c req).nextSock := lt_of_lt_of_eq inside same.symm
  have routed : Moves P (σ.requestBegin env c req, held)
      ((σ.headerBlock env c req room).1, held) ∧ Detached c (σ.headerBlock env c req room).1 := by
    rcases headerBlock_cases env σ c req room with same | same | same <;> rw [same]
    · exact ⟨doHeadersWebsocket env c req _ mine loose free,
        (openInv.doHeadersWebsocket env c req _ stays.1 loose free).2⟩
    · exact ⟨doHeadersHttp openInv env c req room mine loose waits stays there,
        (openInv.doHeadersHttp env c req room waits stays free).2⟩
    · exact ⟨.refl, free⟩
  rw [routeHeader_eq]
  obtain ⟨after, alone⟩ := routed
  cases (σ.headerBlock env c req room).2 with
  | ok => exact (opened.trans after).trans (own c _ mine alone rfl rfl rfl fun _ => ⟨rfl, rfl⟩)
  | again => exact opened.trans after
  | fatal => exact (opened.trans after).trans (closeSock c .badRequest)

theorem routeBody (covers : Covers P σ) (linked : Linked σ held) (inv : Owing nothing σ)
    (env : HttpEnv) (c : SockId) (body : Bytes) (turns : List Turn) (mine : P c)
    (open_ : (σ.socks c).closed = false) (waits : (σ.socks c).inBody = true) :
    Moves P (σ, held) (σ.routeBody env c body turns, held) := by
  have alone := inv.detached_inBody c open_ waits
  have begun : Moves P (σ, held) (σ.routeBegin c, held) :=
    keep c _ mine ⟨rfl, rfl, rfl, rfl, rfl, rfl⟩ rfl
  have began : Owing nothing (σ.routeBegin c) := inv.keepSock c _ rfl rfl rfl rfl rfl
  have ready : Moves P (σ, held)
      ((σ.routeBegin c).setSock c fun k => { k with inBody := false }, held) :=
    begun.trans (own c _ mine alone rfl rfl rfl fun _ => ⟨rfl, rfl⟩)
  have readyInv : Owing nothing
      ((σ.routeBegin c).setSock c fun k => { k with inBody := false }) := by
    apply began.setSock
    · exact began.linked c
    · intro s polls
      exact absurd polls (alone s)
  simp only [Http.routeBody]
  exact (ready.trans (doBody (covers.after ready) (ready.linked linked) readyInv env c body turns
    mine (by simp) alone)).trans (keep c _ mine ⟨rfl, rfl, rfl, rfl, rfl, rfl⟩ rfl)

theorem heartbeatSock (env : HttpEnv) (c : SockId) (mine : P c) :
    Moves P (σ, held) (σ.heartbeatSock env c, held) := by
  simp only [Http.heartbeatSock]
  split
  next =>
    split
    next => exact closeSock c .heartattack
    next => exact .refl
  next =>
    split
    next => exact sendError env c .status200 mine
    next => exact .refl

theorem heartbeatSurr (env : HttpEnv) (s : SurrId) :
    Moves P (σ, held) (σ.heartbeatSurr env s, held) := by
  simp only [Http.heartbeatSurr]
  split
  next => exact closeSurr s .heartattack
  next => exact .refl

theorem onCloseSurr (covers : Covers P σ) (env : HttpEnv) (s : SurrId)
    (closing : (σ.surrs s).closing ≠ none) :
    Moves P (σ, held) (σ.onCloseSurr env s, held) := by
  have pollers : ∀ p, (σ.surrs s).client = some p → P p := fun p polls => covers p ⟨s, polls⟩
  -- The key leaves the table of clients, and no other entry changes.
  have removed : Moves P (σ, held) ({ σ with
      clients := Function.update σ.clients (σ.surrs s).tbl
        (Function.update (σ.clients (σ.surrs s).tbl) (σ.surrs s).sid none) }, held) := by
    refine log _ rfl rfl rfl rfl rfl rfl ?_
    intro b sid r entry
    dsimp only at entry
    rw [Function.update_apply] at entry
    split at entry
    next here =>
      rw [Function.update_apply] at entry
      split at entry
      next => cases entry
      next => rwa [here]
    next => exact entry
  simp only [Http.onCloseSurr]
  generalize same : ({ σ with
      clients := Function.update σ.clients (σ.surrs s).tbl
        (Function.update (σ.clients (σ.surrs s).tbl) (σ.surrs s).sid none) } : Http) = τ
    at removed ⊢
  have surrs : τ.surrs = σ.surrs := by rw [← same]
  rw [← surrs] at closing pollers ⊢
  -- The surrogate lets go of its poller, which is then dismissed.
  have retired : Moves P (τ, held)
      ((τ.setSurr s fun r => { r with closed := true }).setPoller s none,
        (τ.surrs s).client.toList ++ held) := by
    have both : (τ.setSurr s fun r => { r with closed := true }).setPoller s none =
        τ.setSurr s fun r => { r with closed := true, client := none } := by
      simp only [Http.setPoller, Owing.setSurr_setSurr]
    rw [both]
    exact .single (.retire s closing)
  exact (removed.trans retired).trans (dismiss env _ _ pollers)

theorem onCloseSock (env : HttpEnv) (c : SockId) (reason : CloseReason) (mine : P c) :
    Moves P (σ, held) (σ.onCloseSock env c reason, held) := by
  simp only [Http.onCloseSock]
  cases link : (σ.socks c).client with
  | none =>
    have left : Moves P (σ, held)
        (σ.setSock c fun k => { k with client := none, closed := true }, held) := by
      have same : (σ.setSock c fun k => { k with client := none, closed := true }) =
          σ.setSock c fun k => { k with closed := true } := by
        simp only [Http.setSock, ← link]
      rw [same]
      exact .single (.shut c link)
    cases closeStatus reason with
    | none => exact left
    | some status => exact left.trans (sendError env c status mine)
  | some s =>
    -- the socket's last response does not touch the surrogate, which might as well close first
    have closes : Moves P (σ, held) (σ.closeSurr s .httpDone, held) := closeSurr s .httpDone
    have leaves : ((σ.closeSurr s .httpDone).surrs s).closing ≠ none := by
      simp [Http.closeSurr]
    have left : Moves P (σ, held) (((σ.closeSurr s .httpDone).unrefSurr s).setSock c
        fun k => { k with client := none, closed := true }, held) :=
      closes.trans (.single (.unlink c s mine link leaves))
    cases closeStatus reason with
    | none => exact left
    | some status =>
      have told := left.trans (sendError env c status mine)
      have unlinked : ((σ.setSock c fun k =>
          { k with client := none, closed := true }).socks c).client = none := by simp
      have first := Owing.sendResponse_setSurr (σ := (σ.setSock c fun k =>
          { k with client := none, closed := true }).closeSurr s .httpDone) c
        (env.statusResponses status) s (fun r => { r with refs := r.refs - 1 }) unlinked
      have second := Owing.sendResponse_setSurr c (env.statusResponses status) s
        (fun r => { r with closing := r.closing.or (some .httpDone) }) unlinked
      have swap := first.trans (congrArg (fun τ => τ.unrefSurr s) second)
      exact (congrArg (fun τ => Moves P (σ, held) (τ, held)) swap).mp told

end Moves

/-- The socket a step is about. -/
def Label.sock : Label → Option SockId
  | .again c | .header c _ _ | .body c _ _ | .bodyOverflow c _ | .heartbeatSock c
  | .onCloseSock c => some c
  | _ => none

/-- The sockets a step can answer: its own while HTTP is its protocol, and the
pollers. -/
def Touched (σ : Http) (l : Label) (c : SockId) : Prop :=
  (l.sock = some c ∧ (σ.socks c).upgraded = false) ∨ σ.Polled c

/-- Every step is a sequence of moves, and holds no reference at its end. -/
theorem step_moves {env : HttpEnv} {l : Label} (inv : Owing nothing σ) (linked : Linked σ [])
    (stepped : σ.step env l = some τ) : Moves (σ.Touched l) (σ, []) (τ, []) := by
  have covers : Covers (σ.Touched l) σ := fun _ polls => Or.inr polls
  cases step_cases stepped with
  | tick usec => exact Moves.log _ rfl rfl rfl rfl rfl rfl fun _ _ _ => id
  | opened => exact .single .opened
  | again c routes =>
    exact Moves.keep c _ (Or.inl ⟨rfl, routes.2.2⟩) ⟨rfl, rfl, rfl, rfl, rfl, rfl⟩ rfl
  | header c req room routes ready done =>
    exact Moves.routeHeader inv env c req room (Or.inl ⟨rfl, routes.2.2⟩) routes
  | body c body turns routes waits whole =>
    exact Moves.routeBody covers linked inv env c body turns (Or.inl ⟨rfl, routes.2.2⟩)
      routes.2.1 waits
  | bodyOverflow c used routes waits beyond =>
    have begun : Moves (σ.Touched (.bodyOverflow c used)) (σ, []) (σ.routeBegin c, []) :=
      Moves.keep c _ (Or.inl ⟨rfl, routes.2.2⟩) ⟨rfl, rfl, rfl, rfl, rfl, rfl⟩ rfl
    exact begun.trans (Moves.closeSock c .unknownError)
  | act a => exact Moves.act covers a
  | heartbeatSock c routes shook => exact Moves.heartbeatSock env c (Or.inl ⟨rfl, routes.2.2⟩)
  | heartbeatSurr s there open_ => exact Moves.heartbeatSurr env s
  | leave c upgraded => exact .single (.shut c (inv.unlinked_of_upgraded upgraded))
  | onCloseSock c reason http closing =>
    exact Moves.onCloseSock env c reason (Or.inl ⟨rfl, http⟩)
  | onCloseSurr s open_ closing => exact Moves.onCloseSurr covers env s closing

theorem start_linked : Linked start [] := by
  refine ⟨⟨fun _ _ => rfl, fun _ _ => rfl, ?_⟩, ⟨?_, ?_, ?_⟩, ⟨fun _ => rfl, fun _ => rfl⟩⟩
  · intro b sid s entry
    cases entry
  · intro c s link
    cases link
  · intro s c polls
    cases polls
  · intro s gone
    cases gone

/-- Both invariants hold between the steps of every run. -/
theorem run_linked (env : HttpEnv) (ls : List Label) (σ : Http)
    (ran : (system env).run start ls = some σ) : Owing nothing σ ∧ Linked σ [] :=
  (system env).run_invariant (fun σ => Owing nothing σ ∧ Linked σ [])
    (fun _ _ _ before stepped => ⟨before.1.step stepped,
      (step_moves before.1 before.2 stepped).linked before.2⟩)
    start σ ls ⟨Owing.start_owing, start_linked⟩ ran

/-- In every run, between any two steps: a poller is linked back, owes its
response and has had its body routed, unless it has been closed and its
surrogate is closing; a link belongs to a request; a closed surrogate has no
poller; and references are as many as pointers. -/
theorem links_consistent (env : HttpEnv) (ls : List Label) (σ : Http)
    (ran : (system env).run start ls = some σ) :
    (∀ s c, (σ.surrs s).client = some c →
      ((σ.socks c).client = some s ∧ (σ.socks c).inRequest = true ∧
        (σ.socks c).inBody = false) ∨
      ((σ.surrs s).closing ≠ none ∧ (σ.socks c).closed = true)) ∧
    (∀ c s, (σ.socks c).client = some s → (σ.socks c).inRequest = true) ∧
    (∀ s, (σ.surrs s).closed = true → (σ.surrs s).client = none) ∧
    (∀ c, (σ.socks c).refs = {s | (σ.surrs s).client = some c}.ncard) ∧
    (∀ s, (σ.surrs s).refs = {c | (σ.socks c).client = some s}.ncard) := by
  obtain ⟨-, known, tied, balanced⟩ := run_linked env ls σ ran
  refine ⟨?_, ?_, ?_, ?_, ?_⟩
  · -- A poller points back, unless its surrogate is closing and the socket closed.
    intro s c polls
    obtain ⟨ready, -, -, back⟩ := tied.polled s c polls
    exact back.imp (fun link => ⟨link, (tied.linked c s link).1, ready⟩) id
  · exact fun c s link => (tied.linked c s link).1
  · intro s gone
    cases polls : (σ.surrs s).client with
    | none => rfl
    | some c =>
      have open_ := (tied.polled s c polls).2.2.1
      rw [gone] at open_
      cases open_
  · -- The counters are the sizes of the two pointer sets.
    intro c
    rw [balanced.socks c, pollers, pointersTo_eq_ncard σ.nextSurr _ c fun _ => known.inside.1]
    simp
  · intro s
    rw [balanced.surrs s, linkers, pointersTo_eq_ncard σ.nextSock _ s fun _ => known.inside.2]

/-- A socket polls, and is closed by its peer. -/
def hungUp : List Label := [
  .opened, .header 0 (samplePost "0") true, .body 0 [] [], .act (.closeSock 0 .hup),
  .onCloseSock 0]

theorem links_consistent_hungUp :
    ∃ σ, (system sampleEnv).run start hungUp = some σ ∧ (σ.socks 0).refs = 1 ∧
      (σ.socks 0).refs = {s | (σ.surrs s).client = some 0}.ncard := by
  have runs : ((system sampleEnv).run start hungUp).isSome := by decide
  obtain ⟨σ, ran⟩ := Option.isSome_iff_exists.mp runs
  have finished : ∀ σ ∈ (system sampleEnv).run start hungUp, (σ.socks 0).refs = 1 := by decide
  exact ⟨σ, ran, finished σ ran, (links_consistent sampleEnv hungUp σ ran).2.2.2.1 0⟩

/-- The surrogate of a session remembers a poller that has been closed, until
it is closed itself. -/
theorem closed_poller_remembered :
    ¬∀ (env : HttpEnv) (ls : List Label) (σ : Http), (system env).run start ls = some σ →
      ∀ s c, (σ.surrs s).client = some c → (σ.socks c).client = some s := by
  intro claim
  have runs : ((system sampleEnv).run start hungUp).isSome := by decide
  obtain ⟨σ, ran⟩ := Option.isSome_iff_exists.mp runs
  have finished : ∀ σ ∈ (system sampleEnv).run start hungUp,
      (σ.surrs 0).client = some 0 ∧ (σ.socks 0).client = none := by decide
  obtain ⟨polls, unlinked⟩ := finished σ ran
  have linked := claim sampleEnv hungUp σ ran 0 0 polls
  rw [unlinked] at linked
  cases linked

end Http

end QuickIO
