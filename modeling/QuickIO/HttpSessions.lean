import QuickIO.HttpResponses

/-!
# Messages of a session are conserved

What a session has been given is what its responses carried, followed by what
its surrogate still holds. The invariant behind it: a socket that polls is
linked back and waits, and while one polls nothing is held back.
-/
namespace QuickIO

open Lib

/-- The message bytes of a response: its body, unless that is a page. -/
def Response.messages (resp : Response) : Bytes := if resp.isIframe then [] else resp.body

/-- The socket is open and its protocol is HTTP. -/
def Socket.Speaks (k : Socket) : Prop := k.closed = false ∧ k.upgraded = false

/-- A later state of a surrogate that has the same messages: it may have lost
its poller and begun to close. -/
structure Surrogate.Later (r r' : Surrogate) : Prop where
  wbuff : r'.wbuff = r.wbuff
  given : r'.given = r.given
  incoming : r'.incoming = false → r.incoming = false
  client : r'.client = none ∨ r'.client = r.client
  closing : r'.closing = none → r.closing = none

/-- What a response carries for a session. -/
def Sent.carried (s : SurrId) (e : Sent) : Bytes :=
  if e.session = some s ∧ e.response.status = .status200 then e.response.messages else []

namespace Http

/-- The message bytes of all 200 responses that were sent for a session. -/
def sessionBytes (σ : Http) (s : SurrId) : Bytes := σ.sent.flatMap (Sent.carried s)

/-- The links between sockets and surrogates, and the account of every session
that is not closing; `owed` are messages on their way from the buffer into a
response. -/
structure Owing (owed : SurrId → Bytes) (σ : Http) : Prop where
  fresh : ∀ s, σ.nextSurr ≤ s → σ.surrs s = {}
  stored : ∀ b sid s, σ.clients b sid = some s → s < σ.nextSurr
  linked : ∀ c s, (σ.socks c).client = some s →
    (σ.socks c).inRequest = true ∧ (σ.socks c).Speaks ∧ s < σ.nextSurr
  polled : ∀ s c, (σ.surrs s).client = some c →
    ((σ.socks c).client = some s ∧ (σ.socks c).inBody = false) ∨
      ((σ.surrs s).closing ≠ none ∧ (σ.socks c).closed = true)
  conserved : ∀ s, (σ.surrs s).closing = none →
    σ.sessionBytes s ++ owed s ++ (σ.surrs s).wbuff = (σ.surrs s).given.flatten
  idle : ∀ s, (σ.surrs s).closing = none → (σ.surrs s).client ≠ none →
    (σ.surrs s).incoming = false → (σ.surrs s).wbuff = []

/-- Nothing is on its way. -/
def nothing : SurrId → Bytes := fun _ => []

def owedTo (s : SurrId) (msgs : Bytes) : SurrId → Bytes := Function.update nothing s msgs

theorem owedTo_self (s : SurrId) (msgs : Bytes) : owedTo s msgs s = msgs := by
  simp [owedTo]

theorem owedTo_other {r s : SurrId} (other : r ≠ s) (msgs : Bytes) : owedTo s msgs r = [] := by
  simp [owedTo, nothing, other]

/-- No surrogate remembers the socket as its poller. -/
def Detached (c : SockId) (σ : Http) : Prop := ∀ s, (σ.surrs s).client ≠ some c

namespace Owing

variable {owed : SurrId → Bytes} {σ : Http}

/-- The clock, the logs and the other counters do not matter. -/
theorem congr (inv : Owing owed σ) {τ : Http} (socks : τ.socks = σ.socks)
    (surrs : τ.surrs = σ.surrs) (nextSurr : τ.nextSurr = σ.nextSurr)
    (clients : τ.clients = σ.clients) (sent : τ.sent = σ.sent) : Owing owed τ := by
  cases σ
  cases τ
  dsimp only at socks surrs nextSurr clients sent
  subst socks surrs nextSurr clients sent
  exact ⟨inv.fresh, inv.stored, inv.linked, inv.polled, inv.conserved, inv.idle⟩

theorem setSock (inv : Owing owed σ) (c : SockId) (f : Socket → Socket)
    (linked : ∀ s, (f (σ.socks c)).client = some s → (f (σ.socks c)).inRequest = true ∧
      (f (σ.socks c)).Speaks ∧ s < σ.nextSurr)
    (polled : ∀ s, (σ.surrs s).client = some c →
      ((f (σ.socks c)).client = some s ∧ (f (σ.socks c)).inBody = false) ∨
        ((σ.surrs s).closing ≠ none ∧ (f (σ.socks c)).closed = true)) :
    Owing owed (σ.setSock c f) := by
  constructor
  · exact inv.fresh
  · exact inv.stored
  · -- who points to a session: `c` as asked for, the others as before
    intro d s link
    rw [socks_setSock] at link ⊢
    split at link
    next here =>
      rw [if_pos here]
      exact linked s link
    next here =>
      rw [if_neg here]
      exact inv.linked d s link
  · -- who polls: the sessions of `c` still point back
    intro s d polls
    rw [socks_setSock]
    split
    next here =>
      subst here
      exact polled s polls
    next => exact inv.polled s d polls
  · exact inv.conserved
  · exact inv.idle

/-- A change to a socket that leaves its request alone. -/
theorem keepSock (inv : Owing owed σ) (c : SockId) (f : Socket → Socket)
    (client : (f (σ.socks c)).client = (σ.socks c).client)
    (inRequest : (f (σ.socks c)).inRequest = (σ.socks c).inRequest)
    (inBody : (f (σ.socks c)).inBody = (σ.socks c).inBody)
    (closed : (f (σ.socks c)).closed = (σ.socks c).closed)
    (upgraded : (f (σ.socks c)).upgraded = (σ.socks c).upgraded) :
    Owing owed (σ.setSock c f) := by
  apply inv.setSock
  · intro s link
    rw [client] at link
    rw [inRequest, Socket.Speaks, closed, upgraded]
    exact inv.linked c s link
  · intro s polls
    rw [client, inBody, closed]
    exact inv.polled s c polls

theorem refSock (inv : Owing owed σ) (c : SockId) : Owing owed (σ.refSock c) :=
  inv.keepSock c _ rfl rfl rfl rfl rfl

theorem unrefSock (inv : Owing owed σ) (c : SockId) : Owing owed (σ.unrefSock c) :=
  inv.keepSock c _ rfl rfl rfl rfl rfl

theorem closeSock (inv : Owing owed σ) (c : SockId) (reason : CloseReason) :
    Owing owed (σ.closeSock c reason) :=
  inv.keepSock c _ rfl rfl rfl rfl rfl

/-- A change to one surrogate, with what it does to the account. -/
theorem account (inv : Owing owed σ) {owed' : SurrId → Bytes} (s : SurrId)
    (there : s < σ.nextSurr) (f : Surrogate → Surrogate)
    (elsewhere : ∀ r, r ≠ s → owed' r = owed r)
    (client : (f (σ.surrs s)).client = none ∨ (f (σ.surrs s)).client = (σ.surrs s).client)
    (closing : (f (σ.surrs s)).closing = none → (σ.surrs s).closing = none)
    (conserved : (σ.surrs s).closing = none →
      σ.sessionBytes s ++ owed' s ++ (f (σ.surrs s)).wbuff = (f (σ.surrs s)).given.flatten)
    (idle : (σ.surrs s).closing = none → (f (σ.surrs s)).client ≠ none →
      (f (σ.surrs s)).incoming = false → (f (σ.surrs s)).wbuff = []) :
    Owing owed' (σ.setSurr s f) := by
  constructor
  · -- `s` exists, so the surrogates to come are untouched
    intro r absent
    have other : r ≠ s := by
      rintro rfl
      exact absurd there (Nat.not_lt.mpr absent)
    rw [surrs_setSurr, if_neg other]
    exact inv.fresh r absent
  · exact inv.stored
  · exact inv.linked
  · -- `f` gives `s` no new poller
    intro r c polls
    rw [surrs_setSurr] at polls ⊢
    split at polls
    next here =>
      subst here
      rw [if_pos rfl]
      rcases client with gone | kept
      · rw [gone] at polls
        cases polls
      · rw [kept] at polls
        exact (inv.polled r c polls).imp id fun closes =>
          ⟨fun open_ => closes.1 (closing open_), closes.2⟩
    next here =>
      rw [if_neg here]
      exact inv.polled r c polls
  · -- the bytes of `s` add up by assumption, those of the others as before
    intro r open_
    rw [surrs_setSurr] at open_ ⊢
    split at open_
    next here =>
      subst here
      rw [if_pos rfl]
      exact conserved (closing open_)
    next here =>
      rw [if_neg here, elsewhere r here]
      exact inv.conserved r open_
  · intro r open_ polls quiet
    rw [surrs_setSurr] at open_ polls quiet ⊢
    split at open_
    next here =>
      subst here
      rw [if_pos rfl] at polls quiet ⊢
      exact idle (closing open_) polls quiet
    next here =>
      rw [if_neg here] at polls quiet ⊢
      exact inv.idle r open_ polls quiet

theorem setSurr (inv : Owing owed σ) (s : SurrId) (there : s < σ.nextSurr)
    (f : Surrogate → Surrogate) (later : Surrogate.Later (σ.surrs s) (f (σ.surrs s))) :
    Owing owed (σ.setSurr s f) := by
  apply inv.account s there f (fun _ _ => rfl) later.client later.closing
  · intro open_
    rw [later.wbuff, later.given]
    exact inv.conserved s open_
  · intro open_ polls quiet
    rw [later.wbuff]
    apply inv.idle s open_ _ (later.incoming quiet)
    rcases later.client with gone | kept
    · exact absurd gone polls
    · rwa [kept] at polls

theorem closeSurr (inv : Owing owed σ) (s : SurrId) (there : s < σ.nextSurr)
    (reason : CloseReason) : Owing owed (σ.closeSurr s reason) := by
  apply inv.setSurr s there
  constructor
  · rfl
  · rfl
  · exact id
  · exact Or.inr rfl
  · intro open_
    exact (Option.or_eq_none_iff.mp open_).1

theorem steal (inv : Owing owed σ) (s : SurrId) : Owing owed (σ.setPoller s none) := by
  by_cases there : s < σ.nextSurr
  · exact inv.setSurr s there (fun r => { r with client := none })
      ⟨rfl, rfl, id, Or.inl rfl, id⟩
  · -- a surrogate that does not exist has no poller to lose
    have blank := inv.fresh s (Nat.le_of_not_lt there)
    have same : σ.setPoller s none = σ := by
      simp only [Http.setPoller, Http.setSurr, blank]
      rw [← blank, Function.update_eq_self]
    rw [same]
    exact inv

/-- A response pays what it carries to the session its socket was linked to. -/
theorem respond (inv : Owing owed σ) {owed' : SurrId → Bytes} {τ : Http} {c : SockId}
    {resp : Response} (done : Responded σ τ c resp)
    (paid : ∀ s, (σ.surrs s).closing = none →
      (if (σ.socks c).client = some s ∧ resp.status = .status200 then resp.messages else []) ++
        owed' s = owed s) : Owing owed' τ := by
  obtain ⟨unlinked, -, inBody, closed, -, -⟩ := done.answered
  have poller : ∀ s d, (τ.surrs s).client = some d → (σ.surrs s).client = some d := by
    intro s d polls
    by_cases link : (σ.socks c).client = some s
    · rw [done.released s link] at polls
      split at polls
      · cases polls
      · exact polls
    · rwa [done.away s link] at polls
  constructor
  · intro s absent
    rw [done.nextSurr] at absent
    have unrelated : (σ.socks c).client ≠ some s := fun link =>
      absurd (inv.linked c s link).2.2 (Nat.not_lt.mpr absent)
    rw [done.away s unrelated]
    exact inv.fresh s absent
  · intro b sid s entry
    rw [done.clients] at entry
    rw [done.nextSurr]
    exact inv.stored b sid s entry
  · intro d s link
    rw [done.nextSurr]
    by_cases here : d = c
    · subst here
      rw [unlinked] at link
      cases link
    · rw [done.others d here] at link ⊢
      exact inv.linked d s link
  · intro s d polls
    rw [(done.session s).2.2.2]
    by_cases here : d = c
    · subst here
      rcases inv.polled s d (poller s d polls) with ⟨link, -⟩ | ⟨closing, gone⟩
      · -- the surrogate the socket was linked to has let go of it
        rw [done.released s link] at polls
        split at polls
        next => cases polls
        next other => exact absurd polls other
      · exact Or.inr ⟨closing, closed.trans gone⟩
    · rw [done.others d here]
      exact inv.polled s d (poller s d polls)
  · intro s open_
    obtain ⟨-, wbuff, given, closing⟩ := done.session s
    rw [closing] at open_
    rw [wbuff, given, ← inv.conserved s open_, ← paid s open_]
    simp only [sessionBytes, done.sent, List.flatMap_append, List.append_assoc]
    congr 1
    by_cases link : (σ.socks c).client = some s
    · rw [(inv.linked c s link).1]
      simp [Sent.carried, link]
    · cases (σ.socks c).inRequest with
      | false => simp [link]
      | true => simp [Sent.carried, link]
  · intro s open_ polls quiet
    obtain ⟨incoming, wbuff, -, closing⟩ := done.session s
    rw [closing] at open_
    rw [incoming] at quiet
    rw [wbuff]
    apply inv.idle s open_ _ quiet
    intro none
    obtain ⟨d, some⟩ := Option.ne_none_iff_exists'.mp polls
    rw [poller s d some] at none
    cases none

/-- A response without messages changes no account. -/
theorem respond_silent (inv : Owing owed σ) {τ : Http} {c : SockId} {resp : Response}
    (done : Responded σ τ c resp) (silent : resp.status = .status200 → resp.messages = []) :
    Owing owed τ := by
  apply inv.respond done
  intro s _
  split
  next both => rw [silent both.2, List.nil_append]
  next => rfl

theorem sendError (inv : Owing owed σ) (env : HttpEnv) (c : SockId) (status : HttpStatus) :
    Owing owed (σ.sendError env (some c) status).1 := by
  apply inv.respond_silent (sendResponse_responded σ c _)
  intro ok
  have plain : status = .status200 := ok
  subst plain
  rfl

theorem dismiss (inv : Owing owed σ) (env : HttpEnv) (poller : Option SockId)
    (status : HttpStatus) : Owing owed (σ.dismiss env poller status) := by
  cases poller with
  | none => exact inv
  | some c => exact (inv.sendError env c status).unrefSock c

/-- A socket that is linked to a surrogate begins to poll for it. -/
theorem attach (inv : Owing owed σ) (s : SurrId) (c : SockId)
    (link : (σ.socks c).client = some s) (ready : (σ.socks c).inBody = false)
    (empty : (σ.surrs s).wbuff = []) : Owing owed (σ.setPoller s (some c)) := by
  obtain ⟨-, -, there⟩ := inv.linked c s link
  apply Owing.refSock
  constructor
  · -- `s` exists, so it is none of the fresh ones
    intro r absent
    have other : r ≠ s := by
      rintro rfl
      exact absurd there (Nat.not_lt.mpr absent)
    rw [surrs_setSurr, if_neg other]
    exact inv.fresh r absent
  · exact inv.stored
  · exact inv.linked
  · -- `c` polls `s` and points to it
    intro r d polls
    rw [surrs_setSurr] at polls ⊢
    split at polls
    next here =>
      subst here
      obtain rfl : c = d := Option.some.inj polls
      exact Or.inl ⟨link, ready⟩
    next here =>
      rw [if_neg here]
      exact inv.polled r d polls
  · -- no bytes move
    intro r open_
    rw [surrs_setSurr] at open_ ⊢
    split at open_
    next here =>
      subst here
      rw [if_pos rfl]
      exact inv.conserved r open_
    next here =>
      rw [if_neg here]
      exact inv.conserved r open_
  · intro r open_ polls quiet
    rw [surrs_setSurr] at open_ polls quiet ⊢
    split at open_
    next here =>
      subst here
      rw [if_pos rfl]
      exact empty
    next here =>
      rw [if_neg here] at polls quiet ⊢
      exact inv.idle r open_ polls quiet

theorem surrReplace (inv : Owing owed σ) (env : HttpEnv) (s : SurrId) (c : SockId)
    (link : (σ.socks c).client = some s) (ready : (σ.socks c).inBody = false)
    (empty : (σ.surrs s).wbuff = []) : Owing owed (σ.surrReplace env s c) := by
  unfold Http.surrReplace
  dsimp only
  split
  next => exact ((inv.steal s).sendError env c .status403).dismiss env _ _
  next => exact (inv.attach s c link ready empty).dismiss env _ _

/-- Messages taken from a surrogate's buffer are paid by what its poller is
sent, if that could be sent. -/
theorem sendPoller (s : SurrId) (msgs : Bytes) (inv : Owing (owedTo s msgs) σ) :
    Owing (if (σ.sendPoller s (buildResponse .status200 msgs)).2 then nothing else owedTo s msgs)
      (σ.sendPoller s (buildResponse .status200 msgs)).1 := by
  have stolen := inv.steal s
  cases poller : (σ.surrs s).client with
  | none =>
    have result : σ.sendPoller s (buildResponse .status200 msgs) = (σ.setPoller s none, false) := by
      simp only [Http.sendPoller, poller]
    rw [result]
    exact stolen
  | some p =>
    have result : σ.sendPoller s (buildResponse .status200 msgs) =
        ((((σ.setPoller s none).sendResponse (some p) (buildResponse .status200 msgs)).1.unrefSock p),
          (σ.socks p).inRequest) := by
      simp only [Http.sendPoller, poller]
      rw [sendResponse_sent]
      rfl
    rw [result]
    apply Owing.unrefSock
    apply stolen.respond (sendResponse_responded _ p _)
    intro r open_
    have sameClosing : ((σ.setPoller s none).surrs r).closing = (σ.surrs r).closing := by
      simp only [Http.setPoller, surrs_setSurr]
      split
      next here => rw [here]
      next => rfl
    rw [sameClosing] at open_
    -- the poller is linked to `s`, unless `s` is closing and nothing is due to it
    have target : (σ.socks p).client = some r → r = s := by
      intro link
      rcases inv.polled s p poller with ⟨back, -⟩ | ⟨-, gone⟩
      · exact Option.some.inj (link.symm.trans back)
      · rw [(inv.linked p r link).2.1.1] at gone
        cases gone
    have back : r = s → (σ.socks p).client = some s := by
      rintro rfl
      exact ((inv.polled r p poller).resolve_right fun closing => closing.1 open_).1
    by_cases here : r = s
    · have link : ((σ.setPoller s none).socks p).client = some r := here ▸ back here
      have owes := (inv.linked p r link).1
      rw [if_pos ⟨link, rfl⟩, owes]
      subst here
      simp [nothing, owedTo, Response.messages, buildResponse]
    · have unrelated : ¬ (σ.socks p).client = some r := fun link => here (target link)
      have notOwed : owedTo s msgs r = [] := by simp [owedTo, nothing, here]
      have before : ¬ ((σ.setPoller s none).socks p).client = some r := unrelated
      rw [if_neg fun both => before both.1]
      split
      next => exact notOwed.symm
      next => rfl

end Owing

/-- The socket whose body is being routed: it is linked to the surrogate and
nobody's poller. -/
structure Held (c : SockId) (s : SurrId) (σ : Http) : Prop where
  link : (σ.socks c).client = some s
  ready : (σ.socks c).inBody = false
  detached : Detached c σ

namespace Held

variable {c : SockId} {s : SurrId} {σ : Http}

theorem setSurr (held : Held c s σ) (r : SurrId) (f : Surrogate → Surrogate)
    (client : (f (σ.surrs r)).client = none ∨ (f (σ.surrs r)).client = (σ.surrs r).client) :
    Held c s (σ.setSurr r f) := by
  refine ⟨held.link, held.ready, fun q polls => ?_⟩
  rw [surrs_setSurr] at polls
  split at polls
  next =>
    rcases client with gone | kept
    · rw [gone] at polls
      cases polls
    · rw [kept] at polls
      exact held.detached r polls
  next => exact held.detached q polls

theorem setSock (held : Held c s σ) (d : SockId) (f : Socket → Socket)
    (client : (f (σ.socks d)).client = (σ.socks d).client)
    (inBody : (f (σ.socks d)).inBody = (σ.socks d).inBody) : Held c s (σ.setSock d f) := by
  refine ⟨?_, ?_, held.detached⟩
  · rw [socks_setSock]
    split
    next here =>
      rw [client, ← here]
      exact held.link
    next => exact held.link
  · rw [socks_setSock]
    split
    next here =>
      rw [inBody, ← here]
      exact held.ready
    next => exact held.ready

theorem closeSurr (held : Held c s σ) (r : SurrId) (reason : CloseReason) :
    Held c s (σ.closeSurr r reason) :=
  held.setSurr r _ (Or.inr rfl)

/-- A response to some surrogate's poller is not one to this socket. -/
theorem sendPoller (held : Held c s σ) (r : SurrId) (resp : Response) :
    Held c s (σ.sendPoller r resp).1 := by
  have stolen : Held c s (σ.setPoller r none) :=
    held.setSurr r (fun q => { q with client := none }) (Or.inl rfl)
  cases poller : (σ.surrs r).client with
  | none => simpa only [Http.sendPoller, poller] using stolen
  | some p =>
    -- `c` is not the poller that is answered, since nobody polls through it
    have other : c ≠ p := by
      rintro rfl
      exact held.detached r poller
    have done := sendResponse_responded (σ.setPoller r none) p resp
    simp only [Http.sendPoller, poller]
    apply Held.setSock
    · refine ⟨?_, ?_, ?_⟩
      · rw [done.others c other]
        exact stolen.link
      · rw [done.others c other]
        exact stolen.ready
      · intro q polls
        -- the session of the poller loses it, the others keep theirs
        by_cases link : ((σ.setPoller r none).socks p).client = some q
        · rw [done.released q link] at polls
          split at polls
          next => cases polls
          next => exact stolen.detached q polls
        · rw [done.away q link] at polls
          exact stolen.detached q polls
    · rfl
    · rfl

theorem congr (held : Held c s σ) {τ : Http} (socks : τ.socks = σ.socks)
    (surrs : τ.surrs = σ.surrs) : Held c s τ := by
  obtain ⟨link, ready, detached⟩ := held
  rw [← socks] at link ready
  refine ⟨link, ready, fun r polls => ?_⟩
  rw [surrs] at polls
  exact detached r polls

theorem protocolHttpSend (held : Held c s σ) (r : SurrId) (pframes : HttpFrames) :
    Held c s (σ.protocolHttpSend r pframes) := by
  have given := held.setSurr r (fun q => { q with given := q.given ++ [pframes.raw] })
    (Or.inr rfl)
  unfold Http.protocolHttpSend
  dsimp only
  generalize σ.setSurr r (fun q => { q with given := q.given ++ [pframes.raw] }) = τ at given ⊢
  have tried : Held c s
      (if (τ.surrs r).incoming then (τ, false) else τ.sendPoller r pframes.defn).1 := by
    split
    next => exact given
    next => exact given.sendPoller r pframes.defn
  generalize (if (τ.surrs r).incoming then (τ, false) else τ.sendPoller r pframes.defn) = result
    at tried ⊢
  split
  next => exact tried
  next => exact tried.setSurr r _ (Or.inr rfl)

theorem act (held : Held c s σ) (a : Act) : Held c s (σ.act a) := by
  cases a with
  | send r m =>
    unfold Http.act
    dsimp only
    split
    next => exact (held.setSurr r _ (Or.inr rfl)).protocolHttpSend r _
    next => exact held
  | closeSurr r reason =>
    unfold Http.act
    dsimp only
    split
    next => exact held.setSurr r _ (Or.inr rfl)
    next => exact held
  | closeSock d reason =>
    unfold Http.act
    dsimp only
    split
    next => exact held.setSock d _ rfl rfl
    next => exact held

end Held

/-- What a poller is sent changes neither buffers nor what closes. -/
theorem sendPoller_session (σ : Http) (s r : SurrId) (resp : Response) :
    Surrogate.SameSession (σ.surrs r) ((σ.sendPoller s resp).1.surrs r) := by
  have stolen : Surrogate.SameSession (σ.surrs r) ((σ.setPoller s none).surrs r) := by
    simp only [Http.setPoller, surrs_setSurr]
    split
    next here =>
      subst here
      exact ⟨rfl, rfl, rfl, rfl⟩
    next => exact ⟨rfl, rfl, rfl, rfl⟩
  cases poller : (σ.surrs s).client with
  | none => simpa only [Http.sendPoller, poller] using stolen
  | some p =>
    have done := (sendResponse_responded (σ.setPoller s none) p resp).session r
    obtain ⟨h1, h2, h3, h4⟩ := stolen
    obtain ⟨g1, g2, g3, g4⟩ := done
    simp only [Http.sendPoller, poller]
    exact ⟨g1.trans h1, g2.trans h2, g3.trans h3, g4.trans h4⟩

theorem sendPoller_nextSurr (σ : Http) (s : SurrId) (resp : Response) :
    (σ.sendPoller s resp).1.nextSurr = σ.nextSurr := by
  unfold Http.sendPoller
  dsimp only
  split
  next => rfl
  next p _ => exact (sendResponse_responded (σ.setPoller s none) p resp).nextSurr

namespace Owing

variable {σ : Http}

/-- Messages on their way are sent to the old poller, or else to the new one. -/
theorem surrSend (env : HttpEnv) (s : SurrId) (c : SockId) (msgs : Bytes)
    (inv : Owing (owedTo s msgs) σ) (held : Held c s σ) (empty : (σ.surrs s).wbuff = []) :
    Owing nothing (σ.surrSend env s c msgs) := by
  have after := inv.sendPoller
  have kept := held.sendPoller s (buildResponse .status200 msgs)
  have still := (sendPoller_session σ s s (buildResponse .status200 msgs)).2.1
  unfold Http.surrSend
  dsimp only
  generalize σ.sendPoller s (buildResponse .status200 msgs) = result at after kept still ⊢
  obtain ⟨τ, sent⟩ := result
  dsimp only at after kept still ⊢
  cases sent with
  -- the old poller took the bytes, and `c` waits in its place
  | true => exact after.surrReplace env s c kept.link kept.ready (still.trans empty)
  | false =>
    -- nobody waited: `c` is answered with the bytes itself
    have paid : Owing nothing (τ.sendResponse (some c) (buildResponse .status200 msgs)).1 := by
      apply after.respond (sendResponse_responded τ c _)
      intro r _
      rw [kept.link]
      by_cases here : s = r
      · subst here
        simp [nothing, owedTo, Response.messages, buildResponse]
      · have other : r ≠ s := fun same => here same.symm
        simp [nothing, owedTo, here, other]
    exact paid.congr rfl rfl rfl rfl rfl

/-- A message that is only kept: nobody polls, or the surrogate is busy. -/
theorem keep (inv : Owing nothing σ) (s : SurrId) (there : s < σ.nextSurr) (raw : Bytes)
    (f : Surrogate → Surrogate) (given : (f (σ.surrs s)).given = (σ.surrs s).given ++ [raw])
    (wbuff : (f (σ.surrs s)).wbuff = (σ.surrs s).wbuff ++ raw)
    (closing : (f (σ.surrs s)).closing = (σ.surrs s).closing)
    (client : (f (σ.surrs s)).client = none ∨ (f (σ.surrs s)).client = (σ.surrs s).client)
    (kept : (f (σ.surrs s)).client = none ∨ (f (σ.surrs s)).incoming = true) :
    Owing nothing (σ.setSurr s f) := by
  apply inv.account s there f (fun _ _ => rfl) client (fun open_ => closing ▸ open_)
  · intro open_
    rw [wbuff, given, List.flatten_append, ← inv.conserved s open_]
    simp [nothing]
  · intro _ polls quiet
    rcases kept with none | busy
    · exact absurd none polls
    · rw [quiet] at busy
      cases busy

theorem setSurr_setSurr (σ : Http) (s : SurrId) (f g : Surrogate → Surrogate) :
    (σ.setSurr s f).setSurr s g = σ.setSurr s fun r => g (f r) := by
  simp only [Http.setSurr, Function.update_self, Function.update_idem]

theorem sendPoller_client (σ : Http) (s : SurrId) (resp : Response) :
    ((σ.sendPoller s resp).1.surrs s).client = none := by
  have stolen : ((σ.setPoller s none).surrs s).client = none := by simp [Http.setPoller]
  cases poller : (σ.surrs s).client with
  | none => simpa only [Http.sendPoller, poller] using stolen
  | some p =>
    have done := sendResponse_responded (σ.setPoller s none) p resp
    simp only [Http.sendPoller, poller]
    by_cases link : ((σ.setPoller s none).socks p).client = some s
    · have after := done.released s link
      rw [stolen] at after
      simpa [Http.unrefSock] using after
    · have after := done.away s link
      simpa [Http.unrefSock, after] using stolen

/-- A message is written on the waiting poller, or kept behind those that are
kept already. -/
theorem protocolHttpSend (inv : Owing nothing σ) (s : SurrId) (there : s < σ.nextSurr)
    (m : Message) : Owing nothing (σ.protocolHttpSend s (protocolHttpFrame m)) := by
  have defn : (protocolHttpFrame m).defn = buildResponse .status200 (protocolHttpFrame m).raw := rfl
  unfold Http.protocolHttpSend
  rw [defn]
  dsimp only
  generalize (protocolHttpFrame m).raw = raw
  cases busy : (σ.surrs s).incoming with
  | true =>
    have still : ((σ.setSurr s fun r => { r with given := r.given ++ [raw] }).surrs s).incoming =
        true := by simp [busy]
    rw [if_pos still, if_neg Bool.false_ne_true, setSurr_setSurr]
    exact inv.keep s there raw _ rfl rfl rfl (Or.inr rfl) (Or.inr busy)
  | false =>
    have still : ¬ ((σ.setSurr s fun r => { r with given := r.given ++ [raw] }).surrs s).incoming =
        true := by simp [busy]
    rw [if_neg still]
    cases poller : (σ.surrs s).client with
    | none =>
      have result : (σ.setSurr s fun r => { r with given := r.given ++ [raw] }).sendPoller s
          (buildResponse .status200 raw) =
          (σ.setSurr s fun r => { r with given := r.given ++ [raw], client := none }, false) := by
        simp only [Http.sendPoller, surrs_setSurr, if_true, poller, Http.setPoller, setSurr_setSurr]
      rw [result, if_neg Bool.false_ne_true, setSurr_setSurr]
      exact inv.keep s there raw _ rfl rfl rfl (Or.inl rfl) (Or.inl rfl)
    | some p =>
      -- somebody polls, so nothing was kept and the message is next
      have empty : (σ.surrs s).closing = none → (σ.surrs s).wbuff = [] := fun open_ =>
        inv.idle s open_ (by simp [poller]) busy
      have promised : Owing (owedTo s raw)
          (σ.setSurr s fun r => { r with given := r.given ++ [raw] }) := by
        apply inv.account s there _ (fun r other => owedTo_other other raw) (Or.inr rfl) id
        · intro open_
          dsimp only
          rw [List.flatten_append, ← inv.conserved s open_, owedTo_self, empty open_]
          simp [nothing]
        · intro open_ _ _
          exact empty open_
      have after := promised.sendPoller
      have session := sendPoller_session (σ.setSurr s fun r => { r with given := r.given ++ [raw] })
        s s (buildResponse .status200 raw)
      have lost := sendPoller_client (σ.setSurr s fun r => { r with given := r.given ++ [raw] })
        s (buildResponse .status200 raw)
      have tables := sendPoller_nextSurr (σ.setSurr s fun r => { r with given := r.given ++ [raw] })
        s (buildResponse .status200 raw)
      rw [surrs_setSurr, if_pos rfl] at session
      generalize (σ.setSurr s fun r => { r with given := r.given ++ [raw] }).sendPoller s
        (buildResponse .status200 raw) = result at after session lost tables ⊢
      obtain ⟨τ, sent⟩ := result
      cases sent with
      | true => exact after
      | false =>
        -- the poller was through with its request: the message is kept after all
        obtain ⟨-, wbuff, -, closing⟩ := session
        dsimp only at after wbuff closing lost tables ⊢
        rw [if_neg Bool.false_ne_true]
        apply after.account s (tables ▸ there) _ (fun r other => (owedTo_other other raw).symm)
          (Or.inr rfl) id
        · intro open_
          have before := after.conserved s open_
          rw [if_neg Bool.false_ne_true, owedTo_self] at before
          rw [closing] at open_
          rw [wbuff, empty open_] at before ⊢
          simpa [nothing] using before
        · intro _ polls _
          exact absurd lost polls

theorem act (inv : Owing nothing σ) (a : Act) : Owing nothing (σ.act a) := by
  cases a with
  | send s m =>
    unfold Http.act
    dsimp only
    -- only a surrogate that exists can be sent to
    split
    next there =>
      have touched := inv.setSurr s there (fun r => { r with lastSend := σ.now })
        ⟨rfl, rfl, id, Or.inr rfl, id⟩
      exact touched.protocolHttpSend s there m
    next => exact inv
  | closeSurr s reason =>
    unfold Http.act
    dsimp only
    split
    next there => exact inv.closeSurr s there reason
    next => exact inv
  | closeSock c reason =>
    unfold Http.act
    dsimp only
    split
    next => exact inv.closeSock c reason
    next => exact inv

/-- What the handlers of a body do leaves the socket it came from alone. -/
theorem acts (inv : Owing nothing σ) {c : SockId} {s : SurrId} (held : Held c s σ)
    (as : List Act) : Owing nothing (σ.acts as) ∧ Held c s (σ.acts as) := by
  induction as generalizing σ with
  | nil => exact ⟨inv, held⟩
  | cons a as ih => exact ih (inv.act a) (held.act a)

theorem surrLines (inv : Owing nothing σ) {c : SockId} {s : SurrId} (held : Held c s σ)
    (msgs : List Bytes) (turns : List Turn) :
    Owing nothing (Http.surrLines s σ msgs turns).1 ∧
      Held c s (Http.surrLines s σ msgs turns).1 := by
  induction msgs generalizing σ turns with
  | nil => exact ⟨inv, held⟩
  | cons msg msgs ih =>
    have logged : Owing nothing { σ with handled := σ.handled ++ [(s, msg)] } :=
      inv.congr rfl rfl rfl rfl rfl
    have heldLogged : Held c s { σ with handled := σ.handled ++ [(s, msg)] } :=
      held.congr rfl rfl
    simp only [Http.surrLines]
    split
    next =>
      have there := (logged.linked c s heldLogged.link).2.2
      exact ⟨logged.closeSurr s there _, heldLogged.closeSurr s _⟩
    next =>
      obtain ⟨after, heldAfter⟩ := logged.acts heldLogged (turns.headD {}).acts
      exact ih after heldAfter turns.tail

/-- The buffer is taken: what was in it is owed to the session. -/
theorem surrFlush (inv : Owing nothing σ) (env : HttpEnv) {c : SockId} {s : SurrId}
    (held : Held c s σ) : Owing nothing (σ.surrFlush env s c) := by
  have there := (inv.linked c s held.link).2.2
  -- what leaves the buffer is owed until it is sent
  have taken : Owing (owedTo s (σ.surrs s).wbuff)
      (σ.setSurr s fun r => { r with incoming := false, wbuff := [] }) := by
    apply inv.account s there _ (fun r other => owedTo_other other _) (Or.inr rfl) id
    · intro open_
      rw [owedTo_self, ← inv.conserved s open_]
      simp [nothing]
    · intro _ _ _
      rfl
  have heldTaken : Held c s (σ.setSurr s fun r => { r with incoming := false, wbuff := [] }) :=
    held.setSurr s _ (Or.inr rfl)
  unfold Http.surrFlush
  dsimp only
  rw [setSurr_setSurr]
  simp only [surrs_setSurr, if_true]
  split
  -- nothing to flush: nothing is owed
  next empty =>
    have nobody : owedTo s (σ.surrs s).wbuff = nothing := by
      rw [empty]
      exact Function.update_eq_self s nothing
    rw [nobody] at taken
    exact taken.surrReplace env s c heldTaken.link heldTaken.ready (by simp)
  next => exact taken.surrSend env s c _ heldTaken (by simp)

theorem surrRoute (inv : Owing nothing σ) (env : HttpEnv) {c : SockId} {s : SurrId}
    (held : Held c s σ) (body : Bytes) (turns : List Turn) :
    Owing nothing (σ.surrRoute env s c body turns) := by
  have there := (inv.linked c s held.link).2.2
  have began : Owing nothing (σ.setSurr s fun r => { r with incoming := true }) := by
    apply inv.setSurr s there
    exact ⟨rfl, rfl, fun never => Bool.noConfusion never, Or.inr rfl, id⟩
  have heldBegan : Held c s (σ.setSurr s fun r => { r with incoming := true }) :=
    held.setSurr s _ (Or.inr rfl)
  obtain ⟨taken, heldTaken⟩ := began.surrLines heldBegan (bodyLines body) turns
  unfold Http.surrRoute
  dsimp only
  split
  next refused =>
    rw [refused] at taken
    exact taken.sendError env c .status400
  next all =>
    rw [all] at taken heldTaken
    exact taken.surrFlush env heldTaken

theorem doBody (inv : Owing nothing σ) (env : HttpEnv) (c : SockId) (body : Bytes)
    (turns : List Turn) (ready : (σ.socks c).inBody = false) (detached : Detached c σ) :
    Owing nothing (σ.doBody env c body turns) := by
  unfold Http.doBody
  split_ifs
  · exact inv.sendError env c .status501
  · exact inv.respond_silent (sendResponse_responded σ c _) fun _ => rfl
  · exact inv.sendError env c .status405
  · split
    next => exact inv.sendError env c .status403
    next s link => exact inv.surrRoute env ⟨link, ready, detached⟩ body turns

/-- While a body is waited for, nobody has the socket as its poller. -/
theorem detached_inBody {owed : SurrId → Bytes} (inv : Owing owed σ) (c : SockId)
    (open_ : (σ.socks c).closed = false) (waits : (σ.socks c).inBody = true) :
    Detached c σ := by
  intro s polls
  rcases inv.polled s c polls with ⟨-, ready⟩ | ⟨-, gone⟩
  · rw [waits] at ready
    cases ready
  · rw [open_] at gone
    cases gone

/-- After a response, nobody has the socket as its poller. -/
theorem detached_responded {owed : SurrId → Bytes} (inv : Owing owed σ) {τ : Http} {c : SockId}
    {resp : Response} (done : Responded σ τ c resp) (open_ : (σ.socks c).closed = false) :
    Detached c τ := by
  intro s polls
  by_cases link : (σ.socks c).client = some s
  · rw [done.released s link] at polls
    split at polls
    next => cases polls
    next other => exact other polls
  · rw [done.away s link] at polls
    rcases inv.polled s c polls with ⟨back, -⟩ | ⟨-, gone⟩
    · exact link back
    · rw [open_] at gone
      cases gone

theorem routeBody (inv : Owing nothing σ) (env : HttpEnv) (c : SockId) (body : Bytes)
    (turns : List Turn) (open_ : (σ.socks c).closed = false)
    (waits : (σ.socks c).inBody = true) : Owing nothing (σ.routeBody env c body turns) := by
  have detached := inv.detached_inBody c open_ waits
  have began : Owing nothing (σ.routeBegin c) := inv.keepSock c _ rfl rfl rfl rfl rfl
  have heldBegan : Detached c (σ.routeBegin c) := detached
  have ready : Owing nothing ((σ.routeBegin c).setSock c fun k => { k with inBody := false }) := by
    apply began.setSock
    · exact began.linked c
    · intro s polls
      exact absurd polls (heldBegan s)
  unfold Http.routeBody
  apply Owing.keepSock
  · exact ready.doBody env c body turns (by simp) heldBegan
  · rfl
  · rfl
  · rfl
  · rfl
  · rfl

theorem sendError_detached {owed : SurrId → Bytes} (inv : Owing owed σ) (env : HttpEnv)
    (c : SockId) (status : HttpStatus) (open_ : (σ.socks c).closed = false) :
    Detached c (σ.sendError env (some c) status).1 :=
  inv.detached_responded (sendResponse_responded σ c _) open_

/-- A session that is created has no messages and no sockets. -/
theorem surrNew (inv : Owing nothing σ) (sid : Nat) : Owing nothing (σ.surrNew sid) := by
  have blank := inv.fresh σ.nextSurr (Nat.le_refl _)
  -- a surrogate that did not exist has heard nothing
  have unheard : σ.sessionBytes σ.nextSurr = [] := by
    have account := inv.conserved σ.nextSurr (by rw [blank])
    rw [blank] at account
    simpa [nothing] using account
  constructor
  · intro s absent
    rw [surrs_surrNew σ sid s (Nat.ne_of_gt absent)]
    exact inv.fresh s (Nat.le_of_succ_le absent)
  · -- the new entry of the table is the new surrogate
    intro b k s entry
    apply Nat.lt_succ_iff_lt_or_eq.mpr
    simp only [Http.surrNew] at entry
    rw [Function.update_apply] at entry
    split at entry
    next =>
      rw [Function.update_apply] at entry
      split at entry
      next => exact Or.inr (Option.some.inj entry).symm
      next => exact Or.inl (inv.stored _ k s entry)
    next => exact Or.inl (inv.stored b k s entry)
  · intro c s link
    obtain ⟨inRequest, closed, there⟩ := inv.linked c s link
    exact ⟨inRequest, closed, Nat.lt_succ_of_lt there⟩
  · -- nobody polls a new session
    intro s c polls
    by_cases new : s = σ.nextSurr
    · rw [new, surrs_surrNew_self] at polls
      cases polls
    · rw [surrs_surrNew σ sid s new] at polls ⊢
      exact inv.polled s c polls
  · -- it has been given no bytes and holds none
    intro s open_
    by_cases new : s = σ.nextSurr
    · rw [new, surrs_surrNew_self]
      show σ.sessionBytes σ.nextSurr ++ nothing σ.nextSurr ++ [] = [].flatten
      rw [unheard]
      rfl
    · rw [surrs_surrNew σ sid s new] at open_ ⊢
      exact inv.conserved s open_
  · intro s open_ polls quiet
    by_cases new : s = σ.nextSurr
    · rw [new, surrs_surrNew_self]
    · rw [surrs_surrNew σ sid s new] at open_ polls quiet ⊢
      exact inv.idle s open_ polls quiet

theorem detached_surrNew (sid : Nat) {c : SockId} (detached : Detached c σ) :
    Detached c (σ.surrNew sid) := by
  intro s polls
  by_cases new : s = σ.nextSurr
  · rw [new, surrs_surrNew_self] at polls
    cases polls
  · rw [surrs_surrNew σ sid s new] at polls
    exact detached s polls

theorem surrFind (inv : Owing nothing σ) (sid : Nat) (orCreate room : Bool) :
    Owing nothing (σ.surrFind sid orCreate room).1 ∧
      (∀ s, (σ.surrFind sid orCreate room).2 = some s →
        s < (σ.surrFind sid orCreate room).1.nextSurr) ∧
      (σ.surrFind sid orCreate room).1.socks = σ.socks ∧
      ∀ c, Detached c σ → Detached c (σ.surrFind sid orCreate room).1 := by
  unfold Http.surrFind
  split
  next s found =>
    refine ⟨inv, ?_, rfl, fun _ detached => detached⟩
    rintro r ⟨⟩
    exact inv.stored _ _ s found
  next =>
    split
    next =>
      refine ⟨inv.surrNew sid, ?_, rfl, fun _ detached => detached_surrNew sid detached⟩
      rintro s ⟨⟩
      exact Nat.lt_succ_self _
    next =>
      refine ⟨inv, ?_, rfl, fun _ detached => detached⟩
      rintro s ⟨⟩

theorem getSurrogate (inv : Owing nothing σ) (url : Bytes) (room : Bool) :
    Owing nothing (σ.getSurrogate url room).1 ∧
      (∀ s, (σ.getSurrogate url room).2 = some s → s < (σ.getSurrogate url room).1.nextSurr) ∧
      (σ.getSurrogate url room).1.socks = σ.socks ∧
      ∀ c, Detached c σ → Detached c (σ.getSurrogate url room).1 := by
  unfold Http.getSurrogate
  split
  next =>
    refine ⟨inv, ?_, rfl, fun _ detached => detached⟩
    rintro s ⟨⟩
  next sid _ => exact inv.surrFind sid _ room

/-- A socket in a request is linked to a surrogate that exists. -/
theorem link (inv : Owing nothing σ) (c : SockId) (surrogate : Option SurrId)
    (there : ∀ s, surrogate = some s → s < σ.nextSurr) (inRequest : (σ.socks c).inRequest = true)
    (open_ : (σ.socks c).Speaks) (detached : Detached c σ) :
    Owing nothing (σ.link c surrogate) ∧ Detached c (σ.link c surrogate) := by
  unfold Http.link
  split
  next => exact ⟨inv, detached⟩
  next s =>
    split
    -- a session that is closing is not linked to
    next => exact ⟨inv, detached⟩
    next =>
      have linked : Owing nothing (σ.setSock c fun k => { k with client := some s }) := by
        apply inv.setSock
        · rintro r ⟨⟩
          exact ⟨inRequest, open_, there s rfl⟩
        · intro r polls
          exact absurd polls (detached r)
      constructor
      · exact linked.setSurr s (there s rfl) _ ⟨rfl, rfl, id, Or.inr rfl, id⟩
      · -- linking makes nobody a poller
        intro r polls
        simp only [Http.refSurr, surrs_setSurr, surrs_setSock] at polls
        split at polls
        next => exact detached s polls
        next => exact detached r polls

theorem openRequest (inv : Owing nothing σ) (c : SockId) (req : HttpRequest) (bodyLen : Nat)
    (room : Bool) (inRequest : (σ.socks c).inRequest = true)
    (open_ : (σ.socks c).Speaks) (detached : Detached c σ) :
    Owing nothing (σ.openRequest c req bodyLen room) ∧
      Detached c (σ.openRequest c req bodyLen room) := by
  obtain ⟨found, there, socks, still⟩ := inv.getSurrogate req.url room
  obtain ⟨linked, after⟩ := found.link c (σ.getSurrogate req.url room).2 there
    (by rw [socks]; exact inRequest) (by rw [socks]; exact open_) (still c detached)
  constructor
  · unfold Http.openRequest
    apply Owing.keepSock
    · exact linked
    · rfl
    · rfl
    · rfl
    · rfl
    · rfl
  · exact after

theorem doHeadersHttp (inv : Owing nothing σ) (env : HttpEnv) (c : SockId) (req : HttpRequest)
    (room : Bool) (inRequest : (σ.socks c).inRequest = true)
    (open_ : (σ.socks c).Speaks) (detached : Detached c σ) :
    Owing nothing (σ.doHeadersHttp env c req room).1 ∧
      Detached c (σ.doHeadersHttp env c req room).1 := by
  unfold Http.doHeadersHttp
  split
  next =>
    split
    next => exact ⟨inv, detached⟩
    next => exact inv.openRequest c req _ room inRequest open_ detached
  next =>
    split
    next => exact ⟨inv.closeSock c .lengthRequired, detached⟩
    next => exact inv.openRequest c req 0 room inRequest open_ detached

theorem upgrade (inv : Owing nothing σ) (c : SockId) (unlinked : (σ.socks c).client = none)
    (detached : Detached c σ) : Owing nothing (σ.upgrade c) := by
  apply inv.setSock
  · intro s link
    exact absurd (unlinked.symm.trans link) (by simp)
  · intro s polls
    exact absurd polls (detached s)

theorem doHeadersWebsocket (inv : Owing nothing σ) (env : HttpEnv) (c : SockId)
    (req : HttpRequest) (connection : Option Bytes) (open_ : (σ.socks c).closed = false)
    (unlinked : (σ.socks c).client = none) (detached : Detached c σ) :
    Owing nothing (σ.doHeadersWebsocket env c req connection).1 ∧
      Detached c (σ.doHeadersWebsocket env c req connection).1 := by
  unfold Http.doHeadersWebsocket
  dsimp only
  split_ifs
  · exact ⟨inv.sendError env c .status426, inv.sendError_detached env c .status426 open_⟩
  · exact ⟨inv.sendError env c .status400, inv.sendError_detached env c .status400 open_⟩
  · exact ⟨inv.upgrade c unlinked detached, detached⟩

/-- A header flushes what the socket waited for: nobody has it as its poller then, and it
has no link yet. -/
theorem requestBegin (inv : Owing nothing σ) (env : HttpEnv) (c : SockId) (req : HttpRequest)
    (open_ : (σ.socks c).Speaks) :
    Owing nothing (σ.requestBegin env c req) ∧ Detached c (σ.requestBegin env c req) ∧
      ((σ.requestBegin env c req).socks c).inRequest = true ∧
      ((σ.requestBegin env c req).socks c).client = none ∧
      ((σ.requestBegin env c req).socks c).Speaks := by
  have begun : Owing nothing (σ.routeBegin c) := inv.keepSock c _ rfl rfl rfl rfl rfl
  have still : ((σ.routeBegin c).socks c).Speaks := by
    simpa [Http.routeBegin, Socket.Speaks] using open_
  have done := sendResponse_responded (σ.routeBegin c) c (env.statusResponses .status200)
  have flushed := begun.sendError env c .status200
  have detached := begun.sendError_detached env c .status200 still.1
  obtain ⟨unlinked, -, -, closed, -, upgraded⟩ := done.answered
  simp only [Http.requestBegin, socks_setSock, if_true]
  refine ⟨?_, detached, trivial, unlinked, closed.trans still.1, upgraded.trans still.2⟩
  apply flushed.setSock
  · intro s link
    exact absurd (unlinked.symm.trans link) (by simp)
  · intro s polls
    exact absurd polls (detached s)

/-- A header links the socket anew. -/
theorem routeHeader (inv : Owing nothing σ) (env : HttpEnv) (c : SockId) (req : HttpRequest)
    (room : Bool) (open_ : (σ.socks c).Speaks) :
    Owing nothing (σ.routeHeader env c req room) := by
  obtain ⟨opened, free, waits, loose, stays⟩ := inv.requestBegin env c req open_
  have routed : Owing nothing (σ.headerBlock env c req room).1 ∧
      Detached c (σ.headerBlock env c req room).1 := by
    rcases headerBlock_cases env σ c req room with same | same | same <;> rw [same]
    · exact opened.doHeadersWebsocket env c req _ stays.1 loose free
    · exact opened.doHeadersHttp env c req room waits stays free
    · exact ⟨opened, free⟩
  rw [routeHeader_eq]
  obtain ⟨after, alone⟩ := routed
  cases (σ.headerBlock env c req room).2 with
  | ok =>
    apply after.setSock
    · exact after.linked c
    · intro s polls
      exact absurd polls (alone s)
  | again => exact after
  | fatal => exact after.closeSock c .badRequest

theorem heartbeatSock (inv : Owing nothing σ) (env : HttpEnv) (c : SockId) :
    Owing nothing (σ.heartbeatSock env c) := by
  unfold Http.heartbeatSock
  split
  next =>
    split
    next => exact inv.closeSock c .heartattack
    next => exact inv
  next =>
    split
    next => exact inv.sendError env c .status200
    next => exact inv

theorem onCloseSurr (inv : Owing nothing σ) (env : HttpEnv) (s : SurrId)
    (there : s < σ.nextSurr) : Owing nothing (σ.onCloseSurr env s) := by
  -- the key leaves the table, and nothing else changes
  have removed : Owing nothing { σ with
      clients := Function.update σ.clients (σ.surrs s).tbl
        (Function.update (σ.clients (σ.surrs s).tbl) (σ.surrs s).sid none) } := by
    constructor
    · exact inv.fresh
    · intro b k r entry
      dsimp only at entry
      rw [Function.update_apply] at entry
      split at entry
      next =>
        rw [Function.update_apply] at entry
        split at entry
        next => cases entry
        next => exact inv.stored _ k r entry
      next => exact inv.stored b k r entry
    · exact inv.linked
    · exact inv.polled
    · exact inv.conserved
    · exact inv.idle
  have closed := removed.setSurr s there (fun r => { r with closed := true })
    ⟨rfl, rfl, id, Or.inr rfl, id⟩
  exact (closed.steal s).dismiss env _ _

/-- A response on a socket without a link leaves the surrogates alone. -/
theorem sendResponse_setSurr (c : SockId) (resp : Response) (s : SurrId)
    (f : Surrogate → Surrogate) (unlinked : (σ.socks c).client = none) :
    ((σ.setSurr s f).sendResponse (some c) resp).1 =
      (σ.sendResponse (some c) resp).1.setSurr s f := by
  cases owes : (σ.socks c).inRequest with
  | false => simp [sendResponse, unlinked, owes, surrReleaseClient, Http.setSock, Http.setSurr]
  | true =>
    simp [sendResponse, unlinked, owes, surrReleaseClient, answer, Http.setSock, Http.setSurr]

/-- A socket that closes takes the surrogate it is linked to along. -/
theorem onCloseSock (inv : Owing nothing σ) (env : HttpEnv) (c : SockId)
    (reason : CloseReason) : Owing nothing (σ.onCloseSock env c reason) := by
  have gone : ∀ τ : Http, Owing nothing τ →
      (∀ s, (τ.socks c).client = some s → (τ.surrs s).closing ≠ none) →
      Owing nothing (τ.setSock c fun k => { k with client := none, closed := true }) := by
    intro τ before closing
    apply before.setSock
    · rintro s ⟨⟩
    · intro s polls
      rcases before.polled s c polls with ⟨link, -⟩ | ⟨closes, -⟩
      · exact Or.inr ⟨closing s link, rfl⟩
      · exact Or.inr ⟨closes, rfl⟩
  unfold Http.onCloseSock
  dsimp only
  cases link : (σ.socks c).client with
  | none =>
    have left := gone σ inv fun s linked => by
      rw [link] at linked
      cases linked
    cases closeStatus reason with
    | none => exact left
    | some status => exact left.sendError env c status
  | some s =>
    -- the socket's last response does not touch the surrogate, which might as well close first
    have there := (inv.linked c s link).2.2
    have closes : Owing nothing ((σ.closeSurr s .httpDone).unrefSurr s) :=
      (inv.closeSurr s there .httpDone).setSurr s there _ ⟨rfl, rfl, id, Or.inr rfl, id⟩
    have left := gone _ closes fun r linked => by
      obtain rfl : s = r := Option.some.inj (link.symm.trans linked)
      simp [Http.closeSurr, Http.unrefSurr]
    cases closeStatus reason with
    | none => exact left
    | some status =>
      have told := left.sendError env c status
      have unlinked : ((σ.setSock c fun k =>
          { k with client := none, closed := true }).socks c).client = none := by simp
      have first := sendResponse_setSurr (σ := (σ.setSock c fun k =>
          { k with client := none, closed := true }).closeSurr s .httpDone) c
        (env.statusResponses status) s (fun r => { r with refs := r.refs - 1 }) unlinked
      have second := sendResponse_setSurr c (env.statusResponses status) s
        (fun r => { r with closing := r.closing.or (some .httpDone) }) unlinked
      have swap := first.trans (congrArg (fun τ => τ.unrefSurr s) second)
      exact (congrArg (Owing nothing) swap).mp told

/-- A socket was answered, and so unlinked, before it was upgraded. -/
theorem unlinked_of_upgraded (inv : Owing owed σ) {c : SockId}
    (upgraded : (σ.socks c).upgraded = true) : (σ.socks c).client = none := by
  cases link : (σ.socks c).client with
  | none => rfl
  | some s =>
    have speaks := (inv.linked c s link).2.1.2
    rw [upgraded] at speaks
    cases speaks

theorem step (inv : Owing nothing σ) {env : HttpEnv} {l : Label} {τ : Http}
    (stepped : σ.step env l = some τ) : Owing nothing τ := by
  cases step_cases stepped with
  | tick usec => exact inv.congr rfl rfl rfl rfl rfl
  | opened => exact inv.congr rfl rfl rfl rfl rfl
  | again c routes => exact inv.keepSock c _ rfl rfl rfl rfl rfl
  | header c req room routes ready done => exact inv.routeHeader env c req room routes.2
  | body c body turns routes waits whole =>
    exact inv.routeBody env c body turns routes.2.1 waits
  | bodyOverflow c used routes waits beyond =>
    have began : Owing nothing (σ.routeBegin c) := inv.keepSock c _ rfl rfl rfl rfl rfl
    exact began.closeSock c .unknownError
  | act a => exact inv.act a
  | heartbeatSock c routes shook => exact inv.heartbeatSock env c
  | heartbeatSurr s there open_ =>
    unfold Http.heartbeatSurr
    split
    next => exact inv.closeSurr s there .heartattack
    next => exact inv
  | leave c upgraded =>
    have unlinked : ∀ r, (σ.socks c).client ≠ some r := by
      rw [inv.unlinked_of_upgraded upgraded]
      rintro r ⟨⟩
    apply inv.setSock
    · intro r link
      exact absurd link (unlinked r)
    · intro r polls
      rcases inv.polled r c polls with ⟨back, -⟩ | ⟨closes, -⟩
      · exact absurd back (unlinked r)
      · exact Or.inr ⟨closes, rfl⟩
  | onCloseSock c reason http closing => exact inv.onCloseSock env c reason
  | onCloseSurr s open_ closing =>
    apply inv.onCloseSurr env s
    by_contra absent
    rw [inv.fresh s (Nat.le_of_not_lt absent)] at closing
    exact closing rfl

theorem start_owing : Owing nothing start := by
  constructor
  · intro s _
    rfl
  · intro b sid s entry
    cases entry
  · intro c s link
    cases link
  · intro s c polls
    cases polls
  · intro s _
    rfl
  · intro s _ _ _
    rfl

end Owing

theorem Owing.run {env : HttpEnv} {ls : List Label} {σ : Http}
    (ran : (system env).run start ls = some σ) : Owing nothing σ :=
  (system env).run_invariant (Owing nothing)
    (fun _ _ _ before stepped => before.step stepped) start σ ls Owing.start_owing ran

/-- In every run, and for every session that is not closing: the messages that
its responses carried, in the order they were sent, and then those its buffer
holds are the messages it was given. -/
theorem messages_conserved (env : HttpEnv) (ls : List Label) (σ : Http)
    (ran : (system env).run start ls = some σ) (s : SurrId)
    (open_ : (σ.surrs s).closing = none) :
    σ.sessionBytes s ++ (σ.surrs s).wbuff = (σ.surrs s).given.flatten := by
  have account := (Owing.run ran).conserved s open_
  rwa [nothing, List.append_nil] at account

/-- One message meets a poller, one waits for the next request, one is sent by a
handler and leaves on the old poller, and two more follow on the new one and
into the buffer. -/
def polling : List Label := [
  .opened, .opened, .header 0 (samplePost "0") true, .body 0 [] [],
  .act (.send 0 ⟨str "/a", [], 0, str "1"⟩), .act (.send 0 ⟨str "/b", [], 0, str "2"⟩),
  .header 0 (samplePost "0") true, .body 0 [] [],
  .header 0 (samplePost "0") true, .body 0 [] [],
  .header 1 (samplePost "16") true,
  .body 1 (str "/qio/ping:1=null") [⟨false, [.send 0 ⟨str "/c", [], 0, str "3"⟩]⟩],
  .act (.send 0 ⟨str "/d", [], 0, str "4"⟩), .act (.send 0 ⟨str "/e", [], 0, str "5"⟩)]

theorem messages_conserved_polling :
    ∃ σ, (system sampleEnv).run start polling = some σ ∧
      (σ.surrs 0).wbuff = str "/e:0=5\n" ∧ (σ.surrs 0).given.length = 5 ∧
      σ.sessionBytes 0 ++ (σ.surrs 0).wbuff = (σ.surrs 0).given.flatten := by
  have some : ((system sampleEnv).run start polling).isSome := by decide
  obtain ⟨σ, ran⟩ := Option.isSome_iff_exists.mp some
  have finished : ∀ σ ∈ (system sampleEnv).run start polling,
      (σ.surrs 0).closing = none ∧ (σ.surrs 0).wbuff = str "/e:0=5\n" ∧
        (σ.surrs 0).given.length = 5 := by decide
  obtain ⟨open_, wbuff, given⟩ := finished σ ran
  exact ⟨σ, ran, wbuff, given, messages_conserved sampleEnv polling σ ran 0 open_⟩

end Http

end QuickIO
