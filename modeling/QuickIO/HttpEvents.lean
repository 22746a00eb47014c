import Mathlib.Data.List.TakeWhile
import QuickIO.HttpSteps

/-!
# Events behind a response

From the header of a `POST` to its body the socket owes its response, and other
clients cannot give it. So a response with status 200 comes after the lines of
the body have been handled, unless the heartbeat sends it while the body is
still waited for.
-/
namespace QuickIO

open Lib

namespace Http

/-! ### What is handled -/

/-- Only the lines of a body are logged as handled. -/
theorem handled_stable (env : HttpEnv) (handled : List (SurrId × Bytes)) :
    Stable env (fun _ => True) (fun _ => True) (fun σ => σ.handled = handled) where
  respond {σ} c resp _ same := (sendResponse_released σ c resp).rest.2.2.trans same
  sock _ _ _ same := same
  surr _ _ _ same := same
  give _ _ same := same
  keep _ _ same := same
  flush _ same := same
  created _ same := same
  close _ _ _ same := same
  aborts _ same := same
  clients _ same := same
  held _ _ := trivial
  status _ := trivial
  iframe := trivial
  frame _ := trivial

/-- The lines of a body are given to `protocol_raw_handle` in order, up to the
first that it refuses. -/
theorem handled_surrLines (env : HttpEnv) (s : SurrId) (σ : Http) (msgs : List Bytes)
    (turns : List Turn) (all : (surrLines s σ msgs turns).2 = true) :
    (surrLines s σ msgs turns).1.handled = σ.handled ++ msgs.map fun msg => (s, msg) := by
  induction msgs generalizing σ turns with
  | nil => exact (List.append_nil _).symm
  | cons msg msgs ih =>
    simp only [surrLines] at all ⊢
    split at all
    next => cases all
    next =>
      have acted := (handled_stable env _).acts (turns.headD {}).acts (fun _ _ _ => trivial)
        (rfl : Http.handled { σ with handled := σ.handled ++ [(s, msg)] } = _)
      rw [ih _ _ all, acted, List.append_assoc]
      rfl

/-! ### From a header to its body -/

/-- A well-formed `POST` that is neither an upgrade nor a request for the page. -/
structure Posted (env : HttpEnv) (req : HttpRequest) : Prop where
  ok : req.ok = true
  method : req.method = str "POST"
  plain : req.header (str "Sec-WebSocket-Key") = none
  page : hasPrefix req.url (str "/iframe") = false
  length : ∃ len bodyLen, req.header (str "Content-Length") = some len ∧
    env.safeStrtoull len = some bodyLen

/-- The session a URL names. -/
def Names (σ : Http) (url : Bytes) (s : SurrId) : Prop :=
  ∃ sid, urlSid url = some sid ∧ σ.clients (sid % 64) sid = some s

/-- The body of the socket's `n`th request is waited for, and its response is
still owed. -/
structure Awaits (c : SockId) (n : Nat) (surrogate : Option SurrId) (σ : Http) : Prop where
  client : (σ.socks c).client = surrogate
  owes : (σ.socks c).inRequest = true
  waits : (σ.socks c).inBody = true
  post : (σ.socks c).isPost = true
  page : (σ.socks c).iframeRequested = false
  request : (σ.socks c).requests = n
  unsent : ∀ e ∈ σ.sent, e.sock = c → e.request ≠ n

/-- The request has been refused. -/
def Refused (c : SockId) (n : Nat) (σ : Http) : Prop :=
  ∃ e ∈ σ.sent, e.sock = c ∧ e.request = n ∧ e.response.status ≠ .status200

theorem getSurrogate_names (σ : Http) (url : Bytes) (room : Bool) (s : SurrId)
    (found : (σ.getSurrogate url room).2 = some s) :
    Names (σ.getSurrogate url room).1 url s := by
  simp only [getSurrogate] at found ⊢
  split at found
  next => cases found
  next sid key =>
    refine ⟨sid, key, ?_⟩
    simp only [surrFind] at found ⊢
    split at found
    next r stored =>
      cases found
      exact stored
    next absent =>
      split at found
      next creates =>
        cases found
        rw [if_pos creates]
        simp [surrNew]
      next => cases found

/-- What the header of a `POST` leaves: its body is waited for, and the socket
is linked to no other session than the one it names. -/
theorem routeHeader_posted (env : HttpEnv) (σ : Http) (c : SockId) (req : HttpRequest)
    (room : Bool) (posted : Posted env req) :
    let τ := σ.routeHeader env c req room
    (τ.socks c).inRequest = true ∧ (τ.socks c).inBody = true ∧ (τ.socks c).isPost = true ∧
      (τ.socks c).iframeRequested = false ∧
      ∀ s, (τ.socks c).client = some s → Names τ req.url s := by
  obtain ⟨ok, method, plain, page, len, bodyLen, given, parsed⟩ := posted
  -- The response before, if it was due, unlinks the socket.
  have done := sendResponse_responded (σ.routeBegin c) c (env.statusResponses .status200)
  simp only [routeHeader, headerBlock, requestBegin, ok, plain, doHeadersHttp, given, parsed, if_true]
  have unlinked := done.answered.1
  rw [show (σ.routeBegin c).sendResponse (some c) (env.statusResponses .status200) =
    (σ.routeBegin c).sendError env (some c) .status200 from rfl] at unlinked
  generalize ((σ.routeBegin c).sendError env (some c) .status200).1 = υ at unlinked ⊢
  have loose : ((υ.setSock c fun k => { k with
      inRequest := true
      keepAlive := Http.keepAlive req
      requests := k.requests + 1 }).socks c).client = none := by simpa using unlinked
  have owes : ((υ.setSock c fun k => { k with
      inRequest := true
      keepAlive := Http.keepAlive req
      requests := k.requests + 1 }).socks c).inRequest = true := by simp
  -- What is left of the header only looks for the surrogate and links it.
  generalize Http.setSock υ c _ = τ at loose owes ⊢
  have found := getSurrogate_names τ req.url room
  have socks : (τ.getSurrogate req.url room).1.socks = τ.socks := by
    rcases getSurrogate_cases τ req.url room with same | ⟨sid, created⟩
    · rw [same]
    · rw [created]
      rfl
  simp only [openRequest]
  generalize τ.getSurrogate req.url room = result at found socks ⊢
  obtain ⟨ρ, surrogate⟩ := result
  dsimp only at found socks ⊢
  rw [← socks] at loose owes
  simp only [socks_setSock, if_true, method, decide_true, page, link]
  cases surrogate with
  -- no surrogate: the body will be answered 403
  | none => exact ⟨owes, trivial, trivial, trivial, fun s link => by simp [loose] at link⟩
  | some s =>
    dsimp only
    split
    next => exact ⟨owes, trivial, trivial, trivial, fun s link => by simp [loose] at link⟩
    next =>
      simp only [refSurr, socks_setSurr, socks_setSock, if_true, owes]
      refine ⟨trivial, trivial, trivial, trivial, ?_⟩
      rintro r ⟨⟩
      exact found s rfl

/-- The step is not a heartbeat that finds the socket linked, its body still
waited for and its last read long ago. -/
def Punctual (env : HttpEnv) (c : SockId) (σ : Http) (l : Label) : Prop :=
  l = .heartbeatSock c → (σ.socks c).client ≠ none → (σ.socks c).inBody = true →
    (σ.heartbeatGetIntervals env).poll ≤ (σ.socks c).lastSend

instance (env : HttpEnv) (c : SockId) (σ : Http) (l : Label) :
    Decidable (Punctual env c σ l) := by
  unfold Punctual
  infer_instance

namespace Awaits

variable {c : SockId} {n : Nat} {surrogate : Option SurrId} {σ τ : Http}

/-- What other clients do leaves the request alone. -/
theorem framed (awaits : Awaits c n surrogate σ) {P : SockId → Prop} (frame : Frame P σ τ)
    (other : ¬P c) : Awaits c n surrogate τ := by
  obtain ⟨client, inRequest, inBody, -, requests, isPost, iframe⟩ := frame.socks c other
  obtain ⟨es, sent, theirs⟩ := frame.sent
  refine ⟨client.trans awaits.client, inRequest.trans awaits.owes, inBody.trans awaits.waits,
    isPost.trans awaits.post, iframe.trans awaits.page, requests.trans awaits.request, ?_⟩
  intro e member mine
  rw [sent] at member
  rcases List.mem_append.mp member with before | new
  · exact awaits.unsent e before mine
  · exact absurd (mine ▸ theirs e new) other

/-- A change to the socket that is not about its request, but perhaps about its
link. -/
theorem setSock (awaits : Awaits c n surrogate σ) (f : Socket → Socket)
    {linked : Option SurrId} (client : (f (σ.socks c)).client = linked)
    (same : (f (σ.socks c)).inRequest = (σ.socks c).inRequest ∧
      (f (σ.socks c)).inBody = (σ.socks c).inBody ∧ (f (σ.socks c)).isPost = (σ.socks c).isPost ∧
      (f (σ.socks c)).iframeRequested = (σ.socks c).iframeRequested ∧
      (f (σ.socks c)).requests = (σ.socks c).requests) :
    Awaits c n linked (σ.setSock c f) := by
  obtain ⟨inRequest, inBody, isPost, page, requests⟩ := same
  have here : (σ.setSock c f).socks c = f (σ.socks c) := by simp
  constructor
  · rw [here, client]
  · rw [here, inRequest, awaits.owes]
  · rw [here, inBody, awaits.waits]
  · rw [here, isPost, awaits.post]
  · rw [here, page, awaits.page]
  · rw [here, requests, awaits.request]
  · exact awaits.unsent

/-- A response that is not a success refuses the request. -/
theorem refused_respond {σ : Http} {resp : Response} (owes : (σ.socks c).inRequest = true)
    (request : (σ.socks c).requests = n) (bad : resp.status ≠ .status200) :
    Refused c n (σ.sendResponse (some c) resp).1 := by
  have sent := (sendResponse_responded σ c resp).sent
  rw [owes, if_pos rfl] at sent
  refine ⟨⟨c, resp, (σ.socks c).client, (σ.socks c).requests⟩, ?_, rfl, request, bad⟩
  rw [sent]
  exact List.mem_append_right _ List.mem_cons_self

theorem refused_error (env : HttpEnv) {σ : Http} {status : HttpStatus}
    (owes : (σ.socks c).inRequest = true) (request : (σ.socks c).requests = n)
    (bad : status ≠ .status200) : Refused c n (σ.sendError env (some c) status).1 :=
  refused_respond owes request bad

/-- A socket that closes loses its link; what it is sent then is no success. -/
theorem onCloseSock (awaits : Awaits c n surrogate σ) (env : HttpEnv) (reason : CloseReason) :
    Awaits c n none (σ.onCloseSock env c reason) ∨ Refused c n (σ.onCloseSock env c reason) := by
  have left : Awaits c n none (σ.setSock c fun k => { k with client := none, closed := true }) :=
    awaits.setSock _ rfl ⟨rfl, rfl, rfl, rfl, rfl⟩
  simp only [Http.onCloseSock]
  generalize σ.setSock c (fun k => { k with client := none, closed := true }) = τ at left ⊢
  cases told : closeStatus reason with
  -- the close sends nothing, and the surrogate that was linked is closed
  | none =>
    left
    cases (σ.socks c).client with
    | none => exact left
    | some s => exact ⟨left.client, left.owes, left.waits, left.post, left.page, left.request,
        left.unsent⟩
  | some status =>
    right
    -- No reason is answered with a 200.
    have bad : status ≠ .status200 := by
      rintro rfl
      cases reason <;> cases told
    have refused : Refused c n (τ.sendError env (some c) status).1 :=
      refused_error env left.owes left.request bad
    cases (σ.socks c).client with
    | none => exact refused
    | some s => exact refused

/-- The body: its lines are handled by the session the socket is linked to, or
the request is refused. -/
theorem doBody (env : HttpEnv) (client : (σ.socks c).client = surrogate) (owes : (σ.socks c).inRequest = true)
    (post : (σ.socks c).isPost = true) (page : (σ.socks c).iframeRequested = false)
    (request : (σ.socks c).requests = n) (ready : (σ.socks c).inBody = false)
    (alone : Detached c σ) (body : Bytes) (turns : List Turn) :
    (∃ s, surrogate = some s ∧ (σ.doBody env c body turns).handled =
      σ.handled ++ (bodyLines body).map fun msg => (s, msg)) ∨
    Refused c n (σ.doBody env c body turns) := by
  simp only [Http.doBody, page, post, Bool.false_eq_true, Bool.not_true, if_false]
  split
  next => exact Or.inr (refused_error env owes request (by decide))
  next =>
    split
    next => exact Or.inr (refused_error env owes request (by decide))
    next s link =>
      have route : Held c s σ := ⟨link, ready, alone⟩
      have covers : Covers σ.Polled σ := fun _ => id
      have began : Moves σ.Polled (σ, [])
          (σ.setSurr s fun r => { r with incoming := true }, []) :=
        Moves.surr s _ rfl rfl rfl id
      -- the handlers cannot answer the socket whose body they come from
      have lines : Moves σ.Polled (σ, [])
          ((surrLines s (σ.setSurr s fun r => { r with incoming := true }) (bodyLines body)
            turns).1, []) :=
        began.trans (Moves.surrLines (covers.after began) s (bodyLines body) turns)
      have other : ¬σ.Polled c := by
        rintro ⟨r, polls⟩
        exact alone r polls
      obtain ⟨-, inRequest, -, -, requests, -⟩ := lines.frame.socks c other
      have handled := handled_surrLines env s (σ.setSurr s fun r => { r with incoming := true })
        (bodyLines body) turns
      simp only [Http.surrRoute]
      split
      next refused =>
        rw [refused] at inRequest requests
        exact Or.inr (refused_error env (inRequest.trans owes) (requests.trans request) (by decide))
      next all =>
        rw [all] at handled
        left
        refine ⟨s, client ▸ link, ?_⟩
        rw [(handled_stable env _).surrFlush s c rfl, handled rfl]
        rfl

/-- One step while the body is waited for: it still is, or it has been routed, or
the request is refused. -/
theorem step (awaits : Awaits c n surrogate σ) {env : HttpEnv} {l : Label}
    (inv : Owing nothing σ) (linked : Linked σ []) (punctual : Punctual env c σ l)
    (stepped : σ.step env l = some τ) :
    ((∀ body turns, l ≠ .body c body turns) ∧
      (Awaits c n surrogate τ ∨ Awaits c n none τ)) ∨
    (∃ body turns, l = .body c body turns ∧ ∃ s, surrogate = some s ∧
      τ.handled = σ.handled ++ (bodyLines body).map fun msg => (s, msg)) ∨
    Refused c n τ := by
  have alone : ¬σ.Polled c := by
    rintro ⟨s, polls⟩
    have ready := (linked.tied.polled s c polls).1
    rw [awaits.waits] at ready
    cases ready
  by_cases mine : l.sock = some c
  · -- the socket's own steps: no header is read before the body
    cases step_cases stepped with
    | tick usec => cases mine
    | opened => cases mine
    | act a => cases mine
    | heartbeatSurr s there open_ => cases mine
    | onCloseSurr s open_ closing => cases mine
    | again d routes =>
      obtain rfl : d = c := Option.some.inj mine
      left
      refine ⟨by rintro body turns ⟨⟩, Or.inl ?_⟩
      exact awaits.setSock _ awaits.client ⟨rfl, rfl, rfl, rfl, rfl⟩
    | header d req room routes ready done =>
      obtain rfl : d = c := Option.some.inj mine
      rw [awaits.waits] at ready
      cases ready
    | body d body turns routes waits whole =>
      obtain rfl : d = c := Option.some.inj mine
      right
      have client : (((σ.routeBegin d).setSock d fun k => { k with inBody := false }).socks
          d).client = surrogate := by simpa [Http.routeBegin] using awaits.client
      have routed := doBody (n := n) env client
        (by simpa [Http.routeBegin] using awaits.owes)
        (by simpa [Http.routeBegin] using awaits.post)
        (by simpa [Http.routeBegin] using awaits.page)
        (by simpa [Http.routeBegin] using awaits.request) (by simp)
        (fun s polls => alone ⟨s, polls⟩) body turns
      rcases routed with ⟨s, link, handled⟩ | refused
      · exact Or.inl ⟨body, turns, rfl, s, link, handled⟩
      · exact Or.inr refused
    | bodyOverflow d used routes waits beyond =>
      obtain rfl : d = c := Option.some.inj mine
      left
      refine ⟨by rintro body turns ⟨⟩, Or.inl ?_⟩
      have begun : Awaits d n surrogate (σ.routeBegin d) :=
        awaits.setSock _ awaits.client ⟨rfl, rfl, rfl, rfl, rfl⟩
      exact begun.setSock _ begun.client ⟨rfl, rfl, rfl, rfl, rfl⟩
    | heartbeatSock d routes shook =>
      obtain rfl : d = c := Option.some.inj mine
      left
      refine ⟨by rintro body turns ⟨⟩, Or.inl ?_⟩
      simp only [Http.heartbeatSock]
      split
      next =>
        split
        next => exact awaits.setSock _ awaits.client ⟨rfl, rfl, rfl, rfl, rfl⟩
        next => exact awaits
      next s link =>
        -- with a surrogate, the heartbeat would answer a poll that is late
        have recent := punctual rfl (by simp [link]) awaits.waits
        rw [if_neg (Int.not_lt.mpr recent)]
        exact awaits
    | leave d upgraded =>
      obtain rfl : d = c := Option.some.inj mine
      left
      refine ⟨by rintro body turns ⟨⟩, Or.inl ?_⟩
      exact awaits.setSock _ awaits.client ⟨rfl, rfl, rfl, rfl, rfl⟩
    | onCloseSock d reason http closing =>
      obtain rfl : d = c := Option.some.inj mine
      rcases awaits.onCloseSock env reason with left | refused
      · exact Or.inl ⟨by rintro body turns ⟨⟩, Or.inr left⟩
      · exact Or.inr (Or.inr refused)
  · left
    refine ⟨?_, Or.inl ?_⟩
    · rintro body turns rfl
      exact mine rfl
    · apply awaits.framed (step_moves inv linked stepped).frame
      rintro (⟨same, -⟩ | polls)
      · exact mine same
      · exact alone polls

end Awaits

/-- The first body that is routed on a socket in a run, and the states before
and after. -/
def FirstBody (env : HttpEnv) (σ : Http) (ls : List Label) (c : SockId) (body : Bytes)
    (before after : Http) : Prop :=
  ∃ mid turns rest, ls = mid ++ .body c body turns :: rest ∧ (∀ b t, .body c b t ∉ mid) ∧
    (system env).run σ mid = some before ∧ before.step env (.body c body turns) = some after

theorem Refused.framed {P : SockId → Prop} {c : SockId} {n : Nat} {σ τ : Http}
    (refused : Refused c n σ) (frame : Frame P σ τ) : Refused c n τ := by
  obtain ⟨e, member, rest⟩ := refused
  obtain ⟨es, sent, -⟩ := frame.sent
  refine ⟨e, ?_, rest⟩
  rw [sent]
  exact List.mem_append_left es member

theorem Refused.run {env : HttpEnv} {c : SockId} {n : Nat} {σ τ : Http} {ls : List Label}
    (inv : Owing nothing σ ∧ Linked σ []) (refused : Refused c n σ)
    (ran : (system env).run σ ls = some τ) : Refused c n τ := by
  induction ls generalizing σ with
  | nil =>
    cases ran
    exact refused
  | cons l ls ih =>
    obtain ⟨υ, stepped, rest⟩ := ((system env).run_cons_iff σ τ l ls).mp ran
    have moves := step_moves inv.1 inv.2 stepped
    exact ih ⟨inv.1.step stepped, moves.linked inv.2⟩ (refused.framed moves.frame) rest

/-- A run from a state where the body is waited for: it still is, or the first
body has been handled, or the request has been refused. -/
theorem Awaits.run {env : HttpEnv} {c : SockId} {n : Nat} {surrogate : Option SurrId}
    {σ τ : Http} {ls : List Label} (awaits : Awaits c n surrogate σ)
    (inv : Owing nothing σ ∧ Linked σ [])
    (punctual : (system env).Throughout (Punctual env c) σ ls)
    (ran : (system env).run σ ls = some τ) :
    ((∀ b t, .body c b t ∉ ls) ∧ (Awaits c n surrogate τ ∨ Awaits c n none τ)) ∨
    (∃ body before after, FirstBody env σ ls c body before after ∧ ∃ s, surrogate = some s ∧
      after.handled = before.handled ++ (bodyLines body).map fun msg => (s, msg)) ∨
    Refused c n τ := by
  induction ls generalizing σ surrogate with
  | nil =>
    cases ran
    exact Or.inl ⟨fun _ _ => List.not_mem_nil, Or.inl awaits⟩
  | cons l ls ih =>
    obtain ⟨υ, stepped, rest⟩ := ((system env).run_cons_iff σ τ l ls).mp ran
    have moves := step_moves inv.1 inv.2 stepped
    have next : Owing nothing υ ∧ Linked υ [] := ⟨inv.1.step stepped, moves.linked inv.2⟩
    -- what the rest of the run comes to, once this step was not the body
    have onward : (∀ body turns, l ≠ .body c body turns) → ∀ surrogate', Awaits c n surrogate' υ →
        (surrogate' = surrogate ∨ surrogate' = none) →
        ((∀ b t, .body c b t ∉ l :: ls) ∧ (Awaits c n surrogate τ ∨ Awaits c n none τ)) ∨
        (∃ body before after, FirstBody env σ (l :: ls) c body before after ∧
          ∃ s, surrogate = some s ∧
            after.handled = before.handled ++ (bodyLines body).map fun msg => (s, msg)) ∨
        Refused c n τ := by
      intro other surrogate' still same
      rcases ih still next (punctual.2 υ stepped) rest with ⟨none, stays⟩ | ⟨body, before, after, first, found⟩ | no
      · left
        refine ⟨?_, ?_⟩
        · intro b t member
          rcases List.mem_cons.mp member with here | there
          · exact other b t here.symm
          · exact none b t there
        · rcases same with rfl | rfl
          · exact stays
          · exact Or.inr (stays.elim id id)
      · right
        left
        obtain ⟨s, link, handled⟩ := found
        obtain ⟨mid, turns, rest, split, none, reached, taken⟩ := first
        refine ⟨body, before, after, ⟨l :: mid, turns, rest, by rw [split]; rfl, ?_,
          ((system env).run_cons_iff σ before l mid).mpr ⟨υ, stepped, reached⟩, taken⟩, s, ?_,
          handled⟩
        · intro b t member
          rcases List.mem_cons.mp member with here | there
          · exact other b t here.symm
          · exact none b t there
        · rcases same with rfl | rfl
          · exact link
          · cases link
      · exact Or.inr (Or.inr no)
    rcases awaits.step inv.1 inv.2 punctual.1 stepped with
      ⟨other, still | left⟩ | ⟨body, turns, rfl, found⟩ | refused
    · exact onward other surrogate still (Or.inl rfl)
    · exact onward other none left (Or.inr rfl)
    · right
      left
      exact ⟨body, σ, υ, ⟨[], turns, ls, rfl, fun _ _ => List.not_mem_nil, rfl, stepped⟩, found⟩
    · exact Or.inr (Or.inr (refused.run next rest))

/-- Two responses to the same request are one. -/
theorem response_unique {count : SockId → Nat} {σ : Http} (counted : Counted count σ)
    {e f : Sent} (first : e ∈ σ.sent) (second : f ∈ σ.sent) (sock : e.sock = f.sock)
    (request : e.request = f.request) : e = f := by
  have distinct : ((σ.responses f.sock).map (·.request)).Nodup := by
    rw [counted.answered]
    exact List.nodup_range'
  refine List.inj_on_of_nodup_map distinct ?_ ?_ request
  · simpa [responses, sock] using first
  · simpa [responses] using second

/-- All lines of a body went to the session that the URL names. -/
def Handled (url : Bytes) (σ : Http) (body : Bytes) (before after : Http) : Prop :=
  ∃ s, Names σ url s ∧ (0 ∉ body → after.handled =
    before.handled ++ ((body.splitOn 0x0a).filter (· ≠ [])).map fun msg => (s, msg))

/-- What a client is promised about the request whose header led to `σ`, at the
end of a run from there: a response with status 200 comes after a body all of
whose lines were handled, and a body that was not is refused. -/
def EventsRouted (env : HttpEnv) (c : SockId) (url : Bytes) (σ : Http) (ls : List Label)
    (τ : Http) : Prop :=
  (∀ e ∈ τ.sent, e.sock = c → e.request = (σ.socks c).requests →
    e.response.status = .status200 →
    ∃ body before after, FirstBody env σ ls c body before after ∧
      Handled url σ body before after) ∧
  ∀ body before after, FirstBody env σ ls c body before after →
    Handled url σ body before after ∨ Refused c (σ.socks c).requests after

theorem bodyLines_of_noNul {body : Bytes} (noNul : 0 ∉ body) :
    bodyLines body = (body.splitOn 0x0a).filter (· ≠ []) := by
  have whole : body.takeWhile (· ≠ 0) = body := by
    rw [List.takeWhile_eq_self_iff]
    intro b member
    have other : b ≠ 0 := fun same => noNul (same ▸ member)
    simpa using other
  rw [bodyLines, whole]

/-- In every run in which the heartbeat does not overtake the body, no event is
dropped behind a response with status 200. -/
theorem events_routed (env : HttpEnv) (pre post : List Label) (c : SockId) (req : HttpRequest)
    (room : Bool) (σ₀ σ₁ σ : Http) (ran₀ : (system env).run start pre = some σ₀)
    (posted : Posted env req) (stepped : σ₀.step env (.header c req room) = some σ₁)
    (ran : (system env).run σ₁ post = some σ)
    (punctual : (system env).Throughout (Punctual env c) σ₁ post) : EventsRouted env c req.url σ₁ post σ := by
  -- The invariants hold after the header, which leaves the socket awaiting its body.
  have inv₀ := run_linked env pre σ₀ ran₀
  have inv₁ : Owing nothing σ₁ ∧ Linked σ₁ [] :=
    ⟨inv₀.1.step stepped, (step_moves inv₀.1 inv₀.2 stepped).linked inv₀.2⟩
  have counted₁ := (start_counted.run ran₀).step stepped
  have counted := counted₁.run ran
  have awaits : Awaits c (σ₁.socks c).requests (σ₁.socks c).client σ₁ ∧
      ∀ s, (σ₁.socks c).client = some s → Names σ₁ req.url s := by
    have left := routeHeader_posted env σ₀ c req room posted
    cases step_cases stepped
    obtain ⟨owes, waits, post, page, names⟩ := left
    refine ⟨⟨rfl, owes, waits, post, page, rfl, ?_⟩, names⟩
    -- the request of this header has no response yet: those so far have smaller numbers
    intro e member mine same
    have request : e.request ∈ (responses (σ₀.routeHeader env c req room) c).map (·.request) :=
      List.mem_map_of_mem (by simpa [responses, mine] using member)
    rw [counted₁.answered c, owes, if_pos rfl, same, counted₁.requests c] at request
    have inside := List.mem_range'_1.mp request
    omega
  obtain ⟨awaits, names⟩ := awaits
  -- What is handled is what a body without NUL holds between its newlines.
  have handled : ∀ {body before after s}, (σ₁.socks c).client = some s →
      after.handled = before.handled ++ (bodyLines body).map (fun msg => (s, msg)) →
      Handled req.url σ₁ body before after := by
    intro body before after s link all
    refine ⟨s, names s link, ?_⟩
    intro noNul
    rw [all, bodyLines_of_noNul noNul]
  constructor
  · intro e member mine request success
    -- A 200 to this request can only come from its body.
    rcases awaits.run inv₁ punctual ran with ⟨-, still⟩ | ⟨body, before, after, first, found⟩ | no
    · have unsent := still.elim (·.unsent) (·.unsent)
      exact absurd request (unsent e member mine)
    · obtain ⟨s, link, all⟩ := found
      exact ⟨body, before, after, first, handled link all⟩
    · obtain ⟨f, other, theirs, number, bad⟩ := no
      obtain rfl := response_unique counted member other (mine.trans theirs.symm)
        (request.trans number.symm)
      exact absurd success bad
  · rintro body before after ⟨mid, turns, rest, rfl, unread, reached, taken⟩
    obtain ⟨early, late⟩ := ((system env).throughout_append_iff _ σ₁ mid _).mp punctual
    have inv : Owing nothing before ∧ Linked before [] := by
      refine (system env).run_invariant (fun σ => Owing nothing σ ∧ Linked σ [])
        ?_ σ₁ before mid inv₁ reached
      intro σ l τ inv step
      exact ⟨inv.1.step step, (step_moves inv.1 inv.2 step).linked inv.2⟩
    -- The first body finds the socket still awaiting, with its surrogate or without.
    have finish : ∀ surrogate, Awaits c (σ₁.socks c).requests surrogate before →
        (surrogate = (σ₁.socks c).client ∨ surrogate = none) →
        Handled req.url σ₁ body before after ∨ Refused c (σ₁.socks c).requests after := by
      intro surrogate still same
      rcases still.step inv.1 inv.2 (late before reached).1 taken with
        ⟨other, -⟩ | ⟨body', turns', eq, s, link, all⟩ | refused
      · exact absurd rfl (other body turns)
      · cases eq
        rcases same with rfl | rfl
        · exact Or.inl (handled link all)
        · cases link
      · exact Or.inr refused
    rcases awaits.run inv₁ early reached with ⟨-, still | left⟩ | ⟨b, _, _, first, -⟩ | refused
    · exact finish _ still (Or.inl rfl)
    · exact finish none left (Or.inr rfl)
    · obtain ⟨ms, t, ns, rfl, -⟩ := first
      exact absurd (List.mem_append_right ms List.mem_cons_self) (unread b t)
    · exact Or.inr (refused.framed (step_moves inv.1 inv.2 taken).frame)

/-- A server that waits a minute for its clients. -/
def patientEnv : HttpEnv := { sampleEnv with timeout := 60000 }

/-- The rest of the body is read in time for the heartbeat. -/
def readInTime : List Label := [
  .tick 40000000, .again 0, .tick 40000000, .heartbeatSock 0,
  .body 0 (str "/qio/ping:1=null") [⟨false, [.send 0 ⟨str "/a", [], 0, str "1"⟩]⟩]]

theorem samplePost_posted : Posted patientEnv (samplePost "16") :=
  ⟨rfl, rfl, by decide, by decide, str "16", 16, by decide, by decide⟩

/-- One socket is open. -/
def connected : Http := { start with nextSock := 1 }

/-- The header of its `POST` has been read. -/
def posting : Http := connected.routeHeader patientEnv 0 (samplePost "16") true

theorem events_routed_readInTime :
    ∃ σ, (system patientEnv).run posting readInTime = some σ ∧
      σ.sent.map (fun e => (e.request, e.response.status)) = [(1, .status200)] ∧
      EventsRouted patientEnv 0 (samplePost "16").url posting readInTime σ := by
  have runs : ((system patientEnv).run posting readInTime).isSome := by decide
  obtain ⟨σ, ran⟩ := Option.isSome_iff_exists.mp runs
  have finished : ∀ σ ∈ (system patientEnv).run posting readInTime,
      σ.sent.map (fun e => (e.request, e.response.status)) = [(1, .status200)] := by decide
  exact ⟨σ, ran, finished σ ran, events_routed patientEnv [.opened] readInTime 0
    (samplePost "16") true connected posting σ rfl samplePost_posted rfl ran (by decide)⟩

/-- The body is read only after the heartbeat. -/
def readLate : List Label := [
  .tick 50000000, .heartbeatSock 0, .body 0 (str "/qio/ping:1=null") []]

/-- The heartbeat answers a `POST` whose body is still on its way. The body is
read later: its event is dropped, and no other response can be sent. -/
theorem events_dropped :
    ¬∀ (env : HttpEnv) (pre post : List Label) (c : SockId) (req : HttpRequest) (room : Bool)
      (σ₀ σ₁ σ : Http), (system env).run start pre = some σ₀ → Posted env req →
      σ₀.step env (.header c req room) = some σ₁ → (system env).run σ₁ post = some σ →
      EventsRouted env c req.url σ₁ post σ := by
  intro claim
  have runs : ((system patientEnv).run posting readLate).isSome := by decide
  obtain ⟨σ, ran⟩ := Option.isSome_iff_exists.mp runs
  have sent : ∀ σ ∈ (system patientEnv).run posting readLate,
      σ.sent = [⟨0, buildResponse .status200 [], some 0, 1⟩] := by decide
  have dropped : ∀ τ ∈ (system patientEnv).run posting (readLate.take 2),
      ∀ υ ∈ τ.step patientEnv (.body 0 (str "/qio/ping:1=null") []),
        υ.handled = τ.handled := by decide
  obtain ⟨body, before, after, ⟨mid, turns, rest, split, -, reached, taken⟩, s, -, all⟩ :=
    (claim patientEnv [.opened] readLate 0 (samplePost "16") true connected posting σ rfl
      samplePost_posted rfl ran).1 _ (by rw [sent σ ran]; exact List.mem_cons_self) rfl
      (by decide) rfl
  -- the only body of the run comes third
  obtain ⟨rfl, rfl, rfl⟩ : mid = readLate.take 2 ∧ body = str "/qio/ping:1=null" ∧ turns = [] := by
    rcases mid with _ | ⟨l, _ | ⟨m, _ | ⟨n, mid⟩⟩⟩
    · simp [readLate] at split
    · simp [readLate] at split
    · simp only [readLate, List.cons_append, List.nil_append, List.cons.injEq,
        Label.body.injEq] at split
      obtain ⟨rfl, rfl, ⟨-, rfl, rfl⟩, -⟩ := split
      exact ⟨rfl, rfl, rfl⟩
    · simp [readLate] at split
  have handled := all (by decide)
  rw [dropped before reached after taken] at handled
  have length := congrArg List.length handled
  rw [List.length_append, List.length_map] at length
  exact absurd (Nat.left_eq_add.mp length) (by decide)

end Http

end QuickIO
