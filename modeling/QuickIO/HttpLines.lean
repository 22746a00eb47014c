import QuickIO.HttpSteps

/-!
# Routing a body line by line

`_surr_route` holds no lock while the handlers run, so anything may happen to
the session between two lines. Here a body takes a step for each line, with the
steps of the other clients in between. A body that is routed at once is one run
of these steps.
-/
namespace QuickIO

open Lib

/-- The clients, and the sockets whose body is being routed, with their
surrogate and the lines that are left. -/
structure HttpRouting where
  http : Http
  routing : SockId → Option (SurrId × List Bytes)

namespace HttpRouting

open Http

/-- An atomic step: one of another client, or of the loop of `_surr_route`. -/
inductive Label
  | other (l : Http.Label)
  | enter (c : SockId) (body : Bytes)
  | line (c : SockId) (turn : Turn)
  | leave (c : SockId)
deriving DecidableEq, Repr

variable (env : HttpEnv) (ρ : HttpRouting)

/-- The routed sockets are busy: the only step about one of them is a heartbeat
that does not find it expired. -/
def Leaves (l : Http.Label) : Prop :=
  ∀ c, l.sock = some c → (ρ.routing c).isSome → l = .heartbeatSock c ∧
    (ρ.http.heartbeatGetIntervals env).poll ≤ (ρ.http.socks c).lastSend

instance (l : Http.Label) : Decidable (ρ.Leaves env l) :=
  match h : l.sock with
  | none => .isTrue fun c here => by rw [h] at here; cases here
  | some d =>
    if away : (ρ.routing d).isSome → l = .heartbeatSock d ∧
        (ρ.http.heartbeatGetIntervals env).poll ≤ (ρ.http.socks d).lastSend then
      .isTrue fun c here => by rw [h] at here; cases here; exact away
    else .isFalse fun leaves => away (leaves d h)

/-- The body is done with: `protocol_http_route` forgets its length. -/
def done (c : SockId) (σ : Http) : HttpRouting where
  http := σ.setSock c fun k => { k with bodyLen := 0 }
  routing := Function.update ρ.routing c none

/-- `protocol_http_route` and `_do_body` up to the loop of `_surr_route`. -/
def enter (c : SockId) (s : SurrId) (body : Bytes) : HttpRouting :=
  let σ := (ρ.http.routeBegin c).setSock c fun k => { k with inBody := false }
  { http := σ.setSurr s fun r => { r with incoming := true }
    routing := Function.update ρ.routing c (some (s, bodyLines body)) }

/-- One turn of the loop. -/
def line (c : SockId) (s : SurrId) (msg : Bytes) (msgs : List Bytes) (turn : Turn) :
    HttpRouting :=
  let σ := { ρ.http with handled := ρ.http.handled ++ [(s, msg)] }
  match parseEvent turn.erange msg with
  | none => ρ.done c ((σ.closeSurr s .invalidEventFormat).sendError env (some c) .status400).1
  | some _ =>
    { http := σ.acts turn.acts
      routing := Function.update ρ.routing c (some (s, msgs)) }

/-- The body goes to `_surr_route`: the tests of `protocol_http_route` and
`_do_body`. -/
def Posts (c : SockId) (body : Bytes) : Prop :=
  ρ.http.Routes c ∧ (ρ.http.socks c).inBody = true ∧
    body.length = (ρ.http.socks c).bodyLen ∧ env.publicAddress ≠ none ∧
    (ρ.http.socks c).iframeRequested = false ∧ (ρ.http.socks c).isPost = true

instance (c : SockId) (body : Bytes) : Decidable (ρ.Posts env c body) := by
  unfold Posts
  infer_instance

/-- What a step does, where it can be taken. -/
def step (ρ : HttpRouting) (l : Label) : Option HttpRouting :=
  if ρ.http.aborted then none
  else
    match l with
    | .other l =>
      if ρ.Leaves env l then (ρ.http.step env l).map fun σ => { ρ with http := σ } else none
    | .enter c body =>
      match ρ.routing c, (ρ.http.socks c).client with
      | none, some s => if ρ.Posts env c body then some (ρ.enter c s body) else none
      | _, _ => none
    | .line c turn =>
      match ρ.routing c with
      | some (s, msg :: msgs) => some (ρ.line env c s msg msgs turn)
      | _ => none
    | .leave c =>
      match ρ.routing c with
      | some (s, []) => some (ρ.done c (ρ.http.surrFlush env s c))
      | _ => none

def system : TransitionSystem HttpRouting Label where
  init ρ := ρ = ⟨Http.start, fun _ => none⟩
  step := step env

/-- What a body that is being routed rests on: its socket is linked to the
surrogate, and nobody else can answer it. -/
structure Busy (ρ : HttpRouting) : Prop where
  inv : Owing nothing ρ.http
  linked : Linked ρ.http []
  routed : ∀ c s msgs, ρ.routing c = some (s, msgs) → Held c s ρ.http
  running : ρ.http.aborted = false

/-- What moves that cannot answer a socket leave of the body it routes. -/
theorem held_framed {P : SockId → Prop} {σ τ : Http} {c : SockId} {s : SurrId}
    (frame : Frame P σ τ) (other : ¬P c) (held : Held c s σ) : Held c s τ := by
  obtain ⟨client, -, inBody, -⟩ := frame.socks c other
  refine ⟨client.trans held.link, inBody.trans held.ready, ?_⟩
  intro r polls
  rcases frame.polled r c polls with before | mine
  · exact held.detached r before
  · exact other mine

/-- A routed socket is nobody's poller. -/
theorem held_away {σ : Http} {c d : SockId} {s : SurrId} (held : Held d s σ) (other : d ≠ c) :
    ¬(d = c ∨ σ.Polled d) := by
  rintro (same | ⟨r, polls⟩)
  · exact other same
  · exact held.detached r polls

namespace Busy

variable {env : HttpEnv} {ρ : HttpRouting}

/-- A step of another client. -/
theorem other (busy : Busy ρ) {l : Http.Label} {τ : Http} (leaves : ρ.Leaves env l)
    (stepped : ρ.http.step env l = some τ) : Busy { ρ with http := τ } := by
  have moves := step_moves busy.inv busy.linked stepped
  have frame := moves.frame
  refine ⟨busy.inv.step stepped, moves.linked busy.linked, ?_, frame.aborted.trans busy.running⟩
  intro c s msgs routes
  have held := busy.routed c s msgs routes
  by_cases mine : l.sock = some c
  · -- a heartbeat, which finds a socket that was read just now
    obtain ⟨rfl, recent⟩ := leaves c mine (by rw [routes]; rfl)
    cases step_cases stepped
    have still : ρ.http.heartbeatSock env c = ρ.http := by
      simp only [Http.heartbeatSock, held.link]
      exact if_neg (Int.not_lt.mpr recent)
    dsimp only
    rw [still]
    exact held
  · apply held_framed frame _ held
    rintro (⟨same, -⟩ | ⟨r, polls⟩)
    · exact mine same
    · exact held.detached r polls

/-- Moves of one routed body, whatever becomes of it, leave the others alone. -/
theorem others (busy : Busy ρ) {c : SockId} {τ : Http} {entry : Option (SurrId × List Bytes)}
    (moves : Moves (fun d => d = c ∨ ρ.http.Polled d) (ρ.http, []) (τ, []))
    (inv : Owing nothing τ) (mine : ∀ s msgs, entry = some (s, msgs) → Held c s τ) :
    Busy ⟨τ, Function.update ρ.routing c entry⟩ := by
  have frame := moves.frame
  refine ⟨inv, moves.linked busy.linked, ?_, frame.aborted.trans busy.running⟩
  intro d s msgs routes
  dsimp only at routes
  rw [Function.update_apply] at routes
  split at routes
  next here =>
    rw [here]
    exact mine s msgs routes
  next away =>
    have held := busy.routed d s msgs routes
    exact held_framed frame (held_away held away) held

/-- A body that is done with. -/
theorem done (busy : Busy ρ) {c : SockId} {τ : Http}
    (moves : Moves (fun d => d = c ∨ ρ.http.Polled d) (ρ.http, []) (τ, []))
    (inv : Owing nothing τ) : Busy (ρ.done c τ) := by
  apply busy.others (moves.trans (Moves.keep c _ (Or.inl rfl) ⟨rfl, rfl, rfl, rfl, rfl, rfl⟩ rfl))
  · exact inv.keepSock c _ rfl rfl rfl rfl rfl
  · rintro s msgs ⟨⟩

theorem enter (busy : Busy ρ) {c : SockId} {s : SurrId} {body : Bytes}
    (link : (ρ.http.socks c).client = some s) (posts : ρ.Posts env c body) :
    Busy (ρ.enter c s body) := by
  obtain ⟨⟨-, open_, -⟩, waits, -⟩ := posts
  -- Nobody polls on `c`: it was waiting for this body.
  have alone := busy.inv.detached_inBody c open_ waits
  have began : Owing nothing (ρ.http.routeBegin c) := busy.inv.keepSock c _ rfl rfl rfl rfl rfl
  have ready : Owing nothing
      ((ρ.http.routeBegin c).setSock c fun k => { k with inBody := false }) := by
    apply began.setSock
    · exact began.linked c
    · intro r polls
      exact absurd polls (alone r)
  have there := (busy.inv.linked c s link).2.2
  -- Only `c` and the pollers are touched.
  have moves : Moves (fun d => d = c ∨ ρ.http.Polled d) (ρ.http, [])
      ((ρ.http.routeBegin c).setSock c fun k => { k with inBody := false }, []) :=
    (Moves.keep c _ (Or.inl rfl) ⟨rfl, rfl, rfl, rfl, rfl, rfl⟩ rfl).trans
      (Moves.own c _ (Or.inl rfl) alone rfl rfl rfl fun _ => ⟨rfl, rfl⟩)
  have held : Held c s ((ρ.http.routeBegin c).setSock c fun k => { k with inBody := false }) := by
    refine ⟨?_, by simp, alone⟩
    simpa [Http.routeBegin] using link
  apply busy.others (moves.trans (Moves.surr s _ rfl rfl rfl id))
  · exact ready.setSurr s there _
      ⟨rfl, rfl, fun never => Bool.noConfusion never, Or.inr rfl, id⟩
  · rintro r msgs ⟨⟩
    exact held.setSurr s _ (Or.inr rfl)

theorem line (busy : Busy ρ) {c : SockId} {s : SurrId} {msg : Bytes} {msgs : List Bytes}
    (turn : Turn) (routes : ρ.routing c = some (s, msg :: msgs)) :
    Busy (ρ.line env c s msg msgs turn) := by
  have held := busy.routed c s _ routes
  -- A line may answer the poller of any surrogate.
  have covers : Covers (fun d => d = c ∨ ρ.http.Polled d) ρ.http := fun _ polls => Or.inr polls
  have logged : Moves (fun d => d = c ∨ ρ.http.Polled d) (ρ.http, [])
      ({ ρ.http with handled := ρ.http.handled ++ [(s, msg)] }, []) :=
    Moves.log _ rfl rfl rfl rfl rfl rfl fun _ _ _ => id
  have inv : Owing nothing { ρ.http with handled := ρ.http.handled ++ [(s, msg)] } :=
    busy.inv.congr rfl rfl rfl rfl rfl
  have still : Held c s { ρ.http with handled := ρ.http.handled ++ [(s, msg)] } :=
    held.congr rfl rfl
  simp only [HttpRouting.line]
  split
  -- A line that does not parse closes the surrogate and answers 400.
  next =>
    have there := (inv.linked c s still.link).2.2
    have closed := inv.closeSurr s there .invalidEventFormat
    apply busy.done
    · exact (logged.trans (Moves.closeSurr s _)).trans
        (Moves.sendError env c .status400 (Or.inl rfl))
    · exact closed.sendError env c .status400
  -- A line that parses is given to its handler, which acts on the surrogates.
  next =>
    obtain ⟨after, heldAfter⟩ := inv.acts still turn.acts
    apply busy.others (logged.trans (Moves.acts (covers.after logged) turn.acts)) after
    rintro r rest ⟨⟩
    exact heldAfter

theorem leave (busy : Busy ρ) {c : SockId} {s : SurrId} (routes : ρ.routing c = some (s, [])) :
    Busy (ρ.done c (ρ.http.surrFlush env s c)) := by
  have held := busy.routed c s _ routes
  have covers : Covers (fun d => d = c ∨ ρ.http.Polled d) ρ.http := fun _ polls => Or.inr polls
  exact busy.done (Moves.surrFlush covers busy.linked env s c (Or.inl rfl) held)
    (busy.inv.surrFlush env held)

theorem step (busy : Busy ρ) {l : Label} {ρ' : HttpRouting}
    (stepped : ρ.step env l = some ρ') : Busy ρ' := by
  simp only [HttpRouting.step, busy.running, Bool.false_eq_true, if_false] at stepped
  cases l with
  | other l =>
    obtain ⟨leaves, stepped⟩ := Option.ite_none_right_eq_some.mp stepped
    obtain ⟨τ, taken, rfl⟩ := Option.map_eq_some_iff.mp stepped
    exact busy.other leaves taken
  | enter c body =>
    dsimp only at stepped
    split at stepped
    next s _ link =>
      obtain ⟨posts, ⟨⟩⟩ := Option.ite_none_right_eq_some.mp stepped
      exact busy.enter link posts
    next => cases stepped
  | line c turn =>
    dsimp only at stepped
    split at stepped
    next s msg msgs routes =>
      cases stepped
      exact busy.line turn routes
    next => cases stepped
  | leave c =>
    dsimp only at stepped
    split at stepped
    next s routes =>
      cases stepped
      exact busy.leave routes
    next => cases stepped

end Busy

/-! ### A body routed at once -/

/-- The lines that are left, and the end of `_surr_route`. -/
theorem lines_run (env : HttpEnv) (c : SockId) (s : SurrId) (msgs : List Bytes)
    (turns : List Turn) (ρ : HttpRouting) (busy : Busy ρ)
    (routes : ρ.routing c = some (s, msgs)) :
    ∃ ls, (system env).run ρ ls = some (ρ.done c (match surrLines s ρ.http msgs turns with
      | (σ, false) => (σ.sendError env (some c) .status400).1
      | (σ, true) => σ.surrFlush env s c)) := by
  induction msgs generalizing ρ turns with
  | nil =>
    have running : ¬ρ.http.aborted = true := by simp [busy.running]
    refine ⟨[.leave c], ?_⟩
    apply ((system env).run_cons_iff _ _ _ _).mpr ⟨_, _, rfl⟩
    simp only [system, HttpRouting.step, if_neg running, routes]
    rfl
  | cons msg msgs ih =>
    have running : ¬ρ.http.aborted = true := by simp [busy.running]
    have stepped : (system env).step ρ (.line c (turns.headD {})) =
        some (ρ.line env c s msg msgs (turns.headD {})) := by
      simp only [system, HttpRouting.step, if_neg running, routes]
    have after : Busy (ρ.line env c s msg msgs (turns.headD {})) :=
      busy.line (turns.headD {}) routes
    simp only [surrLines]
    simp only [HttpRouting.line] at stepped after
    -- The bad line closes, and the lines after it are not read.
    cases parsed : parseEvent (turns.headD {}).erange msg with
    | none =>
      simp only [parsed] at stepped
      exact ⟨[.line c (turns.headD {})],
        ((system env).run_cons_iff _ _ _ _).mpr ⟨_, stepped, rfl⟩⟩
    -- The line is handled, and the rest of them follow.
    | some event =>
      simp only [parsed] at stepped after
      obtain ⟨ls, rest⟩ := ih turns.tail _ after (Function.update_self ..)
      refine ⟨.line c (turns.headD {}) :: ls,
        ((system env).run_cons_iff _ _ _ _).mpr ⟨_, stepped, ?_⟩⟩
      rw [rest]
      -- Leaving twice is leaving once.
      simp only [HttpRouting.done, Function.update_idem]

/-- A body that is routed in one step is a run of smaller steps. -/
theorem body_run {env : HttpEnv} {ρ : HttpRouting} (busy : Busy ρ) {c : SockId} {s : SurrId}
    {body : Bytes} (turns : List Turn) (free : ρ.routing c = none)
    (link : (ρ.http.socks c).client = some s) (posts : ρ.Posts env c body) :
    ∃ ls, (system env).run ρ ls = some { ρ with http := ρ.http.routeBody env c body turns } := by
  have running : ¬ρ.http.aborted = true := by simp [busy.running]
  obtain ⟨ls, rest⟩ := lines_run env c s (bodyLines body) turns (ρ.enter c s body)
    (busy.enter link posts) (Function.update_self ..)
  have entered : (system env).step ρ (.enter c body) = some (ρ.enter c s body) := by
    simp only [system, HttpRouting.step, if_neg running, free, link, if_pos posts]
  obtain ⟨-, -, -, serves, page, post⟩ := posts
  -- `_do_body` reaches `_surr_route`: the guards of `Posts` rule out its other branches.
  refine ⟨.enter c body :: ls, ((system env).run_cons_iff _ _ _ _).mpr ⟨_, entered, ?_⟩⟩
  have routed : ρ.http.routeBody env c body turns =
      (((ρ.http.routeBegin c).setSock c fun k => { k with inBody := false }).surrRoute env s c
        body turns).setSock c fun k => { k with bodyLen := 0 } := by
    have link' : (((ρ.http.routeBegin c).setSock c fun k =>
        { k with inBody := false }).socks c).client = some s := by
      simpa [Http.routeBegin] using link
    have page' : (((ρ.http.routeBegin c).setSock c fun k =>
        { k with inBody := false }).socks c).iframeRequested = false := by
      simpa [Http.routeBegin] using page
    have post' : (((ρ.http.routeBegin c).setSock c fun k =>
        { k with inBody := false }).socks c).isPost = true := by
      simpa [Http.routeBegin] using post
    simp only [Http.routeBody, Http.doBody, if_neg serves, page', post', link', Bool.not_true,
      Bool.false_eq_true, if_false]
  rw [rest, routed]
  have back : Function.update ρ.routing c none = ρ.routing := by
    rw [← free, Function.update_eq_self]
  simp only [HttpRouting.done, HttpRouting.enter, Function.update_idem, back]
  rfl

theorem run_busy (env : HttpEnv) (ls : List Label) (ρ : HttpRouting)
    (ran : (system env).run ⟨Http.start, fun _ => none⟩ ls = some ρ) : Busy ρ := by
  apply (system env).run_invariant Busy (fun _ _ _ before stepped => before.step stepped)
    ⟨Http.start, fun _ => none⟩ ρ ls _ ran
  refine ⟨Owing.start_owing, start_linked, ?_, rfl⟩
  rintro c s msgs ⟨⟩

/-- The state in which the end of `_surr_route` calls `_surr_send`. -/
def flushed (s : SurrId) : Http :=
  (ρ.http.setSurr s fun r => { r with incoming := false }).setSurr s
    fun r => { r with wbuff := [] }

theorem surrFlush_send (env : HttpEnv) (c : SockId) (s : SurrId)
    (some : (ρ.http.surrs s).wbuff ≠ []) :
    ρ.http.surrFlush env s c = (ρ.flushed s).surrSend env s c (ρ.http.surrs s).wbuff := by
  have kept : ((ρ.http.setSurr s fun r => { r with incoming := false }).surrs s).wbuff =
      (ρ.http.surrs s).wbuff := by simp
  simp only [Http.surrFlush, kept, if_neg some]
  rfl

/-- In every run, whatever the handlers and the other clients do between the
lines: where `_surr_send` falls back to the socket whose body was routed, that
is sent the response, so the assertion has never failed. -/
theorem newPoller_answered (env : HttpEnv) (ls : List Label) (ρ : HttpRouting)
    (ran : (system env).run ⟨Http.start, fun _ => none⟩ ls = some ρ) :
    ρ.http.aborted = false ∧
    ∀ c s, ρ.routing c = some (s, []) → ∀ resp,
      (((ρ.flushed s).sendPoller s resp).1.sendResponse (some c) resp).2 = true := by
  have busy := run_busy env ls ρ ran
  refine ⟨busy.running, ?_⟩
  intro c s routes resp
  have held : Held c s (ρ.flushed s) :=
    ((busy.routed c s [] routes).setSurr s _ (Or.inr rfl)).setSurr s _ (Or.inr rfl)
  have flush : Moves ρ.http.Polled (ρ.http, []) (ρ.flushed s, []) :=
    (Moves.surr s (fun r => { r with incoming := false }) rfl rfl rfl id).trans
      (Moves.surr s (fun r => { r with wbuff := [] }) rfl rfl rfl id)
  have covers : Covers ρ.http.Polled ρ.http := fun _ => id
  have first : Moves ρ.http.Polled (ρ.http, []) (((ρ.flushed s).sendPoller s resp).1, []) :=
    flush.trans (Moves.sendPoller (covers.after flush) s resp)
  have other := held.sendPoller s resp
  rw [sendResponse_sent]
  exact ((first.linked busy.linked).tied.linked c s other.link).1

/-- While a body is routed, a second socket of its session replaces the poller
and is answered by the first of two messages. The second message waits. -/
def overtaken : List Label := [
  .other .opened, .other .opened, .other .opened,
  .other (.header 0 (samplePost "0") true), .other (.body 0 [] []),
  .other (.header 1 (samplePost "16") true), .enter 1 (str "/qio/ping:1=null"),
  .other (.header 2 (samplePost "0") true), .other (.body 2 [] []),
  .other (.heartbeatSock 1),
  .line 1 ⟨false, [.send 0 ⟨str "/a", [], 0, str "1"⟩, .send 0 ⟨str "/b", [], 0, str "2"⟩]⟩]

theorem newPoller_answered_overtaken :
    ∃ ρ, (system sampleEnv).run ⟨Http.start, fun _ => none⟩ overtaken = some ρ ∧
      (ρ.http.surrs 0).client = none ∧ (ρ.http.surrs 0).wbuff = str "/b:0=2\n" ∧
      (((ρ.flushed 0).sendPoller 0 (buildResponse .status200 (str "/b:0=2\n"))).1.sendResponse
        (some 1) (buildResponse .status200 (str "/b:0=2\n"))).2 = true := by
  have runs : ((system sampleEnv).run ⟨Http.start, fun _ => none⟩ overtaken).isSome := by decide
  obtain ⟨ρ, ran⟩ := Option.isSome_iff_exists.mp runs
  have finished : ∀ ρ ∈ (system sampleEnv).run ⟨Http.start, fun _ => none⟩ overtaken,
      ρ.routing 1 = some (0, []) ∧ (ρ.http.surrs 0).client = none ∧
        (ρ.http.surrs 0).wbuff = str "/b:0=2\n" := by decide
  obtain ⟨routes, alone, waits⟩ := finished ρ ran
  exact ⟨ρ, ran, alone, waits, (newPoller_answered sampleEnv overtaken ρ ran).2 1 0 routes _⟩

end HttpRouting

end QuickIO
