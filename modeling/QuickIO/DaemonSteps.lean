import QuickIO.DaemonRuns
import QuickIO.Delivery

/-!
# Steps of the server

Each step keeps the invariant of `Daemon.Inv`, and so every run does.
-/
namespace QuickIO

open Lib Server

/-! ### A body is routed -/

namespace Http

variable {env : HttpEnv} {σ τ : Http} {i : SockId} {body : Bytes}

/-- The socket as the body finds it. -/
def bodyBegin (σ : Http) (i : SockId) : Http :=
  (σ.routeBegin i).setSock i fun k => { k with inBody := false }

theorem bodyBegin_sock (σ : Http) (i : SockId) :
    ((σ.bodyBegin i).socks i).iframeRequested = (σ.socks i).iframeRequested ∧
      ((σ.bodyBegin i).socks i).isPost = (σ.socks i).isPost ∧
      ((σ.bodyBegin i).socks i).client = (σ.socks i).client := by
  simp [bodyBegin, routeBegin]

theorem Mute.bodyBegin (σ : Http) (i : SockId) : Mute σ (σ.bodyBegin i) :=
  (Mute.setSock i _).trans (Mute.setSock i _)

/-- Only a body for a session gives anything to one. -/
theorem Mute.routeBody (nobody : σ.bodyOf env i = none) (body : Bytes) (turns : List Turn) :
    Mute σ (σ.routeBody env i body turns) := by
  obtain ⟨iframe, isPost, client⟩ := σ.bodyBegin_sock i
  apply (Mute.bodyBegin σ i).trans
  have routed : Mute (σ.bodyBegin i) ((σ.bodyBegin i).doBody env i body turns) := by
    simp only [Http.bodyOf] at nobody
    simp only [Http.doBody, iframe, isPost, client]
    split at nobody
    next off =>
      rw [if_pos off]
      exact sendError env (some i) _
    next on =>
      rw [if_neg on]
      split at nobody
      next page =>
        rw [if_pos page]
        exact sendResponse (some i) _
      next other =>
        rw [if_neg other]
        split at nobody
        next get =>
          rw [if_pos get]
          exact sendError env (some i) _
        next post =>
          rw [if_neg post, nobody]
          exact sendError env (some i) _
  exact routed.trans (setSock i fun k => { k with bodyLen := 0 })

theorem doBody_session {s : SurrId} (is : σ.bodyOf env i = some s) (body : Bytes)
    (turns : List Turn) :
    (σ.bodyBegin i).doBody env i body turns = (σ.bodyBegin i).surrRoute env s i body turns := by
  obtain ⟨iframe, isPost, client⟩ := σ.bodyBegin_sock i
  simp only [Http.bodyOf] at is
  simp only [Http.doBody, iframe, isPost, client]
  split_ifs at is ⊢
  rw [is]

/-- What the lines of a body gave a session is all it is given. -/
theorem Gives.surrRoute {s : SurrId} {turns : List Turn} {messages : List Message}
    (lines : Gives (σ.setSurr s fun r => { r with incoming := true })
      (surrLines s (σ.setSurr s fun r => { r with incoming := true }) (bodyLines body) turns).1 s
      messages) : Gives σ (σ.surrRoute env s i body turns) s messages := by
  have began : Mute σ (σ.setSurr s fun r => { r with incoming := true }) :=
    Mute.setSurr s _ fun _ => rfl
  simp only [Http.surrRoute]
  generalize surrLines s (σ.setSurr s fun r => { r with incoming := true }) (bodyLines body) turns =
    result at lines
  obtain ⟨τ, taken⟩ := result
  have given := Gives.before began lines
  cases taken with
  | false => exact given.after (Mute.sendError env (some i) _)
  | true => exact given.after (Mute.surrFlush env s i)

end Http

/-- The lines of a body, in the router and in HTTP. -/
theorem Core.lines_spec {queue : List Broadcast} (plan : Nat → Call) (s : SurrId)
    (lines : List Bytes) (core : Core) (sound : core.Sound queue) (σ : Http)
    (made : s < σ.nextSurr) :
    ∃ (more : List Post) (asked : List EvsCb), (core.lines plan s lines).1.posts = core.posts ++ more ∧
      (∀ post ∈ more, post.client = Recipient.client (.surrogate s)) ∧
      (core.lines plan s lines).1.replies.requests =
        core.replies.requests ++ asked.map (Recipient.client (.surrogate s), ·) ∧
      (core.lines plan s lines).1.Sound queue ∧
      Http.Gives σ (Http.surrLines s σ lines (core.lines plan s lines).2).1 s
        (more.map Post.message) := by
  induction lines generalizing core σ with
  | nil =>
    exact ⟨[], [], (List.append_nil _).symm, by simp, (List.append_nil _).symm, sound,
      .ofMute (.refl σ) s⟩
  | cons line rest ih =>
    let logged : Http := { σ with handled := σ.handled ++ [(s, line)] }
    have log : Http.Mute σ logged := .same rfl rfl
    simp only [Core.lines]
    cases parsed : parseEvent (plan core.next).erange line with
    | none =>
      -- the line is refused, and the session closed
      refine ⟨[], [], (List.append_nil _).symm, by simp, (List.append_nil _).symm, sound, ?_⟩
      simp only [Http.surrLines, List.headD_cons, parsed]
      exact .ofMute (log.trans (.closeSurr s _)) s
    | some ev =>
      obtain ⟨more, posts, mine, messages, requests⟩ :=
        core.route_posts (plan core.next).env (Recipient.client (.surrogate s)) ev
      have routed := sound.route (plan core.next).env (Recipient.client (.surrogate s)) ev
      simp only [Http.surrLines, List.headD_cons, List.tail_cons, parsed]
      generalize core.route (plan core.next).env (Recipient.client (.surrogate s)) ev = result
        at posts messages requests routed
      obtain ⟨core', sent⟩ := result
      have handled : Http.Gives logged (logged.acts (sent.map (.send s))) s sent :=
        Http.Gives.acts (σ := logged) made sent
      obtain ⟨later, asked, posts', mine', requests', sound', gives⟩ :=
        ih core' routed (logged.acts (sent.map (.send s)))
          (Nat.lt_of_lt_of_le made handled.nextSurr)
      refine ⟨more ++ later, ev.clientCb :: asked, ?_, ?_, ?_, sound', ?_⟩
      · rw [posts', posts, List.append_assoc]
      · intro post member
        exact (List.mem_append.mp member).elim (mine post) (mine' post)
      · rw [requests', requests, List.append_assoc]
        rfl
      · have both := (Http.Gives.before log handled).trans gives
        rwa [List.map_append, messages]

/-! ### The invariant -/

/-- Every message is for a client that is ready, one after the other. -/
theorem Wired.foldl {α : Type} {env : HttpEnv} {act : World → α → World} {post : α → Post}
    (acts : ∀ {core core' : Core} {w : World} (x : α), Wired env core w →
      w.Ready (recipient (post x).client) → core'.posts = core.posts ++ [post x] →
      core'.replies.requests = core.replies.requests → Wired env core' (act w x))
    (still : ∀ (w : World) (x : α), w.Ready (recipient (post x).client) →
      ∀ q, w.Ready q → (act w x).Ready q)
    (items : List α) {core core' : Core} {w : World} (wired : Wired env core w)
    (ready : ∀ x ∈ items, w.Ready (recipient (post x).client))
    (posts : core'.posts = core.posts ++ items.map post)
    (requests : core'.replies.requests = core.replies.requests) :
    Wired env core' (items.foldl act w) := by
  induction items generalizing core w with
  | nil => exact wired.congr (posts.trans (List.append_nil _)) requests
  | cons x items ih =>
    have here := ready x List.mem_cons_self
    let core₁ : Core := { core with posts := core.posts ++ [post x] }
    have first : Wired env core₁ (act w x) := acts x wired here rfl rfl
    apply ih first
    · exact fun y member => still w x here _ (ready y (List.mem_cons_of_mem x member))
    · rw [posts, List.append_assoc]
      rfl
    · exact requests

/-- What a heartbeat is: an event that asks for a callback after a long silence, the same
event without one after a short silence, or nothing. -/
def Peer.Beaten (now : Int) (p : Peer) (serverCb : EvsCb) (q : Peer) : Prop :=
  if p.beats now then p.Ready ∧ q.Ready ∧ q.frame = p.frame ∧
    q.written = p.written ++ [p.frame (heartbeatEvent serverCb)] ∧ q.events = p.events ∧
    q.conn = p.conn ∧ (p.Greeted → q.Greeted)
  else p.Aside q

theorem Peer.Ready.doHeartbeat {p : Peer} (ready : p.Ready) {now : Int} {serverCb : EvsCb}
    {bytes : Bytes} (some_ : p.prot.bind Prot.heartbeatFrame = some bytes)
    (frame : bytes = p.frame (heartbeatEvent evsNoCallback))
    (quiet : p.challenged now = false → serverCb = evsNoCallback) :
    p.Beaten now serverCb (p.protocolRawDoHeartbeat now bytes serverCb) := by
  have challenged : p.challenged now =
      (!decide (p.lastRecv < (protocolsHeartbeatGetIntervals now).dead) &&
        decide (p.lastRecv < (protocolsHeartbeatGetIntervals now).challenge)) := by
    simp [Peer.challenged, ready.2, some_]
  have beats : p.beats now = (!decide (p.lastRecv < (protocolsHeartbeatGetIntervals now).dead) &&
      (decide (p.lastRecv < (protocolsHeartbeatGetIntervals now).challenge) ||
        decide (p.lastSend < (protocolsHeartbeatGetIntervals now).heartbeat))) := by
    simp [Peer.beats, ready.2, some_]
  rw [Peer.Beaten, Peer.protocolRawDoHeartbeat]
  by_cases dead : p.lastRecv < (protocolsHeartbeatGetIntervals now).dead
  · rw [if_neg (by simp [beats, dead]), if_pos dead]
    exact .qevClose p .heartattack
  · rw [if_neg dead]
    by_cases silent : p.lastRecv < (protocolsHeartbeatGetIntervals now).challenge
    · obtain ⟨still, same, wrote, events⟩ := ready.send now (heartbeatEvent serverCb)
      rw [if_pos (by simp [beats, dead, silent]), if_pos silent]
      exact ⟨ready, still, same, wrote, events, p.conn_protocolsSend now _,
        fun greeted => greeted.send ready now _⟩
    · -- nobody is challenged
      have plain := quiet (by simp [challenged, silent])
      rw [if_neg silent]
      by_cases idle : p.lastSend < (protocolsHeartbeatGetIntervals now).heartbeat
      · rw [if_pos (by simp [beats, dead, idle]), if_pos idle, plain, ← frame]
        refine ⟨ready, ready, rfl, Peer.written_record _, ?_, rfl, fun greeted =>
          greeted.write ready (Or.inr (Or.inr rfl)) rfl rfl rfl rfl rfl⟩
        exact (Peer.events_record _).trans (List.append_nil _)
      · rw [if_neg (by simp [beats, silent, idle]), if_neg idle]
        exact .refl p

/-- What the heartbeat of a socket writes: the event of a heartbeat, or nothing. -/
theorem Peer.heartbeat_spec {α : Type} (app : App α) (plain : ∀ state p, app.httpHeartbeat state p = none)
    (now : Int) (state : α) (p : Peer) {serverCb : EvsCb}
    (quiet : p.challenged now = false → serverCb = evsNoCallback) :
    p.Beaten now serverCb (Served.protocolsHeartbeat app now ⟨state, p⟩ serverCb).peer := by
  have still : (p.prot.bind Prot.heartbeatFrame = none ∨ p.handshaked = false) →
      p.Beaten now serverCb p := by
    intro none_
    have silent : p.beats now = false := by
      rcases none_ with none_ | unready
      · simp [Peer.beats, none_]
      · simp [Peer.beats, unready]
    simpa [Peer.Beaten, silent] using Peer.Aside.refl p
  simp only [Served.protocolsHeartbeat]
  split
  next shook =>
    split
    next none_ => exact still (Or.inl (by rw [none_]; rfl))
    next http =>
      rw [plain]
      exact still (Or.inl (by rw [http]; rfl))
    next prot _ is =>
      split
      next none_ => exact still (Or.inl (by rw [is]; exact none_))
      next bytes some_ =>
        -- the bytes are those of the event
        have frame : bytes = p.frame (heartbeatEvent evsNoCallback) ∧ Prot.Framed p.prot := by
          rw [Peer.frame, is]
          cases prot with
          | http => cases some_
          | flash => cases some_
          | raw =>
            cases some_
            exact ⟨by decide, Or.inl rfl⟩
          | rfc6455 =>
            cases some_
            exact ⟨by decide, Or.inr rfl⟩
        have ready : p.Ready := ⟨frame.2, shook⟩
        exact ready.doHeartbeat (by rw [is]; exact some_) frame.1 quiet
  next unready => exact still (Or.inr (Bool.not_eq_true _ ▸ unready))

theorem entry_evsSendFull (env : Env) (σ : Server) (json : Option Bytes)
    (cbFn cbData freeFn : Option Ptr) (c : ClientId) (ev : Event Handlers) (evExtra : Option Bytes)
    (b : ClientId) (s : SubId) :
    (σ.evsSendFull env json cbFn cbData freeFn c ev evExtra).1.entry b s = σ.entry b s := by
  simp only [Server.evsSendFull]
  split
  next => rfl
  next =>
    split
    next => rfl
    next r τ got =>
      have same : SameSubs τ (τ.evsSendSubFull env json cbFn cbData freeFn c r).1 :=
        sameSubs_evsSendSubFull r
      rw [entry_subUnref, same.entry, Server.entry, (subGet_clients got).1]
      rfl

namespace Daemon

/-- Subscriptions, answers and what was written are as they should be. -/
structure Inv (env : HttpEnv) (d : Daemon) : Prop where
  sound : d.core.Sound d.queue
  wired : Wired env d.core d.world

/-- Clients that are closing have been marked. -/
def Marked (d : Daemon) : Prop := ∀ c ∈ d.world.closers, (d.server.clients c).closing = true

section Steps

variable {env : HttpEnv} {d d' : Daemon}

/-- Only the subscriptions and callbacks change. -/
theorem Inv.setServer (inv : Inv env d) (τ : Server) (queue : List Broadcast)
    (kept : ∀ approvals created, Resources.Kept ⟨d.server, approvals, [], d.queue, created⟩ →
      ∃ created', Resources.Kept ⟨τ, approvals, [], queue, created'⟩)
    (entries : ∀ c s, τ.entry c s ≠ none → d.server.entry c s ≠ none) :
    Inv env { d with core := d.core.setServer τ, queue } :=
  ⟨inv.sound.setServer τ kept entries, inv.wired.congr rfl rfl⟩

theorem Inv.sameSubs (inv : Inv env d) {τ : Server} (same : SameSubs d.server τ) :
    Inv env { d with core := d.core.setServer τ } :=
  ⟨inv.sound.sameSubs same, inv.wired.congr rfl rfl⟩

/-- Who has an entry is ready. -/
theorem Inv.ready_entry (inv : Inv env d) {c : ClientId} {s : SubId}
    (used : d.server.entry c s ≠ none) : d.world.Ready (recipient c) := by
  have known := inv.sound.users c s used
  rw [← client_recipient c] at known
  exact inv.wired.linked.known _ known

theorem Inv.http (inv : Inv env d) {l : Http.Label} (stepped : d.http env l = some d')
    (body : ∀ c body turns, l ≠ .body c body turns) (act : ∀ a, l ≠ .act a) : Inv env d' := by
  obtain ⟨τ, took, rfl⟩ := Option.map_eq_some_iff.mp stepped
  exact ⟨inv.sound, inv.wired.mute l took (.step inv.wired.unused took body act)⟩

theorem Inv.read (inv : Inv env d) (i : Nat) (bytes : Bytes) (plan : Nat → Call) :
    Inv env (d.read i bytes plan) := by
  have still : d.world.setPeer i (d.world.peers i) = d.world := by simp [World.setPeer]
  by_cases closing : (d.world.peers i).conn.closing.isSome
  · -- nothing is read from a client that is closing
    have unread : d.read i bytes plan = d := by
      simp only [Daemon.read, Served.read, if_pos closing, still]
    rw [unread]
    exact inv
  have before : Reading env d.queue d.world i ⟨d.core, d.world.peers i⟩ := by
    refine ⟨inv.sound, ?_, (inv.wired.greeted i).open_of_closing (by simpa using closing)⟩
    rw [still]
    exact inv.wired
  have read := before.does (@Served.read_does _ _ d.world.http.now _
    (app_plain (Recipient.client (.peer i)) plan) (inv.wired.fresh i) bytes)
  exact ⟨read.sound, read.wired⟩

theorem Inv.body (inv : Inv env d) (i : Nat) (bytes : Bytes) (plan : Nat → Call)
    (stepped : d.body env i bytes plan = some d') : Inv env d' := by
  simp only [Daemon.body] at stepped
  split at stepped
  next nobody =>
    obtain ⟨τ, took, rfl⟩ := Option.map_eq_some_iff.mp stepped
    have mute := Http.Mute.routeBody nobody bytes []
    cases Http.step_cases took
    exact ⟨inv.sound, inv.wired.mute _ took mute⟩
  next s is =>
    obtain ⟨τ, took, rfl⟩ := Option.map_eq_some_iff.mp stepped
    -- a session that is linked has been made
    obtain ⟨ls, ran⟩ := inv.wired.reached
    have client : (d.world.http.socks i).client = some s := by
      simp only [Http.bodyOf] at is
      split_ifs at is
      exact is
    have made : s < d.world.http.nextSurr :=
      ((Http.run_linked env ls _ ran).2.tied.linked i s client).2.2.2
    let began := (d.world.http.bodyBegin i).setSurr s fun r => { r with incoming := true }
    obtain ⟨more, asked, posts, mine, requests, sound, gives⟩ :=
      Core.lines_spec plan s (Http.bodyLines bytes) d.core inv.sound began made
    have given : Http.Gives d.world.http
        (d.world.http.routeBody env i bytes (d.core.lines plan s (Http.bodyLines bytes)).2) s
        (more.map Post.message) := by
      have routed := (@Http.Gives.surrRoute env _ i bytes s _ _ gives).after
        (.setSock i fun k => { k with bodyLen := 0 })
      rw [← Http.doBody_session is] at routed
      exact .before (.bodyBegin _ i) routed
    cases Http.step_cases took
    refine ⟨sound, inv.wired.gives _ took made given posts mine rfl ?_ ?_⟩
    · rintro q ⟨clientCb, member⟩
      rw [requests] at member
      rcases List.mem_append.mp member with before | new
      · exact Or.inl ⟨clientCb, before⟩
      · obtain ⟨cb, -, same⟩ := List.mem_map.mp new
        have client : Recipient.client (.surrogate s) = q.client := congrArg Prod.fst same
        cases client_injective client
        exact Or.inr made
    · -- the events are those of the session
      intro j
      have others : (asked.map (Recipient.client (.surrogate s), ·)).filter
          (fun request => request.1 = Recipient.client (.peer j)) = [] := by
        rw [List.filter_eq_nil_iff]
        intro request member same
        obtain ⟨cb, -, rfl⟩ := List.mem_map.mp member
        have client : Recipient.client (.surrogate s) = Recipient.client (.peer j) :=
          of_decide_eq_true same
        cases client_injective client
      rw [Core.asked, requests, List.filter_append, others, List.append_nil, Core.asked]

/-- Calls of `protocols_send` to clients that are ready. -/
theorem Inv.send (inv : Inv env d) (core : Core) (sends : List Send) (answers : Option Nat)
    (sound : core.Sound d.queue)
    (ready : ∀ m ∈ sends, d.world.Ready (recipient m.client))
    (posts : core.posts = d.core.posts ++ sends.map (Send.post answers))
    (requests : core.replies.requests = d.core.replies.requests) :
    Inv env { d with
      core
      world := sends.foldl (fun w m => w.protocolsSend m.message (recipient m.client)) d.world } := by
  refine ⟨sound, Wired.foldl ?_ ?_ sends inv.wired ready posts requests⟩
  · intro core core' w m wired ready posts requests
    refine wired.protocolsSend ready m.message answers ?_ requests
    rw [client_recipient]
    exact posts
  · intro w m ready q before
    exact ((World.Writes.protocolsSend ready m.message).ready q before).1

/-- What an application sends on its own account answers nothing. -/
theorem Inv.sendNew (inv : Inv env d) {τ : Server} {sends : List Send}
    (kept : ∀ approvals created, Resources.Kept ⟨d.server, approvals, [], d.queue, created⟩ →
      ∃ created', Resources.Kept ⟨τ, approvals, [], d.queue, created'⟩)
    (entries : ∀ c s, τ.entry c s ≠ none → d.server.entry c s ≠ none)
    (ready : ∀ m ∈ sends, d.world.Ready (recipient m.client)) : Inv env (d.send τ sends none) := by
  have sound := (inv.sound.setServer τ kept entries).post _ (answer_posts_none sends)
  exact inv.send _ sends none sound ready rfl rfl

theorem Inv.onCb (inv : Inv env d) (event : Env) (success : Bool) {n : Nat} {info : EvsOnInfo}
    (found : d.core.replies.approvals.lookup n = some info) {replies : Replies.State}
    (stepped : Replies.step d.core.replies (.onCb event n success) = some replies) :
    let result := d.server.evsOnCbLate event success info
    Inv env ({ d with core := { d.core with replies } }.send result.1 result.2 (some n)) := by
  intro result
  simp only [Replies.step, found] at stepped
  cases stepped
  have member : (n, info) ∈ d.core.replies.approvals := by
    obtain ⟨before, after, split, -⟩ := List.lookup_eq_some_iff.mp found
    simp [split]
  have known : d.core.Known info.client :=
    ⟨info.clientCb, List.mem_of_getElem? (inv.sound.replies.waiting n info member).2⟩
  rw [← client_recipient info.client] at known
  have ready := inv.wired.linked.known _ known
  refine inv.send _ result.2 (some n) (inv.sound.complete event success found) ?_ rfl rfl
  -- the answer goes to the client of the info
  intro m sent
  have client := replied_client (evsOnCb_replied event d.server success info) m sent
  rw [client]
  exact ready

theorem Inv.cb (inv : Inv env d) {event : Env} {n : Nat} {code : EvsCode} {errMsg json : Option Bytes}
    {cbFn cbData freeFn : Option Ptr} {c : ClientId} {clientCb : EvsCb}
    (asked : d.core.replies.requests[n]? = some (c, clientCb)) {replies : Replies.State}
    (stepped : Replies.step d.core.replies (.cb event n code errMsg json cbFn cbData freeFn) =
      some replies) :
    let result := d.server.evsCbFull event c clientCb code errMsg json cbFn cbData freeFn
    Inv env ({ d with core := { d.core with replies } }.send result.1 result.2 (some n)) := by
  intro result
  obtain ⟨c', clientCb', member, request, rfl⟩ := Replies.step_cb stepped
  cases asked.symm.trans request
  have known : d.core.Known c := ⟨clientCb, List.mem_of_getElem? asked⟩
  rw [← client_recipient c] at known
  have ready := inv.wired.linked.known _ known
  have same : SameSubs d.server result.1 := sameSubs_evsCbFull ..
  refine inv.send _ result.2 (some n) (inv.sound.answerKept member same result.2) ?_ rfl rfl
  intro m sent
  have client := replied_client (evsCbFull_replied event d.server c clientCb code errMsg json cbFn
    cbData freeFn) m sent
  rw [client]
  exact ready

theorem Inv.broadcast (inv : Inv env d) (ev : Event Handlers) (evExtra : Bytes)
    (json : Option Bytes) :
    let result := d.server.evsBroadcast ev evExtra json
    Inv env { d with core := d.core.setServer result.1, queue := d.queue ++ result.2.toList } := by
  refine inv.setServer _ _ ?_ ?_
  · intro approvals created kept
    exact ⟨created, Resources.kept_step _ (.broadcast ev evExtra json) _ kept rfl⟩
  · intro c s used
    simp only [Server.evsBroadcast] at used
    split at used
    next => exact used
    next r τ got =>
      rwa [Server.entry, (subGet_clients got).1] at used

theorem entry_evsBroadcastTick (σ : Server) (queue : List Broadcast) (c : ClientId) (s : SubId) :
    (σ.evsBroadcastTick queue).1.entry c s = σ.entry c s := by
  induction queue generalizing σ with
  | nil => rfl
  | cons bc queue ih => exact (ih (σ.subUnref bc.sub)).trans (by rw [entry_subUnref])

/-- The tick writes to subscribers only. -/
theorem Inv.ready_write (inv : Inv env d) :
    ∀ write ∈ d.queue.flatMap d.server.broadcastWrites, d.world.Ready (recipient write.client) := by
  intro write member
  obtain ⟨bc, -, member⟩ := List.mem_flatMap.mp member
  obtain ⟨item, listed, rfl⟩ := List.mem_map.mp member
  obtain ⟨created, kept⟩ := inv.sound.kept
  obtain ⟨csub, stored, -⟩ := (kept.inv.lists.listed item.2 bc.sub item.1).mp listed
  have used : d.server.entry item.2 bc.sub ≠ none := by
    rw [Daemon.server, stored]
    exact Option.some_ne_none csub
  exact inv.ready_entry used

theorem writes_unasked (writes : List BcastWrite) :
    (writes.map BcastWrite.post).filterMap Post.answer = [] := by
  induction writes with
  | nil => rfl
  | cons write writes ih => exact ih

theorem Inv.tick (inv : Inv env d) : Inv env d.tick := by
  have writes := d.server.evsBroadcastTick_writes d.queue
  have ready := inv.ready_write
  rw [← writes] at ready
  have sound : (d.core.setServer (d.server.evsBroadcastTick d.queue).1).Sound [] := by
    apply inv.sound.setServer
    · intro approvals created kept
      exact ⟨created, Resources.kept_step _ .tick _ kept rfl⟩
    · intro c s used
      rwa [entry_evsBroadcastTick] at used
  refine ⟨sound.post _ (writes_unasked _),
    Wired.foldl ?_ ?_ _ inv.wired ready rfl rfl⟩
  · intro core core' w write wired ready posts requests
    refine wired.protocolsBcastWrite ready write.path write.json none ?_ requests
    rw [client_recipient]
    exact posts
  · intro w write ready q before
    exact ((World.Writes.protocolsBcastWrite ready write.path write.json).ready q before).1

/-- `client_closed` on a client that is closing. -/
theorem Inv.clientClosed (inv : Inv env d) {c : ClientId}
    (closing : (d.server.clients c).closing = true) :
    Inv env { d with core := d.core.setServer (d.server.clientClosed c) } := by
  refine inv.setServer (d.server.clientClosed c) d.queue ?_ ?_
  · intro approvals created kept
    exact ⟨created, Resources.kept_step _ (.closed c) _ kept (if_pos closing)⟩
  · intro b s used
    obtain ⟨created, kept⟩ := inv.sound.kept
    have emptied := kept.inv.emptied c
    rw [clientClosed_eq] at used
    by_cases here : b = c
    · subst here
      simp [Server.entry, setClient, Client.subGet] at used
    · have same : (d.server.emptied c).clients b = d.server.clients b := emptied.others b here
      simpa [Server.entry, setClient, here, same] using used

theorem Inv.marked (inv : Inv env d) : Inv env d.marked := by
  refine inv.setServer (d.world.closers.foldl Server.qevClose d.server) d.queue ?_ ?_
  · intro approvals created kept
    refine ⟨created, ?_⟩
    generalize d.server = σ at kept
    induction d.world.closers generalizing σ with
    | nil => exact kept
    | cons c closers ih => exact ih _ (Resources.kept_step _ (.close c) _ kept rfl)
  · intro c s used
    have same : ∀ (closers : List ClientId) (σ : Server),
        (closers.foldl Server.qevClose σ).entry c s = σ.entry c s := by
      intro closers
      induction closers with
      | nil => exact fun σ => rfl
      | cons b closers ih => exact fun σ => (ih _).trans (entry_qevClose σ b c s)
    rwa [same] at used

/-! ### Heartbeats, closing and upgrades -/

theorem Inv.heartbeatPeer (inv : Inv env d) (event : Env) (i : Nat) :
    Inv env (d.heartbeatPeer event i) := by
  let c := Recipient.client (.peer i)
  let now := d.world.http.now
  let made := if (d.world.peers i).challenged now then d.server.cbNew event c (some heartbeatCb) none none
    else (d.server, evsNoCallback)
  let app := Core.app c fun _ => ⟨event, false, []⟩
  have same : SameSubs d.server made.1 := by
    simp only [made]
    split
    next => exact sameSubs_cbNew event d.server c _ none none
    next => exact .refl d.server
  have sound := inv.sound.sameSubs same
  have plain : (d.world.peers i).challenged now = false → made.2 = evsNoCallback := by
    intro quiet
    simp [made, quiet]
  have spec := Peer.heartbeat_spec app (fun _ _ => rfl) now d.core (d.world.peers i) plain
  simp only [Peer.Beaten] at spec
  generalize beat : (Served.protocolsHeartbeat app now ⟨d.core, d.world.peers i⟩ made.2).peer = q at spec
  have result : d.heartbeatPeer event i =
      { d with
        core := { d.core.setServer made.1 with
          posts := d.core.posts ++ if (d.world.peers i).beats now then
            [⟨c, heartbeatEvent made.2, none⟩] else [] }
        world := d.world.setPeer i q } := by
    rw [← beat]
    rfl
  rw [result]
  split at spec
  next beats =>
    obtain ⟨ready, still, frame, wrote, events, conn, greeted⟩ := spec
    rw [if_pos beats]
    refine ⟨sound.post _ rfl, inv.wired.post_peer ready (heartbeatEvent made.2) none ?_ rfl rfl still
      events conn greeted⟩
    exact .setPeer_self (fun _ => ⟨still, frame⟩) wrote
  next beats =>
    rw [if_neg beats]
    exact ⟨sound.post _ rfl, (inv.wired.aside spec).congr (List.append_nil _) rfl⟩

theorem Inv.periodic (inv : Inv env d) (event : Env) (c : ClientId) (before : Int) :
    Inv env (d.periodic env event c before) := by
  have http : ∀ l, (∀ c body turns, l ≠ .body c body turns) → (∀ a, l ≠ .act a) →
      Inv env ((d.http env l).getD d) := by
    intro l body act
    cases took : d.http env l with
    | none => exact inv
    | some d' => exact inv.http took body act
  simp only [Daemon.periodic]
  split
  next i _ =>
    split
    next =>
      have beaten := http (.heartbeatSock i) (by simp) (by simp)
      exact beaten.sameSubs (SameSubs.setCallbacks _ _ _ _)
    next => exact (inv.heartbeatPeer event i).sameSubs (SameSubs.setCallbacks _ _ _ _)
  next s _ =>
    have beaten := http (.heartbeatSurr s) (by simp) (by simp)
    exact beaten.sameSubs (SameSubs.setCallbacks _ _ _ _)

theorem Inv.close (inv : Inv env d) (reason : CloseReason) (r : Recipient) :
    Inv env { d with world := d.world.qevClose reason r } := by
  refine ⟨inv.sound, ?_⟩
  cases r with
  | peer i =>
    simp only [World.qevClose]
    split
    next =>
      apply inv.wired.mute _ (inv.wired.act_step _)
      simp only [Http.act]
      split
      next => exact .closeSock i reason
      next => exact .refl _
    next => exact inv.wired.aside (.qevClose _ reason)
  | surrogate s =>
    apply inv.wired.mute _ (inv.wired.act_step _)
    simp only [Http.act]
    split
    next => exact .closeSurr s reason
    next => exact .refl _

/-- A header, which may make a WebSocket of the socket. -/
theorem Inv.header (inv : Inv env d) {i : Nat} (speaks : d.world.SpeaksHttp i) {req : HttpRequest}
    {room : Bool} {τ : Http} (took : d.world.http.step env (.header i req room) = some τ) :
    Inv env { d with world := d.world.upgraded τ i } := by
  have headed := inv.wired.mute _ took
    (.step inv.wired.unused took (by simp) (by simp))
  refine ⟨inv.sound, ?_⟩
  simp only [World.upgraded]
  split
  next =>
    apply headed.still
    · rintro ⟨raw | rfc6455, -⟩
      · cases raw.symm.trans speaks.1
      · cases rfc6455.symm.trans speaks.1
    · exact (Peer.written_record _).trans (List.append_nil _)
    · exact (Peer.events_record _).trans (List.append_nil _)
    · exact id
    · exact fun _ => rfl
    · intro greeted
      have moved : Peer.Greeted { d.world.peers i with
          conn := { (d.world.peers i).conn with rbuff := [] } } :=
        greeted.aside (.same rfl rfl rfl rfl rfl)
      apply moved.setProt
      · simp [speaks.1]
      · rintro ⟨raw | rfc6455, -⟩
        · cases raw.symm.trans speaks.1
        · cases rfc6455.symm.trans speaks.1
      · exact greeted.open_of_closing speaks.2
      · simp [Peer.greeting, speaks.1, Prot.handshakeReply]
  next => exact headed

/-- A socket is told that it was closed. -/
theorem Inv.onClose (inv : Inv env d) {i : Nat} {q : Peer} (closed : (d.world.peers i).onClose = some q) :
    Inv env { d with world := d.world.setPeer i q } := by
  obtain ⟨-, reason, closing, -, prot, handshaked, conn, written, events, -, -⟩ :=
    Peer.onClose_cases closed
  refine ⟨inv.sound, inv.wired.still ?_ written events ?_ ?_ fun greeted => greeted.onClose closed⟩
  · exact fun ready => ⟨ready.congr prot handshaked, Peer.frame_congr prot⟩
  · intro gone
    rwa [conn]
  · intro none_
    rw [handshaked]
    exact inv.wired.fresh i (prot ▸ none_)

theorem Inv.closed (inv : Inv env d) (marked : d.Marked) {c : ClientId}
    (closing : c ∈ d.world.closers) (stepped : d.closed env c = some d') : Inv env d' := by
  have told : ∀ told : Daemon, Inv env told → told.core = d.core →
      Inv env { told with core := told.core.setServer (told.server.clientClosed c) } := by
    intro told after same
    apply after.clientClosed
    rw [Daemon.server, same]
    exact marked c closing
  have http : ∀ l, (∀ c body turns, l ≠ .body c body turns) → (∀ a, l ≠ .act a) →
      ∀ υ, d.http env l = some υ →
        Inv env { υ with core := υ.core.setServer (υ.server.clientClosed c) } := by
    intro l body act υ took
    apply told υ (inv.http took body act)
    obtain ⟨τ, -, rfl⟩ := Option.map_eq_some_iff.mp took
    rfl
  obtain ⟨υ, took, rfl⟩ := Option.map_eq_some_iff.mp stepped
  split at took
  next i _ =>
    split at took
    next => exact http (.onCloseSock i) (by simp) (by simp) υ took
    next =>
      obtain ⟨q, is, rfl⟩ := Option.map_eq_some_iff.mp took
      exact told _ (inv.onClose is) rfl
  next s _ => exact http (.onCloseSurr s) (by simp) (by simp) υ took

/-- Every step keeps the invariant. -/
theorem Inv.handle (inv : Inv env d) (marked : d.Marked) (l : Label)
    (stepped : d.handle env l = some d') : Inv env d' := by
  cases l with
  | time usec => exact inv.http stepped (by simp) (by simp)
  | opened => exact inv.http stepped (by simp) (by simp)
  | read i bytes plan =>
    obtain ⟨-, ⟨⟩⟩ := Option.ite_none_right_eq_some.mp stepped
    exact inv.read i bytes plan
  | again i =>
    obtain ⟨-, stepped⟩ := Option.ite_none_right_eq_some.mp stepped
    exact inv.http stepped (by simp) (by simp)
  | header i req room =>
    obtain ⟨speaks, stepped⟩ := Option.ite_none_right_eq_some.mp stepped
    obtain ⟨τ, took, rfl⟩ := Option.map_eq_some_iff.mp stepped
    exact inv.header speaks took
  | bodyOverflow i used =>
    obtain ⟨-, stepped⟩ := Option.ite_none_right_eq_some.mp stepped
    exact inv.http stepped (by simp) (by simp)
  | body i bytes plan =>
    obtain ⟨-, stepped⟩ := Option.ite_none_right_eq_some.mp stepped
    exact inv.body i bytes plan stepped
  | onCb event n success =>
    simp only [Daemon.handle] at stepped
    split at stepped
    next => cases stepped
    next info found =>
      obtain ⟨replies, took, rfl⟩ := Option.map_eq_some_iff.mp stepped
      exact inv.onCb event success found took
  | cb event n code errMsg json cbFn cbData freeFn =>
    simp only [Daemon.handle] at stepped
    split at stepped
    next => cases stepped
    next c clientCb asked =>
      obtain ⟨replies, took, rfl⟩ := Option.map_eq_some_iff.mp stepped
      exact inv.cb asked took
  | sendFull event c ev evExtra json cbFn cbData freeFn =>
    simp only [Daemon.handle, Option.some.injEq] at stepped
    subst stepped
    refine inv.sendNew (fun _ created kept => ⟨created, kept.evsSendFull ev evExtra⟩) ?_ ?_
    · intro b s used
      rwa [entry_evsSendFull] at used
    · intro m member
      obtain ⟨s, used⟩ := evsSendFull_entry member
      exact inv.ready_entry used
  | sendSubFull event c sub json cbFn cbData freeFn =>
    simp only [Daemon.handle, Option.some.injEq] at stepped
    subst stepped
    have same :
        SameSubs d.server (d.server.evsSendSubFull event json cbFn cbData freeFn c sub).1 :=
      sameSubs_evsSendSubFull sub
    refine inv.sendNew (fun _ created kept => ⟨created, kept.sameSubs same⟩) ?_ ?_
    · intro b s used
      rwa [same.entry] at used
    · exact fun m member => inv.ready_entry (evsSendSubFull_entry member)
  | sendBruteforce event c evPrefix evPath evExtra json cbFn cbData freeFn =>
    simp only [Daemon.handle, Option.ite_none_right_eq_some, Option.some.injEq] at stepped
    obtain ⟨known, rfl⟩ := stepped
    have same := sameSubs_cbNew event d.server c cbFn cbData freeFn
    refine inv.sendNew (fun _ created kept => ⟨created, kept.sameSubs same⟩) ?_ ?_
    · exact fun b s used => same.entry b s ▸ used
    · intro m member
      rw [← client_recipient c] at known
      rw [List.mem_singleton.mp member]
      exact inv.wired.linked.known _ known
  | broadcast ev evExtra json =>
    cases stepped
    exact inv.broadcast ev evExtra json
  | tick =>
    cases stepped
    exact inv.tick
  | periodic event c before =>
    cases stepped
    exact inv.periodic event c before
  | close c reason =>
    cases stepped
    exact inv.close reason (recipient c)
  | closed c =>
    obtain ⟨⟨closing, -⟩, stepped⟩ := Option.ite_none_right_eq_some.mp stepped
    exact inv.closed marked closing stepped

theorem marked_marked (d : Daemon) : d.marked.Marked := by
  have keeps : ∀ (closers : List ClientId) (σ : Server) (c : ClientId),
      (c ∈ closers ∨ (σ.clients c).closing = true) →
        ((closers.foldl Server.qevClose σ).clients c).closing = true := by
    intro closers
    induction closers with
    | nil => exact fun σ c either => either.resolve_left (List.not_mem_nil)
    | cons b closers ih =>
      intro σ c either
      apply ih
      by_cases here : c = b
      · right
        simp [Server.qevClose, setClient, here]
      · refine either.imp (fun member => (List.mem_cons.mp member).resolve_left here) ?_
        intro closing
        simpa [Server.qevClose, setClient, here] using closing
  exact fun c member => keeps d.world.closers d.server c (Or.inl member)

theorem inv_init (init : (system env).init d) : Inv env d ∧ d.Marked := by
  obtain ⟨⟨⟨server, requests, approvals, kept, sent⟩, posts⟩, queue, world⟩ := d
  obtain ⟨blank, fairUsed, offCalls, rfl, rfl, rfl, rfl, rfl, rfl, rfl⟩ := init
  refine ⟨⟨⟨⟨[], ?_⟩, ⟨by simp, by simp, by simp, List.nodup_nil, by simp⟩, ?_, rfl⟩,
    ⟨⟨?_, ?_, ?_⟩, ⟨[], rfl⟩, ?_, ?_, ?_, ?_⟩⟩, ?_⟩
  · exact Resources.kept_init _ ⟨blank, fairUsed, offCalls, rfl, rfl, rfl, rfl⟩
  · intro c s used
    exact absurd ((Inv.of_blank blank).fresh c s (blank.nextSub ▸ Nat.zero_le s)) used
  · rintro r ⟨clientCb, member⟩
    cases member
  · exact fun r some_ => absurd rfl some_
  · intro r
    cases r with
    | peer i => rfl
    | surrogate s => rfl
  · exact fun s _ => rfl
  · exact fun i _ => rfl
  · exact fun i => Or.inl .nil
  · exact fun i => .of_greeting rfl rfl rfl fun _ => rfl
  · intro c member
    cases member

theorem inv_step (l : Label) (inv : Inv env d ∧ d.Marked) (stepped : d.step env l = some d') :
    Inv env d' ∧ d'.Marked := by
  obtain ⟨υ, handled, rfl⟩ := Option.map_eq_some_iff.mp stepped
  exact ⟨(inv.1.handle inv.2 l handled).marked, marked_marked υ⟩

theorem inv_reachable (reached : (system env).Reachable d) : Inv env d :=
  ((system env).reachable_invariant (fun d => Inv env d ∧ d.Marked) (fun _ init => inv_init init)
    (fun _ l _ inv stepped => inv_step l inv stepped) d reached).1

end Steps

end Daemon

end QuickIO
