import QuickIO.Wires

/-!
# Runs of the server

Whatever clients send, applications do and the clock says, in every order: the
subscriptions stay consistent and paid for, events are answered, and what is posted for a
client is what it was written. Each step of the server is one of the event router, one of
HTTP, or a change to one socket, and for each of these the invariant is kept on its own.
-/
namespace QuickIO

open Lib

/-- The callbacks the events of a client came with. -/
def Core.asked (core : Core) (c : ClientId) : List EvsCb :=
  (core.replies.requests.filter fun request => request.1 = c).map Prod.snd

/-- Events that were routed, with the callbacks they came with. -/
inductive Taken : List Bytes → List EvsCb → Prop
  | nil : Taken [] []
  | event {events : List Bytes} {asked : List EvsCb} (before : Taken events asked)
      (erange : Bool) (event : Bytes) (ev : RawEvent) (parsed : parseEvent erange event = some ev) :
      Taken (events ++ [event]) (asked ++ [ev.clientCb])

/-- Every event of a socket was routed, or the last one was refused and closed it. -/
def Handed (core : Core) (p : Peer) (c : ClientId) : Prop :=
  Taken p.events (core.asked c) ∨
    ∃ events event erange, p.events = events ++ [event] ∧ Taken events (core.asked c) ∧
      parseEvent erange event = none ∧ p.conn.closing ≠ none

/-- What there is of clients, and what they have been written. -/
structure Wired (env : HttpEnv) (core : Core) (w : World) : Prop where
  linked : core.Linked w
  reached : ∃ ls, (Http.system env).run Http.start ls = some w.http
  unused : w.http.Unused
  fresh : ∀ i, (w.peers i).prot = none → (w.peers i).handshaked = false
  handed : ∀ i, Handed core (w.peers i) (Recipient.client (.peer i))
  greeted : ∀ i, (w.peers i).Greeted

section Wired

variable {env : HttpEnv} {core core' : Core} {w : World} {r : Recipient} {τ : Http}
  {messages : List Message} {more : List Post}

theorem Core.asked_congr (requests : core'.replies.requests = core.replies.requests) (c : ClientId) :
    core'.asked c = core.asked c := by
  rw [Core.asked, requests, Core.asked]

theorem Core.known_congr (requests : core'.replies.requests = core.replies.requests) (q : Recipient)
    (known : core'.Known q.client) : core.Known q.client ∨ w.Ready q := by
  obtain ⟨clientCb, member⟩ := known
  exact Or.inl ⟨clientCb, requests ▸ member⟩

/-- One more event of a client. -/
theorem Core.asked_append {c d : ClientId} {clientCb : EvsCb}
    (requests : core'.replies.requests = core.replies.requests ++ [(c, clientCb)]) :
    core'.asked d = core.asked d ++ if d = c then [clientCb] else [] := by
  rw [Core.asked, requests, List.filter_append, List.map_append, Core.asked]
  congr 1
  split
  next here => simp [here]
  next other => simp [Ne.symm other]

/-- Sockets are counted by their logs and their state. -/
theorem Handed.congr {p q : Peer} {c : ClientId} (handed : Handed core p c)
    (asked : core'.asked c = core.asked c) (events : q.events = p.events)
    (closing : p.conn.closing ≠ none → q.conn.closing ≠ none) : Handed core' q c := by
  rw [Handed, asked, events]
  refine handed.imp id ?_
  rintro ⟨events, event, erange, split, taken, refused, gone⟩
  exact ⟨events, event, erange, split, taken, refused, closing gone⟩

/-- Only what was posted and asked for matters of the events. -/
theorem Wired.congr (wired : Wired env core w) (posts : core'.posts = core.posts)
    (requests : core'.replies.requests = core.replies.requests) : Wired env core' w where
  linked := wired.linked.still (.peer 0) (.refl w _) posts (Core.known_congr requests)
  reached := wired.reached
  unused := wired.unused
  fresh := wired.fresh
  handed i := (wired.handed i).congr (Core.asked_congr requests _) rfl id
  greeted := wired.greeted

theorem Wired.not_aborted (wired : Wired env core w) : w.http.aborted = false := by
  obtain ⟨ls, ran⟩ := wired.reached
  have kept := (Http.system env).run_invariant
    (fun σ => (Http.Owing Http.nothing σ ∧ Http.Linked σ []) ∧ σ.aborted = false)
    (fun σ l τ before stepped => by
      have moves := Http.step_moves before.1.1 before.1.2 stepped
      exact ⟨⟨before.1.1.step stepped, moves.linked before.1.2⟩,
        moves.frame.aborted.trans before.2⟩)
    Http.start w.http ls ⟨⟨Http.Owing.start_owing, Http.start_linked⟩, rfl⟩ ran
  exact kept.2

/-! ### A socket changes -/

theorem Wired.setPeer (wired : Wired env core w) {i : Nat} {q : Peer}
    (writes : World.Writes w (w.setPeer i q) (.peer i) messages)
    (posts : core'.posts = core.posts ++ more)
    (mine : ∀ post ∈ more, post.client = Recipient.client (.peer i))
    (same : more.map Post.message = messages) (ready : more ≠ [] → (w.peers i).Ready)
    (known : ∀ q, core'.Known q.client → core.Known q.client ∨ w.Ready q)
    (fresh : q.prot = none → q.handshaked = false)
    (greeted : (w.peers i).Greeted → q.Greeted)
    (handed : Handed core' q (Recipient.client (.peer i)))
    (others : ∀ d, d ≠ Recipient.client (.peer i) → core'.asked d = core.asked d) :
    Wired env core' (w.setPeer i q) where
  linked := wired.linked.writes writes posts mine same ready known
  reached := wired.reached
  unused := wired.unused
  fresh j := by
    by_cases here : j = i
    · subst here
      rwa [World.peers_setPeer_self]
    · rw [World.peers_setPeer w here]
      exact wired.fresh j
  handed j := by
    by_cases here : j = i
    · subst here
      rwa [World.peers_setPeer_self]
    · rw [World.peers_setPeer w here]
      refine (wired.handed j).congr (others _ fun same => here ?_) rfl id
      cases client_injective same
      rfl
  greeted j := by
    by_cases here : j = i
    · subst here
      rw [World.peers_setPeer_self]
      exact greeted (wired.greeted j)
    · rw [World.peers_setPeer w here]
      exact wired.greeted j

/-- Nothing is written and nothing handled. -/
theorem Wired.still (wired : Wired env core w) {i : Nat} {q : Peer}
    (ready : (w.peers i).Ready → q.Ready ∧ q.frame = (w.peers i).frame)
    (written : q.written = (w.peers i).written) (events : q.events = (w.peers i).events)
    (closing : (w.peers i).conn.closing ≠ none → q.conn.closing ≠ none)
    (fresh : q.prot = none → q.handshaked = false)
    (greeted : (w.peers i).Greeted → q.Greeted) : Wired env core (w.setPeer i q) := by
  have writes : World.Writes w (w.setPeer i q) (.peer i) [] := by
    apply World.Writes.setPeer_self ready
    rw [written, List.map_nil, List.append_nil]
  exact wired.setPeer writes (List.append_nil _).symm (by simp) rfl
    (fun some_ => absurd rfl some_) (fun _ => Or.inl) fresh greeted
    ((wired.handed i).congr rfl events closing) fun _ _ => rfl

theorem Wired.aside (wired : Wired env core w) {i : Nat} {q : Peer}
    (aside : (w.peers i).Aside q) : Wired env core (w.setPeer i q) := by
  apply wired.still _ aside.written aside.events aside.closing
  · intro none_
    rw [aside.prot] at none_
    rw [aside.handshaked]
    exact wired.fresh i none_
  · exact fun greeted => greeted.aside aside
  · exact fun ready => ⟨ready.congr aside.prot aside.handshaked, Peer.frame_congr aside.prot⟩

/-- A message that is posted for a socket that is ready. -/
theorem Wired.post_peer (wired : Wired env core w) {i : Nat} (ready : (w.peers i).Ready)
    (m : Message) (answers : Option Nat) {q : Peer}
    (writes : World.Writes w (w.setPeer i q) (.peer i) [m])
    (posts : core'.posts = core.posts ++ [⟨Recipient.client (.peer i), m, answers⟩])
    (requests : core'.replies.requests = core.replies.requests)
    (still : q.Ready) (events : q.events = (w.peers i).events)
    (conn : q.conn = (w.peers i).conn) (greeted : (w.peers i).Greeted → q.Greeted) : Wired env core' (w.setPeer i q) := by
  apply wired.setPeer writes posts
  · intro post member
    rw [List.mem_singleton.mp member]
  · rfl
  · exact fun _ => ready
  · exact Core.known_congr requests
  · intro none_
    obtain ⟨raw | rfc6455, -⟩ := still
    · cases none_.symm.trans raw
    · cases none_.symm.trans rfc6455
  · exact greeted
  · exact (wired.handed i).congr (Core.asked_congr requests _) events (by rw [conn]; exact id)
  · exact fun d _ => Core.asked_congr requests d

/-! ### HTTP takes a step -/

theorem Wired.http (wired : Wired env core w) (l : Http.Label) (stepped : w.http.step env l = some τ)
    (writes : World.Writes w { w with http := τ } r messages) (unused : τ.Unused)
    (posts : core'.posts = core.posts ++ more) (mine : ∀ post ∈ more, post.client = r.client)
    (same : more.map Post.message = messages) (ready : more ≠ [] → w.Ready r)
    (known : ∀ q, core'.Known q.client → core.Known q.client ∨ w.Ready q)
    (asked : ∀ i, core'.asked (Recipient.client (.peer i)) = core.asked (Recipient.client (.peer i))) :
    Wired env core' { w with http := τ } where
  linked := wired.linked.writes writes posts mine same ready known
  reached := by
    obtain ⟨ls, ran⟩ := wired.reached
    refine ⟨ls ++ [l], ((Http.system env).run_append_iff _ _ _ _).mpr ⟨w.http, ran, ?_⟩⟩
    exact ((Http.system env).run_cons_iff _ _ _ _).mpr ⟨τ, stepped, rfl⟩
  unused := unused
  fresh := wired.fresh
  handed i := (wired.handed i).congr (asked i) rfl id
  greeted := wired.greeted

/-- A step that gives nothing to sessions. -/
theorem Wired.mute (wired : Wired env core w) (l : Http.Label)
    (stepped : w.http.step env l = some τ) (mute : Http.Mute w.http τ) :
    Wired env core { w with http := τ } :=
  wired.http l stepped (.mute mute (.peer 0)) (mute.fresh wired.unused)
    (List.append_nil _).symm (by simp) rfl (fun some_ => absurd rfl some_) (fun _ => Or.inl)
    fun _ => rfl

/-- Messages for a session. -/
theorem Wired.gives (wired : Wired env core w) (l : Http.Label)
    (stepped : w.http.step env l = some τ) {s : SurrId} (made : s < w.http.nextSurr)
    (gives : Http.Gives w.http τ s messages) (posts : core'.posts = core.posts ++ more)
    (mine : ∀ post ∈ more, post.client = Recipient.client (.surrogate s))
    (same : more.map Post.message = messages)
    (known : ∀ q, core'.Known q.client → core.Known q.client ∨ w.Ready q)
    (asked : ∀ i, core'.asked (Recipient.client (.peer i)) = core.asked (Recipient.client (.peer i))) :
    Wired env core' { w with http := τ } :=
  wired.http l stepped (.gives gives) (gives.fresh made wired.unused) posts mine same
    (fun _ => made) known asked

theorem Wired.act_step (wired : Wired env core w) (a : Http.Act) :
    w.http.step env (.act a) = some (w.http.act a) := by
  simp [Http.step, wired.not_aborted]

/-! ### A message is posted -/

theorem Wired.protocolsSend (wired : Wired env core w) (ready : w.Ready r) (m : Message)
    (answers : Option Nat) (posts : core'.posts = core.posts ++ [⟨r.client, m, answers⟩])
    (requests : core'.replies.requests = core.replies.requests) :
    Wired env core' (w.protocolsSend m r) := by
  cases r with
  | peer i =>
    have ready : (w.peers i).Ready := ready
    obtain ⟨still, same, wrote, events⟩ := ready.send w.http.now m
    exact wired.post_peer ready m answers (.setPeer_self (fun _ => ⟨still, same⟩) wrote) posts
      requests still events (Peer.conn_protocolsSend _ m) fun greeted => greeted.send ready _ m
  | surrogate s =>
    have made : s < w.http.nextSurr := ready
    have stepped := wired.act_step (.send s m)
    rw [Http.act, if_pos made] at stepped
    exact wired.gives _ stepped made (.protocolsSend s m) posts (by simp) rfl
      (Core.known_congr requests) fun _ => Core.asked_congr requests _

theorem Wired.protocolsBcastWrite (wired : Wired env core w) (ready : w.Ready r)
    (path json : Bytes) (answers : Option Nat)
    (posts : core'.posts = core.posts ++ [⟨r.client, ⟨path, [], evsNoCallback, json⟩, answers⟩])
    (requests : core'.replies.requests = core.replies.requests) :
    Wired env core' (w.protocolsBcastWrite (protocolsBcast path json) r) := by
  have writes := World.Writes.protocolsBcastWrite ready path json
  cases r with
  | peer i =>
    have ready : (w.peers i).Ready := ready
    simp only [World.protocolsBcastWrite] at writes ⊢
    split at writes
    next none_ =>
      obtain ⟨raw | rfc6455, -⟩ := ready
      · cases none_.symm.trans raw
      · cases none_.symm.trans rfc6455
    next prot is =>
      rw [if_pos ready.2] at writes ⊢
      rw [ready.bcast w.http.now path json prot is] at writes ⊢
      refine wired.post_peer ready _ answers writes posts requests ready ?_ rfl fun greeted =>
        greeted.write ready (Or.inr (Or.inl rfl)) rfl rfl rfl rfl rfl
      rw [Peer.events_record, List.append_nil]
      rfl
  | surrogate s =>
    have made : s < w.http.nextSurr := ready
    have stepped := wired.act_step (.send s ⟨path, [], evsNoCallback, json⟩)
    have same := Http.send_bcast w.http s path [] json
    rw [List.append_nil] at same
    rw [Http.act, if_pos made] at stepped
    simp only [World.protocolsBcastWrite, same]
    exact wired.gives _ stepped made (.protocolsSend s _) posts (by simp) rfl
      (Core.known_congr requests) fun _ => Core.asked_congr requests _

end Wired

/-! ### Bytes are read -/

/-- Answers go to the client of the event. -/
theorem replied_client {c : ClientId} {clientCb : EvsCb} {sends : List Send}
    (replied : Replied c clientCb sends) : ∀ m ∈ sends, m.client = c := by
  intro m member
  simp only [Replied] at replied
  split at replied
  next =>
    rw [replied] at member
    cases member
  next =>
    obtain ⟨serverCb, json, one⟩ := replied
    rw [one] at member
    rw [List.mem_singleton.mp member]

theorem settled_client {c : ClientId} {clientCb : EvsCb} {outcome : Server.Outcome}
    (settled : Settled c clientCb outcome) : ∀ m ∈ outcome.sends, m.client = c := by
  intro m member
  simp only [Settled] at settled
  split at settled
  next =>
    split at settled
    next =>
      rw [settled] at member
      cases member
    next => exact replied_client settled m member
  next =>
    rw [settled.2.1] at member
    cases member

theorem posts_client {c : ClientId} {sends : List Send} (mine : ∀ m ∈ sends, m.client = c)
    (answers : Option Nat) : ∀ post ∈ sends.map (Send.post answers), post.client = c := by
  intro post member
  obtain ⟨m, sent, rfl⟩ := List.mem_map.mp member
  exact mine m sent

theorem posts_message (sends : List Send) (answers : Option Nat) :
    (sends.map (Send.post answers)).map Post.message = sends.map Send.message := by
  rw [List.map_map]
  rfl

/-- What routing an event posts, and for whom. -/
theorem Core.route_posts (core : Core) (env : Env) (c : ClientId) (ev : RawEvent) :
    ∃ more, (core.route env c ev).1.posts = core.posts ++ more ∧ (∀ post ∈ more, post.client = c) ∧
      more.map Post.message = (core.route env c ev).2 ∧
      (core.route env c ev).1.replies.requests = core.replies.requests ++ [(c, ev.clientCb)] := by
  obtain ⟨outcome, settled, -, is⟩ := core.route_spec env c ev
  rw [is]
  exact ⟨_, rfl, posts_client (settled_client settled) _, posts_message _ _, rfl⟩

/-- Who is known after an event is the client it came from, or was known before. -/
theorem Core.known_route {core core' : Core} {c : ClientId} {clientCb : EvsCb} {w : World}
    (requests : core'.replies.requests = core.replies.requests ++ [(c, clientCb)])
    (ready : w.Ready (recipient c)) (q : Recipient) (known : core'.Known q.client) :
    core.Known q.client ∨ w.Ready q := by
  obtain ⟨cb, member⟩ := known
  rw [requests] at member
  rcases List.mem_append.mp member with before | new
  · exact Or.inl ⟨cb, before⟩
  · cases List.mem_singleton.mp new
    rw [recipient_client] at ready
    exact Or.inr ready

theorem app_plain (c : ClientId) (plan : Nat → Call) : Served.Plain (Core.app c plan) where
  http _ _ _ := rfl
  sends _ _ := ⟨_, rfl⟩

/-- The server while a socket is read. -/
structure Reading (env : HttpEnv) (queue : List Broadcast) (w : World) (i : Nat)
    (s : Served Core) : Prop where
  sound : s.state.Sound queue
  wired : Wired env s.state (w.setPeer i s.peer)
  open_ : s.peer.closed = false

section Reading

variable {env : HttpEnv} {queue : List Broadcast} {w : World} {i : Nat} {s t : Served Core}
  {plan : Nat → Call} {now : Int}

/-- A change to the socket beside its events. -/
theorem Reading.still (reading : Reading env queue w i s) {q : Peer}
    (ready : s.peer.Ready → q.Ready ∧ q.frame = s.peer.frame) (written : q.written = s.peer.written)
    (events : q.events = s.peer.events)
    (closing : s.peer.conn.closing ≠ none → q.conn.closing ≠ none)
    (fresh : q.prot = none → q.handshaked = false) (greeted : s.peer.Greeted → q.Greeted)
    (closed : q.closed = s.peer.closed) : Reading env queue w i { s with peer := q } := by
  refine ⟨reading.sound, ?_, closed.trans reading.open_⟩
  rw [← w.setPeer_setPeer i s.peer q]
  apply reading.wired.still _ _ _ _ fresh _
  all_goals rwa [World.peers_setPeer_self]

/-- An event is refused, and the socket closed. -/
theorem Reading.refuse (reading : Reading env queue w i s) (ready : s.peer.Ready)
    (open_ : s.peer.conn.closing = none) {event : Bytes} {erange : Bool}
    (refused : parseEvent erange event = none) (reason : CloseReason) :
    Reading env queue w i
      { s with peer := (s.peer.record (.event event)).qevClose reason } := by
  have aside := Peer.Aside.qevClose (s.peer.record (.event event)) reason
  have still : (s.peer.record (.event event)).Ready := ready
  generalize closes : (s.peer.record (.event event)).qevClose reason = q at aside ⊢
  have written : q.written = s.peer.written := by
    rw [aside.written, Peer.written_record, List.append_nil]
  have handed := reading.wired.handed i
  rw [World.peers_setPeer_self] at handed
  refine ⟨reading.sound, ?_, aside.closed.trans reading.open_⟩
  rw [← w.setPeer_setPeer i s.peer q]
  have ready' : q.Ready ∧ q.frame = s.peer.frame :=
    ⟨still.congr aside.prot aside.handshaked, Peer.frame_congr aside.prot⟩
  refine reading.wired.setPeer ?_ (List.append_nil _).symm (by simp) rfl
    (fun some_ => absurd rfl some_) (fun _ => Or.inl) ?_ ?_ (Or.inr ?_) fun _ _ => rfl
  · apply World.Writes.setPeer_self
    · rw [World.peers_setPeer_self]
      exact fun _ => ready'
    · rw [World.peers_setPeer_self, written]
      exact (List.append_nil _).symm
  · intro none_
    obtain ⟨raw | rfc6455, -⟩ := ready'.1
    · cases none_.symm.trans raw
    · cases none_.symm.trans rfc6455
  · rw [World.peers_setPeer_self]
    exact fun greeted => (greeted.event event).aside aside
  · -- nothing was refused before
    rcases handed with taken | ⟨-, -, -, -, -, -, gone⟩
    · refine ⟨_, event, erange, ?_, taken, refused, ?_⟩
      · rw [aside.events, Peer.events_record]
      · rw [← closes, Peer.qevClose, Peer.setConn_conn, Conn.qevClose]
        exact fun none_ => absurd (Option.or_eq_none_iff.mp none_).2 (Option.some_ne_none reason)
    · exact absurd open_ gone

/-- An event is routed, and the socket is sent what is posted for it. -/
theorem Reading.route (reading : Reading env queue w i s) (ready : s.peer.Ready)
    (open_ : s.peer.conn.closing = none) {event : Bytes} {erange : Bool} {ev : RawEvent}
    (parsed : parseEvent erange event = some ev) (event' : Env) :
    let routed := s.state.route event' (Recipient.client (.peer i)) ev
    Reading env queue w i
      { state := routed.1
        peer := (routed.2.map PeerAct.send).foldl (Peer.act now) (s.peer.record (.event event)) } := by
  intro routed
  obtain ⟨more, posts, mine, messages, requests⟩ :=
    s.state.route_posts event' (Recipient.client (.peer i)) ev
  have began : (s.peer.record (.event event)).Ready := ready
  obtain ⟨still, same, wrote, events⟩ := began.sends now routed.2
  have conn := (s.peer.record (.event event)).conn_sends now routed.2
  have closed := (s.peer.record (.event event)).closed_sends now routed.2
  have wired := fun greeted : s.peer.Greeted => (greeted.event event).sends began now routed.2
  generalize (routed.2.map PeerAct.send).foldl (Peer.act now) (s.peer.record (.event event)) = q
    at still same wrote events conn closed wired
  have handed := reading.wired.handed i
  rw [World.peers_setPeer_self] at handed
  refine ⟨reading.sound.route event' _ ev, ?_, closed.trans reading.open_⟩
  rw [← w.setPeer_setPeer i s.peer q]
  apply reading.wired.setPeer _ posts mine messages
  · intro _
    rwa [World.peers_setPeer_self]
  · apply Core.known_route requests
    rw [recipient_client, World.Ready, World.peers_setPeer_self]
    exact ready
  · intro none_
    obtain ⟨raw | rfc6455, -⟩ := still
    · cases none_.symm.trans raw
    · cases none_.symm.trans rfc6455
  · rw [World.peers_setPeer_self]
    exact wired
  · rcases handed with taken | ⟨-, -, -, -, -, -, gone⟩
    · left
      rw [events, Peer.events_record, Core.asked_append requests, if_pos rfl]
      exact taken.event erange event ev parsed
    · exact absurd open_ gone
  · intro d other
    rw [Core.asked_append requests, if_neg other, List.append_nil]
  · apply World.Writes.setPeer_self
    · rw [World.peers_setPeer_self]
      exact fun _ => ⟨still, same⟩
    · rw [World.peers_setPeer_self, wrote, Peer.written_record, List.append_nil]
      rfl

/-- One act of a read. -/
theorem Reading.act (reading : Reading env queue w i s)
    (acts : Served.Acts (Core.app (Recipient.client (.peer i)) plan) now s t) :
    Reading env queue w i t := by
  cases acts with
  | aside q aside =>
    have fresh := reading.wired.fresh i
    rw [World.peers_setPeer_self] at fresh
    apply reading.still _ aside.written aside.events aside.closing
    · intro none_
      rw [aside.handshaked]
      exact fresh (aside.prot ▸ none_)
    · exact fun greeted => greeted.aside aside
    · exact aside.closed
    · exact fun ready => ⟨ready.congr aside.prot aside.handshaked, Peer.frame_congr aside.prot⟩
  | found prot first unready =>
    apply reading.still
    · rintro ⟨-, shook⟩
      rw [unready] at shook
      cases shook
    · rw [Peer.setProt, Peer.written_record, List.append_nil]
      rfl
    · rw [Peer.setProt, Peer.events_record, List.append_nil]
      rfl
    · exact id
    · exact fun _ => unready
    · exact fun greeted => greeted.found prot first unready reading.open_
    · rfl
  | http is unready =>
    apply reading.still
    · rintro ⟨-, shook⟩
      rw [unready] at shook
      cases shook
    · rfl
    · rfl
    · exact id
    · intro none_
      cases none_.symm.trans is
    · exact fun greeted => greeted.http now is reading.open_
    · rfl
  | shaken prot is unready =>
    apply reading.still
    · rintro ⟨-, shook⟩
      rw [unready] at shook
      cases shook
    · exact (Peer.written_record _).trans (List.append_nil _)
    · exact (Peer.events_record _).trans (List.append_nil _)
    · exact id
    · intro none_
      cases none_.symm.trans is
    · exact fun greeted => greeted.shaken now prot is unready reading.open_
    · rfl
  | event event framed shook open_ =>
    have ready : s.peer.Ready := ⟨framed, shook⟩
    simp only [Served.handle, App.rawHandle]
    split
    next refused => exact reading.refuse ready open_ refused .invalidEventFormat
    next ev parsed => exact reading.route ready open_ parsed _

/-- A read. -/
theorem Reading.does (reading : Reading env queue w i s)
    (does : Served.Does (Core.app (Recipient.client (.peer i)) plan) now s t) :
    Reading env queue w i t := by
  induction does with
  | refl => exact reading
  | tail _ acts ih => exact ih.act acts

end Reading

end QuickIO
