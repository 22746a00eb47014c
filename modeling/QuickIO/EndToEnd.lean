import QuickIO.DaemonSteps

/-!
# From the bytes of a client to the bytes for it

What the server as a whole does, in every state of every run: who is written to is ready
for it, everything that is posted is written, an event is answered once on the wire, a
tick reaches every subscriber, and of clients that are gone nothing is left.
-/
namespace QuickIO

open Lib Server

namespace Daemon

variable {env : HttpEnv} {d : Daemon}

/-- Who has a subscription, waits for one, or is written to by the next tick has shaken
hands and speaks a protocol with frames: `protocols_bcast_write`, which reads the protocol
without a test, finds one. -/
theorem recipients_ready (env : HttpEnv) (d : Daemon) (reached : (system env).Reachable d) :
    (∀ c s, d.server.entry c s ≠ none → d.world.Ready (recipient c)) ∧
    (∀ n info, (n, info) ∈ d.core.replies.approvals → d.world.Ready (recipient info.client)) ∧
    ∀ write ∈ (d.server.evsBroadcastTick d.queue).2, d.world.Ready (recipient write.client) := by
  have inv := inv_reachable reached
  refine ⟨fun c s used => inv.ready_entry used, fun n info member => ?_, ?_⟩
  · have known : d.core.Known info.client :=
      ⟨info.clientCb, List.mem_of_getElem? (inv.sound.replies.waiting n info member).2⟩
    rw [← client_recipient info.client] at known
    exact inv.wired.linked.known _ known
  · rw [evsBroadcastTick_writes]
    exact inv.ready_write

/-- The handlers that subscribe, and an event without any. -/
def sampleEvents : List (Event Handlers) :=
  [⟨str "/qio/on", ⟨some .on, none, none⟩, false⟩, ⟨str "/a", ⟨none, none, none⟩, false⟩]

def sampleStart : Daemon where
  core := ⟨⟨{ Server.new with
    events := sampleEvents.foldl (fun t ev =>
      match insertLoop ev t (ev.evPath.drop 1) with
      | .ok (t, _) => t
      | .error _ => t) PrefixTree.empty }, [], [], [], []⟩, []⟩
  queue := []
  world := ⟨fun _ => {}, Http.start⟩

def samplePlan : Nat → Call := fun _ => ⟨lateEnv, false, []⟩

/-- A socket and a session subscribe to the event, and a broadcast is queued. -/
def subscribing : List Label := [
  .opened, .read 0 (str "/qio/ohai") samplePlan,
  .read 0 (protocolRawFrame ⟨str "/qio/on", [], 7, str "\"/a\""⟩) samplePlan,
  .opened, .read 1 (str "POST / HTTP/1.1\r\n\r\n") samplePlan,
  .header 1 (Http.samplePost "14") true, .body 1 (str "/qio/on:8=\"/a\"") samplePlan,
  .broadcast ⟨str "/a", ⟨none, none, none⟩, false⟩ [] (some (str "1"))]

theorem sampleStart_init : (system Http.sampleEnv).init sampleStart :=
  ⟨⟨rfl, fun _ _ => rfl, fun _ => rfl, fun _ => ⟨rfl, rfl, rfl⟩, rfl⟩, rfl, rfl, rfl, rfl, rfl, rfl,
    rfl, rfl, rfl⟩

theorem subscribing_reached : ∃ d, (system Http.sampleEnv).Reachable d ∧
    (system Http.sampleEnv).run sampleStart subscribing = some d := by
  have some_ : ((system Http.sampleEnv).run sampleStart subscribing).isSome := by decide
  obtain ⟨d, ran⟩ := Option.isSome_iff_exists.mp some_
  exact ⟨d, ⟨_, subscribing, sampleStart_init, ran⟩, ran⟩

theorem recipients_ready_subscribing : ∃ d, (system Http.sampleEnv).Reachable d ∧
    d.queue.length = 1 ∧ d.world.Ready (recipient 0) ∧ d.world.Ready (recipient 1) := by
  obtain ⟨d, reached, ran⟩ := subscribing_reached
  have subscribed : ∀ d ∈ (system Http.sampleEnv).run sampleStart subscribing,
      d.queue.length = 1 ∧ d.server.entry 0 0 ≠ none ∧ d.server.entry 1 0 ≠ none := by decide
  obtain ⟨queued, first, second⟩ := subscribed d ran
  obtain ⟨ready, -, -⟩ := recipients_ready Http.sampleEnv d reached
  exact ⟨d, reached, queued, ready 0 0 first, ready 1 0 second⟩

/-- All that was written to a socket: the answer to its handshake, the frames of what was
posted, and between them why a WebSocket was closed. -/
theorem Inv.wire_letters (inv : Inv env d) (i : Nat) (plain : (d.world.peers i).prot ≠ some .flash) :
    ∃ before after, d.core.letters (2 * i) = before ++ after ∧
      (d.world.peers i).wire = (d.world.peers i).greeting ++
        ((before.map (d.world.peers i).frame).flatten ++ ((d.world.peers i).byes.flatten ++
          (after.map (d.world.peers i).frame).flatten)) := by
  obtain ⟨front, back, split, wire⟩ := (inv.wired.greeted i).wire plain
  have written : (d.world.peers i).written =
      (d.core.letters (2 * i)).map (d.world.peers i).frame := inv.wired.linked.wire (.peer i)
  obtain ⟨before, after, letters, rfl, rfl⟩ := List.map_eq_append_iff.mp (written.symm.trans split)
  exact ⟨before, after, letters, wire⟩

theorem answers_eq (sound : d.core.Sound d.queue) (n : Nat) :
    Replies.answers d.core.replies n =
      d.core.posts.filterMap fun post => if post.answers = some n then some post.send else none := by
  rw [Replies.answers, sound.sent, List.filterMap_filterMap]
  congr 1
  funext post
  cases answers : post.answers with
  | none => simp [Post.answer, answers]
  | some k => simp [Post.answer, answers]

/-- One answer stands at one place. -/
theorem answer_split {posts : List Post} {n : Nat} {m : Send}
    (one : (posts.filterMap fun post =>
      if post.answers = some n then some post.send else none) = [m]) :
    ∃ before after, posts = before ++ ⟨m.client, m.message, some n⟩ :: after ∧
      ∀ post ∈ before ++ after, post.answers ≠ some n := by
  obtain ⟨before, post, after, rfl, front, here, back⟩ := List.filterMap_eq_cons_iff.mp one
  obtain ⟨answers, same⟩ := Option.ite_none_right_eq_some.mp here
  obtain rfl : post.send = m := Option.some.inj same
  refine ⟨before, after, ?_, ?_⟩
  · obtain ⟨client, message, answered⟩ := post
    obtain rfl : answered = some n := answers
    rfl
  · intro other member same
    rcases List.mem_append.mp member with early | late
    · have none_ := front other early
      rw [if_pos same] at none_
      cases none_
    · have none_ := List.filterMap_eq_nil_iff.mp back other late
      rw [if_pos same] at none_
      cases none_

/-- Each event of a client that no handler of an application keeps to answer itself is
answered once among its event frames, by the frame of one message for its callback.
Nothing answers such an event without a callback, or one whose approval is still
outstanding. On a socket the events are what its bytes were cut into, in order. -/
theorem events_answered (env : HttpEnv) (d : Daemon) (reached : (system env).Reachable d)
    (r : Recipient) :
    (∀ i, r = .peer i → Handed d.core (d.world.peers i) r.client) ∧
    ∀ n clientCb, d.core.replies.requests[n]? = some (r.client, clientCb) →
      n ∉ d.core.replies.kept →
      (clientCb = 0 ∨ Replies.Outstanding d.core.replies n →
        ∀ post ∈ d.core.posts, post.answers ≠ some n) ∧
      (clientCb ≠ 0 → ¬Replies.Outstanding d.core.replies n →
        ∃ serverCb json before after,
          d.core.posts = before ++ ⟨r.client, ⟨cbPath clientCb, [], serverCb, json⟩, some n⟩ :: after ∧
          (∀ post ∈ before ++ after, post.answers ≠ some n) ∧
          d.world.written r = (lettersTo before r.client).map (d.world.frame r) ++
            d.world.frame r ⟨cbPath clientCb, [], serverCb, json⟩ ::
              (lettersTo after r.client).map (d.world.frame r)) := by
  have inv := inv_reachable reached
  refine ⟨?_, fun n clientCb asked unkept =>
    ⟨fun either post member same => ?_, fun nonzero done => ?_⟩⟩
  · rintro i rfl
    exact inv.wired.handed i
  · -- what is not answered is answered by no post
    have silent : Replies.answers d.core.replies n = [] := by
      by_cases waiting : Replies.Outstanding d.core.replies n
      · obtain ⟨info, waits⟩ := waiting
        exact (inv.sound.replies.waiting n info waits).1
      · have replied := inv.sound.replies.answered n _ clientCb asked waiting unkept
        rwa [Replied, if_pos (either.resolve_right waiting)] at replied
    rw [answers_eq inv.sound] at silent
    have none_ := List.filterMap_eq_nil_iff.mp silent post member
    rw [if_pos same] at none_
    cases none_
  · have replied := inv.sound.replies.answered n _ clientCb asked done unkept
    rw [Replied, if_neg nonzero, answers_eq inv.sound] at replied
    obtain ⟨serverCb, json, one⟩ := replied
    obtain ⟨before, after, split, others⟩ := answer_split one
    refine ⟨serverCb, json, before, after, split, others, ?_⟩
    rw [inv.wired.linked.wire r, Core.letters, split, lettersTo_append, List.map_append]
    simp [lettersTo, Send.message]

theorem events_answered_subscribing : ∃ d, (system Http.sampleEnv).Reachable d ∧
    ∃ serverCb json before after,
      d.world.written (.peer 0) = (lettersTo before 0).map (d.world.frame (.peer 0)) ++
        d.world.frame (.peer 0) ⟨str "/qio/callback/7", [], serverCb, json⟩ ::
          (lettersTo after 0).map (d.world.frame (.peer 0)) := by
  obtain ⟨d, reached, ran⟩ := subscribing_reached
  have settled : ∀ d ∈ (system Http.sampleEnv).run sampleStart subscribing,
      d.core.replies.requests[0]? = some (0, 7) ∧ d.core.replies.approvals = [] ∧
      d.core.replies.kept = [] := by decide
  obtain ⟨asked, none_, unkept⟩ := settled d ran
  obtain ⟨serverCb, json, before, after, -, -, wire⟩ :=
    ((events_answered Http.sampleEnv d reached (.peer 0)).2 0 7 asked (by simp [unkept])).2
      (by decide) (by
      rintro ⟨info, member⟩
      rw [none_] at member
      cases member)
  exact ⟨d, reached, serverCb, json, before, after, wire⟩

/-! ### Ticks -/

/-- When all clients that came are closed, and no approval and no broadcast is left, the
pool has got all its subscriptions back, each of them is freed, and no event has any. -/
theorem nothing_left (env : HttpEnv) (d : Daemon) (reached : (system env).Reachable d)
    (gone : ∀ c, d.core.Known c → (d.server.clients c).closed = true)
    (settled : d.core.replies.approvals = []) (written : d.queue = []) :
    d.server.fairUsed = 0 ∧ (∀ s, s < d.server.nextSub → (d.server.heap s).freed = true) ∧
      (∀ evPath evExtra, d.server.table evPath evExtra = none) ∧
      ∀ s, d.server.subscribers s = [] := by
  have inv := inv_reachable reached
  obtain ⟨created, kept⟩ := inv.sound.kept
  obtain ⟨users, counted⟩ := kept.inv.counted
  have empty : ∀ c s, d.server.entry c s = none := by
    intro c s
    cases stored : d.server.entry c s with
    | none => rfl
    | some csub =>
      have known := inv.sound.users c s (by rw [← Daemon.server, stored]; exact Option.some_ne_none _)
      have open_ : (d.server.clients c).closed = false := kept.inv.waits.open_of_entry stored
      rw [gone c known] at open_
      cases open_
  have none_ : users = [] := by
    rw [List.eq_nil_iff_forall_not_mem]
    rintro ⟨c, s⟩ member
    exact (counted.entries c s).mp member (empty c s)
  have unused : ∀ s, total users
      (Resources.State.holders ⟨d.core.server, d.core.replies.approvals.map Prod.snd, [], d.queue,
        created⟩) s = 0 := by
    intro s
    rw [none_, settled, written]
    rfl
  refine ⟨?_, ?_, ?_, ?_⟩
  · rw [Daemon.server, kept.books.fair users counted.once counted.entries, none_]
    rfl
  · intro s below
    exact (counted.ledger.unused s below (unused s)).1
  · intro evPath evExtra
    cases stored : d.server.table evPath evExtra with
    | none => rfl
    | some s =>
      exact absurd (unused s) (Nat.ne_of_gt (counted.ledger.positive stored))
  · intro s
    rw [List.eq_nil_iff_forall_not_mem]
    rintro ⟨i, c⟩ member
    obtain ⟨csub, stored, -⟩ := (kept.inv.lists.listed c s i).mp member
    have absent := empty c s
    rw [Daemon.server, stored] at absent
    cases absent

/-- Both clients leave after the tick. -/
def leaving : List Label :=
  subscribing ++ [.tick, .close 0 .hup, .closed 0, .close 1 .hup, .closed 1]

theorem nothing_left_leaving : ∃ d, (system Http.sampleEnv).Reachable d ∧
    d.core.replies.requests.length = 2 ∧ d.server.nextSub = 1 ∧ d.server.fairUsed = 0 ∧
      (d.server.heap 0).freed = true := by
  have some_ : ((system Http.sampleEnv).run sampleStart leaving).isSome := by decide
  obtain ⟨d, ran⟩ := Option.isSome_iff_exists.mp some_
  have reached : (system Http.sampleEnv).Reachable d := ⟨_, leaving, sampleStart_init, ran⟩
  have left : ∀ d ∈ (system Http.sampleEnv).run sampleStart leaving,
      d.core.replies.requests.length = 2 ∧ d.server.nextSub = 1 ∧
      (∀ request ∈ d.core.replies.requests, (d.server.clients request.1).closed = true) ∧
      d.core.replies.approvals = [] ∧ d.queue = [] := by decide
  obtain ⟨came, one, gone, settled, written⟩ := left d ran
  obtain ⟨fairUsed, freed, -⟩ := nothing_left Http.sampleEnv d reached
    (by
      rintro c ⟨clientCb, member⟩
      exact gone _ member) settled written
  exact ⟨d, reached, came, one, fairUsed, freed 0 (one ▸ Nat.one_pos)⟩

end Daemon

end QuickIO
