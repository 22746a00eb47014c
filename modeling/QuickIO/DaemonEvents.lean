import QuickIO.Closing
import QuickIO.Daemon

/-!
# The events of the server

Whatever clients send, and however applications answer, the subscriptions stay
consistent, only clients an event came from have any, and the answers that were posted
are those of the events.
-/
namespace QuickIO

open Lib Server

/-! ### Only the client of a call is affected -/

namespace Server

/-- Nobody but `c` got or lost an entry. -/
def Apart (c : ClientId) (σ τ : Server) : Prop := ∀ d, d ≠ c → ∀ s, τ.entry d s = σ.entry d s

section Apart

variable {σ τ υ : Server} {c : ClientId} {s : SubId}

theorem Apart.refl (c : ClientId) (σ : Server) : Apart c σ σ := fun _ _ _ => rfl

theorem Apart.trans (first : Apart c σ τ) (second : Apart c τ υ) : Apart c σ υ :=
  fun d other s => (second d other s).trans (first d other s)

theorem Apart.of_clients (c : ClientId) (clients : τ.clients = σ.clients) : Apart c σ τ := by
  intro d _ s
  rw [entry, clients, entry]

theorem apart_hashInsert (csub : ClientSub) : Apart c σ (σ.hashInsert c s csub) := by
  intro d other r
  rw [entry_hashInsert, if_neg fun here => other here.1]

theorem apart_subCleanup (csub : ClientSub) : Apart c σ (σ.subCleanup c s csub true) := by
  intro d other r
  rw [entry_subCleanup, if_neg fun here => other here.1]

theorem apart_subUnref (c : ClientId) (s : SubId) : Apart c σ (σ.subUnref s) :=
  .of_clients c (clients_subUnref σ s)

theorem apart_subGet (c : ClientId) {ev : Event Handlers} {evExtra : Bytes} {orCreate : Bool}
    (got : σ.subGet ev evExtra orCreate = some (s, τ)) : Apart c σ τ :=
  .of_clients c (subGet_clients got).1

theorem apart_clientSubAdd (c : ClientId) (s : SubId) (fairUse : Bool) :
    Apart c σ (σ.clientSubAdd c s fairUse).1 := by
  unfold clientSubAdd
  split
  next => exact .refl c σ
  next =>
    split
    next => exact apart_hashInsert _
    next =>
      cases fairUse with
      | false => exact .refl c σ
      | true =>
        have taken : Apart c σ ({ σ with nextIdx := σ.nextIdx + 1, fairUsed := σ.fairUsed + 1 }.subRef s) :=
          .of_clients c rfl
        exact taken.trans (apart_hashInsert _)

theorem apart_clientSubAccept (c : ClientId) (s : SubId) (listOk : Bool) :
    Apart c σ (σ.clientSubAccept c s listOk).1 := by
  unfold clientSubAccept
  split
  next => exact .refl c σ
  next csub _ =>
    split
    next =>
      have listed : Apart c σ (σ.listAdd s csub.idx c) := .of_clients c rfl
      have joined := listed.trans (apart_hashInsert (s := s) { csub with pending := false })
      dsimp only
      split
      next => exact joined.trans (apart_subCleanup _)
      next => exact joined
    next => exact apart_subCleanup _

theorem apart_subRemove (c : ClientId) (s : SubId) (rejected : Bool) :
    Apart c σ (σ.subRemove c s rejected).1 := by
  unfold subRemove
  split
  next => exact .refl c σ
  next =>
    split
    next => exact apart_hashInsert _
    next => exact apart_subCleanup _

theorem apart_evsOnCb (env : Env) (success : Bool) (info : EvsOnInfo) :
    Apart info.client σ (σ.evsOnCb env success info).1 := by
  have same := sameSubs_evsOnCb env σ success info
  have done : Apart info.client σ (if success then
      (σ.clientSubAccept info.client info.sub env.listOk).1
      else σ.clientSubReject info.client info.sub) := by
    split
    · exact apart_clientSubAccept _ _ _
    · exact apart_subRemove _ _ _
  exact done.trans fun d _ s => same.entry d s

theorem apart_evsOnCreated (env : Env) (info : EvsOnInfo) (answer : OnAnswer) :
    Apart info.client σ (σ.evsOnCreated env info answer).server := by
  cases answer with
  | ok => exact apart_evsOnCb env true info
  | err => exact apart_evsOnCb env false info
  | now success => exact apart_evsOnCb env success info
  | later => exact .of_clients info.client rfl

theorem apart_evsOn (env : Env) (c : ClientId) (ev : Event Handlers) (evExtra : Bytes)
    (clientCb : EvsCb) (json : Option Bytes) :
    Apart c σ (σ.evsOn env c ev evExtra clientCb json).server := by
  unfold evsOn
  split
  next => exact .refl c σ
  next s τ got =>
    have added := (apart_subGet c got).trans (apart_clientSubAdd c s env.fairUse)
    refine Apart.trans ?_ (apart_subUnref c s)
    revert added
    rcases τ.clientSubAdd c s env.fairUse with ⟨υ, state⟩
    intro added
    -- every state but the last one is only answered
    cases state with
    | pending => simpa only [Outcome.reply, evsErrCb_server] using added
    | tombstoned => simpa only [Outcome.reply, evsErrCb_server] using added
    | null => simpa only [Outcome.reply, evsErrCb_server] using added
    | active => simpa only [Outcome.reply, evsCb_server] using added
    | created =>
      exact added.trans (apart_evsOnCreated env ⟨evExtra, json, s, c, clientCb⟩ (onAnswer env ev))

theorem apart_evsOff (c : ClientId) (ev : Event Handlers) (evExtra : Bytes) :
    Apart c σ (σ.evsOff c ev evExtra) := by
  unfold evsOff
  split
  next => exact .refl c σ
  next s τ got =>
    exact ((apart_subGet c got).trans (apart_subRemove c s false)).trans (apart_subUnref c s)

end Apart

end Server

/-! ### What an event does to the subscriptions -/

/-- One event: a client subscribes, one unsubscribes, or only callbacks change. Callbacks
change with the answers too. -/
inductive Effect (env : Env) (σ : Server) (c : ClientId) (outcome : Outcome) : Prop where
  | on (ev : Event Handlers) (evExtra : Bytes) (clientCb : EvsCb) (json : Option Bytes)
      (same : SameSubs (σ.evsOn env c ev evExtra clientCb json).server outcome.server)
      (approval : outcome.approval = (σ.evsOn env c ev evExtra clientCb json).approval)
  | off (ev : Event Handlers) (evExtra : Bytes)
      (same : SameSubs (σ.evsOff c ev evExtra) outcome.server) (approval : outcome.approval = none)
  | callbacks (same : SameSubs σ outcome.server) (approval : outcome.approval = none)

section Effects

variable {env : Env} {σ τ υ : Server} {c : ClientId} {outcome : Outcome}

theorem SameSubs.refl (σ : Server) : SameSubs σ σ :=
  ⟨fun _ => rfl, rfl, rfl, rfl, rfl, rfl, rfl, rfl, rfl⟩

theorem SameSubs.trans (first : SameSubs σ τ) (second : SameSubs τ υ) : SameSubs σ υ where
  subs c := (second.subs c).trans (first.subs c)
  standing := second.standing.trans first.standing
  heap := second.heap.trans first.heap
  table := second.table.trans first.table
  nextSub := second.nextSub.trans first.nextSub
  nextIdx := second.nextIdx.trans first.nextIdx
  fairUsed := second.fairUsed.trans first.fairUsed
  offCalls := second.offCalls.trans first.offCalls
  wrapped := second.wrapped.trans first.wrapped

/-- The callbacks of a client, and what was freed of them. -/
theorem SameSubs.setCallbacks (σ : Server) (c : ClientId) (callbacks : Callbacks Ptr Ptr Ptr)
    (dataFreed : List (Ptr × Ptr)) :
    SameSubs σ { σ.setClient c { σ.clients c with callbacks } with dataFreed } := by
  refine ⟨fun d => ?_, σ.standing_setClient c _ rfl rfl, rfl, rfl, rfl, rfl, rfl, rfl, rfl⟩
  by_cases client : d = c
  · subst client
    simp [setClient]
  · simp [setClient, client]

theorem SameSubs.apart (same : SameSubs σ τ) (c : ClientId) : Apart c σ τ :=
  fun d _ s => same.entry d s

/-- The answer only changes callbacks. -/
theorem Effect.sameSubs {outcome' : Outcome} (effect : Effect env σ c outcome)
    (same : SameSubs outcome.server outcome'.server) (approval : outcome'.approval = outcome.approval) :
    Effect env σ c outcome' := by
  cases effect with
  | on ev evExtra clientCb json before kept =>
    exact .on ev evExtra clientCb json (before.trans same) (approval.trans kept)
  | off ev evExtra before kept => exact .off ev evExtra (before.trans same) (approval.trans kept)
  | callbacks before kept => exact .callbacks (before.trans same) (approval.trans kept)

theorem Effect.answer (effect : Effect env σ c outcome) (clientCb : EvsCb) (code : EvsCode)
    (status : EvsStatus) : Effect env σ c (answer env outcome c clientCb code status) := by
  cases status with
  | ok => exact effect.sameSubs (sameSubs_evsCb env outcome.server c clientCb none) rfl
  | err => exact effect.sameSubs (sameSubs_evsErrCb env outcome.server c clientCb code none none) rfl
  | handled => exact effect

/-- A handler that only answers. -/
theorem Effect.errCb (env : Env) (σ : Server) (c : ClientId) (clientCb : EvsCb) (code : EvsCode)
    (errMsg json : Option Bytes) :
    Effect env σ c (.reply (σ.evsErrCb env c clientCb code errMsg json)) :=
  .callbacks (sameSubs_evsErrCb env σ c clientCb code errMsg json) rfl

theorem Effect.cbFire (serverCb clientCb : EvsCb) (json : Bytes) :
    Effect env σ c (σ.cbFire env c serverCb clientCb json).1 := by
  unfold Server.cbFire
  rcases clientCbFire (σ.clients c).callbacks serverCb clientCb json with ⟨callbacks, fired, freed⟩
  have stored := SameSubs.setCallbacks σ c callbacks (σ.dataFreed ++ freed)
  cases fired with
  | ran => exact .callbacks stored rfl
  | error clientCb code errMsg =>
    exact .callbacks (stored.trans (sameSubs_evsErrCb env _ c clientCb code _ none)) rfl

theorem Effect.handle {evExtra json : Bytes} {clientCb : EvsCb} {handlerFn : HandlerFn}
    {result : Outcome × EvsStatus}
    (called : σ.handle env c evExtra clientCb json handlerFn = .ok result) :
    Effect env σ c result.1 := by
  cases handlerFn with
  | callback =>
    cases called
    unfold Server.qioCallback
    split
    next => exact .errCb env σ c clientCb _ _ none
    next => exact .cbFire _ clientCb json
  | hostname =>
    cases called
    exact .callbacks (sameSubs_evsCb env σ c clientCb _) rfl
  | on =>
    simp only [Server.handle, Server.qioOn] at called
    split at called
    next =>
      cases called
      exact .errCb env σ c clientCb _ _ none
    next evPath data _ =>
      split at called
      next => cases called
      next =>
        cases called
        exact .errCb env σ c clientCb _ none none
      next ev evExtra _ =>
        cases called
        exact .on ev evExtra clientCb data (.refl _) rfl
  | off =>
    simp only [Server.handle, Server.qioOff] at called
    split at called
    next evPath =>
      split at called
      next => cases called
      next =>
        cases called
        exact .errCb env σ c clientCb _ none none
      next ev evExtra _ =>
        cases called
        exact .off ev evExtra (.refl _) rfl
    next =>
      cases called
      exact .errCb env σ c clientCb _ _ none
  | ping =>
    cases called
    exact .callbacks (.refl σ) rfl
  | app fn =>
    cases called
    exact .callbacks (.refl σ) rfl

theorem Effect.evsRoute {evPath json : Bytes} {clientCb : EvsCb}
    (routed : σ.evsRoute env c evPath clientCb json = .ok outcome) : Effect env σ c outcome := by
  have still : Effect env σ c (.silent σ) := .callbacks (.refl σ) rfl
  simp only [Server.evsRoute] at routed
  split at routed
  next => cases routed
  next =>
    cases routed
    exact still.answer clientCb codeNotFound .err
  next ev evExtra _ =>
    split at routed
    next =>
      cases routed
      exact still.answer clientCb codeUnknown .err
    next handlerFn _ =>
      split at routed
      next => cases routed
      next result status called =>
        cases routed
        exact (Effect.handle called).answer clientCb codeUnknown status

/-- Only the client the event is from can get an entry. -/
theorem Effect.apart (effect : Effect env σ c outcome) : Apart c σ outcome.server := by
  cases effect with
  | on ev evExtra clientCb json same =>
    exact (apart_evsOn env c ev evExtra clientCb json).trans (same.apart c)
  | off ev evExtra same => exact (apart_evsOff c ev evExtra).trans (same.apart c)
  | callbacks same => exact same.apart c

end Effects

/-! ### What applications send -/

section Sends

variable {env : Env} {σ : Server} {c : ClientId} {json : Option Bytes}
  {cbFn cbData freeFn : Option Ptr}

theorem sameSubs_evsSendSubFull (sub : SubId) :
    SameSubs σ (σ.evsSendSubFull env json cbFn cbData freeFn c sub).1 := by
  simp only [Server.evsSendSubFull]
  split
  next => exact sameSubs_cbNew env σ c cbFn cbData freeFn
  next => exact .refl σ

/-- Only subscribers are sent anything. -/
theorem evsSendSubFull_entry {sub : SubId} {m : Send}
    (member : m ∈ (σ.evsSendSubFull env json cbFn cbData freeFn c sub).2) :
    σ.entry m.client sub ≠ none := by
  simp only [Server.evsSendSubFull] at member
  split at member
  next active =>
    cases List.mem_singleton.mp member
    simp only [Server.clientSubActive] at active
    split at active
    next => cases active
    next csub stored =>
      rw [stored]
      exact Option.some_ne_none _
  next => cases member

theorem evsSendFull_entry {ev : Event Handlers} {evExtra : Option Bytes} {m : Send}
    (member : m ∈ (σ.evsSendFull env json cbFn cbData freeFn c ev evExtra).2) :
    ∃ s, σ.entry m.client s ≠ none := by
  simp only [Server.evsSendFull] at member
  split at member
  next => cases member
  next =>
    split at member
    next => cases member
    next s τ got =>
      have used := evsSendSubFull_entry member
      refine ⟨s, ?_⟩
      rwa [Server.entry, (subGet_clients got).1] at used

end Sends

/-! ### The books of the server -/

namespace Resources

variable {σ τ : Server} {approvals : List EvsOnInfo} {copies : List SubId}
  {queue : List Broadcast} {created : List (ClientId × SubId)}

/-- The callbacks are in no book. -/
theorem Kept.sameSubs (kept : Kept ⟨σ, approvals, copies, queue, created⟩) (same : SameSubs σ τ) :
    Kept ⟨τ, approvals, copies, queue, created⟩ :=
  ⟨same.inv kept.inv, kept.books.sameSubs kept.inv same⟩

/-- The order of the infos does not matter. -/
theorem Kept.perm {approvals' : List EvsOnInfo}
    (kept : Kept ⟨σ, approvals, copies, queue, created⟩) (same : approvals.Perm approvals') :
    Kept ⟨σ, approvals', copies, queue, created⟩ :=
  ⟨kept.inv.perm (((same.map _).append_right _).append_right _) (same.map _), kept.books⟩

/-- A subscription that is looked up and let go. -/
theorem Kept.evsSendFull {env : Env} {c : ClientId} {json : Option Bytes}
    {cbFn cbData freeFn : Option Ptr} (kept : Kept ⟨σ, approvals, copies, queue, created⟩)
    (ev : Event Handlers) (evExtra : Option Bytes) :
    Kept ⟨(σ.evsSendFull env json cbFn cbData freeFn c ev evExtra).1, approvals, copies, queue,
      created⟩ := by
  simp only [Server.evsSendFull]
  split
  next => exact kept
  next =>
    split
    next => exact kept
    next s τ got =>
      have found := kept.inv.subGet got
      have same : SameSubs τ (τ.evsSendSubFull env json cbFn cbData freeFn c s).1 :=
        sameSubs_evsSendSubFull s
      have released := (same.inv found).subUnref List.mem_cons_self
      rw [List.erase_cons_head] at released
      have books := (kept.books.subGet kept.inv got).sameSubs found same
      exact ⟨released, books.subUnref (same.inv found) s⟩

/-- One event. -/
theorem Kept.effect {env : Env} {c : ClientId} {outcome : Outcome}
    (kept : Kept ⟨σ, approvals, copies, queue, created⟩) (effect : Effect env σ c outcome) :
    ∃ created', Kept ⟨outcome.server, outcome.approval.toList ++ approvals, copies, queue,
      created'⟩ := by
  cases effect with
  | on ev evExtra clientCb json same approval =>
    rw [approval]
    have after := kept_step _ (.on env c ev evExtra clientCb json) _ kept rfl
    exact ⟨_, after.sameSubs same⟩
  | off ev evExtra same approval =>
    rw [approval]
    have after := kept_step _ (.off c ev evExtra) _ kept rfl
    exact ⟨_, after.sameSubs same⟩
  | callbacks same approval =>
    rw [approval]
    exact ⟨created, kept.sameSubs same⟩

end Resources

/-! ### The books of the events -/

/-- What was posted for an event is an answer to it. -/
theorem answer_posts (n : Nat) (sends : List Send) :
    (sends.map (Send.post (some n))).filterMap Post.answer = sends.map (n, ·) := by
  induction sends with
  | nil => rfl
  | cons m sends ih => exact congrArg ((n, m) :: ·) ih

theorem answer_posts_none (sends : List Send) :
    (sends.map (Send.post none)).filterMap Post.answer = [] := by
  induction sends with
  | nil => rfl
  | cons m sends ih => exact ih

/-- Of infos with different numbers one is taken out. -/
theorem lookup_perm {approvals : List (Nat × EvsOnInfo)} {n : Nat} {info : EvsOnInfo}
    (once : (approvals.map Prod.fst).Nodup) (found : approvals.lookup n = some info) :
    (approvals.map Prod.snd).Perm
      (info :: (approvals.filter fun approval => approval.1 != n).map Prod.snd) := by
  obtain ⟨before, after, rfl, others⟩ := List.lookup_eq_some_iff.mp found
  have front : before.filter (fun approval => approval.1 != n) = before := by
    rw [List.filter_eq_self]
    intro approval member
    rw [bne_iff_ne]
    rintro rfl
    simpa using others approval member
  have back : after.filter (fun approval => approval.1 != n) = after := by
    rw [List.filter_eq_self]
    intro approval member
    rw [List.map_append, List.map_cons] at once
    have fresh := (List.nodup_cons.mp (List.nodup_append.mp once).2.1).1
    rw [bne_iff_ne]
    rintro rfl
    exact fresh (List.mem_map.mpr ⟨approval, member, rfl⟩)
  rw [List.filter_append, List.filter_cons_of_neg (by simp), front, back, List.map_append,
    List.map_append]
  exact List.perm_middle

namespace Core

/-- The subscriptions are consistent and paid for, each event is answered or will be,
nobody subscribed whose events never came, and every answer was posted. -/
structure Sound (core : Core) (queue : List Broadcast) : Prop where
  kept : ∃ created, Resources.Kept
    ⟨core.server, core.replies.approvals.map Prod.snd, [], queue, created⟩
  replies : Replies.Inv core.replies
  users : ∀ c s, core.server.entry c s ≠ none → core.Known c
  sent : core.replies.sent = core.posts.filterMap Post.answer

section Sound

variable {core core' : Core} {queue queue' : List Broadcast} {c : ClientId}

/-- A client stays known. -/
theorem Known.grow (known : core.Known c) (requests : core.replies.requests <+: core'.replies.requests) :
    core'.Known c := by
  obtain ⟨clientCb, member⟩ := known
  exact ⟨clientCb, requests.subset member⟩

theorem Sound.setServer (sound : core.Sound queue) (τ : Server)
    (kept : ∀ approvals created, Resources.Kept ⟨core.server, approvals, [], queue, created⟩ →
      ∃ created', Resources.Kept ⟨τ, approvals, [], queue', created'⟩)
    (entries : ∀ c s, τ.entry c s ≠ none → core.server.entry c s ≠ none) :
    (core.setServer τ).Sound queue' where
  kept := by
    obtain ⟨created, before⟩ := sound.kept
    exact kept _ created before
  replies := sound.replies.server τ
  users c s used := sound.users c s (entries c s used)
  sent := sound.sent

theorem Sound.sameSubs (sound : core.Sound queue) {τ : Server} (same : SameSubs core.server τ) :
    (core.setServer τ).Sound queue := by
  refine sound.setServer τ (fun _ created before => ⟨created, before.sameSubs same⟩) ?_
  intro c s used
  rwa [same.entry] at used

theorem Sound.post (sound : core.Sound queue) (more : List Post)
    (unasked : more.filterMap Post.answer = []) :
    Sound { core with posts := core.posts ++ more } queue where
  kept := sound.kept
  replies := sound.replies
  users := sound.users
  sent := by
    rw [List.filterMap_append, unasked, List.append_nil]
    exact sound.sent

/-- What routing an event comes to. -/
theorem route_spec (core : Core) (env : Env) (c : ClientId) (ev : RawEvent) :
    ∃ outcome, Settled c ev.clientCb outcome ∧ Effect env core.server c outcome ∧
      core.route env c ev =
        ({ replies := Replies.record core.replies c ev.clientCb outcome
           posts := core.posts ++ outcome.sends.map (Send.post core.next) },
          outcome.sends.map Send.message) := by
  obtain ⟨outcome, routed, settled⟩ := evsRoute_settled env core.server c ev.clientCb ev.evPath ev.json
  refine ⟨outcome, settled, .evsRoute routed, ?_⟩
  simp only [Core.route, routed]

theorem Sound.route (sound : core.Sound queue) (env : Env) (c : ClientId) (ev : RawEvent) :
    (core.route env c ev).1.Sound queue := by
  obtain ⟨outcome, settled, effect, is⟩ := core.route_spec env c ev
  rw [is]
  refine ⟨?_, sound.replies.record c ev.clientCb outcome settled, ?_, ?_⟩
  · obtain ⟨created, before⟩ := sound.kept
    obtain ⟨created', after⟩ := before.effect effect
    refine ⟨created', ?_⟩
    simp only [Replies.record, Core.server]
    cases approval : outcome.approval with
    | none =>
      rw [approval] at after
      exact after
    | some info =>
      rw [approval] at after
      exact after
  · -- only the client of the event can be new
    intro d s used
    by_cases here : d = c
    · exact ⟨ev.clientCb, by simp [Replies.record, here]⟩
    · have before : core.server.entry d s ≠ none := by
        rw [← effect.apart d here s]
        exact used
      exact (sound.users d s before).grow (List.prefix_append _ _)
  · simp only [Replies.record, Core.next]
    rw [sound.sent, List.filterMap_append, answer_posts]

/-- The late completion of event `n`. -/
theorem Sound.complete (sound : core.Sound queue) (env : Env) (success : Bool) {n : Nat}
    {info : EvsOnInfo} (found : core.replies.approvals.lookup n = some info) :
    let result := core.server.evsOnCbLate env success info
    Sound
      { replies :=
          { server := result.1
            requests := core.replies.requests
            approvals := core.replies.approvals.filter fun approval => approval.1 != n
            kept := core.replies.kept
            sent := core.replies.sent ++ result.2.map (n, ·) }
        posts := core.posts ++ result.2.map (Send.post n) } queue := by
  have member : (n, info) ∈ core.replies.approvals := by
    obtain ⟨before, after, split, -⟩ := List.lookup_eq_some_iff.mp found
    simp [split]
  refine ⟨?_, ?_, ?_, ?_⟩
  · obtain ⟨created, before⟩ := sound.kept
    have first := before.perm (lookup_perm sound.replies.once found)
    have after := Resources.kept_step _ (.onCb env success info) _ first
      (if_pos List.mem_cons_self)
    simp only [List.erase_cons_head] at after
    exact ⟨created, after⟩
  · exact sound.replies.complete n info _ _ found (evsOnCb_replied env core.server success info)
  · intro d s used
    by_cases here : d = info.client
    · exact ⟨info.clientCb, here ▸ List.mem_of_getElem? (sound.replies.waiting n info member).2⟩
    · have apart := (apart_evsOnCb (σ := core.server) env success info).trans
        (apart_subUnref info.client info.sub)
      have before : core.server.entry d s ≠ none := by
        rw [← apart d here s]
        exact used
      exact sound.users d s before
  · rw [sound.sent, List.filterMap_append, answer_posts]

/-- One more answer to event `n`, which an application kept. -/
theorem Sound.answerKept (sound : core.Sound queue) {n : Nat} (member : n ∈ core.replies.kept)
    {τ : Server} (same : SameSubs core.server τ) (sends : List Send) :
    Sound
      { replies := { core.replies with server := τ, sent := core.replies.sent ++ sends.map (n, ·) }
        posts := core.posts ++ sends.map (Send.post n) } queue where
  kept := (sound.sameSubs same).kept
  replies := sound.replies.answerKept member τ sends
  users := (sound.sameSubs same).users
  sent := by
    rw [sound.sent, List.filterMap_append, answer_posts]

end Sound

end Core

end QuickIO
