import QuickIO.Evs
import QuickIO.Lib.TransitionSystem
import QuickIO.Routing

/-!
# A client always receives its callback

Whoever handles an event either answers it, leaves the answer to `evs_route`,
keeps the info for a later `evs_on_cb`, or keeps the callback to answer it some
day. Over runs: an event whose approval is not outstanding, and that no handler of
an application kept, has been answered exactly once.
-/
namespace QuickIO

open Lib Server

/-- One call of `protocols_send` for the callback, and none for id zero. -/
def Replied (c : ClientId) (clientCb : EvsCb) (sends : List Send) : Prop :=
  if clientCb = 0 then sends = []
  else ∃ serverCb json, sends = [⟨c, cbPath clientCb, [], serverCb, json⟩]

/-- Answered, or left to a later completion that knows client and callback, or to the
application. -/
def Settled (c : ClientId) (clientCb : EvsCb) (outcome : Outcome) : Prop :=
  match outcome.approval with
  | none => if outcome.kept then outcome.sends = [] else Replied c clientCb outcome.sends
  | some info =>
    outcome.kept = false ∧ outcome.sends = [] ∧ info.client = c ∧ info.clientCb = clientCb

/-- A handler settles the event if and only if it says it did. -/
def Handled (c : ClientId) (clientCb : EvsCb) (result : Outcome × EvsStatus) : Prop :=
  match result.2 with
  | .handled => Settled c clientCb result.1
  | _ => result.1.sends = [] ∧ result.1.approval = none ∧ result.1.kept = false

section Replies

variable (env : Env) (σ : Server) (c : ClientId) (clientCb : EvsCb)

theorem evsCbFull_replied (code : EvsCode) (errMsg json : Option Bytes)
    (cbFn cbData freeFn : Option Ptr) :
    Replied c clientCb (σ.evsCbFull env c clientCb code errMsg json cbFn cbData freeFn).2 := by
  unfold Replied evsCbFull
  split
  next => rfl
  next => exact ⟨_, _, rfl⟩

theorem evsCb_replied (json : Option Bytes) : Replied c clientCb (σ.evsCb env c clientCb json).2 :=
  evsCbFull_replied env σ c clientCb codeOk none json none none none

theorem evsErrCb_replied (code : EvsCode) (errMsg json : Option Bytes) :
    Replied c clientCb (σ.evsErrCb env c clientCb code errMsg json).2 :=
  evsCbFull_replied env σ c clientCb code errMsg json none none none

theorem evsOnCb_replied (success : Bool) (info : EvsOnInfo) :
    Replied info.client info.clientCb (σ.evsOnCb env success info).2 :=
  evsErrCb_replied env _ info.client info.clientCb _ none none

theorem evsOnCreated_settled (info : EvsOnInfo) (answer : OnAnswer) :
    Settled info.client info.clientCb (σ.evsOnCreated env info answer) := by
  cases answer with
  | ok => exact evsOnCb_replied env σ true info
  | err => exact evsOnCb_replied env σ false info
  | later => exact ⟨rfl, rfl, rfl, rfl⟩
  | now success => exact evsOnCb_replied env σ success info

/-- `sub_get` that may create never returns `NULL`. -/
theorem subGet_isSome (ev : Event Handlers) (evExtra : Bytes) :
    ∃ s τ, σ.subGet ev evExtra true = some (s, τ) := by
  unfold Server.subGet
  cases found : σ.getIfExists ev evExtra with
  | none => exact ⟨_, _, rfl⟩
  | some existing => exact ⟨existing.1, existing.2, rfl⟩

theorem evsOn_settled (ev : Event Handlers) (evExtra : Bytes) (json : Option Bytes) :
    Settled c clientCb (σ.evsOn env c ev evExtra clientCb json) := by
  obtain ⟨s, τ, got⟩ := subGet_isSome σ ev evExtra
  unfold evsOn
  rw [got]
  dsimp only
  rcases τ.clientSubAdd c s env.fairUse with ⟨υ, state⟩
  cases state with
  | pending => exact evsErrCb_replied env υ c clientCb _ _ none
  | tombstoned => exact evsErrCb_replied env υ c clientCb _ none none
  | null => exact evsErrCb_replied env υ c clientCb _ none none
  | active => exact evsCb_replied env υ c clientCb none
  | created => exact evsOnCreated_settled env υ ⟨evExtra, json, s, c, clientCb⟩ (onAnswer env ev)

theorem ofApp_handled (status : EvsStatus) : Handled c clientCb (Outcome.ofApp σ status) := by
  cases status with
  | ok => exact ⟨rfl, rfl, rfl⟩
  | err => exact ⟨rfl, rfl, rfl⟩
  | handled => exact rfl

theorem cbFire_handled (serverCb : EvsCb) (json : Bytes) :
    Handled c clientCb (σ.cbFire env c serverCb clientCb json) := by
  unfold cbFire
  rcases clientCbFire_cases (σ.clients c).callbacks serverCb clientCb json with
    ⟨i, cb, -, ran⟩ | missed
  · simp only [ran]
    exact ofApp_handled _ c clientCb env.handler
  · simp only [missed, noSuchCb]
    exact evsErrCb_replied env _ c clientCb _ _ none

theorem qioCallback_handled (evExtra json : Bytes) :
    Handled c clientCb (σ.qioCallback env c evExtra clientCb json) := by
  unfold qioCallback
  split
  next => exact evsErrCb_replied env σ c clientCb _ _ none
  next => exact cbFire_handled env σ c clientCb _ json

theorem qioOn_handled (json : Bytes) :
    ∃ result, σ.qioOn env c clientCb json = .ok result ∧ Handled c clientCb result := by
  unfold qioOn
  cases onArguments env json with
  | none => exact ⟨_, rfl, evsErrCb_replied env σ c clientCb _ _ none⟩
  | some arguments =>
    obtain ⟨evPath, data⟩ := arguments
    obtain ⟨answer, query⟩ := evsQuery_clean σ.events evPath
    simp only [query]
    cases answer with
    | none => exact ⟨_, rfl, evsErrCb_replied env σ c clientCb _ none none⟩
    | some found => exact ⟨_, rfl, evsOn_settled env σ c clientCb found.1 found.2 data⟩

theorem qioOff_handled (json : Bytes) :
    ∃ result, σ.qioOff env c clientCb json = .ok result ∧ Handled c clientCb result := by
  unfold qioOff
  split
  next evPath =>
    obtain ⟨answer, query⟩ := evsQuery_clean σ.events evPath
    simp only [query]
    cases answer with
    | none => exact ⟨_, rfl, evsErrCb_replied env σ c clientCb _ none none⟩
    | some found => exact ⟨_, rfl, rfl, rfl, rfl⟩
  next => exact ⟨_, rfl, evsErrCb_replied env σ c clientCb _ _ none⟩

/-- Each handler settles the event or leaves all of it to `evs_route`. -/
theorem handle_handled (evExtra json : Bytes) (handlerFn : HandlerFn) :
    ∃ result, σ.handle env c evExtra clientCb json handlerFn = .ok result ∧
      Handled c clientCb result := by
  cases handlerFn with
  | callback => exact ⟨_, rfl, qioCallback_handled env σ c clientCb evExtra json⟩
  | hostname => exact ⟨_, rfl, evsCb_replied env σ c clientCb _⟩
  | on => exact qioOn_handled env σ c clientCb json
  | off => exact qioOff_handled env σ c clientCb json
  | ping => exact ⟨_, rfl, rfl, rfl, rfl⟩
  | app fn => exact ⟨_, rfl, ofApp_handled σ c clientCb env.handler⟩

theorem answer_settled (result : Outcome × EvsStatus) (code : EvsCode)
    (handled : Handled c clientCb result) :
    Settled c clientCb (answer env result.1 c clientCb code result.2) := by
  obtain ⟨⟨server, sends, approval, completed, kept⟩, status⟩ := result
  cases status with
  | ok =>
    obtain ⟨rfl, rfl, rfl⟩ := handled
    exact evsCb_replied env server c clientCb none
  | err =>
    obtain ⟨rfl, rfl, rfl⟩ := handled
    exact evsErrCb_replied env server c clientCb code none none
  | handled => exact handled

/-- Routing an event always comes to an end, and settles it. -/
theorem evsRoute_settled (evPath json : Bytes) :
    ∃ outcome, σ.evsRoute env c evPath clientCb json = .ok outcome ∧
      Settled c clientCb outcome := by
  obtain ⟨found, query⟩ := evsQuery_clean σ.events evPath
  unfold evsRoute
  rw [query]
  match found with
  | none => exact ⟨_, rfl, answer_settled env c clientCb (_, .err) codeNotFound ⟨rfl, rfl, rfl⟩⟩
  | some (ev, evExtra) =>
    dsimp only
    cases ev.handlers.handlerFn with
    | none => exact ⟨_, rfl, answer_settled env c clientCb (_, .err) codeUnknown ⟨rfl, rfl, rfl⟩⟩
    | some handlerFn =>
      obtain ⟨result, called, handled⟩ := handle_handled env σ c clientCb evExtra json handlerFn
      simp only [called]
      exact ⟨_, rfl, answer_settled env c clientCb result codeUnknown handled⟩

end Replies

/-! ### Runs -/

namespace Replies

/-- The server, the events routed so far with client and callback, the infos
kept for later with the number of their event, the numbers of the events that
applications kept to answer themselves, and every call of `protocols_send` with
the number of the event it answers. -/
structure State where
  server : Server
  requests : List (ClientId × EvsCb)
  approvals : List (Nat × EvsOnInfo)
  kept : List Nat
  sent : List (Nat × Send)

/-- An event of a client, the `evs_on_cb` for event `n`, an application that
answers event `n`, which it kept, subscribes or unsubscribes a client or creates
or prunes callbacks, and a client that closes. -/
inductive Label where
  | route (env : Env) (c : ClientId) (evPath : Bytes) (clientCb : EvsCb) (json : Bytes)
  | onCb (env : Env) (n : Nat) (success : Bool)
  | cb (env : Env) (n : Nat) (code : EvsCode) (errMsg json : Option Bytes)
      (cbFn cbData freeFn : Option Ptr)
  | on (env : Env) (c : ClientId) (ev : Event Handlers) (evExtra : Bytes) (clientCb : EvsCb)
      (json : Option Bytes)
  | off (c : ClientId) (ev : Event Handlers) (evExtra : Bytes)
  | newCb (env : Env) (c : ClientId) (cbFn cbData freeFn : Option Ptr)
  | prune (c : ClientId) (before : Int)
  | close (c : ClientId)
  | closed (c : ClientId)

/-- The next event is `(c, clientCb)`, with this outcome. -/
def record (m : State) (c : ClientId) (clientCb : EvsCb) (outcome : Outcome) : State where
  server := outcome.server
  requests := m.requests ++ [(c, clientCb)]
  approvals :=
    match outcome.approval with
    | none => m.approvals
    | some info => (m.requests.length, info) :: m.approvals
  kept := if outcome.kept then m.requests.length :: m.kept else m.kept
  sent := m.sent ++ outcome.sends.map (m.requests.length, ·)

def step (m : State) : Label → Option State
  | .route env c evPath clientCb json =>
    match m.server.evsRoute env c evPath clientCb json with
    | .error _ => none
    | .ok outcome => some (record m c clientCb outcome)
  | .onCb env n success =>
    -- An info that was copied is answered once, and then freed.
    match m.approvals.lookup n with
    | none => none
    | some info =>
      let (server, sends) := m.server.evsOnCbLate env success info
      some { m with
        server
        approvals := m.approvals.filter fun approval => approval.1 != n
        sent := m.sent ++ sends.map (n, ·) }
  | .cb env n code errMsg json cbFn cbData freeFn =>
    -- As often as the application wants to.
    match if n ∈ m.kept then m.requests[n]? else none with
    | none => none
    | some (c, clientCb) =>
      let (server, sends) := m.server.evsCbFull env c clientCb code errMsg json cbFn cbData freeFn
      some { m with server, sent := m.sent ++ sends.map (n, ·) }
  | .on env c ev evExtra clientCb json =>
    some (record m c clientCb (m.server.evsOn env c ev evExtra clientCb json))
  | .off c ev evExtra => some { m with server := m.server.evsOff c ev evExtra }
  | .newCb env c cbFn cbData freeFn =>
    some { m with server := (m.server.cbNew env c cbFn cbData freeFn).1 }
  | .prune c before => some { m with server := m.server.cbPrune c before }
  | .close c => some { m with server := m.server.qevClose c }
  | .closed c => some { m with server := m.server.clientClosed c }

def system : TransitionSystem State Label where
  init m := m.requests = [] ∧ m.approvals = [] ∧ m.kept = [] ∧ m.sent = []
  step := step

/-- The answers sent for event `n`. -/
def answers (m : State) (n : Nat) : List Send :=
  m.sent.filterMap fun entry => if entry.1 = n then some entry.2 else none

/-- Event `n` waits for its `evs_on_cb`. -/
def Outstanding (m : State) (n : Nat) : Prop := ∃ info, (n, info) ∈ m.approvals

/-- Every event is answered, or its approval is outstanding and will be
answered to the same client and callback, or it was kept. -/
structure Inv (m : State) : Prop where
  answered : ∀ n c clientCb, m.requests[n]? = some (c, clientCb) → ¬Outstanding m n →
    n ∉ m.kept → Replied c clientCb (answers m n)
  waiting : ∀ n info, (n, info) ∈ m.approvals →
    answers m n = [] ∧ m.requests[n]? = some (info.client, info.clientCb)
  known : ∀ entry ∈ m.sent, entry.1 < m.requests.length
  once : (m.approvals.map Prod.fst).Nodup
  kept : ∀ n ∈ m.kept, n < m.requests.length ∧ ¬Outstanding m n

theorem answers_append (m : State) (n k : Nat) (sends : List Send) (server : Server)
    (requests : List (ClientId × EvsCb)) (approvals : List (Nat × EvsOnInfo)) (kept : List Nat) :
    answers ⟨server, requests, approvals, kept, m.sent ++ sends.map (k, ·)⟩ n =
      answers m n ++ if k = n then sends else [] := by
  simp only [answers, List.filterMap_append, List.filterMap_map]
  congr 1
  split
  next same => subst same; simp
  next other => simp [other]

theorem Inv.unsent {m : State} (inv : Inv m) : answers m m.requests.length = [] := by
  simp only [answers, List.filterMap_eq_nil_iff]
  intro entry member
  exact if_neg (Nat.ne_of_lt (inv.known entry member))

/-- Changing only the server changes nothing. -/
theorem Inv.server {m : State} (inv : Inv m) (server : Server) : Inv { m with server } :=
  ⟨inv.answered, inv.waiting, inv.known, inv.once, inv.kept⟩

theorem record_kept (m : State) (c : ClientId) (clientCb : EvsCb) (outcome : Outcome) (n : Nat) :
    n ∈ (record m c clientCb outcome).kept ↔
      n ∈ m.kept ∨ (outcome.kept = true ∧ n = m.requests.length) := by
  cases kept : outcome.kept with
  | true => simp [record, kept, or_comm]
  | false => simp [record, kept]

section Record

variable {m : State} (c : ClientId) (clientCb : EvsCb) (outcome : Outcome)

/-- The events of before keep their numbers, and the new one has the next. -/
theorem record_requests {n : Nat} {r : ClientId × EvsCb}
    (found : (record m c clientCb outcome).requests[n]? = some r) :
    (m.requests[n]? = some r ∧ n < m.requests.length) ∨
      (n = m.requests.length ∧ r = (c, clientCb)) := by
  have found : (m.requests ++ [(c, clientCb)])[n]? = some r := found
  rcases Nat.lt_trichotomy n m.requests.length with old | rfl | beyond
  · rw [List.getElem?_append_left old] at found
    exact Or.inl ⟨found, old⟩
  · rw [List.getElem?_concat_length, Option.some.injEq] at found
    exact Or.inr ⟨rfl, found.symm⟩
  · rw [List.getElem?_eq_none (by simp; omega)] at found
    cases found

theorem record_length : (record m c clientCb outcome).requests.length = m.requests.length + 1 :=
  List.length_append

/-- The new number has been promised nothing. -/
theorem Inv.fresh (inv : Inv m) (info : EvsOnInfo) : (m.requests.length, info) ∉ m.approvals := by
  intro member
  have found := (inv.waiting _ info member).2
  rw [List.getElem?_eq_none (Nat.le_refl _)] at found
  cases found

theorem Inv.record_known (inv : Inv m) : ∀ entry ∈ (record m c clientCb outcome).sent,
    entry.1 < (record m c clientCb outcome).requests.length := by
  intro entry member
  rw [record_length]
  rcases List.mem_append.mp member with old | new
  · exact Nat.lt_succ_of_lt (inv.known entry old)
  · obtain ⟨send, -, rfl⟩ := List.mem_map.mp new
    exact Nat.lt_succ_self _

/-- What is sent answers the new event alone. -/
theorem Inv.record_answers (inv : Inv m) (n : Nat) :
    answers (record m c clientCb outcome) n =
      if n = m.requests.length then outcome.sends else answers m n := by
  rw [record, answers_append]
  split
  next new =>
    subst new
    rw [if_pos rfl, inv.unsent, List.nil_append]
  next old => rw [if_neg (Ne.symm old), List.append_nil]

/-- An event that is answered at once, or kept. -/
theorem Inv.record_none (inv : Inv m) (finished : outcome.approval = none)
    (settled : outcome.kept = true ∨ Replied c clientCb outcome.sends) :
    Inv (record m c clientCb outcome) := by
  have approvals : (record m c clientCb outcome).approvals = m.approvals := by
    simp only [record, finished]
  refine ⟨?_, ?_, inv.record_known c clientCb outcome, approvals ▸ inv.once, ?_⟩
  · intro n c' clientCb' found quiet unkept
    rw [record_kept, not_or] at unkept
    rw [Outstanding, approvals] at quiet
    rw [inv.record_answers]
    rcases record_requests c clientCb outcome found with ⟨found, old⟩ | ⟨rfl, ⟨⟩⟩
    · rw [if_neg (Nat.ne_of_lt old)]
      exact inv.answered n c' clientCb' found quiet unkept.1
    · rw [if_pos rfl]
      exact settled.resolve_left fun keeps => unkept.2 ⟨keeps, rfl⟩
  · intro n info member
    rw [approvals] at member
    obtain ⟨unsent, found⟩ := inv.waiting n info member
    have old := (List.getElem?_eq_some_iff.mp found).1
    rw [inv.record_answers, if_neg (Nat.ne_of_lt old)]
    exact ⟨unsent, (List.getElem?_append_left old).trans found⟩
  · intro n member
    rw [Outstanding, approvals, record_length]
    rcases (record_kept m c clientCb outcome n).mp member with old | ⟨-, rfl⟩
    · obtain ⟨below, silent⟩ := inv.kept n old
      exact ⟨Nat.lt_succ_of_lt below, silent⟩
    · refine ⟨Nat.lt_succ_self _, ?_⟩
      rintro ⟨info, waits⟩
      exact inv.fresh info waits

/-- An event that is left for later, and silent until then. -/
theorem Inv.record_some (inv : Inv m) {info : EvsOnInfo} (later : outcome.approval = some info)
    (unkept : outcome.kept = false) (silent : outcome.sends = []) (client : info.client = c)
    (callback : info.clientCb = clientCb) : Inv (record m c clientCb outcome) := by
  have approvals : (record m c clientCb outcome).approvals =
      (m.requests.length, info) :: m.approvals := by
    simp only [record, later]
  have kept : (record m c clientCb outcome).kept = m.kept := by
    rw [record, unkept]
    rfl
  have quiet : ∀ n, answers (record m c clientCb outcome) n = answers m n := by
    intro n
    rw [inv.record_answers, silent]
    split
    next new => rw [new, inv.unsent]
    next => rfl
  refine ⟨?_, ?_, inv.record_known c clientCb outcome, ?_, ?_⟩
  · intro n c' clientCb' found finished unkept
    rw [kept] at unkept
    rw [Outstanding, approvals] at finished
    rw [quiet]
    rcases record_requests c clientCb outcome found with ⟨found, -⟩ | ⟨rfl, -⟩
    · refine inv.answered n c' clientCb' found ?_ unkept
      rintro ⟨info', member⟩
      exact finished ⟨info', List.mem_cons_of_mem _ member⟩
    · exact absurd ⟨info, List.mem_cons_self⟩ finished
  · intro n info' member
    rw [approvals] at member
    rw [quiet]
    rcases List.mem_cons.mp member with new | old
    · cases new
      refine ⟨inv.unsent, ?_⟩
      rw [client, callback]
      exact List.getElem?_concat_length
    · obtain ⟨unsent, found⟩ := inv.waiting n info' old
      have below := (List.getElem?_eq_some_iff.mp found).1
      exact ⟨unsent, (List.getElem?_append_left below).trans found⟩
  · rw [approvals]
    apply List.nodup_cons.mpr
    refine ⟨?_, inv.once⟩
    intro member
    obtain ⟨⟨n, info'⟩, member, rfl⟩ := List.mem_map.mp member
    exact inv.fresh info' member
  · intro n member
    rw [kept] at member
    obtain ⟨below, silent⟩ := inv.kept n member
    rw [Outstanding, approvals, record_length]
    refine ⟨Nat.lt_succ_of_lt below, ?_⟩
    rintro ⟨info', waits⟩
    rcases List.mem_cons.mp waits with new | still
    · cases new
      exact absurd below (Nat.lt_irrefl _)
    · exact silent ⟨info', still⟩

theorem Inv.record (inv : Inv m) (settled : Settled c clientCb outcome) :
    Inv (record m c clientCb outcome) := by
  cases left : outcome.approval with
  | none =>
    apply inv.record_none c clientCb outcome left
    simp only [Settled, left] at settled
    cases keeps : outcome.kept with
    | true => exact Or.inl rfl
    | false =>
      rw [keeps] at settled
      exact Or.inr settled
  | some info =>
    simp only [Settled, left] at settled
    obtain ⟨unkept, silent, client, callback⟩ := settled
    exact inv.record_some c clientCb outcome left unkept silent client callback

end Record

/-- The late completion of event `n` answers it. -/
theorem Inv.complete {m : State} (inv : Inv m) (n : Nat) (info : EvsOnInfo) (server : Server)
    (sends : List Send) (found : m.approvals.lookup n = some info)
    (replied : Replied info.client info.clientCb sends) :
    Inv ⟨server, m.requests, m.approvals.filter fun approval => approval.1 != n, m.kept,
      m.sent ++ sends.map (n, ·)⟩ := by
  have member : (n, info) ∈ m.approvals := by
    obtain ⟨before, after, split, -⟩ := List.lookup_eq_some_iff.mp found
    simp [split]
  obtain ⟨unsent, request⟩ := inv.waiting n info member
  refine ⟨?_, ?_, ?_, ?_, ?_⟩
  · intro k c clientCb asked finished unkept
    rw [answers_append]
    by_cases same : n = k
    · -- the event of this completion: it had not been answered yet
      subst same
      cases request.symm.trans asked
      rw [if_pos rfl, unsent, List.nil_append]
      exact replied
    · -- an event of another completion
      rw [if_neg same, List.append_nil]
      refine inv.answered k c clientCb asked ?_ unkept
      rintro ⟨info', still⟩
      exact finished ⟨info', List.mem_filter.mpr ⟨still, by simpa using Ne.symm same⟩⟩
  · intro k info' still
    obtain ⟨still, other⟩ := List.mem_filter.mp still
    simp only [bne_iff_ne, ne_eq] at other
    rw [answers_append, if_neg (Ne.symm other), List.append_nil]
    -- what still waits has not been answered
    exact inv.waiting k info' still
  · intro entry sent
    rcases List.mem_append.mp sent with old | new
    · exact inv.known entry old
    · obtain ⟨send, -, rfl⟩ := List.mem_map.mp new
      exact (List.getElem?_eq_some_iff.mp request).1
  · exact inv.once.sublist (List.filter_sublist.map Prod.fst)
  · intro k member
    obtain ⟨below, silent⟩ := inv.kept k member
    refine ⟨below, ?_⟩
    rintro ⟨info', still⟩
    exact silent ⟨info', (List.mem_filter.mp still).1⟩

/-- An application answers event `n`, which it kept, once more. -/
theorem Inv.answerKept {m : State} (inv : Inv m) {n : Nat} (member : n ∈ m.kept) (server : Server)
    (sends : List Send) :
    Inv { m with server, sent := m.sent ++ sends.map (n, ·) } := by
  obtain ⟨below, silent⟩ := inv.kept n member
  refine ⟨?_, ?_, ?_, inv.once, inv.kept⟩
  · intro k c clientCb asked finished unkept
    have other : n ≠ k := by
      rintro rfl
      exact unkept member
    rw [answers_append, if_neg other, List.append_nil]
    exact inv.answered k c clientCb asked finished unkept
  · intro k info waits
    have other : n ≠ k := by
      rintro rfl
      exact silent ⟨info, waits⟩
    rw [answers_append, if_neg other, List.append_nil]
    exact inv.waiting k info waits
  · intro entry sent
    rcases List.mem_append.mp sent with old | new
    · exact inv.known entry old
    · obtain ⟨send, -, rfl⟩ := List.mem_map.mp new
      exact below

/-- What an application can answer is an event that it kept. -/
theorem step_cb {m m' : State} {env : Env} {n : Nat} {code : EvsCode} {errMsg json : Option Bytes}
    {cbFn cbData freeFn : Option Ptr}
    (stepped : step m (.cb env n code errMsg json cbFn cbData freeFn) = some m') :
    ∃ c clientCb, n ∈ m.kept ∧ m.requests[n]? = some (c, clientCb) ∧
      let result := m.server.evsCbFull env c clientCb code errMsg json cbFn cbData freeFn
      m' = { m with server := result.1, sent := m.sent ++ result.2.map (n, ·) } := by
  simp only [step] at stepped
  by_cases member : n ∈ m.kept
  · rw [if_pos member] at stepped
    cases asked : m.requests[n]? with
    | none => simp [asked] at stepped
    | some request =>
      obtain ⟨c, clientCb⟩ := request
      simp only [asked, Option.some.injEq] at stepped
      exact ⟨c, clientCb, member, rfl, stepped.symm⟩
  · rw [if_neg member] at stepped
    cases stepped

theorem inv_step (m : State) (l : Label) (m' : State) (inv : Inv m) (stepped : step m l = some m') :
    Inv m' := by
  cases l with
  | route env c evPath clientCb json =>
    obtain ⟨outcome, routed, settled⟩ := evsRoute_settled env m.server c clientCb evPath json
    simp only [step, routed, Option.some.injEq] at stepped
    subst stepped
    exact inv.record c clientCb outcome settled
  | onCb env n success =>
    simp only [step] at stepped
    split at stepped
    next => cases stepped
    next info found =>
      cases stepped
      exact inv.complete n info _ _ found (evsOnCb_replied env m.server success info)
  | cb env n code errMsg json cbFn cbData freeFn =>
    obtain ⟨c, clientCb, member, -, rfl⟩ := step_cb stepped
    exact inv.answerKept member _ _
  | on env c ev evExtra clientCb json =>
    cases stepped
    exact inv.record c clientCb _ (evsOn_settled env m.server c clientCb ev evExtra json)
  | off c ev evExtra =>
    cases stepped
    exact inv.server _
  | newCb env c cbFn cbData freeFn =>
    cases stepped
    exact inv.server _
  | prune c before =>
    cases stepped
    exact inv.server _
  | close c =>
    cases stepped
    exact inv.server _
  | closed c =>
    cases stepped
    exact inv.server _

/-- Events are always routed to an end, completions can always come, and an
event that no longer waits for one, and that no handler of an application said to
answer itself, has been answered by exactly one call of `protocols_send` to its
client for its callback, none if that is zero. -/
theorem callback_answered (m : State) (reached : system.Reachable m) :
    (∀ env c evPath clientCb json, ∃ m', step m (.route env c evPath clientCb json) = some m') ∧
    (∀ env n success, Outstanding m n → ∃ m', step m (.onCb env n success) = some m') ∧
    ∀ n c clientCb, m.requests[n]? = some (c, clientCb) → n ∉ m.kept →
      (clientCb = 0 ∨ Outstanding m n → answers m n = []) ∧
      (clientCb ≠ 0 → ¬Outstanding m n →
        ∃ serverCb json, answers m n = [⟨c, cbPath clientCb, [], serverCb, json⟩]) := by
  have inv : Inv m := by
    refine system.reachable_invariant Inv ?_ inv_step m reached
    rintro ⟨server, requests, approvals, kept, sent⟩ ⟨rfl, rfl, rfl, rfl⟩
    exact ⟨by simp, by simp, by simp, List.nodup_nil, by simp⟩
  refine ⟨?_, ?_, ?_⟩
  · intro env c evPath clientCb json
    obtain ⟨outcome, routed, -⟩ := evsRoute_settled env m.server c clientCb evPath json
    exact ⟨record m c clientCb outcome, by simp only [step, routed]⟩
  · rintro env n success ⟨info, member⟩
    -- an approval that waits can be looked up
    have found : m.approvals.lookup n ≠ none := by
      rw [ne_eq, List.lookup_eq_none_iff]
      exact fun absent => by simpa using absent _ member
    cases found' : m.approvals.lookup n with
    | none => exact absurd found' found
    | some info => exact ⟨_, by simp only [step, found']; rfl⟩
  · intro n c clientCb asked unkept
    by_cases waiting : Outstanding m n
    · -- still waiting: nothing was sent
      obtain ⟨info, member⟩ := waiting
      exact ⟨fun _ => (inv.waiting n info member).1, fun _ finished => absurd ⟨info, member⟩ finished⟩
    · have replied := inv.answered n c clientCb asked waiting unkept
      unfold Replied at replied
      split at replied
      next zero => exact ⟨fun _ => replied, fun nonzero => absurd zero nonzero⟩
      next nonzero => exact ⟨fun either => absurd either (not_or.mpr ⟨nonzero, waiting⟩),
        fun _ _ => replied⟩

/-- Client 3 subscribes with callback 7 and closes before it is approved. -/
def lateApproval : List Label := [
  .on lateEnv 3 ⟨str "/a", ⟨none, some (.app 0), none⟩, false⟩ [] 7 none,
  .close 3, .closed 3, .onCb lateEnv 0 true]

theorem callback_answered_late :
    ∃ m, system.Reachable m ∧
      ∃ serverCb json, answers m 0 = [⟨3, cbPath 7, [], serverCb, json⟩] := by
  cases ran : system.run ⟨Server.new, [], [], [], []⟩ lateApproval with
  | none => exact absurd ran (by decide)
  | some m =>
    have reached : system.Reachable m := ⟨_, lateApproval, ⟨rfl, rfl, rfl, rfl⟩, ran⟩
    have finished : ∀ m ∈ system.run ⟨Server.new, [], [], [], []⟩ lateApproval,
        m.requests[0]? = some (3, 7) ∧ m.approvals = [] ∧ m.kept = [] := by
      decide
    obtain ⟨asked, none_left, none_kept⟩ := finished m ran
    refine ⟨m, reached, ((callback_answered m reached).2.2 0 3 7 asked (by simp [none_kept])).2
      (by decide) ?_⟩
    rintro ⟨info, member⟩
    rw [none_left] at member
    cases member

end Replies

end QuickIO
