import QuickIO.Evs

/-!
# Relations that subscribing respects

The functions of sub.c, client.c and evs.c change a server by a few writes. A relation that
allows each of these writes holds between the states before and after every one of the
functions: their cases are gone through here, once for all such relations.
-/
namespace QuickIO

open Server

/-! ### Answers without a callback -/

section Answers

variable (env : Env) (σ : Server) (c : ClientId)

/-- Without a function `client_cb_new` does not look at the client. -/
theorem cbNew_none : σ.cbNew env c none none none = (σ, evsNoCallback) := by
  simp [cbNew, clientCbNew, cbDataFree, setClient]

/-- An answer that asks for no callback only sends. -/
theorem evsCbFull_server (clientCb : EvsCb) (code : EvsCode) (errMsg json : Option Bytes) :
    (σ.evsCbFull env c clientCb code errMsg json none none none).1 = σ := by
  simp only [evsCbFull, cbNew_none]
  split
  next => rfl
  next => split <;> rfl

theorem evsCb_server (clientCb : EvsCb) (json : Option Bytes) :
    (σ.evsCb env c clientCb json).1 = σ :=
  evsCbFull_server env σ c clientCb codeOk none json

theorem evsErrCb_server (clientCb : EvsCb) (code : EvsCode) (errMsg json : Option Bytes) :
    (σ.evsErrCb env c clientCb code errMsg json).1 = σ :=
  evsCbFull_server env σ c clientCb code errMsg json

end Answers

/-- A relation that the writes of the subscription functions respect. What a subscription is
for, who is closing, the callbacks and the trie are not among these writes. -/
structure Framed (R : Server → Server → Prop) : Prop where
  trans {σ τ υ : Server} : R σ τ → R τ υ → R σ υ
  books (σ : Server) (nextIdx fairUsed : Nat) (table : Bytes → Bytes → Option SubId)
    (offCalls : List OffCall) (wrapped : Bool) (grows : wrapped = false → σ.wrapped = false) :
    R σ { σ with nextIdx, fairUsed, table, offCalls, wrapped }
  setSub (σ : Server) (s : SubId) (sub : Subscription) (ev : sub.ev = (σ.heap s).ev)
    (evExtra : sub.evExtra = (σ.heap s).evExtra) : R σ (σ.setSub s sub)
  setSubs (σ : Server) (c : ClientId) (subs : Option (AList fun _ : SubId => ClientSub)) :
    R σ (σ.setClient c { σ.clients c with subs })
  subCreate (σ : Server) (ev : Event Handlers) (evExtra : Bytes) : R σ (σ.subCreate ev evExtra)

namespace Framed

variable {R : Server → Server → Prop} (framed : Framed R)

include framed

section Subscriptions

variable (σ : Server)

theorem refl : R σ σ := framed.books σ σ.nextIdx σ.fairUsed σ.table σ.offCalls σ.wrapped id

/-! ### sub.c -/

theorem subRef (s : SubId) : R σ (σ.subRef s) := by
  have counted := framed.setSub σ s { σ.heap s with refs := (σ.heap s).refs + 1 } rfl rfl
  refine framed.trans counted (framed.books _ _ _ _ _ _ fun unwrapped => ?_)
  exact (Bool.or_eq_false_iff.mp unwrapped).1

theorem subUnref (s : SubId) : R σ (σ.subUnref s) := by
  simp only [Server.subUnref]
  split
  · have written := framed.setSub σ s
      { σ.heap s with refs := (σ.heap s).refs - 1, freed := true } rfl rfl
    exact framed.trans written (framed.books _ _ _ _ _ _ id)
  · exact framed.setSub σ s _ rfl rfl

theorem subGet {σ τ : Server} {ev : Event Handlers} {evExtra : Bytes} {orCreate : Bool}
    {s : SubId} (got : σ.subGet ev evExtra orCreate = some (s, τ)) : R σ τ := by
  simp only [Server.subGet] at got
  split at got
  next found look =>
    cases got
    simp only [getIfExists] at look
    split at look
    next => cases look
    next =>
      obtain ⟨-, ⟨⟩⟩ := Option.ite_none_left_eq_some.mp look
      exact framed.subRef σ s
  next =>
    obtain ⟨-, ⟨⟩⟩ := Option.ite_none_right_eq_some.mp got
    exact framed.subCreate σ ev evExtra

/-! ### client.c -/

theorem listAdd (s : SubId) (idx : Nat) (c : ClientId) : R σ (σ.listAdd s idx c) :=
  framed.setSub σ s _ rfl rfl

theorem listRemove (s : SubId) (idx : Nat) : R σ (σ.listRemove s idx) :=
  framed.setSub σ s _ rfl rfl

theorem hashInsert (c : ClientId) (s : SubId) (csub : ClientSub) : R σ (σ.hashInsert c s csub) :=
  framed.setSubs σ c _

theorem hashRemove (c : ClientId) (s : SubId) : R σ (σ.hashRemove c s) := framed.setSubs σ c _

theorem dropEmpty (c : ClientId) : R σ (σ.dropEmpty c) := framed.setSubs σ c _

theorem clientOff (c : ClientId) (s : SubId) : R σ (σ.clientOff c s) := by
  unfold Server.clientOff
  split
  · exact framed.refl σ
  · exact framed.books σ _ _ _ _ _ id

theorem subFree : R σ σ.subFree := framed.books σ _ _ _ _ _ id

theorem subCleanup (c : ClientId) (s : SubId) (csub : ClientSub) (table : Bool) :
    R σ (σ.subCleanup c s csub table) := by
  have listed := framed.listRemove σ s csub.idx
  have off := framed.trans listed (framed.clientOff _ c s)
  have freed := framed.trans off (framed.subFree _)
  have inner := framed.trans freed (framed.subUnref _ s)
  cases table with
  | false => exact inner
  | true => exact framed.trans (framed.trans inner (framed.hashRemove _ c s)) (framed.dropEmpty _ c)

theorem joined (c : ClientId) (s : SubId) (csub : ClientSub) : R σ (σ.joined c s csub) :=
  framed.trans (framed.listAdd σ s csub.idx c) (framed.hashInsert _ c s _)

theorem clientSubAdd (c : ClientId) (s : SubId) (fairUse : Bool) :
    R σ (σ.clientSubAdd c s fairUse).1 := by
  unfold Server.clientSubAdd
  split
  next => exact framed.refl σ
  next =>
    split
    next => exact framed.hashInsert σ c s _
    next =>
      cases fairUse with
      | false => exact framed.refl σ
      | true =>
        have alloc := framed.books σ (σ.nextIdx + 1) (σ.fairUsed + 1) σ.table σ.offCalls σ.wrapped id
        exact framed.trans (framed.trans alloc (framed.subRef _ s)) (framed.hashInsert _ c s _)

theorem clientSubAccept (c : ClientId) (s : SubId) (listOk : Bool) :
    R σ (σ.clientSubAccept c s listOk).1 := by
  cases stored : σ.entry c s with
  | none =>
    rw [clientSubAccept_absent stored]
    exact framed.refl σ
  | some csub =>
    cases listOk with
    | false =>
      rw [clientSubAccept_failed stored]
      exact framed.subCleanup σ c s csub true
    | true =>
      cases wanted : csub.tombstone with
      | false =>
        rw [clientSubAccept_active stored wanted]
        exact framed.joined σ c s csub
      | true =>
        rw [clientSubAccept_tombstoned stored wanted]
        exact framed.trans (framed.joined σ c s csub) (framed.subCleanup _ c s _ true)

theorem subRemove (c : ClientId) (s : SubId) (rejected : Bool) :
    R σ (σ.subRemove c s rejected).1 := by
  unfold Server.subRemove
  split
  next => exact framed.refl σ
  next =>
    split
    next => exact framed.hashInsert σ c s _
    next => exact framed.subCleanup σ c s _ true

theorem closeEntry (c : ClientId) (item : Sigma fun _ : SubId => ClientSub) :
    R σ (closeEntry c σ item) :=
  framed.trans (framed.hashRemove σ c item.1) (framed.subCleanup _ c item.1 item.2 false)

/-- The loop of `client_closed`. -/
theorem emptied (c : ClientId) : R σ (σ.emptied c) := by
  simp only [Server.emptied]
  split
  next => exact framed.refl σ
  next subs table =>
    clear table
    generalize subs.entries = rest
    induction rest generalizing σ with
    | nil => exact framed.refl σ
    | cons item rest ih => exact framed.trans (framed.closeEntry σ c item) (ih _)

end Subscriptions

/-! ### evs.c -/

section Events

variable (env : Env) (σ : Server)

theorem evsOnCb (success : Bool) (info : EvsOnInfo) : R σ (σ.evsOnCb env success info).1 := by
  cases success with
  | false =>
    simp only [Server.evsOnCb, Bool.false_eq_true, if_false, evsErrCb_server]
    exact framed.subRemove σ info.client info.sub true
  | true =>
    have accepted := framed.clientSubAccept σ info.client info.sub env.listOk
    simp only [Server.evsOnCb, if_true, evsErrCb_server]
    revert accepted
    rcases σ.clientSubAccept info.client info.sub env.listOk with ⟨τ, state⟩
    intro accepted
    cases state <;> exact accepted

theorem evsOnCreated (info : EvsOnInfo) (answer : OnAnswer) :
    R σ (σ.evsOnCreated env info answer).server := by
  cases answer with
  | ok => exact framed.evsOnCb env σ true info
  | err => exact framed.evsOnCb env σ false info
  | now success => exact framed.evsOnCb env σ success info
  | later => exact framed.subRef σ info.sub

theorem evsOn (c : ClientId) (ev : Event Handlers) (evExtra : Bytes) (clientCb : EvsCb)
    (json : Option Bytes) : R σ (σ.evsOn env c ev evExtra clientCb json).server := by
  unfold Server.evsOn
  split
  next => exact framed.refl σ
  next s τ got =>
    have added := framed.trans (framed.subGet got) (framed.clientSubAdd τ c s env.fairUse)
    refine framed.trans ?_ (framed.subUnref _ s)
    revert added
    rcases τ.clientSubAdd c s env.fairUse with ⟨υ, state⟩
    intro added
    -- every state but the last one is only answered
    cases state with
    | pending => simpa only [Outcome.reply, evsErrCb_server] using added
    | tombstoned => simpa only [Outcome.reply, evsErrCb_server] using added
    | null => simpa only [Outcome.reply, evsErrCb_server] using added
    | active => simpa only [Outcome.reply, evsCb_server] using added
    | created => exact framed.trans added (framed.evsOnCreated env υ _ (onAnswer env ev))

theorem evsOff (c : ClientId) (ev : Event Handlers) (evExtra : Bytes) :
    R σ (σ.evsOff c ev evExtra) := by
  unfold Server.evsOff
  split
  next => exact framed.refl σ
  next s τ got =>
    have removed := framed.trans (framed.subGet got) (framed.subRemove τ c s false)
    exact framed.trans removed (framed.subUnref _ s)

theorem evsOnCbLate (success : Bool) (info : EvsOnInfo) :
    R σ (σ.evsOnCbLate env success info).1 :=
  framed.trans (framed.evsOnCb env σ success info) (framed.subUnref _ info.sub)

end Events

end Framed

end QuickIO
