import QuickIO.HttpKeys
import QuickIO.HttpSessions

/-!
# The table of sessions

Surrogates are stored by their keys in 64 tables. A request finds or inserts
one, and the close of a surrogate removes it; nothing else touches the tables,
or the keys that live inside the surrogates. An open surrogate is the one that a
lookup of its key returns.
-/
namespace QuickIO

open Lib

/-- The tables, and what of the surrogates they depend on. -/
@[ext] structure Table where
  clients : Nat → Nat → Option SurrId
  nextSurr : SurrId
  sid : SurrId → Nat
  tbl : SurrId → Nat
  closed : SurrId → Bool

namespace Table

/-- A new surrogate for a key. -/
def insert (t : Table) (key : Nat) : Table where
  clients := Function.update t.clients (key % 64)
    (Function.update (t.clients (key % 64)) key (some t.nextSurr))
  nextSurr := t.nextSurr + 1
  sid := Function.update t.sid t.nextSurr key
  tbl := Function.update t.tbl t.nextSurr (key % 64)
  closed := Function.update t.closed t.nextSurr false

/-- A surrogate closes. -/
def remove (t : Table) (s : SurrId) : Table :=
  { t with
    clients := Function.update t.clients (t.tbl s)
      (Function.update (t.clients (t.tbl s)) (t.sid s) none)
    closed := Function.update t.closed s true }

/-- A surrogate is in the tables while it is open, under its own key and in the
bucket of that key. -/
structure Valid (t : Table) : Prop where
  entry : ∀ b k s, t.clients b k = some s →
    b = k % 64 ∧ s < t.nextSurr ∧ t.sid s = k ∧ t.closed s = false
  bucket : ∀ s < t.nextSurr, t.tbl s = t.sid s % 64 ∧ t.sid s < 2 ^ 128
  stored : ∀ s < t.nextSurr, t.closed s = false → t.clients (t.tbl s) (t.sid s) = some s

theorem clients_insert (t : Table) (key b k : Nat) :
    (t.insert key).clients b k =
      if b = key % 64 ∧ k = key then some t.nextSurr else t.clients b k := by
  simp only [insert, Function.update_apply]
  by_cases bucket : b = key % 64
  · subst bucket
    by_cases same : k = key
    · simp [same]
    · simp [same]
  · simp [bucket]

theorem clients_remove (t : Table) (s : SurrId) (b k : Nat) :
    (t.remove s).clients b k =
      if b = t.tbl s ∧ k = t.sid s then none else t.clients b k := by
  simp only [remove, Function.update_apply]
  by_cases bucket : b = t.tbl s
  · subst bucket
    by_cases same : k = t.sid s
    · simp [same]
    · simp [same]
  · simp [bucket]

namespace Valid

variable {t : Table}

/-- A key that is not found is not the key of any open surrogate. -/
theorem insert (valid : Valid t) (key : Nat) (wide : key < 2 ^ 128)
    (absent : t.clients (key % 64) key = none) : Valid (t.insert key) := by
  have old : ∀ s < t.nextSurr, s ≠ t.nextSurr := fun s there => Nat.ne_of_lt there
  constructor
  · intro b k s entry
    rw [clients_insert] at entry
    split at entry
    next here =>
      obtain ⟨rfl, rfl⟩ := here
      cases entry
      exact ⟨rfl, Nat.lt_succ_self _, Function.update_self _ _ _, Function.update_self _ _ _⟩
    next =>
      obtain ⟨bucket, there, sid, open_⟩ := valid.entry b k s entry
      refine ⟨bucket, Nat.lt_succ_of_lt there, ?_, ?_⟩
      · exact (Function.update_of_ne (old s there) _ _).trans sid
      · exact (Function.update_of_ne (old s there) _ _).trans open_
  · intro s there
    simp only [Table.insert, Function.update_apply]
    split
    next => exact ⟨rfl, wide⟩
    next other =>
      exact valid.bucket s (Nat.lt_of_le_of_ne (Nat.le_of_lt_succ there) other)
  · intro s there open_
    by_cases new : s = t.nextSurr
    · subst new
      rw [clients_insert, if_pos]
      exact ⟨Function.update_self _ _ _, Function.update_self _ _ _⟩
    · have before : s < t.nextSurr := Nat.lt_of_le_of_ne (Nat.le_of_lt_succ there) new
      have tbl : (t.insert key).tbl s = t.tbl s := Function.update_of_ne new _ _
      have sid : (t.insert key).sid s = t.sid s := Function.update_of_ne new _ _
      have kept := valid.stored s before ((Function.update_of_ne new _ _).symm.trans open_)
      rw [clients_insert, tbl, sid, if_neg, kept]
      -- its key is found, and the new one was not
      rintro ⟨bucket, same⟩
      rw [bucket, same, absent] at kept
      cases kept

theorem remove (valid : Valid t) {s : SurrId} (there : s < t.nextSurr)
    (open_ : t.closed s = false) : Valid (t.remove s) := by
  have mine := valid.stored s there open_
  constructor
  · intro b k r entry
    rw [clients_remove] at entry
    split at entry
    next => cases entry
    next other =>
      obtain ⟨bucket, known, sid, alive⟩ := valid.entry b k r entry
      refine ⟨bucket, known, sid, ?_⟩
      have else_ : r ≠ s := by
        rintro rfl
        exact other ⟨by rw [(valid.bucket r known).1, sid, bucket], sid.symm⟩
      exact (Function.update_of_ne else_ _ _).trans alive
  · exact valid.bucket
  · intro r known alive
    by_cases same : r = s
    · subst same
      exact absurd alive (by simp [Table.remove])
    · have kept := valid.stored r known ((Function.update_of_ne same _ _).symm.trans alive)
      rw [clients_remove]
      show (if t.tbl r = t.tbl s ∧ t.sid r = t.sid s then none
        else t.clients (t.tbl r) (t.sid r)) = some r
      rw [if_neg, kept]
      -- two surrogates are not stored in one place
      rintro ⟨bucket, key⟩
      rw [bucket, key, mine] at kept
      exact same (Option.some.inj kept).symm

/-- A surrogate's close removes its own entry and no other. -/
theorem remove_clients (valid : Valid t) {s : SurrId} (there : s < t.nextSurr)
    (open_ : t.closed s = false) (b k : Nat) :
    (t.remove s).clients b k = if t.clients b k = some s then none else t.clients b k := by
  have mine := valid.stored s there open_
  rw [clients_remove]
  by_cases entry : t.clients b k = some s
  · obtain ⟨bucket, -, sid, -⟩ := valid.entry b k s entry
    rw [if_pos ⟨by rw [(valid.bucket s there).1, sid, bucket], sid.symm⟩, if_pos entry]
  · rw [if_neg entry, if_neg]
    rintro ⟨rfl, rfl⟩
    exact entry mine

end Valid

end Table

namespace Http

/-- The tables as they are in a state. -/
def table (σ : Http) : Table where
  clients := σ.clients
  nextSurr := σ.nextSurr
  sid s := (σ.surrs s).sid
  tbl s := (σ.surrs s).tbl
  closed s := (σ.surrs s).closed

/-! ### What leaves the tables alone -/

variable (env : HttpEnv) (σ : Http)

@[simp] theorem table_setSock (c : SockId) (f : Socket → Socket) :
    (σ.setSock c f).table = σ.table := rfl

theorem table_setSurr (s : SurrId) (f : Surrogate → Surrogate)
    (same : (f (σ.surrs s)).sid = (σ.surrs s).sid ∧ (f (σ.surrs s)).tbl = (σ.surrs s).tbl ∧
      (f (σ.surrs s)).closed = (σ.surrs s).closed) : (σ.setSurr s f).table = σ.table := by
  obtain ⟨sid, tbl, closed⟩ := same
  have field : ∀ {β : Type} (g : Surrogate → β), g (f (σ.surrs s)) = g (σ.surrs s) →
      (fun r => g ((σ.setSurr s f).surrs r)) = fun r => g (σ.surrs r) := by
    intro β g equal
    funext r
    rw [surrs_setSurr]
    split
    next here => rw [here, equal]
    next => rfl
  exact Table.ext rfl rfl (field (·.sid) sid) (field (·.tbl) tbl) (field (·.closed) closed)

@[simp] theorem table_closeSurr (s : SurrId) (reason : CloseReason) :
    (σ.closeSurr s reason).table = σ.table :=
  table_setSurr σ s _ ⟨rfl, rfl, rfl⟩

@[simp] theorem table_unrefSock (c : SockId) : (σ.unrefSock c).table = σ.table := rfl

@[simp] theorem table_unrefSurr (s : SurrId) : (σ.unrefSurr s).table = σ.table :=
  table_setSurr σ s _ ⟨rfl, rfl, rfl⟩

@[simp] theorem table_setPoller (s : SurrId) (poller : Option SockId) :
    (σ.setPoller s poller).table = σ.table := by
  have written : (σ.setSurr s fun r => { r with client := poller }).table = σ.table :=
    table_setSurr σ s _ ⟨rfl, rfl, rfl⟩
  cases poller with
  | none => exact written
  | some c => exact written

@[simp] theorem table_answer (c : SockId) (surrogate : Option SurrId) (resp : Response) :
    (σ.answer c surrogate resp).table = σ.table := by
  cases surrogate with
  | none => rfl
  | some s => exact table_setSurr _ s _ ⟨rfl, rfl, rfl⟩

@[simp] theorem table_surrReleaseClient (surrogate : Option SurrId) (c : SockId) :
    (σ.surrReleaseClient surrogate c).table = σ.table := by
  cases surrogate with
  | none => rfl
  | some s =>
    simp only [surrReleaseClient]
    split
    next => exact (table_unrefSock _ c).trans (table_setSurr σ s _ ⟨rfl, rfl, rfl⟩)
    next => rfl

@[simp] theorem table_sendResponse (client : Option SockId) (resp : Response) :
    (σ.sendResponse client resp).1.table = σ.table := by
  cases client with
  | none => rfl
  | some c =>
    have sent : (if (σ.socks c).inRequest then
        (σ.setSock c fun k => { k with client := none }).answer c (σ.socks c).client resp
      else σ.setSock c fun k => { k with client := none }).table = σ.table := by
      split
      next => exact table_answer _ c _ resp
      next => rfl
    have steals : ((σ.setSock c fun k => { k with client := none }).socks c).inRequest =
        (σ.socks c).inRequest := by simp
    simp only [sendResponse, steals]
    split
    next => rw [table_surrReleaseClient, sent]
    next => rw [table_unrefSurr, table_surrReleaseClient, sent]

@[simp] theorem table_sendError (client : Option SockId) (status : HttpStatus) :
    (σ.sendError env client status).1.table = σ.table :=
  table_sendResponse σ client _

@[simp] theorem table_dismiss (poller : Option SockId) (status : HttpStatus) :
    (σ.dismiss env poller status).table = σ.table := by
  cases poller with
  | none => rfl
  | some c => exact table_sendError env σ (some c) status

@[simp] theorem table_surrReplace (s : SurrId) (c : SockId) :
    (σ.surrReplace env s c).table = σ.table := by
  simp only [surrReplace]
  split
  next => rw [table_dismiss, table_sendError, table_setPoller]
  next => rw [table_dismiss, table_setPoller]

@[simp] theorem table_sendPoller (s : SurrId) (resp : Response) :
    (σ.sendPoller s resp).1.table = σ.table := by
  simp only [sendPoller]
  split
  next => exact table_setPoller σ s none
  next => rw [table_unrefSock, table_sendResponse, table_setPoller]

@[simp] theorem table_surrSend (s : SurrId) (c : SockId) (msgs : Bytes) :
    (σ.surrSend env s c msgs).table = σ.table := by
  simp only [surrSend]
  split
  next => rw [table_surrReplace, table_sendPoller]
  next =>
    exact (table_sendResponse _ (some c) _).trans (table_sendPoller σ s _)

@[simp] theorem table_protocolHttpSend (s : SurrId) (pframes : HttpFrames) :
    (σ.protocolHttpSend s pframes).table = σ.table := by
  have given : (σ.setSurr s fun r => { r with given := r.given ++ [pframes.raw] }).table =
      σ.table := table_setSurr σ s _ ⟨rfl, rfl, rfl⟩
  simp only [protocolHttpSend]
  generalize σ.setSurr s (fun r => { r with given := r.given ++ [pframes.raw] }) = τ at given ⊢
  have tried : (if (τ.surrs s).incoming then (τ, false)
      else τ.sendPoller s pframes.defn).1.table = σ.table := by
    split
    next => exact given
    next => rw [table_sendPoller, given]
  generalize (if (τ.surrs s).incoming then (τ, false) else τ.sendPoller s pframes.defn) = result
    at tried ⊢
  split
  next => exact tried
  next => exact (table_setSurr result.1 s _ ⟨rfl, rfl, rfl⟩).trans tried

@[simp] theorem table_act (a : Act) : (σ.act a).table = σ.table := by
  cases a with
  | send s m =>
    simp only [act, protocolsSend]
    split
    next =>
      rw [table_protocolHttpSend]
      exact table_setSurr σ s _ ⟨rfl, rfl, rfl⟩
    next => rfl
  | closeSurr s reason =>
    simp only [act]
    split
    next => exact table_closeSurr σ s reason
    next => rfl
  | closeSock c reason =>
    simp only [act]
    split
    next => rfl
    next => rfl

@[simp] theorem table_acts (as : List Act) : (σ.acts as).table = σ.table := by
  induction as generalizing σ with
  | nil => rfl
  | cons a as ih => exact (ih (σ.act a)).trans (table_act σ a)

@[simp] theorem table_surrLines (s : SurrId) (msgs : List Bytes) (turns : List Turn) :
    (surrLines s σ msgs turns).1.table = σ.table := by
  induction msgs generalizing σ turns with
  | nil => rfl
  | cons msg msgs ih =>
    simp only [surrLines]
    split
    next => exact table_closeSurr _ s .invalidEventFormat
    next => exact (ih _ turns.tail).trans (table_acts _ _)

@[simp] theorem table_surrFlush (s : SurrId) (c : SockId) :
    (σ.surrFlush env s c).table = σ.table := by
  have flushed : ((σ.setSurr s fun r => { r with incoming := false }).setSurr s
      fun r => { r with wbuff := [] }).table = σ.table :=
    (table_setSurr _ s _ ⟨rfl, rfl, rfl⟩).trans (table_setSurr σ s _ ⟨rfl, rfl, rfl⟩)
  simp only [surrFlush]
  split
  next => rw [table_surrReplace, flushed]
  next => rw [table_surrSend, flushed]

@[simp] theorem table_surrRoute (s : SurrId) (c : SockId) (body : Bytes) (turns : List Turn) :
    (σ.surrRoute env s c body turns).table = σ.table := by
  have entered : (σ.setSurr s fun r => { r with incoming := true }).table = σ.table :=
    table_setSurr σ s _ ⟨rfl, rfl, rfl⟩
  have taken := (table_surrLines (σ.setSurr s fun r => { r with incoming := true }) s
    (bodyLines body) turns).trans entered
  simp only [surrRoute]
  split
  next refused =>
    rw [refused] at taken
    rw [table_sendError, taken]
  next all =>
    rw [all] at taken
    rw [table_surrFlush, taken]

@[simp] theorem table_doBody (c : SockId) (body : Bytes) (turns : List Turn) :
    (σ.doBody env c body turns).table = σ.table := by
  simp only [doBody]
  split_ifs
  · exact table_sendError env σ (some c) .status501
  · exact table_sendResponse σ (some c) env.iframeSource
  · exact table_sendError env σ (some c) .status405
  · split
    next => exact table_sendError env σ (some c) .status403
    next s _ => exact table_surrRoute env σ s c body turns

@[simp] theorem table_link (c : SockId) (surrogate : Option SurrId) :
    (σ.link c surrogate).table = σ.table := by
  cases surrogate with
  | none => rfl
  | some s =>
    simp only [link]
    split
    next => rfl
    next => exact table_setSurr _ s _ ⟨rfl, rfl, rfl⟩

/-! ### Requests -/

end Http

/-- What a request does to the tables: nothing, or it inserts a key that was not
found, from a URL that asks for a new session. -/
def Table.Requested (t : Table) (url : Bytes) (t' : Table) : Prop :=
  t' = t ∨ ∃ k, urlSid url = some k ∧ str "connect=true" <:+: url ∧
    t.clients (k % 64) k = none ∧ t' = t.insert k

theorem Table.Requested.valid {t t' : Table} {url : Bytes} (requested : t.Requested url t')
    (valid : Valid t) : Valid t' := by
  rcases requested with rfl | ⟨k, key, -, absent, rfl⟩
  · exact valid
  · exact valid.insert k (urlSid_lt key) absent

/-- The keys of the surrogates there are stay what they are. -/
theorem Table.Requested.sid {t t' : Table} {url : Bytes} (requested : t.Requested url t')
    {s : SurrId} (there : s < t.nextSurr) : t'.sid s = t.sid s ∧ s < t'.nextSurr := by
  rcases requested with rfl | ⟨k, -, -, -, rfl⟩
  · exact ⟨rfl, there⟩
  · exact ⟨Function.update_of_ne (Nat.ne_of_lt there) _ _, Nat.lt_succ_of_lt there⟩

namespace Http

variable (env : HttpEnv) (σ : Http)

theorem table_surrNew (sid : Nat) : (σ.surrNew sid).table = σ.table.insert sid := by
  have field : ∀ {β : Type} (g : Surrogate → β),
      (fun s => g ((σ.surrNew sid).surrs s)) = Function.update (fun s => g (σ.surrs s)) σ.nextSurr
        (g { sid, tbl := sid % 64, lastSend := σ.now }) := by
    intro β g
    funext s
    by_cases new : s = σ.nextSurr
    · rw [new, surrs_surrNew_self, Function.update_self]
    · rw [surrs_surrNew σ sid s new, Function.update_of_ne new]
  exact Table.ext rfl rfl (field (·.sid)) (field (·.tbl)) (field (·.closed))

/-- A lookup returns the surrogate that is stored. -/
theorem surrFind_stored {b k : Nat} {s : SurrId} (valid : σ.table.Valid)
    (entry : σ.clients b k = some s) (orCreate room : Bool) :
    σ.surrFind k orCreate room = (σ, some s) := by
  obtain ⟨rfl, -⟩ := valid.entry b k s entry
  rw [surrFind, entry]

/-- The surrogate that is found or made has the key of the URL. -/
theorem getSurrogate_table (valid : σ.table.Valid) (url : Bytes) (room : Bool) :
    σ.table.Requested url (σ.getSurrogate url room).1.table ∧
      ∀ s, (σ.getSurrogate url room).2 = some s →
        urlSid url = some ((σ.getSurrogate url room).1.table.sid s) := by
  rw [getSurrogate]
  -- A url without a key asks for no surrogate.
  cases key : urlSid url with
  | none => exact ⟨Or.inl rfl, by rintro s ⟨⟩⟩
  | some k =>
    dsimp only
    rw [surrFind]
    -- The key is known: the surrogate is the one that the table holds.
    cases entry : σ.clients (k % 64) k with
    | some s =>
      refine ⟨Or.inl rfl, ?_⟩
      rintro _ ⟨rfl⟩
      exact congrArg some (valid.entry _ k s entry).2.2.1.symm
    -- The key is new: a surrogate is made if the url asks to connect.
    | none =>
      dsimp only
      split
      next makes =>
        obtain ⟨asks, -⟩ := Bool.and_eq_true_iff.mp makes
        have made := table_surrNew σ k
        refine ⟨Or.inr ⟨k, key, (strstr_isSome_iff _ url).mp asks, entry, made⟩, ?_⟩
        rintro _ ⟨rfl⟩
        have mine : (σ.table.insert k).sid σ.nextSurr = k := Function.update_self _ _ _
        rw [made, mine]
      next => exact ⟨Or.inl rfl, by rintro s ⟨⟩⟩

/-- What a header does to the tables, and to the link of its socket. -/
structure Headed (σ τ : Http) (c : SockId) (url : Bytes) : Prop where
  table : σ.table.Requested url τ.table
  key : ∀ s, (τ.socks c).client = some s → urlSid url = some (τ.table.sid s)

namespace Headed

variable {env : HttpEnv} {σ τ : Http} {c : SockId} {url : Bytes}

/-- No session was named. -/
theorem unlinked (table : τ.table = σ.table) (client : (τ.socks c).client = none) :
    Headed σ τ c url :=
  ⟨Or.inl table, fun s link => absurd (client.symm.trans link) (by simp)⟩

/-- The rest of the socket does not matter. -/
theorem setSock (headed : Headed σ τ c url) (f : Socket → Socket)
    (client : (f (τ.socks c)).client = (τ.socks c).client) : Headed σ (τ.setSock c f) c url := by
  refine ⟨headed.table, ?_⟩
  intro s link
  rw [socks_setSock, if_pos rfl, client] at link
  exact headed.key s link

theorem openRequest (valid : σ.table.Valid) (idle : (σ.socks c).client = none)
    (req : HttpRequest) (bodyLen : Nat) (room : Bool) :
    Headed σ (σ.openRequest c req bodyLen room) c req.url := by
  obtain ⟨requested, key⟩ := σ.getSurrogate_table valid req.url room
  have socks : (σ.getSurrogate req.url room).1.socks = σ.socks := by
    rcases getSurrogate_cases σ req.url room with same | ⟨sid, created⟩
    · rw [same]
    · rw [created]
      rfl
  simp only [Http.openRequest]
  generalize σ.getSurrogate req.url room = result at requested key socks ⊢
  obtain ⟨υ, surrogate⟩ := result
  dsimp only at requested key socks ⊢
  have linked : Headed σ (υ.link c surrogate) c req.url := by
    refine ⟨by rwa [table_link], ?_⟩
    intro s link
    rw [table_link]
    -- the link is the one made here
    cases surrogate with
    | none =>
      rw [Http.link, socks, idle] at link
      cases link
    | some r =>
      simp only [Http.link] at link
      split at link
      next =>
        rw [socks, idle] at link
        cases link
      next =>
        have made : s = r := by simpa [refSurr, eq_comm] using link
        exact key s (congrArg some made.symm)
  exact linked.setSock _ rfl

theorem doHeadersHttp (valid : σ.table.Valid) (idle : (σ.socks c).client = none)
    (req : HttpRequest) (room : Bool) :
    Headed σ (σ.doHeadersHttp env c req room).1 c req.url := by
  have same : Headed σ σ c req.url := unlinked rfl idle
  simp only [Http.doHeadersHttp]
  split
  next =>
    split
    next => exact same
    next n _ => exact openRequest valid idle req n room
  next =>
    split
    next => exact unlinked rfl (by simp [Http.closeSock, idle])
    next => exact openRequest valid idle req 0 room

theorem sendError (status : HttpStatus) :
    Headed σ (σ.sendError env (some c) status).1 c url := by
  have responded := (sendResponse_responded σ c (env.statusResponses status)).answered.1
  exact unlinked (table_sendError env σ (some c) status) responded

theorem doHeadersWebsocket (idle : (σ.socks c).client = none) (req : HttpRequest)
    (connection : Option Bytes) :
    Headed σ (σ.doHeadersWebsocket env c req connection).1 c req.url := by
  simp only [Http.doHeadersWebsocket]
  split_ifs
  · exact sendError .status426
  · exact sendError .status400
  · exact unlinked rfl (by simp [Http.upgrade, idle])

theorem routeHeader (valid : σ.table.Valid) (req : HttpRequest) (room : Bool) :
    Headed σ (σ.routeHeader env c req room) c req.url := by
  -- the response to what is still waited for takes the link away
  obtain ⟨τ, flushed⟩ : ∃ τ, τ = σ.requestBegin env c req := ⟨_, rfl⟩
  have table : τ.table = σ.table := by
    rw [flushed, Http.requestBegin, table_setSock, table_sendError]
    rfl
  have idle : (τ.socks c).client = none := by
    have responded := (sendResponse_responded (σ.routeBegin c) c
      (env.statusResponses .status200)).answered.1
    rw [flushed, Http.requestBegin, socks_setSock, if_pos rfl]
    exact responded
  have block : Headed τ (σ.headerBlock env c req room).1 c req.url := by
    simp only [Http.headerBlock, ← flushed]
    split
    next =>
      split
      next => exact doHeadersWebsocket idle req _
      next => exact doHeadersHttp (table ▸ valid) idle req room
    next => exact unlinked rfl idle
  have whole : Headed σ (σ.headerBlock env c req room).1 c req.url := ⟨table ▸ block.table, block.key⟩
  rw [routeHeader_eq]
  split
  next => exact whole.setSock _ rfl
  next => exact whole
  next => exact whole.setSock _ rfl

end Headed

/-! ### Steps and runs -/

@[simp] theorem table_heartbeatSurr (s : SurrId) : (σ.heartbeatSurr env s).table = σ.table := by
  simp only [heartbeatSurr]
  split
  next => exact table_closeSurr σ s .heartattack
  next => rfl

@[simp] theorem table_heartbeatSock (c : SockId) : (σ.heartbeatSock env c).table = σ.table := by
  simp only [heartbeatSock]
  split
  next =>
    split
    next => rfl
    next => rfl
  next =>
    split
    next => exact table_sendError env σ (some c) .status200
    next => rfl

theorem table_onCloseSurr (s : SurrId) : (σ.onCloseSurr env s).table = σ.table.remove s := by
  simp only [onCloseSurr]
  rw [table_dismiss, table_setPoller]
  -- The fields that a close does not write are the same for every surrogate.
  have field : ∀ {β : Type} (g : Surrogate → β) (τ : Http), τ.surrs = σ.surrs →
      (∀ r : Surrogate, g { r with closed := true } = g r) →
      (fun r => g ((τ.setSurr s fun r => { r with closed := true }).surrs r)) =
        fun r => g (σ.surrs r) := by
    intro β g τ surrs same
    funext r
    rw [surrs_setSurr, surrs]
    split
    next here => rw [here, same]
    next => rfl
  apply Table.ext
  · rfl
  · rfl
  · exact field (·.sid) _ rfl fun _ => rfl
  · exact field (·.tbl) _ rfl fun _ => rfl
  · funext r
    show ((Http.setSurr _ s _).surrs r).closed =
      Function.update (fun r => (σ.surrs r).closed) s true r
    rw [surrs_setSurr, Function.update_apply]
    split
    next => rfl
    next => rfl

theorem table_onCloseSock (c : SockId) (reason : CloseReason) :
    (σ.onCloseSock env c reason).table = σ.table := by
  obtain ⟨υ, answer, closed⟩ := onCloseSock_cases env σ c reason
  have told : υ.table = σ.table := by
    obtain rfl | ⟨status, rfl⟩ := answer
    · rfl
    · exact table_sendError env _ (some c) status
  obtain same | ⟨s, same⟩ := closed
  · rw [same]
    exact told
  · rw [same]
    exact ((table_unrefSurr _ s).trans (table_closeSurr _ s .httpDone)).trans told

theorem table_routeBody (c : SockId) (body : Bytes) (turns : List Turn) :
    (σ.routeBody env c body turns).table = σ.table :=
  table_doBody env _ c body turns

/-- What a step does to the tables: only a header and the close of a surrogate
touch them. -/
def Writes (l : Label) (σ τ : Http) : Prop :=
  match l with
  | .header c req _ => Headed σ τ c req.url
  | .onCloseSurr s =>
    (σ.surrs s).closed = false ∧ (σ.surrs s).closing ≠ none ∧ τ.table = σ.table.remove s
  | _ => τ.table = σ.table

variable {env σ}

theorem step_writes {τ : Http} {l : Label} (valid : σ.table.Valid)
    (stepped : σ.step env l = some τ) : Writes l σ τ := by
  cases step_cases stepped with
  | tick usec => rfl
  | opened => rfl
  | again c routes => rfl
  | header c req room routes ready done => exact Headed.routeHeader valid req room
  | body c body turns routes waits whole => exact table_routeBody env σ c body turns
  | bodyOverflow c used routes waits beyond => rfl
  | act a => exact table_act σ a
  | heartbeatSock c routes shook => exact table_heartbeatSock env σ c
  | heartbeatSurr s there open_ => exact table_heartbeatSurr env σ s
  | leave c upgraded => rfl
  | onCloseSock c reason http closing => exact table_onCloseSock env σ c reason
  | onCloseSurr s open_ closing => exact ⟨open_, closing, table_onCloseSurr env σ s⟩

/-- A surrogate that closes exists. -/
theorem known_of_closing (owing : Owing nothing σ) {s : SurrId}
    (closing : (σ.surrs s).closing ≠ none) : s < σ.nextSurr := by
  by_contra beyond
  rw [owing.fresh s (Nat.le_of_not_lt beyond)] at closing
  exact closing rfl

theorem Writes.valid {τ : Http} {l : Label} (writes : Writes l σ τ) (owing : Owing nothing σ)
    (valid : σ.table.Valid) : τ.table.Valid := by
  cases l with
  | header c req room => exact (Headed.table writes).valid valid
  | onCloseSurr s =>
    obtain ⟨open_, closing, removed⟩ := writes
    rw [removed]
    exact valid.remove (known_of_closing owing closing) open_
  | _ =>
    rw [show τ.table = σ.table from writes]
    exact valid

/-- The keys of the surrogates there are do not change. -/
theorem Writes.sid {τ : Http} {l : Label} (writes : Writes l σ τ) {s : SurrId}
    (there : s < σ.nextSurr) : τ.table.sid s = σ.table.sid s ∧ s < τ.nextSurr := by
  cases l with
  | header c req room => exact (Headed.table writes).sid there
  | onCloseSurr r =>
    obtain ⟨-, -, removed⟩ := writes
    exact ⟨congrArg (·.sid s) removed,
      lt_of_lt_of_eq there (congrArg Table.nextSurr removed).symm⟩
  | _ =>
    have same : τ.table = σ.table := writes
    exact ⟨congrArg (·.sid s) same, lt_of_lt_of_eq there (congrArg Table.nextSurr same).symm⟩

/-- A surrogate that has closed stays closed. -/
theorem Writes.closed {τ : Http} {l : Label} (writes : Writes l σ τ) {s : SurrId}
    (there : s < σ.nextSurr) (gone : σ.table.closed s = true) : τ.table.closed s = true := by
  cases l with
  | header c req room =>
    rcases Headed.table writes with same | ⟨k, -, -, -, same⟩
    · rw [same, gone]
    · rw [same]
      exact (Function.update_of_ne (Nat.ne_of_lt there) _ _).trans gone
  | onCloseSurr r =>
    rw [writes.2.2]
    simp only [Table.remove, Function.update_apply]
    split
    next => rfl
    next => exact gone
  | _ =>
    rw [show τ.table = σ.table from writes]
    exact gone

/-- A session is created by a request that asks for one. -/
theorem Writes.created {τ : Http} {l : Label} (writes : Writes l σ τ)
    (created : τ.nextSurr ≠ σ.nextSurr) :
    ∃ c req room, l = .header c req room ∧ str "connect=true" <:+: req.url := by
  cases l with
  | header c req room =>
    rcases Headed.table writes with same | ⟨k, -, asks, -, -⟩
    · exact absurd (congrArg Table.nextSurr same) created
    · exact ⟨c, req, room, rfl, asks⟩
  | onCloseSurr r => exact absurd (congrArg Table.nextSurr writes.2.2) created
  | _ => exact absurd (congrArg Table.nextSurr (writes : τ.table = σ.table)) created

theorem start_valid : start.table.Valid := by
  constructor
  · intro b k s entry
    cases entry
  · intro s there
    cases there
  · intro s there
    cases there

theorem step_valid {τ : Http} {l : Label} (inv : Owing nothing σ ∧ σ.table.Valid)
    (stepped : σ.step env l = some τ) : Owing nothing τ ∧ τ.table.Valid :=
  ⟨inv.1.step stepped, (step_writes inv.2 stepped).valid inv.1 inv.2⟩

/-- The tables are valid in every run. -/
theorem run_valid {ls : List Label} (ran : (system env).run start ls = some σ) :
    Owing nothing σ ∧ σ.table.Valid :=
  (system env).run_invariant (fun σ => Owing nothing σ ∧ σ.table.Valid)
    (fun _ _ _ inv stepped => step_valid inv stepped) start σ ls
    ⟨Owing.start_owing, start_valid⟩ ran

/-- A surrogate keeps its key while the run goes on. -/
theorem run_sid {τ : Http} {ls : List Label} (inv : Owing nothing σ ∧ σ.table.Valid)
    (ran : (system env).run σ ls = some τ) {s : SurrId} (there : s < σ.nextSurr) :
    τ.table.sid s = σ.table.sid s ∧ s < τ.nextSurr := by
  have kept := (system env).run_invariant
    (fun υ => (Owing nothing υ ∧ υ.table.Valid) ∧ υ.table.sid s = σ.table.sid s ∧ s < υ.nextSurr)
    (fun υ l ω before stepped => by
      obtain ⟨inv, sid, there⟩ := before
      obtain ⟨same, later⟩ := (step_writes inv.2 stepped).sid there
      exact ⟨step_valid inv stepped, same.trans sid, later⟩)
    σ τ ls ⟨inv, rfl, there⟩ ran
  exact kept.2

/-- In every run, between any two steps: a surrogate that is stored is open, in the
bucket of its own key, where a lookup finds it, and no other has that key; every
open surrogate is stored; the close of a surrogate removes its own entry; and only
a request that asks for a new session makes one. A key is 32 hexadecimal digits
of a URL, and requests for different digits are never linked to one surrogate. -/
theorem session_table (env : HttpEnv) (ls : List Label) (σ : Http)
    (ran : (system env).run start ls = some σ) :
    (∀ b k s, σ.clients b k = some s →
      b = k % 64 ∧ k < 2 ^ 128 ∧ (σ.surrs s).sid = k ∧ (σ.surrs s).closed = false ∧
        ∀ orCreate room, σ.surrFind k orCreate room = (σ, some s)) ∧
    (∀ b b' k k' s s', σ.clients b k = some s → σ.clients b' k' = some s' →
      (σ.surrs s).sid = (σ.surrs s').sid → s = s' ∧ b = b') ∧
    (∀ s < σ.nextSurr, (σ.surrs s).closed = false →
      σ.clients ((σ.surrs s).sid % 64) (σ.surrs s).sid = some s) ∧
    (∀ s τ, σ.step env (.onCloseSurr s) = some τ →
      ∀ b k, τ.clients b k = if σ.clients b k = some s then none else σ.clients b k) ∧
    (∀ l τ, σ.step env l = some τ → τ.nextSurr ≠ σ.nextSurr →
      ∃ c req room, l = .header c req room ∧ str "connect=true" <:+: req.url) ∧
    (∀ url k, urlSid url = some k → ∃ before digits after,
      url = before ++ (str "sid=" ++ (digits ++ after)) ∧ sidDigits url = some digits ∧
        digits.length = 32 ∧ ∀ d ∈ digits, isXdigit d) ∧
    (∀ url url' k k', urlSid url = some k → urlSid url' = some k' →
      (k = k' ↔ SameDigits url url')) ∧
    ∀ c req room τ s ls' c' req' room' τ',
      σ.step env (.header c req room) = some τ → (τ.socks c).client = some s →
      (system env).run τ (ls' ++ [.header c' req' room']) = some τ' →
      (τ'.socks c').client = some s → SameDigits req.url req'.url := by
  obtain ⟨owing, valid⟩ := run_valid ran
  refine ⟨?_, ?_, ?_, ?_, ?_, ?_, fun _ _ _ _ => urlSid_inj, ?_⟩
  · intro b k s entry
    obtain ⟨bucket, there, sid, open_⟩ := valid.entry b k s entry
    have wide := (valid.bucket s there).2
    rw [sid] at wide
    exact ⟨bucket, wide, sid, open_, surrFind_stored σ valid entry⟩
  · intro b b' k k' s s' entry entry' same
    obtain ⟨bucket, -, sid, -⟩ := valid.entry b k s entry
    obtain ⟨bucket', -, sid', -⟩ := valid.entry b' k' s' entry'
    have key : k = k' := sid.symm.trans (same.trans sid')
    subst key bucket bucket'
    exact ⟨Option.some.inj (entry.symm.trans entry'), rfl⟩
  · intro s there open_
    have kept := valid.stored s there open_
    rw [(valid.bucket s there).1] at kept
    exact kept
  · intro s τ stepped b k
    obtain ⟨open_, closing, removed⟩ : Writes (.onCloseSurr s) σ τ := step_writes valid stepped
    have there := known_of_closing owing closing
    exact (congrArg (fun t => t.clients b k) removed).trans (valid.remove_clients there open_ b k)
  · exact fun l τ stepped created => (step_writes valid stepped).created created
  · intro url k key
    obtain ⟨digits, here, long, all⟩ := (urlSid_isSome_iff url).mp (Option.isSome_of_eq_some key)
    obtain ⟨before, after, whole⟩ := sidDigits_eq_some here
    exact ⟨before, digits, after, whole, here, long, all⟩
  · intro c req room τ s ls' c' req' room' τ' stepped link ran' link'
    have first : Headed σ τ c req.url := step_writes valid stepped
    have inv := step_valid ⟨owing, valid⟩ stepped
    obtain ⟨υ, between, last⟩ := ((system env).run_append_iff τ τ' ls' _).mp ran'
    obtain ⟨_, stepped', ⟨⟩⟩ := ((system env).run_cons_iff υ τ' _ _).mp last
    have validυ : Owing nothing υ ∧ υ.table.Valid :=
      (system env).run_invariant (fun σ => Owing nothing σ ∧ σ.table.Valid)
        (fun _ _ _ inv stepped => step_valid inv stepped) τ υ ls' inv between
    have stepped' : υ.step env (.header c' req' room') = some τ' := stepped'
    have second : Headed υ τ' c' req'.url := step_writes validυ.2 stepped'
    -- the surrogate keeps its key from one request to the other
    have there := (inv.1.linked c s link).2.2
    have sid := (run_sid inv ran' there).1
    have key := first.key s link
    rw [← sid] at key
    exact (urlSid_inj key (second.key s link')).mp rfl

/-- Two sessions, the first of which closes. The second is named in two ways. -/
def sessions : List Label :=
  let post (url : String) : HttpRequest := { samplePost "0" with url := str url }
  [.opened, .opened, .opened, .header 0 (samplePost "0") true,
    .header 1 (post "/?connect=true&sid=abcdefABCDEF00000000000000000041") true,
    .header 2 (post "/?sid=ABCDEFabcdef00000000000000000041&x=1") true,
    .act (.closeSurr 0 .httpDone), .onCloseSurr 0]

theorem session_table_sessions :
    ∃ σ, (system sampleEnv).run start sessions = some σ ∧ σ.nextSurr = 2 ∧
      (σ.socks 1).client = some 1 ∧ (σ.socks 2).client = some 1 ∧
      σ.clients ((σ.surrs 1).sid % 64) (σ.surrs 1).sid = some 1 ∧ σ.clients 0 0 = none := by
  have runs : ((system sampleEnv).run start sessions).isSome := by decide
  obtain ⟨σ, ran⟩ := Option.isSome_iff_exists.mp runs
  have finished : ∀ σ ∈ (system sampleEnv).run start sessions, σ.nextSurr = 2 ∧
      (σ.socks 1).client = some 1 ∧ (σ.socks 2).client = some 1 ∧
      (σ.surrs 1).closed = false ∧ σ.clients 0 0 = none := by decide
  obtain ⟨two, one, other, open_, gone⟩ := finished σ ran
  obtain ⟨-, -, stored, -⟩ := session_table sampleEnv sessions σ ran
  exact ⟨σ, ran, two, one, other, stored 1 (two ▸ Nat.one_lt_two) open_, gone⟩

end Http

end QuickIO
