import QuickIO.ClientSubs

/-!
# Events

The functions of evs.c that subscribe, unsubscribe and answer a client, the
built-in handlers of evs_qio.c, and `evs_route`. Every call of `protocols_send`
is part of the result. What the code outside decides during a call is in `Env`.
-/
namespace QuickIO

/-- `enum evs_status` -/
inductive EvsStatus where
  | ok
  | err
  | handled
deriving DecidableEq

/-- What an `evs_on_fn` does: return OK or ERR, keep a copy of the info and
return HANDLED, or call `evs_on_cb` itself and return HANDLED. -/
inductive OnAnswer where
  | ok
  | err
  | later
  | now (success : Bool)
deriving DecidableEq

/-- The answers of quick-event, of the application and of the configuration
during one call. -/
structure Env where
  /-- `qev_json_pack(buff, "%s", text)` -/
  jsonPack : Option Bytes → Bytes
  /-- `qev_json_unpack(json, NULL, "[%s,%a]", ..)` -/
  jsonUnpack : Bytes → Option (Bytes × Bytes)
  /-- `_json_hostname` -/
  jsonHostname : Bytes
  random : Fin 4
  now : Int
  fairUse : Bool
  listOk : Bool
  /-- what a handler or a callback of the application returns; with HANDLED the answer is
  the application's, now or later -/
  handler : EvsStatus
  onFn : OnAnswer

/-- `struct evs_on_info` -/
structure EvsOnInfo where
  evExtra : Bytes
  json : Option Bytes
  sub : SubId
  client : ClientId
  clientCb : EvsCb
deriving DecidableEq

/-- A call of `protocols_send`. -/
structure Send where
  client : ClientId
  evPath : Bytes
  evExtra : Bytes
  serverCb : EvsCb
  json : Bytes
deriving DecidableEq

def codeOk : EvsCode := 200
def codeAccepted : EvsCode := 202
def codeBad : EvsCode := 400
def codeUnauth : EvsCode := 401
def codeEnhanceCalm : EvsCode := 420
def codeUnknown : EvsCode := 500

/-- `CB_PATH` and the id of the callback. -/
def cbPath (clientCb : EvsCb) : Bytes := str "/qio/callback/" ++ decimal clientCb

/-- `JSON_OR_NULL` -/
def jsonOrNull : Option Bytes → Bytes
  | none => str "null"
  | some [] => str "null"
  | some (c :: json) => c :: json

/-- The JSON of a callback. -/
def cbJson (env : Env) (code : EvsCode) (errMsg json : Option Bytes) : Bytes :=
  str "\x7b\"code\":" ++ decimal code.toUInt64 ++ str ",\"data\":" ++ jsonOrNull json ++
    (if code = codeOk then [] else str ",\"err_msg\":" ++ env.jsonPack errMsg) ++ str "\x7d"

namespace Server

variable (env : Env) (σ : Server)

/-- `client_cb_new` on a client of the server. -/
def cbNew (c : ClientId) (cbFn : Option Ptr) (cbData freeFn : Option Ptr) : Server × EvsCb :=
  let (callbacks, freed, serverCb) :=
    clientCbNew (σ.clients c).callbacks env.random env.now cbFn cbData freeFn
  ({ σ.setClient c { σ.clients c with callbacks } with dataFreed := σ.dataFreed ++ freed },
    serverCb)

/-- `client_cb_prune` on a client of the server. -/
def cbPrune (c : ClientId) (before : Int) : Server :=
  let (callbacks, freed) := clientCbPrune (σ.clients c).callbacks before
  { σ.setClient c { σ.clients c with callbacks } with dataFreed := σ.dataFreed ++ freed }

/-- `evs_cb_full`. Where it passes `NULL` for the client, `cb_fn` is `NULL` too
and `client_cb_new` does not look at the client. -/
def evsCbFull (c : ClientId) (clientCb : EvsCb) (code : EvsCode) (errMsg json : Option Bytes)
    (cbFn cbData freeFn : Option Ptr) : Server × List Send :=
  if clientCb = 0 then ((σ.cbNew env c none cbData freeFn).1, [])
  else
    let (σ, serverCb) :=
      if code = codeOk then σ.cbNew env c cbFn cbData freeFn
      else ((σ.cbNew env c none cbData freeFn).1, evsNoCallback)
    (σ, [⟨c, cbPath clientCb, [], serverCb, cbJson env code errMsg json⟩])

/-- `evs_cb` -/
def evsCb (c : ClientId) (clientCb : EvsCb) (json : Option Bytes) : Server × List Send :=
  σ.evsCbFull env c clientCb codeOk none json none none none

/-- `evs_err_cb` -/
def evsErrCb (c : ClientId) (clientCb : EvsCb) (code : EvsCode) (errMsg json : Option Bytes) :
    Server × List Send :=
  σ.evsCbFull env c clientCb code errMsg json none none none

/-- `evs_on_cb` -/
def evsOnCb (success : Bool) (info : EvsOnInfo) : Server × List Send :=
  let (σ, code) :=
    if success then
      match σ.clientSubAccept info.client info.sub env.listOk with
      -- The client closed in between, or the list was full.
      | (σ, .null) => (σ, codeEnhanceCalm)
      -- Also a tombstoned subscription is told `CODE_OK`.
      | (σ, _) => (σ, codeOk)
    else
      (σ.clientSubReject info.client info.sub,
        -- An event with children may not have this one; any other refuses the client.
        if (σ.heap info.sub).ev.handleChildren then codeNotFound else codeUnauth)
  σ.evsErrCb env info.client info.clientCb code none none

/-- What a call led to: the calls of `protocols_send`, the copy of the info an
application kept for a later `evs_on_cb`, the `evs_on_cb` made at once, and whether the
answer is left to the application. -/
structure Outcome where
  server : Server
  sends : List Send
  approval : Option EvsOnInfo
  completed : Option Bool
  kept : Bool

/-- A call that only answers. -/
def Outcome.reply (result : Server × List Send) : Outcome :=
  ⟨result.1, result.2, none, none, false⟩

/-- A call that sends nothing. -/
def Outcome.silent (server : Server) : Outcome := ⟨server, [], none, none, false⟩

/-- What a function of the application returns decides who answers. -/
def Outcome.ofApp (server : Server) (status : EvsStatus) : Outcome × EvsStatus :=
  (⟨server, [], none, none, status = .handled⟩, status)

/-- What `ev->on_fn` does; without one the subscription is fine. -/
def onAnswer (ev : Event Handlers) : OnAnswer :=
  match ev.handlers.onFn with
  | none => .ok
  | some .noOn => .err
  | some (.app _) => env.onFn

/-- The completion of `evs_on` for a subscription it created: `evs_on_info_copy`
takes a reference when the answer comes later. -/
def evsOnCreated (info : EvsOnInfo) : OnAnswer → Outcome
  | .ok => let (σ, sends) := σ.evsOnCb env true info; ⟨σ, sends, none, some true, false⟩
  | .err => let (σ, sends) := σ.evsOnCb env false info; ⟨σ, sends, none, some false, false⟩
  | .now success =>
    let (σ, sends) := σ.evsOnCb env success info
    ⟨σ, sends, none, some success, false⟩
  -- The copy keeps the subscription alive until `evs_on_info_free`.
  | .later => ⟨σ.subRef info.sub, [], some info, none, false⟩

/-- `evs_on`. `sub_get` never returns `NULL` here. -/
def evsOn (c : ClientId) (ev : Event Handlers) (evExtra : Bytes) (clientCb : EvsCb)
    (json : Option Bytes) : Outcome :=
  match σ.subGet ev evExtra true with
  | none => .silent σ
  | some (sub, σ) =>
    let info : EvsOnInfo := { evExtra, json, sub, client := c, clientCb }
    let outcome : Outcome :=
      match σ.clientSubAdd c sub env.fairUse with
      -- Another request waits for its answer.
      | (σ, .pending) =>
        .reply (σ.evsErrCb env c clientCb codeAccepted (some (str "subscription pending")) none)
      | (σ, .tombstoned) => .reply (σ.evsErrCb env c clientCb codeEnhanceCalm none none)
      | (σ, .null) => .reply (σ.evsErrCb env c clientCb codeEnhanceCalm none none)
      | (σ, .active) => .reply (σ.evsCb env c clientCb none)
      | (σ, .created) => σ.evsOnCreated env info (onAnswer env ev)
    -- The reference of `sub_get`; the client holds its own by now.
    { outcome with server := outcome.server.subUnref sub }

/-- `evs_off` -/
def evsOff (c : ClientId) (ev : Event Handlers) (evExtra : Bytes) : Server :=
  match σ.subGet ev evExtra false with
  | none => σ
  | some (sub, σ) => (σ.clientSubRemove c sub).1.subUnref sub

/-- A later `evs_on_cb` and the `evs_on_info_free` after it. -/
def evsOnCbLate (success : Bool) (info : EvsOnInfo) : Server × List Send :=
  let (σ, sends) := σ.evsOnCb env success info
  (σ.subUnref info.sub, sends)

/-! ### The handlers of evs_qio.c -/

/-- `client_cb_fire` on a client of the server: the function called returns
what the environment says. -/
def cbFire (c : ClientId) (serverCb clientCb : EvsCb) (json : Bytes) : Outcome × EvsStatus :=
  let (callbacks, fired, freed) := clientCbFire (σ.clients c).callbacks serverCb clientCb json
  let σ := { σ.setClient c { σ.clients c with callbacks } with
    dataFreed := σ.dataFreed ++ freed }
  match fired with
  | .ran _ _ _ _ => Outcome.ofApp σ env.handler
  | .error clientCb code errMsg =>
    (.reply (σ.evsErrCb env c clientCb code (some errMsg) none), .handled)

/-- The server callback an `ev_extra` of `/qio/callback` names. -/
def serverCbOf : Bytes → EvsCb
  | [] => evsNoCallback
  | first :: rest => if first = slash then (gAsciiStrtoull rest).value else evsNoCallback

/-- `_callback` -/
def qioCallback (c : ClientId) (evExtra : Bytes) (clientCb : EvsCb) (json : Bytes) :
    Outcome × EvsStatus :=
  if serverCbOf evExtra = evsNoCallback then
    (.reply (σ.evsErrCb env c clientCb codeBad (some (str "invalid server callback id")) none),
      .handled)
  else σ.cbFire env c (serverCbOf evExtra) clientCb json

/-- `_hostname` -/
def qioHostname (c : ClientId) (clientCb : EvsCb) : Outcome × EvsStatus :=
  (.reply (σ.evsCb env c clientCb (some env.jsonHostname)), .handled)

def invalidEvPath (c : ClientId) (clientCb : EvsCb) : Outcome × EvsStatus :=
  (.reply (σ.evsErrCb env c clientCb codeBad (some (str "invalid json ev_path")) none), .handled)

/-- The path of `_on` and the data with it: a string read up to the end of the
JSON, or the two elements of an array. -/
def onArguments (json : Bytes) : Option (Bytes × Option Bytes) :=
  match json with
  | 0x22 :: evPath => some (evPath, none)
  | 0x5b :: _ => (env.jsonUnpack json).map fun (evPath, data) => (evPath, some data)
  | _ => none

/-- `_on` -/
def qioOn (c : ClientId) (clientCb : EvsCb) (json : Bytes) : Except Fault (Outcome × EvsStatus) :=
  match onArguments env json with
  | none => .ok (σ.invalidEvPath env c clientCb)
  | some (evPath, data) =>
    match evsQuery σ.events (evsCleanPath evPath) with
    | .error fault => .error fault
    | .ok none => .ok (.reply (σ.evsErrCb env c clientCb codeNotFound none none), .handled)
    | .ok (some (ev, evExtra)) => .ok (σ.evsOn env c ev evExtra clientCb data, .handled)

/-- `_off` -/
def qioOff (c : ClientId) (clientCb : EvsCb) (json : Bytes) : Except Fault (Outcome × EvsStatus) :=
  match json with
  | 0x22 :: evPath =>
    match evsQuery σ.events (evsCleanPath evPath) with
    | .error fault => .error fault
    | .ok none => .ok (.reply (σ.evsErrCb env c clientCb codeNotFound none none), .handled)
    | .ok (some (ev, evExtra)) => .ok (.silent (σ.evsOff c ev evExtra), .ok)
  | _ => .ok (σ.invalidEvPath env c clientCb)

/-- Call `ev->handler_fn`. -/
def handle (c : ClientId) (evExtra : Bytes) (clientCb : EvsCb) (json : Bytes) :
    HandlerFn → Except Fault (Outcome × EvsStatus)
  | .callback => .ok (σ.qioCallback env c evExtra clientCb json)
  | .hostname => .ok (σ.qioHostname env c clientCb)
  | .on => σ.qioOn env c clientCb json
  | .off => σ.qioOff env c clientCb json
  | .ping => .ok (.silent σ, .ok)
  | .app _ => .ok (Outcome.ofApp σ env.handler)

/-- The switch at the end of `evs_route`. -/
def answer (outcome : Outcome) (c : ClientId) (clientCb : EvsCb) (code : EvsCode) :
    EvsStatus → Outcome
  | .ok =>
    let (server, sends) := outcome.server.evsCb env c clientCb none
    { outcome with server, sends := outcome.sends ++ sends }
  | .err =>
    let (server, sends) := outcome.server.evsErrCb env c clientCb code none none
    { outcome with server, sends := outcome.sends ++ sends }
  | .handled => outcome

/-- `evs_route` -/
def evsRoute (c : ClientId) (evPath : Bytes) (clientCb : EvsCb) (json : Bytes) :
    Except Fault Outcome :=
  match evsQuery σ.events (evsCleanPath evPath) with
  | .error fault => .error fault
  -- The status is `EVS_STATUS_ERR` from the start.
  | .ok none => .ok (answer env (.silent σ) c clientCb codeNotFound .err)
  | .ok (some (ev, evExtra)) =>
    match ev.handlers.handlerFn with
    -- An event without a handler answers `CODE_UNKNOWN`.
    | none => .ok (answer env (.silent σ) c clientCb codeUnknown .err)
    | some handlerFn =>
      match σ.handle env c evExtra clientCb json handlerFn with
      | .error fault => .error fault
      | .ok (outcome, status) => .ok (answer env outcome c clientCb codeUnknown status)

end Server

/-- An application that leaves every subscription for later. -/
def lateEnv : Env where
  jsonPack _ := str "null"
  jsonUnpack _ := none
  jsonHostname := str "null"
  random := 0
  now := 0
  fairUse := true
  listOk := true
  handler := .ok
  onFn := .later

end QuickIO
