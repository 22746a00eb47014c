import QuickIO.Approvals
import QuickIO.CallbackIds
import QuickIO.Lib.Json
import QuickIO.RoundTrip

/-!
# Callback messages

The message that `evs_cb_full` assembles, and what a client reads from it. Codes are of an
unsigned type and are printed as such, while the header allows every integer:
`callback_carries_iff` says which codes arrive.
-/
namespace QuickIO

open Lib Server

/-- An integer that an application passes for a code. -/
def evsCode (code : Int) : EvsCode := UInt32.ofInt code

/-! ### What a client reads -/

/-- What is read from a callback. -/
structure CallbackMessage where
  clientCb : EvsCb
  code : Int
  data : Json
  errMsg : Option Json
  serverCb : EvsCb

/-- The id at the end of the path, and the members of the JSON object. -/
def decodeCallback (send : Send) : Option CallbackMessage :=
  let path := str "/qio/callback/"
  if path <+: send.evPath then
    match Json.decode send.json with
    | none => none
    | some json =>
      match (json.member (str "code")).bind Json.integer, json.member (str "data") with
      | some code, some data => some {
          clientCb := (gAsciiStrtoull (send.evPath.drop path.length)).value
          code, data
          errMsg := json.member (str "err_msg")
          serverCb := send.serverCb }
      | _, _ => none
  else none

/-- The value of an error message. -/
def errMsgValue : Option Bytes → Json
  | none => .null
  | some text => .string text

/-- The value of the data: `null` where there is none. -/
inductive DataOf : Option Bytes → Json → Prop
  | null : DataOf none .null
  | empty : DataOf (some []) .null
  | json (text : Bytes) (v : Json) (spells : Json.Document v text) : DataOf (some text) v

/-- The callback has what was passed. -/
structure CarriesArguments (c : ClientId) (clientCb : EvsCb) (code : Int) (errMsg : Option Bytes)
    (data : Json) (cbFn : Option Ptr) (send : Send) : Prop where
  client : send.client = c
  path : send.evPath = str "/qio/callback/" ++ decimal clientCb ∧ send.evExtra = []
  read : decodeCallback send =
    some ⟨clientCb, code, data, if code = 200 then none else some (errMsgValue errMsg),
      send.serverCb⟩
  serverCb : send.serverCb ≠ evsNoCallback ↔ code = 200 ∧ cbFn ≠ none

/-! ### The JSON object -/

theorem isNumber_digits (n : Nat) : Json.isNumber (digits n) = true := by
  have one : ∀ d < 10, d ≠ 0 →
      Json.readNumber .start [0x30 + UInt8.ofNat d] = some .digits := by decide
  have next : ∀ d < 10,
      Json.readNumber .digits [0x30 + UInt8.ofNat d] = some .digits := by decide
  -- a number that is not zero has no leading zero
  have read : ∀ n, n ≠ 0 → Json.readNumber .start (digits n) = some .digits := by
    intro n
    induction n using Nat.strongRecOn with
    | ind n ih =>
      intro positive
      by_cases low : n < 10
      · rw [digits_low n low]
        exact one n low positive
      · rw [digits_high n (Nat.le_of_not_lt low), Json.readNumber_append,
          ih (n / 10) (by omega) (by omega)]
        exact next (n % 10) (Nat.mod_lt n (by decide))
  by_cases zero : n = 0
  · rw [zero]
    decide
  · rw [Json.isNumber, read n zero]
    rfl

theorem integer_digits (n : Nat) : Json.integer (.number (digits n)) = some (n : Int) := by
  have numeric : ∀ c ∈ digits n, Json.IsDigit c := by
    intro c member
    have digit := isDigit_digits n c member
    rw [isDigit, Bool.and_eq_true, decide_eq_true_eq, decide_eq_true_eq] at digit
    exact digit
  have value : Json.digitsValue (digits n) = n := digitsValue_digits n
  rw [Json.integer_digits numeric, value]

theorem DataOf.document {json : Option Bytes} {v : Json} (data : DataOf json v) :
    Json.Document v (jsonOrNull json) := by
  have null : Json.Document .null (str "null") :=
    ⟨[], str "null", [], .nil, .null, .nil, rfl⟩
  cases data with
  | null => exact null
  | empty => exact null
  | json text v spells =>
    cases text with
    | nil =>
      -- no value has an empty text
      obtain ⟨w, t, w', -, value, -, split⟩ := spells
      obtain ⟨c, u, rfl, -⟩ := value.head
      cases w <;> cases split
    | cons b text => exact spells

/-- What the JSON of a callback says. -/
theorem cbJson_document {env : Env} (code : EvsCode) {errMsg json : Option Bytes} {v : Json}
    (data : DataOf json v) (packs : Json.Document (errMsgValue errMsg) (env.jsonPack errMsg)) :
    Json.Document (.object ((str "code", .number (decimal code.toUInt64)) :: (str "data", v) ::
      if code = codeOk then [] else [(str "err_msg", errMsgValue errMsg)]))
      (cbJson env code errMsg json) := by
  have number : Json.Document (.number (decimal code.toUInt64)) (decimal code.toUInt64) :=
    ⟨[], _, [], .nil, .number _ (isNumber_digits _), .nil, by simp⟩
  have codeName : ∀ c ∈ str "code", Json.IsPlain c := by simp [str, Json.IsPlain]
  have dataName : ∀ c ∈ str "data", Json.IsPlain c := by simp [str, Json.IsPlain]
  have errName : ∀ c ∈ str "err_msg", Json.IsPlain c := by simp [str, Json.IsPlain]
  split
  next success =>
    have members := Json.Text.plainMembers codeName number
      (Json.Text.plainMember dataName data.document)
    refine ⟨[], _, [], .nil, .object _ _ members, .nil, ?_⟩
    simp [cbJson, success, str]
  next failure =>
    have members := Json.Text.plainMembers codeName number
      (Json.Text.plainMembers dataName data.document (Json.Text.plainMember errName packs))
    refine ⟨[], _, [], .nil, .object _ _ members, .nil, ?_⟩
    simp [cbJson, failure, str]

/-! ### The message -/

theorem gAsciiStrtoull_decimal (id : EvsCb) : (gAsciiStrtoull (decimal id)).value = id := by
  have text : decimal id = (decimalNumeral id).text ++ [] := by
    simp [Numeral.text, Numeral.signText, decimalNumeral]
  have magnitude : (decimalNumeral id).magnitude = id.toNat := digitsValue_digits id.toNat
  have fits : (decimalNumeral id).InRange := by
    rw [Numeral.InRange, magnitude]
    exact id.toNat_lt
  rw [text, gAsciiStrtoull_text _ [] (by rintro c ⟨⟩), Numeral.read, if_pos fits]
  change UInt64.ofInt (decimalNumeral id).value = id
  rw [decimalNumeral_value, ofInt_natCast, UInt64.ofNat_toNat]

/-- The integer that a code is printed as. -/
theorem evsCode_toNat (code : Int) : ((evsCode code).toUInt64.toNat : Int) = code % 2 ^ 32 := by
  have low := Int.emod_nonneg code (b := 2 ^ 32) (by decide)
  have high := Int.emod_lt_of_pos code (b := 2 ^ 32) (by decide)
  have value : (evsCode code).toUInt64.toNat = (code % 2 ^ 32).toNat % 2 ^ 32 := by
    rw [UInt32.toNat_toUInt64, evsCode, UInt32.ofInt, UInt32.toNat_ofNat']
  rw [value]
  omega

/-- An id is given out exactly where there is a function. -/
theorem cbNew_serverCb (env : Env) (σ : Server) (c : ClientId) (cbFn cbData freeFn : Option Ptr) :
    (σ.cbNew env c cbFn cbData freeFn).2 ≠ evsNoCallback ↔ cbFn ≠ none := by
  cases cbFn with
  | none => simp [cbNew, clientCbNew]
  | some fn =>
    have positive : 0 < (nextCbId (σ.clients c).callbacks.cbsId).toNat := by
      rw [CbRun.nextCbId_toNat]
      exact Nat.succ_pos _
    simp only [cbNew, clientCbNew, ne_eq, reduceCtorEq, not_false_eq_true, iff_true]
    exact CbRun.packCb_ne_zero positive

/-- What is read from the message. -/
theorem decodeCallback_eq {env : Env} (clientCb serverCb : EvsCb) (code : EvsCode)
    {errMsg json : Option Bytes} {v : Json} (data : DataOf json v)
    (packs : Json.Document (errMsgValue errMsg) (env.jsonPack errMsg)) (c : ClientId) :
    decodeCallback ⟨c, cbPath clientCb, [], serverCb, cbJson env code errMsg json⟩ =
      some ⟨clientCb, code.toUInt64.toNat, v,
        if code = codeOk then none else some (errMsgValue errMsg), serverCb⟩ := by
  have read := Json.decode_document (cbJson_document code data packs)
  have path : str "/qio/callback/" <+: cbPath clientCb := List.prefix_append _ _
  have id : (gAsciiStrtoull ((cbPath clientCb).drop (str "/qio/callback/").length)).value =
      clientCb := by
    rw [cbPath, List.drop_left, gAsciiStrtoull_decimal]
  have number : Json.integer (.number (decimal code.toUInt64)) = some (code.toUInt64.toNat : Int) :=
    integer_digits code.toUInt64.toNat
  have notData : str "code" ≠ str "data" := by decide
  have notErr : str "code" ≠ str "err_msg" ∧ str "data" ≠ str "err_msg" := by decide
  simp only [decodeCallback, if_pos path, read, id, Json.member, List.find?_cons, notData, notErr,
    decide_true, decide_false, Option.map_some, Option.bind_some, number]
  split
  next success => simp
  next failure => simp

/-- For every callback of a client, every integer as its code, every error message, every
data and every function: the message carries the arguments if and only if the code is one of
the unsigned type. -/
theorem callback_carries_iff (σ : Server) (env : Env) (c : ClientId) (clientCb : EvsCb)
    (wanted : clientCb ≠ 0) (code : Int) (errMsg json : Option Bytes) (v : Json)
    (data : DataOf json v) (packs : Json.Document (errMsgValue errMsg) (env.jsonPack errMsg))
    (cbFn cbData freeFn : Option Ptr) :
    ∃ send, (σ.evsCbFull env c clientCb (evsCode code) errMsg json cbFn cbData freeFn).2 = [send] ∧
      (CarriesArguments c clientCb code errMsg v cbFn send ↔ 0 ≤ code ∧ code < 2 ^ 32) := by
  let serverCb : EvsCb :=
    if evsCode code = codeOk then (σ.cbNew env c cbFn cbData freeFn).2 else evsNoCallback
  have sent : (σ.evsCbFull env c clientCb (evsCode code) errMsg json cbFn cbData freeFn).2 =
      [⟨c, cbPath clientCb, [], serverCb, cbJson env (evsCode code) errMsg json⟩] := by
    simp only [evsCbFull, if_neg wanted, serverCb]
    split
    next => rfl
    next => rfl
  refine ⟨_, sent, ?_⟩
  have read := decodeCallback_eq clientCb serverCb (evsCode code) data packs c
  rw [evsCode_toNat] at read
  constructor
  · rintro ⟨-, -, carried, -⟩
    rw [read, Option.some.injEq, CallbackMessage.mk.injEq] at carried
    have kept : code % 2 ^ 32 = code := carried.2.1
    omega
  · rintro ⟨low, high⟩
    have kept : code % 2 ^ 32 = code := Int.emod_eq_of_lt low high
    have success : evsCode code = codeOk ↔ code = 200 := by
      have printed := evsCode_toNat code
      rw [kept] at printed
      constructor
      · intro ok
        rw [ok] at printed
        exact printed.symm
      · rintro rfl
        rfl
    refine ⟨rfl, ⟨rfl, rfl⟩, ?_, ?_⟩
    · rw [read, kept]
      simp only [success]
    · simp only [serverCb, success]
      split
      next ok => simp [ok, cbNew_serverCb]
      next error => simp [error]

/-- A server on which every error message is `no`. -/
def noEnv : Env := { lateEnv with jsonPack := fun _ => str "\"no\"" }

theorem noEnv_packs :
    Json.Document (errMsgValue (some (str "no"))) (noEnv.jsonPack (some (str "no"))) :=
  ⟨[], _, [], .nil, .string (Json.plainChars (str "no") (by simp [str, Json.IsPlain])), .nil, rfl⟩

/-- An error with data. -/
theorem callback_carries_notFound :
    ∃ send, (Server.new.evsCbFull noEnv 3 7 (evsCode 404) (some (str "no")) (some (str "[1, 2]"))
        none none none).2 = [send] ∧
      CarriesArguments 3 7 404 (some (str "no")) (.array [.number (str "1"), .number (str "2")])
        none send := by
  have second : Json.Space [0x20] := by simp [Json.Space, Json.IsSpace]
  have elements := Json.Text.elements _ [] (str "1") [] _ _ .nil (.number _ (by decide)) .nil
    (.element _ [0x20] (str "2") [] second (.number _ (by decide)) .nil)
  have spells : Json.Document (.array [.number (str "1"), .number (str "2")]) (str "[1, 2]") :=
    ⟨[], _, [], .nil, .array _ _ elements, .nil, rfl⟩
  obtain ⟨send, sent, carries⟩ := callback_carries_iff Server.new noEnv 3 7 (by decide) 404
    (some (str "no")) (some (str "[1, 2]")) _ (.json _ _ spells) noEnv_packs none none none
  exact ⟨send, sent, carries.mpr (by decide)⟩

/-- The code -1 is printed as 4294967295. -/
theorem callback_carries_negative :
    ¬∀ (σ : Server) (env : Env) (c : ClientId) (clientCb : EvsCb), clientCb ≠ 0 →
      ∀ (code : Int) (errMsg json : Option Bytes) (v : Json), DataOf json v →
        Json.Document (errMsgValue errMsg) (env.jsonPack errMsg) →
        ∀ (cbFn cbData freeFn : Option Ptr) (send : Send),
          (σ.evsCbFull env c clientCb (evsCode code) errMsg json cbFn cbData freeFn).2 = [send] →
          CarriesArguments c clientCb code errMsg v cbFn send := by
  intro claim
  have carries := claim Server.new noEnv 3 7 (by decide) (-1) (some (str "no")) none .null .null
    noEnv_packs none none none _ rfl
  have printed := decodeCallback_eq 7 evsNoCallback (evsCode (-1)) .null noEnv_packs 3
  have read := printed.symm.trans carries.read
  rw [evsCode_toNat, Option.some.injEq, CallbackMessage.mk.injEq] at read
  exact absurd read.2.1 (by decide)

end QuickIO
