import QuickIO.Callbacks
import QuickIO.Protocol

/-!
# The event format

`path:callback=json`, the text all protocols wrap in their own frames.
-/
namespace QuickIO


/-- `protocol_raw_format` -/
def protocolRawFormat (evPath evExtra : Bytes) (serverCb : EvsCb) (json : Bytes) : Bytes :=
  evPath ++ evExtra ++ str ":" ++ decimal serverCb ++ str "=" ++ json

/-- What `evs_route` is called with. -/
structure RawEvent where
  evPath : Bytes
  clientCb : EvsCb
  json : Bytes
deriving DecidableEq, Repr

/-- How `protocol_raw_handle` takes a C string apart, `none` where it goes to
`error`. Whether `errno` is `ERANGE` on entry matters: `g_ascii_strtoull` only
sets it on overflow. -/
def parseEvent (erange : Bool) (event : Bytes) : Option RawEvent :=
  match event.dropWhile (· ≠ 0x3a) with
  -- No colon.
  | [] => none
  | _ :: curr =>
    let number := gAsciiStrtoull curr
    match number.rest with
    -- Nothing behind the number.
    | [] => none
    | c :: json =>
      if c ≠ 0x3d || number.rest = curr ||
          (number.value = 0xffffffffffffffff && (erange || number.erange)) then none
      else some { evPath := event.takeWhile (· ≠ 0x3a), clientCb := number.value, json }

example : parseEvent false (str "/qio/ping:1=null") = some ⟨str "/qio/ping", 1, str "null"⟩ := by
  decide

end QuickIO
