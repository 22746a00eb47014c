import QuickIO.CString

/-!
# What the protocols share

Status codes, close reasons and checked arithmetic.
-/
namespace QuickIO

/-- `enum protocol_status` -/
inductive ProtocolStatus
  | ok
  | again
  | fatal
deriving DecidableEq, Repr

/-- The reasons a client is closed for: `QEV_CLOSE_*`, `QIO_CLOSE_*`, `RAW_*`,
`HTTP_*` and `RFC6455_*`. -/
inductive CloseReason
  | hup
  | exiting
  | timeout
  | outOfMem
  | unknownError
  | heartattack
  | invalidEventFormat
  | httpDone
  | badRequest
  | lengthRequired
  | noMask
  | unsupportedOpcode
  | notUtf8
  | notSupported
  | invalidHandshake
  | done
deriving DecidableEq, Repr

/-- `qev_safe_uadd` on `guint64`: the sum, unless it overflows. -/
def qevSafeUadd (a b : Nat) : Option Nat := if a + b < 2 ^ 64 then some (a + b) else none

end QuickIO
