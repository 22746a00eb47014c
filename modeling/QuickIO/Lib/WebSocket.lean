import Mathlib.Data.UInt
import QuickIO.Lib.Memory

/-!
# The WebSocket frame format

A frame as the peer meant it, and its bytes on the wire: a first byte with
FIN and the opcode, the MASK bit and the payload length in one of three forms,
the masking key, the masked payload.
-/
namespace QuickIO.Lib.WebSocket

/-- The three ways to write a payload length. -/
inductive LenForm
  | short
  | medium
  | long
deriving DecidableEq, Repr

/-- How many bytes follow the second one to hold the length. -/
def LenForm.extra : LenForm → Nat
  | short => 0
  | medium => 2
  | long => 8

/-- A form need not be the shortest one. -/
def LenForm.Holds : LenForm → Nat → Prop
  | short, n => n ≤ 125
  | medium, n => n < 2 ^ 16
  | long, n => n < 2 ^ 64

instance (form : LenForm) (n : Nat) : Decidable (form.Holds n) := by
  cases form <;> exact Nat.decLe _ _

/-- The seven bits after the MASK bit. -/
def LenForm.code : LenForm → Nat → UInt8
  | short, n => UInt8.ofNat n
  | medium, _ => 126
  | long, _ => 127

/-- `payload[i] XOR mask[i mod 4]` for every `i`. -/
def applyMask (mask payload : List UInt8) : List UInt8 :=
  payload.mapIdx fun i b => b ^^^ mask.getD (i % 4) 0

@[simp] theorem length_applyMask (mask payload : List UInt8) :
    (applyMask mask payload).length = payload.length := by
  simp [applyMask]

theorem applyMask_applyMask (mask payload : List UInt8) :
    applyMask mask (applyMask mask payload) = payload := by
  apply List.ext_getElem
  · simp
  · intro i _ _
    simp only [applyMask, List.getElem_mapIdx]
    rw [UInt8.xor_assoc, UInt8.xor_self, UInt8.xor_zero]

/-- A frame with its unmasked payload. Its bytes can be counted in 64 bits. -/
structure Frame where
  first : UInt8
  form : LenForm
  mask : Option (List UInt8)
  payload : List UInt8
  mask_length : ∀ key, mask = some key → key.length = 4
  holds : form.Holds payload.length
  countable : 6 + form.extra + payload.length < 2 ^ 64

namespace Frame

variable (f : Frame)

/-- The last frame of its message. -/
def fin : Bool := f.first &&& 0x80 ≠ 0

def opcode : UInt8 := f.first &&& 0x0f

/-- The MASK bit. -/
def masked : Bool := f.mask.isSome

/-- Part of a message sent in several frames: all but the last have FIN clear,
all but the first have opcode 0. -/
def Fragment : Prop := f.fin = false ∨ f.opcode = 0

def header : List UInt8 :=
  f.first :: ((if f.masked then 0x80 else 0) ||| f.form.code f.payload.length) ::
    (storeBE f.form.extra f.payload.length ++ f.mask.getD [])

/-- The payload as it is sent. -/
def body : List UInt8 :=
  match f.mask with
  | none => f.payload
  | some key => applyMask key f.payload

/-- The bytes on the wire. -/
def encode : List UInt8 := f.header ++ f.body

@[simp] theorem length_body : f.body.length = f.payload.length := by
  unfold body
  cases f.mask with
  | none => rfl
  | some key => exact length_applyMask key f.payload

theorem length_header (key : List UInt8) (masked : f.mask = some key) :
    f.header.length = 6 + f.form.extra := by
  have four := f.mask_length key masked
  simp [header, masked, four]
  omega

end Frame

end QuickIO.Lib.WebSocket
