import Mathlib.Algebra.Group.Nat.Defs
import Mathlib.Data.List.Basic

/-!
# C strings

A NUL-terminated string is the list of its bytes before the terminator. The
functions of the C library and of GLib that the server uses on them.
-/
namespace QuickIO

abbrev Bytes := List UInt8

/-- The bytes of a C literal; only used on ASCII text. -/
def str (s : String) : Bytes := s.toList.map fun c => UInt8.ofNat c.toNat

/-- `'/'` -/
def slash : UInt8 := 0x2f

/-- `qev_buffer_append_uint`: an unsigned 64-bit number in decimal. -/
def decimal (n : UInt64) : Bytes := (Nat.toDigits 10 n.toNat).map fun c => UInt8.ofNat c.toNat

/-- The white space `g_ascii_strtoull` skips. -/
def isSpace (c : UInt8) : Bool := c = 0x20 || (0x09 ≤ c && c ≤ 0x0d)

/-- `'0'` to `'9'` -/
def isDigit (c : UInt8) : Bool := 0x30 ≤ c && c ≤ 0x39

/-- The number a run of decimal digits spells. -/
def digitsValue (digits : Bytes) : Nat :=
  digits.foldl (fun n c => 10 * n + (c.toNat - 0x30)) 0

/-- What `g_ascii_strtoull` reports: the value, the end pointer as the rest of
the string, and whether it set `errno` to `ERANGE`. -/
structure Strtoull where
  value : UInt64
  rest : Bytes
  erange : Bool
deriving DecidableEq, Repr

/-- `g_ascii_strtoull(s, &end, 10)`: white space, one sign, decimal digits. A
value out of range is `G_MAXUINT64`, a negative one wraps. -/
def gAsciiStrtoull (s : Bytes) : Strtoull :=
  let unspaced := s.dropWhile isSpace
  let (negative, unsigned) :=
    match unspaced with
    | 0x2d :: rest => (true, rest)
    | 0x2b :: rest => (false, rest)
    | rest => (false, rest)
  let digits := unsigned.takeWhile isDigit
  let n := digitsValue digits
  -- No digits: `endptr` is the whole text, spaces and sign included.
  if digits = [] then { value := 0, rest := s, erange := false }
  else
    let rest := unsigned.dropWhile isDigit
    -- `ULLONG_MAX` and `ERANGE`, the sign unread.
    if 2 ^ 64 ≤ n then { value := 0xffffffffffffffff, rest, erange := true }
    else
      { value := if negative then 0 - UInt64.ofNat n else UInt64.ofNat n, rest, erange := false }

example : gAsciiStrtoull (str " -1/2") = ⟨0xffffffffffffffff, str "/2", false⟩ := by decide

/-- What a lead byte asks for: how many bytes follow it, and the range of the
next one. No text byte is NUL. -/
def utf8Lead (b : UInt8) : Option (Nat × UInt8 × UInt8) :=
  if 0x01 ≤ b && b ≤ 0x7f then some (0, 0x80, 0xbf)
  -- `0xc0` and `0xc1` would only begin overlong forms.
  else if 0xc2 ≤ b && b ≤ 0xdf then some (1, 0x80, 0xbf)
  else if b = 0xe0 then some (2, 0xa0, 0xbf)
  -- From `0xed 0xa0` on they would be surrogates.
  else if b = 0xed then some (2, 0x80, 0x9f)
  else if 0xe1 ≤ b && b ≤ 0xef then some (2, 0x80, 0xbf)
  else if b = 0xf0 then some (3, 0x90, 0xbf)
  else if 0xf1 ≤ b && b ≤ 0xf3 then some (3, 0x80, 0xbf)
  else if b = 0xf4 then some (3, 0x80, 0x8f)
  else none

/-- Validate with `more` continuation bytes owed, the first of them in a range. -/
def utf8Rest (more : Nat) (low high : UInt8) : Bytes → Bool
  | [] => more = 0
  | b :: bs =>
    match more with
    | 0 =>
      match utf8Lead b with
      | none => false
      | some (more, low, high) => utf8Rest more low high bs
    | more + 1 => low ≤ b && b ≤ high && utf8Rest more 0x80 0xbf bs

/-- `g_utf8_validate(str, len, NULL)`: no overlong form, no surrogate, nothing
past U+10FFFF, and no NUL among the `len` bytes. -/
def utf8Validate (bs : Bytes) : Bool := utf8Rest 0 0x80 0xbf bs

example : utf8Validate (str "/qio/ohai") = true := by decide
example : utf8Validate [0xe2, 0x82, 0xac] = true := by decide
example : utf8Validate [0xed, 0xa0, 0x80] = false := by decide

theorem utf8Lead_zero : utf8Lead 0 = none := by decide

theorem utf8Lead_low (b low high : UInt8) (more : Nat)
    (lead : utf8Lead b = some (more, low, high)) : 0x80 ≤ low := by
  revert lead
  unfold utf8Lead
  split_ifs <;> simp <;> rintro - rfl - <;> decide

/-- A valid text has no NUL. -/
theorem utf8Rest_noNul (more : Nat) (low high : UInt8) (bs : Bytes) (above : 0x80 ≤ low)
    (valid : utf8Rest more low high bs) : 0 ∉ bs := by
  induction bs generalizing more low high with
  | nil => simp
  | cons b bs ih =>
    cases more with
    | zero =>
      simp only [utf8Rest] at valid
      cases lead : utf8Lead b with
      | none => simp [lead] at valid
      | some next =>
        obtain ⟨more, low, high⟩ := next
        simp only [lead] at valid
        have later := ih more low high (utf8Lead_low b low high more lead) valid
        have here : 0 ≠ b := by
          rintro rfl
          simp [utf8Lead_zero] at lead
        simp [here, later]
    | succ more =>
      simp only [utf8Rest, Bool.and_eq_true, decide_eq_true_eq] at valid
      have later := ih more 0x80 0xbf (by decide) valid.2
      have here : 0 ≠ b := by
        rintro rfl
        exact absurd (UInt8.le_trans above valid.1.1) (by decide)
      simp [here, later]

theorem utf8Validate_noNul (bs : Bytes) (valid : utf8Validate bs) : 0 ∉ bs :=
  utf8Rest_noNul 0 0x80 0xbf bs (by decide) valid

/-- The rest of a string after one optional leading slash, the
`if (*curr == '/') curr++` that starts both trie functions. -/
def dropSlash : Bytes → Bytes
  | [] => []
  | c :: curr => if c = slash then curr else c :: curr

@[simp] theorem dropSlash_slash (k : Bytes) : dropSlash (slash :: k) = k := by
  simp [dropSlash]

theorem mem_of_mem_dropSlash (p : Bytes) (c : UInt8) (member : c ∈ dropSlash p) : c ∈ p := by
  cases p with
  | nil => exact member
  | cons d p =>
    simp only [dropSlash] at member
    split at member
    · exact List.mem_cons_of_mem d member
    · exact member

end QuickIO
