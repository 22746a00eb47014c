import Mathlib.Data.FinEnum
import Mathlib.Data.UInt

/-!
# JSON string literals

The characters of a literal as they are written, with every escape JSON has, the bytes they
stand for, and the scanner that reads them back.
-/
namespace QuickIO.Lib.Json

/-! ### Characters -/

/-- The escapes of one letter. -/
inductive Escape where
  | quotationMark
  | reverseSolidus
  | solidus
  | backspace
  | formFeed
  | lineFeed
  | carriageReturn
  | tab
deriving DecidableEq, Repr

/-- What is written after the backslash. -/
def Escape.letter : Escape → UInt8
  | quotationMark => 0x22
  | reverseSolidus => 0x5c
  | solidus => 0x2f
  | backspace => 0x62
  | formFeed => 0x66
  | lineFeed => 0x6e
  | carriageReturn => 0x72
  | tab => 0x74

/-- What it stands for. -/
def Escape.byte : Escape → UInt8
  | quotationMark => 0x22
  | reverseSolidus => 0x5c
  | solidus => 0x2f
  | backspace => 0x08
  | formFeed => 0x0c
  | lineFeed => 0x0a
  | carriageReturn => 0x0d
  | tab => 0x09

def Escape.all : List Escape :=
  [quotationMark, reverseSolidus, solidus, backspace, formFeed, lineFeed, carriageReturn, tab]

/-- The escape with a letter. -/
def escapeOf (letter : UInt8) : Option Escape :=
  Escape.all.find? fun e => e.letter = letter

theorem escapeOf_letter (e : Escape) : escapeOf e.letter = some e := by
  cases e <;> decide

/-- A letter is no `u`, which begins the other escapes. -/
theorem Escape.letter_ne_u (e : Escape) : e.letter ≠ 0x75 := by
  cases e <;> decide

/-- `0` to `9`, `A` to `F` and `a` to `f` -/
def IsHex (c : UInt8) : Prop :=
  (0x30 ≤ c ∧ c ≤ 0x39) ∨ (0x41 ≤ c ∧ c ≤ 0x46) ∨ (0x61 ≤ c ∧ c ≤ 0x66)

instance (c : UInt8) : Decidable (IsHex c) := inferInstanceAs (Decidable (_ ∨ _ ∨ _))

/-- The value of a hexadecimal digit. -/
def hexValue (c : UInt8) : Nat :=
  if c ≤ 0x39 then c.toNat - 0x30 else if c ≤ 0x46 then c.toNat - 0x37 else c.toNat - 0x57

/-- What may stand for itself: no control character, quotation mark or backslash. -/
def IsPlain (c : UInt8) : Prop := 0x20 ≤ c ∧ c ≠ 0x22 ∧ c ≠ 0x5c

instance (c : UInt8) : Decidable (IsPlain c) := inferInstanceAs (Decidable (_ ∧ _ ∧ _))

/-- A character as it is written: itself, an escape, or a unit of UTF-16. -/
inductive StringChar where
  | plain (c : UInt8) (allowed : IsPlain c)
  | escape (e : Escape)
  | unit (digits : List UInt8) (four : digits.length = 4) (hex : ∀ c ∈ digits, IsHex c)
deriving DecidableEq

/-- The bytes in the literal. -/
def StringChar.text : StringChar → List UInt8
  | plain c _ => [c]
  | escape e => [0x5c, e.letter]
  | unit digits _ _ => 0x5c :: 0x75 :: digits

/-- Between the quotation marks. -/
def charsText (cs : List StringChar) : List UInt8 := cs.flatMap StringChar.text

/-- The whole literal. -/
def literal (cs : List StringChar) : List UInt8 := 0x22 :: (charsText cs ++ [0x22])

/-! ### What they stand for -/

/-- A code point in UTF-8; a surrogate is written like its neighbours. -/
def utf8Encode (n : Nat) : List UInt8 :=
  let next (n : Nat) : UInt8 := UInt8.ofNat (0x80 + n % 0x40)
  if n < 0x80 then [UInt8.ofNat n]
  else if n < 0x800 then [UInt8.ofNat (0xc0 + n / 0x40), next n]
  else if n < 0x10000 then [UInt8.ofNat (0xe0 + n / 0x1000), next (n / 0x40), next n]
  else [UInt8.ofNat (0xf0 + n / 0x40000), next (n / 0x1000), next (n / 0x40), next n]

/-- The number four digits spell. -/
def unitValue (digits : List UInt8) : Nat := digits.foldl (fun n c => 16 * n + hexValue c) 0

def IsHighSurrogate (n : Nat) : Prop := 0xd800 ≤ n ∧ n < 0xdc00

def IsLowSurrogate (n : Nat) : Prop := 0xdc00 ≤ n ∧ n < 0xe000

instance (n : Nat) : Decidable (IsHighSurrogate n) := inferInstanceAs (Decidable (_ ∧ _))

instance (n : Nat) : Decidable (IsLowSurrogate n) := inferInstanceAs (Decidable (_ ∧ _))

/-- Two surrogates of UTF-16 are one code point. -/
def surrogatePair (high low : Nat) : Nat := 0x10000 + (high - 0xd800) * 0x400 + (low - 0xdc00)

/-- The string that is written. -/
def decodeChars : List StringChar → List UInt8
  | [] => []
  | .plain c _ :: cs => c :: decodeChars cs
  | .escape e :: cs => e.byte :: decodeChars cs
  | .unit high _ _ :: .unit low four hex :: cs =>
    if IsHighSurrogate (unitValue high) ∧ IsLowSurrogate (unitValue low) then
      utf8Encode (surrogatePair (unitValue high) (unitValue low)) ++ decodeChars cs
    else utf8Encode (unitValue high) ++ decodeChars (.unit low four hex :: cs)
  | .unit digits _ _ :: cs => utf8Encode (unitValue digits) ++ decodeChars cs

/-- A string that needs no escapes. -/
def plainChars (bs : List UInt8) (plain : ∀ c ∈ bs, IsPlain c) : List StringChar :=
  bs.pmap StringChar.plain plain

theorem charsText_plainChars (bs : List UInt8) (plain : ∀ c ∈ bs, IsPlain c) :
    charsText (plainChars bs plain) = bs := by
  induction bs with
  | nil => rfl
  | cons c bs ih =>
    have rest := ih fun d member => plain d (List.mem_cons_of_mem c member)
    rw [charsText] at rest
    simp only [plainChars, List.pmap, charsText, List.flatMap_cons, StringChar.text,
      List.singleton_append, List.cons.injEq, true_and]
    exact rest

theorem decodeChars_plainChars (bs : List UInt8) (plain : ∀ c ∈ bs, IsPlain c) :
    decodeChars (plainChars bs plain) = bs := by
  induction bs with
  | nil => rfl
  | cons c bs ih =>
    have rest := ih fun d member => plain d (List.mem_cons_of_mem c member)
    simp only [plainChars, List.pmap, decodeChars, List.cons.injEq, true_and]
    exact rest

/-! ### Reading a literal -/

/-- The characters up to the closing quotation mark, and what is behind it. -/
def scanChars : List UInt8 → Option (List StringChar × List UInt8)
  | [] => none
  | 0x22 :: rest => some ([], rest)
  | 0x5c :: 0x75 :: a :: b :: c :: d :: rest =>
    if hex : ∀ x ∈ [a, b, c, d], IsHex x then
      (scanChars rest).map fun (cs, rest) => (.unit [a, b, c, d] rfl hex :: cs, rest)
    else none
  | 0x5c :: letter :: rest =>
    match escapeOf letter with
    | none => none
    | some e => (scanChars rest).map fun (cs, rest) => (.escape e :: cs, rest)
  | c :: rest =>
    if allowed : IsPlain c then
      (scanChars rest).map fun (cs, rest) => (.plain c allowed :: cs, rest)
    else none

/-- The scanner reads what was written. -/
theorem scanChars_charsText (cs : List StringChar) (rest : List UInt8) :
    scanChars (charsText cs ++ 0x22 :: rest) = some (cs, rest) := by
  induction cs with
  | nil => simp [charsText, scanChars]
  | cons c cs ih =>
    rw [charsText, List.flatMap_cons, List.append_assoc, ← charsText]
    cases c with
    | plain c allowed =>
      simp only [StringChar.text, List.cons_append, List.nil_append]
      rw [scanChars, dif_pos allowed, ih]
      · rfl
      · exact allowed.2.1
      · exact fun _ _ _ _ _ same _ => allowed.2.2 same
      · exact fun _ _ same _ => allowed.2.2 same
    | escape e =>
      simp only [StringChar.text, List.cons_append, List.nil_append]
      rw [scanChars, escapeOf_letter]
      · simp only [ih]
        rfl
      · exact fun _ _ _ _ _ same _ => e.letter_ne_u same
    | unit digits four hex =>
      obtain ⟨a, b, c, d, rfl⟩ : ∃ a b c d, digits = [a, b, c, d] := List.length_eq_four.mp four
      simp only [StringChar.text, List.cons_append, List.nil_append]
      rw [scanChars, dif_pos hex, ih]
      rfl

end QuickIO.Lib.Json
