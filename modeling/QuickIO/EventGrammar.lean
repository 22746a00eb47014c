import Mathlib.Data.List.TakeWhile
import QuickIO.Protocols

/-!
# The grammar of events

What `protocol_raw_handle` takes for an event: a path up to the first colon, a
number as `g_ascii_strtoull` reads it, an equals sign, and the JSON behind it.
The number may begin with white space and a sign; it is taken modulo `2 ^ 64`.
-/
namespace QuickIO

/-- `':'` -/
def colon : UInt8 := 0x3a

/-- `'='` -/
def equals : UInt8 := 0x3d

/-! ### Numbers -/

inductive Sign
  | plus
  | minus
deriving DecidableEq, Repr

/-- `'+'` and `'-'` -/
def Sign.char : Sign → UInt8
  | plus => 0x2b
  | minus => 0x2d

/-- A number as a text: white space, a sign, decimal digits. -/
structure Numeral where
  space : Bytes
  sign : Option Sign
  digits : Bytes
  blank : ∀ c ∈ space, isSpace c
  numeric : ∀ c ∈ digits, isDigit c
  nonempty : digits ≠ []

namespace Numeral

variable (N : Numeral)

def signText : Bytes :=
  match N.sign with
  | none => []
  | some sign => [sign.char]

def text : Bytes := N.space ++ (N.signText ++ N.digits)

def magnitude : Nat := digitsValue N.digits

def value : Int :=
  if N.sign = some .minus then -(N.magnitude : Int) else N.magnitude

/-- The number can be told from an overflow. -/
def InRange : Prop := N.magnitude < 2 ^ 64

instance : Decidable N.InRange := Nat.decLt _ _

end Numeral

theorem Sign.char_not_space (sign : Sign) : isSpace sign.char = false := by
  cases sign <;> rfl

theorem isDigit_not_sign (c : UInt8) (digit : isDigit c) :
    isSpace c = false ∧ c ≠ 0x2d ∧ c ≠ 0x2b := by
  revert c
  decide +kernel

/-- How `g_ascii_strtoull` takes the sign of what follows the white space. -/
def takeSign : Bytes → Bool × Bytes
  | 0x2d :: rest => (true, rest)
  | 0x2b :: rest => (false, rest)
  | rest => (false, rest)

theorem takeSign_plain (c : UInt8) (rest : Bytes) (notMinus : c ≠ 0x2d) (notPlus : c ≠ 0x2b) :
    takeSign (c :: rest) = (false, c :: rest) := by
  unfold takeSign
  split
  next same => exact absurd (List.cons.inj same).1 notMinus
  next same => exact absurd (List.cons.inj same).1 notPlus
  next => rfl

theorem gAsciiStrtoull_eq (s : Bytes) :
    gAsciiStrtoull s =
      let (negative, unsigned) := takeSign (s.dropWhile isSpace)
      let n := digitsValue (unsigned.takeWhile isDigit)
      let rest := unsigned.dropWhile isDigit
      if unsigned.takeWhile isDigit = [] then { value := 0, rest := s, erange := false }
      else if 2 ^ 64 ≤ n then { value := 0xffffffffffffffff, rest, erange := true }
      else
        { value := if negative then 0 - UInt64.ofNat n else UInt64.ofNat n, rest
          erange := false } := rfl

/-- No digit stands at the beginning. -/
def Stops (rest : Bytes) : Prop := ∀ c ∈ rest.head?, isDigit c = false

theorem takeWhile_digits {digits rest : Bytes} (numeric : ∀ c ∈ digits, isDigit c)
    (stops : Stops rest) : (digits ++ rest).takeWhile isDigit = digits := by
  rw [List.takeWhile_append_of_pos numeric]
  cases rest with
  | nil => simp
  | cons c rest => simp [stops c rfl]

theorem dropWhile_digits {digits rest : Bytes} (numeric : ∀ c ∈ digits, isDigit c)
    (stops : Stops rest) : (digits ++ rest).dropWhile isDigit = rest := by
  rw [List.dropWhile_append_of_pos numeric]
  cases rest with
  | nil => rfl
  | cons c rest => simp [stops c rfl]

/-- What `g_ascii_strtoull` reports of a number with `rest` behind it. -/
def Numeral.read (N : Numeral) (rest : Bytes) : Strtoull :=
  if N.InRange then { value := UInt64.ofInt N.value, rest, erange := false }
  else { value := 0xffffffffffffffff, rest, erange := true }

/-- The white space ends where the sign or the first digit stands. -/
theorem Numeral.dropWhile_space (N : Numeral) (rest : Bytes) :
    (N.text ++ rest).dropWhile isSpace = N.signText ++ (N.digits ++ rest) := by
  have text : N.text ++ rest = N.space ++ (N.signText ++ (N.digits ++ rest)) := by
    simp [Numeral.text]
  rw [text, List.dropWhile_append_of_pos N.blank]
  cases sign : N.sign with
  | some sgn => simp [Numeral.signText, sign, sgn.char_not_space]
  | none =>
    obtain ⟨d, digits, more⟩ := List.exists_cons_of_ne_nil N.nonempty
    have digit := N.numeric d (more ▸ List.mem_cons_self)
    simp [Numeral.signText, sign, more, (isDigit_not_sign d digit).1]

theorem Numeral.takeSign_text (N : Numeral) (rest : Bytes) :
    takeSign (N.signText ++ (N.digits ++ rest)) =
      (decide (N.sign = some .minus), N.digits ++ rest) := by
  cases sign : N.sign with
  | some sgn =>
    rw [Numeral.signText, sign]
    cases sgn <;> rfl
  | none =>
    obtain ⟨d, digits, more⟩ := List.exists_cons_of_ne_nil N.nonempty
    obtain ⟨-, notMinus, notPlus⟩ := isDigit_not_sign d (N.numeric d (more ▸ List.mem_cons_self))
    simp [Numeral.signText, sign, more, takeSign_plain d _ notMinus notPlus]

theorem ofInt_natCast (n : Nat) : UInt64.ofInt n = UInt64.ofNat n := by
  apply UInt64.toNat.inj
  simp only [UInt64.ofInt, UInt64.toNat_ofNat']
  omega

/-- A negative number wraps. -/
theorem Numeral.ofInt_value (N : Numeral) :
    UInt64.ofInt N.value =
      if decide (N.sign = some .minus) then 0 - UInt64.ofNat N.magnitude
      else UInt64.ofNat N.magnitude := by
  by_cases minus : N.sign = some .minus
  · simp [Numeral.value, minus, UInt64.ofInt_neg, ofInt_natCast]
  · simp [Numeral.value, minus, ofInt_natCast]

theorem gAsciiStrtoull_text (N : Numeral) (rest : Bytes) (stops : Stops rest) :
    gAsciiStrtoull (N.text ++ rest) = N.read rest := by
  rw [gAsciiStrtoull_eq, N.dropWhile_space rest, N.takeSign_text rest]
  simp only [takeWhile_digits N.numeric stops, dropWhile_digits N.numeric stops, if_neg N.nonempty]
  by_cases fits : N.InRange
  · have small : ¬ 2 ^ 64 ≤ digitsValue N.digits := Nat.not_le.mpr fits
    rw [if_neg small, Numeral.read, if_pos fits, N.ofInt_value]
    rfl
  · have large : 2 ^ 64 ≤ digitsValue N.digits := Nat.not_lt.mp fits
    rw [if_pos large, Numeral.read, if_neg fits]

theorem takeSign_cases (s : Bytes) :
    ∃ sign : Option Sign, s = (sign.map Sign.char).toList ++ (takeSign s).2 := by
  unfold takeSign
  split
  next rest => exact ⟨some .minus, rfl⟩
  next rest => exact ⟨some .plus, rfl⟩
  next => exact ⟨none, rfl⟩

theorem stops_dropWhile (s : Bytes) : Stops (s.dropWhile isDigit) := by
  intro c first
  have none := List.head?_dropWhile_not isDigit s
  rw [Option.mem_def.mp first] at none
  simpa using none

/-- A text begins with a number, or `g_ascii_strtoull` finds no digits. -/
theorem exists_numeral (s : Bytes) :
    gAsciiStrtoull s = { value := 0, rest := s, erange := false } ∨
      ∃ (N : Numeral) (rest : Bytes), s = N.text ++ rest ∧ Stops rest := by
  obtain ⟨sign, signed⟩ := takeSign_cases (s.dropWhile isSpace)
  generalize unsigned_eq : (takeSign (s.dropWhile isSpace)).2 = unsigned at signed
  by_cases none : unsigned.takeWhile isDigit = []
  · left
    rw [gAsciiStrtoull_eq]
    simp only [unsigned_eq, if_pos none]
  · right
    -- the numeral is what was scanned: spaces, sign and digits
    let N : Numeral := {
      space := s.takeWhile isSpace
      sign
      digits := unsigned.takeWhile isDigit
      blank := fun c member => List.mem_takeWhile_imp member
      numeric := fun c member => List.mem_takeWhile_imp member
      nonempty := none }
    have signText : N.signText = (sign.map Sign.char).toList := by
      cases sign <;> rfl
    refine ⟨N, unsigned.dropWhile isDigit, ?_, stops_dropWhile unsigned⟩
    calc s = s.takeWhile isSpace ++ s.dropWhile isSpace := List.takeWhile_append_dropWhile.symm
      _ = N.text ++ unsigned.dropWhile isDigit := by
        rw [signed, Numeral.text, signText, List.append_assoc, List.append_assoc,
          List.takeWhile_append_dropWhile]

/-! ### Events -/

/-- The event `path:number=json`. -/
structure IsEvent (event P : Bytes) (N : Numeral) (J : Bytes) : Prop where
  text : event = P ++ colon :: (N.text ++ equals :: J)
  noColon : colon ∉ P
  inRange : N.InRange

/-- What the callback of an event with this number is. -/
def Numeral.clientCb (N : Numeral) : EvsCb := UInt64.ofInt N.value

theorem stops_equals (J : Bytes) : Stops (equals :: J) := by
  rintro c ⟨⟩
  rfl

theorem takeWhile_colon {P : Bytes} (rest : Bytes) (noColon : colon ∉ P) :
    (P ++ colon :: rest).takeWhile (· ≠ 0x3a) = P ∧
      (P ++ colon :: rest).dropWhile (· ≠ 0x3a) = colon :: rest := by
  have all : ∀ c ∈ P, decide (c ≠ 0x3a) = true := by
    intro c member
    apply decide_eq_true
    rintro rfl
    exact noColon member
  rw [List.takeWhile_append_of_pos all, List.dropWhile_append_of_pos all]
  simp [colon]

theorem parseEvent_colon {P : Bytes} (noColon : colon ∉ P) (erange : Bool) (curr : Bytes) :
    parseEvent erange (P ++ colon :: curr) =
      match (gAsciiStrtoull curr).rest with
      | [] => none
      | c :: json =>
        if c ≠ 0x3d || (gAsciiStrtoull curr).rest = curr ||
            ((gAsciiStrtoull curr).value = 0xffffffffffffffff &&
              (erange || (gAsciiStrtoull curr).erange)) then none
        else some { evPath := P, clientCb := (gAsciiStrtoull curr).value, json } := by
  obtain ⟨before, after⟩ := takeWhile_colon curr noColon
  unfold parseEvent
  generalize (P ++ colon :: curr).takeWhile _ = evPath at before ⊢
  generalize (P ++ colon :: curr).dropWhile _ = rest at after ⊢
  subst before after
  rfl

/-- What stands behind the number decides, and whether the number overflowed. -/
theorem parseEvent_number {P : Bytes} (noColon : colon ∉ P) (erange : Bool) (N : Numeral)
    (c : UInt8) (json : Bytes) (stops : Stops (c :: json)) :
    parseEvent erange (P ++ colon :: (N.text ++ c :: json)) =
      if c = equals ∧ N.InRange ∧ ¬ (N.clientCb = 0xffffffffffffffff ∧ erange) then
        some { evPath := P, clientCb := N.clientCb, json }
      else none := by
  have some_text : c :: json ≠ N.text ++ c :: json := by
    intro same
    have size := congrArg List.length same
    have digits : 0 < N.digits.length := List.length_pos_iff.mpr N.nonempty
    simp only [Numeral.text, List.length_append, List.length_cons] at size
    omega
  rw [parseEvent_colon noColon, gAsciiStrtoull_text N (c :: json) stops]
  by_cases fits : N.InRange
  · -- the value is the number modulo `2 ^ 64`
    simp only [Numeral.read, if_pos fits, Numeral.clientCb, equals]
    by_cases here : c = 0x3d
    · by_cases last : UInt64.ofInt N.value = 0xffffffffffffffff ∧ erange = true
      · simp [here, last]
      · simp_all
    · simp [here]
  · simp [Numeral.read, fits]

/-- An event is taken apart as it was put together. With `errno` left over from an
earlier overflow, one is not: the one whose number looks like an overflow. -/
theorem parseEvent_isEvent {event P J : Bytes} {N : Numeral} (is : IsEvent event P N J)
    (erange : Bool) :
    parseEvent erange event =
      if N.clientCb = 0xffffffffffffffff ∧ erange then none
      else some { evPath := P, clientCb := N.clientCb, json := J } := by
  rw [is.text, parseEvent_number is.noColon erange N equals J (stops_equals J)]
  by_cases last : N.clientCb = 0xffffffffffffffff ∧ erange
  · rw [if_pos last, if_neg fun taken => taken.2.2 last]
  · rw [if_neg last, if_pos ⟨rfl, is.inRange, last⟩]

theorem dropWhile_noColon {event : Bytes} (noColon : colon ∉ event) :
    event.dropWhile (· ≠ 0x3a) = [] := by
  rw [List.dropWhile_eq_nil_iff]
  intro c member
  apply decide_eq_true
  rintro rfl
  exact noColon member

theorem parseEvent_noColon {event : Bytes} (noColon : colon ∉ event) (erange : Bool) :
    parseEvent erange event = none := by
  rw [parseEvent, dropWhile_noColon noColon]

/-- Without digits there is no number. -/
theorem parseEvent_noDigits {P curr : Bytes} (noColon : colon ∉ P) (erange : Bool)
    (none : gAsciiStrtoull curr = { value := 0, rest := curr, erange := false }) :
    parseEvent erange (P ++ colon :: curr) = .none := by
  rw [parseEvent_colon noColon, none]
  cases curr with
  | nil => rfl
  | cons c json => simp

/-- Behind the number there is something. -/
theorem parseEvent_bare {P : Bytes} (noColon : colon ∉ P) (erange : Bool) (N : Numeral) :
    parseEvent erange (P ++ colon :: (N.text ++ [])) = none := by
  have number := gAsciiStrtoull_text N [] (by rintro c ⟨⟩)
  have rest : (N.read []).rest = [] := by
    rw [Numeral.read]
    split <;> rfl
  rw [parseEvent_colon noColon, number, rest]

/-- What is taken for an event is one. -/
theorem isEvent_of_parseEvent {erange : Bool} {event : Bytes} {ev : RawEvent}
    (parsed : parseEvent erange event = some ev) :
    ∃ N : Numeral, IsEvent event ev.evPath N ev.json := by
  by_cases found : colon ∈ event
  · obtain ⟨P, curr, rfl, noColon⟩ := List.eq_append_cons_of_mem found
    rcases exists_numeral curr with none | ⟨N, rest, rfl, stops⟩
    · rw [parseEvent_noDigits noColon erange none] at parsed
      cases parsed
    · cases rest with
      | nil =>
        rw [parseEvent_bare noColon erange N] at parsed
        cases parsed
      | cons c json =>
        rw [parseEvent_number noColon erange N c json stops] at parsed
        obtain ⟨⟨rfl, fits, -⟩, ⟨⟩⟩ := Option.ite_none_right_eq_some.mp parsed
        exact ⟨N, rfl, noColon, fits⟩
  · rw [parseEvent_noColon found erange] at parsed
    cases parsed

/-! ### `protocol_raw_handle` -/

/-- What a call of `protocol_raw_handle` does: what it gives to `evs_route`, why
it closes the client, and what it returns. -/
structure RawHandled where
  routed : Option RawEvent
  closed : Option CloseReason
  status : ProtocolStatus
deriving DecidableEq, Repr

namespace RawHandled

def taken (ev : RawEvent) : RawHandled where
  routed := some ev
  closed := none
  status := .ok

def refused : RawHandled where
  routed := none
  closed := some .invalidEventFormat
  status := .fatal

end RawHandled

/-- `protocol_raw_handle` -/
def protocolRawHandle (erange : Bool) (event : Bytes) : RawHandled :=
  match parseEvent erange event with
  | some ev => .taken ev
  | none => .refused

/-- The reaction of an `App` is that of its handlers, or of the close. -/
theorem App.rawHandle_handled {α : Type} (app : App α) (state : α) (event : Bytes) :
    let handled := protocolRawHandle (app.erange state) event
    (app.rawHandle state event).status = handled.status ∧
      match handled.routed with
      | some ev =>
        ((app.rawHandle state event).state, (app.rawHandle state event).acts,
          (app.rawHandle state event).left) = app.evsRoute state ev
      | none => (app.rawHandle state event).acts = (handled.closed.map PeerAct.close).toList := by
  simp only [App.rawHandle, protocolRawHandle]
  cases parseEvent (app.erange state) event with
  | none => exact ⟨rfl, rfl⟩
  | some ev => exact ⟨rfl, rfl⟩

/-- The event grammar: with `errno` not `ERANGE` on entry, an event is routed with
its path, its number modulo `2 ^ 64` and its JSON, and any other string closes
the client. -/
theorem event_grammar (event : Bytes) :
    (((protocolRawHandle false event).routed.isSome ∧
        (protocolRawHandle false event).status = .ok) ↔ ∃ P N J, IsEvent event P N J) ∧
      (∀ P N J, IsEvent event P N J →
        protocolRawHandle false event =
          .taken { evPath := P, clientCb := UInt64.ofInt N.value, json := J }) ∧
      ((¬ ∃ P N J, IsEvent event P N J) → protocolRawHandle false event = .refused) := by
  -- an event parses back to its parts
  have taken : ∀ P N J, IsEvent event P N J → protocolRawHandle false event =
      .taken { evPath := P, clientCb := UInt64.ofInt N.value, json := J } := by
    intro P N J is
    have parsed := parseEvent_isEvent is false
    rw [if_neg fun last => Bool.noConfusion last.2] at parsed
    rw [protocolRawHandle, parsed]
    rfl
  -- what parses is an event
  have refused : (¬ ∃ P N J, IsEvent event P N J) → protocolRawHandle false event = .refused := by
    intro other
    cases parsed : parseEvent false event with
    | none => rw [protocolRawHandle, parsed]
    | some ev =>
      obtain ⟨N, is⟩ := isEvent_of_parseEvent parsed
      exact absurd ⟨ev.evPath, N, ev.json, is⟩ other
  refine ⟨⟨?_, ?_⟩, taken, refused⟩
  · rintro ⟨routed, -⟩
    by_contra other
    rw [refused other] at routed
    cases routed
  · rintro ⟨P, N, J, is⟩
    rw [taken P N J is]
    exact ⟨rfl, rfl⟩

example : protocolRawHandle false (str "/a: -1=:=") =
    .taken { evPath := str "/a", clientCb := 0xffffffffffffffff, json := str ":=" } := by decide

end QuickIO
