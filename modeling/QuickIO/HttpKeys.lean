import Mathlib.Data.Nat.Digits.Lemmas
import QuickIO.Http

/-!
# The keys of sessions

A URL names its session by the 32 hexadecimal digits behind `sid=`, which are
packed into 128 bits, the first digit lowest. Two keys are equal only if their
digits are.
-/
namespace QuickIO

/-! ### Where the digits are -/

theorem strstr_eq_some {needle url found : Bytes} (here : strstr needle url = some found) :
    ∃ before after, found = needle ++ after ∧ url = before ++ found := by
  induction url with
  | nil =>
    simp only [strstr] at here
    obtain ⟨rfl, ⟨⟩⟩ := Option.ite_none_right_eq_some.mp here
    exact ⟨[], [], rfl, rfl⟩
  | cons c rest ih =>
    simp only [strstr] at here
    split at here
    next starts =>
      obtain ⟨after, whole⟩ := List.isPrefixOf_iff_prefix.mp starts
      cases here
      exact ⟨[], after, whole.symm, rfl⟩
    next =>
      obtain ⟨before, after, found, whole⟩ := ih here
      exact ⟨c :: before, after, found, congrArg (c :: ·) whole⟩

theorem strstr_isSome_iff (needle url : Bytes) : (strstr needle url).isSome ↔ needle <:+: url := by
  constructor
  · intro there
    obtain ⟨found, here⟩ := Option.isSome_iff_exists.mp there
    obtain ⟨before, after, rfl, rfl⟩ := strstr_eq_some here
    exact ⟨before, after, List.append_assoc before needle after⟩
  · intro infix_
    induction url with
    | nil =>
      rw [List.infix_nil.mp infix_]
      rfl
    | cons c rest ih =>
      simp only [strstr]
      split
      next => rfl
      next later =>
        rcases List.infix_cons_iff.mp infix_ with starts | inside
        · exact absurd (List.isPrefixOf_iff_prefix.mpr starts) later
        · exact ih inside

/-- The 32 bytes behind the first `sid=` of a URL, or as many as there are. -/
def sidDigits (url : Bytes) : Option Bytes :=
  (strstr (str "sid=") url).map fun sid => (sid.drop 4).take 32

theorem sidDigits_eq_some {url digits : Bytes} (here : sidDigits url = some digits) :
    ∃ before after, url = before ++ (str "sid=" ++ (digits ++ after)) := by
  obtain ⟨found, there, rfl⟩ := Option.map_eq_some_iff.mp here
  obtain ⟨before, after, rfl, rfl⟩ := strstr_eq_some there
  refine ⟨before, after.drop 32, ?_⟩
  have behind : (str "sid=" ++ after).drop 4 = after := List.drop_left' rfl
  rw [behind, List.take_append_drop]

/-! ### What the digits come to -/

/-- `g_ascii_isxdigit` -/
def isXdigit (c : UInt8) : Bool := (xdigitValue c).isSome

/-- The digit of a value, in lower case. -/
def lowerXdigit (v : Nat) : UInt8 :=
  if v < 10 then 0x30 + UInt8.ofNat v else 0x61 + UInt8.ofNat (v - 10)

theorem xdigitValue_cases {c : UInt8} {v : Nat} (value : xdigitValue c = some v) :
    v < 16 ∧ toLower c = lowerXdigit v ∧ xdigitValue (toLower c) = some v := by
  have every : ∀ n < 256, ∀ v ∈ xdigitValue (UInt8.ofNat n), v < 16 ∧
      toLower (UInt8.ofNat n) = lowerXdigit v ∧
        xdigitValue (toLower (UInt8.ofNat n)) = some v := by decide +kernel
  have this := every c.toNat c.toNat_lt v
  rw [UInt8.ofNat_toNat] at this
  exact this value

/-- The values of the digits, one each. -/
theorem xdigits_eq_some_iff (n : Nat) (sid : Bytes) (k : Nat) :
    xdigits n sid = some k ↔ ∃ vs : List Nat,
      (sid.take n).map xdigitValue = vs.map some ∧ vs.length = n ∧ k = Nat.ofDigits 16 vs := by
  induction n generalizing sid k with
  | zero =>
    constructor
    · rintro ⟨⟩
      exact ⟨[], rfl, rfl, rfl⟩
    · rintro ⟨vs, -, none, rfl⟩
      rw [List.length_eq_zero_iff.mp none]
      rfl
  | succ n ih =>
    cases sid with
    | nil =>
      simp only [xdigits, List.take_nil, List.map_nil, reduceCtorEq, false_iff]
      rintro ⟨vs, none, long, -⟩
      rw [List.map_eq_nil_iff.mp none.symm] at long
      cases long
    | cons c rest =>
      simp only [xdigits, List.take_succ_cons, List.map_cons]
      cases value : xdigitValue c with
      | none =>
        -- A character that is no digit: neither side has a value for it.
        simp only [reduceCtorEq, false_iff]
        rintro ⟨vs, same, -, -⟩
        cases vs with
        | nil => cases same
        | cons v vs => cases (List.cons.inj same).1
      | some v =>
        rw [Option.map_eq_some_iff]
        constructor
        · -- The low digit of the key is the first character.
          rintro ⟨uuid, rest_, rfl⟩
          obtain ⟨vs, same, long, rfl⟩ := (ih rest uuid).mp rest_
          exact ⟨v :: vs, congrArg (some v :: ·) same, congrArg (· + 1) long,
            Nat.ofDigits_cons.symm⟩
        · rintro ⟨vs, same, long, rfl⟩
          cases vs with
          | nil => cases long
          | cons w vs =>
            obtain ⟨first, later⟩ := List.cons.inj same
            cases first
            exact ⟨Nat.ofDigits 16 vs, (ih rest _).mpr ⟨vs, later, Nat.succ.inj long, rfl⟩,
              Nat.ofDigits_cons.symm⟩

theorem values_cases {digits : Bytes} {vs : List Nat}
    (values : digits.map xdigitValue = vs.map some) :
    (∀ v ∈ vs, v < 16) ∧ digits.map toLower = vs.map lowerXdigit ∧
      (digits.map toLower).map xdigitValue = vs.map some := by
  induction digits generalizing vs with
  | nil =>
    rw [List.map_eq_nil_iff.mp values.symm]
    exact ⟨by simp, rfl, rfl⟩
  | cons d digits ih =>
    cases vs with
    | nil => cases values
    | cons v vs =>
      obtain ⟨value, values⟩ := List.cons.inj values
      obtain ⟨small, lower, again⟩ := xdigitValue_cases value
      obtain ⟨smalls, lowers, agains⟩ := ih values
      refine ⟨?_, ?_, ?_⟩
      · intro w member
        rcases List.mem_cons.mp member with rfl | later
        · exact small
        · exact smalls w later
      · rw [List.map_cons, List.map_cons, lower, lowers]
      · rw [List.map_cons, List.map_cons, again, agains, List.map_cons]

/-! ### The key of a URL -/

theorem urlSid_eq_some_iff (url : Bytes) (k : Nat) :
    urlSid url = some k ↔ ∃ digits vs, sidDigits url = some digits ∧
      digits.map xdigitValue = vs.map some ∧ vs.length = 32 ∧ k = Nat.ofDigits 16 vs := by
  rw [urlSid, sidDigits]
  cases strstr (str "sid=") url with
  | none => simp
  | some sid =>
    simp only [Option.map_some, Option.some.injEq]
    rw [xdigits_eq_some_iff]
    constructor
    · rintro ⟨vs, values, long, value⟩
      exact ⟨_, vs, rfl, values, long, value⟩
    · rintro ⟨_, vs, rfl, values, long, value⟩
      exact ⟨vs, values, long, value⟩

/-- A key is taken if and only if 32 hexadecimal digits follow. -/
theorem urlSid_isSome_iff (url : Bytes) : (urlSid url).isSome ↔
    ∃ digits, sidDigits url = some digits ∧ digits.length = 32 ∧ ∀ d ∈ digits, isXdigit d := by
  constructor
  · intro taken
    obtain ⟨k, key⟩ := Option.isSome_iff_exists.mp taken
    obtain ⟨digits, vs, here, values, long, -⟩ := (urlSid_eq_some_iff url k).mp key
    have length := congrArg List.length values
    rw [List.length_map, List.length_map, long] at length
    refine ⟨digits, here, length, ?_⟩
    intro d member
    have value : xdigitValue d ∈ vs.map some := values ▸ List.mem_map_of_mem member
    obtain ⟨v, -, same⟩ := List.mem_map.mp value
    rw [isXdigit, ← same]
    rfl
  · rintro ⟨digits, here, long, all⟩
    -- every digit has a value
    have values : digits.map xdigitValue =
        (digits.map fun d => (xdigitValue d).getD 0).map some := by
      rw [List.map_map]
      apply List.map_congr_left
      intro d member
      obtain ⟨v, value⟩ := Option.isSome_iff_exists.mp (all d member)
      rw [Function.comp_apply, value]
      rfl
    have length : (digits.map fun d => (xdigitValue d).getD 0).length = 32 := by
      rw [List.length_map, long]
    exact Option.isSome_iff_exists.mpr
      ⟨_, (urlSid_eq_some_iff url _).mpr ⟨digits, _, here, values, length, rfl⟩⟩

theorem urlSid_lt {url : Bytes} {k : Nat} (key : urlSid url = some k) : k < 2 ^ 128 := by
  obtain ⟨digits, vs, -, values, long, rfl⟩ := (urlSid_eq_some_iff url k).mp key
  have small := Nat.ofDigits_lt_base_pow_length (by decide) (values_cases values).1
  rw [long] at small
  exact small

/-- The digits of two URLs are equal but for their case. -/
def SameDigits (url url' : Bytes) : Prop :=
  (sidDigits url).map (·.map toLower) = (sidDigits url').map (·.map toLower)

/-- Two keys are equal if and only if their digits are, ignoring case. -/
theorem urlSid_inj {url url' : Bytes} {k k' : Nat} (key : urlSid url = some k)
    (key' : urlSid url' = some k') : k = k' ↔ SameDigits url url' := by
  obtain ⟨digits, vs, here, values, long, rfl⟩ := (urlSid_eq_some_iff url k).mp key
  obtain ⟨digits', vs', here', values', long', rfl⟩ := (urlSid_eq_some_iff url' k').mp key'
  obtain ⟨small, lower, again⟩ := values_cases values
  obtain ⟨small', lower', again'⟩ := values_cases values'
  rw [SameDigits, here, here', Option.map_some, Option.map_some, Option.some.injEq]
  constructor
  · intro same
    have equal : vs = vs' := Nat.ofDigits_inj_of_len_eq (by decide) (long.trans long'.symm)
      small small' same
    rw [lower, lower', equal]
  · intro same
    rw [same, again'] at again
    have equal : vs' = vs := List.map_injective_iff.mpr (Option.some_injective _) again
    rw [equal]

/-! ### The loop on 128 bits -/

/-- The loop of `_get_surrogate` from digit `i` on, for at most `n` digits: where
it stops, and `uuid` there. -/
def packSid : Nat → Nat → BitVec 128 → Bytes → Nat × BitVec 128
  | 0, i, uuid, _ => (i, uuid)
  | _ + 1, i, uuid, [] => (i, uuid)
  | n + 1, i, uuid, c :: rest =>
    match xdigitValue c with
    | none => (i, uuid)
    | some v => packSid n (i + 1) (uuid ||| BitVec.ofNat 128 v <<< (i * 4)) rest

/-- A digit is written above the bits there are. -/
theorem pack_toNat {i v : Nat} {uuid : BitVec 128} (room : i < 32) (small : v < 16)
    (below : uuid.toNat < 16 ^ i) :
    (uuid ||| BitVec.ofNat 128 v <<< (i * 4)).toNat = uuid.toNat + 16 ^ i * v := by
  have base : (16 : Nat) ^ i = 2 ^ (i * 4) := by
    rw [Nat.mul_comm, Nat.pow_mul]
  have fits : v * 2 ^ (i * 4) < 2 ^ 128 := by
    have digit : v * 2 ^ (i * 4) < 2 ^ 4 * 2 ^ (i * 4) :=
      Nat.mul_lt_mul_of_pos_right small (Nat.two_pow_pos _)
    have inside : (2 : Nat) ^ 4 * 2 ^ (i * 4) ≤ 2 ^ 128 := by
      rw [← Nat.pow_add]
      exact Nat.pow_le_pow_right (by decide) (by omega)
    exact Nat.lt_of_lt_of_le digit inside
  have whole : v < 2 ^ 128 := Nat.lt_of_lt_of_le small (by decide)
  rw [base] at below ⊢
  rw [BitVec.toNat_or, BitVec.toNat_shiftLeft, BitVec.toNat_ofNat, Nat.mod_eq_of_lt whole,
    Nat.shiftLeft_eq, Nat.mod_eq_of_lt fits, Nat.or_comm, ← Nat.shiftLeft_eq,
    ← Nat.shiftLeft_add_eq_or_of_lt below, Nat.shiftLeft_eq]
  ring

theorem packSid_eq (n i : Nat) (uuid : BitVec 128) (sid : Bytes) (room : i + n ≤ 32)
    (below : uuid.toNat < 16 ^ i) :
    (xdigits n sid = none → (packSid n i uuid sid).1 < i + n) ∧
      ∀ k, xdigits n sid = some k → (packSid n i uuid sid).1 = i + n ∧
        (packSid n i uuid sid).2.toNat = uuid.toNat + 16 ^ i * k := by
  induction n generalizing i uuid sid with
  | zero =>
    refine ⟨by rintro ⟨⟩, ?_⟩
    rintro k ⟨⟩
    exact ⟨rfl, rfl⟩
  | succ n ih =>
    cases sid with
    -- The id ends here: the loop stops short of `i + n`.
    | nil => exact ⟨fun _ => Nat.lt_add_of_pos_right n.succ_pos, by rintro k ⟨⟩⟩
    | cons c rest =>
      simp only [xdigits, packSid]
      cases value : xdigitValue c with
      | none => exact ⟨fun _ => Nat.lt_add_of_pos_right n.succ_pos, by rintro k ⟨⟩⟩
      | some v =>
        have small := (xdigitValue_cases value).1
        have packed := pack_toNat (by omega) small below
        -- The digit fills the four bits that follow the `i` digits so far.
        have below' : (uuid ||| BitVec.ofNat 128 v <<< (i * 4)).toNat < 16 ^ (i + 1) := by
          have digit : 16 ^ i * v ≤ 16 ^ i * 15 := Nat.mul_le_mul_left _ (Nat.le_of_lt_succ small)
          rw [packed, Nat.pow_succ]
          omega
        have later : i + 1 + n = i + (n + 1) := by omega
        obtain ⟨short, whole⟩ := ih (i + 1) _ rest (by omega) below'
        rw [later] at short whole
        constructor
        · intro none
          exact short (Option.map_eq_none_iff.mp none)
        · intro k all
          obtain ⟨uuid', rest_, rfl⟩ := Option.map_eq_some_iff.mp all
          obtain ⟨stops, value⟩ := whole uuid' rest_
          refine ⟨stops, ?_⟩
          rw [value, packed, Nat.pow_succ]
          ring

/-- The key is what the loop leaves on its 128 bits, if it reads 32 digits. -/
theorem urlSid_eq_packSid (url : Bytes) :
    urlSid url = (strstr (str "sid=") url).bind fun sid =>
      let (i, uuid) := packSid 32 0 0 (sid.drop 4)
      if i = 32 then some uuid.toNat else none := by
  rw [urlSid]
  cases strstr (str "sid=") url with
  | none => rfl
  | some sid =>
    obtain ⟨short, whole⟩ := packSid_eq 32 0 0 (sid.drop 4) (by decide) (by decide)
    dsimp only [Option.bind_some]
    cases digits : xdigits 32 (sid.drop 4) with
    | none => rw [if_neg (short digits).ne]
    | some k =>
      obtain ⟨stops, value⟩ := whole k digits
      rw [if_pos stops, value]
      simp

end QuickIO
