import Mathlib.Data.List.TakeWhile
import QuickIO.Lib.JsonString

/-!
# JSON texts

Values, the texts that spell them, and a decoder. A text spells one value, which the decoder
finds: `decode_document`.
-/
namespace QuickIO.Lib

/-- A JSON value. A number is kept as it is written, a string as its bytes. -/
inductive Json where
  | null
  | bool (b : Bool)
  | number (text : List UInt8)
  | string (bytes : List UInt8)
  | array (items : List Json)
  | object (members : List (List UInt8 × Json))

namespace Json

/-- The bytes of an ASCII word. -/
def word (s : String) : List UInt8 := s.toList.map fun c => UInt8.ofNat c.toNat

/-! ### Bytes -/

/-- Space, tab, line feed and carriage return. -/
def IsSpace (c : UInt8) : Prop := c = 0x20 ∨ c = 0x09 ∨ c = 0x0a ∨ c = 0x0d

instance (c : UInt8) : Decidable (IsSpace c) := inferInstanceAs (Decidable (_ ∨ _ ∨ _ ∨ _))

def IsDigit (c : UInt8) : Prop := 0x30 ≤ c ∧ c ≤ 0x39

instance (c : UInt8) : Decidable (IsDigit c) := inferInstanceAs (Decidable (_ ∧ _))

/-- What `null`, `true`, `false` and the numbers are written with. -/
def IsWord (c : UInt8) : Prop :=
  IsDigit c ∨ c = 0x2b ∨ c = 0x2d ∨ c = 0x2e ∨ c = 0x45 ∨ (0x61 ≤ c ∧ c ≤ 0x7a)

instance (c : UInt8) : Decidable (IsWord c) :=
  inferInstanceAs (Decidable (_ ∨ _ ∨ _ ∨ _ ∨ _ ∨ _))

/-- Only white space. -/
def Space (w : List UInt8) : Prop := ∀ c ∈ w, IsSpace c

theorem Space.nil : Space [] := List.forall_mem_nil IsSpace

def skipSpace (bs : List UInt8) : List UInt8 := bs.dropWhile fun c => IsSpace c

theorem skipSpace_append {w : List UInt8} (space : Space w) (bs : List UInt8) :
    skipSpace (w ++ bs) = skipSpace bs :=
  List.dropWhile_append_of_pos fun c member => decide_eq_true (space c member)

theorem skipSpace_cons {c : UInt8} (visible : ¬IsSpace c) (bs : List UInt8) :
    skipSpace (c :: bs) = c :: bs :=
  List.dropWhile_cons_of_neg (by simpa using visible)

/-! ### Numbers -/

/-- What a byte is to a number. -/
inductive Mark where
  | zero
  | digit
  | plus
  | minus
  | point
  | exponent
  | other
deriving DecidableEq

def markOf (c : UInt8) : Mark :=
  if c = 0x30 then .zero
  else if IsDigit c then .digit
  else if c = 0x2b then .plus
  else if c = 0x2d then .minus
  else if c = 0x2e then .point
  else if c = 0x45 ∨ c = 0x65 then .exponent
  else .other

/-- How far a number has been read. -/
inductive NumberState where
  | start
  | minus
  | zero
  | digits
  | point
  | fraction
  | mark
  | sign
  | exponent
deriving DecidableEq

/-- The next byte of a number. -/
def NumberState.next : NumberState → Mark → Option NumberState
  | start, .minus => some minus
  | start, .zero => some zero
  | start, .digit => some digits
  | minus, .zero => some zero
  | minus, .digit => some digits
  -- no digit follows a leading zero
  | zero, .point => some point
  | zero, .exponent => some mark
  | digits, .zero => some digits
  | digits, .digit => some digits
  | digits, .point => some point
  | digits, .exponent => some mark
  | point, .zero => some fraction
  | point, .digit => some fraction
  | fraction, .zero => some fraction
  | fraction, .digit => some fraction
  | fraction, .exponent => some mark
  | mark, .plus => some sign
  | mark, .minus => some sign
  | mark, .zero => some exponent
  | mark, .digit => some exponent
  | sign, .zero => some exponent
  | sign, .digit => some exponent
  | exponent, .zero => some exponent
  | exponent, .digit => some exponent
  | _, _ => none

/-- A number may end here. -/
def NumberState.final : NumberState → Bool
  | zero => true
  | digits => true
  | fraction => true
  | exponent => true
  | _ => false

/-- Read on from a state. -/
def readNumber (s : NumberState) (t : List UInt8) : Option NumberState :=
  (t.map markOf).foldlM NumberState.next s

/-- The text of a number. -/
def isNumber (t : List UInt8) : Bool := (readNumber .start t).any NumberState.final

@[simp] theorem readNumber_nil (s : NumberState) : readNumber s [] = some s := rfl

@[simp] theorem readNumber_cons (s : NumberState) (c : UInt8) (t : List UInt8) :
    readNumber s (c :: t) = (s.next (markOf c)).bind fun s => readNumber s t := rfl

theorem readNumber_append (s : NumberState) (t u : List UInt8) :
    readNumber s (t ++ u) = (readNumber s t).bind fun s => readNumber s u := by
  rw [readNumber, List.map_append, List.foldlM_append]
  rfl

theorem isWord_of_mark {c : UInt8} (mark : markOf c ≠ .other) : IsWord c := by
  by_contra outside
  simp only [IsWord, not_or] at outside
  obtain ⟨digit, plus, minus, point, large, letter⟩ := outside
  have zero : c ≠ 0x30 := by
    rintro rfl
    exact digit (by decide)
  have small : c ≠ 0x65 := by
    rintro rfl
    exact letter (by decide)
  apply mark
  simp only [markOf, zero, digit, plus, minus, point, large, small, if_false, or_self]

/-- Every byte of a number is one of a word. -/
theorem readNumber_word (s s' : NumberState) (t : List UInt8)
    (read : readNumber s t = some s') : ∀ c ∈ t, IsWord c := by
  induction t generalizing s with
  | nil => exact List.forall_mem_nil _
  | cons c t ih =>
    rw [readNumber_cons, Option.bind_eq_some_iff] at read
    obtain ⟨s₁, next, rest⟩ := read
    intro d member
    rcases List.mem_cons.mp member with rfl | later
    · apply isWord_of_mark
      intro other
      have refused : s.next .other = none := by cases s <;> rfl
      rw [other, refused] at next
      cases next
    · exact ih s₁ rest d later

/-! ### Texts -/

/-- What a text can spell: a value, or what is between the brackets of a container that is
not empty. -/
inductive Shape where
  | value (v : Json)
  | elements (items : List Json)
  | members (members : List (List UInt8 × Json))

/-- The grammar. -/
inductive Text : Shape → List UInt8 → Prop
  | null : Text (.value .null) (word "null")
  | true : Text (.value (.bool true)) (word "true")
  | false : Text (.value (.bool false)) (word "false")
  | number (t : List UInt8) (number : isNumber t = true) : Text (.value (.number t)) t
  | string (cs : List StringChar) : Text (.value (.string (decodeChars cs))) (literal cs)
  | emptyArray (w : List UInt8) (space : Space w) :
      Text (.value (.array [])) (0x5b :: (w ++ [0x5d]))
  | array (items : List Json) (t : List UInt8) (inside : Text (.elements items) t) :
      Text (.value (.array items)) (0x5b :: (t ++ [0x5d]))
  | emptyObject (w : List UInt8) (space : Space w) :
      Text (.value (.object [])) (0x7b :: (w ++ [0x7d]))
  | object (members : List (List UInt8 × Json)) (t : List UInt8)
      (inside : Text (.members members) t) :
      Text (.value (.object members)) (0x7b :: (t ++ [0x7d]))
  | element (v : Json) (w t w' : List UInt8) (before : Space w) (value : Text (.value v) t)
      (after : Space w') : Text (.elements [v]) (w ++ (t ++ w'))
  | elements (v : Json) (w t w' : List UInt8) (items : List Json) (ts : List UInt8)
      (before : Space w) (value : Text (.value v) t) (after : Space w')
      (more : Text (.elements items) ts) :
      Text (.elements (v :: items)) (w ++ (t ++ (w' ++ 0x2c :: ts)))
  | member (key : List StringChar) (v : Json) (w u w' t w'' : List UInt8) (before : Space w)
      (colon : Space u) (between : Space w') (value : Text (.value v) t) (after : Space w'') :
      Text (.members [(decodeChars key, v)])
        (w ++ (literal key ++ (u ++ 0x3a :: (w' ++ (t ++ w'')))))
  | members (key : List StringChar) (v : Json) (w u w' t w'' : List UInt8)
      (ms : List (List UInt8 × Json)) (ts : List UInt8) (before : Space w) (colon : Space u)
      (between : Space w') (value : Text (.value v) t) (after : Space w'')
      (more : Text (.members ms) ts) :
      Text (.members ((decodeChars key, v) :: ms))
        (w ++ (literal key ++ (u ++ 0x3a :: (w' ++ (t ++ (w'' ++ 0x2c :: ts))))))

/-- A value with white space around it. -/
def Document (v : Json) (bs : List UInt8) : Prop :=
  ∃ w t w', Space w ∧ Text (.value v) t ∧ Space w' ∧ bs = w ++ (t ++ w')

/-- A member whose name needs no escapes. -/
theorem Text.plainMember {name bs : List UInt8} {v : Json} (plain : ∀ c ∈ name, IsPlain c)
    (document : Document v bs) :
    Text (.members [(name, v)]) (0x22 :: (name ++ 0x22 :: 0x3a :: bs)) := by
  obtain ⟨w, t, w', before, value, after, rfl⟩ := document
  have text := Text.member (plainChars name plain) v [] [] w t w' .nil .nil before value after
  rw [decodeChars_plainChars, literal, charsText_plainChars] at text
  simpa using text

theorem Text.plainMembers {name bs ts : List UInt8} {v : Json} {ms : List (List UInt8 × Json)}
    (plain : ∀ c ∈ name, IsPlain c) (document : Document v bs) (more : Text (.members ms) ts) :
    Text (.members ((name, v) :: ms)) (0x22 :: (name ++ 0x22 :: 0x3a :: (bs ++ 0x2c :: ts))) := by
  obtain ⟨w, t, w', before, value, after, rfl⟩ := document
  have text := Text.members (plainChars name plain) v [] [] w t w' ms ts .nil .nil before value
    after more
  rw [decodeChars_plainChars, literal, charsText_plainChars] at text
  simpa using text

/-! ### The decoder -/

/-- A value that is one word. -/
def ofWord (t : List UInt8) : Option Json :=
  if t = word "null" then some .null
  else if t = word "true" then some (.bool true)
  else if t = word "false" then some (.bool false)
  else if isNumber t then some (.number t)
  else none

mutual

/-- The value at the start of the bytes, and what is behind it. -/
def parseValue : Nat → List UInt8 → Option (Json × List UInt8)
  | 0, _ => none
  | fuel + 1, bs =>
    match skipSpace bs with
    | 0x22 :: rest => (scanChars rest).map fun (cs, rest) => (.string (decodeChars cs), rest)
    | 0x5b :: rest =>
      match skipSpace rest with
      | 0x5d :: rest => some (.array [], rest)
      | _ => (parseElements fuel rest).map fun (items, rest) => (.array items, rest)
    | 0x7b :: rest =>
      match skipSpace rest with
      | 0x7d :: rest => some (.object [], rest)
      | _ => (parseMembers fuel rest).map fun (members, rest) => (.object members, rest)
    | bs =>
      (ofWord (bs.takeWhile fun c => IsWord c)).map fun v => (v, bs.dropWhile fun c => IsWord c)

/-- Elements and the closing bracket. -/
def parseElements : Nat → List UInt8 → Option (List Json × List UInt8)
  | 0, _ => none
  | fuel + 1, bs =>
    match parseValue fuel bs with
    | none => none
    | some (v, rest) =>
      match skipSpace rest with
      | 0x2c :: rest => (parseElements fuel rest).map fun (items, rest) => (v :: items, rest)
      | 0x5d :: rest => some ([v], rest)
      | _ => none

/-- Members and the closing brace. -/
def parseMembers : Nat → List UInt8 → Option (List (List UInt8 × Json) × List UInt8)
  | 0, _ => none
  | fuel + 1, bs =>
    match skipSpace bs with
    | 0x22 :: rest =>
      match scanChars rest with
      | none => none
      | some (key, rest) =>
        match skipSpace rest with
        | 0x3a :: rest =>
          match parseValue fuel rest with
          | none => none
          | some (v, rest) =>
            match skipSpace rest with
            | 0x2c :: rest =>
              (parseMembers fuel rest).map fun (ms, rest) => ((decodeChars key, v) :: ms, rest)
            | 0x7d :: rest => some ([(decodeChars key, v)], rest)
            | _ => none
        | _ => none
    | _ => none

end

/-- The value of a document. -/
def decode (bs : List UInt8) : Option Json :=
  match parseValue (bs.length + 1) bs with
  | none => none
  | some (v, rest) => if skipSpace rest = [] then some v else none

/-! ### The decoder reads what was written -/

/-- Nothing follows that a word would go on with. -/
def Ends (rest : List UInt8) : Prop := ∀ c, rest.head? = some c → ¬IsWord c

/-- The parser for a shape reads a text of it. -/
def Shape.Read : Shape → List UInt8 → Prop
  | .value v, t => ∀ fuel rest, t.length < fuel → Ends rest →
      parseValue fuel (t ++ rest) = some (v, rest)
  | .elements items, t => ∀ fuel rest, t.length + 1 < fuel →
      parseElements fuel (t ++ 0x5d :: rest) = some (items, rest)
  | .members ms, t => ∀ fuel rest, t.length + 1 < fuel →
      parseMembers fuel (t ++ 0x7d :: rest) = some (ms, rest)

theorem isNumber_word {t : List UInt8} (number : isNumber t = true) :
    t ≠ [] ∧ ∀ c ∈ t, IsWord c := by
  obtain ⟨s, read, final⟩ := (Option.any_eq_true _ _).mp number
  refine ⟨?_, readNumber_word _ s t read⟩
  rintro rfl
  cases read
  cases final

theorem IsWord.visible {c : UInt8} (word : IsWord c) : ¬IsSpace c := by
  rintro (rfl | rfl | rfl | rfl) <;> exact absurd word (by decide)

theorem Ends.dropWhile {rest : List UInt8} (ends : Ends rest) :
    rest.takeWhile (fun c => IsWord c) = [] ∧ rest.dropWhile (fun c => IsWord c) = rest := by
  cases rest with
  | nil => exact ⟨rfl, rfl⟩
  | cons c rest =>
    have other := ends c rfl
    simp [other]

theorem parseValue_space {w : List UInt8} (space : Space w) (fuel : Nat) (bs : List UInt8) :
    parseValue fuel (w ++ bs) = parseValue fuel bs := by
  cases fuel with
  | zero => rfl
  | succ fuel => rw [parseValue, parseValue, skipSpace_append space]

/-- A word that is a value. -/
theorem read_word {v : Json} {t : List UInt8} (value : ofWord t = some v) (filled : t ≠ [])
    (inside : ∀ c ∈ t, IsWord c) : Shape.Read (.value v) t := by
  intro fuel rest enough ends
  obtain ⟨fuel, rfl⟩ := Nat.exists_eq_succ_of_ne_zero (Nat.ne_zero_of_lt enough)
  have word : ∀ c ∈ t, decide (IsWord c) = true := fun c member => decide_eq_true (inside c member)
  have taken : (t ++ rest).takeWhile (fun c => IsWord c) = t := by
    rw [List.takeWhile_append_of_pos word, ends.dropWhile.1, List.append_nil]
  have dropped : (t ++ rest).dropWhile (fun c => IsWord c) = rest := by
    rw [List.dropWhile_append_of_pos word, ends.dropWhile.2]
  obtain ⟨c, u, rfl⟩ := List.exists_cons_of_ne_nil filled
  have first := inside c List.mem_cons_self
  have skipped : skipSpace (c :: u ++ rest) = c :: u ++ rest := skipSpace_cons first.visible _
  -- a word begins neither a string nor a container
  have other : ∀ d, ¬IsWord d → ∀ bs, c :: u ++ rest = d :: bs → False := by
    intro d notWord bs same
    exact notWord ((List.cons.inj same).1 ▸ first)
  rw [parseValue, skipped]
  split
  next same => exact (other _ (by decide) _ same).elim
  next same => exact (other _ (by decide) _ same).elim
  next same => exact (other _ (by decide) _ same).elim
  next => rw [taken, dropped, value]; rfl

theorem ofWord_number {t : List UInt8} (number : isNumber t = true) :
    ofWord t = some (.number t) := by
  have noWord : ∀ w, isNumber w = false → t ≠ w := by
    rintro w refused rfl
    rw [number] at refused
    cases refused
  rw [ofWord, if_neg (noWord _ (by decide)), if_neg (noWord _ (by decide)),
    if_neg (noWord _ (by decide)), if_pos number]

/-- The first byte of a value. -/
theorem Text.head {v : Json} {t : List UInt8} (text : Text (.value v) t) :
    ∃ c u, t = c :: u ∧ ¬IsSpace c ∧ c ≠ 0x5d := by
  cases text with
  | null => exact ⟨_, _, rfl, by decide, by decide⟩
  | true => exact ⟨_, _, rfl, by decide, by decide⟩
  | false => exact ⟨_, _, rfl, by decide, by decide⟩
  | number t number =>
    obtain ⟨filled, inside⟩ := isNumber_word number
    obtain ⟨c, u, rfl⟩ := List.exists_cons_of_ne_nil filled
    have first := inside c List.mem_cons_self
    refine ⟨c, u, rfl, first.visible, ?_⟩
    rintro rfl
    exact absurd first (by decide)
  | string cs => exact ⟨_, _, rfl, by decide, by decide⟩
  | emptyArray w space => exact ⟨_, _, rfl, by decide, by decide⟩
  | array items t inside => exact ⟨_, _, rfl, by decide, by decide⟩
  | emptyObject w space => exact ⟨_, _, rfl, by decide, by decide⟩
  | object members t inside => exact ⟨_, _, rfl, by decide, by decide⟩

/-- Elements begin with a value, not with the closing bracket. -/
theorem Text.skip_elements {items : List Json} {t : List UInt8} (text : Text (.elements items) t)
    (rest : List UInt8) : ∃ c u, skipSpace (t ++ rest) = c :: u ∧ c ≠ 0x5d := by
  have begins : ∀ {v : Json} {w t : List UInt8}, Space w → Text (.value v) t → ∀ rest,
      ∃ c u, skipSpace (w ++ (t ++ rest)) = c :: u ∧ c ≠ 0x5d := by
    intro v w t space value rest
    obtain ⟨c, u, rfl, visible, other⟩ := value.head
    exact ⟨c, u ++ rest, by rw [skipSpace_append space]; exact skipSpace_cons visible _, other⟩
  cases text with
  | element v w t w' before value after =>
    simp only [List.append_assoc]
    exact begins before value _
  | elements v w t w' items ts before value after more =>
    simp only [List.append_assoc]
    exact begins before value _

/-- Members begin with a key. -/
theorem Text.skip_members {ms : List (List UInt8 × Json)} {t : List UInt8}
    (text : Text (.members ms) t) (rest : List UInt8) :
    ∃ u, skipSpace (t ++ rest) = 0x22 :: u := by
  have begins : ∀ {w : List UInt8}, Space w → ∀ (key : List StringChar) (rest : List UInt8),
      ∃ u, skipSpace (w ++ (literal key ++ rest)) = 0x22 :: u := by
    intro w space key rest
    rw [skipSpace_append space]
    exact ⟨_, skipSpace_cons (by decide) _⟩
  cases text with
  | member key v w u w' t w'' before =>
    simp only [List.append_assoc]
    exact begins before key _
  | members key v w u w' t w'' ms ts before =>
    simp only [List.append_assoc]
    exact begins before key _

/-- White space and a separator end a word. -/
theorem ends_space {w : List UInt8} (space : Space w) {d : UInt8} (separator : ¬IsWord d)
    (rest : List UInt8) : Ends (w ++ d :: rest) := by
  intro c head
  cases w with
  | nil =>
    cases head
    exact separator
  | cons e w =>
    cases head
    exact fun word => word.visible (space c List.mem_cons_self)

/-- A value between white space. -/
theorem read_between {v : Json} {w t w' : List UInt8} (before : Space w)
    (read : Shape.Read (.value v) t) (after : Space w') (d : UInt8) (separator : ¬IsWord d)
    (rest : List UInt8) (fuel : Nat) (enough : t.length < fuel) :
    parseValue fuel (w ++ (t ++ (w' ++ d :: rest))) = some (v, w' ++ d :: rest) := by
  rw [parseValue_space before]
  exact read fuel _ enough (ends_space after separator rest)

theorem skipSpace_separator {w : List UInt8} (space : Space w) {d : UInt8} (visible : ¬IsSpace d)
    (rest : List UInt8) : skipSpace (w ++ d :: rest) = d :: rest := by
  rw [skipSpace_append space, skipSpace_cons visible]

/-- Every text is read as what it spells. -/
theorem Text.read {s : Shape} {t : List UInt8} (text : Text s t) : s.Read t := by
  induction text with
  | null => exact read_word rfl (List.cons_ne_nil _ _) (by decide +kernel)
  | true => exact read_word rfl (List.cons_ne_nil _ _) (by decide +kernel)
  | false => exact read_word rfl (List.cons_ne_nil _ _) (by decide +kernel)
  | number t number =>
    obtain ⟨filled, inside⟩ := isNumber_word number
    exact read_word (ofWord_number number) filled inside
  | string cs =>
    intro fuel rest enough ends
    obtain ⟨fuel, rfl⟩ := Nat.exists_eq_succ_of_ne_zero (Nat.ne_zero_of_lt enough)
    have text : literal cs ++ rest = 0x22 :: (charsText cs ++ 0x22 :: rest) := by
      simp [literal]
    rw [text, parseValue, skipSpace_cons (by decide)]
    simp only [scanChars_charsText, Option.map_some]
  | emptyArray w space =>
    intro fuel rest enough ends
    obtain ⟨fuel, rfl⟩ := Nat.exists_eq_succ_of_ne_zero (Nat.ne_zero_of_lt enough)
    simp only [List.cons_append, List.append_assoc, List.nil_append]
    rw [parseValue, skipSpace_cons (by decide)]
    simp only [skipSpace_separator space (by decide : ¬IsSpace 0x5d)]
  | array items t inside ih =>
    intro fuel rest enough ends
    obtain ⟨fuel, rfl⟩ := Nat.exists_eq_succ_of_ne_zero (Nat.ne_zero_of_lt enough)
    obtain ⟨c, u, first, other⟩ := inside.skip_elements (0x5d :: rest)
    have read := ih fuel rest (by simp at enough; omega)
    simp only [List.cons_append, List.append_assoc, List.nil_append]
    rw [parseValue, skipSpace_cons (by decide)]
    simp only [first]
    split
    next same => exact absurd (List.cons.inj same).1 other
    next => rw [read]; rfl
  | emptyObject w space =>
    intro fuel rest enough ends
    obtain ⟨fuel, rfl⟩ := Nat.exists_eq_succ_of_ne_zero (Nat.ne_zero_of_lt enough)
    simp only [List.cons_append, List.append_assoc, List.nil_append]
    rw [parseValue, skipSpace_cons (by decide)]
    simp only [skipSpace_separator space (by decide : ¬IsSpace 0x7d)]
  | object members t inside ih =>
    intro fuel rest enough ends
    obtain ⟨fuel, rfl⟩ := Nat.exists_eq_succ_of_ne_zero (Nat.ne_zero_of_lt enough)
    obtain ⟨u, first⟩ := inside.skip_members (0x7d :: rest)
    have read := ih fuel rest (by simp at enough; omega)
    simp only [List.cons_append, List.append_assoc, List.nil_append]
    rw [parseValue, skipSpace_cons (by decide)]
    simp only [first, read]
    rfl
  | element v w t w' before value after ih =>
    intro fuel rest enough
    obtain ⟨fuel, rfl⟩ := Nat.exists_eq_succ_of_ne_zero (Nat.ne_zero_of_lt enough)
    have here := read_between before ih after 0x5d (by decide) rest fuel
      (by simp at enough; omega)
    simp only [List.append_assoc]
    rw [parseElements, here]
    simp only [skipSpace_separator after (by decide : ¬IsSpace 0x5d)]
  | elements v w t w' items ts before value after more ih later =>
    intro fuel rest enough
    obtain ⟨fuel, rfl⟩ := Nat.exists_eq_succ_of_ne_zero (Nat.ne_zero_of_lt enough)
    have here := read_between before ih after 0x2c (by decide) (ts ++ 0x5d :: rest)
      fuel (by simp at enough; omega)
    have others := later fuel rest (by simp at enough; omega)
    simp only [List.append_assoc, List.cons_append]
    rw [parseElements, here]
    simp only [skipSpace_separator after (by decide : ¬IsSpace 0x2c), others, Option.map_some]
  | member key v w u w' t w'' before colon between value after ih =>
    intro fuel rest enough
    obtain ⟨fuel, rfl⟩ := Nat.exists_eq_succ_of_ne_zero (Nat.ne_zero_of_lt enough)
    have here := read_between between ih after 0x7d (by decide) rest fuel
      (by simp at enough; omega)
    simp only [literal, List.append_assoc, List.cons_append, List.nil_append]
    rw [parseMembers, skipSpace_separator before (by decide)]
    simp only [scanChars_charsText, skipSpace_separator colon (by decide : ¬IsSpace 0x3a), here,
      skipSpace_separator after (by decide : ¬IsSpace 0x7d)]
  | members key v w u w' t w'' ms ts before colon between value after more ih later =>
    intro fuel rest enough
    obtain ⟨fuel, rfl⟩ := Nat.exists_eq_succ_of_ne_zero (Nat.ne_zero_of_lt enough)
    have here := read_between between ih after 0x2c (by decide) (ts ++ 0x7d :: rest)
      fuel (by simp at enough; omega)
    have others := later fuel rest (by simp at enough; omega)
    simp only [literal, List.append_assoc, List.cons_append, List.nil_append]
    rw [parseMembers, skipSpace_separator before (by decide)]
    simp only [scanChars_charsText, skipSpace_separator colon (by decide : ¬IsSpace 0x3a), here,
      skipSpace_separator after (by decide : ¬IsSpace 0x2c), others, Option.map_some]

/-- The decoder finds the value that a document spells, so there is only one. -/
theorem decode_document {v : Json} {bs : List UInt8} (document : Document v bs) :
    decode bs = some v := by
  obtain ⟨w, t, w', before, text, after, rfl⟩ := document
  have ends : Ends w' := by
    intro c head word
    exact word.visible (after c (List.mem_of_mem_head? head))
  have read := text.read ((w ++ (t ++ w')).length + 1) w' (by simp; omega) ends
  have skipped : skipSpace w' = [] := by
    rw [skipSpace, List.dropWhile_eq_nil_iff]
    exact fun c member => decide_eq_true (after c member)
  rw [decode, parseValue_space before, read]
  exact if_pos skipped

/-! ### Members and integers -/

/-- The first member with a name. -/
def member (key : List UInt8) : Json → Option Json
  | .object members => (members.find? fun m => m.1 = key).map Prod.snd
  | _ => none

/-- The number a run of digits spells. -/
def digitsValue (digits : List UInt8) : Nat :=
  digits.foldl (fun n c => 10 * n + (c.toNat - 0x30)) 0

/-- The value of a number that is an integer without a mark of another kind. -/
def integer : Json → Option Int
  | .number (0x2d :: digits) =>
    if digits.all fun c => IsDigit c then some (-(digitsValue digits : Int)) else none
  | .number digits => if digits.all fun c => IsDigit c then some (digitsValue digits : Int) else none
  | _ => none

theorem integer_digits {t : List UInt8} (digits : ∀ c ∈ t, IsDigit c) :
    integer (.number t) = some (digitsValue t : Int) := by
  have all : (t.all fun c => IsDigit c) = true :=
    List.all_eq_true.mpr fun c member => decide_eq_true (digits c member)
  unfold integer
  split
  next u same =>
    -- a minus sign is no digit
    cases same
    exact absurd (digits 0x2d List.mem_cons_self) (by decide)
  next u _ same =>
    cases same
    exact if_pos all
  next _ other => exact absurd rfl (other t)

end Json

end QuickIO.Lib
