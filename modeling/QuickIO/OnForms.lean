import QuickIO.LastRequest
import QuickIO.Lib.Json
import QuickIO.PathNames
import QuickIO.PathSegments

/-!
# Two forms of a subscription

`/qio/on` takes a string, or an array with a string and data. The array is decoded; of the
string alone the raw literal is cleaned, in which an escape leaves its letters.
`forms_agree_iff` says for which literals both name the same subscription.
-/
namespace QuickIO

open Lib Lib.Json Server

/-! ### What the forms are for -/

/-- What a C string keeps. -/
def cString (bs : Bytes) : Bytes := bs.takeWhile (· ≠ 0)

/-- The string of a literal. -/
def decoded (cs : List StringChar) : Bytes := cString (decodeChars cs)

/-- The array of a literal and a value. -/
def pairForm (cs : List StringChar) (d : Bytes) : Bytes :=
  0x5b :: (literal cs ++ 0x2c :: (d ++ [0x5d]))

/-- All of them name what the cleaned string names. -/
structure SameTarget (env : Env) (events : Ptrie Handlers) (cs : List StringChar) (d : Bytes) :
    Prop where
  quoted : onTarget env events (literal cs) = evsQuery events (evsCleanPath (decoded cs))
  pair : onTarget env events (pairForm cs d) = evsQuery events (evsCleanPath (decoded cs))
  off : offTarget events (literal cs) = evsQuery events (evsCleanPath (decoded cs))

/-- In every reachable state `/qio/off` with the literal is `evs_off` for what `/qio/on`
with `json` is for. As long as no reference count has wrapped, that ends the subscription:
at once, or with a tombstone while it is pending. -/
def Undoes (env : Env) (events : Ptrie Handlers) (cs : List StringChar) (json : Bytes) : Prop :=
  ∀ m : Resources.State, Resources.system.Reachable m → m.server.events = events →
    ∀ ev x, onTarget env events json = .ok (some (ev, x)) → ∀ c clientCb,
    m.server.qioOff env c clientCb (literal cs) =
        .ok (.silent (m.server.evsOff c ev x), .ok) ∧
      (m.server.wrapped = false → ∀ s, (m.server.evsOff c ev x).key s = (ev.evPath, x) →
        ∀ csub, (m.server.evsOff c ev x).entry c s = some csub →
          csub.pending = true ∧ csub.tombstone = true)

/-- For every set of registered events and every value beside the literal, both forms name
the subscription of the cleaned string, and `/qio/off` undoes either. -/
def FormsAgree (cs : List StringChar) : Prop :=
  ∀ (rs : List (Registration Handlers)) (events : Ptrie Handlers),
    insertAll PrefixTree.empty rs = .ok events →
    ∀ (env : Env) (d : Bytes) (v : Json), Document v d →
    env.jsonUnpack (pairForm cs d) = some (decoded cs, d) →
    SameTarget env events cs d ∧ Undoes env events cs (literal cs) ∧
      Undoes env events cs (pairForm cs d)

/-- Written as itself, or with a backslash before it. -/
def transparent : StringChar → Bool
  | .plain _ _ => true
  | .escape e => e = .quotationMark || e = .reverseSolidus || e = .solidus
  | .unit _ _ _ => false

/-! ### Letters -/

/-- How many bytes of a path name something. -/
def letters (bs : Bytes) : Nat := bs.countP fun c => PathChar c ∧ c ≠ slash

theorem letters_append (xs ys : Bytes) : letters (xs ++ ys) = letters xs + letters ys :=
  List.countP_append

theorem letters_segments (s : Bytes) : (segments s).flatten.length = letters s := by
  rw [segments, flatten_tokens, List.filter_filter, ← List.countP_eq_length_filter, letters]
  congr 1
  funext c
  simp [Bool.and_comm]

theorem letters_evsCleanPath (s : Bytes) : letters (evsCleanPath s) = letters s := by
  rw [← letters_segments, segments_evsCleanPath, letters_segments]

theorem letters_dropSlash (p : Bytes) : letters (dropSlash p) = letters p := by
  cases p with
  | nil => rfl
  | cons c p =>
    rw [dropSlash]
    split
    next first => simp [letters, first]
    next => rfl

theorem letters_cString (bs : Bytes) : letters (cString bs) ≤ letters bs :=
  (List.takeWhile_prefix _).sublist.countP_le

theorem length_utf8Encode (n : Nat) : (utf8Encode n).length ≤ 4 := by
  unfold utf8Encode
  split_ifs <;> simp

theorem letters_hex {digits : Bytes} (hex : ∀ c ∈ digits, IsHex c) :
    letters digits = digits.length := by
  rw [letters, List.countP_eq_length]
  intro c member
  apply decide_eq_true
  rcases hex c member with ⟨low, high⟩ | ⟨low, high⟩ | ⟨low, high⟩
  · refine ⟨.inr (.inr (.inl ⟨low, high⟩)), ?_⟩
    rintro rfl
    exact absurd low (by decide)
  · refine ⟨.inl ⟨low, UInt8.le_trans high (by decide)⟩, ?_⟩
    rintro rfl
    exact absurd low (by decide)
  · refine ⟨.inr (.inl ⟨low, UInt8.le_trans high (by decide)⟩), ?_⟩
    rintro rfl
    exact absurd low (by decide)

/-- A unit of UTF-16 leaves its `u` and four digits. -/
theorem letters_unit {digits : Bytes} (four : digits.length = 4) (hex : ∀ c ∈ digits, IsHex c) :
    letters (StringChar.unit digits four hex).text = 5 := by
  have escaped : letters [0x5c, 0x75] = 1 := by decide
  change letters ([0x5c, 0x75] ++ digits) = 5
  rw [letters_append, escaped, letters_hex hex, four]

theorem letters_utf8Encode (n : Nat) : letters (utf8Encode n) ≤ 4 :=
  (List.countP_le_length).trans (length_utf8Encode n)

/-- How many characters leave letters of their own. -/
def hidden (cs : List StringChar) : Nat := cs.countP fun c => !transparent c

theorem hidden_cons (c : StringChar) (cs : List StringChar) :
    hidden (c :: cs) = (if transparent c then 0 else 1) + hidden cs := by
  rw [hidden, List.countP_cons, ← hidden, Nat.add_comm]
  cases transparent c <;> rfl

/-- What is decoded has fewer letters than the literal for every escape that leaves some. -/
theorem letters_decodeChars (cs : List StringChar) :
    letters (decodeChars cs) + hidden cs ≤ letters (charsText cs) := by
  have text : ∀ c cs, letters (charsText (c :: cs)) = letters c.text + letters (charsText cs) :=
    fun c cs => letters_append c.text (charsText cs)
  have first : ∀ b bs, letters (b :: bs) = letters [b] + letters bs :=
    fun b bs => letters_append [b] bs
  fun_induction decodeChars cs with
  | case1 => exact Nat.le_refl _
  | case2 c allowed cs ih =>
    rw [text, first, hidden_cons, StringChar.text, transparent, if_pos rfl]
    omega
  | case3 e cs ih =>
    have one : letters [e.byte] + (if transparent (.escape e) then 0 else 1) ≤
        letters (StringChar.escape e).text := by
      cases e <;> decide
    rw [text, first, hidden_cons]
    omega
  -- four bytes for a pair of surrogates, and ten letters in the literal
  | case4 high fourHigh hexHigh low four hex cs pair ih =>
    have written := letters_utf8Encode (surrogatePair (unitValue high) (unitValue low))
    simp only [if_pos pair]
    rw [text, text, letters_append, hidden_cons, hidden_cons, letters_unit, letters_unit]
    simp only [transparent, Bool.false_eq_true, if_false]
    omega
  | case5 high fourHigh hexHigh low four hex cs single ih =>
    have written := letters_utf8Encode (unitValue high)
    simp only [if_neg single]
    rw [text, letters_append, hidden_cons, letters_unit]
    simp only [transparent, Bool.false_eq_true, if_false]
    omega
  | case6 digits four hex cs last ih =>
    have written := letters_utf8Encode (unitValue digits)
    rw [text, letters_append, hidden_cons, letters_unit]
    simp only [transparent, Bool.false_eq_true, if_false]
    omega

/-! ### Literals that agree -/

theorem filter_decodeChars {cs : List StringChar} (all : ∀ c ∈ cs, transparent c = true) :
    (decodeChars cs).filter (fun c => PathChar c) = (charsText cs).filter (fun c => PathChar c) ∧
      0 ∉ decodeChars cs := by
  induction cs with
  | nil => exact ⟨rfl, List.not_mem_nil⟩
  | cons c cs ih =>
    obtain ⟨same, noNul⟩ := ih fun d member => all d (List.mem_cons_of_mem c member)
    have here := all c List.mem_cons_self
    rw [charsText, List.flatMap_cons, ← charsText, List.filter_append, ← same]
    cases c with
    | plain c allowed =>
      refine ⟨?_, ?_⟩
      · rw [decodeChars, StringChar.text, ← List.singleton_append, List.filter_append]
      · rw [decodeChars, List.mem_cons, not_or]
        refine ⟨?_, noNul⟩
        rintro rfl
        exact absurd allowed (by decide)
    | escape e =>
      have one : transparent (.escape e) = true →
          [e.byte].filter (fun c => PathChar c) =
            (StringChar.escape e).text.filter (fun c => PathChar c) ∧ 0 ≠ e.byte := by
        cases e <;> decide
      obtain ⟨byte, notNul⟩ := one here
      refine ⟨?_, ?_⟩
      · rw [decodeChars, ← byte, ← List.singleton_append, List.filter_append]
      · rw [decodeChars, List.mem_cons, not_or]
        exact ⟨notNul, noNul⟩
    | unit digits four hex => cases here

theorem decoded_of_noNul {cs : List StringChar} (noNul : 0 ∉ decodeChars cs) :
    decoded cs = decodeChars cs := by
  rw [decoded, cString, List.takeWhile_eq_self_iff]
  intro c member
  apply decide_eq_true
  rintro rfl
  exact noNul member

/-- The raw literal is cleaned to the cleaned string. -/
theorem evsCleanPath_literal {cs : List StringChar} (all : ∀ c ∈ cs, transparent c = true) :
    evsCleanPath (charsText cs) = evsCleanPath (decoded cs) := by
  obtain ⟨same, noNul⟩ := filter_decodeChars all
  rw [decoded_of_noNul noNul, evsCleanPath_eq, evsCleanPath_eq, cleaned, cleaned, same]

section Targets

variable {env : Env} {events : Ptrie Handlers} {cs : List StringChar} {d : Bytes}

theorem onTarget_literal :
    onTarget env events (literal cs) = evsQuery events (evsCleanPath (charsText cs)) := by
  simp only [onTarget, literal, Server.onArguments, evsCleanPath_quote]

theorem offTarget_literal :
    offTarget events (literal cs) = evsQuery events (evsCleanPath (charsText cs)) := by
  simp only [offTarget, literal, evsCleanPath_quote]

theorem onTarget_pair (unpacked : env.jsonUnpack (pairForm cs d) = some (decoded cs, d)) :
    onTarget env events (pairForm cs d) = evsQuery events (evsCleanPath (decoded cs)) := by
  rw [onTarget, pairForm, Server.onArguments, ← pairForm, unpacked]
  rfl

/-- `/qio/off` undoes what names the same target. -/
theorem undoes_of_target {json : Bytes}
    (same : onTarget env events json = offTarget events (literal cs)) :
    Undoes env events cs json := by
  rintro m reached rfl ev x target c clientCb
  obtain ⟨inv, -⟩ := Resources.kept_reachable m reached
  rw [same] at target
  refine ⟨qioOff_target target c clientCb, fun fits s key csub stored => ?_⟩
  rcases inv.evsOff_effect c ev x with ⟨unchanged, absent⟩ | ⟨r, keeps, -, only, changes⟩
  · rw [unchanged] at key stored
    rw [absent fits s key] at stored
    cases stored
  · rw [changes] at stored
    split at stored
    next =>
      -- the entry of the key: gone, or a tombstone
      cases entry : m.server.entry c r with
      | none =>
        rw [entry] at stored
        cases stored
      | some old =>
        rw [entry, givenUp] at stored
        obtain ⟨pending, ⟨⟩⟩ := Option.ite_none_right_eq_some.mp stored
        exact ⟨pending, rfl⟩
    next other =>
      have before := keeps.key s (inv.below stored)
      exact absurd ⟨rfl, only fits s (by rw [stored]; exact Option.some_ne_none _) (before ▸ key)⟩ other

end Targets

/-- Where the literal is transparent the forms agree. -/
theorem formsAgree_of_transparent {cs : List StringChar}
    (all : ∀ c ∈ cs, transparent c = true) : FormsAgree cs := by
  intro rs events _ env d v _ unpacked
  have clean := evsCleanPath_literal all
  have quoted : onTarget env events (literal cs) =
      evsQuery events (evsCleanPath (decoded cs)) := by rw [onTarget_literal, clean]
  have off : offTarget events (literal cs) = evsQuery events (evsCleanPath (decoded cs)) := by
    rw [offTarget_literal, clean]
  have pair : onTarget env events (pairForm cs d) = evsQuery events (evsCleanPath (decoded cs)) :=
    onTarget_pair unpacked
  exact ⟨⟨quoted, pair, off⟩, undoes_of_target (quoted.trans off.symm),
    undoes_of_target (pair.trans off.symm)⟩

/-! ### Literals that do not -/

/-- What unpacks the array of a literal and `null`. -/
def unpackEnv (cs : List StringChar) : Env :=
  { lateEnv with jsonUnpack := fun _ => some (decoded cs, str "null") }

/-- An event at the path that is cleaned from the raw literal. -/
def rawEvent (cs : List StringChar) : Registration Handlers :=
  ⟨none, some (charsText cs), none, ⟨none, none, none⟩, true⟩

theorem rawEvent_fits {cs : List StringChar} (short : (charsText cs).length + 2 < 2 ^ 31) :
    (joinedParts (rawEvent cs).evPrefix (rawEvent cs).evPath (rawEvent cs).evExtra).length <
      2 ^ 31 := by
  simp only [joinedParts, rawEvent, Option.getD_none, Option.getD_some, List.nil_append,
    List.length_cons, List.length_append, List.length_nil]
  omega

theorem letters_rawEvent {cs : List StringChar} (short : (charsText cs).length + 2 < 2 ^ 31) :
    letters (rawEvent cs).path = letters (charsText cs) := by
  have parts : segments ((rawEvent cs).evPrefix.getD []) ++
      (segments ((rawEvent cs).evPath.getD []) ++ segments ((rawEvent cs).evExtra.getD [])) =
      segments (charsText cs) := by
    simp [rawEvent]
  rw [← letters_segments, Registration.path, segments_evsMakePath (rawEvent_fits short), parts,
    letters_segments]

/-- The forms agree only where the string has all letters of the literal. -/
theorem letters_of_formsAgree {cs : List StringChar} (agree : FormsAgree cs)
    (short : (charsText cs).length + 2 < 2 ^ 31) :
    letters (decoded cs) = letters (charsText cs) := by
  rcases Nat.eq_zero_or_pos (letters (charsText cs)) with none | some_
  · have fewer := letters_decodeChars cs
    have kept := letters_cString (decodeChars cs)
    rw [decoded]
    omega
  have named : (rawEvent cs).path ≠ [] := by
    intro empty
    have path := letters_rawEvent short
    rw [empty] at path
    exact absurd path (Nat.ne_of_lt some_)
  -- the quoted form finds the event
  obtain ⟨t, inserted, raw⟩ := evsQuery_spelling [] [] (rawEvent cs) (rawEvent_fits short)
    named (by simp) (charsText cs)
    (by simp [rawEvent])
  have null : Document .null (str "null") := ⟨[], str "null", [], .nil, .null, .nil, rfl⟩
  obtain ⟨⟨quoted, -, -⟩, -, -⟩ := agree _ t inserted (unpackEnv cs) _ _ null rfl
  rw [onTarget_literal, raw] at quoted
  -- so the decoded string does, and its path is that of the event
  obtain ⟨u, answer, inserted', -, query, answers⟩ :=
    insertAll_evsQuery [rawEvent cs] (decoded cs) false
  obtain rfl : t = u := Except.ok.inj (inserted.symm.trans inserted')
  rw [evsQuery, dropSlash_spelled, ← evsQuery, ← quoted] at query
  obtain rfl := Except.ok.inj query
  have joined : (rawEvent cs).path = slash :: dropSlash (evsCleanPath (decoded cs)) := by
    have sound := answers.sound.1
    rwa [List.append_nil] at sound
  have same := congrArg letters joined
  have lead : ∀ p, letters (slash :: p) = letters p :=
    fun p => (letters_append [slash] p).trans (Nat.zero_add _)
  rw [letters_rawEvent short, lead, letters_dropSlash, letters_evsCleanPath] at same
  exact same.symm

/-- Where every escape of a string literal is a quotation mark, a backslash or a slash behind
a backslash, both forms of `/qio/on` name the subscription of the cleaned string, whatever is
registered, and `/qio/off` undoes either. A literal whose path can be registered at all is
one of these if and only if they do. -/
theorem forms_agree_iff (cs : List StringChar) :
    ((∀ c ∈ cs, transparent c = true) → FormsAgree cs) ∧
    ((charsText cs).length + 2 < 2 ^ 31 →
      (FormsAgree cs ↔ ∀ c ∈ cs, transparent c = true)) := by
  refine ⟨formsAgree_of_transparent, fun short => ⟨fun agree c member => ?_, ?_⟩⟩
  · have same := letters_of_formsAgree agree short
    have fewer := letters_decodeChars cs
    have kept := letters_cString (decodeChars cs)
    rw [decoded] at same
    have none : hidden cs = 0 := by omega
    rw [hidden, List.countP_eq_zero] at none
    simpa using none c member
  · exact formsAgree_of_transparent

/-- `"/caf\u00e9"` as an encoder may write it. -/
def escapedPath : List StringChar :=
  plainChars (str "/caf") (by simp [str, IsPlain]) ++
    [.unit (str "00e9") rfl (by simp [str, IsHex])]

/-- The raw literal is cleaned to `/cafu00e9`, the string to `/caf`. -/
theorem forms_agree_escaped : ¬∀ cs : List StringChar, FormsAgree cs := by
  intro claim
  have same := letters_of_formsAgree (claim escapedPath) (by decide)
  exact absurd same (by decide)

end QuickIO
