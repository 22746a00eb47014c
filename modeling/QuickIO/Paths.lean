import QuickIO.CString

/-!
# Event paths

`evs_clean_path` and `evs_make_path`. The cleaning loop reads with one pointer
and writes with another that never overtakes it, so it is given here as a
function from what is read to what is written.
-/
namespace QuickIO

/-- `_allowed_chars`: letters, digits, underscore, dash and slash. Entries the
initializer leaves out are zero. -/
def allowedChars : List UInt8 := [
  0,  0,  0,  0,  0,  0,  0,  0,  0,  0,  0,  0,  0,  0,  0,
  0,  0,  0,  0,  0,  0,  0,  0,  0,  0,  0,  0,  0,  0,  0,
  0,  0,  0,  0,  0,  0,  0,  0,  0,  0,  0,  0,  0,  0,  0,
  1,  0,  1,  1,  1,  1,  1,  1,  1,  1,  1,  1,  1,  0,  0,
  0,  0,  0,  0,  0,  1,  1,  1,  1,  1,  1,  1,  1,  1,  1,
  1,  1,  1,  1,  1,  1,  1,  1,  1,  1,  1,  1,  1,  1,  1,
  1,  0,  0,  0,  0,  1,  0,  1,  1,  1,  1,  1,  1,  1,  1,
  1,  1,  1,  1,  1,  1,  1,  1,  1,  1,  1,  1,  1,  1,  1,
  1,  1,  1]

def allowed (c : UInt8) : Bool := allowedChars.getD c.toNat 0 != 0

/-- The `while` loop of `evs_clean_path` over what `curr` has yet to read.
`skipping` is the inner `do … while`, entered after every slash. -/
def cleanLoop (skipping : Bool) : Bytes → Bytes
  | [] => []
  | c :: curr =>
    if skipping && (c == slash || !allowed c) then
      -- The inner loop drops slashes and whatever is not allowed.
      cleanLoop true curr
    else if allowed c then
      c :: cleanLoop (c == slash) curr
    else
      cleanLoop (c == slash) curr

/-- Remove any trailing slash. -/
def dropTrailingSlash (writing : Bytes) : Bytes :=
  if writing.getLast? = some slash then writing.dropLast else writing

def evsCleanPath (evPath : Bytes) : Bytes := dropTrailingSlash (cleanLoop false evPath)

/-- `"%s/%s/%s"` of three parts; `none` is a `NULL` argument. -/
def joinedParts (evPrefix evPath evExtra : Option Bytes) : Bytes :=
  evPrefix.getD [] ++ slash :: (evPath.getD [] ++ slash :: evExtra.getD [])

/-- `g_string_printf`: a text of more than `INT_MAX` bytes cannot be printed, and
the string stays empty. -/
def gStringPrintf (text : Bytes) : Bytes := if text.length < 2 ^ 31 then text else []

/-- `g_string_prepend_c(p, '/')`, if there is none. -/
def anchored (p : Bytes) : Bytes := if p.head? = some slash then p else slash :: p

/-- `evs_make_path`. The size is set to the `guint` that `evs_clean_path` returns. -/
def evsMakePath (evPrefix evPath evExtra : Option Bytes) : Bytes :=
  let p := evsCleanPath (anchored (gStringPrintf (joinedParts evPrefix evPath evExtra)))
  p.take (UInt32.ofNat p.length).toNat

theorem allowed_slash : allowed slash = true := by decide

theorem cleanLoop_allowed (skipping : Bool) (s : Bytes) (c : UInt8)
    (written : c ∈ cleanLoop skipping s) : allowed c = true := by
  induction s generalizing skipping with
  | nil => simp [cleanLoop] at written
  | cons d s ih =>
    simp only [cleanLoop] at written
    split at written
    · exact ih true written
    · split at written
      next good =>
        rcases List.mem_cons.mp written with rfl | later
        · exact good
        · exact ih _ later
      next => exact ih _ written

theorem mem_dropTrailingSlash (w : Bytes) (c : UInt8) (member : c ∈ dropTrailingSlash w) :
    c ∈ w := by
  unfold dropTrailingSlash at member
  split at member
  · exact (List.dropLast_sublist w).subset member
  · exact member

/-- A cleaned path has only allowed characters. -/
theorem evsCleanPath_allowed (s : Bytes) (c : UInt8) (member : c ∈ evsCleanPath s) :
    allowed c = true :=
  cleanLoop_allowed false s c (mem_dropTrailingSlash _ c member)

/-- After a slash the loop never writes a second one. -/
theorem cleanLoop_skipping_head (s : Bytes) : (cleanLoop true s).head? ≠ some slash := by
  induction s with
  | nil => simp [cleanLoop]
  | cons c s ih =>
    simp only [cleanLoop, Bool.true_and]
    split
    · exact ih
    next kept =>
      simp only [Bool.or_eq_true, beq_iff_eq, Bool.not_eq_true', not_or, Bool.not_eq_false] at kept
      simp [kept.1, kept.2]

/-- Cleaning a string that starts with a slash gives nothing or a slash
followed by something. -/
theorem evsCleanPath_slash (s : Bytes) :
    evsCleanPath (slash :: s) = [] ∨ ∃ k, k ≠ [] ∧ evsCleanPath (slash :: s) = slash :: k := by
  have loop : cleanLoop false (slash :: s) = slash :: cleanLoop true s := by
    simp [cleanLoop, allowed_slash]
  have head := cleanLoop_skipping_head s
  simp only [evsCleanPath, loop]
  cases rest : cleanLoop true s with
  | nil => left; simp [dropTrailingSlash]
  | cons c k =>
    rw [rest] at head
    have other : c ≠ slash := by simpa using head
    right
    unfold dropTrailingSlash
    split
    next trailing =>
      cases k with
      | nil => simp [other] at trailing
      | cons d k => exact ⟨c :: (d :: k).dropLast, by simp, by simp⟩
    next => exact ⟨c :: k, by simp, rfl⟩

private theorem cleanLoop_slash_head (s w : Bytes) (eq : cleanLoop false s = slash :: w) :
    w.head? ≠ some slash := by
  induction s with
  | nil => simp [cleanLoop] at eq
  | cons c s ih =>
    by_cases first : c = slash
    · subst c
      have loop : cleanLoop false (slash :: s) = slash :: cleanLoop true s := by
        simp [cleanLoop, allowed_slash]
      rw [loop] at eq
      obtain ⟨-, rfl⟩ := List.cons.inj eq
      exact cleanLoop_skipping_head s
    · cases good : allowed c with
      | true => simp [cleanLoop, good, first] at eq
      | false =>
        apply ih
        have next : (c == slash) = false := by simpa using first
        simpa [cleanLoop, good, next] using eq

/-- A cleaned path has no second slash after a leading one. -/
theorem dropSlash_evsCleanPath_head (s : Bytes) :
    (dropSlash (evsCleanPath s)).head? ≠ some slash := by
  unfold evsCleanPath
  cases eq : cleanLoop false s with
  | nil => simp [dropTrailingSlash, dropSlash]
  | cons c w =>
    by_cases first : c = slash
    · -- cleaning starts with a slash, and not with two
      subst c
      have head := cleanLoop_slash_head s w eq
      unfold dropTrailingSlash
      split
      · cases w with
        | nil => simp [dropSlash]
        | cons d w =>
          cases w with
          | nil => simp
          | cons e w => simpa using head
      · simpa using head
    · -- cleaning starts with another byte
      unfold dropTrailingSlash
      split
      · cases w with
        | nil => simp [dropSlash]
        | cons d w => simp [dropSlash, first]
      · simp [dropSlash, first]

theorem length_cleanLoop (skipping : Bool) (s : Bytes) :
    (cleanLoop skipping s).length ≤ s.length := by
  induction s generalizing skipping with
  | nil => exact Nat.le_refl 0
  | cons c s ih =>
    simp only [cleanLoop, List.length_cons]
    split
    · exact Nat.le_succ_of_le (ih true)
    · split
      · exact Nat.succ_le_succ (ih _)
      · exact Nat.le_succ_of_le (ih _)

/-- Cleaning makes no path longer. -/
theorem length_evsCleanPath (s : Bytes) : (evsCleanPath s).length ≤ s.length := by
  have loop := length_cleanLoop false s
  unfold evsCleanPath dropTrailingSlash
  split
  · rw [List.length_dropLast]
    omega
  · exact loop

theorem length_gStringPrintf (text : Bytes) : (gStringPrintf text).length < 2 ^ 31 := by
  unfold gStringPrintf
  split
  next fits => exact fits
  next => decide

theorem length_anchored (p : Bytes) : (anchored p).length ≤ p.length + 1 := by
  unfold anchored
  split
  · exact Nat.le_succ _
  · exact Nat.le_refl _

/-- What is printed is short enough for the `guint`, so its size is set to all of it. -/
theorem evsMakePath_eq (evPrefix evPath evExtra : Option Bytes) :
    evsMakePath evPrefix evPath evExtra =
      evsCleanPath (anchored (gStringPrintf (joinedParts evPrefix evPath evExtra))) := by
  have printed := length_gStringPrintf (joinedParts evPrefix evPath evExtra)
  have slashed := length_anchored (gStringPrintf (joinedParts evPrefix evPath evExtra))
  have cleaned := length_evsCleanPath
    (anchored (gStringPrintf (joinedParts evPrefix evPath evExtra)))
  rw [evsMakePath, UInt32.toNat_ofNat_of_lt', List.take_length]
  exact Nat.lt_of_le_of_lt (Nat.le_trans cleaned slashed) (Nat.succ_lt_succ (by omega))

/-- Three parts that can be printed are a path. -/
theorem evsMakePath_of_fits {evPrefix evPath evExtra : Option Bytes}
    (fits : (joinedParts evPrefix evPath evExtra).length < 2 ^ 31) :
    evsMakePath evPrefix evPath evExtra =
      evsCleanPath (anchored (joinedParts evPrefix evPath evExtra)) := by
  rw [evsMakePath_eq, gStringPrintf, if_pos fits]

/-- Three parts that cannot be printed are none. -/
theorem evsMakePath_of_overflow {evPrefix evPath evExtra : Option Bytes}
    (overflow : 2 ^ 31 ≤ (joinedParts evPrefix evPath evExtra).length) :
    evsMakePath evPrefix evPath evExtra = [] := by
  rw [evsMakePath_eq, gStringPrintf, if_neg (Nat.not_lt.mpr overflow)]
  decide

theorem anchored_eq (p : Bytes) : ∃ s, anchored p = slash :: s := by
  unfold anchored
  split
  next first =>
    obtain ⟨s, eq⟩ := List.head?_eq_some_iff.mp first
    exact ⟨s, eq⟩
  next => exact ⟨p, rfl⟩

theorem evsMakePath_slash (evPrefix evPath evExtra : Option Bytes) :
    evsMakePath evPrefix evPath evExtra = [] ∨
      ∃ k, k ≠ [] ∧ evsMakePath evPrefix evPath evExtra = slash :: k := by
  rw [evsMakePath_eq]
  obtain ⟨s, eq⟩ := anchored_eq (gStringPrintf (joinedParts evPrefix evPath evExtra))
  rw [eq]
  exact evsCleanPath_slash s

theorem evsMakePath_allowed (evPrefix evPath evExtra : Option Bytes) (c : UInt8)
    (member : c ∈ evsMakePath evPrefix evPath evExtra) : allowed c = true := by
  rw [evsMakePath_eq] at member
  exact evsCleanPath_allowed _ c member

/-- Cleaning strips everything but the path, as the documentation's example has it. -/
example : evsCleanPath (str "///////???qio//////**ping***&^^$#@///////test") =
    str "/qio/ping/test" := by decide

end QuickIO
