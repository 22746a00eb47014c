import Mathlib.Data.List.Basic

/-!
# Searching and splitting a text

The first occurrence of a text in another, and the pieces between separators.
-/
namespace QuickIO.Lib

variable {α : Type}

/-- A text that is empty or ends with a separator. -/
def Ended (sep : α) (xs : List α) : Prop := xs = [] ∨ ∃ line, xs = line ++ [sep]

theorem Ended.append {sep : α} {xs ys : List α} (first : Ended sep xs) (second : Ended sep ys) :
    Ended sep (xs ++ ys) := by
  rcases second with rfl | ⟨line, rfl⟩
  · rwa [List.append_nil]
  · exact Or.inr ⟨xs ++ line, (List.append_assoc xs line [sep]).symm⟩

variable [DecidableEq α]

/-- What stands before and after the first occurrence of `needle`. -/
def cut (needle : List α) : List α → Option (List α × List α)
  | [] => if needle = [] then some ([], []) else none
  | c :: rest =>
    if needle.isPrefixOf (c :: rest) then some ([], (c :: rest).drop needle.length)
    else (cut needle rest).map fun found => (c :: found.1, found.2)

/-- No occurrence of `needle` can begin in the text, whatever follows it. -/
def clear (needle : List α) : List α → Bool
  | [] => true
  | c :: rest =>
    !needle.isPrefixOf (c :: rest) && !(c :: rest).isPrefixOf needle && clear needle rest

theorem isPrefixOf_clear {needle xs : List α} (before : needle.isPrefixOf xs = false)
    (within : xs.isPrefixOf needle = false) (ys : List α) :
    needle.isPrefixOf (xs ++ ys) = false ∧ (xs ++ ys).isPrefixOf needle = false := by
  have noPrefix : ¬ needle <+: xs := fun h => by
    rw [List.isPrefixOf_iff_prefix.mpr h] at before
    cases before
  have noPrefix' : ¬ xs <+: needle := fun h => by
    rw [List.isPrefixOf_iff_prefix.mpr h] at within
    cases within
  rw [Bool.eq_false_iff, Bool.eq_false_iff, ne_eq, ne_eq, List.isPrefixOf_iff_prefix,
    List.isPrefixOf_iff_prefix]
  have first : xs <+: xs ++ ys := List.prefix_append xs ys
  constructor
  · intro found
    -- two lists that begin the same one are comparable
    rcases List.prefix_or_prefix_of_prefix found first with h | h
    · exact noPrefix h
    · exact noPrefix' h
  · intro found
    exact noPrefix' (first.trans found)

theorem clear_append (needle xs ys : List α) (first : clear needle xs) (second : clear needle ys) :
    clear needle (xs ++ ys) := by
  induction xs with
  | nil => exact second
  | cons c xs ih =>
    simp only [clear, Bool.and_eq_true, Bool.not_eq_true'] at first
    obtain ⟨⟨before, within⟩, later⟩ := first
    obtain ⟨before, within⟩ := isPrefixOf_clear before within ys
    rw [List.cons_append] at before within
    rw [List.cons_append, clear, before, within, ih later]
    rfl

/-- An occurrence begins with the first element. -/
theorem clear_of_notMem (c : α) (needle xs : List α) (absent : c ∉ xs) : clear (c :: needle) xs := by
  induction xs with
  | nil => rfl
  | cons d xs ih =>
    have other : c ≠ d := fun same => absent (same ▸ List.mem_cons_self)
    have later := ih fun member => absent (List.mem_cons_of_mem d member)
    have before : (c :: needle).isPrefixOf (d :: xs) = false := by
      rw [List.isPrefixOf_cons_cons, beq_false_of_ne other, Bool.false_and]
    have within : (d :: xs).isPrefixOf (c :: needle) = false := by
      rw [List.isPrefixOf_cons_cons, beq_false_of_ne other.symm, Bool.false_and]
    rw [clear, before, within, later]
    rfl

/-- The first occurrence is the one that stands behind a clear text. -/
theorem cut_clear (needle xs ys : List α) (nonempty : needle ≠ []) (free : clear needle xs) :
    cut needle (xs ++ needle ++ ys) = some (xs, ys) := by
  induction xs with
  | nil =>
    obtain ⟨c, needle, rfl⟩ := List.exists_cons_of_ne_nil nonempty
    have found : (c :: needle).isPrefixOf (c :: (needle ++ ys)) := by
      rw [List.isPrefixOf_iff_prefix, ← List.cons_append]
      exact List.prefix_append _ _
    simp [cut, found]
  | cons c xs ih =>
    simp only [clear, Bool.and_eq_true, Bool.not_eq_true'] at free
    obtain ⟨⟨before, within⟩, later⟩ := free
    have missed := (isPrefixOf_clear before within (needle ++ ys)).1
    rw [List.cons_append] at missed
    rw [List.append_assoc, List.cons_append, cut, missed, ← List.append_assoc, ih later]
    rfl

theorem cut_length {needle xs before after : List α} (found : cut needle xs = some (before, after)) :
    xs.length = before.length + needle.length + after.length := by
  induction xs generalizing before after with
  | nil =>
    simp only [cut] at found
    obtain ⟨empty, ⟨⟩⟩ := Option.ite_none_right_eq_some.mp found
    rw [empty]
    rfl
  | cons c xs ih =>
    simp only [cut] at found
    split at found
    next here =>
      cases found
      have fits := (List.isPrefixOf_iff_prefix.mp here).length_le
      rw [List.length_drop, List.length_nil]
      omega
    next =>
      obtain ⟨⟨b, a⟩, there, ⟨⟩⟩ := Option.map_eq_some_iff.mp found
      have rest := ih there
      simp only [List.length_cons]
      omega

/-- What was found is found again when more follows. -/
theorem cut_append {needle xs before after : List α} (nonempty : needle ≠ [])
    (found : cut needle xs = some (before, after)) (ys : List α) :
    cut needle (xs ++ ys) = some (before, after ++ ys) := by
  induction xs generalizing before after with
  | nil => simp [cut, nonempty] at found
  | cons c xs ih =>
    simp only [cut] at found
    rw [List.cons_append, cut, ← List.cons_append]
    split at found
    next here =>
      cases found
      have starts := List.isPrefixOf_iff_prefix.mp here
      have still : needle.isPrefixOf (c :: xs ++ ys) :=
        List.isPrefixOf_iff_prefix.mpr (starts.trans (List.prefix_append _ _))
      rw [if_pos still, List.drop_append_of_le_length starts.length_le]
    -- the needle is further on, and no bytes behind can move it to here
    next missed =>
      obtain ⟨⟨b, a⟩, there, ⟨⟩⟩ := Option.map_eq_some_iff.mp found
      have fits : needle.length ≤ (c :: xs).length := by
        have sizes := cut_length there
        rw [List.length_cons]
        omega
      have still : ¬ needle.isPrefixOf (c :: xs ++ ys) := by
        intro here
        have starts := List.isPrefixOf_iff_prefix.mp here
        exact missed (List.isPrefixOf_iff_prefix.mpr
          (List.prefix_of_prefix_length_le starts (List.prefix_append _ _) fits))
      rw [if_neg still, ih there]
      rfl

/-- The pieces between separators, empty ones dropped. -/
def tokens (sep : α) (xs : List α) : List (List α) := (xs.splitOn sep).filter (· ≠ [])

@[simp] theorem tokens_nil (sep : α) : tokens sep [] = [] := by simp [tokens]

theorem tokens_append_cons (sep : α) (xs ys : List α) :
    tokens sep (xs ++ sep :: ys) = tokens sep xs ++ tokens sep ys := by
  rw [tokens, List.splitOn_append_cons_self, List.filter_append]
  rfl

theorem tokens_single {sep : α} {xs : List α} (free : sep ∉ xs) (nonempty : xs ≠ []) :
    tokens sep xs = [xs] := by
  simp [tokens, List.splitOn_eq_singleton free, nonempty]

theorem Ended.tokens_append {sep : α} {xs : List α} (ended : Ended sep xs) (ys : List α) :
    tokens sep (xs ++ ys) = tokens sep xs ++ tokens sep ys := by
  rcases ended with rfl | ⟨line, rfl⟩
  · rw [tokens_nil, List.nil_append, List.nil_append]
  · have alone := tokens_append_cons sep line []
    rw [tokens_nil, List.append_nil] at alone
    rw [alone, List.append_assoc, List.singleton_append, tokens_append_cons]

/-- Lines that are written one after the other are read back. -/
theorem tokens_lines {sep : α} (lines : List (List α))
    (free : ∀ line ∈ lines, sep ∉ line ∧ line ≠ []) :
    tokens sep (lines.flatMap (· ++ [sep])) = lines := by
  induction lines with
  | nil => exact tokens_nil sep
  | cons line lines ih =>
    obtain ⟨single, nonempty⟩ := free line List.mem_cons_self
    have later := ih fun l member => free l (List.mem_cons_of_mem line member)
    rw [List.flatMap_cons, List.append_assoc, List.singleton_append, tokens_append_cons,
      tokens_single single nonempty, later]
    rfl

theorem notMem_of_mem_splitOn {sep : α} {xs piece : List α} (member : piece ∈ xs.splitOn sep) :
    sep ∉ piece := by
  induction xs generalizing piece with
  | nil =>
    rw [List.splitOn_nil, List.mem_singleton] at member
    rw [member]
    exact List.not_mem_nil
  | cons c xs ih =>
    rw [List.splitOn_cons_eq_if_modifyHead] at member
    split at member
    next =>
      rcases List.mem_cons.mp member with rfl | member
      · exact List.not_mem_nil
      · exact ih member
    next other =>
      obtain ⟨head, tail, pieces⟩ := List.exists_cons_of_ne_nil (List.splitOn_ne_nil sep xs)
      rw [pieces] at ih
      rw [pieces, List.modifyHead_cons] at member
      rcases List.mem_cons.mp member with rfl | member
      · have rest := ih List.mem_cons_self
        have here : sep ≠ c := fun same => other (same ▸ beq_self_eq_true sep)
        exact fun found => (List.mem_cons.mp found).elim here rest
      · exact ih (List.mem_cons_of_mem head member)

/-- A text is one piece, or a piece, a separator and a text. -/
theorem split_induction (sep : α) {P : List α → Prop} (last : ∀ piece, sep ∉ piece → P piece)
    (more : ∀ piece rest, sep ∉ piece → P rest → P (piece ++ sep :: rest)) (xs : List α) :
    P xs := by
  induction size : xs.length using Nat.strongRecOn generalizing xs with
  | ind n ih =>
    by_cases member : sep ∈ xs
    · obtain ⟨piece, rest, rfl, free⟩ := List.eq_append_cons_of_mem member
      rw [List.length_append, List.length_cons] at size
      exact more piece rest free (ih rest.length (by omega) rest rfl)
    · exact last xs member

theorem mem_of_mem_tokens {sep c : α} {xs piece : List α} (member : piece ∈ tokens sep xs)
    (inside : c ∈ piece) : c ∈ xs := by
  induction xs using split_induction sep generalizing piece with
  | last xs free =>
    rw [tokens, List.splitOn_eq_singleton free] at member
    rwa [← List.mem_singleton.mp (List.mem_filter.mp member).1]
  | more first rest free ih =>
    rw [tokens_append_cons, List.mem_append] at member
    rw [List.mem_append]
    rcases member with here | later
    · rw [tokens, List.splitOn_eq_singleton free] at here
      rw [← List.mem_singleton.mp (List.mem_filter.mp here).1]
      exact Or.inl inside
    · exact Or.inr (List.mem_cons_of_mem sep (ih later inside))

/-- The pieces together are all but the separators. -/
theorem flatten_tokens (sep : α) (xs : List α) :
    (tokens sep xs).flatten = xs.filter (· ≠ sep) := by
  have free_eq : ∀ piece : List α, sep ∉ piece → piece.filter (· ≠ sep) = piece := by
    intro piece free
    rw [List.filter_eq_self]
    intro c member
    apply decide_eq_true
    rintro rfl
    exact free member
  have whole : ∀ piece : List α, sep ∉ piece → (tokens sep piece).flatten = piece := by
    intro piece free
    by_cases empty : piece = []
    · simp [empty]
    · rw [tokens_single free empty, List.flatten_singleton]
  induction xs using split_induction sep with
  | last piece free => rw [whole piece free, free_eq piece free]
  | more piece rest free ih =>
    rw [tokens_append_cons, List.flatten_append, whole piece free, ih, List.filter_append,
      free_eq piece free, List.filter_cons, if_neg (by simp)]

theorem notMem_of_mem_tokens {sep : α} {xs piece : List α} (member : piece ∈ tokens sep xs) :
    sep ∉ piece :=
  notMem_of_mem_splitOn (List.mem_filter.mp member).1

end QuickIO.Lib
