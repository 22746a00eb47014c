import Mathlib.Data.List.TakeWhile
import QuickIO.Lib.Memory
import QuickIO.Lib.Search

/-!
# `strtok_r`

A NUL-terminated string is cut up where it lies: each call ends a piece with a NUL
of its own and remembers where it stopped. Whoever is given a piece may write in its
bytes before the next call. The pieces are still those of the string as it was.
-/
namespace QuickIO.Lib

/-- The NUL-terminated string at a position. -/
def stringAt (buf : List UInt8) (pos : Nat) : List UInt8 := (buf.drop pos).takeWhile (· ≠ 0)

/-- `strtok_r` with one separator, from a position: the memory it leaves, where the
next piece begins, if there is one, and `saveptr`. -/
def strtokR (sep : UInt8) (buf : List UInt8) (pos : Nat) : List UInt8 × Option Nat × Nat :=
  let start := pos + ((buf.drop pos).takeWhile (· = sep)).length
  if buf.getD start 0 = 0 then (buf, none, start)
  else
    let stop := start + ((buf.drop start).takeWhile fun c => c ≠ sep && c ≠ 0).length
    if buf.getD stop 0 = 0 then (buf, some start, stop)
    else (writeAt buf stop [0], some start, stop + 1)

section Loop

variable {S : Type} (visit : S → List UInt8 → S × Option (List UInt8))

/-- A loop over the pieces. A visit says what it leaves in the bytes of its piece,
or that the loop ends there. -/
def eachToken (sep : UInt8) : Nat → S → List UInt8 → Nat → S × Bool
  | 0, s, _, _ => (s, true)
  | fuel + 1, s, buf, pos =>
    match strtokR sep buf pos with
    | (_, none, _) => (s, true)
    | (buf, some start, pos) =>
      match visit s (stringAt buf start) with
      | (s, some left) => eachToken sep fuel s (writeAt buf start left) pos
      | (s, none) => (s, false)

/-- The same visits, to the pieces of a list. -/
def visitAll : S → List (List UInt8) → S × Bool
  | s, [] => (s, true)
  | s, piece :: pieces =>
    match visit s piece with
    | (s, some _) => visitAll s pieces
    | (s, none) => (s, false)

end Loop

/-! ### What one call finds -/

variable {sep : UInt8}

theorem getD_behind (before rest : List UInt8) (c : UInt8) :
    (before ++ c :: rest).getD before.length 0 = c := by
  simp

/-- Only separators are left. -/
theorem strtokR_none (nonzero : sep ≠ 0) (before seps after : List UInt8)
    (all : ∀ c ∈ seps, c = sep) :
    (strtokR sep (before ++ (seps ++ 0 :: after)) before.length).2.1 = none := by
  have skipped : ((before ++ (seps ++ 0 :: after)).drop before.length).takeWhile (· = sep) =
      seps := by
    rw [List.drop_left, List.takeWhile_append_of_pos (fun c member => decide_eq_true (all c member))]
    simp [nonzero.symm]
  have ended : (before ++ (seps ++ 0 :: after)).getD (before.length + seps.length) 0 = 0 := by
    have here := getD_behind (before ++ seps) after 0
    rwa [List.length_append, List.append_assoc] at here
  rw [strtokR, skipped, if_pos ended]

theorem stringAt_append (before text after : List UInt8) (noNul : 0 ∉ text) :
    stringAt (before ++ (text ++ 0 :: after)) before.length = text := by
  rw [stringAt, List.drop_left, List.takeWhile_append_of_pos]
  · simp
  · intro c member
    apply decide_eq_true
    rintro rfl
    exact noNul member

/-- A piece behind some separators. -/
structure Piece (sep : UInt8) (seps piece : List UInt8) : Prop where
  blank : ∀ c ∈ seps, c = sep
  free : sep ∉ piece
  noNul : 0 ∉ piece
  nonempty : piece ≠ []

/-- The next piece, up to a separator or the end, and the memory with a NUL behind it. -/
theorem strtokR_piece {seps piece : List UInt8} (is : Piece sep seps piece)
    (before tail : List UInt8) (d : UInt8) (ends : d = sep ∨ d = 0) :
    strtokR sep (before ++ (seps ++ (piece ++ d :: tail))) before.length =
      (before ++ seps ++ (piece ++ 0 :: tail), some (before ++ seps).length,
        (before ++ seps).length + piece.length + if d = 0 then 0 else 1) := by
  obtain ⟨c, piece', shape⟩ := List.exists_cons_of_ne_nil is.nonempty
  have notSep : c ≠ sep := fun same => is.free (by rw [shape, same]; exact List.mem_cons_self)
  have notNul : c ≠ 0 := fun same => is.noNul (by rw [shape, same]; exact List.mem_cons_self)
  have buffer : before ++ (seps ++ (piece ++ d :: tail)) =
      before ++ seps ++ (piece ++ d :: tail) := by simp
  have skipped : ((before ++ seps ++ (piece ++ d :: tail)).drop before.length).takeWhile (· = sep) =
      seps := by
    rw [List.append_assoc, List.drop_left,
      List.takeWhile_append_of_pos (fun c member => decide_eq_true (is.blank c member)), shape]
    simp [notSep]
  have start : before.length + seps.length = (before ++ seps).length := by simp
  have first : (before ++ seps ++ (piece ++ d :: tail)).getD (before ++ seps).length 0 = c := by
    rw [shape]
    exact getD_behind (before ++ seps) _ c
  have inside : ∀ d ∈ piece, (decide (d ≠ sep) && decide (d ≠ 0)) = true := by
    intro d member
    have notSep : d ≠ sep := fun same => is.free (same ▸ member)
    have notNul : d ≠ 0 := fun same => is.noNul (same ▸ member)
    simp [notSep, notNul]
  have found : ((before ++ seps ++ (piece ++ d :: tail)).drop
      (before ++ seps).length).takeWhile (fun c => c ≠ sep && c ≠ 0) = piece := by
    rw [List.drop_left, List.takeWhile_append_of_pos inside]
    rcases ends with rfl | rfl
    · simp
    · simp
  have last : (before ++ seps ++ (piece ++ d :: tail)).getD
      ((before ++ seps).length + piece.length) 0 = d := by
    have here := getD_behind (before ++ seps ++ piece) tail d
    rwa [List.length_append, List.append_assoc] at here
  rw [buffer]
  simp only [strtokR, skipped, start, first, notNul, if_false, found, last]
  -- the piece ends at the NUL that was there, or at one of its own
  by_cases ended : d = 0
  · rw [if_pos ended, if_pos ended, ended]
    rfl
  · have written := writeAt_append (before ++ seps ++ piece) [d] tail [0]
      ((before ++ seps).length + piece.length) List.length_append rfl
    rw [if_neg ended, if_neg ended]
    simp only [List.append_assoc, List.singleton_append] at written ⊢
    rw [written]

/-! ### The loop over all pieces -/

/-- A list up to the first element that is different. -/
theorem exists_span (p : UInt8 → Bool) (xs : List UInt8) :
    ∃ first rest, xs = first ++ rest ∧ (∀ c ∈ first, p c) ∧
      (rest = [] ∨ ∃ c more, rest = c :: more ∧ p c = false) := by
  induction xs with
  | nil => exact ⟨[], [], rfl, by simp, Or.inl rfl⟩
  | cons c xs ih =>
    cases is : p c with
    | false => exact ⟨[], c :: xs, rfl, by simp, Or.inr ⟨c, xs, rfl, is⟩⟩
    | true =>
      obtain ⟨first, rest, rfl, all, ends⟩ := ih
      exact ⟨c :: first, rest, rfl, List.forall_mem_cons.mpr ⟨is, all⟩, ends⟩

/-- A text without NULs is separators and a piece, or separators only. -/
theorem exists_piece (sep : UInt8) (text : List UInt8) (noNul : 0 ∉ text) :
    (∀ c ∈ text, c = sep) ∨
      ∃ seps piece rest, text = seps ++ (piece ++ rest) ∧ Piece sep seps piece ∧
        (rest = [] ∨ ∃ more, rest = sep :: more) := by
  obtain ⟨seps, behind, rfl, blank, ends⟩ := exists_span (· = sep) text
  have blank : ∀ c ∈ seps, c = sep := fun c member => of_decide_eq_true (blank c member)
  rcases ends with rfl | ⟨c, more, rfl, other⟩
  · left
    rwa [List.append_nil]
  · right
    obtain ⟨piece, rest, same, free, ends⟩ := exists_span (· ≠ sep) (c :: more)
    refine ⟨seps, piece, rest, by rw [same], ⟨blank, ?_, ?_, ?_⟩, ?_⟩
    · intro member
      exact absurd rfl (of_decide_eq_true (free sep member))
    · intro member
      rw [same] at noNul
      exact noNul (List.mem_append_right _ (List.mem_append_left _ member))
    · -- the piece holds at least the first byte that is no separator
      rintro rfl
      rcases ends with rfl | ⟨d, more', rfl, isSep⟩
      · cases same
      · rw [List.nil_append] at same
        rw [← (List.cons.inj same).1] at isSep
        simp at isSep other
        exact other isSep
    · rcases ends with rfl | ⟨d, more', rfl, isSep⟩
      · exact Or.inl rfl
      · have d_eq : d = sep := by simpa using isSep
        exact Or.inr ⟨more', by rw [d_eq]⟩

theorem tokens_blank (seps text : List UInt8) (blank : ∀ c ∈ seps, c = sep) :
    tokens sep (seps ++ text) = tokens sep text := by
  induction seps with
  | nil => rfl
  | cons c seps ih =>
    have later := ih fun d member => blank d (List.mem_cons_of_mem c member)
    have first := tokens_append_cons sep [] (seps ++ text)
    rw [tokens_nil, List.nil_append, List.nil_append, later] at first
    rw [blank c List.mem_cons_self]
    exact first

theorem tokens_piece {seps piece : List UInt8} (is : Piece sep seps piece) (more : List UInt8) :
    tokens sep (seps ++ (piece ++ sep :: more)) = piece :: tokens sep more := by
  rw [tokens_blank _ _ is.blank, tokens_append_cons, tokens_single is.free is.nonempty]
  rfl

theorem tokens_last {seps piece : List UInt8} (is : Piece sep seps piece) :
    tokens sep (seps ++ piece) = [piece] := by
  rw [tokens_blank _ _ is.blank, tokens_single is.free is.nonempty]

/-- Bytes of a piece are written over, and nothing else. -/
theorem writeAt_piece (before piece after left : List UInt8) (fits : left.length ≤ piece.length) :
    ∃ piece' : List UInt8, piece'.length = piece.length ∧
      writeAt (before ++ (piece ++ after)) before.length left = before ++ (piece' ++ after) := by
  have split : piece = piece.take left.length ++ piece.drop left.length :=
    (List.take_append_drop _ _).symm
  have wide : (piece.take left.length).length = left.length := by
    rw [List.length_take]
    omega
  refine ⟨left ++ piece.drop left.length, ?_, ?_⟩
  · rw [List.length_append, List.length_drop]
    omega
  · have written := writeAt_append before (piece.take left.length)
      (piece.drop left.length ++ after) left before.length rfl wide
    rw [← List.append_assoc (piece.take left.length), ← split] at written
    rw [written, List.append_assoc]

/-- The loop visits the pieces of the string as it was at the beginning. -/
theorem eachToken_eq {S : Type} (nonzero : sep ≠ 0)
    (visit : S → List UInt8 → S × Option (List UInt8))
    (inside : ∀ s piece left, (visit s piece).2 = some left → left.length ≤ piece.length)
    (fuel : Nat) (s : S) (before text after : List UInt8) (noNul : 0 ∉ text)
    (enough : text.length < fuel) :
    eachToken visit sep fuel s (before ++ (text ++ 0 :: after)) before.length =
      visitAll visit s (tokens sep text) := by
  induction fuel generalizing s before text with
  | zero => omega
  | succ fuel ih =>
    rcases exists_piece sep text noNul with
      blank | ⟨seps, piece, rest, rfl, is, ends⟩
    · have none := strtokR_none nonzero before text after blank
      have empty : tokens sep text = [] := by
        have all := tokens_blank text [] blank
        rwa [List.append_nil, tokens_nil] at all
      rw [eachToken, empty]
      split
      next => rfl
      next found =>
        rw [found] at none
        cases none
    · -- what is written in the piece does not reach behind its NUL
      have token : ∀ tail, stringAt (before ++ seps ++ (piece ++ 0 :: tail))
          (before ++ seps).length = piece :=
        fun tail => stringAt_append (before ++ seps) piece tail is.noNul
      have some := List.length_pos_iff.mpr is.nonempty
      simp only [List.length_append] at enough
      rcases ends with rfl | ⟨more, rfl⟩
      · have buffer : before ++ (seps ++ (piece ++ []) ++ 0 :: after) =
            before ++ (seps ++ (piece ++ 0 :: after)) := by simp
        have next := strtokR_piece is before after 0 (Or.inr rfl)
        rw [if_pos rfl, Nat.add_zero] at next
        rw [buffer, eachToken, next, List.append_nil, tokens_last is, visitAll]
        dsimp only
        rw [token]
        cases visited : visit s piece with
        | mk s' left =>
          cases left with
          | none => rfl
          | some left =>
            obtain ⟨piece', size, written⟩ := writeAt_piece (before ++ seps) piece (0 :: after) left
              (inside s piece left (by rw [visited]))
            have later := ih s' (before ++ seps ++ piece') [] (by simp)
              (show 0 < fuel by omega)
            rw [List.length_append, size, List.nil_append, List.append_assoc _ piece',
              tokens_nil] at later
            dsimp only
            rw [written, later]
      · have buffer : before ++ (seps ++ (piece ++ sep :: more) ++ 0 :: after) =
            before ++ (seps ++ (piece ++ sep :: (more ++ 0 :: after))) := by simp
        have next := strtokR_piece is before (more ++ 0 :: after) sep (Or.inl rfl)
        rw [if_neg nonzero] at next
        rw [buffer, eachToken, next, tokens_piece is, visitAll]
        dsimp only
        rw [token]
        cases visited : visit s piece with
        | mk s' left =>
          cases left with
          | none => rfl
          | some left =>
            obtain ⟨piece', size, written⟩ := writeAt_piece (before ++ seps) piece
              (0 :: (more ++ 0 :: after)) left (inside s piece left (by rw [visited]))
            have noNul' : 0 ∉ more := fun member => noNul
              (List.mem_append_right _ (List.mem_append_right _ (List.mem_cons_of_mem sep member)))
            have later := ih s' (before ++ seps ++ piece' ++ [0]) more noNul'
              (by rw [List.length_cons] at enough; omega)
            have pos : (before ++ seps ++ piece' ++ [0]).length =
                (before ++ seps).length + piece.length + 1 := by
              simp only [List.length_append, List.length_singleton, size]
            have shape : before ++ seps ++ piece' ++ [0] ++ (more ++ 0 :: after) =
                before ++ seps ++ (piece' ++ 0 :: (more ++ 0 :: after)) := by simp
            rw [pos, shape] at later
            dsimp only
            rw [written, later]

/-- A string ends at its first NUL. -/
theorem exists_string (body after : List UInt8) :
    ∃ after' : List UInt8, body ++ 0 :: after = body.takeWhile (· ≠ 0) ++ 0 :: after' := by
  induction body with
  | nil => exact ⟨after, rfl⟩
  | cons c body ih =>
    by_cases zero : c = 0
    · exact ⟨body ++ 0 :: after, by simp [zero]⟩
    · obtain ⟨after', same⟩ := ih
      exact ⟨after', by simpa [zero] using same⟩

theorem takeWhile_free (body : List UInt8) : 0 ∉ body.takeWhile (· ≠ 0) := by
  intro member
  have other := List.mem_takeWhile_imp (p := fun c : UInt8 => decide (c ≠ 0)) member
  simp at other

/-- The rule of the loop, for any memory with a NUL in it. -/
theorem eachToken_string {S : Type} (nonzero : sep ≠ 0)
    (visit : S → List UInt8 → S × Option (List UInt8))
    (inside : ∀ s piece left, (visit s piece).2 = some left → left.length ≤ piece.length)
    (s : S) (before body after : List UInt8) :
    eachToken visit sep ((before ++ (body ++ 0 :: after)).length + 1) s
        (before ++ (body ++ 0 :: after)) before.length =
      visitAll visit s (tokens sep (body.takeWhile (· ≠ 0))) := by
  obtain ⟨after', same⟩ := exists_string body after
  rw [same]
  apply eachToken_eq nonzero visit inside _ s before _ after' (takeWhile_free body)
  simp only [List.length_append]
  omega

end QuickIO.Lib
