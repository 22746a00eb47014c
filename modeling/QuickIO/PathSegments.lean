import QuickIO.Cleaning
import QuickIO.Lib.Search
import QuickIO.Routing

/-!
# Paths as segments

What a spelling of a path names is the list of its segments: what stands between slashes
once the bytes that are not allowed are gone. `evs_make_path` joins the segments of its
arguments, so any spelling of them makes the same path, as long as it can be printed.
-/
namespace QuickIO

open Lib

/-- The segments a text names. -/
def segments (s : Bytes) : List Bytes := tokens slash (s.filter fun c => PathChar c)

/-- Each segment behind a slash. -/
def joinSegments (segs : List Bytes) : Bytes := segs.flatMap fun seg => slash :: seg

/-- What a segment is made of. -/
structure Segment (seg : Bytes) : Prop where
  chars : ∀ c ∈ seg, PathChar c
  noSlash : slash ∉ seg
  nonempty : seg ≠ []

@[simp] theorem joinSegments_nil : joinSegments [] = [] := rfl

@[simp] theorem joinSegments_cons (seg : Bytes) (segs : List Bytes) :
    joinSegments (seg :: segs) = slash :: (seg ++ joinSegments segs) := rfl

theorem segments_segment {s seg : Bytes} (member : seg ∈ segments s) : Segment seg where
  chars c inside := by
    simpa using (List.mem_filter.mp (mem_of_mem_tokens member inside)).2
  noSlash := notMem_of_mem_tokens member
  nonempty := by simpa using (List.mem_filter.mp member).2

theorem segments_append_slash (s t : Bytes) :
    segments (s ++ slash :: t) = segments s ++ segments t := by
  have char : PathChar slash := by decide
  rw [segments, List.filter_append, List.filter_cons, if_pos (by simpa using char),
    tokens_append_cons]
  rfl

@[simp] theorem segments_nil : segments [] = [] := by simp [segments]

theorem tokens_slash (s : Bytes) : tokens slash (slash :: s) = tokens slash s := by
  simpa using tokens_append_cons slash [] s

/-! ### Cleaning in terms of segments -/

theorem collapseSlashes_free {x : Bytes} (free : slash ∉ x) (s : Bytes) :
    collapseSlashes (x ++ s) = x ++ collapseSlashes s := by
  induction x with
  | nil => rfl
  | cons c x ih =>
    have other : c ≠ slash := fun same => free (same ▸ List.mem_cons_self)
    rw [List.cons_append, collapseSlashes_other other,
      ih fun member => free (List.mem_cons_of_mem c member), List.cons_append]

/-- Cleaning what begins with a slash joins its segments. -/
theorem clean_slash (s : Bytes) :
    dropTrailingSlash (collapseSlashes (slash :: s)) = joinSegments (tokens slash s) := by
  induction s using split_induction slash with
  | last x free =>
    have plain : collapseSlashes x = x := by
      simpa [collapseSlashes] using collapseSlashes_free free []
    cases x with
    | nil => simp [collapseSlashes, dropTrailingSlash]
    | cons c x =>
      have other : c ≠ slash := fun same => free (same ▸ List.mem_cons_self)
      rw [collapseSlashes_slash, plain, dropSlash, if_neg other, dropTrailingSlash, if_neg]
      · rw [tokens_single free (List.cons_ne_nil c x)]
        simp
      · intro trailing
        rw [List.getLast?_cons_cons] at trailing
        exact free (List.mem_of_getLast? trailing)
  | more x rest free ih =>
    cases x with
    | nil =>
      -- two slashes in a row are one
      rw [List.nil_append, collapseSlashes, if_pos ⟨rfl, rfl⟩, ih, tokens_slash]
    | cons c x =>
      have other : c ≠ slash := fun same => free (same ▸ List.mem_cons_self)
      have behind : dropTrailingSlash (slash :: c :: x ++ collapseSlashes (slash :: rest)) =
          slash :: c :: x ++ dropTrailingSlash (collapseSlashes (slash :: rest)) := by
        have some_ : collapseSlashes (slash :: rest) ≠ [] := by
          rw [collapseSlashes_slash]
          exact List.cons_ne_nil _ _
        simp only [dropTrailingSlash, List.getLast?_append_of_ne_nil _ some_]
        split
        · rw [List.dropLast_append_of_ne_nil some_]
        · rfl
      rw [collapseSlashes_slash, collapseSlashes_free free, List.cons_append, dropSlash,
        if_neg other, ← List.cons_append, ← List.cons_append, behind, ih, tokens_append_cons,
        tokens_single free (List.cons_ne_nil c x)]
      simp

theorem evsCleanPath_joinSegments (s : Bytes) : evsCleanPath (slash :: s) = joinSegments (segments s) := by
  have char : PathChar slash := by decide
  rw [evsCleanPath_eq, cleaned, List.filter_cons, if_pos (by simpa using char), clean_slash]
  rfl

theorem segments_joinedParts (evPrefix evPath evExtra : Option Bytes) :
    segments (joinedParts evPrefix evPath evExtra) =
      segments (evPrefix.getD []) ++
        (segments (evPath.getD []) ++ segments (evExtra.getD [])) := by
  rw [joinedParts, segments_append_slash, segments_append_slash]

theorem evsCleanPath_anchored (p : Bytes) :
    evsCleanPath (anchored p) = joinSegments (segments p) := by
  unfold anchored
  split
  next first =>
    -- a slash that is there already
    obtain ⟨s, eq⟩ := List.head?_eq_some_iff.mp first
    rw [eq, evsCleanPath_joinSegments, ← List.nil_append (slash :: s), segments_append_slash]
    rfl
  next => exact evsCleanPath_joinSegments _

/-- A made path is the segments of its arguments, each behind a slash. -/
theorem evsMakePath_joinSegments {evPrefix evPath evExtra : Option Bytes}
    (fits : (joinedParts evPrefix evPath evExtra).length < 2 ^ 31) :
    evsMakePath evPrefix evPath evExtra = joinSegments (segments (evPrefix.getD []) ++
      (segments (evPath.getD []) ++ segments (evExtra.getD []))) := by
  rw [evsMakePath_of_fits fits, evsCleanPath_anchored, segments_joinedParts]

theorem tokens_joinSegments (segs : List Bytes) (all : ∀ seg ∈ segs, Segment seg) :
    tokens slash (joinSegments segs) = segs := by
  induction segs with
  | nil => exact tokens_nil slash
  | cons seg segs ih =>
    have first := all seg List.mem_cons_self
    have later := ih fun t member => all t (List.mem_cons_of_mem seg member)
    rw [joinSegments_cons, tokens_slash]
    cases segs with
    | nil => simpa using tokens_single first.noSlash first.nonempty
    | cons next segs =>
      rw [joinSegments_cons, tokens_slash] at later
      rw [joinSegments_cons, tokens_append_cons, later, tokens_single first.noSlash first.nonempty]
      rfl

theorem joinSegments_chars (segs : List Bytes) (all : ∀ seg ∈ segs, Segment seg) :
    ∀ c ∈ joinSegments segs, PathChar c := by
  intro c member
  obtain ⟨seg, inside, here⟩ := List.mem_flatMap.mp member
  rcases List.mem_cons.mp here with rfl | later
  · decide
  · exact (all seg inside).chars c later

theorem filter_pathChar {p : Bytes} (chars : ∀ c ∈ p, PathChar c) :
    (p.filter fun c => PathChar c) = p :=
  List.filter_eq_self.mpr fun c member => decide_eq_true (chars c member)

theorem segments_joinSegments (segs : List Bytes) (all : ∀ seg ∈ segs, Segment seg) :
    segments (joinSegments segs) = segs := by
  rw [segments, filter_pathChar (joinSegments_chars segs all), tokens_joinSegments segs all]

theorem tokens_dropTrailingSlash (p : Bytes) :
    tokens slash (dropTrailingSlash p) = tokens slash p := by
  rcases List.eq_nil_or_concat p with rfl | ⟨p, c, rfl⟩
  · rfl
  · rw [List.concat_eq_append, dropTrailingSlash_concat]
    split
    next final =>
      subst final
      simpa using (tokens_append_cons slash p []).symm
    next => rfl

theorem tokens_dropSlash (p : Bytes) : tokens slash (dropSlash p) = tokens slash p := by
  cases p with
  | nil => rfl
  | cons c p =>
    rw [dropSlash]
    split
    next first => rw [first, tokens_slash]
    next => rfl

/-- Cleaning changes no segment. -/
theorem segments_evsCleanPath (s : Bytes) : segments (evsCleanPath s) = segments s := by
  have collapsed : ∀ f : Bytes, (∀ c ∈ f, PathChar c) →
      tokens slash (collapseSlashes f) = tokens slash f := by
    intro f chars
    -- with a slash in front of it, and that slash taken away again
    have all : ∀ seg ∈ tokens slash f, Segment seg := fun seg member =>
      segments_segment (s := f) (by rwa [segments, filter_pathChar chars])
    rw [← tokens_dropSlash, ← tokens_slash, ← collapseSlashes_slash, ← tokens_dropTrailingSlash,
      clean_slash, tokens_joinSegments _ all]
  have chars : ∀ c ∈ s.filter fun c => PathChar c, PathChar c := fun c member => by
    simpa using (List.mem_filter.mp member).2
  rw [evsCleanPath_eq, segments, filter_pathChar (cleaned_wellSpelled s).chars, cleaned,
    tokens_dropTrailingSlash, collapsed _ chars]
  rfl

/-! ### Made paths -/

theorem segments_getD (part : Option Bytes) :
    segments ((part.map evsCleanPath).getD []) = segments (part.getD []) := by
  cases part with
  | none => rfl
  | some s => exact segments_evsCleanPath s

theorem segment_made (evPrefix evPath evExtra : Option Bytes) :
    ∀ seg ∈ segments (evPrefix.getD []) ++
      (segments (evPath.getD []) ++ segments (evExtra.getD [])), Segment seg := by
  intro seg member
  rcases List.mem_append.mp member with first | later
  · exact segments_segment first
  · rcases List.mem_append.mp later with second | third
    · exact segments_segment second
    · exact segments_segment third

/-- A made path names the segments it was made of. -/
theorem segments_evsMakePath {evPrefix evPath evExtra : Option Bytes}
    (fits : (joinedParts evPrefix evPath evExtra).length < 2 ^ 31) :
    segments (evsMakePath evPrefix evPath evExtra) = segments (evPrefix.getD []) ++
      (segments (evPath.getD []) ++ segments (evExtra.getD [])) := by
  rw [evsMakePath_joinSegments fits,
    segments_joinSegments _ (segment_made evPrefix evPath evExtra)]

/-- Nothing, or one slash and a segment. -/
theorem evsMakePath_anchored (evPrefix evPath evExtra : Option Bytes) :
    evsMakePath evPrefix evPath evExtra = [] ∨
      ∃ c p, evsMakePath evPrefix evPath evExtra = slash :: c :: p ∧ c ≠ slash := by
  rcases Nat.lt_or_ge (joinedParts evPrefix evPath evExtra).length (2 ^ 31) with fits | overflow
  · have all := segment_made evPrefix evPath evExtra
    rw [evsMakePath_joinSegments fits]
    cases segs : segments (evPrefix.getD []) ++
        (segments (evPath.getD []) ++ segments (evExtra.getD [])) with
    | nil => exact Or.inl rfl
    | cons seg rest =>
      rw [segs] at all
      have first := all seg List.mem_cons_self
      obtain ⟨c, more, rfl⟩ := List.exists_cons_of_ne_nil first.nonempty
      have other : c ≠ slash := fun same => first.noSlash (same ▸ List.mem_cons_self)
      exact Or.inr ⟨c, more ++ joinSegments rest, rfl, other⟩
  · exact Or.inl (evsMakePath_of_overflow overflow)

theorem evsCleanPath_evsMakePath (evPrefix evPath evExtra : Option Bytes) :
    evsCleanPath (evsMakePath evPrefix evPath evExtra) = evsMakePath evPrefix evPath evExtra := by
  rw [evsMakePath_eq]
  exact evsCleanPath_idempotent _

/-- Cleaned parts are no longer. -/
theorem joinedParts_clean_fits {evPrefix evPath evExtra : Option Bytes}
    (fits : (joinedParts evPrefix evPath evExtra).length < 2 ^ 31) :
    (joinedParts (evPrefix.map evsCleanPath) (evPath.map evsCleanPath)
      (evExtra.map evsCleanPath)).length < 2 ^ 31 := by
  have shorter : ∀ part : Option Bytes,
      ((part.map evsCleanPath).getD []).length ≤ (part.getD []).length := by
    intro part
    cases part with
    | none => exact Nat.le_refl 0
    | some s => exact length_evsCleanPath s
  have first := shorter evPrefix
  have second := shorter evPath
  have third := shorter evExtra
  simp only [joinedParts, List.length_append, List.length_cons] at fits ⊢
  omega

theorem dropTrailingSlash_cons {c : UInt8} (other : c ≠ slash) (p : Bytes) :
    ∃ q, dropTrailingSlash (c :: p) = c :: q := by
  cases p with
  | nil => exact ⟨[], by simp [dropTrailingSlash, other]⟩
  | cons d p =>
    rw [dropTrailingSlash]
    split
    · exact ⟨(d :: p).dropLast, rfl⟩
    · exact ⟨d :: p, rfl⟩

theorem dropTrailingSlash_slash_cons {p : Bytes} (some_ : p ≠ []) :
    dropTrailingSlash (slash :: p) = slash :: dropTrailingSlash p := by
  obtain ⟨c, p, rfl⟩ := List.exists_cons_of_ne_nil some_
  simp only [dropTrailingSlash, List.getLast?_cons_cons]
  split
  · rfl
  · rfl

/-- But for a leading slash, a cleaned path is its segments joined. -/
theorem dropSlash_evsCleanPath (s : Bytes) :
    dropSlash (evsCleanPath s) = dropSlash (joinSegments (segments s)) := by
  have char : PathChar slash := by decide
  have anchored : joinSegments (segments s) = dropTrailingSlash
      (slash :: dropSlash (collapseSlashes (s.filter fun c => PathChar c))) := by
    rw [← evsCleanPath_joinSegments, evsCleanPath_eq, cleaned, List.filter_cons,
      if_pos (by simpa using char), collapseSlashes_slash]
  rw [anchored, evsCleanPath_eq, cleaned]
  cases collapseSlashes (s.filter fun c => PathChar c) with
  | nil => rfl
  | cons c p =>
    by_cases first : c = slash
    · rw [first, dropSlash_slash]
    · have plain : dropSlash (c :: p) = c :: p := by rw [dropSlash, if_neg first]
      rw [plain, dropTrailingSlash_slash_cons (List.cons_ne_nil c p), dropSlash_slash]
      obtain ⟨q, eq⟩ := dropTrailingSlash_cons first p
      rw [eq, dropSlash, if_neg first]

/-- A registration whose path can be printed, is not empty and not taken is found under
every spelling of that path, whatever is registered besides. -/
theorem evsQuery_spelling {H : Type} (pre post : List (Registration H)) (r : Registration H)
    (fits : (joinedParts r.evPrefix r.evPath r.evExtra).length < 2 ^ 31)
    (named : r.path ≠ []) (first : ∀ d ∈ pre, d.path ≠ r.path) (p : Bytes)
    (spells : segments p = segments (r.evPrefix.getD []) ++
      (segments (r.evPath.getD []) ++ segments (r.evExtra.getD []))) :
    ∃ t, insertAll PrefixTree.empty (pre ++ r :: post) = .ok t ∧
      evsQuery t (evsCleanPath p) = .ok (some (r.event, [])) := by
  obtain ⟨t, answer, inserted, -, query, answers⟩ :=
    insertAll_evsQuery (pre ++ r :: post) p false
  have same : dropSlash (evsCleanPath p) = dropSlash r.path := by
    rw [dropSlash_evsCleanPath, spells, Registration.path, evsMakePath_joinSegments fits]
  have path : r.path = slash :: dropSlash r.path := by
    rcases evsMakePath_anchored r.evPrefix r.evPath r.evExtra with empty | ⟨c, k, eq, -⟩
    · exact absurd empty named
    · rw [Registration.path, eq, dropSlash_slash]
  have owner := registered_first pre post r _ path first
  rw [← same] at owner
  rw [answers.owned owner, evsQuery, dropSlash_spelled] at query
  exact ⟨t, inserted, query⟩

/-- Path building is a congruence: a made path is empty or begins with one slash and is
spelled well. As long as the parts can be printed, it depends on its arguments only as they
are cleaned, and is made in any grouping; and an event added under any prefix and path is the
one that is found by cleaning any spelling of the two. -/
theorem path_building {H : Type} :
    (∀ a b c : Option Bytes,
      (evsMakePath a b c = [] ∨ ∃ d p, evsMakePath a b c = slash :: d :: p ∧ d ≠ slash) ∧
      evsCleanPath (evsMakePath a b c) = evsMakePath a b c ∧
      ((joinedParts a b c).length < 2 ^ 31 →
        evsMakePath a b c =
          evsMakePath (a.map evsCleanPath) (b.map evsCleanPath) (c.map evsCleanPath) ∧
        ((joinedParts (some (evsMakePath a b none)) c none).length < 2 ^ 31 →
          evsMakePath (some (evsMakePath a b none)) c none = evsMakePath a b c))) ∧
    ∀ (pre post : List (Registration H)) (evPrefix evPath : Option Bytes) (handlers : H)
      (handleChildren : Bool),
      (joinedParts evPrefix evPath none).length < 2 ^ 31 →
      evsMakePath evPrefix evPath none ≠ [] →
      (∀ d ∈ pre, d.path ≠ evsMakePath evPrefix evPath none) →
      ∀ p, segments p = segments (evPrefix.getD []) ++ segments (evPath.getD []) →
        ∃ t, insertAll PrefixTree.empty
            (pre ++ ⟨evPrefix, evPath, none, handlers, handleChildren⟩ :: post) = .ok t ∧
          evsQuery t (evsCleanPath p) =
            .ok (some (⟨evsMakePath evPrefix evPath none, handlers, handleChildren⟩, [])) := by
  refine ⟨fun a b c => ⟨evsMakePath_anchored a b c, evsCleanPath_evsMakePath a b c,
    fun fits => ⟨?_, fun fits' => ?_⟩⟩, ?_⟩
  · rw [evsMakePath_joinSegments fits, evsMakePath_joinSegments (joinedParts_clean_fits fits),
      segments_getD, segments_getD, segments_getD]
  · have first : (joinedParts a b none).length < 2 ^ 31 := by
      simp only [joinedParts, List.length_append, List.length_cons, Option.getD_none,
        List.length_nil] at fits ⊢
      omega
    rw [evsMakePath_joinSegments fits', Option.getD_some, segments_evsMakePath first,
      evsMakePath_joinSegments fits]
    simp
  · intro pre post evPrefix evPath handlers handleChildren fits named first p spells
    refine evsQuery_spelling pre post ⟨evPrefix, evPath, none, handlers, handleChildren⟩ fits named
      first p ?_
    simpa using spells

/-- A handler added under one spelling is found under another. -/
theorem path_building_spelling :
    ∃ t, insertAll PrefixTree.empty
        [⟨some (str "/test"), some (str "good//"), none, (), false⟩] = .ok t ∧
      evsQuery t (evsCleanPath (str "te*st///good/")) =
        .ok (some (⟨str "/test/good", (), false⟩, [])) := by
  have path : evsMakePath (some (str "/test")) (some (str "good//")) none = str "/test/good" := by
    decide
  have found := path_building.2 [] [] (some (str "/test")) (some (str "good//")) () false
    (by decide) (by decide) (by simp) (str "te*st///good/") (by decide +kernel)
  rw [path] at found
  exact found

/-- Bytes that cleaning removes count for the printing. -/
theorem path_building_overflow :
    ¬∀ a b c : Option Bytes, evsMakePath a b c =
      evsMakePath (a.map evsCleanPath) (b.map evsCleanPath) (c.map evsCleanPath) := by
  intro claim
  let marks : Bytes := List.replicate (2 ^ 31) 0x21
  have cleaned : evsCleanPath marks = [] := by
    have dropped : ∀ n, cleanLoop false (List.replicate n 0x21) = [] := by
      intro n
      induction n with
      | zero => rfl
      | succ n ih =>
        rw [List.replicate_succ, cleanLoop]
        exact ih
    rw [evsCleanPath, dropped]
    rfl
  have overflow : 2 ^ 31 ≤ (joinedParts (some marks) (some (str "x")) none).length := by
    rw [joinedParts, List.length_append, Option.getD_some, List.length_replicate]
    exact Nat.le_add_right _ _
  have same := claim (some marks) (some (str "x")) none
  rw [evsMakePath_of_overflow overflow, Option.map_some, cleaned] at same
  exact absurd same (by decide)

end QuickIO
