import QuickIO.Routing

/-!
# Which children an event receives

The documentation promises an event that handles its children every path below
it, the closest such event winning. The walk keeps only the last such event it
passed, character by character, and gives up when the walk ends inside another
registered path. `children_iff` states when the two agree.
-/
namespace QuickIO

open Lib

variable {H : Type}

/-- `evs_add_handler` is one registration. -/
theorem evsAddHandler_eq (events : Ptrie H) (evPrefix evPath : Option Bytes) (handlers : H)
    (handleChildren : Bool) :
    evsAddHandler events evPrefix evPath handlers handleChildren =
      Registration.insert events ⟨evPrefix, evPath, none, handlers, handleChildren⟩ := rfl

/-- `q` handles its children and `x` is a child path of it. -/
structure Ancestor (rs : List (Registration H)) (k q x : Bytes) (ev : Event H) : Prop where
  handlesAt : HandlesAt rs k q x ev
  child : x.head? = some slash

/-- No other ancestor of `k` is longer than `q`. -/
def Closest (rs : List (Registration H)) (k q : Bytes) : Prop :=
  ∀ q' x' ev', Ancestor rs k q' x' ev' → q'.length ≤ q.length

/-- The documented answer for an unregistered path: its closest ancestor. -/
def Documented (rs : List (Registration H)) (k : Bytes) : Option (Event H × Bytes) → Prop
  | some (ev, x) => ∃ q, Ancestor rs k q x ev ∧ Closest rs k q
  | none => ∀ q x ev, ¬Ancestor rs k q x ev

/-- Nothing registered gets between `k` and its closest ancestor: `k` is not
the beginning of a registered path, and no longer beginning of `k` handles
its children. -/
def Unshadowed (rs : List (Registration H)) (k : Bytes) : Prop :=
  ∀ q x ev, Ancestor rs k q x ev → Closest rs k q →
    (∀ r ∈ rs, ¬slash :: k <+: r.path) ∧
    ∀ q' x' ev', HandlesAt rs k q' x' ev' → q'.length ≤ q.length

/-- Two beginnings of one path of the same length are the same split. -/
theorem HandlesAt.unique {rs : List (Registration H)} {k q q' x x' : Bytes} {ev ev' : Event H}
    (left : HandlesAt rs k q x ev) (right : HandlesAt rs k q' x' ev')
    (same : q.length = q'.length) : q = q' ∧ x = x' ∧ ev = ev' := by
  have splits : q ++ x = q' ++ x' := left.split.symm.trans right.split
  obtain ⟨rfl, rfl⟩ := List.append_inj splits same
  have stored := left.stored.symm.trans right.stored
  exact ⟨rfl, rfl, Option.some.inj stored⟩

/-- Among the ancestors of a path one is the closest. -/
theorem exists_closest (rs : List (Registration H)) (k q x : Bytes) (ev : Event H)
    (found : Ancestor rs k q x ev) : ∃ q x ev, Ancestor rs k q x ev ∧ Closest rs k q := by
  -- Induction on how much of `k` is left after `q`.
  induction left : k.length - q.length using Nat.strongRecOn generalizing q x ev with
  | ind n ih =>
    by_cases closest : Closest rs k q
    · exact ⟨q, x, ev, found, closest⟩
    · simp only [Closest, not_forall, Nat.not_le] at closest
      obtain ⟨q', x', ev', other, longer⟩ := closest
      have bound : q'.length ≤ k.length := by simp [other.handlesAt.split]
      exact ih (k.length - q'.length) (by omega) q' x' ev' other rfl

theorem documented_unique (rs : List (Registration H)) (k : Bytes)
    (a b : Option (Event H × Bytes)) (left : Documented rs k a) (right : Documented rs k b) :
    a = b := by
  match a, b with
  | none, none => rfl
  | none, some (ev, x) =>
    obtain ⟨q, found, -⟩ := right
    exact absurd found (left q x ev)
  | some (ev, x), none =>
    obtain ⟨q, found, -⟩ := left
    exact absurd found (right q x ev)
  | some (ev, x), some (ev', x') =>
    obtain ⟨q, found, closest⟩ := left
    obtain ⟨q', found', closest'⟩ := right
    have same := Nat.le_antisymm (closest' q x ev found) (closest q' x' ev' found')
    obtain ⟨-, rfl, rfl⟩ := found.handlesAt.unique found'.handlesAt same
    rfl

/-! ### The walk's answer against the documented one -/

theorem Answers.documented {rs : List (Registration H)} {k : Bytes}
    {answer : Option (Event H × Bytes)} (answers : Answers rs k answer)
    (unregistered : registered rs k = none) (clear : Unshadowed rs k) :
    Documented rs k answer := by
  cases answers with
  | exact stored => rw [unregistered] at stored; cases stored
  -- inside the tree: a closest ancestor would be the path itself, or shadowed by it
  | inside free node =>
    intro q x ev found
    obtain ⟨q, x, ev, found, closest⟩ := exists_closest rs k q x ev found
    rcases node with rfl | ⟨r, member, pre⟩
    · have split := found.handlesAt.split
      exact found.handlesAt.proper (List.append_eq_nil_iff.mp split.symm).2
    · exact (clear q x ev found closest).1 r member pre
  -- an ancestor answers: the closest one, since nothing below shadows it
  | @child q x ev free left at_ deepest =>
    split
    next first => exact ⟨q, ⟨at_, first⟩, fun q' x' ev' other => deepest q' x' ev' other.handlesAt⟩
    next first =>
      intro q' x' ev' found
      obtain ⟨q', x', ev', found, closest⟩ := exists_closest rs k q' x' ev' found
      have same := Nat.le_antisymm (deepest q' x' ev' found.handlesAt)
        ((clear q' x' ev' found closest).2 q x ev at_)
      obtain ⟨-, rfl, -⟩ := found.handlesAt.unique at_ same
      exact first found.child
  -- nobody handles children on the way
  | nothing free unhandled =>
    intro q x ev found
    exact unhandled q x ev found.handlesAt

theorem Answers.unshadowed {rs : List (Registration H)} {k : Bytes}
    {answer : Option (Event H × Bytes)} (answers : Answers rs k answer)
    (unregistered : registered rs k = none) (documented : Documented rs k answer) :
    Unshadowed rs k := by
  cases answers with
  | exact stored => rw [unregistered] at stored; cases stored
  | inside free node => exact fun q x ev found _ => absurd found (documented q x ev)
  | @child q x ev free left at_ deepest =>
    split at documented
    next first =>
      intro q' x' ev' found closest
      refine ⟨left, fun q'' x'' ev'' other => ?_⟩
      exact Nat.le_trans (deepest q'' x'' ev'' other) (closest q x ev ⟨at_, first⟩)
    next => exact fun q' x' ev' found _ => absurd found (documented q' x' ev')
  | nothing free unhandled => exact fun q x ev found _ => absurd found.handlesAt (unhandled q x ev)

/-- A shadowed path is answered with `NULL`. -/
theorem Answers.shadowed {rs : List (Registration H)} {k : Bytes}
    {answer : Option (Event H × Bytes)} (answers : Answers rs k answer)
    (unregistered : registered rs k = none) (shadowed : ¬Unshadowed rs k) : answer = none := by
  have documented : ¬Documented rs k answer := fun doc =>
    shadowed (answers.unshadowed unregistered doc)
  cases answers with
  | exact stored => rw [unregistered] at stored; cases stored
  | inside => rfl
  | @child q x ev free left at_ deepest =>
    split
    next first =>
      simp only [first, if_true] at documented
      exact absurd ⟨q, ⟨at_, first⟩, fun q' x' ev' other => deepest q' x' ev' other.handlesAt⟩
        documented
    next => rfl
  | nothing => rfl

/-! ### Registering something else -/

/-- The registration is neither of the path nor of a `'/'`-bounded ancestor. -/
def Unrelated (r : Registration H) (k : Bytes) : Prop :=
  r.path ≠ slash :: k ∧ ∀ q x, r.path = slash :: q → k = q ++ x → x.head? ≠ some slash

theorem registered_snoc_of_ne (rs : List (Registration H)) (r : Registration H) (k : Bytes)
    (other : r.path ≠ slash :: k) : registered (rs ++ [r]) k = registered rs k := by
  rw [registered_append, registered_singleton, if_neg other, Option.or_none]

theorem HandlesAt.snoc {rs : List (Registration H)} {k q x : Bytes} {ev : Event H}
    (found : HandlesAt rs k q x ev) (r : Registration H) : HandlesAt (rs ++ [r]) k q x ev := by
  obtain ⟨split, proper, stored, handles⟩ := found
  exact ⟨split, proper, by rw [registered_append, stored, Option.some_or], handles⟩

theorem ancestor_snoc_iff (rs : List (Registration H)) (r : Registration H) (k q x : Bytes)
    (ev : Event H) (unrelated : Unrelated r k) :
    Ancestor (rs ++ [r]) k q x ev ↔ Ancestor rs k q x ev := by
  constructor
  · rintro ⟨⟨split, proper, stored, handles⟩, child⟩
    have other : r.path ≠ slash :: q := fun path => unrelated.2 q x path split child
    rw [registered_snoc_of_ne rs r q other] at stored
    exact ⟨⟨split, proper, stored, handles⟩, child⟩
  · rintro ⟨found, child⟩
    exact ⟨found.snoc r, child⟩

theorem closest_snoc_iff (rs : List (Registration H)) (r : Registration H) (k q : Bytes)
    (unrelated : Unrelated r k) : Closest (rs ++ [r]) k q ↔ Closest rs k q := by
  simp only [Closest, ancestor_snoc_iff rs r k _ _ _ unrelated]

theorem documented_snoc_iff (rs : List (Registration H)) (r : Registration H) (k : Bytes)
    (answer : Option (Event H × Bytes)) (unrelated : Unrelated r k) :
    Documented (rs ++ [r]) k answer ↔ Documented rs k answer := by
  match answer with
  | none => simp only [Documented, ancestor_snoc_iff rs r k _ _ _ unrelated]
  | some (ev, x) =>
    simp only [Documented, ancestor_snoc_iff rs r k _ _ _ unrelated,
      closest_snoc_iff rs r k _ unrelated]

/-- Registering more only ever adds shadows. -/
theorem unshadowed_of_snoc (rs : List (Registration H)) (r : Registration H) (k : Bytes)
    (unrelated : Unrelated r k) (clear : Unshadowed (rs ++ [r]) k) : Unshadowed rs k := by
  intro q x ev found closest
  obtain ⟨left, deepest⟩ := clear q x ev
    ((ancestor_snoc_iff rs r k q x ev unrelated).mpr found)
    ((closest_snoc_iff rs r k q unrelated).mpr closest)
  exact ⟨fun s member => left s (List.mem_append_left [r] member),
    fun q' x' ev' other => deepest q' x' ev' (other.snoc r)⟩

/-- An unrelated registration leaves the answer alone exactly when it casts no
new shadow. -/
theorem answers_snoc_iff (rs : List (Registration H)) (r : Registration H) (k : Bytes)
    (before after : Option (Event H × Bytes)) (unregistered : registered rs k = none)
    (unrelated : Unrelated r k) (answersBefore : Answers rs k before)
    (answersAfter : Answers (rs ++ [r]) k after) :
    after = before ↔ (Unshadowed rs k → Unshadowed (rs ++ [r]) k) := by
  have still : registered (rs ++ [r]) k = none := by
    rw [registered_snoc_of_ne rs r k unrelated.1, unregistered]
  constructor
  · rintro rfl clear
    apply answersAfter.unshadowed still
    rw [documented_snoc_iff rs r k _ unrelated]
    exact answersBefore.documented unregistered clear
  · intro keeps
    by_cases clear : Unshadowed rs k
    · have documented := answersAfter.documented still (keeps clear)
      rw [documented_snoc_iff rs r k _ unrelated] at documented
      exact documented_unique rs k _ _ documented (answersBefore.documented unregistered clear)
    · have shadowed : ¬Unshadowed (rs ++ [r]) k := fun later =>
        clear (unshadowed_of_snoc rs r k unrelated later)
      rw [answersBefore.shadowed unregistered clear, answersAfter.shadowed still shadowed]

/-- The query of an unregistered path agrees with the documentation exactly
when nothing shadows the path's closest ancestor, and an unrelated registration
changes the answer exactly when it is the first to shadow it. -/
theorem children_iff (rs : List (Registration H)) (raw : Bytes) (lead : Bool)
    (unregistered : registered rs (dropSlash (evsCleanPath raw)) = none) :
    ∃ t answer, insertAll PrefixTree.empty rs = .ok t ∧
      evsQuery t (spelled raw lead) = .ok answer ∧
      (Documented rs (dropSlash (evsCleanPath raw)) answer ↔
        Unshadowed rs (dropSlash (evsCleanPath raw))) ∧
      ∀ r, Unrelated r (dropSlash (evsCleanPath raw)) →
        ∃ u later, insertAll PrefixTree.empty (rs ++ [r]) = .ok u ∧
          evsQuery u (spelled raw lead) = .ok later ∧
          (later = answer ↔ (Unshadowed rs (dropSlash (evsCleanPath raw)) →
            Unshadowed (rs ++ [r]) (dropSlash (evsCleanPath raw)))) := by
  obtain ⟨t, answer, inserted, -, query, answers⟩ := insertAll_evsQuery rs raw lead
  refine ⟨t, answer, inserted, query,
    ⟨answers.unshadowed unregistered, answers.documented unregistered⟩, ?_⟩
  intro r unrelated
  obtain ⟨u, later, insertedLater, -, queryLater, answersLater⟩ :=
    insertAll_evsQuery (rs ++ [r]) raw lead
  exact ⟨u, later, insertedLater, queryLater,
    answers_snoc_iff rs r _ answer later unregistered unrelated answers answersLater⟩

/-- `/a` and `/a/b`, both handling their children. -/
def nestedHandlers : List (Registration Unit) := [
  ⟨some (str "/a"), none, none, (), true⟩,
  ⟨some (str "/a"), some (str "/b"), none, (), true⟩]

theorem children_iff_nested :
    registered nestedHandlers (dropSlash (evsCleanPath (str "/a/c"))) = none ∧
    ∃ t answer, insertAll PrefixTree.empty nestedHandlers = .ok t ∧
      evsQuery t (spelled (str "/a/c") true) = .ok answer ∧
      (Documented nestedHandlers (dropSlash (evsCleanPath (str "/a/c"))) answer ↔
        Unshadowed nestedHandlers (dropSlash (evsCleanPath (str "/a/c")))) := by
  have unregistered :
      registered nestedHandlers (dropSlash (evsCleanPath (str "/a/c"))) = none := by decide
  obtain ⟨t, answer, inserted, query, agrees, -⟩ :=
    children_iff nestedHandlers (str "/a/c") true unregistered
  exact ⟨unregistered, t, answer, inserted, query, agrees⟩

/-- `/a/bc` is below `/a`, but the walk forgets `/a` when it passes `/a/b`. -/
theorem children_shadowed :
    ¬∀ (rs : List (Registration Unit)) (raw : Bytes) (lead : Bool),
      registered rs (dropSlash (evsCleanPath raw)) = none →
      ∃ t answer, insertAll PrefixTree.empty rs = .ok t ∧
        evsQuery t (spelled raw lead) = .ok answer ∧
        Documented rs (dropSlash (evsCleanPath raw)) answer := by
  intro claim
  obtain ⟨t, answer, inserted, query, documented⟩ :=
    claim nestedHandlers (str "/a/bc") true (by decide)
  have computed : ((insertAll PrefixTree.empty nestedHandlers).bind fun t =>
      evsQuery t (spelled (str "/a/bc") true)) = .ok none := by decide
  simp only [inserted, Except.bind, query, Except.ok.injEq] at computed
  subst answer
  refine documented (str "a") (str "/bc") ⟨str "/a", (), true⟩ ⟨⟨?_, ?_, ?_, rfl⟩, ?_⟩ <;> decide

end QuickIO
