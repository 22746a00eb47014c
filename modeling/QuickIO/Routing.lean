import QuickIO.Query

/-!
# Routing: the trie as a map from paths to events

`registered` is the flat map the trie stands for: every path to the event of
its first registration. `Represents` relates the two, insertion preserves it,
and under it a query is read off the map. `routing_correct` says what clients
and broadcasts rely on; `children_iff` says exactly when an event that handles
its children receives them.
-/
namespace QuickIO

open Lib

variable {H : Type}

/-- The bytes of a walk through the trie. -/
def bytes (k : List PathByte) : Bytes := k.map Subtype.val

@[simp] theorem bytes_nil : bytes [] = [] := rfl

@[simp] theorem bytes_cons (c : PathByte) (k : List PathByte) : bytes (c :: k) = c.val :: bytes k :=
  rfl

@[simp] theorem bytes_append (k l : List PathByte) : bytes (k ++ l) = bytes k ++ bytes l :=
  List.map_append

@[simp] theorem bytes_length (k : List PathByte) : (bytes k).length = k.length :=
  List.length_map _

@[simp] theorem bytes_eq_nil_iff (k : List PathByte) : bytes k = [] ↔ k = [] := List.map_eq_nil_iff

theorem bytes_injective (k l : List PathByte) (eq : bytes k = bytes l) : k = l :=
  List.map_injective_iff.mpr Subtype.val_injective eq

@[simp] theorem bytes_inj (k l : List PathByte) : bytes k = bytes l ↔ k = l :=
  ⟨bytes_injective k l, fun eq => eq ▸ rfl⟩

theorem bytes_prefix_iff (k l : List PathByte) : bytes k <+: bytes l ↔ k <+: l := by
  constructor
  · rintro ⟨x, eq⟩
    obtain ⟨m, n, rfl, left, -⟩ := List.map_eq_append_iff.mp eq.symm
    rw [bytes_injective m k left]
    exact List.prefix_append k n
  · rintro ⟨m, rfl⟩
    exact ⟨bytes m, (bytes_append k m).symm⟩

/-- A byte string split at a position is split there as a walk. -/
theorem bytes_eq_append (k : List PathByte) (q x : Bytes) (eq : bytes k = q ++ x) :
    ∃ l m, k = l ++ m ∧ bytes l = q ∧ bytes m = x := by
  obtain ⟨l, m, rfl, left, right⟩ := List.map_eq_append_iff.mp eq
  exact ⟨l, m, rfl, left, right⟩

private theorem allowed_inRange_table :
    ∀ n, n < 256 → allowed (UInt8.ofNat n) = true →
      (childIndex (UInt8.ofNat n)).toNat < childsLen := by
  decide +kernel

/-- Every character cleaning lets through has a slot. -/
theorem allowed_inRange (c : UInt8) (good : allowed c = true) :
    (childIndex c).toNat < childsLen := by
  have table := allowed_inRange_table c.toNat c.toNat_lt
  simpa using table (by simpa using good)

theorem exists_bytes (s : Bytes) (good : ∀ c ∈ s, allowed c = true) : ∃ k, bytes k = s := by
  induction s with
  | nil => exact ⟨[], rfl⟩
  | cons c s ih =>
    obtain ⟨k, eq⟩ := ih fun d member => good d (List.mem_cons_of_mem c member)
    exact ⟨⟨c, allowed_inRange c (good c List.mem_cons_self)⟩ :: k, by simp [eq]⟩

theorem exists_bytes_clean (raw : Bytes) : ∃ k, bytes k = dropSlash (evsCleanPath raw) :=
  exists_bytes _ fun c member =>
    evsCleanPath_allowed raw c (mem_of_mem_dropSlash _ c member)

/-! ### The two walks on in-range bytes -/

theorem slot_ok {c : UInt8} (inRange : (childIndex c).toNat < childsLen) :
    slot c = .ok ⟨c, inRange⟩ := dif_pos inRange

theorem slot_error {c : UInt8} (outOfRange : childsLen ≤ (childIndex c).toNat) :
    slot c = .error (.childs (childIndex c)) := dif_neg (Nat.not_lt.mpr outOfRange)

@[simp] theorem slot_val (c : PathByte) : slot c.val = .ok c := slot_ok c.property

theorem insertLoop_bytes (ev : Event H) (t : Ptrie H) (k : List PathByte) :
    insertLoop ev t (bytes k) =
      .ok (t.insert ev k, if (t.lookup k).isSome = true then none else some ev) := by
  induction k generalizing t with
  | nil =>
    obtain ⟨value, child⟩ := t
    cases value <;> rfl
  | cons c k ih =>
    simp only [bytes_cons, insertLoop, slot_val, ih, PrefixTree.insert,
      PrefixTree.childOrNew_lookup]

/-- What was passed on the way, with the part of the path still ahead: the rest
of the walk and then `rest`. -/
def withRest (rest : Bytes) (handler : Option (Event H × List PathByte)) :
    Option (Event H × Bytes) :=
  handler.map fun found => (found.1, bytes found.2 ++ rest)

private theorem remember_rest (rest : Bytes) (t : Ptrie H) (c : PathByte) (k : List PathByte)
    (seen : Option (Event H × List PathByte)) :
    remember t (c.val :: (bytes k ++ rest)) (withRest rest seen) =
      withRest rest (((t.value.filter Event.handleChildren).map (·, c :: k)).or seen) := by
  unfold remember
  cases t.value with
  | none => rfl
  | some ev => cases children : ev.handleChildren <;> simp [withRest, Option.filter, children]

/-- The walk over a first part of a path. -/
theorem queryLoop_walk (rest : Bytes) (t : Ptrie H) (seen : Option (Event H × List PathByte))
    (k : List PathByte) :
    queryLoop t (withRest rest seen) (bytes k ++ rest) =
      match t.find k with
      | some node =>
        queryLoop node (withRest rest (t.lastMarked Event.handleChildren seen k)) rest
      | none => .ok (childOnly (withRest rest (t.lastMarked Event.handleChildren seen k))) := by
  induction k generalizing t seen with
  | nil => rfl
  | cons c k ih =>
    simp only [bytes_cons, List.cons_append, queryLoop, slot_val, remember_rest,
      PrefixTree.find_cons, PrefixTree.lastMarked]
    cases t.child c with
    | some child => exact ih child _
    | none => rfl

private theorem queryLoop_bytes (t : Ptrie H) (seen : Option (Event H × List PathByte))
    (k : List PathByte) :
    queryLoop t (withRest [] seen) (bytes k) =
      .ok (match t.find k with
        | some node => node.value.map (·, [])
        | none => childOnly (withRest [] (t.lastMarked Event.handleChildren seen k))) := by
  have walk := queryLoop_walk [] t seen k
  rw [List.append_nil] at walk
  rw [walk]
  cases t.find k with
  | none => rfl
  | some node =>
    simp only [queryLoop]
    cases node.value <;> rfl

/-- A query for a cleaned path reads no slot that does not exist. -/
theorem evsQuery_clean (t : Ptrie H) (raw : Bytes) :
    ∃ answer, evsQuery t (evsCleanPath raw) = .ok answer := by
  obtain ⟨k, eq⟩ := exists_bytes_clean raw
  rw [evsQuery, ← eq]
  exact ⟨_, queryLoop_bytes t none k⟩

/-! ### The flat map -/

/-- What `event_init` stores for a registration. -/
def Registration.event (r : Registration H) : Event H := ⟨r.path, r.handlers, r.handleChildren⟩

/-- The event of the first registration of `'/'` followed by `k`. -/
def registered (rs : List (Registration H)) (k : Bytes) : Option (Event H) :=
  (rs.find? fun r => r.path == slash :: k).map Registration.event

/-- A made path is empty or names a node below the root. -/
theorem Registration.path_cases (r : Registration H) :
    r.path = [] ∨ ∃ k, k ≠ [] ∧ r.path = slash :: bytes k := by
  rcases evsMakePath_slash r.evPrefix r.evPath r.evExtra with none | ⟨s, nonempty, eq⟩
  · exact Or.inl none
  · have good : ∀ c ∈ s, allowed c = true := fun c member =>
      evsMakePath_allowed r.evPrefix r.evPath r.evExtra c
        (by rw [eq]; exact List.mem_cons_of_mem slash member)
    obtain ⟨k, rfl⟩ := exists_bytes s good
    exact Or.inr ⟨k, by simpa using nonempty, eq⟩

theorem registered_append (rs ss : List (Registration H)) (k : Bytes) :
    registered (rs ++ ss) k = (registered rs k).or (registered ss k) := by
  simp only [registered, List.find?_append]
  cases rs.find? fun r => r.path == slash :: k <;> rfl

theorem registered_singleton (r : Registration H) (k : Bytes) :
    registered [r] k = if r.path = slash :: k then some r.event else none := by
  by_cases same : r.path = slash :: k <;> simp [registered, same]

theorem registered_path (rs : List (Registration H)) (k : Bytes) (ev : Event H)
    (found : registered rs k = some ev) : ev.evPath = slash :: k := by
  obtain ⟨r, first, rfl⟩ := Option.map_eq_some_iff.mp found
  simpa [Registration.event] using List.find?_some first

theorem registered_mem (rs : List (Registration H)) (k : Bytes) (ev : Event H)
    (found : registered rs k = some ev) : ∃ r ∈ rs, r.path = slash :: k := by
  obtain ⟨r, first, -⟩ := Option.map_eq_some_iff.mp found
  exact ⟨r, List.mem_of_find?_eq_some first, by simpa using List.find?_some first⟩

/-- The trie holds the flat map, and its nodes are the prefixes of its keys. -/
structure Represents (t : Ptrie H) (rs : List (Registration H)) : Prop where
  lookup : ∀ k, t.lookup k = registered rs (bytes k)
  node : ∀ k, (t.find k).isSome = true ↔ k = [] ∨ ∃ r ∈ rs, slash :: bytes k <+: r.path

theorem represents_empty : Represents (PrefixTree.empty : Ptrie H) [] := by
  constructor
  · intro k
    exact PrefixTree.lookup_empty k
  · intro k
    constructor
    · intro some
      obtain ⟨node, found⟩ := Option.isSome_iff_exists.mp some
      exact Or.inl (PrefixTree.find_empty k node found)
    · rintro (rfl | ⟨r, member, -⟩)
      · rfl
      · cases member

theorem prefix_slash_cons_iff (k l : List PathByte) :
    slash :: bytes k <+: slash :: bytes l ↔ k <+: l := by
  simp [List.cons_prefix_cons, bytes_prefix_iff]

/-- Insertion extends the map and returns the event exactly when its path was
free. -/
theorem represents_insert (t : Ptrie H) (rs : List (Registration H)) (r : Registration H)
    (holds : Represents t rs) :
    ∃ u, r.insert t =
        .ok (u, if r.path = [] ∨ (registered rs (dropSlash r.path)).isSome = true then none
          else some r.event) ∧
      Represents u (rs ++ [r]) := by
  rcases r.path_cases with empty | ⟨key, nonempty, path⟩
  · -- an empty path is not inserted
    refine ⟨t, by simp [Registration.insert, evsQueryInsert, empty, dropSlash], ?_, ?_⟩
    · intro k
      rw [holds.lookup, registered_append, registered_singleton, empty]
      simp
    · intro k
      rw [holds.node]
      simp [empty]
  · -- any other is walked from its first slash, and the old event stays if there is one
    have inserted : r.insert t = .ok (t.insert r.event key,
        if (t.lookup key).isSome = true then none else some r.event) := by
      rw [← insertLoop_bytes]
      obtain ⟨c, k, rfl⟩ := List.exists_cons_of_ne_nil nonempty
      simp [Registration.insert, evsQueryInsert, path, Registration.event]
    refine ⟨t.insert r.event key, ?_, ?_, ?_⟩
    · simp [inserted, path, holds.lookup]
    · intro k
      rw [PrefixTree.lookup_insert, registered_append, registered_singleton, holds.lookup, path]
      by_cases same : k = key
      · simp [same]
      · have other : ¬key = k := fun eq => same eq.symm
        simp [same, other]
    · -- the nodes that exist are those on the way to some path
      intro k
      rw [PrefixTree.find_insert_isSome, holds.node]
      simp only [List.mem_append, List.mem_singleton, or_and_right, exists_or, exists_eq_left,
        path, prefix_slash_cons_iff, or_assoc]

/-- Any sequence of insertions succeeds and is represented. -/
theorem represents_insertAll (t : Ptrie H) (rs ss : List (Registration H))
    (holds : Represents t rs) : ∃ u, insertAll t ss = .ok u ∧ Represents u (rs ++ ss) := by
  induction ss generalizing t rs with
  | nil => exact ⟨t, rfl, by simpa using holds⟩
  | cons r ss ih =>
    obtain ⟨u, inserted, extended⟩ := represents_insert t rs r holds
    obtain ⟨v, all, represented⟩ := ih u (rs ++ [r]) extended
    exact ⟨v, by simp only [insertAll, inserted, all], by simpa using represented⟩

theorem insertAll_represents (rs : List (Registration H)) :
    ∃ t, insertAll PrefixTree.empty rs = .ok t ∧ Represents t rs := by
  simpa using represents_insertAll PrefixTree.empty [] rs represents_empty

/-! ### Queries read off the map -/

/-- `q` is registered, handles its children, and is followed by `x` in `k`. -/
structure HandlesAt (rs : List (Registration H)) (k q x : Bytes) (ev : Event H) : Prop where
  split : k = q ++ x
  proper : x ≠ []
  stored : registered rs q = some ev
  handles : ev.handleChildren = true

private theorem markedPrefix_iff (t : Ptrie H) (rs : List (Registration H))
    (holds : Represents t rs) (k q x : List PathByte) (ev : Event H) :
    t.MarkedPrefix Event.handleChildren k q x ev ↔ HandlesAt rs (bytes k) (bytes q) (bytes x) ev := by
  constructor
  · rintro ⟨split, proper, stored, marked⟩
    exact ⟨by simp [split], by simpa using proper, by rw [← holds.lookup, stored], marked⟩
  · rintro ⟨split, proper, stored, handles⟩
    refine ⟨?_, by simpa using proper, by rw [holds.lookup, stored], handles⟩
    apply bytes_injective
    simpa using split

/-- What a query answers, by the four ways its walk can end. -/
inductive Answers (rs : List (Registration H)) (k : Bytes) : Option (Event H × Bytes) → Prop where
  | exact {ev} (stored : registered rs k = some ev) : Answers rs k (some (ev, []))
  | inside (free : registered rs k = none)
      (node : k = [] ∨ ∃ r ∈ rs, slash :: k <+: r.path) : Answers rs k none
  | child {q x ev} (free : registered rs k = none) (left : ∀ r ∈ rs, ¬slash :: k <+: r.path)
      (at_ : HandlesAt rs k q x ev)
      (deepest : ∀ q' x' ev', HandlesAt rs k q' x' ev' → q'.length ≤ q.length) :
      Answers rs k (if x.head? = some slash then some (ev, x) else none)
  | nothing (free : registered rs k = none) (unhandled : ∀ q x ev, ¬HandlesAt rs k q x ev) :
      Answers rs k none

theorem evsQuery_answers (t : Ptrie H) (rs : List (Registration H)) (holds : Represents t rs)
    (p : Bytes) (k : List PathByte) (path : dropSlash p = bytes k) :
    ∃ answer, evsQuery t p = .ok answer ∧ Answers rs (bytes k) answer := by
  have query := queryLoop_bytes t none k
  simp only [evsQuery, path]
  change queryLoop t none (bytes k) = _ at query
  rw [query]
  cases found : t.find k with
  -- the walk ends in a node: its own event, or none inside the tree
  | some node =>
    have value : node.value = registered rs (bytes k) := by
      rw [← holds.lookup, PrefixTree.lookup, found, Option.bind_some]
    cases stored : registered rs (bytes k) with
    | some ev => exact ⟨_, rfl, by simpa [value, stored] using Answers.exact stored⟩
    | none =>
      refine ⟨none, by simp [value, stored], .inside stored ?_⟩
      have inside := (holds.node k).mp (by simp [found])
      simpa using inside
  -- the walk leaves the tree: the deepest ancestor that takes children answers
  | none =>
    have free : registered rs (bytes k) = none := by
      rw [← holds.lookup, PrefixTree.lookup, found, Option.bind_none]
    have outside : ∀ r ∈ rs, ¬slash :: bytes k <+: r.path := by
      intro r member pre
      have some := (holds.node k).mpr (Or.inr ⟨r, member, pre⟩)
      simp [found] at some
    refine ⟨_, rfl, ?_⟩
    rcases t.lastMarked_remembers Event.handleChildren none k with
      ⟨q, x, ev, eq, marked, deepest⟩ | ⟨eq, unmarked⟩
    · have answer := Answers.child free outside ((markedPrefix_iff t rs holds k q x ev).mp marked) (by
        intro q' x' ev' other
        obtain ⟨l, m, -, rfl, rfl⟩ := bytes_eq_append k q' x' other.split
        simpa using deepest l m ev' ((markedPrefix_iff t rs holds k l m ev').mpr other))
      by_cases first : (bytes x).head? = some slash
      · simpa [eq, withRest, childOnly, Option.filter, first] using answer
      · simpa [eq, withRest, childOnly, Option.filter, first] using answer
    · -- without such an ancestor nothing does
      have answer : Answers rs (bytes k) none := .nothing free (by
        intro q x ev other
        obtain ⟨l, m, -, rfl, rfl⟩ := bytes_eq_append k q x other.split
        exact unmarked l m ev ((markedPrefix_iff t rs holds k l m ev).mpr other))
      simpa [eq, withRest, childOnly] using answer

/-! ### Soundness, completeness and reversibility -/

/-- The two spellings of a cleaned path: with or without its leading slash. -/
def spelled (raw : Bytes) (lead : Bool) : Bytes :=
  if lead then slash :: dropSlash (evsCleanPath raw) else dropSlash (evsCleanPath raw)

theorem dropSlash_spelled (raw : Bytes) (lead : Bool) :
    dropSlash (spelled raw lead) = dropSlash (evsCleanPath raw) := by
  have head := dropSlash_evsCleanPath_head raw
  cases lead with
  | true => simp [spelled]
  | false =>
    simp only [spelled, Bool.false_eq_true, if_false]
    cases path : dropSlash (evsCleanPath raw) with
    | nil => rfl
    | cons c k =>
      rw [path] at head
      have other : c ≠ slash := by simpa using head
      simp [dropSlash, other]

theorem insertAll_evsQuery (rs : List (Registration H)) (raw : Bytes) (lead : Bool) :
    ∃ t answer, insertAll PrefixTree.empty rs = .ok t ∧ Represents t rs ∧
      evsQuery t (spelled raw lead) = .ok answer ∧
      Answers rs (dropSlash (evsCleanPath raw)) answer := by
  obtain ⟨t, inserted, holds⟩ := insertAll_represents rs
  obtain ⟨k, path⟩ := exists_bytes_clean raw
  obtain ⟨answer, query, answers⟩ :=
    evsQuery_answers t rs holds (spelled raw lead) k (by rw [dropSlash_spelled, path])
  exact ⟨t, answer, inserted, holds, query, path ▸ answers⟩

/-- An answer puts the queried path back together. -/
theorem Answers.sound {rs : List (Registration H)} {k x : Bytes} {ev : Event H}
    (answers : Answers rs k (some (ev, x))) :
    ev.evPath ++ x = slash :: k ∧ (x = [] ∨ x.head? = some slash ∧ ev.handleChildren = true) := by
  generalize eq : some (ev, x) = answer at answers
  cases answers with
  | exact stored =>
    cases eq
    exact ⟨by simp [registered_path rs k ev stored], Or.inl rfl⟩
  | inside => cases eq
  | child free left at_ deepest =>
    split at eq
    next first =>
      cases eq
      refine ⟨?_, Or.inr ⟨first, at_.handles⟩⟩
      rw [registered_path rs _ ev at_.stored, at_.split]
      rfl
    next => cases eq
  | nothing => cases eq

/-- A registered path answers with its own event. -/
theorem Answers.owned {rs : List (Registration H)} {k : Bytes} {ev : Event H}
    {answer : Option (Event H × Bytes)} (answers : Answers rs k answer)
    (stored : registered rs k = some ev) : answer = some (ev, []) := by
  cases answers with
  | exact other => rw [stored] at other; cases other; rfl
  | inside free => rw [stored] at free; cases free
  | child free => rw [stored] at free; cases free
  | nothing free => rw [stored] at free; cases free

/-- The first registration of a path is the one the map keeps, whatever follows. -/
theorem registered_first (pre post : List (Registration H)) (r : Registration H) (k : Bytes)
    (path : r.path = slash :: k) (first : ∀ d ∈ pre, d.path ≠ r.path) :
    registered (pre ++ r :: post) k = some r.event := by
  have none_before : registered pre k = none := by
    cases found : registered pre k with
    | none => rfl
    | some ev =>
      obtain ⟨d, member, eq⟩ := registered_mem pre k ev found
      exact absurd (eq.trans path.symm) (first d member)
  rw [registered_append, none_before, Option.none_or, ← List.singleton_append,
    registered_append, registered_singleton, if_pos path, Option.some_or]

/-- An answered query names its event and extra segments, and the path put
back together from them is answered the same way. -/
def Reversible (t : Ptrie H) (k : Bytes) (answer : Option (Event H × Bytes)) : Prop :=
  ∀ ev x, answer = some (ev, x) →
    ev.evPath ++ x = slash :: k ∧
    (x = [] ∨ x.head? = some slash ∧ ev.handleChildren = true) ∧
    evsQuery t (ev.evPath ++ x) = .ok (some (ev, x))

/-- The first registration `r` of a path owns it: later insertions of the path
return `NULL` and leave the event as it is. -/
def OwnedByFirst (rs : List (Registration H)) (p : Bytes)
    (answer : Option (Event H × Bytes)) : Prop :=
  ∀ pre r post, rs = pre ++ r :: post → r.path = slash :: dropSlash p →
    (∀ d ∈ pre, d.path ≠ r.path) →
    answer = some (r.event, []) ∧
    ∀ mid d rest, post = mid ++ d :: rest → d.path = r.path →
      ∃ u v, insertAll PrefixTree.empty (pre ++ r :: mid) = .ok u ∧ d.insert u = .ok (v, none) ∧
        evsQuery v p = .ok (some (r.event, []))

/-- After any insertions of made paths, a query for a cleaned path in either
spelling is sound and reversible, and finds the first registration of a
registered path. -/
theorem routing_correct (rs : List (Registration H)) (raw : Bytes) (lead : Bool) :
    ∃ t answer, insertAll PrefixTree.empty rs = .ok t ∧
      evsQuery t (spelled raw lead) = .ok answer ∧
      Reversible t (dropSlash (evsCleanPath raw)) answer ∧
      OwnedByFirst rs (spelled raw lead) answer := by
  obtain ⟨t, answer, inserted, holds, query, answers⟩ := insertAll_evsQuery rs raw lead
  refine ⟨t, answer, inserted, query, ?_, ?_⟩
  · rintro ev x rfl
    obtain ⟨joined, shape⟩ := answers.sound
    refine ⟨joined, shape, ?_⟩
    rw [joined, ← query, evsQuery, evsQuery, dropSlash_slash, dropSlash_spelled]
  · -- a second registration of the path changes no answer
    rintro pre r post rfl path first
    have owner := registered_first pre post r _ path first
    rw [dropSlash_spelled] at owner
    refine ⟨answers.owned owner, ?_⟩
    rintro mid d rest rfl same
    obtain ⟨u, insertedMid, holdsMid⟩ := insertAll_represents (pre ++ r :: mid)
    obtain ⟨v, insertedAgain, holdsAgain⟩ := represents_insert u _ d holdsMid
    have taken : registered (pre ++ r :: mid) (dropSlash d.path) = some r.event := by
      rw [same, path, dropSlash_slash]
      exact registered_first pre mid r _ path first
    obtain ⟨k, cleaned⟩ := exists_bytes_clean raw
    -- the tree after it answers for the list with it
    obtain ⟨later, queried, found⟩ := evsQuery_answers v _ holdsAgain (spelled raw lead) k
      (by rw [dropSlash_spelled, cleaned])
    refine ⟨u, v, insertedMid, by simpa [taken] using insertedAgain, ?_⟩
    have still : registered (pre ++ r :: mid ++ [d]) (bytes k) = some r.event := by
      rw [cleaned, ← dropSlash_spelled raw lead, List.append_assoc, List.cons_append]
      exact registered_first pre (mid ++ [d]) r _ path first
    rw [queried, found.owned still]

end QuickIO
