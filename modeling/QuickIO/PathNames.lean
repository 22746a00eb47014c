import QuickIO.Children
import QuickIO.Resources

/-!
# Three ways to name a subscription

`/qio/on` and `/qio/off` clean the path they are given, `evs_broadcast_path`
looks it up as it is. `paths_agree_iff` says for which spellings that makes no
difference.
-/
namespace QuickIO

open Lib

variable {H : Type}

/-! ### A path that was not cleaned -/

/-- The walk comes to a byte for which no node has a slot. -/
def Overruns (rs : List (Registration H)) (q : Bytes) : Prop :=
  ∃ w c rest, q = w ++ c :: rest ∧ childsLen ≤ (childIndex c).toNat ∧
    (w = [] ∨ ∃ r ∈ rs, slash :: w <+: r.path)

/-- A path up to the first byte without a slot. -/
theorem exists_walk (q : Bytes) :
    ∃ k rest, q = bytes k ++ rest ∧
      (rest = [] ∨ ∃ c tail, rest = c :: tail ∧ childsLen ≤ (childIndex c).toNat) := by
  induction q with
  | nil => exact ⟨[], [], rfl, Or.inl rfl⟩
  | cons c q ih =>
    by_cases inRange : (childIndex c).toNat < childsLen
    · obtain ⟨k, rest, eq, stops⟩ := ih
      exact ⟨⟨c, inRange⟩ :: k, rest, by rw [eq]; rfl, stops⟩
    · exact ⟨[], c :: q, rfl, Or.inr ⟨c, q, rfl, Nat.le_of_not_lt inRange⟩⟩

/-- The first byte without a slot is behind every walk that a path begins with. -/
theorem bytes_prefix_of_stop {k l : List PathByte} {c : UInt8} {tail x : Bytes}
    (outOfRange : childsLen ≤ (childIndex c).toNat)
    (split : bytes k ++ c :: tail = bytes l ++ x) :
    ∃ m, k = l ++ m ∧ x = bytes m ++ c :: tail := by
  induction l generalizing k with
  | nil => exact ⟨k, rfl, split.symm⟩
  | cons d l ih =>
    cases k with
    | nil =>
      obtain ⟨same, -⟩ := List.cons.inj split
      exact absurd (same ▸ d.property) (Nat.not_lt.mpr outOfRange)
    | cons e k =>
      obtain ⟨same, rest⟩ := List.cons.inj split
      obtain ⟨m, rfl, tail⟩ := ih rest
      exact ⟨m, by rw [Subtype.ext same]; rfl, tail⟩

/-- What is registered is a walk. -/
theorem Registration.walk {r : Registration H} {q : Bytes} (path : slash :: q <+: r.path) :
    ∃ l, q = bytes l := by
  rcases r.path_cases with empty | ⟨key, -, eq⟩
  · rw [empty] at path
    exact absurd path (by simp)
  · rw [eq, List.cons_prefix_cons] at path
    obtain ⟨x, split⟩ := path.2
    obtain ⟨l, -, -, same, -⟩ := bytes_eq_append key q x split.symm
    exact ⟨l, same.symm⟩

theorem registered_walk {rs : List (Registration H)} {q : Bytes} {ev : Event H}
    (stored : registered rs q = some ev) : ∃ l, q = bytes l := by
  obtain ⟨r, -, path⟩ := registered_mem rs q ev stored
  exact r.walk (path ▸ List.prefix_refl _)

section Stopped

variable {t : Ptrie H} {rs : List (Registration H)} {k : List PathByte} {c : UInt8} {tail : Bytes}

/-- What handles a path that stops outside the trie was passed on the way. -/
theorem handlesAt_stopped (holds : Represents t rs) (left : t.find k = none)
    (outOfRange : childsLen ≤ (childIndex c).toNat) (tail q x : Bytes) (ev : Event H) :
    HandlesAt rs (bytes k ++ c :: tail) q x ev ↔
      ∃ l m, q = bytes l ∧ x = bytes m ++ c :: tail ∧
        t.MarkedPrefix Event.handleChildren k l m ev := by
  constructor
  · rintro ⟨split, -, stored, handles⟩
    obtain ⟨l, rfl⟩ := registered_walk stored
    obtain ⟨m, rfl, rfl⟩ := bytes_prefix_of_stop outOfRange split
    refine ⟨l, m, rfl, rfl, rfl, ?_, by rw [holds.lookup, stored], handles⟩
    rintro rfl
    rw [List.append_nil] at left
    rw [← holds.lookup, PrefixTree.lookup, left] at stored
    cases stored
  · rintro ⟨l, m, rfl, rfl, split, -, stored, marked⟩
    refine ⟨?_, by simp, by rw [← holds.lookup, stored], marked⟩
    rw [split, bytes_append, List.append_assoc]

theorem answers_stopped (holds : Represents t rs) (left : t.find k = none)
    (outOfRange : childsLen ≤ (childIndex c).toNat) :
    Answers rs (bytes k ++ c :: tail)
      (childOnly (withRest (c :: tail) (t.lastMarked Event.handleChildren none k))) := by
  -- a path with a byte no node can have is not a walk of the tree
  have inside : ∀ l : List PathByte, bytes k ++ c :: tail ≠ bytes l := by
    intro l same
    obtain ⟨m, -, nothing⟩ := bytes_prefix_of_stop outOfRange (same.trans (List.append_nil _).symm)
    simp at nothing
  have free : registered rs (bytes k ++ c :: tail) = none := by
    cases stored : registered rs (bytes k ++ c :: tail) with
    | none => rfl
    | some ev =>
      obtain ⟨l, same⟩ := registered_walk stored
      exact absurd same (inside l)
  have outside : ∀ r ∈ rs, ¬slash :: (bytes k ++ c :: tail) <+: r.path := by
    intro r _ path
    obtain ⟨l, same⟩ := r.walk path
    exact inside l same
  have passed := handlesAt_stopped holds left outOfRange tail
  rcases t.lastMarked_remembers Event.handleChildren none k with
    ⟨l, m, ev, eq, marked, deepest⟩ | ⟨eq, unmarked⟩
  · -- the deepest ancestor is one of the walked part
    have answer := Answers.child free outside ((passed _ _ ev).mpr ⟨l, m, rfl, rfl, marked⟩) (by
      intro q x ev' other
      obtain ⟨l', m', rfl, rfl, marked'⟩ := (passed q x ev').mp other
      simpa using deepest l' m' ev' marked')
    by_cases first : (bytes m ++ c :: tail).head? = some slash
    · simpa only [eq, withRest, Option.map_some, childOnly, first, if_true] using answer
    · simpa only [eq, withRest, Option.map_some, childOnly, first, if_false] using answer
  · -- no ancestor handles children
    rw [eq]
    refine .nothing free fun q x ev other => ?_
    obtain ⟨l, m, rfl, rfl, marked⟩ := (passed q x ev).mp other
    exact unmarked l m ev marked

end Stopped

/-- Any path is answered as the registrations say, unless its walk comes to a
slot that does not exist. -/
theorem evsQuery_raw {t : Ptrie H} {rs : List (Registration H)} (holds : Represents t rs)
    (p : Bytes) :
    (Overruns rs (dropSlash p) ∧ ∃ fault, evsQuery t p = .error fault) ∨
    (¬Overruns rs (dropSlash p) ∧ ∃ answer, evsQuery t p = .ok answer ∧
      Answers rs (dropSlash p) answer) := by
  obtain ⟨k, rest, eq, rfl | ⟨c, tail, rfl, outOfRange⟩⟩ := exists_walk (dropSlash p)
  · rw [List.append_nil] at eq
    obtain ⟨answer, query, answers⟩ := evsQuery_answers t rs holds p k eq
    refine Or.inr ⟨?_, answer, query, eq ▸ answers⟩
    rintro ⟨w, c, tail, split, outOfRange, -⟩
    have member : c ∈ bytes k := by
      rw [← eq, split]
      exact List.mem_append_right w List.mem_cons_self
    obtain ⟨d, -, same⟩ := List.mem_map.mp member
    exact absurd (same ▸ d.property) (Nat.not_lt.mpr outOfRange)
  · have walk := queryLoop_walk (c :: tail) t none k
    change queryLoop t none (bytes k ++ c :: tail) = _ at walk
    rw [evsQuery, eq, walk]
    cases found : t.find k with
    | some node =>
      -- the walk is still inside when it has to read the slot of `c`
      refine Or.inl ⟨⟨bytes k, c, tail, rfl, outOfRange, ?_⟩, .childs (childIndex c), ?_⟩
      · simpa using (holds.node k).mp (by rw [found]; rfl)
      · simp only [queryLoop, slot_error outOfRange]
    | none =>
      refine Or.inr ⟨?_, _, rfl, answers_stopped holds found outOfRange⟩
      rintro ⟨w, c', tail', split, outOfRange', node⟩
      -- `w` goes at least as far as `k`, which is not a node
      have further : bytes k <+: w := by
        have inside : bytes k <+: w ++ c' :: tail' := split ▸ List.prefix_append _ _
        rcases List.prefix_or_prefix_of_prefix inside (List.prefix_append w (c' :: tail')) with
          before | ⟨y, after⟩
        · exact before
        · obtain ⟨l, m, -, rfl, rfl⟩ := bytes_eq_append k w y after.symm
          cases m with
          | nil =>
            rw [bytes_nil, List.append_nil] at after
            exact after ▸ List.prefix_refl _
          | cons d m =>
            rw [← after, List.append_assoc] at split
            obtain ⟨same, -⟩ := List.cons.inj (List.append_cancel_left split)
            exact absurd (same ▸ d.property) (Nat.not_lt.mpr outOfRange')
      have some_ := (holds.node k).mpr (by
        rcases node with rfl | ⟨r, member, path⟩
        · exact Or.inl (by simpa using further)
        · exact Or.inr ⟨r, member, (List.cons_prefix_cons.mpr ⟨rfl, further⟩).trans path⟩)
      rw [found] at some_
      cases some_

/-- Nothing that is registered answers for `k`: it is no event itself, and it is
the beginning of an event or goes on without a slash behind its longest beginning
that handles children. -/
structure Unanswered (rs : List (Registration H)) (k : Bytes) : Prop where
  free : registered rs k = none
  unhandled : (∀ r ∈ rs, ¬slash :: k <+: r.path) → ∀ q x ev, HandlesAt rs k q x ev →
    (∀ q' x' ev', HandlesAt rs k q' x' ev' → q'.length ≤ q.length) → x.head? ≠ some slash

theorem Answers.eq_none_iff {rs : List (Registration H)} {k : Bytes}
    {answer : Option (Event H × Bytes)} (answers : Answers rs k answer) :
    answer = none ↔ Unanswered rs k := by
  cases answers with
  | exact stored =>
    constructor
    · intro none_
      cases none_
    · intro unanswered
      rw [unanswered.free] at stored
      cases stored
  | inside free node =>
    refine ⟨fun _ => ⟨free, fun left q x ev at_ _ => ?_⟩, fun _ => rfl⟩
    rcases node with rfl | ⟨r, member, path⟩
    · exact absurd (List.append_eq_nil_iff.mp at_.split.symm).2 at_.proper
    · exact absurd path (left r member)
  | @child q x ev free left at_ deepest =>
    constructor
    · intro none_
      refine ⟨free, fun _ q' x' ev' other longest first => ?_⟩
      -- the longest beginning is the one that was found
      obtain ⟨-, rfl, -⟩ := other.unique at_
        (Nat.le_antisymm (deepest q' x' ev' other) (longest q x ev at_))
      rw [if_pos first] at none_
      cases none_
    · intro unanswered
      exact if_neg (unanswered.unhandled left q x ev at_ deepest)
  | nothing free unhandled =>
    exact ⟨fun _ => ⟨free, fun _ q x ev at_ _ => absurd at_ (unhandled q x ev)⟩, fun _ => rfl⟩

/-! ### What the entry points look up -/

/-- The JSON text of a path without quotes and backslashes. -/
def quoted (p : Bytes) : Bytes := 0x22 :: (p ++ [0x22])

/-- Cleaning drops the closing quote with everything else that is not allowed. -/
theorem cleanLoop_quote (skipping : Bool) (s : Bytes) :
    cleanLoop skipping (s ++ [0x22]) = cleanLoop skipping s := by
  induction s generalizing skipping with
  | nil => cases skipping <;> decide
  | cons c s ih => simp only [List.cons_append, cleanLoop, ih]

theorem evsCleanPath_quote (p : Bytes) : evsCleanPath (p ++ [0x22]) = evsCleanPath p := by
  rw [evsCleanPath, cleanLoop_quote, ← evsCleanPath]

/-- The event and `ev_extra` that `_on` subscribes to. -/
def onTarget (env : Env) (events : Ptrie Handlers) (json : Bytes) :
    Except Fault (Option (Event Handlers × Bytes)) :=
  match Server.onArguments env json with
  | none => .ok none
  | some (evPath, _) => evsQuery events (evsCleanPath evPath)

/-- The event and `ev_extra` that `_off` unsubscribes from. -/
def offTarget (events : Ptrie Handlers) (json : Bytes) :
    Except Fault (Option (Event Handlers × Bytes)) :=
  match json with
  | 0x22 :: evPath => evsQuery events (evsCleanPath evPath)
  | _ => .ok none

/-- The event and `ev_extra` that `evs_broadcast_path` queues for. -/
def broadcastTarget (events : Ptrie Handlers) (evPath : Bytes) :
    Except Fault (Option (Event Handlers × Bytes)) :=
  evsQuery events evPath

section Targets

variable {σ : Server} {p : Bytes} {ev : Event Handlers} {x : Bytes}

theorem qioOn_target {env : Env} (target : onTarget env σ.events (quoted p) = .ok (some (ev, x)))
    (c : ClientId) (clientCb : EvsCb) :
    σ.qioOn env c clientCb (quoted p) = .ok (σ.evsOn env c ev x clientCb none, .handled) := by
  simp only [onTarget, quoted, Server.onArguments] at target
  simp only [Server.qioOn, quoted, Server.onArguments, target]

theorem qioOff_target {env : Env} (target : offTarget σ.events (quoted p) = .ok (some (ev, x)))
    (c : ClientId) (clientCb : EvsCb) :
    σ.qioOff env c clientCb (quoted p) = .ok (.silent (σ.evsOff c ev x), .ok) := by
  simp only [offTarget, quoted] at target
  simp only [Server.qioOff, quoted, target]

theorem evsBroadcastPath_target (target : broadcastTarget σ.events p = .ok (some (ev, x)))
    (json : Option Bytes) : σ.evsBroadcastPath p json = .ok (σ.evsBroadcast ev x json) := by
  rw [broadcastTarget] at target
  simp only [Server.evsBroadcastPath, target]

end Targets

/-- All three entry points name the same event with the same `ev_extra`. -/
def SameSubscription (events : Ptrie Handlers) (p : Bytes) : Prop :=
  ∀ env, offTarget events (quoted p) = onTarget env events (quoted p) ∧
    broadcastTarget events p = onTarget env events (quoted p)

/-- In every reachable state `_on` and `_off` of `p` subscribe to one event and
`ev_extra` and unsubscribe from it. As long as no reference count has wrapped, a
broadcast to `p` is queued for the subscription through which clients are active
that subscribed to `p`, and is written to each of them. -/
def ReachesActive (events : Ptrie Handlers) (p : Bytes) : Prop :=
  ∀ m : Resources.State, Resources.system.Reachable m → m.server.events = events →
    ∀ env ev x, onTarget env events (quoted p) = .ok (some (ev, x)) →
    (∀ c clientCb,
      m.server.qioOn env c clientCb (quoted p) =
        .ok (m.server.evsOn env c ev x clientCb none, .handled) ∧
      m.server.qioOff env c clientCb (quoted p) =
        .ok (.silent (m.server.evsOff c ev x), .ok)) ∧
    (m.server.wrapped = false →
      ∀ c s, m.server.clientSubActive c s = true → m.server.key s = (ev.evPath, x) →
      ∀ json, ∃ τ, m.server.evsBroadcastPath p json = .ok (τ, some ⟨s, jsonOrNull json⟩) ∧
        ⟨c, ev.evPath ++ x, jsonOrNull json⟩ ∈ τ.broadcastWrites ⟨s, jsonOrNull json⟩)

theorem SameSubscription.reachesActive {events : Ptrie Handlers} {p : Bytes}
    (same : SameSubscription events p) : ReachesActive events p := by
  rintro m reached rfl env ev x target
  refine ⟨fun c clientCb => ⟨qioOn_target target c clientCb, ?_⟩, ?_⟩
  · exact qioOff_target ((same env).1.trans target) c clientCb
  intro fits c s active key json
  obtain ⟨inv, -⟩ := Resources.kept_reachable m reached
  -- the active client has an entry, and its item is on the list
  obtain ⟨csub, stored, listed⟩ : ∃ csub, m.server.entry c s = some csub ∧
      csub.pending = false := by
    rw [Server.clientSubActive] at active
    split at active
    next => cases active
    next csub stored =>
      rw [Bool.and_eq_true, Bool.not_eq_true'] at active
      exact ⟨csub, stored, active.1⟩
  have item : (csub.idx, c) ∈ m.server.subscribers s :=
    (inv.lists.listed c s csub.idx).mpr ⟨csub, stored, rfl, listed⟩
  have used : m.server.entry c s ≠ none := by rw [stored]; exact Option.some_ne_none _
  refine ⟨m.server.subRef s, ?_, ?_⟩
  · rw [evsBroadcastPath_target ((same env).2.trans target),
      inv.evsBroadcast_of_entry fits used key]
  · have path : ((m.server.subRef s).heap s).ev.evPath ++ ((m.server.subRef s).heap s).evExtra =
        ev.evPath ++ x := by
      rw [Server.key, Prod.mk.injEq] at key
      simp only [Server.subRef, Server.setSub, Function.update_self, key.1, key.2]
    have still : (csub.idx, c) ∈ (m.server.subRef s).subscribers s := by
      rwa [Server.subscribers_subRef]
    rw [Server.broadcastWrites, path]
    exact List.mem_map_of_mem (f := fun item => _) still

/-- The spelling makes no difference: the path is spelled as `evs_clean_path`
leaves it, but for a leading slash, or it is answered neither as it is nor
cleaned. -/
def SpelledAlike (rs : List (Registration H)) (p : Bytes) : Prop :=
  dropSlash p = dropSlash (evsCleanPath p) ∨
    (Unanswered rs (dropSlash (evsCleanPath p)) ∧ ¬Overruns rs (dropSlash p) ∧
      Unanswered rs (dropSlash p))

/-- For every set of registered events and every path: `/qio/on`, `/qio/off` and
`evs_broadcast_path` name the same subscription, and a broadcast reaches all
clients that are active through the path, if and only if the spelling makes no
difference. -/
theorem paths_agree_iff (rs : List (Registration Handlers)) (p : Bytes) :
    ∃ t, insertAll PrefixTree.empty rs = .ok t ∧
      (SameSubscription t p ∧ ReachesActive t p ↔ SpelledAlike rs p) := by
  obtain ⟨t, cleaned, inserted, holds, query, answers⟩ := insertAll_evsQuery rs p true
  have clean : evsQuery t (evsCleanPath p) = .ok cleaned := by
    rw [evsQuery, dropSlash_spelled] at query
    exact query
  have on : ∀ env, onTarget env t (quoted p) = .ok cleaned := fun env => by
    simp only [onTarget, quoted, Server.onArguments, evsCleanPath_quote, clean]
  have off : offTarget t (quoted p) = .ok cleaned := by
    simp only [offTarget, quoted, evsCleanPath_quote, clean]
  refine ⟨t, inserted, ?_, ?_⟩
  · rintro ⟨same, -⟩
    -- the registry answers the path as it is like the cleaned one
    have alike : evsQuery t p = .ok cleaned := (same lateEnv).2.trans (on lateEnv)
    rcases evsQuery_raw holds p with ⟨-, fault, failed⟩ | ⟨inside, answer, found, raw⟩
    · rw [failed] at alike
      cases alike
    · obtain rfl : answer = cleaned := Except.ok.inj (found.symm.trans alike)
      cases answer with
      | none => exact Or.inr ⟨answers.eq_none_iff.mp rfl, inside, raw.eq_none_iff.mp rfl⟩
      | some found =>
        have joined := raw.sound.1.symm.trans answers.sound.1
        exact Or.inl (List.cons.inj joined).2
  · intro alike
    have broadcast : broadcastTarget t p = .ok cleaned := by
      rcases alike with spelling | ⟨unanswered, inside, unanswered'⟩
      · rw [broadcastTarget, evsQuery, spelling]
        exact clean
      · rcases evsQuery_raw holds p with ⟨overruns, -⟩ | ⟨-, answer, found, raw⟩
        · exact absurd overruns inside
        · rw [broadcastTarget, found, raw.eq_none_iff.mpr unanswered',
            answers.eq_none_iff.mpr unanswered]
    have same : SameSubscription t p := fun env =>
      ⟨off.trans (on env).symm, broadcast.trans (on env).symm⟩
    exact ⟨same, same.reachesActive⟩

/-- One event, which the application and its clients call by different spellings. -/
def goodEvent : Registration Handlers :=
  ⟨some (str "/test"), some (str "/good"), none, ⟨none, none, none⟩, false⟩

/-- Clients subscribe to `/test/good/`, and a broadcast to that path is dropped. -/
theorem paths_agree_slash :
    ∃ t, insertAll PrefixTree.empty [goodEvent] = .ok t ∧
      (∀ env, onTarget env t (quoted (str "/test/good/")) = .ok (some (goodEvent.event, []))) ∧
      broadcastTarget t (str "/test/good/") = .ok none ∧
      ¬SameSubscription t (str "/test/good/") := by
  obtain ⟨t, inserted, -⟩ := insertAll_represents [goodEvent]
  have cleaned : ((insertAll PrefixTree.empty [goodEvent]).bind fun t =>
      evsQuery t (evsCleanPath (str "/test/good/"))) = .ok (some (goodEvent.event, [])) := by
    decide
  have raw : ((insertAll PrefixTree.empty [goodEvent]).bind fun t =>
      evsQuery t (str "/test/good/")) = .ok none := by decide
  simp only [inserted, Except.bind] at cleaned raw
  have on : ∀ env, onTarget env t (quoted (str "/test/good/")) =
      .ok (some (goodEvent.event, [])) := fun env => by
    simp only [onTarget, quoted, Server.onArguments, evsCleanPath_quote, cleaned]
  refine ⟨t, inserted, on, raw, fun same => ?_⟩
  have alike := (same lateEnv).2
  rw [on lateEnv, broadcastTarget, raw] at alike
  cases alike

end QuickIO
