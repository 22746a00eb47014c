import QuickIO.Children
import QuickIO.Registry

/-!
# The events of the server

`evs_qio_init` registers the events below `/qio` before the applications are
loaded, so that none of them can take these over. An application can register
other events below them, though, and `/qio/callback` takes the paths below it only
where nothing else comes in between.
-/
namespace QuickIO

open Lib

variable {H : Type}

/-- `evs_qio_init`: what its calls of `evs_add_handler` are given. -/
def qioHandlers : List (Registration Handlers) := [
  ⟨some (str "/qio"), some (str "/callback"), none, ⟨some .callback, some .noOn, none⟩, true⟩,
  ⟨some (str "/qio"), some (str "/hostname"), none, ⟨some .hostname, some .noOn, none⟩, false⟩,
  ⟨some (str "/qio"), some (str "/off"), none, ⟨some .off, some .noOn, none⟩, false⟩,
  ⟨some (str "/qio"), some (str "/on"), none, ⟨some .on, some .noOn, none⟩, false⟩,
  ⟨some (str "/qio"), some (str "/ping"), none, ⟨some .ping, some .noOn, none⟩, false⟩]

/-- `evs_qio_init` -/
def evsQioInit (events : Ptrie Handlers) : Except Fault (Ptrie Handlers) :=
  insertAll events qioHandlers

/-- The path that callbacks come in on, without its first slash. -/
def callbackKey : Bytes := str "qio/callback"

/-- The event of `/qio/callback`. -/
def callbackEvent : Event Handlers := ⟨slash :: callbackKey, ⟨some .callback, some .noOn, none⟩, true⟩

namespace Builtins

/-- The server is initialised, and then anything is called, by applications and for
clients. -/
def system : TransitionSystem Registry.State Registry.Label where
  init m := evsQioInit PrefixTree.empty = .ok m.server.events ∧ m.registered = qioHandlers
  step := Registry.step

/-- What the applications have registered. -/
def apps (m : Registry.State) : List (Registration Handlers) := m.registered.drop qioHandlers.length

/-! ### One answer to a path -/

/-- The walk to a path ends in one way. -/
theorem answers_unique {rs : List (Registration H)} {k : Bytes} {a b : Option (Event H × Bytes)}
    (left : Answers rs k a) (right : Answers rs k b) : a = b := by
  -- Whoever handles a path that the walk left was not inside the tree.
  have inside_proper : ∀ {q x : Bytes} {ev : Event H}, HandlesAt rs k q x ev →
      (∀ r ∈ rs, ¬slash :: k <+: r.path) → ¬(k = [] ∨ ∃ r ∈ rs, slash :: k <+: r.path) := by
    rintro q x ev at_ outside (rfl | ⟨r, member, pre⟩)
    · exact at_.proper (List.append_eq_nil_iff.mp at_.split.symm).2
    · exact outside r member pre
  cases left with
  | exact stored => exact (right.owned stored).symm
  | inside free node =>
    cases right with
    | exact stored => cases free.symm.trans stored
    | inside => rfl
    | child _ outside at_ => exact absurd node (inside_proper at_ outside)
    | nothing => rfl
  | child free outside at_ deepest =>
    cases right with
    | exact stored => cases free.symm.trans stored
    | inside _ node => exact absurd node (inside_proper at_ outside)
    | child _ _ at' deepest' =>
      obtain ⟨-, rfl, rfl⟩ := at_.unique at'
        (Nat.le_antisymm (deepest' _ _ _ at_) (deepest _ _ _ at'))
      rfl
    | nothing _ unhandled => exact absurd at_ (unhandled _ _ _)
  | nothing free unhandled =>
    cases right with
    | exact stored => cases free.symm.trans stored
    | inside => rfl
    | child _ _ at_ => exact absurd at_ (unhandled _ _ _)
    | nothing => rfl

/-! ### The events and what is registered after them -/

theorem registered_qioHandlers :
    ∀ r ∈ qioHandlers, registered qioHandlers (dropSlash r.path) = some r.event := by decide

/-- No event of the server lies below `/qio/callback`. -/
theorem length_qioHandlers : ∀ r ∈ qioHandlers, r.path.length ≤ callbackKey.length + 1 := by decide

theorem registered_callback : registered qioHandlers callbackKey = some callbackEvent := by decide

theorem registered_long {q : Bytes} (long : callbackKey.length < q.length) :
    registered qioHandlers q = none := by
  cases found : registered qioHandlers q with
  | none => rfl
  | some ev =>
    obtain ⟨r, member, path⟩ := registered_mem qioHandlers q ev found
    have short := length_qioHandlers r member
    rw [path, List.length_cons] at short
    omega

variable {more : List (Registration Handlers)} {k q x : Bytes} {ev : Event Handlers}

/-- Below the events of the server, what handles children handles them as before. -/
theorem handlesAt_long (long : callbackKey.length < q.length) :
    HandlesAt (qioHandlers ++ more) k q x ev ↔ HandlesAt more k q x ev := by
  have same : registered (qioHandlers ++ more) q = registered more q := by
    rw [registered_append, registered_long long, Option.none_or]
  constructor
  · rintro ⟨split, proper, stored, handles⟩
    exact ⟨split, proper, same ▸ stored, handles⟩
  · rintro ⟨split, proper, stored, handles⟩
    exact ⟨split, proper, same.symm ▸ stored, handles⟩

theorem handlesAt_callback (below : k = callbackKey ++ x) (proper : x ≠ []) :
    HandlesAt (qioHandlers ++ more) k callbackKey x callbackEvent := by
  refine ⟨below, proper, ?_, rfl⟩
  rw [registered_append, registered_callback, Option.some_or]

/-- Nothing that the applications have registered comes between `/qio/callback` and a path
below it: the path is not the beginning of one of theirs, and no longer beginning of it
handles its children. -/
def Clear (more : List (Registration Handlers)) (k : Bytes) : Prop :=
  (∀ r ∈ more, ¬slash :: k <+: r.path) ∧
    ∀ q y ev, HandlesAt more k q y ev → q.length ≤ callbackKey.length

/-- A path below `/qio/callback` is the event's exactly where it is clear. -/
theorem answers_callback_iff {answer : Option (Event Handlers × Bytes)}
    (below : k = callbackKey ++ x) (child : x.head? = some slash)
    (answers : Answers (qioHandlers ++ more) k answer) :
    answer = some (callbackEvent, x) ↔ Clear more k := by
  have proper : x ≠ [] := by
    rintro rfl
    cases child
  have here := @handlesAt_callback more k x below proper
  have long : callbackKey.length < k.length := by
    rw [below, List.length_append]
    exact Nat.lt_add_of_pos_right (List.length_pos_iff.mpr proper)
  constructor
  · intro found
    have sound := (found ▸ answers).sound
    cases answers with
    | exact stored =>
      cases found
      cases child
    | inside => cases found
    | @child q y ev free left at_ deepest =>
      refine ⟨fun r member => left r (List.mem_append_right _ member), fun q' y' ev' other => ?_⟩
      by_contra far
      have further := deepest q' y' ev' ((handlesAt_long (Nat.lt_of_not_le far)).mpr other)
      -- the deepest one is `/qio/callback` itself
      split at found
      next =>
        cases found
        have same := at_.split.symm.trans here.split
        have alike : q.length = callbackKey.length := by
          have lengths := congrArg List.length same
          rw [List.length_append, List.length_append] at lengths
          exact Nat.add_right_cancel lengths
        exact far (further.trans alike.le)
      next => cases found
    | nothing => cases found
  · rintro ⟨outside, shallow⟩
    have stops : ∀ r ∈ qioHandlers ++ more, ¬slash :: k <+: r.path := by
      intro r member pre
      rcases List.mem_append.mp member with own | theirs
      · have short := length_qioHandlers r own
        have bound := pre.length_le
        rw [List.length_cons] at bound
        omega
      · exact outside r theirs pre
    cases answers with
    | @exact ev stored =>
      obtain ⟨r, member, path⟩ := registered_mem _ k ev stored
      exact absurd (path ▸ List.prefix_refl _) (stops r member)
    | inside free node =>
      rcases node with rfl | ⟨r, member, pre⟩
      · cases long
      · exact absurd pre (stops r member)
    | @child q y ev free left at_ deepest =>
      have reach := deepest _ _ _ here
      have bound : q.length ≤ callbackKey.length := by
        by_contra far
        exact far (shallow q y ev ((handlesAt_long (Nat.lt_of_not_le far)).mp at_))
      obtain ⟨-, rfl, rfl⟩ := at_.unique here (Nat.le_antisymm bound reach)
      rw [if_pos child]
    | nothing free unhandled => exact absurd here (unhandled _ _ _)

/-- The path is neither below an event of the server nor on the way to one. -/
def Elsewhere (k : Bytes) : Prop :=
  ∀ r ∈ qioHandlers, ¬r.path <+: slash :: k ∧ ¬slash :: k <+: r.path

/-- Elsewhere the events of the server make no difference. -/
theorem answers_elsewhere {answer : Option (Event Handlers × Bytes)} (elsewhere : Elsewhere k)
    (answers : Answers (qioHandlers ++ more) k answer) : Answers more k answer := by
  have same : ∀ q, q <+: k → registered (qioHandlers ++ more) q = registered more q := by
    intro q pre
    cases found : registered qioHandlers q with
    | none => rw [registered_append, found, Option.none_or]
    | some ev =>
      obtain ⟨r, member, path⟩ := registered_mem qioHandlers q ev found
      exact absurd (path ▸ (List.cons_prefix_cons.mpr ⟨rfl, pre⟩)) (elsewhere r member).1
  have handles : ∀ q x ev,
      HandlesAt (qioHandlers ++ more) k q x ev ↔ HandlesAt more k q x ev := by
    intro q x ev
    constructor
    · rintro ⟨split, proper, stored, handles⟩
      exact ⟨split, proper, same q ⟨x, split.symm⟩ ▸ stored, handles⟩
    · rintro ⟨split, proper, stored, handles⟩
      exact ⟨split, proper, (same q ⟨x, split.symm⟩).symm ▸ stored, handles⟩
  have whole := same k (List.prefix_refl k)
  cases answers with
  | exact stored => exact .exact (whole ▸ stored)
  | inside free node =>
    refine .inside (whole ▸ free) (node.imp_right ?_)
    rintro ⟨r, member, pre⟩
    rcases List.mem_append.mp member with own | theirs
    · exact absurd pre (elsewhere r own).2
    · exact ⟨r, theirs, pre⟩
  | child free left at_ deepest =>
    exact .child (whole ▸ free) (fun r member => left r (List.mem_append_right _ member))
      ((handles _ _ _).mp at_) fun q x ev other => deepest q x ev ((handles q x ev).mpr other)
  | nothing free unhandled =>
    exact .nothing (whole ▸ free) fun q x ev other => unhandled q x ev ((handles q x ev).mpr other)

/-! ### Runs -/

/-- The trie stands for the events of the server and what was registered after them. -/
theorem kept_reachable {m : Registry.State} (reached : system.Reachable m) :
    Represents m.server.events (qioHandlers ++ apps m) := by
  have kept : Represents m.server.events m.registered ∧ qioHandlers <+: m.registered := by
    refine system.reachable_invariant
      (fun m => Represents m.server.events m.registered ∧ qioHandlers <+: m.registered)
      ?_ ?_ m reached
    · rintro m ⟨events, registered⟩
      obtain ⟨t, inserted, holds⟩ := insertAll_represents qioHandlers
      obtain rfl : t = m.server.events := by
        have same := inserted.symm.trans events
        exact Except.ok.inj same
      exact ⟨registered ▸ holds, registered ▸ List.prefix_refl _⟩
    · rintro m l m' ⟨holds, first⟩ stepped
      refine ⟨Registry.kept_step m l m' holds stepped, ?_⟩
      replace stepped : Registry.step m l = some m' := stepped
      simp only [Registry.step] at stepped
      cases ran : l.2.run l.1 m.server with
      | error fault =>
        rw [ran] at stepped
        cases stepped
      | ok server =>
        rw [ran] at stepped
        cases stepped
        exact first.trans (List.prefix_append _ _)
  obtain ⟨holds, more, registered⟩ := kept
  rw [apps, ← registered, List.drop_left, registered]
  exact holds

/-- In every state of a running server, whatever the applications register. A path to an
event of the server, in any spelling, is answered with that event. A path below
`/qio/callback` is answered with it exactly where it is clear. And a path that is neither
below an event of the server nor on the way to one is answered as it would be among the
applications alone. -/
theorem builtins_answer (m : Registry.State) (reached : system.Reachable m) (raw : Bytes)
    (lead : Bool) :
    (∀ r ∈ qioHandlers, dropSlash (evsCleanPath raw) = dropSlash r.path →
      evsQuery m.server.events (spelled raw lead) = .ok (some (r.event, []))) ∧
    (∀ x, dropSlash (evsCleanPath raw) = callbackKey ++ x → x.head? = some slash →
      (evsQuery m.server.events (spelled raw lead) = .ok (some (callbackEvent, x)) ↔
        Clear (apps m) (callbackKey ++ x))) ∧
    (Elsewhere (dropSlash (evsCleanPath raw)) →
      ∃ t, insertAll PrefixTree.empty (apps m) = .ok t ∧
        evsQuery m.server.events (spelled raw lead) = evsQuery t (spelled raw lead)) := by
  have holds := kept_reachable reached
  obtain ⟨k, path⟩ := exists_bytes_clean raw
  obtain ⟨answer, query, answers⟩ :=
    evsQuery_answers m.server.events _ holds (spelled raw lead) k (by rw [dropSlash_spelled, path])
  rw [path] at answers
  rw [query]
  refine ⟨fun r member same => ?_, fun x below child => ?_, fun elsewhere => ?_⟩
  · have stored : registered (qioHandlers ++ apps m) (dropSlash (evsCleanPath raw)) =
        some r.event := by
      rw [same, registered_append, registered_qioHandlers r member, Option.some_or]
    rw [answers.owned stored]
  · rw [Except.ok.injEq, ← below]
    exact answers_callback_iff below child answers
  · obtain ⟨t, others, inserted, -, queried, alone⟩ := insertAll_evsQuery (apps m) raw lead
    refine ⟨t, inserted, ?_⟩
    rw [queried, answers_unique (answers_elsewhere elsewhere answers) alone]

/-- An application tries to take `/qio/on` over, and registers an event of its own below
`/qio/callback`. -/
def intruding : List Registry.Label := [
  (lateEnv, .addHandler (some (str "/qio")) (some (str "/on")) ⟨some (.app 1), none, none⟩ false),
  (lateEnv, .addHandler (some (str "/qio/callback")) (some (str "/55"))
    ⟨some (.app 2), none, none⟩ false)]

def sampleServer : Server :=
  { Server.new with
    events := match evsQioInit PrefixTree.empty with
      | .ok t => t
      | .error _ => PrefixTree.empty }

/-- Clients still subscribe, but the answers to callbacks 5 and 55 do not arrive. -/
theorem builtins_answer_intruding : ∃ m, system.Reachable m ∧
    evsQuery m.server.events (str "/qio/on") =
      .ok (some (⟨str "/qio/on", ⟨some .on, some .noOn, none⟩, false⟩, [])) ∧
    evsQuery m.server.events (str "/qio/callback/6") = .ok (some (callbackEvent, str "/6")) ∧
    evsQuery m.server.events (str "/qio/callback/5") ≠ .ok (some (callbackEvent, str "/5")) := by
  have some_ : (system.run ⟨sampleServer, qioHandlers⟩ intruding).isSome := by decide
  obtain ⟨m, ran⟩ := Option.isSome_iff_exists.mp some_
  have reached : system.Reachable m := ⟨_, intruding, ⟨by rfl, rfl⟩, ran⟩
  have more : (system.run ⟨sampleServer, qioHandlers⟩ intruding).map apps =
      some [⟨some (str "/qio"), some (str "/on"), none, ⟨some (.app 1), none, none⟩, false⟩,
        ⟨some (str "/qio/callback"), some (str "/55"), none, ⟨some (.app 2), none, none⟩, false⟩] :=
    rfl
  rw [ran, Option.map_some, Option.some.injEq] at more
  refine ⟨m, reached, ?_, ?_, ?_⟩
  · exact (builtins_answer m reached (str "/qio/on") true).1
      ⟨some (str "/qio"), some (str "/on"), none, ⟨some .on, some .noOn, none⟩, false⟩
      (by simp [qioHandlers]) (by decide)
  · refine ((builtins_answer m reached (str "/qio/callback/6") true).2.1 (str "/6") (by decide)
      (by decide)).mpr ⟨?_, ?_⟩
    · rw [more]
      decide
    · rintro q y ev ⟨-, -, stored, handles⟩
      obtain ⟨r, found, rfl⟩ := Option.map_eq_some_iff.mp stored
      have childless : ∀ r ∈ apps m, r.handleChildren = false := by
        rw [more]
        decide
      have member := childless r (List.mem_of_find?_eq_some found)
      cases member.symm.trans handles
  · intro found
    have clear := ((builtins_answer m reached (str "/qio/callback/5") true).2.1 (str "/5")
      (by decide) (by decide)).mp found
    rw [more] at clear
    exact absurd clear.1 (by decide)

end Builtins

end QuickIO
