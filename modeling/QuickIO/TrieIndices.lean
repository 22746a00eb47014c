import QuickIO.PathNames
import QuickIO.Replies

/-!
# The indices of the trie's walks

Both walks index `childs` with a byte less `'-'`, and without a test: `childs` has 78
slots, `_allowed_chars` has 256 entries. What cleaning lets through has a slot, and every
entry point but `evs_broadcast_path` cleans the path it is given. `trie_indices_iff` says
for which calls every index is a slot.
-/
namespace QuickIO

open Lib

variable {H : Type}

/-! ### What a walk computes -/

/-- The indices `evs_query_insert` computes. Behind one that is no slot nothing is defined. -/
def insertIndices : Bytes → List UInt8
  | [] => []
  | c :: curr =>
    childIndex c ::
      match slot c with
      | .error _ => []
      | .ok _ => insertIndices curr

/-- The indices `evs_query` computes: it also stops where there is no child. -/
def queryIndices (parent : Ptrie H) : Bytes → List UInt8
  | [] => []
  | c :: curr =>
    childIndex c ::
      match slot c with
      | .error _ => []
      | .ok ch =>
        match parent.child ch with
        | some child => queryIndices child curr
        | none => []

/-- A function that computes these indices faults at one that is no slot, and nowhere else. -/
def Computes {α : Type} (result : Except Fault α) (indices : List UInt8) : Prop :=
  ∀ i, result = .error (.childs i) ↔ i ∈ indices ∧ childsLen ≤ i.toNat

section Computes

variable {α β : Type} {result : Except Fault α} {indices : List UInt8} {c : UInt8}

theorem Computes.inRange_iff (computes : Computes result indices) :
    (∀ i ∈ indices, i.toNat < childsLen) ↔ ∃ a, result = .ok a := by
  constructor
  · intro inRange
    cases result with
    | ok a => exact ⟨a, rfl⟩
    | error fault =>
      obtain ⟨i⟩ := fault
      obtain ⟨member, outOfRange⟩ := (computes i).mp rfl
      exact absurd (inRange i member) (Nat.not_lt.mpr outOfRange)
  · rintro ⟨a, rfl⟩ i member
    by_contra outOfRange
    cases (computes i).mpr ⟨member, Nat.le_of_not_lt outOfRange⟩

theorem computes_ok (a : α) (inRange : ∀ i ∈ indices, i.toNat < childsLen) :
    Computes (.ok a) indices := by
  intro i
  constructor
  · intro failed
    cases failed
  · rintro ⟨member, outOfRange⟩
    exact absurd (inRange i member) (Nat.not_lt.mpr outOfRange)

/-- The step that reads a slot outside of `childs`. -/
theorem computes_outside (outOfRange : childsLen ≤ (childIndex c).toNat) :
    Computes (.error (.childs (childIndex c)) : Except Fault α) [childIndex c] := by
  intro i
  constructor
  · intro failed
    cases failed
    exact ⟨List.mem_singleton_self _, outOfRange⟩
  · rintro ⟨member, -⟩
    rw [List.mem_singleton.mp member]

/-- A step inside. -/
theorem Computes.cons (computes : Computes result indices)
    (inRange : (childIndex c).toNat < childsLen) : Computes result (childIndex c :: indices) := by
  intro i
  rw [computes i]
  constructor
  · rintro ⟨member, outOfRange⟩
    exact ⟨List.mem_cons_of_mem _ member, outOfRange⟩
  · rintro ⟨member, outOfRange⟩
    rcases List.mem_cons.mp member with rfl | later
    · exact absurd inRange (Nat.not_lt.mpr outOfRange)
    · exact ⟨later, outOfRange⟩

/-- What is done with the result computes no index. -/
theorem Computes.map (computes : Computes result indices) (f : α → β) :
    Computes (result.map f) indices := by
  intro i
  rw [← computes i]
  cases result with
  | ok a => simp only [Except.map, reduceCtorEq]
  | error fault => simp only [Except.map, Except.error.injEq]

end Computes

theorem insertLoop_computes (ev : Event H) (t : Ptrie H) (q : Bytes) :
    Computes (insertLoop ev t q) (insertIndices q) := by
  induction q generalizing t with
  | nil =>
    rw [insertLoop]
    cases t.value with
    | none => exact computes_ok _ (List.forall_mem_nil _)
    | some other => exact computes_ok _ (List.forall_mem_nil _)
  | cons c q ih =>
    rw [insertIndices]
    by_cases inRange : (childIndex c).toNat < childsLen
    · -- the loop goes on below, and puts the child in its place
      have rest : insertLoop ev t (c :: q) = (insertLoop ev (t.childOrNew ⟨c, inRange⟩) q).map
          fun result => (t.setChild ⟨c, inRange⟩ result.1, result.2) := by
        rw [insertLoop, slot_ok inRange]
        dsimp only
        cases insertLoop ev (t.childOrNew ⟨c, inRange⟩) q with
        | error fault => rfl
        | ok result => rfl
      rw [rest, slot_ok inRange]
      exact ((ih _).map _).cons inRange
    · have outOfRange := Nat.le_of_not_lt inRange
      rw [insertLoop, slot_error outOfRange]
      exact computes_outside outOfRange

theorem queryLoop_computes (t : Ptrie H) (handler : Option (Event H × Bytes)) (q : Bytes) :
    Computes (queryLoop t handler q) (queryIndices t q) := by
  induction q generalizing t handler with
  | nil =>
    rw [queryLoop]
    cases t.value with
    | none => exact computes_ok _ (List.forall_mem_nil _)
    | some ev => exact computes_ok _ (List.forall_mem_nil _)
  | cons c q ih =>
    rw [queryLoop, queryIndices]
    by_cases inRange : (childIndex c).toNat < childsLen
    · rw [slot_ok inRange]
      dsimp only
      cases t.child ⟨c, inRange⟩ with
      | some child => exact (ih child _).cons inRange
      -- the walk leaves the trie
      | none => exact (computes_ok _ (List.forall_mem_nil _)).cons inRange
    · have outOfRange := Nat.le_of_not_lt inRange
      rw [slot_error outOfRange]
      exact computes_outside outOfRange

theorem evsQuery_computes (t : Ptrie H) (p : Bytes) :
    Computes (evsQuery t p) (queryIndices t (dropSlash p)) :=
  queryLoop_computes t none (dropSlash p)

/-- `evs_query` on a cleaned path. -/
theorem queryIndices_clean (t : Ptrie H) (raw : Bytes) :
    ∀ i ∈ queryIndices t (dropSlash (evsCleanPath raw)), i.toNat < childsLen :=
  (evsQuery_computes t (evsCleanPath raw)).inRange_iff.mpr (evsQuery_clean t raw)

theorem evsQueryInsert_computes (t : Ptrie H) (p : Bytes) (handlers : H) (handleChildren : Bool) :
    Computes (evsQueryInsert t p handlers handleChildren) (insertIndices (dropSlash p)) := by
  rw [evsQueryInsert]
  cases dropSlash p with
  | nil => exact computes_ok _ (List.forall_mem_nil _)
  | cons c curr => exact insertLoop_computes _ t (c :: curr)

/-! ### What an entry point computes -/

section Entries

variable (env : Env) (events : Ptrie Handlers)

/-- `_on`, in either form. -/
def onIndices (json : Bytes) : List UInt8 :=
  match Server.onArguments env json with
  | none => []
  | some (evPath, _) => queryIndices events (dropSlash (evsCleanPath evPath))

/-- `_off` -/
def offIndices (json : Bytes) : List UInt8 :=
  match json with
  | 0x22 :: evPath => queryIndices events (dropSlash (evsCleanPath evPath))
  | _ => []

/-- `evs_route`, and the handler that it calls. -/
def routeIndices (evPath json : Bytes) : List UInt8 :=
  queryIndices events (dropSlash (evsCleanPath evPath)) ++
    match evsQuery events (evsCleanPath evPath) with
    | .ok (some (ev, _)) =>
      match ev.handlers.handlerFn with
      | some .on => onIndices env events json
      | some .off => offIndices events json
      | _ => []
    | _ => []

/-- A call that is given a path. The paths are C strings: their bytes are not NUL. -/
inductive PathCall
  | addHandler (evPrefix evPath : Option Bytes) (handlers : Handlers) (handleChildren : Bool)
  | route (c : ClientId) (evPath : Bytes) (clientCb : EvsCb) (json : Bytes)
  | on (c : ClientId) (clientCb : EvsCb) (json : Bytes)
  | off (c : ClientId) (clientCb : EvsCb) (json : Bytes)
  | broadcastPath (evPath : Bytes) (json : Option Bytes)

namespace PathCall

/-- Every index that `evs_query_insert` or `evs_query` computes in the call. -/
def indices : PathCall → List UInt8
  | .addHandler evPrefix evPath _ _ => insertIndices (dropSlash (evsMakePath evPrefix evPath none))
  | .route _ evPath _ json => routeIndices env events evPath json
  | .on _ _ json => onIndices env events json
  | .off _ _ json => offIndices events json
  | .broadcastPath evPath _ => queryIndices events (dropSlash evPath)

/-- The server after the call. -/
def run (σ : Server) : PathCall → Except Fault Server
  | .addHandler evPrefix evPath handlers handleChildren =>
    (evsAddHandler σ.events evPrefix evPath handlers handleChildren).map fun result =>
      { σ with events := result.1 }
  | .route c evPath clientCb json => (σ.evsRoute env c evPath clientCb json).map Server.Outcome.server
  | .on c clientCb json => (σ.qioOn env c clientCb json).map fun result => result.1.server
  | .off c clientCb json => (σ.qioOff env c clientCb json).map fun result => result.1.server
  | .broadcastPath evPath json => (σ.evsBroadcastPath evPath json).map Prod.fst

end PathCall

/-! ### The paths that are cleaned -/

theorem onIndices_inRange (json : Bytes) :
    ∀ i ∈ onIndices env events json, i.toNat < childsLen := by
  unfold onIndices
  split
  next => exact List.forall_mem_nil _
  next evPath _ _ => exact queryIndices_clean events evPath

theorem offIndices_inRange (json : Bytes) :
    ∀ i ∈ offIndices events json, i.toNat < childsLen := by
  unfold offIndices
  split
  next evPath => exact queryIndices_clean events evPath
  next => exact List.forall_mem_nil _

theorem routeIndices_inRange (evPath json : Bytes) :
    ∀ i ∈ routeIndices env events evPath json, i.toNat < childsLen := by
  intro i member
  rcases List.mem_append.mp member with here | handler
  · exact queryIndices_clean events evPath i here
  · -- the path in the JSON is cleaned by the handler
    split at handler
    next =>
      split at handler
      next => exact onIndices_inRange env events json i handler
      next => exact offIndices_inRange events json i handler
      next => cases handler
    next => cases handler

end Entries

/-- Each entry point faults at an index that is no slot, and nowhere else. -/
theorem PathCall.run_computes (env : Env) (σ : Server) (call : PathCall) :
    Computes (call.run env σ) (call.indices env σ.events) := by
  cases call with
  | addHandler evPrefix evPath handlers handleChildren =>
    exact (evsQueryInsert_computes σ.events _ handlers handleChildren).map _
  | route c evPath clientCb json =>
    obtain ⟨outcome, routed, -⟩ := evsRoute_settled env σ c clientCb evPath json
    rw [run, routed]
    exact computes_ok _ (routeIndices_inRange env σ.events evPath json)
  | on c clientCb json =>
    obtain ⟨result, called, -⟩ := qioOn_handled env σ c clientCb json
    rw [run, called]
    exact computes_ok _ (onIndices_inRange env σ.events json)
  | off c clientCb json =>
    obtain ⟨result, called, -⟩ := qioOff_handled env σ c clientCb json
    rw [run, called]
    exact computes_ok _ (offIndices_inRange σ.events json)
  | broadcastPath evPath json =>
    have query : run env σ (.broadcastPath evPath json) = (evsQuery σ.events evPath).map
        fun answer => answer.elim σ fun found => (σ.evsBroadcast found.1 found.2 json).1 := by
      rw [run, Server.evsBroadcastPath]
      cases evsQuery σ.events evPath with
      | error fault => rfl
      | ok answer => cases answer <;> rfl
    rw [query]
    exact (evsQuery_computes σ.events evPath).map _

/-! ### Which calls stay inside -/

theorem childIndex_inRange_iff (c : UInt8) :
    (childIndex c).toNat < childsLen ↔ 0x2d ≤ c ∧ c ≤ 0x7a := by
  have small := c.toNat_lt
  simp only [childIndex, childsLen, UInt8.toNat_sub, UInt8.le_iff_toNat_le, UInt8.reduceToNat]
  omega

/-- The bytes of `q` that a walk comes to, the first one and each one behind the beginning
of a registered path, lie between `'-'` and `'z'`. -/
def InSlots (rs : List (Registration H)) (q : Bytes) : Prop :=
  ∀ w c rest, q = w ++ c :: rest → (w = [] ∨ ∃ r ∈ rs, slash :: w <+: r.path) →
    0x2d ≤ c ∧ c ≤ 0x7a

theorem inSlots_iff {rs : List (Registration H)} {q : Bytes} : InSlots rs q ↔ ¬Overruns rs q := by
  constructor
  · rintro inside ⟨w, c, rest, split, outOfRange, node⟩
    have inRange := (childIndex_inRange_iff c).mpr (inside w c rest split node)
    exact absurd inRange (Nat.not_lt.mpr outOfRange)
  · intro inside w c rest split node
    rw [← childIndex_inRange_iff]
    by_contra outOfRange
    exact inside ⟨w, c, rest, split, Nat.le_of_not_lt outOfRange, node⟩

theorem evsQuery_ok_iff {t : Ptrie H} {rs : List (Registration H)} (holds : Represents t rs)
    (p : Bytes) : (∃ answer, evsQuery t p = .ok answer) ↔ InSlots rs (dropSlash p) := by
  rw [inSlots_iff]
  rcases evsQuery_raw holds p with ⟨overruns, fault, failed⟩ | ⟨inside, answer, found, -⟩
  · refine iff_of_false ?_ (not_not_intro overruns)
    rintro ⟨answer, found⟩
    cases failed.symm.trans found
  · exact iff_of_true ⟨answer, found⟩ inside

/-- `evs_broadcast_path` looks its path up as it is; every other call may be given any. -/
def PathCall.Fits (rs : List (Registration Handlers)) : PathCall → Prop
  | .broadcastPath evPath _ => InSlots rs (dropSlash evPath)
  | _ => True

theorem PathCall.indices_inRange_iff {t : Ptrie Handlers} {rs : List (Registration Handlers)}
    (holds : Represents t rs) (env : Env) (call : PathCall) :
    (∀ i ∈ call.indices env t, i.toNat < childsLen) ↔ call.Fits rs := by
  cases call with
  | addHandler evPrefix evPath handlers handleChildren =>
    obtain ⟨u, inserted, -⟩ := represents_insert t rs
      ⟨evPrefix, evPath, none, handlers, handleChildren⟩ holds
    have computes := evsQueryInsert_computes t (evsMakePath evPrefix evPath none) handlers
      handleChildren
    exact iff_of_true (computes.inRange_iff.mpr ⟨_, inserted⟩) trivial
  | route c evPath clientCb json => exact iff_of_true (routeIndices_inRange env t evPath json) trivial
  | on c clientCb json => exact iff_of_true (onIndices_inRange env t json) trivial
  | off c clientCb json => exact iff_of_true (offIndices_inRange t json) trivial
  | broadcastPath evPath json =>
    exact (evsQuery_computes t evPath).inRange_iff.trans (evsQuery_ok_iff holds evPath)

/-- Whatever has been registered: every index that `evs_query_insert` or `evs_query`
computes in a call is a slot of `childs` if and only if the call is no
`evs_broadcast_path`, or each byte of its path that the walk comes to lies between `'-'`
and `'z'`. -/
theorem trie_indices_iff (rs : List (Registration Handlers)) :
    ∃ t, insertAll PrefixTree.empty rs = .ok t ∧ ∀ (env : Env) (call : PathCall),
      (∀ i ∈ call.indices env t, i.toNat < childsLen) ↔ call.Fits rs := by
  obtain ⟨t, inserted, holds⟩ := insertAll_represents rs
  exact ⟨t, inserted, fun env call => call.indices_inRange_iff holds env⟩

/-- A space behind a registered path, in a broadcast to `/test/good now`. -/
theorem trie_indices_uncleaned :
    ∃ t, insertAll PrefixTree.empty [goodEvent] = .ok t ∧ ∀ env json,
      0xf3 ∈ (PathCall.broadcastPath (str "/test/good now") json).indices env t ∧
        ¬(0xf3 : UInt8).toNat < childsLen := by
  obtain ⟨t, inserted, -⟩ := insertAll_represents [goodEvent]
  have fault : ((insertAll PrefixTree.empty [goodEvent]).bind fun t =>
      evsQuery t (str "/test/good now")) = .error (.childs 0xf3) := by decide
  simp only [inserted, Except.bind] at fault
  obtain ⟨member, outOfRange⟩ := (evsQuery_computes t (str "/test/good now") 0xf3).mp fault
  exact ⟨t, inserted, fun env json => ⟨member, Nat.not_lt.mpr outOfRange⟩⟩

end QuickIO
