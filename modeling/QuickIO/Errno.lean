import QuickIO.EventGrammar
import QuickIO.Evs
import QuickIO.Routing

/-!
# `errno` between events

`protocol_raw_handle` asks whether `errno` is `ERANGE` without having cleared it.
An overflow in the callback id of an event or in the number behind `/qio/callback/`
stays in `errno`, and a later event on the thread whose id is `2 ^ 64 - 1` is taken
for one that overflows. `parsing_independent_iff` says that nothing else of what
came before can be told from how an event is parsed.
-/
namespace QuickIO

open Lib

namespace Errno

/-- An event on a thread. `sets` says whether what its handler calls outside the
server leaves `errno` at `ERANGE`. -/
structure Arrival where
  event : Bytes
  sets : Bool := false
deriving DecidableEq, Repr

/-- Whether reading the callback id of an event sets `errno`. -/
def idErange (event : Bytes) : Bool :=
  match event.dropWhile (· ≠ 0x3a) with
  | [] => false
  | _ :: curr => (gAsciiStrtoull curr).erange

/-- Whether `_callback` sets `errno`, for its `ev_extra`. -/
def callbackErange : Bytes → Bool
  | [] => false
  | first :: rest => first = slash && (gAsciiStrtoull rest).erange

/-- Whether the handler that `evs_route` finds sets `errno`. -/
def routeErange (events : Ptrie Handlers) (evPath : Bytes) : Bool :=
  match evsQuery events (evsCleanPath evPath) with
  | .ok (some (ev, evExtra)) => ev.handlers.handlerFn = some .callback && callbackErange evExtra
  | _ => false

/-- Whether `errno` is `ERANGE` after `protocol_raw_handle`. Nobody resets it. -/
def handleErange (events : Ptrie Handlers) (erange : Bool) (a : Arrival) : Bool :=
  erange || idErange a.event ||
    match (protocolRawHandle erange a.event).routed with
    | none => false
    | some ev => routeErange events ev.evPath || a.sets

/-- `errno` on a thread that began without an error. -/
def erangeAfter (events : Ptrie Handlers) (history : List Arrival) : Bool :=
  history.foldl (handleErange events) false

/-- What an event comes to on a thread with this history. -/
def handleAfter (events : Ptrie Handlers) (history : List Arrival) (event : Bytes) : RawHandled :=
  protocolRawHandle (erangeAfter events history) event

/-! ### What sets `errno` -/

/-- The text begins with a number that is out of range. -/
def Overflow (text : Bytes) : Prop :=
  ∃ (N : Numeral) (rest : Bytes), text = N.text ++ rest ∧ Stops rest ∧ ¬ N.InRange

theorem erange_iff (text : Bytes) : (gAsciiStrtoull text).erange = true ↔ Overflow text := by
  constructor
  · intro set
    rcases exists_numeral text with none | ⟨N, rest, rfl, stops⟩
    · rw [none] at set
      cases set
    · refine ⟨N, rest, rfl, stops, fun fits => ?_⟩
      rw [gAsciiStrtoull_text N rest stops, Numeral.read, if_pos fits] at set
      cases set
  · rintro ⟨N, rest, rfl, stops, large⟩
    rw [gAsciiStrtoull_text N rest stops, Numeral.read, if_neg large]

/-- The callback id of an event is out of range. -/
def IdOverflow (event : Bytes) : Prop :=
  ∃ P curr, event = P ++ colon :: curr ∧ colon ∉ P ∧ Overflow curr

/-- A path leads to `_callback`, with a server callback id that is out of range. -/
def CallbackOverflow (events : Ptrie Handlers) (evPath : Bytes) : Prop :=
  ∃ ev id, evsQuery events (evsCleanPath evPath) = .ok (some (ev, slash :: id)) ∧
    ev.handlers.handlerFn = some .callback ∧ Overflow id

/-- An event that leaves `errno` at `ERANGE`. -/
def Overflows (events : Ptrie Handlers) (a : Arrival) : Prop :=
  IdOverflow a.event ∨
    ∃ P N J, IsEvent a.event P N J ∧ (CallbackOverflow events P ∨ a.sets = true)

/-- An event whose callback id is `2 ^ 64 - 1`, in one of its two spellings. -/
def LastId (event : Bytes) : Prop :=
  ∃ P N J, IsEvent event P N J ∧ (N.value = 2 ^ 64 - 1 ∨ N.value = -1)

theorem idErange_iff (event : Bytes) : idErange event = true ↔ IdOverflow event := by
  by_cases found : colon ∈ event
  · obtain ⟨P, curr, rfl, noColon⟩ := List.eq_append_cons_of_mem found
    have after := (takeWhile_colon curr noColon).2
    rw [idErange, after]
    refine (erange_iff curr).trans ⟨fun beyond => ⟨P, curr, rfl, noColon, beyond⟩, ?_⟩
    rintro ⟨P', curr', same, noColon', beyond⟩
    have after' := (takeWhile_colon curr' noColon').2
    rw [← same, after] at after'
    rw [(List.cons.inj after').2]
    exact beyond
  · have all : event.dropWhile (· ≠ 0x3a) = [] := dropWhile_noColon found
    rw [idErange, all]
    constructor
    · intro set
      cases set
    · rintro ⟨P, curr, rfl, -, -⟩
      exact absurd (List.mem_append_right P List.mem_cons_self) found

theorem routeErange_iff (events : Ptrie Handlers) (evPath : Bytes) :
    routeErange events evPath = true ↔ CallbackOverflow events evPath := by
  rw [routeErange]
  constructor
  · intro set
    split at set
    next ev evExtra query =>
      obtain ⟨callback, beyond⟩ := (Bool.and_eq_true _ _).mp set
      cases evExtra with
      | nil => cases beyond
      | cons first rest =>
        obtain ⟨isSlash, beyond⟩ := (Bool.and_eq_true _ _).mp beyond
        rw [of_decide_eq_true isSlash] at query
        exact ⟨ev, rest, query, of_decide_eq_true callback, (erange_iff rest).mp beyond⟩
    next => cases set
  · rintro ⟨ev, id, query, callback, beyond⟩
    rw [query]
    simp [callback, callbackErange, (erange_iff id).mpr beyond]

/-! ### Histories -/

theorem routed_iff (event : Bytes) (P : Bytes) :
    (∃ ev, (protocolRawHandle false event).routed = some ev ∧ ev.evPath = P) ↔
      ∃ N J, IsEvent event P N J := by
  constructor
  · rintro ⟨ev, routed, rfl⟩
    cases parsed : parseEvent false event with
    | none =>
      rw [protocolRawHandle, parsed] at routed
      cases routed
    | some found =>
      rw [protocolRawHandle, parsed] at routed
      cases routed
      obtain ⟨N, is⟩ := isEvent_of_parseEvent parsed
      exact ⟨N, ev.json, is⟩
  · rintro ⟨N, J, is⟩
    have parsed := parseEvent_isEvent is false
    rw [if_neg fun last => Bool.noConfusion last.2] at parsed
    exact ⟨_, by rw [protocolRawHandle, parsed]; rfl, rfl⟩

/-- The first event that sets `errno` is one that does so by itself. -/
theorem handleErange_false (events : Ptrie Handlers) (a : Arrival) :
    handleErange events false a = true ↔ Overflows events a := by
  rw [handleErange, Overflows, Bool.false_or, Bool.or_eq_true, idErange_iff]
  refine or_congr_right ⟨?_, ?_⟩
  · intro set
    split at set
    next => cases set
    next ev routed =>
      obtain ⟨N, J, is⟩ := (routed_iff a.event ev.evPath).mp ⟨ev, routed, rfl⟩
      rw [Bool.or_eq_true, routeErange_iff] at set
      exact ⟨ev.evPath, N, J, is, set⟩
  · rintro ⟨P, N, J, is, set⟩
    obtain ⟨ev, routed, rfl⟩ := (routed_iff a.event P).mpr ⟨N, J, is⟩
    rw [routed]
    simpa [routeErange_iff] using set

theorem handleErange_true (events : Ptrie Handlers) (a : Arrival) :
    handleErange events true a = true := by
  rw [handleErange, Bool.true_or, Bool.true_or]

/-- `errno` latches. -/
theorem foldl_handleErange (events : Ptrie Handlers) (history : List Arrival) (erange : Bool) :
    history.foldl (handleErange events) erange = true ↔
      erange = true ∨ ∃ a ∈ history, Overflows events a := by
  induction history generalizing erange with
  | nil => simp
  | cons a history ih =>
    rw [List.foldl_cons, ih, List.exists_mem_cons_iff]
    cases erange with
    | true => simp [handleErange_true]
    | false => simp [handleErange_false]

theorem erangeAfter_iff (events : Ptrie Handlers) (history : List Arrival) :
    erangeAfter events history = true ↔ ∃ a ∈ history, Overflows events a := by
  rw [erangeAfter, foldl_handleErange]
  simp

/-- The two spellings of the last id. -/
theorem clientCb_last_iff {N : Numeral} (fits : N.InRange) :
    N.clientCb = 0xffffffffffffffff ↔ N.value = 2 ^ 64 - 1 ∨ N.value = -1 := by
  have range : N.value = N.magnitude ∨ N.value = -(N.magnitude : Int) := by
    rw [Numeral.value]
    split
    next => exact Or.inr rfl
    next => exact Or.inl rfl
  have small : N.magnitude < 2 ^ 64 := fits
  rw [← UInt64.toNat_inj, Numeral.clientCb, UInt64.ofInt, UInt64.toNat_ofNat']
  have last : (0xffffffffffffffff : UInt64).toNat = 2 ^ 64 - 1 := rfl
  rw [last]
  omega

/-- `errno` matters to the event with the last id, and to no other. -/
theorem handle_erange_iff (event : Bytes) :
    protocolRawHandle true event = protocolRawHandle false event ↔ ¬ LastId event := by
  constructor
  · rintro same ⟨P, N, J, is, last⟩
    -- the last id is refused with `errno` set and taken without
    have cb := (clientCb_last_iff is.inRange).mpr last
    have taken := parseEvent_isEvent is false
    have refused := parseEvent_isEvent is true
    rw [if_neg fun last => Bool.noConfusion last.2] at taken
    rw [if_pos ⟨cb, rfl⟩] at refused
    rw [protocolRawHandle, protocolRawHandle, taken, refused] at same
    cases same
  · intro other
    by_cases event_ : ∃ P N J, IsEvent event P N J
    · obtain ⟨P, N, J, is⟩ := event_
      -- any other id does not look at `errno`
      have notLast : N.clientCb ≠ 0xffffffffffffffff := fun last =>
        other ⟨P, N, J, is, (clientCb_last_iff is.inRange).mp last⟩
      rw [protocolRawHandle, protocolRawHandle, parseEvent_isEvent is true,
        parseEvent_isEvent is false, if_neg fun last => notLast last.1,
        if_neg fun last => notLast last.1]
    · -- what is no event is refused either way
      have none : ∀ erange, parseEvent erange event = none := by
        intro erange
        cases parsed : parseEvent erange event with
        | none => rfl
        | some ev =>
          obtain ⟨N, is⟩ := isEvent_of_parseEvent parsed
          exact absurd ⟨ev.evPath, N, ev.json, is⟩ event_
      rw [protocolRawHandle, protocolRawHandle, none, none]

/-- Parsing depends on what came before in one way only: an event with the last id
is refused behind an event that left `errno` at `ERANGE`. -/
theorem parsing_independent_iff (events : Ptrie Handlers) (history history' : List Arrival)
    (event : Bytes) :
    handleAfter events history event = handleAfter events history' event ↔
      ((∃ a ∈ history, Overflows events a) ↔ ∃ a ∈ history', Overflows events a) ∨
        ¬ LastId event := by
  rw [← erangeAfter_iff, ← erangeAfter_iff, ← handle_erange_iff, handleAfter, handleAfter]
  cases erangeAfter events history <;> cases erangeAfter events history'
  · simp
  · simp [eq_comm]
  · simp
  · simp

/-- A built-in event of `evs_qio_init`. -/
def qioHandler (evPath : Bytes) (handler : HandlerFn) (handleChildren : Bool) :
    Registration Handlers where
  evPrefix := some (str "/qio")
  evPath := some evPath
  evExtra := none
  handlers := { handlerFn := some handler, onFn := some .noOn, offFn := none }
  handleChildren

/-- `evs_qio_init` -/
def evsQioInit : List (Registration Handlers) := [
  qioHandler (str "/callback") .callback true,
  qioHandler (str "/hostname") .hostname false,
  qioHandler (str "/off") .off false,
  qioHandler (str "/on") .on false,
  qioHandler (str "/ping") .ping false]

/-- What `evs_qio_init` leaves in the trie. -/
def qioEvents : Ptrie Handlers :=
  (insertAll PrefixTree.empty evsQioInit).toOption.getD PrefixTree.empty

/-- An answer to a callback whose id does not fit. -/
def longCallback : Arrival where
  event := str "/qio/callback/18446744073709551616:0=null"

/-- A ping with the last callback id there is. -/
def lastPing : Bytes := str "/qio/ping:18446744073709551615=null"

/-- On a fresh thread the ping is routed; behind the answer its client is closed. -/
theorem parsing_independent_longCallback :
    ¬ ∀ (history history' : List Arrival) (event : Bytes),
      handleAfter qioEvents history event = handleAfter qioEvents history' event := by
  intro independent
  have same := independent [] [longCallback] lastPing
  exact absurd same (by decide)

example : handleAfter qioEvents [{ event := str "/qio/ping:18446744073709551616=" }] lastPing =
    .refused := by decide

end Errno

end QuickIO
