import QuickIO.Lib.PrefixTree
import QuickIO.Paths

/-!
# The event trie

`evs_query_insert` and `evs_query` on the tree of `struct _ptrie`. A node has
one slot for each byte from `'-'` to `'z'`; reading or writing any other slot
is a fault. A node whose `ev_path` is `NULL` holds no event.
-/
namespace QuickIO

open Lib

/-- Undefined behaviour of the trie: slot `ch` of `childs` does not exist. -/
inductive Fault where
  | childs (ch : UInt8)
deriving DecidableEq, Repr

/-- `struct event`. The handler, on and off functions are opaque to the trie;
the subscriptions live in the server state. -/
structure Event (H : Type) where
  evPath : Bytes
  handlers : H
  handleChildren : Bool
deriving DecidableEq, Repr

/-- The index `*curr - '-'`, computed in a `guchar`. -/
def childIndex (c : UInt8) : UInt8 := c - 0x2d

/-- The number of children of a node: `'z' - '-' + 1`. -/
def childsLen : Nat := 78

/-- The bytes whose index is a slot of `childs`. -/
abbrev PathByte := { c : UInt8 // (childIndex c).toNat < childsLen }

/-- `struct _ptrie` -/
abbrev Ptrie (H : Type) := PrefixTree PathByte (Event H)

variable {H : Type}

/-- Select a slot of `childs`. -/
def slot (c : UInt8) : Except Fault PathByte :=
  if inRange : (childIndex c).toNat < childsLen then .ok ⟨c, inRange⟩
  else .error (.childs (childIndex c))

/-- The walk of `evs_query_insert`: the loop that allocates nodes, then the
check for an event already there. `ev` is what `event_init` would store. -/
def insertLoop (ev : Event H) (parent : Ptrie H) :
    Bytes → Except Fault (Ptrie H × Option (Event H))
  | [] =>
    match parent.value with
    -- An event is there already: `NULL`.
    | some _ => .ok (parent, none)
    | none => .ok ({ parent with value := some ev }, some ev)
  | c :: curr =>
    match slot c with
    | .error fault => .error fault
    -- `childs` is indexed without a test.
    | .ok ch =>
      match insertLoop ev (parent.childOrNew ch) curr with
      | .error fault => .error fault
      | .ok (child, inserted) => .ok (parent.setChild ch child, inserted)

/-- `evs_query_insert`; `none` is the `NULL` it returns. -/
def evsQueryInsert (events : Ptrie H) (evPath : Bytes) (handlers : H) (handleChildren : Bool) :
    Except Fault (Ptrie H × Option (Event H)) :=
  match dropSlash evPath with
  | [] => .ok (events, none)
  | c :: curr => insertLoop ⟨evPath, handlers, handleChildren⟩ events (c :: curr)

/-- `child_handler` and `child_start` once the walk is about to leave `parent`
with `curr` still to read. A node without an event handles no children. -/
def remember (parent : Ptrie H) (curr : Bytes) (handler : Option (Event H × Bytes)) :
    Option (Event H × Bytes) :=
  match parent.value with
  | some ev => if ev.handleChildren then some (ev, curr) else handler
  | none => handler

/-- The answer when the walk left the trie. It should only match a child path:
`/ev2` is not below `/ev`, `/ev/another` is. -/
def childOnly : Option (Event H × Bytes) → Option (Event H × Bytes)
  | some (ev, childStart) => if childStart.head? = some slash then some (ev, childStart) else none
  | none => none

/-- The walk of `evs_query`. `handler` is `child_handler` with `child_start`;
the result is the event with `ev_extra`. -/
def queryLoop (parent : Ptrie H) (handler : Option (Event H × Bytes)) :
    Bytes → Except Fault (Option (Event H × Bytes))
  | [] =>
    match parent.value with
    -- The walk ended on an event: it has the whole path, and no `ev_extra`.
    | some ev => .ok (some (ev, []))
    | none => .ok none
  | c :: curr =>
    match slot c with
    | .error fault => .error fault
    | .ok ch =>
      match parent.child ch with
      | some child => queryLoop child (remember parent (c :: curr) handler) curr
      -- The walk left the trie: only a parent that handles children can match.
      | none => .ok (childOnly (remember parent (c :: curr) handler))

/-- `evs_query`: the event and its `ev_extra`, or `NULL`. -/
def evsQuery (events : Ptrie H) (evPath : Bytes) : Except Fault (Option (Event H × Bytes)) :=
  queryLoop events none (dropSlash evPath)

/-- The arguments of one registration: the three of `evs_make_path`, what the
event does, and whether it handles its children. -/
structure Registration (H : Type) where
  evPrefix : Option Bytes
  evPath : Option Bytes
  evExtra : Option Bytes
  handlers : H
  handleChildren : Bool

def Registration.path (r : Registration H) : Bytes := evsMakePath r.evPrefix r.evPath r.evExtra

/-- `evs_query_insert` on a path made by `evs_make_path`. -/
def Registration.insert (events : Ptrie H) (r : Registration H) :
    Except Fault (Ptrie H × Option (Event H)) :=
  evsQueryInsert events r.path r.handlers r.handleChildren

/-- `evs_add_handler`: the path is made of a prefix and a path only. -/
def evsAddHandler (events : Ptrie H) (evPrefix evPath : Option Bytes) (handlers : H)
    (handleChildren : Bool) : Except Fault (Ptrie H × Option (Event H)) :=
  evsQueryInsert events (evsMakePath evPrefix evPath none) handlers handleChildren

/-- A sequence of insertions; what each returned is dropped. -/
def insertAll (events : Ptrie H) : List (Registration H) → Except Fault (Ptrie H)
  | [] => .ok events
  | r :: rs =>
    match r.insert events with
    | .error fault => .error fault
    | .ok (events, _) => insertAll events rs

end QuickIO
