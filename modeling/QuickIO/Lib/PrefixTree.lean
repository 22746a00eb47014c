import Mathlib.Data.List.Basic
import Mathlib.Logic.Function.Basic

/-!
# Prefix trees

A tree over an arbitrary alphabet with an optional value at every node. The
first value stored at a key stays. Contents are given by `lookup`, the shape
by `find`; walking down a key can remember the last marked value it left.
-/
namespace QuickIO.Lib

structure PrefixTree (α β : Type) where
  value : Option β
  child : α → Option (PrefixTree α β)

namespace PrefixTree

variable {α β : Type}

def empty : PrefixTree α β := ⟨none, fun _ => none⟩

/-- The node below `t` at the given key. -/
def find (t : PrefixTree α β) : List α → Option (PrefixTree α β)
  | [] => some t
  | a :: k =>
    match t.child a with
    | none => none
    | some c => c.find k

def lookup (t : PrefixTree α β) (k : List α) : Option β :=
  (t.find k).bind value

/-- The child to descend into, allocated when there is none yet. -/
def childOrNew (t : PrefixTree α β) (a : α) : PrefixTree α β :=
  (t.child a).getD empty

def setChild [DecidableEq α] (t : PrefixTree α β) (a : α) (c : PrefixTree α β) :
    PrefixTree α β :=
  { t with child := Function.update t.child a (some c) }

/-- Store a value unless the key already has one. -/
def insert [DecidableEq α] (t : PrefixTree α β) (v : β) : List α → PrefixTree α β
  | [] => { t with value := t.value.or (some v) }
  | a :: k => t.setChild a ((t.childOrNew a).insert v k)

/-- Walk down a key from `t`. The result is the marked value of the last node
left on the way, with the part of the key still ahead of it. -/
def lastMarked (mark : β → Bool) (t : PrefixTree α β) (seen : Option (β × List α)) :
    List α → Option (β × List α)
  | [] => seen
  | a :: k =>
    let seen := ((t.value.filter mark).map (·, a :: k)).or seen
    match t.child a with
    | none => seen
    | some c => c.lastMarked mark seen k

@[simp] theorem find_nil (t : PrefixTree α β) : t.find [] = some t := rfl

theorem find_cons (t : PrefixTree α β) (a : α) (k : List α) :
    t.find (a :: k) = (t.child a).bind fun c => c.find k := by
  simp only [find]
  cases t.child a <;> rfl

@[simp] theorem lookup_nil (t : PrefixTree α β) : t.lookup [] = t.value := rfl

theorem lookup_cons (t : PrefixTree α β) (a : α) (k : List α) :
    t.lookup (a :: k) = (t.child a).bind fun c => c.lookup k := by
  simp only [lookup, find_cons]
  cases t.child a <;> rfl

theorem find_empty (k : List α) (node : PrefixTree α β) (found : empty.find k = some node) :
    k = [] := by
  cases k with
  | nil => rfl
  | cons a k => simp [find_cons, empty] at found

theorem lookup_empty (k : List α) : (empty : PrefixTree α β).lookup k = none := by
  cases k with
  | nil => rfl
  | cons a k => rfl

theorem childOrNew_lookup (t : PrefixTree α β) (a : α) (k : List α) :
    (t.childOrNew a).lookup k = t.lookup (a :: k) := by
  simp only [childOrNew, lookup_cons]
  cases t.child a with
  | none => exact lookup_empty k
  | some c => rfl

section Insert

variable [DecidableEq α]

theorem setChild_lookup (t c : PrefixTree α β) (a b : α) (k : List α) :
    (t.setChild a c).lookup (b :: k) = if b = a then c.lookup k else t.lookup (b :: k) := by
  simp only [lookup_cons, setChild, Function.update_apply]
  split <;> rfl

/-- Insertion fills exactly its own key, and only when that was free. -/
theorem lookup_insert (t : PrefixTree α β) (v : β) (key k : List α) :
    (t.insert v key).lookup k = if k = key then (t.lookup k).or (some v) else t.lookup k := by
  induction key generalizing t k with
  | nil =>
    cases k with
    | nil => simp [insert]
    | cons b k => simp [insert, lookup_cons]
  | cons a key ih =>
    cases k with
    | nil => simp [insert, setChild]
    | cons b k =>
      rw [insert, setChild_lookup]
      by_cases same : b = a
      · subst b
        simp [ih, childOrNew_lookup]
      · simp [same]

theorem find_setChild (t c : PrefixTree α β) (a b : α) (k : List α) :
    (t.setChild a c).find (b :: k) = if b = a then c.find k else t.find (b :: k) := by
  simp only [find_cons, setChild, Function.update_apply]
  split <;> rfl

/-- The nodes of the tree are the prefixes of the inserted keys. -/
theorem find_insert_isSome (t : PrefixTree α β) (v : β) (key k : List α) :
    ((t.insert v key).find k).isSome = true ↔ (t.find k).isSome = true ∨ k <+: key := by
  induction key generalizing t k with
  | nil =>
    cases k with
    | nil => simp [insert]
    | cons b k => simp [insert, find_cons]
  | cons a key ih =>
    cases k with
    | nil => simp
    | cons b k =>
      rw [insert, find_setChild]
      -- Only the child on the way to `key` changes.
      by_cases same : b = a
      · subst b
        simp only [if_true, ih, List.cons_prefix_cons, true_and, find_cons, childOrNew]
        cases t.child a with
        | some c => rfl
        -- a new child: all it has is the way to `key`
        | none =>
          simp only [Option.getD_none, Option.bind_none, Option.isSome_none, Bool.false_eq_true,
            false_or]
          constructor
          · rintro (found | pre)
            · obtain ⟨node, found⟩ := Option.isSome_iff_exists.mp found
              rw [find_empty k node found]
              exact List.nil_prefix
            · exact pre
          · exact Or.inr
      · simp [same, List.cons_prefix_cons]

end Insert

/-- `q` splits off a proper prefix of `k` whose marked value is `v`. -/
structure MarkedPrefix (t : PrefixTree α β) (mark : β → Bool) (k q rest : List α) (v : β) :
    Prop where
  split : k = q ++ rest
  proper : rest ≠ []
  stored : t.lookup q = some v
  marked : mark v = true

/-- A marked prefix is the node itself or lies below the child the key leads to. -/
theorem markedPrefix_cases (t : PrefixTree α β) (mark : β → Bool) (a : α) (k q rest : List α)
    (v : β) (found : t.MarkedPrefix mark (a :: k) q rest v) :
    (q = [] ∧ t.value = some v ∧ mark v = true) ∨
    ∃ c p, t.child a = some c ∧ q = a :: p ∧ c.MarkedPrefix mark k p rest v := by
  obtain ⟨split, proper, stored, marked⟩ := found
  cases q with
  | nil => exact Or.inl ⟨rfl, stored, marked⟩
  | cons b p =>
    simp only [List.cons_append, List.cons.injEq] at split
    obtain ⟨rfl, split⟩ := split
    rw [lookup_cons] at stored
    obtain ⟨c, down, stored⟩ := Option.bind_eq_some_iff.mp stored
    exact Or.inr ⟨c, p, down, rfl, split, proper, stored, marked⟩

theorem markedPrefix_cons (t c : PrefixTree α β) (mark : β → Bool) (a : α) (k q rest : List α)
    (v : β) (down : t.child a = some c) (found : c.MarkedPrefix mark k q rest v) :
    t.MarkedPrefix mark (a :: k) (a :: q) rest v := by
  obtain ⟨split, proper, stored, marked⟩ := found
  exact ⟨by simp [split], proper, by simpa [lookup_cons, down] using stored, marked⟩

/-- The result `r` of a walk along `k` that started with `seen`: the longest
marked proper prefix, or `seen` when there is none. -/
def Remembers (t : PrefixTree α β) (mark : β → Bool) (k : List α)
    (seen r : Option (β × List α)) : Prop :=
  (∃ q rest v, r = some (v, rest) ∧ t.MarkedPrefix mark k q rest v ∧
    ∀ q' rest' v', t.MarkedPrefix mark k q' rest' v' → q'.length ≤ q.length) ∨
  (r = seen ∧ ∀ q rest v, ¬t.MarkedPrefix mark k q rest v)

private theorem remembers_leaf (t : PrefixTree α β) (mark : β → Bool) (a : α) (k : List α)
    (seen : Option (β × List α)) (stop : t.child a = none) :
    t.Remembers mark (a :: k) seen (((t.value.filter mark).map (·, a :: k)).or seen) := by
  have nothing_below : ∀ q rest v, t.MarkedPrefix mark (a :: k) q rest v →
      q = [] ∧ t.value = some v ∧ mark v = true := by
    intro q rest v found
    rcases t.markedPrefix_cases mark a k q rest v found with here | ⟨c, p, down, -⟩
    · exact here
    · rw [stop] at down
      cases down
  cases here : t.value.filter mark with
  | none =>
    right
    refine ⟨rfl, fun q rest v found => ?_⟩
    obtain ⟨-, value, marked⟩ := nothing_below q rest v found
    simp [value, Option.filter, marked] at here
  | some v =>
    obtain ⟨value, marked⟩ := Option.filter_eq_some_iff.mp here
    left
    refine ⟨[], a :: k, v, rfl, ⟨rfl, by simp, value, marked⟩, fun q rest v' found => ?_⟩
    simp [(nothing_below q rest v' found).1]

private theorem remembers_child (t c : PrefixTree α β) (mark : β → Bool) (a : α) (k : List α)
    (seen r : Option (β × List α)) (down : t.child a = some c)
    (deeper : c.Remembers mark k (((t.value.filter mark).map (·, a :: k)).or seen) r) :
    t.Remembers mark (a :: k) seen r := by
  rcases deeper with ⟨q, rest, v, eq, found, longest⟩ | ⟨eq, nothing⟩
  · -- a marked prefix below is longer than the one here
    left
    refine ⟨a :: q, rest, v, eq, t.markedPrefix_cons c mark a k q rest v down found, ?_⟩
    intro q' rest' v' other
    rcases t.markedPrefix_cases mark a k q' rest' v' other with ⟨rfl, -⟩ | ⟨d, p, down', rfl, below⟩
    · exact Nat.zero_le _
    · rw [down] at down'
      cases down'
      simpa using longest p rest' v' below
  · -- nothing is marked below: what is remembered is this node or what was seen above
    have only_here : ∀ q' rest' v', t.MarkedPrefix mark (a :: k) q' rest' v' →
        q' = [] ∧ t.value = some v' ∧ mark v' = true := by
      intro q' rest' v' other
      rcases t.markedPrefix_cases mark a k q' rest' v' other with here | ⟨d, p, down', -, below⟩
      · exact here
      · rw [down] at down'
        cases down'
        exact absurd below (nothing p rest' v')
    cases here : t.value.filter mark with
    | none =>
      right
      refine ⟨by simpa [here] using eq, fun q' rest' v' other => ?_⟩
      obtain ⟨-, value, marked⟩ := only_here q' rest' v' other
      simp [value, Option.filter, marked] at here
    | some v =>
      obtain ⟨value, marked⟩ := Option.filter_eq_some_iff.mp here
      left
      refine ⟨[], a :: k, v, by simpa [here] using eq, ⟨rfl, by simp, value, marked⟩, ?_⟩
      intro q' rest' v' other
      simp [(only_here q' rest' v' other).1]

/-- A walk remembers the longest marked proper prefix of its key. -/
theorem lastMarked_remembers (mark : β → Bool) (t : PrefixTree α β)
    (seen : Option (β × List α)) (k : List α) :
    t.Remembers mark k seen (t.lastMarked mark seen k) := by
  induction k generalizing t seen with
  | nil =>
    right
    refine ⟨rfl, ?_⟩
    rintro q rest v ⟨split, proper, -, -⟩
    exact proper (List.append_eq_nil_iff.mp split.symm).2
  | cons a k ih =>
    simp only [lastMarked]
    cases down : t.child a with
    | none => exact t.remembers_leaf mark a k seen down
    | some c => exact t.remembers_child c mark a k seen _ down (ih c _)

end PrefixTree

end QuickIO.Lib
