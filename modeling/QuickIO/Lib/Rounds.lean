import Mathlib.Algebra.Order.Ring.Int

/-!
# Rounds

Rounds over a set of items, begun at most a period apart. A round takes some
time, during which the items go on changing, and goes by a limit that was taken
when it began. An item carries the time it was last touched while it is waited
for. If a visit leaves no item that was touched before the limit, then at any
time, inside a round or between two, no item is older than the age of the limit,
a period, and the time that a round lasts.
-/
namespace QuickIO.Lib

/-- How far apart rounds begin at most, and how long one lasts at most. -/
structure Rounds where
  period : Int
  lasts : Int
  fits : lasts ≤ period
  begins : 0 ≤ lasts

namespace Rounds

/-- The last round: when it began, and the items it has not visited yet. -/
structure Round (Item : Type) where
  now : Int
  beganAt : Int
  left : List Item

variable {Item : Type} (w : Rounds)

/-- The last round is not over its time, and the next one is not late. -/
structure InTime (r : Round Item) : Prop where
  past : r.beganAt ≤ r.now
  soon : r.now ≤ r.beganAt + w.period
  closed : r.left ≠ [] → r.now ≤ r.beganAt + w.lasts

/-- `touched x t` says that `x` is waited for, and was touched at `t` last. No item
is too old. One that the round still has to visit was seen by the
round before, a period earlier. -/
structure Since (age : Int) (r : Round Item) (touched : Item → Int → Prop) : Prop where
  visited : ∀ x t, touched x t → x ∉ r.left → r.beganAt - age ≤ t
  waiting : ∀ x t, touched x t → r.beganAt - age - w.period ≤ t

variable {w} {r : Round Item} {age : Int} {touched touched' : Item → Int → Prop}

namespace InTime

theorem tick (inTime : InTime w r) {now : Int} (later : r.now ≤ now)
    (soon : now ≤ r.beganAt + w.period) (closed : r.left ≠ [] → now ≤ r.beganAt + w.lasts) :
    InTime w { r with now } :=
  ⟨inTime.past.trans later, soon, closed⟩

/-- A round begins. -/
theorem start (now : Int) (order : List Item) : InTime w ⟨now, now, order⟩ := by
  have fits := w.fits
  have begins := w.begins
  exact ⟨le_refl _, by dsimp only; omega, fun _ => by dsimp only; omega⟩

theorem visit (inTime : InTime w r) {left : List Item} (fewer : left ≠ [] → r.left ≠ []) :
    InTime w { r with left } :=
  ⟨inTime.past, inTime.soon, fun more => inTime.closed (fewer more)⟩

end InTime

namespace Since

/-- Items are touched now, or not waited for any more. -/
theorem keep (since : Since w age r touched) (inTime : InTime w r) (some_ : 0 ≤ age)
    (keeps : ∀ x t, touched' x t → touched x t ∨ t = r.now) :
    Since w age r touched' := by
  have past := inTime.past
  have fits := w.fits
  have begins := w.begins
  constructor
  · intro x t here gone
    rcases keeps x t here with same | now
    · exact since.visited x t same gone
    · omega
  · intro x t here
    rcases keeps x t here with same | now
    · exact since.waiting x t same
    · omega

/-- A round begins with all items that are waited for. -/
theorem start (since : Since w age r touched) (inTime : InTime w r) (ended : r.left = [])
    {order : List Item} (all : ∀ x t, touched x t → x ∈ order) :
    Since w age ⟨r.now, r.now, order⟩ touched := by
  have soon := inTime.soon
  constructor
  · intro x t here gone
    exact absurd (all x t here) gone
  · intro x t here
    have seen := since.visited x t here (by simp [ended])
    dsimp only
    omega

/-- An item has been visited: it is young enough afterwards. -/
theorem visit (since : Since w age r touched) (x : Item) {left : List Item}
    (others : ∀ y ∈ r.left, y ≠ x → y ∈ left)
    (young : ∀ t, touched x t → r.beganAt - age ≤ t) : Since w age { r with left } touched := by
  constructor
  · intro y t here gone
    by_cases same : y = x
    · subst same
      exact young t here
    · exact since.visited y t here fun member => gone (others y member same)
  · exact since.waiting

/-- At any time. -/
theorem age_le (since : Since w age r touched) (inTime : InTime w r) {x : Item} {t : Int}
    (here : touched x t) : r.now - t ≤ age + w.period + w.lasts := by
  have soon := inTime.soon
  have begins := w.begins
  by_cases waits : x ∈ r.left
  · have within := inTime.closed (List.ne_nil_of_mem waits)
    have seen := since.waiting x t here
    omega
  · have seen := since.visited x t here waits
    omega

end Since

end Rounds

end QuickIO.Lib
