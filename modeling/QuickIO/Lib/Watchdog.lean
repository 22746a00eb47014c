import Mathlib.Algebra.Order.Ring.Int

/-!
# Watchdogs

A watchdog runs at most a period apart. At each run it may send to the other side,
which it has to do when nothing was sent for the interval less a period, or
challenge it, when nothing was heard for some time. So between any two runs the
last send is not older than the interval, and a side that is silent long enough
for one more run has been challenged.
-/
namespace QuickIO.Lib

/-- The limits of a watchdog. A run fits between a challenge and the verdict. -/
structure Watchdog where
  period : Int
  interval : Int
  challenge : Int
  dead : Int
  inside : period ≤ interval
  later : 0 ≤ challenge
  spaced : challenge + period ≤ dead

namespace Watchdog

/-- The times a watchdog goes by. `challenged` is about the time since the last
hearing. -/
structure Clock where
  now : Int
  ranAt : Int
  sentAt : Int
  heardAt : Int
  challenged : Bool

variable (w : Watchdog)

/-- What a run does that does not give up. -/
inductive Ran (c : Clock) : Clock → Prop where
  | challenge (silent : c.heardAt < c.now - w.challenge) :
      Ran c { c with ranAt := c.now, sentAt := c.now, challenged := true }
  | send (heard : ¬ c.heardAt < c.now - w.challenge) :
      Ran c { c with ranAt := c.now, sentAt := c.now }
  | pass (heard : ¬ c.heardAt < c.now - w.challenge)
      (recent : ¬ c.sentAt < c.now - w.interval + w.period) : Ran c { c with ranAt := c.now }

/-- The invariant between any two runs. -/
structure Watches (c : Clock) : Prop where
  past : c.ranAt ≤ c.now
  soon : c.now ≤ c.ranAt + w.period
  sent : c.ranAt ≤ c.sentAt + (w.interval - w.period)
  heard : c.challenged = true ∨ c.ranAt ≤ c.heardAt + w.challenge

namespace Watches

variable {w} {c c' : Clock}

theorem start (past : c.ranAt ≤ c.now) (soon : c.now ≤ c.ranAt + w.period)
    (sent : c.sentAt = c.now) (heard : c.heardAt = c.now) : Watches w c := by
  have inside := w.inside
  have later := w.later
  exact ⟨past, soon, by omega, Or.inr (by omega)⟩

/-- Time goes by, but not past the next run. -/
theorem tick (watches : Watches w c) {now : Int} (later : c.now ≤ now)
    (soon : now ≤ c.ranAt + w.period) : Watches w { c with now } :=
  ⟨watches.past.trans later, soon, watches.sent, watches.heard⟩

theorem send (watches : Watches w c) : Watches w { c with sentAt := c.now } := by
  have inside := w.inside
  have past := watches.past
  exact ⟨past, watches.soon, by dsimp only; omega, watches.heard⟩

theorem hear (watches : Watches w c) : Watches w { c with heardAt := c.now, challenged := false } := by
  have later := w.later
  have past := watches.past
  exact ⟨past, watches.soon, watches.sent, Or.inr (by dsimp only; omega)⟩

theorem run (watches : Watches w c) (ran : Ran w c c') : Watches w c' := by
  have inside := w.inside
  have soon : c.now ≤ c.now + w.period := by
    have past := watches.past
    have soon := watches.soon
    omega
  cases ran with
  | challenge silent => exact ⟨le_refl _, soon, by dsimp only; omega, Or.inl rfl⟩
  | send heard => exact ⟨le_refl _, soon, by dsimp only; omega, Or.inr (by dsimp only; omega)⟩
  | pass heard recent =>
    exact ⟨le_refl _, soon, by dsimp only; omega, Or.inr (by dsimp only; omega)⟩

/-- The last send is never older than the interval. -/
theorem age (watches : Watches w c) : c.now - c.sentAt ≤ w.interval := by
  have soon := watches.soon
  have sent := watches.sent
  omega

/-- Whoever is silent for too long was challenged: the last run came after the
challenge was due. -/
theorem challenged (watches : Watches w c) (silent : c.heardAt < c.now - w.dead) :
    c.challenged = true := by
  have soon := watches.soon
  have spaced := w.spaced
  refine watches.heard.resolve_right fun early => ?_
  omega

end Watches

end Watchdog

end QuickIO.Lib
