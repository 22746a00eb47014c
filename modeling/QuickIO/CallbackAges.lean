import Mathlib.Algebra.Group.Int.Defs
import Mathlib.Data.Int.Basic
import QuickIO.Callbacks

/-!
# The age at which callbacks are pruned

`client_cb_prune_get_before` computes the threshold of a periodic run in 64 bits, and its
setting has no upper bound. `prunes_exactly_iff` says when the callbacks that are freed are
those that are older than the setting.
-/
namespace QuickIO

variable {Fn Data FreeFn : Type}

/-! ### The code -/

/-- `_validate_client_cb_max_age` -/
def validateClientCbMaxAge (val : UInt64) : Bool := val != 0

/-- `QEV_SEC_TO_USEC` -/
def qevSecToUsec (sec : UInt64) : UInt64 := sec * 1000000

/-- `client_cb_prune_get_before`: the difference is unsigned, the result a `gint64`. -/
def clientCbPruneGetBefore (qevMonotonic : Int64) (cbMaxAge : UInt64) : Int64 :=
  (qevMonotonic.toUInt64 - qevSecToUsec cbMaxAge).toInt64

/-- What `periodic_run` does to the callbacks of a client. -/
def foreachCb (qevMonotonic : Int64) (cbMaxAge : UInt64) (client : Callbacks Fn Data FreeFn) :
    Callbacks Fn Data FreeFn × List (FreeFn × Data) :=
  clientCbPrune client (clientCbPruneGetBefore qevMonotonic cbMaxAge).toInt

/-! ### What it is for -/

/-- The callback was created more than `maxAge` seconds ago. -/
def ClientCb.Old (now : Int) (maxAge : Nat) (cb : ClientCb Fn Data FreeFn) : Prop :=
  maxAge * 1000000 < now - cb.created

instance (now : Int) (maxAge : Nat) (cb : ClientCb Fn Data FreeFn) :
    Decidable (cb.Old now maxAge) :=
  inferInstanceAs (Decidable (_ < _))

/-- The old callbacks are freed, and the others are left in their slots. -/
structure PrunesExactly (now : Int) (maxAge : Nat) (client : Callbacks Fn Data FreeFn)
    (pruned : Callbacks Fn Data FreeFn × List (FreeFn × Data)) : Prop where
  old : ∀ i cb, client.cbs i = some cb → cb.Old now maxAge → pruned.1.cbs i = none
  young : ∀ i cb, client.cbs i = some cb → ¬cb.Old now maxAge → pruned.1.cbs i = some cb
  empty : ∀ i, client.cbs i = none → pruned.1.cbs i = none
  freed : pruned.2 = (List.finRange 4).flatMap fun i =>
    if (client.cbs i).any fun cb => cb.Old now maxAge then cbFree client i else []

/-- Creation times are of type `gint64`. -/
def Stamped (client : Callbacks Fn Data FreeFn) : Prop :=
  ∀ i cb, client.cbs i = some cb → ∃ created : Int64, cb.created = created.toInt

/-- The age in microseconds as far as 64 bits keep it: cut to them, and 2⁶⁴ less if that
still reaches back before the first time there is. -/
def keptAge (now : Int) (maxAge : Nat) : Int :=
  let cut : Int := maxAge * 1000000 % 2 ^ 64
  if cut ≤ now + 2 ^ 63 then cut else cut - 2 ^ 64

/-- The threshold does not wrap, or no stored callback is older than what is kept of the age. -/
def AgeFits (now : Int) (maxAge : Nat) (client : Callbacks Fn Data FreeFn) : Prop :=
  maxAge * 1000000 ≤ now + 2 ^ 63 ∨
    ∀ i cb, client.cbs i = some cb → now - cb.created ≤ keptAge now maxAge

/-! ### The threshold -/

theorem qevSecToUsec_toInt (sec : UInt64) :
    (qevSecToUsec sec).toInt64.toInt = ((sec.toNat : Int) * 1000000 % 2 ^ 64).bmod (2 ^ 64) := by
  have product : ((qevSecToUsec sec).toNat : Int) = (sec.toNat : Int) * 1000000 % 2 ^ 64 := by
    rw [qevSecToUsec, UInt64.toNat_mul]
    exact Int.natCast_emod _ _
  rw [← product]
  exact BitVec.toInt_eq_toNat_bmod _

/-- The threshold is the time less the kept age. -/
theorem clientCbPruneGetBefore_toInt (now : Int64) (maxAge : UInt64) :
    (clientCbPruneGetBefore now maxAge).toInt = now.toInt - keptAge now.toInt maxAge.toNat := by
  have low := now.le_toInt
  have high := now.toInt_lt
  have difference : clientCbPruneGetBefore now maxAge = now - (qevSecToUsec maxAge).toInt64 := rfl
  rw [difference, Int64.toInt_sub, qevSecToUsec_toInt, keptAge]
  have cut_low := Int.emod_nonneg ((maxAge.toNat : Int) * 1000000) (b := 2 ^ 64) (by decide)
  have cut_high := Int.emod_lt_of_pos ((maxAge.toNat : Int) * 1000000) (b := 2 ^ 64) (by decide)
  generalize (maxAge.toNat : Int) * 1000000 % 2 ^ 64 = cut at *
  simp only [Int.bmod]
  split
  · split
    · omega
    · omega
  · split
    · omega
    · omega

/-- Without a wrap all of the age is kept. -/
theorem keptAge_of_le {now : Int} {maxAge : Nat} (high : now < 2 ^ 63)
    (fits : maxAge * 1000000 ≤ now + 2 ^ 63) : keptAge now maxAge = maxAge * 1000000 := by
  have whole : ((maxAge : Int) * 1000000) % 2 ^ 64 = maxAge * 1000000 :=
    Int.emod_eq_of_lt (by omega) (by omega)
  rw [keptAge, whole, if_pos fits]

section Prune

variable (client : Callbacks Fn Data FreeFn) (now : Int64) (maxAge : UInt64)

/-- A run of the pruning, with the test it makes on each callback. -/
theorem foreachCb_eq :
    foreachCb now maxAge client =
      ({ client with
          cbs := fun i => (client.cbs i).filter fun cb =>
            !decide (keptAge now.toInt maxAge.toNat < now.toInt - cb.created) },
        (List.finRange 4).flatMap fun i =>
          if (client.cbs i).any fun cb =>
            decide (keptAge now.toInt maxAge.toNat < now.toInt - cb.created)
          then cbFree client i else []) := by
  have test : ∀ cb : ClientCb Fn Data FreeFn,
      decide (cb.created < (clientCbPruneGetBefore now maxAge).toInt) =
        decide (keptAge now.toInt maxAge.toNat < now.toInt - cb.created) := by
    intro cb
    rw [clientCbPruneGetBefore_toInt]
    apply decide_eq_decide.mpr
    omega
  simp only [foreachCb, clientCbPrune, test]

/-- For every setting the validator accepts, every time and every stored callbacks, a
periodic run frees exactly the callbacks that are older than the setting if and only if the
threshold does not wrap or no callback is older than what 64 bits keep of the age. -/
theorem prunes_exactly_iff (stamped : Stamped client) :
    PrunesExactly now.toInt maxAge.toNat client (foreachCb now maxAge client) ↔
      AgeFits now.toInt maxAge.toNat client := by
  have high := now.toInt_lt
  rw [foreachCb_eq]
  constructor
  · intro exact_
    by_cases fits : (maxAge.toNat : Int) * 1000000 ≤ now.toInt + 2 ^ 63
    · exact .inl fits
    · right
      intro i cb stored
      -- nothing is as old as the setting, so this callback has to be left
      obtain ⟨created, stamp⟩ := stamped i cb stored
      have first := created.le_toInt
      have young : ¬cb.Old now.toInt maxAge.toNat := by
        rw [ClientCb.Old, stamp]
        omega
      have left : (client.cbs i).filter _ = some cb := exact_.young i cb stored young
      rw [stored, Option.filter_eq_some_iff] at left
      simpa using left.2
  · intro fits
    -- the test is the one that is asked for
    have test : ∀ i cb, client.cbs i = some cb →
        (keptAge now.toInt maxAge.toNat < now.toInt - cb.created ↔
          cb.Old now.toInt maxAge.toNat) := by
      intro i cb stored
      obtain ⟨created, stamp⟩ := stamped i cb stored
      have first := created.le_toInt
      rcases fits with whole | none_old
      · rw [keptAge_of_le high whole]
        rfl
      · have kept := none_old i cb stored
        by_cases whole : (maxAge.toNat : Int) * 1000000 ≤ now.toInt + 2 ^ 63
        · rw [keptAge_of_le high whole]
          rfl
        · rw [ClientCb.Old, stamp] at *
          omega
    refine ⟨?_, ?_, ?_, ?_⟩
    · intro i cb stored old
      simp [stored, Option.filter, (test i cb stored).mpr old]
    · intro i cb stored young
      have kept := mt (test i cb stored).mp young
      simp only [stored, Option.filter_some, kept, decide_false, Bool.not_false, if_true]
    · intro i none
      simp [none]
    · have same : ∀ i, ((client.cbs i).any fun cb =>
          decide (keptAge now.toInt maxAge.toNat < now.toInt - cb.created)) =
          (client.cbs i).any fun cb => cb.Old now.toInt maxAge.toNat := by
        intro i
        cases stored : client.cbs i with
        | none => simp only [Option.any_none]
        | some cb => exact decide_eq_decide.mpr (test i cb stored)
      simp only [same]

end Prune

/-- A client with one callback. -/
def oneCb (created : Int) : Callbacks Unit Unit Unit where
  cbs i := if i = 0 then some ⟨1, (), some (), some (), created⟩ else none
  cbsId := 1

theorem oneCb_stamped (created : Int64) : Stamped (oneCb created.toInt) := by
  intro i cb stored
  simp only [oneCb] at stored
  split at stored
  next =>
    cases stored
    exact ⟨created, rfl⟩
  next => cases stored

/-- A callback that is two minutes old, with a setting of one minute. -/
theorem prunes_exactly_old :
    PrunesExactly (120000000 : Int64).toInt (60 : UInt64).toNat (oneCb (0 : Int64).toInt)
      (foreachCb 120000000 60 (oneCb (0 : Int64).toInt)) :=
  (prunes_exactly_iff (oneCb (0 : Int64).toInt) 120000000 60 (oneCb_stamped 0)).mpr
    (.inl (by decide))

/-- A setting of 584942 years leaves less than half a second of them in 64 bits: a callback
is freed after a second. -/
theorem prunes_exactly_wraps :
    ¬∀ maxAge : UInt64, validateClientCbMaxAge maxAge = true → ∀ (now : Int64)
      (client : Callbacks Unit Unit Unit), Stamped client →
        PrunesExactly now.toInt maxAge.toNat client (foreachCb now maxAge client) := by
  intro claim
  have exact_ := claim 18446744073710 (by decide) 1000000 (oneCb (0 : Int64).toInt)
    (oneCb_stamped 0)
  have left := exact_.young 0 ⟨1, (), some (), some (), 0⟩ rfl (by decide)
  have freed : ((foreachCb 1000000 18446744073710 (oneCb (0 : Int64).toInt)).1.cbs 0).isNone := by
    decide
  rw [left] at freed
  cases freed

end QuickIO
