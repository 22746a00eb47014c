import Mathlib.Algebra.Group.Nat.Defs
import Mathlib.Data.List.Basic

/-!
# Byte buffers and machine words

A buffer is the list of its bytes. Words are loaded from and stored to it in
either byte order, and a counted loop works through it in place.
-/
namespace QuickIO.Lib

/-- The number a little-endian word holds. -/
def loadLE : List UInt8 → Nat
  | [] => 0
  | b :: bs => b.toNat + 256 * loadLE bs

/-- The `width` bytes of a little-endian word; what does not fit is cut off. -/
def storeLE : Nat → Nat → List UInt8
  | 0, _ => []
  | width + 1, n => UInt8.ofNat n :: storeLE width (n / 256)

/-- The number a word in network byte order holds. -/
def loadBE (bs : List UInt8) : Nat := loadLE bs.reverse

/-- The `width` bytes of a word in network byte order. -/
def storeBE (width n : Nat) : List UInt8 := (storeLE width n).reverse

@[simp] theorem length_storeLE (width n : Nat) : (storeLE width n).length = width := by
  induction width generalizing n with
  | zero => rfl
  | succ width ih => simp [storeLE, ih]

@[simp] theorem length_storeBE (width n : Nat) : (storeBE width n).length = width := by
  simp [storeBE]

theorem loadLE_storeLE (width n : Nat) : loadLE (storeLE width n) = n % 256 ^ width := by
  induction width generalizing n with
  | zero => simp [storeLE, loadLE, Nat.mod_one]
  | succ width ih =>
    have split : n % 256 ^ (width + 1) = n % 256 + 256 * (n / 256 % 256 ^ width) := by
      rw [Nat.pow_succ', Nat.mod_mul]
    rw [split, storeLE, loadLE, ih, UInt8.toNat_ofNat']

theorem loadBE_storeBE (width n : Nat) : loadBE (storeBE width n) = n % 256 ^ width := by
  simp [loadBE, storeBE, loadLE_storeLE]

theorem getD_storeLE_high {n k i : Nat} (width : Nat) (small : n < 256 ^ k) (high : k ≤ i) :
    (storeLE width n).getD i 0 = 0 := by
  induction width generalizing n k i with
  | zero => rfl
  | succ width ih =>
    cases i with
    | zero =>
      rw [Nat.le_zero.mp high, Nat.pow_zero, Nat.lt_one_iff] at small
      subst small
      rfl
    | succ i =>
      cases k with
      | zero =>
        rw [Nat.pow_zero, Nat.lt_one_iff] at small
        subst small
        exact ih (k := 0) (by decide) (Nat.zero_le i)
      | succ k =>
        refine ih (k := k) ?_ (Nat.le_of_succ_le_succ high)
        rw [Nat.pow_succ] at small
        exact Nat.div_lt_of_lt_mul (Nat.mul_comm _ _ ▸ small)

/-- A number of few bytes is stored behind zeros. -/
theorem getD_storeBE_high {width n k i : Nat} (small : n < 256 ^ k) (high : i + k < width) :
    (storeBE width n).getD i 0 = 0 := by
  have inside : i < (storeLE width n).length := by
    rw [length_storeLE]
    omega
  have mirrored : (storeBE width n).getD i 0 = (storeLE width n).getD (width - 1 - i) 0 := by
    rw [storeBE, List.getD_eq_getElem?_getD, List.getElem?_reverse inside, length_storeLE,
      List.getD_eq_getElem?_getD]
  rw [mirrored]
  exact getD_storeLE_high width small (by omega)

theorem storeLE_loadLE (bs : List UInt8) : storeLE bs.length (loadLE bs) = bs := by
  induction bs with
  | nil => rfl
  | cons b bs ih =>
    have small : b.toNat < 256 := b.toNat_lt
    have low : UInt8.ofNat (loadLE (b :: bs)) = b := by
      rw [← UInt8.toNat_inj, UInt8.toNat_ofNat', loadLE]
      omega
    have high : loadLE (b :: bs) / 256 = loadLE bs := by
      rw [loadLE]
      omega
    simp only [List.length_cons, storeLE, low, high, ih]

theorem storeBE_loadBE (bs : List UInt8) : storeBE bs.length (loadBE bs) = bs := by
  have stored := storeLE_loadLE bs.reverse
  rw [List.length_reverse] at stored
  simp [storeBE, loadBE, stored]

theorem loadBE_lt (bs : List UInt8) : loadBE bs < 256 ^ bs.length := by
  have bounded := loadBE_storeBE bs.length (loadBE bs)
  rw [storeBE_loadBE] at bounded
  rw [bounded]
  exact Nat.mod_lt _ (Nat.pow_pos (by decide))

/-- An exclusive or of two words is one of their bytes. The second word may be
the longer one: what the store cuts off are its upper bytes. -/
theorem storeLE_xor (bs cs : List UInt8) (covered : bs.length ≤ cs.length) :
    storeLE bs.length (loadLE bs ^^^ loadLE cs) = List.zipWith (· ^^^ ·) bs cs := by
  induction bs generalizing cs with
  | nil => rfl
  | cons b bs ih =>
    cases cs with
    | nil => simp at covered
    | cons c cs =>
      have smallB : b.toNat < 2 ^ 8 := b.toNat_lt
      have smallC : c.toNat < 2 ^ 8 := c.toNat_lt
      have low : UInt8.ofNat (loadLE (b :: bs) ^^^ loadLE (c :: cs)) = b ^^^ c := by
        rw [← UInt8.toNat_inj, UInt8.toNat_ofNat', Nat.xor_mod_two_pow, UInt8.toNat_xor]
        congr 1
        · simp only [loadLE]; omega
        · simp only [loadLE]; omega
      have high : (loadLE (b :: bs) ^^^ loadLE (c :: cs)) / 256 = loadLE bs ^^^ loadLE cs := by
        rw [show 256 = 2 ^ 8 from rfl, Nat.xor_div_two_pow]
        congr 1
        · simp only [loadLE]; omega
        · simp only [loadLE]; omega
      have rest := ih cs (by simpa using covered)
      simp only [List.length_cons, storeLE, low, high, rest, List.zipWith_cons_cons]

/-- The `width` bytes at a position. -/
def readAt (buf : List UInt8) (pos width : Nat) : List UInt8 := (buf.drop pos).take width

/-- Overwrite the bytes at a position. -/
def writeAt (buf : List UInt8) (pos : Nat) (bs : List UInt8) : List UInt8 :=
  buf.take pos ++ bs ++ buf.drop (pos + bs.length)

theorem length_readAt (buf : List UInt8) (pos width : Nat) (inside : pos + width ≤ buf.length) :
    (readAt buf pos width).length = width := by
  simp only [readAt, List.length_take, List.length_drop]
  omega

theorem readAt_append (before bs after : List UInt8) (pos width : Nat)
    (here : before.length = pos) (wide : bs.length = width) :
    readAt (before ++ (bs ++ after)) pos width = bs := by
  subst here wide
  simp [readAt]

theorem writeAt_append (before old after bs : List UInt8) (pos : Nat)
    (here : before.length = pos) (wide : old.length = bs.length) :
    writeAt (before ++ (old ++ after)) pos bs = before ++ (bs ++ after) := by
  subst here
  have rest : (before ++ (old ++ after)).drop (before.length + bs.length) = after := by
    rw [← List.append_assoc, ← wide, ← List.length_append]
    exact List.drop_left
  simp [writeAt, rest]

/-- `for (; i < max; i += step) body(i)`: where the counter ends and what the
body leaves. The fuel bounds the number of rounds. -/
def forUpto {σ : Type} (body : Nat → σ → σ) (step max : Nat) : Nat → Nat → σ → Nat × σ
  | 0, i, s => (i, s)
  | fuel + 1, i, s =>
    if i < max then forUpto body step max fuel (i + step) (body i s) else (i, s)

/-- The rule for a loop whose bound is a number of whole steps away: the
counter ends at the bound, and what one round preserves holds there. -/
theorem forUpto_rule {σ : Type} (body : Nat → σ → σ) (step max : Nat) (positive : 0 < step)
    (I : Nat → σ → Prop) (round : ∀ i s, i + step ≤ max → I i s → I (i + step) (body i s))
    (rounds fuel i : Nat) (s : σ) (whole : i + rounds * step = max) (enough : rounds ≤ fuel)
    (start : I i s) :
    (forUpto body step max fuel i s).1 = max ∧ I max (forUpto body step max fuel i s).2 := by
  induction rounds generalizing fuel i s with
  -- the counter is at the bound, whatever fuel is left
  | zero =>
    have done : i = max := by simpa using whole
    subst done
    cases fuel with
    | zero => exact ⟨rfl, start⟩
    | succ fuel => simpa [forUpto] using start
  | succ rounds ih =>
    cases fuel with
    | zero => omega
    | succ fuel =>
      -- One more whole round fits.
      have ahead : i + step ≤ max := by
        rw [← whole, Nat.succ_mul]
        omega
      have under : i < max := by omega
      simp only [forUpto, under, if_true]
      apply ih fuel (i + step) (body i s)
      · rw [← whole, Nat.succ_mul]
        omega
      · omega
      · exact round i s ahead start

end QuickIO.Lib
