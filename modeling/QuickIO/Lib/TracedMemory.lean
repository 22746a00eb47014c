import QuickIO.Lib.Memory

/-!
# Memory with a trace of its accesses

A buffer that remembers in which order its bytes were loaded and stored, for loops that
write the bytes they are still reading from.
-/
namespace QuickIO.Lib

inductive Access where
  | load (pos : Nat)
  | store (pos : Nat)
deriving DecidableEq, Repr

structure TracedMemory where
  bytes : List UInt8
  trace : List Access
deriving DecidableEq, Repr

/-- `*p` -/
def TracedMemory.load (m : TracedMemory) (pos : Nat) : UInt8 × TracedMemory :=
  (m.bytes.getD pos 0, { m with trace := m.trace ++ [.load pos] })

/-- `*p = c` -/
def TracedMemory.store (m : TracedMemory) (pos : Nat) (c : UInt8) : TracedMemory :=
  { bytes := m.bytes.set pos c, trace := m.trace ++ [.store pos] }

/-- No position is stored to that was not loaded from before. -/
def ReadFirst (trace : List Access) : Prop :=
  ∀ earlier pos later, trace = earlier ++ .store pos :: later → .load pos ∈ earlier

theorem readFirst_nil : ReadFirst [] := by
  intro earlier pos later split
  simp at split

theorem ReadFirst.load {trace : List Access} (ordered : ReadFirst trace) (pos : Nat) :
    ReadFirst (trace ++ [.load pos]) := by
  intro earlier stored later split
  rcases List.eq_nil_or_concat later with rfl | ⟨later, last, rfl⟩
  · have same := (List.append_inj' split rfl).2
    simp at same
  · rw [List.concat_eq_append, ← List.cons_append, ← List.append_assoc] at split
    exact ordered earlier stored later (List.append_inj' split rfl).1

theorem ReadFirst.store {trace : List Access} (ordered : ReadFirst trace) {pos : Nat}
    (seen : .load pos ∈ trace) : ReadFirst (trace ++ [.store pos]) := by
  intro earlier stored later split
  rcases List.eq_nil_or_concat later with rfl | ⟨later, last, rfl⟩
  · obtain ⟨same, here⟩ := List.append_inj' split rfl
    obtain rfl : pos = stored := by simpa using here
    exact same ▸ seen
  · rw [List.concat_eq_append, ← List.cons_append, ← List.append_assoc] at split
    exact ordered earlier stored later (List.append_inj' split rfl).1

/-- A loop that copies forward in place: behind `base` it has written `written`, and from
there on everything is as it was. It has loaded every byte up to `curr`, and has written
no further than that. -/
structure InPlace (orig : List UInt8) (base : Nat) (written : List UInt8) (curr : Nat)
    (m : TracedMemory) : Prop where
  bytes : m.bytes = orig.take base ++ (written ++ orig.drop (base + written.length))
  behind : base + written.length ≤ curr
  inside : curr < orig.length
  seen : ∀ pos, base ≤ pos → pos < curr → .load pos ∈ m.trace
  ordered : ReadFirst m.trace

namespace InPlace

variable {orig written : List UInt8} {base curr : Nat} {m : TracedMemory}

theorem start (inside : base < orig.length) : InPlace orig base [] base ⟨orig, []⟩ where
  bytes := by simp
  behind := by simp
  inside := inside
  seen pos low high := by omega
  ordered := readFirst_nil

theorem load (at_ : InPlace orig base written curr m) (pos : Nat) :
    InPlace orig base written curr (m.load pos).2 where
  bytes := at_.bytes
  behind := at_.behind
  inside := at_.inside
  seen p low high := List.mem_append_left _ (at_.seen p low high)
  ordered := at_.ordered.load pos

/-- What is ahead of the written bytes is read as it was. -/
theorem getD_ahead (at_ : InPlace orig base written curr m) (pos : Nat)
    (ahead : base + written.length ≤ pos) : m.bytes.getD pos 0 = orig.getD pos 0 := by
  have inside := at_.inside
  have behind := at_.behind
  have wide : (orig.take base).length = base := by
    rw [List.length_take]
    omega
  simp only [List.getD_eq_getElem?_getD]
  rw [at_.bytes, List.getElem?_append_right (by omega), wide,
    List.getElem?_append_right (by omega), List.getElem?_drop]
  congr 2
  omega

/-- One more byte was loaded and is left where it is. -/
theorem advance (at_ : InPlace orig base written curr m) (loaded : .load curr ∈ m.trace)
    (more : curr + 1 < orig.length) : InPlace orig base written (curr + 1) m where
  bytes := at_.bytes
  behind := Nat.le_succ_of_le at_.behind
  inside := more
  seen pos low high := by
    rcases Nat.lt_succ_iff_lt_or_eq.mp high with before | rfl
    · exact at_.seen pos low before
    · exact loaded
  ordered := at_.ordered

/-- The byte at the end of what was written. -/
theorem set_written (at_ : InPlace orig base written curr m) (c : UInt8) :
    m.bytes.set (base + written.length) c =
      orig.take base ++ (written ++ c :: orig.drop (base + written.length + 1)) := by
  have inside := at_.inside
  have behind := at_.behind
  have wide : (orig.take base).length = base := by
    rw [List.length_take]
    omega
  have here : base + written.length - base - written.length = 0 := by omega
  rw [at_.bytes, List.set_append_right _ _ (by omega), wide,
    List.set_append_right _ _ (by omega), here,
    List.drop_eq_getElem_cons (by omega : base + written.length < orig.length),
    List.set_cons_zero]

/-- A loaded byte was written behind the others. -/
theorem store (at_ : InPlace orig base written curr m) (loaded : .load curr ∈ m.trace)
    (more : curr + 1 < orig.length) (c : UInt8) :
    InPlace orig base (written ++ [c]) (curr + 1) (m.store (base + written.length) c) where
  bytes := by
    simp only [TracedMemory.store, at_.set_written c, List.length_append, List.length_singleton,
      List.append_assoc, List.singleton_append, Nat.add_assoc]
  behind := by
    have behind := at_.behind
    simp only [List.length_append, List.length_singleton]
    omega
  inside := more
  seen pos low high := by
    apply List.mem_append_left
    exact (at_.advance loaded more).seen pos low high
  ordered := by
    apply at_.ordered.store
    rcases Nat.lt_or_eq_of_le at_.behind with before | here
    · exact at_.seen _ (Nat.le_add_right _ _) before
    · exact here ▸ loaded

/-- Also after that, the byte itself is read as it was. -/
theorem getD_stored (at_ : InPlace orig base written curr m) {c : UInt8}
    (loaded : .load curr ∈ m.trace) (more : curr + 1 < orig.length)
    (copied : c = orig.getD curr 0) :
    (m.store (base + written.length) c).bytes.getD curr 0 = c := by
  rcases Nat.lt_or_eq_of_le at_.behind with before | here
  · have ahead : base + (written ++ [c]).length ≤ curr := by
      rw [List.length_append, List.length_singleton]
      omega
    rw [(at_.store loaded more c).getD_ahead curr ahead, copied]
  · have inside := at_.inside
    have wide : (orig.take base).length = base := by
      rw [List.length_take]
      omega
    simp only [TracedMemory.store, at_.set_written c, List.getD_eq_getElem?_getD, ← here]
    rw [List.getElem?_append_right (by omega), wide, List.getElem?_append_right (by omega)]
    simp

end InPlace

end QuickIO.Lib
