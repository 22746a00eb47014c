import QuickIO.Lib.TracedMemory
import QuickIO.Paths

/-!
# Path cleaning in place

`evs_clean_path` as it works on memory, byte by byte, with the order of its loads and
stores; and what it is for: delete what is not allowed in a path, collapse runs of slashes,
drop a slash at the end. `clean_exact_iff` compares the two.
-/
namespace QuickIO

open Lib

/-! ### The code -/

/-- `do { curr++; } while (…)`, entered at a slash. -/
def skipSlashes : Nat → TracedMemory → Nat → TracedMemory × Nat
  | 0, mem, curr => (mem, curr)
  | fuel + 1, mem, curr =>
    let (c, mem) := mem.load (curr + 1)
    if c = slash || (!allowed c && c != 0) then skipSlashes fuel mem (curr + 1)
    else (mem, curr + 1)

/-- `while (*curr != '\0')`: where `writing` ends. -/
def cleanWhile : Nat → TracedMemory → Nat → Nat → TracedMemory × Nat
  | 0, mem, _, writing => (mem, writing)
  | fuel + 1, mem, curr, writing =>
    let (c, mem) := mem.load curr
    if c = 0 then (mem, writing)
    else
      let (mem, writing) :=
        if allowed c then (mem.store writing c, writing + 1) else (mem, writing)
      -- `*curr` once more: the store may just have been to this byte.
      let (c, mem) := mem.load curr
      if c = slash then
        let (mem, curr) := skipSlashes fuel mem curr
        cleanWhile fuel mem curr writing
      else cleanWhile fuel mem (curr + 1) writing

/-- `evs_clean_path` on the string at `evPath`; its result is a `guint`. -/
def evsCleanPathAt (fuel : Nat) (mem : TracedMemory) (evPath : Nat) : TracedMemory × UInt32 :=
  let (mem, writing) := cleanWhile fuel mem evPath evPath
  let (mem, writing) :=
    if writing = evPath then (mem, writing)
    else
      let (c, mem) := mem.load (writing - 1)
      if c = slash then (mem, writing - 1) else (mem, writing)
  (mem.store writing 0, UInt32.ofNat (writing - evPath))

/-! ### What it is for -/

/-- `A-Z`, `a-z`, `0-9`, `_`, `-` and `/` -/
def PathChar (c : UInt8) : Prop :=
  (0x41 ≤ c ∧ c ≤ 0x5a) ∨ (0x61 ≤ c ∧ c ≤ 0x7a) ∨ (0x30 ≤ c ∧ c ≤ 0x39) ∨
    c = 0x5f ∨ c = 0x2d ∨ c = slash

instance (c : UInt8) : Decidable (PathChar c) := inferInstanceAs (Decidable (_ ∨ _))

/-- Each run of slashes becomes one. -/
def collapseSlashes : Bytes → Bytes
  | [] => []
  | c :: s => if c = slash ∧ s.head? = some slash then collapseSlashes s else c :: collapseSlashes s

/-- The three passes: delete, collapse, drop a final slash. -/
def cleaned (s : Bytes) : Bytes :=
  dropTrailingSlash (collapseSlashes (s.filter fun c => PathChar c))

/-- What the specification of a path asks for. -/
structure WellSpelled (p : Bytes) : Prop where
  chars : ∀ c ∈ p, PathChar c
  single : ¬[slash, slash] <:+: p
  open_ : p.getLast? ≠ some slash

private theorem allowed_table : ∀ n : Fin 256,
    allowed (UInt8.ofNat n) = decide (PathChar (UInt8.ofNat n)) := by decide +kernel

theorem allowed_iff (c : UInt8) : allowed c = decide (PathChar c) := by
  have entry := allowed_table ⟨c.toNat, c.toNat_lt⟩
  simpa using entry

theorem collapseSlashes_slash (s : Bytes) :
    collapseSlashes (slash :: s) = slash :: dropSlash (collapseSlashes s) := by
  induction s with
  | nil => simp [collapseSlashes, dropSlash]
  | cons c s ih =>
    by_cases again : c = slash
    · subst again
      rw [collapseSlashes, if_pos ⟨rfl, rfl⟩, ih, dropSlash_slash]
    · have kept : collapseSlashes (c :: s) = c :: collapseSlashes s := by
        rw [collapseSlashes, if_neg (fun both => again both.1)]
      rw [collapseSlashes, if_neg (by simp [again]), kept, dropSlash, if_neg again]

theorem collapseSlashes_other {c : UInt8} (other : c ≠ slash) (s : Bytes) :
    collapseSlashes (c :: s) = c :: collapseSlashes s := by
  rw [collapseSlashes, if_neg (fun both => other both.1)]

/-- The loop filters and collapses at once; while it skips, a slash at the start is
dropped too. -/
theorem cleanLoop_eq (s : Bytes) :
    cleanLoop false s = collapseSlashes (s.filter fun c => PathChar c) ∧
      cleanLoop true s = dropSlash (collapseSlashes (s.filter fun c => PathChar c)) := by
  induction s with
  | nil => exact ⟨rfl, rfl⟩
  | cons c s ih =>
    obtain ⟨plain, skipping⟩ := ih
    by_cases again : c = slash
    · subst again
      have char : PathChar slash := by decide
      simp only [cleanLoop, allowed_slash, beq_self_eq_true, List.filter_cons, char, decide_true,
        if_true, collapseSlashes_slash, dropSlash_slash, Bool.true_or, Bool.and_true,
        Bool.false_eq_true, if_false, skipping, and_self]
    · have other : (c == slash) = false := by simpa using again
      by_cases char : PathChar c
      · have good : allowed c = true := by rw [allowed_iff, decide_eq_true char]
        simp only [cleanLoop, good, other, List.filter_cons, char, decide_true, if_true,
          collapseSlashes_other again, dropSlash, again, if_false, plain, Bool.not_true,
          Bool.or_self, Bool.and_false, Bool.false_eq_true, and_self]
      · have bad : allowed c = false := by rw [allowed_iff, decide_eq_false char]
        simp only [cleanLoop, bad, other, List.filter_cons, char, decide_false, if_false,
          Bool.not_false, Bool.or_true, Bool.and_true, if_true, plain, skipping,
          Bool.false_eq_true, and_self]

/-- The cleaning function is the three passes. -/
theorem evsCleanPath_eq (s : Bytes) : evsCleanPath s = cleaned s := by
  rw [evsCleanPath, (cleanLoop_eq s).1, cleaned]

/-! ### What the loops leave in memory -/

section Loops

variable {orig w r after : Bytes} {base curr : Nat} {mem : TracedMemory}

theorem getD_of_drop {n : Nat} {c : UInt8} {rest : Bytes} (here : orig.drop n = c :: rest) :
    orig.getD n 0 = c ∧ orig.drop (n + 1) = rest := by
  constructor
  · rw [List.getD_eq_getElem?_getD, ← List.head?_drop, here]
    rfl
  · rw [← List.tail_drop, here]
    rfl

theorem lt_of_drop {n : Nat} {c : UInt8} {rest : Bytes} (here : orig.drop n = c :: rest) :
    n < orig.length := by
  have long := congrArg List.length here
  rw [List.length_drop, List.length_cons] at long
  omega

/-- What the inner loop passes. -/
def skipped (c : UInt8) : Bool := c == slash || !allowed c

theorem skipSlashes_spec (fuel : Nat) (at_ : InPlace orig base w (curr + 1) mem)
    (rest : orig.drop (curr + 1) = r ++ 0 :: after) (noNul : 0 ∉ r) (enough : r.length < fuel) :
    ∃ mem' curr', skipSlashes fuel mem curr = (mem', curr') ∧ InPlace orig base w curr' mem' ∧
      orig.drop curr' = r.dropWhile skipped ++ 0 :: after := by
  induction r generalizing fuel curr mem with
  | nil =>
    obtain ⟨fuel, rfl⟩ := Nat.exists_eq_add_of_lt enough
    have value : (mem.load (curr + 1)).1 = 0 :=
      (at_.getD_ahead (curr + 1) at_.behind).trans (getD_of_drop rest).1
    refine ⟨(mem.load (curr + 1)).2, curr + 1, ?_, at_.load (curr + 1), rest⟩
    have stops : ¬((0 : UInt8) = slash ∨ (!allowed 0 && (0 : UInt8) != 0) = true) := by decide
    simp only [List.length_nil, Nat.zero_add, skipSlashes, value, if_neg stops, Bool.or_eq_true,
      decide_eq_true_eq]
  | cons c r ih =>
    obtain ⟨fuel, rfl⟩ := Nat.exists_eq_succ_of_ne_zero (Nat.ne_zero_of_lt enough)
    obtain ⟨here, ahead⟩ := getD_of_drop rest
    have value : (mem.load (curr + 1)).1 = c :=
      (at_.getD_ahead (curr + 1) at_.behind).trans here
    have nonzero : (c != 0) = true := by
      rw [bne_iff_ne]
      rintro rfl
      exact noNul List.mem_cons_self
    have loaded : .load (curr + 1) ∈ (mem.load (curr + 1)).2.trace :=
      List.mem_append_right _ List.mem_cons_self
    by_cases skip : skipped c = true
    · have more : curr + 1 + 1 < orig.length := by
        cases r with
        | nil => exact lt_of_drop ahead
        | cons d r => exact lt_of_drop ahead
      obtain ⟨mem', curr', run, at', left⟩ := ih fuel ((at_.load (curr + 1)).advance loaded more)
        ahead (fun member => noNul (List.mem_cons_of_mem c member))
        (by rw [List.length_cons] at enough; omega)
      refine ⟨mem', curr', ?_, at', by rw [List.dropWhile_cons, if_pos skip]; exact left⟩
      simp only [skipped, Bool.or_eq_true, beq_iff_eq] at skip
      simp only [skipSlashes, value, nonzero, Bool.and_true, Bool.or_eq_true, decide_eq_true_eq,
        if_pos skip, run]
    · refine ⟨(mem.load (curr + 1)).2, curr + 1, ?_, at_.load (curr + 1),
        by rw [List.dropWhile_cons, if_neg skip]; exact rest⟩
      simp only [skipped, Bool.or_eq_true, beq_iff_eq] at skip
      simp only [skipSlashes, value, nonzero, Bool.and_true, Bool.or_eq_true, decide_eq_true_eq,
        if_neg skip]

theorem cleanLoop_skip (r : Bytes) : cleanLoop true r = cleanLoop false (r.dropWhile skipped) := by
  induction r with
  | nil => rfl
  | cons c r ih =>
    by_cases skip : skipped c = true
    · rw [List.dropWhile_cons, if_pos skip, ← ih]
      rw [cleanLoop, if_pos (by simpa [skipped] using skip)]
    · rw [List.dropWhile_cons, if_neg skip]
      simp only [skipped, Bool.or_eq_true, Bool.not_eq_true', not_or, Bool.not_eq_true,
        Bool.not_eq_false] at skip
      simp only [cleanLoop, skip.1, skip.2, Bool.not_true, Bool.or_self, Bool.and_false,
        Bool.false_eq_true, if_false, if_true]

theorem dropWhile_noNul (noNul : 0 ∉ r) : 0 ∉ r.dropWhile skipped :=
  fun member => noNul ((List.dropWhile_sublist skipped).subset member)

/-- What the loop keeps of a byte. -/
def kept (c : UInt8) : Bytes := if allowed c then [c] else []

/-- The first half of a round: the byte is copied or not, and `*curr` still reads it. -/
theorem keep_spec {c : UInt8} (at_ : InPlace orig base w curr mem)
    (loaded : .load curr ∈ mem.trace) (more : curr + 1 < orig.length)
    (value : orig.getD curr 0 = c) :
    ∃ mem', (if allowed c then (mem.store (base + w.length) c, base + w.length + 1)
        else (mem, base + w.length)) = (mem', base + (w ++ kept c).length) ∧
      InPlace orig base (w ++ kept c) (curr + 1) mem' ∧ mem'.bytes.getD curr 0 = c := by
  by_cases good : allowed c = true
  · refine ⟨mem.store (base + w.length) c, ?_, ?_, at_.getD_stored loaded more value.symm⟩
    · rw [if_pos good, kept, if_pos good, List.length_append, List.length_singleton, Nat.add_assoc]
    · rw [kept, if_pos good]
      exact at_.store loaded more c
  · refine ⟨mem, ?_, ?_, (at_.getD_ahead curr at_.behind).trans value⟩
    · rw [if_neg good, kept, if_neg good, List.append_nil]
    · rw [kept, if_neg good, List.append_nil]
      exact at_.advance loaded more

/-- The loop writes what `cleanLoop` says behind what it wrote before, and reads on to the
end of the string. -/
theorem cleanWhile_spec (fuel : Nat) (at_ : InPlace orig base w curr mem)
    (rest : orig.drop curr = r ++ 0 :: after) (noNul : 0 ∉ r) (enough : r.length < fuel) :
    ∃ mem' last, cleanWhile fuel mem curr (base + w.length) =
        (mem', base + (w ++ cleanLoop false r).length) ∧
      InPlace orig base (w ++ cleanLoop false r) last mem' ∧ .load last ∈ mem'.trace := by
  induction fuel generalizing w r curr mem with
  | zero => omega
  | succ fuel ih =>
    have loaded : .load curr ∈ (mem.load curr).2.trace :=
      List.mem_append_right _ List.mem_cons_self
    cases r with
    | nil =>
      have value : (mem.load curr).1 = 0 :=
        (at_.getD_ahead curr at_.behind).trans (getD_of_drop rest).1
      refine ⟨(mem.load curr).2, curr, ?_, ?_, loaded⟩
      · simp only [cleanWhile, value, if_true, cleanLoop, List.append_nil]
      · simpa only [cleanLoop, List.append_nil] using at_.load curr
    | cons c r =>
      obtain ⟨here, ahead⟩ := getD_of_drop rest
      have value : (mem.load curr).1 = c := (at_.getD_ahead curr at_.behind).trans here
      have nonzero : c ≠ 0 := by
        rintro rfl
        exact noNul List.mem_cons_self
      have later : 0 ∉ r := fun member => noNul (List.mem_cons_of_mem c member)
      have more : curr + 1 < orig.length := by
        cases r with
        | nil => exact lt_of_drop ahead
        | cons d r => exact lt_of_drop ahead
      have shorter : r.length < fuel := by
        rw [List.length_cons] at enough
        omega
      obtain ⟨mem₂, copied, at₂, still⟩ := keep_spec (at_.load curr) loaded more here
      have again : (mem₂.load curr).1 = c := still
      by_cases first : c = slash
      · -- a slash: on to the next byte that is kept
        obtain ⟨mem₃, next, skips, at₃, left⟩ :=
          skipSlashes_spec fuel (at₂.load curr) ahead later shorter
        have small : (r.dropWhile skipped).length < fuel :=
          Nat.lt_of_le_of_lt (List.dropWhile_sublist skipped).length_le shorter
        obtain ⟨mem', last, run, at', end_⟩ := ih at₃ left (dropWhile_noNul later) small
        have loop : cleanLoop false (c :: r) =
            kept c ++ cleanLoop false (r.dropWhile skipped) := by
          rw [← cleanLoop_skip, first]
          simp only [cleanLoop, allowed_slash, kept, beq_self_eq_true, Bool.false_and,
            Bool.false_eq_true, if_false, if_true, List.singleton_append]
        rw [loop, ← List.append_assoc]
        refine ⟨mem', last, ?_, at', end_⟩
        simp only [cleanWhile, value, nonzero, if_false, copied, again]
        rw [if_pos first, skips]
        exact run
      · -- any other byte
        obtain ⟨mem', last, run, at', end_⟩ := ih (at₂.load curr) ahead later shorter
        have other : (c == slash) = false := by simpa using first
        have loop : cleanLoop false (c :: r) = kept c ++ cleanLoop false r := by
          simp only [cleanLoop, other, kept, Bool.false_and, Bool.false_eq_true, if_false]
          split
          · rfl
          · rfl
        rw [loop, ← List.append_assoc]
        refine ⟨mem', last, ?_, at', end_⟩
        simp only [cleanWhile, value, nonzero, if_false, copied, again]
        rw [if_neg first]
        exact run

theorem dropTrailingSlash_concat (p : Bytes) (c : UInt8) :
    dropTrailingSlash (p ++ [c]) = if c = slash then p else p ++ [c] := by
  simp [dropTrailingSlash]

/-- The end of the function: a final slash goes, and a NUL is put behind the rest. -/
theorem finish_spec {last : Nat} (at_ : InPlace orig base w last mem)
    (loaded : .load last ∈ mem.trace) :
    ∃ mem', (if base + w.length = base then (mem, base + w.length)
        else if (mem.load (base + w.length - 1)).1 = slash then
          ((mem.load (base + w.length - 1)).2, base + w.length - 1)
        else ((mem.load (base + w.length - 1)).2, base + w.length)) =
        (mem', base + (dropTrailingSlash w).length) ∧
      (mem'.store (base + (dropTrailingSlash w).length) 0).bytes = orig.take base ++
        (dropTrailingSlash w ++ 0 :: orig.drop (base + (dropTrailingSlash w).length + 1)) ∧
      ReadFirst (mem'.store (base + (dropTrailingSlash w).length) 0).trace := by
  have seen : ∀ pos, base ≤ pos → pos ≤ last → .load pos ∈ mem.trace := by
    intro pos low high
    rcases Nat.lt_or_eq_of_le high with before | rfl
    · exact at_.seen pos low before
    · exact loaded
  have behind := at_.behind
  rcases List.eq_nil_or_concat w with rfl | ⟨w, c, rfl⟩
  · -- nothing was written
    refine ⟨mem, if_pos rfl, at_.set_written 0, ?_⟩
    exact at_.ordered.store (seen base (Nat.le_refl base) behind)
  · rw [List.concat_eq_append] at at_ behind ⊢
    rw [List.length_append, List.length_singleton] at behind
    have inside := at_.inside
    have wide : (orig.take base).length = base := by
      rw [List.length_take]
      omega
    have final : base + (w ++ [c]).length - 1 = base + w.length := by
      rw [List.length_append, List.length_singleton]
      omega
    have value : (mem.load (base + w.length)).1 = c := by
      simp only [TracedMemory.load, at_.bytes, List.getD_eq_getElem?_getD]
      rw [List.getElem?_append_right (by omega), wide]
      simp
    have some_ : base + (w ++ [c]).length ≠ base := by
      rw [List.length_append, List.length_singleton]
      omega
    rw [if_neg some_, final, value, dropTrailingSlash_concat]
    have traced := (at_.load (base + w.length)).ordered
    by_cases trailing : c = slash
    · rw [if_pos trailing, if_pos trailing]
      refine ⟨(mem.load (base + w.length)).2, rfl, ?_, ?_⟩
      · simp only [TracedMemory.store, TracedMemory.load, at_.bytes]
        rw [List.set_append_right _ _ (by omega), wide]
        simp [Nat.add_assoc]
      · apply traced.store
        exact List.mem_append_left _ (seen _ (Nat.le_add_right _ _) (by omega))
    · rw [if_neg trailing, if_neg trailing]
      refine ⟨(mem.load (base + w.length)).2, rfl, ?_, ?_⟩
      · exact (at_.load (base + w.length)).set_written 0
      · apply traced.store
        apply List.mem_append_left
        apply seen _ (Nat.le_add_right _ _)
        rw [List.length_append, List.length_singleton]
        omega

end Loops

/-- The string at `evPath` becomes the cleaned one, what is behind it and before it stays,
no byte is lost before it was read, and the result is the length cut to 32 bits. -/
theorem evsCleanPathAt_spec (before s after : Bytes) (noNul : 0 ∉ s) (fuel : Nat)
    (enough : s.length < fuel) :
    ∃ mem, evsCleanPathAt fuel ⟨before ++ (s ++ 0 :: after), []⟩ before.length =
        (mem, UInt32.ofNat (evsCleanPath s).length) ∧
      mem.bytes = before ++ (evsCleanPath s ++
        0 :: (s ++ 0 :: after).drop ((evsCleanPath s).length + 1)) ∧
      ReadFirst mem.trace := by
  have inside : before.length < (before ++ (s ++ 0 :: after)).length := by
    simp only [List.length_append, List.length_cons]
    omega
  obtain ⟨mem₁, last, run, at₁, loaded⟩ :=
    cleanWhile_spec fuel (InPlace.start inside) List.drop_left noNul enough
  simp only [List.nil_append, List.length_nil, Nat.add_zero] at run at₁
  obtain ⟨mem₂, ends, bytes, ordered⟩ := finish_spec at₁ loaded
  refine ⟨mem₂.store (before.length + (evsCleanPath s).length) 0, ?_, ?_, ordered⟩
  · simp only [evsCleanPathAt, run, ends, evsCleanPath, Nat.add_sub_cancel_left]
  · rw [evsCleanPath, bytes, List.take_left, Nat.add_assoc, List.drop_length_add_append]

/-! ### The cleaned text -/

/-- After the second pass there are no two slashes in a row. -/
theorem collapseSlashes_single (s : Bytes) : ¬[slash, slash] <:+: collapseSlashes s := by
  induction s with
  | nil => simp [collapseSlashes]
  | cons c s ih =>
    by_cases again : c = slash ∧ s.head? = some slash
    · rw [collapseSlashes, if_pos again]
      exact ih
    · rw [collapseSlashes, if_neg again]
      intro inside
      rcases List.infix_cons_iff.mp inside with ⟨rest, first⟩ | later
      · -- a slash of the collapsed rest would be one of the rest
        obtain ⟨rfl, next⟩ := List.cons.inj first
        cases s with
        | nil => simp [collapseSlashes] at next
        | cons d s =>
          have other : d ≠ slash := fun same => again ⟨rfl, by rw [same]; rfl⟩
          rw [collapseSlashes_other other] at next
          exact other (List.cons.inj next).1.symm
      · exact ih later

theorem dropTrailingSlash_last {p : Bytes} (single : ¬[slash, slash] <:+: p) :
    (dropTrailingSlash p).getLast? ≠ some slash := by
  rcases List.eq_nil_or_concat p with rfl | ⟨p, c, rfl⟩
  · simp [dropTrailingSlash]
  · rw [List.concat_eq_append] at single ⊢
    rw [dropTrailingSlash_concat]
    split
    next final =>
      intro trailing
      -- the byte before the final slash would be one too
      obtain ⟨p, rfl⟩ := List.getLast?_eq_some_iff.mp trailing
      exact single ⟨p, [], by rw [final]; simp⟩
    next other => simpa using other

theorem cleaned_wellSpelled (s : Bytes) : WellSpelled (cleaned s) := by
  have single := collapseSlashes_single (s.filter fun c => PathChar c)
  refine ⟨?_, ?_, dropTrailingSlash_last single⟩
  · intro c member
    rw [← evsCleanPath_eq] at member
    simpa [allowed_iff] using evsCleanPath_allowed s c member
  · intro inside
    refine single (inside.trans ?_)
    rw [cleaned, dropTrailingSlash]
    split
    · exact (List.dropLast_prefix _).isInfix
    · exact List.infix_refl _

theorem collapseSlashes_of_single {p : Bytes} (single : ¬[slash, slash] <:+: p) :
    collapseSlashes p = p := by
  induction p with
  | nil => rfl
  | cons c p ih =>
    have rest : collapseSlashes p = p :=
      ih fun inside => single (inside.trans (List.suffix_cons c p).isInfix)
    rw [collapseSlashes, if_neg, rest]
    rintro ⟨rfl, again⟩
    obtain ⟨p, rfl⟩ := List.head?_eq_some_iff.mp again
    exact single ⟨[], p, rfl⟩

/-- What is spelled well is left as it is. -/
theorem WellSpelled.cleaned_eq {p : Bytes} (well : WellSpelled p) : cleaned p = p := by
  have all : (p.filter fun c => PathChar c) = p :=
    List.filter_eq_self.mpr fun c member => decide_eq_true (well.chars c member)
  rw [cleaned, all, collapseSlashes_of_single well.single, dropTrailingSlash, if_neg well.open_]

theorem evsCleanPath_idempotent (s : Bytes) : evsCleanPath (evsCleanPath s) = evsCleanPath s := by
  rw [evsCleanPath_eq s, evsCleanPath_eq, (cleaned_wellSpelled s).cleaned_eq]

/-! ### The result -/

/-- A call on a string with memory around it did what it is for: the three passes in
place, their length as the result, a well spelled path on which another call changes
nothing, and every byte was loaded before it was stored to. -/
structure CleansExactly (before s after : Bytes) (run : TracedMemory × UInt32) : Prop where
  bytes : run.1.bytes =
    before ++ (cleaned s ++ 0 :: (s ++ 0 :: after).drop ((cleaned s).length + 1))
  length : run.2.toNat = (cleaned s).length
  spelled : WellSpelled (cleaned s)
  again : ∀ fuel, (cleaned s).length < fuel →
    (evsCleanPathAt fuel ⟨run.1.bytes, []⟩ before.length).1.bytes = run.1.bytes
  readFirst : ReadFirst run.1.trace

theorem length_of_cleansExactly {before s after : Bytes} {mem : TracedMemory}
    (exact_ : CleansExactly before s after (mem, UInt32.ofNat (evsCleanPath s).length)) :
    (cleaned s).length < 2 ^ 32 := by
  have length := exact_.length
  rw [evsCleanPath_eq, UInt32.toNat_ofNat'] at length
  exact length ▸ Nat.mod_lt _ (by decide)

/-- For every string, `evs_clean_path` cleans exactly if and only if the length of the
cleaned string is a `guint`. -/
theorem clean_exact_iff (before s after : Bytes) (terminated : 0 ∉ s) (fuel : Nat)
    (enough : s.length < fuel) :
    CleansExactly before s after
        (evsCleanPathAt fuel ⟨before ++ (s ++ 0 :: after), []⟩ before.length) ↔
      (cleaned s).length < 2 ^ 32 := by
  obtain ⟨mem, run, bytes, ordered⟩ := evsCleanPathAt_spec before s after terminated fuel enough
  rw [run]
  refine ⟨length_of_cleansExactly, fun short => ?_⟩
  have well := cleaned_wellSpelled s
  rw [evsCleanPath_eq] at bytes ⊢
  refine ⟨bytes, ?_, well, ?_, ordered⟩
  · rw [UInt32.toNat_ofNat', Nat.mod_eq_of_lt short]
  · intro fuel enough
    have noNul : 0 ∉ cleaned s := fun member => absurd (well.chars 0 member) (by decide)
    obtain ⟨mem', run', bytes', -⟩ := evsCleanPathAt_spec before (cleaned s)
      ((s ++ 0 :: after).drop ((cleaned s).length + 1)) noNul fuel enough
    have behind : (cleaned s ++ 0 :: (s ++ 0 :: after).drop ((cleaned s).length + 1)).drop
        ((cleaned s).length + 1) = (s ++ 0 :: after).drop ((cleaned s).length + 1) := by
      rw [List.drop_length_add_append]
      rfl
    rw [bytes, run', bytes', evsCleanPath_eq, well.cleaned_eq, behind]

/-- A path with slashes and other bytes in all places, inside a longer buffer. -/
theorem clean_exact_example :
    CleansExactly (str "x") (str "////qio///**//ping&//test/") (str "y")
      (evsCleanPathAt 40 ⟨str "x" ++ (str "////qio///**//ping&//test/" ++ 0 :: str "y"), []⟩ 1) :=
  (clean_exact_iff (str "x") (str "////qio///**//ping&//test/") (str "y") (by decide) 40
    (by decide)).mpr (by decide)

theorem wellSpelled_replicate (n : Nat) : WellSpelled (List.replicate n 0x61) where
  chars c member := by
    rw [(List.mem_replicate.mp member).2]
    decide
  single inside := by
    have member := inside.subset List.mem_cons_self
    exact absurd (List.mem_replicate.mp member).2 (by decide)
  open_ trailing := by
    have member := List.mem_of_getLast? trailing
    exact absurd (List.mem_replicate.mp member).2 (by decide)

/-- The length of 2³² letters is returned as 0. -/
theorem clean_exact_wraps :
    ¬∀ before s after : Bytes, 0 ∉ s → ∀ fuel, s.length < fuel →
      CleansExactly before s after
        (evsCleanPathAt fuel ⟨before ++ (s ++ 0 :: after), []⟩ before.length) := by
  intro claim
  have well := wellSpelled_replicate (2 ^ 32)
  have noNul : 0 ∉ List.replicate (2 ^ 32) (0x61 : UInt8) :=
    fun member => absurd (well.chars 0 member) (by decide)
  have enough : (List.replicate (2 ^ 32) (0x61 : UInt8)).length < 2 ^ 32 + 1 := by
    rw [List.length_replicate]
    exact Nat.lt_succ_self _
  have exact_ := claim [] _ [] noNul (2 ^ 32 + 1) enough
  obtain ⟨mem, run, -⟩ := evsCleanPathAt_spec [] _ [] noNul (2 ^ 32 + 1) enough
  rw [run] at exact_
  have short := length_of_cleansExactly exact_
  rw [well.cleaned_eq, List.length_replicate] at short
  exact absurd short (Nat.lt_irrefl _)

end QuickIO
