import Mathlib.Data.List.Basic

/-!
# Deciding on what has come so far

Bytes come in chunks and are kept in a buffer, and after each chunk the buffer is looked
at, until it says what the stream is. What is said can depend on where the stream was
cut: a verdict that lasts was there for the whole stream as well, one that stands alone
was not preceded by another.
-/
namespace QuickIO.Lib

variable {α V : Type}

/-- What is in the buffer after each of the chunks. -/
def buffers : List α → List (List α) → List (List α)
  | _, [] => []
  | buff, chunk :: chunks => (buff ++ chunk) :: buffers (buff ++ chunk) chunks

/-- The first verdict. -/
def sniff (look : List α → Option V) (buff : List α) (chunks : List (List α)) : Option V :=
  (buffers buff chunks).findSome? look

section Buffers

variable {buff b : List α} {chunks : List (List α)}

theorem prefix_of_mem_buffers (member : b ∈ buffers buff chunks) :
    buff <+: b ∧ b <+: buff ++ chunks.flatten := by
  induction chunks generalizing buff with
  | nil => cases member
  | cons chunk chunks ih =>
    rw [List.flatten_cons, ← List.append_assoc]
    rcases List.mem_cons.mp member with rfl | later
    · exact ⟨List.prefix_append _ _, List.prefix_append _ _⟩
    · obtain ⟨above, below⟩ := ih later
      exact ⟨(List.prefix_append _ _).trans above, below⟩

/-- The last buffer is the whole stream. -/
theorem flatten_mem_buffers (some_ : chunks ≠ []) :
    buff ++ chunks.flatten ∈ buffers buff chunks := by
  induction chunks generalizing buff with
  | nil => exact absurd rfl some_
  | cons chunk chunks ih =>
    rw [List.flatten_cons, ← List.append_assoc, buffers]
    by_cases none_ : chunks = []
    · rw [none_, List.flatten_nil, List.append_nil]
      exact List.mem_cons_self
    · exact List.mem_cons_of_mem _ (ih none_)

end Buffers

section Verdicts

variable {look : List α → Option V} {v : V} {buff : List α} {chunks : List (List α)}

/-- Once there it stays there. -/
def Lasts (look : List α → Option V) (v : V) : Prop :=
  ∀ b more, look b = some v → look (b ++ more) = some v

/-- Where it is there nothing else was there before. -/
def StandsAlone (look : List α → Option V) (v : V) : Prop :=
  ∀ b more, look (b ++ more) = some v → look b = none ∨ look b = some v

theorem StandsAlone.sniff_iff (alone : StandsAlone look v) :
    sniff look buff chunks = some v ↔ ∃ b ∈ buffers buff chunks, look b = some v := by
  induction chunks generalizing buff with
  | nil => simp [sniff, buffers]
  | cons chunk chunks ih =>
    have rest := @ih (buff ++ chunk)
    simp only [sniff] at rest
    simp only [sniff, buffers, List.findSome?_cons, List.exists_mem_cons_iff, ← rest]
    cases here : look (buff ++ chunk) with
    | none => simp
    | some w =>
      simp only [Option.some.injEq]
      constructor
      · exact Or.inl
      · rintro (same | later)
        · exact same
        · obtain ⟨b, member, there⟩ := rest.mp later
          obtain ⟨more, rfl⟩ := (prefix_of_mem_buffers member).1
          rcases alone _ more there with none_ | same
          · rw [here] at none_
            cases none_
          · rw [here] at same
            exact Option.some.inj same

theorem Lasts.sniff_iff (lasts : Lasts look v) (empty : look buff = none) :
    sniff look buff chunks = some v ↔ look (buff ++ chunks.flatten) = some v ∧
      ∀ b ∈ buffers buff chunks, look b = none ∨ look b = some v := by
  induction chunks generalizing buff with
  | nil => simp [sniff, buffers, empty]
  | cons chunk chunks ih =>
    rw [List.flatten_cons, ← List.append_assoc]
    simp only [sniff, buffers, List.findSome?_cons, List.forall_mem_cons]
    cases here : look (buff ++ chunk) with
    | none =>
      have rest := ih here
      simp only [sniff] at rest
      simp [rest]
    | some w =>
      simp only [Option.some.injEq, reduceCtorEq, false_or]
      constructor
      · rintro rfl
        refine ⟨lasts _ _ here, rfl, fun b member => ?_⟩
        obtain ⟨more, rfl⟩ := (prefix_of_mem_buffers member).1
        exact Or.inr (lasts _ more here)
      · exact fun both => both.2.1

/-- Such a verdict does not depend on the chunks. -/
theorem Lasts.sniff_alone_iff (lasts : Lasts look v) (alone : StandsAlone look v)
    (empty : look buff = none) :
    sniff look buff chunks = some v ↔ look (buff ++ chunks.flatten) = some v := by
  rw [lasts.sniff_iff empty]
  constructor
  · exact And.left
  · refine fun whole => ⟨whole, fun b member => ?_⟩
    obtain ⟨more, same⟩ := (prefix_of_mem_buffers member).2
    rw [← same] at whole
    exact alone b more whole

end Verdicts

end QuickIO.Lib
