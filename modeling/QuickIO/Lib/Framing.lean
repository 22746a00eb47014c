import Mathlib.Data.List.Basic

/-!
# Framing a stream

A framer says what the bytes at hand begin with: a whole item, something that
can never become one, or not enough yet. It has to say the same when more bytes
follow. Then a consumer sees the same items however the stream is cut.
-/
namespace QuickIO.Lib

variable {α ι β S : Type}

/-- What some bytes begin with. An item says how many bytes it takes. -/
inductive Next (ι β : Type)
  | more
  | bad (why : β)
  | item (size : Nat) (x : ι)

structure Framer (α ι β : Type) where
  next : List α → Next ι β
  size : ∀ {bs n x}, next bs = .item n x → 0 < n ∧ n ≤ bs.length
  item_append : ∀ {bs n x}, next bs = .item n x → ∀ cs, next (bs ++ cs) = .item n x
  bad_append : ∀ {bs why}, next bs = .bad why → ∀ cs, next (bs ++ cs) = .bad why

theorem Framer.next_nil (F : Framer α ι Empty) : F.next [] = .more := by
  cases next : F.next [] with
  | more => rfl
  | bad why => cases why
  | item n x =>
    have inside := F.size next
    rw [List.length_nil] at inside
    omega

/-- Before an item is all there, there is not enough of it. -/
theorem Framer.next_short (F : Framer α ι β) {bs cs : List α} {x : ι}
    (whole : F.next (bs ++ cs) = .item (bs ++ cs).length x) (short : cs ≠ []) :
    F.next bs = .more := by
  have more : 0 < cs.length := List.length_pos_iff.mpr short
  match next : F.next bs with
  | .more => rfl
  | .bad why =>
    have still := F.bad_append next cs
    rw [whole] at still
    cases still
  | .item n y =>
    have still := F.item_append next cs
    have inside := (F.size next).2
    rw [whole] at still
    injection still with size
    rw [List.length_append] at size
    omega

/-- The bytes are a run of items, with nothing behind the last one. -/
inductive Framer.Carries (F : Framer α ι β) : List α → List ι → Prop
  | nil : F.Carries [] []
  | cons {bs : List α} {n : Nat} {x : ι} {xs : List ι} (next : F.next bs = .item n x)
      (rest : F.Carries (bs.drop n) xs) : F.Carries bs (x :: xs)

/-- Whole items one behind the other are found one after the other. -/
theorem Framer.carries_flatten (F : Framer α ι β) (pieces : List (List α × ι))
    (each : ∀ p ∈ pieces, F.next p.1 = .item p.1.length p.2) :
    F.Carries (pieces.map Prod.fst).flatten (pieces.map Prod.snd) := by
  induction pieces with
  | nil => exact .nil
  | cons p pieces ih =>
    have first := F.item_append (each p List.mem_cons_self) (pieces.map Prod.fst).flatten
    have later := ih fun q member => each q (List.mem_cons_of_mem p member)
    rw [List.map_cons, List.map_cons, List.flatten_cons]
    refine .cons first ?_
    rw [List.drop_left]
    exact later

/-- What a run of items begins with is not refused. -/
theorem Framer.Carries.noBad {F : Framer α ι β} {bs cs : List α} {xs : List ι}
    (carries : F.Carries (bs ++ cs) xs) (empty : F.next [] = .more) (why : β) :
    F.next bs ≠ .bad why := by
  intro bad
  have still := F.bad_append bad cs
  generalize bs ++ cs = stream at carries still
  cases carries with
  | nil =>
    rw [empty] at still
    cases still
  | cons next _ =>
    rw [next] at still
    cases still

/-- The bytes begin with some items, and `rest` is behind the last one. -/
inductive Framer.Finds (F : Framer α ι β) : List α → List ι → List α → Prop
  | nil (bs : List α) : F.Finds bs [] bs
  | cons {bs : List α} {n : Nat} {x : ι} {xs : List ι} {rest : List α}
      (next : F.next bs = .item n x) (later : F.Finds (bs.drop n) xs rest) :
      F.Finds bs (x :: xs) rest

/-- What is found is found as well when more bytes follow. -/
theorem Framer.Finds.append {F : Framer α ι β} {bs rest : List α} {xs : List ι}
    (finds : F.Finds bs xs rest) (cs : List α) : F.Finds (bs ++ cs) xs (rest ++ cs) := by
  induction finds with
  | nil bs => exact .nil (bs ++ cs)
  | cons next later ih =>
    refine .cons (F.item_append next cs) ?_
    rw [List.drop_append_of_le_length (F.size next).2]
    exact ih

theorem Framer.Finds.trans {F : Framer α ι β} {bs mid rest : List α} {xs ys : List ι}
    (first : F.Finds bs xs mid) (second : F.Finds mid ys rest) :
    F.Finds bs (xs ++ ys) rest := by
  induction first with
  | nil bs => exact second
  | cons next later ih => exact .cons next (ih second)

/-- Of a run of items the first ones are found, and the others are still a run. -/
theorem Framer.Finds.carries {F : Framer α ι β} {bs rest : List α} {xs zs : List ι}
    (finds : F.Finds bs xs rest) (carries : F.Carries bs zs) :
    ∃ ys, zs = xs ++ ys ∧ F.Carries rest ys := by
  induction finds generalizing zs with
  | nil bs => exact ⟨zs, rfl, carries⟩
  | cons next later ih =>
    cases carries with
    | nil =>
      have inside := F.size next
      rw [List.length_nil] at inside
      omega
    | cons next' rest' =>
      rw [next] at next'
      cases next'
      obtain ⟨ys, split, run⟩ := ih rest'
      exact ⟨ys, by rw [split, List.cons_append], run⟩

/-- Read from behind its first byte, whatever follows, a piece of the stream does not yield
its item before its own end. -/
def Framer.EndsLate (F : Framer α ι β) (piece : List α) (x : ι) : Prop :=
  ∀ (after : List α) (d n : Nat), 0 < d → F.next ((piece ++ after).drop d) = .item n x →
    piece.length < d + n

/-- A reader that has missed the first bytes of a run does not catch up: it never finds all
of the items. -/
theorem Framer.Finds.misses {F : Framer α ι β} {pieces : List (List α × ι)} {d : Nat}
    {rest : List α} {found : List ι} (late : ∀ p ∈ pieces, F.EndsLate p.1 p.2) (missed : 0 < d)
    (inside : d ≤ (pieces.map Prod.fst).flatten.length)
    (finds : F.Finds ((pieces.map Prod.fst).flatten.drop d) found rest) :
    ¬(pieces.map Prod.snd).Sublist found := by
  -- The reader stays behind the beginning of the next item it still has to find.
  generalize stream : (pieces.map Prod.fst).flatten.drop d = bs at finds
  induction finds generalizing pieces d with
  | nil bs =>
    intro all
    have none : pieces = [] := by simpa using all
    subst none
    simp at inside
    omega
  | @cons bs n x found rest next later ih =>
    intro all
    obtain ⟨positive, fits⟩ := F.size next
    rw [← stream, List.length_drop] at fits
    generalize items : pieces.map Prod.snd = xs at all
    cases all with
    | cons _ all =>
      refine ih late (Nat.add_pos_left missed n) (by omega) ?_ (by rwa [items])
      rw [← stream, List.drop_drop]
    | cons_cons _ all =>
      obtain ⟨p, pieces, rfl⟩ : ∃ p ps, pieces = p :: ps :=
        List.exists_cons_of_ne_nil fun none => by simp [none] at items
      obtain ⟨rfl, rfl⟩ := List.cons.inj items
      rw [List.map_cons, List.flatten_cons] at stream
      rw [List.map_cons, List.flatten_cons, List.length_append] at fits
      have behind : p.1.length < d + n := by
        refine late p List.mem_cons_self (pieces.map Prod.fst).flatten d n missed ?_
        rw [stream]
        exact next
      refine ih (fun q member => late q (List.mem_cons_of_mem p member))
        (Nat.sub_pos_of_lt behind) (by omega) ?_ all
      rw [← stream, List.drop_drop, List.drop_append, List.drop_of_length_le (Nat.le_of_lt behind),
        List.nil_append]

/-- What the items do to a state; the flag says that the consumer goes on. -/
structure Consumer (S ι β : Type) where
  eat : S → ι → S × Bool
  refuse : S → β → S

/-- A consumer with the bytes it has not used, and whether it goes on. -/
structure Fed (S α : Type) where
  state : S
  rest : List α
  going : Bool

variable (F : Framer α ι β) (C : Consumer S ι β)

/-- Consume items for as long as there are any. -/
def drain (s : S) (bs : List α) : Fed S α :=
  match h : F.next bs with
  | .more => ⟨s, bs, true⟩
  | .bad why => ⟨C.refuse s why, bs, false⟩
  | .item n x =>
    have := F.size h
    if (C.eat s x).2 then drain (C.eat s x).1 (bs.drop n) else ⟨(C.eat s x).1, bs.drop n, false⟩
termination_by bs.length
decreasing_by
  rw [List.length_drop]
  omega

variable {F C}

theorem drain_more {s : S} {bs : List α} (next : F.next bs = .more) :
    drain F C s bs = ⟨s, bs, true⟩ := by
  rw [drain]
  split
  next => rfl
  next why h => rw [next] at h; cases h
  next n x h => rw [next] at h; cases h

theorem drain_bad {s : S} {bs : List α} {why : β} (next : F.next bs = .bad why) :
    drain F C s bs = ⟨C.refuse s why, bs, false⟩ := by
  rw [drain]
  split
  next h => rw [next] at h; cases h
  next h => rw [next] at h; cases h; rfl
  next n x h => rw [next] at h; cases h

theorem drain_item {s : S} {bs : List α} {n : Nat} {x : ι} (next : F.next bs = .item n x) :
    drain F C s bs = if (C.eat s x).2 then drain F C (C.eat s x).1 (bs.drop n)
      else ⟨(C.eat s x).1, bs.drop n, false⟩ := by
  rw [drain]
  split
  next h => rw [next] at h; cases h
  next why h => rw [next] at h; cases h
  next h => rw [next] at h; cases h; rfl

/-- What every item and every refusal keeps. -/
theorem drain_keeps (P : S → Prop) (eats : ∀ s x, P s → P (C.eat s x).1)
    (refuses : ∀ s why, P s → P (C.refuse s why)) (s : S) (bs : List α) (holds : P s) :
    P (drain F C s bs).state := by
  induction s, bs using drain.induct F C with
  | case1 s bs next =>
    rw [drain_more next]
    exact holds
  | case2 s bs why next =>
    rw [drain_bad next]
    exact refuses s why holds
  | case3 s bs n x next sized goes ih =>
    rw [drain_item next, if_pos goes]
    exact ih (eats s x holds)
  | case4 s bs n x next sized stops =>
    rw [drain_item next, if_neg stops]
    exact eats s x holds

/-- Bytes that come later are consumed after those that were there. -/
theorem drain_append (s : S) (bs cs : List α) :
    drain F C s (bs ++ cs) =
      let fed := drain F C s bs
      if fed.going then drain F C fed.state (fed.rest ++ cs)
      else ⟨fed.state, fed.rest ++ cs, false⟩ := by
  induction s, bs using drain.induct F C with
  | case1 s bs next =>
    rw [drain_more next]
    rfl
  | case2 s bs why next =>
    rw [drain_bad next, drain_bad (F.bad_append next cs)]
    rfl
  | case3 s bs n x next sized goes ih =>
    have later : (bs ++ cs).drop n = bs.drop n ++ cs := List.drop_append_of_le_length sized.2
    rw [drain_item next, drain_item (F.item_append next cs), later, if_pos goes, if_pos goes, ih]
  | case4 s bs n x next sized stops =>
    have later : (bs ++ cs).drop n = bs.drop n ++ cs := List.drop_append_of_le_length sized.2
    rw [drain_item next, drain_item (F.item_append next cs), later, if_neg stops, if_neg stops]
    rfl

/-- A chunk arrives. A consumer that has stopped reads no more. -/
def Fed.feed (fed : Fed S α) (F : Framer α ι β) (C : Consumer S ι β) (chunk : List α) :
    Fed S α :=
  if fed.going then drain F C fed.state (fed.rest ++ chunk) else fed

/-- What can be told of a consumer: its state, whether it goes on, and the bytes
it still has to use while it does. -/
def Fed.Same (fed fed' : Fed S α) : Prop :=
  fed.state = fed'.state ∧ fed.going = fed'.going ∧ (fed.going = true → fed.rest = fed'.rest)

namespace Fed

theorem Same.trans {f g h : Fed S α} (first : f.Same g) (second : g.Same h) : f.Same h :=
  ⟨first.1.trans second.1, first.2.1.trans second.2.1,
    fun goes => (first.2.2 goes).trans (second.2.2 (first.2.1 ▸ goes))⟩

theorem Same.symm {f g : Fed S α} (same : f.Same g) : g.Same f :=
  ⟨same.1.symm, same.2.1.symm, fun goes => (same.2.2 (same.2.1.symm ▸ goes)).symm⟩

theorem Same.feed {f g : Fed S α} (same : f.Same g) (chunk : List α) :
    (f.feed F C chunk).Same (g.feed F C chunk) := by
  obtain ⟨state, going, rest⟩ := same
  simp only [Fed.feed, ← going]
  split
  next goes =>
    rw [state, rest goes]
    exact ⟨rfl, rfl, fun _ => rfl⟩
  next => exact ⟨state, going, rest⟩

theorem Same.feeds {f g : Fed S α} (same : f.Same g) (chunks : List (List α)) :
    (chunks.foldl (fun fed chunk => fed.feed F C chunk) f).Same
      (chunks.foldl (fun fed chunk => fed.feed F C chunk) g) := by
  induction chunks generalizing f g with
  | nil => exact same
  | cons chunk chunks ih => exact ih (same.feed chunk)

/-- Two chunks are as good as one. -/
theorem feed_append (fed : Fed S α) (bs cs : List α) :
    ((fed.feed F C bs).feed F C cs).Same (fed.feed F C (bs ++ cs)) := by
  cases going : fed.going with
  | false => simp [Fed.feed, Fed.Same, going]
  | true =>
    have later := drain_append (F := F) (C := C) fed.state (fed.rest ++ bs) cs
    simp only [Fed.feed, going, if_true, ← List.append_assoc, later]
    split
    next => exact ⟨rfl, rfl, fun _ => rfl⟩
    next stops => exact ⟨rfl, by simpa using stops, fun goes => absurd goes stops⟩

/-- However a stream is cut into chunks, it is consumed as in one piece. -/
theorem feed_chunks (fed : Fed S α) (first : List α) (chunks : List (List α)) :
    (chunks.foldl (fun fed chunk => fed.feed F C chunk) (fed.feed F C first)).Same
      (fed.feed F C (first ++ chunks.flatten)) := by
  induction chunks generalizing first with
  | nil =>
    rw [List.flatten_nil, List.append_nil]
    exact ⟨rfl, rfl, fun _ => rfl⟩
  | cons chunk chunks ih =>
    rw [List.foldl_cons, List.flatten_cons, ← List.append_assoc]
    exact ((fed.feed_append first chunk).feeds chunks).trans (ih (first ++ chunk))

end Fed

end QuickIO.Lib
