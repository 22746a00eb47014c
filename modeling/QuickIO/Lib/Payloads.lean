import QuickIO.Lib.Framing
import QuickIO.Lib.WebSocket

/-!
# Headers and payloads

In many formats an item is a header, which says how long the payload behind it is. A
framer for the headers makes one for the items. Who collects the items of a stream has
at any time read the first ones, however the stream arrives.
-/
namespace QuickIO.Lib

variable {α κ ι ι' β : Type}

/-! ### Formats -/

/-- The items of a framer under other names. -/
def Framer.map (F : Framer α ι β) (f : ι → ι') : Framer α ι' β where
  next bs :=
    match F.next bs with
    | .more => .more
    | .bad why => .bad why
    | .item n x => .item n (f x)
  size := by
    intro bs n y next
    cases found : F.next bs with
    | more => simp [found] at next
    | bad why => simp [found] at next
    | item m x =>
      simp only [found, Next.item.injEq] at next
      obtain ⟨rfl, -⟩ := next
      exact F.size found
  item_append := by
    intro bs n y next cs
    cases found : F.next bs with
    | more => simp [found] at next
    | bad why => simp [found] at next
    | item m x =>
      simp only [found] at next
      simp only [F.item_append found cs, next]
  bad_append := by
    intro bs why next cs
    cases found : F.next bs with
    | more => simp [found] at next
    | bad why' =>
      simp only [found] at next
      simp only [F.bad_append found cs, next]
    | item m x => simp [found] at next

theorem Framer.map_item {F : Framer α ι β} (f : ι → ι') {bs : List α} {n : Nat} {x : ι}
    (found : F.next bs = .item n x) : (F.map f).next bs = .item n (f x) := by
  simp only [Framer.map, found]

/-- A header of `H` says how many symbols of payload are behind it. -/
def Framer.withPayload (H : Framer α (κ × Nat) β) : Framer α (κ × List α) β where
  next bs :=
    match H.next bs with
    | .more => .more
    | .bad why => .bad why
    | .item n (tag, len) =>
      if bs.length < n + len then .more else .item (n + len) (tag, (bs.drop n).take len)
  size := by
    intro bs n y next
    cases found : H.next bs with
    | more => simp [found] at next
    | bad why => simp [found] at next
    | item m x =>
      obtain ⟨tag, len⟩ := x
      have header := H.size found
      simp only [found] at next
      split at next
      next => cases next
      next whole =>
        cases next
        omega
  item_append := by
    intro bs n y next cs
    cases found : H.next bs with
    | more => simp [found] at next
    | bad why => simp [found] at next
    | item m x =>
      obtain ⟨tag, len⟩ := x
      have header := H.size found
      simp only [found] at next
      simp only [H.item_append found cs]
      split at next
      next => cases next
      next whole =>
        have here : len ≤ (bs.drop m).length := by
          rw [List.length_drop]
          omega
        rw [if_neg (by rw [List.length_append]; omega), List.drop_append_of_le_length header.2,
          List.take_append_of_le_length here]
        exact next
  bad_append := by
    intro bs why next cs
    cases found : H.next bs with
    | more => simp [found] at next
    | bad why' =>
      simp only [found] at next
      simp only [H.bad_append found cs, next]
    | item m x =>
      obtain ⟨tag, len⟩ := x
      simp only [found] at next
      split at next
      next => cases next
      next => cases next

/-- A header and its payload are one item. -/
theorem Framer.withPayload_item {H : Framer α (κ × Nat) β} {header payload : List α} {tag : κ}
    (found : H.next header = .item header.length (tag, payload.length)) :
    H.withPayload.next (header ++ payload) = .item (header ++ payload).length (tag, payload) := by
  have whole : ¬(header ++ payload).length < header.length + payload.length := by
    rw [List.length_append]
    exact lt_irrefl _
  have behind : ((header ++ payload).drop header.length).take payload.length = payload := by
    rw [List.drop_left, List.take_length]
  simp only [Framer.withPayload, H.item_append found payload]
  rw [if_neg whole, behind, List.length_append]

/-- The header is a number of `width` bytes in network byte order. -/
def lengthHeader (width : Nat) (positive : 0 < width) : Framer UInt8 (Unit × Nat) β where
  next bs := if bs.length < width then .more else .item width ((), loadBE (bs.take width))
  size := by
    intro bs n x next
    split at next
    next => cases next
    next long =>
      cases next
      exact ⟨positive, Nat.le_of_not_lt long⟩
  item_append := by
    intro bs n x next cs
    split at next
    next => cases next
    next long =>
      have long := Nat.le_of_not_lt long
      rw [if_neg (by rw [List.length_append]; omega), List.take_append_of_le_length long]
      exact next
  bad_append := by
    intro bs why next cs
    split at next
    next => cases next
    next => cases next

theorem lengthHeader_store {width n : Nat} (positive : 0 < width) (fits : n < 256 ^ width) :
    (lengthHeader (β := β) width positive).next (storeBE width n) =
      .item (storeBE width n).length ((), n) := by
  have whole : (storeBE width n).take width = storeBE width n :=
    List.take_of_length_le (length_storeBE width n).le
  simp only [lengthHeader, length_storeBE, whole, loadBE_storeBE, Nat.mod_eq_of_lt fits, lt_irrefl,
    if_false]

/-- A payload behind its length is one item. -/
theorem lengthHeader_payload {width : Nat} {payload : List UInt8} (positive : 0 < width)
    (fits : payload.length < 256 ^ width) :
    (lengthHeader (β := β) width positive).withPayload.next
        (storeBE width payload.length ++ payload) =
      .item (storeBE width payload.length ++ payload).length ((), payload) :=
  Framer.withPayload_item (lengthHeader_store positive fits)

namespace WebSocket

/-- The header of a frame that is not masked: its first byte, and the length in one of the
three forms. A masked one is refused. -/
def unmaskedNext : List UInt8 → Next (UInt8 × Nat) Unit
  | first :: second :: rest =>
    if second &&& 0x80 ≠ 0 then .bad ()
    else if second = 126 then
      if rest.length < 2 then .more else .item 4 (first, loadBE (rest.take 2))
    else if second = 127 then
      if rest.length < 8 then .more else .item 10 (first, loadBE (rest.take 8))
    else .item 2 (first, second.toNat)
  | _ => .more

/-- More bytes change nothing about a header. -/
theorem unmaskedNext_append {bs : List UInt8} (known : unmaskedNext bs ≠ .more)
    (cs : List UInt8) : unmaskedNext (bs ++ cs) = unmaskedNext bs := by
  cases bs with
  | nil => exact absurd rfl known
  | cons first bs =>
    cases bs with
    | nil => exact absurd rfl known
    | cons second rest =>
      have longer : ∀ n, ¬rest.length < n → ¬(rest ++ cs).length < n ∧
          (rest ++ cs).take n = rest.take n := by
        intro n long
        refine ⟨by rw [List.length_append]; omega, ?_⟩
        exact List.take_append_of_le_length (Nat.le_of_not_lt long)
      simp only [unmaskedNext, List.cons_append] at known ⊢
      by_cases masked : second &&& 0x80 = 0
      · rw [if_neg (not_not.mpr masked)] at known ⊢
        rw [if_neg (not_not.mpr masked)]
        by_cases medium : second = 126
        · rw [if_pos medium] at known ⊢
          rw [if_pos medium]
          by_cases short : rest.length < 2
          · exact absurd (if_pos short) known
          · rw [if_neg short, if_neg (longer 2 short).1, (longer 2 short).2]
        · rw [if_neg medium] at known ⊢
          rw [if_neg medium]
          by_cases long : second = 127
          · rw [if_pos long] at known ⊢
            rw [if_pos long]
            by_cases short : rest.length < 8
            · exact absurd (if_pos short) known
            · rw [if_neg short, if_neg (longer 8 short).1, (longer 8 short).2]
          · rw [if_neg long, if_neg long]
      · rw [if_pos masked, if_pos masked]

/-- The frames of a server, as a client reads them. -/
def unmasked : Framer UInt8 (UInt8 × Nat) Unit where
  next := unmaskedNext
  size := by
    intro bs n x next
    cases bs with
    | nil => cases next
    | cons first bs =>
      cases bs with
      | nil => cases next
      | cons second rest =>
        simp only [unmaskedNext] at next
        split at next
        next => cases next
        next =>
          split at next
          next =>
            split at next
            next => cases next
            next =>
              cases next
              simp only [List.length_cons]
              omega
          next =>
            split at next
            next =>
              split at next
              next => cases next
              next =>
                cases next
                simp only [List.length_cons]
                omega
            next =>
              cases next
              simp only [List.length_cons]
              omega
  item_append := by
    intro bs n x next cs
    rw [unmaskedNext_append (by simp [next]), next]
  bad_append := by
    intro bs why next cs
    rw [unmaskedNext_append (by simp [next]), next]

theorem short_code (n : Nat) (short : n ≤ 125) :
    UInt8.ofNat n &&& 0x80 = 0 ∧ UInt8.ofNat n ≠ 126 ∧ UInt8.ofNat n ≠ 127 ∧
      (UInt8.ofNat n).toNat = n := by
  revert n
  decide

/-- A frame without a mask. -/
def plainFrame (first : UInt8) (form : LenForm) (payload : List UInt8) : List UInt8 :=
  first :: form.code payload.length :: (storeBE form.extra payload.length ++ payload)

/-- Its header is read back. -/
theorem unmaskedNext_header (first : UInt8) {form : LenForm} {n : Nat} (holds : form.Holds n) :
    unmasked.next (first :: form.code n :: storeBE form.extra n) =
      .item (form.extra + 2) (first, n) := by
  have next : unmasked.next (first :: form.code n :: storeBE form.extra n) =
      unmaskedNext (first :: form.code n :: storeBE form.extra n) := rfl
  rw [next]
  cases form with
  | short =>
    obtain ⟨plain, notMedium, notLong, value⟩ := short_code n holds
    simp [unmaskedNext, LenForm.code, LenForm.extra, plain, notMedium, notLong, value]
  | medium =>
    have value : loadBE ((storeBE 2 n).take 2) = n := by
      rw [List.take_of_length_le (length_storeBE 2 n).le, loadBE_storeBE]
      exact Nat.mod_eq_of_lt holds
    simp only [unmaskedNext, LenForm.code, LenForm.extra, length_storeBE, value]
    rfl
  | long =>
    have value : loadBE ((storeBE 8 n).take 8) = n := by
      rw [List.take_of_length_le (length_storeBE 8 n).le, loadBE_storeBE]
      exact Nat.mod_eq_of_lt holds
    simp only [unmaskedNext, LenForm.code, LenForm.extra, length_storeBE, value]
    rfl

/-- A frame without a mask is one item. -/
theorem unmasked_plainFrame (first : UInt8) {form : LenForm} {payload : List UInt8}
    (holds : form.Holds payload.length) :
    unmasked.withPayload.next (plainFrame first form payload) =
      .item (plainFrame first form payload).length (first, payload) := by
  have split : plainFrame first form payload =
      (first :: form.code payload.length :: storeBE form.extra payload.length) ++ payload := rfl
  rw [split]
  apply Framer.withPayload_item
  rw [unmaskedNext_header first holds, List.length_cons, List.length_cons, length_storeBE]

end WebSocket

/-! ### Collecting -/

section Collecting

variable {F : Framer α ι β}

/-- A reader that keeps all items. -/
def collector : Consumer (List ι) ι β where
  eat xs x := (xs ++ [x], true)
  refuse xs _ := xs

/-- It has kept the items the bytes begin with. -/
theorem drain_finds (before : List ι) (bs : List α) :
    ∃ xs, (drain F collector before bs).state = before ++ xs ∧
      F.Finds bs xs (drain F collector before bs).rest := by
  induction before, bs using drain.induct F collector with
  | case1 before bs next =>
    rw [drain_more next]
    exact ⟨[], (List.append_nil before).symm, .nil bs⟩
  | case2 before bs why next =>
    rw [drain_bad next]
    exact ⟨[], (List.append_nil before).symm, .nil bs⟩
  | case3 before bs n x next sized goes ih =>
    rw [drain_item next, if_pos goes]
    obtain ⟨xs, state, finds⟩ := ih
    refine ⟨x :: xs, ?_, .cons next finds⟩
    rw [state]
    exact List.append_assoc before [x] xs
  | case4 before bs n x next sized stops => exact absurd rfl stops

/-- It stops at what can never become an item, and waits where there is not enough. -/
theorem drain_waits (before : List ι) (bs : List α) :
    ((drain F collector before bs).going = true ∧
        F.next (drain F collector before bs).rest = .more) ∨
      ∃ why, F.next (drain F collector before bs).rest = .bad why := by
  induction before, bs using drain.induct F collector with
  | case1 before bs next =>
    rw [drain_more next]
    exact .inl ⟨rfl, next⟩
  | case2 before bs why next =>
    rw [drain_bad next]
    exact .inr ⟨why, next⟩
  | case3 before bs n x next sized goes ih =>
    rw [drain_item next, if_pos goes]
    exact ih
  | case4 before bs n x next sized stops => exact absurd rfl stops

/-- What has been kept of a stream that came in chunks. -/
def collected (F : Framer α ι β) (chunks : List (List α)) : Fed (List ι) α :=
  chunks.foldl (fun fed chunk => fed.feed F collector chunk) ⟨[], [], true⟩

/-- Of a run of items that is still arriving the first ones have been kept, and the others
are a run behind what is at hand. -/
theorem collected_part (empty : F.next [] = .more) {chunks : List (List α)} {later : List α}
    {xs : List ι} (carries : F.Carries (chunks.flatten ++ later) xs) :
    ∃ zs, xs = (collected F chunks).state ++ zs ∧
      F.Carries ((collected F chunks).rest ++ later) zs ∧
      (collected F chunks).going = true ∧ F.next (collected F chunks).rest = .more := by
  have start : (⟨[], [], true⟩ : Fed (List ι) α) = Fed.feed ⟨[], [], true⟩ F collector [] := by
    rw [Fed.feed, if_pos rfl, List.append_nil, drain_more empty]
  obtain ⟨state, going, rest⟩ := Fed.feed_chunks (F := F) (C := collector) ⟨[], [], true⟩ [] chunks
  rw [← start] at state going rest
  change (collected F chunks).state = _ at state
  change (collected F chunks).going = _ at going
  change (collected F chunks).going = true → (collected F chunks).rest = _ at rest
  have whole : Fed.feed ⟨[], [], true⟩ F collector ([] ++ chunks.flatten) =
      drain F collector [] chunks.flatten := by
    rw [Fed.feed, if_pos rfl, List.nil_append, List.nil_append]
  rw [whole] at state going rest
  obtain ⟨ys, kept, finds⟩ := drain_finds (F := F) [] chunks.flatten
  rw [List.nil_append] at kept
  obtain ⟨zs, split, run⟩ := (finds.append later).carries carries
  rcases drain_waits (F := F) [] chunks.flatten with ⟨goes, waits⟩ | ⟨why, bad⟩
  · rw [rest (going.trans goes)]
    exact ⟨zs, by rw [state, kept, split], run, going.trans goes, waits⟩
  · exact absurd bad (run.noBad empty why)

/-- Of a run of items that is all there everything has been kept. -/
theorem collected_whole (empty : F.next [] = .more) {chunks : List (List α)} {xs : List ι}
    (carries : F.Carries chunks.flatten xs) : collected F chunks = ⟨xs, [], true⟩ := by
  rw [← List.append_nil chunks.flatten] at carries
  obtain ⟨zs, split, run, going, waits⟩ := collected_part empty carries
  rw [List.append_nil] at run
  cases fed : collected F chunks with
  | mk state rest goes =>
    rw [fed] at split run going waits
    simp only at split run going waits
    cases run with
    | nil => rw [split, List.append_nil, going]
    | cons next _ =>
      rw [waits] at next
      cases next

end Collecting

end QuickIO.Lib
