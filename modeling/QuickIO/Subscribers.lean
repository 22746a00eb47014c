import QuickIO.Lib.TransitionSystem
import QuickIO.References

/-!
# Who is on which subscriber list

Five functions change a client's entry for a subscription, and completions of
earlier requests arrive late. `Inv` ties entries, subscriber lists, reference
counts and outstanding completions together; every operation keeps it, and
`subscribers_exact` reads off what each list contains.
-/
namespace QuickIO

open Lib Server

/-! ### Entries and lists -/

/-- The items of a subscriber list are exactly the entries that are no longer
pending, each once; items of different entries differ. -/
structure Listed (σ : Server) : Prop where
  tombstoned : ∀ c s csub, σ.entry c s = some csub → csub.tombstone = true → csub.pending = true
  listed : ∀ c s i, (i, c) ∈ σ.subscribers s ↔
    ∃ csub, σ.entry c s = some csub ∧ csub.idx = i ∧ csub.pending = false
  once : ∀ s, (σ.subscribers s).Nodup
  fresh : ∀ c s csub, σ.entry c s = some csub → csub.idx < σ.nextIdx
  distinct : ∀ c s csub c' s' csub', σ.entry c s = some csub → σ.entry c' s' = some csub' →
    csub.idx = csub'.idx → c = c' ∧ s = s'

section Listed

variable {σ τ : Server} {c : ClientId} {s : SubId} {csub : ClientSub}

/-- An entry keeps its item and stays pending, or stays listed. -/
theorem Listed.flag (lists : Listed σ) (csub' : ClientSub) (stored : σ.entry c s = some csub)
    (idx : csub'.idx = csub.idx) (pending : csub'.pending = csub.pending)
    (tombstone : csub'.tombstone = true → csub'.pending = true)
    (entry : ∀ c' s', τ.entry c' s' = if c' = c ∧ s' = s then some csub' else σ.entry c' s')
    (subscribers : τ.subscribers = σ.subscribers) (next : τ.nextIdx = σ.nextIdx) : Listed τ := by
  -- Every entry of `τ` is one of `σ` with the same item and the same `pending`.
  have before : ∀ c' s' csub'', τ.entry c' s' = some csub'' →
      (csub''.tombstone = true → csub''.pending = true) ∧
      ∃ old, σ.entry c' s' = some old ∧ old.idx = csub''.idx ∧ old.pending = csub''.pending := by
    intro c' s' csub'' at_
    rw [entry] at at_
    split at at_
    next here =>
      obtain ⟨rfl, rfl⟩ := here
      cases at_
      exact ⟨tombstone, csub, stored, idx.symm, pending.symm⟩
    next => exact ⟨lists.tombstoned c' s' csub'' at_, csub'', at_, rfl, rfl⟩
  refine ⟨fun c' s' csub'' at_ => (before c' s' csub'' at_).1, ?_, ?_, ?_, ?_⟩
  · intro c' s' i
    rw [subscribers, lists.listed]
    constructor
    · rintro ⟨old, at_, rfl, listed⟩
      by_cases here : c' = c ∧ s' = s
      · obtain ⟨rfl, rfl⟩ := here
        cases stored.symm.trans at_
        exact ⟨csub', by rw [entry, if_pos ⟨rfl, rfl⟩], idx, pending.trans listed⟩
      · exact ⟨old, by rw [entry, if_neg here, at_], rfl, listed⟩
    · rintro ⟨new, at_, rfl, listed⟩
      obtain ⟨-, old, at_, idx, pending⟩ := before c' s' new at_
      exact ⟨old, at_, idx, pending.trans listed⟩
  · intro s'
    rw [subscribers]
    exact lists.once s'
  · intro c' s' csub'' at_
    obtain ⟨-, old, at_, idx, -⟩ := before c' s' csub'' at_
    rw [next, ← idx]
    exact lists.fresh c' s' old at_
  · intro c₁ s₁ csub₁ c₂ s₂ csub₂ at₁ at₂ same
    obtain ⟨-, old₁, at₁, idx₁, -⟩ := before c₁ s₁ csub₁ at₁
    obtain ⟨-, old₂, at₂, idx₂, -⟩ := before c₂ s₂ csub₂ at₂
    exact lists.distinct c₁ s₁ old₁ c₂ s₂ old₂ at₁ at₂ (by rw [idx₁, idx₂, same])

/-- A new pending entry gets a new item and is on no list. -/
theorem Listed.insert (lists : Listed σ) (absent : σ.entry c s = none)
    (entry : ∀ c' s', τ.entry c' s' =
      if c' = c ∧ s' = s then some ⟨σ.nextIdx, true, false⟩ else σ.entry c' s')
    (subscribers : τ.subscribers = σ.subscribers) (next : τ.nextIdx = σ.nextIdx + 1) :
    Listed τ := by
  -- Every entry of `τ` is the new one, or was there.
  have before : ∀ c' s' csub, τ.entry c' s' = some csub →
      (c' = c ∧ s' = s ∧ csub = ⟨σ.nextIdx, true, false⟩) ∨ σ.entry c' s' = some csub := by
    intro c' s' csub at_
    rw [entry] at at_
    split at at_
    next here => exact Or.inl ⟨here.1, here.2, (Option.some.inj at_).symm⟩
    next => exact Or.inr at_
  refine ⟨?_, ?_, ?_, ?_, ?_⟩
  · intro c' s' csub at_ tombstone
    rcases before c' s' csub at_ with ⟨-, -, rfl⟩ | at_
    · cases tombstone
    · exact lists.tombstoned c' s' csub at_ tombstone
  · -- the new entry is pending, so no list changes
    intro c' s' i
    rw [subscribers, lists.listed]
    constructor
    · rintro ⟨old, at_, rfl, listed⟩
      refine ⟨old, ?_, rfl, listed⟩
      rw [entry, if_neg, at_]
      rintro ⟨rfl, rfl⟩
      rw [absent] at at_
      cases at_
    · rintro ⟨csub, at_, rfl, listed⟩
      rcases before c' s' csub at_ with ⟨-, -, rfl⟩ | at_
      · cases listed
      · exact ⟨csub, at_, rfl, listed⟩
  · intro s'
    rw [subscribers]
    exact lists.once s'
  · intro c' s' csub at_
    rw [next]
    rcases before c' s' csub at_ with ⟨-, -, rfl⟩ | at_
    · exact Nat.lt_succ_self _
    · exact Nat.lt_succ_of_lt (lists.fresh c' s' csub at_)
  · -- the new index is beyond all the others
    intro c₁ s₁ csub₁ c₂ s₂ csub₂ at₁ at₂ same
    rcases before c₁ s₁ csub₁ at₁ with ⟨rfl, rfl, rfl⟩ | at₁
    · rcases before c₂ s₂ csub₂ at₂ with ⟨rfl, rfl, -⟩ | at₂
      · exact ⟨rfl, rfl⟩
      · exact absurd (lists.fresh c₂ s₂ csub₂ at₂) (by rw [← same]; exact Nat.lt_irrefl _)
    · rcases before c₂ s₂ csub₂ at₂ with ⟨rfl, rfl, rfl⟩ | at₂
      · exact absurd (lists.fresh c₁ s₁ csub₁ at₁) (by rw [same]; exact Nat.lt_irrefl _)
      · exact lists.distinct c₁ s₁ csub₁ c₂ s₂ csub₂ at₁ at₂ same

/-- A pending entry is accepted and its item joins the list. -/
theorem Listed.accept (lists : Listed σ) (stored : σ.entry c s = some csub)
    (pending : csub.pending = true)
    (entry : ∀ c' s', τ.entry c' s' =
      if c' = c ∧ s' = s then some ⟨csub.idx, false, false⟩ else σ.entry c' s')
    (subscribers : ∀ s', τ.subscribers s' =
      if s' = s then σ.subscribers s ++ [(csub.idx, c)] else σ.subscribers s')
    (next : τ.nextIdx = σ.nextIdx) : Listed τ := by
  -- Indices do not change, and the accepted entry loses its tombstone.
  have before : ∀ c' s' csub', τ.entry c' s' = some csub' →
      (csub'.tombstone = true → csub'.pending = true) ∧
      ∃ old, σ.entry c' s' = some old ∧ old.idx = csub'.idx := by
    intro c' s' csub' at_
    rw [entry] at at_
    split at at_
    next here =>
      obtain ⟨rfl, rfl⟩ := here
      cases at_
      exact ⟨fun tombstone => (by cases tombstone), csub, stored, rfl⟩
    next => exact ⟨lists.tombstoned c' s' csub' at_, csub', at_, rfl⟩
  -- A pending entry has no item in the list, so the list stays without repeats.
  have absent : ∀ i, (i, c) ∉ σ.subscribers s := by
    intro i member
    obtain ⟨old, at_, -, listed⟩ := (lists.listed c s i).mp member
    cases stored.symm.trans at_
    rw [pending] at listed
    cases listed
  refine ⟨fun c' s' csub' at_ => (before c' s' csub' at_).1, ?_, ?_, ?_, ?_⟩
  · -- the items are those of the entries that are not pending
    intro c' s' i
    rw [subscribers]
    by_cases sub : s' = s
    · subst sub
      rw [if_pos rfl, List.mem_append, List.mem_singleton, lists.listed, entry]
      by_cases client : c' = c
      · subst client
        rw [if_pos ⟨rfl, rfl⟩]
        constructor
        · rintro (⟨old, at_, -, listed⟩ | same)
          · cases stored.symm.trans at_
            rw [pending] at listed
            cases listed
          · cases same
            exact ⟨_, rfl, rfl, rfl⟩
        · rintro ⟨new, at_, rfl, -⟩
          cases at_
          exact Or.inr rfl
      · rw [if_neg fun here => client here.1]
        constructor
        · rintro (found | same)
          · exact found
          · cases same
            exact absurd rfl client
        · exact Or.inl
    · rw [if_neg sub, lists.listed, entry, if_neg fun here => sub here.2]
  · intro s'
    rw [subscribers]
    split
    · rw [List.nodup_append]
      refine ⟨lists.once s, List.nodup_singleton _, ?_⟩
      rintro ⟨i, c'⟩ member item single
      cases List.mem_singleton.mp single
      rintro ⟨⟩
      exact absent _ member
    · exact lists.once s'
  · intro c' s' csub' at_
    obtain ⟨-, old, at_, idx⟩ := before c' s' csub' at_
    rw [next, ← idx]
    exact lists.fresh c' s' old at_
  · intro c₁ s₁ csub₁ c₂ s₂ csub₂ at₁ at₂ same
    obtain ⟨-, old₁, at₁, idx₁⟩ := before c₁ s₁ csub₁ at₁
    obtain ⟨-, old₂, at₂, idx₂⟩ := before c₂ s₂ csub₂ at₂
    exact lists.distinct c₁ s₁ old₁ c₂ s₂ old₂ at₁ at₂ (by rw [idx₁, idx₂, same])

/-- An entry goes, and its item with it. -/
theorem Listed.remove (lists : Listed σ) (stored : σ.entry c s = some csub)
    (entry : ∀ c' s', τ.entry c' s' = if c' = c ∧ s' = s then none else σ.entry c' s')
    (subscribers : ∀ s', τ.subscribers s' =
      if s' = s then (σ.subscribers s).filter fun item => item.1 != csub.idx
      else σ.subscribers s')
    (next : τ.nextIdx = σ.nextIdx) : Listed τ := by
  have before : ∀ c' s' csub', τ.entry c' s' = some csub' →
      ¬(c' = c ∧ s' = s) ∧ σ.entry c' s' = some csub' := by
    intro c' s' csub' at_
    rw [entry] at at_
    split at at_
    next => cases at_
    next other => exact ⟨other, at_⟩
  refine ⟨?_, ?_, ?_, ?_, ?_⟩
  · exact fun c' s' csub' at_ => lists.tombstoned c' s' csub' (before c' s' csub' at_).2
  · intro c' s' i
    rw [subscribers]
    constructor
    · -- an item that stays is of an entry that stays
      intro member
      have old : (i, c') ∈ σ.subscribers s' ∧ (s' = s → i ≠ csub.idx) := by
        split at member
        next same =>
          subst same
          obtain ⟨member, other⟩ := List.mem_filter.mp member
          exact ⟨member, fun _ => by simpa using other⟩
        next other => exact ⟨member, fun same => absurd same other⟩
      obtain ⟨csub', at_, rfl, listed⟩ := (lists.listed c' s' i).mp old.1
      refine ⟨csub', ?_, rfl, listed⟩
      rw [entry, if_neg, at_]
      rintro ⟨rfl, rfl⟩
      cases stored.symm.trans at_
      exact old.2 rfl rfl
    · -- another entry has another index, so the filter spares its item
      rintro ⟨csub', at_, rfl, listed⟩
      obtain ⟨other, at_⟩ := before c' s' csub' at_
      have member := (lists.listed c' s' csub'.idx).mpr ⟨csub', at_, rfl, listed⟩
      split
      next same =>
        subst same
        refine List.mem_filter.mpr ⟨member, ?_⟩
        simp only [bne_iff_ne, ne_eq]
        exact fun idx => other ⟨(lists.distinct c' s' csub' c s' csub at_ stored idx).1, rfl⟩
      next => exact member
  · intro s'
    rw [subscribers]
    split
    · exact (lists.once s).filter _
    · exact lists.once s'
  · intro c' s' csub' at_
    rw [next]
    exact lists.fresh c' s' csub' (before c' s' csub' at_).2
  · exact fun c₁ s₁ csub₁ c₂ s₂ csub₂ at₁ at₂ =>
      lists.distinct c₁ s₁ csub₁ c₂ s₂ csub₂ (before c₁ s₁ csub₁ at₁).2
        (before c₂ s₂ csub₂ at₂).2

end Listed

/-! ### Outstanding completions -/

/-- Every pending entry waits for one completion, and a completion that no
entry waits for is left over from a client that has been closed. -/
structure Waits (σ : Server) (waiting : List (ClientId × SubId)) : Prop where
  waits : ∀ c s csub, σ.entry c s = some csub → csub.pending = true → (c, s) ∈ waiting
  answered : ∀ c s, (c, s) ∈ waiting →
    (∃ csub, σ.entry c s = some csub ∧ csub.pending = true) ∨ (σ.clients c).closed = true
  once : waiting.Nodup
  closing : ∀ c, (σ.clients c).closed = true → (σ.clients c).closing = true
  left : ∀ c s, (σ.clients c).closed = true → σ.entry c s = none

section Waits

variable {σ τ : Server} {waiting : List (ClientId × SubId)} {c : ClientId} {s : SubId}

theorem Waits.congr (waits : Waits σ waiting) (entry : ∀ c s, τ.entry c s = σ.entry c s)
    (standing : τ.standing = σ.standing) : Waits τ waiting := by
  have closing := closing_of_standing standing
  have closed := closed_of_standing standing
  obtain ⟨waits, answered, once, closing', left⟩ := waits
  refine ⟨?_, ?_, once, ?_, ?_⟩
  · exact fun c s csub at_ => waits c s csub (entry c s ▸ at_)
  · intro c s member
    rw [entry, closed]
    exact answered c s member
  · intro c
    rw [closed, closing]
    exact closing' c
  · intro c s
    rw [closed, entry]
    exact left c s

/-- An entry of a client that has not been closed changes, together with what
it waits for. -/
theorem Waits.update (waits : Waits σ waiting) (new : Option ClientSub)
    (waiting' : List (ClientId × SubId))
    (entry : ∀ c' s', τ.entry c' s' = if c' = c ∧ s' = s then new else σ.entry c' s')
    (standing : τ.standing = σ.standing) (open_ : (σ.clients c).closed = false)
    (others : ∀ u, u ≠ (c, s) → (u ∈ waiting' ↔ u ∈ waiting)) (once : waiting'.Nodup)
    (here : (c, s) ∈ waiting' ↔ ∃ csub, new = some csub ∧ csub.pending = true) :
    Waits τ waiting' := by
  have closing := closing_of_standing standing
  have closed := closed_of_standing standing
  refine ⟨?_, ?_, once, ?_, ?_⟩
  · -- a pending entry is the new one, or one of before
    intro c' s' csub at_ pending
    rw [entry] at at_
    split at at_
    next same =>
      obtain ⟨rfl, rfl⟩ := same
      exact here.mpr ⟨csub, at_, pending⟩
    next other =>
      refine (others (c', s') ?_).mpr (waits.waits c' s' csub at_ pending)
      rintro ⟨⟩
      exact other ⟨rfl, rfl⟩
  · -- the completion of this entry is in `here`, every other one as before
    intro c' s' member
    rw [entry, closed]
    by_cases same : c' = c ∧ s' = s
    · obtain ⟨rfl, rfl⟩ := same
      rw [if_pos ⟨rfl, rfl⟩]
      exact Or.inl (here.mp member)
    · rw [if_neg same]
      refine waits.answered c' s' ((others (c', s') ?_).mp member)
      rintro ⟨⟩
      exact same ⟨rfl, rfl⟩
  · intro c'
    rw [closed, closing]
    exact waits.closing c'
  · intro c' s' gone
    rw [closed] at gone
    rw [entry, if_neg]
    · exact waits.left c' s' gone
    · -- a closed client is not `c`
      rintro ⟨rfl, rfl⟩
      rw [open_] at gone
      cases gone

/-- An open client without an entry waits for nothing. -/
theorem Waits.unasked (waits : Waits σ waiting) (open_ : (σ.clients c).closed = false)
    (absent : ∀ csub, σ.entry c s = some csub → csub.pending = false) : (c, s) ∉ waiting := by
  intro member
  rcases waits.answered c s member with ⟨csub, at_, pending⟩ | gone
  · rw [absent csub at_] at pending
    cases pending
  · rw [open_] at gone
    cases gone

theorem Waits.open_of_entry (waits : Waits σ waiting) {csub : ClientSub}
    (stored : σ.entry c s = some csub) : (σ.clients c).closed = false := by
  cases gone : (σ.clients c).closed with
  | false => rfl
  | true =>
    rw [waits.left c s gone] at stored
    cases stored

/-- A late completion of a client without the entry has nothing to do. -/
theorem Waits.late (waits : Waits σ waiting) (absent : σ.entry c s = none)
    (member : (c, s) ∈ waiting) :
    (σ.clients c).closed = true ∧ Waits σ (waiting.erase (c, s)) := by
  have gone : (σ.clients c).closed = true := by
    rcases waits.answered c s member with ⟨csub, at_, -⟩ | gone
    · rw [absent] at at_
      cases at_
    · exact gone
  refine ⟨gone, ?_, ?_, waits.once.erase _, waits.closing, waits.left⟩
  · intro c' s' csub at_ pending
    refine (List.mem_erase_of_ne ?_).mpr (waits.waits c' s' csub at_ pending)
    rintro ⟨⟩
    rw [absent] at at_
    cases at_
  · exact fun c' s' member => waits.answered c' s' (List.mem_of_mem_erase member)

end Waits

/-! ### Every operation keeps the invariant -/

/-- The invariant, given the references held outside the clients and the
completions outstanding. -/
structure Inv (σ : Server) (held : List SubId) (waiting : List (ClientId × SubId)) : Prop where
  lists : Listed σ
  waits : Waits σ waiting
  counted : ∃ users, Counted σ held users
  tidy : ∀ c, σ.Tidy c

section Operations

variable {σ : Server} {held : List SubId} {waiting : List (ClientId × SubId)}

/-- Operations on subscription objects leave the clients alone. -/
theorem Inv.of_clients (inv : Inv σ held waiting) (τ : Server) (clients : τ.clients = σ.clients)
    (subscribers : ∀ s, τ.subscribers s = σ.subscribers s) (next : τ.nextIdx = σ.nextIdx)
    {held' : List SubId} (counted : ∃ users, Counted τ held' users) : Inv τ held' waiting := by
  have entry : ∀ c s, τ.entry c s = σ.entry c s := fun c s => by
    simp only [Server.entry, clients]
  refine ⟨?_, ?_, counted, ?_⟩
  · obtain ⟨tombstoned, listed, once, fresh, distinct⟩ := inv.lists
    refine ⟨?_, ?_, ?_, ?_, ?_⟩
    · simpa only [entry] using tombstoned
    · simpa only [entry, subscribers] using listed
    · simpa only [subscribers] using once
    · simpa only [entry, next] using fresh
    · simpa only [entry] using distinct
  · exact inv.waits.congr entry (by funext c; simp only [standing, clients])
  · exact fun c => σ.tidy_of_subs (inv.tidy c) (by rw [clients])

/-- `sub_get` hands out a reference. -/
theorem Inv.subGet (inv : Inv σ held waiting) {ev : Event Handlers} {evExtra : Bytes}
    {orCreate : Bool} {s : SubId} {τ : Server} (got : σ.subGet ev evExtra orCreate = some (s, τ)) :
    Inv τ (s :: held) waiting := by
  obtain ⟨users, counted⟩ := inv.counted
  rcases subGet_cases got with ⟨stored, -, rfl⟩ | ⟨dead, rfl, rfl⟩
  · -- the table has it: one more reference
    obtain ⟨allocated, -, -⟩ := counted.ledger.keyed _ _ s stored
    have positive := counted.ledger.positive stored
    refine inv.of_clients (σ.subRef s) rfl (fun r => by rw [subscribers_subRef]) rfl ⟨users, ?_⟩
    exact counted.hold (fun _ => rfl) (Nat.le_refl _) allocated
      (counted.ledger.subRef allocated positive)
  · -- a new one: nobody can have a reference to it yet
    have unused : total users held σ.nextSub = 0 := by
      by_contra used
      exact Nat.lt_irrefl _ (counted.allocated _ (Nat.pos_of_ne_zero used))
    refine inv.of_clients (σ.subCreate ev evExtra) rfl ?_ rfl ⟨users, ?_⟩
    · intro r
      rw [subscribers_subCreate]
      split
      next same =>
        -- an item on its list would be of an entry for a subscription not allocated
        subst same
        symm
        rw [List.eq_nil_iff_forall_not_mem]
        rintro ⟨i, c⟩ member
        obtain ⟨csub, stored, -⟩ := (inv.lists.listed c _ i).mp member
        exact Nat.lt_irrefl _ (counted.of_entry stored).2
      next => rfl
    · refine counted.hold (fun _ => rfl) (Nat.le_succ _) (Nat.lt_succ_self _) ?_
      rw [unused]
      refine counted.ledger.subCreate ev evExtra fun fits => Option.eq_none_iff_forall_ne_some.mpr ?_
      -- what is in a table is live, so it would have been found
      intro r stored
      have zero := dead r stored
      rw [counted.ledger.refs_eq_zero fits (counted.ledger.keyed _ _ r stored).1] at zero
      exact Nat.ne_of_gt (counted.ledger.positive stored) zero

/-- `sub_unref` gives one back. -/
theorem Inv.subUnref (inv : Inv σ held waiting) {s : SubId} (member : s ∈ held) :
    Inv (σ.subUnref s) (held.erase s) waiting := by
  obtain ⟨users, counted⟩ := inv.counted
  obtain ⟨positive, allocated⟩ := counted.of_held member
  refine inv.of_clients (σ.subUnref s) (clients_subUnref σ s) (fun r => by rw [subscribers_subUnref])
    (nextIdx_subUnref σ s) ⟨users, ?_⟩
  exact counted.unhold member (entry_subUnref σ s) (nextSub_subUnref σ s)
    (counted.ledger.subUnref allocated positive)

/-- An entry keeps its item and stays pending, or stays listed. -/
theorem Inv.flag (inv : Inv σ held waiting) {c : ClientId} {s : SubId} {csub : ClientSub}
    (stored : σ.entry c s = some csub) (csub' : ClientSub) (idx : csub'.idx = csub.idx)
    (pending : csub'.pending = csub.pending)
    (tombstone : csub'.tombstone = true → csub'.pending = true) :
    Inv (σ.hashInsert c s csub') held waiting := by
  obtain ⟨users, counted⟩ := inv.counted
  have entry := fun c' s' => σ.entry_hashInsert c c' s s' csub'
  refine ⟨?_, ?_, ⟨users, ?_⟩, fun c' => σ.tidy_hashInsert c c' s csub' (inv.tidy c')⟩
  · exact inv.lists.flag csub' stored idx pending tombstone entry rfl rfl
  · refine inv.waits.update (some csub') waiting entry (standing_hashInsert σ c s csub')
      (inv.waits.open_of_entry stored) (fun _ _ => Iff.rfl) inv.waits.once ?_
    constructor
    · -- what waits for the entry stays pending with it
      intro member
      refine ⟨csub', rfl, pending.trans ?_⟩
      by_contra listed
      refine inv.waits.unasked (inv.waits.open_of_entry stored) (fun old at_ => ?_) member
      cases stored.symm.trans at_
      simpa using listed
    · rintro ⟨_, ⟨⟩, still⟩
      exact inv.waits.waits c s csub stored (pending.symm.trans still)
  · refine counted.congr ?_ rfl (counted.ledger.setClient c _)
    intro c' s'
    rw [entry]
    split
    next here =>
      obtain ⟨rfl, rfl⟩ := here
      simp [stored]
    next => rfl

/-- An entry goes, with its item, its reference and what it waited for. -/
theorem Inv.removed (inv : Inv σ held waiting) {c : ClientId} {s : SubId} {csub : ClientSub}
    (stored : σ.entry c s = some csub) (τ : Server) (waiting' : List (ClientId × SubId))
    (entry : ∀ c' s', τ.entry c' s' = if c' = c ∧ s' = s then none else σ.entry c' s')
    (subscribers : ∀ s', τ.subscribers s' =
      if s' = s then (σ.subscribers s).filter fun item => item.1 != csub.idx
      else σ.subscribers s')
    (nextIdx : τ.nextIdx = σ.nextIdx) (nextSub : τ.nextSub = σ.nextSub)
    (standing : τ.standing = σ.standing) (tidy : ∀ c', τ.Tidy c')
    (ledger : ∀ n, Ledger σ n → 0 < n s → Ledger τ (Function.update n s (n s - 1)))
    (others : ∀ u, u ≠ (c, s) → (u ∈ waiting' ↔ u ∈ waiting)) (once : waiting'.Nodup)
    (done : (c, s) ∉ waiting') : Inv τ held waiting' := by
  obtain ⟨users, counted⟩ := inv.counted
  have positive := (total_erase_user users held c s (counted.of_entry stored).1).1
  refine ⟨inv.lists.remove stored entry subscribers nextIdx, ?_, ⟨users.erase (c, s), ?_⟩, tidy⟩
  · exact inv.waits.update none waiting' entry standing (inv.waits.open_of_entry stored) others
      once (by simp [done])
  · refine counted.remove stored ?_ nextSub (ledger _ counted.ledger positive)
    intro c' s'
    rw [entry]
    split <;> simp [*]

/-- `_sub_cleanup` of an entry that nothing is awaited for any more. -/
theorem Inv.subCleanup (inv : Inv σ held waiting) {c : ClientId} {s : SubId} {csub : ClientSub}
    (stored : σ.entry c s = some csub) (waiting' : List (ClientId × SubId))
    (others : ∀ u, u ≠ (c, s) → (u ∈ waiting' ↔ u ∈ waiting)) (once : waiting'.Nodup)
    (done : (c, s) ∉ waiting') : Inv (σ.subCleanup c s csub true) held waiting' := by
  obtain ⟨users, counted⟩ := inv.counted
  have allocated := (counted.of_entry stored).2
  exact inv.removed stored _ waiting' (fun c' s' => σ.entry_subCleanup c c' s s' csub)
    (fun s' => σ.subscribers_subCleanup c s s' csub true) (σ.nextIdx_subCleanup c s csub true)
    (σ.nextSub_subCleanup c s csub true) (σ.standing_subCleanup c s csub true)
    (fun c' => σ.tidy_subCleanup c c' s csub (inv.tidy c'))
    (fun _ ledger positive => ledger.subCleanup c csub true allocated positive) others once done

theorem erase_others (waits : Waits σ waiting) (c : ClientId) (s : SubId) :
    (∀ u, u ≠ (c, s) → (u ∈ waiting.erase (c, s) ↔ u ∈ waiting)) ∧
    (waiting.erase (c, s)).Nodup ∧ (c, s) ∉ waiting.erase (c, s) :=
  ⟨fun _ other => List.mem_erase_of_ne other, waits.once.erase _, waits.once.not_mem_erase⟩

/-- A new entry waits for its completion. -/
theorem Inv.added (inv : Inv σ held waiting) {c : ClientId} {s : SubId} (member : s ∈ held)
    (notClosing : (σ.clients c).closing = false) (absent : σ.entry c s = none) :
    Inv (σ.added c s) held ((c, s) :: waiting) := by
  obtain ⟨users, counted⟩ := inv.counted
  obtain ⟨positive, allocated⟩ := counted.of_held member
  have open_ : (σ.clients c).closed = false := by
    cases gone : (σ.clients c).closed with
    | false => rfl
    | true =>
      rw [inv.waits.closing c gone] at notClosing
      cases notClosing
  -- the client has not asked yet
  have new : (c, s) ∉ waiting :=
    inv.waits.unasked open_ fun _ at_ => by rw [absent] at at_; cases at_
  have entry : ∀ c' s', (σ.added c s).entry c' s' =
      if c' = c ∧ s' = s then some ⟨σ.nextIdx, true, false⟩ else σ.entry c' s' :=
    fun c' s' => entry_hashInsert _ c c' s s' _
  refine ⟨?_, ?_, ⟨(c, s) :: users, ?_⟩, ?_⟩
  · exact inv.lists.insert absent entry (subscribers_subRef _ s) rfl
  · refine inv.waits.update (some ⟨σ.nextIdx, true, false⟩) _ entry (standing_hashInsert _ c s _)
      -- the new completion is the only one that is added
      open_ ?_ (List.nodup_cons.mpr ⟨new, inv.waits.once⟩) (by simp)
    intro u other
    simp [other]
  · have alloc : Ledger { σ with fairUsed := σ.fairUsed + 1, nextIdx := σ.nextIdx + 1 }
        (total users held) :=
      counted.ledger.congr _ rfl rfl rfl fun _ => ⟨rfl, rfl, rfl, rfl⟩
    refine counted.insert absent positive ?_ rfl
      (Ledger.setClient (alloc.subRef allocated positive) c _)
    intro c' s'
    rw [entry]
    split <;> simp [*]
  · exact fun c' => tidy_hashInsert _ c c' s _ (inv.tidy c')

/-- `client_sub_add` -/
theorem Inv.clientSubAdd (inv : Inv σ held waiting) (c : ClientId) {s : SubId} (member : s ∈ held)
    (fairUse : Bool) :
    Inv (σ.clientSubAdd c s fairUse).1 held
      (if (σ.clientSubAdd c s fairUse).2 = .created then (c, s) :: waiting else waiting) := by
  cases closing : (σ.clients c).closing with
  | true =>
    rw [clientSubAdd_closing closing]
    exact inv
  | false =>
    cases stored : σ.entry c s with
    | some csub =>
      -- only a new entry says `CLIENT_SUB_CREATED`
      have earlier : (if csub.pending = true then ClientSubState.pending else .active) ≠
          .created := by
        split <;> decide
      rw [clientSubAdd_stored closing stored, if_neg earlier]
      exact inv.flag stored _ rfl rfl (by simp)
    | none =>
      cases fairUse with
      | false =>
        rw [clientSubAdd_refused closing stored]
        exact inv
      | true =>
        rw [clientSubAdd_created closing stored]
        exact inv.added member closing stored

/-- The entry a completion finds is pending. -/
theorem Waits.pending (waits : Waits σ waiting) {c : ClientId} {s : SubId} {csub : ClientSub}
    (member : (c, s) ∈ waiting) (stored : σ.entry c s = some csub) : csub.pending = true := by
  by_contra listed
  refine waits.unasked (waits.open_of_entry stored) (fun old at_ => ?_) member
  cases stored.symm.trans at_
  simpa using listed

/-- `client_sub_accept`, for a completion that was outstanding. -/
theorem Inv.clientSubAccept (inv : Inv σ held waiting) {c : ClientId} {s : SubId}
    (member : (c, s) ∈ waiting) (listOk : Bool) :
    Inv (σ.clientSubAccept c s listOk).1 held (waiting.erase (c, s)) := by
  obtain ⟨others, once, done⟩ := erase_others inv.waits c s
  cases stored : σ.entry c s with
  | none =>
    rw [clientSubAccept_absent stored]
    exact ⟨inv.lists, (inv.waits.late stored member).2, inv.counted, inv.tidy⟩
  | some csub =>
    cases listOk with
    | false =>
      rw [clientSubAccept_failed stored]
      exact inv.subCleanup stored _ others once done
    | true =>
      obtain ⟨users, counted⟩ := inv.counted
      have allocated := (counted.of_entry stored).2
      have pending := inv.waits.pending member stored
      have entry := fun c' s' =>
        (σ.listAdd s csub.idx c).entry_hashInsert c c' s s' { csub with pending := false }
      cases wanted : csub.tombstone with
      | true =>
        rw [clientSubAccept_tombstoned stored wanted]
        -- The item joins the list and leaves it again.
        refine inv.removed stored _ _ ?_ ?_ (nextIdx_subCleanup _ c s _ true)
          (nextSub_subCleanup _ c s _ true)
          ((standing_subCleanup _ c s _ true).trans (standing_hashInsert _ c s _))
          (fun c' => tidy_subCleanup _ c c' s _ (tidy_hashInsert _ c c' s _ (inv.tidy c')))
          ?_ others once done
        · intro c' s'
          rw [entry_subCleanup, joined, entry]
          split <;> rfl
        · intro s'
          have listed : ∀ r, (σ.joined c s csub).subscribers r =
              if r = s then σ.subscribers s ++ [(csub.idx, c)] else σ.subscribers r :=
            fun r => σ.subscribers_setSub s r _
          rw [subscribers_subCleanup, listed, listed, if_pos rfl, List.filter_append]
          split <;> simp
        · intro n ledger positive
          exact Ledger.subCleanup (Ledger.setClient (ledger.setSubscribers s _) c _) c _ true
            allocated positive
      | false =>
        rw [clientSubAccept_active stored wanted]
        have same : ({ csub with pending := false } : ClientSub) = ⟨csub.idx, false, false⟩ := by
          rw [← wanted]
        rw [same] at entry
        rw [joined, same]
        refine ⟨?_, ?_, ⟨users, ?_⟩, ?_⟩
        · exact inv.lists.accept stored pending entry
            (fun s' => σ.subscribers_setSub s s' _) rfl
        · exact inv.waits.update (some ⟨csub.idx, false, false⟩) _ entry
            (standing_hashInsert _ c s _) (inv.waits.open_of_entry stored) others once
            (by simp [done])
        · refine counted.congr ?_ rfl (Ledger.setClient (counted.ledger.setSubscribers s _) c _)
          intro c' s'
          rw [entry]
          split
          next here =>
            obtain ⟨rfl, rfl⟩ := here
            simp [stored]
          next => rfl
        · exact fun c' => tidy_hashInsert _ c c' s _ (inv.tidy c')

/-- `client_sub_reject`, for a completion that was outstanding. -/
theorem Inv.clientSubReject (inv : Inv σ held waiting) {c : ClientId} {s : SubId}
    (member : (c, s) ∈ waiting) : Inv (σ.clientSubReject c s) held (waiting.erase (c, s)) := by
  obtain ⟨others, once, done⟩ := erase_others inv.waits c s
  cases stored : σ.entry c s with
  | none =>
    rw [Server.clientSubReject, subRemove_absent stored]
    exact ⟨inv.lists, (inv.waits.late stored member).2, inv.counted, inv.tidy⟩
  | some csub =>
    rw [Server.clientSubReject, subRemove_removed stored (Or.inl rfl)]
    exact inv.subCleanup stored _ others once done

/-- `client_sub_remove` -/
theorem Inv.clientSubRemove (inv : Inv σ held waiting) (c : ClientId) (s : SubId) :
    Inv (σ.clientSubRemove c s).1 held waiting := by
  cases stored : σ.entry c s with
  | none =>
    rw [Server.clientSubRemove, subRemove_absent stored]
    exact inv
  | some csub =>
    cases pending : csub.pending with
    | true =>
      rw [Server.clientSubRemove, subRemove_pending stored pending]
      exact inv.flag stored _ rfl rfl fun _ => pending
    | false =>
      rw [Server.clientSubRemove, subRemove_removed stored (Or.inr pending)]
      refine inv.subCleanup stored _ (fun _ _ => Iff.rfl) inv.waits.once ?_
      refine inv.waits.unasked (inv.waits.open_of_entry stored) fun old at_ => ?_
      cases stored.symm.trans at_
      exact pending

theorem entry_qevClose (σ : Server) (c c' : ClientId) (s : SubId) :
    (σ.qevClose c).entry c' s = σ.entry c' s := by
  by_cases client : c' = c
  · subst client
    simp [Server.entry, Server.qevClose, setClient, Client.subGet]
  · simp [Server.entry, Server.qevClose, setClient, client]

/-- `qev_close` only marks the client. -/
theorem Inv.qevClose (inv : Inv σ held waiting) (c : ClientId) :
    Inv (σ.qevClose c) held waiting := by
  have entry := entry_qevClose σ c
  have closed : ∀ c', ((σ.qevClose c).clients c').closed = (σ.clients c').closed := by
    intro c'
    by_cases client : c' = c
    · subst client
      simp [Server.qevClose, setClient]
    · simp [Server.qevClose, setClient, client]
  obtain ⟨users, counted⟩ := inv.counted
  obtain ⟨tombstoned, listed, once, fresh, distinct⟩ := inv.lists
  obtain ⟨waits, answered, onceWaiting, closing, left⟩ := inv.waits
  -- no entry changes, and `closing` only turns true
  refine ⟨⟨?_, ?_, once, ?_, ?_⟩, ⟨?_, ?_, onceWaiting, ?_, ?_⟩, ⟨users, ?_⟩, ?_⟩
  · simpa only [entry] using tombstoned
  · simp only [entry]
    exact listed
  · simp only [entry]
    exact fresh
  · simpa only [entry] using distinct
  · simpa only [entry] using waits
  · simpa only [entry, closed] using answered
  · intro c' gone
    by_cases client : c' = c
    · subst client
      simp [Server.qevClose, setClient]
    · rw [closed] at gone
      simpa [Server.qevClose, setClient, client] using closing c' gone
  · simpa only [entry, closed] using left
  · exact counted.congr (fun c' s => by rw [entry]) rfl (counted.ledger.setClient c _)
  · intro c'
    by_cases client : c' = c
    · subst client
      exact σ.tidy_of_subs (inv.tidy c') (by simp [Server.qevClose, setClient])
    · exact σ.tidy_setClient_ne client _ (inv.tidy c')

/-- While `client_closed` empties the table of `c`, `rest` is what is left. -/
structure Emptying (σ τ : Server) (c : ClientId) (held : List SubId)
    (rest : List (Sigma fun _ : SubId => ClientSub)) : Prop where
  lists : Listed τ
  counted : ∃ users, Counted τ held users
  left : ∀ s csub, τ.entry c s = some csub ↔ ⟨s, csub⟩ ∈ rest
  others : ∀ c', c' ≠ c → τ.clients c' = σ.clients c'
  standing : τ.standing = σ.standing

theorem Emptying.closeEntry {τ : Server} {c : ClientId} {s : SubId} {csub : ClientSub}
    {rest : List (Sigma fun _ : SubId => ClientSub)}
    (emptying : Emptying σ τ c held (⟨s, csub⟩ :: rest))
    (distinct : (⟨s, csub⟩ :: rest : List (Sigma fun _ : SubId => ClientSub)).NodupKeys) :
    Emptying σ (closeEntry c τ ⟨s, csub⟩) c held rest := by
  obtain ⟨lists, ⟨users, counted⟩, left, others, standing⟩ := emptying
  have stored : τ.entry c s = some csub := (left s csub).mpr List.mem_cons_self
  obtain ⟨member, allocated⟩ := counted.of_entry stored
  have positive := (total_erase_user users held c s member).1
  have entry := fun c' s' => τ.entry_closeEntry c c' s' ⟨s, csub⟩
  refine ⟨?_, ⟨users.erase (c, s), ?_⟩, ?_, ?_, ?_⟩
  · exact lists.remove stored entry
      (fun s' => subscribers_subCleanup (τ.hashRemove c s) c s s' csub false)
      (nextIdx_subCleanup (τ.hashRemove c s) c s csub false)
  · refine counted.remove stored ?_ (nextSub_subCleanup (τ.hashRemove c s) c s csub false)
      (Ledger.subCleanup (counted.ledger.setClient c _) c csub false allocated positive)
    intro c' s'
    rw [entry]
    split <;> simp [*]
  · intro s' csub'
    rw [entry]
    -- the entry that went is not among the rest, keys being distinct
    by_cases same : s' = s
    · subst same
      have gone : ∀ csub', (⟨s', csub'⟩ : Sigma fun _ : SubId => ClientSub) ∉ rest :=
        fun csub' again => (List.nodupKeys_cons.mp distinct).1
          (List.mem_keys.mpr ⟨csub', again⟩)
      simp [gone]
    · rw [if_neg fun here => same here.2, left, List.mem_cons]
      constructor
      · rintro (eq | member)
        · cases eq
          exact absurd rfl same
        · exact member
      · exact Or.inr
  · intro c' client
    rw [← others c' client]
    -- `_sub_cleanup` without its table leaves the clients alone
    have kept : (Server.closeEntry c τ ⟨s, csub⟩).clients = (τ.hashRemove c s).clients := by
      simp only [Server.closeEntry, Server.subCleanup, Bool.false_eq_true, if_false,
        clients_subUnref, subFree, clients_clientOff]
      rfl
    rw [kept]
    simp [hashRemove, setClient, client]
  · rw [Server.closeEntry, standing_subCleanup, standing_hashRemove, standing]

theorem Emptying.fold {τ : Server} {c : ClientId}
    {rest : List (Sigma fun _ : SubId => ClientSub)} (emptying : Emptying σ τ c held rest)
    (distinct : rest.NodupKeys) : Emptying σ (rest.foldl (Server.closeEntry c) τ) c held [] := by
  induction rest generalizing τ with
  | nil => exact emptying
  | cons item rest ih =>
    exact ih (emptying.closeEntry distinct) (List.nodupKeys_cons.mp distinct).2

/-- What the loop of `client_closed` leaves. -/
def Server.emptied (σ : Server) (c : ClientId) : Server :=
  match (σ.clients c).subs with
  | none => σ
  | some subs => subs.entries.foldl (Server.closeEntry c) σ

theorem clientClosed_eq (σ : Server) (c : ClientId) :
    σ.clientClosed c = (σ.emptied c).setClient c
      { (σ.emptied c).clients c with subs := none, closed := true } := by
  simp only [Server.clientClosed, Server.emptied]
  cases table : (σ.clients c).subs with
  | none => simp
  | some subs => rfl

theorem Inv.emptied (inv : Inv σ held waiting) (c : ClientId) :
    Emptying σ (σ.emptied c) c held [] := by
  simp only [Server.emptied]
  cases table : (σ.clients c).subs with
  | none =>
    refine ⟨inv.lists, inv.counted, ?_, fun _ _ => rfl, rfl⟩
    simp [Server.entry, Client.subGet, table]
  | some subs =>
    refine Emptying.fold ⟨inv.lists, inv.counted, ?_, fun _ _ => rfl, rfl⟩ subs.nodupKeys
    intro s csub
    simp only [Server.entry, Client.subGet, table, Option.bind_some]
    exact AList.mem_lookup_iff

/-- `client_closed`, once the client is closing. -/
theorem Inv.clientClosed (inv : Inv σ held waiting) {c : ClientId}
    (closing : (σ.clients c).closing = true) : Inv (σ.clientClosed c) held waiting := by
  -- First every entry goes, then the table itself, and the client is closed.
  have emptied := inv.emptied c
  rw [clientClosed_eq]
  generalize σ.emptied c = τ at emptied ⊢
  obtain ⟨lists, ⟨users, counted⟩, left, others, standing⟩ := emptied
  -- No entry of `c` is left, so its table is empty when it goes.
  have absent : ∀ s, τ.entry c s = none := by
    intro s
    cases at_ : τ.entry c s with
    | none => rfl
    | some csub => cases (left s csub).mp at_
  generalize final : τ.setClient c { τ.clients c with subs := none, closed := true } = υ
  have entry : ∀ c' s, υ.entry c' s = τ.entry c' s := by
    intro c' s
    by_cases client : c' = c
    · subst client
      rw [absent s]
      simp [← final, Server.entry, setClient, Client.subGet]
    · simp [← final, Server.entry, setClient, client]
  have same : ∀ c', c' ≠ c → υ.clients c' = σ.clients c' := fun c' client => by
    rw [← others c' client]
    simp [← final, setClient, client]
  have gone : (υ.clients c).closed = true ∧ (υ.clients c).closing = true := by
    have kept := closing_of_standing standing c
    simp [← final, setClient, kept, closing]
  -- The other clients are as they were.
  have alike : ∀ c' s, c' ≠ c → υ.entry c' s = σ.entry c' s := fun c' s client => by
    simp only [Server.entry, same c' client]
  refine ⟨?_, ⟨?_, ?_, inv.waits.once, ?_, ?_⟩, ⟨users, ?_⟩, ?_⟩
  · obtain ⟨tombstoned, listed, once, fresh, distinct⟩ := lists
    refine ⟨?_, ?_, ?_, ?_, ?_⟩
    · simpa only [entry] using tombstoned
    · simp only [entry]
      rw [← final]
      exact listed
    · rw [← final]
      exact once
    · simp only [entry]
      rw [← final]
      exact fresh
    · simpa only [entry] using distinct
  · intro c' s csub at_ pending
    by_cases client : c' = c
    · subst client
      rw [entry, absent] at at_
      cases at_
    · rw [alike c' s client] at at_
      exact inv.waits.waits c' s csub at_ pending
  · -- an answer for `c` may still come: the client is closed by then
    intro c' s member
    by_cases client : c' = c
    · subst client
      exact Or.inr gone.1
    · rw [alike c' s client, same c' client]
      exact inv.waits.answered c' s member
  · intro c'
    by_cases client : c' = c
    · subst client
      exact fun _ => gone.2
    · rw [same c' client]
      exact inv.waits.closing c'
  · intro c' s
    by_cases client : c' = c
    · subst client
      exact fun _ => (entry c' s).trans (absent s)
    · rw [same c' client, alike c' s client]
      exact inv.waits.left c' s
  · rw [← final]
    refine counted.congr (fun c' s => ?_) rfl (counted.ledger.setClient c _)
    rw [final, entry]
  · intro c'
    by_cases client : c' = c
    · subst client
      have empty : (υ.clients c').subs = none := by simp [← final, setClient]
      simp [Server.Tidy, Server.entry, Client.subGet, empty]
    · exact σ.tidy_of_subs (inv.tidy c') (by rw [same c' client])

end Operations

end QuickIO
