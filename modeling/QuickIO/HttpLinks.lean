import QuickIO.HttpMoves

/-!
# Pollers and surrogates

A surrogate and the socket that polls for it point at each other, and each
pointer holds a reference. Every move keeps the links and the counts, so every
run does.
-/
namespace QuickIO

open Lib

namespace Http

/-- The surrogates that remember the socket as their poller. -/
def pollers (σ : Http) (c : SockId) : Nat :=
  pointersTo σ.nextSurr (fun s => (σ.surrs s).client) c

/-- The sockets that are linked to the surrogate. -/
def linkers (σ : Http) (s : SurrId) : Nat :=
  pointersTo σ.nextSock (fun c => (σ.socks c).client) s

/-- Clients that have not been created yet point nowhere. -/
structure Known (σ : Http) : Prop where
  surrs : ∀ s, σ.nextSurr ≤ s → (σ.surrs s).client = none
  socks : ∀ c, σ.nextSock ≤ c → (σ.socks c).client = none
  stored : ∀ b sid s, σ.clients b sid = some s → s < σ.nextSurr

/-- Links belong to a request on an open HTTP socket, pollers are linked back,
and a surrogate that is closed has no poller. -/
structure Tied (σ : Http) : Prop where
  linked : ∀ c s, (σ.socks c).client = some s →
    (σ.socks c).inRequest = true ∧ (σ.socks c).closed = false ∧ (σ.socks c).upgraded = false ∧
      s < σ.nextSurr
  polled : ∀ s c, (σ.surrs s).client = some c →
    (σ.socks c).inBody = false ∧ (σ.socks c).upgraded = false ∧ (σ.surrs s).closed = false ∧
      ((σ.socks c).client = some s ∨
        ((σ.surrs s).closing ≠ none ∧ (σ.socks c).closed = true))
  retired : ∀ s, (σ.surrs s).closed = true → (σ.surrs s).closing ≠ none

/-- One reference for each pointer, and for each that is held on the way. -/
structure Balanced (σ : Http) (held : List SockId) : Prop where
  socks : ∀ c, (σ.socks c).refs = σ.pollers c + held.count c
  surrs : ∀ s, (σ.surrs s).refs = σ.linkers s

/-- The invariant of the links. -/
structure Linked (σ : Http) (held : List SockId) : Prop where
  known : Known σ
  tied : Tied σ
  balanced : Balanced σ held

/-! ### What exists -/

namespace Known

variable {σ : Http}

theorem setSock (known : Known σ) (c : SockId) (f : Socket → Socket)
    (client : (f (σ.socks c)).client = none ∨ (f (σ.socks c)).client = (σ.socks c).client ∨
      c < σ.nextSock) : Known (σ.setSock c f) := by
  refine ⟨known.surrs, ?_, known.stored⟩
  intro d beyond
  rw [socks_setSock]
  split
  next here =>
    subst here
    rcases client with gone | kept | inside
    · exact gone
    · rw [kept]
      exact known.socks d beyond
    · exact absurd inside (Nat.not_lt.mpr beyond)
  next => exact known.socks d beyond

theorem setSurr (known : Known σ) (s : SurrId) (f : Surrogate → Surrogate)
    (client : (f (σ.surrs s)).client = none ∨ (f (σ.surrs s)).client = (σ.surrs s).client ∨
      s < σ.nextSurr) : Known (σ.setSurr s f) := by
  refine ⟨?_, known.socks, known.stored⟩
  intro r beyond
  rw [surrs_setSurr]
  split
  next here =>
    subst here
    rcases client with gone | kept | inside
    · exact gone
    · rw [kept]
      exact known.surrs r beyond
    · exact absurd inside (Nat.not_lt.mpr beyond)
  next => exact known.surrs r beyond

theorem respond (known : Known σ) (c : SockId) (resp : Response) :
    Known (σ.sendResponse (some c) resp).1 := by
  have done := sendResponse_responded σ c resp
  have rest := sendResponse_released σ c resp
  constructor
  · intro s beyond
    rw [done.nextSurr] at beyond
    have vacant := known.surrs s beyond
    -- the session that was linked loses its poller, the others are as they were
    by_cases linked : (σ.socks c).client = some s
    · rw [done.released s linked, vacant]
      simp
    · rwa [done.away s linked]
  · intro d beyond
    rw [rest.rest.1] at beyond
    -- the socket that was answered points to no session any more
    by_cases here : d = c
    · subst here
      exact done.answered.1
    · rw [done.others d here]
      exact known.socks d beyond
  · intro b sid s entry
    rw [done.clients] at entry
    rw [done.nextSurr]
    exact known.stored b sid s entry

theorem surrNew (known : Known σ) (sid : Nat) : Known (σ.surrNew sid) := by
  refine ⟨?_, known.socks, ?_⟩
  · intro s beyond
    rw [surrNew_client]
    split
    next => rfl
    next => exact known.surrs s (Nat.le_of_succ_le beyond)
  · intro b k s entry
    apply Nat.lt_succ_iff_lt_or_eq.mpr
    simp only [Http.surrNew] at entry
    rw [Function.update_apply] at entry
    split at entry
    next =>
      rw [Function.update_apply] at entry
      split at entry
      next => exact Or.inr (Option.some.inj entry).symm
      next => exact Or.inl (known.stored _ k s entry)
    next => exact Or.inl (known.stored b k s entry)

end Known

theorem Move.known {P : SockId → Prop} {σ τ : Http} {held left : List SockId}
    (move : Move P (σ, held) (τ, left)) (known : Known σ) (tied : Tied σ) : Known τ := by
  -- a move writes fields, or a pointer to something that exists
  cases move with
  | log τ socks surrs nextSock nextSurr sent aborted clients =>
    constructor
    · intro s beyond
      rw [surrs]
      exact known.surrs s (nextSurr ▸ beyond)
    · intro c beyond
      rw [socks]
      exact known.socks c (nextSock ▸ beyond)
    · intro b sid s entry
      rw [nextSurr]
      exact known.stored b sid s (clients b sid s entry)
  | opened => exact ⟨known.surrs, fun c beyond => known.socks c (Nat.le_of_succ_le beyond),
      known.stored⟩
  | closing c reason => exact known.setSock c _ (Or.inr (Or.inl rfl))
  | keep c f mine request refs => exact known.setSock c f (Or.inr (Or.inl request.1))
  | own c f mine alone client refs closed linked =>
    exact known.setSock c f (Or.inr (Or.inl client))
  | shut c unlinked => exact known.setSock c _ (Or.inr (Or.inl rfl))
  | surr s f client refs closed closing => exact known.setSurr s f (Or.inr (Or.inl client))
  | created sid => exact known.surrNew sid
  | retire s closing => exact known.setSurr s _ (Or.inl rfl)
  | respond c resp mine => exact known.respond c resp
  | take s => exact known.setSurr s (fun r => { r with client := none }) (Or.inl rfl)
  | attach s c mine vacant open_ linked ready =>
    -- the surrogate is linked, so it exists
    have there := (tied.linked c s linked).2.2.2
    have attached := known.setSurr s (fun r => { r with client := some c })
      (Or.inr (Or.inr there))
    exact attached.setSock c (fun k => { k with refs := k.refs + 1 }) (Or.inr (Or.inl rfl))
  | release c mine => exact known.setSock c _ (Or.inr (Or.inl rfl))
  | link c s mine unlinked owes closed upgraded inside there =>
    have linked := known.setSock c (fun k => { k with client := some s }) (Or.inr (Or.inr inside))
    exact linked.setSurr s _ (Or.inr (Or.inl rfl))
  | unlink c s mine linked closing =>
    have released : Known (σ.unrefSurr s) := known.setSurr s _ (Or.inr (Or.inl rfl))
    exact released.setSock c _ (Or.inl rfl)

/-! ### Who is tied to whom -/

namespace Tied

variable {σ : Http}

theorem setSock (tied : Tied σ) (c : SockId) (f : Socket → Socket)
    (linked : ∀ s, (f (σ.socks c)).client = some s → (f (σ.socks c)).inRequest = true ∧
      (f (σ.socks c)).closed = false ∧ (f (σ.socks c)).upgraded = false ∧ s < σ.nextSurr)
    (polled : ∀ s, (σ.surrs s).client = some c → (f (σ.socks c)).inBody = false ∧
      (f (σ.socks c)).upgraded = false ∧ ((f (σ.socks c)).client = some s ∨
        ((σ.surrs s).closing ≠ none ∧ (f (σ.socks c)).closed = true))) :
    Tied (σ.setSock c f) := by
  constructor
  · intro d s link
    rw [socks_setSock] at link ⊢
    -- the pointer of `c` is what it was asked to be
    split at link
    next here =>
      rw [if_pos here]
      exact linked s link
    next here =>
      rw [if_neg here]
      exact tied.linked d s link
  · intro s d polls
    rw [socks_setSock]
    -- who polls through `c` is pointed back to, or closing
    split
    next here =>
      subst here
      obtain ⟨inBody, upgraded, back⟩ := polled s polls
      exact ⟨inBody, upgraded, (tied.polled s d polls).2.2.1, back⟩
    next => exact tied.polled s d polls
  · exact tied.retired

/-- A change that leaves the request alone. -/
theorem keepSock (tied : Tied σ) (c : SockId) (f : Socket → Socket)
    (client : (f (σ.socks c)).client = (σ.socks c).client)
    (inRequest : (f (σ.socks c)).inRequest = (σ.socks c).inRequest)
    (inBody : (f (σ.socks c)).inBody = (σ.socks c).inBody)
    (closed : (f (σ.socks c)).closed = (σ.socks c).closed)
    (upgraded : (f (σ.socks c)).upgraded = (σ.socks c).upgraded) : Tied (σ.setSock c f) := by
  apply tied.setSock
  · intro s link
    rw [client] at link
    rw [inRequest, closed, upgraded]
    exact tied.linked c s link
  · intro s polls
    obtain ⟨ready, http, -, back⟩ := tied.polled s c polls
    rw [inBody, upgraded, client, closed]
    exact ⟨ready, http, back⟩

theorem setSurr (tied : Tied σ) (s : SurrId) (f : Surrogate → Surrogate)
    (client : (f (σ.surrs s)).client = none ∨
      ((f (σ.surrs s)).client = (σ.surrs s).client ∧
        (f (σ.surrs s)).closed = (σ.surrs s).closed))
    (closing : (σ.surrs s).closing ≠ none → (f (σ.surrs s)).closing ≠ none)
    (retired : (f (σ.surrs s)).closed = true → (f (σ.surrs s)).closing ≠ none) :
    Tied (σ.setSurr s f) := by
  constructor
  · exact tied.linked
  · intro r c polls
    rw [surrs_setSurr] at polls ⊢
    split at polls
    next here =>
      subst here
      rw [if_pos rfl]
      -- a surrogate without a poller has nothing to keep
      rcases client with gone | ⟨kept, closed⟩
      · rw [gone] at polls
        cases polls
      · rw [kept] at polls
        obtain ⟨inBody, upgraded, open_, back⟩ := tied.polled r c polls
        refine ⟨inBody, upgraded, closed.trans open_, ?_⟩
        -- once closing stays closing
        exact back.imp id fun leaves => ⟨closing leaves.1, leaves.2⟩
    next here =>
      rw [if_neg here]
      exact tied.polled r c polls
  · intro r closed
    rw [surrs_setSurr] at closed ⊢
    split at closed
    next here =>
      rw [if_pos here]
      exact retired closed
    next here =>
      rw [if_neg here]
      exact tied.retired r closed

/-- A change to a surrogate that is not about its poller. -/
theorem keepSurr (tied : Tied σ) (s : SurrId) (f : Surrogate → Surrogate)
    (client : (f (σ.surrs s)).client = (σ.surrs s).client)
    (closed : (f (σ.surrs s)).closed = (σ.surrs s).closed)
    (closing : (σ.surrs s).closing ≠ none → (f (σ.surrs s)).closing ≠ none) :
    Tied (σ.setSurr s f) := by
  apply tied.setSurr s f (Or.inr ⟨client, closed⟩) closing
  intro gone
  exact closing (tied.retired s (closed.symm.trans gone))

theorem respond (tied : Tied σ) (c : SockId) (resp : Response) :
    Tied (σ.sendResponse (some c) resp).1 := by
  have done := sendResponse_responded σ c resp
  have rest := sendResponse_released σ c resp
  obtain ⟨unlinked, -, inBody, closed, -, upgraded⟩ := done.answered
  constructor
  · intro d s link
    rw [done.nextSurr]
    by_cases here : d = c
    · subst here
      rw [unlinked] at link
      cases link
    · rw [done.others d here] at link ⊢
      exact tied.linked d s link
  · intro s d polls
    rw [(done.session s).2.2.2, rest.retired s]
    have before : (σ.surrs s).client = some d := by
      by_cases linked : (σ.socks c).client = some s
      · rw [done.released s linked] at polls
        split at polls
        next => cases polls
        next => exact polls
      · rwa [done.away s linked] at polls
    obtain ⟨ready, http, open_, back⟩ := tied.polled s d before
    by_cases here : d = c
    · subst here
      rw [inBody, upgraded, closed]
      refine ⟨ready, http, open_, Or.inr ?_⟩
      rcases back with linked | leaves
      · -- the surrogate the socket was linked to has let go of it
        rw [done.released s linked, if_pos before] at polls
        cases polls
      · exact leaves
    · rw [done.others d here]
      exact ⟨ready, http, open_, back⟩
  · intro s gone
    rw [rest.retired s] at gone
    rw [(done.session s).2.2.2]
    exact tied.retired s gone

theorem attach (tied : Tied σ) (s : SurrId) (c : SockId) (open_ : (σ.surrs s).closing = none)
    (linked : (σ.socks c).client = some s) (ready : (σ.socks c).inBody = false) :
    Tied (σ.setSurr s fun r => { r with client := some c }) := by
  constructor
  · exact tied.linked
  · intro r d polls
    rw [surrs_setSurr] at polls ⊢
    split at polls
    next here =>
      subst here
      obtain rfl : c = d := Option.some.inj polls
      rw [if_pos rfl]
      -- a surrogate that has been closed is closing, and `s` is not
      have still : (σ.surrs r).closed = false := by
        cases gone : (σ.surrs r).closed with
        | false => rfl
        | true => exact absurd open_ (tied.retired r gone)
      exact ⟨ready, (tied.linked c r linked).2.2.1, still, Or.inl linked⟩
    next here =>
      rw [if_neg here]
      exact tied.polled r d polls
  · intro r gone
    rw [surrs_setSurr] at gone ⊢
    split at gone
    next here =>
      rw [if_pos here]
      exact tied.retired s gone
    next here =>
      rw [if_neg here]
      exact tied.retired r gone

end Tied

theorem Move.tied {P : SockId → Prop} {σ τ : Http} {held left : List SockId}
    (move : Move P (σ, held) (τ, left)) (tied : Tied σ) : Tied τ := by
  cases move with
  | log τ socks surrs nextSock nextSurr sent aborted clients =>
    obtain ⟨linked, polled, retired⟩ := tied
    rw [← socks, ← nextSurr] at linked
    rw [← socks, ← surrs] at polled
    rw [← surrs] at retired
    exact ⟨linked, polled, retired⟩
  | opened => exact ⟨tied.linked, tied.polled, tied.retired⟩
  | closing c reason => exact tied.keepSock c _ rfl rfl rfl rfl rfl
  | keep c f mine request refs =>
    obtain ⟨client, inRequest, inBody, closed, -, upgraded⟩ := request
    exact tied.keepSock c f client inRequest inBody closed upgraded
  | own c f mine alone client refs closed linked =>
    apply tied.setSock
    · intro s link
      rw [client] at link
      obtain ⟨inRequest, upgraded⟩ := linked (by simp [link])
      rw [inRequest, closed, upgraded]
      exact tied.linked c s link
    · exact fun s polls => absurd ⟨s, polls⟩ alone
  | shut c unlinked =>
    apply tied.setSock
    · intro s link
      exact absurd (unlinked.symm.trans link) (by simp)
    · intro s polls
      obtain ⟨ready, http, -, back⟩ := tied.polled s c polls
      refine ⟨ready, http, Or.inr ?_⟩
      rcases back with link | leaves
      · exact absurd (unlinked.symm.trans link) (by simp)
      · exact ⟨leaves.1, rfl⟩
  | surr s f client refs closed closing => exact tied.keepSurr s f client closed closing
  | created sid =>
    constructor
    · intro c s link
      obtain ⟨inRequest, closed, upgraded, there⟩ := tied.linked c s link
      exact ⟨inRequest, closed, upgraded, Nat.lt_succ_of_lt there⟩
    · intro s c polls
      have old : s ≠ σ.nextSurr := by
        rintro rfl
        rw [surrNew_client, if_pos rfl] at polls
        cases polls
      rw [surrNew_client, if_neg old] at polls
      rw [show (σ.surrNew sid).surrs s = σ.surrs s from Function.update_of_ne old _ _]
      exact tied.polled s c polls
    · intro s gone
      simp only [surrNew, Function.update_apply] at gone ⊢
      split at gone
      next => cases gone
      next other =>
        rw [if_neg other]
        exact tied.retired s gone
  | retire s closing => exact tied.setSurr s _ (Or.inl rfl) id (fun _ => closing)
  | respond c resp mine => exact tied.respond c resp
  | take s =>
    exact tied.setSurr s (fun r => { r with client := none }) (Or.inl rfl) id (tied.retired s)
  | attach s c mine vacant open_ linked ready =>
    have attached := tied.attach s c open_ linked ready
    exact attached.keepSock c (fun k => { k with refs := k.refs + 1 }) rfl rfl rfl rfl rfl
  | release c mine => exact tied.keepSock c _ rfl rfl rfl rfl rfl
  | link c s mine unlinked owes closed upgraded inside there =>
    have linked : Tied (σ.setSock c fun k => { k with client := some s }) := by
      apply tied.setSock
      · rintro r ⟨⟩
        exact ⟨owes, closed, upgraded, there⟩
      · -- nobody polls with an open socket that is not linked
        intro r polls
        obtain ⟨-, -, -, back⟩ := tied.polled r c polls
        rcases back with link | leaves
        · exact absurd (unlinked.symm.trans link) (by simp)
        · rw [closed] at leaves
          cases leaves.2
    exact linked.keepSurr s _ rfl rfl id
  | unlink c s mine linked closing =>
    have released : Tied (σ.unrefSurr s) := tied.keepSurr s _ rfl rfl id
    apply released.setSock
    · rintro r ⟨⟩
    · intro r polls
      obtain ⟨ready, http, -, back⟩ := released.polled r c polls
      refine ⟨ready, http, Or.inr ⟨?_, rfl⟩⟩
      rcases back with link | leaves
      · obtain rfl : s = r := Option.some.inj (linked.symm.trans link)
        simpa [unrefSurr] using closing
      · exact leaves.1

/-! ### References -/

theorem pollers_congr {σ τ : Http} (client : ∀ s, (τ.surrs s).client = (σ.surrs s).client)
    (nextSurr : τ.nextSurr = σ.nextSurr) (c : SockId) : τ.pollers c = σ.pollers c := by
  simp only [pollers, nextSurr, client]

theorem linkers_congr {σ τ : Http} (client : ∀ c, (τ.socks c).client = (σ.socks c).client)
    (nextSock : τ.nextSock = σ.nextSock) (s : SurrId) : τ.linkers s = σ.linkers s := by
  simp only [linkers, nextSock, client]

/-- One surrogate's pointer is written. -/
theorem pollers_write {σ τ : Http} {s : SurrId} {v : Option SockId} (inside : s < σ.nextSurr)
    (client : ∀ r, (τ.surrs r).client = if r = s then v else (σ.surrs r).client)
    (nextSurr : τ.nextSurr = σ.nextSurr) (c : SockId) :
    τ.pollers c + (if (σ.surrs s).client = some c then 1 else 0) =
      σ.pollers c + if v = some c then 1 else 0 := by
  have written : (fun r => (τ.surrs r).client) =
      Function.update (fun r => (σ.surrs r).client) s v := by
    funext r
    rw [client, Function.update_apply]
  rw [pollers, pollers, written, nextSurr]
  exact pointersTo_update σ.nextSurr (fun r => (σ.surrs r).client) c s inside v

/-- One socket's pointer is written. -/
theorem linkers_write {σ τ : Http} {c : SockId} {v : Option SurrId} (inside : c < σ.nextSock)
    (client : ∀ d, (τ.socks d).client = if d = c then v else (σ.socks d).client)
    (nextSock : τ.nextSock = σ.nextSock) (s : SurrId) :
    τ.linkers s + (if (σ.socks c).client = some s then 1 else 0) =
      σ.linkers s + if v = some s then 1 else 0 := by
  have written : (fun d => (τ.socks d).client) =
      Function.update (fun d => (σ.socks d).client) c v := by
    funext d
    rw [client, Function.update_apply]
  rw [linkers, linkers, written, nextSock]
  exact pointersTo_update σ.nextSock (fun d => (σ.socks d).client) s c inside v

/-- Whoever is linked or polls exists. -/
theorem Known.inside {σ : Http} (known : Known σ) :
    (∀ {s : SurrId} {c : SockId}, (σ.surrs s).client = some c → s < σ.nextSurr) ∧
      ∀ {c : SockId} {s : SurrId}, (σ.socks c).client = some s → c < σ.nextSock := by
  constructor
  · intro s c polls
    by_contra beyond
    rw [known.surrs s (Nat.le_of_not_lt beyond)] at polls
    cases polls
  · intro c s linked
    by_contra beyond
    rw [known.socks c (Nat.le_of_not_lt beyond)] at linked
    cases linked

namespace Balanced

variable {σ : Http} {held : List SockId}

/-- Nothing that is counted has changed. -/
theorem same (balanced : Balanced σ held) {τ : Http} (nextSock : τ.nextSock = σ.nextSock)
    (nextSurr : τ.nextSurr = σ.nextSurr)
    (socks : ∀ c, (τ.socks c).client = (σ.socks c).client ∧ (τ.socks c).refs = (σ.socks c).refs)
    (surrs : ∀ s, (τ.surrs s).client = (σ.surrs s).client ∧ (τ.surrs s).refs = (σ.surrs s).refs) :
    Balanced τ held := by
  constructor
  · intro c
    rw [pollers_congr (fun s => (surrs s).1) nextSurr, (socks c).2, balanced.socks c]
  · intro s
    rw [linkers_congr (fun c => (socks c).1) nextSock, (surrs s).2, balanced.surrs s]

theorem setSock (balanced : Balanced σ held) (c : SockId) (f : Socket → Socket)
    (client : (f (σ.socks c)).client = (σ.socks c).client)
    (refs : (f (σ.socks c)).refs = (σ.socks c).refs) : Balanced (σ.setSock c f) held := by
  refine balanced.same (τ := σ.setSock c f) rfl rfl ?_ fun _ => ⟨rfl, rfl⟩
  intro d
  rw [socks_setSock]
  split
  next here =>
    subst here
    exact ⟨client, refs⟩
  next => exact ⟨rfl, rfl⟩

theorem setSurr (balanced : Balanced σ held) (s : SurrId) (f : Surrogate → Surrogate)
    (client : (f (σ.surrs s)).client = (σ.surrs s).client)
    (refs : (f (σ.surrs s)).refs = (σ.surrs s).refs) : Balanced (σ.setSurr s f) held := by
  refine balanced.same (τ := σ.setSurr s f) rfl rfl (fun _ => ⟨rfl, rfl⟩) ?_
  intro r
  rw [surrs_setSurr]
  split
  next here =>
    subst here
    exact ⟨client, refs⟩
  next => exact ⟨rfl, rfl⟩

/-- References to one socket are taken or given back. -/
theorem recount (balanced : Balanced σ held) {left : List SockId} (c : SockId)
    (f : Socket → Socket) (client : (f (σ.socks c)).client = (σ.socks c).client)
    (refs : (f (σ.socks c)).refs + held.count c = (σ.socks c).refs + left.count c)
    (others : ∀ d, d ≠ c → left.count d = held.count d) : Balanced (σ.setSock c f) left := by
  constructor
  · intro d
    have before := balanced.socks d
    show _ = (σ.pollers d : Int) + (left.count d : Int)
    rw [socks_setSock]
    -- only the count of `c` changes, with what is held of it
    split
    next here =>
      subst here
      omega
    next other => rw [before, others d other]
  · intro s
    -- nobody points elsewhere
    have kept : ∀ d, ((σ.setSock c f).socks d).client = (σ.socks d).client := by
      intro d
      rw [socks_setSock]
      split
      next here =>
        subst here
        exact client
      next => rfl
    rw [linkers_congr kept rfl]
    exact balanced.surrs s

/-- A surrogate's pointer to its poller is given up; its reference is held. -/
theorem yield (balanced : Balanced σ held) (known : Known σ) (s : SurrId)
    (f : Surrogate → Surrogate) (client : (f (σ.surrs s)).client = none)
    (refs : (f (σ.surrs s)).refs = (σ.surrs s).refs) :
    Balanced (σ.setSurr s f) ((σ.surrs s).client.toList ++ held) := by
  cases polls : (σ.surrs s).client with
  | none => exact balanced.setSurr s f (client.trans polls.symm) refs
  | some p =>
    -- one pointer less, to `p`
    have written : ∀ r, ((σ.setSurr s f).surrs r).client =
        if r = s then none else (σ.surrs r).client := by
      intro r
      rw [surrs_setSurr]
      split
      next => exact client
      next => rfl
    constructor
    · intro c
      -- the poller it pointed to is counted once less, and held instead
      have count := pollers_write (τ := σ.setSurr s f) (known.inside.1 polls) written rfl c
      have before := balanced.socks c
      rw [polls] at count
      simp only [Option.toList_some, List.singleton_append, List.count_cons, beq_iff_eq,
        Option.some.injEq] at count ⊢
      show (σ.socks c).refs = _
      rw [before]
      simp only [reduceCtorEq, if_false, Nat.add_zero] at count
      omega
    · intro r
      have before : (σ.surrs r).refs = (σ.setSurr s f).linkers r := balanced.surrs r
      rw [surrs_setSurr]
      split
      next here =>
        subst here
        exact refs.trans before
      next => exact before

/-- A socket's link is written; the surrogate's count follows it. -/
theorem relink (balanced : Balanced σ held) {c : SockId} {s : SurrId} (inside : c < σ.nextSock)
    (f : Socket → Socket) (g : Surrogate → Surrogate)
    (kept : (f (σ.socks c)).refs = (σ.socks c).refs)
    (client : (g (σ.surrs s)).client = (σ.surrs s).client)
    (refs : ∀ r, ((σ.setSurr s g).surrs r).refs +
        (if (σ.socks c).client = some r then 1 else 0) =
      (σ.surrs r).refs + if (f (σ.socks c)).client = some r then 1 else 0) :
    Balanced ((σ.setSock c f).setSurr s g) held := by
  have links : ∀ d, (((σ.setSock c f).setSurr s g).socks d).client =
      if d = c then (f (σ.socks c)).client else (σ.socks d).client := by
    intro d
    rw [socks_setSurr, socks_setSock]
    split
    next => rfl
    next => rfl
  have polls : ∀ r, (((σ.setSock c f).setSurr s g).surrs r).client = (σ.surrs r).client := by
    intro r
    rw [surrs_setSurr, surrs_setSock]
    split
    next here => rw [here, client]
    next => rfl
  constructor
  · intro d
    rw [pollers_congr polls rfl, ← balanced.socks d, socks_setSurr, socks_setSock]
    split
    next here => rw [here, kept]
    next => rfl
  · intro r
    have before := balanced.surrs r
    have moved := refs r
    have count : (((σ.setSock c f).setSurr s g).linkers r : Int) +
        (if (σ.socks c).client = some r then 1 else 0) =
          σ.linkers r + if (f (σ.socks c)).client = some r then 1 else 0 := by
      exact_mod_cast linkers_write inside links rfl r
    show ((σ.setSurr s g).surrs r).refs = _
    omega

/-- A surrogate takes a poller, which it refers to. -/
theorem attach (balanced : Balanced σ held) {s : SurrId} (there : s < σ.nextSurr)
    (vacant : (σ.surrs s).client = none) (c : SockId) :
    Balanced (σ.setPoller s (some c)) held := by
  have polls : ∀ r, ((σ.setPoller s (some c)).surrs r).client =
      if r = s then some c else (σ.surrs r).client := by
    intro r
    show ((σ.setSurr s fun q => { q with client := some c }).surrs r).client = _
    rw [surrs_setSurr]
    split
    next => rfl
    next => rfl
  constructor
  · intro d
    have before := balanced.socks d
    have count := pollers_write there polls rfl d
    rw [vacant] at count
    simp only [reduceCtorEq, if_false, Option.some.injEq] at count
    show (((σ.setSurr s fun q => { q with client := some c }).refSock c).socks d).refs = _
    simp only [refSock, socks_setSock, socks_setSurr]
    split
    next here =>
      subst here
      simp only [if_true] at count
      show (σ.socks d).refs + 1 = _
      omega
    next other =>
      rw [if_neg fun same => other same.symm] at count
      omega
  · intro r
    have before : (σ.surrs r).refs = (σ.setPoller s (some c)).linkers r := by
      have links : ∀ d, ((σ.setPoller s (some c)).socks d).client = (σ.socks d).client := by
        intro d
        show (((σ.setSurr s fun q => { q with client := some c }).refSock c).socks d).client = _
        simp only [refSock, socks_setSock, socks_setSurr]
        split
        next here => rw [here]
        next => rfl
      rw [linkers_congr links rfl, balanced.surrs r]
    rw [← before]
    show ((σ.setSurr s fun q => { q with client := some c }).surrs r).refs = _
    rw [surrs_setSurr]
    split
    next here => rw [here]
    next => rfl

/-- A new surrogate has no poller, and nobody is linked to it yet. -/
theorem created (balanced : Balanced σ held) (known : Known σ) (tied : Tied σ) (sid : Nat) :
    Balanced (σ.surrNew sid) held := by
  have blank : (σ.surrs σ.nextSurr).client = none := known.surrs σ.nextSurr (Nat.le_refl _)
  have clients : (fun s => ((σ.surrNew sid).surrs s).client) =
      Function.update (fun s => (σ.surrs s).client) σ.nextSurr none := by
    funext s
    rw [surrNew_client, Function.update_apply]
  constructor
  · intro c
    have before := balanced.socks c
    rw [pollers, clients]
    show (σ.socks c).refs = pointersTo (σ.nextSurr + 1) _ c + held.count c
    rw [pointersTo_succ, pointersTo_update_ge _ _ _ _ (Nat.le_refl _), Function.update_self,
      before, pollers]
    simp
  · intro s
    have before : (σ.surrs s).refs = (σ.surrNew sid).linkers s := balanced.surrs s
    by_cases new : s = σ.nextSurr
    · have unknown : (σ.surrNew sid).linkers σ.nextSurr = 0 := by
        apply pointersTo_eq_zero
        intro c _ link
        exact absurd (tied.linked c σ.nextSurr link).2.2.2 (Nat.lt_irrefl _)
      rw [new, surrs_surrNew_self, unknown]
      rfl
    · rw [surrs_surrNew σ sid s new]
      exact before

theorem respond (balanced : Balanced σ held) (known : Known σ) (c : SockId) (resp : Response) :
    Balanced (σ.sendResponse (some c) resp).1 held := by
  have done := sendResponse_responded σ c resp
  have rest := sendResponse_released σ c resp
  have nextSock := rest.rest.1
  generalize (σ.sendResponse (some c) resp).1 = τ at done rest nextSock ⊢
  have unlinked : ∀ d, (τ.socks d).client = if d = c then none else (σ.socks d).client := by
    intro d
    split
    next here =>
      subst here
      exact done.answered.1
    next other => rw [done.others d other]
  cases linked : (σ.socks c).client with
  | none =>
    refine balanced.same nextSock done.nextSurr ?_ ?_
    · intro d
      refine ⟨?_, by simpa [linked] using rest.sockRefs d⟩
      rw [unlinked d]
      split
      next here => rw [here, linked]
      next => rfl
    · intro r
      exact ⟨by rw [done.away r (by simp [linked])], by simpa [linked] using rest.surrRefs r⟩
  | some s =>
    constructor
    · intro d
      have before := balanced.socks d
      rw [rest.sockRefs d]
      by_cases back : (σ.surrs s).client = some c
      · -- the surrogate's pointer goes, and the reference with it
        have released : ∀ r, (τ.surrs r).client = if r = s then none else (σ.surrs r).client := by
          intro r
          split
          next here => rw [here, done.released s linked, if_pos back]
          next other =>
            rw [done.away r]
            rw [linked]
            exact fun same => other (Option.some.inj same).symm
        have count := pollers_write (known.inside.1 back) released done.nextSurr d
        simp only [back, linked, Option.some.injEq, reduceCtorEq, if_false] at count ⊢
        by_cases here : d = c
        · subst here
          simp only [if_true] at count
          rw [if_pos ⟨rfl, s, linked, back⟩]
          omega
        · have other : ¬ c = d := fun same => here same.symm
          rw [if_neg fun both => here both.1]
          simp only [other, if_false] at count
          omega
      · have kept : ∀ r, (τ.surrs r).client = (σ.surrs r).client := by
          intro r
          by_cases here : r = s
          · rw [here, done.released s linked, if_neg back]
          · rw [done.away r]
            rw [linked]
            exact fun same => here (Option.some.inj same).symm
        have none : ¬(d = c ∧ ∃ r, (σ.socks c).client = some r ∧ (σ.surrs r).client = some c) := by
          rintro ⟨-, r, link, polls⟩
          obtain rfl : s = r := Option.some.inj (linked.symm.trans link)
          exact back polls
        rw [if_neg none, pollers_congr kept done.nextSurr, Int.sub_zero]
        exact before
    · intro r
      have before := balanced.surrs r
      have count := linkers_write (known.inside.2 linked) unlinked nextSock r
      rw [rest.surrRefs r]
      simp only [linked, Option.some.injEq, reduceCtorEq, if_false] at count ⊢
      split
      next here =>
        simp only [here, if_true] at count
        rw [← here] at count before ⊢
        omega
      next other =>
        simp only [other, if_false] at count
        omega

end Balanced

theorem Move.balanced {P : SockId → Prop} {σ τ : Http} {held left : List SockId}
    (move : Move P (σ, held) (τ, left)) (known : Known σ) (tied : Tied σ)
    (balanced : Balanced σ held) : Balanced τ left := by
  cases move with
  | log τ socks surrs nextSock nextSurr sent aborted clients =>
    exact balanced.same nextSock nextSurr (fun c => by rw [socks]; exact ⟨rfl, rfl⟩)
      fun s => by rw [surrs]; exact ⟨rfl, rfl⟩
  | opened =>
    refine ⟨balanced.socks, ?_⟩
    intro s
    rw [linkers, pointersTo_succ, known.socks σ.nextSock (Nat.le_refl _)]
    exact balanced.surrs s
  | closing c reason => exact balanced.setSock c _ rfl rfl
  | keep c f mine request refs => exact balanced.setSock c f request.1 refs
  | own c f mine alone client refs closed linked => exact balanced.setSock c f client refs
  | shut c unlinked => exact balanced.setSock c _ rfl rfl
  | surr s f client refs closed closing => exact balanced.setSurr s f client refs
  | created sid => exact balanced.created known tied sid
  | retire s closing => exact balanced.yield known s _ rfl rfl
  | respond c resp mine => exact balanced.respond known c resp
  | take s => exact balanced.yield known s (fun r => { r with client := none }) rfl rfl
  | attach s c mine vacant open_ linked ready =>
    exact balanced.attach (tied.linked c s linked).2.2.2 vacant c
  | release c mine =>
    apply balanced.recount c (fun k => { k with refs := k.refs - 1 }) rfl
    · have one := List.count_pos_iff.mpr mine
      have enough := balanced.socks c
      rw [List.count_erase_self]
      dsimp only
      omega
    · intro d other
      rw [List.count_erase_of_ne other]
  | link c s mine unlinked owes closed upgraded inside there =>
    -- one link more, one reference more
    apply balanced.relink inside (fun k => { k with client := some s })
      (fun r => { r with refs := r.refs + 1 }) rfl rfl
    intro r
    rw [surrs_setSurr, unlinked]
    split
    next here => simp [here]
    next other => simp [Ne.symm other]
  | unlink c s mine linked closing =>
    apply balanced.relink (known.inside.2 linked) (fun k => { k with client := none, closed := true })
      (fun r => { r with refs := r.refs - 1 }) rfl rfl
    intro r
    rw [surrs_setSurr, linked]
    split
    next here => simp [here]
    next other => simp [Ne.symm other]

theorem Move.linked {P : SockId → Prop} {σ τ : Http} {held left : List SockId}
    (move : Move P (σ, held) (τ, left)) (linked : Linked σ held) : Linked τ left where
  known := move.known linked.known linked.tied
  tied := move.tied linked.tied
  balanced := move.balanced linked.known linked.tied linked.balanced

theorem Moves.linked {P : SockId → Prop} {a b : Http × List SockId} (moves : Moves P a b)
    (linked : Linked a.1 a.2) : Linked b.1 b.2 := by
  induction moves with
  | refl => exact linked
  | tail _ move before => exact move.linked before

end Http

end QuickIO
