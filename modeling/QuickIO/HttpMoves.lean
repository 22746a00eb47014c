import Mathlib.Logic.Relation
import QuickIO.HttpResponses
import QuickIO.Lib.Pointers

/-!
# The moves of the HTTP machine

Every step is a sequence of a few moves: a response, a poller taken, put in
place or released, a link made or undone, and changes that concern no other
client. A move lists the references the running function has taken from a
surrogate and not given back. What all moves preserve, all steps preserve;
which sockets a step can answer is part of the move.
-/
namespace QuickIO

open Lib

namespace Http

/-! ### The references of `_send_response` -/

/-- What `_send_response` does to the references, and what it leaves alone. -/
structure Released (σ τ : Http) (c : SockId) : Prop where
  sockRefs : ∀ d, (τ.socks d).refs = (σ.socks d).refs -
    if d = c ∧ ∃ s, (σ.socks c).client = some s ∧ (σ.surrs s).client = some c then 1 else 0
  surrRefs : ∀ s, (τ.surrs s).refs = (σ.surrs s).refs -
    if (σ.socks c).client = some s then 1 else 0
  retired : ∀ s, (τ.surrs s).closed = (σ.surrs s).closed
  rest : τ.nextSock = σ.nextSock ∧ τ.aborted = σ.aborted ∧ τ.handled = σ.handled

/-- The link is stolen and the response written: no reference changes. -/
theorem replied_released (σ : Http) (c : SockId) (resp : Response) (τ : Http)
    (first : τ = if (σ.socks c).inRequest then
        (σ.setSock c fun k => { k with client := none }).answer c (σ.socks c).client resp
      else σ.setSock c fun k => { k with client := none }) :
    (∀ d, (τ.socks d).refs = (σ.socks d).refs) ∧
      (∀ s, (τ.surrs s).refs = (σ.surrs s).refs ∧ (τ.surrs s).closed = (σ.surrs s).closed ∧
        (τ.surrs s).client = (σ.surrs s).client) ∧
      τ.nextSock = σ.nextSock ∧ τ.aborted = σ.aborted ∧ τ.handled = σ.handled := by
  -- giving up the session pointer changes no count
  have stolen : ∀ d, ((σ.setSock c fun k => { k with client := none }).socks d).refs =
      (σ.socks d).refs := by
    intro d
    rw [socks_setSock]
    split
    next here => rw [here]
    next => rfl
  -- answering changes none either
  split at first
  next =>
    subst first
    refine ⟨?_, ?_, ?_⟩
    · intro d
      rw [answer_socks, ← stolen d]
      split
      next here =>
        rw [here]
        rfl
      next => rfl
    · intro s
      rw [answer_surrs]
      split
      next => exact ⟨rfl, rfl, rfl⟩
      next => exact ⟨rfl, rfl, rfl⟩
    · cases (σ.socks c).client with
      | none => exact ⟨rfl, rfl, rfl⟩
      | some s => exact ⟨rfl, rfl, rfl⟩
  next =>
    subst first
    exact ⟨stolen, fun _ => ⟨rfl, rfl, rfl⟩, rfl, rfl, rfl⟩

theorem sendResponse_released (σ : Http) (c : SockId) (resp : Response) :
    Released σ (σ.sendResponse (some c) resp).1 c := by
  obtain ⟨τ, first⟩ : ∃ τ : Http, τ = if (σ.socks c).inRequest then
        (σ.setSock c fun k => { k with client := none }).answer c (σ.socks c).client resp
      else σ.setSock c fun k => { k with client := none } := ⟨_, rfl⟩
  obtain ⟨sockRefs, surrs, rest⟩ := replied_released σ c resp τ first
  cases linked : (σ.socks c).client with
  | none =>
    have result : (σ.sendResponse (some c) resp).1 = τ := by
      simp [sendResponse, surrReleaseClient, first, linked]
    rw [result]
    constructor
    · intro d
      simp [linked, sockRefs d]
    · intro s
      simp [linked, (surrs s).1]
    · exact fun s => (surrs s).2.1
    · exact rest
  | some s =>
    have result : (σ.sendResponse (some c) resp).1 =
        (τ.surrReleaseClient (some s) c).unrefSurr s := by
      simp [sendResponse, first, linked]
    have polls := (surrs s).2.2
    rw [result]
    by_cases back : (σ.surrs s).client = some c
    · -- the surrogate lets go of the socket
      have released : τ.surrReleaseClient (some s) c =
          (τ.setSurr s fun r => { r with client := none }).unrefSock c := by
        simp [surrReleaseClient, polls, back]
      rw [released]
      constructor
      · intro d
        by_cases here : d = c
        · subst here
          simp [unrefSurr, unrefSock, linked, back, sockRefs d]
        · simp [unrefSurr, unrefSock, here, sockRefs d]
      · intro r
        by_cases same : r = s
        · subst same
          simp [unrefSurr, unrefSock, linked, (surrs r).1]
        · have other : ¬ s = r := fun eq => same eq.symm
          simp [unrefSurr, unrefSock, linked, same, other, (surrs r).1]
      · intro r
        rw [← (surrs r).2.1]
        by_cases same : r = s
        · subst same
          simp [unrefSurr, unrefSock]
        · simp [unrefSurr, unrefSock, same]
      · exact rest
    · have kept : τ.surrReleaseClient (some s) c = τ := by
        simp [surrReleaseClient, polls, back]
      rw [kept]
      constructor
      · intro d
        simp [unrefSurr, linked, back, sockRefs d]
      · intro r
        by_cases same : r = s
        · subst same
          simp [unrefSurr, linked, (surrs r).1]
        · have other : ¬ s = r := fun eq => same eq.symm
          simp [unrefSurr, linked, same, other, (surrs r).1]
      · intro r
        rw [← (surrs r).2.1]
        by_cases same : r = s
        · subst same
          simp [unrefSurr]
        · simp [unrefSurr, same]
      · exact rest

/-! ### Moves -/

/-- The socket is the poller of some surrogate. -/
def Polled (σ : Http) (c : SockId) : Prop := ∃ s, (σ.surrs s).client = some c

/-- One move, with the references to sockets that are held before and after it.
Only sockets in `P` are answered or become pollers. -/
inductive Move (P : SockId → Prop) : Http × List SockId → Http × List SockId → Prop where
  | log {σ held} (τ : Http) (socks : τ.socks = σ.socks) (surrs : τ.surrs = σ.surrs)
      (nextSock : τ.nextSock = σ.nextSock) (nextSurr : τ.nextSurr = σ.nextSurr)
      (sent : τ.sent = σ.sent) (aborted : τ.aborted = σ.aborted)
      (clients : ∀ b sid s, τ.clients b sid = some s → σ.clients b sid = some s) :
      Move P (σ, held) (τ, held)
  | opened {σ held} : Move P (σ, held) ({ σ with nextSock := σ.nextSock + 1 }, held)
  | closing {σ held} (c : SockId) (reason : CloseReason) :
      Move P (σ, held) (σ.closeSock c reason, held)
  | keep {σ held} (c : SockId) (f : Socket → Socket) (mine : P c)
      (request : (σ.socks c).SameRequest (f (σ.socks c)))
      (refs : (f (σ.socks c)).refs = (σ.socks c).refs) : Move P (σ, held) (σ.setSock c f, held)
  | own {σ held} (c : SockId) (f : Socket → Socket) (mine : P c) (alone : ¬σ.Polled c)
      (client : (f (σ.socks c)).client = (σ.socks c).client)
      (refs : (f (σ.socks c)).refs = (σ.socks c).refs)
      (closed : (f (σ.socks c)).closed = (σ.socks c).closed)
      (linked : (σ.socks c).client ≠ none →
        (f (σ.socks c)).inRequest = (σ.socks c).inRequest ∧
          (f (σ.socks c)).upgraded = (σ.socks c).upgraded) :
      Move P (σ, held) (σ.setSock c f, held)
  | shut {σ held} (c : SockId) (unlinked : (σ.socks c).client = none) :
      Move P (σ, held) (σ.setSock c fun k => { k with closed := true }, held)
  | surr {σ held} (s : SurrId) (f : Surrogate → Surrogate)
      (client : (f (σ.surrs s)).client = (σ.surrs s).client)
      (refs : (f (σ.surrs s)).refs = (σ.surrs s).refs)
      (closed : (f (σ.surrs s)).closed = (σ.surrs s).closed)
      (closing : (σ.surrs s).closing ≠ none → (f (σ.surrs s)).closing ≠ none) :
      Move P (σ, held) (σ.setSurr s f, held)
  | created {σ held} (sid : Nat) : Move P (σ, held) (σ.surrNew sid, held)
  | retire {σ held} (s : SurrId) (closing : (σ.surrs s).closing ≠ none) :
      Move P (σ, held) (σ.setSurr s fun r => { r with closed := true, client := none },
        (σ.surrs s).client.toList ++ held)
  | respond {σ held} (c : SockId) (resp : Response) (mine : P c) :
      Move P (σ, held) ((σ.sendResponse (some c) resp).1, held)
  | take {σ held} (s : SurrId) :
      Move P (σ, held) (σ.setPoller s none, (σ.surrs s).client.toList ++ held)
  | attach {σ held} (s : SurrId) (c : SockId) (mine : P c) (vacant : (σ.surrs s).client = none)
      (open_ : (σ.surrs s).closing = none) (linked : (σ.socks c).client = some s)
      (ready : (σ.socks c).inBody = false) : Move P (σ, held) (σ.setPoller s (some c), held)
  | release {σ held} (c : SockId) (mine : c ∈ held) :
      Move P (σ, held) (σ.unrefSock c, held.erase c)
  | link {σ held} (c : SockId) (s : SurrId) (mine : P c) (unlinked : (σ.socks c).client = none)
      (owes : (σ.socks c).inRequest = true) (closed : (σ.socks c).closed = false)
      (upgraded : (σ.socks c).upgraded = false) (known : c < σ.nextSock) (there : s < σ.nextSurr) :
      Move P (σ, held) ((σ.setSock c fun k => { k with client := some s }).refSurr s, held)
  | unlink {σ held} (c : SockId) (s : SurrId) (mine : P c) (linked : (σ.socks c).client = some s)
      (closing : (σ.surrs s).closing ≠ none) :
      Move P (σ, held)
        ((σ.unrefSurr s).setSock c fun k => { k with client := none, closed := true }, held)

/-- Any number of moves. -/
abbrev Moves (P : SockId → Prop) := Relation.ReflTransGen (Move P)

/-- What moves leave alone: the requests of other sockets, and who can be
answered or become a poller. -/
structure Frame (P : SockId → Prop) (σ τ : Http) : Prop where
  socks : ∀ c, ¬P c → (τ.socks c).client = (σ.socks c).client ∧
    (τ.socks c).inRequest = (σ.socks c).inRequest ∧ (τ.socks c).inBody = (σ.socks c).inBody ∧
    (τ.socks c).upgraded = (σ.socks c).upgraded ∧ (τ.socks c).requests = (σ.socks c).requests ∧
    (τ.socks c).isPost = (σ.socks c).isPost ∧
    (τ.socks c).iframeRequested = (σ.socks c).iframeRequested
  polled : ∀ s c, (τ.surrs s).client = some c → (σ.surrs s).client = some c ∨ P c
  sent : ∃ es, τ.sent = σ.sent ++ es ∧ ∀ e ∈ es, P e.sock
  aborted : τ.aborted = σ.aborted

namespace Frame

variable {P : SockId → Prop} {σ τ υ : Http}

theorem refl (σ : Http) : Frame P σ σ where
  socks _ _ := ⟨rfl, rfl, rfl, rfl, rfl, rfl, rfl⟩
  polled _ _ := Or.inl
  sent := ⟨[], by simp, by simp⟩
  aborted := rfl

theorem trans (first : Frame P σ τ) (second : Frame P τ υ) : Frame P σ υ := by
  constructor
  · intro c other
    obtain ⟨h1, h2, h3, h4, h5, h6, h7⟩ := first.socks c other
    obtain ⟨g1, g2, g3, g4, g5, g6, g7⟩ := second.socks c other
    exact ⟨g1.trans h1, g2.trans h2, g3.trans h3, g4.trans h4, g5.trans h5, g6.trans h6,
      g7.trans h7⟩
  · intro s c polls
    rcases second.polled s c polls with before | mine
    · exact first.polled s c before
    · exact Or.inr mine
  · obtain ⟨es, first, mine⟩ := first.sent
    obtain ⟨fs, second, also⟩ := second.sent
    refine ⟨es ++ fs, by rw [second, first, List.append_assoc], ?_⟩
    intro e member
    rcases List.mem_append.mp member with earlier | later
    · exact mine e earlier
    · exact also e later
  · exact second.aborted.trans first.aborted

/-- A change to one socket. -/
theorem setSock (c : SockId) (f : Socket → Socket)
    (mine : P c ∨ ((f (σ.socks c)).client = (σ.socks c).client ∧
      (f (σ.socks c)).inRequest = (σ.socks c).inRequest ∧
      (f (σ.socks c)).inBody = (σ.socks c).inBody ∧
      (f (σ.socks c)).upgraded = (σ.socks c).upgraded ∧
      (f (σ.socks c)).requests = (σ.socks c).requests ∧
      (f (σ.socks c)).isPost = (σ.socks c).isPost ∧
      (f (σ.socks c)).iframeRequested = (σ.socks c).iframeRequested)) :
    Frame P σ (σ.setSock c f) := by
  constructor
  · intro d other
    rw [socks_setSock]
    split
    next here =>
      subst here
      exact mine.resolve_left other
    next => exact ⟨rfl, rfl, rfl, rfl, rfl, rfl, rfl⟩
  · exact fun _ _ => Or.inl
  · exact (refl σ).sent
  · rfl

/-- A change to one surrogate: a new poller has to be in `P`. -/
theorem setSurr (s : SurrId) (f : Surrogate → Surrogate)
    (mine : ∀ c, (f (σ.surrs s)).client = some c → (σ.surrs s).client = some c ∨ P c) :
    Frame P σ (σ.setSurr s f) := by
  constructor
  · exact fun _ _ => ⟨rfl, rfl, rfl, rfl, rfl, rfl, rfl⟩
  · intro r c polls
    rw [surrs_setSurr] at polls
    split at polls
    next here =>
      subst here
      exact mine c polls
    next => exact Or.inl polls
  · exact (refl σ).sent
  · rfl

theorem respond (c : SockId) (resp : Response) (mine : P c) :
    Frame P σ (σ.sendResponse (some c) resp).1 := by
  have done := sendResponse_responded σ c resp
  constructor
  · intro d other
    -- a socket outside the frame is not the one answered
    have elsewhere : d ≠ c := by
      rintro rfl
      exact other mine
    rw [done.others d elsewhere]
    exact ⟨rfl, rfl, rfl, rfl, rfl, rfl, rfl⟩
  · intro s d polls
    left
    -- a session that loses its poller polls through nobody
    by_cases linked : (σ.socks c).client = some s
    · rw [done.released s linked] at polls
      split at polls
      next => cases polls
      next => exact polls
    · rwa [done.away s linked] at polls
  · refine ⟨_, done.sent, ?_⟩
    intro e member
    split at member
    -- the response that was sent is for `c`
    next =>
      rw [List.mem_singleton.mp member]
      exact mine
    next => cases member
  · exact (sendResponse_released σ c resp).rest.2.1

end Frame

/-- A session that is created has no poller. -/
theorem surrNew_client (σ : Http) (sid : Nat) (s : SurrId) :
    ((σ.surrNew sid).surrs s).client = if s = σ.nextSurr then none else (σ.surrs s).client := by
  simp only [surrNew, Function.update_apply]
  split
  next => rfl
  next => rfl

theorem Move.frame {P : SockId → Prop} {σ τ : Http} {held left : List SockId}
    (move : Move P (σ, held) (τ, left)) : Frame P σ τ := by
  cases move with
  | log τ socks surrs nextSock nextSurr sent aborted clients =>
    constructor
    · intro c _
      rw [socks]
      exact ⟨rfl, rfl, rfl, rfl, rfl, rfl, rfl⟩
    · intro s c polls
      rw [surrs] at polls
      exact Or.inl polls
    · exact ⟨[], by rw [sent, List.append_nil], by simp⟩
    · exact aborted
  | opened => exact ⟨(Frame.refl σ).socks, fun _ _ => Or.inl, (Frame.refl σ).sent, rfl⟩
  | closing c reason =>
    exact Frame.setSock c _ (Or.inr ⟨rfl, rfl, rfl, rfl, rfl, rfl, rfl⟩)
  | keep c f mine request refs => exact Frame.setSock c f (Or.inl mine)
  | own c f mine alone client refs closed linked => exact Frame.setSock c f (Or.inl mine)
  | shut c unlinked =>
    exact Frame.setSock c _ (Or.inr ⟨rfl, rfl, rfl, rfl, rfl, rfl, rfl⟩)
  | surr s f client refs closed closing =>
    apply Frame.setSurr
    intro c polls
    rw [client] at polls
    exact Or.inl polls
  -- a new session has no poller
  | created sid =>
    refine ⟨(Frame.refl σ).socks, ?_, (Frame.refl σ).sent, rfl⟩
    intro s c polls
    rw [surrNew_client] at polls
    split at polls
    next => cases polls
    next => exact Or.inl polls
  | retire s closing => exact Frame.setSurr s _ (by rintro c ⟨⟩)
  | respond c resp mine => exact Frame.respond c resp mine
  | take s => exact Frame.setSurr s (fun r => { r with client := none }) (by rintro c ⟨⟩)
  -- the new poller is one that may be touched
  | attach s c mine vacant open_ linked ready =>
    have attached : Frame P σ (σ.setSurr s fun r => { r with client := some c }) := by
      apply Frame.setSurr
      rintro d ⟨⟩
      exact Or.inr mine
    exact attached.trans (Frame.setSock c (fun k => { k with refs := k.refs + 1 }) (Or.inl mine))
  -- only a reference count changes
  | release c mine => exact Frame.setSock c _ (Or.inr ⟨rfl, rfl, rfl, rfl, rfl, rfl, rfl⟩)
  | link c s mine unlinked owes closed upgraded known there =>
    have linked : Frame P σ (σ.setSock c fun k => { k with client := some s }) :=
      Frame.setSock c _ (Or.inl mine)
    exact linked.trans (Frame.setSurr s _ fun _ => Or.inl)
  | unlink c s mine linked closing =>
    have released : Frame P σ (σ.unrefSurr s) := Frame.setSurr s _ fun _ => Or.inl
    exact released.trans (Frame.setSock c _ (Or.inl mine))

theorem Moves.frame {P : SockId → Prop} {a b : Http × List SockId} (moves : Moves P a b) :
    Frame P a.1 b.1 := by
  induction moves with
  | refl => exact Frame.refl a.1
  | tail _ move before => exact before.trans move.frame

end Http

end QuickIO
