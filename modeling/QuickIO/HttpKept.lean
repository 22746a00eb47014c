import QuickIO.HttpStable
import QuickIO.HttpTimes

/-!
# What is kept of a socket

While requests are routed, a socket that is kept alive stays open, unless a
handler closes it.
-/
namespace QuickIO

open Lib

/-- The socket is open, and a response that it owes will not close it. -/
def Socket.Lasting (k : Socket) : Prop :=
  k.closing = none ∧ (k.inRequest = true → k.keepAlive = true)

/-- What is kept of a socket when it may have been answered. -/
structure Socket.Kept (k k' : Socket) : Prop where
  bodyLen : k'.bodyLen = k.bodyLen
  lasting : k.Lasting → k'.Lasting

theorem Socket.Kept.refl (k : Socket) : k.Kept k := ⟨rfl, id⟩

theorem Socket.Kept.trans {k k' k'' : Socket} (first : k.Kept k') (second : k'.Kept k'') :
    k.Kept k'' :=
  ⟨second.bodyLen.trans first.bodyLen, fun lasting => second.lasting (first.lasting lasting)⟩

theorem Socket.kept_answered (k : Socket) (now : Int) (owes : k.inRequest = true) :
    k.Kept (k.answered now) := by
  refine ⟨rfl, fun lasting => ⟨?_, by rintro ⟨⟩⟩⟩
  simp only [Socket.answered, lasting.2 owes, if_true, lasting.1]

namespace Http

/-- What is kept of a socket from one state to another. -/
def Keeps (c : SockId) (σ τ : Http) : Prop := (σ.socks c).Kept (τ.socks c)

namespace Keeps

variable {c : SockId} {σ τ υ : Http}

theorem refl (σ : Http) : Keeps c σ σ := Socket.Kept.refl _

theorem trans (first : Keeps c σ τ) (second : Keeps c τ υ) : Keeps c σ υ :=
  Socket.Kept.trans first second

/-- A change that is no change to the socket. -/
theorem same (socks : τ.socks = σ.socks) : Keeps c σ τ := by
  rw [Keeps, socks]
  exact Socket.Kept.refl _

theorem write (d : SockId) (f : Socket → Socket) (kept : ∀ k : Socket, k.Kept (f k)) :
    Keeps c σ (σ.setSock d f) := by
  rw [Keeps, socks_setSock]
  split
  next here =>
    rw [here]
    exact kept _
  next => exact Socket.Kept.refl _

theorem unrefSock (d : SockId) : Keeps c σ (σ.unrefSock d) := write d _ fun _ => ⟨rfl, id⟩

theorem surrReleaseClient (surrogate : Option SurrId) (d : SockId) :
    Keeps c σ (σ.surrReleaseClient surrogate d) := by
  cases surrogate with
  | none => exact refl σ
  | some s =>
    simp only [Http.surrReleaseClient]
    split
    next => exact (same rfl : Keeps c σ (σ.setSurr s _)).trans (unrefSock d)
    next => exact refl σ

theorem answer (d : SockId) (owes : (σ.socks d).inRequest = true) (surrogate : Option SurrId)
    (resp : Response) : Keeps c σ (σ.answer d surrogate resp) := by
  rw [Keeps, answer_socks]
  split
  next here =>
    rw [here]
    exact (σ.socks d).kept_answered σ.now owes
  next => exact Socket.Kept.refl _

theorem sendResponse (client : Option SockId) (resp : Response) :
    Keeps c σ (σ.sendResponse client resp).1 := by
  cases client with
  | none => exact refl σ
  | some d =>
    have stolen : Keeps c σ (σ.setSock d fun k => { k with client := none }) :=
      write d _ fun _ => ⟨rfl, id⟩
    simp only [Http.sendResponse]
    generalize (σ.setSock d fun k => { k with client := none }) = τ at stolen ⊢
    have replied : Keeps c σ
        (if (τ.socks d).inRequest then τ.answer d (σ.socks d).client resp else τ) := by
      split
      next owes => exact stolen.trans (answer d owes _ resp)
      next => exact stolen
    have released := replied.trans (surrReleaseClient (σ.socks d).client d)
    split
    next => exact released
    next s _ => exact released.trans (same rfl)

/-- What is kept is stable, unless the socket is closed. -/
theorem stable (env : HttpEnv) : Stable env (fun _ => True) (· ≠ c) (Keeps c σ) where
  respond d resp _ kept := kept.trans (sendResponse (some d) resp)
  sock d f aside kept := by
    refine kept.trans (write d f fun k => ?_)
    obtain ⟨owes, -, keeps, bodyLen, closing, -⟩ := aside k
    refine ⟨bodyLen, ?_⟩
    rw [Socket.Lasting, Socket.Lasting, owes, keeps, closing]
    exact id
  surr _ _ _ kept := kept.trans (same rfl)
  give _ _ kept := kept.trans (same rfl)
  keep _ _ kept := kept.trans (same rfl)
  flush _ kept := kept.trans (same rfl)
  created _ kept := kept.trans (same rfl)
  close d reason other kept := by
    refine kept.trans ?_
    rw [Keeps, closeSock, socks_setSock, if_neg (Ne.symm other)]
    exact Socket.Kept.refl _
  aborts _ kept := kept.trans (same rfl)
  clients _ kept := kept.trans (same rfl)
  held _ _ := trivial
  status _ := trivial
  iframe := trivial
  frame _ := trivial

end Keeps

/-- No handler closes the socket. -/
def Spare (c : SockId) (turns : List Turn) : Prop :=
  ∀ turn ∈ turns, ∀ reason, .closeSock c reason ∉ turn.acts

end Http

end QuickIO
