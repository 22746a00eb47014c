import QuickIO.HttpEvents
import QuickIO.Lib.Strtok
import QuickIO.RoundTrip

/-!
# The transports agree

An event reaches `protocol_raw_handle` from a raw frame, from a WebSocket frame and
from a line of an HTTP body. The three take it out of the read buffer in place, each
in its own way; `transports_agree` says that the bytes it gets are the same, and which
lines of a body it gets.
-/
namespace QuickIO

open Lib Lib.WebSocket

namespace App

variable {α : Type} (app : App α)

/-- The same server, which keeps what the calls of `protocol_raw_handle` came to. -/
def recorded : App (α × List RawHandled) where
  erange s := app.erange s.1
  evsRoute s ev :=
    let (state, acts, left) := app.evsRoute s.1 ev
    ((state, s.2 ++ [.taken ev]), acts, left)
  refused s event := (app.refused s.1 event, s.2 ++ [.refused])
  httpRoute s p used :=
    match app.httpRoute s.1 p used with
    | .routed state used status closes => .routed (state, s.2) used status closes
    | .upgraded state => .upgraded (state, s.2)
  httpHeartbeat s p := app.httpHeartbeat s.1 p

/-- One turn of the loop of `_surr_route`: the line is handled, and something is left
in its bytes. -/
def visitLine (state : α) (line : Bytes) : α × Option Bytes :=
  let reaction := app.rawHandle state line
  (reaction.state, if reaction.status = .ok then some (overlay reaction.left line) else none)

/-- The loop of `_surr_route` over a body that begins at `start` in the read buffer. -/
def surrLoop (state : α) (rbuff : Bytes) (start : Nat) : α × Bool :=
  eachToken app.visitLine newline (rbuff.length + 1) state rbuff start

theorem recorded_rawHandle (s : α × List RawHandled) (event : Bytes) :
    (app.recorded.rawHandle s event).state.2 =
        s.2 ++ [protocolRawHandle (app.erange s.1) event] ∧
      (app.recorded.rawHandle s event).status =
        (protocolRawHandle (app.erange s.1) event).status := by
  simp only [App.rawHandle, recorded, protocolRawHandle]
  cases parseEvent (app.erange s.1) event with
  | none => exact ⟨rfl, rfl⟩
  | some ev => exact ⟨rfl, rfl⟩

theorem visitLine_inside (state : α) (line left : Bytes)
    (visited : (app.visitLine state line).2 = some left) : left.length ≤ line.length := by
  obtain ⟨-, ⟨⟩⟩ := Option.ite_none_right_eq_some.mp visited
  rw [overlay, List.length_take]
  omega

/-- The loop hands over the lines the body had at the beginning. -/
theorem surrLoop_eq (state : α) (before body after : Bytes) :
    app.surrLoop state (before ++ (body ++ 0 :: after)) before.length =
      visitAll app.visitLine state (Http.bodyLines body) :=
  eachToken_string (by decide) app.visitLine app.visitLine_inside state before body after

end App

/-- One turn of the loop for the sessions, with what the handlers leave in the line. -/
def Http.visitTurn (s : SurrId) (left : Bytes → Bytes) (state : Http × List Http.Turn)
    (line : Bytes) : (Http × List Http.Turn) × Option Bytes :=
  let turn := state.2.headD {}
  let σ := { state.1 with handled := state.1.handled ++ [(s, line)] }
  match parseEvent turn.erange line with
  | none => ((σ.closeSurr s .invalidEventFormat, state.2), none)
  | some _ => ((σ.acts turn.acts, state.2.tail), some (overlay (left line) line))

theorem Http.visitAll_turns (s : SurrId) (left : Bytes → Bytes) (σ : Http) (lines : List Bytes)
    (turns : List Turn) :
    Http.surrLines s σ lines turns =
      ((visitAll (Http.visitTurn s left) (σ, turns) lines).1.1,
        (visitAll (Http.visitTurn s left) (σ, turns) lines).2) := by
  induction lines generalizing σ turns with
  | nil => rfl
  | cons line lines ih =>
    simp only [Http.surrLines, visitAll, Http.visitTurn]
    cases parseEvent (turns.headD {}).erange line with
    | none => rfl
    | some ev => exact ih _ _

/-- `_surr_route` cuts the body up in place, and handles its lines. -/
theorem Http.surrLines_inPlace (s : SurrId) (left : Bytes → Bytes) (σ : Http)
    (turns : List Turn) (before body after : Bytes) :
    let rbuff := before ++ (body ++ 0 :: after)
    let looped := eachToken (Http.visitTurn s left) newline (rbuff.length + 1) (σ, turns) rbuff
      before.length
    (looped.1.1, looped.2) = Http.surrLines s σ (bodyLines body) turns := by
  have inside : ∀ state line written, (Http.visitTurn s left state line).2 = some written →
      written.length ≤ line.length := by
    intro state line written visited
    simp only [Http.visitTurn] at visited
    split at visited
    next => cases visited
    next =>
      cases visited
      rw [overlay, List.length_take]
      omega
  dsimp only
  rw [eachToken_string (by decide) (Http.visitTurn s left) inside, Http.visitAll_turns s left]
  rfl

/-! ### What a body dispatches -/

/-- `protocol_raw_handle` takes the line, with `errno` clear. -/
def accepted (line : Bytes) : Bool := (parseEvent false line).isSome

/-- The lines up to the first that is refused, that one included. -/
def upToRefused (lines : List Bytes) : List Bytes :=
  lines.takeWhile accepted ++ (lines.dropWhile accepted).take 1

theorem upToRefused_cons (line : Bytes) (lines : List Bytes) :
    upToRefused (line :: lines) = line :: if accepted line then upToRefused lines else [] := by
  cases taken : accepted line with
  | true => simp [upToRefused, taken]
  | false => simp [upToRefused, taken]

/-- Lines that are all taken come first, and then the next one does. -/
theorem upToRefused_append (lines : List Bytes) (line : Bytes) (more : List Bytes)
    (taken : ∀ l ∈ lines, accepted l) :
    upToRefused (lines ++ line :: more) =
      lines ++ line :: if accepted line then upToRefused more else [] := by
  induction lines with
  | nil => exact upToRefused_cons line more
  | cons l lines ih =>
    have here := taken l List.mem_cons_self
    have later := ih fun k member => taken k (List.mem_cons_of_mem l member)
    rw [List.cons_append, upToRefused_cons, if_pos here, later, List.cons_append]

theorem upToRefused_all {lines : List Bytes} (taken : ∀ l ∈ lines, accepted l) :
    upToRefused lines = lines := by
  have all := List.takeWhile_eq_self_iff.mpr taken
  have none := List.dropWhile_eq_nil_iff.mpr taken
  rw [upToRefused, all, none]
  simp

/-- `errno` is not `ERANGE` whenever a line is handled. -/
def App.CleanLines {α : Type} (app : App α) : α → List Bytes → Prop
  | _, [] => True
  | state, line :: lines => app.erange state = false ∧
    ∀ ev, parseEvent false line = some ev → CleanLines app (app.evsRoute state ev).1 lines

/-- The calls of `protocol_raw_handle` for the lines of a body. -/
theorem App.visitAll_recorded {α : Type} (app : App α) (s : α × List RawHandled)
    (lines : List Bytes) (clean : app.CleanLines s.1 lines) :
    (visitAll app.recorded.visitLine s lines).1.2 =
      s.2 ++ (upToRefused lines).map (protocolRawHandle false) := by
  induction lines generalizing s with
  | nil => simp [visitAll, upToRefused]
  | cons line lines ih =>
    obtain ⟨noRange, later⟩ := clean
    have noRange' : app.recorded.erange s = false := noRange
    rw [upToRefused_cons, visitAll, visitLine, rawHandle, noRange']
    cases parsed : parseEvent false line with
    | none =>
      have refused : accepted line = false := by simp [accepted, parsed]
      simp [refused, protocolRawHandle, parsed, recorded]
    | some ev =>
      have taken : accepted line = true := by simp [accepted, parsed]
      have rest := ih ((app.evsRoute s.1 ev).1, s.2 ++ [.taken ev]) (later ev parsed)
      rw [List.append_assoc] at rest
      rw [if_pos taken, List.map_cons, protocolRawHandle, parsed]
      exact rest

/-! ### What a frame dispatches -/

theorem Served.protRoute_state {α : Type} {app : App α} {prot : Prot} {F : EventFramer}
    {routeFn : RawHandle → Conn → Nat → Routed} (routes : Routes app prot F routeFn) (now : Int)
    (s : Served α) (used n : Nat) (event : Bytes) (speaks : s.peer.prot = some prot)
    (inside : used ≤ s.peer.conn.rbuff.length)
    (next : F.next (s.peer.conn.rbuff.drop used) = .item n event) :
    (s.protRoute app now used).1.state = (app.rawHandle s.state event).state := by
  obtain ⟨t, found, took⟩ := Served.protRoute_item routes now s speaks inside next
  rw [found]
  exact congrArg Served.state took.seen

/-- A line of a body: an event, and nothing that would end it. -/
structure IsLine (line : Bytes) : Prop where
  oneLine : newline ∉ line
  noNul : 0 ∉ line
  event : ∃ P N J, IsEvent line P N J

theorem IsLine.nonempty {line : Bytes} (is : IsLine line) : line ≠ [] := by
  obtain ⟨P, N, J, event⟩ := is.event
  rintro rfl
  have none := event.text
  simp at none

theorem IsLine.accepted {line : Bytes} (is : IsLine line) : accepted line = true := by
  obtain ⟨P, N, J, event⟩ := is.event
  have parsed := parseEvent_isEvent event false
  rw [if_neg fun last => Bool.noConfusion last.2] at parsed
  exact Option.isSome_iff_exists.mpr ⟨_, parsed⟩

theorem notMem_intercalate {lines : List Bytes} {c d : UInt8} (other : c ≠ d)
    (free : ∀ line ∈ lines, c ∉ line) : c ∉ [d].intercalate lines := by
  induction lines with
  | nil => simp
  | cons line lines ih =>
    have first := free line List.mem_cons_self
    have later := ih fun l member => free l (List.mem_cons_of_mem line member)
    by_cases last : lines = []
    · simpa [last] using first
    · rw [List.intercalate_cons_of_ne_nil last]
      simp [first, later, other]

/-- A body of some lines has these lines. -/
theorem bodyLines_intercalate {lines : List Bytes} (nonempty : lines ≠ [])
    (free : ∀ line ∈ lines, newline ∉ line ∧ 0 ∉ line ∧ line ≠ []) :
    Http.bodyLines ([newline].intercalate lines) = lines := by
  have noNul : 0 ∉ [newline].intercalate lines :=
    notMem_intercalate (by decide) fun line member => (free line member).2.1
  rw [Http.bodyLines_of_noNul noNul]
  have split : ([newline].intercalate lines).splitOn newline = lines :=
    List.splitOn_intercalate newline (fun line member => (free line member).1) nonempty
  have kept : lines.filter (· ≠ []) = lines := by
    rw [List.filter_eq_self]
    exact fun line member => decide_eq_true (free line member).2.2
  exact (congrArg (List.filter (· ≠ [])) split).trans kept

/-- The transports agree: an event of one line of UTF-8 comes to the same, whether it
arrives in a raw frame, in a masked text frame of RFC 6455 with any mask and any form
of its length, or as a line of a body among others; and a body dispatches its lines
in order, up to the first that is refused. -/
theorem transports_agree {α : Type} (app : App α) (e : Bytes) (nonempty : e ≠ [])
    (valid : utf8Validate e) (oneLine : newline ∉ e) :
    (∀ (s : Served (α × List RawHandled)) (now : Int) (before after : Bytes),
      s.peer.prot = some .raw → e.length + 8 < 2 ^ 64 →
      s.peer.conn.rbuff = before ++ (storeBE 8 e.length ++ e ++ after) →
      app.erange s.state.1 = false →
      (s.protRoute app.recorded now before.length).1.state.2 =
        s.state.2 ++ [protocolRawHandle false e]) ∧
    (∀ (s : Served (α × List RawHandled)) (now : Int) (before after : Bytes) (f : Frame),
      s.peer.prot = some .rfc6455 → f.masked → f.opcode = opcodeText → f.payload = e →
      s.peer.conn.rbuff = before ++ (f.encode ++ after) → app.erange s.state.1 = false →
      (s.protRoute app.recorded now before.length).1.state.2 =
        s.state.2 ++ [protocolRawHandle false e]) ∧
    (∀ (s : α × List RawHandled) (pre post : List Bytes) (before after : Bytes),
      (∀ line ∈ pre ++ post, IsLine line) → app.CleanLines s.1 (pre ++ e :: post) →
      (app.recorded.surrLoop s
          (before ++ ([newline].intercalate (pre ++ e :: post) ++ 0 :: after)) before.length).1.2 =
        s.2 ++ pre.map (protocolRawHandle false) ++ protocolRawHandle false e ::
          if accepted e then post.map (protocolRawHandle false) else []) ∧
    ∀ (s : α × List RawHandled) (body before after : Bytes),
      app.CleanLines s.1 (Http.bodyLines body) →
      (app.recorded.surrLoop s (before ++ (body ++ 0 :: after)) before.length).1.2 =
        s.2 ++ (upToRefused (Http.bodyLines body)).map (protocolRawHandle false) := by
  have noNul := utf8Validate_noNul e valid
  -- The lines of a body are cut by `strtok_r`, and each is handled in turn.
  have bodies : ∀ (s : α × List RawHandled) (body before after : Bytes),
      app.CleanLines s.1 (Http.bodyLines body) →
      (app.recorded.surrLoop s (before ++ (body ++ 0 :: after)) before.length).1.2 =
        s.2 ++ (upToRefused (Http.bodyLines body)).map (protocolRawHandle false) := by
    intro s body before after clean
    rw [app.recorded.surrLoop_eq s before body after]
    exact app.visitAll_recorded s _ clean
  refine ⟨?_, ?_, ?_, bodies⟩
  · -- raw: the length, then the event
    intro s now before after speaks fits buffer noRange
    have here : s.peer.conn.rbuff.drop before.length = storeBE 8 e.length ++ e ++ after := by
      rw [buffer, List.drop_left]
    have next := rawFramer.item_append (rawNext_encode noNul fits) after
    rw [← here] at next
    rw [Served.protRoute_state (Served.raw_routes app.recorded) now s before.length _ e speaks
      (by rw [buffer]; simp) next, (app.recorded_rawHandle s.state e).1, noRange]
  · -- rfc6455: a frame, unmasked in place
    rintro s now before after f speaks masked text rfl buffer noRange
    have here : s.peer.conn.rbuff.drop before.length = f.encode ++ after := by
      rw [buffer, List.drop_left]
    have next := rfc6455Next_encode f masked text valid after
    rw [← here] at next
    rw [Served.protRoute_state (Served.rfc6455_routes app.recorded) now s before.length _ f.payload speaks
      (by rw [buffer]; simp) next, (app.recorded_rawHandle s.state f.payload).1, noRange]
  · -- http: one line of several, cut out again
    intro s pre post before after lines clean
    have free : ∀ line ∈ pre ++ e :: post, newline ∉ line ∧ 0 ∉ line ∧ line ≠ [] := by
      intro line member
      rcases List.mem_append.mp member with early | late
      · have is := lines line (List.mem_append_left _ early)
        exact ⟨is.oneLine, is.noNul, is.nonempty⟩
      · rcases List.mem_cons.mp late with rfl | late
        · exact ⟨oneLine, noNul, nonempty⟩
        · have is := lines line (List.mem_append_right _ late)
          exact ⟨is.oneLine, is.noNul, is.nonempty⟩
    have body := bodyLines_intercalate (by simp) free
    have log := bodies s ([newline].intercalate (pre ++ e :: post)) before after
      (by rw [body]; exact clean)
    rw [body, upToRefused_append pre e post fun l member =>
      (lines l (List.mem_append_left _ member)).accepted] at log
    have rest : upToRefused post = post :=
      upToRefused_all fun l member => (lines l (List.mem_append_right _ member)).accepted
    rw [log, rest, List.map_append, List.map_cons, List.append_assoc]
    cases accepted e <;> rfl

/-- `/a:1=x`, in each of the three ways. -/
theorem transports_agree_a :
    let e := str "/a:1=x"
    let f : Frame := {
      first := 0x81, form := .medium, mask := some (str "abcd"), payload := e
      mask_length := by rintro _ ⟨rfl⟩; rfl
      holds := by decide
      countable := by decide }
    let raw : Served (Unit × List RawHandled) :=
      ⟨((), []), { prot := some .raw, conn := { rbuff := storeBE 8 e.length ++ e } }⟩
    let rfc6455 : Served (Unit × List RawHandled) :=
      ⟨((), []), { prot := some .rfc6455, conn := { rbuff := f.encode } }⟩
    (raw.protRoute answering.recorded 0 0).1.state.2 = [protocolRawHandle false e] ∧
    (rfc6455.protRoute answering.recorded 0 0).1.state.2 = [protocolRawHandle false e] ∧
    (answering.recorded.surrLoop ((), []) (str "/b:2=\n/a:1=x\n/c:3=" ++ [0]) 0).1.2 =
      [protocolRawHandle false (str "/b:2="), protocolRawHandle false e,
        protocolRawHandle false (str "/c:3=")] ∧
    (answering.recorded.surrLoop ((), []) (str "\n/a:1=x\n\nx\n/b:2=" ++ [0]) 0).1.2 =
      [protocolRawHandle false e, .refused] := by
  obtain ⟨raw, rfc6455, line, body⟩ :=
    transports_agree answering (str "/a:1=x") (by decide) (by decide) (by decide)
  have isLine : ∀ line ∈ [str "/b:2="] ++ [str "/c:3="], IsLine line := by
    intro line member
    rcases List.mem_pair.mp member with rfl | rfl
    · exact ⟨by decide, by decide, str "/b", decimalNumeral 2, [], by decide, by decide, by decide⟩
    · exact ⟨by decide, by decide, str "/c", decimalNumeral 3, [], by decide, by decide, by decide⟩
  refine ⟨?_, ?_, ?_, ?_⟩
  · exact raw _ 0 [] [] rfl (by decide) rfl rfl
  · exact rfc6455 _ 0 [] [] _ rfl rfl rfl rfl (List.append_nil _).symm rfl
  · have lines := line ((), []) [str "/b:2="] [str "/c:3="] [] [] isLine
      ⟨rfl, fun _ _ => ⟨rfl, fun _ _ => ⟨rfl, fun _ _ => trivial⟩⟩⟩
    exact lines
  · have lines := body ((), []) (str "\n/a:1=x\n\nx\n/b:2=") [] []
      ⟨rfl, fun _ _ => ⟨rfl, fun _ _ => ⟨rfl, fun _ _ => trivial⟩⟩⟩
    exact lines

end QuickIO
