import QuickIO.DaemonEvents
import QuickIO.HttpGiven
import QuickIO.ReadActs

/-!
# What is written to a client

A client is written to when it has shaken hands and has a protocol that frames events.
What it is written is then what is posted for it, in the frames of its protocol, and
nothing that is posted is dropped.
-/
namespace QuickIO

open Lib

theorem recipient_client (r : Recipient) : recipient r.client = r := by
  cases r with
  | peer i => simp [recipient, Recipient.client]
  | surrogate s =>
    have odd : (2 * s + 1) % 2 = 1 := Nat.mul_add_mod 2 s 1
    have half : (2 * s + 1) / 2 = s := Nat.mul_add_div Nat.zero_lt_two s 1
    simp [recipient, Recipient.client, odd, half]

theorem client_recipient (c : ClientId) : (recipient c).client = c := by
  rw [recipient]
  split
  next even => exact Nat.mul_div_cancel' (Nat.dvd_of_mod_eq_zero even)
  next odd =>
    have one : c % 2 = 1 := (Nat.mod_two_eq_zero_or_one c).resolve_left odd
    have whole := Nat.div_add_mod c 2
    rwa [one] at whole

theorem client_injective {q r : Recipient} (same : q.client = r.client) : q = r := by
  have both := congrArg recipient same
  rwa [recipient_client, recipient_client] at both

/-! ### Sockets -/

namespace Peer

variable {p q : Peer}

/-- The socket takes events and is sent some. -/
def Ready (p : Peer) : Prop := Prot.Framed p.prot ∧ p.handshaked = true

/-- The frame of its protocol. -/
def frame (p : Peer) (m : Message) : Bytes := (p.prot.bind fun prot => prot.frame m).getD []

theorem frame_congr (same : q.prot = p.prot) : q.frame = p.frame := by
  funext m
  rw [frame, same, frame]

theorem Ready.congr (ready : p.Ready) (prot : q.prot = p.prot)
    (handshaked : q.handshaked = p.handshaked) : q.Ready :=
  ⟨prot ▸ ready.1, handshaked.trans ready.2⟩

/-- Nothing is dropped. -/
theorem Ready.protocolsSend (ready : p.Ready) (now : Int) (m : Message) :
    p.protocolsSend now m = { p with lastSend := now }.record (.frame (p.frame m)) := by
  obtain ⟨framed, shook⟩ := ready
  rw [Peer.protocolsSend, if_pos shook]
  rcases framed with raw | rfc6455
  · simp [raw, Prot.frame, Peer.frame]
  · simp [rfc6455, Prot.frame, Peer.frame]

theorem Ready.send (ready : p.Ready) (now : Int) (m : Message) :
    (p.protocolsSend now m).Ready ∧ (p.protocolsSend now m).frame = p.frame ∧
      (p.protocolsSend now m).written = p.written ++ [p.frame m] ∧
      (p.protocolsSend now m).events = p.events := by
  rw [ready.protocolsSend]
  refine ⟨ready, rfl, ?_, ?_⟩
  · rw [written_record]
    rfl
  · rw [events_record, List.append_nil]
    rfl

theorem Ready.sends (ready : p.Ready) (now : Int) (messages : List Message) :
    let q := (messages.map PeerAct.send).foldl (act now) p
    q.Ready ∧ q.frame = p.frame ∧ q.written = p.written ++ messages.map p.frame ∧
      q.events = p.events := by
  induction messages generalizing p with
  | nil => exact ⟨ready, rfl, (List.append_nil _).symm, rfl⟩
  | cons m messages ih =>
    obtain ⟨still, same, wrote, events⟩ := ready.send now m
    obtain ⟨still', same', wrote', events'⟩ := ih still
    refine ⟨still', same'.trans same, ?_, events'.trans events⟩
    refine wrote'.trans ?_
    rw [same, wrote, List.append_assoc]
    rfl

/-- The frames that were made for everybody have the frame of the client. -/
theorem Ready.bcast (ready : p.Ready) (now : Int) (path json : Bytes) (prot : Prot)
    (is : p.prot = some prot) :
    p.send now .broadcast ((protocolsBcast path json).getD prot.id .null) =
      { p with lastSend := now }.record (.broadcast (p.frame ⟨path, [], evsNoCallback, json⟩)) := by
  have joined := fun {frame} (fn : prot.frameFn = some frame) => protocolsBcast_id prot fn path [] json
  simp only [List.append_nil] at joined
  obtain ⟨raw | rfc6455, -⟩ := ready
  · cases is.symm.trans raw
    rw [joined rfl]
    simp [Peer.send, Peer.frame, raw, Prot.frame]
  · cases is.symm.trans rfc6455
    rw [joined rfl]
    simp [Peer.send, Peer.frame, rfc6455, Prot.frame]

/-- The answer to its handshake, once it has shaken hands. -/
def greeting (p : Peer) : Bytes :=
  if p.handshaked then (p.prot.map Prot.handshakeReply).getD [] else []

theorem greeting_congr (prot : q.prot = p.prot) (handshaked : q.handshaked = p.handshaked) :
    q.greeting = p.greeting := by
  rw [greeting, prot, handshaked, greeting]

theorem greeting_unready (unready : p.handshaked = false) : p.greeting = [] := by
  rw [greeting, unready]
  rfl

/-- What was written to a client is the answer to its handshake, and then the frames.
When a WebSocket was closed, why is written once, behind the frames so far. -/
structure Greeted (p : Peer) : Prop where
  wire : p.prot ≠ some .flash → ∃ before after, p.written = before ++ after ∧
    p.wire = p.greeting ++ (before.flatten ++ (p.byes.flatten ++ after.flatten))
  silent : ¬p.Ready → p.written = []
  kept : p.closed = false ∨ p.prot ≠ some .rfc6455 → p.byes = []
  left : p.closed = true → p.prot = some .rfc6455 →
    ∃ reason, p.byes = [protocolRfc6455Close reason]
  gone : p.closed = true → p.conn.closing ≠ none

namespace Greeted

theorem open_of_closing (greeted : p.Greeted) (open_ : p.conn.closing = none) : p.closed = false :=
  Bool.eq_false_iff.mpr fun closed => greeted.gone closed open_

/-- Nothing has been written behind the answer to its handshake. -/
theorem wire_silent (greeted : p.Greeted) (plain : p.prot ≠ some .flash) (written : p.written = [])
    (open_ : p.closed = false) : p.wire = p.greeting := by
  obtain ⟨before, after, split, wire⟩ := greeted.wire plain
  obtain ⟨rfl, rfl⟩ := List.append_eq_nil_iff.mp (split.symm.trans written)
  rw [wire, greeted.kept (Or.inl open_)]
  exact List.append_nil _

/-- A client that is not closed, and that was written nothing but an answer. -/
theorem of_greeting (written : p.written = []) (open_ : p.closed = false) (byes : p.byes = [])
    (wire : p.prot ≠ some .flash → p.wire = p.greeting) : p.Greeted where
  wire plain := by
    refine ⟨[], [], written, ?_⟩
    rw [byes, wire plain]
    exact (List.append_nil _).symm
  silent _ := written
  kept _ := byes
  left closed := by
    rw [open_] at closed
    cases closed
  gone closed := by
    rw [open_] at closed
    cases closed

theorem aside (greeted : p.Greeted) (aside : p.Aside q) : q.Greeted where
  wire plain := by
    rw [aside.prot] at plain
    rw [aside.wire plain, aside.written, aside.byes, greeting_congr aside.prot aside.handshaked]
    exact greeted.wire plain
  silent unready := by
    rw [aside.written]
    exact greeted.silent fun ready => unready (ready.congr aside.prot aside.handshaked)
  kept either := by
    rw [aside.closed, aside.prot] at either
    rw [aside.byes]
    exact greeted.kept either
  left closed speaks := by
    rw [aside.byes]
    exact greeted.left (aside.closed ▸ closed) (aside.prot ▸ speaks)
  gone closed := aside.closing (greeted.gone (aside.closed ▸ closed))

/-- A protocol is set for a client that has not shaken hands. -/
theorem setProt (greeted : p.Greeted) (plain : p.prot ≠ some .flash) (unready : ¬p.Ready)
    (open_ : p.closed = false) (quiet : p.greeting = []) (prot : Prot) :
    (p.protocolsSwitch prot).Greeted := by
  have none_ := greeted.silent unready
  have wire := greeted.wire_silent plain none_ open_
  refine of_greeting ((written_record _).trans ((List.append_nil _).trans none_)) open_
    ((byes_record _).trans ((List.append_nil _).trans (greeted.kept (Or.inl open_)))) fun _ => ?_
  rw [greeting_unready rfl]
  exact (wire_record _).trans ((List.append_nil _).trans (wire.trans quiet))

theorem found (greeted : p.Greeted) (prot : Prot) (first : p.prot = none)
    (unready : p.handshaked = false) (open_ : p.closed = false) : (p.setProt prot).Greeted := by
  have same : p.setProt prot = p.protocolsSwitch prot := by
    rw [Peer.protocolsSwitch, ← unready]
    rfl
  rw [same]
  apply greeted.setProt
  · simp [first]
  · rintro ⟨-, shook⟩
    rw [unready] at shook
    cases shook
  · exact open_
  · exact greeting_unready unready

theorem http (greeted : p.Greeted) (now : Int) (is : p.prot = some .http) (open_ : p.closed = false) :
    (p.setHandshaked now).Greeted := by
  have unframed : ¬p.Ready := by
    rintro ⟨raw | rfc6455, -⟩
    · cases is.symm.trans raw
    · cases is.symm.trans rfc6455
  have plain : p.prot ≠ some .flash := by simp [is]
  have quiet : ∀ q : Peer, q.prot = some .http → q.greeting = [] := by
    intro q http
    rw [Peer.greeting, http]
    split <;> rfl
  have written := greeted.silent unframed
  have wire := greeted.wire_silent plain written open_
  refine of_greeting written open_ (greeted.kept (Or.inl open_)) fun _ => ?_
  have after : (p.setHandshaked now).greeting = [] := quiet _ is
  rw [after]
  exact wire.trans (quiet p is)

theorem shaken (greeted : p.Greeted) (now : Int) (prot : Prot) (is : p.prot = some prot)
    (unready : p.handshaked = false) (open_ : p.closed = false) :
    ((p.record (.handshake prot .ok)).setHandshaked now).Greeted := by
  have silent : p.written = [] := by
    apply greeted.silent
    rintro ⟨-, shook⟩
    rw [unready] at shook
    cases shook
  refine of_greeting ((written_record _).trans ((List.append_nil _).trans silent)) open_
    ((byes_record _).trans ((List.append_nil _).trans (greeted.kept (Or.inl open_)))) fun plain => ?_
  have plain : p.prot ≠ some .flash := plain
  have wire := greeted.wire_silent plain silent open_
  have answer : ((p.record (.handshake prot .ok)).setHandshaked now).greeting =
      prot.handshakeReply := by
    have known : ((p.record (.handshake prot .ok)).setHandshaked now).prot = some prot := is
    rw [Peer.greeting, known]
    rfl
  rw [answer]
  refine (wire_record _).trans ?_
  rw [wire, greeting_unready unready]
  cases prot with
  | flash => exact absurd is plain
  | http => rfl
  | raw => rfl
  | rfc6455 => rfl

/-- Something is written to a client that is ready. -/
theorem write (greeted : p.Greeted) (ready : p.Ready) {e : Entry} {bytes : Bytes}
    (is : e = .frame bytes ∨ e = .broadcast bytes ∨ e = .heartbeat bytes)
    (prot : q.prot = p.prot) (handshaked : q.handshaked = p.handshaked)
    (closed : q.closed = p.closed) (conn : q.conn = p.conn) (log : q.log = p.log ++ [e]) :
    q.Greeted := by
  have plain : p.prot ≠ some .flash := by
    obtain ⟨raw | rfc6455, -⟩ := ready
    · simp [raw]
    · simp [rfc6455]
  have same : q.wire = p.wire ++ bytes ∧ q.written = p.written ++ [bytes] ∧ q.byes = p.byes := by
    have record : q.wire = (p.record e).wire ∧ q.written = (p.record e).written ∧
        q.byes = (p.record e).byes := by
      rw [Peer.wire, Peer.wire, Peer.written, Peer.written, Peer.byes, Peer.byes, log]
      exact ⟨rfl, rfl, rfl⟩
    rw [record.1, record.2.1, record.2.2, wire_record, written_record, byes_record]
    rcases is with rfl | rfl | rfl
    · exact ⟨rfl, rfl, List.append_nil _⟩
    · exact ⟨rfl, rfl, List.append_nil _⟩
    · exact ⟨rfl, rfl, List.append_nil _⟩
  obtain ⟨wire, written, byes⟩ := same
  refine ⟨fun _ => ?_, fun unready => absurd (ready.congr prot handshaked) unready, ?_, ?_, ?_⟩
  · obtain ⟨before, after, split, all⟩ := greeted.wire plain
    refine ⟨before, after ++ [bytes], ?_, ?_⟩
    · rw [written, split, List.append_assoc]
    · rw [wire, all, byes, greeting_congr prot handshaked]
      simp
  · intro either
    rw [closed, prot] at either
    rw [byes]
    exact greeted.kept either
  · intro is_closed speaks
    rw [byes]
    exact greeted.left (closed ▸ is_closed) (prot ▸ speaks)
  · intro is_closed
    rw [conn]
    exact greeted.gone (closed ▸ is_closed)

/-- An event is handed over. -/
theorem event (greeted : p.Greeted) (event : Bytes) : (p.record (.event event)).Greeted where
  wire plain := by
    rw [wire_record, written_record, byes_record, List.append_nil, List.append_nil]
    obtain ⟨before, after, split, wire⟩ := greeted.wire plain
    exact ⟨before, after, split, (List.append_nil _).trans wire⟩
  silent unready := by
    rw [written_record, List.append_nil]
    exact greeted.silent unready
  kept either := (byes_record _).trans ((List.append_nil _).trans (greeted.kept either))
  left closed speaks := by
    obtain ⟨reason, byes⟩ := greeted.left closed speaks
    exact ⟨reason, (byes_record _).trans ((List.append_nil _).trans byes)⟩
  gone := greeted.gone

theorem send (greeted : p.Greeted) (ready : p.Ready) (now : Int) (m : Message) :
    (p.protocolsSend now m).Greeted := by
  rw [ready.protocolsSend]
  exact greeted.write ready (Or.inl rfl) rfl rfl rfl rfl rfl

theorem sends (greeted : p.Greeted) (ready : p.Ready) (now : Int) (messages : List Message) :
    ((messages.map PeerAct.send).foldl (act now) p).Greeted := by
  induction messages generalizing p with
  | nil => exact greeted
  | cons m messages ih => exact ih (greeted.send ready now m) (ready.send now m).1

end Greeted

/-- What `qev_on_close` changes: a WebSocket is written why, behind everything else. -/
theorem onClose_cases (closed : p.onClose = some q) :
    p.closed = false ∧ ∃ reason, p.conn.closing = some reason ∧ q.closed = true ∧
      q.prot = p.prot ∧ q.handshaked = p.handshaked ∧ q.conn = p.conn ∧
      q.written = p.written ∧ q.events = p.events ∧
      (p.prot = some .rfc6455 → q.wire = p.wire ++ protocolRfc6455Close reason ∧
        q.byes = p.byes ++ [protocolRfc6455Close reason]) ∧
      (p.prot ≠ some .rfc6455 → q.wire = p.wire ∧ q.byes = p.byes) := by
  simp only [onClose, Option.ite_none_left_eq_some, Option.map_eq_some_iff] at closed
  obtain ⟨open_, reason, is, rfl⟩ := closed
  refine ⟨Bool.not_eq_true _ ▸ open_, reason, is, rfl, ?_⟩
  by_cases speaks : p.prot = some .rfc6455
  · have told : p.protocolsClosed reason = p.record (.bye (protocolRfc6455Close reason)) := by
      simp only [protocolsClosed, speaks]
      rfl
    rw [told]
    refine ⟨rfl, rfl, rfl, ?_, ?_, fun _ => ⟨?_, ?_⟩, fun other => absurd speaks other⟩
    · exact (written_record _).trans (List.append_nil _)
    · exact (events_record _).trans (List.append_nil _)
    · exact wire_record _
    · exact byes_record _
  · have told : p.protocolsClosed reason = p := by
      simp only [protocolsClosed]
      cases prot : p.prot with
      | none => rfl
      | some prot' =>
        cases prot' with
        | rfc6455 => exact absurd prot speaks
        | http => rfl
        | flash => rfl
        | raw => rfl
    rw [told]
    exact ⟨rfl, rfl, rfl, rfl, rfl, fun is => absurd is speaks, fun _ => ⟨rfl, rfl⟩⟩

theorem Greeted.onClose (greeted : p.Greeted) (closed : p.onClose = some q) : q.Greeted := by
  obtain ⟨open_, reason, closing, gone, prot, handshaked, conn, written, -, told, silent⟩ :=
    onClose_cases closed
  have none_ := greeted.kept (Or.inl open_)
  refine ⟨fun plain => ?_, fun unready => ?_, ?_, fun _ speaks => ?_, fun _ => ?_⟩
  · rw [prot] at plain
    obtain ⟨before, after, split, wire⟩ := greeted.wire plain
    rw [none_] at wire
    rw [written, greeting_congr prot handshaked]
    by_cases speaks : p.prot = some .rfc6455
    · -- everything that was written comes before
      refine ⟨before ++ after, [], by rw [split, List.append_nil], ?_⟩
      rw [(told speaks).1, (told speaks).2, none_, wire]
      simp
    · refine ⟨before, after, split, ?_⟩
      rw [(silent speaks).1, (silent speaks).2, none_, wire]
  · rw [written]
    exact greeted.silent fun ready => unready (ready.congr prot handshaked)
  · rintro (still | other)
    · rw [gone] at still
      cases still
    · rw [prot] at other
      rw [(silent other).2, none_]
  · rw [prot] at speaks
    exact ⟨reason, by rw [(told speaks).2, none_, List.nil_append]⟩
  · rw [conn, closing]
    exact Option.some_ne_none reason

end Peer

/-! ### Everybody -/

namespace World

variable {w w' w'' : World} {r : Recipient} {messages later : List Message}

/-- Sessions are handshaked from the start. -/
def Ready (w : World) : Recipient → Prop
  | .peer i => (w.peers i).Ready
  | .surrogate s => s < w.http.nextSurr

def frame (w : World) : Recipient → Message → Bytes
  | .peer i => (w.peers i).frame
  | .surrogate _ => fun m => (protocolHttpFrame m).raw

/-- What was written to a socket that speaks no HTTP, or given to a session. -/
def written (w : World) : Recipient → List Bytes
  | .peer i => (w.peers i).written
  | .surrogate s => (w.http.surrs s).given

/-- From `w` to `w'` one client was written the frames of these messages. -/
structure Writes (w w' : World) (r : Recipient) (messages : List Message) : Prop where
  ready : ∀ q, w.Ready q → w'.Ready q ∧ w'.frame q = w.frame q
  own : w'.written r = w.written r ++ messages.map (w.frame r)
  others : ∀ q, q ≠ r → w'.written q = w.written q

theorem Writes.refl (w : World) (r : Recipient) : Writes w w r [] where
  ready _ ready := ⟨ready, rfl⟩
  own := (List.append_nil _).symm
  others _ _ := rfl

@[simp] theorem peers_setPeer_self (w : World) (i : Nat) (p : Peer) : (w.setPeer i p).peers i = p := by
  simp [World.setPeer]

theorem peers_setPeer (w : World) {i j : Nat} (other : j ≠ i) (p : Peer) :
    (w.setPeer i p).peers j = w.peers j := by
  simp [World.setPeer, other]

theorem setPeer_setPeer (w : World) (i : Nat) (p q : Peer) :
    (w.setPeer i p).setPeer i q = w.setPeer i q := by
  simp [World.setPeer]

/-- What is written to a socket stands in its log. -/
theorem Writes.setPeer {p q : Peer} {i : Nat}
    (ready : p.Ready → q.Ready ∧ q.frame = p.frame)
    (own : q.written = p.written ++ messages.map p.frame) :
    Writes (w.setPeer i p) (w.setPeer i q) (.peer i) messages where
  ready r before := by
    cases r with
    | surrogate s => exact ⟨before, rfl⟩
    | peer j =>
      by_cases here : j = i
      · subst here
        simp only [World.Ready, World.frame, peers_setPeer_self] at before ⊢
        exact ready before
      · simp only [World.Ready, World.frame, peers_setPeer _ here] at before ⊢
        exact ⟨before, trivial⟩
  own := by simpa only [World.written, World.frame, peers_setPeer_self] using own
  others r other := by
    cases r with
    | surrogate s => rfl
    | peer j =>
      have here : j ≠ i := fun same => other (same ▸ rfl)
      simp only [World.written, peers_setPeer _ here]

/-- A socket that is changed alone. -/
theorem Writes.setPeer_self {q : Peer} {i : Nat}
    (ready : (w.peers i).Ready → q.Ready ∧ q.frame = (w.peers i).frame)
    (own : q.written = (w.peers i).written ++ messages.map (w.peers i).frame) :
    Writes w (w.setPeer i q) (.peer i) messages := by
  have change := Writes.setPeer (w := w) (i := i) ready own
  have still : w.setPeer i (w.peers i) = w := by simp [World.setPeer]
  rwa [still] at change

/-- What a session was given, and nothing else. -/
theorem Writes.gives {τ : Http} {s : SurrId} (gives : Http.Gives w.http τ s messages) :
    Writes w { w with http := τ } (.surrogate s) messages where
  ready q before := by
    cases q with
    | peer i => exact ⟨before, rfl⟩
    | surrogate r => exact ⟨Nat.lt_of_lt_of_le before gives.nextSurr, rfl⟩
  own := gives.own
  others q other := by
    cases q with
    | peer i => rfl
    | surrogate r => exact gives.others r fun same => other (same ▸ rfl)

theorem Writes.mute {τ : Http} (mute : Http.Mute w.http τ) (r : Recipient) :
    Writes w { w with http := τ } r [] where
  ready q before := by
    cases q with
    | peer i => exact ⟨before, rfl⟩
    | surrogate s => exact ⟨Nat.lt_of_lt_of_le before mute.nextSurr, rfl⟩
  own := by
    cases r with
    | peer i => exact (List.append_nil _).symm
    | surrogate s => exact (mute.given s).trans (List.append_nil _).symm
  others q _ := by
    cases q with
    | peer i => rfl
    | surrogate s => exact mute.given s

/-- `protocols_send` to a client that is ready. -/
theorem Writes.protocolsSend (ready : w.Ready r) (m : Message) :
    Writes w (w.protocolsSend m r) r [m] := by
  cases r with
  | surrogate s => exact .gives (.protocolsSend s m)
  | peer i =>
    have ready : (w.peers i).Ready := ready
    obtain ⟨still, same, wrote, -⟩ := ready.send w.http.now m
    exact .setPeer_self (fun _ => ⟨still, same⟩) wrote

/-- `protocols_bcast_write` to a client that is ready. -/
theorem Writes.protocolsBcastWrite (ready : w.Ready r) (path json : Bytes) :
    Writes w (w.protocolsBcastWrite (protocolsBcast path json) r) r
      [⟨path, [], evsNoCallback, json⟩] := by
  cases r with
  | surrogate s =>
    have same := Http.send_bcast w.http s path [] json
    rw [List.append_nil] at same
    simp only [World.protocolsBcastWrite, same]
    exact .gives (.protocolsSend s _)
  | peer i =>
    have ready : (w.peers i).Ready := ready
    simp only [World.protocolsBcastWrite]
    split
    next none_ =>
      -- a client that is ready has a protocol
      obtain ⟨raw | rfc6455, -⟩ := ready
      · cases none_.symm.trans raw
      · cases none_.symm.trans rfc6455
    next prot is =>
      rw [if_pos ready.2, ready.bcast w.http.now path json prot is]
      refine .setPeer_self (fun _ => ⟨ready, rfl⟩) ?_
      rw [Peer.written_record]
      rfl

end World

/-! ### What is posted is written -/

/-- What was posted for a client. -/
def lettersTo (posts : List Post) (c : ClientId) : List Message :=
  (posts.filter fun post => post.client = c).map Post.message

theorem lettersTo_append (before after : List Post) (c : ClientId) :
    lettersTo (before ++ after) c = lettersTo before c ++ lettersTo after c := by
  rw [lettersTo, List.filter_append, List.map_append]
  rfl

namespace Core

variable {core core' : Core} {w w' : World} {r : Recipient} {messages : List Message}
  {more : List Post}

def letters (core : Core) (c : ClientId) : List Message := lettersTo core.posts c

/-- Clients whose events came are ready, and so are those something was posted for. They
were written that. -/
structure Linked (core : Core) (w : World) : Prop where
  known : ∀ r, core.Known r.client → w.Ready r
  posted : ∀ r, core.letters r.client ≠ [] → w.Ready r
  wire : ∀ r, w.written r = (core.letters r.client).map (w.frame r)

theorem letters_append (posts : core'.posts = core.posts ++ more)
    (mine : ∀ post ∈ more, post.client = r.client) (q : Recipient) :
    core'.letters q.client =
      core.letters q.client ++ if q = r then more.map Post.message else [] := by
  rw [letters, posts, lettersTo_append, letters]
  congr 1
  split
  next here =>
    subst here
    rw [lettersTo, List.filter_eq_self.mpr]
    intro post member
    simpa using mine post member
  next other =>
    rw [lettersTo, List.map_eq_nil_iff, List.filter_eq_nil_iff]
    intro post member same
    rw [mine post member, decide_eq_true_eq] at same
    exact other (client_injective same).symm

/-- One client is written what is posted for it. -/
theorem Linked.writes (linked : Linked core w) (writes : World.Writes w w' r messages)
    (posts : core'.posts = core.posts ++ more) (mine : ∀ post ∈ more, post.client = r.client)
    (same : more.map Post.message = messages) (ready : more ≠ [] → w.Ready r)
    (known : ∀ q, core'.Known q.client → core.Known q.client ∨ w.Ready q) : Linked core' w' := by
  have letters := letters_append posts mine
  have posted : ∀ q, core'.letters q.client ≠ [] → w.Ready q := by
    intro q some_
    rw [letters q] at some_
    split at some_
    next here =>
      subst here
      by_cases new : more = []
      · apply linked.posted
        rwa [new, List.map_nil, List.append_nil] at some_
      · exact ready new
    next =>
      rw [List.append_nil] at some_
      exact linked.posted q some_
  refine ⟨fun q is => ?_, fun q some_ => (writes.ready q (posted q some_)).1, fun q => ?_⟩
  · rcases known q is with before | before
    · exact (writes.ready q (linked.known q before)).1
    · exact (writes.ready q before).1
  · -- the frames of a client that is ready stay the same
    have frames : (core'.letters q.client).map (w'.frame q) =
        (core'.letters q.client).map (w.frame q) := by
      by_cases none_ : core'.letters q.client = []
      · rw [none_, List.map_nil, List.map_nil]
      · rw [(writes.ready q (posted q none_)).2]
    rw [frames, letters q, List.map_append]
    by_cases here : q = r
    · subst here
      rw [writes.own, linked.wire, if_pos rfl, same]
    · rw [writes.others q here, linked.wire, if_neg here, List.map_nil, List.append_nil]

/-- Nobody is written anything. -/
theorem Linked.still (linked : Linked core w) (r : Recipient) (writes : World.Writes w w' r [])
    (posts : core'.posts = core.posts)
    (known : ∀ q, core'.Known q.client → core.Known q.client ∨ w.Ready q) : Linked core' w' :=
  linked.writes writes (posts.trans (List.append_nil _).symm) (by simp) rfl
    (fun absurd_ => absurd rfl absurd_) known

end Core

end QuickIO
