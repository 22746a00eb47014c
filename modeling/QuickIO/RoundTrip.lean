import QuickIO.EventGrammar
import QuickIO.HttpOutput
import QuickIO.Reads

/-!
# Frames are read back

What `protocol_raw_frame` builds is what `protocol_raw_route` takes apart, and what
`protocol_rfc6455_frame` builds is what `protocol_rfc6455_route` does, once a client
has masked it. A stream of frames is a run of items for the framer of its protocol,
and the loop of `_route` gives their messages to `evs_route` one after the other.
-/
namespace QuickIO

open Lib Lib.WebSocket

/-! ### The text of an event -/

/-- What `evs_route` is called with for a message. -/
def Message.event (m : Message) : RawEvent where
  evPath := m.evPath ++ m.evExtra
  clientCb := m.serverCb
  json := m.json

theorem digits_ne_nil (n : Nat) : digits n ≠ [] := by
  by_cases low : n < 10
  · simp [digits_low n low]
  · simp [digits_high n (Nat.le_of_not_lt low)]

/-- The number a callback id is printed as. -/
def decimalNumeral (id : EvsCb) : Numeral where
  space := []
  sign := none
  digits := decimal id
  blank := by simp
  numeric := isDigit_digits id.toNat
  nonempty := digits_ne_nil id.toNat

theorem decimalNumeral_value (id : EvsCb) : (decimalNumeral id).value = id.toNat := by
  have value : digitsValue (decimal id) = id.toNat := digitsValue_digits id.toNat
  simp [Numeral.value, Numeral.magnitude, decimalNumeral, value]

/-- The text of a message is an event with its id. -/
theorem Message.text_isEvent {m : Message} (noColon : colon ∉ m.evPath ++ m.evExtra) :
    IsEvent m.text (m.evPath ++ m.evExtra) (decimalNumeral m.serverCb) m.json where
  text := by
    simp [Message.text, protocolRawFormat, Numeral.text, Numeral.signText, decimalNumeral, colon,
      equals, str]
  noColon := noColon
  inRange := by
    have value : digitsValue (decimal m.serverCb) = m.serverCb.toNat :=
      digitsValue_digits m.serverCb.toNat
    have small := m.serverCb.toNat_lt
    simpa [Numeral.InRange, Numeral.magnitude, decimalNumeral, value] using small

/-- Printed and parsed, a message is what it was. -/
theorem Message.parse_text {m : Message} (noColon : colon ∉ m.evPath ++ m.evExtra) :
    parseEvent false m.text = some m.event := by
  have parsed := parseEvent_isEvent (Message.text_isEvent noColon) false
  have id : (decimalNumeral m.serverCb).clientCb = m.serverCb := by
    rw [Numeral.clientCb, decimalNumeral_value, ofInt_natCast, UInt64.ofNat_toNat]
  rw [if_neg fun last => Bool.noConfusion last.2, id] at parsed
  exact parsed

theorem Message.text_noNul {m : Message} (path : 0 ∉ m.evPath ++ m.evExtra) (json : 0 ∉ m.json) :
    0 ∉ m.text := by
  have number : 0 ∉ decimal m.serverCb := fun member =>
    absurd (isDigit_digits m.serverCb.toNat 0 member) (by decide)
  have separators : 0 ∉ str ":" ∧ 0 ∉ str "=" := by decide
  simp only [Message.text, protocolRawFormat, List.mem_append, not_or] at path ⊢
  exact ⟨⟨⟨⟨path, separators.1⟩, number⟩, separators.2⟩, json⟩

theorem takeWhile_noNul {text : Bytes} (noNul : 0 ∉ text) : text.takeWhile (· ≠ 0) = text := by
  rw [List.takeWhile_eq_self_iff]
  intro c member
  apply decide_eq_true
  rintro rfl
  exact noNul member

/-! ### Frames -/

/-- A text behind its length is the item the raw framer finds. -/
theorem rawNext_encode {text : Bytes} (noNul : 0 ∉ text) (fits : text.length + 8 < 2 ^ 64) :
    rawFramer.next (storeBE 8 text.length ++ text) = .item (text.length + 8) text := by
  have size : (storeBE 8 text.length ++ text).length = text.length + 8 := by
    rw [List.length_append, length_storeBE]
    omega
  have head : readAt (storeBE 8 text.length ++ text) 0 8 = storeBE 8 text.length :=
    readAt_append [] (storeBE 8 text.length) text 0 8 rfl (length_storeBE _ _)
  have len : loadBE (storeBE 8 text.length) = text.length := by
    rw [loadBE_storeBE]
    exact Nat.mod_eq_of_lt (by omega)
  have body : readAt (storeBE 8 text.length ++ text) 8 text.length = text := by
    have shape := readAt_append (storeBE 8 text.length) text [] 8 text.length
      (length_storeBE _ _) rfl
    rwa [List.append_nil] at shape
  have sum : qevSafeUadd text.length 8 = some (text.length + 8) := by
    rw [qevSafeUadd, if_pos fits]
  have next : rawFramer.next = rawNext := rfl
  rw [next, rawNext, if_neg (by omega), head, len, sum]
  dsimp only
  rw [if_neg (by omega), body, takeWhile_noNul noNul]

/-- A raw frame as it is built. -/
theorem rawNext_frame {m : Message} (noNul : 0 ∉ m.text)
    (fits : (protocolRawFrame m).length < 2 ^ 64) :
    rawFramer.next (protocolRawFrame m) = .item (protocolRawFrame m).length m.text := by
  have frame : protocolRawFrame m = storeBE 8 m.text.length ++ m.text := rfl
  have size : (protocolRawFrame m).length = m.text.length + 8 := by
    rw [frame, List.length_append, length_storeBE]
    omega
  rw [size, frame]
  exact rawNext_encode noNul (size ▸ fits)

/-- What a client makes of a frame the server could have sent: MASK is set, a key
comes behind the length, and the payload is masked. -/
def maskFrame (key frame : Bytes) : Bytes :=
  let second := frame.getD 1 0
  let extra := if second = payloadMedium then 2 else if second = maskLen then 8 else 0
  frame.getD 0 0 :: (second ||| maskedBit) ::
    ((frame.drop 2).take extra ++ key ++ applyMask key (frame.drop (2 + extra)))

/-- The shortest form for a length. -/
def lenForm (n : Nat) : LenForm :=
  if n ≤ 125 then .short else if n ≤ 0xffff then .medium else .long

theorem lenForm_holds {n : Nat} (fits : n < 2 ^ 64) : (lenForm n).Holds n := by
  unfold lenForm
  split_ifs with short medium
  · exact short
  · exact Nat.lt_succ_of_le medium
  · exact fits

/-- The text frame with this payload, in the shortest form. -/
def textFrame (key text : Bytes) (four : key.length = 4)
    (fits : 6 + (lenForm text.length).extra + text.length < 2 ^ 64) : Frame where
  first := 0x81
  form := lenForm text.length
  mask := some key
  payload := text
  mask_length := by
    rintro _ ⟨rfl⟩
    exact four
  holds := lenForm_holds (by omega)
  countable := fits

theorem short_second (n : Nat) (short : n ≤ 125) :
    UInt8.ofNat n ≠ payloadMedium ∧ UInt8.ofNat n ≠ maskLen := by
  revert n
  decide

/-- The bytes of a frame that the server could have sent, and what masking makes of
them, by the length bytes. -/
theorem maskFrame_bytes (key : Bytes) (second : UInt8) (extended text : Bytes)
    (extra : extended.length =
      if second = payloadMedium then 2 else if second = maskLen then 8 else 0) :
    maskFrame key (0x81 :: second :: (extended ++ text)) =
      0x81 :: (0x80 ||| second) :: (extended ++ key ++ applyMask key text) := by
  have behind : (0x81 :: second :: (extended ++ text)).drop (2 + extended.length) = text := by
    rw [← List.drop_drop]
    exact List.drop_left
  have cut : (extended ++ text).take extended.length = extended := List.take_left
  simp only [maskFrame, List.getD_cons_zero, List.getD_cons_succ, ← extra, behind]
  simp only [List.drop_succ_cons, List.drop_zero, cut, UInt8.or_comm second, maskedBit]

theorem maskFrame_shape (key : Bytes) (m : Message) :
    maskFrame key (protocolRfc6455Frame m) = 0x81 ::
      (0x80 ||| (lenForm m.text.length).code m.text.length) ::
        (storeBE (lenForm m.text.length).extra m.text.length ++ key ++ applyMask key m.text) := by
  have frame : protocolRfc6455Frame m = 0x81 ::
      ((if m.text.length ≤ 125 then [UInt8.ofNat m.text.length]
        else if m.text.length ≤ 0xffff then 126 :: storeBE 2 m.text.length
        else 127 :: storeBE 8 m.text.length) ++ m.text) := rfl
  rw [frame, lenForm]
  -- the three classes of a length
  split_ifs with short medium
  · obtain ⟨notMedium, notLong⟩ := short_second m.text.length short
    exact maskFrame_bytes key _ [] m.text (by rw [if_neg notMedium, if_neg notLong]; rfl)
  · exact maskFrame_bytes key 126 _ m.text (length_storeBE 2 _)
  · exact maskFrame_bytes key 127 _ m.text (length_storeBE 8 _)

theorem maskFrame_length {key : Bytes} {m : Message} (four : key.length = 4) :
    (maskFrame key (protocolRfc6455Frame m)).length =
      6 + (lenForm m.text.length).extra + m.text.length := by
  rw [maskFrame_shape]
  simp only [List.length_cons, List.length_append, length_storeBE, length_applyMask, four]
  omega

theorem textFrame_opcode {key text : Bytes} (four : key.length = 4)
    (fits : 6 + (lenForm text.length).extra + text.length < 2 ^ 64) :
    (textFrame key text four fits).opcode = opcodeText := by
  have low : (0x81 &&& 0x0f : UInt8) = 1 := by decide
  exact low

theorem maskFrame_eq (key : Bytes) (m : Message) (four : key.length = 4)
    (fits : 6 + (lenForm m.text.length).extra + m.text.length < 2 ^ 64) :
    maskFrame key (protocolRfc6455Frame m) = (textFrame key m.text four fits).encode := by
  rw [maskFrame_shape]
  simp [Frame.encode, Frame.header, Frame.body, Frame.masked, textFrame]

/-- A text frame that a client sends is the item the framer finds. -/
theorem rfc6455Next_encode (f : Frame) (masked : f.masked) (text : f.opcode = opcodeText)
    (valid : utf8Validate f.payload) (rest : Bytes) :
    rfc6455Framer.next (f.encode ++ rest) = .item f.encode.length f.payload := by
  let handle : RawHandle := fun conn _ => (conn, .ok)
  let conn : Conn := { rbuff := f.encode ++ rest }
  have handed := route_frame handle conn [] rest f masked text rfl
  rw [if_pos valid] at handed
  have used : (rfc6455Route handle conn 0).used = f.encode.length := by
    obtain ⟨room, -, decoded⟩ := decode_frame conn [] rest f masked text rfl
    rw [if_pos valid] at decoded
    rw [rfc6455Route, show decode conn 0 = _ from decoded]
    exact Nat.zero_add _
  -- the route function says what its framer found
  cases next : rfc6455Framer.next (f.encode ++ rest) with
  | more =>
    have here : rfc6455Framer.next (conn.rbuff.drop 0) = .more := next
    have routed : rfc6455Route handle conn 0 = _ := rfc6455_follows.more here
    have none := handed.symm.trans (congrArg Routed.handed routed)
    cases none
  | bad why =>
    have here : rfc6455Framer.next (conn.rbuff.drop 0) = .bad why := next
    obtain ⟨rbuff, routed⟩ := rfc6455_follows.bad handle here (Nat.zero_le _)
    have none := handed.symm.trans (congrArg Routed.handed routed)
    cases none
  | item n event =>
    have here : rfc6455Framer.next (conn.rbuff.drop 0) = .item n event := next
    obtain ⟨rbuff, -, -, -, routed⟩ := rfc6455_follows.item handle here (Nat.zero_le _)
    have same := handed.symm.trans (congrArg Routed.handed routed)
    have size := used.symm.trans (congrArg Routed.used routed)
    rw [Nat.zero_add] at size
    rw [Option.some.inj same, size]

/-! ### The loop of `_route` -/

namespace App

variable {α : Type} (app : App α)

/-- The handlers of some events, one after the other. -/
def routes : α → List RawEvent → α
  | state, [] => state
  | state, ev :: evs => routes (app.evsRoute state ev).1 evs

/-- `errno` is not `ERANGE` whenever one of the events is parsed. -/
def Clean : α → List RawEvent → Prop
  | _, [] => True
  | state, ev :: evs => app.erange state = false ∧ Clean (app.evsRoute state ev).1 evs

/-- The same server, which keeps what `evs_route` was called with. -/
def traced : App (α × List RawEvent) where
  erange s := app.erange s.1
  evsRoute s ev :=
    let (state, acts, left) := app.evsRoute s.1 ev
    ((state, s.2 ++ [ev]), acts, left)
  refused s event := (app.refused s.1 event, s.2)
  httpRoute s p used :=
    match app.httpRoute s.1 p used with
    | .routed state used status closes => .routed (state, s.2) used status closes
    | .upgraded state => .upgraded (state, s.2)
  httpHeartbeat s p := app.httpHeartbeat s.1 p

theorem traced_routes (s : α × List RawEvent) (evs : List RawEvent) :
    app.traced.routes s evs = (app.routes s.1 evs, s.2 ++ evs) := by
  induction evs generalizing s with
  | nil => simp [routes]
  | cons ev evs ih =>
    have later := ih ((app.evsRoute s.1 ev).1, s.2 ++ [ev])
    rw [List.append_assoc] at later
    exact later

theorem traced_clean {s : α × List RawEvent} {evs : List RawEvent} (clean : app.Clean s.1 evs) :
    app.traced.Clean s evs := by
  induction evs generalizing s with
  | nil => trivial
  | cons ev evs ih => exact ⟨clean.1, ih clean.2⟩

end App

namespace Served

variable {α : Type} {app : App α} {prot : Prot} {F : EventFramer}
  {routeFn : RawHandle → Conn → Nat → Routed}

/-- A run of items in the buffer that all parse: their events are routed in order,
and every byte is used, whatever the handlers do to the client. -/
theorem routeLoop_carries (routes : Routes app prot F routeFn) (now : Int) (fuel : Nat)
    (s : Served α) (used : Nat) (texts : List Bytes) (evs : List RawEvent)
    (speaks : s.peer.prot = some prot) (inside : used ≤ s.peer.conn.rbuff.length)
    (enough : s.peer.conn.rbuff.length - used < fuel)
    (carries : F.Carries (s.peer.conn.rbuff.drop used) texts)
    (parse : texts.map (parseEvent false) = evs.map some) (clean : app.Clean s.state evs) :
    (routeLoop app now fuel s used).state = app.routes s.state evs ∧
      (routeLoop app now fuel s used).peer.conn.rbuff = [] := by
  induction fuel generalizing s used texts evs with
  | zero => omega
  | succ fuel ih =>
    generalize rest_eq : s.peer.conn.rbuff.drop used = rest at carries
    cases carries with
    | nil =>
      have none : evs = [] := by simpa using parse.symm
      subst none
      have more : F.next (s.peer.conn.rbuff.drop used) = .more := by
        rw [rest_eq]
        exact routes.empty
      simp only [routeLoop, routes.route s now used speaks]
      rw [routes.follows.more more]
      exact ⟨rfl, by simp [handled, erase, rest_eq]⟩
    | @cons _ n text texts next later =>
      obtain ⟨ev, evs, rfl⟩ : ∃ ev evs', evs = ev :: evs' := by
        cases evs with
        | nil => cases parse
        | cons ev evs => exact ⟨ev, evs, rfl⟩
      obtain ⟨parsed, parse⟩ := List.cons.inj parse
      obtain ⟨noRange, clean⟩ := clean
      rw [← rest_eq] at next later
      obtain ⟨positive, size⟩ := F.size next
      rw [List.length_drop] at size
      obtain ⟨t, found, took⟩ := protRoute_item routes now s speaks inside next
      have reaction : app.rawHandle s.state text =
          { state := (app.evsRoute s.state ev).1, acts := (app.evsRoute s.state ev).2.1,
            left := (app.evsRoute s.state ev).2.2, status := .ok } := by
        rw [App.rawHandle, noRange, parsed]
      have state : t.state = (app.evsRoute s.state ev).1 := by
        have seen := congrArg Served.state took.seen
        rw [reaction] at seen
        exact seen
      rw [List.drop_drop, ← took.waiting] at later
      rw [routeLoop, found, reaction]
      dsimp only
      split
      next more =>
        have rest := ih { t with peer := { t.peer with lastRecv := now } } (used + n) texts evs
          (took.prot.trans speaks) more.le
          (show t.peer.conn.rbuff.length - (used + n) < fuel by rw [took.length]; omega)
          later parse (by rw [state]; exact clean)
        rw [App.routes, ← state]
        exact rest
      next done =>
        have none : t.peer.conn.rbuff.drop (used + n) = [] :=
          List.drop_of_length_le (Nat.not_lt.mp done)
        rw [none] at later
        -- nothing is found in no bytes
        cases later with
        | nil =>
          have none' : evs = [] := by simpa using parse.symm
          subst none'
          exact ⟨state, none⟩
        | cons next' _ =>
          rw [routes.empty] at next'
          cases next'

end Served

/-! ### Streams of frames -/

/-- A message with the key a client would mask its frame with. -/
structure Letter where
  key : Bytes
  message : Message
deriving DecidableEq, Repr

/-- The frame of a message as a client sends it. -/
def Letter.wire (prot : Prot) (letter : Letter) : Bytes :=
  match prot with
  | .rfc6455 => maskFrame letter.key (protocolRfc6455Frame letter.message)
  | _ => protocolRawFrame letter.message

/-- What a message has to be for its protocol. -/
structure Letter.Sendable (prot : Prot) (letter : Letter) : Prop where
  noColon : colon ∉ letter.message.evPath ++ letter.message.evExtra
  path : 0 ∉ letter.message.evPath ++ letter.message.evExtra
  json : 0 ∉ letter.message.json
  four : prot = .rfc6455 → letter.key.length = 4
  valid : prot = .rfc6455 → utf8Validate letter.message.text = true

/-- The framer of a protocol. -/
def Prot.framer : Prot → EventFramer
  | .rfc6455 => rfc6455Framer
  | _ => rawFramer

/-- A frame as a client sends it is the item the framer finds. -/
theorem Letter.next_wire {prot : Prot} (framed : prot = .raw ∨ prot = .rfc6455) {letter : Letter}
    (sendable : letter.Sendable prot) (fits : (letter.wire prot).length < 2 ^ 64) :
    prot.framer.next (letter.wire prot) =
      .item (letter.wire prot).length letter.message.text := by
  rcases framed with rfl | rfl
  · exact rawNext_frame (Message.text_noNul sendable.path sendable.json) fits
  · have four := sendable.four rfl
    have size : (letter.wire .rfc6455).length =
        6 + (lenForm letter.message.text.length).extra + letter.message.text.length :=
      maskFrame_length four
    have frame : letter.wire .rfc6455 =
        (textFrame letter.key letter.message.text four (size ▸ fits)).encode :=
      maskFrame_eq letter.key letter.message four (size ▸ fits)
    have found := rfc6455Next_encode (textFrame letter.key letter.message.text four (size ▸ fits))
      rfl (textFrame_opcode four (size ▸ fits)) (sendable.valid rfl) []
    rw [List.append_nil, ← frame] at found
    exact found

/-- What is sent in frames is routed: a handshaked client of the raw protocol or of
RFC 6455 whose buffer holds the frames of some messages has `evs_route` called with
exactly these, in order, and no byte is left. -/
theorem Served.encode_decode {α : Type} (app : App α) (prot : Prot)
    (framed : prot = .raw ∨ prot = .rfc6455) (letters : List Letter)
    (sendable : ∀ letter ∈ letters, letter.Sendable prot) (s : Served (α × List RawEvent))
    (speaks : s.Speaks prot)
    (buffer : s.peer.conn.rbuff = (letters.map (Letter.wire prot)).flatten)
    (fits : s.peer.conn.rbuff.length < 2 ^ 64)
    (clean : app.Clean s.state.1 (letters.map fun letter => letter.message.event)) (now : Int) :
    (s.route app.traced now).state.2 = s.state.2 ++ letters.map (fun letter => letter.message.event) ∧
      (s.route app.traced now).peer.conn.rbuff = [] := by
  -- each letter is one frame of the buffer
  have carries : prot.framer.Carries s.peer.conn.rbuff
      (letters.map fun letter => letter.message.text) := by
    have pieces := prot.framer.carries_flatten
      (letters.map fun letter => (letter.wire prot, letter.message.text)) (by
        intro p member
        obtain ⟨letter, sent, rfl⟩ := List.mem_map.mp member
        refine letter.next_wire framed (sendable letter sent) ?_
        have part := (List.sublist_flatten_of_mem
          (List.mem_map_of_mem (f := Letter.wire prot) sent)).length_le
        rw [← buffer] at part
        omega)
    rw [List.map_map, List.map_map] at pieces
    rw [buffer]
    exact pieces
  -- and its text parses to its event
  have parse : (letters.map fun letter => letter.message.text).map (parseEvent false) =
      (letters.map fun letter => letter.message.event).map some := by
    rw [List.map_map, List.map_map]
    exact List.map_congr_left fun letter member =>
      Message.parse_text (sendable letter member).noColon
  have cleans := app.traced_clean clean
  have routed : (s.route app.traced now).state =
        app.traced.routes s.state (letters.map fun letter => letter.message.event) ∧
      (s.route app.traced now).peer.conn.rbuff = [] := by
    -- the loops of the two protocols differ in their framer only
    rcases framed with rfl | rfl
    · exact routeLoop_carries (raw_routes app.traced) now _ s 0 _ _ speaks.1 (Nat.zero_le _)
        (Nat.lt_succ_self _) carries parse cleans
    · exact routeLoop_carries (rfc6455_routes app.traced) now _ s 0 _ _ speaks.1 (Nat.zero_le _)
        (Nat.lt_succ_self _) carries parse cleans
  rw [routed.1, app.traced_routes]
  exact ⟨rfl, routed.2⟩

/-- A ping and an answer, on a WebSocket. -/
theorem Served.encode_decode_pings :
    let letters : List Letter := [
      ⟨str "abcd", ⟨str "/qio", str "/ping", 1, str "null"⟩⟩,
      ⟨[0, 0, 0, 0], ⟨str "/qio/callback/65536", [], 0xffffffffffffffff, str "a:1=b"⟩⟩]
    let buffer := (letters.map (Letter.wire .rfc6455)).flatten
    let s : Served (Unit × List RawEvent) :=
      ⟨((), []), { prot := some .rfc6455, handshaked := true, conn := { rbuff := buffer } }⟩
    (s.route answering.traced 0).state.2 = s.state.2 ++ letters.map (fun l => l.message.event) ∧
      (s.route answering.traced 0).peer.conn.rbuff = [] := by
  apply encode_decode answering .rfc6455 (Or.inr rfl)
  · intro letter member
    rcases List.mem_pair.mp member with rfl | rfl
    · exact ⟨by decide, by decide, by decide, fun _ => rfl, fun _ => by decide⟩
    · exact ⟨by decide, by decide, by decide, fun _ => rfl, fun _ => by decide⟩
  · exact ⟨rfl, rfl⟩
  · rfl
  · decide
  · exact ⟨rfl, rfl, trivial⟩

end QuickIO
