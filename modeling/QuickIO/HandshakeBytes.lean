import QuickIO.Decoding
import QuickIO.RoundTrip

/-!
# Bytes behind the handshake

The handshake functions clear the read buffer. What came behind `/qio/ohai` in one read with
it is lost, so the frames there are dispatched where a read begins with the first of them,
and a client that began anywhere else in them never gets all of them dispatched.
-/
namespace QuickIO

open Lib Lib.WebSocket

/-! ### What is dispatched -/

/-- What `protocol_raw_handle` was given. -/
def Peer.dispatched (p : Peer) : List Bytes :=
  p.log.filterMap fun
    | .event event => some event
    | _ => none

namespace Peer

theorem dispatched_event (p : Peer) (event : Bytes) :
    (p.record (.event event)).dispatched = p.dispatched ++ [event] := by
  simp [dispatched, record]

theorem dispatched_setConn (p : Peer) (conn : Conn) :
    (p.setConn conn).dispatched = p.dispatched := by
  simp only [setConn]
  split
  next => simp [dispatched, record]
  next => rfl

theorem dispatched_acts (now : Int) (acts : List PeerAct) (p : Peer) :
    (acts.foldl (Peer.act now) p).dispatched = p.dispatched := by
  induction acts generalizing p with
  | nil => rfl
  | cons a acts ih =>
    have one : (Peer.act now p a).dispatched = p.dispatched := by
      cases a with
      | send m =>
        simp only [act, protocolsSend]
        split
        next =>
          split
          next => rfl
          next => simp [dispatched, record]
        next => rfl
      | close reason => exact p.dispatched_setConn _
    exact (ih (Peer.act now p a)).trans one

end Peer

namespace App

variable {α : Type} (app : App α)

/-- The events are taken one after the other, and no handler closes the client. -/
def Takes : α → List Bytes → Prop
  | _, [] => True
  | state, event :: events =>
    (app.rawHandle state event).status = .ok ∧
      (∀ reason, .close reason ∉ (app.rawHandle state event).acts) ∧
      Takes (app.rawHandle state event).state events

/-- What the handlers of the events make of the state. -/
def handleAll (state : α) (events : List Bytes) : α :=
  events.foldl (fun state event => (app.rawHandle state event).state) state

theorem rawHandle_status (state : α) (event : Bytes) :
    (app.rawHandle state event).status = .ok ∨ (app.rawHandle state event).status = .fatal := by
  simp only [App.rawHandle]
  split
  next => exact .inr rfl
  next => exact .inl rfl

theorem takes_append (state : α) (first second : List Bytes) :
    app.Takes state (first ++ second) ↔
      app.Takes state first ∧ app.Takes (app.handleAll state first) second := by
  induction first generalizing state with
  | nil => simp [Takes, handleAll]
  | cons event first ih =>
    simp only [List.cons_append, Takes, ih, and_assoc]
    rfl

end App

namespace Served

variable {α : Type} {app : App α} {prot : Prot} {F : EventFramer}
  {routeFn : RawHandle → Conn → Nat → Routed}

theorem Took.dispatched {s t : Served α} {event : Bytes} {behind : Nat}
    (took : Took app s t event behind) : t.peer.dispatched = s.peer.dispatched ++ [event] := by
  have log : t.seen.peer.dispatched = (s.seen.peer.record (.event event)).dispatched := by
    rw [took.seen]
    exact Peer.dispatched_acts 0 _ _
  exact log.trans (s.seen.peer.dispatched_event event)

theorem Took.state {s t : Served α} {event : Bytes} {behind : Nat}
    (took : Took app s t event behind) : t.state = (app.rawHandle s.state event).state :=
  congrArg Served.state took.seen

/-- `t` is what the bytes `bs` have made of `s`: it was given `events`, and waits for what
belongs behind `rest`. -/
structure Fetched (app : App α) (prot : Prot) (F : EventFramer) (s t : Served α) (bs : Bytes)
    (events : List Bytes) (rest : Bytes) : Prop where
  speaks : t.Speaks prot
  finds : F.Finds bs events rest
  dispatched : t.peer.dispatched = s.peer.dispatched ++ events
  waits : t.peer.conn.closing = none → t.peer.conn.rbuff = rest ∧ F.next rest = .more
  taken : s.peer.conn.closing = none → app.Takes s.state events →
    (∀ why, F.next rest ≠ .bad why) →
      t.peer.conn.closing = none ∧ t.state = app.handleAll s.state events

/-- Nothing is found, and what has been used is erased. -/
theorem erase_fetched (s : Served α) (used : Nat) (speaks : s.Speaks prot)
    (more : F.next (s.peer.conn.rbuff.drop used) = .more) :
    Fetched app prot F s (s.erase used) (s.peer.conn.rbuff.drop used) []
      (s.peer.conn.rbuff.drop used) where
  speaks := speaks
  finds := .nil _
  dispatched := (List.append_nil _).symm
  waits _ := ⟨rfl, more⟩
  taken isOpen _ _ := ⟨isOpen, rfl⟩

/-- The loop goes on behind an event. -/
theorem Took.fetched {s t u : Served α} {bs rest event : Bytes} {n behind : Nat}
    {events : List Bytes} (took : Took app s t event behind)
    (next : F.next bs = .item n event)
    (later : Fetched app prot F t u (bs.drop n) events rest) :
    Fetched app prot F s u bs (event :: events) rest where
  speaks := later.speaks
  finds := .cons next later.finds
  dispatched := by
    rw [later.dispatched, took.dispatched, List.append_assoc]
    rfl
  waits := later.waits
  taken isOpen takes good := by
    obtain ⟨-, kept, takes⟩ := takes
    rw [← took.state] at takes
    obtain ⟨stays, state⟩ := later.taken ((took.closing kept).trans isOpen) takes good
    exact ⟨stays, by rw [state, took.state]; rfl⟩

/-- `_route` closes the client. -/
theorem closed_erase (s : Served α) (used : Nat) (speaks : s.Speaks prot) :
    let t := { s with peer := s.peer.qevClose .unknownError }.erase used
    t.Speaks prot ∧ t.peer.dispatched = s.peer.dispatched ∧ t.peer.conn.closing ≠ none := by
  refine ⟨⟨(Peer.setConn_prot _ _).trans speaks.1, (Peer.setConn_handshaked _ _).trans speaks.2⟩,
    Peer.dispatched_setConn _ _, fun isOpen => ?_⟩
  have closed := s.peer.qevClose_closing .unknownError
  exact Bool.noConfusion (closed.symm.trans (congrArg Option.isNone isOpen))

/-- The loop of `_route`, whatever the handlers do to the client. -/
theorem routeLoop_fetched (routes : Routes app prot F routeFn) (now : Int) (fuel : Nat)
    (s : Served α) (used : Nat) (speaks : s.Speaks prot)
    (inside : used ≤ s.peer.conn.rbuff.length)
    (enough : s.peer.conn.rbuff.length - used < fuel) :
    ∃ events rest, Fetched app prot F s (routeLoop app now fuel s used)
      (s.peer.conn.rbuff.drop used) events rest := by
  induction fuel generalizing s used with
  | zero => omega
  | succ fuel ih =>
    match next : F.next (s.peer.conn.rbuff.drop used) with
    | .more =>
      have still : s.peer.setConn s.peer.conn = s.peer := s.peer.setConn_same s.peer.conn rfl
      simp only [routeLoop, routes.route s now used speaks.1]
      rw [routes.follows.more next]
      simp only [handled, still]
      exact ⟨_, _, s.erase_fetched used speaks next⟩
    | .bad why =>
      obtain ⟨rbuff, routed⟩ := routes.follows.bad (app.handleAt s.state used) next inside
      simp only [routeLoop, routes.route s now used speaks.1]
      rw [routed]
      let refused := ({ s.peer.conn with rbuff } : Conn).closeWhy why
      have speaks' : ({ s with peer := s.peer.setConn refused } : Served α).Speaks prot :=
        ⟨(Peer.setConn_prot _ _).trans speaks.1, (Peer.setConn_handshaked _ _).trans speaks.2⟩
      obtain ⟨speaks', dispatched, closed⟩ := closed_erase _ used speaks'
      refine ⟨[], s.peer.conn.rbuff.drop used, speaks', .nil _, ?_,
        fun isOpen => absurd isOpen closed, fun _ _ good => absurd next (good why)⟩
      rw [List.append_nil]
      exact dispatched.trans (Peer.dispatched_setConn _ _)
    | .item n event =>
      obtain ⟨positive, size⟩ := F.size next
      rw [List.length_drop] at size
      obtain ⟨t, found, took⟩ := protRoute_item routes now s speaks.1 inside next
      have speaks' : t.Speaks prot := ⟨took.prot.trans speaks.1, took.handshaked.trans speaks.2⟩
      have behind : (s.peer.conn.rbuff.drop used).drop n = t.peer.conn.rbuff.drop (used + n) := by
        rw [List.drop_drop, took.waiting]
      rw [routeLoop, found]
      rcases app.rawHandle_status s.state event with ok | fatal
      · rw [ok]
        dsimp only
        split
        next more =>
          obtain ⟨events, rest, later⟩ := ih { t with peer := { t.peer with lastRecv := now } }
            (used + n) speaks' more.le
            (show t.peer.conn.rbuff.length - (used + n) < fuel by rw [took.length]; omega)
          refine ⟨event :: events, rest, took.fetched next ?_⟩
          rw [behind]
          exact ⟨later.speaks, later.finds, later.dispatched, later.waits, later.taken⟩
        next done =>
          have none : t.peer.conn.rbuff.drop (used + n) = [] :=
            List.drop_of_length_le (Nat.not_lt.mp done)
          have more : F.next (t.peer.conn.rbuff.drop (used + n)) = .more := by
            rw [none]
            exact routes.empty
          have erased : Fetched app prot F t (t.erase (used + n)) _ [] _ :=
            t.erase_fetched (used + n) speaks' more
          refine ⟨[event], t.peer.conn.rbuff.drop (used + n), took.fetched next ?_⟩
          rw [behind]
          exact ⟨erased.speaks, erased.finds, erased.dispatched, erased.waits, erased.taken⟩
      · obtain ⟨speaks'', dispatched, closed⟩ := t.closed_erase (used + n) speaks'
        rw [fatal]
        refine ⟨[event], _, speaks'', .cons next (.nil _), dispatched.trans took.dispatched,
          fun isOpen => absurd isOpen closed, fun _ takes _ => ?_⟩
        have ok := takes.1
        rw [fatal] at ok
        cases ok

theorem read_fetched (routes : Routes app prot F routeFn) (now : Int) (s : Served α)
    (bytes : Bytes) (speaks : s.Speaks prot) (isOpen : s.peer.conn.closing = none) :
    ∃ events rest, Fetched app prot F s (s.read app now bytes) (s.peer.conn.rbuff ++ bytes)
      events rest := by
  let t : Served α := { s with peer := { s.peer with
    conn := { s.peer.conn with rbuff := s.peer.conn.rbuff ++ bytes }, lastRecv := now } }
  have routed : s.read app now bytes = routeLoop app now (t.peer.conn.rbuff.length + 1) t 0 := by
    have notClosing : ¬s.peer.conn.closing.isSome := by simp [isOpen]
    simp only [read, if_neg notClosing, protocolsRoute, speaks.1, shakeOrRoute, speaks.2, if_true,
      route, t]
  rw [routed]
  obtain ⟨events, rest, fetched⟩ := routeLoop_fetched routes now (t.peer.conn.rbuff.length + 1) t 0
    speaks (Nat.zero_le _) (Nat.lt_succ_self _)
  exact ⟨events, rest, fetched.speaks, fetched.finds, fetched.dispatched, fetched.waits,
    fetched.taken⟩

/-- Nothing is read from a client that is closing. -/
theorem reads_closing (s : Served α) (reads : List (Int × Bytes))
    (closing : s.peer.conn.closing ≠ none) :
    reads.foldl (fun s r => s.read app r.1 r.2) s = s := by
  induction reads with
  | nil => rfl
  | cons r reads ih =>
    have still : s.read app r.1 r.2 = s := if_pos (Option.isSome_iff_ne_none.mpr closing)
    rw [List.foldl_cons, still, ih]

/-- What is dispatched of some reads is found in their bytes. -/
theorem reads_find (routes : Routes app prot F routeFn) (s : Served α) (speaks : s.Speaks prot)
    (reads : List (Int × Bytes)) :
    ∃ events rest, F.Finds (s.peer.conn.rbuff ++ (reads.map Prod.snd).flatten) events rest ∧
      (reads.foldl (fun s r => s.read app r.1 r.2) s).peer.dispatched =
        s.peer.dispatched ++ events := by
  induction reads generalizing s with
  | nil => exact ⟨[], _, .nil _, (List.append_nil _).symm⟩
  | cons r reads ih =>
    by_cases isOpen : s.peer.conn.closing = none
    · obtain ⟨events, rest, fetched⟩ := read_fetched routes r.1 s r.2 speaks isOpen
      have found := fetched.finds.append (reads.map Prod.snd).flatten
      rw [List.append_assoc] at found
      rw [List.map_cons, List.flatten_cons, List.foldl_cons]
      by_cases still : (s.read app r.1 r.2).peer.conn.closing = none
      · obtain ⟨later, rest', finds, dispatched⟩ := ih (s.read app r.1 r.2) fetched.speaks
        rw [(fetched.waits still).1] at finds
        refine ⟨events ++ later, rest', found.trans finds, ?_⟩
        rw [dispatched, fetched.dispatched, List.append_assoc]
      · rw [reads_closing _ reads still]
        exact ⟨events, _, found, fetched.dispatched⟩
    · rw [reads_closing s (r :: reads) isOpen]
      exact ⟨[], _, .nil _, (List.append_nil _).symm⟩

/-- Events that are taken, and begin where the client waits, are all dispatched. -/
theorem reads_take (routes : Routes app prot F routeFn) (s : Served α) (speaks : s.Speaks prot)
    (isOpen : s.peer.conn.closing = none) (waits : F.next s.peer.conn.rbuff = .more)
    (reads : List (Int × Bytes)) (texts : List Bytes)
    (carries : F.Carries (s.peer.conn.rbuff ++ (reads.map Prod.snd).flatten) texts)
    (takes : app.Takes s.state texts) :
    (reads.foldl (fun s r => s.read app r.1 r.2) s).peer.dispatched =
      s.peer.dispatched ++ texts := by
  induction reads generalizing s texts with
  | nil =>
    rw [List.map_nil, List.flatten_nil, List.append_nil] at carries
    generalize s.peer.conn.rbuff = bs at carries waits
    cases carries with
    | nil => exact (List.append_nil _).symm
    | cons next _ =>
      rw [waits] at next
      cases next
  | cons r reads ih =>
    obtain ⟨events, rest, fetched⟩ := read_fetched routes r.1 s r.2 speaks isOpen
    rw [List.map_cons, List.flatten_cons, ← List.append_assoc] at carries
    obtain ⟨later, rfl, run⟩ := (fetched.finds.append _).carries carries
    obtain ⟨first, second⟩ := (app.takes_append s.state events later).mp takes
    obtain ⟨stays, state⟩ := fetched.taken isOpen first (run.noBad routes.empty)
    obtain ⟨buffer, more⟩ := fetched.waits stays
    rw [← buffer] at run more
    rw [← state] at second
    rw [List.foldl_cons, ih _ fetched.speaks stays more later run second, fetched.dispatched,
      List.append_assoc]

end Served

/-! ### Frames of a client -/

/-- The bytes of a valid frame, and the event in it. -/
inductive ClientFrame : Prot → Bytes → Bytes → Prop
  | raw (event : Bytes) (noNul : 0 ∉ event) (short : event.length < 2 ^ 56) :
      ClientFrame .raw (storeBE 8 event.length ++ event) event
  | rfc6455 (f : Frame) (masked : f.masked) (text : f.opcode = opcodeText)
      (valid : utf8Validate f.payload) : ClientFrame .rfc6455 f.encode f.payload

theorem rawNext_size {bs event : Bytes} {n : Nat} (next : rawNext bs = .item n event) :
    event.length + 8 ≤ n := by
  simp only [rawNext] at next
  split at next
  next => cases next
  next long =>
    split at next
    next => cases next
    next total sum =>
      split at next
      next => cases next
      next whole =>
        cases next
        have total := qevSafeUadd_eq_some sum
        have cut := (List.takeWhile_sublist (· ≠ 0)
          (l := readAt bs 8 (loadBE (readAt bs 0 8)))).length_le
        have read := length_readAt bs 8 (loadBE (readAt bs 0 8)) (by omega)
        omega

/-- What the header of a frame says of its bytes: the opcode, and that a length fits
where it stands. -/
theorem decodeHead_bytes {bs mask : Bytes} {headerLen len : Nat}
    (head : decodeHead bs = .frame headerLen len mask) :
    bs.getD 0 0 &&& opcode = opcodeText ∧ len < 256 ^ (headerLen - 5) := by
  simp only [decodeHead] at head
  split_ifs at head with close six text bit low medium eight fourteen
  · cases head
    refine ⟨not_not.mp text, ?_⟩
    exact UInt8.toNat_lt _
  · cases head
    refine ⟨not_not.mp text, (loadBE_lt _).trans_le (Nat.pow_le_pow_right (by decide) ?_)⟩
    rw [length_readAt bs 2 2 (by omega)]
    decide
  · cases head
    refine ⟨not_not.mp text, (loadBE_lt _).trans_le (Nat.pow_le_pow_right (by decide) ?_)⟩
    rw [length_readAt bs 2 8 (by omega)]
    decide

theorem rfc6455Next_item {bs event : Bytes} {n : Nat} (next : rfc6455Next bs = .item n event) :
    ∃ headerLen mask, decodeHead bs = .frame headerLen event.length mask ∧
      n = headerLen + event.length := by
  simp only [rfc6455Next] at next
  split at next
  next => cases next
  next => cases next
  next headerLen len mask head =>
    split at next
    next => cases next
    next total sum =>
      obtain rfl := qevSafeUadd_eq_some sum
      split at next
      next => cases next
      next whole =>
        split at next
        next valid =>
          cases next
          have length : (applyMask mask (readAt bs headerLen len)).length = len := by
            rw [length_applyMask, length_readAt bs headerLen len (by omega)]
          rw [length]
          exact ⟨headerLen, mask, head, rfl⟩
        next => cases next

/-- Inside the length of a long header no frame begins that has the same length in a
shorter one: the byte there is the second one of the header, or a leading zero. -/
theorem opcode_inside {f : Frame} (masked : f.masked) (after : Bytes) {d k : Nat} (behind : 0 < d)
    (small : f.payload.length < 256 ^ k) (room : d + k ≤ 1 + f.form.extra) (some_ : 0 < k) :
    (f.encode ++ after).getD d 0 &&& opcode ≠ opcodeText := by
  obtain ⟨key, isKey⟩ := Option.isSome_iff_exists.mp masked
  have shape : f.encode ++ after = f.first :: (0x80 ||| f.form.code f.payload.length) ::
      (storeBE f.form.extra f.payload.length ++ (key ++ (f.body ++ after))) := by
    simp [Frame.encode, Frame.header, Frame.masked, isKey]
  have notText : (0x80 ||| 126) &&& opcode ≠ opcodeText ∧ (0x80 ||| 127) &&& opcode ≠ opcodeText := by
    decide
  rw [shape]
  obtain rfl | ⟨i, rfl⟩ : d = 1 ∨ ∃ i, d = i + 2 := by
    rcases Nat.eq_or_lt_of_le behind with one | more
    · exact Or.inl one.symm
    · exact Or.inr (Nat.exists_eq_add_of_le' more)
  · -- the second byte of the header
    rw [List.getD_cons_succ, List.getD_cons_zero]
    cases form : f.form with
    | short =>
      rw [form] at room
      simp only [LenForm.extra] at room
      omega
    | medium => exact notText.1
    | long => exact notText.2
  · -- a byte of the length
    have zero : (storeBE f.form.extra f.payload.length).getD i 0 = 0 :=
      getD_storeBE_high small (by omega)
    have inside : i < (storeBE f.form.extra f.payload.length).length := by
      rw [length_storeBE]
      omega
    rw [List.getD_cons_succ, List.getD_cons_succ, List.getD_append _ _ _ _ inside, zero]
    decide

namespace ClientFrame

variable {prot : Prot} {bytes event : Bytes}

theorem next (frame : ClientFrame prot bytes event) :
    prot.framer.next bytes = .item bytes.length event := by
  cases frame with
  | raw event noNul short =>
    have size : (storeBE 8 event.length ++ event).length = event.length + 8 := by
      rw [List.length_append, length_storeBE, Nat.add_comm]
    rw [size]
    exact rawNext_encode noNul (by omega)
  | rfc6455 f masked text valid =>
    have found := rfc6455Next_encode f masked text valid []
    rw [List.append_nil] at found
    exact found

theorem endsLate (frame : ClientFrame prot bytes event) :
    prot.framer.EndsLate bytes event := by
  intro after d n behind next
  cases frame with
  | raw event noNul short =>
    have size : event.length + 8 ≤ n := rawNext_size next
    rw [List.length_append, length_storeBE]
    omega
  | rfc6455 f masked text valid =>
    obtain ⟨headerLen, mask, head, rfl⟩ := rfc6455Next_item next
    obtain ⟨-, wide, -⟩ := decodeHead_frame head
    obtain ⟨isText, small⟩ := decodeHead_bytes head
    obtain ⟨key, isKey⟩ := Option.isSome_iff_exists.mp masked
    rw [Frame.encode, List.length_append, f.length_header key isKey, f.length_body]
    -- otherwise it would begin inside the length of this one
    by_contra early
    have first : ((f.encode ++ after).drop d).getD 0 0 = (f.encode ++ after).getD d 0 := by
      rw [List.getD_eq_getElem?_getD, List.getElem?_drop, Nat.add_zero,
        ← List.getD_eq_getElem?_getD]
    rw [first] at isText
    exact opcode_inside masked after behind small (by omega) (by omega) isText

/-- The length field of a raw frame begins with a NUL. -/
theorem begins (frame : ClientFrame .raw bytes event) : ∃ more, bytes = 0 :: more := by
  cases frame with
  | raw event noNul short =>
    have zero : (storeBE 8 event.length).getD 0 0 = 0 :=
      getD_storeBE_high (k := 7) (by omega) (by decide)
    cases field : storeBE 8 event.length with
    | nil =>
      have eight := length_storeBE 8 event.length
      rw [field] at eight
      cases eight
    | cons c more =>
      rw [field] at zero
      obtain rfl : c = 0 := zero
      exact ⟨more ++ event, rfl⟩

theorem hidden {frames : List (Bytes × Bytes)} (valid : ∀ p ∈ frames, ClientFrame .raw p.1 p.2) :
    ∀ c ∈ (frames.map Prod.fst).flatten.head?, c = 0 := by
  intro c first
  cases frames with
  | nil => cases first
  | cons p frames =>
    obtain ⟨more, shape⟩ := (valid p List.mem_cons_self).begins
    rw [List.map_cons, List.flatten_cons, shape] at first
    exact (Option.some.inj first).symm

end ClientFrame

/-! ### The handshake -/

/-- The handshake as a client sends it. -/
inductive Ohai : Prot → Bytes → Prop
  | raw : Ohai .raw handshakeText
  | rfc6455 {bytes : Bytes} (frame : ClientFrame .rfc6455 bytes handshakeText) : Ohai .rfc6455 bytes

theorem Ohai.nonempty {prot : Prot} {ohai : Bytes} (isOhai : Ohai prot ohai) :
    0 < ohai.length := by
  cases isOhai with
  | raw => decide
  | rfc6455 frame =>
    obtain ⟨positive, -⟩ := Framer.size _ frame.next
    exact positive

theorem Ohai.routes {α : Type} (app : App α) {prot : Prot} {ohai : Bytes}
    (isOhai : Ohai prot ohai) : ∃ routeFn, Served.Routes app prot prot.framer routeFn := by
  cases isOhai with
  | raw => exact ⟨_, Served.raw_routes app⟩
  | rfc6455 frame => exact ⟨_, Served.rfc6455_routes app⟩

/-- A client that is new, or has just been upgraded, and has sent these bytes of its
handshake. -/
structure Shaking {α : Type} (prot : Prot) (s : Served α) (sent : Bytes) : Prop where
  prot : s.peer.prot = if prot = .raw then none else some prot
  handshaked : s.peer.handshaked = false
  isOpen : s.peer.conn.closing = none
  buffer : s.peer.conn.rbuff = sent

/-- What `_find_handler` makes of a part of the handshake. -/
theorem handles_part : ∀ n < handshakeText.length,
    ([Prot.http, .flash, .raw, .rfc6455].find? fun prot =>
      prot.handles (handshakeText.take n) = .yes) = none ∧
      Prot.http.handles (handshakeText.take n) = .maybe := by
  decide

theorem Peer.findHandler_part (p : Peer) {rest : Bytes}
    (split : p.conn.rbuff ++ rest = handshakeText) (short : rest ≠ []) : p.findHandler = p := by
  have more : 0 < rest.length := List.length_pos_iff.mpr short
  have noNul : 0 ∉ handshakeText := by decide
  have noNul' : 0 ∉ p.conn.rbuff := fun member =>
    noNul (split ▸ List.mem_append_left rest member)
  have part : p.rbuffStr = handshakeText.take p.conn.rbuff.length := by
    rw [Peer.rbuffStr, takeWhile_noNul noNul', ← split, List.take_left]
  have fits : p.conn.rbuff.length < handshakeText.length := by
    rw [← split, List.length_append]
    omega
  obtain ⟨unknown, waits⟩ := handles_part p.conn.rbuff.length fits
  rw [← part] at unknown waits
  simp only [Peer.findHandler, unknown]
  exact if_pos (by simp [waits])

/-- A NUL behind the handshake hides what follows it. -/
theorem Peer.findHandler_raw (p : Peer) {behind : Bytes}
    (buffer : p.conn.rbuff = handshakeText ++ behind) (hidden : ∀ c ∈ behind.head?, c = 0) :
    p.findHandler = p.setProt .raw := by
  have noNul : 0 ∉ handshakeText := by decide
  have string : p.rbuffStr = handshakeText := by
    rw [Peer.rbuffStr, buffer]
    cases behind with
    | nil => rw [List.append_nil, takeWhile_noNul noNul]
    | cons c behind =>
      obtain rfl := hidden c rfl
      exact takeWhile_text handshakeText behind noNul
  have found : ([Prot.http, .flash, .raw, .rfc6455].find? fun prot =>
      prot.handles handshakeText = .yes) = some .raw := by decide
  simp only [Peer.findHandler, string, found]

namespace Shaking

variable {α : Type} (app : App α) {prot : Prot} {s : Served α} {sent ohai : Bytes}

/-- A read that does not complete the handshake. -/
theorem part (shaking : Shaking prot s sent) (isOhai : Ohai prot ohai) (now : Int)
    {bytes rest : Bytes} (split : sent ++ bytes ++ rest = ohai) (short : rest ≠ []) :
    let t := s.read app now bytes
    Shaking prot t (sent ++ bytes) ∧ t.state = s.state ∧
      t.peer.dispatched = s.peer.dispatched := by
  have notClosing : ¬s.peer.conn.closing.isSome := by simp [shaking.isOpen]
  have buffer : s.peer.conn.rbuff ++ bytes = sent ++ bytes := congrArg (· ++ bytes) shaking.buffer
  let p : Peer := { s.peer with
    conn := { s.peer.conn with rbuff := s.peer.conn.rbuff ++ bytes }, lastRecv := now }
  cases isOhai with
  | raw =>
    have all : p.conn.rbuff ++ rest = handshakeText := by
      rw [← split, ← shaking.buffer]
    have waits : p.findHandler = p := p.findHandler_part all short
    have none : s.peer.prot = none := shaking.prot
    have read : s.read app now bytes = { s with peer := p } := by
      simp only [Served.read, if_neg notClosing, Served.protocolsRoute, none, p] at waits ⊢
      rw [waits]
    rw [read]
    exact ⟨⟨none, shaking.handshaked, shaking.isOpen, buffer⟩, rfl, rfl⟩
  | rfc6455 frame =>
    have upgraded : s.peer.prot = some .rfc6455 := shaking.prot
    have again : decode p.conn 0 = .again := by
      have all : p.conn.rbuff ++ rest = ohai := by
        rw [show p.conn.rbuff = sent ++ bytes from buffer, split]
      have whole : rfc6455Framer.next (p.conn.rbuff ++ rest) =
          .item (p.conn.rbuff ++ rest).length handshakeText := by
        rw [all]
        exact frame.next
      exact decode_more (rfc6455Framer.next_short whole short)
    have read : s.read app now bytes =
        { s with peer := p.record (.handshake .rfc6455 .again) } := by
      simp only [Served.read, if_neg notClosing, Served.protocolsRoute, upgraded,
        Served.shakeOrRoute, shaking.handshaked, Peer.handshake, Peer.protHandshake, p] at again ⊢
      rw [again]
      rfl
    rw [read]
    refine ⟨⟨upgraded, shaking.handshaked, shaking.isOpen, buffer⟩, rfl, ?_⟩
    simp [Peer.dispatched, Peer.record, p]

/-- The read that completes the handshake: what is behind it is gone. -/
theorem whole (shaking : Shaking prot s sent) (isOhai : Ohai prot ohai) (now : Int)
    {bytes behind : Bytes} (split : sent ++ bytes = ohai ++ behind)
    (hidden : prot = .raw → ∀ c ∈ behind.head?, c = 0) :
    let t := s.read app now bytes
    t.Speaks prot ∧ t.peer.conn.closing = none ∧ t.peer.conn.rbuff = [] ∧ t.state = s.state ∧
      t.peer.dispatched = s.peer.dispatched := by
  have notClosing : ¬s.peer.conn.closing.isSome := by simp [shaking.isOpen]
  let p : Peer := { s.peer with
    conn := { s.peer.conn with rbuff := s.peer.conn.rbuff ++ bytes }, lastRecv := now }
  have buffer : p.conn.rbuff = ohai ++ behind := by
    rw [← split, ← shaking.buffer]
  cases isOhai with
  | raw =>
    have found : p.findHandler = p.setProt .raw := p.findHandler_raw buffer (hidden rfl)
    have none : s.peer.prot = none := shaking.prot
    have read : s.read app now bytes = { s with peer := (p.setProt .raw).handshake now .raw } := by
      simp only [Served.read, if_neg notClosing, Served.protocolsRoute, none, p] at found ⊢
      rw [found]
      simp only [Peer.setProt, Peer.record, Served.shakeOrRoute, shaking.handshaked]
      rfl
    rw [read]
    refine ⟨⟨rfl, rfl⟩, shaking.isOpen, rfl, rfl, ?_⟩
    simp [Peer.dispatched, Peer.handshake, Peer.protHandshake, Peer.setHandshaked, Peer.setProt,
      Peer.record, p]
  | rfc6455 frame =>
    have upgraded : s.peer.prot = some .rfc6455 := shaking.prot
    generalize event_eq : handshakeText = event at frame
    cases frame with
    | rfc6455 f masked text valid =>
      obtain ⟨room, -, decoded⟩ := decode_frame p.conn [] behind f masked text buffer
      rw [if_pos valid] at decoded
      have string : ([] ++ (f.payload ++ (0 :: room ++ behind))).takeWhile (· ≠ 0) =
          handshakeText := by
        rw [List.nil_append, List.cons_append, event_eq]
        exact takeWhile_text f.payload _ (utf8Validate_noNul _ valid)
      have read : s.read app now bytes = { s with peer :=
          (({ p with conn := { p.conn with rbuff := [] } } : Peer).record
            (.handshake .rfc6455 .ok)).setHandshaked now } := by
        simp only [Served.read, if_neg notClosing, Served.protocolsRoute, upgraded,
          Served.shakeOrRoute, shaking.handshaked, Peer.handshake, Peer.protHandshake, p]
          at decoded ⊢
        rw [show decode _ 0 = _ from decoded]
        simp only [string]
        rfl
      rw [read]
      refine ⟨⟨upgraded, rfl⟩, shaking.isOpen, rfl, rfl, ?_⟩
      simp [Peer.dispatched, Peer.setHandshaked, Peer.record, p]

/-- Some of the reads are the handshake, with what comes in the last of them; the client
then waits for the others. -/
theorem reads (shaking : Shaking prot s sent) (isOhai : Ohai prot ohai)
    (reads : List (Int × Bytes)) {frames : Bytes} (hidden : prot = .raw → ∀ c ∈ frames.head?, c = 0)
    (short : sent.length < ohai.length)
    (cut : sent ++ (reads.map Prod.snd).flatten = ohai ++ frames) :
    ∃ first rest behind, reads = first ++ rest ∧
      sent ++ (first.map Prod.snd).flatten = ohai ++ behind ∧
      (∀ k, sent ++ ((reads.take k).map Prod.snd).flatten = ohai → behind = []) ∧
      let t := first.foldl (fun s r => s.read app r.1 r.2) s
      t.Speaks prot ∧ t.peer.conn.closing = none ∧ t.peer.conn.rbuff = [] ∧ t.state = s.state ∧
        t.peer.dispatched = s.peer.dispatched := by
  induction reads generalizing s sent with
  | nil =>
    have length := congrArg List.length cut
    simp only [List.map_nil, List.flatten_nil, List.append_nil, List.length_append] at length
    omega
  | cons r reads ih =>
    rw [List.map_cons, List.flatten_cons, ← List.append_assoc] at cut
    by_cases enough : ohai.length ≤ (sent ++ r.2).length
    · -- this read completes the handshake
      obtain ⟨behind, split⟩ := List.prefix_of_prefix_length_le ⟨frames, rfl⟩ ⟨_, cut⟩ enough
      rw [← split, List.append_assoc] at cut
      have later := List.append_cancel_left cut
      have hidden' : prot = .raw → ∀ c ∈ behind.head?, c = 0 := by
        intro raw c first
        refine hidden raw c ?_
        rw [← later, List.head?_append, Option.mem_def.mp first]
        rfl
      refine ⟨[r], reads, behind, rfl, ?_, fun k complete => ?_,
        shaking.whole app isOhai r.1 split.symm hidden'⟩
      · simpa using split.symm
      · have length := congrArg List.length complete
        cases k with
        | zero =>
          simp only [List.take_zero, List.map_nil, List.flatten_nil, List.append_nil] at length
          omega
        | succ k =>
          rw [List.take_succ_cons, List.map_cons, List.flatten_cons, ← List.append_assoc, ← split]
            at length
          simp only [List.length_append] at length
          exact List.length_eq_zero_iff.mp (by omega)
    · -- there is more of it to come
      obtain ⟨missing, split⟩ := List.prefix_of_prefix_length_le ⟨_, cut⟩ ⟨frames, rfl⟩
        (Nat.le_of_not_le enough)
      have more : missing ≠ [] := by
        rintro rfl
        rw [List.append_nil] at split
        exact enough (congrArg List.length split).ge
      obtain ⟨still, state, dispatched⟩ := shaking.part app isOhai r.1 split more
      obtain ⟨first, rest, behind, parts, complete, least, done⟩ :=
        ih still (Nat.lt_of_not_le enough) cut
      rw [state, dispatched] at done
      refine ⟨r :: first, rest, behind, congrArg (r :: ·) parts, ?_, fun k complete' => ?_, done⟩
      · rw [List.map_cons, List.flatten_cons, ← List.append_assoc]
        exact complete
      · cases k with
        | zero =>
          rw [List.take_zero, List.map_nil, List.flatten_nil, List.append_nil] at complete'
          exact absurd (congrArg List.length complete') short.ne
        | succ k =>
          refine least k ?_
          rw [List.append_assoc]
          exact complete'

end Shaking

/-- Bytes behind the handshake are not lost if and only if a read ends right behind it: all
the frames are dispatched, and nothing else is, when the first of the reads are exactly the
handshake. Otherwise, however the reads are cut, some frame is not dispatched. -/
theorem frames_kept_iff {α : Type} (app : App α) {prot : Prot} {ohai : Bytes}
    (isOhai : Ohai prot ohai) (s : Served α) (fresh : Shaking prot s [])
    (frames : List (Bytes × Bytes)) (valid : ∀ p ∈ frames, ClientFrame prot p.1 p.2)
    (takes : app.Takes s.state (frames.map Prod.snd)) (reads : List (Int × Bytes))
    (cut : (reads.map Prod.snd).flatten = ohai ++ (frames.map Prod.fst).flatten) :
    let t := reads.foldl (fun s r => s.read app r.1 r.2) s
    let apart := ∃ k, ((reads.take k).map Prod.snd).flatten = ohai
    (t.peer.dispatched = s.peer.dispatched ++ frames.map Prod.snd ↔ apart) ∧
      ((∃ events, t.peer.dispatched = s.peer.dispatched ++ events ∧
        (frames.map Prod.snd).Sublist events) ↔ apart) := by
  have hidden : prot = .raw → ∀ c ∈ (frames.map Prod.fst).flatten.head?, c = 0 := by
    rintro rfl
    exact ClientFrame.hidden valid
  obtain ⟨first, rest, behind, rfl, complete, least, speaks, isOpen, buffer, state, dispatched⟩ :=
    fresh.reads app isOhai reads hidden isOhai.nonempty cut
  obtain ⟨routeFn, routes⟩ := isOhai.routes app
  rw [List.nil_append] at complete
  rw [List.map_append, List.flatten_append, complete, List.append_assoc] at cut
  have later : behind ++ (rest.map Prod.snd).flatten = (frames.map Prod.fst).flatten :=
    List.append_cancel_left cut
  intro t apart
  have apart_iff : apart ↔ behind = [] := by
    constructor
    · rintro ⟨k, taken⟩
      exact least k taken
    · intro none
      refine ⟨first.length, ?_⟩
      rw [List.take_left, complete, none, List.append_nil]
  have split : t = rest.foldl (fun s r => s.read app r.1 r.2)
      (first.foldl (fun s r => s.read app r.1 r.2) s) := List.foldl_append
  generalize first.foldl (fun s r => s.read app r.1 r.2) s = u at *
  rw [apart_iff, split]
  by_cases none : behind = []
  · -- the frames begin where the client waits
    have all := Served.reads_take routes u speaks isOpen (by rw [buffer]; exact routes.empty)
      rest (frames.map Prod.snd)
      (by
        rw [none, List.nil_append] at later
        rw [buffer, List.nil_append, later]
        exact prot.framer.carries_flatten frames fun p member => (valid p member).next)
      (by rw [state]; exact takes)
    rw [dispatched] at all
    exact ⟨iff_of_true all none, iff_of_true ⟨_, all, List.Sublist.refl _⟩ none⟩
  · -- the client begins somewhere in them
    obtain ⟨events, left, finds, found⟩ := Served.reads_find routes u speaks rest
    have missed : ¬(frames.map Prod.snd).Sublist events := by
      have cut' : (rest.map Prod.snd).flatten =
          (frames.map Prod.fst).flatten.drop behind.length := by
        rw [← later, List.drop_left]
      rw [buffer, List.nil_append, cut'] at finds
      refine finds.misses (fun p member => (valid p member).endsLate)
        (List.length_pos_iff.mpr none) ?_
      rw [← later, List.length_append]
      omega
    rw [dispatched] at found
    constructor
    · refine iff_of_false (fun all => ?_) none
      rw [found] at all
      exact missed (List.append_cancel_left all ▸ List.Sublist.refl _)
    · refine iff_of_false ?_ none
      rintro ⟨events', all, every⟩
      rw [found] at all
      exact missed (List.append_cancel_left all ▸ every)

/-- A frame behind a handshake that came in two reads, and one that came with it. -/
theorem frames_kept_iff_ping :
    let ping := str "/qio/ping:1=null"
    let frame := storeBE 8 ping.length ++ ping
    let read := fun (s : Served Unit) (r : Int × Bytes) => s.read answering r.1 r.2
    let s : Served Unit := ⟨(), {}⟩
    ([(1, str "/qio"), (2, str "/ohai"), (3, frame)].foldl read s).peer.dispatched = [ping] ∧
      ([(1, str "/qio"), (2, str "/ohai" ++ frame)].foldl read s).peer.dispatched ≠ [ping] := by
  intro ping frame read s
  have valid : ∀ p ∈ [(frame, ping)], ClientFrame .raw p.1 p.2 := by
    intro p member
    obtain rfl := List.mem_singleton.mp member
    exact .raw ping (by decide) (by decide)
  have acts : (answering.rawHandle () ping).acts =
      [.send ⟨str "/qio/callback/", decimal 1, 0, str "null"⟩] := by decide
  have takes : answering.Takes () [ping] := by
    refine ⟨by decide, fun reason => ?_, trivial⟩
    rw [acts]
    simp
  have kept := fun reads => frames_kept_iff answering .raw s ⟨rfl, rfl, rfl, rfl⟩
    [(frame, ping)] valid takes reads
  constructor
  · exact (kept _ (by decide)).1.mpr ⟨2, by decide⟩
  · intro all
    obtain ⟨k, taken⟩ := (kept _ (by decide)).1.mp all
    match k with
    | 0 => exact absurd taken (by decide)
    | 1 => exact absurd taken (by decide)
    | k + 2 => exact absurd (congrArg List.length taken) (by simp [frame, ping, str, handshakeText])

/-- A frame in one read with the handshake is lost, to a new client and to one that has just
been upgraded; in the next read it is dispatched. -/
theorem frames_kept_fused :
    let ping := str "/qio/ping:1=null"
    let frame := storeBE 8 ping.length ++ ping
    let raw : Served Unit := ⟨(), {}⟩
    let ohai : Bytes := [0x81, 0x89, 0, 0, 0, 0] ++ handshakeText
    let masked : Bytes := [0x81, 0x90, 0, 0, 0, 0] ++ ping
    let upgraded : Served Unit := ⟨(), { prot := some .rfc6455 }⟩
    let fused := raw.read answering 1 (handshakeText ++ frame)
    let fused' := upgraded.read answering 1 (ohai ++ masked)
    fused.peer.dispatched = [] ∧ fused.peer.handshaked ∧ fused.peer.conn = { rbuff := [] } ∧
      ((raw.read answering 1 handshakeText).read answering 2 frame).peer.dispatched = [ping] ∧
      fused'.peer.dispatched = [] ∧ fused'.peer.handshaked ∧
      fused'.peer.conn = { rbuff := [] } ∧
      ((upgraded.read answering 1 ohai).read answering 2 masked).peer.dispatched = [ping] := by
  decide

end QuickIO
