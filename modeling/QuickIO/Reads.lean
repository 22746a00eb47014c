import QuickIO.Lib.Framing
import QuickIO.Gating

/-!
# Reads may be cut anywhere

What the route functions of the raw protocol and of RFC 6455 make of the buffer
depends on the bytes behind the offset only, and says the same when more bytes
follow: they are framers. `_route` consumes their items, so it does not matter
how the bytes were cut into reads.
-/
namespace QuickIO

open Lib Lib.WebSocket

/-! ### Overwriting a part of the buffer -/

theorem length_writeAt (buf bs : Bytes) (pos : Nat) (inside : pos + bs.length ≤ buf.length) :
    (writeAt buf pos bs).length = buf.length := by
  simp only [writeAt, List.length_append, List.length_take, List.length_drop]
  omega

theorem drop_writeAt (buf bs : Bytes) (pos : Nat) (inside : pos ≤ buf.length) :
    (writeAt buf pos bs).drop pos = bs ++ buf.drop (pos + bs.length) := by
  have there : (buf.take pos).length = pos := by
    rw [List.length_take]
    omega
  rw [writeAt, List.append_assoc]
  exact List.drop_left' there

/-- What lies behind the bytes that are written stays. -/
theorem drop_writeAt_beyond (buf bs : Bytes) (pos n : Nat) (inside : pos ≤ buf.length)
    (beyond : pos + bs.length ≤ n) : (writeAt buf pos bs).drop n = buf.drop n := by
  have split : n = pos + (bs.length + (n - (pos + bs.length))) := by omega
  rw [split, ← List.drop_drop, drop_writeAt buf bs pos inside, List.drop_append]
  have all : bs.drop (bs.length + (n - (pos + bs.length))) = [] :=
    List.drop_of_length_le (by omega)
  rw [all, List.nil_append, List.drop_drop]
  congr 1
  omega

/-- Bytes and a NUL behind them. -/
theorem drop_writeAt_ended (buf bs : Bytes) (pos : Nat) (inside : pos + bs.length < buf.length) :
    (writeAt (writeAt buf pos bs) (pos + bs.length) [0]).drop pos =
      bs ++ 0 :: buf.drop (pos + bs.length + 1) := by
  obtain ⟨before, old, c, after, rfl, here, wide⟩ : ∃ (before old : Bytes) (c : UInt8)
      (after : Bytes), buf = before ++ (old ++ ([c] ++ after)) ∧ before.length = pos ∧
        old.length = bs.length := by
    refine ⟨buf.take pos, (buf.drop pos).take bs.length, buf[pos + bs.length],
      buf.drop (pos + bs.length + 1), ?_, ?_, ?_⟩
    · rw [List.singleton_append, ← List.drop_eq_getElem_cons inside, ← List.drop_drop,
        List.take_append_drop, List.take_append_drop]
    · rw [List.length_take]
      omega
    · rw [List.length_take, List.length_drop]
      omega
  have first := writeAt_append before old ([c] ++ after) bs pos here wide
  have second := writeAt_append (before ++ bs) [c] after [0] (pos + bs.length) (by simp [here]) rfl
  have behind : (before ++ (old ++ ([c] ++ after))).drop (pos + bs.length + 1) = after := by
    rw [← List.append_assoc, ← List.append_assoc]
    exact List.drop_left' (by simp [here, wide]; omega)
  rw [List.append_assoc] at second
  rw [first, second, behind, List.append_assoc, List.drop_left' here]
  rfl

theorem takeWhile_cut (text rest : Bytes) :
    (text ++ 0 :: rest).takeWhile (· ≠ 0) = text.takeWhile (· ≠ 0) := by
  induction text with
  | nil => simp
  | cons c text ih =>
    simp only [List.cons_append, List.takeWhile_cons, ih]

/-! ### Framers -/

/-- A framer of events; bytes it refuses may close the client at once. -/
abbrev EventFramer := Framer UInt8 Bytes (Option CloseReason)

theorem qevSafeUadd_eq_some {a b sum : Nat} (fits : qevSafeUadd a b = some sum) : sum = a + b := by
  simp only [qevSafeUadd] at fits
  split at fits
  next => exact (Option.some.inj fits).symm
  next => cases fits

/-- What `protocol_raw_route` finds. -/
def rawNext (bs : Bytes) : Next Bytes (Option CloseReason) :=
  if bs.length < 8 then .more
  else
    match qevSafeUadd (loadBE (readAt bs 0 8)) 8 with
    | none => .bad none
    | some total =>
      if bs.length < total then .more
      else .item total ((readAt bs 8 (loadBE (readAt bs 0 8))).takeWhile (· ≠ 0))

/-- Bytes that are all there stay where they are when more follow. -/
theorem readAt_more (bs cs : Bytes) (pos width : Nat) (inside : pos + width ≤ bs.length) :
    readAt (bs ++ cs) pos width = readAt bs pos width := by
  rw [readAt, readAt, List.drop_append_of_le_length (by omega),
    List.take_append_of_le_length (by rw [List.length_drop]; omega)]

def rawFramer : EventFramer where
  next := rawNext
  size := by
    intro bs n event next
    simp only [rawNext] at next
    split at next
    next => cases next
    next =>
      split at next
      next => cases next
      next total sum =>
        split at next
        next => cases next
        next whole =>
          cases next
          have total := qevSafeUadd_eq_some sum
          omega
  item_append := by
    intro bs n event next cs
    simp only [rawNext] at next ⊢
    split at next
    next => cases next
    next long =>
      have head : readAt (bs ++ cs) 0 8 = readAt bs 0 8 := readAt_more bs cs 0 8 (by omega)
      rw [if_neg (by rw [List.length_append]; omega), head]
      split at next
      next => cases next
      next total sum =>
        split at next
        next => cases next
        next whole =>
          cases next
          have total := qevSafeUadd_eq_some sum
          rw [if_neg (by rw [List.length_append]; omega), readAt_more bs cs 8 _ (by omega)]
  bad_append := by
    intro bs why next cs
    simp only [rawNext] at next ⊢
    split at next
    next => cases next
    next long =>
      have head : readAt (bs ++ cs) 0 8 = readAt bs 0 8 := readAt_more bs cs 0 8 (by omega)
      rw [if_neg (by rw [List.length_append]; omega), head]
      split at next
      next => exact next
      next total sum =>
        split at next
        next => cases next
        next => cases next

/-- A header that has been read reads the same when more bytes follow. -/
theorem decodeHead_append (bs cs : Bytes) (known : decodeHead bs ≠ .again) :
    decodeHead (bs ++ cs) = decodeHead bs := by
  -- Each test looks at bytes that are there, so what follows them does not matter.
  have nonempty : 0 < bs.length := by
    cases bs with
    | nil => exact absurd rfl known
    | cons b bs => simp
  have first : (bs ++ cs).getD 0 0 = bs.getD 0 0 := List.getD_append bs cs 0 0 nonempty
  simp only [decodeHead, first] at known ⊢
  split at known
  -- a close is known from its first byte
  next close => rw [if_pos close, if_pos close]
  next notClose =>
    rw [if_neg notClose, if_neg notClose]
    split at known
    next => exact absurd rfl known
    next six =>
      have second : (bs ++ cs).getD 1 0 = bs.getD 1 0 := List.getD_append bs cs 0 1 (by omega)
      have short := readAt_more bs cs 2 4 (by omega)
      rw [if_neg six, if_neg (by rw [List.length_append]; omega), second, short]
      split at known
      next text => rw [if_pos text, if_pos text]
      next text =>
        rw [if_neg text, if_neg text]
        split at known
        next mask => rw [if_pos mask, if_pos mask]
        next mask =>
          rw [if_neg mask, if_neg mask]
          split at known
          next low => rw [if_pos low, if_pos low]
          next high =>
            rw [if_neg high, if_neg high]
            split at known
            -- the 16-bit length ends the header at 8 bytes
            next medium =>
              split at known
              next => exact absurd rfl known
              next eight =>
                rw [if_pos medium, if_pos medium, if_neg eight,
                  if_neg (by rw [List.length_append]; omega), readAt_more bs cs 2 2 (by omega),
                  readAt_more bs cs 4 4 (by omega)]
            -- the 64-bit one at 14
            next long =>
              split at known
              next => exact absurd rfl known
              next fourteen =>
                rw [if_neg long, if_neg long, if_neg fourteen,
                  if_neg (by rw [List.length_append]; omega), readAt_more bs cs 2 8 (by omega),
                  readAt_more bs cs 10 4 (by omega)]

theorem decodeHead_frame {bs mask : Bytes} {headerLen len : Nat}
    (head : decodeHead bs = .frame headerLen len mask) :
    mask.length = 4 ∧ 6 ≤ headerLen ∧ headerLen ≤ bs.length := by
  simp only [decodeHead] at head
  split_ifs at head with close six text bit low medium eight fourteen
  · cases head
    exact ⟨length_readAt bs 2 4 (by omega), by omega, by omega⟩
  · cases head
    exact ⟨length_readAt bs 4 4 (by omega), by omega, by omega⟩
  · cases head
    exact ⟨length_readAt bs 10 4 (by omega), by omega, by omega⟩

/-- What `protocol_rfc6455_route` finds. -/
def rfc6455Next (bs : Bytes) : Next Bytes (Option CloseReason) :=
  match decodeHead bs with
  | .again => .more
  | .fatal reason => .bad (some reason)
  | .frame headerLen len mask =>
    match qevSafeUadd headerLen len with
    | none => .bad none
    | some total =>
      if bs.length < total then .more
      else
        let text := applyMask mask (readAt bs headerLen len)
        if utf8Validate text then .item total text else .bad (some .notUtf8)

def rfc6455Framer : EventFramer where
  next := rfc6455Next
  size := by
    intro bs n event next
    simp only [rfc6455Next] at next
    split at next
    next => cases next
    next => cases next
    next headerLen len mask head =>
      obtain ⟨-, wide, -⟩ := decodeHead_frame head
      split at next
      next => cases next
      next total sum =>
        have total := qevSafeUadd_eq_some sum
        split_ifs at next
        cases next
        omega
  item_append := by
    intro bs n event next cs
    simp only [rfc6455Next] at next ⊢
    split at next
    next => cases next
    next => cases next
    next headerLen len mask head =>
      rw [decodeHead_append bs cs (by simp [head]), head]
      dsimp only
      split at next
      next => cases next
      next total sum =>
        have whole := qevSafeUadd_eq_some sum
        split at next
        next => cases next
        next enough =>
          rw [if_neg (by rw [List.length_append]; omega), readAt_more bs cs _ _ (by omega)]
          exact next
  bad_append := by
    intro bs why next cs
    simp only [rfc6455Next] at next ⊢
    split at next
    next => cases next
    next reason head =>
      rw [decodeHead_append bs cs (by simp [head]), head]
      exact next
    next headerLen len mask head =>
      rw [decodeHead_append bs cs (by simp [head]), head]
      dsimp only
      split at next
      next => exact next
      next total sum =>
        have whole := qevSafeUadd_eq_some sum
        split at next
        next => cases next
        next enough =>
          rw [if_neg (by rw [List.length_append]; omega), readAt_more bs cs _ _ (by omega)]
          exact next

/-! ### The route functions follow their framers -/

/-- Why a route function closes the client itself, if it does. -/
def Conn.closeWhy (conn : Conn) : Option CloseReason → Conn
  | none => conn
  | some reason => conn.qevClose reason

/-- A route function that finds what a framer finds behind the offset, and
writes no byte past the frame it takes. -/
structure Follows (F : EventFramer) (routeFn : RawHandle → Conn → Nat → Routed) : Prop where
  more : ∀ {handle conn used}, F.next (conn.rbuff.drop used) = .more →
    routeFn handle conn used = { conn, used, status := .again, handed := none }
  bad : ∀ (handle : RawHandle) {conn used why}, F.next (conn.rbuff.drop used) = .bad why →
    used ≤ conn.rbuff.length → ∃ rbuff : Bytes, routeFn handle conn used =
      { conn := { conn with rbuff }.closeWhy why, used, status := .fatal, handed := none }
  item : ∀ (handle : RawHandle) {conn used n event}, F.next (conn.rbuff.drop used) = .item n event →
    used ≤ conn.rbuff.length → ∃ rbuff : Bytes, rbuff.length = conn.rbuff.length ∧
      rbuff.drop (used + n) = conn.rbuff.drop (used + n) ∧ event.length ≤ n ∧
      routeFn handle conn used =
        { conn := (handle { conn with rbuff } event).1, used := used + n,
          status := (handle { conn with rbuff } event).2, handed := some event }

theorem raw_follows : Follows rawFramer protocolRawRoute where
  more := by
    intro handle conn used next
    have next : rawNext (conn.rbuff.drop used) = .more := next
    have here : readAt (conn.rbuff.drop used) 0 8 = readAt conn.rbuff used 8 := by
      simp [readAt]
    simp only [rawNext, List.length_drop, here] at next
    simp only [protocolRawRoute]
    split at next
    next short => rw [if_pos short]
    next long =>
      rw [if_neg long]
      cases sum : qevSafeUadd (loadBE (readAt conn.rbuff used 8)) 8 with
      | none =>
        rw [sum] at next
        cases next
      | some total =>
        rw [sum] at next
        dsimp only at next ⊢
        split at next
        next short => rw [if_pos short]
        next => cases next
  bad := by
    intro handle conn used why next inside
    have next : rawNext (conn.rbuff.drop used) = .bad why := next
    have here : readAt (conn.rbuff.drop used) 0 8 = readAt conn.rbuff used 8 := by
      simp [readAt]
    simp only [rawNext, List.length_drop, here] at next
    refine ⟨conn.rbuff, ?_⟩
    simp only [protocolRawRoute]
    split at next
    next => cases next
    next long =>
      rw [if_neg long]
      cases sum : qevSafeUadd (loadBE (readAt conn.rbuff used 8)) 8 with
      | none =>
        rw [sum] at next
        cases next
        rfl
      | some total =>
        rw [sum] at next
        dsimp only at next
        split at next
        next => cases next
        next => cases next
  item := by
    intro handle conn used n event next inside
    have next : rawNext (conn.rbuff.drop used) = .item n event := next
    have here : readAt (conn.rbuff.drop used) 0 8 = readAt conn.rbuff used 8 := by
      simp [readAt]
    simp only [rawNext, List.length_drop, here] at next
    split at next
    next => cases next
    next long =>
      split at next
      next => cases next
      next total sum =>
        split at next
        next => cases next
        next enough =>
          cases next
          have whole := qevSafeUadd_eq_some sum
          generalize width : loadBE (readAt conn.rbuff used 8) = len at sum whole ⊢
          have payload : readAt (conn.rbuff.drop used) 8 len = readAt conn.rbuff (used + 8) len := by
            rw [readAt, readAt, List.drop_drop]
          have size : (readAt conn.rbuff (used + 8) len).length = len :=
            length_readAt conn.rbuff (used + 8) len (by omega)
          -- the payload moves down over its length, and a NUL ends it
          have moved := length_writeAt conn.rbuff (readAt conn.rbuff (used + 8) len) used
            (by rw [size]; omega)
          have ended := length_writeAt (writeAt conn.rbuff used (readAt conn.rbuff (used + 8) len))
            [0] (used + len) (by rw [moved]; simp; omega)
          have string : ((writeAt (writeAt conn.rbuff used (readAt conn.rbuff (used + 8) len))
              (used + len) [0]).drop used).takeWhile (· ≠ 0) =
              (readAt conn.rbuff (used + 8) len).takeWhile (· ≠ 0) := by
            have cut := drop_writeAt_ended conn.rbuff (readAt conn.rbuff (used + 8) len) used
              (by omega)
            rw [size] at cut
            rw [cut, takeWhile_cut]
          refine ⟨writeAt (writeAt conn.rbuff used (readAt conn.rbuff (used + 8) len))
            (used + len) [0], ended.trans moved, ?_, ?_, ?_⟩
          · rw [drop_writeAt_beyond _ _ _ _ (by rw [moved]; omega) (by simp; omega),
              drop_writeAt_beyond _ _ _ _ (by omega) (by rw [size]; omega)]
          · rw [payload]
            have fits := (List.takeWhile_sublist (· ≠ 0) (l := readAt conn.rbuff (used + 8) len)).length_le
            omega
          · rw [payload]
            simp only [protocolRawRoute, if_neg long, width, sum, if_neg enough, string]

/-- A frame that is all there, cut into its header, its payload and the rest. -/
theorem exists_cut (rbuff : Bytes) (used headerLen len : Nat) (inside : used ≤ rbuff.length)
    (whole : headerLen + len ≤ (rbuff.drop used).length) :
    ∃ before hdr src after : Bytes, rbuff = before ++ (hdr ++ (src ++ after)) ∧
      before.length = used ∧ hdr.length = headerLen ∧ src.length = len ∧
      readAt (rbuff.drop used) headerLen len = src ∧
      rbuff.drop (used + (headerLen + len)) = after := by
  refine ⟨rbuff.take used, (rbuff.drop used).take headerLen,
    ((rbuff.drop used).drop headerLen).take len, ((rbuff.drop used).drop headerLen).drop len,
    ?_, ?_, ?_, ?_, rfl, ?_⟩
  · rw [List.take_append_drop, List.take_append_drop, List.take_append_drop]
  · rw [List.length_take]
    omega
  · rw [List.length_take]
    omega
  · rw [List.length_take, List.length_drop]
    omega
  · rw [List.drop_drop, List.drop_drop]

/-- What the route function of RFC 6455 does with a frame that is all there. -/
theorem rfc6455Route_whole (handle : RawHandle) (conn : Conn) (used headerLen len : Nat)
    (mask : Bytes) (inside : used ≤ conn.rbuff.length)
    (head : decodeHead (conn.rbuff.drop used) = .frame headerLen len mask)
    (sum : qevSafeUadd headerLen len = some (headerLen + len))
    (whole : headerLen + len ≤ (conn.rbuff.drop used).length) :
    let text := applyMask mask (readAt (conn.rbuff.drop used) headerLen len)
    ∃ rbuff : Bytes, rbuff.length = conn.rbuff.length ∧
      rbuff.drop (used + (headerLen + len)) = conn.rbuff.drop (used + (headerLen + len)) ∧
      rfc6455Route handle conn used =
        if utf8Validate text then
          { conn := (handle { conn with rbuff } text).1, used := used + (headerLen + len),
            status := (handle { conn with rbuff } text).2, handed := some text }
        else
          { conn := { conn with rbuff }.qevClose .notUtf8, used, status := .fatal,
            handed := none } := by
  obtain ⟨four, wide, -⟩ := decodeHead_frame head
  obtain ⟨before, hdr, src, after, buffer, rfl, rfl, rfl, payload, behind⟩ :=
    exists_cut conn.rbuff used headerLen len inside whole
  have countable : hdr.length + src.length < 2 ^ 64 := by
    simp only [qevSafeUadd] at sum
    exact (Option.ite_none_right_eq_some.mp sum).1
  obtain ⟨room, kept, decoded⟩ := decodePayload_whole conn before hdr src after mask hdr.length
    buffer four rfl (by omega) countable
  rw [payload, behind]
  refine ⟨before ++ (applyMask mask src ++ (0 :: room ++ after)), ?_, ?_, ?_⟩
  · rw [buffer]
    simp only [List.length_append, List.length_cons, length_applyMask]
    omega
  · rw [← List.append_assoc, ← List.append_assoc]
    exact List.drop_left' (by simp; omega)
  · -- the NUL that is written once more is there already
    have ended : writeAt (before ++ (applyMask mask src ++ (0 :: room ++ after)))
        (before.length + src.length) [0] =
        before ++ (applyMask mask src ++ (0 :: room ++ after)) := by
      have shape := writeAt_append (before ++ applyMask mask src) [0] (room ++ after) [0]
        (before.length + src.length) (by simp) rfl
      simpa using shape
    simp only [rfc6455Route, decode, head, decoded]
    cases valid : utf8Validate (applyMask mask src) with
    | true =>
      have string : ((before ++ (applyMask mask src ++ (0 :: room ++ after))).drop
          before.length).takeWhile (· ≠ 0) = applyMask mask src := by
        rw [List.drop_left]
        exact takeWhile_text _ (room ++ after) (utf8Validate_noNul _ valid)
      simp only [if_true, ended, string]
    | false => rfl

theorem decode_more {conn : Conn} {used : Nat}
    (next : rfc6455Next (conn.rbuff.drop used) = .more) : decode conn used = .again := by
  simp only [rfc6455Next] at next
  cases head : decodeHead (conn.rbuff.drop used) with
  | again => simp only [decode, head]
  | fatal reason =>
    rw [head] at next
    cases next
  -- the header is there, and the payload is not
  | frame headerLen len mask =>
    rw [head] at next
    cases sum : qevSafeUadd headerLen len with
    | none =>
      simp only [sum] at next
      cases next
    | some total =>
      simp only [sum] at next
      by_cases short : (conn.rbuff.drop used).length < total
      · rw [List.length_drop] at short
        simp only [decode, head, decodePayload, sum, if_pos short]
      · rw [if_neg short] at next
        split at next <;> cases next

theorem rfc6455_follows : Follows rfc6455Framer rfc6455Route where
  more := by
    intro handle conn used next
    simp only [rfc6455Route, decode_more next]
  bad := by
    intro handle conn used why next inside
    have next : rfc6455Next (conn.rbuff.drop used) = .bad why := next
    simp only [rfc6455Next] at next
    split at next
    next => cases next
    -- the header is bad already
    next reason head =>
      cases next
      refine ⟨conn.rbuff, ?_⟩
      simp only [rfc6455Route, decode, head]
      rfl
    next headerLen len mask head =>
      split at next
      -- the length of the frame overflows
      next none =>
        cases next
        refine ⟨conn.rbuff, ?_⟩
        simp only [rfc6455Route, decode, head, decodePayload, none]
        rfl
      next total sum =>
        obtain rfl := qevSafeUadd_eq_some sum
        split at next
        next => cases next
        next whole =>
          obtain ⟨rbuff, -, -, routed⟩ := rfc6455Route_whole handle conn used headerLen len mask
            inside head sum (by omega)
          split at next
          next => cases next
          -- the payload is there, and is no text
          next invalid =>
            cases next
            exact ⟨rbuff, by rw [routed, if_neg invalid]; rfl⟩
  item := by
    intro handle conn used n event next inside
    have next : rfc6455Next (conn.rbuff.drop used) = .item n event := next
    simp only [rfc6455Next] at next
    split at next
    next => cases next
    next => cases next
    next headerLen len mask head =>
      split at next
      next => cases next
      next total sum =>
        obtain rfl := qevSafeUadd_eq_some sum
        split at next
        next => cases next
        next whole =>
          obtain ⟨rbuff, size, behind, routed⟩ := rfc6455Route_whole handle conn used headerLen
            len mask inside head sum (by omega)
          split at next
          -- a whole frame of text
          next valid =>
            cases next
            refine ⟨rbuff, size, behind, ?_, by rw [routed, if_pos valid]⟩
            rw [length_applyMask, length_readAt _ _ _ (by omega)]
            omega
          next => cases next

/-! ### Events are consumed -/

/-- The handlers do not close the client. -/
def App.Quiet {α : Type} (app : App α) : Prop :=
  ∀ state ev reason, .close reason ∉ (app.evsRoute state ev).2.1

theorem App.rawHandle_cases {α : Type} (app : App α) (quiet : app.Quiet) (state : α)
    (event : Bytes) :
    ((app.rawHandle state event).status = .ok ∧
        ∀ reason, .close reason ∉ (app.rawHandle state event).acts) ∨
      (app.rawHandle state event).status = .fatal := by
  simp only [App.rawHandle]
  split
  next => exact .inr rfl
  next ev _ => exact .inl ⟨rfl, quiet state ev⟩

namespace Peer

/-- What can be told of a client afterwards: not the times, and not the bytes
that wait. -/
def seen (p : Peer) : Peer :=
  { p with lastSend := 0, lastRecv := 0, conn := { p.conn with rbuff := [] } }

theorem setConn_same (p : Peer) (conn : Conn) (same : conn.closing = p.conn.closing) :
    p.setConn conn = { p with conn } := by
  simp only [setConn]
  split
  next reason openNow closed =>
    rw [same, openNow] at closed
    cases closed
  next => rfl

theorem seen_setConn (p : Peer) (conn : Conn) :
    (p.setConn conn).seen = p.seen.setConn { conn with rbuff := [] } := by
  simp only [setConn, seen]
  split <;> rfl

theorem seen_qevClose (p : Peer) (reason : CloseReason) :
    (p.qevClose reason).seen = p.seen.qevClose reason :=
  p.seen_setConn _

theorem seen_protocolsSend (p : Peer) (now : Int) (m : Message) :
    (p.protocolsSend now m).seen = p.seen.protocolsSend 0 m := by
  obtain ⟨prot, handshaked, conn, lastSend, lastRecv, log⟩ := p
  cases handshaked with
  | false => rfl
  | true =>
    simp only [protocolsSend, seen, if_true]
    split <;> rfl

theorem seen_acts (now : Int) (acts : List PeerAct) (p : Peer) :
    (acts.foldl (Peer.act now) p).seen = acts.foldl (Peer.act 0) p.seen := by
  induction acts generalizing p with
  | nil => rfl
  | cons a acts ih =>
    have one : (Peer.act now p a).seen = Peer.act 0 p.seen a := by
      cases a with
      | send m => exact p.seen_protocolsSend now m
      | close reason => exact p.seen_qevClose reason
    rw [List.foldl_cons, List.foldl_cons, ih, one]

theorem acts_closing (now : Int) (acts : List PeerAct) (quiet : ∀ reason, .close reason ∉ acts)
    (p : Peer) : (acts.foldl (Peer.act now) p).conn.closing = p.conn.closing := by
  induction acts generalizing p with
  | nil => rfl
  | cons a acts ih =>
    have one : (Peer.act now p a).conn.closing = p.conn.closing := by
      cases a with
      | send m =>
        simp only [Peer.act, protocolsSend]
        split
        next => split <;> rfl
        next => rfl
      | close reason => exact absurd List.mem_cons_self (quiet reason)
    have rest := ih (fun reason member => quiet reason (List.mem_cons_of_mem a member))
      (Peer.act now p a)
    exact rest.trans one

theorem qevClose_closing (p : Peer) (reason : CloseReason) :
    (p.qevClose reason).conn.closing.isNone = false := by
  simp only [qevClose, setConn_conn, Conn.qevClose]
  cases p.conn.closing <;> rfl

end Peer

namespace Served

variable {α : Type} (app : App α)

def seen (s : Served α) : Served α := { s with peer := s.peer.seen }

/-- An event is handled, at no time in particular. -/
def consume (s : Served α) (event : Bytes) : Served α × Bool :=
  let reaction := app.rawHandle s.state event
  let peer := reaction.acts.foldl (Peer.act 0) (s.peer.record (.event event))
  if reaction.status = .fatal then
    (({ state := reaction.state, peer := peer.qevClose .unknownError } : Served α), false)
  else ({ state := reaction.state, peer }, true)

/-- A route function and `_route` close the client. -/
def refuse (s : Served α) (why : Option CloseReason) : Served α :=
  { s with peer := (s.peer.setConn (s.peer.conn.closeWhy why)).qevClose .unknownError }

def consumer : Consumer (Served α) Bytes (Option CloseReason) where
  eat := consume app
  refuse := refuse

/-- A client between two reads. -/
def fed (s : Served α) : Fed (Served α) UInt8 where
  state := s.seen
  rest := s.peer.conn.rbuff
  going := s.peer.conn.closing.isNone

/-- A handshaked client speaks a protocol. -/
def Speaks (prot : Prot) (s : Served α) : Prop :=
  s.peer.prot = some prot ∧ s.peer.handshaked = true

/-- `prot->route` is a route function that follows a framer. -/
structure Routes (prot : Prot) (F : EventFramer) (routeFn : RawHandle → Conn → Nat → Routed) :
    Prop where
  follows : Follows F routeFn
  empty : F.next [] = .more
  route : ∀ (s : Served α) (now : Int) (used : Nat), s.peer.prot = some prot →
    s.protRoute app now used =
      let r := routeFn (app.handleAt s.state used) s.peer.conn used
      (s.handled app now r, r.used, r.status)

theorem raw_routes : Routes app .raw rawFramer protocolRawRoute where
  follows := raw_follows
  empty := rfl
  route s now used is := by simp only [protRoute, is]

theorem rfc6455_routes : Routes app .rfc6455 rfc6455Framer rfc6455Route where
  follows := rfc6455_follows
  empty := rfl
  route s now used is := by simp only [protRoute, is]

variable {app}

/-- What handling an event comes to: what the consumer makes of it. -/
theorem handled_item (app : App α) (now : Int) (s : Served α) (conn : Conn) (used : Nat)
    (status : ProtocolStatus) (event : Bytes) (same : conn.closing = s.peer.conn.closing) :
    let reaction := app.rawHandle s.state event
    let t := s.handled app now { conn, used, status, handed := some event }
    t.peer.prot = s.peer.prot ∧ t.peer.handshaked = s.peer.handshaked ∧
      t.peer.conn.rbuff = conn.rbuff ∧
      t.seen = { state := reaction.state
                 peer := reaction.acts.foldl (Peer.act 0) (s.seen.peer.record (.event event)) } ∧
      ((∀ reason, .close reason ∉ reaction.acts) →
        t.peer.conn.closing = s.peer.conn.closing) := by
  -- The close reasons agree, so nothing is closed by storing the connection.
  have given := s.peer.setConn_same conn same
  have shape : s.handled app now { conn, used, status, handed := some event } =
      { state := (app.rawHandle s.state event).state
        peer := (app.rawHandle s.state event).acts.foldl (Peer.act now)
          (({ s.peer with conn } : Peer).record (.event event)) } := by
    simp only [handled, given]
  dsimp only
  rw [shape]
  obtain ⟨prot, handshaked, rbuff⟩ := Peer.acts_rest now (app.rawHandle s.state event).acts
    (({ s.peer with conn } : Peer).record (.event event))
  refine ⟨prot, handshaked, rbuff, ?_, ?_⟩
  · simp only [seen, Peer.seen_acts]
    simp only [Peer.seen, Peer.record, same]
  · intro quiet
    exact (Peer.acts_closing now _ quiet _).trans same

/-- `t` is what an event of `s` has come to, with the bytes from `behind` on as they were. -/
structure Took (app : App α) (s t : Served α) (event : Bytes) (behind : Nat) : Prop where
  prot : t.peer.prot = s.peer.prot
  handshaked : t.peer.handshaked = s.peer.handshaked
  length : t.peer.conn.rbuff.length = s.peer.conn.rbuff.length
  waiting : t.peer.conn.rbuff.drop behind = s.peer.conn.rbuff.drop behind
  seen : t.seen =
    { state := (app.rawHandle s.state event).state
      peer := (app.rawHandle s.state event).acts.foldl (Peer.act 0)
        (s.seen.peer.record (.event event)) }
  closing : (∀ reason, .close reason ∉ (app.rawHandle s.state event).acts) →
    t.peer.conn.closing = s.peer.conn.closing

/-- What `prot->route` does where an item is found. -/
theorem protRoute_item {prot : Prot} {F : EventFramer} {routeFn : RawHandle → Conn → Nat → Routed}
    (routes : Routes app prot F routeFn) (now : Int) (s : Served α) {used n : Nat} {event : Bytes}
    (speaks : s.peer.prot = some prot) (inside : used ≤ s.peer.conn.rbuff.length)
    (next : F.next (s.peer.conn.rbuff.drop used) = .item n event) :
    ∃ t, s.protRoute app now used = (t, used + n, (app.rawHandle s.state event).status) ∧
      Took app s t event (used + n) := by
  obtain ⟨rbuff, length, behind, fits, routed⟩ :=
    routes.follows.item (app.handleAt s.state used) next inside
  obtain ⟨positive, size⟩ := F.size next
  rw [List.length_drop] at size
  rw [routes.route s now used speaks, routed]
  -- what the handlers leave stays inside the bytes of the event
  generalize conn_eq : (app.handleAt s.state used { s.peer.conn with rbuff } event).1 = conn
  have closing : conn.closing = s.peer.conn.closing := by rw [← conn_eq]; rfl
  have overlaid : (overlay (app.rawHandle s.state event).left event).length ≤ event.length := by
    rw [overlay, List.length_take]
    omega
  have size' : conn.rbuff.length = s.peer.conn.rbuff.length := by
    rw [← length, ← conn_eq]
    exact length_writeAt rbuff _ used (by omega)
  have rest : conn.rbuff.drop (used + n) = s.peer.conn.rbuff.drop (used + n) := by
    rw [← behind, ← conn_eq]
    exact drop_writeAt_beyond rbuff _ used _ (by omega) (by omega)
  have status : (app.handleAt s.state used { s.peer.conn with rbuff } event).2 =
      (app.rawHandle s.state event).status := rfl
  obtain ⟨prot, handshaked, kept, seen, stays⟩ :=
    handled_item app now s conn (used + n) (app.rawHandle s.state event).status event closing
  rw [status]
  exact ⟨_, rfl, prot, handshaked, by rw [kept, size'], by rw [kept, rest], seen, stays⟩

theorem routeLoop_same {prot : Prot} {F : EventFramer}
    {routeFn : RawHandle → Conn → Nat → Routed} (routes : Routes app prot F routeFn)
    (quiet : app.Quiet) (now : Int) (fuel : Nat) (s : Served α) (used : Nat)
    (speaks : s.peer.prot = some prot) (isOpen : s.peer.conn.closing = none)
    (inside : used ≤ s.peer.conn.rbuff.length)
    (enough : s.peer.conn.rbuff.length - used < fuel) :
    (fed (routeLoop app now fuel s used)).Same
      (drain F (consumer app) s.seen (s.peer.conn.rbuff.drop used)) := by
  induction fuel generalizing s used with
  | zero => omega
  | succ fuel ih =>
    match next : F.next (s.peer.conn.rbuff.drop used) with
    | .more =>
      simp only [routeLoop, routes.route s now used speaks]
      rw [drain_more next, routes.follows.more next]
      have still : s.peer.setConn s.peer.conn = s.peer := s.peer.setConn_same s.peer.conn rfl
      simp only [handled, still]
      exact ⟨rfl, by simp [fed, erase, isOpen], fun _ => rfl⟩
    | .bad why =>
      obtain ⟨rbuff, routed⟩ := routes.follows.bad (app.handleAt s.state used) next inside
      simp only [routeLoop, routes.route s now used speaks]
      rw [drain_bad next, routed]
      have going := (s.peer.setConn (({ s.peer.conn with rbuff } : Conn).closeWhy why)).qevClose_closing
        .unknownError
      refine ⟨?_, going, fun goes => ?_⟩
      · have emptied : ({ ({ s.peer.conn with rbuff } : Conn).closeWhy why with rbuff := [] } : Conn)
            = s.peer.seen.conn.closeWhy why := by
          cases why <;> rfl
        have closed := Peer.seen_qevClose
          (s.peer.setConn (({ s.peer.conn with rbuff } : Conn).closeWhy why)) .unknownError
        rw [Peer.seen_setConn, emptied] at closed
        exact congrArg (Served.mk s.state) closed
      · exact Bool.noConfusion (going.symm.trans goes)
    | .item n event =>
      obtain ⟨positive, size⟩ := F.size next
      rw [List.length_drop] at size
      obtain ⟨t, found, took⟩ := protRoute_item routes now s speaks inside next
      rw [drain_item next, routeLoop, found, List.drop_drop, ← took.waiting]
      rcases app.rawHandle_cases quiet s.state event with ⟨ok, kept⟩ | fatal
      · -- the event was taken: the loop goes on behind it
        have eaten : (consumer app).eat s.seen event = (t.seen, true) := by
          have notFatal : (app.rawHandle s.seen.state event).status ≠ .fatal := by
            simp [seen, ok]
          simp only [consumer, consume, if_neg notFatal, took.seen]
          rfl
        have stillOpen : t.peer.conn.closing = none := (took.closing kept).trans isOpen
        rw [eaten, if_pos rfl, ok]
        dsimp only
        split
        next more =>
          exact ih { t with peer := { t.peer with lastRecv := now } } (used + n)
            (took.prot.trans speaks) stillOpen more.le
            (show t.peer.conn.rbuff.length - (used + n) < fuel by rw [took.length]; omega)
        next done =>
          have none : t.peer.conn.rbuff.drop (used + n) = [] :=
            List.drop_of_length_le (Nat.not_lt.mp done)
          rw [none, drain_more routes.empty]
          exact ⟨rfl, by simp [fed, erase, stillOpen], fun _ => none⟩
      · -- the event was malformed
        have eaten : (consumer app).eat s.seen event =
            ({ t.seen with peer := t.seen.peer.qevClose .unknownError }, false) := by
          have isFatal : (app.rawHandle s.seen.state event).status = .fatal := fatal
          simp only [consumer, consume, if_pos isFatal, took.seen]
          rfl
        rw [eaten, if_neg Bool.false_ne_true, fatal]
        have going := t.peer.qevClose_closing .unknownError
        refine ⟨?_, going, fun goes => Bool.noConfusion (going.symm.trans goes)⟩
        exact congrArg (Served.mk t.state) (t.peer.seen_qevClose .unknownError)

theorem consume_keeps {prot : Prot} (s : Served α) (event : Bytes) (speaks : s.Speaks prot) :
    ((consumer app).eat s event).1.Speaks prot := by
  obtain ⟨sameProt, sameShaken, -⟩ := Peer.acts_rest 0 (app.rawHandle s.state event).acts
    (s.peer.record (.event event))
  simp only [consumer, consume]
  split
  next =>
    exact ⟨(Peer.setConn_prot _ _).trans (sameProt.trans speaks.1),
      (Peer.setConn_handshaked _ _).trans (sameShaken.trans speaks.2)⟩
  next => exact ⟨sameProt.trans speaks.1, sameShaken.trans speaks.2⟩

theorem refuse_keeps {prot : Prot} (s : Served α) (why : Option CloseReason)
    (speaks : s.Speaks prot) : (s.refuse why).Speaks prot :=
  ⟨((Peer.setConn_prot _ _).trans (Peer.setConn_prot _ _)).trans speaks.1,
    ((Peer.setConn_handshaked _ _).trans (Peer.setConn_handshaked _ _)).trans speaks.2⟩

section Reads

variable {prot : Prot} {F : EventFramer} {routeFn : RawHandle → Conn → Nat → Routed}
  (routes : Routes app prot F routeFn) (quiet : app.Quiet)

include routes quiet

/-- A read feeds the consumer. -/
theorem read_same (now : Int) (s : Served α) (bytes : Bytes) (speaks : s.Speaks prot) :
    (fed (s.read app now bytes)).Same ((fed s).feed F (consumer app) bytes) := by
  cases closing : s.peer.conn.closing with
  | some reason =>
    have closed : s.peer.conn.closing.isSome := by simp [closing]
    have going : (fed s).going = false := by simp [fed, closing]
    rw [read, if_pos closed, Fed.feed, going]
    exact ⟨rfl, rfl, fun _ => rfl⟩
  | none =>
    have isOpen : ¬ s.peer.conn.closing.isSome := by simp [closing]
    have going : (fed s).going = true := by simp [fed, closing]
    let t : Served α := { s with peer := { s.peer with
      conn := { s.peer.conn with rbuff := s.peer.conn.rbuff ++ bytes }, lastRecv := now } }
    have routed : s.read app now bytes =
        routeLoop app now (t.peer.conn.rbuff.length + 1) t 0 := by
      simp only [read, if_neg isOpen, protocolsRoute, speaks.1, shakeOrRoute, speaks.2, if_true,
        route, t]
    rw [routed, Fed.feed, going, if_pos rfl]
    exact routeLoop_same routes quiet now _ t 0 speaks.1 closing (Nat.zero_le _)
      (Nat.lt_succ_self _)

theorem read_speaks (now : Int) (s : Served α) (bytes : Bytes) (speaks : s.Speaks prot) :
    (s.read app now bytes).Speaks prot := by
  have same : (s.read app now bytes).seen = ((fed s).feed F (consumer app) bytes).state :=
    (read_same routes quiet now s bytes speaks).1
  have kept : ((fed s).feed F (consumer app) bytes).state.Speaks prot := by
    rw [Fed.feed]
    split
    next =>
      exact drain_keeps (Speaks prot) consume_keeps refuse_keeps _ _ speaks
    next => exact speaks
  rw [← same] at kept
  exact kept

theorem reads_same (s : Served α) (speaks : s.Speaks prot) (reads : List (Int × Bytes)) :
    (fed (reads.foldl (fun s r => s.read app r.1 r.2) s)).Same
      ((reads.map Prod.snd).foldl (fun fed chunk => fed.feed F (consumer app) chunk) (fed s)) := by
  induction reads generalizing s with
  | nil => exact ⟨rfl, rfl, fun _ => rfl⟩
  | cons r reads ih =>
    have rest := ih (s.read app r.1 r.2) (read_speaks routes quiet r.1 s r.2 speaks)
    have first := read_same routes quiet r.1 s r.2 speaks
    exact rest.trans (first.feeds (reads.map Prod.snd))

/-- Several reads are as good as one read of all their bytes. -/
theorem reads_whole (now : Int) (s : Served α) (speaks : s.Speaks prot)
    (reads : List (Int × Bytes)) (nonempty : reads ≠ []) :
    (fed (reads.foldl (fun s r => s.read app r.1 r.2) s)).Same
      (fed (s.read app now (reads.map Prod.snd).flatten)) := by
  obtain ⟨first, rest, rfl⟩ := List.exists_cons_of_ne_nil nonempty
  have cut := reads_same routes quiet s speaks (first :: rest)
  have whole := read_same routes quiet now s ((first :: rest).map Prod.snd).flatten speaks
  rw [List.map_cons, List.foldl_cons] at cut
  rw [List.map_cons, List.flatten_cons] at whole ⊢
  exact (cut.trans ((fed s).feed_chunks first.2 (rest.map Prod.snd))).trans whole.symm

end Reads

/-- Reads may be cut anywhere: a client that is handshaked and speaks the raw
protocol or RFC 6455 is the same after any reads of a stream as after one read of
it, whenever these happen. The log has the events, and when the client was closed
among them. -/
theorem reads_cut_anywhere (app : App α) (quiet : app.Quiet) (prot : Prot)
    (framed : prot = .raw ∨ prot = .rfc6455) (s : Served α) (speaks : s.Speaks prot)
    (stream : Bytes) (reads : List (Int × Bytes)) (nonempty : reads ≠ [])
    (cut : (reads.map Prod.snd).flatten = stream) (now : Int) :
    let parts := reads.foldl (fun s r => s.read app r.1 r.2) s
    let whole := s.read app now stream
    parts.peer.log = whole.peer.log ∧ parts.state = whole.state ∧
      parts.peer.conn.closing = whole.peer.conn.closing ∧
      (parts.peer.conn.closing = none → parts.peer.conn.rbuff = whole.peer.conn.rbuff) := by
  subst cut
  have same : (fed (reads.foldl (fun s r => s.read app r.1 r.2) s)).Same
      (fed (s.read app now (reads.map Prod.snd).flatten)) := by
    rcases framed with rfl | rfl
    · exact reads_whole (raw_routes app) quiet now s speaks reads nonempty
    · exact reads_whole (rfc6455_routes app) quiet now s speaks reads nonempty
  obtain ⟨state, -, rest⟩ := same
  have log := congrArg (fun t : Served α => t.peer.log) state
  have served := congrArg (fun t : Served α => t.state) state
  have closing := congrArg (fun t : Served α => t.peer.conn.closing) state
  refine ⟨log, served, closing, fun isOpen => rest ?_⟩
  simp [fed, isOpen]

end Served

/-- Two events of the raw protocol, cut inside the length and inside the text of
the first. -/
theorem reads_cut_anywhere_twice :
    let s : Served Unit := ⟨(), { prot := some .raw, handshaked := true }⟩
    let reads : List (Int × Bytes) := [(1, [0, 0]),
      (2, [0, 0, 0, 0, 0, 0x10] ++ str "/qio/ping:1="), (3, str "null" ++ [0, 0, 0, 0, 0, 0, 0, 1] ++
        str "x")]
    let parts := reads.foldl (fun s r => s.read answering r.1 r.2) s
    let whole := s.read answering 0 (reads.map Prod.snd).flatten
    whole.peer.log.length = 4 ∧
      parts.peer.log = whole.peer.log ∧ parts.state = whole.state ∧
      parts.peer.conn.closing = whole.peer.conn.closing ∧
      (parts.peer.conn.closing = none → parts.peer.conn.rbuff = whole.peer.conn.rbuff) := by
  have quiet : answering.Quiet := by
    intro state ev reason member
    simp [answering] at member
  exact ⟨by decide,
    Served.reads_cut_anywhere answering quiet .raw (Or.inl rfl) _ ⟨rfl, rfl⟩ _ _ (by simp) rfl 0⟩

end QuickIO
