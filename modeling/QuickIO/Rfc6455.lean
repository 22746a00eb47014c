import Mathlib.Data.List.GetD
import Mathlib.Data.FinEnum
import Mathlib.Tactic.IntervalCases
import QuickIO.Lib.WebSocket
import QuickIO.Protocol

/-!
# The WebSocket protocol

`_decode` unmasks a frame in place, sixteen bytes at a time, and
`protocol_rfc6455_route` hands the text to `protocol_raw_handle`. What is
handed over is the payload of a whole masked text frame, but not always of one
with FIN set.
-/
namespace QuickIO

open Lib Lib.WebSocket

def opcode : UInt8 := 0x0f
def opcodeText : UInt8 := 0x01
def opcodeClose : UInt8 := 0x08
def maskedBit : UInt8 := 0x80
def maskLen : UInt8 := 0x7f
def payloadShort : UInt8 := 125
def payloadMedium : UInt8 := 126

/-- A connection as its protocol sees it: the read buffer, and why the client
is closing. The NUL behind `rbuff->len` is not part of the bytes. -/
structure Conn where
  rbuff : Bytes
  closing : Option CloseReason := none
deriving DecidableEq, Repr

/-- `qev_close`: only the first reason counts. -/
def Conn.qevClose (conn : Conn) (reason : CloseReason) : Conn :=
  { conn with closing := conn.closing.or (some reason) }

/-- One round of the loops that unmask a word of `width` bytes. -/
def unmaskWord (width mask128 str msg i : Nat) (rbuff : Bytes) : Bytes :=
  writeAt rbuff (msg + i) (storeLE width (loadLE (readAt rbuff (str + i) width) ^^^ mask128))

/-- One round of the loop that finishes off the last bytes. -/
def unmaskByte (mask : Bytes) (str msg i : Nat) (rbuff : Bytes) : Bytes :=
  writeAt rbuff (msg + i) [rbuff.getD (str + i) 0 ^^^ mask.getD (i &&& 3) 0]

/-- The three loops, from the payload at `str` to `msg` in the same buffer. -/
def unmask (mask : Bytes) (str msg len : Nat) (rbuff : Bytes) : Bytes :=
  let mask128 := loadLE (mask ++ mask ++ mask ++ mask)
  let (i, rbuff) := forUpto (unmaskWord 16 mask128 str msg) 16 (len - (len &&& 15)) len 0 rbuff
  let (i, rbuff) := forUpto (unmaskWord 8 mask128 str msg) 8 (len - (len &&& 7)) len i rbuff
  (forUpto (unmaskByte mask str msg) 1 len len i rbuff).2

/-- What `_decode` returns and what it leaves: a status, the connection, and
`*len_` and `*frame_len` where they have been written. -/
inductive Decoded
  | again
  | fatal (conn : Conn) (outs : Option (Nat × Nat))
  | ok (conn : Conn) (len frameLen : Nat)
deriving DecidableEq, Repr

/-- `*len_` and `*frame_len`. -/
def Decoded.outs : Decoded → Option (Nat × Nat)
  | .again => none
  | .fatal _ outs => outs
  | .ok _ len frameLen => some (len, frameLen)

/-- What the header of a frame comes to. -/
inductive Head
  | again
  | fatal (reason : CloseReason)
  | frame (headerLen len : Nat) (mask : Bytes)
deriving DecidableEq, Repr

/-- The part of `_decode` up to the payload. -/
def decodeHead (str : Bytes) : Head :=
  -- A close counts before the rest of the frame is there.
  if str.getD 0 0 &&& opcode = opcodeClose then .fatal .hup
  -- The shortest frame: two bytes, and the mask.
  else if str.length < 6 then .again
  else if str.getD 0 0 &&& opcode ≠ opcodeText then .fatal .unsupportedOpcode
  else if str.getD 1 0 &&& maskedBit = 0 then .fatal .noMask
  else
    let len := str.getD 1 0 &&& maskLen
    if len ≤ payloadShort then .frame 6 len.toNat (readAt str 2 4)
    else if len = payloadMedium then
      if str.length < 8 then .again else .frame 8 (loadBE (readAt str 2 2)) (readAt str 4 4)
    else if str.length < 14 then .again
    else .frame 14 (loadBE (readAt str 2 8)) (readAt str 10 4)

/-- The part of `_decode` behind the header. -/
def decodePayload (conn : Conn) (offset headerLen len : Nat) (mask : Bytes) : Decoded :=
  match qevSafeUadd headerLen len with
  -- No reason is given here: `_route` closes with its own.
  | none => .fatal conn none
  | some totalLen =>
    if conn.rbuff.length - offset < totalLen then .again
    else
      let unmasked := unmask mask (offset + headerLen) offset len conn.rbuff
      -- The NUL lands inside this frame, whose payload has moved to its front.
      let rbuff := writeAt unmasked (offset + len) [0]
      let conn := { conn with rbuff }
      if utf8Validate (readAt rbuff offset len) then .ok conn len totalLen
      else .fatal (conn.qevClose .notUtf8) (some (len, totalLen))

/-- `_decode`. The offset is not past the end of the buffer. -/
def decode (conn : Conn) (offset : Nat) : Decoded :=
  match decodeHead (conn.rbuff.drop offset) with
  | .again => .again
  | .fatal reason => .fatal (conn.qevClose reason) none
  | .frame headerLen len mask => decodePayload conn offset headerLen len mask

/-- `protocol_raw_handle(client, start)`: the C string at `start` is routed, and
the handlers may do anything to the connection. -/
abbrev RawHandle := Conn → Bytes → Conn × ProtocolStatus

/-- What a call of `protocol_rfc6455_route` leaves, and the bytes it handed to
`protocol_raw_handle` if it did. -/
structure Routed where
  conn : Conn
  used : Nat
  status : ProtocolStatus
  handed : Option Bytes
deriving DecidableEq, Repr

/-- `protocol_rfc6455_route` -/
def rfc6455Route (handle : RawHandle) (conn : Conn) (used : Nat) : Routed :=
  match decode conn used with
  | .again => { conn, used, status := .again, handed := none }
  | .fatal conn _ => { conn, used, status := .fatal, handed := none }
  | .ok conn len frameLen =>
    -- `start[len] = '\0'`, once more.
    let conn := { conn with rbuff := writeAt conn.rbuff (used + len) [0] }
    let event := (conn.rbuff.drop used).takeWhile (· ≠ 0)
    let (conn, status) := handle conn event
    { conn, used := used + frameLen, status, handed := some event }

section Unmask

variable (before mask src after : Bytes) (headerLen : Nat)

/-- Where the loops stand after `i` bytes. The room of the header has moved
behind what is unmasked already; what it holds by now does not matter. -/
def Unmasking (i : Nat) (buf : Bytes) : Prop :=
  ∃ seen todo hole : Bytes, src = seen ++ todo ∧ seen.length = i ∧ hole.length = headerLen ∧
    buf = before ++ (applyMask mask seen ++ (hole ++ (todo ++ after)))

variable {before mask src after headerLen}

theorem Unmasking.start (hole : Bytes) (wide : hole.length = headerLen) :
    Unmasking before mask src after headerLen 0 (before ++ (hole ++ (src ++ after))) :=
  ⟨[], src, hole, rfl, rfl, wide, rfl⟩

theorem Unmasking.finish {buf : Bytes}
    (inv : Unmasking before mask src after headerLen src.length buf) :
    ∃ hole : Bytes, hole.length = headerLen ∧
      buf = before ++ (applyMask mask src ++ (hole ++ after)) := by
  obtain ⟨seen, todo, hole, rfl, all, wide, rfl⟩ := inv
  have none : todo = [] := by
    rw [List.length_append] at all
    exact List.length_eq_zero_iff.mp (by omega)
  subst none
  exact ⟨hole, wide, by simp⟩

/-- One round, whatever its width: the source is read before the same bytes are
overwritten, so the round only needs to write what unmasks the segment it read. -/
theorem Unmasking.segment {i : Nat} {buf : Bytes}
    (inv : Unmasking before mask src after headerLen i buf) (width : Nat)
    (inside : i + width ≤ src.length) :
    ∃ seg : Bytes, seg.length = width ∧
      readAt buf (before.length + headerLen + i) width = seg ∧
      Unmasking before mask src after headerLen (i + width)
        (writeAt buf (before.length + i)
          (seg.mapIdx fun j b => b ^^^ mask.getD ((j + i) % 4) 0)) := by
  obtain ⟨seen, todo, hole, rfl, reached, wide, rfl⟩ := inv
  rw [List.length_append, reached] at inside
  have split : todo = todo.take width ++ todo.drop width := (List.take_append_drop _ _).symm
  have segment : (todo.take width).length = width := by
    rw [List.length_take]
    omega
  generalize todo.take width = seg at split segment
  generalize todo.drop width = rest at split
  subst split
  refine ⟨seg, segment, ?_, ?_⟩
  · have here : (before ++ (applyMask mask seen ++ hole)).length =
        before.length + headerLen + i := by
      simp [reached, wide]
      omega
    have shape := readAt_append (before ++ (applyMask mask seen ++ hole)) seg (rest ++ after) _ _
      here segment
    simpa using shape
  · -- the bytes written over are the first `width` of the hole and the segment
    have room : (hole ++ seg).take width ++ (hole ++ seg).drop width = hole ++ seg :=
      List.take_append_drop _ _
    have enough : ((hole ++ seg).take width).length = width := by
      rw [List.length_take, List.length_append]
      omega
    have left : ((hole ++ seg).drop width).length = headerLen := by
      rw [List.length_drop, List.length_append]
      omega
    generalize (hole ++ seg).take width = old at room enough
    generalize (hole ++ seg).drop width = kept at room left
    refine ⟨seen ++ seg, rest, kept, by simp, by simp [reached, segment], left, ?_⟩
    have here : (before ++ applyMask mask seen).length = before.length + i := by simp [reached]
    have shape := writeAt_append (before ++ applyMask mask seen) old (kept ++ (rest ++ after))
      (seg.mapIdx fun j b => b ^^^ mask.getD ((j + i) % 4) 0) _ here (by simp [enough, segment])
    have bytes : before ++ applyMask mask seen ++ (old ++ (kept ++ (rest ++ after))) =
        before ++ (applyMask mask seen ++ (hole ++ (seg ++ rest ++ after))) := by
      rw [← List.append_assoc old, room]
      simp
    rw [bytes] at shape
    rw [shape]
    simp [applyMask, List.mapIdx_append, reached]

/-- The masking key four times over, `mask128`, serves every word that starts
at a multiple of four. -/
theorem getD_mask128 (four : mask.length = 4) (j : Nat) (small : j < 16) :
    (mask ++ mask ++ mask ++ mask).getD j 0 = mask.getD (j % 4) 0 := by
  match mask, four with
  | [a, b, c, d], _ => interval_cases j <;> rfl

theorem storeLE_mask128 (four : mask.length = 4) (seg : Bytes) (narrow : seg.length ≤ 16)
    (i : Nat) (aligned : 4 ∣ i) :
    storeLE seg.length (loadLE seg ^^^ loadLE (mask ++ mask ++ mask ++ mask)) =
      seg.mapIdx fun j b => b ^^^ mask.getD ((j + i) % 4) 0 := by
  have long : (mask ++ mask ++ mask ++ mask).length = 16 := by simp [four]
  rw [storeLE_xor _ _ (by omega)]
  apply List.ext_getElem
  · simp
    omega
  · intro j inZip inMap
    have small : j < 16 := by
      rw [List.length_mapIdx] at inMap
      omega
    have key := getD_mask128 four j small
    rw [List.getD_eq_getElem _ _ (by omega)] at key
    have same : (j + i) % 4 = j % 4 := by omega
    simp only [List.getElem_zipWith, List.getElem_mapIdx, key, same]

theorem Unmasking.word (four : mask.length = 4) {i : Nat} {buf : Bytes}
    (inv : Unmasking before mask src after headerLen i buf) (width : Nat) (narrow : width ≤ 16)
    (aligned : 4 ∣ i) (inside : i + width ≤ src.length) :
    Unmasking before mask src after headerLen (i + width)
      (unmaskWord width (loadLE (mask ++ mask ++ mask ++ mask)) (before.length + headerLen)
        before.length i buf) := by
  obtain ⟨seg, wide, read, next⟩ := inv.segment width inside
  rw [← storeLE_mask128 four seg (by omega) i aligned, wide] at next
  rw [unmaskWord, read]
  exact next

theorem Unmasking.byte {i : Nat} {buf : Bytes}
    (inv : Unmasking before mask src after headerLen i buf) (inside : i + 1 ≤ src.length) :
    Unmasking before mask src after headerLen (i + 1)
      (unmaskByte mask (before.length + headerLen) before.length i buf) := by
  obtain ⟨seg, wide, read, next⟩ := inv.segment 1 inside
  obtain ⟨b, rfl⟩ := List.length_eq_one_iff.mp wide
  have here : buf.getD (before.length + headerLen + i) 0 = b := by
    have first : (readAt buf (before.length + headerLen + i) 1).getD 0 0 = b := by rw [read]; rfl
    simpa [readAt, List.getD, List.getElem?_take, List.getElem?_drop] using first
  have low : i &&& 3 = i % 4 := Nat.and_two_pow_sub_one_eq_mod i 2
  rw [unmaskByte, here, low]
  simpa using next

/-- The three loops together unmask the payload to where the frame began. What
was before and behind the frame stays. -/
theorem unmask_frame (four : mask.length = 4) (hole : Bytes) (wide : hole.length = headerLen) :
    ∃ room : Bytes, room.length = headerLen ∧
      unmask mask (before.length + headerLen) before.length src.length
        (before ++ (hole ++ (src ++ after))) =
        before ++ (applyMask mask src ++ (room ++ after)) := by
  have low16 : src.length &&& 15 = src.length % 16 := Nat.and_two_pow_sub_one_eq_mod _ 4
  have low8 : src.length &&& 7 = src.length % 8 := Nat.and_two_pow_sub_one_eq_mod _ 3
  simp only [unmask, low16, low8]
  -- sixteen bytes at a time, each word from the mask in phase with the position
  obtain ⟨at16, inv, aligned⟩ := forUpto_rule
    (unmaskWord 16 (loadLE (mask ++ mask ++ mask ++ mask)) (before.length + headerLen)
      before.length)
    16 (src.length - src.length % 16) (by decide)
    (fun i buf => Unmasking before mask src after headerLen i buf ∧ 4 ∣ i)
    (fun i buf ahead inv => ⟨inv.1.word four 16 (by decide) inv.2 (by omega), by omega⟩)
    (src.length / 16) src.length 0 (before ++ (hole ++ (src ++ after))) (by omega) (by omega)
    ⟨Unmasking.start hole wide, by decide⟩
  rw [at16]
  -- then eight at a time, from where the first loop stopped
  obtain ⟨at8, inv, aligned⟩ := forUpto_rule
    (unmaskWord 8 (loadLE (mask ++ mask ++ mask ++ mask)) (before.length + headerLen)
      before.length)
    8 (src.length - src.length % 8) (by decide)
    (fun i buf => Unmasking before mask src after headerLen i buf ∧ 4 ∣ i)
    (fun i buf ahead inv => ⟨inv.1.word four 8 (by decide) inv.2 (by omega), by omega⟩)
    (src.length % 16 / 8) src.length (src.length - src.length % 16) _ (by omega) (by omega)
    ⟨inv, aligned⟩
  rw [at8]
  -- and the rest byte by byte
  obtain ⟨-, inv⟩ := forUpto_rule (unmaskByte mask (before.length + headerLen) before.length)
    1 src.length (by decide) (Unmasking before mask src after headerLen)
    (fun i buf ahead inv => inv.byte ahead)
    (src.length % 8) src.length (src.length - src.length % 8) _ (by omega) (by omega) inv
  exact inv.finish

end Unmask

/-- What `_decode` does behind a header, for a payload that is all there. -/
theorem decodePayload_whole (conn : Conn) (before hdr src after mask : Bytes) (headerLen : Nat)
    (buffer : conn.rbuff = before ++ (hdr ++ (src ++ after))) (four : mask.length = 4)
    (wide : hdr.length = headerLen) (some_header : 0 < headerLen)
    (countable : headerLen + src.length < 2 ^ 64) :
    ∃ room : Bytes, room.length + 1 = headerLen ∧
      decodePayload conn before.length headerLen src.length mask =
        let conn := { conn with
          rbuff := before ++ (applyMask mask src ++ (0 :: room ++ after)) }
        if utf8Validate (applyMask mask src) then
          .ok conn src.length (headerLen + src.length)
        else .fatal (conn.qevClose .notUtf8) (some (src.length, headerLen + src.length)) := by
  obtain ⟨room, kept, unmasked⟩ := @unmask_frame before mask src after headerLen four hdr wide
  obtain ⟨b, room, rfl⟩ := List.exists_cons_of_length_pos (kept ▸ some_header : 0 < room.length)
  -- the whole payload is in the buffer
  have there : ¬ (before ++ (hdr ++ (src ++ after))).length - before.length <
      headerLen + src.length := by
    simp only [List.length_append, wide]
    omega
  -- the terminator goes over the first byte of the room the header leaves
  have ended : writeAt (before ++ (applyMask mask src ++ (b :: room ++ after)))
      (before.length + src.length) [0] =
      before ++ (applyMask mask src ++ (0 :: room ++ after)) := by
    have shape := writeAt_append (before ++ applyMask mask src) [b] (room ++ after) [0]
      (before.length + src.length) (by simp) rfl
    simpa using shape
  have text : readAt (before ++ (applyMask mask src ++ (0 :: room ++ after)))
      before.length src.length = applyMask mask src :=
    readAt_append before (applyMask mask src) (0 :: room ++ after) _ _ rfl (by simp)
  refine ⟨room, by simpa using kept, ?_⟩
  simp only [decodePayload, qevSafeUadd, countable, if_true, there, if_false, buffer, unmasked,
    ended, text]

/-- The second byte of a masked frame, by the length it announces. -/
theorem second_masked (c : UInt8) : (0x80 ||| c) &&& maskedBit ≠ 0 := by
  revert c
  decide +kernel

theorem second_len (c : UInt8) (low : c ≤ 127) : (0x80 ||| c) &&& maskLen = c := by
  revert c
  decide +kernel

theorem second_split (b : UInt8) (bit : b &&& maskedBit ≠ 0) :
    b = 0x80 ||| (b &&& maskLen) ∧ b &&& maskLen ≤ 127 := by
  revert b
  decide +kernel

/-- Where the extended length and the masking key are read. -/
theorem readAt_header (a b : UInt8) (extra n : Nat) (key rest : Bytes) (four : key.length = 4) :
    readAt (a :: b :: (storeBE extra n ++ (key ++ rest))) 2 extra = storeBE extra n ∧
      readAt (a :: b :: (storeBE extra n ++ (key ++ rest))) (2 + extra) 4 = key :=
  ⟨readAt_append [a, b] (storeBE extra n) (key ++ rest) 2 extra rfl (length_storeBE extra n),
    readAt_append (a :: b :: storeBE extra n) key rest (2 + extra) 4
      (by simp; omega) four⟩

theorem second_long (c : UInt8) (top : c ≤ 127) (notShort : ¬ c ≤ payloadShort)
    (notMedium : c ≠ payloadMedium) : c = 127 := by
  revert c
  decide +kernel

/-- The header that `_decode` finds in a masked text frame. -/
theorem decodeHead_encode (f : Frame) (key after : Bytes) (masked : f.mask = some key)
    (text : f.opcode = opcodeText) :
    decodeHead (f.encode ++ after) = .frame (6 + f.form.extra) f.payload.length key := by
  have four := f.mask_length key masked
  have shape : f.encode ++ after = f.first :: (0x80 ||| f.form.code f.payload.length) ::
      (storeBE f.form.extra f.payload.length ++ (key ++ (f.body ++ after))) := by
    simp [Frame.encode, Frame.header, Frame.masked, masked]
  have enough : 6 + f.form.extra ≤ (f.encode ++ after).length := by
    simp [Frame.encode, f.length_header key masked]
  have isText : f.first &&& opcode = opcodeText := text
  have notClose : opcodeText ≠ opcodeClose := by decide
  have six : ¬(f.encode ++ after).length < 6 := by omega
  obtain ⟨readLen, readKey⟩ := readAt_header f.first (0x80 ||| f.form.code f.payload.length)
    f.form.extra f.payload.length key (f.body ++ after) four
  rw [← shape] at readLen readKey
  have whole : f.payload.length < 256 ^ f.form.extra →
      loadBE (storeBE f.form.extra f.payload.length) = f.payload.length := fun fits => by
    rw [loadBE_storeBE, Nat.mod_eq_of_lt fits]
  have first : (f.encode ++ after).getD 0 0 = f.first := by rw [shape]; rfl
  have second : (f.encode ++ after).getD 1 0 = 0x80 ||| f.form.code f.payload.length := by
    rw [shape]; rfl
  simp only [decodeHead, first, isText, notClose, six, second, second_masked, if_false,
    not_true_eq_false, ne_eq]
  have holds := f.holds
  cases form : f.form with
  | short =>
    rw [form] at holds readKey
    have small : f.payload.length ≤ 125 := holds
    have same : (UInt8.ofNat f.payload.length).toNat = f.payload.length := by
      rw [UInt8.toNat_ofNat']
      omega
    have low : UInt8.ofNat f.payload.length ≤ payloadShort := by
      rw [UInt8.le_iff_toNat_le, same]
      exact small
    have len : (0x80 ||| LenForm.short.code f.payload.length) &&& maskLen =
        UInt8.ofNat f.payload.length :=
      second_len _ (UInt8.le_trans low (by decide))
    have key : readAt (f.encode ++ after) 2 4 = key := readKey
    simp only [len, low, same, key, if_true]
    rfl
  | medium =>
    rw [form] at holds readKey readLen whole enough
    have eight : ¬(f.encode ++ after).length < 8 := Nat.not_lt.mpr enough
    have len : (0x80 ||| LenForm.medium.code f.payload.length) &&& maskLen = payloadMedium :=
      second_len 126 (by decide)
    have notShort : ¬payloadMedium ≤ payloadShort := by decide
    have bytes : readAt (f.encode ++ after) 2 2 = storeBE 2 f.payload.length := readLen
    have key : readAt (f.encode ++ after) 4 4 = key := readKey
    simp only [len, notShort, eight, bytes, key, if_true, if_false]
    rw [show loadBE (storeBE 2 f.payload.length) = f.payload.length from whole holds]
    rfl
  | long =>
    rw [form] at holds readKey readLen whole enough
    have fourteen : ¬(f.encode ++ after).length < 14 := Nat.not_lt.mpr enough
    have len : (0x80 ||| LenForm.long.code f.payload.length) &&& maskLen = 127 :=
      second_len 127 (by decide)
    have notShort : ¬(127 : UInt8) ≤ payloadShort := by decide
    have notMedium : ¬(127 : UInt8) = payloadMedium := by decide
    have bytes : readAt (f.encode ++ after) 2 8 = storeBE 8 f.payload.length := readLen
    have key : readAt (f.encode ++ after) 10 4 = key := readKey
    simp only [len, notShort, notMedium, fourteen, bytes, key, if_false]
    rw [show loadBE (storeBE 8 f.payload.length) = f.payload.length from whole holds]
    rfl

/-- The header of a masked text frame leads `_decode` to its payload. -/
theorem decode_header (conn : Conn) (before after : Bytes) (f : Frame) (key : Bytes)
    (masked : f.mask = some key) (text : f.opcode = opcodeText)
    (buffer : conn.rbuff = before ++ (f.encode ++ after)) :
    decode conn before.length =
      decodePayload conn before.length (6 + f.form.extra) f.payload.length key := by
  have head : decodeHead (conn.rbuff.drop before.length) =
      .frame (6 + f.form.extra) f.payload.length key := by
    rw [buffer, List.drop_left]
    exact decodeHead_encode f key after masked text
  simp only [decode, head]

/-- A whole masked text frame is unmasked, and refused if it is not UTF-8. -/
theorem decode_frame (conn : Conn) (before after : Bytes) (f : Frame)
    (masked : f.masked) (text : f.opcode = opcodeText)
    (buffer : conn.rbuff = before ++ (f.encode ++ after)) :
    ∃ room : Bytes, room.length + 1 = f.header.length ∧
      decode conn before.length =
        let conn := { conn with rbuff := before ++ (f.payload ++ (0 :: room ++ after)) }
        if utf8Validate f.payload then .ok conn f.payload.length f.encode.length
        else .fatal (conn.qevClose .notUtf8) (some (f.payload.length, f.encode.length)) := by
  obtain ⟨key, masked⟩ := Option.isSome_iff_exists.mp masked
  have body : f.body = applyMask key f.payload := by simp [Frame.body, masked]
  have wide := f.length_header key masked
  have unmasked : applyMask key f.body = f.payload := by rw [body, applyMask_applyMask]
  have split : conn.rbuff = before ++ (f.header ++ (f.body ++ after)) := by
    rw [buffer, Frame.encode, List.append_assoc]
  obtain ⟨room, kept, decoded⟩ := decodePayload_whole conn before f.header f.body after key
    (6 + f.form.extra) split (f.mask_length key masked) wide (by omega)
    (by rw [f.length_body]; exact f.countable)
  refine ⟨room, by rw [wide, kept], ?_⟩
  rw [decode_header conn before after f key masked text buffer, ← f.length_body, decoded, unmasked,
    Frame.encode, List.length_append, wide]

/-- Bytes whose header announces no more than there is begin with a frame. -/
theorem exists_frame (bytes : Bytes) (form : LenForm) (len : Nat)
    (enough : 6 + form.extra + len ≤ bytes.length)
    (countable : 6 + form.extra + len < 2 ^ 64) (holds : form.Holds len)
    (second : bytes.getD 1 0 = 0x80 ||| form.code len)
    (extended : readAt bytes 2 form.extra = storeBE form.extra len) :
    ∃ (f : Frame) (after : Bytes), f.masked ∧ f.first = bytes.getD 0 0 ∧
      bytes = f.encode ++ after := by
  obtain ⟨a, b, rest, rfl⟩ : ∃ a b rest, bytes = a :: b :: rest := by
    match bytes, enough with
    | a :: b :: rest, _ => exact ⟨a, b, rest, rfl⟩
    | [a], short => simp at short; omega
    | [], short => simp at short
  have second : b = 0x80 ||| form.code len := second
  have extended : rest.take form.extra = storeBE form.extra len := extended
  have room : 4 + form.extra + len ≤ rest.length := by
    simp only [List.length_cons] at enough
    omega
  -- cut the rest into extended length, key, payload and what follows
  have cut : rest = storeBE form.extra len ++ ((rest.drop form.extra).take 4 ++
      (((rest.drop form.extra).drop 4).take len ++ ((rest.drop form.extra).drop 4).drop len)) := by
    rw [List.take_append_drop, List.take_append_drop, ← extended, List.take_append_drop]
  have four : ((rest.drop form.extra).take 4).length = 4 := by
    simp only [List.length_take, List.length_drop]
    omega
  have size : (((rest.drop form.extra).drop 4).take len).length = len := by
    simp only [List.length_take, List.length_drop]
    omega
  generalize (rest.drop form.extra).take 4 = key at cut four
  generalize ((rest.drop form.extra).drop 4).take len = body at cut size
  generalize ((rest.drop form.extra).drop 4).drop len = after at cut
  have same : (applyMask key body).length = len := by rw [length_applyMask, size]
  let f : Frame := {
    first := a, form, mask := some key, payload := applyMask key body
    mask_length := by
      rintro _ ⟨rfl⟩
      exact four
    holds := by rw [same]; exact holds
    countable := by rw [same]; exact countable }
  refine ⟨f, after, rfl, rfl, ?_⟩
  have bodyBytes : f.body = body := applyMask_applyMask key body
  have headerBytes : f.header = a :: b :: (storeBE form.extra len ++ key) := by
    simp [Frame.header, Frame.masked, f, same, second]
  rw [Frame.encode, bodyBytes, headerBytes, cut]
  simp

/-- When the part behind the header comes out well, the frame is all there. -/
theorem decodePayload_ok (conn conn' : Conn) (offset headerLen len : Nat) (mask : Bytes)
    (n frameLen : Nat) (decoded : decodePayload conn offset headerLen len mask =
      .ok conn' n frameLen) :
    headerLen + len < 2 ^ 64 ∧ headerLen + len ≤ conn.rbuff.length - offset := by
  unfold decodePayload qevSafeUadd at decoded
  split at decoded
  next => exact Decoded.noConfusion decoded
  next totalLen sum =>
    obtain ⟨fits, rfl⟩ : headerLen + len < 2 ^ 64 ∧ headerLen + len = totalLen := by
      simpa using sum
    split at decoded
    next => exact Decoded.noConfusion decoded
    next there => exact ⟨fits, Nat.not_lt.mp there⟩

/-- `_decode` says `PROT_OK` for masked text frames only. -/
theorem decode_ok (conn conn' : Conn) (offset len frameLen : Nat)
    (decoded : decode conn offset = .ok conn' len frameLen) :
    ∃ (f : Frame) (after : Bytes), f.masked ∧ f.opcode = opcodeText ∧
      conn.rbuff.drop offset = f.encode ++ after := by
  have size : (conn.rbuff.drop offset).length = conn.rbuff.length - offset := List.length_drop
  unfold decode at decoded
  generalize conn.rbuff.drop offset = bytes at decoded size ⊢
  -- whichever header form was read, it announces a payload that is there
  have found : ∃ (form : LenForm) (n : Nat), 6 + form.extra + n < 2 ^ 64 ∧
      6 + form.extra + n ≤ bytes.length ∧ form.Holds n ∧
      bytes.getD 1 0 = 0x80 ||| form.code n ∧
      readAt bytes 2 form.extra = storeBE form.extra n ∧
      bytes.getD 0 0 &&& opcode = opcodeText := by
    cases head : decodeHead bytes with
    | again => simp [head] at decoded
    | fatal reason => simp [head] at decoded
    | frame headerLen n key =>
      rw [head] at decoded
      obtain ⟨countable, enough⟩ := decodePayload_ok _ _ _ _ _ _ _ _ decoded
      rw [← size] at enough
      simp only [decodeHead] at head
      split_ifs at head with close short text mask low medium tooShort tooShort'
      · cases head
        have split := (second_split (bytes.getD 1 0) mask).1
        have holds : (bytes.getD 1 0 &&& maskLen).toNat ≤ 125 := UInt8.le_iff_toNat_le.mp low
        refine ⟨.short, (bytes.getD 1 0 &&& maskLen).toNat, countable, enough, holds, ?_, rfl,
          not_not.mp text⟩
        simpa [LenForm.code] using split
      · cases head
        have wide : (readAt bytes 2 2).length = 2 := length_readAt bytes 2 2 (by omega)
        have holds : loadBE (readAt bytes 2 2) < 2 ^ 16 := by
          have bound := loadBE_lt (readAt bytes 2 2)
          rwa [wide] at bound
        have second : bytes.getD 1 0 = 0x80 ||| 126 := by
          rw [(second_split (bytes.getD 1 0) mask).1, medium]
          rfl
        have extended := storeBE_loadBE (readAt bytes 2 2)
        rw [wide] at extended
        exact ⟨.medium, loadBE (readAt bytes 2 2), countable, enough, holds, second,
          extended.symm, not_not.mp text⟩
      · cases head
        have wide : (readAt bytes 2 8).length = 8 := length_readAt bytes 2 8 (by omega)
        have holds : loadBE (readAt bytes 2 8) < 2 ^ 64 := by
          have bound := loadBE_lt (readAt bytes 2 8)
          rwa [wide] at bound
        have second : bytes.getD 1 0 = 0x80 ||| 127 := by
          obtain ⟨split, top⟩ := second_split (bytes.getD 1 0) mask
          rw [split, second_long _ top low medium]
        have extended := storeBE_loadBE (readAt bytes 2 8)
        rw [wide] at extended
        exact ⟨.long, loadBE (readAt bytes 2 8), countable, enough, holds, second,
          extended.symm, not_not.mp text⟩
  obtain ⟨form, n, countable, enough, holds, second, extended, text⟩ := found
  obtain ⟨f, after, masked, first, whole⟩ :=
    exists_frame bytes form n enough countable holds second extended
  refine ⟨f, after, masked, ?_, whole⟩
  rw [Frame.opcode, first]
  exact text

/-- The bytes begin with a whole masked text frame of valid UTF-8. -/
def HoldsText (bytes : Bytes) (f : Frame) (after : Bytes) : Prop :=
  bytes = f.encode ++ after ∧ f.masked ∧ f.opcode = opcodeText ∧ utf8Validate f.payload

section Route

variable (handle : RawHandle) (conn : Conn) (used : Nat)

theorem takeWhile_text (text rest : Bytes) (noNul : 0 ∉ text) :
    (text ++ 0 :: rest).takeWhile (· ≠ 0) = text := by
  rw [List.takeWhile_append_of_pos]
  · simp
  · intro c member
    simpa using fun zero : c = 0 => noNul (zero ▸ member)

/-- A whole masked text frame is handed over as its payload, if that is UTF-8. -/
theorem route_frame (before after : Bytes) (f : Frame) (masked : f.masked)
    (text : f.opcode = opcodeText) (buffer : conn.rbuff = before ++ (f.encode ++ after)) :
    (rfc6455Route handle conn before.length).handed =
      if utf8Validate f.payload then some f.payload else none := by
  obtain ⟨room, -, decoded⟩ := decode_frame conn before after f masked text buffer
  unfold rfc6455Route
  rw [decoded]
  cases valid : utf8Validate f.payload with
  | false => rfl
  | true =>
    have ended : writeAt (before ++ (f.payload ++ (0 :: room ++ after)))
        (before.length + f.payload.length) [0] =
        before ++ (f.payload ++ (0 :: room ++ after)) := by
      have shape := writeAt_append (before ++ f.payload) [0] (room ++ after) [0]
        (before.length + f.payload.length) (by simp) rfl
      simpa using shape
    have string : ((before ++ (f.payload ++ (0 :: room ++ after))).drop before.length).takeWhile
        (· ≠ 0) = f.payload := by
      rw [List.drop_left]
      exact takeWhile_text f.payload (room ++ after) (utf8Validate_noNul f.payload valid)
    simp only [if_true, ended, string]

/-- A frame at the offset, with what is before it. -/
theorem exists_before (f : Frame) (after : Bytes) (here : conn.rbuff.drop used = f.encode ++ after) :
    ∃ before : Bytes, before.length = used ∧ conn.rbuff = before ++ (f.encode ++ after) := by
  have nonempty : 0 < (conn.rbuff.drop used).length := by
    rw [here]
    simp [Frame.encode, Frame.header]
  refine ⟨conn.rbuff.take used, ?_, ?_⟩
  · rw [List.length_drop] at nonempty
    rw [List.length_take]
    omega
  · rw [← here, List.take_append_drop]

/-- `protocol_raw_handle` gets the payload of a whole masked text frame, and it
gets every one of them; FIN makes no difference. -/
theorem handed_iff (msg : Bytes) :
    (rfc6455Route handle conn used).handed = some msg ↔
      ∃ f after, HoldsText (conn.rbuff.drop used) f after ∧ f.payload = msg := by
  constructor
  · intro handed
    obtain ⟨conn', len, frameLen, decoded⟩ :
        ∃ conn' len frameLen, decode conn used = .ok conn' len frameLen := by
      unfold rfc6455Route at handed
      split at handed
      next => cases handed
      next => cases handed
      next conn' len frameLen decoded => exact ⟨conn', len, frameLen, decoded⟩
    obtain ⟨f, after, masked, text, here⟩ := decode_ok conn conn' used len frameLen decoded
    obtain ⟨before, rfl, buffer⟩ := exists_before conn used f after here
    rw [route_frame handle conn before after f masked text buffer] at handed
    split at handed
    next valid => exact ⟨f, after, ⟨here, masked, text, valid⟩, Option.some.inj handed⟩
    next => cases handed
  · rintro ⟨f, after, ⟨here, masked, text, valid⟩, rfl⟩
    obtain ⟨before, rfl, buffer⟩ := exists_before conn used f after here
    rw [route_frame handle conn before after f masked text buffer, if_pos valid]

/-- Only a complete message is dispatched: what is handed over is the text of a
frame with FIN set, and no fragment of a message is. -/
def DispatchesComplete : Prop :=
  (∀ msg, (rfc6455Route handle conn used).handed = some msg →
    ∃ f after, HoldsText (conn.rbuff.drop used) f after ∧ f.fin ∧ f.payload = msg) ∧
  ∀ (f : Frame) (after : Bytes), conn.rbuff.drop used = f.encode ++ after → f.Fragment →
    (rfc6455Route handle conn used).handed = none

/-- The bytes begin with the first fragment of a text message. -/
def Unfinished (bytes : Bytes) : Prop := ∃ f after, HoldsText bytes f after ∧ f.fin = false

theorem first_eq (f g : Frame) (after rest : Bytes) (same : f.encode ++ after = g.encode ++ rest) :
    f.first = g.first :=
  (List.cons.inj same).1

/-- `_decode` never looks at FIN: the route function dispatches complete
messages only, except at the first fragment of a text message. -/
theorem dispatches_complete_iff :
    DispatchesComplete handle conn used ↔ ¬ Unfinished (conn.rbuff.drop used) := by
  constructor
  · rintro ⟨-, fragments⟩ ⟨f, after, holds, unfinished⟩
    have none := fragments f after holds.1 (Or.inl unfinished)
    have some := (handed_iff handle conn used f.payload).mpr ⟨f, after, holds, rfl⟩
    rw [none] at some
    cases some
  · intro finished
    have final : ∀ f after, HoldsText (conn.rbuff.drop used) f after → f.fin := by
      intro f after holds
      by_contra clear
      exact finished ⟨f, after, holds, by simpa using clear⟩
    constructor
    · intro msg handed
      obtain ⟨f, after, holds, payload⟩ := (handed_iff handle conn used msg).mp handed
      exact ⟨f, after, holds, final f after holds, payload⟩
    · intro g rest here fragment
      by_contra some
      obtain ⟨msg, handed⟩ := Option.ne_none_iff_exists'.mp some
      obtain ⟨f, after, holds, -⟩ := (handed_iff handle conn used msg).mp handed
      -- both frames begin with the same byte, which has FIN set and the text opcode
      have same := first_eq f g after rest (holds.1.symm.trans here)
      have fin : g.fin := by
        rw [Frame.fin, ← same]
        exact final f after holds
      have text : g.opcode = opcodeText := by
        rw [Frame.opcode, ← same]
        exact holds.2.2.1
      rcases fragment with clear | continuation
      · rw [fin] at clear
        exact Bool.noConfusion clear
      · rw [text] at continuation
        exact absurd continuation (by decide)

end Route

/-- `/qio/ping:1={}` in two fragments. -/
def pingFragments : Frame × Frame :=
  ({ first := 0x01, form := .short, mask := some (str "abcd"), payload := str "/qio/ping:1="
     mask_length := by rintro _ ⟨rfl⟩; rfl
     holds := by decide
     countable := by decide },
   { first := 0x80, form := .short, mask := some (str "abcd"), payload := str "{}"
     mask_length := by rintro _ ⟨rfl⟩; rfl
     holds := by decide
     countable := by decide })

/-- The first fragment is dispatched as an event of its own. -/
theorem fragment_dispatched :
    ¬ DispatchesComplete (fun conn _ => (conn, .ok))
      { rbuff := pingFragments.1.encode ++ pingFragments.2.encode } 0 := by
  rintro ⟨-, fragments⟩
  have none := fragments pingFragments.1 pingFragments.2.encode rfl (Or.inl (by decide))
  exact absurd none (by decide)

end QuickIO
