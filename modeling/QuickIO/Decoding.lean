import QuickIO.Reads

/-!
# What `_decode` leaves

The lengths `_decode` writes and the buffer it leaves, also when it refuses the text. For
a whole masked text frame that is the byte-wise rule of the protocol.
-/
namespace QuickIO

open Lib Lib.WebSocket

/-- The connection after `_decode`. -/
def Decoded.left (conn : Conn) : Decoded → Conn
  | .again => conn
  | .fatal conn _ => conn
  | .ok conn _ _ => conn

/-- What `_decode` leaves of a whole masked text frame: the unmasked payload in front, a
NUL, and the bytes around the frame. The lengths are written, whatever is returned. -/
theorem decode_left (conn : Conn) (before after : Bytes) (f : Frame) (masked : f.masked)
    (text : f.opcode = opcodeText) (buffer : conn.rbuff = before ++ (f.encode ++ after)) :
    ∃ room : Bytes, room.length + 1 = f.header.length ∧
      ((decode conn before.length).left conn).rbuff =
        before ++ (f.payload ++ (0 :: room ++ after)) ∧
      (decode conn before.length).outs = some (f.payload.length, f.encode.length) := by
  obtain ⟨room, size, decoded⟩ := decode_frame conn before after f masked text buffer
  refine ⟨room, size, ?_⟩
  rw [decoded]
  split
  · exact ⟨rfl, rfl⟩
  · exact ⟨rfl, rfl⟩

section Frame

variable (conn : Conn) (before after : Bytes) (f : Frame) (key : Bytes)

/-- Fast unmasking is the byte-wise rule, for every whole masked text frame at every offset:
every byte of the payload is unmasked to where the frame began, a NUL is behind the last,
nothing before or behind the frame has changed, and the lengths `_decode` writes are those of
the payload and of the frame. -/
theorem decode_unmasks (masked : f.mask = some key) (text : f.opcode = opcodeText)
    (buffer : conn.rbuff = before ++ (f.encode ++ after)) :
    let left := ((decode conn before.length).left conn).rbuff
    left.length = conn.rbuff.length ∧
      (∀ i, i < f.body.length →
        left[before.length + i]? = some (f.body.getD i 0 ^^^ key.getD (i % 4) 0)) ∧
      left[before.length + f.body.length]? = some 0 ∧
      (∀ i, i < before.length → left[i]? = conn.rbuff[i]?) ∧
      (∀ i, before.length + f.encode.length ≤ i → left[i]? = conn.rbuff[i]?) ∧
      (decode conn before.length).outs =
        some (f.body.length, f.header.length + f.body.length) := by
  have isMasked : f.masked := by simp [Frame.masked, masked]
  have body : f.payload = applyMask key f.body := by
    simp [Frame.body, masked, applyMask_applyMask]
  obtain ⟨room, size, left, outs⟩ := decode_left conn before after f isMasked text buffer
  have encoded : f.encode.length = f.header.length + f.body.length := by
    rw [Frame.encode, List.length_append]
  have payload : f.payload.length = f.body.length := f.length_body.symm
  simp only [left]
  refine ⟨?_, ?_, ?_, ?_, ?_, ?_⟩
  · rw [buffer]
    simp only [List.length_append, List.length_cons]
    omega
  · intro i inside
    rw [List.getElem?_append_right (Nat.le_add_right _ _), Nat.add_sub_cancel_left,
      List.getElem?_append_left (payload ▸ inside), body, applyMask, List.getElem?_mapIdx,
      List.getElem?_eq_getElem inside, List.getD_eq_getElem _ _ inside]
    rfl
  · rw [List.getElem?_append_right (Nat.le_add_right _ _), Nat.add_sub_cancel_left,
      List.getElem?_append_right payload.le, payload, Nat.sub_self]
    rfl
  · intro i early
    rw [buffer, List.getElem?_append_left early, List.getElem?_append_left early]
  · intro i late
    have moved : before ++ (f.payload ++ (0 :: room ++ after)) =
        (before ++ (f.payload ++ 0 :: room)) ++ after := by simp
    have front : (before ++ (f.payload ++ 0 :: room)).length = (before ++ f.encode).length := by
      simp only [List.length_append, List.length_cons]
      omega
    have behind : (before ++ f.encode).length ≤ i := by rwa [List.length_append]
    rw [buffer, moved, ← List.append_assoc before f.encode,
      List.getElem?_append_right (front.le.trans behind),
      List.getElem?_append_right behind, front]
  · rw [outs, payload, encoded]

end Frame

/-- A frame of 25 bytes, which takes a round of each loop, behind and before other bytes. -/
theorem decode_unmasks_all :
    let f : Frame :=
      { first := 0x81, form := .medium, mask := some (str "abcd")
        payload := str "/qio/ping:1=[1,2,3,4,5,6]"
        mask_length := by rintro _ ⟨rfl⟩; rfl
        holds := by decide
        countable := by decide }
    let conn : Conn := { rbuff := str "xy" ++ (f.encode ++ str "z") }
    (decode conn 2).outs = some (25, 33) ∧ ((decode conn 2).left conn).rbuff[3]? = some 0x71 := by
  intro f conn
  obtain ⟨-, unmasked, -, -, -, outs⟩ :=
    decode_unmasks conn (str "xy") (str "z") f (str "abcd") rfl (by decide) rfl
  have second := unmasked 1 (by decide)
  have byte : f.body.getD 1 0 ^^^ (str "abcd").getD (1 % 4) 0 = 0x71 := by decide
  rw [byte] at second
  exact ⟨outs, second⟩

end QuickIO
