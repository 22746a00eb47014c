import QuickIO.EndToEnd
import QuickIO.Lib.Payloads
import QuickIO.RoundTrip

/-!
# What a client reads

A client takes the bytes it is written apart by the rules of its protocol, in the chunks
they come in. It has then read the messages that were posted for it: at any time the
first ones, in the end all, and among them why it was closed.
-/
namespace QuickIO

open Lib Lib.WebSocket

/-! ### The client -/

/-- What a client makes of one message of the server. -/
inductive Heard
  | text (text : Bytes)
  | close (payload : Bytes)
  | other (first : UInt8) (payload : Bytes)
deriving DecidableEq

/-- A whole text message, a close message, or anything else that RFC 6455 has. -/
def heardFrame (frame : UInt8 × Bytes) : Heard :=
  if frame.1 = 0x81 then .text frame.2
  else if frame.1 = 0x88 then .close frame.2
  else .other frame.1 frame.2

theorem guint64_size : 0 < 8 := Nat.succ_pos 7

/-- A text behind its length. -/
def hearsRaw : Framer UInt8 Heard Unit :=
  (lengthHeader 8 guint64_size).withPayload.map fun frame => .text frame.2

/-- The frames of a server, which are not masked. -/
def hearsRfc6455 : Framer UInt8 Heard Unit := unmasked.withPayload.map heardFrame

/-- How a client reads what it is written behind the answer to its handshake. -/
def Prot.hears : Prot → Framer UInt8 Heard Unit
  | .rfc6455 => hearsRfc6455
  | _ => hearsRaw

theorem Prot.hears_rfc6455 : Prot.hears .rfc6455 = hearsRfc6455 := rfl

theorem Prot.hears_raw : Prot.hears .raw = hearsRaw := rfl

theorem Prot.hears_nil (prot : Prot) : prot.hears.next [] = .more := by
  cases prot <;> rfl

/-! ### What it is written -/

theorem hearsRaw_store {text : List UInt8} (fits : text.length < 256 ^ 8) :
    hearsRaw.next (storeBE 8 text.length ++ text) =
      .item (storeBE 8 text.length ++ text).length (.text text) := by
  have framed := lengthHeader_payload (β := Unit) guint64_size fits
  rw [hearsRaw, Framer.map_item _ framed]

theorem hearsRaw_frame {m : Message} (fits : m.text.length < 2 ^ 64) :
    hearsRaw.next (protocolRawFrame m) = .item (protocolRawFrame m).length (.text m.text) := by
  have frame : protocolRawFrame m = storeBE 8 m.text.length ++ m.text := rfl
  have eight : (256 : Nat) ^ 8 = 2 ^ 64 := by norm_num
  rw [frame]
  apply hearsRaw_store
  rw [eight]
  exact fits

theorem protocolRfc6455Frame_plain (m : Message) :
    protocolRfc6455Frame m = plainFrame 0x81 (lenForm m.text.length) m.text := by
  have frame : protocolRfc6455Frame m = 0x81 ::
      ((if m.text.length ≤ 125 then [UInt8.ofNat m.text.length]
        else if m.text.length ≤ 0xffff then 126 :: storeBE 2 m.text.length
        else 127 :: storeBE 8 m.text.length) ++ m.text) := rfl
  rw [frame, lenForm]
  split_ifs <;> rfl

theorem hearsRfc6455_frame {m : Message} (fits : m.text.length < 2 ^ 64) :
    hearsRfc6455.next (protocolRfc6455Frame m) =
      .item (protocolRfc6455Frame m).length (.text m.text) := by
  rw [protocolRfc6455Frame_plain]
  exact Framer.map_item heardFrame (unmasked_plainFrame 0x81 (lenForm_holds fits))

/-- The payload of a close message begins with a status code, if there is any. -/
def CloseCode (payload : Bytes) : Prop :=
  payload = [] ∨ ∃ code ∈ [1001, 1002, 1003, 1007, 1008, 1009], ∃ text,
    payload = storeBE 2 code ++ text

theorem hearsRfc6455_close (reason : CloseReason) :
    ∃ payload, CloseCode payload ∧ hearsRfc6455.next (protocolRfc6455Close reason) =
      .item (protocolRfc6455Close reason).length (.close payload) := by
  have coded : ∀ code ∈ [1001, 1002, 1003, 1007, 1008, 1009], ∀ text : Bytes,
      CloseCode (storeBE 2 code ++ text) := by
    intro code member text
    exact Or.inr ⟨code, member, text, rfl⟩
  cases reason with
  | exiting => exact ⟨_, coded 1001 (by decide) [], rfl⟩
  | invalidHandshake => exact ⟨_, coded 1002 (by decide) (str "invalid handshake"), rfl⟩
  | invalidEventFormat => exact ⟨_, coded 1002 (by decide) (str "invalid event format"), rfl⟩
  | noMask => exact ⟨_, coded 1002 (by decide) (str "client must mask data"), rfl⟩
  | unsupportedOpcode => exact ⟨_, coded 1003 (by decide) [], rfl⟩
  | notUtf8 => exact ⟨_, coded 1007 (by decide) [], rfl⟩
  | timeout => exact ⟨_, coded 1008 (by decide) (str "client timeout"), rfl⟩
  | outOfMem => exact ⟨_, coded 1009 (by decide) [], rfl⟩
  | hup | unknownError | heartattack | httpDone | badRequest | lengthRequired | notSupported
    | done => exact ⟨[], Or.inl rfl, rfl⟩

/-! ### What it reads -/

/-- Frames behind the answer to the handshake. -/
theorem Prot.hears_frame {prot : Prot} (framed : Prot.Framed (some prot)) {m : Message}
    (fits : m.text.length < 2 ^ 64) {bytes : Bytes} (frame : prot.frame m = some bytes) :
    prot.hears.next bytes = .item bytes.length (.text m.text) := by
  rcases framed with raw | rfc6455
  · obtain rfl : prot = .raw := Option.some.inj raw
    obtain rfl : protocolRawFrame m = bytes := Option.some.inj frame
    rw [hears_raw]
    exact hearsRaw_frame fits
  · obtain rfl : prot = .rfc6455 := Option.some.inj rfc6455
    obtain rfl : protocolRfc6455Frame m = bytes := Option.some.inj frame
    rw [hears_rfc6455]
    exact hearsRfc6455_frame fits

/-- Frames of messages are a run of their texts, whatever comes between them. -/
theorem Prot.hears_carries {prot : Prot} (framed : Prot.Framed (some prot))
    {before after : List Message} (fits : ∀ m ∈ before ++ after, m.text.length < 2 ^ 64)
    (between : List (Bytes × Heard))
    (whole : ∀ p ∈ between, prot.hears.next p.1 = .item p.1.length p.2) :
    prot.hears.Carries
      ((before.map fun m => (prot.frame m).getD []).flatten ++ ((between.map Prod.fst).flatten ++
        (after.map fun m => (prot.frame m).getD []).flatten))
      ((before.map fun m => Heard.text m.text) ++ (between.map Prod.snd ++
        after.map fun m => Heard.text m.text)) := by
  let framesOf := fun messages : List Message =>
    messages.map fun m => ((prot.frame m).getD [], Heard.text m.text)
  have sent : ∀ messages : List Message, (∀ m ∈ messages, m.text.length < 2 ^ 64) →
      ∀ p ∈ framesOf messages, prot.hears.next p.1 = .item p.1.length p.2 := by
    intro messages fits p member
    obtain ⟨m, posted, rfl⟩ := List.mem_map.mp member
    have frame : prot.frame m = some ((prot.frame m).getD []) := by
      rcases framed with raw | rfc6455
      · rw [Option.some.inj raw]
        rfl
      · rw [Option.some.inj rfc6455]
        rfl
    exact hears_frame framed (fits m posted) frame
  let pieces := framesOf before ++ (between ++ framesOf after)
  have each : ∀ p ∈ pieces, prot.hears.next p.1 = .item p.1.length p.2 := by
    intro p member
    rcases List.mem_append.mp member with early | member
    · exact sent before (fun m posted => fits m (List.mem_append_left _ posted)) p early
    · rcases List.mem_append.mp member with closing | late
      · exact whole p closing
      · exact sent after (fun m posted => fits m (List.mem_append_right _ posted)) p late
  have carries := prot.hears.carries_flatten pieces each
  simpa only [pieces, framesOf, List.map_append, List.map_map, List.flatten_append,
    Function.comp_def] using carries

/-- What a client makes of what its protocol wrote when it was closed. -/
theorem Peer.Greeted.hears_byes {p : Peer} (greeted : p.Greeted) {prot : Prot}
    (speaks : p.prot = some prot) :
    ∃ between : List (Bytes × Heard), p.byes = between.map Prod.fst ∧
      (∀ q ∈ between, prot.hears.next q.1 = .item q.1.length q.2) ∧
      (p.closed = false ∨ prot ≠ .rfc6455 → between = []) ∧
      (p.closed = true → prot = .rfc6455 →
        ∃ payload, CloseCode payload ∧ between.map Prod.snd = [.close payload]) := by
  by_cases left : p.closed = true ∧ prot = .rfc6455
  · obtain ⟨closed, rfl⟩ := left
    obtain ⟨reason, byes⟩ := greeted.left closed speaks
    obtain ⟨payload, coded, reads⟩ := hearsRfc6455_close reason
    refine ⟨[(protocolRfc6455Close reason, .close payload)], byes, ?_, ?_, fun _ _ =>
      ⟨payload, coded, rfl⟩⟩
    · intro q member
      rw [List.mem_singleton.mp member]
      exact reads
    · rintro (open_ | other)
      · rw [closed] at open_
        cases open_
      · exact absurd rfl other
  · have either : p.closed = false ∨ p.prot ≠ some .rfc6455 := by
      by_cases closed : p.closed = true
      · right
        rw [speaks]
        exact fun same => left ⟨closed, Option.some.inj same⟩
      · exact Or.inl (Bool.not_eq_true _ ▸ closed)
    refine ⟨[], greeted.kept either, by simp, fun _ => rfl, fun closed is => ?_⟩
    exact absurd ⟨closed, is⟩ left

namespace Daemon

/-- `qev_on_close` of a WebSocket writes it why, behind everything it was written. -/
theorem closed_wire {env : HttpEnv} {d d' : Daemon} {i : Nat}
    (stepped : d.step env (.closed (2 * i)) = some d')
    (speaks : (d.world.peers i).prot = some .rfc6455) :
    ∃ reason, (d.world.peers i).conn.closing = some reason ∧
      (d'.world.peers i).closed = true ∧
      (d'.world.peers i).wire = (d.world.peers i).wire ++ protocolRfc6455Close reason := by
  obtain ⟨υ, handled, rfl⟩ := Option.map_eq_some_iff.mp stepped
  obtain ⟨-, closed⟩ := Option.ite_none_right_eq_some.mp handled
  have peer : recipient (2 * i) = .peer i := recipient_client (.peer i)
  simp only [Daemon.closed, peer, speaks, Option.some.injEq, reduceCtorEq, if_false,
    Option.map_map, Option.map_eq_some_iff] at closed
  obtain ⟨q, is, rfl⟩ := closed
  obtain ⟨-, reason, closing, gone, -, -, -, -, -, told, -⟩ := Peer.onClose_cases is
  refine ⟨reason, closing, ?_⟩
  simp only [Daemon.marked, Function.comp_apply, World.peers_setPeer_self]
  exact ⟨gone, (told speaks).1⟩

/-- What a client reads behind the answer to its handshake, in whatever chunks it comes, are
the messages that were posted for it: at any time the first ones, in the order they were
posted, and all of them when all has come. A WebSocket that was closed reads one close
message among them, which was written when it was closed, behind all there was by then. -/
theorem client_reads (env : HttpEnv) (d : Daemon) (reached : (system env).Reachable d) (i : Nat)
    (prot : Prot) (framed : Prot.Framed (some prot)) (speaks : (d.world.peers i).prot = some prot)
    (fits : ∀ m ∈ d.core.letters (2 * i), m.text.length < 2 ^ 64) :
    let texts := (d.core.letters (2 * i)).map fun m => Heard.text m.text
    (∃ behind heard, (d.world.peers i).wire = (d.world.peers i).greeting ++ behind ∧
      (∀ chunks later, behind = chunks.flatten ++ later →
        (collected prot.hears chunks).going = true ∧
          (collected prot.hears chunks).state <+: heard) ∧
      (∀ chunks, behind = chunks.flatten → collected prot.hears chunks = ⟨heard, [], true⟩) ∧
      ((d.world.peers i).closed = false ∨ prot ≠ .rfc6455 → heard = texts) ∧
      ((d.world.peers i).closed = true → prot = .rfc6455 → ∃ k payload, CloseCode payload ∧
        heard = texts.take k ++ .close payload :: texts.drop k)) ∧
    ∀ d', d.step env (.closed (2 * i)) = some d' → prot = .rfc6455 →
      ∃ reason, (d.world.peers i).conn.closing = some reason ∧
        (d'.world.peers i).closed = true ∧
        (d'.world.peers i).wire = (d.world.peers i).wire ++ protocolRfc6455Close reason := by
  intro texts
  have inv := inv_reachable reached
  have plain : (d.world.peers i).prot ≠ some .flash := by
    rw [speaks]
    rcases framed with raw | rfc6455
    · simp [Option.some.inj raw]
    · simp [Option.some.inj rfc6455]
  obtain ⟨before, after, letters, wire⟩ := inv.wire_letters i plain
  obtain ⟨between, byes, whole, quiet, closed⟩ := (inv.wired.greeted i).hears_byes speaks
  have frame : (d.world.peers i).frame = fun m => (prot.frame m).getD [] := by
    funext m
    rw [Peer.frame, speaks]
    rfl
  rw [frame, byes] at wire
  rw [letters] at fits
  have split : texts = (before.map fun m => Heard.text m.text) ++
      after.map fun m => Heard.text m.text := by
    simp only [texts, letters, List.map_append]
  have run := Prot.hears_carries framed fits between whole
  refine ⟨⟨_, (before.map fun m => Heard.text m.text) ++ (between.map Prod.snd ++
    after.map fun m => Heard.text m.text), wire, ?_, ?_, ?_, ?_⟩, ?_⟩
  · intro chunks later part
    rw [part] at run
    obtain ⟨zs, heard, -, going, -⟩ := collected_part prot.hears_nil run
    exact ⟨going, zs, heard.symm⟩
  · intro chunks all
    rw [all] at run
    exact collected_whole prot.hears_nil run
  · intro either
    rw [quiet either, split]
    rfl
  · intro gone is
    obtain ⟨payload, coded, reads⟩ := closed gone is
    refine ⟨before.length, payload, coded, ?_⟩
    rw [reads, split, List.take_left' (by simp), List.drop_left' (by simp)]
    rfl
  · rintro d' stepped rfl
    exact closed_wire stepped speaks

def sampleUpgrade : HttpRequest where
  method := str "GET"
  url := str "/"
  headers := [(str "Upgrade", str "websocket"), (str "Connection", str "Upgrade"),
    (str "Sec-WebSocket-Key", str "key"), (str "Sec-WebSocket-Protocol", str "quickio"),
    (str "Sec-WebSocket-Version", str "13")]

/-- A WebSocket: the upgrade, the handshake, and an event. -/
def upgrading : List Label := [
  .opened, .read 0 (str "GET / HTTP/1.1\r\n\r\n") samplePlan, .header 0 sampleUpgrade true,
  .read 0 (maskFrame [1, 2, 3, 4] ([0x81, 0x09] ++ handshakeText)) samplePlan,
  .read 0 (maskFrame [5, 6, 7, 8] (protocolRfc6455Frame ⟨str "/qio/on", [], 7, str "\"/a\""⟩))
    samplePlan]

/-- It answers nothing for too long, and is closed. -/
def expelled : List Label := upgrading ++ [.close 0 .timeout, .closed 0]

theorem client_reads_upgrading : ∃ d, (system Http.sampleEnv).Reachable d ∧
    ∃ (m : Message) (behind payload : Bytes) (k : Nat), m.evPath = str "/qio/callback/7" ∧
      CloseCode payload ∧
      (d.world.peers 0).wire = (d.world.peers 0).greeting ++ behind ∧
      ∀ chunks, behind = chunks.flatten → collected hearsRfc6455 chunks =
        ⟨[Heard.text m.text].take k ++ .close payload :: [Heard.text m.text].drop k, [], true⟩ := by
  have some_ : ((system Http.sampleEnv).run sampleStart expelled).isSome := by decide
  obtain ⟨d, ran⟩ := Option.isSome_iff_exists.mp some_
  have reached : (system Http.sampleEnv).Reachable d := ⟨_, expelled, sampleStart_init, ran⟩
  have answered : ∀ d ∈ (system Http.sampleEnv).run sampleStart expelled,
      (d.world.peers 0).prot = some .rfc6455 ∧ (d.world.peers 0).closed = true ∧
      (d.core.letters (2 * 0)).length = 1 ∧
      ∀ m ∈ d.core.letters (2 * 0), m.evPath = str "/qio/callback/7" ∧ m.text.length ≤ 125 := by
    decide
  obtain ⟨speaks, closed, one, short⟩ := answered d ran
  obtain ⟨m, letters⟩ := List.length_eq_one_iff.mp one
  have fits : ∀ m ∈ d.core.letters (2 * 0), m.text.length < 2 ^ 64 := by
    intro m member
    exact Nat.lt_of_le_of_lt (short m member).2 (by decide)
  obtain ⟨⟨behind, heard, wire, -, reads, -, closes⟩, -⟩ :=
    client_reads Http.sampleEnv d reached 0 .rfc6455 (Or.inr rfl) speaks fits
  obtain ⟨k, payload, coded, rfl⟩ := closes closed rfl
  rw [letters] at reads short
  refine ⟨d, reached, m, behind, payload, k, ?_, coded, wire, reads⟩
  exact (short m List.mem_cons_self).1

end Daemon

end QuickIO
