import QuickIO.HttpKeys
import QuickIO.Lib.Sniffing
import QuickIO.Protocols

/-!
# Which protocol a client is taken to speak

`_find_handler` asks the protocols each time bytes have come, with all that came so far.
HTTP waits for a whole header, so it does not matter how that is cut. The raw protocol
and Flash know their handshake only while there is nothing behind it.
-/
namespace QuickIO

open Lib

/-! ### The buffer as a C string -/

/-- The C string that some bytes begin with. -/
def bufferStr (bytes : Bytes) : Bytes := bytes.takeWhile (· ≠ 0)

theorem bufferStr_begins (bytes : Bytes) : bufferStr bytes <+: bytes := List.takeWhile_prefix _

/-- More bytes lengthen the string, or are behind its end. -/
theorem bufferStr_append (b more : Bytes) : ∃ d, bufferStr (b ++ more) = bufferStr b ++ d := by
  induction b with
  | nil => exact ⟨bufferStr more, rfl⟩
  | cons c b ih =>
    by_cases zero : c = 0
    · exact ⟨[], by simp [bufferStr, zero]⟩
    · obtain ⟨d, same⟩ := ih
      refine ⟨d, ?_⟩
      have stays : ∀ rest, bufferStr (c :: rest) = c :: bufferStr rest := by
        intro rest
        rw [bufferStr, List.takeWhile_cons, if_pos (by simpa using zero), bufferStr]
      rw [List.cons_append, stays, stays, same, List.cons_append]

/-- What begins a text, and what the text has before a newline. -/
theorem prefix_of_newline {m s d : Bytes} (here : m <+: s ++ d) (line : 0x0a ∈ s)
    (plain : 0x0a ∉ m) : m <+: s := by
  rcases List.prefix_or_prefix_of_prefix here (List.prefix_append s d) with short | long
  · exact short
  · exact absurd (long.subset line) plain

theorem newline_of_header {s : Bytes} (header : hasCompleteHeader s = true) : 0x0a ∈ s := by
  simp only [hasCompleteHeader, Bool.or_eq_true, strstr_isSome_iff] at header
  rcases header with crlf | lf
  · exact crlf.subset (by decide)
  · exact lf.subset (by decide)

theorem hasCompleteHeader_append {s : Bytes} (header : hasCompleteHeader s = true) (d : Bytes) :
    hasCompleteHeader (s ++ d) = true := by
  simp only [hasCompleteHeader, Bool.or_eq_true, strstr_isSome_iff] at header ⊢
  exact header.imp (fun crlf => crlf.trans (List.prefix_append s d).isInfix)
    fun lf => lf.trans (List.prefix_append s d).isInfix

/-! ### Methods -/

/-- What a request of HTTP begins with. -/
def httpMethods : List Bytes :=
  [str "GET /", str "POST /", str "OPTIONS /", str "PUT /", str "HEAD /", str "DELETE /"]

def HttpMethod (s : Bytes) : Prop := ∃ m ∈ httpMethods, m <+: s

theorem HttpMethod.append {s : Bytes} (method : HttpMethod s) (d : Bytes) : HttpMethod (s ++ d) := by
  obtain ⟨m, known, begins⟩ := method
  exact ⟨m, known, begins.trans (List.prefix_append s d)⟩

/-- The methods are on the first line. -/
theorem HttpMethod.of_append {s d : Bytes} (method : HttpMethod (s ++ d)) (line : 0x0a ∈ s) :
    HttpMethod s := by
  obtain ⟨m, known, begins⟩ := method
  have short : ∀ m ∈ httpMethods, 0x0a ∉ m := by decide
  exact ⟨m, known, prefix_of_newline begins line (short m known)⟩

/-- Neither handshake looks like a request. -/
theorem HttpMethod.other {t d : Bytes} (shakes : t = handshakeText ∨ t = flashPolicyRequest) :
    ¬HttpMethod (t ++ d) := by
  rintro ⟨m, known, begins⟩
  have first : ∀ m ∈ httpMethods, ∀ t ∈ [handshakeText, flashPolicyRequest],
      t ≠ [] ∧ m ≠ [] ∧ m.head? ≠ t.head? := by decide
  obtain ⟨some_, nonempty, differ⟩ := first m known t (by simpa using shakes)
  obtain ⟨c, m, rfl⟩ := List.exists_cons_of_ne_nil nonempty
  obtain ⟨c', t, rfl⟩ := List.exists_cons_of_ne_nil some_
  have same : c = c' := (List.cons_prefix_cons.mp begins).1
  exact differ (by rw [same]; rfl)

/-! ### Verdicts -/

/-- What `_find_handler` decides, if it does. -/
inductive Verdict
  | found (prot : Prot)
  | refused
deriving DecidableEq, Repr

/-- What the bytes in the buffer are taken for. -/
def verdict (bytes : Bytes) : Option Verdict :=
  let prots := [Prot.http, .flash, .raw, .rfc6455]
  match prots.find? fun prot => prot.handles (bufferStr bytes) = .yes with
  | some prot => some (.found prot)
  | none =>
    if prots.any fun prot => prot.handles (bufferStr bytes) = .maybe then none else some .refused

theorem Peer.findHandler_verdict (p : Peer) :
    p.findHandler = match verdict p.conn.rbuff with
      | some (.found prot) => p.setProt prot
      | some .refused => p.qevClose .notSupported
      | none => p := by
  have string : p.rbuffStr = bufferStr p.conn.rbuff := rfl
  simp only [Peer.findHandler, verdict, string]
  cases [Prot.http, .flash, .raw, .rfc6455].find? fun prot =>
    prot.handles (bufferStr p.conn.rbuff) = .yes with
  | some prot => rfl
  | none =>
    dsimp only
    split <;> rfl

theorem handles_http (s : Bytes) [Decidable (HttpMethod s)] : Prot.http.handles s =
    if hasCompleteHeader s = true then (if HttpMethod s then .yes else .no) else .maybe := by
  have methods : ([str "GET /", str "POST /", str "OPTIONS /", str "PUT /", str "HEAD /",
      str "DELETE /"].any (hasPrefix s) = true) ↔ HttpMethod s := by
    simp [HttpMethod, httpMethods, hasPrefix]
  simp only [Prot.handles, Bool.not_eq_true', methods]
  cases hasCompleteHeader s with
  | true => simp
  | false => simp

open Classical in
/-- A handshake is known by the whole string, a request by its beginning. Without a whole
header, or behind a `<`, nothing is refused. -/
theorem verdict_eq (bytes : Bytes) :
    verdict bytes =
      let s := bufferStr bytes
      if s = flashPolicyRequest then some (.found .flash)
      else if s = handshakeText then some (.found .raw)
      else if hasCompleteHeader s = true then
        if HttpMethod s then some (.found .http)
        else if s.getD 0 0 = 0x3c then none else some .refused
      else none := by
  simp only [verdict]
  generalize bufferStr bytes = s
  by_cases flash : s = flashPolicyRequest
  · subst flash
    rw [if_pos rfl]
    decide
  · rw [if_neg flash]
    by_cases raw : s = handshakeText
    · subst raw
      rw [if_pos rfl]
      decide
    · rw [if_neg raw]
      have notFlash : Prot.flash.handles s = if s.getD 0 0 = 0x3c then .maybe else .no := by
        simp only [Prot.handles, if_neg flash]
      have notRaw : Prot.raw.handles s = if hasPrefix handshakeText s then .maybe else .no := by
        simp only [Prot.handles, if_neg raw]
      have never : Prot.rfc6455.handles s = .no := rfl
      have unknown : Prot.http.handles s ≠ .yes →
          ([Prot.http, .flash, .raw, .rfc6455].find? fun prot => prot.handles s = .yes) = none := by
        intro other
        simp only [List.find?_cons, other, notFlash, notRaw, never, decide_false]
        split_ifs <;> simp
      by_cases header : hasCompleteHeader s = true
      · have long : hasPrefix handshakeText s = false := by
          rw [Bool.eq_false_iff]
          intro short
          have line := (List.isPrefixOf_iff_prefix.mp short).subset (newline_of_header header)
          revert line
          decide
        rw [if_pos header]
        by_cases method : HttpMethod s
        · simp [handles_http, header, method]
        · have notHttp : Prot.http.handles s = .no := by
            rw [handles_http, if_pos header, if_neg method]
          have plain : Prot.raw.handles s = .no := by
            rw [notRaw, long]
            rfl
          simp only [unknown (by simp [notHttp]), List.any_cons, List.any_nil, notHttp, notFlash,
            plain, never, if_neg method]
          by_cases tag : s.getD 0 0 = 0x3c
          · simp only [if_pos tag]
            rfl
          · simp only [if_neg tag]
            rfl
      · have notHttp : Prot.http.handles s = .maybe := by
          rw [handles_http, if_neg header]
        simp only [unknown (by simp [notHttp]), if_neg header]
        exact if_pos (by simp [notHttp])

section Cases

variable {b : Bytes}

theorem verdict_raw_iff : verdict b = some (.found .raw) ↔ bufferStr b = handshakeText := by
  have differ : handshakeText ≠ flashPolicyRequest := by decide
  rw [verdict_eq]
  dsimp only
  split_ifs with flash raw header method tag
  · simp [flash, differ.symm]
  · simp [raw]
  · simp [raw]
  · simp [raw]
  · simp [raw]
  · simp [raw]

theorem verdict_flash_iff : verdict b = some (.found .flash) ↔ bufferStr b = flashPolicyRequest := by
  rw [verdict_eq]
  dsimp only
  split_ifs with flash raw header method tag
  · simp [flash]
  · simp [flash]
  · simp [flash]
  · simp [flash]
  · simp [flash]
  · simp [flash]

theorem verdict_http_iff : verdict b = some (.found .http) ↔
    hasCompleteHeader (bufferStr b) = true ∧ HttpMethod (bufferStr b) := by
  have other : ∀ t, t = handshakeText ∨ t = flashPolicyRequest → ¬HttpMethod t := by
    intro t shakes
    rw [← List.append_nil t]
    exact HttpMethod.other shakes
  rw [verdict_eq]
  dsimp only
  split_ifs with flash raw header method tag
  · simp [other _ (Or.inr flash)]
  · simp [other _ (Or.inl raw)]
  · simp [header, method]
  · simp [method]
  · simp [method]
  · simp [header]

theorem verdict_refused_iff : verdict b = some .refused ↔
    hasCompleteHeader (bufferStr b) = true ∧ ¬HttpMethod (bufferStr b) ∧
      (bufferStr b).getD 0 0 ≠ 0x3c := by
  have none_ : ∀ t ∈ [handshakeText, flashPolicyRequest], hasCompleteHeader t = false := by decide
  rw [verdict_eq]
  dsimp only
  split_ifs with flash raw header method tag
  · simp [none_ _ (by simp [flash] : bufferStr b ∈ _)]
  · simp [none_ _ (by simp [raw] : bufferStr b ∈ _)]
  · simp [method]
  · exact iff_of_false (by simp) fun all => all.2.2 tag
  · exact iff_of_true rfl ⟨header, method, tag⟩
  · simp [header]

/-- No client is new and speaks WebSocket. -/
theorem verdict_cases (b : Bytes) : verdict b = none ∨ verdict b = some .refused ∨
    verdict b = some (.found .http) ∨ verdict b = some (.found .flash) ∨
      verdict b = some (.found .raw) := by
  rw [verdict_eq]
  dsimp only
  split_ifs <;> simp

end Cases

/-! ### More bytes -/

theorem http_lasts : Lasts verdict (.found .http) := by
  intro b more here
  obtain ⟨d, longer⟩ := bufferStr_append b more
  rw [verdict_http_iff] at here ⊢
  rw [longer]
  exact ⟨hasCompleteHeader_append here.1 d, here.2.append d⟩

theorem refused_lasts : Lasts verdict .refused := by
  intro b more here
  obtain ⟨d, longer⟩ := bufferStr_append b more
  rw [verdict_refused_iff] at here ⊢
  obtain ⟨header, noMethod, noTag⟩ := here
  have line := newline_of_header header
  rw [longer]
  refine ⟨hasCompleteHeader_append header d, fun method => noMethod (method.of_append line), ?_⟩
  -- the string is not empty, so it still begins the same
  obtain ⟨c, s, same⟩ := List.exists_cons_of_ne_nil (List.ne_nil_of_mem line)
  rw [same] at noTag ⊢
  exact noTag

/-- A request is taken for nothing else before. -/
theorem http_alone : StandsAlone verdict (.found .http) := by
  intro b more here
  obtain ⟨d, longer⟩ := bufferStr_append b more
  obtain ⟨-, method⟩ := verdict_http_iff.mp here
  rw [longer] at method
  rcases verdict_cases b with waits | refused | http | flash | raw
  · exact Or.inl waits
  · obtain ⟨header, noMethod, -⟩ := verdict_refused_iff.mp refused
    exact absurd (method.of_append (newline_of_header header)) noMethod
  · exact Or.inr http
  · exact absurd method (HttpMethod.other (Or.inr (verdict_flash_iff.mp flash)))
  · exact absurd method (HttpMethod.other (Or.inl (verdict_raw_iff.mp raw)))

/-- What a handshake begins with is taken for nothing, or for all of it. -/
theorem verdict_of_part {t s d : Bytes} (shakes : t = handshakeText ∨ t = flashPolicyRequest)
    (part : t = s ++ d) (short : s ≠ t) {b : Bytes} (string : bufferStr b = s) : verdict b = none := by
  have plain : ∀ t ∈ [handshakeText, flashPolicyRequest], 0x0a ∉ t := by decide
  have apart : ∀ t ∈ [handshakeText, flashPolicyRequest],
      ∀ s ∈ [handshakeText, flashPolicyRequest], s <+: t → s = t := by decide
  have known : t ∈ [handshakeText, flashPolicyRequest] := by simpa using shakes
  have begins : s <+: t := ⟨d, part.symm⟩
  have noHeader : ¬hasCompleteHeader s = true := fun header =>
    plain t known (begins.subset (newline_of_header header))
  rcases verdict_cases b with waits | refused | http | flash | raw
  · exact waits
  · exact absurd (string ▸ (verdict_refused_iff.mp refused).1) noHeader
  · exact absurd (string ▸ (verdict_http_iff.mp http).1) noHeader
  · have same := string.symm.trans (verdict_flash_iff.mp flash)
    exact absurd (apart t known s (by simp [same]) begins) short
  · have same := string.symm.trans (verdict_raw_iff.mp raw)
    exact absurd (apart t known s (by simp [same]) begins) short

theorem handshake_alone {v : Verdict} {t : Bytes}
    (shakes : t = handshakeText ∨ t = flashPolicyRequest)
    (known : ∀ b, verdict b = some v ↔ bufferStr b = t) : StandsAlone verdict v := by
  intro b more here
  obtain ⟨d, longer⟩ := bufferStr_append b more
  rw [known, longer] at here
  by_cases whole : bufferStr b = t
  · exact Or.inr ((known b).mpr whole)
  · exact Or.inl (verdict_of_part shakes here.symm whole rfl)

theorem raw_alone : StandsAlone verdict (.found .raw) :=
  handshake_alone (Or.inl rfl) fun _ => verdict_raw_iff

theorem flash_alone : StandsAlone verdict (.found .flash) :=
  handshake_alone (Or.inr rfl) fun _ => verdict_flash_iff

/-! ### What happened first -/

/-- This is what happened to the client first. -/
def Peer.Began (e : Entry) (p : Peer) : Prop := p.log.head? = some e

namespace Peer.Began

variable {e : Entry} {p : Peer}

theorem congr (began : p.Began e) {q : Peer} (log : q.log = p.log) : q.Began e := by
  rw [Peer.Began, log]
  exact began

theorem record (began : p.Began e) (entry : Entry) : (p.record entry).Began e := by
  obtain ⟨rest, log⟩ := List.head?_eq_some_iff.mp began
  simp [Peer.Began, Peer.record, log]

theorem setConn (began : p.Began e) (conn : Conn) : (p.setConn conn).Began e := by
  have same : ({ p with conn } : Peer).Began e := began.congr rfl
  simp only [Peer.setConn]
  split
  next reason _ _ => exact same.record (.closed reason)
  next => exact same

theorem protocolsSend (began : p.Began e) (now : Int) (m : Message) :
    (p.protocolsSend now m).Began e := by
  have sent : ({ p with lastSend := now } : Peer).Began e := began.congr rfl
  simp only [Peer.protocolsSend]
  split
  next =>
    split
    next => exact began
    next bytes _ => exact sent.record (.frame bytes)
  next => exact began

theorem acts (began : p.Began e) (now : Int) (as : List PeerAct) :
    (as.foldl (Peer.act now) p).Began e := by
  induction as generalizing p with
  | nil => exact began
  | cons a as ih =>
    apply ih
    cases a with
    | send m => exact began.protocolsSend now m
    | close reason => exact began.setConn _

theorem handshake (began : p.Began e) (now : Int) (prot : Prot) : (p.handshake now prot).Began e := by
  have shook : (p.protHandshake prot).1.Began e := by
    have emptied : ∀ conn : Conn, ({ p with conn } : Peer).Began e := fun _ => began.congr rfl
    cases prot with
    | http => exact began
    | flash => exact (emptied _).setConn _
    | raw => exact emptied _
    | rfc6455 =>
      simp only [Peer.protHandshake]
      split
      next => exact began
      next conn _ _ => exact began.setConn conn
      next =>
        split
        next => exact emptied _
        next => exact (emptied _).setConn _
  have told := shook.record (.handshake prot (p.protHandshake prot).2)
  simp only [Peer.handshake]
  split
  next => exact told.congr rfl
  next => exact told
  next => exact told.setConn _

end Peer.Began

namespace Served

variable {α : Type} (app : App α) (now : Int) {s : Served α} {e : Entry}

theorem began_protRoute (began : s.peer.Began e) (used : Nat) :
    (s.protRoute app now used).1.peer.Began e := by
  have routed : ∀ r : Routed, (s.handled app now r).peer.Began e := by
    intro r
    have conn := began.setConn r.conn
    simp only [handled]
    cases r.handed with
    | none => exact conn
    | some event => exact (conn.record (.event event)).acts now _
  cases prot : s.peer.prot with
  | none =>
    simp only [protRoute, prot]
    exact began
  | some prot' =>
    cases prot' with
    | flash =>
      simp only [protRoute, prot]
      exact began
    | raw =>
      simp only [protRoute, prot]
      exact routed _
    | rfc6455 =>
      simp only [protRoute, prot]
      exact routed _
    | http =>
      simp only [protRoute, prot]
      cases app.httpRoute s.state s.peer used with
      | upgraded state =>
        have switched : ({ s.peer with prot := some .rfc6455 } : Peer).Began e := began.congr rfl
        exact (switched.record (.protocol .rfc6455)).congr rfl
      | routed state used status closes =>
        cases closes with
        | none => exact began
        | some reason => exact began.setConn _

theorem began_routeLoop (fuel : Nat) (began : s.peer.Began e) (used : Nat) :
    (s.routeLoop app now fuel used).peer.Began e := by
  induction fuel generalizing s used with
  | zero => exact began
  | succ fuel ih =>
    have routed := began_protRoute app now began used
    rw [routeLoop]
    generalize s.protRoute app now used = r at routed
    obtain ⟨t, used', status⟩ := r
    cases status with
    | ok =>
      dsimp only at routed ⊢
      split
      next =>
        apply ih
        exact routed.congr rfl
      next => exact routed.congr rfl
    | again => exact routed.congr rfl
    | fatal => exact (routed.setConn _).congr rfl

theorem began_shakeOrRoute (began : s.peer.Began e) (prot : Prot) :
    (s.shakeOrRoute app now prot).peer.Began e := by
  have routes : ∀ t : Served α, t.peer.Began e → (t.route app now).peer.Began e := by
    intro t began
    exact began_routeLoop app now _ began 0
  simp only [shakeOrRoute]
  split
  next => exact routes s began
  next =>
    cases prot with
    | http => exact routes _ (began.congr rfl)
    | flash => exact began.handshake now .flash
    | raw => exact began.handshake now .raw
    | rfc6455 => exact began.handshake now .rfc6455

/-- What came first stays first. -/
theorem began_read (began : s.peer.Began e) (bytes : Bytes) :
    (s.read app now bytes).peer.Began e := by
  simp only [read]
  split
  next => exact began
  next =>
    have heard : ∀ (conn : Conn) (prot : Option Prot),
        ({ s.peer with conn, lastRecv := now, prot } : Peer).Began e := fun _ _ => began.congr rfl
    cases is : s.peer.prot with
    | some prot =>
      simp only [protocolsRoute]
      apply began_shakeOrRoute
      exact heard _ _
    | none =>
      simp only [protocolsRoute]
      have found : ∀ p : Peer, p.Began e → p.findHandler.Began e := by
        intro p began
        rw [p.findHandler_verdict]
        cases verdict p.conn.rbuff with
        | none => exact began
        | some v =>
          cases v with
          | refused => exact began.setConn _
          | found prot =>
            have set_ : ({ p with prot := some prot } : Peer).Began e := began.congr rfl
            exact set_.record (.protocol prot)
      have here := found _ (heard { s.peer.conn with rbuff := s.peer.conn.rbuff ++ bytes } none)
      split
      next => exact here
      next prot _ => exact began_shakeOrRoute app now here prot

theorem began_reads (began : s.peer.Began e) (reads : List (Int × Bytes)) :
    (reads.foldl (fun s r => s.read app r.1 r.2) s).peer.Began e := by
  induction reads generalizing s with
  | nil => exact began
  | cons r reads ih => exact ih (began_read app r.1 began r.2)

/-- A client of which nothing is known but these bytes. -/
structure Fresh (s : Served α) (bytes : Bytes) : Prop where
  prot : s.peer.prot = none
  handshaked : s.peer.handshaked = false
  isOpen : s.peer.conn.closing = none
  buffer : s.peer.conn.rbuff = bytes
  log : s.peer.log = []

end Served

/-- What the verdict leaves in the log. -/
def Verdict.entry : Verdict → Entry
  | .found prot => .protocol prot
  | .refused => .closed .notSupported

theorem Verdict.entry_injective {v w : Verdict} (same : v.entry = w.entry) : v = w := by
  cases v <;> cases w <;> simp_all [Verdict.entry]

namespace Served

variable {α : Type} (app : App α) {s : Served α}

/-- A read while nothing is known. -/
theorem Fresh.read {buff : Bytes} (fresh : s.Fresh buff) (now : Int) (bytes : Bytes) :
    (verdict (buff ++ bytes) = none → (s.read app now bytes).Fresh (buff ++ bytes) ∧
      (s.read app now bytes).state = s.state) ∧
    ∀ v, verdict (buff ++ bytes) = some v → (s.read app now bytes).peer.Began v.entry := by
  have open_ : ¬s.peer.conn.closing.isSome := by simp [fresh.isOpen]
  let p : Peer := { s.peer with
    conn := { s.peer.conn with rbuff := s.peer.conn.rbuff ++ bytes }, lastRecv := now }
  have buffer : p.conn.rbuff = buff ++ bytes := congrArg (· ++ bytes) fresh.buffer
  have unknown : p.findHandler.prot = none → s.read app now bytes = ⟨s.state, p.findHandler⟩ := by
    intro none_
    simp only [Served.read, if_neg open_, protocolsRoute, fresh.prot, p] at none_ ⊢
    rw [none_]
  have known : ∀ prot, p.findHandler.prot = some prot →
      s.read app now bytes = Served.shakeOrRoute app now ⟨s.state, p.findHandler⟩ prot := by
    intro prot is
    simp only [Served.read, if_neg open_, protocolsRoute, fresh.prot, p] at is ⊢
    rw [is]
  have found := p.findHandler_verdict
  rw [buffer] at found
  constructor
  · intro waits
    rw [waits] at found
    have none_ : p.findHandler.prot = none := by
      rw [found]
      exact fresh.prot
    rw [unknown none_, found]
    exact ⟨⟨fresh.prot, fresh.handshaked, fresh.isOpen, buffer, fresh.log⟩, rfl⟩
  · intro v decided
    rw [decided] at found
    have began : p.findHandler.Began v.entry := by
      rw [found]
      have log : p.log = [] := fresh.log
      cases v with
      | found prot => simp [Peer.Began, Peer.setProt, Peer.record, Verdict.entry, log]
      | refused =>
        have isOpen : p.conn.closing = none := fresh.isOpen
        simp [Peer.Began, Peer.qevClose, Peer.setConn, Conn.qevClose, isOpen, Peer.record,
          Verdict.entry, log]
    cases is : p.findHandler.prot with
    | none =>
      rw [unknown is]
      exact began
    | some prot =>
      rw [known prot is]
      exact began_shakeOrRoute app now began prot

/-- All that is read while nothing is known. -/
theorem Fresh.reads {buff : Bytes} (fresh : s.Fresh buff) (reads : List (Int × Bytes)) :
    let t := reads.foldl (fun s r => s.read app r.1 r.2) s
    (sniff verdict buff (reads.map Prod.snd) = none →
      t.Fresh (buff ++ (reads.map Prod.snd).flatten) ∧ t.state = s.state) ∧
    ∀ v, sniff verdict buff (reads.map Prod.snd) = some v → t.peer.Began v.entry := by
  induction reads generalizing s buff with
  | nil =>
    refine ⟨fun _ => ⟨?_, rfl⟩, fun v decided => by cases decided⟩
    simpa using fresh
  | cons r reads ih =>
    obtain ⟨waits, decides⟩ := fresh.read app r.1 r.2
    simp only [List.foldl_cons, List.map_cons, List.flatten_cons, ← List.append_assoc, sniff,
      buffers, List.findSome?_cons] at ih ⊢
    cases here : verdict (buff ++ r.2) with
    | none =>
      obtain ⟨still, state⟩ := waits here
      obtain ⟨later, found⟩ := ih still
      exact ⟨fun nothing => (later nothing).imp id fun same => same.trans state, found⟩
    | some v =>
      refine ⟨fun nothing => by simp at nothing, ?_⟩
      rintro w decided
      obtain rfl : v = w := by simpa using decided
      exact began_reads app (decides v here) reads

theorem fresh_new (new : s.peer = {}) : s.Fresh [] := by
  constructor <;> rw [new]

/-- What happened first to a new client is what its first verdict says. -/
theorem began_iff (new : s.peer = {}) (reads : List (Int × Bytes)) (v : Verdict) :
    (reads.foldl (fun s r => s.read app r.1 r.2) s).peer.Began v.entry ↔
      sniff verdict [] (reads.map Prod.snd) = some v := by
  obtain ⟨waits, decides⟩ := (fresh_new new).reads app reads
  constructor
  · intro began
    cases here : sniff verdict [] (reads.map Prod.snd) with
    | none =>
      rw [Peer.Began, (waits here).1.log] at began
      cases began
    | some w =>
      have first := decides w here
      rw [Peer.Began] at first began
      rw [Verdict.entry_injective (Option.some.inj (first.symm.trans began))]
  · exact decides v

end Served

theorem verdict_nil : verdict [] = none := by decide

/-- A stream is refused by what it is as a whole, unless it stood at the handshake of the
raw protocol when it was looked at. -/
theorem sniff_refused_iff (chunks : List Bytes) :
    sniff verdict [] chunks = some .refused ↔
      verdict chunks.flatten = some .refused ∧ ∀ b ∈ buffers [] chunks, bufferStr b ≠ handshakeText := by
  rw [refused_lasts.sniff_iff verdict_nil, List.nil_append]
  refine and_congr_right fun whole => forall₂_congr fun b member => ?_
  obtain ⟨more, longer⟩ := (prefix_of_mem_buffers member).2
  rw [List.nil_append] at longer
  constructor
  · intro either raw
    rw [verdict_raw_iff.mpr raw] at either
    simp at either
  · intro notRaw
    rcases verdict_cases b with waits | refused | http | flash | raw
    · exact Or.inl waits
    · exact Or.inr refused
    · have later := http_lasts b more http
      rw [longer, whole] at later
      cases later
    · -- a policy request begins with `<`, and what does is not refused
      obtain ⟨d, string⟩ := bufferStr_append b more
      rw [longer, verdict_flash_iff.mp flash] at string
      have tag := (verdict_refused_iff.mp whole).2.2
      rw [string] at tag
      exact absurd rfl tag
    · exact absurd (verdict_raw_iff.mp raw) notRaw

namespace Served

variable {α : Type}

/-- What a new client is taken for, however its bytes come in: a request of HTTP by the C
string of all its bytes, a handshake by the one that was there when it was looked at. It is
refused when its header is there and is no request, and until then it stays as it was. -/
theorem taken_for (app : App α) (state : α) (reads : List (Int × Bytes)) :
    let p := (reads.foldl (fun s r => s.read app r.1 r.2) (⟨state, {}⟩ : Served α)).peer
    let bytes := (reads.map Prod.snd).flatten
    let seen := (buffers [] (reads.map Prod.snd)).map bufferStr
    (p.Began (.protocol .raw) ↔ handshakeText ∈ seen) ∧
    (p.Began (.protocol .flash) ↔ flashPolicyRequest ∈ seen) ∧
    (p.Began (.protocol .http) ↔
      hasCompleteHeader (bufferStr bytes) = true ∧ HttpMethod (bufferStr bytes)) ∧
    (p.Began (.closed .notSupported) ↔ hasCompleteHeader (bufferStr bytes) = true ∧
      ¬HttpMethod (bufferStr bytes) ∧ (bufferStr bytes).getD 0 0 ≠ 0x3c ∧ handshakeText ∉ seen) ∧
    (p.Began (.protocol .raw) ∨ p.Began (.protocol .flash) ∨ p.Began (.protocol .http) ∨
      p.Began (.closed .notSupported) ∨
      (p.prot = none ∧ p.handshaked = false ∧ p.conn = { rbuff := bytes } ∧ p.log = [])) := by
  intro p bytes seen
  have new : (⟨state, {}⟩ : Served α).peer = {} := rfl
  have began := began_iff app new reads
  refine ⟨?_, ?_, ?_, ?_, ?_⟩
  · apply (began (.found .raw)).trans
    rw [raw_alone.sniff_iff]
    simp [seen, verdict_raw_iff]
  · apply (began (.found .flash)).trans
    rw [flash_alone.sniff_iff]
    simp [seen, verdict_flash_iff]
  · apply (began (.found .http)).trans
    rw [http_lasts.sniff_alone_iff http_alone verdict_nil, List.nil_append]
    exact verdict_http_iff
  · apply (began .refused).trans
    rw [sniff_refused_iff, verdict_refused_iff, and_assoc, and_assoc]
    simp [seen, bytes]
  · cases here : sniff verdict [] (reads.map Prod.snd) with
    | some v =>
      have first := (began v).mpr here
      obtain ⟨b, -, said⟩ := List.exists_of_findSome?_eq_some here
      rcases verdict_cases b with waits | refused | http | flash | raw
      · rw [waits] at said
        cases said
      · cases said.symm.trans refused
        exact Or.inr (Or.inr (Or.inr (Or.inl first)))
      · cases said.symm.trans http
        exact Or.inr (Or.inr (Or.inl first))
      · cases said.symm.trans flash
        exact Or.inr (Or.inl first)
      · cases said.symm.trans raw
        exact Or.inl first
    | none =>
      obtain ⟨fresh, -⟩ := ((fresh_new new).reads app reads).1 here
      refine Or.inr (Or.inr (Or.inr (Or.inr ⟨fresh.prot, fresh.handshaked, ?_, fresh.log⟩)))
      have buffer : p.conn.rbuff = bytes := fresh.buffer
      have isOpen : p.conn.closing = none := fresh.isOpen
      calc p.conn = ⟨p.conn.rbuff, p.conn.closing⟩ := rfl
        _ = { rbuff := bytes } := by rw [buffer, isOpen]

end Served

/-- The stream goes on behind a handshake, with no NUL between. -/
def GoesOn (bytes : Bytes) : Prop :=
  ∃ t, (t = handshakeText ∨ t = flashPolicyRequest) ∧ t <+: bufferStr bytes ∧ t ≠ bufferStr bytes

/-- If not, the verdict is that on the stream as a whole. -/
theorem sniff_whole {chunks : List Bytes} (ends : ¬GoesOn chunks.flatten) :
    sniff verdict [] chunks = verdict chunks.flatten := by
  have whole : ∀ t, t = handshakeText ∨ t = flashPolicyRequest → ∀ b ∈ buffers [] chunks,
      bufferStr b = t → bufferStr chunks.flatten = t := by
    intro t shakes b member string
    obtain ⟨more, longer⟩ := (prefix_of_mem_buffers member).2
    obtain ⟨d, same⟩ := bufferStr_append b more
    rw [longer, List.nil_append, string] at same
    by_contra other
    exact ends ⟨t, shakes, ⟨d, same.symm⟩, fun here => other here.symm⟩
  have last : chunks.flatten ≠ [] → chunks.flatten ∈ buffers [] chunks := by
    intro some_
    have chunked : chunks ≠ [] := by
      rintro rfl
      exact some_ rfl
    have member : [] ++ chunks.flatten ∈ buffers [] chunks := flatten_mem_buffers chunked
    exact member
  -- each verdict is that of the first buffer exactly when it is that of the last
  have same : ∀ v, sniff verdict [] chunks = some v ↔ verdict chunks.flatten = some v := by
    intro v
    have found : ∀ b ∈ buffers [] chunks, verdict b = some v → StandsAlone verdict v →
        sniff verdict [] chunks = some v := fun b member here alone =>
      alone.sniff_iff.mpr ⟨b, member, here⟩
    have nonempty : verdict chunks.flatten = some v → chunks.flatten ≠ [] := by
      intro here none_
      rw [none_, verdict_nil] at here
      cases here
    cases v with
    | refused =>
      rw [sniff_refused_iff]
      refine and_iff_left_of_imp fun here b member raw => ?_
      rw [verdict_raw_iff.mpr (whole _ (Or.inl rfl) b member raw)] at here
      cases here
    | found prot =>
      cases prot with
      | http => exact http_lasts.sniff_alone_iff http_alone verdict_nil
      | rfc6455 =>
        constructor
        · intro here
          obtain ⟨b, -, said⟩ := List.exists_of_findSome?_eq_some here
          rcases verdict_cases b with waits | refused | http | flash | raw <;> simp_all
        · intro here
          rcases verdict_cases chunks.flatten with waits | refused | http | flash | raw <;> simp_all
      | flash =>
        refine ⟨fun here => ?_, fun here => found _ (last (nonempty here)) here flash_alone⟩
        obtain ⟨b, member, said⟩ := flash_alone.sniff_iff.mp here
        exact verdict_flash_iff.mpr (whole _ (Or.inr rfl) b member (verdict_flash_iff.mp said))
      | raw =>
        refine ⟨fun here => ?_, fun here => found _ (last (nonempty here)) here raw_alone⟩
        obtain ⟨b, member, said⟩ := raw_alone.sniff_iff.mp here
        exact verdict_raw_iff.mpr (whole _ (Or.inl rfl) b member (verdict_raw_iff.mp said))
  exact Option.ext same

/-- Behind a handshake the verdict on one piece is not that on two. -/
theorem sniff_goesOn {bytes : Bytes} (goesOn : GoesOn bytes) :
    ∃ first more v, bytes = first ++ more ∧ sniff verdict [] [first, more] = some v ∧
      sniff verdict [] [bytes] ≠ some v := by
  obtain ⟨t, shakes, begins, other⟩ := goesOn
  obtain ⟨more, split⟩ := begins.trans (bufferStr_begins bytes)
  have plain : bufferStr t = t := by
    rcases shakes with rfl | rfl <;> decide
  have one : sniff verdict [] [bytes] = verdict bytes := by
    simp only [sniff, buffers, List.nil_append, List.findSome?_cons, List.findSome?_nil]
    cases verdict bytes <;> rfl
  obtain ⟨v, known⟩ : ∃ v, ∀ b, verdict b = some v ↔ bufferStr b = t := by
    rcases shakes with rfl | rfl
    · exact ⟨.found .raw, fun b => verdict_raw_iff⟩
    · exact ⟨.found .flash, fun b => verdict_flash_iff⟩
  refine ⟨t, more, v, split.symm, ?_, ?_⟩
  · simp only [sniff, buffers, List.nil_append, List.findSome?_cons, (known t).mpr plain]
  · rw [one]
    exact fun here => other ((known bytes).mp here).symm

namespace Served

variable {α : Type}

/-- How the first bytes of a client are cut into reads matters exactly when they go on
behind the handshake of the raw protocol or of Flash: then it is known by a read that ends
there, and not by another. -/
theorem cut_matters_iff (app : App α) (state : α) (bytes : Bytes) :
    let read (reads : List (Int × Bytes)) :=
      (reads.foldl (fun s r => s.read app r.1 r.2) (⟨state, {}⟩ : Served α)).peer
    (∃ reads reads' : List (Int × Bytes), (reads.map Prod.snd).flatten = bytes ∧
      (reads'.map Prod.snd).flatten = bytes ∧
      ∃ v : Verdict, (read reads).Began v.entry ∧ ¬(read reads').Began v.entry) ↔
    GoesOn bytes := by
  intro read
  have new : (⟨state, {}⟩ : Served α).peer = {} := rfl
  constructor
  · rintro ⟨reads, reads', rfl, same, v, began, other⟩
    by_contra ends
    have here := (began_iff app new reads v).mp began
    rw [sniff_whole ends, ← same] at here
    rw [← same] at ends
    rw [← sniff_whole ends] at here
    exact other ((began_iff app new reads' v).mpr here)
  · intro goesOn
    obtain ⟨t, more, v, split, here, other⟩ := sniff_goesOn goesOn
    refine ⟨[(0, t), (0, more)], [(0, bytes)], ?_, ?_, v, ?_, ?_⟩
    · simp [split]
    · simp
    · exact (began_iff app new _ v).mpr here
    · exact fun began => other ((began_iff app new _ v).mp began)

end Served

end QuickIO
