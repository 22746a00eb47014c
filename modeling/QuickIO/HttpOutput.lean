import QuickIO.HttpSessions
import QuickIO.HttpStable
import QuickIO.Lib.Framing
import QuickIO.Lib.Search

/-!
# What an HTTP client reads

The bytes of a response, a client that takes each body by its `Content-Length`
and splits it at newlines, and when it gets the messages of its session.
-/
namespace QuickIO

open Lib

/-- `'\n'` -/
def newline : UInt8 := 0x0a

/-- A length in decimal. -/
def digits (n : Nat) : Bytes := (Nat.toDigits 10 n).map fun c => UInt8.ofNat c.toNat

theorem digits_low (n : Nat) (low : n < 10) : digits n = [0x30 + UInt8.ofNat n] := by
  rw [digits, Nat.toDigits_of_lt_base low]
  revert n
  decide

theorem digits_high (n : Nat) (high : 10 ≤ n) :
    digits n = digits (n / 10) ++ [0x30 + UInt8.ofNat (n % 10)] := by
  have last := digits_low (n % 10) (Nat.mod_lt n (by decide))
  rw [digits, Nat.toDigits_of_lt_base (Nat.mod_lt n (by decide))] at last
  rw [digits, Nat.toDigits_of_base_le (by decide) high, List.map_append, last]
  rfl

theorem isDigit_digits (n : Nat) : ∀ c ∈ digits n, isDigit c := by
  induction n using Nat.strongRecOn with
  | ind n ih =>
    have one : ∀ d < 10, isDigit (0x30 + UInt8.ofNat d) := by decide
    by_cases low : n < 10
    · rw [digits_low n low]
      simpa using one n low
    · rw [digits_high n (Nat.le_of_not_lt low)]
      intro c member
      rcases List.mem_append.mp member with before | here
      · exact ih (n / 10) (by omega) c before
      · rw [List.mem_singleton.mp here]
        exact one (n % 10) (Nat.mod_lt n (by decide))

theorem digitsValue_append (xs : Bytes) (c : UInt8) :
    digitsValue (xs ++ [c]) = 10 * digitsValue xs + (c.toNat - 0x30) := by
  simp [digitsValue]

theorem digitsValue_digits (n : Nat) : digitsValue (digits n) = n := by
  induction n using Nat.strongRecOn with
  | ind n ih =>
    have one : ∀ d < 10, (0x30 + UInt8.ofNat d).toNat - 0x30 = d := by decide
    by_cases low : n < 10
    · rw [digits_low n low, ← List.nil_append [_], digitsValue_append, one n low]
      simp [digitsValue]
    · rw [digits_high n (Nat.le_of_not_lt low), digitsValue_append, ih (n / 10) (by omega),
        one (n % 10) (Nat.mod_lt n (by decide))]
      omega

/-- `_statuses[status].line` -/
def HttpStatus.line : HttpStatus → Bytes
  | .status200 => str "200 OK\r\n"
  | .status400 => str "400 Bad Request\r\n"
  | .status403 => str "403 Forbidden\r\n"
  | .status405 => str "405 Method Not Allowed\r\n"
  | .status411 => str "411 Length Required\r\n"
  | .status413 => str "413 Request Entity Too Large\r\n"
  | .status426 => str "426 Upgrade Required\r\n"
  | .status501 => str "501 Not Implemented\r\n"

/-- `HTTP_COMMON` -/
def httpCommon : Bytes :=
  str "Cache-Control: private, max-age=0\r\nExpires: -1\r\n" ++
    str "Connection: Keep-Alive\r\nKeep-Alive: timeout=60\r\n"

def contentLength : Bytes := str "Content-Length: "

def contentType (isIframe : Bool) : Bytes :=
  if isIframe then str "\r\nContent-Type: text/html" else str "\r\nContent-Type: text/plain"

/-- `HTTP_HEADER_TERMINATOR` -/
def headerTerminator : Bytes := str "\r\n\r\n"

/-- The bytes `_build_response_full` puts together. -/
def Response.bytes (resp : Response) : Bytes :=
  str "HTTP/1.0 " ++ resp.status.line ++ httpCommon ++ contentLength ++ digits resp.body.length ++
    contentType resp.isIframe ++ headerTerminator ++ resp.body

/-- The body of the first response of a stream, and what follows it. -/
def readBody (stream : Bytes) : Option (Bytes × Bytes) :=
  match cut headerTerminator stream with
  | none => none
  | some (header, rest) =>
    match cut contentLength header with
    | none => none
    | some (_, field) =>
      let len := digitsValue (field.takeWhile isDigit)
      if len ≤ rest.length then some (rest.take len, rest.drop len) else none

/-- What stands before the length of the body. -/
def Response.opening (resp : Response) : Bytes :=
  str "HTTP/1.0 " ++ resp.status.line ++ httpCommon

theorem Response.opening_clear (resp : Response) :
    clear contentLength resp.opening ∧ clear headerTerminator (resp.opening ++ contentLength) := by
  rw [opening]
  cases resp.status <;> decide +kernel

theorem readBody_bytes (resp : Response) (rest : Bytes) :
    readBody (resp.bytes ++ rest) = some (resp.body, rest) := by
  obtain ⟨clearLength, clearEnd⟩ := resp.opening_clear
  -- Neither text that is looked for occurs before its place.
  have numeric : clear headerTerminator (digits resp.body.length) := by
    apply clear_of_notMem
    intro member
    exact absurd (isDigit_digits _ _ member) (by decide)
  have typed : clear headerTerminator (contentType resp.isIframe) := by
    cases resp.isIframe <;> decide
  have header := cut_clear headerTerminator
    (resp.opening ++ contentLength ++ digits resp.body.length ++ contentType resp.isIframe)
    (resp.body ++ rest) (by decide)
    (clear_append _ _ _ (clear_append _ _ _ clearEnd numeric) typed)
  have field := cut_clear contentLength resp.opening
    (digits resp.body.length ++ contentType resp.isIframe) (by decide) clearLength
  -- The digits end where the content type begins, which is with no digit.
  have number : (digits resp.body.length ++ contentType resp.isIframe).takeWhile isDigit =
      digits resp.body.length := by
    rw [List.takeWhile_append_of_pos (isDigit_digits _)]
    cases resp.isIframe <;> simp [contentType, str, isDigit]
  have whole : resp.bytes ++ rest = resp.opening ++ contentLength ++ digits resp.body.length ++
      contentType resp.isIframe ++ headerTerminator ++ (resp.body ++ rest) := by
    simp only [Response.bytes, Response.opening, List.append_assoc]
  rw [whole, readBody, header]
  simp only [List.append_assoc] at field ⊢
  simp only [field, number, digitsValue_digits]
  rw [if_pos (by simp), List.take_left, List.drop_left]

theorem readBody_length {stream body rest : Bytes} (read : readBody stream = some (body, rest)) :
    rest.length < stream.length := by
  simp only [readBody] at read
  split at read
  next => cases read
  next header rest' found =>
    have sizes := cut_length found
    have some : headerTerminator.length = 4 := rfl
    split at read
    next => cases read
    next =>
      obtain ⟨-, ⟨⟩⟩ := Option.ite_none_right_eq_some.mp read
      rw [List.length_drop]
      omega

theorem readBody_append {stream body rest : Bytes} (read : readBody stream = some (body, rest))
    (more : Bytes) : readBody (stream ++ more) = some (body, rest ++ more) := by
  simp only [readBody] at read ⊢
  split at read
  next => cases read
  next header rest' found =>
    rw [cut_append (by decide) found]
    split at read
    next => cases read
    next before field there =>
      obtain ⟨fits, ⟨⟩⟩ := Option.ite_none_right_eq_some.mp read
      have fits' : digitsValue (field.takeWhile isDigit) ≤ (rest' ++ more).length := by
        rw [List.length_append]
        omega
      simp only [there]
      rw [if_pos fits', List.take_append_of_le_length fits, List.drop_append_of_le_length fits]

/-- A stream of responses, read one body after the other. -/
def httpResponses : Framer UInt8 Bytes Empty where
  next stream :=
    match readBody stream with
    | none => .more
    | some (body, rest) => .item (stream.length - rest.length) body
  size {stream} n body whole := by
    split at whole
    next => cases whole
    next read =>
      cases whole
      have shorter := readBody_length read
      omega
  item_append {stream} n body whole more := by
    split at whole
    next => cases whole
    next read =>
      cases whole
      rw [readBody_append read more]
      simp only [List.length_append, Nat.add_sub_add_right]
  bad_append {_} why := why.elim

/-- The client keeps the bodies it has read. -/
def collect : Consumer (List Bytes) Bytes Empty where
  eat bodies body := (bodies ++ [body], true)
  refuse bodies _ := bodies

/-- A client that has read nothing. -/
def unread : Fed (List Bytes) UInt8 := ⟨[], [], true⟩

/-- The bodies in a stream that arrives in chunks. -/
def readAll (chunks : List Bytes) : List Bytes :=
  (chunks.foldl (fun fed chunk => fed.feed httpResponses collect chunk) unread).state

theorem drain_responses (resps : List Response) (bodies : List Bytes) :
    drain httpResponses collect bodies (resps.flatMap Response.bytes) =
      ⟨bodies ++ resps.map (·.body), [], true⟩ := by
  induction resps generalizing bodies with
  | nil =>
    rw [List.flatMap_nil, drain_more (Framer.next_nil httpResponses), List.map_nil, List.append_nil]
  | cons resp resps ih =>
    have next : httpResponses.next (resp.bytes ++ resps.flatMap Response.bytes) =
        .item resp.bytes.length resp.body := by
      simp only [httpResponses, readBody_bytes, List.length_append, Nat.add_sub_cancel]
    rw [List.flatMap_cons, drain_item next, List.drop_left]
    simp only [collect, if_true] at ih ⊢
    rw [ih, List.append_assoc, List.map_cons, List.singleton_append]

/-- However the stream is cut, the client reads the bodies that were sent. -/
theorem readAll_responses (resps : List Response) (chunks : List Bytes)
    (whole : chunks.flatten = resps.flatMap Response.bytes) :
    readAll chunks = resps.map (·.body) := by
  have same := unread.feed_chunks (F := httpResponses) (C := collect) [] chunks
  have begun : unread.feed httpResponses collect [] = unread := by
    simp only [Fed.feed, unread, if_true, List.append_nil]
    exact drain_more (Framer.next_nil httpResponses)
  rw [begun, List.nil_append, whole] at same
  rw [readAll, same.1]
  simp only [Fed.feed, unread, if_true, List.nil_append, drain_responses]

/-- The text of a message, `path:server_cb=json`. -/
def Message.text (m : Message) : Bytes := protocolRawFormat m.evPath m.evExtra m.serverCb m.json

theorem Message.raw_eq (m : Message) : (protocolHttpFrame m).raw = m.text ++ [newline] := rfl

theorem Message.text_ne_nil (m : Message) : m.text ≠ [] := by
  simp [Message.text, protocolRawFormat, str]

/-- The number of a callback takes no newline into the text. -/
theorem newline_notMem_text {m : Message} (path : newline ∉ m.evPath ++ m.evExtra) :
    newline ∉ m.text ↔ newline ∉ m.json := by
  have number : newline ∉ decimal m.serverCb := fun member =>
    absurd (isDigit_digits m.serverCb.toNat newline member) (by decide)
  have separators : newline ∉ str ":" ∧ newline ∉ str "=" := by decide
  simp only [Message.text, protocolRawFormat, List.mem_append, not_or] at path ⊢
  exact ⟨fun free => free.2, fun free => ⟨⟨⟨⟨path, separators.1⟩, number⟩, separators.2⟩, free⟩⟩

/-- The lines a client of the session takes from a response. -/
def Sent.lines (s : SurrId) (e : Sent) : List Bytes :=
  if e.session = some s ∧ e.response.status = .status200 ∧ e.response.isIframe = false then
    match readBody e.response.bytes with
    | none => []
    | some (body, _) => tokens newline body
  else []

/-- The messages a response carries are whole. -/
def Response.Whole (resp : Response) : Prop :=
  resp.status = .status200 → Ended newline resp.messages

theorem Sent.lines_eq (s : SurrId) (e : Sent) : e.lines s = tokens newline (e.carried s) := by
  have read := readBody_bytes e.response []
  rw [List.append_nil] at read
  simp only [lines, carried, Response.messages, read]
  cases e.response.isIframe with
  | true => simp
  | false =>
    simp only [and_true, Bool.false_eq_true, if_false]
    split
    next => rfl
    next => exact (tokens_nil newline).symm

namespace Http

/-- What was written to a socket. -/
def written (σ : Http) (c : SockId) : Bytes := (σ.responses c).flatMap (·.response.bytes)

/-- The lines a client has recovered from the responses of its session. -/
def received (σ : Http) (s : SurrId) : List Bytes := σ.sent.flatMap (Sent.lines s)

/-- Every session was given whole messages, and holds and was sent whole ones. -/
structure Whole (σ : Http) : Prop where
  given : ∀ s, ∃ ms : List Message, (σ.surrs s).given = ms.map fun m => (protocolHttpFrame m).raw
  wbuff : ∀ s, Ended newline (σ.surrs s).wbuff
  sent : ∀ e ∈ σ.sent, e.response.Whole

namespace Whole

theorem congr {σ τ : Http} (whole : Whole σ) (surrs : ∀ s, (τ.surrs s).given = (σ.surrs s).given ∧
    (τ.surrs s).wbuff = (σ.surrs s).wbuff) (sent : τ.sent = σ.sent) : Whole τ where
  given s := by
    rw [(surrs s).1]
    exact whole.given s
  wbuff s := by
    rw [(surrs s).2]
    exact whole.wbuff s
  sent := by
    rw [sent]
    exact whole.sent

/-- One surrogate is written to. -/
theorem setSurr {σ : Http} (whole : Whole σ) (s : SurrId) (f : Surrogate → Surrogate)
    (given : ∃ ms : List Message,
      (f (σ.surrs s)).given = ms.map fun m => (protocolHttpFrame m).raw)
    (wbuff : Ended newline (f (σ.surrs s)).wbuff) : Whole (σ.setSurr s f) where
  given r := by
    rw [surrs_setSurr]
    split
    next => exact given
    next => exact whole.given r
  wbuff r := by
    rw [surrs_setSurr]
    split
    next => exact wbuff
    next => exact whole.wbuff r
  sent := whole.sent

theorem free (env : HttpEnv) : Free env Response.Whole Whole where
  respond {σ} c resp allowed whole := by
    have done := sendResponse_responded σ c resp
    constructor
    · intro s
      rw [(done.session s).2.2.1]
      exact whole.given s
    · intro s
      rw [(done.session s).2.1]
      exact whole.wbuff s
    · -- a response that is sent is allowed, the earlier ones were whole
      intro e member
      rw [done.sent] at member
      rcases List.mem_append.mp member with before | here
      · exact whole.sent e before
      · split at here
        next =>
          rw [List.mem_singleton.mp here]
          exact allowed
        next => cases here
  sock _ _ _ whole := whole.congr (fun _ => ⟨rfl, rfl⟩) rfl
  any _ _ whole := whole.congr (fun _ => ⟨rfl, rfl⟩) rfl
  surr {σ} s f same whole := by
    obtain ⟨wbuff, given⟩ := same (σ.surrs s)
    exact whole.setSurr s f (given ▸ whole.given s) (wbuff ▸ whole.wbuff s)
  -- what is given to a surrogate is one more message
  give {σ} s m whole := by
    refine whole.setSurr s _ ?_ (whole.wbuff s)
    obtain ⟨ms, given⟩ := whole.given s
    refine ⟨ms ++ [m], ?_⟩
    rw [given, List.map_append]
    rfl
  -- and what is kept for its poller is followed by one more
  keep {σ} s m whole := by
    refine whole.setSurr s _ (whole.given s) ((whole.wbuff s).append ?_)
    exact Or.inr ⟨m.text, m.raw_eq⟩
  flush s whole := whole.setSurr s _ (whole.given s) (Or.inl rfl)
  created {σ} sid whole := by
    constructor
    · intro s
      by_cases new : s = σ.nextSurr
      · exact ⟨[], by simp [surrNew, new]⟩
      · simpa [surrNew, new] using whole.given s
    · intro s
      by_cases new : s = σ.nextSurr
      · exact Or.inl (by simp [surrNew, new])
      · simpa [surrNew, new] using whole.wbuff s
    · exact whole.sent
  close _ _ _ whole := whole.congr (fun _ => ⟨rfl, rfl⟩) rfl
  aborts _ whole := whole.congr (fun _ => ⟨rfl, rfl⟩) rfl
  clients _ whole := whole.congr (fun _ => ⟨rfl, rfl⟩) rfl
  logged _ _ whole := whole.congr (fun _ => ⟨rfl, rfl⟩) rfl
  tick _ whole := whole.congr (fun _ => ⟨rfl, rfl⟩) rfl
  opened _ whole := whole.congr (fun _ => ⟨rfl, rfl⟩) rfl
  held s whole _ := whole.wbuff s
  status status ok := by
    have plain : status = .status200 := ok
    rw [plain]
    exact Or.inl rfl
  iframe _ := Or.inl rfl
  frame m _ := Or.inr ⟨m.text, m.raw_eq⟩

theorem start_whole : Whole start where
  given _ := ⟨[], rfl⟩
  wbuff _ := Or.inl rfl
  sent _ member := by cases member

/-- What a session is sent ends with whole lines, and these are what a client
of the session takes. -/
theorem received_eq {σ : Http} (whole : Whole σ) (s : SurrId) :
    Ended newline (σ.sessionBytes s) ∧ σ.received s = tokens newline (σ.sessionBytes s) := by
  replace whole := whole.sent
  rw [received, sessionBytes]
  generalize σ.sent = sent at whole
  induction sent with
  | nil => exact ⟨Or.inl rfl, (tokens_nil newline).symm⟩
  | cons e es ih =>
    obtain ⟨ended, lines⟩ := ih fun e member => whole e (List.mem_cons_of_mem _ member)
    have first : Ended newline (e.carried s) := by
      rw [Sent.carried]
      split
      next carries => exact whole e List.mem_cons_self carries.2
      next => exact Or.inl rfl
    rw [List.flatMap_cons, List.flatMap_cons, first.tokens_append, lines, e.lines_eq]
    exact ⟨first.append ended, rfl⟩

end Whole

theorem whole_run {env : HttpEnv} {ls : List Label} {σ : Http}
    (ran : (system env).run start ls = some σ) : Whole σ :=
  (Whole.free env).run ran Whole.start_whole

/-- Every client reads the bodies that were sent to its sockets. The client of
the session has recovered the messages, but for those that the surrogate still
holds: it will read these from there on. -/
def Decoded (σ : Http) (s : SurrId) (ms : List Message) : Prop :=
  (∀ c chunks, chunks.flatten = σ.written c →
    readAll chunks = (σ.responses c).map (·.response.body)) ∧
  σ.received s ++ tokens newline (σ.surrs s).wbuff = ms.map Message.text

/-- In every run, and for every session that is not closing: a client recovers
exactly the messages the session was given, in order, if and only if no JSON
text among them has a newline. -/
theorem messages_decoded_iff (env : HttpEnv) (ls : List Label) (σ : Http)
    (ran : (system env).run start ls = some σ) (s : SurrId)
    (open_ : (σ.surrs s).closing = none) (ms : List Message)
    (given : (σ.surrs s).given = ms.map fun m => (protocolHttpFrame m).raw)
    (paths : ∀ m ∈ ms, newline ∉ m.evPath ++ m.evExtra) :
    σ.Decoded s ms ↔ ∀ m ∈ ms, newline ∉ m.json := by
  have whole := whole_run ran
  obtain ⟨ended, lines⟩ := whole.received_eq s
  constructor
  · rintro ⟨-, recovered⟩ m member
    have text : m.text ∈ σ.received s ++ tokens newline (σ.surrs s).wbuff := by
      rw [recovered]
      exact List.mem_map_of_mem member
    -- a client never takes a line with a newline in it
    have free : newline ∉ m.text := by
      rw [lines] at text
      exact (List.mem_append.mp text).elim notMem_of_mem_tokens notMem_of_mem_tokens
    exact (newline_notMem_text (paths m member)).mp free
  · intro compact
    refine ⟨fun c chunks same => ?_, ?_⟩
    · have read := readAll_responses ((σ.responses c).map (·.response)) chunks
      rw [List.flatMap_map, List.map_map] at read
      exact read same
    · have account := (Owing.run ran).conserved s open_
      rw [nothing, List.append_nil, given] at account
      rw [lines, ← ended.tokens_append, account, ← List.flatMap_def]
      have free : ∀ text ∈ ms.map Message.text, newline ∉ text ∧ text ≠ [] := by
        intro text member
        obtain ⟨m, given, rfl⟩ := List.mem_map.mp member
        exact ⟨(newline_notMem_text (paths m given)).mpr (compact m given), m.text_ne_nil⟩
      have read := tokens_lines (ms.map Message.text) free
      rwa [List.flatMap_map] at read

/-- The messages of the sample run. -/
def polledMessages : List Message := [⟨str "/a", [], 0, str "1"⟩, ⟨str "/b", [], 0, str "2"⟩,
  ⟨str "/c", [], 0, str "3"⟩, ⟨str "/d", [], 0, str "4"⟩, ⟨str "/e", [], 0, str "5"⟩]

theorem messages_decoded_iff_polling :
    ∃ σ, (system sampleEnv).run start polling = some σ ∧ σ.Decoded 0 polledMessages := by
  have some : ((system sampleEnv).run start polling).isSome := by decide
  obtain ⟨σ, ran⟩ := Option.isSome_iff_exists.mp some
  have finished : ∀ σ ∈ (system sampleEnv).run start polling, (σ.surrs 0).closing = none ∧
      (σ.surrs 0).given = polledMessages.map fun m => (protocolHttpFrame m).raw := by decide
  obtain ⟨open_, given⟩ := finished σ ran
  exact ⟨σ, ran, (messages_decoded_iff sampleEnv polling σ ran 0 open_ polledMessages given
    (by decide)).mpr (by decide)⟩

/-- A broadcast of a JSON array that is written on two lines meets a poller. -/
def broadcastLines : List Label := [
  .opened, .header 0 (samplePost "0") true, .body 0 [] [],
  .act (.send 0 ⟨str "/a", [], 0, str "[1,\n2]"⟩)]

/-- The client takes the one message for two. -/
theorem messages_decoded_torn :
    ∃ σ, (system sampleEnv).run start broadcastLines = some σ ∧ (σ.surrs 0).closing = none ∧
      (σ.surrs 0).given = [(protocolHttpFrame ⟨str "/a", [], 0, str "[1,\n2]"⟩).raw] ∧
      σ.received 0 = [str "/a:0=[1,", str "2]"] ∧ (σ.surrs 0).wbuff = [] ∧
      ¬ σ.Decoded 0 [⟨str "/a", [], 0, str "[1,\n2]"⟩] := by
  have some : ((system sampleEnv).run start broadcastLines).isSome := by decide
  obtain ⟨σ, ran⟩ := Option.isSome_iff_exists.mp some
  have finished : ∀ σ ∈ (system sampleEnv).run start broadcastLines, (σ.surrs 0).closing = none ∧
      (σ.surrs 0).given = [(protocolHttpFrame ⟨str "/a", [], 0, str "[1,\n2]"⟩).raw] ∧
      σ.received 0 = [str "/a:0=[1,", str "2]"] ∧ (σ.surrs 0).wbuff = [] := by decide +kernel
  obtain ⟨open_, given, received, wbuff⟩ := finished σ ran
  refine ⟨σ, ran, open_, given, received, wbuff, fun decoded => ?_⟩
  have recovered := decoded.2
  rw [received, wbuff] at recovered
  exact absurd recovered (by decide)

end Http

end QuickIO
