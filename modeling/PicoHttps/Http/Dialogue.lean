/-
**What the other end reads.**

The messages of a session go out one after the other.  A reply is read by an `HTTPRequest`, and
frames are read by a `WebSocketHandler`, however the bytes are cut on their way: the application at
the other end is given the body that has been sent, and the payloads.  Of the header lines of a reply
the first 20 are read.

Main definitions:

* `Http.sentEntries` — the methods that have sent a message;
* `Http.replyHead` — the head of a reply.

Main results:

* `Http.HTTPSession.acceptText_eq_some` — what accepting a WebSocket answers;
* `Http.frames_read` — **the frames of a session are read as its payloads**;
* `Http.reply_read` — **a reply is read as it has been sent**, up to 20 header lines.
-/

import PicoHttps.Http.Exchange
import PicoHttps.Http.Outgoing
import PicoHttps.Http.Received
import PicoHttps.WebSocket.Encode

set_option relaxedAutoImplicit false
set_option autoImplicit false

namespace Http

open WebSocket (decodeChunks delivered framesOf recorder)
open WebSocket.WebSocketHandler (encodeHeader fresh)

/-! ### The messages of a session -/

/-- The methods that have sent a message, in the order in which they have returned. -/
def sentEntries (crypto : Crypto) (history : List (Reentrant.Record World Entry Call Result)) :
    List Entry := (history.map (·.entry)).filter fun e => (e.text crypto).isSome

variable {crypto : Crypto} {history : List (Reentrant.Record World Entry Call Result)}

/-- The messages of a session are those of the methods that have sent one. -/
theorem texts_sentEntries : (history.flatMap fun r => (r.entry.text crypto).getD []) =
    (sentEntries crypto history).flatMap fun e => (e.text crypto).getD [] := by
  induction history with
  | nil => rfl
  | cons r history ih =>
      rw [List.flatMap_cons, sentEntries, List.map_cons]
      cases htext : r.entry.text crypto with
      | none =>
          rw [List.filter_cons_of_neg (by simp [htext]), Option.getD_none, List.nil_append]
          exact ih
      | some text =>
          rw [List.filter_cons_of_pos (by simp [htext]), List.flatMap_cons, htext]
          exact congrArg _ ih

/-- **What has been written are the messages that have been sent.** -/
theorem written_sentEntries (crypto : Crypto) (setup : Tls.Setup) (arg : Option ℕ) (tls : Bool)
    (op : WebSocket.WebSocketOperation) (key : Fin 4 → UInt8)
    (buffer : Buffer WebSocket.MAX_WEBSOCKET_HEADER) {moves : List Move} {c : Config}
    (hrun : Reentrant.run Entry.run Orderly moves
      (.start (.start crypto setup arg tls op key buffer)) = some c)
    (hpending : ∀ x ∈ c.pending, x.isData = true)
    (hsent : ∀ r ∈ c.history, (r.entry.text crypto).isSome →
      r.result = .bool true ∧ r.after.tls.IsOpen) {messages : List Entry}
    (hmessages : sentEntries crypto c.history = messages) :
    Tls.written c.state.tls.log = messages.flatMap fun e => (e.text crypto).getD [] := by
  have hshown := Outgoing.shown crypto setup arg tls op key buffer hrun hpending
  rw [Outgoing.booked_of_delivered hsent, texts_sentEntries, hmessages] at hshown
  exact hshown.2 _ rfl

/-- A method that has sent a message has a message. -/
theorem exists_text {messages : List Entry} (h : sentEntries crypto history = messages) {e : Entry}
    (he : e ∈ messages) : ∃ text, e.text crypto = some text := by
  subst h
  exact Option.isSome_iff_exists.1 (List.mem_filter.1 he).2

theorem HTTPSession.acceptText_eq_some {header : HTTPHeader} {data reply : List UInt8}
    (h : acceptText crypto header data = some reply) : ∃ value digest key,
      header.getHeaderValue data keyName = some (some value) ∧
      crypto.sha1 (value ++ KEY_BUFFER) = some digest ∧ crypto.base64Encode digest = some key ∧
      reply = acceptReply key := by
  rw [acceptText] at h
  split at h
  · rename_i value hvalue
    split at h
    · cases h
    · obtain ⟨digest, hdigest, h⟩ := Option.bind_eq_some_iff.1 h
      obtain ⟨key, hkey, h⟩ := Option.bind_eq_some_iff.1 h
      split at h
      · cases h
      · exact ⟨value, digest, key, hvalue, hdigest, hkey, (Option.some.inj h).symm⟩
  · cases h

/-! ### Frames -/

/-- **The frames of a session are read as its payloads.**  A session has accepted a WebSocket, has
then sent payloads, and nothing else, and the application does not send in `on_sent`.  What has been
written is the answer to the key of the request, and a stream of frames.  However that is cut, a
handler at the other end accepts it and hands over the payloads, each of them complete, the last one
only if it is not empty. -/
theorem frames_read (crypto : Crypto) (setup : Tls.Setup) (arg : Option ℕ) (tls : Bool)
    (op : WebSocket.WebSocketOperation) (key : Fin 4 → UInt8)
    (buffer : Buffer WebSocket.MAX_WEBSOCKET_HEADER) {moves : List Move} {c : Config}
    (hrun : Reentrant.run Entry.run Orderly moves
      (.start (.start crypto setup arg tls op key buffer)) = some c)
    (hpending : ∀ x ∈ c.pending, x.isData = true)
    (hsent : ∀ r ∈ c.history, (r.entry.text crypto).isSome →
      r.result = .bool true ∧ r.after.tls.IsOpen)
    (header : HTTPHeader) (data : List UInt8) (bodies : List (List UInt8))
    (hmessages : sentEntries crypto c.history =
      .acceptWebSocket header data :: bodies.map .sendWebSocketData)
    (hbodies : ∀ body ∈ bodies, body.length < 2 ^ 32) :
    ∃ value digest accept, header.getHeaderValue data HTTPSession.keyName = some (some value) ∧
      crypto.sha1 (value ++ HTTPSession.KEY_BUFFER) = some digest ∧
      crypto.base64Encode digest = some accept ∧
      ∃ frames, Tls.written c.state.tls.log = HTTPSession.acceptReply accept ++ frames ∧
        ∀ (op' : WebSocket.WebSocketOperation) (key' : Fin 4 → UInt8)
          (buffer' : Buffer WebSocket.MAX_WEBSOCKET_HEADER) (cs : List (List UInt8)),
          cs.flatten = frames →
          ∃ h log, decodeChunks recorder (fresh op' key' buffer') cs [] = some (true, h, log) ∧
            delivered log = (if bodies.getLast? = some [] then bodies.dropLast else bodies, none) := by
  obtain ⟨reply, hreply⟩ := exists_text hmessages List.mem_cons_self
  obtain ⟨value, digest, accept, hvalue, hdigest, haccept, rfl⟩ :=
    HTTPSession.acceptText_eq_some hreply
  refine ⟨value, digest, accept, hvalue, hdigest, haccept, framesOf bodies, ?_, ?_⟩
  · have hframes : (bodies.map Entry.sendWebSocketData).flatMap
        (fun e => (e.text crypto).getD []) = framesOf bodies := by
      rw [List.flatMap_map]
      rfl
    rw [written_sentEntries crypto setup arg tls op key buffer hrun hpending hsent hmessages,
      List.flatMap_cons, hreply, hframes]
    rfl
  · intro op' key' buffer' cs hcs
    obtain ⟨ok, h, log, hdecoded, hdelivered, hrefused⟩ :=
      WebSocket.decodeChunks_delivers op' key' buffer' cs
    rw [hcs, WebSocket.readStream_framesOf hbodies] at hdelivered hrefused
    have hok : ok = true := by simpa using hrefused
    exact ⟨h, log, hok ▸ hdecoded, by simpa [WebSocket.Reading.reported] using hdelivered⟩

/-- One frame, cut in its head. -/
theorem frames_read_example :
    ∃ c : Config, Reentrant.run Entry.run Orderly frameMoves (.start listening) = some c ∧
      ∃ cs : List (List UInt8),
        Tls.written c.state.tls.log = HTTPSession.acceptReply acceptKey ++ cs.flatten ∧
        ∃ h log, decodeChunks recorder (fresh 0 (fun _ => 0) (.filled _ 0)) cs [] =
          some (true, h, log) ∧ delivered log = ([[1, 2]], none) := by
  have hrun : ((Reentrant.run Entry.run Orderly frameMoves (.start listening)).any fun c =>
      c.pending = [] ∧ (∀ r ∈ c.history, (r.entry.text listening.crypto).isSome →
        r.result = .bool true ∧ r.after.tls.IsOpen) ∧
      sentEntries listening.crypto c.history =
        .acceptWebSocket ⟨[(16, 35)], 40, 0, some 0, some 4⟩
          (Text.ascii "GET\x00/\x00HTTP/1.1\r\nSec-WebSocket-Key\x00 k\x00\n\r\n" ++ []) ::
          [[1, 2]].map .sendWebSocketData ∧
      Tls.written c.state.tls.log =
        HTTPSession.acceptReply acceptKey ++ [[0x82], [2, 1, 2]].flatten) = true := by
    decide +kernel
  obtain ⟨c, hc, hsent⟩ := (Option.any_eq_true _ _).1 hrun
  obtain ⟨hpending, hsent, hmessages, hwritten⟩ := of_decide_eq_true hsent
  obtain ⟨value, sum, accept, hvalue, hsum, haccept, frames, hframes, hread⟩ :=
    frames_read _ _ _ _ _ _ _ hc (by
      rw [hpending]
      exact fun x hx => absurd hx List.not_mem_nil) hsent _ _ _ hmessages (by decide)
  have hkey : some (some (Text.ascii "k")) = some (some value) :=
    Eq.trans (by decide +kernel) hvalue
  obtain rfl := Option.some.inj (Option.some.inj hkey)
  have hdigest : some digest = keyCrypto.sha1 (Text.ascii "k" ++ HTTPSession.KEY_BUFFER) := by
    decide +kernel
  obtain rfl := Option.some.inj (hdigest.trans hsum)
  have hbase64 : some acceptKey = keyCrypto.base64Encode digest := by decide +kernel
  obtain rfl := Option.some.inj (hbase64.trans haccept)
  exact ⟨c, hc, [[0x82], [2, 1, 2]], hwritten,
    hread _ _ _ _ (List.append_cancel_left (hwritten.symm.trans hframes))⟩

/-! ### A reply -/

/-- The head of a reply, with the headers `headers`. -/
def replyHead (headers : List (List UInt8 × List UInt8)) (bodyLen : ℤ) : Head where
  first := Text.ascii "HTTP/1.0"
  second := Text.ascii "200"
  third := Text.ascii "OK"
  headers := headers ++ [(Text.ascii "Content-Length", Text.decimal bodyLen)]

theorem render_replyHead (headers : List (List UInt8 × List UInt8)) (bodyLen : ℤ) :
    (replyHead headers bodyLen).render =
      HTTPSession.replyHeader (headers.flatMap headerLine) bodyLen := by
  simp [replyHead, HTTPSession.replyHeader, Head.render, headerLines, headerLine, Text.ascii,
    COLON, SPACE, CR, LF]

theorem canonical_replyHead {headers : List (List UInt8 × List UInt8)}
    (h : ∀ header ∈ headers, CanonicalHeader header) (bodyLen : ℤ) :
    CanonicalResponse (replyHead headers bodyLen) where
  first := (by decide +kernel : Avoids (Text.ascii "HTTP/1.0") [SPACE, CR, LF])
  second_ne_nil := (by decide +kernel : Text.ascii "200" ≠ [])
  digits := (by decide +kernel : ∀ b ∈ Text.ascii "200", IsDigit b)
  number_le := (by decide +kernel : numberOf (Text.ascii "200") ≤ 65535)
  third := (by decide +kernel : Avoids (Text.ascii "OK") [CR, LF])
  headers := by
    intro header hheader
    rcases List.mem_append.1 hheader with hheader | hheader
    · exact h header hheader
    · obtain rfl := List.mem_singleton.1 hheader
      have hname : Avoids (Text.ascii "Content-Length") [COLON, CR, LF, 0] := by decide +kernel
      exact ⟨hname, HTTPRequest.avoids_decimal bodyLen⟩

/-- What the parser makes of a reply that is not too long. -/
theorem parse_replyHead {headers : List (List UInt8 × List UInt8)}
    (hheaders : ∀ header ∈ headers, CanonicalHeader header) (bodyLen : ℤ) (rest : List UInt8) :
    ∃ h data, HTTPHeader.new.parse ((replyHead headers bodyLen).render ++ rest) =
        some (true, h, data) ∧
      h.isResponse data = some true ∧ h.getResponseCode data = some 222 ∧
      ∀ name, 0 ∉ name → h.getHeaderValue data name =
        some (lookup ((replyHead headers bodyLen).headers.take 20) name) := by
  have hcanonical := canonical_replyHead hheaders bodyLen
  have hcode : codeOf (replyHead headers bodyLen).second = some 222 :=
    (by decide +kernel : codeOf (Text.ascii "200") = some 222)
  have hsecond : (replyHead headers bodyLen).second = 0x32 :: [0x30, 0x30] :=
    (by decide +kernel : Text.ascii "200" = [0x32, 0x30, 0x30])
  obtain ⟨h, data, hparse, hresponse, hread⟩ := parse_response .new hcanonical rest hsecond
  obtain ⟨h', mem, hparse', -, hholds, -⟩ :=
    HTTPHeader.parse_some .new (hcanonical.read_render rest hcode)
  rw [hparse] at hparse'
  cases hparse'
  refine ⟨h, _, hparse, hresponse, hread.trans (by decide +kernel), fun name hname => ?_⟩
  exact HTTPHeader.getHeaderValue_eq (hholds.append _)
    (fun header hmem => hcanonical.headers header (List.mem_of_mem_take hmem)) hname

/-- What a session has written that has sent a reply and nothing else. -/
theorem written_reply (crypto : Crypto) (setup : Tls.Setup) (arg : Option ℕ) (tls : Bool)
    (op : WebSocket.WebSocketOperation) (key : Fin 4 → UInt8)
    (buffer : Buffer WebSocket.MAX_WEBSOCKET_HEADER) {moves : List Move} {c : Config}
    (hrun : Reentrant.run Entry.run Orderly moves
      (.start (.start crypto setup arg tls op key buffer)) = some c)
    (hpending : ∀ x ∈ c.pending, x.isData = true)
    (hsent : ∀ r ∈ c.history, (r.entry.text crypto).isSome →
      r.result = .bool true ∧ r.after.tls.IsOpen)
    {headers : List (List UInt8 × List UInt8)} {body : Option (List UInt8)} {bodyLen : ℤ}
    (hmessages : sentEntries crypto c.history =
      [.sendHttpReply (headers.flatMap headerLine) body bodyLen]) :
    Tls.written c.state.tls.log = (replyHead headers bodyLen).render ++ body.getD [] ∧
      (replyHead headers bodyLen).render.length < 128 := by
  have hwritten :=
    written_sentEntries crypto setup arg tls op key buffer hrun hpending hsent hmessages
  obtain ⟨text, htext⟩ := exists_text hmessages (List.mem_singleton_self _)
  rw [List.flatMap_singleton, htext, Option.getD_some] at hwritten
  rw [Entry.text, ← render_replyHead] at htext
  split at htext
  · cases htext
  · rename_i hshort
    obtain rfl := Option.some.inj htext
    exact ⟨hwritten, by omega⟩

/-- **A reply is read as it has been sent.**  A session has sent a reply and nothing else, and what
it has written comes to an `HTTPRequest` in chunks, the whole head in the first one.  The callback
object of the request is told once of a response with the first 20 header lines that have been sent,
and is given the body; `Content-Length` is the last line, and behind 20 others it is lost.  The code
of the response, 200, is read as 222. -/
theorem reply_read (crypto : Crypto) (setup : Tls.Setup) (arg : Option ℕ) (tls : Bool)
    (op : WebSocket.WebSocketOperation) (key : Fin 4 → UInt8)
    (buffer : Buffer WebSocket.MAX_WEBSOCKET_HEADER) {moves : List Move} {c : Config}
    (hrun : Reentrant.run Entry.run Orderly moves
      (.start (.start crypto setup arg tls op key buffer)) = some c)
    (hpending : ∀ x ∈ c.pending, x.isData = true)
    (hsent : ∀ r ∈ c.history, (r.entry.text crypto).isSome →
      r.result = .bool true ∧ r.after.tls.IsOpen)
    (headers : List (List UInt8 × List UInt8))
    (hheaders : ∀ header ∈ headers, CanonicalHeader header) (body : Option (List UInt8))
    (bodyLen : ℤ) (hmessages : sentEntries crypto c.history =
      [.sendHttpReply (headers.flatMap headerLine) body bodyLen])
    (memory : Buffer (MAX_HEADER_SIZE + 2)) (host : CString) (port : UInt16)
    (hport : port ≠ 0) (command path : CString)
    (hfit : (host.chars ++ [0]).length +
      (HTTPRequest.requestLines command path host port).length < MAX_HEADER_SIZE - 2)
    (r r' : HTTPRequest) (calls : List HTTPRequest.Call)
    (hnew : HTTPRequest.new memory (HTTPRequest.stateOf 0) (some host) port (some command)
      (some path) = some r) (hafter : r.after calls = some r')
    {κ : Type} (callback : IHttpCallback κ) (hagrees : callback.Agrees) (k : κ)
    (chunk : List UInt8) (chunks : List (List UInt8))
    (hbytes : chunk ++ chunks.flatten = Tls.written c.state.tls.log)
    (hhead : (replyHead headers bodyLen).render.length ≤ chunk.length) :
    ∃ h data replies, HTTPRequest.receive (some callback) k r' (chunk :: chunks) = some replies ∧
      replies.map HTTPRequest.Reply.ok = List.replicate (chunks.length + 1) true ∧
      replies.flatMap (fun e => e.notices.flatMap Notice.header) = [(h, data)] ∧
      h.isResponse data = some true ∧ h.getResponseCode data = some 222 ∧
      (∀ name, 0 ∉ name → h.getHeaderValue data name =
        some (lookup ((replyHead headers bodyLen).headers.take 20) name)) ∧
      replies.flatMap (fun e => e.notices.flatMap Notice.data) = body.getD [] := by
  obtain ⟨hwritten, hshort⟩ :=
    written_reply crypto setup arg tls op key buffer hrun hpending hsent hmessages
  -- the first chunk begins with the head
  obtain ⟨rest, rfl⟩ : (replyHead headers bodyLen).render <+: chunk :=
    List.prefix_of_prefix_length_le ⟨_, hwritten.symm⟩ ⟨_, hbytes⟩ hhead
  have hbody : rest ++ chunks.flatten = body.getD [] := by
    rw [hwritten, List.append_assoc] at hbytes
    exact List.append_cancel_left hbytes
  have hready : HTTPRequest.Ready r' := by
    obtain ⟨r₁, hnew₁, hinv⟩ := HTTPRequest.exists_new_some memory (HTTPRequest.stateOf 0) hport
      command path
    obtain rfl := Option.some.inj (hnew₁.symm.trans hnew)
    exact HTTPRequest.Ready.after
      ⟨HTTPRequest.new_state memory _ hport command path hnew hfit, _, _, hinv⟩ hafter
  obtain ⟨h, data, hparse, hresponse, hcode, hvalues⟩ := parse_replyHead hheaders bodyLen rest
  obtain ⟨h', data', replies, hparse', hreceive, hdelivered⟩ :=
    hready.delivers (k := k) hagrees (canonical_replyHead hheaders bodyLen) (by omega) rest chunks
  rw [hparse] at hparse'
  cases hparse'
  refine ⟨h, data, replies, hreceive, hdelivered.ok, ?_, hresponse, hcode, hvalues,
    hdelivered.data.trans hbody⟩
  rw [List.flatMap_def, hdelivered.header]
  simp

/-- A reply with a header and a body of one byte. -/
def replyMoves : List Move :=
  let head := Text.ascii "HTTP/1.0 200 OK\r\nk: v\r\nContent-Length: 1\r\n\r\n"
  [.enter (.sendHttpReply (Text.ascii "k: v\r\n") (some [7]) 1),
    .answer (.lwip (.altcpWrite (some 1) head)) .ERR_OK,
    .answer (.lwip (.altcpOutput (some 1))) .ERR_OK,
    .answer (.lwip (.altcpWrite (some 1) [7])) .ERR_OK,
    .answer (.lwip (.altcpOutput (some 1))) .ERR_OK]

/-- The head comes in one chunk, and the body in another. -/
theorem reply_read_example :
    ∃ r : HTTPRequest, ∃ chunk h data replies,
      HTTPRequest.receive (some ⟨fun (_ : Unit) _ _ => (true, ()), fun _ _ => (true, ())⟩) () r
        [chunk, [7]] = some replies ∧
      replies.flatMap (fun e => e.notices.flatMap Notice.header) = [(h, data)] ∧
      h.getHeaderValue data (Text.ascii "k") = some (some (Text.ascii "v")) ∧
      replies.flatMap (fun e => e.notices.flatMap Notice.data) = [7] := by
  have hrun : ((Reentrant.run Entry.run Orderly replyMoves (.start listening)).any fun c =>
      c.pending = [] ∧ (∀ r ∈ c.history, (r.entry.text listening.crypto).isSome →
        r.result = .bool true ∧ r.after.tls.IsOpen) ∧
      sentEntries listening.crypto c.history = [.sendHttpReply
        ([(Text.ascii "k", Text.ascii "v")].flatMap headerLine) (some [7]) 1] ∧
      (replyHead [(Text.ascii "k", Text.ascii "v")] 1).render ++ [[7]].flatten =
        Tls.written c.state.tls.log) = true := by
    decide +kernel
  obtain ⟨c, hc, hsent⟩ := (Option.any_eq_true _ _).1 hrun
  obtain ⟨hpending, hsent, hmessages, hbytes⟩ := of_decide_eq_true hsent
  have hnew : ((HTTPRequest.new (.filled _ 0) (HTTPRequest.stateOf 0) (some (.ofString "a")) 80
      (some (.ofString "GET")) (some (.ofString "/"))).isSome) = true := by decide +kernel
  obtain ⟨r, hnew⟩ := Option.isSome_iff_exists.1 hnew
  have hcanonical : ∀ header ∈ [(Text.ascii "k", Text.ascii "v")], CanonicalHeader header := by
    intro header hheader
    obtain rfl := List.mem_singleton.1 hheader
    exact ⟨by decide +kernel, by decide +kernel⟩
  obtain ⟨h, data, replies, hreceive, -, hheader, -, -, hvalues, hbody⟩ :=
    reply_read _ _ _ _ _ _ _ hc (by
        rw [hpending]
        exact fun x hx => absurd hx List.not_mem_nil) hsent _ hcanonical _ _ hmessages _ _ _
      (by decide) _ _ (by decide +kernel) r r [] hnew rfl
      ⟨fun (_ : Unit) _ _ => (true, ()), fun _ _ => (true, ())⟩ (fun _ n => by cases n <;> rfl) ()
      _ _ hbytes (Nat.le_refl _)
  refine ⟨r, _, h, data, replies, hreceive, hheader, ?_, hbody⟩
  rw [hvalues _ (by decide +kernel)]
  decide +kernel

end Http
