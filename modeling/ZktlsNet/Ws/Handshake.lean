import ZktlsNet.Lib.Buffer
import ZktlsNet.Ws.Stream

/-!
# The opening handshake (`ws.cpp:27-101`, `ws.cpp:249-310`, `websocket_io_channel.cpp:102-123`)

Both sides read the peer's handshake message with one plain `Recv` of up to 1024
bytes. Whatever that call returns *is* the message: nothing looks for the blank
line, and nothing is put back.

The digest is a parameter. The stack buffer of the server's side is not
initialised, so what it held, and what lies behind it, is an input (`junk`).

- `DirectLaws`: what `Recv` and `Send` do to the bytes to come.
- `getHttpHeader_append`: a header that is found in the message is found whatever
  lies behind the message.
- `initHandshake_boundary_iff`: the handshake ends at the boundary of the peer's
  message if and only if the first `Recv` returns that message.
-/

namespace ZktlsNet

open NetLib

/-! ## Text -/

/-- `strstr` on memory: the memory from the first match on, `none` when a `NUL`
comes first. Running out of memory is a fault. -/
def strstr (needle : Bytes) : Bytes → Res (Option Bytes)
  | [] => .error (.fault .outOfBounds)
  | c :: cs =>
    if needle.isPrefixOf (c :: cs) then .ok (some (c :: cs))
    else if c = 0 then .ok none
    else strstr needle cs

/-- The bytes up to the first `\r`, `\n` or `NUL`. -/
def untilLineEnd : Bytes → Res Bytes
  | [] => .error (.fault .outOfBounds)
  | c :: cs => do
    if c = 13 ∨ c = 10 ∨ c = 0 then return []
    else return c :: (← untilLineEnd cs)

/-- `GetHttpHeader`: what is written to `out`, without its `NUL`. -/
def getHttpHeader (headers header : Bytes) (maxBytesOut : Nat) : Res Bytes := do
  match ← strstr header headers with
  | none => .error (.thrown ⟨.networkError, "Sec-WebSocket-Key not find"⟩)
  | some pos => do
    let value ← untilLineEnd (pos.drop header.length)
    return value.take (maxBytesOut - 1)

/-- `b64`. -/
def b64 : Bytes := ascii "ABCDEFGHIJKLMNOPQRSTUVWXYZabcdefghijklmnopqrstuvwxyz0123456789+/"

/-- The four characters of 24 bits. -/
def b64Quad (e : Nat) : Bytes :=
  [b64.getD (e >>> 18) 0, b64.getD ((e >>> 12) &&& 0x3F) 0, b64.getD ((e >>> 6) &&& 0x3F) 0,
    b64.getD (e &&& 0x3F) 0]

/-- The loop of `base64_encode`. -/
def base64Loop : Bytes → Bytes
  | [] => []
  | [a] => b64Quad (a.toNat <<< 16)
  | [a, b] => b64Quad (a.toNat <<< 16 ||| b.toNat <<< 8)
  | a :: b :: c :: rest =>
    b64Quad (a.toNat <<< 16 ||| b.toNat <<< 8 ||| c.toNat) ++ base64Loop rest

/-- `base64_encode`: the last characters are overwritten by the padding. -/
def base64Encode (src : Bytes) : Bytes :=
  let padding := (3 - src.length % 3) % 3
  let d := base64Loop src
  store d (d.length - padding) (List.replicate padding 61)

/-- `webSocketGlobalGuid`. -/
def webSocketGlobalGuid : Bytes := ascii "258EAFA5-E914-47DA-95CA-C5AB0DC85B11"

/-- The response up to the value of `Sec-WebSocket-Accept`. -/
def handshakeHead : Bytes := ascii
  "HTTP/1.1 101 Switching Protocols\r\nUpgrade: websocket\r\nConnection: Upgrade\r\nSec-WebSocket-Accept: "

/-- `handshakeMsg` of `SendHandshake`. -/
def handshakeMsg : Bytes :=
  handshakeHead ++ ascii "0000000000000000000000000000\r\n\r\n"

/-- `handshakeMsgFormat`, with its two `%s` filled in. -/
def handshakeMsgFormat (uri host : Bytes) : Bytes :=
  ascii "GET " ++ uri ++ ascii " HTTP/1.1\r\nHost: " ++ host ++
    ascii "\r\nUser-Agent: Mozilla/5.0 (X11; Ubuntu; Linux x86_64; rv:109.0) Gecko/20100101 " ++
    ascii "Firefox/110.0\r\nAccept: */*\r\nAccept-Language: en-US,en;q=0.5\r\n" ++
    ascii "Accept-Encoding: gzip, deflate, br\r\nSec-WebSocket-Version: 13\r\n" ++
    ascii "Sec-WebSocket-Extensions: permessage-deflate\r\n" ++
    ascii "Sec-WebSocket-Key: I28w97h3i3dkMdxGpUF+sA==\r\nConnection: keep-alive, Upgrade\r\n" ++
    ascii "Sec-Fetch-Dest: websocket\r\nSec-Fetch-Mode: websocket\r\nSec-Fetch-Site: same-site\r\n" ++
    ascii "Pragma: no-cache\r\nCache-Control: no-cache\r\nUpgrade: websocket\r\n\r\n"

/-- `BUFFER_SIZE`. -/
def bufferSize : Nat := 1024

/-! ## The handshake -/

section

variable {σ : Type} [ChannelStream σ]

/-- `RequestWebSocketHandshake`; the request is cut to its 1024-byte buffer. -/
def requestWebSocketHandshake (uri host : Bytes) (stream : σ) : Res Unit × σ :=
  let (ret, stream) := ChannelStream.send stream ((handshakeMsgFormat uri host).take (1024 - 1))
  if ret < 0 then
    (.error (ChannelStream.throwConnectionError stream "request websocket send error"), stream)
  else (.ok (), stream)

/-- `SendHandshake`; the key buffer is 165 bytes, of which the header may fill half. -/
def sendHandshake (sha1 : Bytes → Bytes) (request : Bytes) (stream : σ) : Res Unit × σ :=
  match getHttpHeader request (ascii "Sec-WebSocket-Key: ") ((128 + 37) / 2) with
  | .error e => (.error e, stream)
  | .ok key =>
    let digest := sha1 (key ++ webSocketGlobalGuid)
    let (err, stream) := ChannelStream.send stream
      (store handshakeMsg handshakeHead.length (base64Encode digest))
    if err < 0 then
      (.error (ChannelStream.throwConnectionError stream "send websocket handshake error"), stream)
    else (.ok (), stream)

/-- `ResponseWebSocketHandshake`. -/
def responseWebSocketHandshake (sha1 : Bytes → Bytes) (junk : Bytes) (stream : σ) :
    Res Unit × σ :=
  match ChannelStream.recv stream bufferSize with
  | (none, stream) =>
    (.error (ChannelStream.throwConnectionError stream "response websocket recv error"), stream)
  | (some [], stream) =>
    (.error (ChannelStream.throwConnectionError stream "response websocket peer close"), stream)
  | (some read, stream) => sendHandshake sha1 (read ++ junk.drop read.length) stream

/-- `CheckWebSocketHandshake`: the response is received and not looked at. -/
def checkWebSocketHandshake (stream : σ) : Res Unit × σ :=
  match ChannelStream.recv stream bufferSize with
  | (none, stream) | (some [], stream) =>
    (.error (ChannelStream.throwConnectionError stream "check websocket recv error"), stream)
  | (some _, stream) => (.ok (), stream)

/-- The handshake of `WebSocketIO::Init`, which passes the host where the URI
belongs and the URI as the host (its `IpPort` holds them exchanged). -/
def initHandshake (isServer : Bool) (sha1 : Bytes → Bytes) (junk host uri : Bytes) (stream : σ) :
    Res Unit × σ :=
  if isServer then responseWebSocketHandshake sha1 junk stream
  else
    match requestWebSocketHandshake host uri stream with
    | (.error e, stream) => (.error e, stream)
    | (.ok (), stream) => checkWebSocketHandshake stream

end

/-! ## Headers inside the message -/

theorem strstr_append {needle : Bytes} {m pos : Bytes} (more : Bytes)
    (h : strstr needle m = .ok (some pos)) :
    strstr needle (m ++ more) = .ok (some (pos ++ more)) ∧ needle.length ≤ pos.length ∧
      pos.length ≤ m.length := by
  induction m with
  | nil => cases h
  | cons c cs ih =>
    rw [strstr] at h
    split at h
    · -- the match is here
      rename_i hmatch
      cases h
      obtain ⟨t, ht⟩ := List.isPrefixOf_iff_prefix.mp hmatch
      refine ⟨?_, by rw [← ht, List.length_append]; omega, Nat.le_refl _⟩
      rw [List.cons_append, strstr, if_pos]
      exact List.isPrefixOf_iff_prefix.mpr ⟨t ++ more, by
        rw [← List.append_assoc, ht, List.cons_append]⟩
    · rename_i hno
      split at h
      · cases h
      · -- it is further on, so the needle is too short to reach behind the message here
        rename_i hc
        obtain ⟨hfound, hle, hlen⟩ := ih h
        refine ⟨?_, hle, by rw [List.length_cons]; omega⟩
        have hno' : ¬ needle.isPrefixOf (c :: (cs ++ more)) = true := by
          intro hp
          refine hno (List.isPrefixOf_iff_prefix.mpr ?_)
          refine List.prefix_of_prefix_length_le (List.isPrefixOf_iff_prefix.mp hp)
            (List.prefix_append (c :: cs) more) ?_
          rw [List.length_cons]
          omega
        rw [List.cons_append, strstr, if_neg hno', if_neg hc, hfound]

theorem untilLineEnd_append {bs value : Bytes} (more : Bytes)
    (h : untilLineEnd bs = .ok value) : untilLineEnd (bs ++ more) = .ok value := by
  induction bs generalizing value with
  | nil => cases h
  | cons c cs ih =>
    rw [untilLineEnd] at h
    rw [List.cons_append, untilLineEnd]
    split at h
    · rw [if_pos (by assumption), h]
    · rw [if_neg (by assumption)]
      cases hrest : untilLineEnd cs with
      | error e =>
        rw [hrest] at h
        cases h
      | ok rest =>
        rw [hrest] at h
        rw [ih hrest]
        exact h

/-- A header found in the message is found whatever lies behind the message. -/
theorem getHttpHeader_append {message header value : Bytes} {maxBytesOut : Nat} (more : Bytes)
    (h : getHttpHeader message header maxBytesOut = .ok value) :
    getHttpHeader (message ++ more) header maxBytesOut = .ok value := by
  unfold getHttpHeader at h ⊢
  cases hpos : strstr header message with
  | error e =>
    rw [hpos] at h
    cases h
  | ok found =>
    cases found with
    | none =>
      rw [hpos] at h
      cases h
    | some pos =>
      obtain ⟨hfound, hle, -⟩ := strstr_append more hpos
      rw [hpos] at h
      rw [hfound]
      simp only [ok_bind, List.drop_append_of_le_length hle] at h ⊢
      cases hline : untilLineEnd (pos.drop header.length) with
      | error e =>
        rw [hline] at h
        cases h
      | ok line =>
        rw [hline] at h
        rw [untilLineEnd_append more hline]
        exact h

/-! ## The boundary -/

/-- A stream whose `Recv` returns a piece of the bytes to come, with nothing
buffered in front of them, and which takes the writes of the handshake. -/
structure DirectLaws {σ : Type} [ChannelStream σ] (pending : σ → Bytes) (direct : σ → Prop) :
    Prop where
  recv_some {s s' : σ} {n : Nat} {bs : Bytes} : direct s →
    ChannelStream.recv s n = (some bs, s') → pending s = bs ++ pending s' ∧ direct s'
  send_fst (s : σ) (bs : Bytes) : direct s → 0 ≤ (ChannelStream.send s bs).1
  pending_send (s : σ) (bs : Bytes) : pending (ChannelStream.send s bs).2 = pending s
  recv_send (s : σ) (bs : Bytes) (n : Nat) :
    (ChannelStream.recv (ChannelStream.send s bs).2 n).1 = (ChannelStream.recv s n).1
  direct_send (s : σ) (bs : Bytes) : direct s → direct (ChannelStream.send s bs).2

/-- A socket stream that has read nothing into its buffer, and whose writes do not
fail. -/
theorem SocketStream.directLaws : DirectLaws SocketStream.pending
    (fun s => s.socketBuffer.available = 0 ∧ .fail ∉ s.socket.outcomes) where
  recv_some := by
    rintro s s' n bs ⟨hempty, hout⟩ h
    rcases hr : s.socket.recv n with ⟨ret, socket⟩
    have hs : (ret, { s with socket := socket }) = (some bs, s') := by
      rw [← h]
      show _ = s.recv n
      rw [SocketStream.recv, hr]
    obtain ⟨rfl, rfl⟩ := Prod.mk.inj hs
    have hdata : s.socketBuffer.data = [] := by
      rw [← List.length_eq_zero_iff, SocketBuffer.data_length, hempty]
    have houtcomes := Socket.recv_outcomes s.socket n
    rw [hr] at houtcomes
    refine ⟨?_, hempty, by rwa [houtcomes]⟩
    rw [SocketStream.pending, SocketStream.pending, (Socket.recv_some hr).1, hdata]
    rfl
  send_fst := by
    rintro s bs ⟨-, hout⟩
    show 0 ≤ (s.socket.send bs).1
    unfold Socket.send
    split
    · exact Int.natCast_nonneg _
    · rename_i os heq
      rw [heq] at hout
      exact absurd (List.mem_cons_self ..) hout
    · exact Int.natCast_nonneg _
  pending_send := by
    intro s bs
    show s.socketBuffer.data ++ (s.socket.send bs).2.unread = s.pending
    rw [Socket.send_unread]
    rfl
  recv_send := by
    intro s bs n
    exact Socket.recv_send_fst s.socket bs n
  direct_send := by
    rintro s bs ⟨hempty, hout⟩
    refine ⟨hempty, ?_⟩
    show .fail ∉ (s.socket.send bs).2.outcomes
    unfold Socket.send
    split
    · assumption
    · rename_i os heq
      rw [heq] at hout
      exact fun h => hout (List.mem_cons_of_mem _ h)
    · rename_i n os heq
      rw [heq] at hout
      exact fun h => hout (List.mem_cons_of_mem _ h)

section

variable {σ : Type} [ChannelStream σ] {pending : σ → Bytes} {direct : σ → Prop}

/-- The result of the first read of the handshake. -/
def firstRead (stream : σ) : Bytes := ((ChannelStream.recv stream bufferSize).1).getD []

/-- Over a socket the first read is the first segment, cut off at 1024 bytes. -/
theorem firstRead_socketStream (s : SocketStream) :
    firstRead s = ((s.socket.incoming.head?.map Subtype.val).getD []).take bufferSize := by
  show ((s.socket.recv bufferSize).1).getD [] = _
  unfold Socket.recv
  cases hin : s.socket.incoming with
  | nil => cases s.socket.broken <;> rfl
  | cons seg rest =>
    by_cases h : bufferSize < seg.val.length
    · simp only [dif_pos h, Option.getD_some, List.head?_cons, Option.map_some]
    · simp only [dif_neg h, Option.getD_some, List.head?_cons, Option.map_some]
      exact (List.take_of_length_le (Nat.le_of_not_lt h)).symm

/-- One read leaves exactly `rest` iff it returned all that is in front of it. -/
theorem firstRead_eq_iff (laws : DirectLaws pending direct) {s : σ} (hd : direct s)
    {message rest : Bytes} (hne : message ≠ []) (hs : pending s = message ++ rest) :
    firstRead s = message ↔ ∃ b bs s', ChannelStream.recv s bufferSize = (some (b :: bs), s') ∧
      message = b :: bs ∧ pending s' = rest := by
  unfold firstRead
  rcases hr : ChannelStream.recv s bufferSize with ⟨_ | bs, s'⟩
  · refine ⟨fun h => absurd h.symm hne, ?_⟩
    rintro ⟨b, bs, t, h, -⟩
    cases h
  · obtain ⟨hsplit, -⟩ := laws.recv_some hd hr
    rw [hs] at hsplit
    constructor
    · intro h
      have h : bs = message := h
      cases bs with
      | nil => exact absurd h.symm hne
      | cons b bs =>
        rw [← h] at hsplit
        exact ⟨b, bs, s', rfl, h.symm, (List.append_cancel_left hsplit).symm⟩
    · rintro ⟨b, bs', t, h, hm, -⟩
      cases h
      exact hm.symm

/-- A read that leaves `rest` returned the message. -/
theorem eq_of_recv (laws : DirectLaws pending direct) {s s' : σ} (hd : direct s)
    {message rest read : Bytes} (hs : pending s = message ++ rest)
    (hr : ChannelStream.recv s bufferSize = (some read, s')) (hrest : pending s' = rest) :
    message = read := by
  have hsplit := (laws.recv_some hd hr).1
  rw [hs, hrest] at hsplit
  exact List.append_cancel_right hsplit

/-- The client's side: the first read, whatever it returns. -/
theorem checkWebSocketHandshake_iff (laws : DirectLaws pending direct) {s : σ} (hd : direct s)
    {message rest : Bytes} (hne : message ≠ []) (hs : pending s = message ++ rest) :
    (checkWebSocketHandshake s).1 = .ok () ∧ pending (checkWebSocketHandshake s).2 = rest ↔
      firstRead s = message := by
  rw [firstRead_eq_iff laws hd hne hs, checkWebSocketHandshake]
  rcases hr : ChannelStream.recv s bufferSize with ⟨_ | _ | ⟨b, bs⟩, s'⟩
  · exact ⟨fun h => (by cases h.1), fun ⟨_, _, _, h, _⟩ => (by cases h)⟩
  · exact ⟨fun h => (by cases h.1), fun ⟨_, _, _, h, _⟩ => (by cases h)⟩
  · constructor
    · rintro ⟨-, hrest⟩
      exact ⟨b, bs, s', rfl, eq_of_recv laws hd hs hr hrest, hrest⟩
    · rintro ⟨_, _, _, h, -, hrest⟩
      cases h
      exact ⟨rfl, hrest⟩

theorem pending_sendHandshake (laws : DirectLaws pending direct) (sha1 : Bytes → Bytes)
    (request : Bytes) (s : σ) : pending (sendHandshake sha1 request s).2 = pending s := by
  unfold sendHandshake
  split
  · rfl
  · dsimp only
    split <;> exact laws.pending_send _ _

/-- The server's side, for a message that is a request. -/
theorem responseWebSocketHandshake_iff (laws : DirectLaws pending direct) (sha1 : Bytes → Bytes)
    (junk : Bytes) {s : σ} (hd : direct s) {message rest key : Bytes} (hne : message ≠ [])
    (hkey : getHttpHeader message (ascii "Sec-WebSocket-Key: ") 82 = .ok key)
    (hs : pending s = message ++ rest) :
    (responseWebSocketHandshake sha1 junk s).1 = .ok () ∧
        pending (responseWebSocketHandshake sha1 junk s).2 = rest ↔
      firstRead s = message := by
  rw [firstRead_eq_iff laws hd hne hs, responseWebSocketHandshake]
  rcases hr : ChannelStream.recv s bufferSize with ⟨_ | _ | ⟨b, bs⟩, s'⟩
  · exact ⟨fun h => (by cases h.1), fun ⟨_, _, _, h, _⟩ => (by cases h)⟩
  · exact ⟨fun h => (by cases h.1), fun ⟨_, _, _, h, _⟩ => (by cases h)⟩
  · simp only
    rw [pending_sendHandshake laws]
    constructor
    · rintro ⟨-, hrest⟩
      exact ⟨b, bs, s', rfl, eq_of_recv laws hd hs hr hrest, hrest⟩
    · rintro ⟨_, _, _, h, hm, hrest⟩
      cases h
      refine ⟨?_, hrest⟩
      -- the request is accepted with whatever the buffer held behind it
      have hfound := getHttpHeader_append (junk.drop (b :: bs).length) hkey
      rw [hm] at hfound
      have hret := laws.send_fst s' (store handshakeMsg handshakeHead.length
        (base64Encode (sha1 (key ++ webSocketGlobalGuid)))) (laws.recv_some hd hr).2
      simp only [sendHandshake, hfound, Int.not_lt.mpr hret, if_false]

end

/-- **The handshake boundary.** On either side, over any stream: the handshake
returns and leaves exactly what is behind the peer's message if and only if the
first `Recv` of up to 1024 bytes returns exactly that message. On the server's
side the message is a request that `GetHttpHeader` finds the key in. -/
theorem initHandshake_boundary_iff {σ : Type} [ChannelStream σ] {pending : σ → Bytes}
    {direct : σ → Prop} (laws : DirectLaws pending direct) (isServer : Bool)
    (sha1 : Bytes → Bytes) (junk host uri : Bytes) {s : σ} (hd : direct s) {message rest : Bytes}
    (hne : message ≠ [])
    (hrequest : isServer = true →
      ∃ key, getHttpHeader message (ascii "Sec-WebSocket-Key: ") 82 = .ok key)
    (hs : pending s = message ++ rest) :
    (initHandshake isServer sha1 junk host uri s).1 = .ok () ∧
        pending (initHandshake isServer sha1 junk host uri s).2 = rest ↔
      firstRead s = message := by
  cases isServer with
  | true =>
    obtain ⟨key, hkey⟩ := hrequest rfl
    exact responseWebSocketHandshake_iff laws sha1 junk hd hne hkey hs
  | false =>
    -- the request goes out first and leaves the peer's bytes alone
    have hret := laws.send_fst s ((handshakeMsgFormat host uri).take (1024 - 1)) hd
    have hinit : initHandshake false sha1 junk host uri s = checkWebSocketHandshake
        (ChannelStream.send s ((handshakeMsgFormat host uri).take (1024 - 1))).2 := by
      simp only [initHandshake, requestWebSocketHandshake, Bool.false_eq_true, if_false,
        Int.not_lt.mpr hret]
    have hfirst : firstRead (ChannelStream.send s
        ((handshakeMsgFormat host uri).take (1024 - 1))).2 = firstRead s := by
      rw [firstRead, laws.recv_send, firstRead]
    rw [hinit, ← hfirst]
    exact checkWebSocketHandshake_iff laws (laws.direct_send s _ hd) hne
      (by rw [laws.pending_send, hs])

/-- The request in one piece and a first frame behind it in the next. -/
theorem initHandshake_boundary_iff_separate :
    let message := ascii "GET / HTTP/1.1\r\nSec-WebSocket-Key: I28w97h3i3dkMdxGpUF+sA==\r\n\r\n"
    let s : SocketStream := .ofSocket
      ⟨[⟨message, by decide +kernel⟩, ⟨[0x82, 0], by decide +kernel⟩], false, [], []⟩ .clientToPado
    (initHandshake true (fun _ => []) [] [] [] s).1 = .ok () ∧
      (initHandshake true (fun _ => []) [] [] [] s).2.pending = [0x82, 0] := by
  intro message s
  exact (initHandshake_boundary_iff SocketStream.directLaws true (fun _ => []) [] [] []
    ⟨rfl, by decide +kernel⟩ (show message ≠ [] by decide +kernel)
    (fun _ => ⟨ascii "I28w97h3i3dkMdxGpUF+sA==", by decide +kernel⟩)
    (show s.pending = message ++ [0x82, 0] by decide +kernel)).mpr (by decide +kernel)

/-- A frame of two bytes right behind the handshake message. Coalesced with it, the
frame is dropped, on the server's and on the client's side; and where the message is
cut before its blank line, the rest of it is left to be parsed as frames. -/
theorem initHandshake_crosses_boundary :
    let request := ascii "GET / HTTP/1.1\r\nSec-WebSocket-Key: I28w97h3i3dkMdxGpUF+sA==\r\n\r\n"
    let frame : Bytes := [0x82, 0]
    let stream (pieces : List Segment) : SocketStream :=
      .ofSocket ⟨pieces, false, [], []⟩ .clientToPado
    let coalesced := stream [⟨request ++ frame, by decide +kernel⟩]
    let answered := stream [⟨handshakeMsg ++ frame, by decide +kernel⟩]
    let cut := stream [⟨request.dropLast, by decide +kernel⟩, ⟨10 :: frame, by decide +kernel⟩]
    ((initHandshake true (fun _ => []) [] [] [] coalesced).1 = .ok () ∧
      (initHandshake true (fun _ => []) [] [] [] coalesced).2.pending = []) ∧
    ((initHandshake false (fun _ => []) [] [] [] answered).1 = .ok () ∧
      (initHandshake false (fun _ => []) [] [] [] answered).2.pending = []) ∧
    ((initHandshake true (fun _ => []) [] [] [] cut).1 = .ok () ∧
      (initHandshake true (fun _ => []) [] [] [] cut).2.pending = 10 :: frame) := by
  decide +kernel

end ZktlsNet
