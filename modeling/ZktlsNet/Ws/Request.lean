import ZktlsNet.Ws.HeaderSearch
import ZktlsNet.Ws.Url

/-!
# The client's request (`ws.cpp:249-276`, `websocket_io_channel.cpp:102-123`)

Both `Init` functions parse the URL and call `RequestWebSocketHandshake` with the fields
`host` and `uri` of the result, in this order; this puts the two that `parse_url` exchanged
back in their places. `snprintf` then cuts the request to a buffer of 1024 bytes.

- `httpRequest`: the request as HTTP has it, line by line.
- `initClient_sends`: what is sent is its beginning.
- `getHttpHeader_httpRequest_iff`: the server finds the key in the request, unless the
  path has the name of the header in it.
- `fullRequest_iff`: the URLs for which the request is complete and acceptable.
-/

namespace ZktlsNet

open NetLib

/-! ## The request -/

/-- The value of `Sec-WebSocket-Key`. -/
def keyValue : Bytes := ascii "I28w97h3i3dkMdxGpUF+sA=="

/-- The request line and the headers. -/
def requestLines (path host : Bytes) : List Bytes :=
  [ascii "GET " ++ path ++ ascii " HTTP/1.1",
    ascii "Host: " ++ host,
    ascii "User-Agent: Mozilla/5.0 (X11; Ubuntu; Linux x86_64; rv:109.0) " ++
      ascii "Gecko/20100101 Firefox/110.0",
    ascii "Accept: */*",
    ascii "Accept-Language: en-US,en;q=0.5",
    ascii "Accept-Encoding: gzip, deflate, br",
    ascii "Sec-WebSocket-Version: 13",
    ascii "Sec-WebSocket-Extensions: permessage-deflate",
    keyHeader ++ keyValue,
    ascii "Connection: keep-alive, Upgrade",
    ascii "Sec-Fetch-Dest: websocket",
    ascii "Sec-Fetch-Mode: websocket",
    ascii "Sec-Fetch-Site: same-site",
    ascii "Pragma: no-cache",
    ascii "Cache-Control: no-cache",
    ascii "Upgrade: websocket"]

/-- The lines, each with its end, and an empty one. -/
def httpRequest (path host : Bytes) : Bytes :=
  (requestLines path host).flatMap (· ++ [13, 10]) ++ [13, 10]

/-- The headers behind the line end of `Host`. -/
def requestTail : Bytes := 10 :: ((requestLines [] []).drop 2).flatMap (· ++ [13, 10]) ++ [13, 10]

theorem httpRequest_eq (path host : Bytes) :
    httpRequest path host = (ascii "GET " ++ path ++ ascii " HTTP/1.1") ++
      13 :: ((10 :: (ascii "Host: " ++ host)) ++ 13 :: requestTail) := by
  have htail : requestTail =
      10 :: (((requestLines path host).drop 2).flatMap (· ++ [13, 10]) ++ [13, 10]) := rfl
  rw [htail, httpRequest, requestLines]
  simp only [List.flatMap_cons, List.append_assoc, List.cons_append, List.nil_append,
    List.drop_succ_cons, List.drop_zero]

/-- **The format string** is the request, line by line. -/
theorem handshakeMsgFormat_eq (path host : Bytes) :
    handshakeMsgFormat path host = httpRequest path host := by
  have hfirst : ascii " HTTP/1.1\r\nHost: " =
      ascii " HTTP/1.1" ++ 13 :: 10 :: ascii "Host: " := by
    decide +kernel
  have htail : handshakeMsgFormat [] [] =
      ascii "GET " ++ (ascii " HTTP/1.1\r\nHost: " ++ 13 :: requestTail) := by
    decide +kernel
  rw [httpRequest_eq]
  simp only [handshakeMsgFormat, List.append_assoc, List.nil_append,
    List.append_cancel_left_eq] at htail ⊢
  rw [htail, hfirst]
  simp

theorem httpRequest_length (path host : Bytes) :
    (httpRequest path host).length = path.length + host.length + 494 := by
  have htail : requestTail.length = 472 := by decide +kernel
  have hget : (ascii "GET ").length = 4 := by decide +kernel
  have hversion : (ascii " HTTP/1.1").length = 9 := by decide +kernel
  have hname : (ascii "Host: ").length = 6 := by decide +kernel
  rw [httpRequest_eq]
  simp only [List.length_append, List.length_cons, htail, hget, hversion, hname]
  omega

/-! ## What is sent -/

section

variable {σ : Type} [ChannelStream σ]

/-- The bytes of a string up to its `NUL`, as `c_str()` hands them on. -/
def cStr (s : Bytes) : Bytes := s.takeWhile (· != 0)

/-- The client's handshake in either `Init`, with the parsed URL. -/
def initClient (ipPort : IpPort) (stream : σ) : Res Unit × σ :=
  initHandshake false (fun _ => []) [] (cStr ipPort.host) (cStr ipPort.uri) stream

/-- `calls` are the buffers that `Send` has been called with. -/
structure SendCalls (calls : σ → List Bytes) : Prop where
  calls_send (s : σ) (bs : Bytes) : calls (ChannelStream.send s bs).2 = calls s ++ [bs]
  calls_recv (s : σ) (n : Nat) : calls (ChannelStream.recv s n).2 = calls s

theorem SocketStream.sendCalls :
    SendCalls fun s : SocketStream => s.socket.log.map Prod.fst where
  calls_send s bs := by
    show (s.socket.send bs).2.log.map Prod.fst = _
    rw [Socket.send_log, List.map_append]
    rfl
  calls_recv s n := by
    show (s.recv n).2.socket.log.map Prod.fst = _
    have h := s.socket.recv_log n
    rw [SocketStream.recv]
    exact congrArg (List.map Prod.fst) h

variable {calls : σ → List Bytes}

/-- **The client sends one buffer**, the first 1023 bytes of the request. -/
theorem initClient_sends (laws : SendCalls calls) (ipPort : IpPort) (s : σ) :
    calls (initClient ipPort s).2 = calls s ++
      [(httpRequest (cStr ipPort.host) (cStr ipPort.uri)).take 1023] := by
  have hsend := laws.calls_send s
    ((httpRequest (cStr ipPort.host) (cStr ipPort.uri)).take 1023)
  rw [initClient, initHandshake, if_neg (by decide), requestWebSocketHandshake,
    handshakeMsgFormat_eq]
  generalize ChannelStream.send s _ = result at hsend ⊢
  obtain ⟨ret, stream⟩ := result
  dsimp only at hsend ⊢
  by_cases hret : ret < 0
  · rw [if_pos hret]
    exact hsend
  · rw [if_neg hret]
    -- the answer is received and not looked at
    have hrecv := laws.calls_recv stream bufferSize
    dsimp only
    rw [checkWebSocketHandshake]
    split <;> simp_all

end

/-! ## The key in the request -/

/-- The name of the header does not reach across the blanks of the request line. -/
theorem keyHeader_infix_requestLine (path : Bytes) :
    keyHeader <:+: ascii "GET " ++ path ++ ascii " HTTP/1.1" ↔ keyHeader <:+: path ++ [32] := by
  have hget : ascii "GET " = ascii "GET" ++ [32] := by decide +kernel
  have hversion : ascii " HTTP/1.1" = 32 :: ascii "HTTP/1.1" := by decide +kernel
  have hkey : keyHeader = ascii "Sec-WebSocket-Key:" ++ [32] := by decide +kernel
  have hblank : 32 ∉ ascii "Sec-WebSocket-Key:" := by decide +kernel
  have hleft : ¬ ascii "Sec-WebSocket-Key:" ++ [32] <:+: ascii "GET" ++ [32] := by decide +kernel
  have hright : ¬ ascii "Sec-WebSocket-Key:" ++ [32] <:+: ascii "HTTP/1.1" := by decide +kernel
  rw [hget, hversion, hkey, List.append_assoc, List.append_assoc, List.singleton_append,
    infix_snoc_append (a := ascii "GET") hblank, infix_snoc_append (a := path) hblank]
  simp only [hleft, hright, false_or, or_false]

section

variable {path host : Bytes} (hpath : ∀ c ∈ path, c ≠ 13 ∧ c ≠ 10 ∧ c ≠ 0)
include hpath

/-- The request line is one line. -/
theorem requestLine_no_end :
    ∀ c ∈ ascii "GET " ++ path ++ ascii " HTTP/1.1", c ≠ 13 ∧ c ≠ 10 ∧ c ≠ 0 := by
  have hget : ∀ c ∈ ascii "GET ", c ≠ 13 ∧ c ≠ 10 ∧ c ≠ 0 := by decide +kernel
  have hversion : ∀ c ∈ ascii " HTTP/1.1", c ≠ 13 ∧ c ≠ 10 ∧ c ≠ 0 := by decide +kernel
  intro c hc
  simp only [List.mem_append] at hc
  obtain (hc | hc) | hc := hc
  · exact hget c hc
  · exact hpath c hc
  · exact hversion c hc

/-- Where the path does not have the name of the header in it, the first line with it is
its own. -/
theorem getHttpHeader_httpRequest (hhost : ∀ c ∈ host, isDigit c = true ∨ c = 46)
    (hno : ¬ keyHeader <:+: path ++ [32]) :
    getHttpHeader (httpRequest path host) keyHeader ((128 + 37) / 2) = .ok keyValue := by
  have htail : getHttpHeader requestTail keyHeader ((128 + 37) / 2) = .ok keyValue := by
    decide +kernel
  have hnul : 0 ∉ ascii "GET " ++ path ++ ascii " HTTP/1.1" :=
    fun h => (requestLine_no_end hpath 0 h).2.2 rfl
  have hline (c : UInt8) (hc : c ∈ 10 :: (ascii "Host: " ++ host)) : c ≠ 83 ∧ c ≠ 0 := by
    have hname : ∀ c ∈ 10 :: ascii "Host: ", c ≠ 83 ∧ c ≠ 0 := by decide +kernel
    rw [← List.cons_append, List.mem_append] at hc
    obtain hc | hc := hc
    · exact hname c hc
    · obtain h | rfl := hhost c hc
      · constructor <;> (rintro rfl; exact absurd h (by decide))
      · decide
  have hhostLine : ¬ keyHeader <:+: 10 :: (ascii "Host: " ++ host) := by
    intro h
    have hs : (83 : UInt8) ∈ keyHeader := by decide +kernel
    exact (hline 83 (h.subset hs)).1 rfl
  have h13 : (13 : UInt8) ∉ keyHeader := by decide +kernel
  rw [getHttpHeader, httpRequest_eq,
    strstr_append_cons keyHeader_ne _ h13 (by decide) hnul
      (mt (keyHeader_infix_requestLine path).mp hno),
    strstr_append_cons keyHeader_ne _ h13 (by decide) (fun h => (hline 0 h).2 rfl) hhostLine]
  exact htail

/-- Where it does, the value found is what is behind it on the request line. -/
theorem getHttpHeader_httpRequest_of_infix (hyes : keyHeader <:+: path ++ [32]) :
    getHttpHeader (httpRequest path host) keyHeader ((128 + 37) / 2) ≠ .ok keyValue := by
  rw [← keyHeader_infix_requestLine] at hyes
  have hclean := requestLine_no_end hpath
  have hlast : (ascii "GET " ++ path ++ ascii " HTTP/1.1").getLast? = some 49 := by
    have hversion : (ascii " HTTP/1.1").getLast? = some 49 := by decide +kernel
    rw [List.getLast?_append, hversion]
    rfl
  rw [getHttpHeader, httpRequest_eq, strstr_eq keyHeader_ne]
  generalize ascii "GET " ++ path ++ ascii " HTTP/1.1" = line at hyes hclean hlast ⊢
  cases hfirst : firstAt keyHeader line with
  | none => exact absurd hyes (firstAt_eq_none_iff.mp hfirst)
  | some i =>
    obtain ⟨before, value, rfl, rfl, -⟩ := firstAt_eq_some hfirst
    rw [firstAt_append _ hfirst]
    have hnul : 0 ∉ before := fun h =>
      (hclean 0 (List.mem_append_left _ (List.mem_append_left _ h))).2.2 rfl
    have hvalue : ∀ x ∈ value, x ≠ 13 ∧ x ≠ 10 ∧ x ≠ 0 := fun x hx =>
      hclean x (List.mem_append_right _ hx)
    simp only [List.append_assoc, List.take_left, hnul, if_false, List.drop_left, ok_bind,
      untilLineEnd_append_cons (.inl rfl) _ hvalue, pure_eq_ok, ne_eq, Except.ok.injEq]
    -- the value found ends with the version of the protocol
    intro htake
    have hkeyLength : keyValue.length = 24 := by decide +kernel
    have hlen := congrArg List.length htake
    rw [List.length_take, hkeyLength] at hlen
    rw [List.take_of_length_le (by omega)] at htake
    have hkeyLast : keyValue.getLast? = some 61 := by decide +kernel
    rw [htake, List.getLast?_append, hkeyLast] at hlast
    exact absurd (Option.some.inj hlast) (by decide)

end

/-! ## Complete and acceptable requests -/

section

variable {σ : Type} [ChannelStream σ]

/-- What `SendHandshake` answers a request with the given key. -/
def handshakeAnswer (sha1 : Bytes → Bytes) (key : Bytes) : Bytes :=
  store handshakeMsg handshakeHead.length (base64Encode (sha1 (key ++ webSocketGlobalGuid)))

/-- The client sends the request for the path and the host, in one piece, and a server
that has received it finds the key and answers it, whatever its memory holds behind. -/
structure FullRequest (calls : σ → List Bytes) (ipPort : IpPort) (path host : Bytes) (s : σ) :
    Prop where
  sent : calls (initClient ipPort s).2 = calls s ++ [httpRequest path host]
  found : ∀ more, getHttpHeader (httpRequest path host ++ more) keyHeader ((128 + 37) / 2) =
    .ok keyValue
  answered : ∀ sha1 more (t : σ),
    calls (sendHandshake sha1 (httpRequest path host ++ more) t).2 =
      calls t ++ [handshakeAnswer sha1 keyValue]

theorem sendHandshake_answers {calls : σ → List Bytes} (laws : SendCalls calls)
    (sha1 : Bytes → Bytes) {request key : Bytes}
    (hkey : getHttpHeader request keyHeader ((128 + 37) / 2) = .ok key) (t : σ) :
    calls (sendHandshake sha1 request t).2 = calls t ++ [handshakeAnswer sha1 key] := by
  have hsend := laws.calls_send t (handshakeAnswer sha1 key)
  rw [sendHandshake, hkey]
  dsimp only
  rw [← handshakeAnswer]
  generalize ChannelStream.send t _ = result at hsend ⊢
  obtain ⟨err, stream⟩ := result
  split <;> exact hsend

theorem cStr_eq {s : Bytes} (h : ∀ c ∈ s, c ≠ 0) : cStr s = s := by
  rw [cStr, List.takeWhile_eq_self_iff]
  intro c hc
  simpa using h c hc

/-- The fields are exchanged, and the call exchanges them back: what is sent is the
beginning of the request for the path and the host of the URL. -/
theorem initClient_sends_url {calls : σ → List Bytes} (laws : SendCalls calls)
    (lookupHost : Bytes → Res (List Bytes)) {u : Url} {ipPort : IpPort}
    (hparse : parseUrl lookupHost u.compose = .ok ipPort)
    (hhost : ∀ c ∈ u.host, isDigit c = true ∨ c = 46)
    (hpath : ∀ c ∈ u.uri, c ≠ 13 ∧ c ≠ 10 ∧ c ≠ 0) (s : σ) :
    calls (initClient ipPort s).2 = calls s ++ [(httpRequest u.uri u.host).take 1023] := by
  rw [parseUrl_compose lookupHost u hhost, IpPort.new] at hparse
  have hfields : ipPort.host = u.uri ∧ ipPort.uri = u.host := by
    split at hparse
    · cases hparse
      exact ⟨rfl, rfl⟩
    · cases hparse
  have hcHost : cStr u.host = u.host := by
    refine cStr_eq fun c hc => ?_
    rintro rfl
    exact absurd (hhost 0 hc) (by decide)
  rw [initClient_sends laws, hfields.1, hfields.2, cStr_eq fun c hc => (hpath c hc).2.2, hcHost]

/-- **The URLs with a complete and acceptable request.** For a URL that `parse_url`
accepts, with a host of digits and dots and a path of one line: path and host together
have at most 529 bytes, and the path does not have the name of the key's header in it. -/
theorem fullRequest_iff {calls : σ → List Bytes} (laws : SendCalls calls)
    (lookupHost : Bytes → Res (List Bytes)) {url : Bytes} {ipPort : IpPort}
    (hparse : parseUrl lookupHost url = .ok ipPort) (s : σ) :
    (∃ u : Url, u.compose = url) ∧
    ∀ u : Url, u.compose = url → (∀ c ∈ u.host, isDigit c = true ∨ c = 46) →
      (∀ c ∈ u.uri, c ≠ 13 ∧ c ≠ 10 ∧ c ≠ 0) →
      (FullRequest calls ipPort u.uri u.host s ↔
        u.uri.length + u.host.length ≤ 529 ∧ ¬ keyHeader <:+: u.uri ++ [32]) := by
  refine ⟨exists_url_of_accepted hparse, ?_⟩
  rintro u rfl hhost hpath
  have hsends := initClient_sends_url laws lookupHost hparse hhost hpath s
  have hlength := httpRequest_length u.uri u.host
  constructor
  · intro hfull
    have hsent := hfull.sent
    rw [hsends, List.append_cancel_left_eq, List.cons.injEq] at hsent
    have hcut := congrArg List.length hsent.1
    rw [List.length_take] at hcut
    have hfound := hfull.found []
    rw [List.append_nil] at hfound
    exact ⟨by omega, fun hyes => getHttpHeader_httpRequest_of_infix hpath hyes hfound⟩
  · rintro ⟨hle, hno⟩
    have hfound (more : Bytes) :=
      getHttpHeader_append more (getHttpHeader_httpRequest hpath hhost hno)
    constructor
    · rw [hsends, List.take_of_length_le (by omega)]
    · exact hfound
    · intro sha1 more t
      exact sendHandshake_answers laws sha1 (hfound more) t

/-- The request for `ws://1.2.3.4:80/a`. -/
theorem fullRequest_iff_short :
    let s : SocketStream := .ofSocket (.ofBytes []) .clientToPado
    FullRequest (fun s : SocketStream => s.socket.log.map Prod.fst)
      ⟨.ws, ascii "1.2.3.4", 80, ascii "1.2.3.4", ascii "/a"⟩ (ascii "/a") (ascii "1.2.3.4") s := by
  intro s
  let u : Url := ⟨ascii "ws", ascii "1.2.3.4", some (ascii "80"), some (ascii "a"),
    by decide +kernel, by decide +kernel, by decide +kernel⟩
  have hparse : parseUrl (fun _ => .ok []) u.compose =
      .ok ⟨.ws, ascii "1.2.3.4", 80, ascii "1.2.3.4", ascii "/a"⟩ := by
    decide +kernel
  exact ((fullRequest_iff SocketStream.sendCalls (fun _ => .ok []) hparse s).2 u rfl
    (by decide +kernel) (by decide +kernel)).mpr (by decide +kernel)

/-- With a path of 600 characters the end of the request is missing: the last headers behind
the key, from `Sec-Fetch-Site` on, and the empty line. With the name of the header in the path
the server takes a piece of the request line for the key. -/
theorem request_incomplete :
    let s : SocketStream := .ofSocket (.ofBytes []) .clientToPado
    let calls : SocketStream → List Bytes := fun s => s.socket.log.map Prod.fst
    let long := ascii "/" ++ List.replicate 600 97
    let naming := ascii "/?Sec-WebSocket-Key: x"
    let parsed (path : Bytes) : IpPort := ⟨.ws, ascii "1.2.3.4", 443, ascii "1.2.3.4", path⟩
    (parseUrl (fun _ => .ok []) (ascii "ws://1.2.3.4" ++ long) = .ok (parsed long) ∧
      ¬ FullRequest calls (parsed long) long (ascii "1.2.3.4") s) ∧
    (parseUrl (fun _ => .ok []) (ascii "ws://1.2.3.4" ++ naming) = .ok (parsed naming) ∧
      ¬ FullRequest calls (parsed naming) naming (ascii "1.2.3.4") s) := by
  intro s calls long naming parsed
  refine ⟨⟨by decide +kernel, fun h => ?_⟩, ⟨by decide +kernel, fun h => ?_⟩⟩
  · have hsent := congrArg (fun bufs => bufs.map List.length) h.sent
    revert hsent
    decide +kernel
  · have hfound := h.found []
    revert hfound
    decide +kernel

end

end ZktlsNet
