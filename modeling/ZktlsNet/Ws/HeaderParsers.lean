import ZktlsNet.Ws.Acceptance

/-!
# Headers written, and headers read twice (`ws.cpp:104-200`, `ws.cpp:325-348`)

A frame header is written by `GenWebSocketHeader` and read from the stream by
`RecvMessageHeader`. A second family of functions takes it out of bytes that have been
received already: `WebSocketHasFullHeader` tells whether there are enough of them, and
four others take the header apart.

- `genWebSocketHeader_roundTrip`: what is written is the shortest header RFC 6455 allows,
  and what is read back from it.
- `webSocketHasFullHeader_eq`: with the two long encodings of the length two bytes are
  enough for the answer to be yes.
- `parsersAgree_iff`: the received bytes on which both families agree.
-/

namespace ZktlsNet

open NetLib

/-! ## Round trip -/

theorem maskBytes_ofLE (maskData : Option UInt32) :
    ((maskData.map maskBytes).map fun k => ofLE k.val) = maskData.map UInt32.toNat := by
  cases maskData with
  | none => rfl
  | some m => exact congrArg some (ofLE_maskBytes m)

theorem shortestLength_length (n : Nat) :
    (shortestLength n).2.length = if n < 126 then 0 else if n ≤ 65535 then 2 else 8 := by
  unfold shortestLength
  split
  · rfl
  · split <;> exact toBE_length ..

/-- The header behind its first byte, with the bytes of the key as they are in memory. -/
theorem lengthAndKey_maskBytes (n : Nat) (maskData : Option UInt32) :
    lengthAndKey (maskData.map maskBytes) n = second maskData.isSome (shortestLength n).1 ::
      ((shortestLength n).2 ++ (maskData.map fun m => toLE 4 m.toNat).getD []) := by
  have hsome : (maskData.map maskBytes).isSome = maskData.isSome := by
    cases maskData <;> rfl
  have hkey : ((maskData.map maskBytes).map Subtype.val).getD [] =
      (maskData.map fun m => toLE 4 m.toNat).getD [] := by
    cases maskData <;> rfl
  rw [lengthAndKey_eq, hsome, hkey]

/-- What is written into a buffer of 14 zeros, and how much of it. -/
theorem genWebSocketHeader_zeroed (n : Nat) (maskData : Option UInt32) :
    let header := 0x82 :: lengthAndKey (maskData.map maskBytes) n
    let written := genWebSocketHeader (List.replicate 14 0) n (maskData.map UInt32.toNat)
    written.2.take written.1 = header ∧ written.2.length = 14 ∧ written.1 = header.length := by
  intro header written
  have hwritten : written = (header.length, store (List.replicate 14 0) 0 header) := by
    have h := @genWebSocketHeader_eq (List.replicate 14 0) n (maskData.map maskBytes)
      (by decide) (by decide)
    rwa [maskBytes_ofLE] at h
  have hlen := (lengthAndKey_length (maskData.map maskBytes) n).2
  have hfits : header.length ≤ 14 := by
    rw [List.length_cons]
    split at hlen <;> omega
  refine ⟨?_, ?_, by rw [hwritten]⟩
  · rw [hwritten]
    exact List.take_left
  · rw [hwritten, store_length (by simpa using hfits), List.length_replicate]

/-- **Round trip.** In a zeroed buffer the header of a payload of any 64-bit size, with
or without a key, has 2, 4 or 10 bytes and four more for the key. It announces the size
in the fewest bytes that RFC 6455 has for it, in network byte order, and reading from a
stream that starts with these bytes consumes them and returns what they were written
from. -/
theorem genWebSocketHeader_roundTrip {σ : Type} [ChannelStream σ] {pending : σ → Bytes}
    (laws : RecvLaws pending) (numBytes : UInt64) (maskData : Option UInt32) :
    let n := numBytes.toNat
    let written := genWebSocketHeader (List.replicate 14 0) n (maskData.map UInt32.toNat)
    let key : Bytes := (maskData.map fun m => toLE 4 m.toNat).getD []
    ∃ len7 ext, written.2.take written.1 = 0x82 :: second maskData.isSome len7 :: (ext ++ key) ∧
      written.2.length = 14 ∧
      written.1 = (if n < 126 then 2 else if n ≤ 65535 then 4 else 10) +
        (if maskData.isSome then 4 else 0) ∧
      LengthEncoding n len7 ext ∧
      (∀ len7' ext', LengthEncoding n len7' ext' → ext.length ≤ ext'.length) ∧
      ∀ (s : σ) (rest : Bytes), pending s = written.2.take written.1 ++ rest →
        ∃ s', recvMessageHeader s =
            (.ok ⟨n, maskData.isSome, (maskData.map UInt32.toNat).getD 0⟩, s') ∧
          pending s' = rest := by
  intro n written key
  have hlt : n < 2 ^ 64 := numBytes.toNat_lt
  obtain ⟨htake, hlength, hsize⟩ := genWebSocketHeader_zeroed n maskData
  have hbytes := lengthAndKey_maskBytes n maskData
  refine ⟨(shortestLength n).1, (shortestLength n).2, htake.trans (by rw [hbytes]), hlength, ?_,
    shortestLength_encodes hlt, fun _ _ => shortestLength_least, ?_⟩
  · have hkeylen : ((maskData.map fun m => toLE 4 m.toNat).getD []).length =
        if maskData.isSome then 4 else 0 := by
      cases maskData with
      | none => rfl
      | some m => exact toLE_length ..
    have hextended : 2 + (shortestLength n).2.length =
        if n < 126 then 2 else if n ≤ 65535 then 4 else 10 := by
      rw [shortestLength_length]
      split
      · rfl
      · split <;> rfl
    refine hsize.trans ?_
    rw [hbytes, List.length_cons, List.length_cons, List.length_append, hkeylen, ← hextended]
    omega
  · intro s rest hs
    rw [htake] at hs
    have h := recvMessageHeader_spec laws hlt hs
    rwa [Option.isSome_map, maskBytes_ofLE] at h

/-- A size just above 16 bits, with a key. -/
theorem genWebSocketHeader_roundTrip_long :
    let s : SocketStream := .ofSocket
      (.ofBytes [0x82, 0xFF, 0, 0, 0, 0, 0, 1, 0, 0, 1, 2, 3, 4, 7]) .clientToPado
    ∃ s', recvMessageHeader s = (.ok ⟨65536, true, 0x04030201⟩, s') ∧ s'.pending = [7] := by
  intro s
  obtain ⟨_, _, _, _, _, _, _, hread⟩ :=
    genWebSocketHeader_roundTrip SocketStream.recvLaws 65536 (some 0x04030201)
  exact hread s [7] (by decide)

/-! ## Headers in received bytes -/

/-- `n` bytes behind the pointer `data + off`. -/
def readAt (data : Bytes) (off n : Nat) : Res Bytes :=
  if off + n ≤ data.length then .ok (slice data off n) else .error (.fault .outOfBounds)

/-- The bit-fields behind `(WebSocketMessageHeader*)data`. -/
def readHeader (data : Bytes) : Res WebSocketMessageHeader := do
  return .read (← readAt data 0 2)

/-- `WebSocketHasFullHeader`. The long encodings return their sum, which is a number that
is not zero. -/
def webSocketHasFullHeader (data : Bytes) (obtainedNumBytes : Nat) : Res Bool := do
  if obtainedNumBytes < 2 then return false
  let header ← readHeader data
  let expectedNumBytes := 2 + header.maskLength
  match header.payloadLength with
  | 127 => return expectedNumBytes + 8 != 0
  | 126 => return expectedNumBytes + 2 != 0
  | _ => return decide (expectedNumBytes ≤ obtainedNumBytes)

/-- `WebSocketFullMessageSize`; `none` where its assertion does not hold. -/
def webSocketFullMessageSize (data : Bytes) (obtainedNumBytes : Nat) : Res (Option Nat) := do
  if ← webSocketHasFullHeader data obtainedNumBytes then
    let header ← readHeader data
    let expectedNumBytes := 2 + header.maskLength
    match header.payloadLength with
    | 127 =>
      return some ((expectedNumBytes + (8 + ntoh64 (ofLE (← readAt data 2 8)))) % 2 ^ 64)
    | 126 => return some (expectedNumBytes + (2 + ntohs (ofLE (← readAt data 2 2))))
    | n => return some (expectedNumBytes + n)
  else return none

/-- `WebSocketMessagePayloadLength`. -/
def webSocketMessagePayloadLength (data : Bytes) (_numBytes : Nat) : Res Nat := do
  let header ← readHeader data
  match header.payloadLength with
  | 127 => return ntoh64 (ofLE (← readAt data 2 8))
  | 126 => return ntohs (ofLE (← readAt data 2 2))
  | n => return n

/-- `WebSocketMessageMaskingKey`. -/
def webSocketMessageMaskingKey (data : Bytes) (_numBytes : Nat) : Res Nat := do
  let header ← readHeader data
  if !header.isMasked then return 0
  match header.payloadLength with
  | 127 => return ofLE (← readAt data 10 4)
  | 126 => return ofLE (← readAt data 4 4)
  | _ => return ofLE (← readAt data 2 4)

/-- `WebSocketMessageData`: how far the returned pointer is behind `data`. -/
def webSocketMessageData (data : Bytes) (_numBytes : Nat) : Res Nat := do
  let header ← readHeader data
  let off := 2 + header.maskLength
  match header.payloadLength with
  | 127 => return off + 8
  | 126 => return off + 2
  | _ => return off

/-- How many bytes the header in front of `data` has. -/
def headerSize (data : Bytes) : Nat :=
  2 + ((WebSocketMessageHeader.read data).lengthSize +
    (WebSocketMessageHeader.read data).maskLength)

theorem payloadLength_cases (data : Bytes) :
    (WebSocketMessageHeader.read data).payloadLength < 126 ∨
      (WebSocketMessageHeader.read data).payloadLength = 126 ∨
      (WebSocketMessageHeader.read data).payloadLength = 127 := by
  have hlt : (WebSocketMessageHeader.read data).payloadLength < 128 := Nat.mod_lt _ (by decide)
  omega

/-- The fixed bytes are in the first two. -/
theorem read_take (data : Bytes) {n : Nat} (h : 2 ≤ n) :
    WebSocketMessageHeader.read (data.take n) = WebSocketMessageHeader.read data := by
  have hget (i : Nat) (hi : i < 2) : (data.take n).getD i 0 = data.getD i 0 := by
    rw [List.getD_eq_getElem?_getD, List.getElem?_take_of_lt (by omega),
      List.getD_eq_getElem?_getD]
  simp only [WebSocketMessageHeader.read, hget 0 (by decide), hget 1 (by decide)]

theorem slice_take {data : Bytes} {off len n : Nat} (h : off + len ≤ n) :
    slice (data.take n) off len = slice data off len := by
  rw [slice, slice, List.drop_take, List.take_take, Nat.min_eq_left (by omega)]

theorem readHeader_eq {data : Bytes} (h : 2 ≤ data.length) :
    readHeader data = .ok (.read data) := by
  rw [readHeader, readAt, if_pos (by omega)]
  show Except.ok (WebSocketMessageHeader.read (data.take 2)) = _
  rw [read_take data (Nat.le_refl 2)]

/-- What a complete header announces does not depend on what is behind it. -/
theorem decode_take (data : Bytes) :
    (WebSocketMessageHeader.read data).decode (data.take (headerSize data)) =
      (WebSocketMessageHeader.read data).decode data := by
  have hlen : (WebSocketMessageHeader.read data).dataLen (data.take (headerSize data)) =
      (WebSocketMessageHeader.read data).dataLen data := by
    unfold WebSocketMessageHeader.dataLen
    split
    · rename_i hcode
      have hsize : 4 ≤ headerSize data := by
        simp only [headerSize, WebSocketMessageHeader.lengthSize, hcode]
        omega
      rw [slice_take hsize]
    · rename_i hcode
      have hsize : 10 ≤ headerSize data := by
        simp only [headerSize, WebSocketMessageHeader.lengthSize, hcode]
        omega
      rw [slice_take hsize]
    · rfl
  rw [WebSocketMessageHeader.decode, WebSocketMessageHeader.decode, hlen]
  split
  · rename_i hmask
    rw [slice_take]
    simp only [headerSize, WebSocketMessageHeader.maskLength, hmask, if_true]
    omega
  · rfl

/-- **`WebSocketHasFullHeader`** answers yes to the long encodings as soon as there are
two bytes. -/
theorem webSocketHasFullHeader_eq (data : Bytes) :
    webSocketHasFullHeader data data.length = .ok (decide (2 ≤ data.length ∧
      (126 ≤ (WebSocketMessageHeader.read data).payloadLength ∨
        headerSize data ≤ data.length))) := by
  unfold webSocketHasFullHeader
  by_cases h : data.length < 2
  · rw [if_pos h, decide_eq_false (by omega)]
    rfl
  · rw [if_neg h, readHeader_eq (by omega)]
    simp only [ok_bind]
    obtain hcode | hcode | hcode := payloadLength_cases data
    · obtain ⟨hsize, -⟩ := WebSocketMessageHeader.short hcode data
      have hno : ¬ 126 ≤ (WebSocketMessageHeader.read data).payloadLength := by omega
      simp only [headerSize, hsize, hno, false_or, Nat.zero_add]
      split
      · omega
      · omega
      · have hand (p : Prop) : (2 ≤ data.length ∧ p) ↔ p := and_iff_right (by omega)
        simp only [hand]
        rfl
    all_goals
      simp only [hcode, pure_eq_ok, Except.ok.injEq]
      rw [decide_eq_true (by omega)]
      simp

theorem readAt_eq {data : Bytes} {off n : Nat} (h : off + n ≤ data.length) :
    readAt data off n = .ok (slice data off n) := if_pos h

/-- The sizes behind the three codes of the length. -/
theorem sizes_of_code (data : Bytes) :
    ((WebSocketMessageHeader.read data).payloadLength = 127 →
      (WebSocketMessageHeader.read data).lengthSize = 8 ∧
        (WebSocketMessageHeader.read data).dataLen data = ntoh64 (ofLE (slice data 2 8))) ∧
    ((WebSocketMessageHeader.read data).payloadLength = 126 →
      (WebSocketMessageHeader.read data).lengthSize = 2 ∧
        (WebSocketMessageHeader.read data).dataLen data = ntohs (ofLE (slice data 2 2))) ∧
    ((WebSocketMessageHeader.read data).payloadLength ≠ 127 →
      (WebSocketMessageHeader.read data).payloadLength ≠ 126 →
      (WebSocketMessageHeader.read data).lengthSize = 0 ∧
        (WebSocketMessageHeader.read data).dataLen data =
          (WebSocketMessageHeader.read data).payloadLength) := by
  refine ⟨fun hcode => ?_, fun hcode => ?_, fun h127 h126 => ?_⟩
  · simp only [WebSocketMessageHeader.lengthSize, WebSocketMessageHeader.dataLen, hcode, and_self]
  · simp only [WebSocketMessageHeader.lengthSize, WebSocketMessageHeader.dataLen, hcode, and_self]
  · have hcases := payloadLength_cases data
    exact WebSocketMessageHeader.short (by omega) data

section

variable {data : Bytes} (h : headerSize data ≤ data.length)
include h

theorem readHeader_of_headerSize : readHeader data = .ok (.read data) :=
  readHeader_eq (Nat.le_trans (Nat.le_add_right ..) h)

/-- With a complete header `WebSocketMessagePayloadLength` stays inside it, and so do the
three other functions. -/
theorem webSocketMessagePayloadLength_eq :
    webSocketMessagePayloadLength data data.length =
      .ok ((WebSocketMessageHeader.read data).dataLen data) := by
  obtain ⟨h127, h126, hshort⟩ := sizes_of_code data
  rw [webSocketMessagePayloadLength, readHeader_of_headerSize h, ok_bind]
  rw [headerSize] at h
  split
  · obtain ⟨hsize, hlen⟩ := h127 (by assumption)
    rw [readAt_eq (by omega), hlen]
    rfl
  · obtain ⟨hsize, hlen⟩ := h126 (by assumption)
    rw [readAt_eq (by omega), hlen]
    rfl
  · obtain ⟨-, hlen⟩ := hshort (by assumption) (by assumption)
    rw [hlen]
    rfl

theorem webSocketMessageMaskingKey_eq :
    webSocketMessageMaskingKey data data.length =
      .ok ((WebSocketMessageHeader.read data).decode data).maskData := by
  obtain ⟨h127, h126, hshort⟩ := sizes_of_code data
  rw [webSocketMessageMaskingKey, readHeader_of_headerSize h, ok_bind,
    WebSocketMessageHeader.decode]
  rw [headerSize, WebSocketMessageHeader.maskLength] at h
  cases hmask : (WebSocketMessageHeader.read data).isMasked with
  | false => rfl
  | true =>
    rw [hmask, if_pos rfl] at h
    simp only [Bool.not_true, Bool.false_eq_true, if_false, if_true]
    split
    · obtain ⟨hsize, -⟩ := h127 (by assumption)
      rw [readAt_eq (by omega), hsize]
      rfl
    · obtain ⟨hsize, -⟩ := h126 (by assumption)
      rw [readAt_eq (by omega), hsize]
      rfl
    · obtain ⟨hsize, -⟩ := hshort (by assumption) (by assumption)
      rw [readAt_eq (by omega), hsize]
      rfl

theorem webSocketMessageData_eq :
    webSocketMessageData data data.length = .ok (headerSize data) := by
  obtain ⟨h127, h126, hshort⟩ := sizes_of_code data
  rw [webSocketMessageData, readHeader_of_headerSize h, ok_bind, headerSize]
  split
  · obtain ⟨hsize, -⟩ := h127 (by assumption)
    exact congrArg Except.ok (by omega)
  · obtain ⟨hsize, -⟩ := h126 (by assumption)
    exact congrArg Except.ok (by omega)
  · obtain ⟨hsize, -⟩ := hshort (by assumption) (by assumption)
    exact congrArg Except.ok (by omega)

/-- The size of the whole message is taken modulo 2^64. -/
theorem webSocketFullMessageSize_eq :
    webSocketFullMessageSize data data.length = .ok (some ((headerSize data +
      (WebSocketMessageHeader.read data).dataLen data) % 2 ^ 64)) := by
  obtain ⟨h127, h126, hshort⟩ := sizes_of_code data
  have hfull : webSocketHasFullHeader data data.length = .ok true := by
    rw [webSocketHasFullHeader_eq,
      decide_eq_true ⟨Nat.le_trans (Nat.le_add_right ..) h, .inr h⟩]
  have hmask : (WebSocketMessageHeader.read data).maskLength ≤ 4 := by
    unfold WebSocketMessageHeader.maskLength
    split <;> decide
  rw [webSocketFullMessageSize, hfull, ok_bind, if_pos rfl, readHeader_of_headerSize h, ok_bind]
  rw [headerSize] at h ⊢
  split
  · obtain ⟨hsize, hlen⟩ := h127 (by assumption)
    rw [readAt_eq (by omega), hlen, hsize, ok_bind, pure_eq_ok]
    congr 3
    omega
  · obtain ⟨hsize, hlen⟩ := h126 (by assumption)
    have h16 : ntohs (ofLE (slice data 2 2)) < 65536 := by
      have hlt := ofBE_lt (toLE 2 (ofLE (slice data 2 2)))
      rwa [toLE_length] at hlt
    rw [readAt_eq (by omega), hlen, hsize, ok_bind, pure_eq_ok]
    congr 2
    omega
  · obtain ⟨hsize, hlen⟩ := hshort (by assumption) (by assumption)
    have hcases := payloadLength_cases data
    rw [hlen, hsize, pure_eq_ok]
    congr 2
    omega

end

/-! ## Agreement -/

/-- What `RecvMessageHeader` reads from a stream with the bytes `data` in front of it. -/
theorem announced_eq (data : Bytes) :
    announced data = if headerSize data ≤ data.length then
      some ((WebSocketMessageHeader.read data).decode data, data.drop (headerSize data))
      else none := by
  rw [announced, read_take data (Nat.le_refl 2)]
  show (if headerSize data ≤ data.length then
    some ((WebSocketMessageHeader.read data).decode (data.take (headerSize data)),
      data.drop (headerSize data)) else none) = _
  rw [decode_take]

section

variable {σ : Type} [ChannelStream σ]

/-- The two families agree on the bytes `data`, which are all there is on the stream `s`:
the header looks complete exactly when `RecvMessageHeader` can read it, and when it looks
complete every other function stays inside `data` and says the same. -/
structure ParsersAgree (pending : σ → Bytes) (s : σ) (data : Bytes) : Prop where
  full : webSocketHasFullHeader data data.length = .ok true ↔
    ∃ message s', recvMessageHeader s = (.ok message, s')
  parts : webSocketHasFullHeader data data.length = .ok true →
    ∃ message s' size, recvMessageHeader s = (.ok message, s') ∧
      webSocketMessagePayloadLength data data.length = .ok message.dataLen ∧
      webSocketMessageMaskingKey data data.length = .ok message.maskData ∧
      webSocketMessageData data data.length = .ok size ∧
      size ≤ data.length ∧ pending s' = data.drop size ∧
      webSocketFullMessageSize data data.length = .ok (some (size + message.dataLen))

variable {pending : σ → Bytes}

/-- With a complete header they agree if header and payload have a size of 64 bits. -/
theorem parsersAgree_complete (laws : RecvLaws pending) (s : σ)
    (hsize : headerSize (pending s) ≤ (pending s).length) :
    ParsersAgree pending s (pending s) ↔ headerSize (pending s) +
      (WebSocketMessageHeader.read (pending s)).dataLen (pending s) < 2 ^ 64 := by
  have hread := recvMessageHeader_announced laws s
  have hfull := webSocketHasFullHeader_eq (pending s)
  rw [announced_eq, if_pos hsize] at hread
  obtain ⟨s', hread, hrest⟩ := hread
  rw [decide_eq_true ⟨Nat.le_trans (Nat.le_add_right ..) hsize, .inr hsize⟩] at hfull
  have hmessage := webSocketFullMessageSize_eq hsize
  constructor
  · intro h
    obtain ⟨message, t, size, hm, -, -, hd, -, -, hwhole⟩ := h.parts hfull
    rw [hread] at hm
    cases hm
    rw [webSocketMessageData_eq hsize] at hd
    cases hd
    rw [hmessage] at hwhole
    simp only [Except.ok.injEq, Option.some.injEq] at hwhole
    rw [WebSocketMessageHeader.decode] at hwhole
    dsimp only at hwhole
    rw [← hwhole]
    exact Nat.mod_lt _ (by decide)
  · intro hfits
    refine ⟨iff_of_true hfull ⟨_, _, hread⟩, fun _ => ⟨_, _, _, hread,
      webSocketMessagePayloadLength_eq hsize, webSocketMessageMaskingKey_eq hsize,
      webSocketMessageData_eq hsize, hsize, hrest, ?_⟩⟩
    rw [hmessage, Nat.mod_eq_of_lt hfits]
    rfl

/-- With part of a header they agree if both notice. -/
theorem parsersAgree_cut (laws : RecvLaws pending) (s : σ)
    (hsize : ¬ headerSize (pending s) ≤ (pending s).length) :
    ParsersAgree pending s (pending s) ↔ (pending s).length < 2 ∨
      (WebSocketMessageHeader.read (pending s)).payloadLength < 126 := by
  have hread := recvMessageHeader_announced laws s
  rw [announced_eq, if_neg hsize] at hread
  obtain ⟨x, t, hread⟩ := hread
  -- the streaming parser notices in every case
  have hfails : ¬ ∃ message s', recvMessageHeader s = (.ok message, s') := by
    rintro ⟨message, s', h⟩
    rw [hread] at h
    cases h
  have hno : webSocketHasFullHeader (pending s) (pending s).length = .ok true ↔
      ¬ ((pending s).length < 2 ∨
        (WebSocketMessageHeader.read (pending s)).payloadLength < 126) := by
    rw [webSocketHasFullHeader_eq, Except.ok.injEq, decide_eq_true_iff]
    omega
  constructor
  · intro h
    have hfalse := mt h.full.mp hfails
    rwa [hno, not_not] at hfalse
  · intro hshort
    have hfalse : webSocketHasFullHeader (pending s) (pending s).length ≠ .ok true := by
      rwa [Ne, hno, not_not]
    exact ⟨iff_of_false hfalse hfails, fun h => absurd h hfalse⟩

/-- **Where the two families agree.** The header is too short for its first two bytes, or
its length is in the second one, or it is complete; and if it is complete, the header and
the announced payload together have a size of 64 bits. -/
theorem parsersAgree_iff (laws : RecvLaws pending) (s : σ) :
    ParsersAgree pending s (pending s) ↔
      ((pending s).length < 2 ∨
          (WebSocketMessageHeader.read (pending s)).payloadLength < 126 ∨
          headerSize (pending s) ≤ (pending s).length) ∧
        (headerSize (pending s) ≤ (pending s).length → headerSize (pending s) +
          (WebSocketMessageHeader.read (pending s)).dataLen (pending s) < 2 ^ 64) := by
  by_cases hsize : headerSize (pending s) ≤ (pending s).length
  · rw [parsersAgree_complete laws s hsize]
    exact ⟨fun h => ⟨.inr (.inr hsize), fun _ => h⟩, fun h => h.2 hsize⟩
  · rw [parsersAgree_cut laws s hsize]
    refine ⟨fun h => ⟨h.imp_right .inl, fun hc => absurd hc hsize⟩, ?_⟩
    rintro ⟨h | h | h, -⟩
    · exact .inl h
    · exact .inr h
    · exact absurd h hsize

/-- A complete header of a masked frame with a 64-bit length. -/
theorem parsersAgree_iff_masked :
    let data : Bytes := [0x82, 0xFF, 0, 0, 0, 0, 0, 1, 0, 0, 1, 2, 3, 4]
    ParsersAgree SocketStream.pending (.ofSocket (.ofBytes data) .clientToPado) data := by
  intro data
  exact (parsersAgree_iff SocketStream.recvLaws _).mpr (by decide +kernel)

/-- After two bytes of a header that has four, and with an announced length that leaves
no room for the header in 64 bits. -/
theorem parsers_disagree :
    let cut : Bytes := [0x82, 126]
    let huge : Bytes := [0x82, 127, 255, 255, 255, 255, 255, 255, 255, 255]
    let stream (data : Bytes) : SocketStream := .ofSocket (.ofBytes data) .clientToPado
    (¬ ParsersAgree SocketStream.pending (stream cut) cut ∧
      webSocketHasFullHeader cut cut.length = .ok true ∧
      webSocketMessagePayloadLength cut cut.length = .error (.fault .outOfBounds)) ∧
    (¬ ParsersAgree SocketStream.pending (stream huge) huge ∧
      webSocketMessagePayloadLength huge huge.length = .ok (2 ^ 64 - 1) ∧
      webSocketFullMessageSize huge huge.length = .ok (some 9)) := by
  intro cut huge stream
  refine ⟨⟨fun h => ?_, by decide +kernel, by decide +kernel⟩,
    ⟨fun h => ?_, by decide +kernel, by decide +kernel⟩⟩
  · -- the streaming parser waits for the length
    obtain ⟨message, s', hread⟩ := h.full.mp (by decide +kernel)
    have hfails : (recvMessageHeader (stream cut)).1 = .error (.thrown
        ⟨.primusServerNetworkError, "recv websocket header extra data error"⟩) := by
      decide +kernel
    rw [hread] at hfails
    cases hfails
  · obtain ⟨message, s', size, -, hlen, -, hdata, -, -, hwhole⟩ := h.parts (by decide +kernel)
    have hlen' : webSocketMessagePayloadLength huge huge.length = .ok (2 ^ 64 - 1) := by
      decide +kernel
    have hwhole' : webSocketFullMessageSize huge huge.length = .ok (some 9) := by
      decide +kernel
    rw [hlen'] at hlen
    rw [hwhole'] at hwhole
    simp only [Except.ok.injEq, Option.some.injEq] at hlen hwhole
    omega

end

end ZktlsNet
