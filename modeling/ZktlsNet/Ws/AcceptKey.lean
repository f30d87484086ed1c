import ZktlsNet.Lib.Base64
import ZktlsNet.Ws.HeaderSearch
import ZktlsNet.Ws.Request

/-!
# The accept key (`ws.cpp:27-101`)

`base64_encode` writes its characters four at a time, as a 32-bit word of a little-endian
machine, straight into the response template, and then goes back over the last ones with
the padding. Here the template is a block of memory with its `NUL`, and every store is
checked against it.

- `base64EncodeAt_eq`: what is stored is the Base64 encoding, and nothing else is touched.
- `sendHandshakeAt_eq`: `sendHandshake` of `Ws.Handshake` is what this comes to.
- `accept_key`: the response to a request whose key is not too long.
-/

namespace ZktlsNet

open NetLib

/-! ## `base64_encode` -/

/-- The word of the four characters of `e`. -/
def quadWord (e : Nat) : Nat :=
  (b64.getD (e >>> 18) 0).toNat ||| (b64.getD ((e >>> 12) &&& 0x3F) 0).toNat <<< 8 |||
    (b64.getD ((e >>> 6) &&& 0x3F) 0).toNat <<< 16 ||| (b64.getD (e &&& 0x3F) 0).toNat <<< 24

/-- `*d = word`. -/
def storeWord (m : Bytes) (d word : Nat) : Res Bytes :=
  if d + 4 ≤ m.length then .ok (store m d (toLE 4 word)) else .error (.fault .outOfBounds)

/-- The loop: the memory and `d` at its end. -/
def encodeLoopAt : Bytes → Bytes → Nat → Res (Bytes × Nat)
  | [], m, d => .ok (m, d)
  | [a], m, d => do
    let m ← storeWord m d (quadWord (a.toNat <<< 16))
    return (m, d + 4)
  | [a, b], m, d => do
    let m ← storeWord m d (quadWord (a.toNat <<< 16 ||| b.toNat <<< 8))
    return (m, d + 4)
  | a :: b :: c :: rest, m, d => do
    let m ← storeWord m d (quadWord (a.toNat <<< 16 ||| b.toNat <<< 8 ||| c.toNat))
    encodeLoopAt rest m (d + 4)

/-- The loop over the padding: `remaining` times, from `i` on. -/
def padLoopAt (d : Nat) : Nat → Nat → Bytes → Res Bytes
  | 0, _, m => .ok m
  | remaining + 1, i, m =>
    if 1 + i ≤ d ∧ d - 1 - i < m.length then
      padLoopAt d remaining (i + 1) (store m (d - 1 - i) [61])
    else .error (.fault .outOfBounds)

/-- `base64_encode`, where `dst` points `d` bytes into the memory. -/
def base64EncodeAt (m : Bytes) (d : Nat) (src : Bytes) : Res Bytes := do
  let (m, d) ← encodeLoopAt src m d
  padLoopAt d ((3 - src.length % 3) % 3) 0 m

/-! ## `SendHandshake` -/

/-- `handshakeMsg`, once the accept value is in it. -/
def acceptMsg (digest : Bytes) : Res Bytes := do
  let template := handshakeMsg ++ [0]
  match ← strstr (ascii "Sec-WebSocket-Accept: ") template with
  | none => .error (.fault .nullPointer)
  | some pos =>
    base64EncodeAt template
      (template.length - pos.length + (ascii "Sec-WebSocket-Accept: ").length) digest

/-- `SendHandshake`, with the digest as an array of 20 bytes. -/
def sendHandshakeAt {σ : Type} [ChannelStream σ] (sha1 : Bytes → Vector UInt8 20)
    (request : Bytes) (stream : σ) : Res Unit × σ :=
  match getHttpHeader request keyHeader ((128 + 37) / 2) with
  | .error e => (.error e, stream)
  | .ok key =>
    match acceptMsg (sha1 (key ++ webSocketGlobalGuid)).toList with
    | .error e => (.error e, stream)
    | .ok msg =>
      -- `strlen` finds the end of what is sent
      let (err, stream) := ChannelStream.send stream (cStr msg)
      if err < 0 then
        (.error (ChannelStream.throwConnectionError stream "send websocket handshake error"),
          stream)
      else (.ok (), stream)

/-! ## The words -/

theorem and_63 (n : Nat) : n &&& 0x3F = n % 64 := Nat.and_two_pow_sub_one_eq_mod n 6

/-- A low part and a shifted one. -/
theorem or_shiftLeft {a k : Nat} (ha : a < 2 ^ k) (b : Nat) : a ||| b <<< k = a + b * 2 ^ k := by
  rw [Nat.or_comm, ← Nat.shiftLeft_add_eq_or_of_lt ha, Nat.shiftLeft_eq, Nat.add_comm]

/-- The word of two bytes. -/
theorem word_two (a b : UInt8) :
    a.toNat <<< 16 ||| b.toNat <<< 8 = a.toNat * 256 ^ 2 + b.toNat * 256 := by
  have hb := b.toNat_lt
  rw [Nat.or_comm, or_shiftLeft (by rw [Nat.shiftLeft_eq]; omega), Nat.shiftLeft_eq]
  omega

/-- The word of three bytes. -/
theorem word_three (a b c : UInt8) :
    a.toNat <<< 16 ||| b.toNat <<< 8 ||| c.toNat = a.toNat * 256 ^ 2 + b.toNat * 256 + c.toNat := by
  have hc := c.toNat_lt
  have hhigh : a.toNat * 256 ^ 2 + b.toNat * 256 = (a.toNat * 256 + b.toNat) <<< 8 := by
    rw [Nat.shiftLeft_eq]
    omega
  rw [word_two, hhigh, Nat.or_comm, or_shiftLeft (by omega), Nat.shiftLeft_eq]
  omega

/-- The four characters of 24 bits, as the library has them. -/
theorem b64Quad_eq {e : Nat} (he : e < 2 ^ 24) : b64Quad e = Base64.quad e := by
  have h18 : e >>> 18 = e / 64 ^ 3 % 64 := by
    rw [Nat.shiftRight_eq_div_pow]
    omega
  rw [b64Quad, and_63, and_63, and_63, h18, Nat.shiftRight_eq_div_pow, Nat.shiftRight_eq_div_pow]
  rfl

/-- Four bytes put together by shifts, stored little-endian. -/
theorem toLE_quadWord (e : Nat) : toLE 4 (quadWord e) = b64Quad e := by
  have hor (a b c d : UInt8) : a.toNat ||| b.toNat <<< 8 ||| c.toNat <<< 16 ||| d.toNat <<< 24 =
      ofLE [a, b, c, d] := by
    have ha := a.toNat_lt
    have hb := b.toNat_lt
    have hc := c.toNat_lt
    rw [or_shiftLeft ha b.toNat,
      or_shiftLeft (show a.toNat + b.toNat * 2 ^ 8 < 2 ^ 16 by omega), or_shiftLeft (by omega)]
    simp only [ofLE_cons, ofLE_nil]
    omega
  rw [quadWord, hor, ← b64Quad]
  exact toLE_ofLE (b64Quad e)

/-! ## The encoding -/

theorem base64Loop_length (src : Bytes) :
    (base64Loop src).length = 4 * ((src.length + 2) / 3) := by
  induction src using base64Loop.induct with
  | case1 => rfl
  | case2 a => simp [base64Loop, b64Quad]
  | case3 a b => simp [base64Loop, b64Quad]
  | case4 a b c rest ih =>
    rw [base64Loop, List.length_append, ih]
    simp only [b64Quad, List.length_cons, List.length_nil]
    omega

/-- **The list of `Ws.Handshake`** is the encoding of the library. -/
theorem base64Encode_eq (src : Bytes) : base64Encode src = Base64.encode src := by
  induction src using base64Loop.induct with
  | case1 => rfl
  | case2 a =>
    have ha := a.toNat_lt
    have hword : a.toNat <<< 16 = a.toNat * 256 ^ 2 := by
      rw [Nat.shiftLeft_eq, ← Nat.pow_mul 2 8 2]
    rw [base64Encode, base64Loop, hword, b64Quad_eq (by omega), Base64.encode]
    rfl
  | case3 a b =>
    have ha := a.toNat_lt
    have hb := b.toNat_lt
    rw [base64Encode, base64Loop, word_two, b64Quad_eq (by omega), Base64.encode]
    rfl
  | case4 a b c rest ih =>
    have ha := a.toNat_lt
    have hb := b.toNat_lt
    have hc := c.toNat_lt
    have hmod : (a :: b :: c :: rest).length % 3 = rest.length % 3 := by
      simp only [List.length_cons]
      omega
    have hlen : (3 - rest.length % 3) % 3 ≤ (base64Loop rest).length := by
      rw [base64Loop_length]
      omega
    rw [base64Encode, base64Loop, word_three, b64Quad_eq (by omega), Base64.encode, hmod, ← ih,
      base64Encode, List.length_append, Nat.add_sub_assoc hlen]
    exact store_append_right ..

theorem storeWord_eq {m : Bytes} {d : Nat} (h : d + 4 ≤ m.length) (e : Nat) :
    storeWord m d (quadWord e) = .ok (store m d (b64Quad e)) := by
  rw [storeWord, if_pos h, toLE_quadWord]

/-- The loop stores one piece of memory. -/
theorem encodeLoopAt_eq (src : Bytes) {m : Bytes} {d : Nat}
    (h : d + (base64Loop src).length ≤ m.length) :
    encodeLoopAt src m d =
      .ok (store m d (base64Loop src), d + (base64Loop src).length) := by
  induction src using base64Loop.induct generalizing m d with
  | case1 => simp [encodeLoopAt, base64Loop, store]
  | case2 a =>
    rw [encodeLoopAt, storeWord_eq h]
    rfl
  | case3 a b =>
    rw [encodeLoopAt, storeWord_eq h]
    rfl
  | case4 a b c rest ih =>
    rw [base64Loop, List.length_append] at h ⊢
    generalize hq : b64Quad (a.toNat <<< 16 ||| b.toNat <<< 8 ||| c.toNat) = q at h ⊢
    have hlen : q.length = 4 := by
      rw [← hq]
      rfl
    have hroom : (store m d q).length = m.length := store_length (by omega)
    rw [encodeLoopAt, storeWord_eq (by omega), hq, ok_bind, ih (by omega), ← hlen,
      store_store m d q _ (by omega), Nat.add_assoc]

/-- The loop over the padding stores one piece of memory too. -/
theorem padLoopAt_eq (remaining : Nat) :
    ∀ {d i : Nat} {m : Bytes}, i + remaining ≤ d → d ≤ m.length →
      padLoopAt d remaining i m =
        .ok (store m (d - i - remaining) (List.replicate remaining 61)) := by
  induction remaining with
  | zero =>
    intro d i m hi hd
    simp [padLoopAt, store]
  | succ remaining ih =>
    intro d i m hi hd
    have hroom : (store m (d - 1 - i) [61]).length = m.length := store_length (by simp; omega)
    have hoff : d - (i + 1) - remaining = d - i - (remaining + 1) := by omega
    have hlast : d - 1 - i = d - i - (remaining + 1) +
        (List.replicate remaining (61 : UInt8)).length := by
      rw [List.length_replicate]
      omega
    rw [padLoopAt, if_pos ⟨by omega, by omega⟩, ih (by omega) (by omega), List.replicate_succ',
      hoff, hlast, store_store_before]
    rw [List.length_replicate]
    omega

/-- **`base64_encode`** writes the encoding, and nothing else. -/
theorem base64EncodeAt_eq {m : Bytes} {d : Nat} (src : Bytes)
    (h : d + 4 * ((src.length + 2) / 3) ≤ m.length) :
    base64EncodeAt m d src = .ok (store m d (Base64.encode src)) := by
  have hloop := base64Loop_length src
  rw [← hloop] at h
  have hroom : (store m d (base64Loop src)).length = m.length := store_length h
  have hpad : (3 - src.length % 3) % 3 ≤ (base64Loop src).length := by
    rw [hloop]
    omega
  have hoff : d + (base64Loop src).length - 0 - (3 - src.length % 3) % 3 =
      d + ((base64Loop src).length - (3 - src.length % 3) % 3) := by omega
  rw [base64EncodeAt, encodeLoopAt_eq src h, ok_bind]
  simp only
  rw [padLoopAt_eq _ (by omega) (by omega), hoff,
    store_inside m h (by rw [List.length_replicate]; omega), ← base64Encode_eq]
  rfl

/-! ## The response -/

/-- The template behind the accept value. -/
def handshakeTail : Bytes := [13, 10, 13, 10]

theorem handshakeMsg_eq :
    handshakeMsg = handshakeHead ++ List.replicate 28 48 ++ handshakeTail := by
  decide +kernel

theorem strstr_handshakeMsg :
    strstr (ascii "Sec-WebSocket-Accept: ") (handshakeMsg ++ [0]) =
      .ok (some
        (ascii "Sec-WebSocket-Accept: " ++ List.replicate 28 48 ++ handshakeTail ++ [0])) := by
  decide +kernel

/-- **The template** with an accept value in it. -/
theorem acceptMsg_eq {digest : Bytes} (h : digest.length = 20) :
    acceptMsg digest = .ok (handshakeHead ++ Base64.encode digest ++ handshakeTail ++ [0]) := by
  have hlen : (Base64.encode digest).length = 28 := by
    rw [Base64.encode_length, h]
  have hoff : (handshakeMsg ++ [0]).length -
      (ascii "Sec-WebSocket-Accept: " ++ List.replicate 28 48 ++ handshakeTail ++ [0]).length +
      (ascii "Sec-WebSocket-Accept: ").length = handshakeHead.length := by
    decide +kernel
  have hroom : handshakeHead.length + 4 * ((20 + 2) / 3) ≤ (handshakeMsg ++ [0]).length := by
    decide +kernel
  have hstore : store (handshakeMsg ++ [0]) handshakeHead.length (Base64.encode digest) =
      handshakeHead ++ Base64.encode digest ++ handshakeTail ++ [0] := by
    have htail : (List.replicate 28 48 ++ (handshakeTail ++ [0])).drop 28 = handshakeTail ++ [0] :=
      rfl
    rw [handshakeMsg_eq, List.append_assoc, List.append_assoc handshakeHead, store_append, hlen,
      htail, List.append_assoc _ handshakeTail]
  simp only [acceptMsg, strstr_handshakeMsg, ok_bind, hoff]
  rw [base64EncodeAt_eq digest (by rwa [h]), hstore]

/-- No `NUL` is in what is sent. -/
theorem cStr_response (digest : Bytes) :
    cStr (handshakeHead ++ Base64.encode digest ++ handshakeTail ++ [0]) =
      handshakeHead ++ Base64.encode digest ++ handshakeTail := by
  have hhead : ∀ c ∈ handshakeHead, c ≠ 0 := by decide +kernel
  have htail : ∀ c ∈ handshakeTail, c ≠ 0 := by decide +kernel
  have halphabet : ∀ c ∈ Base64.alphabet, c ≠ 0 := by decide +kernel
  have hnul : ∀ c ∈ handshakeHead ++ Base64.encode digest ++ handshakeTail, (c != 0) = true := by
    intro c hc
    rw [bne_iff_ne]
    rcases List.mem_append.mp hc with hc | hc
    · rcases List.mem_append.mp hc with hc | hc
      · exact hhead c hc
      · rintro rfl
        rcases Base64.mem_encode hc with h | h
        · exact halphabet 0 h rfl
        · exact absurd h (by decide)
    · exact htail c hc
  rw [cStr, List.takeWhile_append_of_pos hnul]
  simp

section

variable {σ : Type} [ChannelStream σ]

/-- **The response is built as `Ws.Handshake` has it.** -/
theorem sendHandshakeAt_eq (sha1 : Bytes → Vector UInt8 20) (request : Bytes) (s : σ) :
    sendHandshakeAt sha1 request s = sendHandshake (fun text => (sha1 text).toList) request s := by
  rw [sendHandshakeAt, sendHandshake]
  cases getHttpHeader request keyHeader ((128 + 37) / 2) with
  | error e => rfl
  | ok key =>
    have hlen : (sha1 (key ++ webSocketGlobalGuid)).toList.length = 20 := Vector.length_toList
    have hencode := Base64.encode_length (sha1 (key ++ webSocketGlobalGuid)).toList
    rw [hlen] at hencode
    have hstore : store handshakeMsg handshakeHead.length
        (base64Encode (sha1 (key ++ webSocketGlobalGuid)).toList) =
        handshakeHead ++ Base64.encode (sha1 (key ++ webSocketGlobalGuid)).toList ++
          handshakeTail := by
      rw [base64Encode_eq, handshakeMsg_eq, List.append_assoc, store_append, hencode]
      rfl
    simp only [acceptMsg_eq hlen, cStr_response, hstore]

/-- The first key in the text of a request is `key`, up to the end of its line or of the
text. -/
def HasKey (text key : Bytes) : Prop :=
  ∃ before rest, text = before ++ keyHeader ++ (key ++ rest) ∧
    (∀ before' behind, text = before' ++ keyHeader ++ behind → before.length ≤ before'.length) ∧
    (∀ c ∈ key, c ≠ 13 ∧ c ≠ 10) ∧ ∀ c rest', rest = c :: rest' → c = 13 ∨ c = 10

/-- Then the search finds it, if it is not too long for the buffer. -/
theorem getHttpHeader_of_hasKey {text key : Bytes} (h : HasKey text key) (hnul : 0 ∉ text)
    (hlen : key.length ≤ 81) (junk : Bytes) :
    getHttpHeader (text ++ 0 :: junk) keyHeader ((128 + 37) / 2) = .ok key := by
  obtain ⟨before, rest, rfl, hfirst, hkey, hrest⟩ := h
  have hbefore : 0 ∉ before := fun hmem =>
    hnul (List.mem_append_left _ (List.mem_append_left _ hmem))
  have hkey' : ∀ c ∈ key, c ≠ 13 ∧ c ≠ 10 ∧ c ≠ 0 := by
    intro c hc
    refine ⟨(hkey c hc).1, (hkey c hc).2, ?_⟩
    rintro rfl
    exact hnul (List.mem_append_right _ (List.mem_append_left _ hc))
  have hpos : strstr keyHeader (before ++ keyHeader ++ (key ++ rest) ++ 0 :: junk) =
      .ok (some (keyHeader ++ (key ++ rest ++ 0 :: junk))) := by
    rw [strstr_eq keyHeader_ne, firstAt_append _ (firstAt_of_first hfirst)]
    simp only [List.append_assoc, List.take_left, List.drop_left, if_neg hbefore]
  have hline : untilLineEnd (key ++ rest ++ 0 :: junk) = .ok key := by
    cases rest with
    | nil =>
      rw [List.append_nil]
      exact untilLineEnd_append_cons (.inr (.inr rfl)) junk hkey'
    | cons c rest =>
      rw [List.append_assoc]
      exact untilLineEnd_append_cons (or_assoc.mp (.inl (hrest c rest rfl))) _ hkey'
  rw [getHttpHeader, hpos]
  simp only [ok_bind, List.drop_left, hline, pure_eq_ok]
  rw [List.take_of_length_le hlen]

/-- **The accept key.** `base64_encode` writes four characters for every three bytes begun,
which are the Base64 encoding of the bytes, and changes nothing else. So to a request whose
first key has at most 81 characters `SendHandshake` sends its template with the encoding of
the digest of key and GUID for the 28 zeros. -/
theorem accept_key {calls : σ → List Bytes} (laws : SendCalls calls) :
    (∀ (m src : Bytes) (d : Nat), d + 4 * ((src.length + 2) / 3) ≤ m.length →
      base64EncodeAt m d src = .ok (store m d (Base64.encode src)) ∧
        (Base64.encode src).length = 4 * ((src.length + 2) / 3) ∧
        Base64.decode (Base64.encode src) = some src) ∧
    handshakeMsg = handshakeHead ++ List.replicate 28 48 ++ handshakeTail ∧
    ∀ (sha1 : Bytes → Vector UInt8 20) (text key junk : Bytes) (s : σ),
      0 ∉ text → HasKey text key → key.length ≤ 81 →
      (Base64.encode (sha1 (key ++ webSocketGlobalGuid)).toList).length = 28 ∧
        calls (sendHandshakeAt sha1 (text ++ 0 :: junk) s).2 =
          calls s ++ [handshakeHead ++
            Base64.encode (sha1 (key ++ webSocketGlobalGuid)).toList ++ handshakeTail] := by
  refine ⟨fun m src d h => ⟨base64EncodeAt_eq src h, Base64.encode_length src,
    Base64.decode_encode src⟩, handshakeMsg_eq, ?_⟩
  intro sha1 text key junk s hnul hkey hlen
  have hfound := getHttpHeader_of_hasKey hkey hnul hlen junk
  have hdigest : (sha1 (key ++ webSocketGlobalGuid)).toList.length = 20 := Vector.length_toList
  have hencode := Base64.encode_length (sha1 (key ++ webSocketGlobalGuid)).toList
  rw [hdigest] at hencode
  refine ⟨hencode, ?_⟩
  have hsend := laws.calls_send s (handshakeHead ++
    Base64.encode (sha1 (key ++ webSocketGlobalGuid)).toList ++ handshakeTail)
  simp only [sendHandshakeAt, hfound, acceptMsg_eq hdigest, cStr_response]
  split <;> exact hsend

/-- The answer to a request with a key. -/
theorem accept_key_short :
    let s : SocketStream := .ofSocket (.ofBytes []) .clientToPado
    (sendHandshakeAt (fun _ => .replicate 20 0)
        (ascii "Sec-WebSocket-Key: I28w97h3i3dkMdxGpUF+sA==\r\n" ++ [0]) s).2.socket.log.map
          Prod.fst = [handshakeHead ++ ascii "AAAAAAAAAAAAAAAAAAAAAAAAAAA=" ++ handshakeTail] := by
  intro s
  have hkey : HasKey (ascii "Sec-WebSocket-Key: I28w97h3i3dkMdxGpUF+sA==\r\n")
      (ascii "I28w97h3i3dkMdxGpUF+sA==") := by
    refine ⟨[], [13, 10], by decide +kernel, fun _ _ _ => Nat.zero_le _, by decide +kernel, ?_⟩
    rintro c rest' h
    cases h
    exact .inl rfl
  have hencode : Base64.encode (Vector.replicate 20 (0 : UInt8)).toList =
      ascii "AAAAAAAAAAAAAAAAAAAAAAAAAAA=" := by
    decide +kernel
  have hsent := ((accept_key SocketStream.sendCalls).2.2 (fun _ => .replicate 20 0) _ _ [] s
    (by decide +kernel) hkey (by decide +kernel)).2
  rwa [hencode] at hsent

end

end ZktlsNet
