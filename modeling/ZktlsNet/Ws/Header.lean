import ZktlsNet.Lib.Buffer
import ZktlsNet.Lib.WebSocketFrame
import ZktlsNet.Ws.Stream

/-!
# Frame headers (`ws.cpp:325-348`, `ws.cpp:455-468`, `ws.cpp:676-728`)

`GenWebSocketHeader` writes a header into memory, `RecvMessageHeader` reads one
from a stream, and `UnMaskData` removes the mask of a payload a word at a time.
The machine is little-endian; a word in memory is `toLE` of its value.

- `genWebSocketHeader_eq`: what is written is the RFC 6455 header.
- `recvMessageHeader_spec`: what is read from such a header is its length and
  its key, and nothing behind it is consumed.
- `unMaskData_eq`: the word loop and its tail are the masking transform.
-/

namespace ZktlsNet

open NetLib

/-! ## Byte order -/

/-- `ntohs`, which is also `htons`. -/
def ntohs (x : Nat) : Nat := ofBE (toLE 2 x)

/-- `ntohl`. -/
def ntohl (x : Nat) : Nat := ofBE (toLE 4 x)

/-- `ntoh64`, which is also `hton64`. -/
def ntoh64 (x : Nat) : Nat := ntohl (x >>> 32) ||| ntohl (x &&& 0xFFFFFFFF) <<< 32

/-- Swapping two halves and exchanging them swaps the whole. -/
theorem ntoh64_eq (x : Nat) : ntoh64 x = ofBE (toLE 8 x) := by
  have hlow : x &&& 0xFFFFFFFF = x % 256 ^ 4 := Nat.and_two_pow_sub_one_eq_mod x 32
  have hhigh : x >>> 32 = x / 256 ^ 4 := Nat.shiftRight_eq_div_pow x 32
  have hlt : ofBE (toLE 4 (x / 256 ^ 4)) < 2 ^ 32 := by
    have := ofBE_lt (toLE 4 (x / 256 ^ 4))
    rwa [toLE_length] at this
  rw [ntoh64, ntohl, ntohl, hlow, hhigh, toLE_mod, Nat.or_comm,
    ← Nat.shiftLeft_add_eq_or_of_lt hlt, Nat.shiftLeft_eq, toLE_add 4 4, ofBE, ofBE, ofBE,
    List.reverse_append, ofLE_append, List.length_reverse, toLE_length]
  omega

/-- The four bytes of a mask, as they are in memory. -/
def maskBytes (mask : UInt32) : MaskKey := ⟨toLE 4 mask.toNat, toLE_length ..⟩

theorem ofLE_maskBytes (mask : UInt32) : ofLE (maskBytes mask).val = mask.toNat :=
  ofLE_toLE_of_lt mask.toNat_lt

/-! ## The two fixed bytes -/

/-- `WebSocketMessageHeader`: the bit-fields, packed from the low bit up. -/
structure WebSocketMessageHeader where
  opcode : Nat
  rsv : Nat
  fin : Nat
  payloadLength : Nat
  mask : Nat
  deriving DecidableEq, Repr

namespace WebSocketMessageHeader

/-- The header at the start of `headerData`. -/
def read (headerData : Bytes) : WebSocketMessageHeader where
  opcode := (headerData.getD 0 0).toNat % 16
  rsv := (headerData.getD 0 0).toNat / 16 % 8
  fin := (headerData.getD 0 0).toNat / 128
  payloadLength := (headerData.getD 1 0).toNat % 128
  mask := (headerData.getD 1 0).toNat / 128

/-- The two bytes; an assignment to a bit-field keeps its low bits. -/
def bytes (h : WebSocketMessageHeader) : Bytes :=
  [UInt8.ofNat (h.opcode % 16 + 16 * (h.rsv % 8) + 128 * (h.fin % 2)),
    UInt8.ofNat (h.payloadLength % 128 + 128 * (h.mask % 2))]

end WebSocketMessageHeader

/-! ## Writing a header -/

/-- `GenWebSocketHeader`: the number of header bytes and the memory after it.
The fields that are not assigned (`rsv`, and `mask` without a key) keep what the
memory held. -/
def genWebSocketHeader (headerData : Bytes) (numBytes : Nat) (maskData : Option Nat) :
    Nat × Bytes :=
  let header := { WebSocketMessageHeader.read headerData with opcode := 0x02, fin := 1 }
  let (header, ext) : WebSocketMessageHeader × Bytes :=
    if numBytes < 126 then ({ header with payloadLength := numBytes }, [])
    else if numBytes ≤ 65535 then
      ({ header with payloadLength := 126 }, toLE 2 (ntohs (numBytes % 2 ^ 16)))
    else ({ header with payloadLength := 127 }, toLE 8 (ntoh64 numBytes))
  let (header, key) : WebSocketMessageHeader × Bytes :=
    match maskData with
    | none => (header, [])
    | some m => ({ header with mask := 1 }, toLE 4 m)
  let written := header.bytes ++ ext ++ key
  (written.length, store headerData 0 written)

/-- **What is written** is the RFC 6455 header of a final binary frame, when the
memory held no `rsv` and no `mask` bit. -/
theorem genWebSocketHeader_eq {headerData : Bytes} (numBytes : Nat) (key : Option MaskKey)
    (hrsv : (WebSocketMessageHeader.read headerData).rsv = 0)
    (hmask : (WebSocketMessageHeader.read headerData).mask = 0) :
    genWebSocketHeader headerData numBytes (key.map fun k => ofLE k.val) =
      ((0x82 :: lengthAndKey key numBytes).length,
        store headerData 0 (0x82 :: lengthAndKey key numBytes)) := by
  by_cases h7 : numBytes < 126
  · have hmod : numBytes % 128 = numBytes := by omega
    cases key with
    | none =>
      simp [genWebSocketHeader, h7, WebSocketMessageHeader.bytes, hrsv, hmask, lengthAndKey, second,
        hmod]
    | some k =>
      simp [genWebSocketHeader, h7, WebSocketMessageHeader.bytes, hrsv, lengthAndKey, second,
        hmod, MaskKey.toLE_ofLE, Nat.add_comm]
  · by_cases h16 : numBytes ≤ 65535
    · have hext : toLE 2 (ntohs (numBytes % 65536)) = toBE 2 numBytes := by
        rw [ntohs, toLE_ofBE_toLE, Nat.mod_eq_of_lt (by omega)]
      cases key with
      | none =>
        simp [genWebSocketHeader, h7, h16, hext, WebSocketMessageHeader.bytes, hrsv, hmask,
          lengthAndKey, second]
      | some k =>
        simp [genWebSocketHeader, h7, h16, hext, WebSocketMessageHeader.bytes, hrsv,
          lengthAndKey, second, MaskKey.toLE_ofLE]
    · have hext : toLE 8 (ntoh64 numBytes) = toBE 8 numBytes := by
        rw [ntoh64_eq, toLE_ofBE_toLE]
      cases key with
      | none =>
        simp [genWebSocketHeader, h7, h16, hext, WebSocketMessageHeader.bytes, hrsv, hmask,
          lengthAndKey, second]
      | some k =>
        simp [genWebSocketHeader, h7, h16, hext, WebSocketMessageHeader.bytes, hrsv,
          lengthAndKey, second, MaskKey.toLE_ofLE]

/-! ## Reading a header -/

/-- What `RecvMessageHeader` returns through its reference parameters. -/
structure MessageHeader where
  dataLen : Nat
  isMasked : Bool
  maskData : Nat
  deriving DecidableEq, Repr

namespace WebSocketMessageHeader

def isMasked (h : WebSocketMessageHeader) : Bool := h.mask != 0

/-- The number of extended length bytes. -/
def lengthSize (h : WebSocketMessageHeader) : Nat :=
  match h.payloadLength with
  | 126 => 2
  | 127 => 8
  | _ => 0

def maskLength (h : WebSocketMessageHeader) : Nat := if h.isMasked then 4 else 0

/-- `data_len` out of `headerData`. -/
def dataLen (h : WebSocketMessageHeader) (headerData : Bytes) : Nat :=
  match h.payloadLength with
  | 126 => ntohs (ofLE (slice headerData 2 2))
  | 127 => ntoh64 (ofLE (slice headerData 2 8))
  | n => n

/-- The length and the key out of `headerData`; the key is behind the extended
length. -/
def decode (h : WebSocketMessageHeader) (headerData : Bytes) : MessageHeader :=
  ⟨h.dataLen headerData, h.isMasked,
    if h.isMasked then ofLE (slice headerData (2 + h.lengthSize) 4) else 0⟩

theorem read_second (first : UInt8) (masked : Bool) {len7 : Nat} (h : len7 < 128) :
    (read [first, second masked len7]).payloadLength = len7 ∧
      (read [first, second masked len7]).isMasked = masked := by
  have hs := second_toNat masked h
  cases masked <;> simp only [Bool.false_eq_true, if_false, if_true] at hs
  · simp only [read, isMasked, List.getD_cons_succ, List.getD_cons_zero, hs]
    refine ⟨by omega, ?_⟩
    simp
    omega
  · simp only [read, isMasked, List.getD_cons_succ, List.getD_cons_zero, hs]
    refine ⟨by omega, ?_⟩
    simp

theorem short {h : WebSocketMessageHeader} (hl : h.payloadLength < 126)
    (headerData : Bytes) : h.lengthSize = 0 ∧ h.dataLen headerData = h.payloadLength := by
  unfold lengthSize dataLen
  constructor <;> split <;> omega

theorem decode_of_no_extra {h : WebSocketMessageHeader} (headerData : Bytes)
    (hno : h.lengthSize + h.maskLength = 0) :
    h.decode headerData = ⟨h.payloadLength, h.isMasked, 0⟩ := by
  have hmask : h.isMasked = false := by
    by_contra hm
    simp only [maskLength, Bool.not_eq_false] at hm hno
    simp [hm] at hno
  have hlen : h.lengthSize = 0 := by omega
  have hdata : h.dataLen headerData = h.payloadLength := by
    unfold lengthSize at hlen
    unfold dataLen
    split at hlen <;> simp_all
  simp [decode, hmask, hdata]

end WebSocketMessageHeader

section

variable {σ : Type} [ChannelStream σ]

/-- `RecvMessageHeader`. -/
def recvMessageHeader (stream : σ) : Res MessageHeader × σ :=
  let (headerData, stream) := ChannelStream.recvEx stream 2
  if headerData.length ≠ 2 then
    (.error (ChannelStream.throwConnectionError stream "recv websocket header error"), stream)
  else
    let header := WebSocketMessageHeader.read headerData
    let extraSize := header.lengthSize + header.maskLength
    if 0 < extraSize then
      let (extra, stream) := ChannelStream.recvEx stream extraSize
      if extra.length ≠ extraSize then
        (.error (ChannelStream.throwConnectionError stream
          "recv websocket header extra data error"), stream)
      else (.ok (header.decode (headerData ++ extra)), stream)
    else (.ok ⟨header.payloadLength, header.isMasked, 0⟩, stream)

/-- A header that cannot be read is an exception. -/
theorem recvMessageHeader_error {s s' : σ} {e : Failure}
    (h : recvMessageHeader s = (.error e, s')) : ∃ x, e = .thrown x := by
  simp only [recvMessageHeader, ChannelStream.throwConnectionError] at h
  split at h
  · exact ⟨_, (Except.error.inj (congrArg Prod.fst h)).symm⟩
  · split at h
    · split at h
      · exact ⟨_, (Except.error.inj (congrArg Prod.fst h)).symm⟩
      · cases congrArg Prod.fst h
    · cases congrArg Prod.fst h

/-- What every read keeps, reading a header keeps. -/
theorem recvMessageHeader_keeps {P : σ → Prop}
    (hP : ∀ s n, P s → P (ChannelStream.recvEx s n).2) {s : σ} (hs : P s) :
    P (recvMessageHeader s).2 := by
  have h2 := hP s 2 hs
  unfold recvMessageHeader
  generalize ChannelStream.recvEx s 2 = read at h2 ⊢
  obtain ⟨headerData, stream⟩ := read
  simp only at h2 ⊢
  split
  · exact h2
  · split
    · have h3 := hP stream ((WebSocketMessageHeader.read headerData).lengthSize +
        (WebSocketMessageHeader.read headerData).maskLength) h2
      split <;> exact h3
    · exact h2

variable {pending : σ → Bytes}

/-- A header that is all there is read, and nothing behind it. -/
theorem recvMessageHeader_whole (laws : RecvLaws pending) {s : σ} (two : Bytes)
    {extra rest : Bytes} (hs : pending s = two ++ (extra ++ rest)) (htwo : two.length = 2)
    (hextra : extra.length = (WebSocketMessageHeader.read two).lengthSize +
      (WebSocketMessageHeader.read two).maskLength) :
    ∃ s', recvMessageHeader s =
        (.ok ((WebSocketMessageHeader.read two).decode (two ++ extra)), s') ∧
      pending s' = rest := by
  obtain ⟨s₁, hr₁, hp₁⟩ := laws.recvEx_append hs htwo
  obtain ⟨s₂, hr₂, hp₂⟩ := laws.recvEx_append hp₁ hextra
  by_cases hpos : 0 < (WebSocketMessageHeader.read two).lengthSize +
      (WebSocketMessageHeader.read two).maskLength
  · refine ⟨s₂, ?_, hp₂⟩
    simp [recvMessageHeader, hr₁, htwo, hpos, hr₂, hextra]
  · -- neither an extended length nor a key: the second read is not made
    have hnil : extra = [] := List.length_eq_zero_iff.mp (by omega)
    refine ⟨s₁, ?_, by rw [hp₁, hnil, List.nil_append]⟩
    have hplain := WebSocketMessageHeader.decode_of_no_extra two (Nat.eq_zero_of_not_pos hpos)
    simp only [recvMessageHeader, hr₁, htwo, hpos, ne_eq, not_true, if_false, hnil,
      List.append_nil, hplain]

/-- The extended length behind the two fixed bytes. -/
theorem slice_extended (first second : UInt8) (ext key : Bytes) :
    slice (first :: second :: (ext ++ key)) 2 ext.length = ext := by
  rw [slice]
  exact List.take_left

/-- A header with the seven bits `len7`, the extended length `ext` and a key. -/
theorem recvMessageHeader_parts (laws : RecvLaws pending) {s : σ} {first : UInt8}
    {key : Option MaskKey} {len7 : Nat} (ext : Bytes) {rest : Bytes} (h7 : len7 < 128)
    (hs : pending s = first :: second key.isSome len7 ::
      (ext ++ (key.map Subtype.val).getD [] ++ rest))
    (hext : (WebSocketMessageHeader.read [first, second key.isSome len7]).lengthSize =
      ext.length) :
    ∃ s', recvMessageHeader s =
        (.ok ⟨(WebSocketMessageHeader.read [first, second key.isSome len7]).dataLen
            (first :: second key.isSome len7 :: (ext ++ (key.map Subtype.val).getD [])),
          key.isSome, (key.map fun k => ofLE k.val).getD 0⟩, s') ∧
      pending s' = rest := by
  obtain ⟨-, hmask⟩ := WebSocketMessageHeader.read_second first key.isSome h7
  have hlen : (ext ++ (key.map Subtype.val).getD []).length =
      (WebSocketMessageHeader.read [first, second key.isSome len7]).lengthSize +
      (WebSocketMessageHeader.read [first, second key.isSome len7]).maskLength := by
    rw [WebSocketMessageHeader.maskLength, hmask, hext, List.length_append]
    cases key with
    | none => rfl
    | some k => exact congrArg (ext.length + ·) k.property
  obtain ⟨s', hr, hp⟩ :=
    recvMessageHeader_whole laws [first, second key.isSome len7] hs rfl hlen
  refine ⟨s', ?_, hp⟩
  rw [hr, WebSocketMessageHeader.decode, hmask, hext]
  congr 2
  cases key with
  | none => rfl
  | some k =>
    have hslice : slice ([first, second true len7] ++ (ext ++ k.val)) (2 + ext.length) 4 =
        k.val := by
      rw [← List.append_assoc, slice, List.drop_left' (by rw [List.length_append]; rfl),
        List.take_of_length_le (Nat.le_of_eq k.property)]
    exact congrArg (MessageHeader.mk _ true) (congrArg ofLE hslice)

/-- A header whose seven bits announce an extended length. -/
theorem recvMessageHeader_extended (laws : RecvLaws pending) {s : σ} {first : UInt8}
    {key : Option MaskKey} {code n : Nat} {ext rest : Bytes} (hcode : code < 128)
    (hs : pending s = first :: second key.isSome code ::
      (ext ++ (key.map Subtype.val).getD [] ++ rest))
    (hsize : ∀ h : WebSocketMessageHeader, h.payloadLength = code → h.lengthSize = ext.length)
    (hvalue : ∀ (h : WebSocketMessageHeader) (data : Bytes), h.payloadLength = code →
      slice data 2 ext.length = ext → h.dataLen data = n) :
    ∃ s', recvMessageHeader s =
        (.ok ⟨n, key.isSome, (key.map fun k => ofLE k.val).getD 0⟩, s') ∧
      pending s' = rest := by
  obtain ⟨hlen, -⟩ := WebSocketMessageHeader.read_second first key.isSome hcode
  obtain ⟨s', hr, hp⟩ := recvMessageHeader_parts laws ext hcode hs (hsize _ hlen)
  exact ⟨s', by rw [hr, hvalue _ _ hlen (slice_extended ..)], hp⟩

/-- **What is read**: from an RFC 6455 header, whatever its first byte, exactly its
bytes are consumed, and the length and the key are those it was written with. -/
theorem recvMessageHeader_spec (laws : RecvLaws pending) {s : σ} {first : UInt8}
    {key : Option MaskKey} {n : Nat} (hn : n < 2 ^ 64) {rest : Bytes}
    (hs : pending s = first :: lengthAndKey key n ++ rest) :
    ∃ s', recvMessageHeader s =
        (.ok ⟨n, key.isSome, (key.map fun k => ofLE k.val).getD 0⟩, s') ∧
      pending s' = rest := by
  rw [lengthAndKey] at hs
  split at hs
  · -- the length is in the second byte
    have h7 : n < 126 := by assumption
    obtain ⟨hlen, -⟩ := WebSocketMessageHeader.read_second first key.isSome
      (show n < 128 by omega)
    obtain ⟨hsize, hval⟩ := WebSocketMessageHeader.short (by rwa [hlen])
      (first :: second key.isSome n :: ((key.map Subtype.val).getD []))
    obtain ⟨s', hr, hp⟩ := recvMessageHeader_parts laws [] (by omega) hs hsize
    exact ⟨s', by rw [hr, List.nil_append, hval, hlen], hp⟩
  · split at hs
    · -- 126 announces 16 bits
      have h16 : n ≤ 65535 := by assumption
      have hval : ntohs (ofLE (toBE 2 n)) = n := ofBE_toLE_ofLE_toBE (by omega)
      refine recvMessageHeader_extended laws (show 126 < 128 by omega) hs ?_ ?_
      · intro h hlen
        simp [WebSocketMessageHeader.lengthSize, hlen]
      · intro h data hlen hslice
        rw [toBE_length] at hslice
        simp only [WebSocketMessageHeader.dataLen, hlen, hslice, hval]
    · -- 127 announces 64 bits
      have hval : ntoh64 (ofLE (toBE 8 n)) = n := by
        rw [ntoh64_eq, ofBE_toLE_ofLE_toBE (by omega)]
      refine recvMessageHeader_extended laws (show 127 < 128 by omega) hs ?_ ?_
      · intro h hlen
        simp [WebSocketMessageHeader.lengthSize, hlen]
      · intro h data hlen hslice
        rw [toBE_length] at hslice
        simp only [WebSocketMessageHeader.dataLen, hlen, hslice, hval]

end

/-! ## Unmasking -/

/-- The loop of `UnMaskData` over `words` 32-bit words, and its byte tail. -/
def unMaskWords (mask : Nat) : Nat → Bytes → Bytes
  | 0, tail => List.zipWith (· ^^^ ·) tail (toLE 4 mask)
  | words + 1, bs => toLE 4 (ofLE (bs.take 4) ^^^ mask) ++ unMaskWords mask words (bs.drop 4)

/-- `UnMaskData`. -/
def unMaskData (buf : Bytes) (mask : Nat) : Bytes := unMaskWords mask (buf.length / 4) buf

/-- **Unmasking** a payload word by word is the masking transform. -/
theorem unMaskData_eq (key : MaskKey) (buf : Bytes) :
    unMaskData buf (ofLE key.val) = applyMask key buf := by
  suffices h : ∀ words (bs : Bytes), bs.length / 4 = words →
      unMaskWords (ofLE key.val) words bs = applyMask key bs from h _ buf rfl
  intro words
  induction words with
  | zero =>
    intro bs hlen
    rw [unMaskWords, key.toLE_ofLE, applyMask_short key (by omega)]
  | succ words ih =>
    intro bs hlen
    have hw : (bs.take 4).length = 4 := by
      rw [List.length_take]
      omega
    have hxor : toLE 4 (ofLE (bs.take 4) ^^^ ofLE key.val) =
        List.zipWith (· ^^^ ·) (bs.take 4) key.val := by
      have hlen : (List.zipWith (· ^^^ ·) (bs.take 4) key.val).length = 4 := by
        rw [List.length_zipWith, hw, key.property, Nat.min_self]
      have h := toLE_ofLE (List.zipWith (· ^^^ ·) (bs.take 4) key.val)
      rwa [hlen, ofLE_zipWith_xor _ _ (by rw [hw, key.property])] at h
    have hrest : (bs.drop 4).length / 4 = words := by
      rw [List.length_drop]
      omega
    rw [unMaskWords, hxor, ih _ hrest, ← applyMask_word_append key hw, List.take_append_drop]

end ZktlsNet
