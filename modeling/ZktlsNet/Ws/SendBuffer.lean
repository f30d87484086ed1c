import ZktlsNet.Ws.Header
import ZktlsNet.Ws.RecvCtx

/-!
# The send buffer (`ws.h:52-157`)

A `SendBuffer` collects the bytes of several sends behind 30 bytes of room: 14
for the largest frame header and 16 for the id and length words. `pack` fills
the words in and moves a header of the right size up against them.

Nothing behind `offset` is ever read, so the memory is modelled up to there, and
`offset` is its length.

- `chunkFrame`: one packed chunk on the wire.
- `SendBuffer.data_pack`: what `pack` leaves to be sent is exactly that.
-/

namespace ZktlsNet

open NetLib

/-! ## A packed chunk -/

/-- The frame of a chunk, unmasked: the header, the two words, the payload. -/
def chunkFrame (id : Nat) (payload : Bytes) : Bytes :=
  0x82 :: lengthAndKey none (16 + payload.length) ++
    (RecvBuffer.build id payload.length payload).data

/-! ## `SendBuffer` -/

/-- `EXTRA_HEADER_SIZE` of the native build. -/
def extraHeaderSize : Nat := 2 + 8 + 4

/-- `EXTRA_HEADER_SIZE + 2 * sizeof(uint64_t)`. -/
def headSize : Nat := extraHeaderSize + 2 * 8

/-- `SEND_BUFFER_SIZE`. -/
def sendBufferSize : Nat := 1 * 1024 * 1024

/-- `SendBuffer`. The bit-fields that no header ever sets are clear. -/
structure SendBuffer where
  buffer : Bytes
  bufferSize : Nat
  sendId : Nat
  packedOffset : Nat
  room : headSize ≤ buffer.length
  fits : buffer.length ≤ bufferSize
  rsv_eq : (WebSocketMessageHeader.read buffer).rsv = 0
  mask_eq : (WebSocketMessageHeader.read buffer).mask = 0
  deriving DecidableEq, Repr

/-- A store behind the first two bytes does not touch the header's. -/
theorem WebSocketMessageHeader.read_store {m : Bytes} {off : Nat} (xs : Bytes) (h2 : 2 ≤ off)
    (h : off ≤ m.length) : read (store m off xs) = read m := by
  rw [read, read, getD_store xs 0 (by omega) h, getD_store xs 0 (by omega) h]

theorem WebSocketMessageHeader.read_append {m : Bytes} (xs : Bytes) (h : 2 ≤ m.length) :
    read (m ++ xs) = read m := by
  simp only [read, List.getD_eq_getElem?_getD]
  rw [List.getElem?_append_left (by omega), List.getElem?_append_left (by omega)]

/-- `set_extra_header` on the memory: the header is generated at its start and
moved up against the words. The new `packed_offset` comes first. -/
def packHeader (m : Bytes) (payloadLength : Nat) : Nat × Bytes :=
  let (headerBytes, m) := genWebSocketHeader m payloadLength none
  let packedOffset := extraHeaderSize - headerBytes
  (packedOffset, store m packedOffset (slice m 0 headerBytes))

/-- The header is written twice, and no frame header is longer than its room. -/
theorem packHeader_eq {m : Bytes} (payloadLength : Nat)
    (hrsv : (WebSocketMessageHeader.read m).rsv = 0)
    (hmask : (WebSocketMessageHeader.read m).mask = 0) :
    ∃ header packedOffset, header = 0x82 :: lengthAndKey none payloadLength ∧
      packedOffset + header.length = extraHeaderSize ∧ 2 ≤ packedOffset ∧ 2 ≤ header.length ∧
      packHeader m payloadLength =
        (packedOffset, store (store m 0 header) packedOffset header) := by
  obtain ⟨hpos, hle⟩ := lengthAndKey_length none payloadLength
  have hlen : (0x82 :: lengthAndKey none payloadLength : Bytes).length =
      (lengthAndKey none payloadLength).length + 1 := rfl
  simp only [Option.isSome_none, Bool.false_eq_true, if_false] at hle
  have hsize : extraHeaderSize = 14 := rfl
  refine ⟨0x82 :: lengthAndKey none payloadLength,
    extraHeaderSize - (0x82 :: lengthAndKey none payloadLength : Bytes).length, rfl, by omega,
    by omega, by omega, ?_⟩
  have hgen := genWebSocketHeader_eq payloadLength none hrsv hmask
  rw [Option.map_none] at hgen
  rw [packHeader, hgen]
  show (_, _) = (_, _)
  rw [slice_store_self (Nat.zero_le _)]

/-- The header left at the start of the memory sets none of the clear bits. -/
theorem packHeader_clear {m : Bytes} (hm : headSize ≤ m.length) (payloadLength : Nat)
    (hrsv : (WebSocketMessageHeader.read m).rsv = 0)
    (hmask : (WebSocketMessageHeader.read m).mask = 0) :
    (packHeader m payloadLength).2.length = m.length ∧
    (WebSocketMessageHeader.read (packHeader m payloadLength).2).rsv = 0 ∧
    (WebSocketMessageHeader.read (packHeader m payloadLength).2).mask = 0 := by
  obtain ⟨header, packedOffset, rfl, hoff, h2, -, heq⟩ := packHeader_eq payloadLength hrsv hmask
  have h14 : extraHeaderSize ≤ m.length := Nat.le_trans (by decide) hm
  have hlen : (store m 0 (0x82 :: lengthAndKey none payloadLength)).length = m.length :=
    store_length (by omega)
  rw [heq]
  constructor
  · rw [store_length (by omega), hlen]
  · rw [WebSocketMessageHeader.read_store _ h2 (by omega)]
    obtain ⟨second, rest, hrest, hsec⟩ : ∃ second rest,
        lengthAndKey none payloadLength = second :: rest ∧ second.toNat < 128 := by
      unfold lengthAndKey
      split
      · exact ⟨_, _, rfl, by rw [second_toNat _ (by omega)]; simp; omega⟩
      · split <;> exact ⟨_, _, rfl, by rw [second_toNat _ (by omega)]; simp⟩
    rw [hrest]
    refine ⟨by simp [WebSocketMessageHeader.read, store], ?_⟩
    have hread : (WebSocketMessageHeader.read (store m 0 (0x82 :: second :: rest))).mask =
        second.toNat / 128 := by simp [WebSocketMessageHeader.read, store]
    omega

namespace SendBuffer

/-- The memory of a fresh or reset buffer, up to `offset`. -/
def head : Bytes := List.replicate headSize 0

/-- Memory of `payloadSize` bytes and the head, zeroed. -/
def alloc (payloadSize sendId : Nat) : SendBuffer where
  buffer := head
  bufferSize := if payloadSize = 0 then sendBufferSize else headSize + payloadSize
  sendId := sendId
  packedOffset := 0
  room := by simp [head]
  fits := by
    rw [head, List.length_replicate]
    split
    · decide
    · omega
  rsv_eq := rfl
  mask_eq := rfl

/-- `SendBuffer(payload_size, nullptr)`. -/
def new (payloadSize : Nat) : SendBuffer := alloc payloadSize 0

/-- `SendBuffer(payload_size, send_buf)`: the new buffer takes over the id, and
`send_buf` skips it. -/
def newFrom (payloadSize : Nat) (sendBuf : SendBuffer) : SendBuffer × SendBuffer :=
  (alloc payloadSize sendBuf.sendId, { sendBuf with sendId := (sendBuf.sendId + 1) % 2 ^ 64 })

def offset (b : SendBuffer) : Nat := b.buffer.length

def canPut (b : SendBuffer) (numBytes : Nat) : Bool := b.offset + numBytes < b.bufferSize

theorem canPut_iff {b : SendBuffer} {n : Nat} :
    b.canPut n = true ↔ b.buffer.length + n < b.bufferSize := decide_eq_true_iff

/-- The size of the buffer after a `put`: one that is too small grows. -/
def grown (b : SendBuffer) (len : Nat) : Nat :=
  if b.canPut len then b.bufferSize else b.bufferSize + max b.bufferSize len

/-- `put`. -/
def put (b : SendBuffer) (buf : Bytes) : SendBuffer :=
  { b with
    buffer := b.buffer ++ buf
    bufferSize := b.grown buf.length
    room := by
      have := b.room
      rw [List.length_append]
      omega
    fits := by
      have := b.fits
      rw [List.length_append, grown]
      split
      · rename_i h
        have := canPut_iff.mp h
        omega
      · omega
    rsv_eq := by
      rw [WebSocketMessageHeader.read_append _ (Nat.le_trans (by decide) b.room), b.rsv_eq]
    mask_eq := by
      rw [WebSocketMessageHeader.read_append _ (Nat.le_trans (by decide) b.room), b.mask_eq] }

def empty (b : SendBuffer) : Bool := b.offset ≤ headSize

/-- The `size` bytes at `data`. -/
def data (b : SendBuffer) : Bytes := b.buffer.drop b.packedOffset

/-- `reset`. -/
def reset (b : SendBuffer) : SendBuffer :=
  { b with
    buffer := head
    room := by simp [head]
    fits := by
      rw [head, List.length_replicate]
      exact Nat.le_trans b.room b.fits
    rsv_eq := rfl
    mask_eq := rfl }

/-- What was put since the last reset. -/
def payload (b : SendBuffer) : Bytes := b.buffer.drop headSize

/-- A store inside the buffer, behind its first two bytes. -/
def write (b : SendBuffer) (off : Nat) (xs : Bytes) (h2 : 2 ≤ off)
    (h : off + xs.length ≤ headSize) : SendBuffer :=
  { b with
    buffer := store b.buffer off xs
    room := by rw [store_length (Nat.le_trans h b.room)]; exact b.room
    fits := by rw [store_length (Nat.le_trans h b.room)]; exact b.fits
    rsv_eq := by
      rw [WebSocketMessageHeader.read_store xs h2 (by have := b.room; omega), b.rsv_eq]
    mask_eq := by
      rw [WebSocketMessageHeader.read_store xs h2 (by have := b.room; omega), b.mask_eq] }

/-- `set_send_id`. -/
def setSendId (b : SendBuffer) : SendBuffer :=
  let sendId := (b.sendId + 1) % 2 ^ 64
  { b with sendId := sendId }.write extraHeaderSize (toLE 8 sendId) (by decide) (by simp [headSize])

/-- `set_length`. -/
def setLength (b : SendBuffer) : SendBuffer :=
  b.write (extraHeaderSize + 8) (toLE 8 (b.offset - headSize)) (by decide) (by simp [headSize])

/-- `set_extra_header`. -/
def setExtraHeader (b : SendBuffer) : SendBuffer :=
  let payloadLength := 2 * 8 + (b.offset - headSize)
  have clear := packHeader_clear b.room payloadLength b.rsv_eq b.mask_eq
  { b with
    packedOffset := (packHeader b.buffer payloadLength).1
    buffer := (packHeader b.buffer payloadLength).2
    room := by rw [clear.1]; exact b.room
    fits := by rw [clear.1]; exact b.fits
    rsv_eq := clear.2.1
    mask_eq := clear.2.2 }

/-- `pack`. -/
def pack (b : SendBuffer) : SendBuffer := b.setSendId.setLength.setExtraHeader

/-! ## What the operations do -/

theorem empty_iff (b : SendBuffer) : b.empty = true ↔ b.payload = [] := by
  rw [empty, decide_eq_true_iff, offset, payload, List.drop_eq_nil_iff]

@[simp] theorem payload_reset (b : SendBuffer) : b.reset.payload = [] := rfl

@[simp] theorem payload_put (b : SendBuffer) (buf : Bytes) :
    (b.put buf).payload = b.payload ++ buf := List.drop_append_of_le_length b.room

theorem offset_eq (b : SendBuffer) : b.offset = headSize + b.payload.length := by
  have := b.room
  rw [offset, payload, List.length_drop]
  omega

@[simp] theorem sendId_pack (b : SendBuffer) : b.pack.sendId = (b.sendId + 1) % 2 ^ 64 := rfl

@[simp] theorem sendId_reset (b : SendBuffer) : b.reset.sendId = b.sendId := rfl

@[simp] theorem bufferSize_pack (b : SendBuffer) : b.pack.bufferSize = b.bufferSize := by
  simp only [pack, setExtraHeader, setLength, setSendId, write]

@[simp] theorem bufferSize_reset (b : SendBuffer) : b.reset.bufferSize = b.bufferSize := rfl

@[simp] theorem sendId_newFrom (payloadSize : Nat) (b : SendBuffer) :
    (newFrom payloadSize b).2.sendId = (b.sendId + 1) % 2 ^ 64 := rfl

@[simp] theorem payload_newFrom (payloadSize : Nat) (b : SendBuffer) :
    (newFrom payloadSize b).2.payload = b.payload := rfl

/-- **What is sent**: after `pack`, the bytes from `packed_offset` on are the frame
of one chunk, with the next id and the bytes that were put. -/
theorem data_pack (b : SendBuffer) :
    b.pack.data = chunkFrame ((b.sendId + 1) % 2 ^ 64) b.payload := by
  have hroom := b.room
  have hsize : headSize = 30 := rfl
  have hextra : extraHeaderSize = 14 := rfl
  -- the two words are adjacent stores in front of the payload
  have hwords : b.setSendId.setLength.buffer = store b.buffer extraHeaderSize
      (toLE 8 ((b.sendId + 1) % 2 ^ 64) ++ toLE 8 b.payload.length) := by
    have hlen : b.setSendId.offset - headSize = b.payload.length := by
      show (store b.buffer extraHeaderSize _).length - headSize = _
      rw [store_length (by rw [toLE_length]; omega), payload, List.length_drop]
    have h := store_store b.buffer extraHeaderSize
      (toLE 8 ((b.sendId + 1) % 2 ^ 64)) (toLE 8 b.payload.length)
      (by rw [toLE_length]; omega)
    rw [toLE_length] at h
    show store (store b.buffer extraHeaderSize _) (extraHeaderSize + 8)
      (toLE 8 (b.setSendId.offset - headSize)) = _
    rw [hlen]
    exact h
  have hbehind : b.setSendId.setLength.buffer.drop extraHeaderSize =
      (RecvBuffer.build ((b.sendId + 1) % 2 ^ 64) b.payload.length b.payload).data := by
    rw [hwords, drop_store _ (by omega), List.length_append, toLE_length, toLE_length]
    rfl
  -- the header is stored right before them
  have hlength : b.setSendId.setLength.buffer.length = b.buffer.length := by
    rw [hwords, store_length (by rw [List.length_append, toLE_length, toLE_length]; omega)]
  have hpayload : 2 * 8 + (b.setSendId.setLength.offset - headSize) = 16 + b.payload.length := by
    rw [offset, hlength, payload, List.length_drop]
  obtain ⟨header, packedOffset, rfl, hoff, -, -, heq⟩ := packHeader_eq (16 + b.payload.length)
    b.setSendId.setLength.rsv_eq b.setSendId.setLength.mask_eq
  have hpack : b.pack.data = (packHeader b.setSendId.setLength.buffer
      (16 + b.payload.length)).2.drop (packHeader b.setSendId.setLength.buffer
        (16 + b.payload.length)).1 := by
    rw [← hpayload]
    rfl
  rw [hpack, heq, drop_store _ (by rw [store_length (by omega)]; omega), hoff,
    drop_store_of_le (Nat.zero_le _) (by omega), hbehind]
  rfl

end SendBuffer

end ZktlsNet
