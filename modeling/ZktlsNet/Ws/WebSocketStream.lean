import ZktlsNet.Io.Loss
import ZktlsNet.Proxy.Messages

/-!
# One frame a write (`ws.h:474-518`)

The connection to the proxy is a `WebSocketStream`: its `SendEx` puts a header in front of
the bytes and hands both to one `::send`. No mask is compiled in. A write that does not take
the whole frame is an exception, also when a part of the frame is already on its way.

- `WebSocketStream.sendEx_eq`: what `SendEx` does, by the frame.
- `reached_eq_wholeWrites_iff`: what has reached the peer is the frames whose writes did not
  fail, exactly when no write was cut short.
-/

namespace ZktlsNet

open NetLib

/-! ## `SendEx` -/

/-- `WebSocketStream::SendEx`. The result of `Send` is compared as a `size_t`. -/
def WebSocketStream.sendEx (s : SocketStream) (buf : Bytes) : Res Int × SocketStream :=
  let (headerBytes, headerData) := genWebSocketHeader (List.replicate 14 0) buf.length none
  let buf2 := headerData.take headerBytes ++ buf
  let (ret, s) := s.send buf2
  if toUInt64 ret ≠ headerBytes + buf.length then
    (.error (.thrown (throwConnectionError s.connectionType "send message error")), s)
  else (.ok buf.length, s)

/-- The frame of a message. -/
def binaryFrame (buf : Bytes) (h : buf.length < 2 ^ 63) : Frame := ⟨true, .binary, none, buf, h⟩

section

variable {buf : Bytes} (h : buf.length < 2 ^ 63)

theorem encode_binaryFrame :
    (binaryFrame buf h).encode = 0x82 :: lengthAndKey none buf.length ++ buf := rfl

theorem length_encode_binaryFrame_le :
    (binaryFrame buf h).encode.length ≤ buf.length + 10 := by
  obtain ⟨-, hheader⟩ := lengthAndKey_length none buf.length
  rw [Option.isSome_none, if_neg Bool.false_ne_true] at hheader
  rw [encode_binaryFrame, List.length_append, List.length_cons]
  omega

/-- **One frame, one write**: the call succeeds when the write was whole. -/
theorem WebSocketStream.sendEx_eq (s : SocketStream) :
    WebSocketStream.sendEx s buf =
      (if (s.send (binaryFrame buf h).encode).1 = (binaryFrame buf h).encode.length then
        .ok buf.length
      else .error (.thrown (throwConnectionError s.connectionType "send message error")),
      (s.send (binaryFrame buf h).encode).2) := by
  have hheader := genWebSocketHeader_eq buf.length none
    (show (WebSocketMessageHeader.read (List.replicate 14 0)).rsv = 0 by decide) (by decide)
  rw [Option.map_none] at hheader
  have hframe : (store (List.replicate 14 0) 0 (0x82 :: lengthAndKey none buf.length)).take
      (0x82 :: lengthAndKey none buf.length).length ++ buf = (binaryFrame buf h).encode := by
    rw [store, List.take_zero, List.nil_append, List.take_left' rfl, encode_binaryFrame]
  have hlen : (0x82 :: lengthAndKey none buf.length).length + buf.length =
      (binaryFrame buf h).encode.length := by
    rw [encode_binaryFrame, List.length_append]
  have hle := length_encode_binaryFrame_le h
  have hret : (s.send (binaryFrame buf h).encode).1 = -1 ∨
      ∃ n : Nat, (s.send (binaryFrame buf h).encode).1 = n ∧
        n ≤ (binaryFrame buf h).encode.length :=
    s.socket.send_fst_nonneg_or _
  have hiff : toUInt64 (s.send (binaryFrame buf h).encode).1 = (binaryFrame buf h).encode.length ↔
      (s.send (binaryFrame buf h).encode).1 = (binaryFrame buf h).encode.length := by
    unfold toUInt64
    rcases hret with hret | ⟨n, hret, hn⟩ <;> rw [hret] <;> omega
  have htype : (s.send (binaryFrame buf h).encode).2.connectionType = s.connectionType := rfl
  rw [WebSocketStream.sendEx, hheader]
  dsimp only
  rw [hframe, hlen]
  by_cases hwhole : (s.send (binaryFrame buf h).encode).1 = (binaryFrame buf h).encode.length
  · rw [if_pos hwhole, if_neg (not_not.mpr (hiff.mpr hwhole))]
  · rw [if_neg hwhole, if_pos fun h => hwhole (hiff.mp h), htype]

end

/-! ## What has reached the peer -/

/-- The buffers whose writes were whole. -/
def wholeWrites (log : List (Bytes × Int)) : List Bytes :=
  (log.filter fun w => w.2 = w.1.length).map Prod.fst

theorem wholeWrites_append (log log' : List (Bytes × Int)) :
    wholeWrites (log ++ log') = wholeWrites log ++ wholeWrites log' := by
  simp [wholeWrites]

theorem wholeWrites_cons_of_whole {bs : Bytes} {ret : Int} (h : ret = bs.length)
    (log : List (Bytes × Int)) : wholeWrites ((bs, ret) :: log) = bs :: wholeWrites log := by
  simp [wholeWrites, h]

theorem wholeWrites_cons_of_ne {bs : Bytes} {ret : Int} (h : ret ≠ bs.length)
    (log : List (Bytes × Int)) : wholeWrites ((bs, ret) :: log) = wholeWrites log := by
  simp [wholeWrites, h]

/-- The log says of every write that it failed or how much of it was taken. -/
def LogOk (log : List (Bytes × Int)) : Prop := ∀ w ∈ log, w.1 ≠ [] ∧ w.2 ≤ w.1.length

/-- What has reached the peer is no less than the whole writes. -/
theorem wholeWrites_length_le (log : List (Bytes × Int)) :
    (wholeWrites log).flatten.length ≤ (log.flatMap fun w => w.1.take w.2.toNat).length := by
  induction log with
  | nil => exact Nat.le_refl _
  | cons w log ih =>
    obtain ⟨bs, ret⟩ := w
    rw [List.flatMap_cons, List.length_append]
    by_cases hwhole : ret = bs.length
    · rw [wholeWrites_cons_of_whole hwhole, List.flatten_cons, List.length_append, hwhole,
        Int.toNat_natCast, List.take_length]
      omega
    · rw [wholeWrites_cons_of_ne hwhole]
      omega

/-- **It is the whole writes exactly if none was cut short.** -/
theorem reached_eq_wholeWrites_iff {log : List (Bytes × Int)} (hlog : LogOk log) :
    (log.flatMap fun w => w.1.take w.2.toNat) = (wholeWrites log).flatten ↔
      ∀ w ∈ log, w.2 ≤ 0 ∨ w.2 = w.1.length := by
  induction log with
  | nil => simp [wholeWrites]
  | cons w log ih =>
    obtain ⟨bs, ret⟩ := w
    obtain ⟨hne, hle⟩ := hlog _ (List.mem_cons_self ..)
    have ih := ih fun w hw => hlog w (List.mem_cons_of_mem _ hw)
    have hpos := List.length_pos_of_ne_nil hne
    rw [List.flatMap_cons, List.forall_mem_cons, ← ih]
    by_cases hwhole : ret = bs.length
    · rw [wholeWrites_cons_of_whole hwhole, List.flatten_cons, hwhole, Int.toNat_natCast,
        List.take_length, List.append_cancel_left_eq]
      simp
    · rw [wholeWrites_cons_of_ne hwhole]
      constructor
      · -- a part of a frame would make it longer
        intro heq
        have hlen := congrArg List.length heq
        rw [List.length_append, List.length_take] at hlen
        have hrest := wholeWrites_length_le log
        have hnone : ret ≤ 0 := by
          dsimp only at hle hlen
          omega
        rw [Int.toNat_of_nonpos hnone, List.take_zero, List.nil_append] at heq
        exact ⟨.inl hnone, heq⟩
      · rintro ⟨hnone | hall, heq⟩
        · rw [Int.toNat_of_nonpos hnone, List.take_zero, List.nil_append, heq]
        · exact absurd hall hwhole

end ZktlsNet
