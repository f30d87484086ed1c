import ZktlsNet.Lib.Bytes
import ZktlsNet.Ws.Failure

/-!
# Streams (`ws.h:287-300`, `ws.h:389-472`)

`ChannelStream` is the byte transport under the WebSocket layer. Its native
implementation, `SocketStream`, writes straight to the kernel and reads through
a 1 MiB buffer of its own.

The kernel is `Socket`: how the peer's bytes are cut into `recv` results and how
each `send` ends are inputs of the model, so a statement about every socket is a
statement about every segmentation and every pattern of short or failed writes.

- `RecvLaws`, `SendLaws`: what the layers above rely on. A stream with
  `RecvLaws` is known by its `pending` bytes alone.
- `SocketStream.recvLaws`: the buffered read has them for every segmentation.
- `SocketStream.sendLaws`: so have writes when the kernel takes them whole.
-/

namespace ZktlsNet

open NetLib

/-! ## The interface -/

/-- `class ChannelStream`. `send` and `sendEx` return the result of the call;
`recv` returns the bytes of one read, `none` for `-1`. -/
class ChannelStream (σ : Type) where
  connectionType : σ → ConnectionType
  send : σ → Bytes → Int × σ
  sendEx : σ → Bytes → Int × σ
  recv : σ → Nat → Option Bytes × σ
  recvEx : σ → Nat → Bytes × σ

/-- `ThrowConnectionError`. -/
def ChannelStream.throwConnectionError {σ : Type} [ChannelStream σ] (stream : σ)
    (desc : String) : Failure :=
  .thrown (ZktlsNet.throwConnectionError (connectionType stream) desc)

/-- Reads return the next of the `pending` bytes, all that was asked for if so
many are left. -/
structure RecvLaws {σ : Type} [ChannelStream σ] (pending : σ → Bytes) : Prop where
  recvEx_fst (s : σ) (n : Nat) : (ChannelStream.recvEx s n).1 = (pending s).take n
  pending_recvEx (s : σ) (n : Nat) :
    pending (ChannelStream.recvEx s n).2 = (pending s).drop n

/-- A read of exactly the bytes in front. -/
theorem RecvLaws.recvEx_append {σ : Type} [ChannelStream σ] {pending : σ → Bytes}
    (laws : RecvLaws pending) {s : σ} {front rest : Bytes} (hs : pending s = front ++ rest)
    {n : Nat} (hn : front.length = n) :
    ∃ s', ChannelStream.recvEx s n = (front, s') ∧ pending s' = rest := by
  refine ⟨(ChannelStream.recvEx s n).2, Prod.ext ?_ rfl, ?_⟩
  · rw [laws.recvEx_fst, hs, List.take_left' hn]
  · rw [laws.pending_recvEx, hs, List.drop_left' hn]

/-- Writes deliver the whole buffer behind what was `sent` before. -/
structure SendLaws {σ : Type} [ChannelStream σ] (ok : σ → Prop) (sent : σ → Bytes) : Prop where
  sendEx_fst (s : σ) (bs : Bytes) : ok s → (ChannelStream.sendEx s bs).1 = bs.length
  sent_sendEx (s : σ) (bs : Bytes) : ok s → sent (ChannelStream.sendEx s bs).2 = sent s ++ bs
  ok_sendEx (s : σ) (bs : Bytes) : ok s → ok (ChannelStream.sendEx s bs).2

/-- Reading does not touch the direction of the writes. -/
structure DuplexLaws {σ : Type} [ChannelStream σ] (ok : σ → Prop) (sent : σ → Bytes) : Prop
    extends SendLaws ok sent where
  ok_recvEx (s : σ) (n : Nat) : ok s → ok (ChannelStream.recvEx s n).2
  sent_recvEx (s : σ) (n : Nat) : sent (ChannelStream.recvEx s n).2 = sent s

/-! ## The kernel socket -/

/-- A piece of the peer's bytes, as one `recv` returns it: never empty. -/
abbrev Segment := { s : Bytes // s ≠ [] }

/-- How a write ends: with `-1`, or with at most `n` bytes taken. -/
inductive WriteOutcome
  | fail
  | accept (n : Nat)
  deriving DecidableEq, Repr

/-- A connected socket: what the peer sends, whether the connection then ends in
an error or in an orderly close, how the coming writes end (once the list is
used up they are whole), and the writes so far with their results. -/
structure Socket where
  incoming : List Segment
  broken : Bool
  outcomes : List WriteOutcome
  log : List (Bytes × Int)
  deriving DecidableEq, Repr

namespace Socket

/-- `::send`. -/
def send (s : Socket) (bs : Bytes) : Int × Socket :=
  match s.outcomes with
  | [] => (bs.length, { s with log := s.log ++ [(bs, (bs.length : Int))] })
  | .fail :: os => (-1, { s with outcomes := os, log := s.log ++ [(bs, -1)] })
  | .accept n :: os =>
    let taken : Int := (min n bs.length : Nat)
    (taken, { s with outcomes := os, log := s.log ++ [(bs, taken)] })

/-- `::recv`, waiting until there is something to return. -/
def recv (s : Socket) (n : Nat) : Option Bytes × Socket :=
  match s.incoming with
  | [] => (if s.broken then none else some [], s)
  | seg :: rest =>
    if h : n < seg.val.length then
      (some (seg.val.take n),
        { s with incoming := ⟨seg.val.drop n, by
            intro hd
            have := congrArg List.length hd
            rw [List.length_drop, List.length_nil] at this
            omega⟩ :: rest })
    else (some seg.val, { s with incoming := rest })

/-- What the peer has still to deliver. -/
def unread (s : Socket) : Bytes := (s.incoming.map Subtype.val).flatten

/-- The leading bytes of the writes that reached the peer. -/
def reached (s : Socket) : Bytes := s.log.flatMap fun w => w.1.take w.2.toNat

/-- A socket that is to receive the given bytes, in one piece. -/
def ofBytes (bs : Bytes) : Socket :=
  ⟨if h : bs = [] then [] else [⟨bs, h⟩], false, [], []⟩

@[simp] theorem unread_ofBytes (bs : Bytes) : (ofBytes bs).unread = bs := by
  by_cases h : bs = [] <;> simp [ofBytes, unread, h]

/-- A read splits the unread bytes, and is empty only when there are none left or
none were asked for. -/
theorem recv_some {s s' : Socket} {n : Nat} {bs : Bytes} (h : s.recv n = (some bs, s')) :
    s.unread = bs ++ s'.unread ∧ bs.length ≤ n ∧ (bs = [] → s.unread = [] ∨ n = 0) := by
  unfold recv at h
  cases hin : s.incoming with
  | nil =>
    rw [hin] at h
    cases hb : s.broken with
    | true => simp [hb] at h
    | false =>
      simp only [hb, Bool.false_eq_true, if_false, Prod.mk.injEq, Option.some.injEq] at h
      obtain ⟨rfl, rfl⟩ := h
      simp [unread, hin]
  | cons seg rest =>
    rw [hin] at h
    by_cases hlt : n < seg.val.length
    · simp only [hlt, dif_pos, Prod.mk.injEq, Option.some.injEq] at h
      obtain ⟨rfl, rfl⟩ := h
      refine ⟨?_, by simp, fun hnil => .inr ?_⟩
      · simp only [unread, hin, List.map_cons, List.flatten_cons]
        rw [← List.append_assoc, List.take_append_drop]
      · have := congrArg List.length hnil
        rw [List.length_take, List.length_nil] at this
        omega
    · simp only [hlt, dif_neg, not_false_eq_true, Prod.mk.injEq, Option.some.injEq] at h
      obtain ⟨rfl, rfl⟩ := h
      refine ⟨by simp [unread, hin], by omega, fun hnil => absurd hnil seg.property⟩

theorem recv_none {s s' : Socket} {n : Nat} (h : s.recv n = (none, s')) :
    s.unread = [] ∧ s' = s := by
  unfold recv at h
  cases hin : s.incoming with
  | nil =>
    rw [hin] at h
    exact ⟨by simp [unread, hin], (Prod.mk.injEq .. ▸ h).2.symm⟩
  | cons seg rest =>
    rw [hin] at h
    by_cases hlt : n < seg.val.length <;> simp [hlt] at h

@[simp] theorem recv_log (s : Socket) (n : Nat) : (s.recv n).2.log = s.log := by
  unfold recv
  split
  · rfl
  · split <;> rfl

@[simp] theorem recv_outcomes (s : Socket) (n : Nat) : (s.recv n).2.outcomes = s.outcomes := by
  unfold recv
  split
  · rfl
  · split <;> rfl

@[simp] theorem send_unread (s : Socket) (bs : Bytes) : (s.send bs).2.unread = s.unread := by
  unfold send
  split <;> rfl

@[simp] theorem recv_send_fst (s : Socket) (bs : Bytes) (n : Nat) :
    ((s.send bs).2.recv n).1 = (s.recv n).1 := by
  have hin : (s.send bs).2.incoming = s.incoming ∧ (s.send bs).2.broken = s.broken := by
    unfold send
    split <;> exact ⟨rfl, rfl⟩
  unfold recv
  rw [hin.1, hin.2]
  split
  · rfl
  · split <;> rfl

theorem send_fst_nonneg_or (s : Socket) (bs : Bytes) :
    (s.send bs).1 = -1 ∨ ∃ n : Nat, (s.send bs).1 = n ∧ n ≤ bs.length := by
  unfold send
  split
  · exact .inr ⟨bs.length, rfl, Nat.le_refl _⟩
  · exact .inl rfl
  · exact .inr ⟨min _ bs.length, rfl, Nat.min_le_right _ _⟩

@[simp] theorem send_log (s : Socket) (bs : Bytes) :
    (s.send bs).2.log = s.log ++ [(bs, (s.send bs).1)] := by
  unfold send
  split <;> rfl

end Socket

/-! ## `SocketStream` -/

/-- `RECV_BUFFER_SIZE`. -/
def recvBufferSize : Nat := 1 * 1024 * 1024

/-- `SocketBuffer`: the first `size` bytes of its array, and the read offset. -/
structure SocketBuffer where
  buf : Bytes
  offset : Nat
  offset_le : offset ≤ buf.length
  size_le : buf.length ≤ recvBufferSize
  deriving DecidableEq, Repr

namespace SocketBuffer

def empty : SocketBuffer := ⟨[], 0, Nat.le_refl _, Nat.zero_le _⟩

def available (b : SocketBuffer) : Nat := b.buf.length - b.offset

def data (b : SocketBuffer) : Bytes := b.buf.drop b.offset

def moveOffset (b : SocketBuffer) (n : Nat) (h : n ≤ b.available) : SocketBuffer :=
  { b with
    offset := b.offset + n
    offset_le := by
      have := b.offset_le
      unfold available at h
      omega }

/-- `reset` after a read into the array, which has room for no more. -/
def reset (received : Bytes) : SocketBuffer :=
  ⟨received.take recvBufferSize, 0, Nat.zero_le _, by
    rw [List.length_take]
    exact Nat.min_le_left _ _⟩

@[simp] theorem data_length (b : SocketBuffer) : b.data.length = b.available := by
  simp [data, available]

@[simp] theorem data_moveOffset (b : SocketBuffer) (n : Nat) (h : n ≤ b.available) :
    (b.moveOffset n h).data = b.data.drop n := by
  simp [data, moveOffset]

@[simp] theorem take_available (b : SocketBuffer) : b.data.take b.available = b.data := by
  rw [← data_length, List.take_length]

theorem data_reset {received : Bytes} (h : received.length ≤ recvBufferSize) :
    (reset received).data = received := by
  simp [reset, data, List.take_of_length_le h]

end SocketBuffer

/-- `SocketStream`. -/
structure SocketStream where
  socket : Socket
  connectionType : ConnectionType
  socketBuffer : SocketBuffer
  deriving DecidableEq, Repr

namespace SocketStream

/-- The constructor. -/
def ofSocket (socket : Socket) (connectionType : ConnectionType) : SocketStream :=
  ⟨socket, connectionType, .empty⟩

/-- `Send`, and `SendEx`: one `::send`. -/
def send (s : SocketStream) (bs : Bytes) : Int × SocketStream :=
  let (ret, socket) := s.socket.send bs
  (ret, { s with socket := socket })

/-- `Recv`: one `::recv`, past the buffer. -/
def recv (s : SocketStream) (n : Nat) : Option Bytes × SocketStream :=
  let (ret, socket) := s.socket.recv n
  (ret, { s with socket := socket })

/-- The bytes still to be read: first the buffered ones. -/
def pending (s : SocketStream) : Bytes := s.socketBuffer.data ++ s.socket.unread

@[simp] theorem pending_ofSocket (socket : Socket) (connectionType : ConnectionType) :
    (ofSocket socket connectionType).pending = socket.unread := rfl

/-- The loop of `RecvEx`: `got` is what `buf` holds so far. -/
def recvExLoop (nbytes : Nat) : Nat → Bytes → SocketStream → Bytes × SocketStream
  | 0, got, s => (got, s)
  | fuel + 1, got, s =>
    let toRead := min s.socketBuffer.available (nbytes - got.length)
    let got := got ++ s.socketBuffer.data.take toRead
    let s := { s with
      socketBuffer := s.socketBuffer.moveOffset toRead (Nat.min_le_left _ _) }
    if got.length < nbytes then
      match s.recv recvBufferSize with
      | (some (b :: bs), s) =>
        recvExLoop nbytes fuel got { s with socketBuffer := .reset (b :: bs) }
      | (_, s) => (got, s)
    else (got, s)

/-- `RecvEx`. Every further pass takes at least one byte from the kernel, so one
pass more than there are bytes is enough. -/
def recvEx (s : SocketStream) (nbytes : Nat) : Bytes × SocketStream :=
  recvExLoop nbytes (s.socket.unread.length + 1) [] s

instance : ChannelStream SocketStream where
  connectionType := SocketStream.connectionType
  send := send
  sendEx := send
  recv := recv
  recvEx := recvEx

/-- A read that empties the buffer goes on in what the kernel has. -/
theorem take_pending (s : SocketStream) {n : Nat} (h : s.socketBuffer.available ≤ n) :
    s.pending.take n =
      s.socketBuffer.data ++ s.socket.unread.take (n - s.socketBuffer.available) := by
  rw [pending, List.take_append, SocketBuffer.data_length,
    List.take_of_length_le (by rwa [SocketBuffer.data_length])]

theorem drop_pending (s : SocketStream) {n : Nat} (h : s.socketBuffer.available ≤ n) :
    s.pending.drop n = s.socket.unread.drop (n - s.socketBuffer.available) := by
  rw [pending, List.drop_append, SocketBuffer.data_length,
    List.drop_of_length_le (by rwa [SocketBuffer.data_length]), List.nil_append]

/-- **One buffered read**: the loop appends the next pending bytes up to the
number asked for, and what is behind them stays pending. -/
theorem recvExLoop_spec (nbytes : Nat) :
    ∀ (fuel : Nat) (got : Bytes) (s : SocketStream), s.socket.unread.length < fuel →
      (recvExLoop nbytes fuel got s).1 = got ++ s.pending.take (nbytes - got.length) ∧
      (recvExLoop nbytes fuel got s).2.pending = s.pending.drop (nbytes - got.length) := by
  intro fuel
  induction fuel with
  | zero => intro _ _ h; omega
  | succ fuel ih =>
    intro got s hfuel
    rw [recvExLoop]
    -- the pass first takes what the buffer has
    by_cases hav : nbytes - got.length ≤ s.socketBuffer.available
    · have hmin : min s.socketBuffer.available (nbytes - got.length) = nbytes - got.length := by
        omega
      have hlen : (got ++ s.socketBuffer.data.take (nbytes - got.length)).length =
          got.length + (nbytes - got.length) := by
        rw [List.length_append, List.length_take, SocketBuffer.data_length]
        omega
      have hge : ¬ (got ++ s.socketBuffer.data.take (nbytes - got.length)).length < nbytes := by
        rw [hlen]
        omega
      simp only [hmin, hge, if_false]
      have hle : nbytes - got.length ≤ s.socketBuffer.data.length := by
        rwa [SocketBuffer.data_length]
      constructor
      · rw [pending, List.take_append_of_le_length hle]
      · rw [pending, pending, SocketBuffer.data_moveOffset, List.drop_append_of_le_length hle]
    · have hmin : min s.socketBuffer.available (nbytes - got.length) =
          s.socketBuffer.available := by omega
      have hlen : (got ++ s.socketBuffer.data).length =
          got.length + s.socketBuffer.available := by
        rw [List.length_append, SocketBuffer.data_length]
      have hlt : (got ++ s.socketBuffer.data).length < nbytes := by omega
      simp only [hmin, SocketBuffer.take_available, hlt, if_true]
      have hleft : nbytes - got.length - s.socketBuffer.available =
          nbytes - (got ++ s.socketBuffer.data).length := by omega
      have hpend := s.take_pending (n := nbytes - got.length) (by omega)
      have hpend' := s.drop_pending (n := nbytes - got.length) (by omega)
      rw [hleft] at hpend hpend'
      -- then it asks the kernel
      unfold recv
      cases hr : s.socket.recv recvBufferSize with
      | mk ret socket =>
        cases ret with
        | none =>
          obtain ⟨hun, rfl⟩ := Socket.recv_none hr
          simp only
          rw [hpend, hpend', hun]
          refine ⟨by simp, ?_⟩
          simp [pending, hun]
        | some bs =>
          obtain ⟨hun, hle, hnil⟩ := Socket.recv_some hr
          cases bs with
          | nil =>
            have hun' : s.socket.unread = [] := by
              rcases hnil rfl with h | h
              · exact h
              · exact absurd h (by decide)
            rw [hun', List.nil_append] at hun
            simp only
            rw [hpend, hpend', hun']
            refine ⟨by simp, ?_⟩
            simp [pending, ← hun]
          | cons b bs =>
            have hfuel' : socket.unread.length < fuel := by
              have := congrArg List.length hun
              rw [List.length_append, List.length_cons] at this
              omega
            have hread := ih (got ++ s.socketBuffer.data)
              { socket := socket, connectionType := s.connectionType,
                socketBuffer := .reset (b :: bs) } hfuel'
            have hp : (SocketStream.mk socket s.connectionType (.reset (b :: bs))).pending =
                s.socket.unread := by
              rw [pending, SocketBuffer.data_reset hle, hun]
            rw [hp, List.append_assoc, ← hpend, ← hpend'] at hread
            exact hread

/-- **The buffered read is independent of the segmentation.** -/
theorem recvLaws : RecvLaws SocketStream.pending where
  recvEx_fst s n := by
    show (recvExLoop n _ [] s).1 = s.pending.take n
    rw [(recvExLoop_spec n _ [] s (Nat.lt_succ_self _)).1]
    rfl
  pending_recvEx s n := by
    show (recvExLoop n _ [] s).2.pending = s.pending.drop n
    rw [(recvExLoop_spec n _ [] s (Nat.lt_succ_self _)).2]
    rfl

/-- Writes that the kernel takes whole deliver every buffer. -/
theorem sendLaws : SendLaws (fun s : SocketStream => s.socket.outcomes = [])
    (fun s => s.socket.reached) where
  sendEx_fst s bs h := by
    show (s.socket.send bs).1 = bs.length
    simp [Socket.send, h]
  sent_sendEx s bs h := by
    show (s.socket.send bs).2.reached = s.socket.reached ++ bs
    simp [Socket.send, h, Socket.reached]
  ok_sendEx s bs h := by
    show (s.socket.send bs).2.outcomes = []
    simp [Socket.send, h]

/-- Reading leaves the log of the writes and the coming outcomes alone. -/
theorem recvEx_writes (s : SocketStream) (n : Nat) :
    (s.recvEx n).2.socket.outcomes = s.socket.outcomes ∧
      (s.recvEx n).2.socket.log = s.socket.log := by
  have hloop : ∀ (fuel : Nat) (got : Bytes) (s : SocketStream),
      (recvExLoop n fuel got s).2.socket.outcomes = s.socket.outcomes ∧
        (recvExLoop n fuel got s).2.socket.log = s.socket.log := by
    intro fuel
    induction fuel with
    | zero =>
      intro _ _
      exact ⟨rfl, rfl⟩
    | succ fuel ih =>
      intro got s
      have houtcomes := s.socket.recv_outcomes recvBufferSize
      have hlog := s.socket.recv_log recvBufferSize
      unfold recvExLoop
      simp only [recv]
      split
      · generalize s.socket.recv recvBufferSize = result at houtcomes hlog
        obtain ⟨_ | _ | ⟨b, bs⟩, socket⟩ := result
        · exact ⟨houtcomes, hlog⟩
        · exact ⟨houtcomes, hlog⟩
        · obtain ⟨ih₁, ih₂⟩ := ih (got ++ s.socketBuffer.data.take
            (min s.socketBuffer.available (n - got.length)))
            ⟨socket, s.connectionType, .reset (b :: bs)⟩
          exact ⟨ih₁.trans houtcomes, ih₂.trans hlog⟩
      · exact ⟨rfl, rfl⟩
  exact hloop _ [] s

/-- The two directions of a socket do not meet. -/
theorem duplexLaws : DuplexLaws (fun s : SocketStream => s.socket.outcomes = [])
    (fun s => s.socket.reached) where
  toSendLaws := sendLaws
  ok_recvEx s n h := by
    show (s.recvEx n).2.socket.outcomes = []
    rw [(s.recvEx_writes n).1, h]
  sent_recvEx s n := by
    show (s.recvEx n).2.socket.reached = s.socket.reached
    rw [Socket.reached, (s.recvEx_writes n).2, Socket.reached]

end SocketStream

end ZktlsNet
