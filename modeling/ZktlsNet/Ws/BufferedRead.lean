import ZktlsNet.Lib.Buffer
import ZktlsNet.Ws.Stream

/-!
# The buffered read, in memory (`ws.h:391-450`)

`SocketStream` of `Ws.Stream` keeps the received bytes as a list. Here the receive buffer
is its array with `size` and `offset`, every `memcpy` is checked against both blocks, the
caller's buffer has whatever was in it, and `Recv` has its loop over interrupted calls.

The kernel is a script: the results of the coming `::recv` calls, and the result that all
later ones have.

- `recvEx_spec`: one `RecvEx`.
- `recvExs_run`: any sequence of them, for every segmentation of what the peer sends.
- `recvEx_refines`: the buffered read of `Ws.Stream` returns the same bytes.
-/

namespace ZktlsNet

open NetLib

/-! ## The kernel -/

/-- What one `::recv` may put into the receive buffer. -/
abbrev Piece := { bs : Bytes // bs ≠ [] ∧ bs.length ≤ recvBufferSize }

/-- The values of `errno` for which `Recv` tries again. -/
inductive Interruption
  | eagain
  | eintr
  deriving DecidableEq, Repr

/-- A result `<= 0` of `::recv`: the peer has closed, or `-1` with an `errno`. -/
inductive RecvEnd
  | closed
  | interrupted (errno : Interruption)
  | failed (errno : Nat)
  deriving DecidableEq, Repr

/-- `ret == -1 && (errno == EAGAIN || errno == EINTR)`. -/
def RecvEnd.retried : RecvEnd → Bool
  | .interrupted _ => true
  | _ => false

/-- The results of `::recv`: those that are `coming`, then `last` for ever. `log` has an
entry for every call so far: the bytes that were buffered, and those that were missing. -/
structure RecvScript where
  coming : List (Except Interruption Piece)
  last : RecvEnd
  log : List (Nat × Nat)
  deriving DecidableEq

namespace RecvScript

/-- The bytes that the peer sends. -/
def stream : List (Except Interruption Piece) → Bytes
  | [] => []
  | .error _ :: coming => stream coming
  | .ok piece :: coming => piece.val ++ stream coming

/-- The loop of `Recv`, with the entry for the log; `none` where it never ends, since a
result that it tries again on is there for ever. -/
def recvLoop (recvAgain : Bool) (last : RecvEnd) (entry : Nat × Nat) :
    List (Except Interruption Piece) → List (Nat × Nat) →
      Option (Except RecvEnd Piece × RecvScript)
  | [], log =>
    if last.retried && recvAgain then none else some (.error last, ⟨[], last, log ++ [entry]⟩)
  | .error errno :: coming, log =>
    if recvAgain then recvLoop recvAgain last entry coming (log ++ [entry])
    else some (.error (.interrupted errno), ⟨coming, last, log ++ [entry]⟩)
  | .ok piece :: coming, log => some (.ok piece, ⟨coming, last, log ++ [entry]⟩)

/-- `Recv`. -/
def recv (recvAgain : Bool) (entry : Nat × Nat) (k : RecvScript) :
    Option (Except RecvEnd Piece × RecvScript) :=
  recvLoop recvAgain k.last entry k.coming k.log

/-- No call is interrupted before the end. -/
def Uninterrupted (coming : List (Except Interruption Piece)) : Prop :=
  ∀ r ∈ coming, ∃ piece, r = .ok piece

end RecvScript

/-! ## The buffer -/

/-- `SocketBuffer`. -/
structure RawSocketBuffer where
  buf : Bytes
  size : Nat
  offset : Nat
  deriving DecidableEq, Repr

/-- The `int` that a `size_t` is narrowed to. -/
def intOfSize (n : Nat) : Int := (n : Int).bmod (2 ^ 32)

/-- `memcpy` between two blocks of memory. -/
def memcpy (dst : Bytes) (dstOff : Nat) (src : Bytes) (srcOff n : Nat) : Res Bytes :=
  if dstOff + n ≤ dst.length ∧ srcOff + n ≤ src.length then
    .ok (store dst dstOff (slice src srcOff n))
  else .error (.fault .outOfBounds)

namespace RawSocketBuffer

/-- The constructor; the array is not initialised. -/
def init (array : Vector UInt8 recvBufferSize) : RawSocketBuffer := ⟨array.toList, 0, 0⟩

def available (b : RawSocketBuffer) : Nat := b.size - b.offset

def moveOffset (b : RawSocketBuffer) (n : Nat) : RawSocketBuffer :=
  { b with offset := b.offset + n }

/-- `reset`, after the kernel has written the bytes of one `::recv` into the array. -/
def reset (b : RawSocketBuffer) (piece : Piece) : RawSocketBuffer :=
  ⟨store b.buf 0 piece.val, (intOfSize piece.val.length).toNat, 0⟩

/-- The bytes that are buffered. -/
def unread (b : RawSocketBuffer) : Bytes := slice b.buf b.offset b.available

structure Ok (b : RawSocketBuffer) : Prop where
  buf_length : b.buf.length = recvBufferSize
  offset_le : b.offset ≤ b.size
  size_le : b.size ≤ recvBufferSize

end RawSocketBuffer

/-! ## `RecvEx` -/

/-- The part of a `SocketStream` that reads. -/
structure BufferedStream where
  script : RecvScript
  recvAgain : Bool
  socketBuffer : RawSocketBuffer
  deriving DecidableEq

namespace BufferedStream

/-- The constructor, on a connection with the given results. -/
def init (array : Vector UInt8 recvBufferSize) (coming : List (Except Interruption Piece))
    (last : RecvEnd) (recvAgain : Bool) : BufferedStream :=
  ⟨⟨coming, last, []⟩, recvAgain, .init array⟩

/-- The first half of a pass: `recv_bytes`, the caller's buffer and the receive buffer
after what is buffered has been copied. -/
def takeBuffered (recvBytes : Nat) (dst : Bytes) (b : RawSocketBuffer) :
    Res (Nat × Bytes × RawSocketBuffer) := do
  let toReadBytes := intOfSize (min b.available (dst.length - recvBytes))
  if toReadBytes > 0 then
    let dst ← memcpy dst recvBytes b.buf b.offset toReadBytes.toNat
    return (recvBytes + toReadBytes.toNat, dst, b.moveOffset toReadBytes.toNat)
  else return (recvBytes, dst, b)

/-- The loop of `RecvEx(buf, nbytes)`, where `dst` is `buf` with its `nbytes` bytes; `none`
where it never returns. -/
def recvExLoop : Nat → Nat → Bytes → BufferedStream →
    Res (Option (Nat × Bytes × BufferedStream))
  | 0, _, _, _ => .error .outOfFuel
  | fuel + 1, recvBytes, dst, s => do
    let (recvBytes, dst, b) ← takeBuffered recvBytes dst s.socketBuffer
    if recvBytes < dst.length then
      match s.script.recv s.recvAgain (b.available, dst.length - recvBytes) with
      | none => return none
      | some (.error _, script) => return some (recvBytes, dst, ⟨script, s.recvAgain, b⟩)
      | some (.ok piece, script) =>
        recvExLoop fuel recvBytes dst ⟨script, s.recvAgain, b.reset piece⟩
    else return some (recvBytes, dst, ⟨s.script, s.recvAgain, b⟩)

/-- `RecvEx`: what it returns, the caller's buffer and the stream afterwards. Every pass
but the last uses up a coming result. -/
def recvEx (dst : Bytes) (s : BufferedStream) : Res (Option (Nat × Bytes × BufferedStream)) :=
  recvExLoop (s.script.coming.length + 1) 0 dst s

/-- One `RecvEx` after the other, into the given buffers; the bytes that each returns. -/
def recvExs : List Bytes → BufferedStream → Res (Option (List Bytes × BufferedStream))
  | [], s => return some ([], s)
  | dst :: dsts, s => do
    match ← s.recvEx dst with
    | none => return none
    | some (n, dst, s) =>
      match ← recvExs dsts s with
      | none => return none
      | some (outs, s) => return some (dst.take n :: outs, s)

end BufferedStream

/-! ## The receive buffer -/

theorem intOfSize_of_le {n : Nat} (h : n ≤ recvBufferSize) : intOfSize n = n := by
  unfold recvBufferSize at h
  exact Int.bmod_eq_of_le (by omega) (by omega)

namespace RawSocketBuffer

theorem init_ok (array : Vector UInt8 recvBufferSize) : (init array).Ok where
  buf_length := array.size_toArray
  offset_le := Nat.le_refl _
  size_le := Nat.zero_le _

@[simp] theorem unread_init (array : Vector UInt8 recvBufferSize) : (init array).unread = [] :=
  List.take_zero (l := array.toList)

variable {b : RawSocketBuffer}

theorem Ok.slice_le (h : b.Ok) : b.offset + b.available ≤ b.buf.length := by
  have hoff := h.offset_le
  have hsize := h.size_le
  rw [h.buf_length, available]
  omega

theorem Ok.unread_length (h : b.Ok) : b.unread.length = b.available := slice_length h.slice_le

theorem Ok.available_le (h : b.Ok) : b.available ≤ recvBufferSize :=
  Nat.le_trans (Nat.sub_le _ _) h.size_le

theorem Ok.moveOffset (h : b.Ok) {n : Nat} (hn : n ≤ b.available) : (b.moveOffset n).Ok where
  buf_length := h.buf_length
  offset_le := by
    have hoff := h.offset_le
    unfold available at hn
    show b.offset + n ≤ b.size
    omega
  size_le := h.size_le

/-- Moving the offset on drops what was in front. -/
theorem unread_moveOffset (n : Nat) : (b.moveOffset n).unread = b.unread.drop n := by
  rw [unread, unread, slice, slice, List.drop_take, List.drop_drop]
  congr 1
  rw [available, available, Nat.sub_sub]
  rfl

/-- Nothing is left when all has been copied. -/
theorem Ok.unread_emptied (h : b.Ok) : (b.moveOffset b.available).unread = [] := by
  rw [unread_moveOffset, ← h.unread_length, List.drop_length]

theorem Ok.available_emptied (h : b.Ok) : (b.moveOffset b.available).available = 0 := by
  rw [← (h.moveOffset (Nat.le_refl _)).unread_length, h.unread_emptied, List.length_nil]

theorem Ok.reset (h : b.Ok) (piece : Piece) : (b.reset piece).Ok where
  buf_length := by
    rw [RawSocketBuffer.reset, store_length (by rw [h.buf_length, Nat.zero_add]; exact piece.2.2),
      h.buf_length]
  offset_le := Nat.zero_le _
  size_le := by
    rw [RawSocketBuffer.reset, intOfSize_of_le piece.2.2]
    exact piece.2.2

/-- After a reset the buffer holds what was received. -/
theorem unread_reset (b : RawSocketBuffer) (piece : Piece) :
    (b.reset piece).unread = piece.val := by
  rw [unread, available, reset, intOfSize_of_le piece.2.2]
  exact slice_store_self (Nat.zero_le _)

end RawSocketBuffer

namespace RecvScript

/-- What a `Recv` leaves of the script. -/
structure Follows (last : RecvEnd) (entry : Nat × Nat) (coming : List (Except Interruption Piece))
    (log : List (Nat × Nat)) (k : RecvScript) : Prop where
  last : k.last = last
  coming : k.coming <:+ coming
  log : ∀ e ∈ k.log, e ∈ log ∨ e = entry

theorem Follows.one (last : RecvEnd) (entry : Nat × Nat)
    {coming rest : List (Except Interruption Piece)} (log : List (Nat × Nat))
    (h : rest <:+ coming) : Follows last entry coming log ⟨rest, last, log ++ [entry]⟩ where
  last := rfl
  coming := h
  log e he := by simpa using he

/-- **What `Recv` does** where it tries again on every interruption, or none is coming: it
never returns, or the script is at its end, or it gives the next piece. -/
theorem recvLoop_cases {recvAgain : Bool} (last : RecvEnd) (entry : Nat × Nat)
    {coming : List (Except Interruption Piece)} (log : List (Nat × Nat))
    (h : recvAgain = true ∨ Uninterrupted coming) :
    (recvLoop recvAgain last entry coming log = none ∧ (last.retried && recvAgain) = true ∧
      stream coming = []) ∨
    (∃ k, recvLoop recvAgain last entry coming log = some (.error last, k) ∧
      (last.retried && recvAgain) = false ∧ stream coming = [] ∧ k.coming = [] ∧
      Follows last entry coming log k) ∨
    (∃ piece k, recvLoop recvAgain last entry coming log = some (.ok piece, k) ∧
      stream coming = piece.val ++ stream k.coming ∧ k.coming.length < coming.length ∧
      Follows last entry coming log k) := by
  induction coming generalizing log with
  | nil =>
    cases hstuck : last.retried && recvAgain with
    | true => exact .inl ⟨by simp [recvLoop, hstuck], rfl, rfl⟩
    | false =>
      refine .inr (.inl ⟨_, ?_, rfl, rfl, rfl, .one last entry log List.suffix_rfl⟩)
      simp [recvLoop, hstuck]
  | cons r coming ih =>
    cases r with
    | ok piece =>
      exact .inr (.inr ⟨piece, _, rfl, rfl, Nat.lt_succ_self _,
        .one last entry log (List.suffix_cons _ _)⟩)
    | error errno =>
      -- an interruption means that `recv_again` is set
      have hagain : recvAgain = true := by
        rcases h with h | h
        · exact h
        · obtain ⟨piece, hpiece⟩ := h _ List.mem_cons_self
          cases hpiece
      have hnext : recvLoop recvAgain last entry (.error errno :: coming) log =
          recvLoop recvAgain last entry coming (log ++ [entry]) := by
        rw [recvLoop, if_pos hagain]
      have hfollows : ∀ {k}, Follows last entry coming (log ++ [entry]) k →
          Follows last entry (.error errno :: coming) log k := by
        intro k hk
        refine ⟨hk.last, hk.coming.trans (List.suffix_cons _ _), ?_⟩
        intro e he
        simpa [or_assoc] using hk.log e he
      rw [hnext]
      rcases ih (log ++ [entry]) (.inl hagain) with hnone | ⟨k, hk, hlast, hstream, hnil, hf⟩ |
        ⟨piece, k, hk, hstream, hlen, hf⟩
      · exact .inl hnone
      · exact .inr (.inl ⟨k, hk, hlast, hstream, hnil, hfollows hf⟩)
      · exact .inr (.inr ⟨piece, k, hk, hstream, Nat.lt_succ_of_lt hlen, hfollows hf⟩)

end RecvScript

namespace BufferedStream

/-- **The first half of a pass** copies what is buffered, as far as the caller's buffer has
room behind what it has got. -/
theorem takeBuffered_eq {b : RawSocketBuffer} (h : b.Ok) (got rest : Bytes) :
    takeBuffered got.length (got ++ rest) b =
      .ok (got.length + min b.available rest.length,
        got ++ b.unread.take (min b.available rest.length) ++
          rest.drop (min b.available rest.length),
        b.moveOffset (min b.available rest.length)) := by
  have hroom : (got ++ rest).length - got.length = rest.length := by
    rw [List.length_append, Nat.add_sub_cancel_left]
  have hav : min b.available rest.length ≤ b.available := Nat.min_le_left _ _
  have hint : intOfSize (min b.available rest.length) = (min b.available rest.length : Nat) :=
    intOfSize_of_le (Nat.le_trans hav h.available_le)
  unfold takeBuffered
  rw [hroom, hint]
  by_cases hpos : 0 < min b.available rest.length
  · have hsrc := h.slice_le
    have hbytes : slice b.buf b.offset (min b.available rest.length) =
        b.unread.take (min b.available rest.length) := by
      rw [RawSocketBuffer.unread, slice, slice, List.take_take, Nat.min_eq_left hav]
    have hlen : (b.unread.take (min b.available rest.length)).length =
        min b.available rest.length := by
      rw [List.length_take, h.unread_length, Nat.min_eq_left hav]
    have hcopy : memcpy (got ++ rest) got.length b.buf b.offset (min b.available rest.length) =
        .ok (got ++ b.unread.take (min b.available rest.length) ++
          rest.drop (min b.available rest.length)) := by
      rw [memcpy, if_pos ⟨by rw [List.length_append]; omega, by omega⟩, hbytes, store_append, hlen]
    rw [if_pos (by omega), Int.toNat_natCast, hcopy]
    rfl
  · have hzero : min b.available rest.length = 0 := by omega
    rw [if_neg (by omega), hzero]
    simp [RawSocketBuffer.moveOffset]

/-- The bytes still to be read: first the buffered ones. -/
def pending (s : BufferedStream) : Bytes :=
  s.socketBuffer.unread ++ RecvScript.stream s.script.coming

/-- The connection ends with a result that `Recv` tries again on for ever. -/
def stuck (s : BufferedStream) : Bool := s.script.last.retried && s.recvAgain

/-- What holds between the calls. Every call of the kernel was made when fewer bytes were
buffered than missing. -/
structure Ok (s : BufferedStream) : Prop where
  socketBuffer : s.socketBuffer.Ok
  patient : s.recvAgain = true ∨ RecvScript.Uninterrupted s.script.coming
  log : ∀ e ∈ s.script.log, e.1 < e.2

theorem init_ok (array : Vector UInt8 recvBufferSize) {coming : List (Except Interruption Piece)}
    (last : RecvEnd) {recvAgain : Bool}
    (h : recvAgain = true ∨ RecvScript.Uninterrupted coming) :
    (init array coming last recvAgain).Ok where
  socketBuffer := RawSocketBuffer.init_ok array
  patient := h
  log e he := by cases he

/-- The rest of a script and an entry that may be logged keep the invariant. -/
theorem Ok.follows {s : BufferedStream} (h : s.Ok) {b : RawSocketBuffer} (hb : b.Ok)
    {entry : Nat × Nat} (hentry : entry.1 < entry.2) {k : RecvScript}
    (hk : RecvScript.Follows s.script.last entry s.script.coming s.script.log k) :
    Ok ⟨k, s.recvAgain, b⟩ where
  socketBuffer := hb
  patient := h.patient.imp_right fun hc r hr => hc r (hk.coming.subset hr)
  log e he := by
    rcases hk.log e he with he | rfl
    · exact h.log e he
    · exact hentry

theorem stuck_follows {s : BufferedStream} {entry : Nat × Nat} {k : RecvScript}
    (hk : RecvScript.Follows s.script.last entry s.script.coming s.script.log k)
    (b : RawSocketBuffer) : stuck ⟨k, s.recvAgain, b⟩ = s.stuck := by
  rw [stuck, stuck, hk.last]

/-- What a call does that has got some bytes before, and has room for `rest.length` more. -/
structure Reads (s : BufferedStream) (got rest : Bytes) (n : Nat) (dst : Bytes)
    (s' : BufferedStream) : Prop where
  count : n = got.length + min rest.length s.pending.length
  bytes : dst = got ++ s.pending.take rest.length ++ rest.drop s.pending.length
  pending : s'.pending = s.pending.drop rest.length
  ok : s'.Ok
  stuck : s'.stuck = s.stuck
  script : rest.length ≤ s.socketBuffer.available → s'.script = s.script
  returns : s.pending.length < rest.length → s.stuck = false

/-- A pass that the buffer suffices for is the last one. -/
theorem reads_buffered {s : BufferedStream} (h : s.Ok) (got : Bytes) {rest : Bytes}
    (hle : rest.length ≤ s.socketBuffer.available) :
    Reads s got rest (got.length + rest.length) (got ++ s.socketBuffer.unread.take rest.length)
      ⟨s.script, s.recvAgain, s.socketBuffer.moveOffset rest.length⟩ := by
  have hunread := h.socketBuffer.unread_length
  have hpending : rest.length ≤ s.pending.length := by
    rw [BufferedStream.pending, List.length_append]
    omega
  refine ⟨by omega, ?_, ?_, ⟨h.socketBuffer.moveOffset hle, h.patient, h.log⟩, rfl, fun _ => rfl,
    by omega⟩
  · rw [List.drop_of_length_le hpending, List.append_nil, BufferedStream.pending,
      List.take_append_of_le_length (by omega)]
  · rw [BufferedStream.pending, BufferedStream.pending, RawSocketBuffer.unread_moveOffset,
      List.drop_append_of_le_length (by omega)]

/-- What a call does after a pass that has emptied the buffer. -/
theorem Reads.behind {s s₁ s' : BufferedStream} (h : s.Ok) {got rest dst : Bytes} {n : Nat}
    (hlt : s.socketBuffer.available < rest.length)
    (hpending : s.pending = s.socketBuffer.unread ++ s₁.pending) (hstuck : s₁.stuck = s.stuck)
    (hr : Reads s₁ (got ++ s.socketBuffer.unread) (rest.drop s.socketBuffer.available) n dst s') :
    Reads s got rest n dst s' := by
  have hunread := h.socketBuffer.unread_length
  have hlen : (rest.drop s.socketBuffer.available).length =
      rest.length - s.socketBuffer.available := List.length_drop
  have htotal : s.pending.length = s.socketBuffer.available + s₁.pending.length := by
    rw [hpending, List.length_append, hunread]
  have htake : s.socketBuffer.unread.take rest.length = s.socketBuffer.unread :=
    List.take_of_length_le (by omega)
  have hdrop : s.socketBuffer.unread.drop rest.length = [] := List.drop_of_length_le (by omega)
  refine ⟨?_, ?_, ?_, hr.ok, hr.stuck.trans hstuck, by omega, ?_⟩
  · rw [hr.count, hlen, List.length_append]
    omega
  · rw [hr.bytes, hlen, htotal, hpending, List.take_append, hunread, htake, List.drop_drop,
      List.append_assoc got s.socketBuffer.unread]
  · rw [hr.pending, hlen, hpending, List.drop_append, hunread, hdrop, List.nil_append]
  · intro hshort
    rw [← hstuck]
    exact hr.returns (by omega)

/-- A connection at its end gives nothing more. -/
theorem reads_nothing {s : BufferedStream} (h : s.Ok) (hend : s.pending = [])
    (hstuck : s.stuck = false) (got rest : Bytes) :
    Reads s got rest got.length (got ++ rest) s where
  count := by simp [hend]
  bytes := by simp [hend]
  pending := by simp [hend]
  ok := h
  stuck := rfl
  script _ := rfl
  returns _ := hstuck

/-- A pass that the buffer does not suffice for: what is buffered has been copied, and the
kernel is asked. -/
theorem recvExLoop_missing {s : BufferedStream} (h : s.Ok) (got : Bytes) {rest : Bytes}
    (hlt : s.socketBuffer.available < rest.length) (fuel : Nat) :
    let got' := got ++ s.socketBuffer.unread
    let dst := got' ++ rest.drop s.socketBuffer.available
    let b := s.socketBuffer.moveOffset s.socketBuffer.available
    let asked := s.script.recv s.recvAgain (0, rest.length - s.socketBuffer.available)
    let pass := recvExLoop (fuel + 1) got.length (got ++ rest) s
    (asked = none → pass = .ok none) ∧
      (∀ e k, asked = some (.error e, k) →
        pass = .ok (some (got'.length, dst, ⟨k, s.recvAgain, b⟩))) ∧
      ∀ piece k, asked = some (.ok piece, k) →
        pass = recvExLoop fuel got'.length dst ⟨k, s.recvAgain, b.reset piece⟩ := by
  intro got' dst b asked pass
  have hunread := h.socketBuffer.unread_length
  have hall : s.socketBuffer.unread.take s.socketBuffer.available = s.socketBuffer.unread :=
    List.take_of_length_le (by omega)
  have hgot : got.length + s.socketBuffer.available = got'.length := by
    rw [List.length_append, hunread]
  have hdst : dst.length = got'.length + (rest.length - s.socketBuffer.available) := by
    rw [List.length_append, List.length_drop]
  have htake :
      takeBuffered got.length (got ++ rest) s.socketBuffer = .ok (got'.length, dst, b) := by
    rw [takeBuffered_eq h.socketBuffer, Nat.min_eq_left (Nat.le_of_lt hlt), hall, hgot]
  have hmissing : got'.length < dst.length := by omega
  have hentry : (b.available, dst.length - got'.length) =
      (0, rest.length - s.socketBuffer.available) := by
    rw [h.socketBuffer.available_emptied, hdst, Nat.add_sub_cancel_left]
  have hpass : ∀ r, asked = r → s.script.recv s.recvAgain (b.available, dst.length - got'.length) =
      r := fun r hr => by rw [hentry]; exact hr
  refine ⟨fun hr => ?_, fun e k hr => ?_, fun piece k hr => ?_⟩ <;>
    simp only [pass, recvExLoop, htake, ok_bind, if_pos hmissing, hpass _ hr] <;> rfl

/-- **The loop of `RecvEx`**: it reads, or it never returns since the connection ends in an
interruption for ever before there are bytes enough. -/
theorem recvExLoop_spec (fuel : Nat) :
    ∀ (got rest : Bytes) (s : BufferedStream), s.Ok → s.script.coming.length < fuel →
      (recvExLoop fuel got.length (got ++ rest) s = .ok none ∧ s.stuck = true ∧
        s.pending.length < rest.length) ∨
      ∃ n dst s', recvExLoop fuel got.length (got ++ rest) s = .ok (some (n, dst, s')) ∧
        Reads s got rest n dst s' := by
  induction fuel with
  | zero =>
    intro _ _ _ _ hfuel
    omega
  | succ fuel ih =>
    intro got rest s h hfuel
    have hunread := h.socketBuffer.unread_length
    by_cases hle : rest.length ≤ s.socketBuffer.available
    · -- the buffer suffices
      have hdone : ¬ got.length + rest.length <
          (got ++ s.socketBuffer.unread.take rest.length ++ ([] : Bytes)).length := by
        simp only [List.length_append, List.length_take, List.length_nil]
        omega
      rw [recvExLoop, takeBuffered_eq h.socketBuffer, Nat.min_eq_right hle, List.drop_length,
        ok_bind]
      refine .inr ⟨_, _, _, if_neg hdone, ?_⟩
      rw [List.append_nil]
      exact reads_buffered h got hle
    · -- all that is buffered has been copied, and more is missing
      have hlt : s.socketBuffer.available < rest.length := by omega
      have hpending : s.pending = s.socketBuffer.unread ++ RecvScript.stream s.script.coming := rfl
      have hbuf := h.socketBuffer.moveOffset (Nat.le_refl _)
      have hlog : (0, rest.length - s.socketBuffer.available).1 <
          (0, rest.length - s.socketBuffer.available).2 := Nat.sub_pos_of_lt hlt
      obtain ⟨hnever, hended, hgiven⟩ := recvExLoop_missing h got hlt fuel
      rcases RecvScript.recvLoop_cases s.script.last (0, rest.length - s.socketBuffer.available)
        s.script.log h.patient with ⟨hrecv, hstuck, hend⟩ | ⟨k, hrecv, hstuck, hend, hnil, hf⟩ |
        ⟨piece, k, hrecv, hstream, hshorter, hf⟩
      · refine .inl ⟨hnever hrecv, hstuck, ?_⟩
        rw [hpending, hend, List.append_nil, hunread]
        exact hlt
      · have hlast := stuck_follows hf (s.socketBuffer.moveOffset s.socketBuffer.available)
        have hend' : pending ⟨k, s.recvAgain,
            s.socketBuffer.moveOffset s.socketBuffer.available⟩ = [] := by
          rw [pending, h.socketBuffer.unread_emptied, hnil]
          rfl
        refine .inr ⟨_, _, _, hended _ k hrecv, Reads.behind h hlt ?_ hlast
          (reads_nothing (h.follows hbuf hlog hf) hend' (hlast.trans hstuck) _ _)⟩
        rw [hend', hpending, hend]
      · have hlast := stuck_follows hf
          ((s.socketBuffer.moveOffset s.socketBuffer.available).reset piece)
        have hnext : pending ⟨k, s.recvAgain,
            (s.socketBuffer.moveOffset s.socketBuffer.available).reset piece⟩ =
            RecvScript.stream s.script.coming := by
          rw [pending, RawSocketBuffer.unread_reset, hstream]
        rw [hgiven piece k hrecv]
        rcases ih (got ++ s.socketBuffer.unread) (rest.drop s.socketBuffer.available) _
          (h.follows (hbuf.reset piece) hlog hf) (by show k.coming.length < fuel; omega) with
          ⟨hrun, hstuck, hshort⟩ | ⟨n, dst, s', hrun, hreads⟩
        · refine .inl ⟨hrun, hlast ▸ hstuck, ?_⟩
          rw [hnext, List.length_drop] at hshort
          rw [hpending, List.length_append, hunread]
          omega
        · refine .inr ⟨n, dst, s', hrun, Reads.behind h hlt ?_ hlast hreads⟩
          rw [hnext, hpending]

/-- **One `RecvEx`.** -/
theorem recvEx_spec {s : BufferedStream} (h : s.Ok) (dst : Bytes) :
    (s.recvEx dst = .ok none ∧ s.stuck = true ∧ s.pending.length < dst.length) ∨
      ∃ n dst' s', s.recvEx dst = .ok (some (n, dst', s')) ∧ Reads s [] dst n dst' s' :=
  recvExLoop_spec _ [] dst s h (Nat.lt_succ_self _)

/-- The bytes that a call returns, and those of the caller's buffer behind them. -/
theorem Reads.split {s s' : BufferedStream} {dst dst' : Bytes} {n : Nat}
    (h : Reads s [] dst n dst' s') :
    dst'.take n = s.pending.take dst.length ∧ dst'.drop n = dst.drop n := by
  have hlen : (s.pending.take dst.length).length = n := by
    rw [h.count, List.length_take, List.length_nil, Nat.zero_add]
  rw [h.bytes, List.nil_append, List.take_left' hlen, List.drop_left' hlen]
  refine ⟨rfl, ?_⟩
  rw [h.count, List.length_nil, Nat.zero_add]
  rcases Nat.le_total dst.length s.pending.length with hle | hle
  · rw [Nat.min_eq_left hle, List.drop_length, List.drop_of_length_le hle]
  · rw [Nat.min_eq_right hle]

/-- **Run lemma**: the calls so far have returned the front of what was pending. -/
theorem recvExs_spec (dsts : List Bytes) {s : BufferedStream} (h : s.Ok) :
    recvExs dsts s = .ok none ∨
      ∃ outs s', recvExs dsts s = .ok (some (outs, s')) ∧ s'.Ok ∧ s'.stuck = s.stuck ∧
        outs.flatten ++ s'.pending = s.pending := by
  induction dsts generalizing s with
  | nil => exact .inr ⟨[], s, rfl, h, rfl, rfl⟩
  | cons dst dsts ih =>
    rw [recvExs]
    rcases recvEx_spec h dst with ⟨hrun, -⟩ | ⟨n, dst', s₁, hrun, hreads⟩
    · exact .inl (by rw [hrun]; rfl)
    · rw [hrun, ok_bind]
      rcases ih hreads.ok with hnone | ⟨outs, s', hsome, hok, hstuck, hbytes⟩
      · exact .inl (by simp only [hnone]; rfl)
      · refine .inr ⟨_, s', by simp only [hsome]; rfl, hok, hstuck.trans hreads.stuck, ?_⟩
        rw [List.flatten_cons, List.append_assoc, hbytes, hreads.split.1, hreads.pending,
          List.take_append_drop]

/-- **The buffered read of `Ws.Stream`** gives the same bytes when the same are pending. -/
theorem recvEx_refines {s s' : BufferedStream} (h : s.Ok) {dst dst' : Bytes} {n : Nat}
    (hrun : s.recvEx dst = .ok (some (n, dst', s'))) {t : SocketStream}
    (hpending : t.pending = s.pending) :
    (t.recvEx dst.length).1 = dst'.take n ∧ (t.recvEx dst.length).2.pending = s'.pending := by
  rcases recvEx_spec h dst with ⟨hnone, -⟩ | ⟨n₁, dst₁, s₁, hsome, hreads⟩
  · rw [hnone] at hrun
    cases hrun
  · rw [hsome] at hrun
    cases hrun
    have hfst := SocketStream.recvLaws.recvEx_fst t dst.length
    have hsnd := SocketStream.recvLaws.pending_recvEx t dst.length
    rw [hpending] at hfst hsnd
    exact ⟨hfst.trans hreads.split.1.symm, hsnd.trans hreads.pending.symm⟩

/-- **Any sequence of reads, for every segmentation.** What the calls have returned is a
prefix of what the peer sends, without a gap; the kernel was only asked when fewer bytes
were buffered than missing; and the next call, into whatever buffer, returns as many bytes
as it asks for, or all that remain. It never returns exactly if these are too few and the
connection ends in an interruption that is tried again on for ever. -/
theorem recvExs_run (array : Vector UInt8 recvBufferSize)
    (coming : List (Except Interruption Piece)) (last : RecvEnd) (recvAgain : Bool)
    (hpatient : recvAgain = true ∨ RecvScript.Uninterrupted coming) (dsts : List Bytes) :
    ∃ r, recvExs dsts (init array coming last recvAgain) = .ok r ∧
      ∀ outs s, r = some (outs, s) →
        outs.flatten ++ s.pending = RecvScript.stream coming ∧
        s.socketBuffer.offset ≤ s.socketBuffer.size ∧ s.socketBuffer.size ≤ recvBufferSize ∧
        (∀ e ∈ s.script.log, e.1 < e.2) ∧
        ∀ dst, ∃ r', s.recvEx dst = .ok r' ∧
          (r' = none ↔ (last.retried && recvAgain) = true ∧ s.pending.length < dst.length) ∧
          ∀ n dst' s', r' = some (n, dst', s') →
            n = min dst.length s.pending.length ∧
            dst'.take n = s.pending.take dst.length ∧ dst'.drop n = dst.drop n ∧
            s'.pending = s.pending.drop dst.length ∧
            (dst.length ≤ s.socketBuffer.available → s'.script.log = s.script.log) := by
  have hinit := init_ok array last hpatient
  have hstart : (init array coming last recvAgain).pending = RecvScript.stream coming := by
    rw [pending, init, RawSocketBuffer.unread_init, List.nil_append]
  rcases recvExs_spec dsts hinit with hnone | ⟨outs, s, hsome, hok, hstuck, hbytes⟩
  · exact ⟨none, hnone, by simp⟩
  · refine ⟨_, hsome, ?_⟩
    rintro outs' s' hr
    cases hr
    refine ⟨hbytes.trans hstart, hok.socketBuffer.offset_le, hok.socketBuffer.size_le, hok.log, ?_⟩
    intro dst
    have hend : s.stuck = (last.retried && recvAgain) := hstuck
    rw [← hend]
    rcases recvEx_spec hok dst with ⟨hrun, hstuck', hshort⟩ | ⟨n, dst', s', hrun, hreads⟩
    · exact ⟨none, hrun, by simp [hstuck', hshort], by simp⟩
    · refine ⟨_, hrun, ?_, ?_⟩
      · constructor
        · intro h
          cases h
        · rintro ⟨hst, hshort⟩
          rw [hreads.returns hshort] at hst
          cases hst
      · rintro n₁ dst₁ s₁ hr
        cases hr
        refine ⟨?_, hreads.split.1, hreads.split.2, hreads.pending, ?_⟩
        · rw [hreads.count, List.length_nil, Nat.zero_add]
        · intro hle
          rw [hreads.script hle]

/-- A read over an interruption and the end of a piece. -/
theorem recvExs_run_two :
    ∃ n dst s, (init (.replicate recvBufferSize 0)
        [.ok ⟨[1, 2, 3], by decide⟩, .error .eintr, .ok ⟨[4, 5], by decide⟩] .closed true).recvEx
          [0, 0, 0, 0] = .ok (some (n, dst, s)) ∧
      n = 4 ∧ dst.take 4 = [1, 2, 3, 4] ∧ s.pending = [5] := by
  obtain ⟨r, hrun, hall⟩ := recvExs_run (.replicate recvBufferSize 0)
    [.ok ⟨[1, 2, 3], by decide⟩, .error .eintr, .ok ⟨[4, 5], by decide⟩] .closed true (.inl rfl) []
  cases hrun
  obtain ⟨hbytes, -, -, -, hnext⟩ := hall _ _ rfl
  rw [List.flatten_nil, List.nil_append] at hbytes
  obtain ⟨r', hrun', hnone, hsome⟩ := hnext [0, 0, 0, 0]
  rcases r' with _ | ⟨n, dst, s⟩
  · cases (hnone.mp rfl).1
  · obtain ⟨hn, htake, -, hpending, -⟩ := hsome _ _ _ rfl
    rw [hbytes] at hn htake hpending
    obtain rfl : n = 4 := hn
    exact ⟨4, dst, s, hrun', rfl, htake, hpending⟩

end BufferedStream

end ZktlsNet
