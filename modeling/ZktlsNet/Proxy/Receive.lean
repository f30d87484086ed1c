import ZktlsNet.Proxy.CallTable
import ZktlsNet.Proxy.Threads
import ZktlsNet.Ws.SendBuffer

/-!
# Received bytes (`proxy_client.cpp:280-345`, `proxy_client.cpp:718-761`,
`proxy_client.cpp:860-900`)

`process_recv` asks the proxy for bytes, one answer after the other, and puts them
into a receive queue of its own, from which `recv3` reads. An answer has the number
of its bytes in its field `ret`; `do_recv` copies so many, but not more than its
buffer takes, and returns the field as it is.

`CallTable` is about how a call gets its answer, and `ProxyClientCtx` about who
waits for whom; here an answer has all its bytes, and a wait ends by an event.
Writing to the connection leaves `errno` alone. Call ids are `int`s, so there are
fewer than 2^31 answers.

- `recvThread_exact`: what `recv3` reads is a prefix of the bytes that the answers
  carry; and which answers are handled without leaving their memory.
-/

namespace ZktlsNet

open NetLib

/-! ## The answer to a `RECV` call -/

/-- `header.ret`. -/
def resultRet (data : Bytes) : Int := leadingInt (data.drop 4)

/-- `header.errno_`. -/
def resultErrno (data : Bytes) : Int := leadingInt (data.drop 8)

/-- The bytes behind the header that `ret` speaks of. -/
def resultBytes (data : Bytes) : Bytes :=
  slice data CallTable.socketCallResultHeaderSize (resultRet data).toNat

/-! ## The queue of `recv3` -/

/-- `RecvProxyCtx`: `recvZero` is the field of `inner_ctx`. -/
structure RecvProxyCtx where
  innerCtx : RecvQueue
  recvZero : Bool
  id : Nat
  deriving DecidableEq, Repr

/-- `NewRecvProxyCtx`. -/
def newRecvProxyCtx : RecvProxyCtx := ⟨.init, false, 0⟩

/-- `SetRecvProxyCtx`. -/
def setRecvProxyCtx (ctx : RecvProxyCtx) (valid : Bool) : RecvProxyCtx :=
  { ctx with recvZero := !valid }

/-- `PutToRecvProxyCtx`, with the `PutToRecvCtx` that builds the chunk of the first `len`
bytes of `buf`. The largest id there stands for the leading `int`. -/
def putToRecvProxyCtx (ctx : RecvProxyCtx) (buf : Bytes) (len : Nat) : Res RecvProxyCtx := do
  if buf.length < len then throw (.fault .outOfBounds)
  let id := (ctx.id + 1) % 2 ^ 64
  let chunkId := if id = 2 ^ 64 - 1 then toUInt64 (leadingInt buf) else id
  let innerCtx ← ctx.innerCtx.act (.put (.build chunkId len (buf.take len)))
  return { ctx with innerCtx := innerCtx, id := id }

/-! ## The receive thread -/

/-- The buffer of `process_recv`. -/
structure ThreadBuffer where
  bytes : Bytes
  length_eq : bytes.length = sendBufferSize
  deriving DecidableEq, Repr

/-- A `memcpy` to the front of the buffer. -/
def ThreadBuffer.copy (buf : ThreadBuffer) (xs : Bytes) (h : xs.length ≤ sendBufferSize) :
    ThreadBuffer where
  bytes := store buf.bytes 0 xs
  length_eq := by rw [store_length (by rw [buf.length_eq, Nat.zero_add]; exact h), buf.length_eq]

theorem ThreadBuffer.take_copy (buf : ThreadBuffer) {xs : Bytes} (h : xs.length ≤ sendBufferSize)
    {n : Nat} (hn : xs.length = n) : (buf.copy xs h).bytes.take n = xs := by
  subst hn
  exact slice_store_self (Nat.zero_le _)

/-- Where `process_recv` is: at the top of its loop, waiting in `do_recv`, or at its
end. -/
inductive RecvThreadPc
  | loop
  | wait
  | exited
  deriving DecidableEq, Repr

/-- `ProxyClientCtx`, as far as `process_recv` and `recv3` use it, with the `errno` and
the buffer of the thread and the answers it has got. -/
structure RecvSide where
  recvZero : Bool
  waitOperationCompleted : Bool
  recvCtx : RecvProxyCtx
  recvBytes : Nat
  errno : Int
  buf : ThreadBuffer
  pc : RecvThreadPc
  answers : List Bytes
  deriving DecidableEq, Repr

namespace RecvSide

/-- The thread at its start; its buffer is not initialised. -/
def new (buf : ThreadBuffer) : RecvSide where
  recvZero := false
  waitOperationCompleted := true
  recvCtx := newRecvProxyCtx
  recvBytes := 0
  errno := 0
  buf := buf
  pc := .loop
  answers := []

/-- The test at the top of `do_recv`. -/
def closed (s : RecvSide) : Bool := s.recvZero || s.recvCtx.recvZero

/-- The end of `do_recv`, after a wait that has returned true: what it returns, and the
state after it. -/
def doRecv (s : RecvSide) (length : Nat) (data : Bytes) : Res (Int × RecvSide) :=
  let ret := resultRet data
  if 0 ≤ ret then
    let n := toUInt64 (min ret (CallTable.toInt length))
    if h : CallTable.socketCallResultHeaderSize + n ≤ data.length ∧ n ≤ sendBufferSize then
      let xs := slice data CallTable.socketCallResultHeaderSize n
      .ok (ret, { s with buf := s.buf.copy xs (Nat.le_trans (List.length_take_le _ _) h.2) })
    else .error (.fault .outOfBounds)
  else .ok (ret, { s with errno := resultErrno data })

/-- `OnRecvBytes`. -/
def onRecvBytes (s : RecvSide) (numBytes : Nat) : RecvSide :=
  { s with recvBytes := (s.recvBytes + numBytes) % 2 ^ 64 }

/-- The rest of a round of `process_recv`, after `do_recv`. -/
def processRecv (s : RecvSide) (ret : Int) : Res RecvSide :=
  if ret ≤ 0 then
    if ret = -1 && ProxyClientCtx.tryAgain s.errno then .ok { s with pc := .loop }
    else .ok { s with recvCtx := setRecvProxyCtx s.recvCtx false, recvZero := true, pc := .exited }
  else do
    let recvCtx ← putToRecvProxyCtx s.recvCtx s.buf.bytes ret.toNat
    return { s with recvCtx := recvCtx, pc := .loop }.onRecvBytes ret.toNat

/-! ## Steps -/

/-- What happens next: the thread goes on without an answer, its call is answered, the
waits are cancelled, a callback of the connection sets one of the two flags, or
`recv3` makes one pass of its loop. -/
inductive RecvThreadEvent
  | thread
  | answer (data : Bytes)
  | cancel
  | close (inner : Bool)
  | read (len : Nat)
  deriving DecidableEq, Repr

/-- When an event can happen. `BridgeSocketOnMessage` hands over what has a header; a wait
without an answer is over when it is cancelled; `recv3` waits for a chunk. -/
def enabled (s : RecvSide) : RecvThreadEvent → Bool
  | .thread =>
    match s.pc with
    | .loop => true
    | .wait => !s.waitOperationCompleted
    | .exited => false
  | .answer data => s.pc = .wait &&
    decide ((CallTable.socketCallResultHeaderSize : Int) ≤ CallTable.toInt data.length) &&
    decide (s.answers.length + 1 < 2 ^ 31)
  | .cancel | .close _ => true
  | .read _ => s.recvCtx.innerCtx.readable

/-- What an event does. -/
def act (s : RecvSide) : RecvThreadEvent → Res RecvSide
  | .thread =>
    match s.pc with
    | .loop => if s.closed then s.processRecv (-1) else .ok { s with pc := .wait }
    | .wait => s.processRecv (-1)
    | .exited => .ok s
  | .answer data => do
    let (ret, s) ← s.doRecv sendBufferSize data
    let s ← s.processRecv ret
    return { s with answers := s.answers ++ [data] }
  | .cancel => .ok { s with waitOperationCompleted := false }
  | .close false => .ok { s with recvZero := true }
  | .close true => .ok { s with recvCtx := { s.recvCtx with recvZero := true } }
  | .read len => do
    let innerCtx ← s.recvCtx.innerCtx.act (.read len)
    return { s with recvCtx := { s.recvCtx with innerCtx := innerCtx } }

/-- The thread under any interleaving; `junk` is in its buffer at first. -/
def machine (junk : ThreadBuffer) : Machine (Res RecvSide) RecvThreadEvent :=
  checked (new junk) enabled act

/-! ## What the steps do -/

/-- The bytes that the thread has put into the queue. -/
def appended (s : RecvSide) : Bytes :=
  (s.recvCtx.innerCtx.arrived.map RecvBuffer.payload).flatten

/-- The bytes that the answers carry. -/
def answered (s : RecvSide) : Bytes := s.answers.flatMap resultBytes

theorem resultBytes_of_nonpos {data : Bytes} (h : resultRet data ≤ 0) : resultBytes data = [] := by
  rw [resultBytes, Int.toNat_of_nonpos h]
  rfl

/-- The `memcpy` of `do_recv` copies `ret` bytes, or what its buffer takes. -/
theorem copied_eq {data : Bytes} (h : 0 ≤ resultRet data) :
    toUInt64 (min (resultRet data) (CallTable.toInt sendBufferSize)) =
      min (resultRet data).toNat sendBufferSize := by
  have hsize : CallTable.toInt sendBufferSize = sendBufferSize := by decide
  have hle : sendBufferSize < 2 ^ 64 := by decide
  rw [hsize, toUInt64]
  omega

/-- What holds of the thread's state: every chunk in the queue is one answer's bytes,
under the next id. -/
structure Exact (s : RecvSide) : Prop where
  inOrder : s.recvCtx.innerCtx.InOrder
  ids : s.recvCtx.innerCtx.arrived.map RecvBuffer.id = List.range' 1 s.recvCtx.id
  bytes : s.appended = s.answered
  id_le : s.recvCtx.id ≤ s.answers.length
  few : s.answers.length < 2 ^ 31

theorem exact_new (junk : ThreadBuffer) : Exact (new junk) where
  inOrder := RecvQueue.inOrder_init
  ids := rfl
  bytes := rfl
  id_le := Nat.le_refl _
  few := Nat.two_pow_pos 31

/-- Putting bytes of the buffer into the queue, under the next id. -/
theorem putToRecvProxyCtx_ok {ctx : RecvProxyCtx} (hin : ctx.innerCtx.InOrder)
    (hids : ctx.innerCtx.arrived.map RecvBuffer.id = List.range' 1 ctx.id)
    (hid : ctx.id + 1 < 2 ^ 64 - 1) {buf : Bytes} {len : Nat} (hpos : 0 < len)
    (hlen : len ≤ buf.length) (hbuf : buf.length < 2 ^ 64) :
    ∃ innerCtx, putToRecvProxyCtx ctx buf len = .ok { ctx with
        innerCtx := innerCtx, id := ctx.id + 1 } ∧ innerCtx.InOrder ∧
      innerCtx.arrived = ctx.innerCtx.arrived ++ [.build (ctx.id + 1) len (buf.take len)] ∧
      innerCtx.out = ctx.innerCtx.out := by
  have hlen' : (buf.take len).length = len := by rw [List.length_take]; omega
  have hchunk : (RecvBuffer.build (ctx.id + 1) len (buf.take len)).id = ctx.id + 1 :=
    RecvBuffer.id_build (by omega) _ _
  have hframed : (RecvBuffer.build (ctx.id + 1) len (buf.take len)).Framed := by
    have : (RecvBuffer.build (ctx.id + 1) (buf.take len).length (buf.take len)).Framed :=
      RecvBuffer.framed_build (by omega)
    rwa [hlen'] at this
  -- the ids so far are smaller
  have hnew : ∀ d ∈ ctx.innerCtx.arrived, d.id ≠
      (RecvBuffer.build (ctx.id + 1) len (buf.take len)).id := by
    intro d hd
    have hmem := List.mem_map_of_mem (f := RecvBuffer.id) hd
    rw [hids, List.mem_range'_1] at hmem
    rw [hchunk]
    omega
  have hne : (RecvBuffer.build (ctx.id + 1) len (buf.take len)).payload ≠ [] := by
    rw [RecvBuffer.payload_build]
    exact List.ne_nil_of_length_pos (by omega)
  obtain ⟨innerCtx, hact, hin'⟩ := hin.put hframed hne (by omega) hnew
  obtain ⟨_, _, hrest⟩ := bind_eq_ok hact
  refine ⟨innerCtx, ?_, hin', ?_⟩
  · have hwrap : (ctx.id + 1) % 2 ^ 64 = ctx.id + 1 := by omega
    have hlast : ¬ ctx.id + 1 = 2 ^ 64 - 1 := by omega
    have hfit : ¬ buf.length < len := by omega
    simp only [putToRecvProxyCtx, hfit, if_false, hwrap, hlast, hact, ok_bind, pure_eq_ok]
  · cases hrest
    exact ⟨rfl, rfl⟩

/-- The answer is handled as it should be: what `do_recv` returns is at most what was
asked for and what the answer carries, and exactly so many bytes of the answer are
put into the queue. -/
def AnswerExact (s : RecvSide) (data : Bytes) : Prop :=
  ∃ ret s₁ s₂, s.doRecv sendBufferSize data = .ok (ret, s₁) ∧ ret ≤ sendBufferSize ∧
    ret ≤ data.length - CallTable.socketCallResultHeaderSize ∧ s₁.processRecv ret = .ok s₂ ∧
    s₂.appended = s.appended ++ slice data CallTable.socketCallResultHeaderSize ret.toNat

/-- The field `ret` of the answer lies within its data and within the buffer. -/
def honest (data : Bytes) : Bool :=
  decide (resultRet data ≤ data.length - CallTable.socketCallResultHeaderSize) &&
    decide (resultRet data ≤ sendBufferSize)

/-- An answer without bytes changes nothing of the queue. -/
theorem processRecv_of_nonpos (s : RecvSide) {ret : Int} (h : ret ≤ 0) :
    ∃ s', s.processRecv ret = .ok s' ∧ s'.recvCtx.innerCtx = s.recvCtx.innerCtx ∧
      s'.recvCtx.id = s.recvCtx.id ∧ s'.answers = s.answers := by
  unfold processRecv
  rw [if_pos h]
  split
  · exact ⟨_, rfl, rfl, rfl, rfl⟩
  · exact ⟨_, rfl, rfl, rfl, rfl⟩

theorem processRecv_of_pos (s : RecvSide) {ret : Int} (h : 0 < ret) :
    s.processRecv ret = do
      let recvCtx ← putToRecvProxyCtx s.recvCtx s.buf.bytes ret.toNat
      return { s with recvCtx := recvCtx, pc := .loop }.onRecvBytes ret.toNat :=
  if_neg (not_le.mpr h)

/-- Copying the bytes of an honest answer. -/
theorem doRecv_of_honest (s : RecvSide) {data : Bytes} (h : honest data = true)
    (hsize : CallTable.socketCallResultHeaderSize ≤ data.length) :
    ∃ s₁, s.doRecv sendBufferSize data = .ok (resultRet data, s₁) ∧ s₁.recvCtx = s.recvCtx ∧
      s₁.answers = s.answers ∧
      (0 < resultRet data → s₁.buf.bytes.take (resultRet data).toNat = resultBytes data) := by
  simp only [honest, Bool.and_eq_true, decide_eq_true_eq] at h
  by_cases hpos : 0 ≤ resultRet data
  · have hmin : min (resultRet data).toNat sendBufferSize = (resultRet data).toNat := by omega
    have hfits : CallTable.socketCallResultHeaderSize + (resultRet data).toNat ≤ data.length ∧
        (resultRet data).toNat ≤ sendBufferSize := by omega
    have hlen : (slice data CallTable.socketCallResultHeaderSize (resultRet data).toNat).length =
        (resultRet data).toNat := by
      rw [slice, List.length_take, List.length_drop]
      omega
    exact ⟨{ s with buf := s.buf.copy _ (hlen.trans_le hfits.2) },
      by simp only [doRecv, hpos, if_true, copied_eq hpos, hmin, hfits, and_self, dif_pos],
      rfl, rfl,
      fun _ => s.buf.take_copy (hlen.trans_le hfits.2) hlen⟩
  · exact ⟨{ s with errno := resultErrno data }, by simp only [doRecv, hpos, if_false], rfl, rfl,
      fun h => absurd (Int.le_of_lt h) hpos⟩

/-- **An honest answer** is copied, and its bytes are put into the queue. -/
theorem Exact.answer {s : RecvSide} (h : Exact s) {data : Bytes} (hdata : honest data = true)
    (hsize : CallTable.socketCallResultHeaderSize ≤ data.length) :
    ∃ s₁ s₂, s.doRecv sendBufferSize data = .ok (resultRet data, s₁) ∧
      s₁.processRecv (resultRet data) = .ok s₂ ∧ s₂.recvCtx.innerCtx.InOrder ∧
      s₂.recvCtx.innerCtx.arrived.map RecvBuffer.id = List.range' 1 s₂.recvCtx.id ∧
      s₂.appended = s.appended ++ resultBytes data ∧ s₂.recvCtx.id ≤ s.recvCtx.id + 1 ∧
      s₂.answers = s.answers := by
  obtain ⟨s₁, hdo, hctx, hanswers, hbuf⟩ := s.doRecv_of_honest hdata hsize
  by_cases hpos : 0 < resultRet data
  · have hfits : (resultRet data).toNat ≤ s₁.buf.bytes.length := by
      simp only [RecvSide.honest, Bool.and_eq_true, decide_eq_true_eq] at hdata
      rw [s₁.buf.length_eq]
      omega
    have hid : s₁.recvCtx.id < 2 ^ 31 := by
      rw [hctx]
      exact Nat.lt_of_le_of_lt h.id_le h.few
    obtain ⟨innerCtx, hput, hin, harrived, -⟩ := putToRecvProxyCtx_ok
      (show s₁.recvCtx.innerCtx.InOrder by rw [hctx]; exact h.inOrder)
      (by rw [hctx]; exact h.ids) (by omega) (show 0 < (resultRet data).toNat by omega) hfits
      (by rw [s₁.buf.length_eq]; decide)
    have hproc := s₁.processRecv_of_pos hpos
    rw [hput, ok_bind] at hproc
    refine ⟨s₁, _, hdo, hproc, hin, ?_, ?_, ?_, hanswers⟩
    · show innerCtx.arrived.map RecvBuffer.id = List.range' 1 (s₁.recvCtx.id + 1)
      rw [harrived, hctx, List.map_append, h.ids, List.range'_concat, List.map_singleton,
        RecvBuffer.id_build (by rw [hctx] at hid; omega)]
      simp [Nat.add_comm]
    · show (innerCtx.arrived.map RecvBuffer.payload).flatten = _
      rw [harrived, hbuf hpos, List.map_append, List.flatten_append, hctx]
      simp [appended]
    · show s₁.recvCtx.id + 1 ≤ _
      rw [hctx]
  · obtain ⟨s₂, hproc, hinner, hid, hanswers'⟩ := s₁.processRecv_of_nonpos (not_lt.mp hpos)
    rw [hctx] at hinner hid
    refine ⟨s₁, s₂, hdo, hproc, by rw [hinner]; exact h.inOrder, by rw [hinner, hid]; exact h.ids,
      ?_, by omega, hanswers'.trans hanswers⟩
    rw [appended, hinner, resultBytes_of_nonpos (not_lt.mp hpos), List.append_nil]
    rfl

/-- **An answer that is not honest** takes the thread out of the memory of the answer, or
of its buffer. -/
theorem act_of_not_honest (s : RecvSide) {data : Bytes} (hdata : honest data = false)
    (hsize : CallTable.socketCallResultHeaderSize ≤ data.length) :
    s.act (.answer data) = .error (.fault .outOfBounds) := by
  simp only [honest, Bool.and_eq_false_iff, decide_eq_false_iff_not, not_le] at hdata
  have hpos : 0 < resultRet data := by omega
  by_cases hcopy :
      CallTable.socketCallResultHeaderSize + min (resultRet data).toNat sendBufferSize ≤
        data.length ∧ min (resultRet data).toNat sendBufferSize ≤ sendBufferSize
  · -- the copy is cut off at the size of the buffer, what is put into the queue is not
    have hbig : sendBufferSize < (resultRet data).toNat := by omega
    have hdo : ∃ s₁, s.doRecv sendBufferSize data = .ok (resultRet data, s₁) :=
      ⟨_, by simp only [doRecv, Int.le_of_lt hpos, if_true, copied_eq (Int.le_of_lt hpos), hcopy,
        and_self, dif_pos]; rfl⟩
    obtain ⟨s₁, hdo⟩ := hdo
    rw [act, hdo, ok_bind]
    show (s₁.processRecv (resultRet data) >>= _) = _
    rw [s₁.processRecv_of_pos hpos, putToRecvProxyCtx,
      if_pos (by rw [s₁.buf.length_eq]; exact hbig)]
    rfl
  · simp only [act, doRecv, Int.le_of_lt hpos, if_true, copied_eq (Int.le_of_lt hpos), hcopy,
      dif_neg, not_false_eq_true]
    rfl

/-- An answer that was accepted has a header. -/
theorem length_of_enabled {s : RecvSide} {data : Bytes} (h : s.enabled (.answer data) = true) :
    CallTable.socketCallResultHeaderSize ≤ data.length := by
  simp only [enabled, Bool.and_eq_true, decide_eq_true_eq] at h
  have hle : CallTable.toInt data.length ≤ data.length := by unfold CallTable.toInt; omega
  omega

/-- **One step** that does not leave its memory keeps the queue exact. -/
theorem Exact.step {s s' : RecvSide} (h : Exact s) {e : RecvThreadEvent} (hen : s.enabled e = true)
    (hact : s.act e = .ok s') : Exact s' := by
  have hsame (t : RecvSide) (hinner : t.recvCtx.innerCtx = s.recvCtx.innerCtx)
      (hid : t.recvCtx.id = s.recvCtx.id) (hanswers : t.answers = s.answers) : Exact t := by
    refine ⟨by rw [hinner]; exact h.inOrder, by rw [hinner, hid]; exact h.ids, ?_,
      by rw [hid, hanswers]; exact h.id_le, by rw [hanswers]; exact h.few⟩
    rw [appended, hinner, answered, hanswers]
    exact h.bytes
  cases e with
  | thread =>
    obtain ⟨t, ht, hinner, hid, hanswers⟩ := s.processRecv_of_nonpos (show (-1 : Int) ≤ 0 by decide)
    unfold act at hact
    cases hpc : s.pc with
    | loop =>
      simp only [hpc] at hact
      split at hact
      · obtain rfl := Except.ok.inj (ht.symm.trans hact)
        exact hsame t hinner hid hanswers
      · cases hact
        exact hsame _ rfl rfl rfl
    | wait =>
      simp only [hpc] at hact
      obtain rfl := Except.ok.inj (ht.symm.trans hact)
      exact hsame t hinner hid hanswers
    | exited =>
      simp only [hpc] at hact
      cases hact
      exact h
  | answer data =>
    have hsize := length_of_enabled hen
    simp only [enabled, Bool.and_eq_true, decide_eq_true_eq] at hen
    have hfew := hen.2
    cases hdata : RecvSide.honest data with
    | false =>
      rw [act_of_not_honest s hdata hsize] at hact
      cases hact
    | true =>
      obtain ⟨s₁, s₂, hdo, hproc, hin, hids, hbytes, hid, hanswers⟩ := h.answer hdata hsize
      rw [act, hdo, ok_bind] at hact
      obtain ⟨_, hproc', hact⟩ := bind_eq_ok hact
      obtain rfl := Except.ok.inj (hproc.symm.trans hproc')
      cases hact
      refine ⟨hin, hids, ?_, ?_, ?_⟩
      · show s₂.appended = (s₂.answers ++ [data]).flatMap resultBytes
        rw [hbytes, hanswers, h.bytes, List.flatMap_append]
        simp [answered]
      · show s₂.recvCtx.id ≤ (s₂.answers ++ [data]).length
        have := h.id_le
        rw [hanswers, List.length_append, List.length_singleton]
        omega
      · show (s₂.answers ++ [data]).length < 2 ^ 31
        rw [hanswers, List.length_append, List.length_singleton]
        exact hfew
  | cancel =>
    cases hact
    exact hsame _ rfl rfl rfl
  | close inner => cases inner <;> cases hact <;> exact hsame _ rfl rfl rfl
  | read len =>
    obtain ⟨innerCtx, hread, hrest⟩ := bind_eq_ok hact
    cases hrest
    obtain ⟨innerCtx', hread', hin⟩ := h.inOrder.read len hen
    obtain rfl := Except.ok.inj (hread.symm.trans hread')
    have harrived : innerCtx.arrived = s.recvCtx.innerCtx.arrived := by
      obtain ⟨_, _, hread⟩ := bind_eq_ok hread
      cases hread
      rfl
    refine ⟨hin, by rw [← h.ids, ← harrived], ?_, h.id_le, h.few⟩
    show (innerCtx.arrived.map _).flatten = s.answered
    rw [harrived]
    exact h.bytes

/-- Among the steps of a run only the answers matter. -/
def honestStep (_ : RecvSide) : RecvThreadEvent → Bool
  | .answer data => honest data
  | _ => true

/-- A step whose answer is honest does not leave its memory. -/
theorem Exact.act_ok {s : RecvSide} (h : Exact s) {e : RecvThreadEvent} (hen : s.enabled e = true)
    (hok : s.honestStep e = true) : ∃ s', s.act e = .ok s' := by
  cases e with
  | thread =>
    obtain ⟨t, ht, -⟩ := s.processRecv_of_nonpos (show (-1 : Int) ≤ 0 by decide)
    unfold act
    cases hpc : s.pc with
    | loop =>
      by_cases hclosed : s.closed = true
      · exact ⟨t, by simp only [hclosed, if_true, ht]⟩
      · exact ⟨_, if_neg hclosed⟩
    | wait => exact ⟨t, ht⟩
    | exited => exact ⟨s, rfl⟩
  | answer data =>
    obtain ⟨s₁, s₂, hdo, hproc, -⟩ := h.answer hok (length_of_enabled hen)
    exact ⟨{ s₂ with answers := s₂.answers ++ [data] },
      by simp only [act, hdo, ok_bind, hproc, pure_eq_ok]⟩
  | cancel => exact ⟨_, rfl⟩
  | close inner => cases inner <;> exact ⟨_, rfl⟩
  | read len =>
    obtain ⟨innerCtx, hread, -⟩ := h.inOrder.read len hen
    exact ⟨_, by rw [act, hread, ok_bind, pure_eq_ok]⟩

/-! ## Every run -/

/-- What `recv3` has read is a prefix of what the thread has put into the queue. -/
theorem Exact.out_le {s : RecvSide} (h : Exact s) : s.recvCtx.innerCtx.out <+: s.answered := by
  have hout := h.inOrder.out_le
  rw [h.inOrder.deliverable_of_ids h.ids] at hout
  exact h.bytes ▸ hout

/-- What `do_recv` returns is the field of the answer. -/
theorem doRecv_ret {s s₁ : RecvSide} {length : Nat} {data : Bytes} {ret : Int}
    (h : s.doRecv length data = .ok (ret, s₁)) : ret = resultRet data := by
  simp only [doRecv] at h
  split at h
  · split at h <;> cases h
    rfl
  · cases h
    rfl

/-- **Received bytes.** In every state that a run reaches without leaving its memory, what
`recv3` has read is a prefix of the bytes that the answers carry, in order. An answer
is handled exactly if the number in its header lies within its data and within the
buffer, otherwise the thread reads behind the one or the other; so a run whose answers
are all honest never does. -/
theorem recvThread_exact (junk : ThreadBuffer) :
    (∀ es s, (machine junk).run es = some (.ok s) → s.recvCtx.innerCtx.out <+: s.answered ∧
      ∀ data, CallTable.socketCallResultHeaderSize ≤ data.length →
        (AnswerExact s data ↔ honest data = true) ∧
        (honest data = false → s.act (.answer data) = .error (.fault .outOfBounds))) ∧
    ∀ es r, ((machine junk).restrict (whereOk honestStep)).run es = some r →
      ∃ s, r = .ok s ∧ s.recvCtx.innerCtx.out <+: s.answered := by
  constructor
  · intro es s hrun
    have h : Exact s := checked_runFrom_invariant Exact
      (fun _ _ _ ht hen hact => ht.step hen hact) (exact_new junk) hrun
    refine ⟨h.out_le, fun data hsize => ⟨⟨?_, fun hdata => ?_⟩, fun hdata => ?_⟩⟩
    · rintro ⟨ret, s₁, s₂, hdo, hfits, hcarried, -⟩
      rw [doRecv_ret hdo] at hfits hcarried
      simp only [honest, Bool.and_eq_true, decide_eq_true_eq]
      exact ⟨hcarried, hfits⟩
    · obtain ⟨s₁, s₂, hdo, hproc, -, -, hbytes, -⟩ := h.answer hdata hsize
      simp only [honest, Bool.and_eq_true, decide_eq_true_eq] at hdata
      exact ⟨_, s₁, s₂, hdo, hdata.2, hdata.1, hproc, hbytes⟩
    · exact act_of_not_honest s hdata hsize
  · intro es r hrun
    obtain ⟨s, rfl, h⟩ := checked_restrict_run Exact (exact_new junk) (fun t e ht hen hok => by
      obtain ⟨t', hact⟩ := ht.act_ok hen hok
      exact ⟨t', hact, ht.step hen hact⟩) hrun
    exact ⟨s, rfl, h.out_le⟩

/-- A buffer. -/
def zeroed : ThreadBuffer := ⟨List.replicate sendBufferSize 0, List.length_replicate⟩

/-- An answer of two bytes, which says so. -/
theorem recvThread_exact_two :
    AnswerExact { new zeroed with pc := .wait } [1, 0, 0, 0, 2, 0, 0, 0, 0, 0, 0, 0, 5, 6] :=
  (((recvThread_exact zeroed).1 [.thread] _ rfl).2 _ (by decide)).1.mpr (by decide)

/-- An answer without bytes, which says that there are 100: `do_recv` copies what lies behind
it in memory. -/
theorem ret_is_trusted :
    (machine zeroed).run [.thread, .answer [1, 0, 0, 0, 100, 0, 0, 0, 0, 0, 0, 0]] =
      some (.error (.fault .outOfBounds)) ∧
    ¬ AnswerExact { new zeroed with pc := .wait } [1, 0, 0, 0, 100, 0, 0, 0, 0, 0, 0, 0] := by
  refine ⟨rfl, ?_⟩
  rintro ⟨ret, s₁, s₂, hdo, -, hcarried, -⟩
  rw [doRecv_ret hdo] at hcarried
  exact absurd hcarried (by decide)

end RecvSide

end ZktlsNet
