import ZktlsNet.Lib.Machine
import ZktlsNet.Ws.RecvMessage
import ZktlsNet.Ws.SendMessage

/-!
# The channel object and its flush thread
(`websocket_io_channel.h:104-177`, `websocket_io_channel.cpp:195-270`,
`ws.cpp:418-437`)

A `WebSocketIO` is used by one caller. While asynchronous flushing is on, a
second thread takes packed frames from the flush queue and writes them. The
model interleaves the two at the points where they can see each other: the
accesses to the queue, which its lock makes atomic, the flag `async`, and the
writes to the stream.

- `Op`: what the functions of the object are made of; `Call.body` cuts a call
  into them, and `todo` is what the running call has left to do.
- `callerStep`, `flusherStep`: the two threads.
- `Threads`: which positions of the two threads go together.
- `outbound`: the frames that are packed and not yet written.
- `step_effect`: all that a step can do to the data.
-/

namespace ZktlsNet

open NetLib

/-! ## The two threads -/

/-- The calls of the object's user. -/
inductive Call
  | sendData (data : Bytes)
  | recvData (len : Nat)
  | flush
  | sync
  | startAsyncFlush
  | stopAsyncFlush
  deriving DecidableEq, Repr

/-- The pieces of the functions, as far as the flush thread can tell them apart.
`sendTmp` sends what `sync` has received, and `join` is the rest of `stop_async_flush`
after its critical section. -/
inductive Op
  | sendDataInternal (data : Bytes)
  | sendTmp
  | recvDataInternal (len : Nat)
  | clearHasSent
  | recvMessage (len : Nat)
  | startAsyncFlush
  | stopAsyncFlush
  | join
  deriving DecidableEq, Repr

/-- What the functions do. In a sync the server sends a byte, and the client sends the
byte that it has received. -/
def Call.body (isServer : Bool) : Call → List Op
  | .sendData data => [.sendDataInternal data]
  | .recvData len => [.recvDataInternal len]
  | .flush => [.sendDataInternal []]
  | .sync =>
    if isServer then [.sendDataInternal [0], .recvDataInternal 1]
    else [.recvDataInternal 1, .sendTmp, .sendDataInternal []]
  | .startAsyncFlush => [.startAsyncFlush]
  | .stopAsyncFlush => [.stopAsyncFlush]

/-- What the flush thread is about to do: in `async_flush`, the two halves of the
loop's test; in `AsyncFlushMessage`, to take the lock, to look at the queue, to
wait for a notification (or to wake up without one), to write a frame. -/
inductive Flusher
  | none
  | test
  | testQueue
  | lock
  | locked
  | waiting
  | sending (frame : Bytes)
  | done
  deriving DecidableEq, Repr

/-- The lock of the flush queue is held across a step: the write is made under it. -/
def Flusher.holdsLock : Flusher → Bool
  | .locked | .sending _ => true
  | _ => false

/-- The frame that is taken from the queue and not yet written. -/
def Flusher.inFlight : Flusher → List Bytes
  | .sending frame => [frame]
  | _ => []

/-- `WebSocketIO`, with the rest of the running call: the frames `AsyncSendMessage`
has packed but not yet put into the queue, and the pieces after it. `tmp` is the first
byte of the last receive. Two fields are histories: the arguments of
`send_data_internal`, and the packed frames. -/
structure WebSocketIo (σ : Type) where
  isServer : Bool
  hasSent : Bool
  sendCtx : SendCtx
  recvCtx : RecvCtx
  channelStream : σ
  flushThread : Flusher
  puts : List Bytes
  todo : List Op
  tmp : UInt8
  sends : List Bytes
  packed : List Bytes

/-- What the two threads do next, or what the user calls. -/
inductive Event
  | call (c : Call)
  | caller
  | recvReturn (fuel : Nat)
  | flusher
  deriving DecidableEq, Repr

/-- The data of the object, whichever thread holds it. -/
structure Traffic (σ : Type) where
  stream : σ
  outbound : List Bytes
  buffer : SendBuffer
  sends : List Bytes
  packed : List Bytes

namespace WebSocketIo

variable {σ : Type}

/-- The constructor. -/
def new (isServer : Bool) (stream : σ) : WebSocketIo σ :=
  ⟨isServer, false, newSendCtx, newRecvCtx, stream, .none, [], [], 0, [], []⟩

/-- Which positions of the two threads go together: the caller waits for the
flush thread exactly when it has been told to stop and is not gone; without the
flush thread, and where it has finished, the queue is empty. -/
structure Threads (io : WebSocketIo σ) : Prop where
  join_iff : io.todo.head? = some .join ↔ io.sendCtx.async = false ∧ io.flushThread ≠ .none
  join_tail : Op.join ∉ io.todo.tail
  on : io.sendCtx.async = true → io.flushThread ≠ .none ∧ io.flushThread ≠ .testQueue ∧
    io.flushThread ≠ .done
  off : io.sendCtx.async = false → io.puts = []
  gone : io.flushThread = .none ∨ io.flushThread = .done → io.sendCtx.flushCtx.list = []

theorem threads_new (isServer : Bool) (stream : σ) : Threads (new isServer stream) where
  join_iff := by simp [new, newSendCtx]
  join_tail := by simp [new]
  on := by simp [new, newSendCtx]
  off := by simp [new]
  gone := by simp [new, newSendCtx]

/-- The frames that are packed and not yet written, in order. -/
def outbound (io : WebSocketIo σ) : List Bytes :=
  io.flushThread.inFlight ++ io.sendCtx.flushCtx.list ++ io.puts

/-- Without the flush thread nothing is on its way. -/
theorem Threads.outbound_nil {io : WebSocketIo σ} (h : Threads io)
    (hsync : io.sendCtx.async = false) (hnone : io.flushThread = .none ∨ io.flushThread = .done) :
    io.outbound = [] := by
  have hfl : io.flushThread.inFlight = [] := by rcases hnone with h | h <;> rw [h] <;> rfl
  rw [outbound, hfl, h.gone hnone, h.off hsync]
  rfl

/-- Nor between the calls, with the flush thread off. -/
theorem Threads.outbound_idle {io : WebSocketIo σ} (h : Threads io) (htodo : io.todo = [])
    (hoff : io.sendCtx.async = false) : io.outbound = [] := by
  refine h.outbound_nil hoff (.inl ?_)
  by_contra hfl
  have := h.join_iff.mpr ⟨hoff, hfl⟩
  rw [htodo] at this
  cases this

/-- The running call goes on with pieces that are no `join`. -/
theorem Threads.setTodo {io : WebSocketIo σ} (h : Threads io) (hhead : io.todo.head? ≠ some .join)
    {todo : List Op} (htodo : Op.join ∉ todo) : Threads { io with todo := todo } where
  join_iff := by
    have hne : todo.head? ≠ some .join := fun hh => htodo (List.mem_of_mem_head? hh)
    have := h.join_iff
    simp only [hhead, hne, false_iff] at this ⊢
    exact this
  join_tail := fun hh => htodo (List.mem_of_mem_tail hh)
  on := h.on
  off := h.off
  gone := h.gone

/-- A move of the flush thread that does not end or begin it. -/
theorem Threads.setFlushThread {io : WebSocketIo σ} (h : Threads io) (hne : io.flushThread ≠ .none)
    {fl : Flusher} (hfl : fl ≠ .none)
    (htest : fl = .testQueue ∨ fl = .done → io.sendCtx.async = false)
    (hdone : fl = .done → io.sendCtx.flushCtx.list = []) :
    Threads { io with flushThread := fl } where
  join_iff := by
    have := h.join_iff
    simp only [hne, hfl, ne_eq, not_false_eq_true, and_true] at this ⊢
    exact this
  join_tail := h.join_tail
  on := by
    intro hon
    simp only at hon
    refine ⟨hfl, fun hh => ?_, fun hh => ?_⟩
    · rw [htest (.inl hh)] at hon
      cases hon
    · rw [htest (.inr hh)] at hon
      cases hon
  off := h.off
  gone := fun hh => hdone (hh.resolve_left hfl)

/-- The data of the two threads together. -/
def traffic (io : WebSocketIo σ) : Traffic σ :=
  ⟨io.channelStream, io.outbound, io.sendCtx.buffer, io.sends, io.packed⟩

end WebSocketIo

/-! ## Steps -/

section

variable {σ : Type} [ChannelStream σ]

/-- The frames that `SendMessage` packs, whether or not they are then written. -/
def packedBySend (ctx : SendCtx) (buf : Bytes) (stream : σ) : List Bytes :=
  if 0 < buf.length && ctx.buffer.canPut buf.length then []
  else
    let first := if ctx.buffer.empty then [] else [ctx.buffer.pack.data]
    let (ret, sendBuffer, _) := sendPacked ctx.buffer stream
    if ret < 0 then first
    else if 0 < buf.length && sendBuffer.canPut buf.length then first
    else if 0 < buf.length then
      first ++ [((SendBuffer.newFrom buf.length sendBuffer).1.put buf).pack.data]
    else first

namespace WebSocketIo

/-- `send_data_internal`, with the result of both ways to send ignored. The frames
of the asynchronous way are put into the queue one by one, in later steps; only
the caller looks at `has_sent`, so it is set at once. -/
def sendDataInternal (io : WebSocketIo σ) (data : Bytes) : WebSocketIo σ :=
  if io.sendCtx.async then
    let (puts, sendBuffer) := asyncSendMessage io.sendCtx.buffer data
    { io with
      hasSent := io.hasSent || decide (0 < data.length)
      sendCtx := { io.sendCtx with buffer := sendBuffer }
      puts := puts
      sends := io.sends ++ [data]
      packed := io.packed ++ puts }
  else
    let (_, sendCtx, stream) := sendMessage io.sendCtx data io.channelStream
    { io with
      hasSent := io.hasSent || decide (0 < data.length)
      sendCtx := sendCtx
      channelStream := stream
      sends := io.sends ++ [data]
      packed := io.packed ++ packedBySend io.sendCtx data io.channelStream }

/-- The next piece of the running call; none is possible while it waits. -/
def opStep (io : WebSocketIo σ) : Option (WebSocketIo σ) :=
  match io.todo with
  | [] => none
  | .sendDataInternal data :: todo => some ({ io with todo := todo }.sendDataInternal data)
  | .sendTmp :: todo => some ({ io with todo := todo }.sendDataInternal [io.tmp])
  | .recvDataInternal len :: todo =>
    -- what was sent since the last receive is handed over first
    if io.hasSent then
      some { io with todo := .sendDataInternal [] :: .clearHasSent :: .recvMessage len :: todo }
    else some { io with todo := .recvMessage len :: todo }
  | .clearHasSent :: todo => some { io with hasSent := false, todo := todo }
  -- it ends with `recvReturn`
  | .recvMessage _ :: _ => none
  | .startAsyncFlush :: todo =>
    if io.sendCtx.async then some { io with todo := todo }
    else
      -- the flush is synchronous, and nobody else is there yet
      let io := { io with todo := todo }.sendDataInternal []
      some { io with sendCtx := { io.sendCtx with async := true }, flushThread := .test }
  | .stopAsyncFlush :: todo =>
    if io.sendCtx.async then
      -- the critical section, then the join
      if io.flushThread.holdsLock then none
      else some { io with sendCtx := { io.sendCtx with async := false }, todo := .join :: todo }
    else some { io with todo := todo }
  | .join :: todo =>
    if io.flushThread = .done then
      some ({ io with todo := todo, flushThread := .none }.sendDataInternal [])
    else none

/-- The caller: `PutToFlushCtx` for the next of the packed frames, or the next piece. -/
def callerStep (io : WebSocketIo σ) : Option (WebSocketIo σ) :=
  match io.puts with
  | [] => io.opStep
  | buf :: puts =>
    if io.flushThread.holdsLock then none
    else some { io with
      sendCtx := { io.sendCtx with flushCtx := putToFlushCtx io.sendCtx.flushCtx buf }
      puts := puts }

/-- `RecvMessage` returns; an exception ends the running call. The frames are read
here, all at once, because nobody else reads. -/
def recvReturn (io : WebSocketIo σ) (fuel : Nat) : Option (WebSocketIo σ) :=
  match io.puts, io.todo with
  | [], .recvMessage len :: todo =>
    match recvMessage fuel io.recvCtx len io.channelStream with
    | (.error .outOfFuel, _, _) => none
    | (.error _, recvCtx, stream) =>
      some { io with recvCtx := recvCtx, channelStream := stream, todo := [] }
    | (.ok buf, recvCtx, stream) =>
      some { io with
        recvCtx := recvCtx
        channelStream := stream
        tmp := buf.headD io.tmp
        todo := todo }
  | _, _ => none

/-- The flush thread. The result of its write only decides about `stream->Flush()`,
which does nothing on a socket. -/
def flusherStep (io : WebSocketIo σ) : Option (WebSocketIo σ) :=
  match io.flushThread with
  | .none | .done => none
  | .test => some { io with flushThread := if io.sendCtx.async then .lock else .testQueue }
  | .testQueue =>
    some { io with flushThread := if emptyFlushCtx io.sendCtx.flushCtx then .done else .lock }
  | .lock => some { io with flushThread := .locked }
  | .locked =>
    if io.sendCtx.async && emptyFlushCtx io.sendCtx.flushCtx then
      some { io with flushThread := .waiting }
    else
      match getFromFlushCtx io.sendCtx.flushCtx with
      -- woken by `stop_async_flush`
      | (none, _) => some { io with flushThread := .test }
      | (some frame, flushCtx) =>
        some { io with
          sendCtx := { io.sendCtx with flushCtx := flushCtx }
          flushThread := .sending frame }
  -- every wakeup tests the condition again
  | .waiting => some { io with flushThread := .lock }
  | .sending frame =>
    let (_, stream) := ChannelStream.sendEx io.channelStream frame
    some { io with channelStream := stream, flushThread := .test }

/-- One step; a call begins when the last one has returned. -/
def step (io : WebSocketIo σ) : Event → Option (WebSocketIo σ)
  | .call c =>
    if io.puts = [] ∧ io.todo = [] then some { io with todo := c.body io.isServer } else none
  | .caller => io.callerStep
  | .recvReturn fuel => io.recvReturn fuel
  | .flusher => io.flusherStep

/-- The object over a stream, under any calls and any interleaving. -/
def machine (isServer : Bool) (stream : σ) : Machine (WebSocketIo σ) Event :=
  ⟨new isServer stream, step⟩

end WebSocketIo

/-! ## What a step does to the data -/

/-- What the threads do to the data. -/
inductive Effect : Traffic σ → Traffic σ → Prop
  | quiet (d : Traffic σ) : Effect d d
  | read (d : Traffic σ) (fuel : Nat) (ctx : RecvCtx) (len : Nat) :
    Effect d { d with stream := (recvMessage fuel ctx len d.stream).2.2 }
  /-- `SendMessage`, with nothing on its way -/
  | send (ctx : SendCtx) (data : Bytes) (stream : σ) (sends packed : List Bytes) :
    Effect ⟨stream, [], ctx.buffer, sends, packed⟩
      ⟨(sendMessage ctx data stream).2.2, [], (sendMessage ctx data stream).2.1.buffer,
        sends ++ [data], packed ++ packedBySend ctx data stream⟩
  /-- `AsyncSendMessage` -/
  | queue (d : Traffic σ) (data : Bytes) :
    Effect d { d with
      outbound := d.outbound ++ (asyncSendMessage d.buffer data).1
      buffer := (asyncSendMessage d.buffer data).2
      sends := d.sends ++ [data]
      packed := d.packed ++ (asyncSendMessage d.buffer data).1 }
  /-- the write of the flush thread -/
  | write (d : Traffic σ) (frame : Bytes) (rest : List Bytes) (h : d.outbound = frame :: rest) :
    Effect d { d with outbound := rest, stream := (ChannelStream.sendEx d.stream frame).2 }

namespace WebSocketIo

@[simp] theorem todo_sendDataInternal (io : WebSocketIo σ) (data : Bytes) :
    (io.sendDataInternal data).todo = io.todo := by
  unfold sendDataInternal
  split <;> rfl

@[simp] theorem flushThread_sendDataInternal (io : WebSocketIo σ) (data : Bytes) :
    (io.sendDataInternal data).flushThread = io.flushThread := by
  unfold sendDataInternal
  split <;> rfl

@[simp] theorem async_sendDataInternal (io : WebSocketIo σ) (data : Bytes) :
    (io.sendDataInternal data).sendCtx.async = io.sendCtx.async := by
  unfold sendDataInternal
  split
  · rfl
  · exact (sendMessage_ctx io.sendCtx data io.channelStream).1

@[simp] theorem flushCtx_sendDataInternal (io : WebSocketIo σ) (data : Bytes) :
    (io.sendDataInternal data).sendCtx.flushCtx = io.sendCtx.flushCtx := by
  unfold sendDataInternal
  split
  · rfl
  · exact (sendMessage_ctx io.sendCtx data io.channelStream).2

@[simp] theorem sends_sendDataInternal (io : WebSocketIo σ) (data : Bytes) :
    (io.sendDataInternal data).sends = io.sends ++ [data] := by
  unfold sendDataInternal
  split <;> rfl

@[simp] theorem tmp_sendDataInternal (io : WebSocketIo σ) (data : Bytes) :
    (io.sendDataInternal data).tmp = io.tmp := by
  unfold sendDataInternal
  split <;> rfl

@[simp] theorem isServer_sendDataInternal (io : WebSocketIo σ) (data : Bytes) :
    (io.sendDataInternal data).isServer = io.isServer := by
  unfold sendDataInternal
  split <;> rfl

theorem puts_sendDataInternal {io : WebSocketIo σ} (h : io.sendCtx.async = false) (data : Bytes) :
    (io.sendDataInternal data).puts = io.puts := by
  unfold sendDataInternal
  simp only [h, Bool.false_eq_true, if_false]

/-- `send_data_internal` leaves the positions alone. -/
theorem Threads.sendDataInternal {io : WebSocketIo σ} (h : Threads io) (data : Bytes) :
    Threads (io.sendDataInternal data) where
  join_iff := by simpa using h.join_iff
  join_tail := by simpa using h.join_tail
  on := by simpa using h.on
  off := by
    intro hoff
    rw [async_sendDataInternal] at hoff
    rw [puts_sendDataInternal hoff, h.off hoff]
  gone := by simpa using h.gone

/-- What it does to the data. -/
theorem effect_sendDataInternal (io : WebSocketIo σ) (hputs : io.puts = [])
    (hsync : io.sendCtx.async = false → io.outbound = []) (data : Bytes) :
    Effect io.traffic (io.sendDataInternal data).traffic := by
  cases hasync : io.sendCtx.async with
  | false =>
    have hout := hsync hasync
    have hout' : (io.sendDataInternal data).outbound = [] := by
      rw [← hout, outbound, outbound, puts_sendDataInternal hasync, flushCtx_sendDataInternal,
        flushThread_sendDataInternal]
    rw [traffic, traffic, hout, hout']
    unfold WebSocketIo.sendDataInternal
    simp only [hasync, Bool.false_eq_true, if_false]
    exact .send io.sendCtx data io.channelStream io.sends io.packed
  | true =>
    have hout : (io.sendDataInternal data).outbound =
        io.outbound ++ (asyncSendMessage io.sendCtx.buffer data).1 := by
      unfold outbound WebSocketIo.sendDataInternal
      simp [hasync, hputs]
    rw [traffic, traffic, hout]
    unfold WebSocketIo.sendDataInternal
    simp only [hasync, if_true]
    exact .queue ⟨io.channelStream, io.outbound, io.sendCtx.buffer, io.sends, io.packed⟩ data

/-- One piece of a call keeps the positions, and is one of the effects. -/
theorem opStep_spec {io io' : WebSocketIo σ} (h : Threads io) (hputs : io.puts = [])
    (hstep : io.opStep = some io') : Threads io' ∧ Effect io.traffic io'.traffic := by
  unfold opStep at hstep
  cases htodo : io.todo with
  | nil =>
    rw [htodo] at hstep
    cases hstep
  | cons op todo =>
    have hjoin := h.join_iff
    have htail := h.join_tail
    rw [htodo] at hstep hjoin htail
    simp only [List.head?_cons, Option.some.injEq, List.tail_cons] at hjoin htail
    -- a piece that is no `join` runs with the flush thread on, or without it
    have hnext : op ≠ .join → Threads { io with todo := todo } := fun hop =>
      h.setTodo (by rw [htodo]; simpa using hop) htail
    have hsync : op ≠ .join → io.sendCtx.async = false → io.flushThread = .none := by
      intro hop hoff
      by_contra hfl
      exact hop (hjoin.mpr ⟨hoff, hfl⟩)
    -- to send takes one piece
    have hsend (data : Bytes) (hop : op ≠ .join) :
        Threads ({ io with todo := todo }.sendDataInternal data) ∧
          Effect io.traffic ({ io with todo := todo }.sendDataInternal data).traffic :=
      ⟨(hnext hop).sendDataInternal data, effect_sendDataInternal { io with todo := todo } hputs
        (fun hoff => (hnext hop).outbound_nil hoff (.inl (hsync hop hoff))) data⟩
    cases op with
    | sendDataInternal data =>
      cases hstep
      exact hsend data (by simp)
    | sendTmp =>
      cases hstep
      exact hsend [io.tmp] (by simp)
    | recvDataInternal len =>
      simp only at hstep
      have hmem : Op.join ∉ [Op.sendDataInternal [], .clearHasSent, .recvMessage len] ++ todo := by
        simpa using htail
      split at hstep
      · cases hstep
        exact ⟨h.setTodo (by rw [htodo]; simp) hmem, .quiet _⟩
      · cases hstep
        exact ⟨h.setTodo (by rw [htodo]; simp) (by simpa using htail), .quiet _⟩
    | clearHasSent =>
      simp only [Option.some.injEq] at hstep
      subst hstep
      have hio := hnext (by simp)
      exact ⟨⟨hio.join_iff, hio.join_tail, hio.on, hio.off, hio.gone⟩, .quiet _⟩
    | recvMessage len => cases hstep
    | startAsyncFlush =>
      simp only at hstep
      split at hstep
      · cases hstep
        exact ⟨hnext (by simp), .quiet _⟩
      · rename_i hoff
        rw [Bool.not_eq_true] at hoff
        cases hstep
        have hio := hnext (by simp)
        have hnone := hsync (by simp) hoff
        have heffect := effect_sendDataInternal { io with todo := todo } hputs
          (fun _ => hio.outbound_nil hoff (.inl hnone)) []
        refine ⟨⟨?_, ?_, by simp, by simp, by simp⟩, ?_⟩
        · have hne : todo.head? ≠ some .join := fun hh => htail (List.mem_of_mem_head? hh)
          simp [hne]
        · rw [todo_sendDataInternal]
          exact fun hh => htail (List.mem_of_mem_tail hh)
        · -- the new thread has taken nothing yet
          have hfl : ({ io with todo := todo }.sendDataInternal []).flushThread = .none := by
            rw [flushThread_sendDataInternal, hnone]
          rw [traffic, traffic, outbound, outbound, hfl] at heffect
          exact heffect
    | stopAsyncFlush =>
      simp only at hstep
      split at hstep
      · rename_i hasync
        split at hstep
        · cases hstep
        · cases hstep
          have hon := h.on hasync
          refine ⟨⟨by simp [hon.1], htail, by simp, fun _ => hputs, fun hgone => ?_⟩, .quiet _⟩
          rcases hgone with hgone | hgone
          · exact absurd hgone hon.1
          · exact absurd hgone hon.2.2
      · cases hstep
        exact ⟨hnext (by simp), .quiet _⟩
    | join =>
      simp only at hstep
      split at hstep
      · rename_i hdone
        cases hstep
        have hoff := (hjoin.mp rfl).1
        have hio : Threads { io with todo := todo, flushThread := .none } := by
          have hne : todo.head? ≠ some .join := fun hh => htail (List.mem_of_mem_head? hh)
          refine ⟨by simp [hne], fun hh => htail (List.mem_of_mem_tail hh), ?_, h.off,
            fun _ => h.gone (.inr hdone)⟩
          intro hon
          rw [hoff] at hon
          cases hon
        refine ⟨hio.sendDataInternal [], ?_⟩
        have heffect := effect_sendDataInternal { io with todo := todo, flushThread := .none } hputs
          (fun _ => hio.outbound_nil hoff (.inl rfl)) []
        rw [traffic, hio.outbound_nil hoff (.inl rfl)] at heffect
        rw [traffic, h.outbound_nil hoff (.inr hdone)]
        exact heffect
      · cases hstep

/-- A step of the caller. -/
theorem callerStep_spec {io io' : WebSocketIo σ} (h : Threads io)
    (hstep : io.callerStep = some io') : Threads io' ∧ Effect io.traffic io'.traffic := by
  unfold callerStep at hstep
  cases hputs : io.puts with
  | nil =>
    rw [hputs] at hstep
    exact opStep_spec h hputs hstep
  | cons buf puts =>
    -- frames are put into the queue only while the flush thread is on
    have hasync : io.sendCtx.async = true := by
      by_contra hno
      have := h.off (by simpa using hno)
      simp [hputs] at this
    rw [hputs] at hstep
    simp only at hstep
    split at hstep
    · cases hstep
    · cases hstep
      have hon := h.on hasync
      refine ⟨⟨h.join_iff, h.join_tail, h.on, fun hoff => ?_, fun hgone => ?_⟩, ?_⟩
      · rw [hasync] at hoff
        cases hoff
      · rcases hgone with hgone | hgone
        · exact absurd hgone hon.1
        · exact absurd hgone hon.2.2
      · have hout : io.outbound = io.flushThread.inFlight ++
            (putToFlushCtx io.sendCtx.flushCtx buf).list ++ puts := by
          rw [outbound, hputs, putToFlushCtx]
          simp
        rw [traffic, hout]
        exact .quiet _

/-- The end of a receive. -/
theorem recvReturn_spec {io io' : WebSocketIo σ} {fuel : Nat} (h : Threads io)
    (hstep : io.recvReturn fuel = some io') : Threads io' ∧ Effect io.traffic io'.traffic := by
  unfold recvReturn at hstep
  split at hstep
  · rename_i len todo hputs htodo
    have hhead : io.todo.head? ≠ some .join := by simp [htodo]
    have htail := h.join_tail
    rw [htodo, List.tail_cons] at htail
    have hread := Effect.read io.traffic fuel io.recvCtx len
    have hstream : (recvMessage fuel io.recvCtx len io.traffic.stream).2.2 =
        (recvMessage fuel io.recvCtx len io.channelStream).2.2 := rfl
    rw [hstream] at hread
    have hkeep (recvCtx : RecvCtx) (stream : σ) (tmp : UInt8) (todo : List Op)
        (htodo : Op.join ∉ todo) : Threads { io with
          recvCtx := recvCtx, channelStream := stream, tmp := tmp, todo := todo } :=
      have hio := h.setTodo hhead htodo
      ⟨hio.join_iff, hio.join_tail, hio.on, hio.off, hio.gone⟩
    split at hstep
    · cases hstep
    · rename_i heq
      rw [heq] at hread
      cases hstep
      exact ⟨hkeep _ _ _ _ (by simp), hread⟩
    · rename_i heq
      rw [heq] at hread
      cases hstep
      exact ⟨hkeep _ _ _ _ htail, hread⟩
  · cases hstep

/-- The flush thread touches the queue and the stream only. -/
theorem flusherStep_caller {io io' : WebSocketIo σ} (hstep : io.flusherStep = some io') :
    io'.isServer = io.isServer ∧ io'.hasSent = io.hasSent ∧ io'.puts = io.puts ∧
      io'.todo = io.todo ∧ io'.tmp = io.tmp ∧ io'.sends = io.sends ∧
      io'.sendCtx.async = io.sendCtx.async ∧ io'.sendCtx.buffer = io.sendCtx.buffer := by
  unfold flusherStep at hstep
  cases hfl : io.flushThread with
  | none | done =>
    rw [hfl] at hstep
    cases hstep
  | locked =>
    rw [hfl] at hstep
    simp only at hstep
    split at hstep
    · cases hstep
      simp
    · split at hstep <;> cases hstep <;> simp
  | _ =>
    rw [hfl] at hstep
    cases hstep
    simp

/-- A step of the flush thread. -/
theorem flusherStep_spec {io io' : WebSocketIo σ} (h : Threads io)
    (hstep : io.flusherStep = some io') : Threads io' ∧ Effect io.traffic io'.traffic := by
  unfold flusherStep at hstep
  -- a move that takes no frame
  have hmove {fl : Flusher} (hin : fl.inFlight = io.flushThread.inFlight) :
      Effect io.traffic { io with flushThread := fl }.traffic := by
    rw [traffic, traffic, outbound, outbound, hin]
    exact .quiet _
  cases hfl : io.flushThread with
  | none =>
    rw [hfl] at hstep
    cases hstep
  | done =>
    rw [hfl] at hstep
    cases hstep
  | test =>
    rw [hfl] at hstep
    cases hstep
    refine ⟨h.setFlushThread (by simp [hfl]) ?_ ?_ ?_, hmove ?_⟩
    · split <;> simp
    · split <;> simp_all
    · split <;> simp
    · rw [hfl]
      split <;> rfl
  | testQueue =>
    have hoff : io.sendCtx.async = false := by
      by_contra hno
      exact (h.on (by simpa using hno)).2.1 hfl
    rw [hfl] at hstep
    cases hstep
    refine ⟨h.setFlushThread (by simp [hfl]) ?_ (fun _ => hoff) ?_, hmove ?_⟩
    · split <;> simp
    · split
      · rename_i hempty
        intro _
        simpa [emptyFlushCtx] using hempty
      · simp
    · rw [hfl]
      split <;> rfl
  | lock =>
    rw [hfl] at hstep
    cases hstep
    exact ⟨h.setFlushThread (by simp [hfl]) (by simp) (by simp) (by simp), hmove (by rw [hfl]; rfl)⟩
  | locked =>
    rw [hfl] at hstep
    simp only at hstep
    split at hstep
    · cases hstep
      exact ⟨h.setFlushThread (by simp [hfl]) (by simp) (by simp) (by simp),
        hmove (by rw [hfl]; rfl)⟩
    · cases hlist : io.sendCtx.flushCtx.list with
      | nil =>
        simp only [getFromFlushCtx, hlist, Option.some.injEq] at hstep
        subst hstep
        exact ⟨h.setFlushThread (by simp [hfl]) (by simp) (by simp) (by simp),
          hmove (by rw [hfl]; rfl)⟩
      | cons frame rest =>
        simp only [getFromFlushCtx, hlist, Option.some.injEq] at hstep
        subst hstep
        have hio := h.setFlushThread (by simp [hfl]) (show Flusher.sending frame ≠ .none by simp)
          (by simp) (by simp)
        refine ⟨⟨hio.join_iff, hio.join_tail, hio.on, hio.off, by simp⟩, ?_⟩
        have hout : io.outbound = [frame] ++ rest ++ io.puts := by
          rw [outbound, hfl, hlist]
          rfl
        rw [traffic, hout]
        exact .quiet _
  | waiting =>
    rw [hfl] at hstep
    cases hstep
    exact ⟨h.setFlushThread (by simp [hfl]) (by simp) (by simp) (by simp), hmove (by rw [hfl]; rfl)⟩
  | sending frame =>
    rw [hfl] at hstep
    cases hstep
    have hio := h.setFlushThread (by simp [hfl]) (show Flusher.test ≠ .none by simp)
      (by simp) (by simp)
    refine ⟨⟨hio.join_iff, hio.join_tail, hio.on, hio.off, by simp⟩, ?_⟩
    have hout : io.outbound = frame :: (io.sendCtx.flushCtx.list ++ io.puts) := by
      rw [outbound, hfl]
      rfl
    exact .write io.traffic frame (io.sendCtx.flushCtx.list ++ io.puts) hout

/-- **One step** keeps the positions of the threads and is one of the effects. -/
theorem step_effect {io io' : WebSocketIo σ} {e : Event} (h : Threads io)
    (hstep : io.step e = some io') : Threads io' ∧ Effect io.traffic io'.traffic := by
  cases e with
  | call c =>
    simp only [step] at hstep
    split at hstep
    · rename_i hidle
      cases hstep
      refine ⟨h.setTodo (by simp [hidle.2]) ?_, .quiet _⟩
      cases c with
      | sync =>
        rw [Call.body]
        split <;> simp
      | _ => simp [Call.body]
    · cases hstep
  | caller => exact callerStep_spec h hstep
  | recvReturn fuel => exact recvReturn_spec h hstep
  | flusher => exact flusherStep_spec h hstep

end WebSocketIo

end

end ZktlsNet
